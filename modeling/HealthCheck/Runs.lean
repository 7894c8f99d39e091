import Mathlib.Tactic.Common

/-!
# Runs of a state machine

A system is a state that each operation changes. Properties of runs come in two
kinds: what every operation must meet in the state where it is performed, and what
holds in every state reached. An invariant that the operations keep connects them.
-/

namespace HealthCheck.Runs

variable {σ ι : Type*} (step : σ → ι → σ)

/-- Every operation of the run meets `P` in the state where it is performed. -/
def Along (P : σ → ι → Prop) : σ → List ι → Prop
  | _, [] => True
  | s, op :: ops => P s op ∧ Along P (step s op) ops

instance Along.decidable (P : σ → ι → Prop) [∀ s op, Decidable (P s op)] :
    ∀ s ops, Decidable (Along step P s ops)
  | _, [] => .isTrue trivial
  | s, op :: ops =>
    have := Along.decidable P (step s op) ops
    inferInstanceAs (Decidable (P s op ∧ Along step P (step s op) ops))

/-- Every state of the run has the property `Q`, the first one included. -/
def Throughout (Q : σ → Prop) : σ → List ι → Prop
  | s, [] => Q s
  | s, op :: ops => Q s ∧ Throughout Q (step s op) ops

variable {step} {Inv : σ → Prop} {P : σ → ι → Prop} {Q : σ → Prop}

/-- An invariant kept by the operations that meet `P` holds at the end of the run. -/
theorem invariant_of_along (hstep : ∀ s op, Inv s → P s op → Inv (step s op)) {s : σ}
    {ops : List ι} (hinit : Inv s) (halong : Along step P s ops) : Inv (ops.foldl step s) := by
  induction ops generalizing s with
  | nil => exact hinit
  | cons op ops ih => exact ih (hstep s op hinit halong.1) halong.2

/-- What follows from the invariant holds throughout the run. -/
theorem throughout_of_along (hstep : ∀ s op, Inv s → P s op → Inv (step s op))
    (hinv : ∀ s, Inv s → Q s) {s : σ} {ops : List ι} (hinit : Inv s)
    (halong : Along step P s ops) : Throughout step Q s ops := by
  induction ops generalizing s with
  | nil => exact hinv s hinit
  | cons op ops ih => exact ⟨hinv s hinit, ih (hstep s op hinit halong.1) halong.2⟩

/-- A demand that every operation meets in every state. -/
theorem along_of_forall {s : σ} {ops : List ι} (hall : ∀ op ∈ ops, ∀ s, P s op) :
    Along step P s ops := by
  induction ops generalizing s with
  | nil => trivial
  | cons op ops ih =>
    obtain ⟨hop, hops⟩ := List.forall_mem_cons.mp hall
    exact ⟨hop s, ih hops⟩

/-- Under an invariant, a demand on the operations carries over to another one. -/
theorem Along.imp {P' : σ → ι → Prop} {s : σ} {ops : List ι} (halong : Along step P s ops)
    (Inv : σ → Prop) (hstep : ∀ s op, Inv s → P s op → Inv (step s op))
    (himp : ∀ s op, Inv s → P s op → P' s op) (hinit : Inv s) : Along step P' s ops := by
  induction ops generalizing s with
  | nil => trivial
  | cons op ops ih =>
    have hnext := ih halong.2 (hstep s op hinit halong.1)
    exact ⟨himp s op hinit halong.1, hnext⟩

/-- The first state of a run is one of its states. -/
theorem Throughout.head {s : σ} {ops : List ι} (h : Throughout step Q s ops) : Q s := by
  cases ops with
  | nil => exact h
  | cons op ops => exact h.1

/-- The states of a run are those after its beginnings, here with the newest operation first. -/
theorem throughout_iff_suffix {s : σ} {ops : List ι} :
    Throughout step Q s ops ↔
      ∀ past, past <:+ ops.reverse → Q (past.foldr (fun op s => step s op) s) := by
  induction ops generalizing s with
  | nil =>
    simp only [List.reverse_nil, List.suffix_nil, forall_eq, List.foldr_nil]
    rfl
  | cons op ops ih =>
    rw [Throughout, ih, List.reverse_cons]
    simp only [List.suffix_concat_iff]
    constructor
    · rintro ⟨hfirst, hrest⟩ past (rfl | ⟨past, rfl, hpast⟩)
      · exact hfirst
      · rw [List.foldr_append]
        exact hrest past hpast
    · intro hall
      refine ⟨hall [] (.inl rfl), fun past hpast => ?_⟩
      have hlast := hall (past ++ [op]) (.inr ⟨past, rfl, hpast⟩)
      rwa [List.foldr_append] at hlast

/-- When an operation that violates `P` is seen in the state it leads to, the runs
throughout which `Q` holds are exactly those whose operations all meet `P`. -/
theorem throughout_iff_along (hstep : ∀ s op, Inv s → P s op → Inv (step s op))
    (hinv : ∀ s, Inv s → Q s) (hviolation : ∀ s op, Inv s → Q (step s op) → P s op)
    {s : σ} {ops : List ι} (hinit : Inv s) :
    Throughout step Q s ops ↔ Along step P s ops := by
  refine ⟨fun hall => ?_, throughout_of_along hstep hinv hinit⟩
  induction ops generalizing s with
  | nil => trivial
  | cons op ops ih =>
    have hop : P s op := hviolation s op hinit hall.2.head
    exact ⟨hop, ih (hstep s op hinit hop) hall.2⟩

end HealthCheck.Runs
