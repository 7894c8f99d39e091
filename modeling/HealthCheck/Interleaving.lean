import Mathlib.Logic.Function.Basic

/-!
# Processes that share a memory

Every process has a local state; the memory belongs to all of them. A run is a sequence of
accesses, each made by one process on an input from its environment, in any order. An assertion
about each process and the memory is kept by an access when the process that makes it
establishes its own assertion again and the assertions of the others survive the change of the
memory.
-/

namespace HealthCheck.Interleaving

variable {Pid Local Mem Input : Type}

/-- The local states of the processes and the memory. -/
@[ext]
structure System (Pid Local Mem : Type) where
  locals : Pid → Local
  memory : Mem

variable [DecidableEq Pid] (access : Pid → Input → Local → Mem → Local × Mem)

namespace System

/-- One process makes an access. -/
def step (s : System Pid Local Mem) (op : Pid × Input) : System Pid Local Mem where
  locals := Function.update s.locals op.1 (access op.1 op.2 (s.locals op.1) s.memory).1
  memory := (access op.1 op.2 (s.locals op.1) s.memory).2

/-- The assertion holds of every process. -/
def Holds (A : Pid → Local → Mem → Prop) (s : System Pid Local Mem) : Prop :=
  ∀ p, A p (s.locals p) s.memory

variable {access} {A : Pid → Local → Mem → Prop} {s : System Pid Local Mem} {p q : Pid} {i : Input}

@[simp] theorem step_memory :
    (s.step access (p, i)).memory = (access p i (s.locals p) s.memory).2 := rfl

@[simp] theorem step_locals_self :
    (s.step access (p, i)).locals p = (access p i (s.locals p) s.memory).1 :=
  Function.update_self ..

theorem step_locals_of_ne (hne : q ≠ p) : (s.step access (p, i)).locals q = s.locals q :=
  Function.update_of_ne hne ..

/-- Absence of interference: what the process that makes the access establishes for itself, and
what the others keep. -/
theorem holds_step (hown : A p (access p i (s.locals p) s.memory).1 (s.step access (p, i)).memory)
    (hothers : ∀ q, q ≠ p → A q (s.locals q) (s.step access (p, i)).memory) :
    Holds A (s.step access (p, i)) := by
  intro q
  by_cases hq : q = p
  · subst hq
    rw [step_locals_self]
    exact hown
  · rw [step_locals_of_ne hq]
    exact hothers q hq

variable (access) in
/-- A process that runs alone. -/
def alone (p : Pid) (start : Local × Mem) (is : List Input) : Local × Mem :=
  is.foldl (fun r i => access p i r.1 r.2) start

omit [DecidableEq Pid] in
theorem alone_append (p : Pid) (start : Local × Mem) (first second : List Input) :
    alone access p start (first ++ second) = alone access p (alone access p start first) second :=
  List.foldl_append

/-- While one process runs alone, only its local state and the memory change. -/
theorem foldl_alone (p : Pid) (is : List Input) (s : System Pid Local Mem) :
    (is.map fun i => (p, i)).foldl (step access) s =
      { locals := Function.update s.locals p (alone access p (s.locals p, s.memory) is).1
        memory := (alone access p (s.locals p, s.memory) is).2 } := by
  induction is generalizing s with
  | nil =>
    ext q
    · simp [alone]
    · rfl
  | cons i is ih =>
    rw [List.map_cons, List.foldl_cons, ih, step_locals_self, step_memory]
    simp [step, alone]

/-- Two processes in the same state that make the same accesses in turn, when repeating an access
has no further effect: the memory is as after the accesses of one of them. -/
theorem foldl_lockstep {R : Local → Prop} (hne : q ≠ p) {is : List Input}
    (hrepeat : ∀ i ∈ is, ∀ l m, R l → R (access p i l m).1 ∧
      access q i l (access p i l m).2 = access p i l m)
    (s : System Pid Local Mem) (hsame : s.locals q = s.locals p) (hR : R (s.locals p)) :
    (is.flatMap fun i => [(p, i), (q, i)]).foldl (step access) s =
      { locals := Function.update (Function.update s.locals p
          (alone access p (s.locals p, s.memory) is).1) q
          (alone access p (s.locals p, s.memory) is).1
        memory := (alone access p (s.locals p, s.memory) is).2 } := by
  induction is generalizing s with
  | nil =>
    ext r
    · have hself : Function.update s.locals q (s.locals p) = s.locals := by
        rw [← hsame, Function.update_eq_self]
      simp [alone, hself]
    · rfl
  | cons i is ih =>
    obtain ⟨hi, his⟩ := List.forall_mem_cons.mp hrepeat
    obtain ⟨hR', htwice⟩ := hi (s.locals p) s.memory hR
    have hsecond : access q i ((s.step access (p, i)).locals q) (s.step access (p, i)).memory =
        access p i (s.locals p) s.memory := by
      rw [step_locals_of_ne hne, hsame, step_memory]
      exact htwice
    have hp : ((s.step access (p, i)).step access (q, i)).locals p =
        (access p i (s.locals p) s.memory).1 := by
      rw [step_locals_of_ne hne.symm, step_locals_self]
    have hq : ((s.step access (p, i)).step access (q, i)).locals q =
        (access p i (s.locals p) s.memory).1 := by
      rw [step_locals_self, hsecond]
    have hmemory : ((s.step access (p, i)).step access (q, i)).memory =
        (access p i (s.locals p) s.memory).2 := by
      rw [step_memory, hsecond]
    rw [List.flatMap_cons, List.foldl_append, List.foldl_cons, List.foldl_cons, List.foldl_nil,
      ih his _ (by rw [hq, hp]) (by rw [hp]; exact hR'), hp, hmemory]
    ext r
    · by_cases hrq : r = q
      · simp [hrq, alone]
      · by_cases hrp : r = p
        · simp [hrp, hne.symm, alone]
        · simp [hrq, hrp, step]
    · rfl

end System

end HealthCheck.Interleaving
