import Mathlib.Tactic.Common

/-!
# Scanners

A scanner reads one symbol after the other and keeps a state. Some symbol may stop it with a result;
until then it can be given more input. What it says does not depend on how the input is cut into
pieces, as long as every piece is read once.
-/

namespace HealthCheck.Scanner

variable {σ ρ α : Type*}

/-- Where a scanner is after some input. -/
inductive Scan (σ ρ : Type*) where
  | again (state : σ)
  | stop (result : ρ)
  deriving DecidableEq

/-- Go on with the state, unless there is a result. -/
def Scan.andThen (scan : Scan σ ρ) (f : σ → Scan σ ρ) : Scan σ ρ :=
  match scan with
  | .again state => f state
  | .stop result => .stop result

@[simp] theorem Scan.andThen_again (s : σ) (f : σ → Scan σ ρ) : (Scan.again s).andThen f = f s :=
  rfl

@[simp] theorem Scan.andThen_stop (r : ρ) (f : σ → Scan σ ρ) :
    (Scan.stop r).andThen f = .stop r := rfl

variable (step : σ → α → Scan σ ρ)

/-- Read a list of symbols. -/
def scan (s : σ) : List α → Scan σ ρ
  | [] => .again s
  | x :: xs => (step s x).andThen fun s' => scan s' xs

variable {step} {s s' : σ} {xs ys : List α}

@[simp] theorem scan_nil : scan step s [] = .again s := rfl

theorem scan_cons (x : α) (xs : List α) :
    scan step s (x :: xs) = (step s x).andThen fun s' => scan step s' xs := rfl

theorem scan_cons_again {x : α} (h : step s x = .again s') :
    scan step s (x :: xs) = scan step s' xs := by
  rw [scan_cons, h, Scan.andThen_again]

theorem scan_cons_stop {x : α} {r : ρ} (h : step s x = .stop r) :
    scan step s (x :: xs) = .stop r := by
  rw [scan_cons, h, Scan.andThen_stop]

/-- Two pieces are read one after the other. -/
theorem scan_append (xs ys : List α) :
    scan step s (xs ++ ys) = (scan step s xs).andThen fun s' => scan step s' ys := by
  induction xs generalizing s with
  | nil => rfl
  | cons x xs ih =>
    rw [List.cons_append, scan_cons, scan_cons]
    cases step s x with
    | again s' => exact ih
    | stop r => rfl

theorem scan_append_again (h : scan step s xs = .again s') (ys : List α) :
    scan step s (xs ++ ys) = scan step s' ys := by
  rw [scan_append, h, Scan.andThen_again]

theorem scan_append_stop {r : ρ} (h : scan step s xs = .stop r) (ys : List α) :
    scan step s (xs ++ ys) = .stop r := by
  rw [scan_append, h, Scan.andThen_stop]

/-- A state in which the scanner stays. -/
theorem scan_of_stays (h : ∀ x ∈ xs, step s x = .again s) : scan step s xs = .again s := by
  induction xs with
  | nil => rfl
  | cons x xs ih =>
    obtain ⟨hx, hxs⟩ := List.forall_mem_cons.mp h
    rw [scan_cons_again hx, ih hxs]

theorem scan_cons_ne {x : α} {r : ρ} (h : ∃ r', r' ≠ r ∧ step s x = .stop r') :
    scan step s (x :: xs) ≠ .stop r := by
  obtain ⟨r', hne, hstop⟩ := h
  rw [scan_cons_stop hstop]
  exact fun heq => hne (Scan.stop.inj heq)

/-- A result to which only some symbols lead from a state. -/
theorem exists_of_scan_cons (leaves : α → Prop) {r : ρ}
    (hother : ∀ x, ¬ leaves x → ∃ r', r' ≠ r ∧ step s x = .stop r')
    (hleaves : ∀ x, leaves x → step s x = .again s') (h : scan step s xs = .stop r) :
    ∃ x rest, xs = x :: rest ∧ leaves x ∧ scan step s' rest = .stop r := by
  cases xs with
  | nil => cases h
  | cons x xs =>
    by_cases hx : leaves x
    · rw [scan_cons_again (hleaves x hx)] at h
      exact ⟨x, xs, rfl, hx, h⟩
    · exact absurd h (scan_cons_ne (hother x hx))

/-- The same for a state in which the scanner may stay for a while. -/
theorem exists_of_scan_stays (stays leaves : α → Prop) {r : ρ}
    (hother : ∀ x, ¬ stays x → ¬ leaves x → ∃ r', r' ≠ r ∧ step s x = .stop r')
    (hstays : ∀ x, stays x → step s x = .again s) (hleaves : ∀ x, leaves x → step s x = .again s')
    (h : scan step s xs = .stop r) :
    ∃ first x rest, xs = first ++ x :: rest ∧ (∀ y ∈ first, stays y) ∧ leaves x ∧
      scan step s' rest = .stop r := by
  induction xs with
  | nil => cases h
  | cons x xs ih =>
    by_cases hstay : stays x
    · rw [scan_cons_again (hstays x hstay)] at h
      obtain ⟨first, y, rest, rfl, hfirst, hy, hrest⟩ := ih h
      exact ⟨x :: first, y, rest, rfl, List.forall_mem_cons.mpr ⟨hstay, hfirst⟩, hy, hrest⟩
    · by_cases hleave : leaves x
      · rw [scan_cons_again (hleaves x hleave)] at h
        exact ⟨[], x, xs, rfl, by simp, hleave, h⟩
      · exact absurd h (scan_cons_ne (hother x hstay hleave))

/-! ### What is left behind a result -/

variable (step) in
/-- Read up to a result, and keep what comes behind it. -/
def scanRest (s : σ) : List α → Scan σ (ρ × List α)
  | [] => .again s
  | x :: xs =>
    match step s x with
    | .again s' => scanRest s' xs
    | .stop r => .stop (r, xs)

/-- A scanner that starts anew wherever it has no result to give. -/
def restart (step : σ → α → Scan σ (Option ρ)) (s₀ s : σ) (x : α) : Scan σ ρ :=
  match step s x with
  | .again s' => .again s'
  | .stop none => .again s₀
  | .stop (some r) => .stop r

/-! ### States that cannot be told apart -/

/-- Two scans with the same result, or without one in related states. -/
inductive Scan.Rel (R : σ → σ → Prop) : Scan σ ρ → Scan σ ρ → Prop where
  | again {s s' : σ} (related : R s s') : Rel R (.again s) (.again s')
  | stop (result : ρ) : Rel R (.stop result) (.stop result)

/-- When every step leads to the same result or to related states, then so does all input. -/
theorem scanRest_rel {R : σ → σ → Prop}
    (hstep : ∀ s s' x, R s s' → Scan.Rel R (step s x) (step s' x)) (h : R s s') (xs : List α) :
    Scan.Rel R (scanRest step s xs) (scanRest step s' xs) := by
  induction xs generalizing s s' with
  | nil => exact .again h
  | cons x xs ih =>
    have hrel := hstep s s' x h
    rw [scanRest, scanRest]
    generalize step s x = first, step s' x = second at hrel ⊢
    cases hrel with
    | again hnext => exact ih hnext
    | stop r => exact .stop (r, xs)

end HealthCheck.Scanner
