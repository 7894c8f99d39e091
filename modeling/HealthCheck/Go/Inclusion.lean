import Mathlib.Data.List.Forall2
import Mathlib.Data.List.Perm.Subperm

/-!
# Comparing slices by length and inclusion

Two slices of the same length, the one with all its elements in the other, need not have the same
elements: repetitions are not counted. This file says what is missing for the comparison to decide
equality up to order. A nil slice is a slice without elements, but a comparison may tell it from
other empty ones.
-/

namespace HealthCheck.Go

/-- A slice of Go, of which only the elements are seen, and whether it is nil. -/
inductive Slice (α : Type*)
  | nil
  | of (elems : List α)
  deriving DecidableEq

/-- The elements of a slice. -/
def Slice.elems {α : Type*} : Slice α → List α
  | .nil => []
  | .of elems => elems

/-! ### Lists -/

section Lists

variable {κ : Type*} {xs ys : List κ}

/-- The list is as long as the other one, and its elements are in it. -/
def Covered (xs ys : List κ) : Prop := xs.length = ys.length ∧ xs ⊆ ys

theorem covered_of_perm (h : xs.Perm ys) : Covered xs ys := ⟨h.length_eq, h.subset⟩

/-- Some element is more often in the list than in the other one. -/
def Exceeds [DecidableEq κ] (xs ys : List κ) : Prop := ∃ k ∈ xs, ys.count k < xs.count k

instance [DecidableEq κ] (xs ys : List κ) : Decidable (Exceeds xs ys) :=
  inferInstanceAs (Decidable (∃ k ∈ xs, _))

/-- A list is another one up to order exactly if it is covered and exceeds it nowhere. -/
theorem perm_iff_covered [DecidableEq κ] : xs.Perm ys ↔ Covered xs ys ∧ ¬ Exceeds xs ys := by
  constructor
  · intro hperm
    refine ⟨covered_of_perm hperm, ?_⟩
    rintro ⟨k, -, hlt⟩
    rw [hperm.count_eq] at hlt
    omega
  · rintro ⟨⟨hlength, -⟩, hexceeds⟩
    have hsubperm : xs.Subperm ys := by
      rw [List.subperm_ext_iff]
      intro k hk
      by_contra hlt
      exact hexceeds ⟨k, hk, Nat.lt_of_not_le hlt⟩
    exact hsubperm.perm_of_length_le (Nat.le_of_eq hlength.symm)

/-- The two nested loops that compare by key. -/
theorem covered_map_iff {α : Type*} {key : α → κ} {same : α → α → Bool}
    (hsame : ∀ a b, same a b = true ↔ key a = key b) {new old : List α} :
    (new.length == old.length && new.all fun a => old.any fun b => same a b) = true ↔
      Covered (new.map key) (old.map key) := by
  rw [Bool.and_eq_true, beq_iff_eq, Covered, List.length_map, List.length_map]
  refine and_congr_right fun _ => ?_
  simp only [List.all_eq_true, List.any_eq_true, hsame]
  constructor
  · intro h k hk
    obtain ⟨a, ha, rfl⟩ := List.mem_map.mp hk
    obtain ⟨b, hb, hab⟩ := h a ha
    exact List.mem_map.mpr ⟨b, hb, hab.symm⟩
  · intro h a ha
    obtain ⟨b, hb, hab⟩ := List.mem_map.mp (h (List.mem_map_of_mem ha))
    exact ⟨b, hb, hab.symm⟩

end Lists

/-! ### Pairs of lists -/

section Pairs

variable {α β : Type*} {R S : α → β → Prop} {xs : List α} {ys : List β}

/-- Two conditions on each pair. -/
theorem forall₂_and_iff :
    List.Forall₂ (fun x y => R x y ∧ S x y) xs ys ↔
      List.Forall₂ R xs ys ∧ ∀ pair ∈ xs.zip ys, S pair.1 pair.2 := by
  rw [List.forall₂_iff_zip, List.forall₂_iff_zip]
  constructor
  · rintro ⟨hlength, hpairs⟩
    exact ⟨⟨hlength, fun hpair => (hpairs hpair).1⟩, fun pair hpair => (hpairs hpair).2⟩
  · rintro ⟨⟨hlength, hfirst⟩, hsecond⟩
    exact ⟨hlength, fun hpair => ⟨hfirst hpair, hsecond _ hpair⟩⟩

end Pairs

end HealthCheck.Go
