import Mathlib.Data.List.Chain

/-!
# Deleting from a slice while ranging over it

In Go the loop

    for i, x := range s { if p(x) { s = append(s[:i], s[i+1:]...) } }

goes on over the length and the backing array that `s` had at the start, while the deletions shift
the elements of that array. The element after a deleted one moves into a place that the loop has
passed; behind the shortened slice copies of the last element remain; and slicing beyond the
current length panics.
-/

namespace HealthCheck.Go

variable {α : Type} (p : α → Bool)

/-- The loop with `todo` rounds left, on the backing array `xs` and a slice of length `len`;
`none` is a panic. -/
def deleteRangingFrom : ℕ → ℕ → List α → ℕ → Option (List α)
  | 0, _, xs, len => some (xs.take len)
  | todo + 1, index, xs, len =>
    if (xs[index]?).any p then
      if index + 1 ≤ len then
        deleteRangingFrom todo (index + 1)
          (xs.take index ++ (xs.take len).drop (index + 1) ++ xs.drop (len - 1)) (len - 1)
      else none
    else deleteRangingFrom todo (index + 1) xs len

/-- The loop over a whole slice. -/
def deleteRanging (xs : List α) : Option (List α) := deleteRangingFrom p xs.length 0 xs xs.length

/-- What remains: the element after a deleted one is not looked at. -/
def skim : List α → List α
  | [] => []
  | [a] => if p a then [] else [a]
  | a :: b :: rest => if p a then b :: skim rest else a :: skim (b :: rest)

/-- The last element is to be deleted, and so is another one. -/
def Overruns (xs : List α) : Prop := (∃ a ∈ xs.getLast?, p a) ∧ ∃ a ∈ xs.dropLast, p a

instance (xs : List α) : Decidable (Overruns p xs) := inferInstanceAs (Decidable (_ ∧ _))

variable {p}

/-- Elements that need not be deleted are passed over. -/
theorem deleteRangingFrom_of_none {todo index len : ℕ} {xs : List α}
    (hnone : ∀ k, index ≤ k → ∀ a ∈ xs[k]?, p a = false) :
    deleteRangingFrom p todo index xs len = some (xs.take len) := by
  induction todo generalizing index with
  | zero => rfl
  | succ todo ih =>
    have hhere : (xs[index]?).any p = false := by
      cases hget : xs[index]? with
      | none => rfl
      | some a => exact hnone index le_rfl a hget
    rw [deleteRangingFrom, hhere, if_neg Bool.false_ne_true]
    exact ih fun k hk => hnone k (by omega)

/-- A round that keeps its element. -/
theorem deleteRangingFrom_keep {a : α} (ha : p a = false) (todo len : ℕ) (done tail : List α) :
    deleteRangingFrom p (todo + 1) done.length (done ++ a :: tail) len =
      deleteRangingFrom p todo (done ++ [a]).length (done ++ [a] ++ tail) len := by
  have hget : (done ++ a :: tail)[done.length]? = some a := by simp
  rw [deleteRangingFrom, hget, if_neg (by simp [ha])]
  simp

/-- A round that deletes its element: the rest of the slice moves up by one place, and one more
copy of the last element remains behind it. -/
theorem deleteRangingFrom_delete {a z : α} (ha : p a = true) (todo : ℕ) (done rest : List α)
    (stale : List α) (hlast : ∀ b ∈ (a :: rest).getLast?, b = z) :
    deleteRangingFrom p (todo + 1) done.length (done ++ (a :: rest ++ stale))
        (done.length + (a :: rest).length) =
      deleteRangingFrom p todo (done.length + 1) (done ++ (rest ++ z :: stale))
        (done.length + rest.length) := by
  have hget : (done ++ (a :: rest ++ stale))[done.length]? = some a := by simp
  have hlen : done.length + (a :: rest).length - 1 = done.length + rest.length := by simp
  have hpassed : (done ++ (a :: rest ++ stale)).take done.length = done := by simp
  have hmoved : ((done ++ (a :: rest ++ stale)).take (done.length + (a :: rest).length)).drop
      (done.length + 1) = rest := by
    rw [List.take_length_add_append]
    simp
  have hbehind : (done ++ (a :: rest ++ stale)).drop (done.length + rest.length) = z :: stale := by
    have hfront : a :: rest = (a :: rest).dropLast ++ [z] := by
      rw [List.getLast?_eq_getLast_of_ne_nil (List.cons_ne_nil a rest)] at hlast
      rw [← hlast _ rfl, List.dropLast_append_getLast]
    have hlength : rest.length = (a :: rest).dropLast.length := by simp
    rw [List.drop_length_add_append, hfront, hlength, List.append_assoc]
    simp
  rw [deleteRangingFrom, hget, if_pos (by simpa using ha), if_pos (by simp), hlen, hpassed,
    hmoved, hbehind, List.append_assoc]

/-- The loop behind the slice, where only copies of the last element remain. -/
theorem deleteRangingFrom_stale (done : List α) (z : α) (index k copies : ℕ)
    (hindex : done.length ≤ index) (hcopies : index + k = done.length + copies) :
    deleteRangingFrom p k index (done ++ List.replicate copies z) done.length =
      if p z = true ∧ 0 < k then none else some done := by
  have hget (i : ℕ) (hi : done.length ≤ i) :
      ∀ a ∈ (done ++ List.replicate copies z)[i]?, a = z := by
    intro a ha
    rw [List.getElem?_append_right hi] at ha
    exact List.eq_of_mem_replicate (List.mem_of_getElem? ha)
  cases hz : p z with
  | false =>
    rw [if_neg (by simp), deleteRangingFrom_of_none, List.take_left]
    intro i hi a ha
    rw [hget i (by omega) a ha, hz]
  | true =>
    cases k with
    | zero => simp [deleteRangingFrom]
    | succ k =>
      have hhere : (done ++ List.replicate copies z)[index]? = some z := by
        rw [List.getElem?_append_right hindex, List.getElem?_replicate, if_pos (by omega)]
      rw [deleteRangingFrom, hhere, if_pos (by simpa using hz), if_neg (by omega), if_pos (by simp)]

/-- The loop in the middle: `done` has been passed, `rest` is the rest of the slice, and behind it
`k` copies of the last element remain. -/
theorem deleteRangingFrom_eq (done rest : List α) (z : α) (k : ℕ)
    (hlast : ∀ a ∈ rest.getLast?, a = z) :
    deleteRangingFrom p (rest.length + k) done.length (done ++ (rest ++ List.replicate k z))
        (done.length + rest.length) =
      if p z = true ∧ (0 < k ∨ ∃ a ∈ rest.dropLast, p a = true) then none
      else some (done ++ skim p rest) := by
  induction rest using skim.induct p generalizing done k with
  | case1 =>
    have hstale := deleteRangingFrom_stale (p := p) done z done.length k k le_rfl rfl
    simpa [skim] using hstale
  | case2 a ha =>
    obtain rfl : a = z := hlast a (by simp)
    have hround := deleteRangingFrom_delete ha k done [] (List.replicate k a) hlast
    have hstale := deleteRangingFrom_stale (p := p) done a (done.length + 1) k (k + 1)
      (by omega) (by omega)
    rw [List.length_singleton] at hround ⊢
    rw [Nat.add_comm 1 k, hround]
    simpa [skim, ha, List.replicate_succ] using hstale
  | case3 a ha =>
    obtain rfl : a = z := hlast a (by simp)
    have hstale := deleteRangingFrom_stale (p := p) (done ++ [a]) a _ k k le_rfl rfl
    rw [List.length_singleton, Nat.add_comm 1 k, List.singleton_append,
      deleteRangingFrom_keep (by simpa using ha)]
    simpa [skim, ha] using hstale
  | case4 a b rest ha ih =>
    -- The next element takes the place of the deleted one and is passed over.
    have hround := deleteRangingFrom_delete ha (rest.length + (k + 1)) done (b :: rest)
      (List.replicate k z) hlast
    have hrest := ih (done ++ [b]) (k + 1) fun c hc =>
      hlast c (by simp [List.getLast?_cons, Option.mem_def.mp hc])
    have htodo : (a :: b :: rest).length + k = rest.length + (k + 1) + 1 := by
      simp only [List.length_cons]
      omega
    have hplace : done ++ (b :: rest ++ z :: List.replicate k z) =
        done ++ [b] ++ (rest ++ List.replicate (k + 1) z) := by
      simp [List.replicate_succ]
    have hindex : (done ++ [b]).length = done.length + 1 := by simp
    have hlen : done.length + (b :: rest).length = (done ++ [b]).length + rest.length := by
      simp only [List.length_append, List.length_cons, List.length_nil]
      omega
    rw [htodo, hround, hplace, hlen, ← hindex, hrest]
    simp [skim, ha]
  | case5 a b rest ha ih =>
    have hrest := ih (done ++ [a]) k (by simpa using hlast)
    have htodo : (a :: b :: rest).length + k = (b :: rest).length + k + 1 := by
      simp only [List.length_cons]
      omega
    have hlen : done.length + (a :: b :: rest).length =
        (done ++ [a]).length + (b :: rest).length := by
      simp only [List.length_append, List.length_cons, List.length_nil]
      omega
    rw [htodo, hlen, List.cons_append, deleteRangingFrom_keep (by simpa using ha), hrest]
    simp [skim, ha]

/-- The whole loop. -/
theorem deleteRanging_eq (xs : List α) :
    deleteRanging p xs = if Overruns p xs then none else some (skim p xs) := by
  cases hlast : xs.getLast? with
  | none =>
    obtain rfl := List.getLast?_eq_none_iff.mp hlast
    simp [deleteRanging, deleteRangingFrom, Overruns, skim]
  | some z =>
    have hloop := deleteRangingFrom_eq (p := p) [] xs z 0 (by simp [hlast])
    simpa [deleteRanging, Overruns, hlast] using hloop

/-! ### What remains -/

theorem skim_sublist (xs : List α) : (skim p xs).Sublist xs := by
  induction xs using skim.induct p with
  | case1 => exact .slnil
  | case2 a ha => simp [skim, ha]
  | case3 a ha => simp [skim, ha]
  | case4 a b rest ha ih =>
    rw [skim, if_pos ha]
    exact (ih.cons_cons b).cons a
  | case5 a b rest ha ih =>
    rw [skim, if_neg ha]
    exact ih.cons_cons a

/-- Only elements that are to be deleted are deleted. -/
theorem filter_sublist_skim (xs : List α) : (xs.filter fun a => !p a).Sublist (skim p xs) := by
  induction xs using skim.induct p with
  | case1 => exact .slnil
  | case2 a ha => simp [skim, ha]
  | case3 a ha => simp [skim, ha]
  | case4 a b rest ha ih =>
    rw [skim, if_pos ha, List.filter_cons_of_neg (by simp [ha])]
    cases hb : p b with
    | true =>
      rw [List.filter_cons_of_neg (by simp [hb])]
      exact ih.cons b
    | false =>
      rw [List.filter_cons_of_pos (by simp [hb])]
      exact ih.cons_cons b
  | case5 a b rest ha ih =>
    rw [skim, if_neg ha, List.filter_cons_of_pos (by simp [ha])]
    exact ih.cons_cons a

/-- All elements to be deleted are deleted exactly when no two of them are neighbours. -/
theorem skim_eq_filter_iff (xs : List α) :
    skim p xs = xs.filter (fun a => !p a) ↔ xs.IsChain fun a b => ¬ (p a = true ∧ p b = true) := by
  induction xs using skim.induct p with
  | case1 => simp [skim]
  | case2 a ha => simp [skim, ha]
  | case3 a ha => simp [skim, ha]
  | case4 a b rest ha ih =>
    rw [skim, if_pos ha, List.filter_cons_of_neg (by simp [ha]), List.isChain_cons_cons]
    cases hb : p b with
    | true =>
      -- The second one stays, and the list is longer than it should be.
      rw [List.filter_cons_of_neg (by simp [hb])]
      have hlong := (filter_sublist_skim (p := p) rest).length_le
      constructor
      · intro heq
        rw [← heq, List.length_cons] at hlong
        omega
      · rintro ⟨hnot, -⟩
        exact absurd ⟨ha, rfl⟩ hnot
    | false =>
      rw [List.filter_cons_of_pos (by simp [hb]), List.cons.injEq, ih,
        List.isChain_cons]
      simp [hb]
  | case5 a b rest ha ih =>
    rw [skim, if_neg ha, List.filter_cons_of_pos (by simp [ha]), List.cons.injEq, ih,
      List.isChain_cons_cons]
    simp [ha]

/-- The loop deletes what it is to delete exactly if it does not run over the end and no two of the
elements are neighbours. -/
theorem deleteRanging_eq_filter_iff (xs : List α) :
    deleteRanging p xs = some (xs.filter fun a => !p a) ↔
      ¬ Overruns p xs ∧ xs.IsChain fun a b => ¬ (p a = true ∧ p b = true) := by
  rw [deleteRanging_eq, ← skim_eq_filter_iff]
  by_cases hover : Overruns p xs
  · simp [hover]
  · simp [hover]

theorem length_filter_le_of_forall₂ {xs ys : List α}
    (h : List.Forall₂ (fun a b => p a = true → p b = true) xs ys) :
    (ys.filter fun b => !p b).length ≤ (xs.filter fun a => !p a).length := by
  induction h with
  | nil => exact le_rfl
  | @cons a b xs ys hab _ ih =>
    cases hb : p b with
    | true =>
      rw [List.filter_cons_of_neg (by simp [hb])]
      exact ih.trans ((List.sublist_cons_self a xs).filter _).length_le
    | false =>
      have ha : p a = false := by
        rw [← Bool.not_eq_true] at hb ⊢
        exact fun ha => hb (hab ha)
      rw [List.filter_cons_of_pos (by simp [hb]), List.filter_cons_of_pos (by simp [ha])]
      exact Nat.succ_le_succ ih

/-- Two lists whose elements correspond, with the elements to be deleted of the first among those
of the second, are the same when what is to remain of the first is part of what is to remain of the
second. -/
theorem eq_of_filter_sublist {xs ys : List α}
    (h : List.Forall₂ (fun a b => (p a = true → p b = true) ∧ (p a = true → p b = true → a = b))
      xs ys)
    (hsub : (xs.filter fun a => !p a).Sublist (ys.filter fun b => !p b)) : xs = ys := by
  induction h with
  | nil => rfl
  | @cons a b xs ys hab hrest ih =>
    have hle := length_filter_le_of_forall₂ (hrest.imp fun _ _ h => h.1)
    cases ha : p a with
    | true =>
      have hb := hab.1 ha
      rw [List.filter_cons_of_neg (by simp [ha]), List.filter_cons_of_neg (by simp [hb])] at hsub
      rw [hab.2 ha hb, ih hsub]
    | false =>
      -- There is no room for another element in front of what remains of the rest.
      rw [List.filter_cons_of_pos (by simp [ha])] at hsub
      have hfull : ¬ (a :: xs.filter fun a => !p a).Sublist (ys.filter fun b => !p b) := by
        intro hsub
        have hlength := hsub.length_le
        rw [List.length_cons] at hlength
        omega
      cases hb : p b with
      | true =>
        rw [List.filter_cons_of_neg (by simp [hb])] at hsub
        exact absurd hsub hfull
      | false =>
        rw [List.filter_cons_of_pos (by simp [hb]), List.cons_sublist_cons'] at hsub
        rcases hsub with hsub | ⟨rfl, hsub⟩
        · exact absurd hsub hfull
        · rw [ih hsub]

end HealthCheck.Go
