import Mathlib.Data.List.Nodup

/-!
# Lists of keyed entries

A list is searched for the first entry with a given key. With distinct keys such a list is a map,
and a change to one of its entries is a change of the map at one key. Without, the search has an
answer for every key in the list, but one answer for all the entries that share it.
-/

namespace HealthCheck.KeyedLists

variable {α β κ σ : Type*} [DecidableEq κ] {key : α → κ} {l : List α} {k : κ}

/-- The first entry with the key. -/
def first? (key : α → κ) (l : List α) (k : κ) : Option α := l.find? fun x => key x = k

theorem key_of_first? {x : α} (h : first? key l k = some x) : key x = k := by
  simpa using List.find?_some h

theorem mem_of_first? {x : α} (h : first? key l k = some x) : x ∈ l := List.mem_of_find?_eq_some h

/-- A key of the list is found. -/
theorem exists_first? (key : α → κ) {x : α} (hx : x ∈ l) : ∃ y, first? key l (key x) = some y := by
  rw [← Option.isSome_iff_exists, first?, List.find?_isSome]
  exact ⟨x, hx, by simp⟩

/-- With distinct keys every entry is found under its key. -/
theorem first?_eq_some_iff (hnodup : (l.map key).Nodup) {x : α} :
    first? key l k = some x ↔ x ∈ l ∧ key x = k := by
  refine ⟨fun h => ⟨mem_of_first? h, key_of_first? h⟩, ?_⟩
  rintro ⟨hx, rfl⟩
  obtain ⟨y, hy⟩ := exists_first? key hx
  rw [hy, List.inj_on_of_nodup_map hnodup (mem_of_first? hy) hx (key_of_first? hy)]

theorem first?_map {key' : β → κ} {f : α → β} (hf : ∀ x, key' (f x) = key x) (l : List α) (k : κ) :
    first? key' (l.map f) k = (first? key l k).map f := by
  rw [first?, List.find?_map]
  simp only [Function.comp_def, hf]
  rfl

omit [DecidableEq κ] in
theorem find?_congr {p q : α → Bool} (h : ∀ x ∈ l, p x = q x) : l.find? p = l.find? q := by
  induction l with
  | nil => rfl
  | cons x l ih =>
    obtain ⟨hx, hl⟩ := List.forall_mem_cons.mp h
    rw [List.find?_cons, List.find?_cons, hx, ih hl]

omit [DecidableEq κ] in
theorem map_key_modify {f : α → α} (hf : ∀ x, key (f x) = key x) (l : List α) (i : ℕ) :
    (l.modify i f).map key = l.map key := by
  refine List.ext_getElem? fun j => ?_
  rw [List.getElem?_map, List.getElem?_map, List.getElem?_modify]
  cases l[j]? with
  | none => rfl
  | some x =>
    by_cases hj : i = j
    · simp [hj, hf]
    · simp [hj]

/-- A change to an entry is a change of the map at its key. -/
theorem first?_modify (hnodup : (l.map key).Nodup) {f : α → α} (hf : ∀ x, key (f x) = key x)
    {i : ℕ} {x : α} (hx : l[i]? = some x) (k : κ) :
    first? key (l.modify i f) k = if key x = k then some (f x) else first? key l k := by
  have hnodup' : ((l.modify i f).map key).Nodup := by rwa [map_key_modify hf]
  have hat : (l.modify i f)[i]? = some (f x) := by simp [hx]
  split_ifs with hk
  · rw [first?_eq_some_iff hnodup', hf]
    exact ⟨List.mem_of_getElem? hat, hk⟩
  · refine Option.ext fun y => ?_
    rw [first?_eq_some_iff hnodup', first?_eq_some_iff hnodup]
    refine and_congr_left fun hy => ?_
    -- an entry with another key is at another place
    have hplace : ∀ j : ℕ, (l.modify i f)[j]? = some y ↔ l[j]? = some y := by
      intro j
      by_cases hj : i = j
      · subst hj
        rw [hat, hx, Option.some_inj, Option.some_inj]
        constructor
        · rintro rfl
          exact absurd ((hf x).symm.trans hy) hk
        · rintro rfl
          exact absurd hy hk
      · simp [hj]
    simp only [List.mem_iff_getElem?, hplace]

/-- The search answers for each entry as the entry would itself if and only if entries with the same
key agree. -/
theorem first?_agrees_iff (value : α → σ) :
    (∀ x ∈ l, (first? key l (key x)).map value = some (value x)) ↔
      ∀ x ∈ l, ∀ y ∈ l, key x = key y → value x = value y := by
  constructor
  · intro h x hx y hy hkey
    have hxy := (h x hx).symm.trans (hkey ▸ h y hy)
    exact Option.some.inj hxy
  · intro h x hx
    obtain ⟨y, hy⟩ := exists_first? key hx
    rw [hy, Option.map_some, h y (mem_of_first? hy) x hx (key_of_first? hy)]

end HealthCheck.KeyedLists
