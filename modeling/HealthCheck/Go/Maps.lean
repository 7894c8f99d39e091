import Mathlib.Data.List.AList

/-!
# Go maps

A Go map is a finite map with one value per key; ranging over it visits every
entry once, in an order of the runtime's choosing. Association lists without
repeated keys have both aspects: `AList.lookup` is indexing, and the list order
is one possible order of iteration. The two range loops that recur in the
controller overwrite the value of every visited key or delete some of the keys.
-/

namespace HealthCheck.Go

variable {α β γ : Type}

/-- A non-nil Go map from `α` to `β`. -/
abbrev Map (α β : Type) := AList fun _ : α => β

namespace Map

/-- The loop `for k, v := range m { m[k] = f(k, v) }`. -/
def mapValues (f : α → β → γ) (m : Map α β) : Map α γ where
  entries := m.entries.map fun e => ⟨e.1, f e.1 e.2⟩
  nodupKeys := by
    have hkeys : (m.entries.map fun e => (⟨e.1, f e.1 e.2⟩ : Sigma fun _ : α => γ)).keys =
        m.entries.keys := by
      simp [List.keys, Function.comp_def]
    rw [List.NodupKeys, hkeys]
    exact m.nodupKeys

/-- The loop `for k, v := range m { if !p(k, v) { delete(m, k) } }`. -/
def retain (p : α → β → Bool) (m : Map α β) : Map α β where
  entries := m.entries.filter fun e => p e.1 e.2
  nodupKeys := m.nodupKeys.sublist List.filter_sublist

/-- The entries in the order in which ranging over this list visits them. -/
def visits (m : Map α β) : List (α × β) := m.entries.map fun e => (e.1, e.2)

variable [DecidableEq α]

/-- Maps are compared by their entries, in a way that evaluates. -/
instance [DecidableEq β] : DecidableEq (Map α β) :=
  fun m m' => decidable_of_iff (m.entries = m'.entries) AList.ext_iff.symm

/-- Overwriting every value changes what each key is mapped to, and no key. -/
@[simp] theorem lookup_mapValues (f : α → β → γ) (m : Map α β) (k : α) :
    (m.mapValues f).lookup k = (m.lookup k).map (f k) := by
  obtain ⟨entries, hnodup⟩ := m
  simp only [AList.lookup, mapValues]
  clear hnodup
  induction entries with
  | nil => rfl
  | cons e es ih =>
    obtain ⟨a, b⟩ := e
    by_cases ha : k = a
    · subst ha
      simp [List.dlookup_cons_eq]
    · rw [List.map_cons, List.dlookup_cons_ne _ _ ha, List.dlookup_cons_ne _ _ ha]
      exact ih

/-- A visited entry is what the map holds under its key. -/
theorem mem_visits {m : Map α β} {k : α} {v : β} :
    (k, v) ∈ m.visits ↔ m.lookup k = some v := by
  rw [← Option.mem_def, AList.mem_lookup_iff]
  simp only [visits, List.mem_map, Prod.mk.injEq]
  constructor
  · rintro ⟨⟨a, b⟩, hmem, rfl, rfl⟩
    exact hmem
  · intro hmem
    exact ⟨⟨k, v⟩, hmem, rfl, rfl⟩

/-- Deleting while ranging keeps exactly the entries that pass the test. -/
@[simp] theorem lookup_retain (p : α → β → Bool) (m : Map α β) (k : α) :
    (m.retain p).lookup k = (m.lookup k).filter (p k) := by
  ext v
  simp only [Option.filter_eq_some_iff, ← mem_visits]
  simp only [visits, retain, List.mem_map, List.mem_filter, Prod.mk.injEq]
  constructor
  · rintro ⟨⟨a, b⟩, ⟨hmem, hp⟩, rfl, rfl⟩
    exact ⟨⟨_, hmem, rfl, rfl⟩, hp⟩
  · rintro ⟨⟨⟨a, b⟩, hmem, rfl, rfl⟩, hp⟩
    exact ⟨_, ⟨hmem, hp⟩, rfl, rfl⟩

/-- Indexing after an assignment. -/
theorem lookup_insert_ite (m : Map α β) (k k' : α) (v : β) :
    (m.insert k v).lookup k' = if k' = k then some v else m.lookup k' := by
  split
  · next h => rw [h, AList.lookup_insert]
  · next h => rw [AList.lookup_insert_ne h]

/-- Indexing after a deletion. -/
theorem lookup_erase_ite (m : Map α β) (k k' : α) :
    (m.erase k).lookup k' = if k' = k then none else m.lookup k' := by
  split
  · next h => rw [h, AList.lookup_erase]
  · next h => rw [AList.lookup_erase_ne h]

end Map

end HealthCheck.Go
