import HealthCheck.Objects

/-!
# The verdict map

`DownEpList` is a map of maps. What matters about it is which verdict is stored for
which endpoint of which service, `DownEpList.entry`. This file gives the operations
that the polls and the reconciler perform on the map, each with its effect on the
entries, and the comparison that decides whether a poll writes its result.
-/

namespace HealthCheck

namespace DownEpList

/-- The verdicts stored for a service. -/
def service (l : DownEpList) (svc : String) : Option EpStatus := l.bind fun m => m.lookup svc

/-- The verdict stored for an endpoint of a service. -/
def entry (l : DownEpList) (svc ep : String) : Option Bool :=
  (l.service svc).bind fun eps => eps.lookup ep

/-- Assigning the verdicts of a service, in a new map when there was none. -/
def setService (l : DownEpList) (svc : String) (eps : EpStatus) : DownEpList :=
  some ((l.getD ∅).insert svc eps)

/-- Deleting a service. -/
def deleteService (l : DownEpList) (svc : String) : DownEpList := l.map fun m => m.erase svc

/-- The nested range loop that overwrites every verdict. -/
def mapStatus (f : String → Bool → Bool) (l : DownEpList) : DownEpList :=
  l.map (Go.Map.mapValues fun _ eps => eps.mapValues f)

/-- The nested range loop that deletes the verdicts equal to `true`. -/
def deleteUp (l : DownEpList) : DownEpList :=
  l.map (Go.Map.mapValues fun _ eps => eps.retain fun _ status => !status)

/-- The entries in the order in which a nested range loop visits them. -/
def pairs (l : DownEpList) : List (String × String × Bool) :=
  (l.getD ∅).visits.flatMap fun s => s.2.visits.map fun e => (s.1, e.1, e.2)

/-- Some endpoint is marked down. -/
def anyDown (l : DownEpList) : Bool := l.pairs.any fun p => !p.2.2

/-- Some endpoint is marked up. -/
def anyUp (l : DownEpList) : Bool := l.pairs.any fun p => p.2.2

/-- The number of services in the map. -/
def len (l : DownEpList) : ℕ := (l.getD ∅).entries.length

theorem service_setService (l : DownEpList) (svc svc' : String) (eps : EpStatus) :
    (l.setService svc eps).service svc' = if svc' = svc then some eps else l.service svc' := by
  cases l with
  | none =>
    change ((∅ : Go.Map String EpStatus).insert svc eps).lookup svc' = _
    rw [Go.Map.lookup_insert_ite]
    rfl
  | some m => exact Go.Map.lookup_insert_ite m svc svc' eps

theorem service_deleteService (l : DownEpList) (svc svc' : String) :
    (l.deleteService svc).service svc' = if svc' = svc then none else l.service svc' := by
  cases l with
  | none => simp [deleteService, service]
  | some m => exact Go.Map.lookup_erase_ite m svc svc'

/-- The verdicts of a service, none when it has no map, with one assigned. -/
theorem lookup_insert_service (l : DownEpList) (svc ep ep' : String) (status : Bool) :
    (((l.service svc).getD ∅).insert ep status).lookup ep' =
      if ep' = ep then some status else l.entry svc ep' := by
  rw [Go.Map.lookup_insert_ite, entry]
  cases l.service svc with
  | none => simp
  | some eps => simp

/-- Assigning the verdict of one endpoint changes that entry only. -/
theorem entry_setService_insert (l : DownEpList) (svc ep svc' ep' : String) (status : Bool) :
    (l.setService svc (((l.service svc).getD ∅).insert ep status)).entry svc' ep' =
      if svc' = svc ∧ ep' = ep then some status else l.entry svc' ep' := by
  rw [entry, service_setService]
  by_cases hsvc : svc' = svc
  · subst hsvc
    simp only [if_true, true_and, Option.bind_some, lookup_insert_service]
  · simp [hsvc, entry]

theorem entry_deleteService (l : DownEpList) (svc svc' ep : String) :
    (l.deleteService svc).entry svc' ep = if svc' = svc then none else l.entry svc' ep := by
  simp only [entry, service_deleteService]
  split <;> rfl

@[simp] theorem entry_mapStatus (f : String → Bool → Bool) (l : DownEpList) (svc ep : String) :
    (l.mapStatus f).entry svc ep = (l.entry svc ep).map (f ep) := by
  cases l with
  | none => rfl
  | some m =>
    simp only [mapStatus, entry, service, Option.map_some, Option.bind_some,
      Go.Map.lookup_mapValues]
    cases m.lookup svc with
    | none => rfl
    | some eps => simp

theorem isSome_mapStatus (f : String → Bool → Bool) (l : DownEpList) :
    (l.mapStatus f).isSome = l.isSome := Option.isSome_map

theorem isSome_service_mapStatus (f : String → Bool → Bool) (l : DownEpList) (svc : String) :
    ((l.mapStatus f).service svc).isSome = (l.service svc).isSome := by
  cases l with
  | none => rfl
  | some m => simp [mapStatus, service]

theorem isSome_service_of_entry {l : DownEpList} {svc ep : String} {status : Bool}
    (hentry : l.entry svc ep = some status) : (l.service svc).isSome = true := by
  obtain ⟨eps, heps, -⟩ := Option.bind_eq_some_iff.mp hentry
  rw [heps]
  rfl

/-- Deleting the up verdicts keeps exactly the down verdicts. -/
@[simp] theorem entry_deleteUp (l : DownEpList) (svc ep : String) :
    l.deleteUp.entry svc ep = (l.entry svc ep).filter fun status => !status := by
  cases l with
  | none => rfl
  | some m =>
    simp only [deleteUp, entry, service, Option.map_some, Option.bind_some,
      Go.Map.lookup_mapValues]
    cases m.lookup svc with
    | none => rfl
    | some eps => simp

/-- A down verdict survives the deletion of the up verdicts. -/
theorem entry_deleteUp_eq_false {l : DownEpList} {svc ep : String} :
    l.deleteUp.entry svc ep = some false ↔ l.entry svc ep = some false := by
  simp

/-- No up verdict is left after the deletion. -/
theorem entry_deleteUp_ne_true {l : DownEpList} {svc ep : String} :
    l.deleteUp.entry svc ep ≠ some true := by
  simp

/-- The visited triples are the entries of the map. -/
theorem mem_pairs {l : DownEpList} {svc ep : String} {status : Bool} :
    (svc, ep, status) ∈ l.pairs ↔ l.entry svc ep = some status := by
  cases l with
  | none => simp [pairs, entry, service, Go.Map.visits]
  | some m =>
    simp only [pairs, entry, service, Option.getD_some, Option.bind_some, List.mem_flatMap,
      List.mem_map, Prod.mk.injEq, Option.bind_eq_some_iff]
    constructor
    · rintro ⟨⟨svc', eps⟩, hsvc, ⟨ep', status'⟩, hep, rfl, rfl, rfl⟩
      exact ⟨eps, Go.Map.mem_visits.mp hsvc, Go.Map.mem_visits.mp hep⟩
    · rintro ⟨eps, hsvc, hep⟩
      exact ⟨(svc, eps), Go.Map.mem_visits.mpr hsvc, (ep, status),
        Go.Map.mem_visits.mpr hep, rfl, rfl, rfl⟩

/-- Visiting the triples finds a verdict exactly if some endpoint has it. -/
theorem exists_mem_pairs_iff {l : DownEpList} {verdict : Bool} :
    (∃ p ∈ l.pairs, p.2.2 = verdict) ↔ ∃ svc ep, l.entry svc ep = some verdict := by
  constructor
  · rintro ⟨⟨svc, ep, status⟩, hmem, rfl⟩
    exact ⟨svc, ep, mem_pairs.mp hmem⟩
  · rintro ⟨svc, ep, hentry⟩
    exact ⟨(svc, ep, verdict), mem_pairs.mpr hentry, rfl⟩

theorem anyDown_iff {l : DownEpList} :
    l.anyDown = true ↔ ∃ svc ep, l.entry svc ep = some false := by
  rw [← exists_mem_pairs_iff]
  simp only [anyDown, List.any_eq_true, Bool.not_eq_true']

theorem anyUp_iff {l : DownEpList} :
    l.anyUp = true ↔ ∃ svc ep, l.entry svc ep = some true := by
  rw [← exists_mem_pairs_iff]
  simp only [anyUp, List.any_eq_true]

end DownEpList

/-- `compareMaps`. The source collects the values of `new` and the values that `old`
has under the same keys and compares the two slices in JSON; a key missing in `old`
ends the comparison. Keys that only `old` has are never looked at. -/
def compareMaps (new old : DownEpList) : Bool :=
  if new.len = 0 ∧ old.len = 0 then true
  else if new.isNone ∨ old.isNone then false
  else
    match new.pairs.mapM fun p => old.entry p.1 p.2.1 with
    | none => false
    | some dataSlice2 => new.pairs.map (fun p => p.2.2) == dataSlice2

/-- A list of lookups that all succeed and agree with the given values. -/
theorem mapM_eq_map_iff {α β : Type} [DecidableEq β] {f : α → Option β} {g : α → β}
    {xs : List α} : xs.mapM f = some (xs.map g) ↔ ∀ x ∈ xs, f x = some (g x) := by
  induction xs with
  | nil => simp
  | cons x xs ih =>
    simp only [List.mapM_cons, List.map_cons, List.mem_cons, forall_eq_or_imp]
    cases hx : f x with
    | none => simp
    | some y =>
      cases hxs : xs.mapM f with
      | none =>
        simp only [hxs] at ih
        simp [← ih]
      | some ys =>
        simp only [hxs, Option.some.injEq] at ih
        simp [← ih]

/-- When `compareMaps` reports no change, every entry of the new map is in the old one. -/
theorem entry_of_compareMaps {new old : DownEpList} (h : compareMaps new old = true)
    {svc ep : String} {status : Bool} (hentry : new.entry svc ep = some status) :
    old.entry svc ep = some status := by
  have hmem := DownEpList.mem_pairs.mpr hentry
  unfold compareMaps at h
  split at h
  · next hempty =>
    have hnil : (new.getD ∅).entries = [] := List.length_eq_zero_iff.mp hempty.1
    simp [DownEpList.pairs, Go.Map.visits, hnil] at hmem
  · split at h
    · simp at h
    · split at h
      · simp at h
      · next values hvalues =>
        have heq : new.pairs.map (fun p => p.2.2) = values := by simpa using h
        rw [← heq, mapM_eq_map_iff] at hvalues
        exact hvalues _ hmem

end HealthCheck
