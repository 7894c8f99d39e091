import HealthCheck.Endpoints.Moves
import HealthCheck.Go.Inclusion

/-!
# When an event counts as a change

The Update predicate compares the old and the new object and acts only on a difference: of
`Endpoints` objects the subsets and the labels, of services the ports and the labels. The
comparison is one of lengths and of inclusion, subset by subset, and an empty old list of
addresses always counts as a difference. A new ready address never goes unnoticed; a label that
is gone does.
-/

namespace HealthCheck

/-- `compareMapsStrings`. A map without entries is read back as nil. -/
def compareMapsStrings (data1 data2 : Go.Map String String) : Bool :=
  if data1.visits.isEmpty || data2.visits.isEmpty then false
  else data1.visits.all fun kv => data2.lookup kv.1 == some kv.2

/-- `compareEpAddress`. -/
def compareEpAddress (newAddress oldAddress : List EndpointAddress) : Bool :=
  newAddress.length == oldAddress.length &&
    newAddress.all fun new => oldAddress.any fun old => new.ip == old.ip

/-- `compareEpPorts`. -/
def compareEpPorts (newPorts oldPorts : List EndpointPort) : Bool :=
  newPorts.length == oldPorts.length &&
    newPorts.all fun new => oldPorts.any fun old =>
      new.port == old.port && new.protocol == old.protocol

/-- `compareSvcPorts`. -/
def compareSvcPorts (newPorts oldPorts : List ServicePort) : Bool :=
  newPorts.length == oldPorts.length &&
    newPorts.all fun new => oldPorts.any fun old =>
      new.port == old.port && new.protocol == old.protocol && new.targetPort == old.targetPort

/-- The body of the loop of `compareEpSubsets`. -/
def compareEpSubset (new old : EndpointSubset) : Bool :=
  (!old.addresses.isEmpty && compareEpAddress new.addresses old.addresses) &&
    (!old.notReadyAddresses.isEmpty &&
      compareEpAddress new.notReadyAddresses old.notReadyAddresses) &&
    (!old.ports.isEmpty && compareEpPorts new.ports old.ports)

/-- `compareEpSubsets`. -/
def compareEpSubsets (newSubsets oldSubsets : List EndpointSubset) : Bool :=
  newSubsets.length == oldSubsets.length &&
    (newSubsets.zip oldSubsets).all fun pair => compareEpSubset pair.1 pair.2

/-- An object that the controller manages. -/
def Endpoints.managed (ep : Endpoints) : Bool := (ep.metadata.labels.lookup vsDomain).isSome

/-- Labels that compare as equal are old labels. -/
theorem lookup_of_compareMapsStrings {data1 data2 : Go.Map String String}
    (hsame : compareMapsStrings data1 data2 = true) {key value : String}
    (hkey : data1.lookup key = some value) : data2.lookup key = some value := by
  unfold compareMapsStrings at hsame
  split at hsame
  · cases hsame
  · have hvisit := List.all_eq_true.mp hsame (key, value) (Go.Map.mem_visits.mpr hkey)
    simpa using hvisit

/-- Labels that compare as equal are the same exactly if none is gone. -/
theorem lookup_eq_iff_of_compareMapsStrings {data1 data2 : Go.Map String String}
    (hsame : compareMapsStrings data1 data2 = true) (key : String) :
    data1.lookup key = data2.lookup key ↔
      ((data2.lookup key).isSome = true → (data1.lookup key).isSome = true) := by
  constructor
  · intro heq
    rw [heq]
    exact id
  · intro hkept
    cases hnew : data1.lookup key with
    | some value => exact (lookup_of_compareMapsStrings hsame hnew).symm
    | none =>
      rw [hnew] at hkept
      cases hold : data2.lookup key with
      | none => rfl
      | some value =>
        rw [hold] at hkept
        exact absurd (hkept rfl) (by simp)

/-! ### Subsets -/

/-- What `compareEpPorts` compares. -/
def portKey (port : EndpointPort) : ℤ × String := (port.port, port.protocol)

theorem compareEpAddress_iff {new old : List EndpointAddress} :
    compareEpAddress new old = true ↔
      Go.Covered (new.map EndpointAddress.ip) (old.map EndpointAddress.ip) :=
  Go.covered_map_iff fun _ _ => beq_iff_eq

theorem compareEpPorts_iff {new old : List EndpointPort} :
    compareEpPorts new old = true ↔ Go.Covered (new.map portKey) (old.map portKey) :=
  Go.covered_map_iff fun _ _ => by simp [portKey]

/-- What `compareEpSubsets` tests of two subsets. -/
structure Compared (new old : EndpointSubset) : Prop where
  ready_ne_nil : old.addresses ≠ []
  ready : Go.Covered (new.addresses.map EndpointAddress.ip) (old.addresses.map EndpointAddress.ip)
  notReady_ne_nil : old.notReadyAddresses ≠ []
  notReady : Go.Covered (new.notReadyAddresses.map EndpointAddress.ip)
    (old.notReadyAddresses.map EndpointAddress.ip)
  ports_ne_nil : old.ports ≠ []
  ports : Go.Covered (new.ports.map portKey) (old.ports.map portKey)

theorem compared_of_compareEpSubset {new old : EndpointSubset}
    (hsame : compareEpSubset new old = true) : Compared new old := by
  simp only [compareEpSubset, Bool.and_eq_true, Bool.not_eq_true', List.isEmpty_eq_false_iff,
    compareEpAddress_iff, compareEpPorts_iff] at hsame
  obtain ⟨⟨⟨hready, hips⟩, hnotReady, hips'⟩, hports, hkeys⟩ := hsame
  exact ⟨hready, hips, hnotReady, hips', hports, hkeys⟩

theorem compared_of_compareEpSubsets {new old : List EndpointSubset}
    (hsame : compareEpSubsets new old = true) : List.Forall₂ Compared new old := by
  simp only [compareEpSubsets, Bool.and_eq_true, beq_iff_eq, List.all_eq_true] at hsame
  rw [List.forall₂_iff_zip]
  exact ⟨hsame.1, fun hpair => compared_of_compareEpSubset (hsame.2 _ hpair)⟩

/-- Subsets that compare as equal have the same ready addresses. -/
theorem hasIp_of_compareEpSubsets {new old : List EndpointSubset} {ip : String}
    (hsame : compareEpSubsets new old = true) (hip : HasIp .ready new ip) :
    HasIp .ready old ip := by
  have hcompared := compared_of_compareEpSubsets hsame
  clear hsame
  induction hcompared with
  | nil => exact hip
  | cons hhead _ ih =>
    rw [hasIp_cons] at hip ⊢
    rcases hip with hhere | hrest
    · exact .inl (List.mem_map.mp (hhead.ready.2 (List.mem_map.mpr hhere)))
    · exact .inr (ih hrest)

end HealthCheck
