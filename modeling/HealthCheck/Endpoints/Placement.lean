import HealthCheck.PodServices

/-!
# Where a pod is recorded to be

`_updateEp` is meant to record the node and the name of a pod in the address that it finds. It works
on a copy of the address, so that the node never gets into the object, and neither does a target
reference that was not there; only the fields of an existing reference change. The namespace that it
puts there is that of the `Endpoints` object.
-/

namespace HealthCheck

open Api Api.Client

/-- The address has the node of the pod, and its target reference names the pod. -/
def EndpointAddress.Places (pod : PodAddress) (podNameSpace : String) (addr : EndpointAddress) :
    Prop :=
  addr.nodeName.getD "" = pod.nodeName ∧
    ∃ ref ∈ addr.targetRef, ref.name = pod.podName ∧ ref.nameSpace = podNameSpace

/-- One address with the IP was replaced. -/
def ReplacedAt (ip : String) (old new : List EndpointAddress) : Prop :=
  ∃ (before : List EndpointAddress) (addr addr' : EndpointAddress) (after : List EndpointAddress),
    addr.ip = ip ∧ addr'.ip = ip ∧ old = before ++ addr :: after ∧ new = before ++ addr' :: after

/-- One address with the IP was added. -/
def AddedAt (ip : String) (old new : List EndpointAddress) : Prop :=
  ∃ (before : List EndpointAddress) (addr : EndpointAddress) (after : List EndpointAddress),
    addr.ip = ip ∧ old = before ++ after ∧ new = before ++ addr :: after

/-- What `updateEpInfo` is for: some address with the pod's IP places the pod, addresses are on the
sides where they were, and no other address was changed. -/
structure Records (pod : PodAddress) (podNameSpace : String) (old new : Endpoints) : Prop where
  placed : ∃ side, ∃ addr ∈ listedOn side new.subsets,
    addr.ip = pod.podIp ∧ addr.Places pod podNameSpace
  sides : SidesKept old new
  others : ∃ side, listedOn side.other new.subsets = listedOn side.other old.subsets ∧
    (ReplacedAt pod.podIp (listedOn side old.subsets) (listedOn side new.subsets) ∨
      ((∀ side, ¬ old.Has side pod.podIp) ∧
        AddedAt pod.podIp (listedOn side old.subsets) (listedOn side new.subsets)))

/-! ### What is stored -/

theorem run_createEp_ok {faults : Faults} {svc : Service} {pod : PodAddress} {n : ℕ}
    {s : Server Endpoints} {ep : Endpoints} (hobj : s.object = some ep) (hip : pod.podIp ≠ "")
    (hok : (run faults (createEp svc pod) n s).1 = true) :
    (∀ side, ¬ ep.Has side pod.podIp) ∧
      ∃ stored, (run faults (createEp svc pod) n s).2.2.object = some stored ∧
        stored.subsets = (svc.withAddress pod ep).subsets := by
  have hread := run_fetch_ok hobj rfl hok
  rw [createEp, hread] at hok ⊢
  dsimp only at hok ⊢
  rw [if_pos hip, addAddress] at hok ⊢
  split at hok
  · cases hok
  · next hfresh =>
    rw [if_neg hfresh]
    obtain ⟨stored, hstored, hcontent⟩ := run_send_ok hok
    refine ⟨fun side hside => hfresh ?_, stored, hstored,
      Endpoints.subsets_eq_of_stamp_eq hcontent⟩
    exact (@Side.exists_iff fun side => ep.Has side pod.podIp).mp ⟨side, hside⟩

/-- When `updateEpInfo` returns nil, the object with the address touched or added is stored. -/
theorem run_updateEpInfo_ok {faults : Faults} {nameSpace : String} {svc : Option Service}
    {pod : PodAddress} {n : ℕ} {s : Server Endpoints} {ep : Endpoints} (hobj : s.object = some ep)
    (hip : pod.podIp ≠ "") (hok : (run faults (updateEpInfo nameSpace svc pod) n s).1 = true) :
    ∃ stored, (run faults (updateEpInfo nameSpace svc pod) n s).2.2.object = some stored ∧
      (touchSubsets pod nameSpace ep.subsets = some stored.subsets ∨
        ((∀ side, ¬ ep.Has side pod.podIp) ∧ ∃ v ∈ svc,
          stored.subsets = (v.withAddress pod ep).subsets)) := by
  have hcreated : ∀ m, (run faults (createEpOf svc pod) m s).1 = true →
      ∃ stored, (run faults (createEpOf svc pod) m s).2.2.object = some stored ∧
        ((∀ side, ¬ ep.Has side pod.podIp) ∧ ∃ v ∈ svc,
          stored.subsets = (v.withAddress pod ep).subsets) := by
    intro m hdone
    cases svc with
    | none => cases hdone
    | some v =>
      obtain ⟨hfresh, stored, hstored, hsubs⟩ := run_createEp_ok hobj hip hdone
      exact ⟨stored, hstored, hfresh, v, rfl, hsubs⟩
  have hread := run_fetch_ok hobj rfl hok
  rw [updateEpInfo, hread] at hok ⊢
  dsimp only at hok ⊢
  split at hok
  · next hempty =>
    rw [if_pos hempty]
    obtain ⟨stored, hstored, hadded⟩ := hcreated _ hok
    exact ⟨stored, hstored, .inr hadded⟩
  · next hfull =>
    have hagain := run_fetch_ok hobj rfl hok
    rw [if_neg hfull]
    rw [updateEp, hagain] at hok ⊢
    dsimp only at hok ⊢
    cases htouch : touchSubsets pod nameSpace ep.subsets with
    | some subs =>
      rw [htouch] at hok
      obtain ⟨stored, hstored, hcontent⟩ := run_send_ok hok
      refine ⟨stored, hstored, .inl ?_⟩
      rw [Endpoints.subsets_eq_of_stamp_eq hcontent]
    | none =>
      rw [htouch] at hok
      obtain ⟨stored, hstored, hadded⟩ := hcreated _ hok
      exact ⟨stored, hstored, .inr hadded⟩

/-! ### What is recorded -/

/-- When `updateEpInfo` records the placement. An address that is not listed is created from a
service in the pod's namespace. Of the addresses with the pod's IP, the first one has the pod's node
already and a target reference to change, in an object of the pod's namespace, or a later one places
the pod already. -/
structure Placeable (nameSpace : String) (svc : Option Service) (pod : PodAddress)
    (podNameSpace : String) (ep : Endpoints) : Prop where
  fresh : entriesOf pod.podIp ep.subsets = [] → ∀ v ∈ svc,
    pod.podName ≠ "" ∧ v.metadata.nameSpace = podNameSpace
  listed : ∀ addr rest, entriesOf pod.podIp ep.subsets = addr :: rest →
    (addr.nodeName.getD "" = pod.nodeName ∧ addr.targetRef.isSome = true ∧
        nameSpace = podNameSpace) ∨
      ∃ other ∈ rest, other.Places pod podNameSpace

theorem places_touched_iff {pod : PodAddress} {nameSpace podNameSpace : String}
    {addr : EndpointAddress} : (addr.touched pod nameSpace).Places pod podNameSpace ↔
      addr.nodeName.getD "" = pod.nodeName ∧ addr.targetRef.isSome = true ∧
        nameSpace = podNameSpace := by
  unfold EndpointAddress.Places EndpointAddress.touched
  cases addr.targetRef with
  | none => simp
  | some ref => simp

theorem places_entry_iff {pod : PodAddress} {nameSpace podNameSpace : String} :
    (pod.entry nameSpace).Places pod podNameSpace ↔
      pod.podName ≠ "" ∧ nameSpace = podNameSpace := by
  have hnode : (pod.entry nameSpace).nodeName.getD "" = pod.nodeName := by
    unfold PodAddress.entry
    by_cases hname : pod.nodeName = ""
    · simp [hname]
    · simp [hname]
  rw [EndpointAddress.Places, hnode]
  unfold PodAddress.entry
  by_cases hname : pod.podName = ""
  · simp [hname]
  · simp [hname]

section Stored

variable {pod : PodAddress} {podNameSpace : String} {ep stored : Endpoints}

/-- What touching the address records. -/
theorem records_of_touched_iff {nameSpace : String}
    (htouch : touchSubsets pod nameSpace ep.subsets = some stored.subsets) :
    Records pod podNameSpace ep stored ↔ ∃ addr rest,
      entriesOf pod.podIp ep.subsets = addr :: rest ∧
        ((addr.nodeName.getD "" = pod.nodeName ∧ addr.targetRef.isSome = true ∧
            nameSpace = podNameSpace) ∨
          ∃ other ∈ rest, other.Places pod podNameSpace) := by
  obtain ⟨side, before, addr, after, rest, hip, hold, hnew, hsame, hentries, hentries', -⟩ :=
    entriesOf_touchSubsets htouch
  have hplaced : (∃ side, ∃ found ∈ listedOn side stored.subsets,
      found.ip = pod.podIp ∧ found.Places pod podNameSpace) ↔
        (addr.nodeName.getD "" = pod.nodeName ∧ addr.targetRef.isSome = true ∧
            nameSpace = podNameSpace) ∨
          ∃ other ∈ rest, other.Places pod podNameSpace := by
    rw [exists_listedOn_iff, hentries', List.exists_mem_cons_iff, places_touched_iff]
  constructor
  · intro hrecords
    exact ⟨addr, rest, hentries, hplaced.mp hrecords.placed⟩
  · rintro ⟨addr', rest', hother, hcond⟩
    obtain ⟨rfl, rfl⟩ := List.cons.inj (hentries.symm.trans hother)
    refine ⟨hplaced.mpr hcond, fun ip _ side => hasIp_touchSubsets htouch side ip,
      side, hsame, .inl ⟨before, addr, addr.touched pod nameSpace, after, hip, hip, hold, hnew⟩⟩

/-- What adding the address records. -/
theorem records_of_added_iff {svc : Service} (hfresh : ∀ side, ¬ ep.Has side pod.podIp)
    (hadded : stored.subsets = (svc.withAddress pod ep).subsets) :
    Records pod podNameSpace ep stored ↔
      pod.podName ≠ "" ∧ svc.metadata.nameSpace = podNameSpace := by
  obtain ⟨before, after, hold, hnew⟩ := listedOn_ready_withAddress svc pod ep
  have hother := listedOn_notReady_withAddress svc pod ep
  rw [← hadded] at hnew hother
  have hnone : ∀ side, ∀ addr ∈ listedOn side ep.subsets, addr.ip ≠ pod.podIp :=
    fun side addr haddr hip => hfresh side (hasIp_iff_listedOn.mpr ⟨addr, haddr, hip⟩)
  rw [← places_entry_iff]
  constructor
  · rintro ⟨⟨side, addr, haddr, hip, hplaces⟩, -, -⟩
    cases side with
    | ready =>
      rw [hnew] at haddr
      rcases List.mem_append.mp haddr with hmem | hmem
      · exact absurd hip (hnone .ready addr (hold ▸ List.mem_append_left _ hmem))
      · rcases List.mem_cons.mp hmem with rfl | hmem
        · exact hplaces
        · exact absurd hip (hnone .ready addr (hold ▸ List.mem_append_right _ hmem))
    | notReady =>
      rw [hother] at haddr
      exact absurd hip (hnone .notReady addr haddr)
  · intro hplaces
    refine ⟨⟨.ready, _, hnew ▸ List.mem_append_right _ List.mem_cons_self, rfl, hplaces⟩, ?_,
      .ready, hother, .inr ⟨hfresh, before, _, after, rfl, hold, hnew⟩⟩
    rintro ip ⟨side', hlisted⟩ side
    rw [Endpoints.Has, hadded]
    refine (has_withAddress svc pod ep side ip).trans (or_iff_left ?_)
    rintro ⟨-, rfl⟩
    exact hfresh side' hlisted

end Stored

/-- Whenever `updateEpInfo` returns nil it has recorded where the pod is, exactly if the pod is
placeable. -/
theorem updateEpInfo_records_iff (nameSpace : String) (svc : Option Service) {pod : PodAddress}
    (podNameSpace : String) (hip : pod.podIp ≠ "") {s : Server Endpoints} {ep : Endpoints}
    (hobj : s.object = some ep) :
    (∀ faults n, (run faults (updateEpInfo nameSpace svc pod) n s).1 = true →
        ∃ stored, (run faults (updateEpInfo nameSpace svc pod) n s).2.2.object = some stored ∧
          Records pod podNameSpace ep stored) ↔
      Placeable nameSpace svc pod podNameSpace ep := by
  constructor
  · intro hrecords
    have hreturns := updateEpInfo_ok_iff hobj nameSpace svc pod
    refine ⟨fun hnone v hv => ?_, fun addr rest hentries => ?_⟩
    · have hfresh := entriesOf_eq_nil_iff.mp hnone
      have hok := hreturns.mpr (.inl (Option.isSome_iff_exists.mpr ⟨v, hv⟩))
      obtain ⟨stored, hstored, hrecord⟩ := hrecords .none 0 hok
      obtain ⟨stored', hstored', htouch | ⟨-, v', hv', hsubs⟩⟩ := run_updateEpInfo_ok hobj hip hok
      · rw [touchSubsets_eq_none.mpr hfresh] at htouch
        cases htouch
      · obtain rfl := Option.some.inj (hstored.symm.trans hstored')
        obtain rfl := Option.some.inj (hv.symm.trans hv')
        exact (records_of_added_iff hfresh hsubs).mp hrecord
    · have hlisted : ∃ side, ep.Has side pod.podIp := by
        by_contra hnone
        rw [entriesOf_eq_nil_iff.mpr (not_exists.mp hnone)] at hentries
        cases hentries
      have hok := hreturns.mpr (.inr hlisted)
      obtain ⟨stored, hstored, hrecord⟩ := hrecords .none 0 hok
      obtain ⟨stored', hstored', htouch | ⟨hfresh, -⟩⟩ := run_updateEpInfo_ok hobj hip hok
      · obtain rfl := Option.some.inj (hstored.symm.trans hstored')
        obtain ⟨addr', rest', hentries', hcond⟩ := (records_of_touched_iff htouch).mp hrecord
        obtain ⟨rfl, rfl⟩ := List.cons.inj (hentries.symm.trans hentries')
        exact hcond
      · exact absurd hlisted (not_exists.mpr hfresh)
  · intro hplaceable faults n hok
    obtain ⟨stored, hstored, htouch | ⟨hfresh, v, hv, hsubs⟩⟩ := run_updateEpInfo_ok hobj hip hok
    · refine ⟨stored, hstored, (records_of_touched_iff htouch).mpr ?_⟩
      obtain ⟨-, -, addr, -, rest, -, -, -, -, hentries, -⟩ := entriesOf_touchSubsets htouch
      exact ⟨addr, rest, hentries, hplaceable.listed addr rest hentries⟩
    · refine ⟨stored, hstored, (records_of_added_iff hfresh hsubs).mpr ?_⟩
      exact hplaceable.fresh (entriesOf_eq_nil_iff.mpr hfresh) v hv

/-- The object of a service with one pod on `node-1`. -/
def placedOnNodeOne : Server Endpoints :=
  .holding 1
    { metadata := { name := "web", nameSpace := "prod", resourceVersion := some 1 }
      subsets :=
        [{ addresses := [⟨"10.0.0.7", some "node-1", some ⟨"Pod", "prod", "web-0"⟩⟩] }] }

/-- The service itself. -/
def placedService : Service := { metadata := { name := "web", nameSpace := "prod" } }

/-- A pod with a new address is recorded. -/
theorem updateEpInfo_records_new_pod :
    let pod : PodAddress := ⟨"web-1", "10.0.0.8", "node-2"⟩
    pod.podIp ≠ "" ∧ ∃ ep, placedOnNodeOne.object = some ep ∧
      ∀ faults n,
        (run faults (updateEpInfo "prod" (some placedService) pod) n placedOnNodeOne).1 = true →
          ∃ stored, (run faults (updateEpInfo "prod" (some placedService) pod) n
            placedOnNodeOne).2.2.object = some stored ∧ Records pod "prod" ep stored := by
  have hip : (⟨"web-1", "10.0.0.8", "node-2"⟩ : PodAddress).podIp ≠ "" := by decide
  have hrecords := updateEpInfo_records_iff "prod" (some placedService) "prod" hip
    (rfl : placedOnNodeOne.object = _)
  refine ⟨hip, _, rfl, hrecords.mpr ⟨?_, ?_⟩⟩
  · rintro - v hv
    obtain rfl := Option.some.inj hv
    decide
  · intro addr rest hentries
    cases hentries

/-- The virtual machine behind the address has moved to another node and has a new pod.
`updateEpInfo` returns nil, but the address is still on the old node. -/
theorem updateEpInfo_keeps_old_node :
    let pod : PodAddress := ⟨"web-1", "10.0.0.7", "node-2"⟩
    let r := run .none (updateEpInfo "prod" (some placedService) pod) 0 placedOnNodeOne
    r.1 = true ∧ r.2.2.object.map (fun ep => ep.subsets) = some
        [{ addresses := [⟨"10.0.0.7", some "node-1", some ⟨"Pod", "prod", "web-1"⟩⟩] }] ∧
      ∀ ep stored, r.2.2.object = some stored → ¬ Records pod "prod" ep stored := by
  intro pod r
  have hsubsets : r.2.2.object.map (fun ep => ep.subsets) = some
      [{ addresses := [⟨"10.0.0.7", some "node-1", some ⟨"Pod", "prod", "web-1"⟩⟩] }] := by
    decide +kernel
  refine ⟨by decide +kernel, hsubsets, ?_⟩
  rintro ep stored hstored ⟨⟨side, addr, haddr, -, hnode, -⟩, -, -⟩
  rw [hstored, Option.map_some, Option.some.injEq] at hsubsets
  rw [hsubsets] at haddr
  cases side with
  | ready =>
    obtain rfl := List.mem_singleton.mp haddr
    exact absurd hnode (by decide)
  | notReady => cases haddr

end HealthCheck
