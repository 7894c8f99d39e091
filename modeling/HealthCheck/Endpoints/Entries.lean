import HealthCheck.Endpoints.Conservation

/-!
# The address that is touched

`_updateEp` looks for the pod's IP subset by subset, among the ready addresses first. It works on a
copy of the first address that it finds, so that of the object only an existing target reference
changes.
-/

namespace HealthCheck

/-- The addresses with an IP in the order in which `_updateEp` looks for it. -/
def entriesOf (ip : String) (subs : List EndpointSubset) : List EndpointAddress :=
  (subs.flatMap EndpointSubset.both).filter fun addr => addr.ip = ip

theorem exists_listedOn_iff {subs : List EndpointSubset} {ip : String}
    {Q : EndpointAddress → Prop} :
    (∃ side, ∃ addr ∈ listedOn side subs, addr.ip = ip ∧ Q addr) ↔
      ∃ addr ∈ entriesOf ip subs, Q addr := by
  simp only [listedOn, entriesOf, EndpointSubset.both, List.mem_filter, List.mem_flatMap,
    List.mem_append, decide_eq_true_eq]
  constructor
  · rintro ⟨side, addr, ⟨sub, hsub, haddr⟩, hip, hq⟩
    cases side with
    | ready => exact ⟨addr, ⟨⟨sub, hsub, .inl haddr⟩, hip⟩, hq⟩
    | notReady => exact ⟨addr, ⟨⟨sub, hsub, .inr haddr⟩, hip⟩, hq⟩
  · rintro ⟨addr, ⟨⟨sub, hsub, haddr | haddr⟩, hip⟩, hq⟩
    · exact ⟨.ready, addr, ⟨sub, hsub, haddr⟩, hip, hq⟩
    · exact ⟨.notReady, addr, ⟨sub, hsub, haddr⟩, hip, hq⟩

theorem entriesOf_eq_nil_iff {subs : List EndpointSubset} {ip : String} :
    entriesOf ip subs = [] ↔ ∀ side, ¬ HasIp side subs ip := by
  have hsome := @exists_listedOn_iff subs ip fun _ => True
  simp only [and_true, ← hasIp_iff_listedOn] at hsome
  rw [← not_exists, hsome, List.eq_nil_iff_forall_not_mem]
  simp

/-- The first entry with an IP. -/
theorem entriesOf_of_first {ip : String} {earlier : List EndpointSubset} {sub : EndpointSubset}
    {before after : List EndpointAddress} {addr : EndpointAddress}
    (hearlier : ∀ side, ¬ HasIp side earlier ip) (hboth : sub.both = before ++ addr :: after)
    (hbefore : ∀ b ∈ before, b.ip ≠ ip) (hip : addr.ip = ip) (later : List EndpointSubset) :
    entriesOf ip (earlier ++ sub :: later) =
      addr :: (after.filter (fun addr => addr.ip = ip) ++ entriesOf ip later) := by
  have hnone : before.filter (fun addr => addr.ip = ip) = [] :=
    List.filter_eq_nil_iff.mpr fun b hb => by simpa using hbefore b hb
  have hsplit : entriesOf ip (earlier ++ sub :: later) =
      entriesOf ip earlier ++
        (sub.both.filter (fun addr => addr.ip = ip) ++ entriesOf ip later) := by
    simp only [entriesOf, List.flatMap_append, List.flatMap_cons, List.filter_append]
  rw [hsplit, entriesOf_eq_nil_iff.mpr hearlier, hboth, List.filter_append, hnone, List.nil_append,
    List.nil_append, List.filter_cons_of_pos (by simpa using hip), List.cons_append]

/-- `_updateEp` touches the first entry with the IP, ready ones of a subset first. -/
theorem entriesOf_touchSubsets {pod : PodAddress} {nameSpace : String}
    {subs subs' : List EndpointSubset} (htouch : touchSubsets pod nameSpace subs = some subs') :
    ∃ side before addr after rest, addr.ip = pod.podIp ∧
      listedOn side subs = before ++ addr :: after ∧
      listedOn side subs' = before ++ addr.touched pod nameSpace :: after ∧
      listedOn side.other subs' = listedOn side.other subs ∧
      entriesOf pod.podIp subs = addr :: rest ∧
      entriesOf pod.podIp subs' = addr.touched pod nameSpace :: rest ∧
      (addr.touched pod nameSpace = addr → subs' = subs) := by
  obtain ⟨earlier, sub, later, side, addrs, hearlier, hfirst, haddrs, rfl, rfl⟩ :=
    touchSubsets_spec htouch
  obtain ⟨before, addr, after, hbefore, hip, hold, rfl⟩ := touchAddress_spec haddrs
  -- ready addresses of the subset come before the others
  have hboth : ∃ first last, (∀ b ∈ first, b.ip ≠ pod.podIp) ∧ sub.both = first ++ addr :: last ∧
      (sub.assign side (before ++ addr.touched pod nameSpace :: after)).both =
        first ++ addr.touched pod nameSpace :: last := by
    cases side with
    | ready =>
      have hready : sub.addresses = before ++ addr :: after := hold
      exact ⟨before, after ++ sub.notReadyAddresses, hbefore, by simp [EndpointSubset.both, hready],
        List.append_assoc _ _ _⟩
    | notReady =>
      have hnotReady : sub.notReadyAddresses = before ++ addr :: after := hold
      have hnone := touchAddress_eq_none.mp (hfirst rfl)
      refine ⟨sub.addresses ++ before, after, List.forall_mem_append.mpr ⟨?_, hbefore⟩,
        by simp [EndpointSubset.both, hnotReady], (List.append_assoc _ _ _).symm⟩
      exact fun b hb hip => hnone ⟨b, hb, hip⟩
  obtain ⟨first, last, hearly, hsub, hsub'⟩ := hboth
  have hlisted : ∀ side (sub : EndpointSubset), listedOn side (earlier ++ sub :: later) =
      listedOn side earlier ++ (sub.on side ++ listedOn side later) := by
    simp [listedOn]
  have hkept := EndpointSubset.on_assign_other sub side.other
    (before ++ addr.touched pod nameSpace :: after)
  rw [Side.other_other] at hkept
  refine ⟨side, listedOn side earlier ++ before, addr, after ++ listedOn side later, _, hip,
    ?_, ?_, ?_, entriesOf_of_first hearlier hsub hearly hip later,
    entriesOf_of_first hearlier hsub' hearly hip later, fun hsame => ?_⟩
  · simp [hlisted, hold]
  · simp [hlisted]
  · rw [hlisted, hlisted, hkept]
  · rw [hsame, ← hold, EndpointSubset.assign_on]

theorem touched_eq_self_iff {pod : PodAddress} {nameSpace : String} {addr : EndpointAddress} :
    addr.touched pod nameSpace = addr ↔
      ∀ ref ∈ addr.targetRef, ref.name = pod.podName ∧ ref.nameSpace = nameSpace := by
  obtain ⟨ip, nodeName, targetRef⟩ := addr
  cases targetRef with
  | none => simp [EndpointAddress.touched]
  | some ref =>
    obtain ⟨kind, refNameSpace, refName⟩ := ref
    simp only [EndpointAddress.touched, Option.map_some, Option.mem_some, forall_eq',
      EndpointAddress.mk.injEq, true_and, Option.some.injEq, ObjectReference.mk.injEq]
    rw [and_comm, eq_comm, @eq_comm _ nameSpace]

/-- The first address with the pod's IP has no target reference, or one that names the pod and the
namespace. -/
def UpToDate (pod : PodAddress) (nameSpace : String) (subs : List EndpointSubset) : Prop :=
  ∃ addr ∈ (entriesOf pod.podIp subs).head?,
    ∀ ref ∈ addr.targetRef, ref.name = pod.podName ∧ ref.nameSpace = nameSpace

/-- `_updateEp` finds the address and changes nothing exactly if it is up to date. -/
theorem touchSubsets_eq_self_iff {pod : PodAddress} {nameSpace : String}
    {subs : List EndpointSubset} :
    touchSubsets pod nameSpace subs = some subs ↔ UpToDate pod nameSpace subs := by
  unfold UpToDate
  simp only [← @touched_eq_self_iff pod nameSpace]
  cases htouch : touchSubsets pod nameSpace subs with
  | none =>
    rw [entriesOf_eq_nil_iff.mpr (touchSubsets_eq_none.mp htouch)]
    simp
  | some subs' =>
    obtain ⟨-, -, addr, -, rest, -, -, -, -, hentries, hentries', hsame⟩ :=
      entriesOf_touchSubsets htouch
    rw [Option.some.injEq, hentries, List.head?_cons]
    simp only [Option.mem_some, exists_eq_left']
    refine ⟨?_, hsame⟩
    rintro rfl
    exact (List.cons.inj (hentries'.symm.trans hentries)).1

end HealthCheck
