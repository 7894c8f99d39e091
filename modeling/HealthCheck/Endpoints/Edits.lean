import HealthCheck.Endpoints.Moves
import HealthCheck.Go.Slices

/-!
# Edits of `Endpoints` objects

The controller adds and removes pod addresses and copies labels and ports of services.
Each of these functions reads the object, changes its copy and sends it once, without a
retry. An object that is missing is built from the service and sent without a version.
The result of a program here is true when the source function returns nil.
-/

namespace HealthCheck

open Api Api.Client

/-- `getSvcPortsToEpPort`. -/
def getSvcPortsToEpPort (apiPorts : List ServicePort) : List EndpointPort :=
  apiPorts.map fun port =>
    { name := port.name
      port := Go.int32 port.targetPort.intValue
      protocol := port.protocol
      appProtocol := port.appProtocol }

/-- The pod whose address is added: its name, address and node. -/
structure PodAddress where
  podName : String
  podIp : String
  nodeName : String
  deriving DecidableEq, Repr

/-- The address entry of a pod. -/
def PodAddress.entry (pod : PodAddress) (nameSpace : String) : EndpointAddress where
  ip := pod.podIp
  nodeName := if pod.nodeName ≠ "" then some pod.nodeName else none
  targetRef := if pod.podName ≠ "" then some ⟨"Pod", nameSpace, pod.podName⟩ else none

/-- The object built for a service that has none. -/
def Service.newEndpoints (svc : Service) (subsets : List EndpointSubset) : Endpoints where
  metadata :=
    { name := svc.metadata.name
      nameSpace := svc.metadata.nameSpace
      labels := svc.metadata.labels }
  subsets := subsets

/-- Assigning the ports of the first subset. -/
def setPorts (ports : List EndpointPort) : List EndpointSubset → List EndpointSubset
  | [] => []
  | sub :: subs => { sub with ports := ports } :: subs

/-- Giving the first subset the ports of the service when it has none. -/
def fillPorts (svc : Service) (subs : List EndpointSubset) : List EndpointSubset :=
  match subs with
  | sub :: _ => if sub.ports.isEmpty then setPorts (getSvcPortsToEpPort svc.ports) subs else subs
  | [] => []

/-- Appending a ready address to the first subset, in a new subset when there is none. -/
def appendAddress (addr : EndpointAddress) : List EndpointSubset → List EndpointSubset
  | [] => [{ addresses := [addr] }]
  | sub :: subs => { sub with addresses := sub.addresses ++ [addr] } :: subs

/-- The object with the pod's address added. -/
def Service.withAddress (svc : Service) (pod : PodAddress) (ep : Endpoints) : Endpoints :=
  { ep with
    subsets := fillPorts svc (appendAddress (pod.entry svc.metadata.nameSpace) ep.subsets) }

/-- The second half of `_createEp`, on the object fetched or built. -/
def addAddress (svc : Service) (pod : PodAddress) (ep : Endpoints) : Client Endpoints Bool :=
  if ep.Has .ready pod.podIp ∨ ep.Has .notReady pod.podIp then pure false
  else send (svc.withAddress pod ep)

/-- `_createEp`. -/
def createEp (svc : Service) (pod : PodAddress) : Client Endpoints Bool := do
  match ← fetch with
  | .found ep => if pod.podIp ≠ "" then addAddress svc pod ep else pure true
  | .notFound =>
    let ep := svc.newEndpoints [{ ports := getSvcPortsToEpPort svc.ports }]
    if pod.podIp ≠ "" then addAddress svc pod ep
    else send { ep with subsets := fillPorts svc ep.subsets }
  | .failed => pure false

/-- `createEpInfo`. -/
def createEpInfo (svc : Service) (pod : PodAddress) : Client Endpoints Bool := createEp svc pod

/-- The address after `_updateEp` has worked on a copy of it. Only what the copy shares with the
object changes: an existing target reference. -/
def EndpointAddress.touched (pod : PodAddress) (nameSpace : String) (addr : EndpointAddress) :
    EndpointAddress :=
  { addr with targetRef := addr.targetRef.map fun ref =>
    { ref with name := pod.podName, nameSpace := nameSpace } }

/-- The loop of `_updateEp` over addresses stops at the first one with the pod's IP. -/
def touchAddress (pod : PodAddress) (nameSpace : String) :
    List EndpointAddress → Option (List EndpointAddress)
  | [] => none
  | addr :: addrs =>
    if addr.ip = pod.podIp then some (addr.touched pod nameSpace :: addrs)
    else (touchAddress pod nameSpace addrs).map (addr :: ·)

/-- The loop of `_updateEp` over the subsets: it stops at the first subset that has the IP,
ready addresses first. -/
def touchSubsets (pod : PodAddress) (nameSpace : String) :
    List EndpointSubset → Option (List EndpointSubset)
  | [] => none
  | sub :: subs =>
    match touchAddress pod nameSpace sub.addresses with
    | some addrs => some ({ sub with addresses := addrs } :: subs)
    | none =>
      match touchAddress pod nameSpace sub.notReadyAddresses with
      | some addrs => some ({ sub with notReadyAddresses := addrs } :: subs)
      | none => (touchSubsets pod nameSpace subs).map (sub :: ·)

/-- The part of `_updateEp` and `updateEpInfo` that fetches the service, `none` when that
fails, and adds the address. -/
def createEpOf (svc : Option Service) (pod : PodAddress) : Client Endpoints Bool :=
  match svc with
  | some svc => createEp svc pod
  | none => pure false

/-- `_updateEp`. -/
def updateEp (nameSpace : String) (svc : Option Service) (pod : PodAddress) :
    Client Endpoints Bool := do
  match ← fetch with
  | .found ep =>
    match touchSubsets pod nameSpace ep.subsets with
    | some subs => send { ep with subsets := subs }
    | none => createEpOf svc pod
  | _ => pure false

/-- `updateEpInfo`. -/
def updateEpInfo (nameSpace : String) (svc : Option Service) (pod : PodAddress) :
    Client Endpoints Bool := do
  match ← fetch with
  | .found ep => if ep.subsets.isEmpty then createEpOf svc pod else updateEp nameSpace svc pod
  | _ => pure false

/-- The object that `syncSvcLabelToEp` sends. -/
def Service.relabel (svc : Service) (ep : Endpoints) : Endpoints where
  metadata := { ep.metadata with labels := svc.metadata.labels }
  subsets := setPorts (getSvcPortsToEpPort svc.ports) ep.subsets

/-- `syncSvcLabelToEp`. -/
def syncSvcLabelToEp (svc : Service) : Client Endpoints Bool := do
  match ← fetch with
  | .found ep => send (svc.relabel ep)
  | .notFound => send (svc.relabel (svc.newEndpoints []))
  | .failed => pure false

/-- `createEpBaseSvcWithoutAddress`. -/
def createEpBaseSvcWithoutAddress (svc : Service) : Client Endpoints Bool := do
  match ← fetch with
  | .found _ => pure true
  | .notFound => send (svc.newEndpoints [])
  | .failed => pure false

/-- The first loop of `deleteEp`. The slices of kept addresses are shared by all subsets,
and once the IP is found the not ready addresses are no longer looked at. -/
def deleteAddresses (podIp : String) : List EndpointAddress → List EndpointAddress → Bool →
    List EndpointSubset → List EndpointSubset × Bool
  | _, _, isFind, [] => ([], isFind)
  | kept, keptNotReady, isFind, sub :: subs =>
    let kept := kept ++ sub.addresses.filter (fun addr => addr.ip ≠ podIp)
    let isFind := isFind || sub.addresses.any (fun addr => addr.ip = podIp)
    if isFind then
      let rest := deleteAddresses podIp kept keptNotReady isFind subs
      ({ sub with addresses := kept } :: rest.1, rest.2)
    else
      let keptNotReady := keptNotReady ++
        sub.notReadyAddresses.filter (fun addr => addr.ip ≠ podIp)
      let isFind := sub.notReadyAddresses.any (fun addr => addr.ip = podIp)
      let rest := deleteAddresses podIp kept keptNotReady isFind subs
      ({ sub with addresses := kept, notReadyAddresses := keptNotReady } :: rest.1, rest.2)

/-- The second loop of `deleteEp`, with `todo` rounds left. It removes elements from the slice
over which it ranges: the removal shifts the elements of the underlying array `subs` while
the range goes on over the original length, and slicing beyond the current length `len`
panics. -/
def dropEmptyFrom : ℕ → ℕ → List EndpointSubset → ℕ → Option (List EndpointSubset)
  | 0, _, subs, len => some (subs.take len)
  | todo + 1, index, subs, len =>
    if (subs[index]?).any fun sub => sub.notReadyAddresses.isEmpty && sub.addresses.isEmpty then
      if index + 1 ≤ len then
        dropEmptyFrom todo (index + 1)
          (subs.take index ++ (subs.take len).drop (index + 1) ++ subs.drop (len - 1)) (len - 1)
      else none
    else dropEmptyFrom todo (index + 1) subs len

/-- Dropping the empty subsets; `none` is a panic. -/
def dropEmpty (subs : List EndpointSubset) : Option (List EndpointSubset) :=
  dropEmptyFrom subs.length 0 subs subs.length

/-- `deleteEp`. -/
def deleteEp (podIp : String) : Client Endpoints Bool := do
  match ← fetch with
  | .found ep =>
    let deleted := deleteAddresses podIp [] [] false ep.subsets
    match dropEmpty deleted.1 with
    | some subs => if deleted.2 then send { ep with subsets := subs } else pure true
    | none => pure false
  | _ => pure false

/-! ### The addresses after an edit -/

@[simp] theorem hasIp_setPorts (ports : List EndpointPort) (subs : List EndpointSubset)
    (side : Side) (ip : String) : HasIp side (setPorts ports subs) ip ↔ HasIp side subs ip := by
  cases subs with
  | nil => exact Iff.rfl
  | cons sub subs =>
    rw [setPorts, hasIp_cons, hasIp_cons]
    cases side <;> exact Iff.rfl

@[simp] theorem hasIp_fillPorts (svc : Service) (subs : List EndpointSubset) (side : Side)
    (ip : String) : HasIp side (fillPorts svc subs) ip ↔ HasIp side subs ip := by
  cases subs with
  | nil => exact Iff.rfl
  | cons sub subs =>
    unfold fillPorts
    dsimp only
    split
    · exact hasIp_setPorts _ _ side ip
    · exact Iff.rfl

/-- Appending an address makes its IP ready and changes nothing else. -/
theorem hasIp_appendAddress (addr : EndpointAddress) (subs : List EndpointSubset) (side : Side)
    (ip : String) :
    HasIp side (appendAddress addr subs) ip ↔
      HasIp side subs ip ∨ (side = .ready ∧ ip = addr.ip) := by
  cases side <;> cases subs <;>
    simp [appendAddress, EndpointSubset.on, or_and_right, exists_or, or_comm, or_left_comm, eq_comm]

/-- The addresses of the object that `_createEp` sends. -/
theorem has_withAddress (svc : Service) (pod : PodAddress) (ep : Endpoints) (side : Side)
    (ip : String) :
    (svc.withAddress pod ep).Has side ip ↔ ep.Has side ip ∨ (side = .ready ∧ ip = pod.podIp) := by
  rw [Endpoints.Has, Service.withAddress, hasIp_fillPorts, hasIp_appendAddress]
  rfl

theorem has_of_withAddress {svc : Service} {pod : PodAddress} {ep new : Endpoints}
    (hsubs : new.subsets = (svc.withAddress pod ep).subsets) (side : Side) (ip : String) :
    new.Has side ip ↔ ep.Has side ip ∨ (side = .ready ∧ ip = pod.podIp) := by
  rw [Endpoints.Has, hsubs]
  exact has_withAddress svc pod ep side ip

theorem listedOn_fillPorts (svc : Service) (subs : List EndpointSubset) (side : Side) :
    listedOn side (fillPorts svc subs) = listedOn side subs := by
  cases subs with
  | nil => rfl
  | cons sub subs =>
    unfold fillPorts
    dsimp only
    split
    · cases side <;> rfl
    · rfl

/-- `_createEp` adds one entry to the ready addresses and leaves the others as they are. -/
theorem listedOn_ready_withAddress (svc : Service) (pod : PodAddress) (ep : Endpoints) :
    ∃ before after, listedOn .ready ep.subsets = before ++ after ∧
      listedOn .ready (svc.withAddress pod ep).subsets =
        before ++ pod.entry svc.metadata.nameSpace :: after := by
  rw [Service.withAddress, listedOn_fillPorts]
  cases ep.subsets with
  | nil => exact ⟨[], [], rfl, rfl⟩
  | cons sub subs => exact ⟨sub.addresses, listedOn .ready subs, rfl, List.append_assoc _ _ _⟩

theorem listedOn_notReady_withAddress (svc : Service) (pod : PodAddress) (ep : Endpoints) :
    listedOn .notReady (svc.withAddress pod ep).subsets = listedOn .notReady ep.subsets := by
  rw [Service.withAddress, listedOn_fillPorts]
  cases ep.subsets <;> rfl

/-- The first loop of `deleteEp` adds no ready address. -/
theorem of_hasIp_deleteAddresses {podIp ip : String} {kept keptNotReady : List EndpointAddress}
    {isFind : Bool} {subs : List EndpointSubset}
    (hip : HasIp .ready (deleteAddresses podIp kept keptNotReady isFind subs).1 ip) :
    (∃ addr ∈ kept, addr.ip = ip) ∨ (HasIp .ready subs ip ∧ ip ≠ podIp) := by
  induction subs generalizing kept keptNotReady isFind with
  | nil => exact absurd hip hasIp_nil
  | cons sub subs ih =>
    have hkept : ∀ addr ∈ kept ++ sub.addresses.filter (fun addr => addr.ip ≠ podIp),
        addr ∈ kept ∨ (addr ∈ sub.on .ready ∧ addr.ip ≠ podIp) := by
      intro addr haddr
      simpa [EndpointSubset.on] using haddr
    have hhere : (∃ addr ∈ kept ++ sub.addresses.filter (fun addr => addr.ip ≠ podIp),
        addr.ip = ip) → (∃ addr ∈ kept, addr.ip = ip) ∨
          (HasIp .ready (sub :: subs) ip ∧ ip ≠ podIp) := by
      rintro ⟨addr, haddr, rfl⟩
      rcases hkept addr haddr with hold | ⟨hsub, hne⟩
      · exact .inl ⟨addr, hold, rfl⟩
      · exact .inr ⟨hasIp_cons.mpr (.inl ⟨addr, hsub, rfl⟩), hne⟩
    have hrest : (∃ addr ∈ kept ++ sub.addresses.filter (fun addr => addr.ip ≠ podIp),
        addr.ip = ip) ∨ (HasIp .ready subs ip ∧ ip ≠ podIp) → (∃ addr ∈ kept, addr.ip = ip) ∨
          (HasIp .ready (sub :: subs) ip ∧ ip ≠ podIp) := by
      rintro (h | ⟨h, hne⟩)
      · exact hhere h
      · exact .inr ⟨hasIp_cons.mpr (.inr h), hne⟩
    unfold deleteAddresses at hip
    dsimp only at hip
    split at hip
    · rcases hasIp_cons.mp hip with h | h
      · exact hhere h
      · exact hrest (ih h)
    · rcases hasIp_cons.mp hip with h | h
      · exact hhere h
      · exact hrest (ih h)

/-- A subset without addresses. -/
def EndpointSubset.vacant (sub : EndpointSubset) : Bool :=
  sub.notReadyAddresses.isEmpty && sub.addresses.isEmpty

theorem EndpointSubset.vacant_iff {sub : EndpointSubset} :
    sub.vacant = true ↔ sub.addresses = [] ∧ sub.notReadyAddresses = [] := by
  simp [vacant, and_comm]

/-- Dropping the empty subsets is the loop that deletes from the slice it ranges over. -/
theorem dropEmptyFrom_eq (todo index : ℕ) (subs : List EndpointSubset) (len : ℕ) :
    dropEmptyFrom todo index subs len =
      Go.deleteRangingFrom EndpointSubset.vacant todo index subs len := by
  induction todo generalizing index subs len with
  | zero => rfl
  | succ todo ih =>
    rw [dropEmptyFrom, Go.deleteRangingFrom, ih, ih]
    rfl

theorem dropEmpty_eq (subs : List EndpointSubset) :
    dropEmpty subs = if Go.Overruns EndpointSubset.vacant subs then none
      else some (Go.skim EndpointSubset.vacant subs) := by
  rw [dropEmpty, dropEmptyFrom_eq]
  exact Go.deleteRanging_eq subs

theorem eq_skim_of_dropEmpty {subs subs' : List EndpointSubset}
    (hdrop : dropEmpty subs = some subs') : subs' = Go.skim EndpointSubset.vacant subs := by
  rw [dropEmpty_eq] at hdrop
  split at hdrop
  · cases hdrop
  · exact (Option.some.inj hdrop).symm

theorem EndpointSubset.vacant_of_mem {sub : EndpointSubset} {side : Side} {addr : EndpointAddress}
    (haddr : addr ∈ sub.on side) : sub.vacant = false := by
  have hne : sub.on side ≠ [] := List.ne_nil_of_mem haddr
  cases side with
  | ready =>
    have hne : sub.addresses ≠ [] := hne
    simp [vacant, hne]
  | notReady =>
    have hne : sub.notReadyAddresses ≠ [] := hne
    simp [vacant, hne]

/-- Dropping subsets neither adds nor removes an address. -/
theorem hasIp_of_dropEmpty {subs subs' : List EndpointSubset} (hdrop : dropEmpty subs = some subs')
    {side : Side} {ip : String} (hip : HasIp side subs' ip) : HasIp side subs ip := by
  obtain ⟨sub, hsub, hrest⟩ := hip
  rw [eq_skim_of_dropEmpty hdrop] at hsub
  exact ⟨sub, (Go.skim_sublist subs).subset hsub, hrest⟩

theorem hasIp_dropEmpty {subs subs' : List EndpointSubset} (hdrop : dropEmpty subs = some subs')
    {side : Side} {ip : String} (hip : HasIp side subs ip) : HasIp side subs' ip := by
  obtain ⟨sub, hsub, addr, haddr, hip⟩ := hip
  have hfull := EndpointSubset.vacant_of_mem haddr
  have hkept : sub ∈ subs.filter fun sub => !sub.vacant :=
    List.mem_filter.mpr ⟨hsub, by rw [hfull]; rfl⟩
  rw [eq_skim_of_dropEmpty hdrop]
  exact ⟨sub, (Go.filter_sublist_skim subs).subset hkept, addr, haddr, hip⟩

/-- The loop keeps every other ready address. -/
theorem ready_deleteAddresses {podIp ip : String} (hne : ip ≠ podIp)
    {subs : List EndpointSubset} (hip : HasIp .ready subs ip) (kept keptNotReady isFind) :
    HasIp .ready (deleteAddresses podIp kept keptNotReady isFind subs).1 ip := by
  induction subs generalizing kept keptNotReady isFind with
  | nil => exact absurd hip hasIp_nil
  | cons sub subs ih =>
    have hhere : (∃ addr ∈ sub.on .ready, addr.ip = ip) →
        ∃ addr ∈ kept ++ sub.addresses.filter (fun addr => addr.ip ≠ podIp), addr.ip = ip := by
      rintro ⟨addr, haddr, rfl⟩
      exact ⟨addr, List.mem_append_right _ (List.mem_filter.mpr ⟨haddr, decide_eq_true hne⟩), rfl⟩
    unfold deleteAddresses
    dsimp only
    split
    · rw [hasIp_cons]
      exact (hasIp_cons.mp hip).imp hhere fun hrest => ih hrest _ _ _
    · rw [hasIp_cons]
      exact (hasIp_cons.mp hip).imp hhere fun hrest => ih hrest _ _ _

/-- The loop adds no address that is not ready. -/
theorem of_notReady_deleteAddresses {podIp ip : String} {kept keptNotReady : List EndpointAddress}
    {isFind : Bool} {subs : List EndpointSubset}
    (hip : HasIp .notReady (deleteAddresses podIp kept keptNotReady isFind subs).1 ip) :
    (∃ addr ∈ keptNotReady, addr.ip = ip) ∨ HasIp .notReady subs ip := by
  induction subs generalizing kept keptNotReady isFind with
  | nil => exact absurd hip hasIp_nil
  | cons sub subs ih =>
    unfold deleteAddresses at hip
    dsimp only at hip
    split at hip
    · rcases hasIp_cons.mp hip with h | h
      · exact .inr (hasIp_cons.mpr (.inl h))
      · exact (ih h).imp_right fun hrest => hasIp_cons.mpr (.inr hrest)
    · have hkept : (∃ addr ∈ keptNotReady ++
          sub.notReadyAddresses.filter (fun addr => addr.ip ≠ podIp), addr.ip = ip) →
          (∃ addr ∈ keptNotReady, addr.ip = ip) ∨ HasIp .notReady (sub :: subs) ip := by
        rintro ⟨addr, haddr, rfl⟩
        rcases List.mem_append.mp haddr with hold | hsub
        · exact .inl ⟨addr, hold, rfl⟩
        · exact .inr (hasIp_cons.mpr (.inl ⟨addr, (List.mem_filter.mp hsub).1, rfl⟩))
      rcases hasIp_cons.mp hip with h | h
      · exact hkept h
      · rcases ih h with h | h
        · exact hkept h
        · exact .inr (hasIp_cons.mpr (.inr h))

/-- The loop over addresses finds the pod's IP when it is there. -/
theorem touchAddress_eq_none {pod : PodAddress} {nameSpace : String}
    {addrs : List EndpointAddress} :
    touchAddress pod nameSpace addrs = none ↔ ¬ ∃ addr ∈ addrs, addr.ip = pod.podIp := by
  induction addrs with
  | nil => simp [touchAddress]
  | cons addr addrs ih =>
    unfold touchAddress
    split
    · next hip => simp [hip]
    · next hip => simp [ih, hip]

/-- The loop over addresses touches the first one with the IP. -/
theorem touchAddress_spec {pod : PodAddress} {nameSpace : String}
    {addrs addrs' : List EndpointAddress}
    (htouch : touchAddress pod nameSpace addrs = some addrs') :
    ∃ before addr after, (∀ b ∈ before, b.ip ≠ pod.podIp) ∧ addr.ip = pod.podIp ∧
      addrs = before ++ addr :: after ∧
      addrs' = before ++ addr.touched pod nameSpace :: after := by
  induction addrs generalizing addrs' with
  | nil => cases htouch
  | cons addr addrs ih =>
    unfold touchAddress at htouch
    split at htouch
    · next hip =>
      cases htouch
      exact ⟨[], addr, addrs, fun _ h => absurd h List.not_mem_nil, hip, rfl, rfl⟩
    · next hip =>
      obtain ⟨rest, hrest, rfl⟩ := Option.map_eq_some_iff.mp htouch
      obtain ⟨before, found, after, hbefore, hfound, rfl, rfl⟩ := ih hrest
      exact ⟨addr :: before, found, after, List.forall_mem_cons.mpr ⟨hip, hbefore⟩, hfound,
        rfl, rfl⟩

/-- The loop over addresses changes no IP. -/
theorem ips_touchAddress {pod : PodAddress} {nameSpace : String}
    {addrs addrs' : List EndpointAddress}
    (htouch : touchAddress pod nameSpace addrs = some addrs') :
    addrs'.map EndpointAddress.ip = addrs.map EndpointAddress.ip := by
  obtain ⟨before, addr, after, -, -, rfl, rfl⟩ := touchAddress_spec htouch
  simp [EndpointAddress.touched]

/-- `_updateEp` looks for the pod on both sides of every subset. -/
theorem touchSubsets_eq_none {pod : PodAddress} {nameSpace : String} {subs : List EndpointSubset} :
    touchSubsets pod nameSpace subs = none ↔ ∀ side, ¬ HasIp side subs pod.podIp := by
  induction subs with
  | nil => simp [touchSubsets]
  | cons sub subs ih =>
    have hsides : (∀ side, ¬ HasIp side (sub :: subs) pod.podIp) ↔
        touchAddress pod nameSpace sub.addresses = none ∧
          touchAddress pod nameSpace sub.notReadyAddresses = none ∧
          touchSubsets pod nameSpace subs = none := by
      rw [ih, touchAddress_eq_none, touchAddress_eq_none]
      constructor
      · intro h
        exact ⟨fun hip => h .ready (hasIp_cons.mpr (.inl hip)),
          fun hip => h .notReady (hasIp_cons.mpr (.inl hip)),
          fun side hip => h side (hasIp_cons.mpr (.inr hip))⟩
      · rintro ⟨hready, hnotReady, hrest⟩ side hip
        rcases hasIp_cons.mp hip with hsub | hsubs
        · cases side with
          | ready => exact hready hsub
          | notReady => exact hnotReady hsub
        · exact hrest side hsubs
    rw [hsides, touchSubsets]
    split
    · next h => simp [h]
    · next h =>
      split
      · next h' => simp [h']
      · next h' => simp [h, h']

theorem touchSubsets_isSome_iff {ep : Endpoints} {pod : PodAddress} {nameSpace : String} :
    (∃ subs, touchSubsets pod nameSpace ep.subsets = some subs) ↔
      ∃ side, ep.Has side pod.podIp := by
  rw [← Option.isSome_iff_exists, ← not_iff_not, Option.not_isSome_iff_eq_none,
    touchSubsets_eq_none, not_exists]
  rfl

/-- The loop over the subsets touches one list of the first subset that has the IP, that of the
ready addresses if the IP is there. -/
theorem touchSubsets_spec {pod : PodAddress} {nameSpace : String} {subs subs' : List EndpointSubset}
    (htouch : touchSubsets pod nameSpace subs = some subs') :
    ∃ before sub after side addrs, (∀ side, ¬ HasIp side before pod.podIp) ∧
      (side = .notReady → touchAddress pod nameSpace sub.addresses = none) ∧
      touchAddress pod nameSpace (sub.on side) = some addrs ∧
      subs = before ++ sub :: after ∧ subs' = before ++ sub.assign side addrs :: after := by
  induction subs generalizing subs' with
  | nil => cases htouch
  | cons sub subs ih =>
    unfold touchSubsets at htouch
    split at htouch
    · next addrs haddrs =>
      cases htouch
      exact ⟨[], sub, subs, .ready, addrs, fun _ => hasIp_nil, nofun, haddrs, rfl, rfl⟩
    · next hready =>
      split at htouch
      · next addrs haddrs =>
        cases htouch
        exact ⟨[], sub, subs, .notReady, addrs, fun _ => hasIp_nil, fun _ => hready, haddrs, rfl,
          rfl⟩
      · next hnotReady =>
        obtain ⟨rest, hrest, rfl⟩ := Option.map_eq_some_iff.mp htouch
        obtain ⟨before, found, after, side, addrs, hbefore, hfirst, haddrs, rfl, rfl⟩ := ih hrest
        refine ⟨sub :: before, found, after, side, addrs, fun side hip => ?_, hfirst, haddrs,
          rfl, rfl⟩
        rcases hasIp_cons.mp hip with hsub | hsubs
        · cases side with
          | ready => exact touchAddress_eq_none.mp hready hsub
          | notReady => exact touchAddress_eq_none.mp hnotReady hsub
        · exact hbefore side hsubs

/-- `_updateEp` changes no IP. -/
theorem hasIp_touchSubsets {pod : PodAddress} {nameSpace : String}
    {subs subs' : List EndpointSubset} (htouch : touchSubsets pod nameSpace subs = some subs')
    (side : Side) (ip : String) : HasIp side subs' ip ↔ HasIp side subs ip := by
  obtain ⟨before, sub, after, touched, addrs, -, -, haddrs, rfl, rfl⟩ := touchSubsets_spec htouch
  have hsub : (∃ addr ∈ (sub.assign touched addrs).on side, addr.ip = ip) ↔
      ∃ addr ∈ sub.on side, addr.ip = ip := by
    rcases Side.eq_or_eq_other touched side with rfl | rfl
    · rw [EndpointSubset.on_assign, ← List.mem_map, ← List.mem_map, ips_touchAddress haddrs]
    · rw [EndpointSubset.on_assign_other]
  rw [hasIp_append, hasIp_append, hasIp_cons, hasIp_cons, hsub]

/-! ### The stored object after a program ran alone -/

/-- Copying the labels and ports of a service changes no address. -/
theorem of_hasAddr_syncSvcLabelToEp {svc : Service} {s : Server Endpoints} {side : Side}
    {ip : String} (hip : HasAddr (alone (syncSvcLabelToEp svc) s).2 side ip) :
    HasAddr s side ip := by
  rw [syncSvcLabelToEp, alone_fetch_bind] at hip
  cases hobj : s.object with
  | none =>
    simp only [Server.get, hobj, alone_send] at hip
    rcases of_hasAddr_update hip with hold | hnew
    · exact hold
    · simp [Endpoints.Has, Service.relabel, Service.newEndpoints] at hnew
  | some ep =>
    simp only [Server.get, hobj, alone_send] at hip
    rcases of_hasAddr_update hip with hold | hnew
    · exact hold
    · rw [hasAddr_of_object hobj]
      simpa [Endpoints.Has, Service.relabel] using hnew

/-- Deleting an address adds no ready address. -/
theorem of_ready_deleteEp {podIp ip : String} {s : Server Endpoints}
    (hip : HasAddr (alone (deleteEp podIp) s).2 .ready ip) : HasAddr s .ready ip := by
  rw [deleteEp, alone_fetch_bind] at hip
  cases hobj : s.object with
  | none => simpa [Server.get, hobj] using hip
  | some ep =>
    simp only [Server.get, hobj] at hip
    split at hip
    · next subs hdrop =>
      split at hip
      · rw [alone_send] at hip
        rcases of_hasAddr_update hip with hold | hnew
        · exact hold
        · rcases of_hasIp_deleteAddresses (hasIp_of_dropEmpty hdrop hnew) with ⟨_, hnil, -⟩ | hkept
          · cases hnil
          · exact (hasAddr_of_object hobj _ _).mpr hkept.1
      · exact hip
    · exact hip

/-- Adding an address adds no ready address but that one. -/
theorem of_ready_addAddress {svc : Service} {pod : PodAddress} {ep : Endpoints}
    {s : Server Endpoints} {ip : String}
    (hip : HasAddr (alone (addAddress svc pod ep) s).2 .ready ip) :
    HasAddr s .ready ip ∨ ep.Has .ready ip ∨ ip = pod.podIp := by
  unfold addAddress at hip
  split at hip
  · exact .inl hip
  · rw [alone_send] at hip
    rcases of_hasAddr_update hip with hold | hnew
    · exact .inl hold
    · exact .inr (((has_withAddress svc pod ep .ready ip).mp hnew).imp_right fun h => h.2)

/-- `_createEp` makes no address ready but the pod's. -/
theorem of_ready_createEp {svc : Service} {pod : PodAddress} {s : Server Endpoints} {ip : String}
    (hip : HasAddr (alone (createEp svc pod) s).2 .ready ip) :
    HasAddr s .ready ip ∨ ip = pod.podIp := by
  rw [createEp, alone_fetch_bind] at hip
  cases hobj : s.object with
  | none =>
    have hempty : ∀ ip, ¬ (svc.newEndpoints [{ ports := getSvcPortsToEpPort svc.ports }]).Has
        .ready ip := by
      intro ip
      simp [Endpoints.Has, Service.newEndpoints, EndpointSubset.on]
    simp only [Server.get, hobj] at hip
    split at hip
    · rcases of_ready_addAddress hip with hold | hnew | hpod
      · exact .inl hold
      · exact absurd hnew (hempty ip)
      · exact .inr hpod
    · rw [alone_send] at hip
      rcases of_hasAddr_update hip with hold | hnew
      · exact .inl hold
      · rw [Endpoints.Has, hasIp_fillPorts] at hnew
        exact absurd hnew (hempty ip)
  | some ep =>
    simp only [Server.get, hobj] at hip
    split at hip
    · rcases of_ready_addAddress hip with hold | hnew | hpod
      · exact .inl hold
      · exact .inl ((hasAddr_of_object hobj _ _).mpr hnew)
      · exact .inr hpod
    · exact .inl hip

/-- On an object that exists, `_createEp` keeps the labels. -/
theorem labels_createEp {svc : Service} {pod : PodAddress} {s : Server Endpoints}
    {old : Endpoints} (hobj : s.object = some old) :
    ∃ new, (alone (createEp svc pod) s).2.object = some new ∧
      new.metadata.labels = old.metadata.labels := by
  rw [createEp, alone_fetch_bind]
  simp only [Server.get, hobj]
  split
  · unfold addAddress
    split
    · exact ⟨old, hobj, rfl⟩
    · rw [alone_send]
      rcases s.update_object (svc.withAddress pod old) with hsame | ⟨stored, hstored, hcontent⟩
      · exact ⟨old, by rw [hsame, hobj], rfl⟩
      · have hlabels := congrArg (fun ep : Endpoints => ep.metadata.labels) hcontent
        exact ⟨stored, hstored, hlabels⟩
  · exact ⟨old, hobj, rfl⟩

/-! ### Additions to an object that exists -/

section Call

variable {svc : Service} {s : Server Endpoints} {ep : Endpoints} (hobj : s.object = some ep)

include hobj

/-- An address that is there is an error, and nothing is sent. -/
theorem alone_createEp_present {pod : PodAddress} (hip : pod.podIp ≠ "")
    (hlisted : ∃ side, ep.Has side pod.podIp) : alone (createEp svc pod) s = (false, s) := by
  rw [createEp, alone_fetch_bind, Server.get_eq, hobj]
  dsimp only [Fetch.ofOption]
  rw [if_pos hip, addAddress, if_pos (Side.exists_iff.mp hlisted)]
  rfl

/-- An address that is not there is added. -/
theorem alone_createEp_fresh {pod : PodAddress} (hip : pod.podIp ≠ "")
    (hfresh : ∀ side, ¬ ep.Has side pod.podIp) :
    ∃ new, (alone (createEp svc pod) s).1 = true ∧
      (alone (createEp svc pod) s).2.object = some new ∧
      new.subsets = (svc.withAddress pod ep).subsets := by
  have hnew : ¬ (ep.Has .ready pod.podIp ∨ ep.Has .notReady pod.podIp) :=
    fun h => h.elim (hfresh .ready) (hfresh .notReady)
  obtain ⟨stored, hok, hstored, hcontent⟩ :=
    @alone_send_of_version _ _ _ s ep (svc.withAddress pod ep) hobj rfl
  rw [createEp, alone_fetch_bind, Server.get_eq, hobj]
  dsimp only [Fetch.ofOption]
  rw [if_pos hip, addAddress, if_neg hnew]
  exact ⟨stored, hok, hstored, Endpoints.subsets_eq_of_stamp_eq hcontent⟩

/-- A pod without an address changes nothing. -/
theorem alone_createEp_empty {pod : PodAddress} (hip : pod.podIp = "") :
    alone (createEp svc pod) s = (true, s) := by
  rw [createEp, alone_fetch_bind, Server.get_eq, hobj]
  dsimp only [Fetch.ofOption]
  rw [if_neg (not_not.mpr hip)]
  rfl

theorem alone_createEpBaseSvcWithoutAddress :
    alone (createEpBaseSvcWithoutAddress svc) s = (true, s) := by
  rw [createEpBaseSvcWithoutAddress, alone_fetch_bind, Server.get_eq, hobj]
  rfl

/-- `updateEpInfo` touches an address that is listed. -/
theorem alone_updateEpInfo_touched {nameSpace : String} (svc : Option Service) {pod : PodAddress}
    {subs : List EndpointSubset} (htouch : touchSubsets pod nameSpace ep.subsets = some subs) :
    ∃ stored, (alone (updateEpInfo nameSpace svc pod) s).1 = true ∧
      (alone (updateEpInfo nameSpace svc pod) s).2.object = some stored ∧
      Resource.stamp 0 stored = Resource.stamp 0 { ep with subsets := subs } := by
  have hfull : ep.subsets.isEmpty = false := by
    cases hsubs : ep.subsets with
    | nil =>
      rw [hsubs] at htouch
      cases htouch
    | cons sub rest => rfl
  rw [updateEpInfo, alone_fetch_bind, Server.get_eq, hobj]
  dsimp only [Fetch.ofOption]
  rw [hfull, if_neg Bool.false_ne_true, updateEp, alone_fetch_bind, Server.get_eq, hobj]
  dsimp only [Fetch.ofOption]
  rw [htouch]
  exact alone_send_of_version hobj rfl

/-- It adds an address that is not listed. -/
theorem alone_updateEpInfo_untouched {nameSpace : String} (svc : Option Service) {pod : PodAddress}
    (htouch : touchSubsets pod nameSpace ep.subsets = none) :
    alone (updateEpInfo nameSpace svc pod) s = alone (createEpOf svc pod) s := by
  rw [updateEpInfo, alone_fetch_bind, Server.get_eq, hobj]
  dsimp only [Fetch.ofOption]
  split
  · rfl
  · rw [updateEp, alone_fetch_bind, Server.get_eq, hobj]
    dsimp only [Fetch.ofOption]
    rw [htouch]

end Call

end HealthCheck
