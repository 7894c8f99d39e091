import HealthCheck.Cluster
import HealthCheck.Nginx.Requests

/-!
# Dropped update events

When the Update predicate returns false the event is dropped: nothing is reconciled. This is
sound if reconciling the new object would write what reconciling the old one has written. For a
service, `syncSvcLabelToEp` copies labels and ports to the `Endpoints` object; for an `Endpoints`
object, the upstreams are generated anew. The comparisons behind the predicate see no label that
is gone, of a port they see neither the name nor the application protocol, and a list with the
same entries in other numbers looks the same to them.
-/

namespace HealthCheck

open Api Api.Client

/-- The two objects of an update event are versions of one object. -/
structure Successive (old new : ObjectMeta) : Prop where
  name : new.name = old.name
  nameSpace : new.nameSpace = old.nameSpace
  resourceVersion : new.resourceVersion ≠ old.resourceVersion

/-- The Update predicate for services, without its call of `cacheSvcDetail`. -/
def updateService (new old : Service) : Bool :=
  if (new.metadata.labels.lookup vsDomain).isSome then
    if new.metadata.resourceVersion ≠ old.metadata.resourceVersion then
      !compareMapsStrings new.metadata.labels old.metadata.labels ||
        !compareSvcPorts new.ports old.ports
    else false
  else false

/-- The Update predicate for `Endpoints` objects, without its call of `syncLbhcWithEndpoints`. -/
def updateEndpoints (o : Ownership) (new old : Endpoints) : Bool :=
  if new.managed then
    if new.metadata.resourceVersion ≠ old.metadata.resourceVersion then
      if o.answersFor (virtualServiceFullValue new.metadata.name new.metadata.nameSpace) then
        !compareEpSubsets new.subsets old.subsets ||
          !compareMapsStrings new.metadata.labels old.metadata.labels
      else true
    else false
  else false

/-- A dropped event changes nothing. -/
theorem Cluster.handleEp_of_dropped {c : Controller} {order : ∀ l, RangeOrder l} {s : Cluster}
    {old new : Endpoints} (hdropped : updateEndpoints c.ownership new old = false) :
    s.handleEp c order ⟨new.metadata.name, new.metadata.nameSpace, .updated old new⟩ = s := by
  unfold updateEndpoints at hdropped
  unfold Cluster.handleEp
  dsimp only
  by_cases hmanaged : new.managed = true
  · by_cases hversion : new.metadata.resourceVersion ≠ old.metadata.resourceVersion
    · rw [if_pos hmanaged, if_pos hversion] at hdropped
      rw [if_pos ⟨hmanaged, hversion⟩]
      split at hdropped
      · next hanswers => rw [if_pos hanswers, if_neg (by simp [hdropped])]
      · cases hdropped
    · rw [if_neg fun h => hversion h.2]
  · rw [if_neg fun h => hmanaged h.1]

/-! ### Services -/

/-- The object that `syncSvcLabelToEp` sends, given what is stored. -/
def syncedEp (svc : Service) (s : Server Endpoints) : Option Endpoints :=
  ((syncSvcLabelToEp svc).stepOn s).1.sends

/-- With both services `syncSvcLabelToEp` writes the same labels and, subset by subset, the same
ports up to order. -/
def SyncsAlike (x y : Service) (s : Server Endpoints) : Prop :=
  ∃ a b, syncedEp x s = some a ∧ syncedEp y s = some b ∧
    (∀ key, a.metadata.labels.lookup key = b.metadata.labels.lookup key) ∧
    List.Forall₂ (fun sub sub' => sub.ports.Perm sub'.ports) a.subsets b.subsets

/-- The port of a service becomes the given port of the `Endpoints` object. -/
def ServicePort.shows (port : ServicePort) (shown : EndpointPort) : Bool :=
  port.name = shown.name ∧ Go.int32 port.targetPort.intValue = shown.port ∧
    port.protocol = shown.protocol ∧ port.appProtocol = shown.appProtocol

/-- No label is gone, and every combination of name, target port, protocol and application
protocol occurs equally often among the ports. -/
structure ServiceKept (old new : Service) : Prop where
  labels : ∀ key, (old.metadata.labels.lookup key).isSome = true →
    (new.metadata.labels.lookup key).isSome = true
  ports : ∀ shown, new.ports.countP (·.shows shown) = old.ports.countP (·.shows shown)

theorem syncedEp_eq (svc : Service) (s : Server Endpoints) :
    syncedEp svc s = some (svc.relabel (s.object.getD (svc.newEndpoints []))) := by
  cases hobj : s.object with
  | none =>
    simp only [syncedEp, syncSvcLabelToEp, fetch, Bind.bind, Client.bind, stepOn, Server.get, hobj]
    rfl
  | some ep =>
    simp only [syncedEp, syncSvcLabelToEp, fetch, Bind.bind, Client.bind, stepOn, Server.get, hobj]
    rfl

theorem count_getSvcPortsToEpPort (ports : List ServicePort) (shown : EndpointPort) :
    (getSvcPortsToEpPort ports).count shown = ports.countP (·.shows shown) := by
  rw [getSvcPortsToEpPort, List.count_eq_countP, List.countP_map]
  refine List.countP_congr fun port _ => ?_
  obtain ⟨name, number, protocol, appProtocol⟩ := shown
  simp [ServicePort.shows]

theorem forall₂_setPorts {x y : List EndpointPort} {subs : List EndpointSubset} :
    List.Forall₂ (fun sub sub' => sub.ports.Perm sub'.ports) (setPorts x subs) (setPorts y subs) ↔
      (subs ≠ [] → x.Perm y) := by
  cases subs with
  | nil => simp [setPorts]
  | cons sub subs => simp [setPorts]

/-- A dropped event of a service is one without effect exactly if labels and ports are kept. -/
theorem syncsAlike_iff {new old : Service}
    (hlabels : compareMapsStrings new.metadata.labels old.metadata.labels = true) :
    (∀ s, SyncsAlike new old s) ↔ ServiceKept old new := by
  have hports : (getSvcPortsToEpPort new.ports).Perm (getSvcPortsToEpPort old.ports) ↔
      ∀ shown, new.ports.countP (·.shows shown) = old.ports.countP (·.shows shown) := by
    rw [List.perm_iff_count]
    simp only [count_getSvcPortsToEpPort]
  constructor
  · intro halike
    -- an object with one subset shows both the labels and the ports
    obtain ⟨a, b, ha, hb, hkeys, hsubs⟩ :=
      halike (.holding 1 { metadata := { name := "", nameSpace := "" }, subsets := [{}] })
    rw [syncedEp_eq] at ha hb
    obtain rfl := Option.some.inj ha
    obtain rfl := Option.some.inj hb
    constructor
    · intro key
      exact (lookup_eq_iff_of_compareMapsStrings hlabels key).mp (hkeys key)
    · have hsubs : List.Forall₂ (fun sub sub' : EndpointSubset => sub.ports.Perm sub'.ports)
          (setPorts (getSvcPortsToEpPort new.ports) [{}])
          (setPorts (getSvcPortsToEpPort old.ports) [{}]) := hsubs
      exact hports.mp (forall₂_setPorts.mp hsubs (List.cons_ne_nil _ _))
  · intro hkept s
    have hkeys : ∀ key, new.metadata.labels.lookup key = old.metadata.labels.lookup key :=
      fun key => (lookup_eq_iff_of_compareMapsStrings hlabels key).mpr (hkept.labels key)
    refine ⟨_, _, syncedEp_eq new s, syncedEp_eq old s, hkeys, ?_⟩
    cases s.object with
    | none => exact List.Forall₂.nil
    | some ep => exact forall₂_setPorts.mpr fun _ => hports.mpr hkept.ports

/-! ### Endpoints -/

/-- The label `hc_enabled` is not gone, and an object with subsets asks for the same checks. -/
structure EndpointsKept (old new : Endpoints) : Prop where
  enabled : (old.metadata.labels.lookup Nginx.vsHcIsEnable).isSome = true →
    (new.metadata.labels.lookup Nginx.vsHcIsEnable).isSome = true
  requests : new.subsets ≠ [] → Nginx.SameRequests new old

/-- Subsets that compare as equal are as many, and each has a ready address. -/
theorem addresses_of_compareEpSubsets {new old : List EndpointSubset}
    (hsame : compareEpSubsets new old = true) :
    new.length = old.length ∧ (∀ sub ∈ new, sub.addresses ≠ []) ∧
      ∀ sub ∈ old, sub.addresses ≠ [] := by
  have hcompared := compared_of_compareEpSubsets hsame
  refine ⟨hcompared.length_eq, ?_⟩
  clear hsame
  induction hcompared with
  | nil => simp
  | cons hhead _ ih =>
    refine ⟨List.forall_mem_cons.mpr ⟨fun hnone => ?_, ih.1⟩,
      List.forall_mem_cons.mpr ⟨hhead.ready_ne_nil, ih.2⟩⟩
    have hlength := hhead.ready.1
    rw [hnone, List.map_nil, List.length_map] at hlength
    exact hhead.ready_ne_nil (List.length_eq_zero_iff.mp hlength.symm)

theorem listedIps_ne_nil {ep : Endpoints} (hsubs : ep.subsets ≠ [])
    (haddresses : ∀ sub ∈ ep.subsets, sub.addresses ≠ []) : Nginx.listedIps ep ≠ [] := by
  obtain ⟨sub, hsub⟩ := List.exists_mem_of_ne_nil _ hsubs
  intro hnil
  have hready : Nginx.epAddresses "" sub.addresses = [] :=
    (List.append_eq_nil_iff.mp (List.flatMap_eq_nil_iff.mp hnil sub hsub)).1
  cases haddrs : sub.addresses with
  | nil => exact haddresses sub hsub haddrs
  | cons addr addrs =>
    rw [haddrs] at hready
    cases hready

/-- A dropped event of an `Endpoints` object is one without effect exactly if `hc_enabled` and the
checks asked for are kept. -/
theorem sameWritten_iff_kept {new old : Endpoints} (hname : new.metadata.name = old.metadata.name)
    (hspace : new.metadata.nameSpace = old.metadata.nameSpace)
    (hsubsets : compareEpSubsets new.subsets old.subsets = true)
    (hlabels : compareMapsStrings new.metadata.labels old.metadata.labels = true) :
    (Nginx.SameWritten new old ∧ new.metadata.labels.lookup Nginx.vsHcIsEnable =
        old.metadata.labels.lookup Nginx.vsHcIsEnable) ↔ EndpointsKept old new := by
  obtain ⟨hlength, hnew, hold⟩ := addresses_of_compareEpSubsets hsubsets
  have hfull : Nginx.svcNsName new = Nginx.svcNsName old := by
    rw [Nginx.svcNsName, Nginx.svcNsName, hname, hspace]
  have hwritten : Nginx.SameWritten new old ↔ (new.subsets ≠ [] → Nginx.SameRequests new old) := by
    by_cases hnone : new.subsets = []
    · -- without subsets there is no address, and nothing is written
      have hnone' : old.subsets = [] :=
        List.length_eq_zero_iff.mp (by simpa [hnone] using hlength.symm)
      have hips : Nginx.listedIps new = [] ∧ Nginx.listedIps old = [] := by
        simp [Nginx.listedIps, hnone, hnone']
      refine iff_of_true (fun file => ?_) fun hsome => absurd hnone hsome
      rw [Nginx.generated_eq, Nginx.generated_eq, if_pos (.inl hips.1),
        if_pos (.inl hips.2)]
      exact List.Forall₂.nil
    · have hsome : old.subsets ≠ [] := by
        have hpos := List.length_pos_iff.mpr hnone
        exact List.length_pos_iff.mp (by omega)
      rw [Nginx.sameWritten_iff hfull (listedIps_ne_nil hnone hnew) (listedIps_ne_nil hsome hold)]
      simp [hnone]
  rw [hwritten, lookup_eq_iff_of_compareMapsStrings hlabels]
  constructor
  · rintro ⟨hrequests, henabled⟩
    exact ⟨henabled, hrequests⟩
  · intro hkept
    exact ⟨hkept.requests, hkept.enabled⟩

/-! ### Both kinds of events -/

theorem of_updateService {new old : Service} (hversion : Successive old.metadata new.metadata)
    (hlabel : (new.metadata.labels.lookup vsDomain).isSome = true)
    (hdropped : updateService new old = false) :
    compareMapsStrings new.metadata.labels old.metadata.labels = true := by
  rw [updateService, if_pos hlabel, if_pos hversion.resourceVersion] at hdropped
  simp only [Bool.or_eq_false_iff, Bool.not_eq_false'] at hdropped
  exact hdropped.1

theorem of_updateEndpoints {o : Ownership} {new old : Endpoints}
    (hversion : Successive old.metadata new.metadata) (hmanaged : new.managed = true)
    (hdropped : updateEndpoints o new old = false) :
    compareEpSubsets new.subsets old.subsets = true ∧
      compareMapsStrings new.metadata.labels old.metadata.labels = true := by
  rw [updateEndpoints, if_pos hmanaged, if_pos hversion.resourceVersion] at hdropped
  split at hdropped
  · simpa only [Bool.or_eq_false_iff, Bool.not_eq_false'] using hdropped
  · cases hdropped

/-- When it is sound to drop an update event: for a service, whatever is stored, exactly if no
label is gone and the ports are the same as far as they are copied; for an `Endpoints` object
exactly if `hc_enabled` is not gone and the object asks for the same checks. -/
theorem dropped_updates_sound_iff (o : Ownership) {oldSvc newSvc : Service}
    {oldEp newEp : Endpoints} (hsvc : Successive oldSvc.metadata newSvc.metadata)
    (hsvcLabel : (newSvc.metadata.labels.lookup vsDomain).isSome = true)
    (hep : Successive oldEp.metadata newEp.metadata) (hepLabel : newEp.managed = true) :
    (updateService newSvc oldSvc = false →
      ((∀ s, SyncsAlike newSvc oldSvc s) ↔ ServiceKept oldSvc newSvc)) ∧
    (updateEndpoints o newEp oldEp = false →
      (Nginx.SameWritten newEp oldEp ∧ newEp.metadata.labels.lookup Nginx.vsHcIsEnable =
          oldEp.metadata.labels.lookup Nginx.vsHcIsEnable ↔ EndpointsKept oldEp newEp)) := by
  constructor
  · intro hdropped
    exact syncsAlike_iff (of_updateService hsvc hsvcLabel hdropped)
  · intro hdropped
    obtain ⟨hsubsets, hlabels⟩ := of_updateEndpoints hep hepLabel hdropped
    exact sameWritten_iff_kept hep.name hep.nameSpace hsubsets hlabels

/-- The metadata of a managed service in its two versions. -/
def webMeta (version : ℕ) (labels : List (String × String)) : ObjectMeta where
  name := "web"
  nameSpace := "prod"
  labels := labels.foldl (fun m kv => m.insert kv.1 kv.2) (∅ : Go.Map String String)
  resourceVersion := some version

/-- The labels of a managed service that is checked in its own way. -/
def webLabels : List (String × String) :=
  [(vsDomain, vsDomainName), (Nginx.vsHcIsEnable, "true"),
    (Nginx.vsHcMonitorParam, "1000-500-2-2")]

/-- A managed service with one port. -/
def webService (version : ℕ) (labels : List (String × String)) : Service where
  metadata := webMeta version labels
  ports := [{ name := "http", port := 80, targetPort := .int 8080, protocol := "TCP" }]

/-- Its `Endpoints` object, with one pod on each side. -/
def webEndpoints (version : ℕ) (labels : List (String × String)) : Endpoints where
  metadata := webMeta version labels
  subsets := [{ addresses := [{ ip := "10.0.0.7" }], notReadyAddresses := [{ ip := "10.0.0.8" }],
                ports := [{ name := "http", port := 8080, protocol := "TCP" }] }]

theorem successive_webMeta (labels labels' : List (String × String)) :
    Successive (webMeta 1 labels) (webMeta 2 labels') := ⟨rfl, rfl, by simp [webMeta]⟩

theorem dropped_updates_sound_unchanged :
    updateService (webService 2 webLabels) (webService 1 webLabels) = false ∧
    (∀ s, SyncsAlike (webService 2 webLabels) (webService 1 webLabels) s) ∧
    updateEndpoints { isLeader := true } (webEndpoints 2 webLabels) (webEndpoints 1 webLabels) =
      false ∧
    Nginx.SameWritten (webEndpoints 2 webLabels) (webEndpoints 1 webLabels) := by
  have hiff := @dropped_updates_sound_iff { isLeader := true } (webService 1 webLabels)
    (webService 2 webLabels) (webEndpoints 1 webLabels) (webEndpoints 2 webLabels)
    (successive_webMeta webLabels webLabels) (by decide +kernel)
    (successive_webMeta webLabels webLabels) (by decide +kernel)
  have hservice : updateService (webService 2 webLabels) (webService 1 webLabels) = false := by
    decide +kernel
  have hendpoints : updateEndpoints { isLeader := true } (webEndpoints 2 webLabels)
      (webEndpoints 1 webLabels) = false := by
    decide +kernel
  refine ⟨hservice, (hiff.1 hservice).mpr ⟨fun _ => id, fun _ => rfl⟩, hendpoints,
    ((hiff.2 hendpoints).mpr ⟨id, fun _ file => ⟨?_, ?_, fun _ => .refl _⟩⟩).1⟩
  · cases file <;> decide +kernel
  · cases file <;> decide +kernel

/-- The labels without the parameters of the check. -/
def webLabelsRemoved : List (String × String) :=
  [(vsDomain, vsDomainName), (Nginx.vsHcIsEnable, "true")]

/-- Removing the label `hc_monitor_parameter`, from the service or from the `Endpoints` object, is
an event that is dropped, although the labels to be copied and the blocks to be written change. -/
theorem dropped_label_removal :
    Successive (webMeta 1 webLabels) (webMeta 2 webLabelsRemoved) ∧
    ((webMeta 2 webLabelsRemoved).labels.lookup vsDomain).isSome = true ∧
    updateService (webService 2 webLabelsRemoved) (webService 1 webLabels) = false ∧
    ¬ (∀ s, SyncsAlike (webService 2 webLabelsRemoved) (webService 1 webLabels) s) ∧
    updateEndpoints { isLeader := true } (webEndpoints 2 webLabelsRemoved)
      (webEndpoints 1 webLabels) = false ∧
    ¬ Nginx.SameWritten (webEndpoints 2 webLabelsRemoved) (webEndpoints 1 webLabels) := by
  refine ⟨successive_webMeta _ _, by decide +kernel, by decide +kernel, fun halike => ?_,
    by decide +kernel, fun hsame => ?_⟩
  · have hkept := (syncsAlike_iff (by decide +kernel)).mp halike
    exact absurd (hkept.labels Nginx.vsHcMonitorParam (by decide +kernel)) (by decide +kernel)
  · have hiff := Nginx.sameWritten_iff
      (by decide : Nginx.svcNsName (webEndpoints 2 webLabelsRemoved) =
        Nginx.svcNsName (webEndpoints 1 webLabels)) (by decide +kernel) (by decide +kernel)
    exact absurd (hiff.mp hsame .http).1 (by decide +kernel)

end HealthCheck
