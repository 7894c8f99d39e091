import HealthCheck.Endpoints.Deletion
import HealthCheck.Reconcile

/-!
# Pods that change their services

A pod names its services in its labels. When a pod is updated, the Update predicate takes its
address out of the `Endpoints` objects of services it has left, and the reconcile that follows
puts the address into those of the services it has. The predicate gives up as soon as it sees a
label that was added, and both use the new address of the pod, so what the old address or a
simultaneous addition leaves behind stays.
-/

namespace HealthCheck

open Api Api.Client

/-! ## Pods and their labels -/

/-- `PodPhase`. -/
inductive PodPhase where
  | pending
  | running
  | succeeded
  | failed
  | unknown
  deriving DecidableEq, Repr

/-- A pod, with the fields the controller reads; `deleting` tells that there is a deletion
timestamp. -/
structure Pod where
  metadata : ObjectMeta
  phase : PodPhase
  podIp : String
  nodeName : String
  deleting : Bool
  deriving DecidableEq

/-- `VsAppLabelPrefix`. -/
def vsAppLabelPrefix : String := "virtualservices.kubernetes.io/"

/-- `AnnotationFt`. -/
def annotationFt : String := "kubevirt.io/ftvm"

/-- The label of a service. -/
def appLabel (name nameSpace : String) : String :=
  vsAppLabelPrefix ++ virtualServiceFullValue name nameSpace

/-- The keys that name services. -/
def serviceKeys (keys : List String) : List String :=
  keys.filter fun key => Go.contains key vsAppLabelPrefix

/-- The `Endpoints` object that a key names. Keys of another form are skipped. -/
def labelEndpoint (key : String) : Option (String × String) :=
  match Go.split key '/' with
  | [_, metaEndpoint] =>
    match Go.split metaEndpoint '_' with
    | [name, nameSpace] => some (name, nameSpace)
    | _ => none
  | _ => none

/-- An order in which Go may range over the labels. -/
structure KeyOrder (labels : Go.Map String String) where
  keys : List String
  perm : keys.Perm labels.keys

/-- The order of the underlying list. -/
def KeyOrder.listed (labels : Go.Map String String) : KeyOrder labels := ⟨labels.keys, .refl _⟩

/-- The services of a pod. -/
def Pod.services (pod : Pod) : List (String × String) :=
  (serviceKeys pod.metadata.labels.keys).filterMap labelEndpoint

/-- The address of the pod as the worker passes it on. -/
def Pod.address (pod : Pod) : PodAddress := ⟨pod.metadata.name, pod.podIp, pod.nodeName⟩

/-! ## The predicate and the reconcile -/

/-- Calls for one `Endpoints` object after the other, until one returns an error. No request
fails. -/
def callEach (call : String × String → Client Endpoints Bool) :
    List (String × String) → EpStore → Bool × EpStore
  | [], store => (true, store)
  | t :: ts, store =>
    let r := alone (call t) (store t.1 t.2)
    if r.1 then callEach call ts (store.set t.1 t.2 r.2) else (false, store.set t.1 t.2 r.2)

/-- `syncEndpointsWithPodLabel`. -/
def syncEndpointsWithPodLabel (new old : Pod) (newKeys : KeyOrder new.metadata.labels)
    (oldKeys : KeyOrder old.metadata.labels) (store : EpStore) : Bool × EpStore :=
  let newLabelKey := serviceKeys newKeys.keys
  let oldLabelKey := serviceKeys oldKeys.keys
  if newLabelKey.any fun key => (old.metadata.labels.lookup key).isNone then (true, store)
  else if oldLabelKey.length = newLabelKey.length then (true, store)
  else
    callEach (fun _ => deleteEp new.podIp)
      ((oldLabelKey.filter fun key => (new.metadata.labels.lookup key).isNone).filterMap
        labelEndpoint) store

/-- The Update predicate for pods: whether a request is queued, and the store. An error of
`syncEndpointsWithPodLabel` is only logged. -/
def updatePod (new old : Pod) (newKeys : KeyOrder new.metadata.labels)
    (oldKeys : KeyOrder old.metadata.labels) (store : EpStore) : Bool × EpStore :=
  if new.metadata.resourceVersion ≠ old.metadata.resourceVersion ∧ new.phase = .running ∧
      new.podIp ≠ "" ∧ new.deleting = false ∧
      (new.metadata.annotations.lookup annotationFt).getD "" ≠ "svm" then
    if !(serviceKeys newKeys.keys).isEmpty || !(serviceKeys oldKeys.keys).isEmpty then
      (true, (syncEndpointsWithPodLabel new old newKeys oldKeys store).2)
    else (true, store)
  else (false, store)

/-- The branch of `Reconcile` for pods, with the services there are. -/
def reconcilePod (svcs : String → String → Option Service) (pod : Pod)
    (keys : KeyOrder pod.metadata.labels) (store : EpStore) : Bool × EpStore :=
  callEach (fun t => updateEpInfo t.2 (svcs t.1 t.2) pod.address)
    ((serviceKeys keys.keys).filterMap labelEndpoint) store

/-- An update of a pod: the two objects, the orders of the loops over their labels in the
predicate and in the reconcile, and what there is in the cluster. -/
structure PodUpdate where
  old : Pod
  new : Pod
  oldKeys : KeyOrder old.metadata.labels
  newKeys : KeyOrder new.metadata.labels
  workerKeys : KeyOrder new.metadata.labels
  svcs : String → String → Option Service
  store : EpStore

namespace PodUpdate

/-- The store after the predicate and, if it queued a request, the reconcile. -/
def after (u : PodUpdate) : EpStore :=
  let updated := updatePod u.new u.old u.newKeys u.oldKeys u.store
  if updated.1 then (reconcilePod u.svcs u.new u.workerKeys updated.2).2 else updated.2

end PodUpdate

/-! ## What the calls do to one object -/

/-- The IP is an address of the stored object, ready or not. -/
def EpStore.Lists (store : EpStore) (t : String × String) (ip : String) : Prop :=
  ∃ side, HasAddr (store t.1 t.2) side ip

theorem EpStore.lists_iff {store : EpStore} {t : String × String} {ip : String} :
    store.Lists t ip ↔
      HasAddr (store t.1 t.2) .ready ip ∨ HasAddr (store t.1 t.2) .notReady ip :=
  Side.exists_iff

/-- An object that is as it was lists the same addresses. -/
theorem EpStore.lists_congr {store store' : EpStore} {t : String × String}
    (hsame : store' t.1 t.2 = store t.1 t.2) (ip : String) :
    store'.Lists t ip ↔ store.Lists t ip := by
  rw [EpStore.Lists, hsame, EpStore.Lists]

theorem hasIp_singleton {side : Side} {sub : EndpointSubset} {ip : String} :
    HasIp side [sub] ip ↔ Holds ip (sub.on side) := by
  rw [hasIp_cons, or_iff_left hasIp_nil, Holds]

/-- The first loop of `deleteEp` on one subset. What is not ready is left alone when the IP is
ready. -/
theorem deleteAddresses_single (podIp : String) (sub : EndpointSubset) :
    ∃ left found, deleteAddresses podIp [] [] false [sub] = ([left], found) ∧
      (∀ ip, HasIp .ready [left] ip ↔ HasIp .ready [sub] ip ∧ ip ≠ podIp) ∧
      (∀ ip, HasIp .notReady [left] ip ↔
        HasIp .notReady [sub] ip ∧ (ip ≠ podIp ∨ HasIp .ready [sub] podIp)) ∧
      (found = false → ∀ side, ¬ HasIp side [sub] podIp) := by
  simp only [hasIp_singleton]
  by_cases hready : Holds podIp sub.addresses
  · refine ⟨{ sub with addresses := sub.addresses.filter fun addr => addr.ip ≠ podIp }, true,
      ?_, ?_, ?_, by simp⟩
    · simp [deleteAddresses, any_eq_holds, hready]
    · exact fun ip => holds_filter_iff
    · exact fun ip => ⟨fun h => ⟨h, .inr hready⟩, fun h => h.1⟩
  · refine ⟨{ sub with
        addresses := sub.addresses.filter fun addr => addr.ip ≠ podIp
        notReadyAddresses := sub.notReadyAddresses.filter fun addr => addr.ip ≠ podIp },
      decide (Holds podIp sub.notReadyAddresses), ?_, ?_, ?_, ?_⟩
    · simp [deleteAddresses, any_eq_holds, hready]
    · exact fun ip => holds_filter_iff
    · intro ip
      refine holds_filter_iff.trans (and_congr_right fun _ => ?_)
      exact ⟨.inl, fun h => h.resolve_right hready⟩
    · intro hfound side
      cases side with
      | ready => exact hready
      | notReady => exact of_decide_eq_false hfound

/-- Deleting an IP from an object with one subset. -/
theorem deleteEp_single {s : Server Endpoints} {ep : Endpoints} {sub : EndpointSubset}
    (hobj : s.object = some ep) (hsubs : ep.subsets = [sub]) (podIp : String) :
    (alone (deleteEp podIp) s).1 = true ∧
      (∀ ip, HasAddr (alone (deleteEp podIp) s).2 .ready ip ↔
        HasAddr s .ready ip ∧ ip ≠ podIp) ∧
      (∀ ip, HasAddr (alone (deleteEp podIp) s).2 .notReady ip ↔
        HasAddr s .notReady ip ∧ (ip ≠ podIp ∨ HasAddr s .ready podIp)) := by
  obtain ⟨left, found, hdelete, hready, hnotReady, hfound⟩ := deleteAddresses_single podIp sub
  obtain ⟨subs, hdrop⟩ : ∃ subs, dropEmpty [left] = some subs := by
    simp only [dropEmpty, dropEmptyFrom, List.length_singleton]
    split <;> simp
  have hbefore : ∀ side ip, HasAddr s side ip ↔ HasIp side [sub] ip := by
    intro side ip
    rw [hasAddr_of_object hobj, Endpoints.Has, hsubs]
  rw [deleteEp, alone_fetch_bind]
  simp only [Server.get, hobj, hsubs, hdelete, hdrop, hbefore]
  cases found with
  | true =>
    obtain ⟨stored, hok, hstored, hcontent⟩ :=
      @alone_send_of_version _ _ _ s ep { ep with subsets := subs } hobj rfl
    have hafter : ∀ side ip, HasAddr (alone (send { ep with subsets := subs }) s).2 side ip ↔
        HasIp side [left] ip := by
      intro side ip
      rw [hasAddr_of_object hstored, Endpoints.has_iff_of_stamp_eq hcontent]
      exact ⟨hasIp_of_dropEmpty hdrop, hasIp_dropEmpty hdrop⟩
    simp only [if_true, hafter]
    exact ⟨hok, hready, hnotReady⟩
  | false =>
    -- nothing was found, so there is nothing to delete
    have hnone := hfound rfl
    simp only [Bool.false_eq_true, if_false, alone_pure, hbefore]
    refine ⟨trivial, fun ip => ?_, fun ip => ?_⟩
    · refine ⟨fun h => ⟨h, ?_⟩, fun h => h.1⟩
      rintro rfl
      exact hnone .ready h
    · refine ⟨fun h => ⟨h, .inl ?_⟩, fun h => h.1⟩
      rintro rfl
      exact hnone .notReady h

/-- What `_createEp` lists in an object that exists and does not list the pod. -/
theorem createEp_lists {s : Server Endpoints} {ep : Endpoints} (hobj : s.object = some ep)
    (svc : Service) {pod : PodAddress} (hip : pod.podIp ≠ "")
    (hnew : ∀ side, ¬ ep.Has side pod.podIp) :
    (alone (createEp svc pod) s).1 = true ∧
      ∀ ip, (∃ side, HasAddr (alone (createEp svc pod) s).2 side ip) ↔
        (∃ side, HasAddr s side ip) ∨ ip = pod.podIp := by
  obtain ⟨new, hok, hstored, hsubs⟩ := @alone_createEp_fresh svc s ep hobj pod hip hnew
  refine ⟨hok, fun ip => ?_⟩
  simp only [hasAddr_of_object hstored, has_of_withAddress hsubs, hasAddr_of_object hobj, exists_or]
  exact or_congr_right ⟨fun h => h.choose_spec.2, fun h => ⟨.ready, rfl, h⟩⟩

/-- `updateEpInfo` makes sure that the pod is listed, when the object and the service exist. -/
theorem updateEpInfo_lists {s : Server Endpoints} {ep : Endpoints} (hobj : s.object = some ep)
    (nameSpace : String) (svc : Service) {pod : PodAddress} (hip : pod.podIp ≠ "") :
    (alone (updateEpInfo nameSpace (some svc) pod) s).1 = true ∧
      ∀ ip, (∃ side, HasAddr (alone (updateEpInfo nameSpace (some svc) pod) s).2 side ip) ↔
        (∃ side, HasAddr s side ip) ∨ ip = pod.podIp := by
  cases htouch : touchSubsets pod nameSpace ep.subsets with
  | none =>
    rw [alone_updateEpInfo_untouched hobj (some svc) htouch]
    exact createEp_lists hobj svc hip (touchSubsets_eq_none.mp htouch)
  | some subs =>
    -- the pod is listed already, and touching its entry changes no IP
    obtain ⟨stored, hok, hstored, hcontent⟩ := alone_updateEpInfo_touched hobj (some svc) htouch
    have hsame : ∀ side ip, HasAddr (alone (updateEpInfo nameSpace (some svc) pod) s).2 side ip ↔
        ep.Has side ip := by
      intro side ip
      rw [hasAddr_of_object hstored, Endpoints.has_iff_of_stamp_eq hcontent]
      exact hasIp_touchSubsets htouch side ip
    have hlisted : ∃ side, ep.Has side pod.podIp := touchSubsets_isSome_iff.mp ⟨subs, htouch⟩
    refine ⟨hok, fun ip => ?_⟩
    simp only [hsame, hasAddr_of_object hobj]
    constructor
    · exact .inl
    · rintro (h | rfl)
      · exact h
      · exact hlisted

/-- A loop over different objects changes each of them as its call alone does. -/
theorem callEach_spec {call : String × String → Client Endpoints Bool}
    {targets : List (String × String)} (hnodup : targets.Nodup) {store : EpStore}
    (hok : ∀ t ∈ targets, (alone (call t) (store t.1 t.2)).1 = true) (t : String × String) :
    (callEach call targets store).2 t.1 t.2 =
      if t ∈ targets then (alone (call t) (store t.1 t.2)).2 else store t.1 t.2 := by
  induction targets generalizing store with
  | nil => rfl
  | cons first rest ih =>
    obtain ⟨hnew, hrest⟩ := List.nodup_cons.mp hnodup
    obtain ⟨hfirst, hlater⟩ := List.forall_mem_cons.mp hok
    have hkeeps : ∀ t' ∈ rest, t' ≠ first := by
      rintro t' ht' rfl
      exact hnew ht'
    rw [callEach, hfirst, if_pos rfl, ih hrest]
    · by_cases ht : t = first
      · subst ht
        rw [if_neg hnew, if_pos List.mem_cons_self, EpStore.get_set]
      · rw [EpStore.get_set_of_ne store ht]
        simp only [List.mem_cons, ht, false_or]
    · intro t' ht'
      rw [EpStore.get_set_of_ne store (hkeeps t' ht')]
      exact hlater t' ht'

/-! ## Labels and services -/

/-- The service labels of a pod have the form `virtualservices.kubernetes.io/name_namespace`. -/
def WellLabelled (pod : Pod) : Prop :=
  ∀ key ∈ serviceKeys pod.metadata.labels.keys, ∃ name nameSpace, key = appLabel name nameSpace ∧
    ('_' ∉ name.toList ∧ '_' ∉ nameSpace.toList) ∧ '/' ∉ name.toList ∧ '/' ∉ nameSpace.toList

/-- The label of a service names it. -/
theorem labelEndpoint_appLabel {name nameSpace : String}
    (hscore : '_' ∉ name.toList ∧ '_' ∉ nameSpace.toList)
    (hslash : '/' ∉ name.toList ∧ '/' ∉ nameSpace.toList) :
    labelEndpoint (appLabel name nameSpace) = some (name, nameSpace) := by
  have hvalue : '/' ∉ (virtualServiceFullValue name nameSpace).toList := by
    simp [virtualServiceFullValue, hslash.1, hslash.2]
  have hdomain : '/' ∉ "virtualservices.kubernetes.io".toList := by decide
  have hsplit : Go.split (appLabel name nameSpace) '/' =
      ["virtualservices.kubernetes.io", virtualServiceFullValue name nameSpace] := by
    have hlabel : appLabel name nameSpace = "virtualservices.kubernetes.io" ++
        String.singleton '/' ++ virtualServiceFullValue name nameSpace := by
      rw [appLabel, vsAppLabelPrefix]
      congr 1
    rw [hlabel]
    exact Go.split_join hdomain hvalue
  rw [labelEndpoint, hsplit]
  simp only [split_virtualServiceFullValue hscore.1 hscore.2]

namespace WellLabelled

variable {pod : Pod} (h : WellLabelled pod)
include h

/-- A service is named by its own label only. -/
theorem key_eq {key : String} (hkey : key ∈ serviceKeys pod.metadata.labels.keys)
    {t : String × String} (ht : labelEndpoint key = some t) : key = appLabel t.1 t.2 := by
  obtain ⟨name, nameSpace, rfl, hscore, hslash⟩ := h key hkey
  rw [labelEndpoint_appLabel hscore hslash, Option.some.injEq] at ht
  rw [← ht]

/-- Every service label names a service. -/
theorem exists_service {key : String} (hkey : key ∈ serviceKeys pod.metadata.labels.keys) :
    ∃ t, labelEndpoint key = some t := by
  obtain ⟨name, nameSpace, rfl, hscore, hslash⟩ := h key hkey
  exact ⟨_, labelEndpoint_appLabel hscore hslash⟩

/-- No service is listed twice. -/
theorem nodup {keys : List String} (hkeys : keys.Nodup)
    (hall : ∀ key ∈ keys, key ∈ serviceKeys pod.metadata.labels.keys) :
    (keys.filterMap labelEndpoint).Nodup := by
  have hback : (keys.filterMap labelEndpoint).map (fun t => appLabel t.1 t.2) = keys := by
    clear hkeys
    induction keys with
    | nil => rfl
    | cons key keys ih =>
      obtain ⟨hkey, hrest⟩ := List.forall_mem_cons.mp hall
      obtain ⟨t, ht⟩ := h.exists_service hkey
      rw [List.filterMap_cons_some ht, List.map_cons, ih hrest, ← h.key_eq hkey ht]
  exact List.Nodup.of_map _ (hback.symm ▸ hkeys)

end WellLabelled

/-- The services of a pod, by their labels. -/
theorem mem_services {pod : Pod} {t : String × String} :
    t ∈ pod.services ↔
      ∃ key ∈ serviceKeys pod.metadata.labels.keys, labelEndpoint key = some t :=
  List.mem_filterMap

/-- The service keys in some order. -/
theorem mem_serviceKeys {labels : Go.Map String String} (order : KeyOrder labels) {key : String} :
    key ∈ serviceKeys order.keys ↔ key ∈ serviceKeys labels.keys := by
  simp only [serviceKeys, List.mem_filter, order.perm.mem_iff]

theorem nodup_serviceKeys {labels : Go.Map String String} (order : KeyOrder labels) :
    (serviceKeys order.keys).Nodup :=
  (order.perm.nodup_iff.mpr labels.keys_nodup).filter _

/-- A service key that is among the labels of another pod is a service key there. -/
theorem mem_serviceKeys_of_lookup {labels labels' : Go.Map String String} {key : String}
    (hkey : key ∈ serviceKeys labels.keys) (hlookup : (labels'.lookup key).isSome = true) :
    key ∈ serviceKeys labels'.keys := by
  have hcontains := (List.mem_filter.mp hkey).2
  exact List.mem_filter.mpr ⟨AList.mem_keys.mp (AList.lookup_isSome.mp hlookup), hcontains⟩

theorem lookup_of_mem_serviceKeys {labels : Go.Map String String} {key : String}
    (hkey : key ∈ serviceKeys labels.keys) : (labels.lookup key).isSome = true :=
  AList.lookup_isSome.mpr (AList.mem_keys.mpr (List.mem_filter.mp hkey).1)

/-- A label of one pod is missing on another one exactly when the other one is not in the
service. -/
theorem lookup_isNone_iff {pod other : Pod} (hpod : WellLabelled pod) (hother : WellLabelled other)
    {key : String} (hkey : key ∈ serviceKeys pod.metadata.labels.keys) {t : String × String}
    (ht : labelEndpoint key = some t) :
    (other.metadata.labels.lookup key).isNone = true ↔ t ∉ other.services := by
  rw [Option.isNone_iff_eq_none, ← Option.not_isSome_iff_eq_none, not_iff_not, mem_services]
  constructor
  · intro hsome
    exact ⟨key, mem_serviceKeys_of_lookup hkey hsome, ht⟩
  · rintro ⟨key', hkey', ht'⟩
    have hsame : key' = key := (hother.key_eq hkey' ht').trans (hpod.key_eq hkey ht).symm
    rw [← hsame]
    exact lookup_of_mem_serviceKeys hkey'

namespace PodUpdate

/-- The updates that the predicate lets through, of a pod whose services exist: the version has
changed, the pod is running under an address, is not being deleted and is no secondary copy; each
of its services has an `Endpoints` object with one subset. -/
structure Admissible (u : PodUpdate) : Prop where
  version : u.new.metadata.resourceVersion ≠ u.old.metadata.resourceVersion
  running : u.new.phase = .running
  ip : u.new.podIp ≠ ""
  alive : u.new.deleting = false
  notSvm : (u.new.metadata.annotations.lookup annotationFt).getD "" ≠ "svm"
  oldLabels : WellLabelled u.old
  newLabels : WellLabelled u.new
  endpoints : ∀ t, t ∈ u.old.services ∨ t ∈ u.new.services →
    ∃ ep sub, (u.store t.1 t.2).object = some ep ∧ ep.subsets = [sub]
  services : ∀ t, t ∈ u.old.services ∨ t ∈ u.new.services → ∃ svc, u.svcs t.1 t.2 = some svc

/-- The pod has moved as far as a service is concerned: the old address is gone if the service
was in the old labels, the new one is there if the service is in the new labels, and nothing else
has changed. -/
def Moved (u : PodUpdate) (t : String × String) : Prop :=
  ∀ ip, u.after.Lists t ip ↔
    (u.store.Lists t ip ∧ ¬ (t ∈ u.old.services ∧ ip = u.old.podIp)) ∨
      (t ∈ u.new.services ∧ ip = u.new.podIp)

/-- No service is added. -/
def NoneAdded (u : PodUpdate) : Prop := ∀ t ∈ u.new.services, t ∈ u.old.services

instance (u : PodUpdate) : Decidable u.NoneAdded :=
  inferInstanceAs (Decidable (∀ t ∈ u.new.services, _))

/-- What a service of the old labels needs. One that stays must not list the old address, unless
it is still the pod's. One that is left while none is added must not have the address on both
sides or, if the address has changed, must not list the old one, and list the new one on no side
or on both. One that is left while another one is added must not list the old address. -/
def Movable (u : PodUpdate) (t : String × String) : Prop :=
  t ∈ u.old.services →
    (t ∈ u.new.services → u.old.podIp = u.new.podIp ∨ ¬ u.store.Lists t u.old.podIp) ∧
    (t ∉ u.new.services → u.NoneAdded →
      if u.old.podIp = u.new.podIp then
        ¬ (HasAddr (u.store t.1 t.2) .ready u.new.podIp ∧
          HasAddr (u.store t.1 t.2) .notReady u.new.podIp)
      else ¬ u.store.Lists t u.old.podIp ∧
        (HasAddr (u.store t.1 t.2) .ready u.new.podIp ↔
          HasAddr (u.store t.1 t.2) .notReady u.new.podIp)) ∧
    (t ∉ u.new.services → ¬ u.NoneAdded → ¬ u.store.Lists t u.old.podIp)

/-- The services that the predicate deletes the pod from, if it gets that far. -/
def dropped (u : PodUpdate) : List (String × String) :=
  ((serviceKeys u.oldKeys.keys).filter fun key =>
    (u.new.metadata.labels.lookup key).isNone).filterMap labelEndpoint

variable {u : PodUpdate}

/-- They are those that the pod has left. -/
theorem mem_dropped (h : u.Admissible) {t : String × String} :
    t ∈ u.dropped ↔ t ∈ u.old.services ∧ t ∉ u.new.services := by
  unfold dropped
  simp only [List.mem_filterMap, List.mem_filter, mem_serviceKeys u.oldKeys]
  constructor
  · rintro ⟨key, ⟨hkey, hnone⟩, ht⟩
    have hleft := (lookup_isNone_iff h.oldLabels h.newLabels hkey ht).mp hnone
    exact ⟨mem_services.mpr ⟨key, hkey, ht⟩, hleft⟩
  · rintro ⟨hold, hleft⟩
    obtain ⟨key, hkey, ht⟩ := mem_services.mp hold
    exact ⟨key, ⟨hkey, (lookup_isNone_iff h.oldLabels h.newLabels hkey ht).mpr hleft⟩, ht⟩

/-- When the predicate sees an added label. -/
theorem any_added_iff (h : u.Admissible) :
    ((serviceKeys u.newKeys.keys).any fun key => (u.old.metadata.labels.lookup key).isNone) = true ↔
      ¬ u.NoneAdded := by
  simp only [List.any_eq_true, mem_serviceKeys u.newKeys, NoneAdded, not_forall]
  constructor
  · rintro ⟨key, hkey, hnone⟩
    obtain ⟨t, ht⟩ := h.newLabels.exists_service hkey
    have hadded := (lookup_isNone_iff h.newLabels h.oldLabels hkey ht).mp hnone
    exact ⟨t, mem_services.mpr ⟨key, hkey, ht⟩, hadded⟩
  · rintro ⟨t, hnew, hold⟩
    obtain ⟨key, hkey, ht⟩ := mem_services.mp hnew
    exact ⟨key, hkey, (lookup_isNone_iff h.newLabels h.oldLabels hkey ht).mpr hold⟩

/-- Without an added label, as many old labels as new ones means that none is dropped. -/
theorem dropped_eq_nil (h : u.Admissible) (hnone : u.NoneAdded)
    (hlength : (serviceKeys u.oldKeys.keys).length = (serviceKeys u.newKeys.keys).length) :
    u.dropped = [] := by
  have hsub : serviceKeys u.newKeys.keys ⊆ serviceKeys u.oldKeys.keys := by
    intro key hkey
    have hkept : ¬ (u.old.metadata.labels.lookup key).isNone = true := by
      intro hlost
      exact (any_added_iff h).mp (List.any_eq_true.mpr ⟨key, hkey, hlost⟩) hnone
    rw [mem_serviceKeys] at hkey ⊢
    apply mem_serviceKeys_of_lookup hkey
    rwa [Bool.not_eq_true, Option.isNone_eq_false_iff] at hkept
  have hperm := (List.subperm_of_subset (nodup_serviceKeys u.newKeys) hsub).perm_of_length_le
    hlength.le
  have hall : ((serviceKeys u.oldKeys.keys).filter fun key =>
      (u.new.metadata.labels.lookup key).isNone) = [] := by
    rw [List.filter_eq_nil_iff]
    intro key hkey
    have hnew := (mem_serviceKeys u.newKeys).mp (hperm.mem_iff.mpr hkey)
    simpa [Option.isSome_iff_ne_none] using lookup_of_mem_serviceKeys hnew
  rw [dropped, hall, List.filterMap_nil]

/-- The predicate deletes the pod from the services it has left, unless a service is added. -/
theorem sync_eq (h : u.Admissible) :
    (syncEndpointsWithPodLabel u.new u.old u.newKeys u.oldKeys u.store).2 =
      if u.NoneAdded then (callEach (fun _ => deleteEp u.new.podIp) u.dropped u.store).2
      else u.store := by
  unfold syncEndpointsWithPodLabel
  dsimp only
  by_cases hnone : u.NoneAdded
  · rw [if_neg (mt (any_added_iff h).mp (not_not.mpr hnone)), if_pos hnone]
    split
    · next hlength =>
      rw [dropped_eq_nil h hnone hlength]
      rfl
    · rfl
  · rw [if_pos ((any_added_iff h).mpr hnone), if_neg hnone]

/-- The object of a service after the predicate. -/
theorem sync_spec (h : u.Admissible) (t : String × String) :
    (syncEndpointsWithPodLabel u.new u.old u.newKeys u.oldKeys u.store).2 t.1 t.2 =
      if u.NoneAdded ∧ t ∈ u.old.services ∧ t ∉ u.new.services then
        (alone (deleteEp u.new.podIp) (u.store t.1 t.2)).2
      else u.store t.1 t.2 := by
  have hnodup : u.dropped.Nodup := by
    refine h.oldLabels.nodup ((nodup_serviceKeys u.oldKeys).filter _) fun key hkey => ?_
    exact (mem_serviceKeys u.oldKeys).mp (List.mem_filter.mp hkey).1
  have hok : ∀ t' ∈ u.dropped,
      (alone (deleteEp u.new.podIp) (u.store t'.1 t'.2)).1 = true := by
    intro t' ht'
    obtain ⟨ep, sub, hobj, hsubs⟩ := h.endpoints t' (.inl ((mem_dropped h).mp ht').1)
    exact (deleteEp_single hobj hsubs u.new.podIp).1
  have heach := callEach_spec hnodup hok t
  rw [sync_eq h]
  by_cases hnone : u.NoneAdded
  · rw [if_pos hnone, heach]
    simp only [mem_dropped h, hnone, true_and]
  · rw [if_neg hnone, if_neg fun hleft => hnone hleft.1]

/-- The predicate queues a request and has done what `syncEndpointsWithPodLabel` does. -/
theorem updatePod_eq (h : u.Admissible) :
    updatePod u.new u.old u.newKeys u.oldKeys u.store =
      (true, (syncEndpointsWithPodLabel u.new u.old u.newKeys u.oldKeys u.store).2) := by
  unfold updatePod
  rw [if_pos ⟨h.version, h.running, h.ip, h.alive, h.notSvm⟩]
  split
  · rfl
  · next hnokeys =>
    -- without service labels there is nothing to do
    have hempty : serviceKeys u.newKeys.keys = [] ∧ serviceKeys u.oldKeys.keys = [] := by
      simpa using hnokeys
    simp [syncEndpointsWithPodLabel, hempty.1, hempty.2]

/-- The object of a service after the reconcile. -/
theorem after_spec (h : u.Admissible) (t : String × String) :
    u.after t.1 t.2 =
      if t ∈ u.new.services then
        (alone (updateEpInfo t.2 (u.svcs t.1 t.2) u.new.address) (u.store t.1 t.2)).2
      else if u.NoneAdded ∧ t ∈ u.old.services then
        (alone (deleteEp u.new.podIp) (u.store t.1 t.2)).2
      else u.store t.1 t.2 := by
  have hmem : ∀ t', t' ∈ (serviceKeys u.workerKeys.keys).filterMap labelEndpoint ↔
      t' ∈ u.new.services := by
    intro t'
    simp only [List.mem_filterMap, mem_serviceKeys u.workerKeys, mem_services]
  have hnodup : ((serviceKeys u.workerKeys.keys).filterMap labelEndpoint).Nodup :=
    h.newLabels.nodup (nodup_serviceKeys u.workerKeys)
      fun key hkey => (mem_serviceKeys u.workerKeys).mp hkey
  have hsame : ∀ t' ∈ u.new.services,
      (syncEndpointsWithPodLabel u.new u.old u.newKeys u.oldKeys u.store).2 t'.1 t'.2 =
        u.store t'.1 t'.2 := by
    intro t' ht'
    rw [sync_spec h, if_neg fun hleft => hleft.2.2 ht']
  have hok : ∀ t' ∈ (serviceKeys u.workerKeys.keys).filterMap labelEndpoint,
      (alone (updateEpInfo t'.2 (u.svcs t'.1 t'.2) u.new.address)
        ((syncEndpointsWithPodLabel u.new u.old u.newKeys u.oldKeys u.store).2 t'.1 t'.2)).1 =
          true := by
    intro t' ht'
    have hnew := (hmem t').mp ht'
    obtain ⟨ep, -, hobj, -⟩ := h.endpoints t' (.inr hnew)
    obtain ⟨svc, hsvc⟩ := h.services t' (.inr hnew)
    rw [hsame t' hnew, hsvc]
    exact (updateEpInfo_lists hobj t'.2 svc h.ip).1
  have heach := callEach_spec hnodup hok t
  rw [after, updatePod_eq h, if_pos rfl, reconcilePod, heach]
  simp only [hmem]
  split
  · next hnew => rw [hsame t hnew]
  · next hnew => simp only [sync_spec h, hnew, not_false_eq_true, and_true]

/-- Adding the new address is all it takes, if the old one is the same or not there. -/
theorem added_iff {listed : String → Prop} {old new : String} :
    (∀ ip, (listed ip ∨ ip = new) ↔ (listed ip ∧ ip ≠ old) ∨ ip = new) ↔
      old = new ∨ ¬ listed old := by
  constructor
  · intro hall
    by_contra! hboth
    rcases (hall old).mp (.inl hboth.2) with hkept | hsame
    · exact hkept.2 rfl
    · exact hboth.1 hsame
  · rintro (rfl | hnot) ip
    · by_cases hip : ip = old
      · simp [hip]
      · simp [hip]
    · by_cases hip : ip = old
      · subst hip
        simp [hnot]
      · simp [hip]

/-- Deleting the new address does for the old one, if they are the same and on one side, or if
the old one is not there and the new one is not deleted. -/
theorem deleted_iff {ready notReady : String → Prop} {old new : String} :
    (∀ ip, ((ready ip ∧ ip ≠ new) ∨ (notReady ip ∧ (ip ≠ new ∨ ready new))) ↔
      ((ready ip ∨ notReady ip) ∧ ip ≠ old)) ↔
      if old = new then ¬ (ready new ∧ notReady new)
      else ¬ (ready old ∨ notReady old) ∧ (ready new ↔ notReady new) := by
  split
  · next heq =>
    subst heq
    constructor
    · rintro hall ⟨hready, hnotReady⟩
      exact ((hall old).mp (.inr ⟨hnotReady, .inr hready⟩)).2 rfl
    · intro hone ip
      by_cases hip : ip = old
      · subst hip
        simp only [ne_eq, not_true_eq_false, and_false, false_or, iff_false]
        exact fun h => hone ⟨h.2, h.1⟩
      · simp [hip]
  · next hne =>
    have hne' : new ≠ old := fun h => hne h.symm
    constructor
    · intro hall
      have hnew := hall new
      have hold := hall old
      simp only [ne_eq, hne, hne', not_true_eq_false, not_false_eq_true, and_true, and_false,
        false_or, true_or, iff_false] at hnew hold
      exact ⟨hold, fun h => (hnew.mpr (.inl h)).1, fun h => (hnew.mpr (.inr h)).2⟩
    · rintro ⟨hnot, hboth⟩ ip
      by_cases hip : ip = new
      · subst hip
        simp only [ne_eq, hne', not_true_eq_false, not_false_eq_true, and_true, and_false, false_or,
          hboth, or_self, and_self]
      · by_cases hip' : ip = old
        · subst hip'
          rw [not_or] at hnot
          simp [hnot.1, hnot.2]
        · simp [hip, hip']

/-- For every update of a pod and every service, the pod has moved completely exactly when the
service is one that the predicate and the reconcile can handle. -/
theorem pod_update_moves_iff (u : PodUpdate) (h : u.Admissible) (t : String × String) :
    u.Moved t ↔ u.Movable t := by
  have hafter := after_spec h t
  unfold Moved Movable
  by_cases hnew : t ∈ u.new.services
  · obtain ⟨ep, -, hobj, -⟩ := h.endpoints t (.inr hnew)
    obtain ⟨svc, hsvc⟩ := h.services t (.inr hnew)
    rw [if_pos hnew, hsvc] at hafter
    have hlists : ∀ ip, u.after.Lists t ip ↔ u.store.Lists t ip ∨ ip = u.new.podIp := by
      intro ip
      rw [EpStore.Lists, hafter]
      exact (updateEpInfo_lists hobj t.2 svc h.ip).2 ip
    simp only [hlists, hnew, true_and, true_imp_iff, not_true_eq_false, false_imp_iff, and_true]
    by_cases hold : t ∈ u.old.services
    · simp only [hold, true_and, true_imp_iff]
      exact added_iff
    · simp [hold]
  · rw [if_neg hnew] at hafter
    simp only [hnew, false_and, or_false, false_imp_iff, not_false_eq_true, true_imp_iff, true_and]
    by_cases hold : t ∈ u.old.services
    · simp only [hold, true_and, and_true, true_imp_iff] at hafter ⊢
      by_cases hnone : u.NoneAdded
      · obtain ⟨ep, sub, hobj, hsubs⟩ := h.endpoints t (.inl hold)
        obtain ⟨-, hready, hnotReady⟩ := deleteEp_single hobj hsubs u.new.podIp
        rw [if_pos hnone] at hafter
        simp only [hnone, true_imp_iff, not_true_eq_false, false_imp_iff, and_true,
          EpStore.lists_iff, hafter, hready, hnotReady]
        exact deleted_iff
      · rw [if_neg hnone] at hafter
        simp only [hnone, EpStore.lists_congr hafter, false_imp_iff, not_false_eq_true,
          true_imp_iff, true_and]
        constructor
        · intro hall hlisted
          exact ((hall _).mp hlisted).2 rfl
        · intro hnot ip
          refine ⟨fun hlisted => ⟨hlisted, ?_⟩, fun hlisted => hlisted.1⟩
          rintro rfl
          exact hnot hlisted
    · simp only [hold, and_false, if_false] at hafter
      simp [EpStore.lists_congr hafter, hold]

/-- A pod at 10.0.0.7 with one service of the namespace `prod`. -/
def podOf (v : ℕ) (svc : String) : Pod where
  metadata :=
    { name := "web-0", nameSpace := "prod", resourceVersion := some v
      labels := (∅ : Go.Map String String).insert (appLabel svc "prod") "" }
  phase := .running
  podIp := "10.0.0.7"
  nodeName := "node-1"
  deleting := false

/-- The pod's service changes from one to another. The address is ready in `web`, and `api` has
another one. -/
def relabelled (oldSvc newSvc : String) : PodUpdate where
  old := podOf 1 oldSvc
  new := podOf 2 newSvc
  oldKeys := .listed _
  newKeys := .listed _
  workerKeys := .listed _
  svcs name nameSpace := some { metadata := { name := name, nameSpace := nameSpace } }
  store name nameSpace := .holding 1
    { metadata := { name := name, nameSpace := nameSpace }
      subsets := [{ addresses := [{ ip := if name = "web" then "10.0.0.7" else "10.0.0.9" }] }] }

theorem wellLabelled_podOf (v : ℕ) {svc : String} (hscore : '_' ∉ svc.toList)
    (hslash : '/' ∉ svc.toList) : WellLabelled (podOf v svc) := by
  intro key hkey
  have hlabel : key = appLabel svc "prod" := List.mem_singleton.mp (List.mem_filter.mp hkey).1
  exact ⟨svc, "prod", hlabel, ⟨hscore, by decide⟩, hslash, by decide⟩

theorem admissible_relabelled {oldSvc newSvc : String} (hold : oldSvc ∈ ["web", "api"])
    (hnew : newSvc ∈ ["web", "api"]) : (relabelled oldSvc newSvc).Admissible := by
  have hplain : ∀ svc ∈ ["web", "api"], '_' ∉ svc.toList ∧ '/' ∉ svc.toList := by decide
  have holdPlain := hplain oldSvc hold
  have hnewPlain := hplain newSvc hnew
  exact {
    version := by simp [relabelled, podOf]
    running := rfl
    ip := by simp [relabelled, podOf]
    alive := rfl
    notSvm := by simp [relabelled, podOf]
    oldLabels := wellLabelled_podOf 1 holdPlain.1 holdPlain.2
    newLabels := wellLabelled_podOf 2 hnewPlain.1 hnewPlain.2
    endpoints := fun _ _ => ⟨_, _, rfl, rfl⟩
    services := fun _ _ => ⟨_, rfl⟩ }

/-- A pod that keeps its service and its address. -/
theorem pod_update_same_service : (relabelled "web" "web").Moved ("web", "prod") :=
  (pod_update_moves_iff (relabelled "web" "web") (admissible_relabelled (by simp) (by simp))
    ("web", "prod")).mpr fun _ =>
      ⟨fun _ => .inl rfl, fun hleft => absurd (by decide +kernel) hleft,
        fun hleft => absurd (by decide +kernel) hleft⟩

/-- A pod that changes from one service to another: the predicate sees the added label and gives
up, so the address stays in the `Endpoints` object of the service that the pod has left. -/
theorem pod_update_swapped_service :
    (relabelled "web" "api").Admissible ∧
      HasAddr ((relabelled "web" "api").after "web" "prod") .ready "10.0.0.7" ∧
      ¬ (relabelled "web" "api").Moved ("web", "prod") := by
  have hstays : HasAddr ((relabelled "web" "api").after "web" "prod") .ready "10.0.0.7" := by
    decide +kernel
  have hold : ("web", "prod") ∈ (relabelled "web" "api").old.services := by decide +kernel
  have hnew : ("web", "prod") ∉ (relabelled "web" "api").new.services := by decide +kernel
  refine ⟨admissible_relabelled (by simp) (by simp), hstays, fun hmoved => ?_⟩
  rcases (hmoved "10.0.0.7").mp ⟨.ready, hstays⟩ with ⟨-, hnot⟩ | ⟨hserves, -⟩
  · exact hnot ⟨hold, rfl⟩
  · exact hnew hserves

end PodUpdate

end HealthCheck
