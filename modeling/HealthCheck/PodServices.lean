import HealthCheck.Endpoints.Entries
import HealthCheck.PodLabels

/-!
# Pods with a broken service

A pod may name several services. Both the Create predicate and the reconcile of a pod visit them in
the order of Go's map iteration and leave the loop at the first one that fails, the predicate when
the service is missing, the reconcile on any error of `updateEpInfo`. What the services behind it
get depends on the order, unless the visit would not change them anyway.
-/

namespace HealthCheck

open Api Api.Client

/-- The round of the Create predicate for one label: whether the loop goes on. It is left when the
service is missing; an error of `createEpInfo` is only logged. -/
def createEpLogged (svc : Option Service) (pod : PodAddress) : Client Endpoints Bool :=
  match svc with
  | some svc => do
    let _ ← createEpInfo svc pod
    pure true
  | none => pure false

/-- The Create predicate for pods: whether a request is queued, and the store. A request is queued
only when the loop over the labels was left. -/
def createPod (svcs : String → String → Option Service) (pod : Pod)
    (keys : KeyOrder pod.metadata.labels) (store : EpStore) : Bool × EpStore :=
  if pod.phase = .running ∧ pod.deleting = false then
    let r := callEach (fun t => createEpLogged (svcs t.1 t.2) pod.address)
      ((serviceKeys keys.keys).filterMap labelEndpoint) store
    (!r.1, r.2)
  else (false, store)

/-- The content of the stored object, without its version. -/
def content (s : Server Endpoints) : Option Endpoints := s.object.map (Resource.stamp 0)

/-- Whatever the order of the labels, the object of the service has the same content and lists the
address. -/
def OrderIndependent (pod : Pod) (after : KeyOrder pod.metadata.labels → EpStore)
    (t : String × String) : Prop :=
  (∀ keys keys', content (after keys t.1 t.2) = content (after keys' t.1 t.2)) ∧
    ∀ keys, (after keys).Lists t pod.podIp

theorem content_of_object {s : Server Endpoints} {ep : Endpoints} (hobj : s.object = some ep) :
    content s = some (Resource.stamp 0 ep) := by
  rw [content, hobj]
  rfl

/-- Equal contents list the same addresses. -/
theorem hasAddr_of_content {s t : Server Endpoints} (h : content s = content t) {side : Side}
    {ip : String} (hip : HasAddr s side ip) : HasAddr t side ip := by
  obtain ⟨ep, hep, hhas⟩ := hip
  rw [content_of_object hep] at h
  obtain ⟨ep', hep', hstamp⟩ := Option.map_eq_some_iff.mp h.symm
  exact ⟨ep', hep', (Endpoints.has_iff_of_stamp_eq hstamp side ip).mpr hhas⟩

/-! ### Loops that are left at a failure -/

section Loop

variable {call : String × String → Client Endpoints Bool} {store : EpStore}

/-- An object that is not visited stays. -/
theorem callEach_of_not_mem {targets : List (String × String)} {t : String × String}
    (ht : t ∉ targets) : (callEach call targets store).2 t.1 t.2 = store t.1 t.2 := by
  induction targets generalizing store with
  | nil => rfl
  | cons first rest ih =>
    obtain ⟨hne, hrest⟩ := not_or.mp (List.mem_cons.not.mp ht)
    rw [callEach]
    split
    · rw [ih hrest, EpStore.get_set_of_ne store hne]
    · exact EpStore.get_set_of_ne store hne _

/-- The first object is visited, and nothing else happens to it. -/
theorem callEach_first {t : String × String} {rest : List (String × String)} (ht : t ∉ rest) :
    (callEach call (t :: rest) store).2 t.1 t.2 = (alone (call t) (store t.1 t.2)).2 := by
  rw [callEach]
  split
  · rw [callEach_of_not_mem ht, EpStore.get_set]
  · exact EpStore.get_set store t _

/-- The loop is left at the first object. -/
theorem callEach_left {first : String × String} (rest : List (String × String))
    (hfails : (alone (call first) (store first.1 first.2)).1 = false) {t : String × String}
    (hne : t ≠ first) : (callEach call (first :: rest) store).2 t.1 t.2 = store t.1 t.2 := by
  rw [callEach, hfails]
  exact EpStore.get_set_of_ne store hne _

/-- In any case an object is visited once or not at all. -/
theorem callEach_once {targets : List (String × String)} (hnodup : targets.Nodup)
    (t : String × String) :
    (callEach call targets store).2 t.1 t.2 = store t.1 t.2 ∨
      (callEach call targets store).2 t.1 t.2 = (alone (call t) (store t.1 t.2)).2 := by
  induction targets generalizing store with
  | nil => exact .inl rfl
  | cons first rest ih =>
    obtain ⟨hnew, hrest⟩ := List.nodup_cons.mp hnodup
    by_cases ht : t = first
    · subst ht
      exact .inr (callEach_first hnew)
    · rw [callEach]
      split
      · rcases @ih (store.set first.1 first.2 (alone (call first) (store first.1 first.2)).2)
          hrest with
           hstays | hvisited
        · exact .inl (hstays.trans (EpStore.get_set_of_ne store ht _))
        · rw [EpStore.get_set_of_ne store ht] at hvisited
          exact .inr hvisited
      · exact .inl (EpStore.get_set_of_ne store ht _)

end Loop

/-! ### Orders of the labels -/

/-- The services in the order of the labels. -/
def KeyOrder.services {labels : Go.Map String String} (keys : KeyOrder labels) :
    List (String × String) :=
  (serviceKeys keys.keys).filterMap labelEndpoint

theorem KeyOrder.mem_services {pod : Pod} (keys : KeyOrder pod.metadata.labels)
    {t : String × String} : t ∈ keys.services ↔ t ∈ pod.services := by
  simp only [services, List.mem_filterMap, mem_serviceKeys, HealthCheck.mem_services]

section Orders

variable {pod : Pod} (hlabels : WellLabelled pod)

include hlabels

theorem WellLabelled.nodup_services (keys : KeyOrder pod.metadata.labels) : keys.services.Nodup :=
  hlabels.nodup (nodup_serviceKeys keys) fun _ hkey => (mem_serviceKeys keys).mp hkey

omit hlabels in
/-- Any service may come first. -/
theorem exists_order_first {t : String × String} (ht : t ∈ pod.services) :
    ∃ (keys : KeyOrder pod.metadata.labels) (rest : List (String × String)),
      keys.services = t :: rest := by
  obtain ⟨key, hkey, hlabel⟩ := mem_services.mp ht
  obtain ⟨hmem, hcontains⟩ := List.mem_filter.mp hkey
  refine ⟨⟨key :: pod.metadata.labels.keys.erase key, (List.perm_cons_erase hmem).symm⟩,
    (serviceKeys (pod.metadata.labels.keys.erase key)).filterMap labelEndpoint, ?_⟩
  have hfirst : serviceKeys (key :: pod.metadata.labels.keys.erase key) =
      key :: serviceKeys (pod.metadata.labels.keys.erase key) := by
    rw [serviceKeys, List.filter_cons, if_pos hcontains]
    rfl
  rw [KeyOrder.services, hfirst, List.filterMap_cons_some hlabel]

variable {call : String × String → Client Endpoints Bool} {store : EpStore} {t : String × String}

/-- In some order the loop visits the service. -/
theorem exists_order_visited (ht : t ∈ pod.services) :
    ∃ keys : KeyOrder pod.metadata.labels,
      (callEach call keys.services store).2 t.1 t.2 = (alone (call t) (store t.1 t.2)).2 := by
  obtain ⟨keys, rest, hfirst⟩ := exists_order_first ht
  have hnodup := hlabels.nodup_services keys
  rw [hfirst] at hnodup
  refine ⟨keys, ?_⟩
  rw [hfirst]
  exact callEach_first (List.nodup_cons.mp hnodup).1

omit hlabels in
/-- In some order a call that fails keeps the loop from the other services. -/
theorem exists_order_left {t' : String × String} (ht' : t' ∈ pod.services)
    (hfails : (alone (call t') (store t'.1 t'.2)).1 = false) (hne : t ≠ t') :
    ∃ keys : KeyOrder pod.metadata.labels,
      (callEach call keys.services store).2 t.1 t.2 = store t.1 t.2 := by
  obtain ⟨keys, rest, hfirst⟩ := exists_order_first ht'
  refine ⟨keys, ?_⟩
  rw [hfirst]
  exact callEach_left rest hfails hne

/-- In every order the object is what the call makes of it, if no call fails or it changes
nothing. -/
theorem content_callEach (ht : t ∈ pod.services)
    (hcases : (∀ t' ∈ pod.services, (alone (call t') (store t'.1 t'.2)).1 = true) ∨
      content (alone (call t) (store t.1 t.2)).2 = content (store t.1 t.2))
    (keys : KeyOrder pod.metadata.labels) :
    content ((callEach call keys.services store).2 t.1 t.2) =
      content (alone (call t) (store t.1 t.2)).2 := by
  have hnodup := hlabels.nodup_services keys
  rcases hcases with hall | hsame
  · have hall' : ∀ t' ∈ keys.services, (alone (call t') (store t'.1 t'.2)).1 = true :=
      fun t' ht' => hall t' (keys.mem_services.mp ht')
    rw [callEach_spec hnodup hall' t, if_pos (keys.mem_services.mpr ht)]
  · rcases @callEach_once call store _ hnodup t with hstays | hvisits
    · rw [hstays, hsame]
    · rw [hvisits]

/-- A loop over the labels is fair to a service whose own call succeeds exactly if no call fails or
the call changes nothing, and the call lists the address. -/
theorem orderIndependent_callEach_iff (ht : t ∈ pod.services)
    (hok : (alone (call t) (store t.1 t.2)).1 = true) :
    OrderIndependent pod (fun keys => (callEach call keys.services store).2) t ↔
      ((∀ t' ∈ pod.services, (alone (call t') (store t'.1 t'.2)).1 = true) ∨
          content (alone (call t) (store t.1 t.2)).2 = content (store t.1 t.2)) ∧
        ∃ side, HasAddr (alone (call t) (store t.1 t.2)).2 side pod.podIp := by
  constructor
  · rintro ⟨hsame, hlists⟩
    obtain ⟨first, hvisited⟩ := @exists_order_visited pod hlabels call store t ht
    constructor
    · by_contra hnot
      rw [not_or, not_forall] at hnot
      obtain ⟨⟨t', hfails⟩, hchanged⟩ := hnot
      rw [Classical.not_imp, Bool.not_eq_true] at hfails
      have hne : t ≠ t' := by
        rintro rfl
        rw [hok] at hfails
        exact Bool.noConfusion hfails.2
      obtain ⟨last, hstays⟩ := exists_order_left hfails.1 hfails.2 hne
      have hcontent := hsame first last
      dsimp only at hcontent
      rw [hvisited, hstays] at hcontent
      exact hchanged hcontent
    · have hlisted := hlists first
      dsimp only [EpStore.Lists] at hlisted
      rw [hvisited] at hlisted
      exact hlisted
  · rintro ⟨hcases, side, hside⟩
    have heach := content_callEach hlabels ht hcases
    exact ⟨fun keys keys' => (heach keys).trans (heach keys').symm,
      fun keys => ⟨side, hasAddr_of_content (heach keys).symm hside⟩⟩

end Orders

/-! ### One service -/

section Visit

variable {s : Server Endpoints} {ep : Endpoints} (hobj : s.object = some ep)

include hobj

theorem lists_of_object {ip : String} : (∃ side, HasAddr s side ip) ↔ ∃ side, ep.Has side ip :=
  exists_congr fun side => hasAddr_of_object hobj side ip

/-- `_createEp` changes nothing for an address that is listed or empty, and lists any other. -/
theorem createEp_visit (svc : Service) (pod : PodAddress) :
    (content (alone (createEp svc pod) s).2 = content s ↔
        pod.podIp = "" ∨ ∃ side, ep.Has side pod.podIp) ∧
      ((∃ side, HasAddr (alone (createEp svc pod) s).2 side pod.podIp) ↔
        (∃ side, ep.Has side pod.podIp) ∨ pod.podIp ≠ "") := by
  by_cases hip : pod.podIp = ""
  · rw [@alone_createEp_empty svc s ep hobj pod hip, lists_of_object hobj]
    simp [hip]
  · by_cases hlisted : ∃ side, ep.Has side pod.podIp
    · rw [@alone_createEp_present svc s ep hobj pod hip hlisted, lists_of_object hobj]
      simp [hlisted]
    · have hfresh := not_exists.mp hlisted
      have hlists := ((createEp_lists hobj svc hip hfresh).2 pod.podIp).mpr (.inr rfl)
      refine ⟨iff_of_false (fun hsame => ?_) (by simp [hip, hlisted]),
        iff_of_true hlists (.inr hip)⟩
      obtain ⟨side, hside⟩ := hlists
      exact hlisted ((lists_of_object hobj).mp ⟨side, hasAddr_of_content hsame hside⟩)

/-- The round of the Create predicate. -/
theorem createEpLogged_visit (svc : Service) (pod : PodAddress) :
    (content (alone (createEpLogged (some svc) pod) s).2 = content s ↔
        pod.podIp = "" ∨ ∃ side, ep.Has side pod.podIp) ∧
      ((∃ side, HasAddr (alone (createEpLogged (some svc) pod) s).2 side pod.podIp) ↔
        (∃ side, ep.Has side pod.podIp) ∨ pod.podIp ≠ "") := by
  rw [createEpLogged, alone_bind]
  exact createEp_visit hobj svc pod

/-- When `updateEpInfo` succeeds. -/
theorem updateEpInfo_ok_iff (nameSpace : String) (svc : Option Service) (pod : PodAddress) :
    (alone (updateEpInfo nameSpace svc pod) s).1 = true ↔
      svc.isSome = true ∨ ∃ side, ep.Has side pod.podIp := by
  rw [← @touchSubsets_isSome_iff ep pod nameSpace]
  cases htouch : touchSubsets pod nameSpace ep.subsets with
  | some subs =>
    obtain ⟨stored, hok, -, -⟩ := alone_updateEpInfo_touched hobj svc htouch
    exact iff_of_true hok (.inr ⟨subs, rfl⟩)
  | none =>
    have hfresh := touchSubsets_eq_none.mp htouch
    rw [alone_updateEpInfo_untouched hobj svc htouch]
    cases svc with
    | none => simp [createEpOf]
    | some svc =>
      refine iff_of_true ?_ (.inl rfl)
      by_cases hip : pod.podIp = ""
      · rw [createEpOf, @alone_createEp_empty svc s ep hobj pod hip]
      · exact (createEp_lists hobj svc hip hfresh).1

/-- `updateEpInfo` with the service there: it changes nothing exactly if it touches an address that
is up to date or there is no address to add, and it lists any address that is not empty. -/
theorem updateEpInfo_visit (nameSpace : String) (svc : Service) (pod : PodAddress) :
    (content (alone (updateEpInfo nameSpace (some svc) pod) s).2 = content s ↔
        UpToDate pod nameSpace ep.subsets ∨
          (pod.podIp = "" ∧ ¬ ∃ side, ep.Has side pod.podIp)) ∧
      ((∃ side, HasAddr (alone (updateEpInfo nameSpace (some svc) pod) s).2 side pod.podIp) ↔
        (∃ side, ep.Has side pod.podIp) ∨ pod.podIp ≠ "") := by
  rw [← touchSubsets_eq_self_iff]
  cases htouch : touchSubsets pod nameSpace ep.subsets with
  | some subs =>
    have hlisted : ∃ side, ep.Has side pod.podIp := touchSubsets_isSome_iff.mp ⟨subs, htouch⟩
    obtain ⟨stored, -, hstored, hcontent⟩ := alone_updateEpInfo_touched hobj (some svc) htouch
    constructor
    · rw [content_of_object hstored, content_of_object hobj, hcontent, Option.some.injEq,
        Option.some.injEq, or_iff_left fun h => h.2 hlisted]
      constructor
      · exact fun heq => Endpoints.subsets_eq_of_stamp_eq heq
      · rintro rfl
        rfl
    · refine iff_of_true ?_ (.inl hlisted)
      obtain ⟨side, hside⟩ := hlisted
      refine ⟨side, (hasAddr_of_object hstored side _).mpr ?_⟩
      rw [Endpoints.has_iff_of_stamp_eq hcontent]
      exact (hasIp_touchSubsets htouch side _).mpr hside
  | none =>
    have hfresh : ¬ ∃ side, ep.Has side pod.podIp := not_exists.mpr (touchSubsets_eq_none.mp htouch)
    rw [alone_updateEpInfo_untouched hobj (some svc) htouch, createEpOf]
    obtain ⟨hsame, hlists⟩ := createEp_visit hobj svc pod
    refine ⟨hsame.trans ?_, hlists⟩
    simp [hfresh]

end Visit

/-- The handling of the label succeeds: the object exists, and so does the service unless the
address is listed. -/
def Updatable (svcs : String → String → Option Service) (store : EpStore) (ip : String)
    (t : String × String) : Prop :=
  (store t.1 t.2).object.isSome = true ∧
    ((svcs t.1 t.2).isSome = true ∨ store.Lists t ip)

theorem updatable_iff (svcs : String → String → Option Service) (store : EpStore)
    (pod : PodAddress) (t : String × String) :
    (alone (updateEpInfo t.2 (svcs t.1 t.2) pod) (store t.1 t.2)).1 = true ↔
      Updatable svcs store pod.podIp t := by
  cases hobj : (store t.1 t.2).object with
  | none =>
    rw [Updatable, hobj, updateEpInfo, alone_fetch_bind, Server.get_eq, hobj]
    simp [Fetch.ofOption]
  | some ep =>
    rw [Updatable, hobj, updateEpInfo_ok_iff hobj, EpStore.Lists, lists_of_object hobj]
    simp

theorem createEpLogged_ok (svc : Option Service) (pod : PodAddress) (s : Server Endpoints) :
    (alone (createEpLogged svc pod) s).1 = svc.isSome := by
  cases svc with
  | none => rfl
  | some svc =>
    rw [createEpLogged, alone_bind]
    rfl

section Fair

variable {svcs : String → String → Option Service} {pod : Pod} (hlabels : WellLabelled pod)
  {store : EpStore} {t : String × String} (ht : t ∈ pod.services) {svc : Service}
  (hsvc : svcs t.1 t.2 = some svc) {ep : Endpoints} (hobj : (store t.1 t.2).object = some ep)

include hlabels ht hsvc hobj

theorem createPod_fair_iff :
    OrderIndependent pod (fun keys => (createPod svcs pod keys store).2) t ↔
      store.Lists t pod.podIp ∨ (pod.phase = .running ∧ pod.deleting = false ∧ pod.podIp ≠ "" ∧
        ∀ t' ∈ pod.services, (svcs t'.1 t'.2).isSome = true) := by
  by_cases hruns : pod.phase = .running ∧ pod.deleting = false
  · have hloop : (fun keys => (createPod svcs pod keys store).2) = fun keys =>
        (callEach (fun t => createEpLogged (svcs t.1 t.2) pod.address) keys.services store).2 := by
      funext keys
      rw [createPod, if_pos hruns]
      rfl
    have hok : (alone (createEpLogged (svcs t.1 t.2) pod.address) (store t.1 t.2)).1 = true := by
      rw [createEpLogged_ok, hsvc]
      rfl
    have hip : pod.address.podIp = pod.podIp := rfl
    obtain ⟨hsame, hlists⟩ := createEpLogged_visit hobj svc pod.address
    rw [hloop, orderIndependent_callEach_iff hlabels ht hok, hsvc, hsame, ← hip, hlists,
      EpStore.Lists, lists_of_object hobj]
    simp only [createEpLogged_ok, hruns, true_and]
    by_cases hlisted : ∃ side, ep.Has side pod.address.podIp
    · simp only [hlisted, or_true, true_or, and_self]
    · simp only [hlisted, or_false, false_or]
      exact (and_congr_left fun hne => or_iff_left hne).trans and_comm
  · have hstays : (fun keys => (createPod svcs pod keys store).2) = fun _ => store := by
      funext keys
      rw [createPod, if_neg hruns]
    have hnot : ¬ (pod.phase = .running ∧ pod.deleting = false ∧ pod.podIp ≠ "" ∧
        ∀ t' ∈ pod.services, (svcs t'.1 t'.2).isSome = true) := fun h => hruns ⟨h.1, h.2.1⟩
    rw [hstays, or_iff_left hnot]
    exact ⟨fun h => h.2 (.listed _), fun h => ⟨fun _ _ => rfl, fun _ => h⟩⟩

theorem reconcilePod_fair_iff :
    OrderIndependent pod (fun keys => (reconcilePod svcs pod keys store).2) t ↔
      UpToDate pod.address t.2 ep.subsets ∨
        ((store.Lists t pod.podIp ∨ pod.podIp ≠ "") ∧
          ∀ t' ∈ pod.services, Updatable svcs store pod.podIp t') := by
  have hloop : (fun keys => (reconcilePod svcs pod keys store).2) = fun keys =>
      (callEach (fun t => updateEpInfo t.2 (svcs t.1 t.2) pod.address) keys.services store).2 := rfl
  have hok : (alone (updateEpInfo t.2 (svcs t.1 t.2) pod.address) (store t.1 t.2)).1 = true := by
    rw [updateEpInfo_ok_iff hobj, hsvc]
    exact .inl rfl
  have hip : pod.address.podIp = pod.podIp := rfl
  obtain ⟨hsame, hlists⟩ := updateEpInfo_visit hobj t.2 svc pod.address
  rw [hloop, orderIndependent_callEach_iff hlabels ht hok, hsvc, hsame, ← hip, hlists,
    EpStore.Lists, lists_of_object hobj]
  simp only [updatable_iff]
  by_cases hlisted : ∃ side, ep.Has side pod.address.podIp
  · simp only [hlisted, not_true_eq_false, and_false, or_false, true_or, and_true, true_and]
    exact or_comm
  · have huntouched : ¬ UpToDate pod.address t.2 ep.subsets := fun h =>
      hlisted (touchSubsets_isSome_iff.mp ⟨_, touchSubsets_eq_self_iff.mpr h⟩)
    simp only [hlisted, huntouched, not_false_eq_true, and_true, false_or]
    exact (and_congr_left fun hne => or_iff_left hne).trans and_comm

/-- What a pod's other services get when some are broken, for a service whose objects exist. The
Create predicate is fair to it exactly if the address is listed already, or the pod is running, not
being deleted and has an address, and no service of the pod is missing. The reconcile is fair to it
exactly if the first entry with the address is up to date, or there is an address to list and the
handling of no label fails. -/
theorem pod_services_fair_iff :
    (OrderIndependent pod (fun keys => (createPod svcs pod keys store).2) t ↔
        store.Lists t pod.podIp ∨ (pod.phase = .running ∧ pod.deleting = false ∧ pod.podIp ≠ "" ∧
          ∀ t' ∈ pod.services, (svcs t'.1 t'.2).isSome = true)) ∧
      (OrderIndependent pod (fun keys => (reconcilePod svcs pod keys store).2) t ↔
        UpToDate pod.address t.2 ep.subsets ∨
          ((store.Lists t pod.podIp ∨ pod.podIp ≠ "") ∧
            ∀ t' ∈ pod.services, Updatable svcs store pod.podIp t')) :=
  ⟨createPod_fair_iff hlabels ht hsvc hobj, reconcilePod_fair_iff hlabels ht hsvc hobj⟩

end Fair

/-- A running pod of the services `web` and `api`. -/
def webAndApi : Pod where
  metadata :=
    { name := "web-0"
      nameSpace := "prod"
      labels := ((∅ : Go.Map String String).insert (appLabel "web" "prod") "web_prod").insert
        (appLabel "api" "prod") "api_prod" }
  phase := .running
  podIp := "10.0.0.7"
  nodeName := "node-1"
  deleting := false

/-- The services that exist. -/
def existing (names : List String) (name nameSpace : String) : Option Service :=
  if names.contains name then some { metadata := { name := name, nameSpace := nameSpace } }
  else none

/-- The objects of the services that exist, with an address of another pod. -/
def existingObjects (names : List String) : EpStore := fun name nameSpace =>
  if names.contains name then
    .holding 1
      { metadata := { name := name, nameSpace := nameSpace, resourceVersion := some 1 }
        subsets := [{ addresses := [{ ip := "10.0.0.9" }] }] }
  else .absent

theorem wellLabelled_webAndApi : WellLabelled webAndApi := by
  intro key hkey
  rcases List.mem_pair.mp (List.mem_filter.mp hkey).1 with rfl | rfl
  · exact ⟨"api", "prod", rfl, by decide, by decide⟩
  · exact ⟨"web", "prod", rfl, by decide, by decide⟩

theorem services_webAndApi : webAndApi.services = [("api", "prod"), ("web", "prod")] := by
  decide +kernel

/-- With both services there, `web` gets the address in any order. -/
theorem pod_services_fair_both :
    ("web", "prod") ∈ webAndApi.services ∧
      OrderIndependent webAndApi (fun keys => (createPod (existing ["web", "api"]) webAndApi keys
        (existingObjects ["web", "api"])).2) ("web", "prod") ∧
      OrderIndependent webAndApi (fun keys => (reconcilePod (existing ["web", "api"]) webAndApi keys
        (existingObjects ["web", "api"])).2) ("web", "prod") := by
  have ht : ("web", "prod") ∈ webAndApi.services := by
    rw [services_webAndApi]
    decide
  obtain ⟨hcreate, hreconcile⟩ := @pod_services_fair_iff (existing ["web", "api"]) webAndApi
    wellLabelled_webAndApi (existingObjects ["web", "api"]) ("web", "prod") ht _ rfl _ rfl
  refine ⟨ht, hcreate.mpr (.inr ⟨rfl, rfl, by decide, ?_⟩),
    hreconcile.mpr (.inr ⟨.inr (by decide), ?_⟩)⟩
  · rw [services_webAndApi]
    decide
  · rw [services_webAndApi]
    intro t' ht'
    rcases List.mem_pair.mp ht' with rfl | rfl
    · exact ⟨rfl, .inl rfl⟩
    · exact ⟨rfl, .inl rfl⟩

/-- The label of `api` comes first. -/
def apiFirst : KeyOrder webAndApi.metadata.labels := .listed _

/-- The label of `web` comes first. -/
def webFirst : KeyOrder webAndApi.metadata.labels :=
  ⟨[appLabel "web" "prod", appLabel "api" "prod"], .swap _ _ _⟩

/-- With `api` missing, neither the Create predicate nor the reconcile gets to `web` when they visit
`api` first, while in the other order both list the address. -/
theorem pod_services_broken :
    let created := fun keys =>
      (createPod (existing ["web"]) webAndApi keys (existingObjects ["web"])).2
    let reconciled := fun keys =>
      (reconcilePod (existing ["web"]) webAndApi keys (existingObjects ["web"])).2
    ((created webFirst).Lists ("web", "prod") webAndApi.podIp ∧
        ¬ (created apiFirst).Lists ("web", "prod") webAndApi.podIp ∧
        ¬ OrderIndependent webAndApi created ("web", "prod")) ∧
      (reconciled webFirst).Lists ("web", "prod") webAndApi.podIp ∧
        ¬ (reconciled apiFirst).Lists ("web", "prod") webAndApi.podIp ∧
        ¬ OrderIndependent webAndApi reconciled ("web", "prod") := by
  intro created reconciled
  have hcreated : ¬ (created apiFirst).Lists ("web", "prod") webAndApi.podIp := by
    rw [EpStore.lists_iff]
    decide +kernel
  have hreconciled : ¬ (reconciled apiFirst).Lists ("web", "prod") webAndApi.podIp := by
    rw [EpStore.lists_iff]
    decide +kernel
  refine ⟨⟨?_, hcreated, fun h => hcreated (h.2 apiFirst)⟩,
    ?_, hreconciled, fun h => hreconciled (h.2 apiFirst)⟩
  · rw [EpStore.lists_iff]
    decide +kernel
  · rw [EpStore.lists_iff]
    decide +kernel

end HealthCheck
