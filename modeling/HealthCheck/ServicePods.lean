import HealthCheck.PodLabels

/-!
# Services whose pods are there already

When a service appears, the Create predicate lists the pods that carry its label and adds the
address of each. `_createEp` returns an error for an address that the object has already, and the
loop stops at the first error: the addresses of later pods are not added, and the event of the
service is not passed on. After a restart of the controller, when the objects are there, this is
the common case.
-/

namespace HealthCheck

open Api Api.Client

/-- The loop of `createEpBaseSvc` over the pods of a service. -/
def createEpOfPods (svc : Service) : List Pod → Client Endpoints Bool
  | [] => pure true
  | pod :: pods =>
    if pod.metadata.labels.keys.isEmpty ∨ pod.phase ≠ .running then do
      -- the error is ignored
      let _ ← createEpBaseSvcWithoutAddress svc
      createEpOfPods svc pods
    else if (pod.metadata.labels.lookup
        (appLabel svc.metadata.name svc.metadata.nameSpace)).isSome then do
      if ← createEpInfo svc pod.address then createEpOfPods svc pods else pure false
    else createEpOfPods svc pods

/-- `createEpBaseSvc`, with the pods that the list request returns, `none` when it fails. -/
def createEpBaseSvc (svc : Service) (podResult : Option (List Pod)) : Client Endpoints Bool :=
  match podResult with
  | some pods => createEpOfPods svc pods
  | none => pure false

/-- The Create predicate for services: whether a request is queued. -/
def createService (svc : Service) (podResult : Option (List Pod)) : Client Endpoints Bool :=
  if (svc.metadata.labels.lookup vsDomain).isSome then createEpBaseSvc svc podResult
  else pure false

/-- The pods that the list request selects: those in the namespace of the service that carry its
label. -/
def Service.Selects (svc : Service) (pod : Pod) : Prop :=
  pod.metadata.nameSpace = svc.metadata.nameSpace ∧
    pod.metadata.labels.lookup (appLabel svc.metadata.name svc.metadata.nameSpace) =
      some (virtualServiceFullValue svc.metadata.name svc.metadata.nameSpace)

/-- The addresses of the running pods. -/
def runningIps (pods : List Pod) : List String :=
  (pods.filter fun pod => pod.phase = .running ∧ pod.podIp ≠ "").map fun pod => pod.podIp

/-- How often an address is listed on one side. -/
def Endpoints.occurrences (ep : Endpoints) (side : Side) (ip : String) : ℕ :=
  (listedOn side ep.subsets).countP fun addr => addr.ip = ip

/-! ### One address -/

theorem Endpoints.occurrences_pos_iff {ep : Endpoints} {side : Side} {ip : String} :
    0 < ep.occurrences side ip ↔ ep.Has side ip := by
  rw [occurrences, List.countP_pos_iff, Has, hasIp_iff_listedOn]
  simp only [decide_eq_true_eq]

theorem Endpoints.occurrences_eq_zero_iff {ep : Endpoints} {side : Side} {ip : String} :
    ep.occurrences side ip = 0 ↔ ¬ ep.Has side ip := by
  rw [← occurrences_pos_iff]
  omega

/-- The object that `_createEp` sends has the address once more. -/
theorem occurrences_withAddress (svc : Service) (pod : PodAddress) (ep : Endpoints) (side : Side)
    (ip : String) :
    (svc.withAddress pod ep).occurrences side ip =
      ep.occurrences side ip + if side = .ready ∧ ip = pod.podIp then 1 else 0 := by
  obtain ⟨before, after, hold, hnew⟩ := listedOn_ready_withAddress svc pod ep
  have hentry : (pod.entry svc.metadata.nameSpace).ip = ip ↔ ip = pod.podIp := eq_comm
  unfold Endpoints.occurrences
  cases side with
  | ready =>
    rw [hnew, hold, List.countP_append, List.countP_append, List.countP_cons]
    simp only [hentry, decide_eq_true_eq, true_and]
    omega
  | notReady =>
    rw [listedOn_notReady_withAddress]
    simp

/-! ### The loop -/

section Loop

variable {svc : Service}

/-- One round: a pod without an address to add is passed over, a listed address ends the loop, any
other is added. -/
theorem createEpOfPods_cons {pod : Pod} (hselects : svc.Selects pod) (pods : List Pod)
    {s : Server Endpoints} {ep : Endpoints} (hobj : s.object = some ep) :
    (runningIps (pod :: pods) = runningIps pods ∧
        alone (createEpOfPods svc (pod :: pods)) s = alone (createEpOfPods svc pods) s) ∨
      (runningIps (pod :: pods) = pod.podIp :: runningIps pods ∧
        (((∃ side, ep.Has side pod.podIp) ∧
            alone (createEpOfPods svc (pod :: pods)) s = (false, s)) ∨
          ((∀ side, ¬ ep.Has side pod.podIp) ∧ ∃ t new, t.object = some new ∧
            new.subsets = (svc.withAddress pod.address ep).subsets ∧
            alone (createEpOfPods svc (pod :: pods)) s = alone (createEpOfPods svc pods) t))) := by
  have hlabelled : pod.metadata.labels.keys.isEmpty = false := by
    have hkey := AList.lookup_isSome.mp (Option.isSome_of_eq_some hselects.2)
    rw [List.isEmpty_eq_false_iff]
    exact List.ne_nil_of_mem (AList.mem_keys.mp hkey)
  by_cases hrunning : pod.phase = .running
  · have hnext : ¬ (pod.metadata.labels.keys.isEmpty = true ∨ pod.phase ≠ .running) := by
      simp [hlabelled, hrunning]
    have hlabel : (pod.metadata.labels.lookup
        (appLabel svc.metadata.name svc.metadata.nameSpace)).isSome = true := by
      rw [hselects.2]
      rfl
    rw [createEpOfPods, if_neg hnext, if_pos hlabel, alone_bind, createEpInfo]
    by_cases hip : pod.podIp = ""
    · refine .inl ⟨?_, ?_⟩
      · simp [runningIps, hip]
      · rw [@alone_createEp_empty svc s ep hobj pod.address hip]
        rfl
    · refine .inr ⟨?_, ?_⟩
      · simp [runningIps, hrunning, hip]
      · by_cases hlisted : ∃ side, ep.Has side pod.podIp
        · refine .inl ⟨hlisted, ?_⟩
          rw [@alone_createEp_present svc s ep hobj pod.address hip hlisted]
          rfl
        · have hfresh := not_exists.mp hlisted
          obtain ⟨new, hok, hnew, hsubs⟩ :=
            @alone_createEp_fresh svc s ep hobj pod.address hip hfresh
          refine .inr ⟨hfresh, _, new, hnew, hsubs, ?_⟩
          rw [hok]
          rfl
  · refine .inl ⟨?_, ?_⟩
    · simp [runningIps, hrunning]
    · rw [createEpOfPods, if_pos (.inr hrunning), alone_bind,
        @alone_createEpBaseSvcWithoutAddress svc s ep hobj]

/-- The call returns nil exactly if the addresses to add are different and none is there. -/
theorem createEpOfPods_ok_iff {pods : List Pod} (hselects : ∀ pod ∈ pods, svc.Selects pod)
    {s : Server Endpoints} {ep : Endpoints} (hobj : s.object = some ep) :
    (alone (createEpOfPods svc pods) s).1 = true ↔
      (runningIps pods).Nodup ∧ ∀ ip ∈ runningIps pods, ∀ side, ¬ ep.Has side ip := by
  induction pods generalizing s ep with
  | nil => simp [createEpOfPods, runningIps]
  | cons pod pods ih =>
    obtain ⟨hpod, hpods⟩ := List.forall_mem_cons.mp hselects
    rcases createEpOfPods_cons hpod pods hobj with
      ⟨hips, hrun⟩ | ⟨hips, ⟨⟨side, hside⟩, hrun⟩ | ⟨hfresh, t, new, hnew, hsubs, hrun⟩⟩
    · rw [hips, hrun, ih hpods hobj]
    · rw [hips, hrun]
      refine iff_of_false Bool.false_ne_true ?_
      rintro ⟨-, hnone⟩
      exact hnone _ List.mem_cons_self side hside
    · have hhas : ∀ side ip, new.Has side ip ↔
          ep.Has side ip ∨ (side = .ready ∧ ip = pod.podIp) := has_of_withAddress hsubs
      have hothers : (∀ ip ∈ runningIps pods, ∀ side, ¬ new.Has side ip) ↔
          pod.podIp ∉ runningIps pods ∧ ∀ ip ∈ runningIps pods, ∀ side, ¬ ep.Has side ip := by
        simp only [hhas, not_or]
        constructor
        · intro hnone
          exact ⟨fun hmem => (hnone _ hmem .ready).2 ⟨rfl, rfl⟩,
            fun ip hip side => (hnone ip hip side).1⟩
        · rintro ⟨hother, hnone⟩ ip hip side
          refine ⟨hnone ip hip side, ?_⟩
          rintro ⟨-, rfl⟩
          exact hother hip
      rw [hips, hrun, ih hpods hnew, hothers, List.nodup_cons, List.forall_mem_cons]
      simp only [hfresh, not_false_eq_true, implies_true, true_and]
      exact and_left_comm.trans and_assoc.symm

/-- The object after the loop: a listed address is listed as often as before on either side, and if
all went well, each address that was to be added is listed once more. -/
theorem createEpOfPods_object {pods : List Pod} (hselects : ∀ pod ∈ pods, svc.Selects pod)
    {s : Server Endpoints} {ep : Endpoints} (hobj : s.object = some ep) :
    ∃ new, (alone (createEpOfPods svc pods) s).2.object = some new ∧
      (∀ ip, (∃ side, ep.Has side ip) → ∀ side, new.occurrences side ip = ep.occurrences side ip) ∧
      ((alone (createEpOfPods svc pods) s).1 = true → ∀ side ip, new.occurrences side ip =
        ep.occurrences side ip + if side = .ready then (runningIps pods).count ip else 0) := by
  induction pods generalizing s ep with
  | nil => exact ⟨ep, hobj, fun _ _ _ => rfl, fun _ side ip => by simp [runningIps]⟩
  | cons pod pods ih =>
    obtain ⟨hpod, hpods⟩ := List.forall_mem_cons.mp hselects
    rcases createEpOfPods_cons hpod pods hobj with
      ⟨hips, hrun⟩ | ⟨hips, ⟨-, hrun⟩ | ⟨hfresh, t, mid, hmid, hsubs, hrun⟩⟩
    · rw [hips, hrun]
      exact ih hpods hobj
    · rw [hrun]
      exact ⟨ep, hobj, fun _ _ _ => rfl, fun h => absurd h Bool.false_ne_true⟩
    · obtain ⟨new, hnew, hkept, hadded⟩ := ih hpods hmid
      have hocc : ∀ side ip, mid.occurrences side ip =
          ep.occurrences side ip + if side = .ready ∧ ip = pod.podIp then 1 else 0 := by
        intro side ip
        rw [Endpoints.occurrences, hsubs]
        exact occurrences_withAddress svc pod.address ep side ip
      rw [hrun]
      refine ⟨new, hnew, fun ip hlisted side => ?_, fun hok side ip => ?_⟩
      · have hother : ip ≠ pod.podIp := by
          rintro rfl
          exact hlisted.elim hfresh
        have hstill : ∀ side, mid.occurrences side ip = ep.occurrences side ip := by
          intro side
          simp [hocc, hother]
        rw [hkept ip ?_ side, hstill]
        obtain ⟨side', hside'⟩ := hlisted
        refine ⟨side', Endpoints.occurrences_pos_iff.mp ?_⟩
        rw [hstill]
        exact Endpoints.occurrences_pos_iff.mpr hside'
      · rw [hadded hok, hocc, hips]
        cases side with
        | ready =>
          have hcount : (pod.podIp :: runningIps pods).count ip =
              (runningIps pods).count ip + if ip = pod.podIp then 1 else 0 := by
            rw [List.count_cons]
            simp only [beq_iff_eq, @eq_comm _ pod.podIp]
          simp only [if_true, true_and, hcount]
          omega
        | notReady => simp

end Loop

/-! ### What the service is owed -/

/-- Every running pod with an address is listed exactly once. -/
def ListedOnce (pods : List Pod) (ep : Endpoints) : Prop :=
  ∀ pod ∈ pods, pod.phase = .running → pod.podIp ≠ "" →
    ep.occurrences .ready pod.podIp + ep.occurrences .notReady pod.podIp = 1

/-- `createEpBaseSvc` returns nil, with all running pods listed and all sides kept. -/
def Completes (svc : Service) (pods : List Pod) (s : Server Endpoints) (old : Endpoints) : Prop :=
  let r := alone (createEpBaseSvc svc (some pods)) s
  r.1 = true ∧ ∃ new, r.2.object = some new ∧ ListedOnce pods new ∧ SidesKept old new

/-- A second call returns nil and leaves the object. -/
def Repeatable (svc : Service) (pods : List Pod) (s : Server Endpoints) : Prop :=
  let t := (alone (createEpBaseSvc svc (some pods)) s).2
  let r := alone (createEpBaseSvc svc (some pods)) t
  r.1 = true ∧ r.2.object = t.object

theorem mem_runningIps {pods : List Pod} {ip : String} :
    ip ∈ runningIps pods ↔
      ∃ pod ∈ pods, pod.phase = .running ∧ pod.podIp ≠ "" ∧ pod.podIp = ip := by
  simp [runningIps, and_assoc]

section Service

variable {svc : Service} {pods : List Pod} (hselects : ∀ pod ∈ pods, svc.Selects pod)
  {s : Server Endpoints} {ep : Endpoints} (hobj : s.object = some ep)

include hselects hobj

theorem completes_iff : Completes svc pods s ep ↔
    (runningIps pods).Nodup ∧ ∀ ip ∈ runningIps pods, ∀ side, ¬ ep.Has side ip := by
  rw [← createEpOfPods_ok_iff hselects hobj]
  constructor
  · rintro ⟨hok, -⟩
    exact hok
  · intro hok
    obtain ⟨hnodup, hfresh⟩ := (createEpOfPods_ok_iff hselects hobj).mp hok
    obtain ⟨new, hnew, hkept, hadded⟩ := createEpOfPods_object hselects hobj
    refine ⟨hok, new, hnew, fun pod hpod hrunning hip => ?_, fun ip hlisted side => ?_⟩
    · have hmem : pod.podIp ∈ runningIps pods := mem_runningIps.mpr ⟨pod, hpod, hrunning, hip, rfl⟩
      have hzero : ∀ side, ep.occurrences side pod.podIp = 0 :=
        fun side => Endpoints.occurrences_eq_zero_iff.mpr (hfresh _ hmem side)
      rw [hadded hok, hadded hok, hzero, hzero, List.count_eq_one_of_mem hnodup hmem]
      rfl
    · rw [← Endpoints.occurrences_pos_iff, ← Endpoints.occurrences_pos_iff, hkept ip hlisted]

/-- Without a running pod there is nothing to do. -/
theorem createEpOfPods_of_none (hnone : runningIps pods = []) :
    alone (createEpOfPods svc pods) s = (true, s) := by
  induction pods with
  | nil => rfl
  | cons pod pods ih =>
    obtain ⟨hpod, hpods⟩ := List.forall_mem_cons.mp hselects
    rcases createEpOfPods_cons hpod pods hobj with ⟨hips, hrun⟩ | ⟨hips, -⟩
    · rw [hrun]
      exact ih hpods (hips ▸ hnone)
    · rw [hips] at hnone
      cases hnone

/-- When `createEpBaseSvc` does what it is for on an object that exists: the first call exactly if
no two running pods share an address and none of the addresses is listed yet, two calls only if
there is no running pod with an address at all. -/
theorem createEpBaseSvc_complete_iff :
    (Completes svc pods s ep ↔
        (runningIps pods).Nodup ∧ ∀ ip ∈ runningIps pods, ∀ side, ¬ ep.Has side ip) ∧
      (Completes svc pods s ep ∧ Repeatable svc pods s ↔ runningIps pods = []) := by
  refine ⟨completes_iff hselects hobj, ?_, fun hnone => ⟨?_, ?_⟩⟩
  · rintro ⟨⟨hok, new, hnew, hlisted, -⟩, hagain, -⟩
    have hfresh := ((createEpOfPods_ok_iff hselects hnew).mp hagain).2
    refine List.eq_nil_iff_forall_not_mem.mpr fun ip hip => ?_
    obtain ⟨pod, hpod, hrunning, hne, rfl⟩ := mem_runningIps.mp hip
    have honce := hlisted pod hpod hrunning hne
    -- the first call has listed the address, so that the second one stops at it
    have hzero : ∀ side, new.occurrences side pod.podIp = 0 :=
      fun side => Endpoints.occurrences_eq_zero_iff.mpr (hfresh _ hip side)
    rw [hzero, hzero] at honce
    cases honce
  · refine (completes_iff hselects hobj).mpr ?_
    rw [hnone]
    exact ⟨List.nodup_nil, fun _ h => absurd h List.not_mem_nil⟩
  · have hrun := createEpOfPods_of_none hselects hobj hnone
    simp only [Repeatable, createEpBaseSvc, hrun, and_self]

end Service

/-- A service that the controller manages. -/
def managedService : Service where
  metadata :=
    { name := "web"
      nameSpace := "prod"
      labels := (∅ : Go.Map String String).insert vsDomain vsDomainName }

/-- A running pod of the service. -/
def webPodAt (name ip : String) : Pod where
  metadata :=
    { name := name
      nameSpace := "prod"
      labels := (∅ : Go.Map String String).insert (appLabel "web" "prod") "web_prod" }
  phase := .running
  podIp := ip
  nodeName := "node-1"
  deleting := false

/-- The object of the service with one ready address. -/
def webListing (ip : String) : Server Endpoints :=
  .holding 1
    { metadata := { name := "web", nameSpace := "prod", resourceVersion := some 1 }
      subsets := [{ addresses := [{ ip := ip }] }] }

/-- Two pods whose addresses are both new. -/
theorem createEpBaseSvc_complete_fresh :
    let pods := [webPodAt "web-1" "10.0.0.7", webPodAt "web-2" "10.0.0.8"]
    (∀ pod ∈ pods, managedService.Selects pod) ∧
      ∃ ep, (webListing "10.0.0.9").object = some ep ∧
        Completes managedService pods (webListing "10.0.0.9") ep ∧
        ¬ Repeatable managedService pods (webListing "10.0.0.9") := by
  have hselects : ∀ pod ∈ [webPodAt "web-1" "10.0.0.7", webPodAt "web-2" "10.0.0.8"],
      managedService.Selects pod := by
    intro pod hpod
    rcases List.mem_pair.mp hpod with rfl | rfl
    · exact ⟨rfl, by decide +kernel⟩
    · exact ⟨rfl, by decide +kernel⟩
  obtain ⟨hfirst, hboth⟩ := @createEpBaseSvc_complete_iff managedService _ hselects
    (webListing "10.0.0.9") _ rfl
  have hcompletes := hfirst.mpr ⟨by decide +kernel, fun ip hip side => by
    revert ip
    cases side <;> decide +kernel⟩
  refine ⟨hselects, _, rfl, hcompletes, fun hagain => ?_⟩
  exact absurd (hboth.mp ⟨hcompletes, hagain⟩) (by decide +kernel)

/-- After a restart the address of the first pod is listed: the second pod, which was started in the
meantime, is not added, and the event of the service is dropped. -/
theorem createService_stops_at_listed :
    let pods := [webPodAt "web-1" "10.0.0.7", webPodAt "web-2" "10.0.0.8"]
    let r := alone (createService managedService (some pods)) (webListing "10.0.0.7")
    r.1 = false ∧ r.2.object = (webListing "10.0.0.7").object ∧
      (∀ side, ¬ HasAddr (webListing "10.0.0.7") side "10.0.0.8") ∧
      ∀ ep, ¬ Completes managedService pods (webListing "10.0.0.7") ep := by
  refine ⟨by decide +kernel, by decide +kernel, fun side => ?_, fun ep hcompletes => ?_⟩
  · cases side <;> decide +kernel
  · exact absurd hcompletes.1 (by decide +kernel)

end HealthCheck
