import HealthCheck.Api.Serial
import HealthCheck.Endpoints.Edits

/-!
# Concurrent edits of one `Endpoints` object

The service informer, the pod informer and the reconcile worker edit `Endpoints` objects
concurrently. Every edit reads the object and sends it back with the version read, so the
API server turns away those that come too late. The exception is an edit that finds no
object: what it sends carries no version, and the API server lets it overwrite whatever
has been created since.
-/

namespace HealthCheck

open Api Api.Client

/-- A call that edits the `Endpoints` object of a service. -/
inductive EpCall where
  | createEp (svc : Service) (pod : PodAddress)
  | deleteEp (podIp : String)
  | updateEp (nameSpace : String) (svc : Option Service) (pod : PodAddress)
  | syncSvcLabelToEp (svc : Service)
  | createEpBaseSvcWithoutAddress (svc : Service)

/-- The program of a call. -/
def EpCall.program : EpCall → Client Endpoints Bool
  | .createEp svc pod => HealthCheck.createEp svc pod
  | .deleteEp podIp => HealthCheck.deleteEp podIp
  | .updateEp nameSpace svc pod => HealthCheck.updateEp nameSpace svc pod
  | .syncSvcLabelToEp svc => HealthCheck.syncSvcLabelToEp svc
  | .createEpBaseSvcWithoutAddress svc => HealthCheck.createEpBaseSvcWithoutAddress svc

/-! ### What the calls keep -/

/-- No address has an empty IP. -/
def NoEmptyIp (o : Option Endpoints) : Prop := ∀ ep ∈ o, ∀ side, ¬ ep.Has side ""

/-- The calls delete no object and add no empty IP. -/
def EpLater (o o' : Option Endpoints) : Prop :=
  (o ≠ none → o' ≠ none) ∧ (NoEmptyIp o → NoEmptyIp o')

theorem progress_epLater : Progress EpLater where
  refl _ := ⟨id, id⟩
  trans h h' := ⟨h'.1 ∘ h.1, h'.2 ∘ h.2⟩
  stored h := h.1 (by simp)

/-- What is stored has an empty IP only if what was sent has one. -/
theorem epLater_stored {o : Option Endpoints} {sent stored : Endpoints}
    (hcontent : Resource.stamp 0 stored = Resource.stamp 0 sent)
    (hfewer : NoEmptyIp o → ∀ side, ¬ sent.Has side "") : EpLater o (some stored) := by
  refine ⟨fun _ => by simp, fun hold => ?_⟩
  rintro ep ⟨rfl⟩ side hip
  rw [Endpoints.has_iff_of_stamp_eq hcontent] at hip
  exact hfewer hold side hip

theorem decides_send {o : Option Endpoints} {sent : Endpoints}
    (hversion : sent.metadata.resourceVersion = o.bind Resource.resourceVersion)
    (hfewer : NoEmptyIp o → ∀ side, ¬ sent.Has side "") : Decides EpLater o (send sent) :=
  .inr ⟨sent, rfl, hversion, fun _ hcontent => epLater_stored hcontent hfewer⟩

theorem decides_done {o : Option Endpoints} (ok : Bool) : Decides EpLater o (pure ok) :=
  .inl ⟨ok, rfl⟩

/-- Adding an address that is not empty. -/
theorem decides_addAddress {svc : Service} {pod : PodAddress} {o : Option Endpoints}
    {ep : Endpoints} (hpod : pod.podIp ≠ "")
    (hversion : ep.metadata.resourceVersion = o.bind Resource.resourceVersion)
    (hfewer : NoEmptyIp o → ∀ side, ¬ ep.Has side "") :
    Decides EpLater o (addAddress svc pod ep) := by
  unfold addAddress
  split
  · exact decides_done false
  · refine decides_send hversion fun hold side hip => ?_
    rcases (has_withAddress svc pod ep side "").mp hip with hep | ⟨-, hempty⟩
    · exact hfewer hold side hep
    · exact hpod hempty.symm

/-- An object that is fetched has an empty IP only if the stored one has. -/
theorem noEmptyIp_found {ep : Endpoints} : NoEmptyIp (some ep) → ∀ side, ¬ ep.Has side "" :=
  fun h => h ep rfl

/-! ### The calls are transactions -/

theorem transactional_createEp (svc : Service) (pod : PodAddress) :
    Transactional EpLater (createEp svc pod) := by
  have hnew : ∀ side, ¬ (svc.newEndpoints [{ ports := getSvcPortsToEpPort svc.ports }]).Has
      side "" := by
    intro side
    cases side <;> simp [Endpoints.Has, Service.newEndpoints, EndpointSubset.on]
  refine transactional_of_decides fun o => ?_
  cases o with
  | none =>
    dsimp only [Fetch.ofOption]
    split
    · next hpod => exact decides_addAddress hpod rfl fun _ => hnew
    · refine decides_send rfl fun _ side => ?_
      rw [Endpoints.Has, hasIp_fillPorts]
      exact hnew side
  | some ep =>
    dsimp only [Fetch.ofOption]
    split
    · next hpod => exact decides_addAddress hpod rfl noEmptyIp_found
    · exact decides_done true

theorem transactional_deleteEp (podIp : String) : Transactional EpLater (deleteEp podIp) := by
  refine transactional_of_decides fun o => ?_
  cases o with
  | none => exact decides_done false
  | some ep =>
    dsimp only [Fetch.ofOption]
    split
    · next subs hdrop =>
      split
      · refine decides_send rfl fun hold side hip => ?_
        have hloop := hasIp_of_dropEmpty hdrop hip
        cases side with
        | ready =>
          rcases of_hasIp_deleteAddresses hloop with ⟨_, hnil, -⟩ | hkept
          · cases hnil
          · exact noEmptyIp_found hold .ready hkept.1
        | notReady =>
          rcases of_notReady_deleteAddresses hloop with ⟨_, hnil, -⟩ | hkept
          · cases hnil
          · exact noEmptyIp_found hold .notReady hkept
      · exact decides_done true
    · exact decides_done false

theorem transactional_syncSvcLabelToEp (svc : Service) :
    Transactional EpLater (syncSvcLabelToEp svc) := by
  refine transactional_of_decides fun o => ?_
  cases o with
  | none =>
    refine decides_send rfl fun _ side => ?_
    simp [Endpoints.Has, Service.relabel, Service.newEndpoints]
  | some ep =>
    refine decides_send rfl fun hold side hip => noEmptyIp_found hold side ?_
    simpa [Endpoints.Has, Service.relabel] using hip

theorem transactional_createEpBaseSvcWithoutAddress (svc : Service) :
    Transactional EpLater (createEpBaseSvcWithoutAddress svc) := by
  refine transactional_of_decides fun o => ?_
  cases o with
  | none =>
    refine decides_send rfl fun _ side => ?_
    simp [Endpoints.Has, Service.newEndpoints]
  | some ep => exact decides_done true

/-- `_updateEp` on an object in which it has found the address. -/
theorem settle_updateEp_touched {nameSpace : String} {svc : Option Service} {pod : PodAddress}
    {ep : Endpoints} {subs : List EndpointSubset}
    (htouch : touchSubsets pod nameSpace ep.subsets = some subs) :
    (updateEp nameSpace svc pod).settle (some ep) = send { ep with subsets := subs } := by
  unfold updateEp
  dsimp only [Bind.bind, Client.bind, fetch, Client.settle, Fetch.ofOption]
  rw [htouch]
  rfl

/-- `_updateEp` on an object in which it has not found the address. -/
theorem settle_updateEp_untouched {nameSpace : String} {svc : Option Service} {pod : PodAddress}
    {ep : Endpoints} (htouch : touchSubsets pod nameSpace ep.subsets = none) :
    (updateEp nameSpace svc pod).settle (some ep) = (createEpOf svc pod).settle (some ep) := by
  unfold updateEp
  dsimp only [Bind.bind, Client.bind, fetch, Client.settle, Fetch.ofOption]
  rw [htouch]

/-- `_updateEp` on an object that has no address of the pod goes on as `_createEp`. -/
theorem settle_updateEp_absent {nameSpace : String} {svc : Service} {pod : PodAddress}
    {ep : Endpoints} (habsent : ∀ side, ¬ ep.Has side pod.podIp) :
    (updateEp nameSpace (some svc) pod).settle (some ep) =
      (createEp svc pod).settle (some ep) :=
  settle_updateEp_untouched (touchSubsets_eq_none.mpr habsent)

/-- `_createEp` on an object that exists. -/
theorem settle_createEp_some (svc : Service) (pod : PodAddress) (ep : Endpoints) :
    (createEp svc pod).settle (some ep) =
      (if pod.podIp ≠ "" then addAddress svc pod ep else pure true).settle (some ep) := rfl

/-- `_updateEp` may read twice: when it has not found the address, the `_createEp` that follows
agrees with the whole call, because what it has seen the first time still holds. -/
theorem agrees_createEp_of_untouched {nameSpace : String} {svc : Service} {pod : PodAddress}
    {ep : Endpoints} (htouch : touchSubsets pod nameSpace ep.subsets = none) :
    Agrees EpLater (updateEp nameSpace (some svc) pod) (createEp svc pod) (some ep) := by
  intro o' hlater
  obtain ⟨ep', rfl⟩ := Option.ne_none_iff_exists'.mp (hlater.1 (by simp))
  by_cases hpod : pod.podIp ≠ ""
  · by_cases hthere : ep'.Has .ready pod.podIp ∨ ep'.Has .notReady pod.podIp
    · simp only [Fetch.ofOption, Client.bind, if_pos hpod, addAddress, if_pos hthere]
      exact fun hok => absurd hok Bool.false_ne_true
    · have habsent : ∀ side, ¬ ep'.Has side pod.podIp := by
        intro side hip
        cases side with
        | ready => exact hthere (.inl hip)
        | notReady => exact hthere (.inr hip)
      have hcreate : (createEp svc pod).settle (some ep') = send (svc.withAddress pod ep') := by
        rw [settle_createEp_some, if_pos hpod, addAddress, if_neg hthere]
        rfl
      simp only [Fetch.ofOption, Client.bind, if_pos hpod, addAddress, if_neg hthere]
      exact ⟨(settle_updateEp_absent habsent).trans hcreate, rfl, fun _ => rfl⟩
  · have hempty : pod.podIp = "" := by simpa using hpod
    -- there was no empty address at the first read, so there is none now
    have hbefore : NoEmptyIp (some ep) := by
      rintro _ ⟨rfl⟩ side
      have hnone := touchSubsets_eq_none.mp htouch side
      rwa [hempty] at hnone
    have habsent : ∀ side, ¬ ep'.Has side pod.podIp := by
      rw [hempty]
      exact hlater.2 hbefore ep' rfl
    simp only [Fetch.ofOption, Client.bind, if_neg hpod]
    intro _
    rw [settle_updateEp_absent habsent, settle_createEp_some, if_neg hpod]
    rfl

theorem transactional_updateEp (nameSpace : String) (svc : Option Service) (pod : PodAddress) :
    Transactional EpLater (updateEp nameSpace svc pod) := by
  refine ⟨⟨_, rfl, fun o => ?_⟩, fun {o obj next stored} hsend hcontent => ?_⟩
  · cases o with
    | none => exact nofun
    | some ep =>
      dsimp only [Fetch.ofOption, Client.bind]
      split
      · next subs htouch => exact ⟨settle_updateEp_touched htouch, rfl, fun _ => rfl⟩
      · next htouch =>
        cases svc with
        | none => exact nofun
        | some svc => exact agrees_createEp_of_untouched htouch
  · cases o with
    | none => cases hsend
    | some ep =>
      cases htouch : touchSubsets pod nameSpace ep.subsets with
      | some subs =>
        rw [settle_updateEp_touched htouch] at hsend
        cases hsend
        refine epLater_stored hcontent fun hold side hip => noEmptyIp_found hold side ?_
        exact (hasIp_touchSubsets htouch side "").mp hip
      | none =>
        rw [settle_updateEp_untouched htouch] at hsend
        cases svc with
        | none => cases hsend
        | some svc => exact (transactional_createEp svc pod).writes hsend hcontent

theorem EpCall.transactional (call : EpCall) : Transactional EpLater call.program := by
  cases call with
  | createEp svc pod => exact transactional_createEp svc pod
  | deleteEp podIp => exact transactional_deleteEp podIp
  | updateEp nameSpace svc pod => exact transactional_updateEp nameSpace svc pod
  | syncSvcLabelToEp svc => exact transactional_syncSvcLabelToEp svc
  | createEpBaseSvcWithoutAddress svc => exact transactional_createEpBaseSvcWithoutAddress svc

/-! ### Addresses that were added -/

/-- An update with an address keeps it. -/
theorem hasAddr_update {s : Server Endpoints} {sent : Endpoints} {side : Side} {ip : String}
    (hbefore : HasAddr s side ip) (hsent : sent.Has side ip) :
    HasAddr (s.update sent).2 side ip := by
  rcases s.update_object sent with hsame | ⟨stored, hstored, hcontent⟩
  · rwa [hsame]
  · rwa [hasAddr_of_object hstored, Endpoints.has_iff_of_stamp_eq hcontent]

/-- A call that succeeds with adding an address leaves it ready. -/
theorem ready_of_createEp {svc : Service} {pod : PodAddress} (hpod : pod.podIp ≠ "")
    {s : Server Endpoints} (hok : (alone (createEp svc pod) s).1 = true) :
    HasAddr (alone (createEp svc pod) s).2 .ready pod.podIp := by
  have hadd : ∀ ep, (alone (addAddress svc pod ep) s).1 = true →
      HasAddr (alone (addAddress svc pod ep) s).2 .ready pod.podIp := by
    intro ep
    unfold addAddress
    split
    · exact nofun
    · rw [alone_send]
      intro hok
      cases hupdate : s.update (svc.withAddress pod ep) with
      | mk sent t =>
        rw [hupdate] at hok
        cases sent with
        | accepted stored =>
          obtain ⟨hstored, hcontent⟩ := Server.update_accepted hupdate
          rw [hasAddr_of_object hstored, Endpoints.has_iff_of_stamp_eq hcontent, has_withAddress]
          exact .inr ⟨rfl, rfl⟩
        | conflict => cases hok
        | failed => cases hok
  rw [createEp, alone_fetch_bind] at hok ⊢
  cases hobj : s.object with
  | none =>
    simp only [Server.get, hobj, if_pos hpod] at hok ⊢
    exact hadd _ hok
  | some ep =>
    simp only [Server.get, hobj, if_pos hpod] at hok ⊢
    exact hadd _ hok

theorem ready_createEp {svc : Service} {pod : PodAddress} {s : Server Endpoints} {ip : String}
    (hbefore : HasAddr s .ready ip) : HasAddr (alone (createEp svc pod) s).2 .ready ip := by
  obtain ⟨ep, hobj, hip⟩ := hbefore
  have hbefore : HasAddr s .ready ip := ⟨ep, hobj, hip⟩
  have hfound : s.get = .found ep := by simp [Server.get, show s.object = some ep from hobj]
  rw [createEp, alone_fetch_bind, hfound]
  dsimp only
  split
  · unfold addAddress
    split
    · exact hbefore
    · rw [alone_send]
      exact hasAddr_update hbefore ((has_withAddress svc pod ep .ready ip).mpr (.inl hip))
  · exact hbefore

/-- An address stays ready unless it is deleted. -/
theorem EpCall.keeps_ready {call : EpCall} {ip : String} (hne : call ≠ .deleteEp ip)
    {s : Server Endpoints} (hbefore : HasAddr s .ready ip) :
    HasAddr (alone call.program s).2 .ready ip := by
  obtain ⟨ep, hobj, hip⟩ := hbefore
  have hbefore : HasAddr s .ready ip := ⟨ep, hobj, hip⟩
  have hfound : s.get = .found ep := by simp [Server.get, show s.object = some ep from hobj]
  cases call with
  | createEp svc pod => exact ready_createEp hbefore
  | deleteEp podIp =>
    have hother : ip ≠ podIp := by
      rintro rfl
      exact hne rfl
    rw [program, HealthCheck.deleteEp, alone_fetch_bind, hfound]
    dsimp only
    split
    · next subs hdrop =>
      split
      · rw [alone_send]
        exact hasAddr_update hbefore
          (hasIp_dropEmpty hdrop (ready_deleteAddresses hother hip _ _ _))
      · exact hbefore
    · exact hbefore
  | updateEp nameSpace svc pod =>
    rw [program, HealthCheck.updateEp, alone_fetch_bind, hfound]
    dsimp only
    split
    · next subs htouch =>
      rw [alone_send]
      exact hasAddr_update hbefore ((hasIp_touchSubsets htouch .ready ip).mpr hip)
    · cases svc with
      | none => exact hbefore
      | some svc => exact ready_createEp hbefore
  | syncSvcLabelToEp svc =>
    rw [program, HealthCheck.syncSvcLabelToEp, alone_fetch_bind, hfound]
    dsimp only
    rw [alone_send]
    refine hasAddr_update hbefore ?_
    simpa [Endpoints.Has, Service.relabel] using hip
  | createEpBaseSvcWithoutAddress svc =>
    rw [program, HealthCheck.createEpBaseSvcWithoutAddress, alone_fetch_bind, hfound]
    exact hbefore

/-! ### Concurrent calls -/

section Concurrent

variable {ι : Type} [DecidableEq ι]

/-- The calls, before the first request of any of them. -/
def EpCall.begin (calls : ι → EpCall) (s₀ : Server Endpoints) : Pool ι Endpoints Bool :=
  Pool.start (fun i => (calls i).program) s₀

/-- The state after the calls have made their requests in the order of the schedule. -/
def EpCall.interleave (calls : ι → EpCall) (s₀ : Server Endpoints) (schedule : List ι) :
    Pool ι Endpoints Bool :=
  schedule.foldl Pool.step (begin calls s₀)

omit [DecidableEq ι] in
/-- In a serial order, an address that a call adds is there at the end unless another call
deletes it. -/
theorem ready_of_serial {calls : ι → EpCall} {order : List ι} {s t : Server Endpoints} {i : ι}
    {svc : Service} {pod : PodAddress}
    (hserial : Pool.Serial (fun i => (calls i).program) order s t) (hi : i ∈ order)
    (hcall : calls i = .createEp svc pod) (hpod : pod.podIp ≠ "")
    (hkeep : ∀ j ∈ order, calls j ≠ .deleteEp pod.podIp) : HasAddr t .ready pod.podIp := by
  refine hserial.established hi (HasAddr · .ready pod.podIp) (fun s hok => ?_) fun j hj s hs => ?_
  · simp only [hcall, EpCall.program] at hok ⊢
    exact ready_of_createEp hpod hok
  · exact EpCall.keeps_ready (hkeep j hj) hs

/-- In every interleaving in which no update without a version overwrites an object, the state
is that after the successful calls one after the other, in some order; and an address added by
a successful call is ready unless a successful call deletes it. -/
theorem edits_serializable (calls : ι → EpCall) (s₀ : Server Endpoints) (schedule : List ι)
    (hblind : Runs.Along Pool.step Pool.NoBlindOverwrite (EpCall.begin calls s₀) schedule) :
    Pool.Serializable (fun i => (calls i).program) s₀ (EpCall.interleave calls s₀ schedule) ∧
    ∀ i svc pod, calls i = .createEp svc pod → pod.podIp ≠ "" →
      ((EpCall.interleave calls s₀ schedule).threads i).result = some true →
      (∀ j, ((EpCall.interleave calls s₀ schedule).threads j).result = some true →
        calls j ≠ .deleteEp pod.podIp) →
      HasAddr (EpCall.interleave calls s₀ schedule).server .ready pod.podIp := by
  have hserializable := Pool.serializable_of_along progress_epLater
    (fun i => (calls i).transactional) hblind
  refine ⟨hserializable, fun i svc pod hcall hpod hok hkeep => ?_⟩
  obtain ⟨order, -, hmem, hserial⟩ := hserializable
  exact ready_of_serial hserial ((hmem i).mpr hok) hcall hpod fun j hj => hkeep j ((hmem j).mp hj)

end Concurrent

/-- Two calls that add an address each to the same service. -/
def twoPods (i : Bool) : EpCall :=
  .createEp { metadata := { name := "web", nameSpace := "default" } }
    ⟨"pod", if i then "10.0.0.2" else "10.0.0.1", "node1"⟩

/-- The object of the service, without an address. -/
def noPods : Server Endpoints :=
  .holding 1 { metadata := { name := "web", nameSpace := "default" } }

/-- Both calls find the same object: the update of the second one is refused, and it returns an
error. -/
theorem edits_serializable_twoPods :
    ((EpCall.interleave twoPods noPods [false, true, false, true]).threads true).result =
        some false ∧
      HasAddr (EpCall.interleave twoPods noPods [false, true, false, true]).server .ready
        "10.0.0.1" :=
  ⟨by decide +kernel,
    (edits_serializable twoPods noPods [false, true, false, true] (by decide +kernel)).2 false _ _
      rfl (by decide) (by decide +kernel) fun _ _ => nofun⟩

/-- Both calls find no object: both succeed, and the second one overwrites what the first one
has stored. -/
theorem edits_lost :
    ((EpCall.interleave twoPods .absent [false, true, false, true]).threads false).result =
        some true ∧
      ((EpCall.interleave twoPods .absent [false, true, false, true]).threads true).result =
        some true ∧
      ¬ HasAddr (EpCall.interleave twoPods .absent [false, true, false, true]).server .ready
        "10.0.0.1" ∧
      ¬ Pool.Serializable (fun i => (twoPods i).program) .absent
        (EpCall.interleave twoPods .absent [false, true, false, true]) := by
  have hlost : ¬ HasAddr (EpCall.interleave twoPods .absent [false, true, false, true]).server
      .ready "10.0.0.1" := by
    decide +kernel
  refine ⟨by decide +kernel, by decide +kernel, hlost, ?_⟩
  rintro ⟨order, -, hmem, hserial⟩
  have hfirst : false ∈ order := (hmem false).mpr (by decide +kernel)
  exact hlost (ready_of_serial hserial hfirst rfl (by decide) fun _ _ => nofun)

end HealthCheck
