import HealthCheck.PollRuns
import HealthCheck.Reconcile
import HealthCheck.Runs

/-!
# Services and their owners

Every node has an `Lbhc` object and a poller of its own; the `Endpoints` objects are
shared. Which node answers for a service changes over time. A poll consults the ownership
only for the peers that nginx reports, while verdicts are also changed by the recovery
loop of `eventOpt` and by `noneEventOpt`. This file says when the verdicts on a service
of another node are left alone, and what that means for the addresses of the service.
-/

namespace HealthCheck

open Api Api.Client

/-- One node: what it answers for, its poller and its stored object. -/
structure Node where
  ownership : Ownership
  poller : Poller
  server : Server Lbhc

namespace Node

/-- The stored verdict on an endpoint. -/
def verdict (node : Node) (svc ep : String) : Option Bool :=
  node.server.object.bind fun lbhc => lbhc.downEpList.entry svc ep

/-- A poll of the node. -/
def poll (crd : Crd) (servers : ServersNgxList) (node : Node) : Node :=
  let r := run .none (syncHealthCheck crd node.ownership servers node.poller) 0 node.server
  { node with poller := r.1, server := r.2.2 }

/-- After the first poll the cache is an object that was stored at some time. -/
def CacheSeen (node : Node) : Prop :=
  0 < node.poller.globalSyncLoop →
    (∃ lbhc, node.server.object = some lbhc) ∧ node.server.Seen node.poller.globalLbhc

/-- The cache is older than the stored object. -/
def Stale (node : Node) : Prop :=
  0 < node.poller.globalSyncLoop ∧ ∃ lbhc ∈ node.server.object,
    node.poller.globalLbhc.metadata.resourceVersion ≠ lbhc.metadata.resourceVersion

variable {node : Node}

theorem verdict_of_object {lbhc : Lbhc} (hobj : node.server.object = some lbhc)
    (svc ep : String) : node.verdict svc ep = lbhc.downEpList.entry svc ep := by
  simp [verdict, hobj]

/-- The verdicts after a poll with peers reported: the computed ones are stored, or there is
nothing new in them. -/
theorem verdict_poll_event (crd : Crd) {servers : ServersNgxList} (htotal : 0 < servers.total) :
    (∀ svc ep, (node.poll crd servers).verdict svc ep =
      eventVerdict node.ownership (servers.http ++ servers.stream) svc ep
        (node.verdict svc ep)) ∨
    ((node.poll crd servers).verdict = node.verdict ∧ ∀ svc ep status,
      eventVerdict node.ownership (servers.http ++ servers.stream) svc ep
        (node.verdict svc ep) = some status → node.verdict svc ep = some status) := by
  obtain ⟨lbhc, n, t, hobj, hbase, -, hstored, -, hcase⟩ :=
    run_eventOpt crd node.ownership servers node.poller (fun _ => .success) node.server
  have hpoll : node.poll crd servers =
      { node with
        poller := (run (.ofUpdates fun _ => .success)
          (eventOpt crd node.ownership servers node.poller) 0 node.server).1
        server := (run (.ofUpdates fun _ => .success)
          (eventOpt crd node.ownership servers node.poller) 0 node.server).2.2 } := by
    rw [poll, syncHealthCheck, if_pos htotal]
    rfl
  have hbefore : ∀ svc ep, node.verdict svc ep = lbhc.downEpList.entry svc ep := by
    intro svc ep
    rcases hbase with ⟨hobj', -⟩ | ⟨hnone, hempty, -⟩
    · exact verdict_of_object hobj' svc ep
    · rw [verdict, hnone, hempty]
      rfl
  have hafter : ∀ svc ep, (node.poll crd servers).verdict svc ep =
      (run (.ofUpdates fun _ => .success) (eventOpt crd node.ownership servers node.poller) 0
        node.server).1.globalLbhc.downEpList.entry svc ep := by
    intro svc ep
    rw [hpoll, verdict, hstored]
    rfl
  rcases hcase with ⟨hcompare | hblocked, hsame, -⟩ | ⟨-, -, hlist⟩
  · refine .inr ⟨?_, fun svc ep status hstatus => ?_⟩
    · funext svc ep
      rw [hafter, hsame, hbefore]
    · rw [hbefore] at hstatus ⊢
      rw [← entry_eventDownEpList] at hstatus
      exact entry_of_compareMaps hcompare hstatus
  · simp [Faults.passes, Faults.ofUpdates] at hblocked
  · refine .inl fun svc ep => ?_
    rw [hafter, hlist, entry_eventDownEpList, hbefore]

/-- A poll with no peer reported is a `noneEventOpt`. -/
theorem poll_none (crd : Crd) {servers : ServersNgxList} (htotal : servers.total = 0) :
    node.poll crd servers =
      { node with
        poller := (run (.ofUpdates fun _ => .success) (noneEventOpt node.poller) 0 node.server).1
        server := (run (.ofUpdates fun _ => .success) (noneEventOpt node.poller) 0
          node.server).2.2 } := by
  have hpos : ¬ 0 < servers.total := by omega
  rw [poll, syncHealthCheck, if_neg hpos, if_pos htotal]
  rfl

/-- Marking up changes nothing where nothing is down. -/
theorem map_true_of_up {lbhc : Lbhc} (hup : lbhc.downEpList.anyDown = false) (svc ep : String) :
    lbhc.downEpList.entry svc ep = (lbhc.downEpList.entry svc ep).map fun _ => true := by
  cases hentry : lbhc.downEpList.entry svc ep with
  | none => rfl
  | some status =>
    cases status with
    | true => rfl
    | false =>
      have hany := DownEpList.anyDown_iff.mpr ⟨svc, ep, hentry⟩
      rw [hup] at hany
      cases hany

/-- The first poll with no peer reported reads the store and marks all verdicts up. -/
theorem verdict_poll_none_first (crd : Crd) {servers : ServersNgxList} (htotal : servers.total = 0)
    (hfirst : node.poller.globalSyncLoop = 0) (svc ep : String) :
    (node.poll crd servers).verdict svc ep = (node.verdict svc ep).map fun _ => true := by
  rw [poll_none crd htotal]
  cases hobj : node.server.object with
  | none =>
    rw [run_noneEventOpt_absent _ hobj hfirst]
    simp [verdict, hobj]
  | some current =>
    obtain ⟨-, hstored, hcase⟩ := run_noneEventOpt_first (fun _ => .success) hobj hfirst
    rw [verdict_of_object hstored, verdict_of_object hobj]
    rcases hcase with ⟨hup | hblocked, hsame, -⟩ | ⟨-, -, hlist⟩
    · rw [hsame]
      exact map_true_of_up hup svc ep
    · simp [Faults.passes, Faults.ofUpdates] at hblocked
    · rw [hlist, entry_allUp]

/-- With the stored object in the cache, a later one marks all verdicts up. -/
theorem verdict_poll_none_cached (crd : Crd) {servers : ServersNgxList}
    (htotal : servers.total = 0) (hlater : 0 < node.poller.globalSyncLoop)
    (hobj : node.server.object = some node.poller.globalLbhc) (svc ep : String) :
    (node.poll crd servers).verdict svc ep = (node.verdict svc ep).map fun _ => true := by
  rw [poll_none crd htotal, verdict_of_object hobj]
  cases hdown : node.poller.globalLbhc.downEpList.anyDown with
  | false =>
    rw [noneEventOpt_of_up hlater hdown, run_pure]
    exact (verdict_of_object hobj svc ep).trans (map_true_of_up hdown svc ep)
  | true =>
    obtain ⟨-, hlist, hcase⟩ := run_noneEventOpt_later (fun _ => .success) hobj hlater hdown
    rcases hcase with ⟨-, -, hstored⟩ | ⟨hnot, -, -⟩
    · rw [verdict_of_object hstored, hlist, entry_allUp]
    · exact absurd ⟨rfl, rfl⟩ hnot

/-- With a stale cache, a later one changes nothing. -/
theorem verdict_poll_none_stale (crd : Crd) {servers : ServersNgxList}
    (htotal : servers.total = 0) (hstale : node.Stale) :
    (node.poll crd servers).verdict = node.verdict := by
  obtain ⟨hlater, current, hobj, hversion⟩ := hstale
  rw [poll_none crd htotal]
  cases hdown : node.poller.globalLbhc.downEpList.anyDown with
  | false => rw [noneEventOpt_of_up hlater hdown, run_pure]
  | true =>
    obtain ⟨-, -, hcase⟩ := run_noneEventOpt_later (fun _ => .success) hobj hlater hdown
    rcases hcase with ⟨heq, -, -⟩ | ⟨-, -, hserver⟩
    · exact absurd heq hversion
    · funext svc ep
      rw [verdict, hserver, verdict]

/-- The verdicts after a poll with no peer reported: all are up, unless the cache is stale. -/
theorem verdict_poll_none (crd : Crd) {servers : ServersNgxList} (htotal : servers.total = 0)
    (hseen : node.CacheSeen) :
    (¬ node.Stale ∧ ∀ svc ep, (node.poll crd servers).verdict svc ep =
      (node.verdict svc ep).map fun _ => true) ∨
    (node.Stale ∧ (node.poll crd servers).verdict = node.verdict) := by
  by_cases hstale : node.Stale
  · exact .inr ⟨hstale, verdict_poll_none_stale crd htotal hstale⟩
  · refine .inl ⟨hstale, ?_⟩
    rcases Nat.eq_zero_or_pos node.poller.globalSyncLoop with hfirst | hlater
    · exact verdict_poll_none_first crd htotal hfirst
    · obtain ⟨⟨current, hobj⟩, hcache⟩ := hseen hlater
      have hversion : node.poller.globalLbhc.metadata.resourceVersion =
          current.metadata.resourceVersion := by
        by_contra hne
        exact hstale ⟨hlater, current, hobj, hne⟩
      have hsame : current = node.poller.globalLbhc := hcache.eq_of_version_eq hobj hversion
      rw [hsame] at hobj
      exact verdict_poll_none_cached crd htotal hlater hobj

/-- A poll that reports a negative total, which nginx never does, is ignored. -/
theorem poll_negative (crd : Crd) {servers : ServersNgxList} (htotal : servers.total < 0) :
    node.poll crd servers = node := by
  have hpos : ¬ 0 < servers.total := by omega
  have hzero : ¬ servers.total = 0 := by omega
  rw [poll, syncHealthCheck, if_neg hpos, if_neg hzero]
  rfl

/-- Polls keep the cache an object of the store. -/
theorem cacheSeen_poll (crd : Crd) (servers : ServersNgxList) (hseen : node.CacheSeen) :
    (node.poll crd servers).CacheSeen := by
  have hcached : ∀ {node' : Node}, node'.server.object = some node'.poller.globalLbhc →
      node'.CacheSeen := fun hobj _ => ⟨⟨_, hobj⟩, Server.seen_of_object hobj⟩
  rcases Int.lt_trichotomy servers.total 0 with hneg | hzero | hpos
  · rwa [poll_negative crd hneg]
  · rw [poll_none crd hzero]
    rcases Nat.eq_zero_or_pos node.poller.globalSyncLoop with hfirst | hlater
    · cases hobj : node.server.object with
      | none =>
        rw [run_noneEventOpt_absent _ hobj hfirst]
        exact hseen
      | some current =>
        obtain ⟨-, hstored, -⟩ := run_noneEventOpt_first (fun _ => .success) hobj hfirst
        exact hcached hstored
    · obtain ⟨⟨current, hobj⟩, v, hv, hversion, -⟩ := hseen hlater
      cases hdown : node.poller.globalLbhc.downEpList.anyDown with
      | false =>
        rw [noneEventOpt_of_up hlater hdown, run_pure]
        exact hseen
      | true =>
        obtain ⟨-, -, hcase⟩ := run_noneEventOpt_later (fun _ => .success) hobj hlater hdown
        rcases hcase with ⟨-, -, hstored⟩ | ⟨hnot, hmeta, hserver⟩
        · exact hcached hstored
        · -- the refused update leaves the old version in the cache, which is not the stored one
          intro _
          dsimp only
          rw [hserver]
          have hkept : Resource.resourceVersion (run (.ofUpdates fun _ => .success)
              (noneEventOpt node.poller) 0 node.server).1.globalLbhc = some v := by
            rw [← hversion]
            exact congrArg ObjectMeta.resourceVersion hmeta
          refine ⟨⟨current, hobj⟩, v, hv, hkept, fun lbhc hlbhc hsame => ?_⟩
          rw [hobj] at hlbhc
          cases hlbhc
          exact absurd ⟨hversion.trans hsame.symm, rfl⟩ hnot
  · obtain ⟨-, -, -, -, -, -, hstored, -, -⟩ :=
      run_eventOpt crd node.ownership servers node.poller (fun _ => .success) node.server
    rw [poll, syncHealthCheck, if_pos hpos]
    exact hcached hstored

/-- The verdict on an endpoint of another node's service is left alone. -/
def LeavesAlone (node : Node) (servers : ServersNgxList) (svc ep : String) : Prop :=
  (0 < servers.total ∧ (Listed (servers.http ++ servers.stream) svc ∨
    Recorded node.ownership (servers.http ++ servers.stream) ep)) ∨
  (servers.total = 0 ∧ node.Stale) ∨ servers.total < 0

/-- A poll clears a down mark of another node's service exactly when it does not leave it
alone. -/
theorem clears_iff (crd : Crd) (servers : ServersNgxList) (hseen : node.CacheSeen)
    {svc ep : String} (howns : node.ownership.owns svc = false)
    (hdown : node.verdict svc ep = some false) :
    (node.poll crd servers).verdict svc ep = some true ↔ ¬ node.LeavesAlone servers svc ep := by
  unfold LeavesAlone
  rcases Int.lt_trichotomy servers.total 0 with hneg | hzero | hpos
  · rw [poll_negative crd hneg, hdown]
    simp [hneg]
  · have hnpos : ¬ 0 < servers.total := by omega
    have hnneg : ¬ servers.total < 0 := by omega
    rcases verdict_poll_none crd hzero hseen with ⟨hfresh, hup⟩ | ⟨hstale, hsame⟩
    · simp [hup, hdown, hzero, hfresh]
    · simp [hsame, hdown, hzero, hstale]
  · have hnzero : ¬ servers.total = 0 := by omega
    have hnneg : ¬ servers.total < 0 := by omega
    have hevent : eventVerdict node.ownership (servers.http ++ servers.stream) svc ep
        (some false) = some true ↔ ¬ (Listed (servers.http ++ servers.stream) svc ∨
          Recorded node.ownership (servers.http ++ servers.stream) ep) := by
      by_cases hlisted : Listed (servers.http ++ servers.stream) svc <;>
        by_cases hrecorded : Recorded node.ownership (servers.http ++ servers.stream) ep <;>
        simp [eventVerdict, howns, hlisted, hrecorded]
    simp only [hpos, hnzero, hnneg, true_and, false_and, or_false, ← hevent]
    rcases @verdict_poll_event node crd servers hpos with hnew | ⟨hsame, hold⟩
    · rw [hnew, hdown]
    · rw [hsame, hdown]
      refine iff_of_false (by simp) fun htrue => ?_
      have hup := hold svc ep true (by rw [hdown, htrue])
      rw [hdown] at hup
      cases hup

/-- A poll marks nothing up on which there was no verdict. -/
theorem verdict_ne_none_of_poll (crd : Crd) (servers : ServersNgxList) (hseen : node.CacheSeen)
    {svc ep : String} (hup : (node.poll crd servers).verdict svc ep = some true) :
    node.verdict svc ep ≠ none := by
  intro hnone
  rcases Int.lt_trichotomy servers.total 0 with hneg | hzero | hpos
  · rw [poll_negative crd hneg, hnone] at hup
    cases hup
  · rcases verdict_poll_none crd hzero hseen with ⟨-, hmap⟩ | ⟨-, hsame⟩
    · rw [hmap, hnone] at hup
      cases hup
    · rw [hsame, hnone] at hup
      cases hup
  · rcases @verdict_poll_event node crd servers hpos with hnew | ⟨hsame, -⟩
    · rw [hnew, hnone, eventVerdict] at hup
      split at hup
      · cases hup
      · split at hup
        · cases hup
        · split at hup <;> cases hup
    · rw [hsame, hnone] at hup
      cases hup

end Node

end HealthCheck
