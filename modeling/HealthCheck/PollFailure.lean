import HealthCheck.PollRuns

/-!
# A poll whose read fails

When the read of the `Lbhc` object fails, `eventOpt` logs the error and goes on with the zero
value. The zero value is cached, and with it every down verdict that `noneEventOpt` was to clear is
lost; an endpoint that nginx reports makes the difference between the zero value and the computed
verdicts, which is then sent.
-/

namespace HealthCheck

open Api Api.Client

/-- The zero value that a failed read leaves. -/
def zeroLbhc : Lbhc := { metadata := { name := "", nameSpace := "" } }

/-- Polls without reported peers, each with the fate of its requests and with the store that it
meets. -/
def zeroPolls (p : Poller) (polls : List (Faults × Server Lbhc)) : Poller :=
  polls.foldl (fun p poll => (run poll.1 (noneEventOpt p) 0 poll.2).1) p

/-- The next polls without reported peers find and clear the down verdicts of `before`: the first
one sends them as up, and they are up in the cache from then on. -/
def StillCleared (before : DownEpList) (p : Poller) : Prop :=
  ∀ first rest svc ep, before.entry svc ep = some false →
    (∃ lbhc ∈ sent first.1 (noneEventOpt p) 0 first.2, lbhc.downEpList.entry svc ep = some true) ∧
      (zeroPolls p (first :: rest)).globalLbhc.downEpList.entry svc ep = some true

/-- The comparison with the zero value sees exactly the endpoints of this node that are reported. -/
theorem compareMaps_zero_iff (o : Ownership) (servers : ServersNgxList) :
    compareMaps (eventDownEpList o servers none) none = true ↔ ¬ ReportsOwned o servers := by
  constructor
  · rintro hcompare ⟨d, hd, howns, hrise⟩
    have hentry : (eventDownEpList o servers none).entry d.upstream d.name = some false := by
      rw [entry_eventDownEpList]
      have hreported : Reported (servers.http ++ servers.stream) d.upstream d.name :=
        ⟨d, hd, rfl, rfl, hrise⟩
      simp [eventVerdict, howns, hreported]
    cases entry_of_compareMaps hcompare hentry
  · intro hnone
    have hnil : eventDownEpList o servers none = none := by
      rw [← Option.not_isSome_iff_eq_none, isSome_eventDownEpList_iff]
      simpa using hnone
    rw [hnil]
    rfl

/-- An object without a version is refused. -/
theorem update_refused_of_no_version {lbhc : Lbhc} (hversion : lbhc.metadata.resourceVersion = none)
    (s : Server Lbhc) : (s.update lbhc).2 = s ∧ ∀ o, (s.update lbhc).1 ≠ .accepted o := by
  have hnone : Resource.resourceVersion lbhc = none := hversion
  cases hobj : s.object with
  | none => exact Server.update_refused_of_missing rfl hobj lbhc
  | some current => simp [Server.update, hobj, hnone, Resource.unconditionalUpdate]

section Failed

variable (crd : Crd) (o : Ownership) (servers : ServersNgxList) (p : Poller) {faults : Faults}
  (s : Server Lbhc) (hget : faults.get 0 ≠ .success)

include hget

omit o servers p in
/-- The read fails, nothing is sent, and the zero value takes the place of the object. -/
theorem run_fetchOrCreate_failed :
    run faults (fetchOrCreate crd) 0 s = (zeroLbhc, 1, s) ∧
      sent faults (fetchOrCreate crd) 0 s = [] := by
  rw [fetchOrCreate, run_fetch_bind, sent_fetch_bind, if_neg hget]
  exact ⟨rfl, rfl⟩

/-- The zero value is cached, whatever the payload. -/
theorem run_eventOpt_failed :
    (run faults (eventOpt crd o servers p) 0 s).1 =
      { globalLbhc := zeroLbhc, globalSyncLoop := p.globalSyncLoop + 1 } := by
  rw [eventOpt, run_bind, (run_fetchOrCreate_failed crd s hget).1]
  dsimp only
  split
  · rfl
  · obtain ⟨reply, m, hreply, hrun⟩ : ∃ reply m, (∀ o, reply ≠ .accepted o) ∧ run faults
        (retryUpdate { zeroLbhc with downEpList := eventDownEpList o servers none } 5) 1 s =
          (reply, m, s) :=
      run_retryUpdate_refused (.inl (update_refused_of_no_version rfl s))
    exact congrArg Prod.fst (run_sendAndCache_refused hreply hrun _)

/-- A write is attempted exactly when an endpoint of this node is reported. -/
theorem sent_eventOpt_failed :
    sent faults (eventOpt crd o servers p) 0 s = [] ↔ ¬ ReportsOwned o servers := by
  obtain ⟨hfetch, hnothing⟩ := run_fetchOrCreate_failed crd s hget
  rw [← compareMaps_zero_iff, eventOpt, sent_bind, hfetch, hnothing, List.nil_append]
  dsimp only
  split
  · next hcompare => exact iff_of_true rfl hcompare
  · next hcompare =>
    exact iff_of_false (sent_retryOnConflict_bind_ne_nil faults _ _ _ s) hcompare

/-- The next poll without reported peers finds nothing in the zero value. -/
theorem stillCleared_failed_iff :
    StillCleared p.globalLbhc.downEpList (run faults (eventOpt crd o servers p) 0 s).1 ↔
      p.globalLbhc.downEpList.anyDown = false := by
  rw [run_eventOpt_failed crd o servers p s hget, ← Bool.not_eq_true, DownEpList.anyDown_iff]
  have hidle := @noneEventOpt_of_up
    { globalLbhc := zeroLbhc, globalSyncLoop := p.globalSyncLoop + 1 } (Nat.succ_pos _) rfl
  constructor
  · rintro hcleared ⟨svc, ep, hdown⟩
    obtain ⟨⟨lbhc, hsent, -⟩, -⟩ := hcleared (.none, .absent) [] svc ep hdown
    rw [hidle] at hsent
    cases hsent
  · intro hup first rest svc ep hdown
    exact absurd ⟨svc, ep, hdown⟩ hup

/-- What a failed read leaves intact: the cache exactly if it was the zero value, the store
untouched exactly if no endpoint of this node is reported, and the clearing of down verdicts exactly
if there were none. -/
theorem failed_fetch_intact_iff :
    ((run faults (eventOpt crd o servers p) 0 s).1.globalLbhc = p.globalLbhc ↔
        p.globalLbhc = zeroLbhc) ∧
      (sent faults (eventOpt crd o servers p) 0 s = [] ↔ ¬ ReportsOwned o servers) ∧
      (StillCleared p.globalLbhc.downEpList (run faults (eventOpt crd o servers p) 0 s).1 ↔
        p.globalLbhc.downEpList.anyDown = false) := by
  refine ⟨?_, sent_eventOpt_failed crd o servers p s hget,
    stillCleared_failed_iff crd o servers p s hget⟩
  rw [run_eventOpt_failed crd o servers p s hget]
  exact eq_comm

end Failed

/-- The leader of the nodes answers for every service that is no load balancer. -/
def leading : Ownership := { isLeader := true }

/-- A peer that nginx reports down while it is rising. -/
def risingPeer : ServersNgxList where
  total := 1
  http := [⟨"web_prod", "10.0.0.7:80", 1⟩]
  stream := []

/-- The cache after a poll that has marked an endpoint down. -/
def cachedDown : Poller where
  globalLbhc :=
    { metadata := { name := "node-1", nameSpace := "kube-system", resourceVersion := some 1 }
      downEpList := some ((∅ : Go.Map String EpStatus).insert "web_prod"
        ((∅ : EpStatus).insert "10.0.0.7:80" false)) }
  globalSyncLoop := 1

/-- All reads fail. -/
def noReads : Faults := ⟨fun _ => .error, fun _ => .success, fun _ => .success⟩

/-- Before the first read has succeeded there is nothing to lose. -/
theorem failed_fetch_intact_at_start :
    let r := run noReads (eventOpt ⟨"node-1", "kube-system"⟩ leading risingPeer {}) 0 .absent
    noReads.get 0 ≠ .success ∧ r.1.globalLbhc = ({} : Poller).globalLbhc ∧
      sent noReads (eventOpt ⟨"node-1", "kube-system"⟩ leading risingPeer {}) 0 .absent = [] ∧
      StillCleared ({} : Poller).globalLbhc.downEpList r.1 := by
  have hget : noReads.get 0 ≠ .success := by decide
  obtain ⟨hcache, hsent, hcleared⟩ := failed_fetch_intact_iff ⟨"node-1", "kube-system"⟩ leading
    risingPeer {} .absent hget
  have hnone : ¬ ReportsOwned leading risingPeer := by
    rintro ⟨d, hd, -, hrise⟩
    obtain rfl := List.mem_singleton.mp hd
    exact absurd hrise (by decide)
  exact ⟨hget, hcache.mpr rfl, hsent.mpr hnone, hcleared.mpr (by decide)⟩

/-- One failed read, and the down verdict in the cache is lost: the next poll without reported
peers finds nothing to clear. -/
theorem failed_fetch_forgets :
    let r := run noReads (eventOpt ⟨"node-1", "kube-system"⟩ leading risingPeer cachedDown) 0
      (.holding 1 cachedDown.globalLbhc)
    r.1.globalLbhc ≠ cachedDown.globalLbhc ∧
      ¬ StillCleared cachedDown.globalLbhc.downEpList r.1 := by
  refine ⟨by decide +kernel, fun hcleared => ?_⟩
  have hget : noReads.get 0 ≠ .success := by decide
  have hup := (stillCleared_failed_iff ⟨"node-1", "kube-system"⟩ leading risingPeer cachedDown _
    hget).mp hcleared
  revert hup
  decide +kernel

end HealthCheck
