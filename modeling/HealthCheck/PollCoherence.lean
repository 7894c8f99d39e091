import HealthCheck.PollRuns
import HealthCheck.Runs

/-!
# The cached `Lbhc` object

`noneEventOpt` decides from the cached copy whether anything has to be marked up again.
That is right as long as every down verdict of the stored object is a down verdict of
the cache. Polls, the clean-up of the reconciler and the deletion of a service all keep
this, with one exception: `noneEventOpt` marks the cache up even when its update fails.
-/

namespace HealthCheck

open Api Api.Client

/-- The stored object, the package variables of the polling goroutine and the copy that
the reconcile worker has fetched and not yet cleaned. -/
structure LbhcState where
  poller : Poller
  server : Server Lbhc
  fetched : Option Lbhc

/-- What the goroutines do with the `Lbhc` object. Every operation that updates comes with
the fate of its update attempts; reads succeed. -/
inductive LbhcOp where
  | eventOpt (o : Ownership) (servers : ServersNgxList) (updates : ℕ → Outcome)
  | noneEventOpt (updates : ℕ → Outcome)
  | reconcileGet
  | cleanHcBaseEpUpStatus (updates : ℕ → Outcome)
  | deleteLbhcEpElemByOne (svcName : String) (updates : ℕ → Outcome)

/-- One operation. -/
def LbhcState.step (crd : Crd) (s : LbhcState) : LbhcOp → LbhcState
  | .eventOpt o servers updates =>
    let r := run (.ofUpdates updates) (HealthCheck.eventOpt crd o servers s.poller) 0 s.server
    { s with poller := r.1, server := r.2.2 }
  | .noneEventOpt updates =>
    let r := run (.ofUpdates updates) (HealthCheck.noneEventOpt s.poller) 0 s.server
    { s with poller := r.1, server := r.2.2 }
  | .reconcileGet => { s with fetched := s.server.object }
  | .cleanHcBaseEpUpStatus updates =>
    match s.fetched with
    | some lbhc =>
      let r := run (.ofUpdates updates) (HealthCheck.cleanHcBaseEpUpStatus lbhc) 0 s.server
      { s with server := r.2.2, fetched := none }
    | none => s
  | .deleteLbhcEpElemByOne svcName updates =>
    let r := run (.ofUpdates updates) (HealthCheck.deleteLbhcEpElemByOne svcName) 0 s.server
    { s with server := r.2.2 }

/-- The program has just started on a node whose `Lbhc` object exists. -/
def LbhcState.start (v : ℕ) (lbhc : Lbhc) : LbhcState :=
  { poller := {}, server := .holding v lbhc, fetched := none }

/-- No endpoint is marked down in the stored object. -/
def NothingDown (s : LbhcState) : Prop := ∀ lbhc ∈ s.server.object, lbhc.downEpList.anyDown = false

instance (s : LbhcState) : Decidable (NothingDown s) :=
  inferInstanceAs (Decidable (∀ lbhc ∈ s.server.object, _))

/-- After the first poll, `noneEventOpt` issues no update only when nothing is marked down. -/
def NoneEventOptSeesAll (s : LbhcState) : Prop :=
  0 < s.poller.globalSyncLoop → (noneEventOpt s.poller).idle = true → NothingDown s

/-- The update of `noneEventOpt` gets through: the cached version is the stored one, and of
the attempts the first one that is not turned away as a conflict succeeds. -/
def CacheAccepted (s : LbhcState) (updates : ℕ → Outcome) : Prop :=
  (∃ lbhc ∈ s.server.object,
    s.poller.globalLbhc.metadata.resourceVersion = lbhc.metadata.resourceVersion) ∧
    (Faults.ofUpdates updates).passes 0 5 = true

/-- A `noneEventOpt` that works on the cache and has something to mark up either gets its
update through or had a cache that showed down what is no longer down in the store. -/
def LbhcOp.Safe (s : LbhcState) : LbhcOp → Prop
  | .noneEventOpt updates => 0 < s.poller.globalSyncLoop →
      s.poller.globalLbhc.downEpList.anyDown = true → CacheAccepted s updates ∨ NothingDown s
  | _ => True

/-- The invariant. After the first poll, every down verdict of the store is in the cache,
and the reconciler's copy was read from the store. -/
structure Coherent (s : LbhcState) : Prop where
  stored : ∃ lbhc, s.server.object = some lbhc
  cached : 0 < s.poller.globalSyncLoop → ∀ lbhc ∈ s.server.object, ∀ svc ep,
    lbhc.downEpList.entry svc ep = some false →
      s.poller.globalLbhc.downEpList.entry svc ep = some false
  fetched : ∀ lbhc ∈ s.fetched, s.server.Seen lbhc

/-- A cache equal to the store is coherent with it. -/
theorem Coherent.of_cached {s : LbhcState} (hobj : s.server.object = some s.poller.globalLbhc)
    (hfetched : ∀ lbhc ∈ s.fetched, s.server.Seen lbhc) : Coherent s where
  stored := ⟨_, hobj⟩
  cached := by
    rintro - lbhc hlbhc svc ep hentry
    rw [hobj] at hlbhc
    cases hlbhc
    exact hentry
  fetched := hfetched

/-- A write that adds no down verdict to the store keeps the cache coherent. -/
theorem Coherent.of_fewer {s : LbhcState} {t : Server Lbhc} {new : Option Lbhc}
    (hcoherent : Coherent s) {current stored : Lbhc} (hobj : s.server.object = some current)
    (hstored : t.object = some stored)
    (hfewer : ∀ svc ep, stored.downEpList.entry svc ep = some false →
      current.downEpList.entry svc ep = some false)
    (hfetched : ∀ lbhc ∈ new, t.Seen lbhc) :
    Coherent { s with server := t, fetched := new } where
  stored := ⟨stored, hstored⟩
  cached := by
    intro hloop lbhc hlbhc svc ep hentry
    rw [hstored] at hlbhc
    cases hlbhc
    exact hcoherent.cached hloop current hobj svc ep (hfewer svc ep hentry)
  fetched := hfetched

/-- The write of the clean-up marks nothing down. -/
theorem run_cleanHcBaseEpUpStatus {lbhc current : Lbhc} (updates : ℕ → Outcome)
    {s : Server Lbhc} (hobj : s.object = some current) (hseen : s.Seen lbhc) :
    ∃ stored, (run (.ofUpdates updates) (cleanHcBaseEpUpStatus lbhc) 0 s).2.2.object =
        some stored ∧ ∀ svc ep, stored.downEpList.entry svc ep = some false →
          current.downEpList.entry svc ep = some false := by
  rw [cleanHcBaseEpUpStatus]
  split
  · rw [run_bind]
    rcases run_retryOnConflict_lbhc (.ofUpdates updates)
        { lbhc with downEpList := lbhc.downEpList.deleteUp } 0 hobj with
      ⟨hversion, -, stored, m, t, hstored, hlist, -, hrun⟩ | ⟨-, reply, m, -, hrun⟩
    · have hcurrent : current = lbhc := hseen.eq_of_version_eq hobj hversion
      rw [hrun]
      refine ⟨stored, hstored, fun svc ep hentry => ?_⟩
      rw [hlist] at hentry
      rw [hcurrent]
      exact DownEpList.entry_deleteUp_eq_false.mp hentry
    · rw [hrun]
      exact ⟨current, hobj, fun _ _ hentry => hentry⟩
  · exact ⟨current, hobj, fun _ _ hentry => hentry⟩

/-- The write of the deletion of a service marks nothing down. -/
theorem run_deleteLbhcEpElemByOne (svcName : String) (updates : ℕ → Outcome) {current : Lbhc}
    {s : Server Lbhc} (hobj : s.object = some current) :
    ∃ stored, (run (.ofUpdates updates) (deleteLbhcEpElemByOne svcName) 0 s).2.2.object =
        some stored ∧ ∀ svc ep, stored.downEpList.entry svc ep = some false →
          current.downEpList.entry svc ep = some false := by
  rw [deleteLbhcEpElemByOne, run_fetch_ofUpdates, Server.get_eq, hobj]
  dsimp only [Fetch.ofOption]
  rw [run_bind]
  rcases run_retryOnConflict_lbhc (.ofUpdates updates)
      { current with downEpList := current.downEpList.deleteService svcName } 1 hobj with
    ⟨-, -, stored, m, t, hstored, hlist, -, hrun⟩ | ⟨-, reply, m, -, hrun⟩
  · rw [hrun]
    refine ⟨stored, hstored, fun svc ep hentry => ?_⟩
    rw [hlist, DownEpList.entry_deleteService] at hentry
    split at hentry
    · cases hentry
    · exact hentry
  · rw [hrun]
    exact ⟨current, hobj, fun _ _ hentry => hentry⟩

/-- A safe `noneEventOpt` keeps the cache coherent: its update goes through, or the store has
nothing down. -/
theorem coherent_noneEventOpt {crd : Crd} {s : LbhcState} {updates : ℕ → Outcome}
    (hcoherent : Coherent s) (hsafe : (LbhcOp.noneEventOpt updates).Safe s) :
    Coherent (s.step crd (.noneEventOpt updates)) := by
  obtain ⟨current, hobj⟩ := hcoherent.stored
  have hfetched : ∀ lbhc ∈ s.fetched,
      (run (.ofUpdates updates) (noneEventOpt s.poller) 0 s.server).2.2.Seen lbhc :=
    fun lbhc hlbhc => seen_run _ _ (hcoherent.fetched lbhc hlbhc)
  rcases Nat.eq_zero_or_pos s.poller.globalSyncLoop with hfirst | hlater
  · exact .of_cached (run_noneEventOpt_first updates hobj hfirst).2.1 hfetched
  · cases hdown : s.poller.globalLbhc.downEpList.anyDown with
    | false =>
      simpa [LbhcState.step, noneEventOpt_of_up hlater hdown] using hcoherent
    | true =>
      obtain ⟨-, -, hcase⟩ := run_noneEventOpt_later updates hobj hlater hdown
      rcases hcase with ⟨-, -, hstored⟩ | ⟨hnot, -, hsame⟩
      · exact .of_cached hstored hfetched
      · rcases hsafe hlater hdown with ⟨⟨lbhc, hlbhc, hversion⟩, hpasses⟩ | hnothing
        · rw [hobj] at hlbhc
          cases hlbhc
          exact absurd ⟨hversion, hpasses⟩ hnot
        · refine ⟨⟨current, by rw [LbhcState.step, hsame, hobj]⟩, ?_, hfetched⟩
          rintro - lbhc hlbhc svc ep hentry
          rw [LbhcState.step, hsame] at hlbhc
          have hany := DownEpList.anyDown_iff.mpr ⟨svc, ep, hentry⟩
          rw [hnothing lbhc hlbhc] at hany
          cases hany

/-- Safe operations keep the cache coherent. -/
theorem coherent_step {crd : Crd} {s : LbhcState} {op : LbhcOp} (hcoherent : Coherent s)
    (hsafe : op.Safe s) : Coherent (s.step crd op) := by
  obtain ⟨current, hobj⟩ := hcoherent.stored
  cases op with
  | eventOpt o servers updates =>
    obtain ⟨-, -, -, -, -, -, hstored, -, -⟩ := run_eventOpt crd o servers s.poller updates s.server
    exact .of_cached hstored fun lbhc hlbhc => seen_run _ _ (hcoherent.fetched lbhc hlbhc)
  | noneEventOpt updates => exact coherent_noneEventOpt hcoherent hsafe
  | reconcileGet =>
    exact hcoherent.of_fewer hobj hobj (fun _ _ hentry => hentry)
      fun lbhc hlbhc => Server.seen_of_object hlbhc
  | cleanHcBaseEpUpStatus updates =>
    cases hfetched : s.fetched with
    | none => simpa only [LbhcState.step, hfetched] using hcoherent
    | some lbhc =>
      obtain ⟨stored, hstored, hfewer⟩ :=
        run_cleanHcBaseEpUpStatus updates hobj (hcoherent.fetched lbhc hfetched)
      simp only [LbhcState.step, hfetched]
      exact hcoherent.of_fewer hobj hstored hfewer (by simp)
  | deleteLbhcEpElemByOne svcName updates =>
    obtain ⟨stored, hstored, hfewer⟩ := run_deleteLbhcEpElemByOne svcName updates hobj
    exact hcoherent.of_fewer hobj hstored hfewer
      fun lbhc hlbhc => seen_run _ _ (hcoherent.fetched lbhc hlbhc)

/-- In a coherent state `noneEventOpt` misses nothing. -/
theorem Coherent.seesAll {s : LbhcState} (hcoherent : Coherent s) : NoneEventOptSeesAll s := by
  intro hloop hidle lbhc hlbhc
  rw [noneEventOpt_idle hloop, Bool.not_eq_true'] at hidle
  rw [← Bool.not_eq_true, DownEpList.anyDown_iff]
  rintro ⟨svc, ep, hentry⟩
  have hcached :=
    DownEpList.anyDown_iff.mpr ⟨svc, ep, hcoherent.cached hloop lbhc hlbhc svc ep hentry⟩
  rw [hidle] at hcached
  cases hcached

/-- An operation after which `noneEventOpt` misses nothing was safe. -/
theorem safe_of_seesAll {crd : Crd} {s : LbhcState} {op : LbhcOp} (hcoherent : Coherent s)
    (hsees : NoneEventOptSeesAll (s.step crd op)) : op.Safe s := by
  obtain ⟨current, hobj⟩ := hcoherent.stored
  cases op with
  | noneEventOpt updates =>
    intro hlater hdown
    obtain ⟨hloop, hup, hcase⟩ := run_noneEventOpt_later updates hobj hlater hdown
    rcases hcase with ⟨hversion, hpasses, -⟩ | ⟨-, -, hsame⟩
    · exact .inl ⟨⟨current, hobj, hversion⟩, hpasses⟩
    · refine .inr ?_
      have hloop' : 0 < (s.step crd (.noneEventOpt updates)).poller.globalSyncLoop :=
        hloop.symm ▸ hlater
      have hidle : (noneEventOpt (s.step crd (.noneEventOpt updates)).poller).idle = true := by
        rw [noneEventOpt_idle hloop', LbhcState.step, hup, anyDown_allUp]
        rfl
      have hnothing := hsees hloop' hidle
      intro lbhc hlbhc
      refine hnothing lbhc ?_
      rw [LbhcState.step, hsame]
      exact hlbhc
  | _ => trivial

/-- `noneEventOpt` never misses a down verdict in a run exactly when each of its updates
from the cache is accepted, or finds nothing down in the store. -/
theorem noneEventOpt_sees_all_iff (crd : Crd) (v : ℕ) (lbhc : Lbhc) (ops : List LbhcOp) :
    Runs.Throughout (LbhcState.step crd) NoneEventOptSeesAll (.start v lbhc) ops ↔
      Runs.Along (LbhcState.step crd) (fun s op => op.Safe s) (.start v lbhc) ops := by
  have hstart : Coherent (.start v lbhc) :=
    ⟨⟨_, rfl⟩, fun hloop => absurd hloop (Nat.lt_irrefl 0), by simp [LbhcState.start]⟩
  exact Runs.throughout_iff_along (fun _ _ => coherent_step) (fun _ => Coherent.seesAll)
    (fun _ _ => safe_of_seesAll) hstart

/-- An object with verdicts on two services. -/
def twoServicesDown : Lbhc where
  metadata := { name := "node1", nameSpace := "default" }
  downEpList := some (((∅ : Go.Map String EpStatus).insert "web_default"
    ((∅ : EpStatus).insert "10.0.0.1:80" false)).insert "dns_default"
    ((∅ : EpStatus).insert "10.0.0.2:53" false))

/-- A deletion moves the stored version, and the next `noneEventOpt` sends the cached one:
the endpoint of the remaining service stays down in the store and the cache forgets it. -/
theorem noneEventOpt_misses_down :
    ¬ Runs.Throughout (LbhcState.step ⟨"node1", "default"⟩) NoneEventOptSeesAll
      (.start 1 twoServicesDown)
      [.eventOpt { isLeader := true }
          { total := 2
            http := [⟨"web_default", "10.0.0.1:80", 0⟩, ⟨"dns_default", "10.0.0.2:53", 0⟩]
            stream := [] } (fun _ => .success),
        .deleteLbhcEpElemByOne "dns_default" (fun _ => .success),
        .noneEventOpt (fun _ => .success)] := by
  rintro ⟨-, -, -, hsees⟩
  exact absurd (hsees (by decide +kernel) (by decide +kernel)) (by decide +kernel)

end HealthCheck
