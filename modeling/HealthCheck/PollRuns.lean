import HealthCheck.PollEntries

/-!
# What a poll does to the stored object

A poll computes new verdicts from those of the stored or of the cached object, and sends
them. The lemmas of this file say what is stored and what is cached afterwards,
whatever becomes of the update.
-/

namespace HealthCheck

open Api Api.Client

/-- An update that is not accepted leaves the cache. -/
theorem run_sendAndCache_refused {faults : Faults} {lbhc : Lbhc} {n m : ℕ} {s : Server Lbhc}
    {reply : Sent Lbhc} (hreply : ∀ o, reply ≠ .accepted o)
    (hrun : run faults (retryOnConflict lbhc) n s = (reply, m, s)) (p : Poller) :
    run faults (sendAndCache lbhc p) n s = (p, m, s) := by
  rw [sendAndCache, run_bind, hrun]
  cases reply with
  | accepted o => exact absurd rfl (hreply o)
  | conflict => rfl
  | failed => rfl

/-- An update that is accepted leaves cache and store equal; one that is not leaves both. -/
theorem run_sendAndCache (faults : Faults) (lbhc : Lbhc) (p : Poller) (n : ℕ) {current : Lbhc}
    {s : Server Lbhc} (hobj : s.object = some current) :
    (lbhc.metadata.resourceVersion = current.metadata.resourceVersion ∧
      faults.passes n 5 = true ∧ ∃ stored m t, t.object = some stored ∧
        stored.downEpList = lbhc.downEpList ∧
        stored.metadata.labels = lbhc.metadata.labels ∧
        run faults (sendAndCache lbhc p) n s = ({ p with globalLbhc := stored }, m, t)) ∨
    (¬ (lbhc.metadata.resourceVersion = current.metadata.resourceVersion ∧
        faults.passes n 5 = true) ∧ ∃ m, run faults (sendAndCache lbhc p) n s = (p, m, s)) := by
  rcases run_retryOnConflict_lbhc faults lbhc n hobj with
    ⟨hversion, hpasses, stored, m, t, hstored, hlist, hlabels, hrun⟩ |
    ⟨hnot, reply, m, hreply, hrun⟩
  · refine .inl ⟨hversion, hpasses, stored, m, t, hstored, hlist, hlabels, ?_⟩
    rw [sendAndCache, run_bind, hrun]
    rfl
  · exact .inr ⟨hnot, m, run_sendAndCache_refused hreply hrun p⟩

/-- The object that `eventOpt` works on is stored, be it found or created. -/
theorem run_fetchOrCreate (crd : Crd) (updates : ℕ → Outcome) (s : Server Lbhc) :
    ∃ lbhc n t, run (.ofUpdates updates) (fetchOrCreate crd) 0 s = (lbhc, n, t) ∧
      t.object = some lbhc ∧ ((s.object = some lbhc ∧ t = s) ∨
        (s.object = none ∧ lbhc.downEpList = some ∅ ∧
          lbhc.metadata.labels = crd.newLbhc.metadata.labels)) := by
  rw [fetchOrCreate, run_fetch_bind]
  cases hobj : s.object with
  | some current =>
    refine ⟨current, 1, s, ?_, hobj, .inl ⟨rfl, rfl⟩⟩
    simp [Faults.ofUpdates, Server.get, hobj]
  | none =>
    refine ⟨Resource.stamp (s.clock + 1) crd.newLbhc, 2, (s.store crd.newLbhc).2, ?_, rfl,
      .inr ⟨rfl, rfl, rfl⟩⟩
    have hcreate : s.create crd.newLbhc = s.store crd.newLbhc := by simp [Server.create, hobj]
    have hpost : ∀ next : Sent Lbhc → Client Lbhc Lbhc,
        run (.ofUpdates updates) (post crd.newLbhc >>= next) 1 s =
          run (.ofUpdates updates) (next (s.create crd.newLbhc).1) 2 (s.create crd.newLbhc).2 :=
      fun _ => rfl
    simp only [Faults.ofUpdates, Server.get, hobj, if_true]
    exact (hpost _).trans (by rw [hcreate]; rfl)

/-- `eventOpt` for any way of computing and of comparing the verdicts. -/
def eventOptWith (crd : Crd) (compute : DownEpList → DownEpList)
    (unchanged : DownEpList → DownEpList → Bool) (p : Poller) : Client Lbhc Poller := do
  let lbhc ← fetchOrCreate crd
  let cached : Poller := { globalLbhc := lbhc, globalSyncLoop := p.globalSyncLoop + 1 }
  if unchanged (compute lbhc.downEpList) lbhc.downEpList then pure cached
  else sendAndCache { lbhc with downEpList := compute lbhc.downEpList } cached

theorem eventOpt_eq (crd : Crd) (o : Ownership) (servers : ServersNgxList) (p : Poller) :
    eventOpt crd o servers p = eventOptWith crd (eventDownEpList o servers) compareMaps p := rfl

/-- What `eventOpt` does: the object it works on stays stored and is cached, because the
verdicts are the same or the update fails, or the new verdicts are stored and cached. -/
theorem run_eventOptWith (crd : Crd) (compute : DownEpList → DownEpList)
    (unchanged : DownEpList → DownEpList → Bool) (p : Poller) (updates : ℕ → Outcome)
    (s : Server Lbhc) :
    ∃ lbhc n t, t.object = some lbhc ∧ ((s.object = some lbhc ∧ t = s) ∨
        (s.object = none ∧ lbhc.downEpList = some ∅ ∧
          lbhc.metadata.labels = crd.newLbhc.metadata.labels)) ∧
      let new := compute lbhc.downEpList
      let r := run (.ofUpdates updates) (eventOptWith crd compute unchanged p) 0 s
      r.1.globalSyncLoop = p.globalSyncLoop + 1 ∧ r.2.2.object = some r.1.globalLbhc ∧
        r.1.globalLbhc.metadata.labels = lbhc.metadata.labels ∧
        (((unchanged new lbhc.downEpList = true ∨ (Faults.ofUpdates updates).passes n 5 = false) ∧
            r.1.globalLbhc = lbhc ∧ r.2.2 = t) ∨
          (unchanged new lbhc.downEpList = false ∧ (Faults.ofUpdates updates).passes n 5 = true ∧
            r.1.globalLbhc.downEpList = new)) := by
  obtain ⟨lbhc, n, t, hfetch, hobj, hsame⟩ := run_fetchOrCreate crd updates s
  refine ⟨lbhc, n, t, hobj, hsame, ?_⟩
  rw [eventOptWith, run_bind, hfetch]
  dsimp only
  cases hcompare : unchanged (compute lbhc.downEpList) lbhc.downEpList with
  | true => exact ⟨rfl, hobj, rfl, .inl ⟨.inl rfl, rfl, rfl⟩⟩
  | false =>
    rw [if_neg (by simp)]
    rcases run_sendAndCache (.ofUpdates updates)
        { lbhc with downEpList := compute lbhc.downEpList }
        { globalLbhc := lbhc, globalSyncLoop := p.globalSyncLoop + 1 } n hobj with
      ⟨-, hpasses, stored, m, t', hstored, hlist, hlabels, hrun⟩ | ⟨hnot, m, hrun⟩
    · rw [hrun]
      exact ⟨rfl, hstored, hlabels, .inr ⟨rfl, hpasses, hlist⟩⟩
    · have hblocked : (Faults.ofUpdates updates).passes n 5 = false := by
        by_contra hpasses
        exact hnot ⟨rfl, by simpa using hpasses⟩
      rw [hrun]
      exact ⟨rfl, hobj, rfl, .inl ⟨.inr hblocked, rfl, rfl⟩⟩

theorem run_eventOpt (crd : Crd) (o : Ownership) (servers : ServersNgxList) (p : Poller)
    (updates : ℕ → Outcome) (s : Server Lbhc) :
    ∃ lbhc n t, t.object = some lbhc ∧ ((s.object = some lbhc ∧ t = s) ∨
        (s.object = none ∧ lbhc.downEpList = some ∅ ∧
          lbhc.metadata.labels = crd.newLbhc.metadata.labels)) ∧
      let new := eventDownEpList o servers lbhc.downEpList
      let r := run (.ofUpdates updates) (eventOpt crd o servers p) 0 s
      r.1.globalSyncLoop = p.globalSyncLoop + 1 ∧ r.2.2.object = some r.1.globalLbhc ∧
        r.1.globalLbhc.metadata.labels = lbhc.metadata.labels ∧
        (((compareMaps new lbhc.downEpList = true ∨ (Faults.ofUpdates updates).passes n 5 = false) ∧
            r.1.globalLbhc = lbhc ∧ r.2.2 = t) ∨
          (compareMaps new lbhc.downEpList = false ∧ (Faults.ofUpdates updates).passes n 5 = true ∧
            r.1.globalLbhc.downEpList = new)) := by
  rw [eventOpt_eq]
  exact run_eventOptWith crd (eventDownEpList o servers) compareMaps p updates s

/-- Nothing is down after everything was marked up. -/
@[simp]
theorem anyDown_allUp (l : DownEpList) : (allUp l).anyDown = false := by
  rw [← Bool.not_eq_true, DownEpList.anyDown_iff]
  rintro ⟨svc, ep, hentry⟩
  simp at hentry

/-- The first `noneEventOpt` caches the stored object. It marks everything up when there is
something to mark up and its update gets through. -/
theorem run_noneEventOpt_first {p : Poller} (updates : ℕ → Outcome) {current : Lbhc}
    {s : Server Lbhc} (hobj : s.object = some current) (hfirst : p.globalSyncLoop = 0) :
    let r := run (.ofUpdates updates) (noneEventOpt p) 0 s
    r.1.globalSyncLoop = 1 ∧ r.2.2.object = some r.1.globalLbhc ∧
      (((current.downEpList.anyDown = false ∨ (Faults.ofUpdates updates).passes 1 5 = false) ∧
          r.1.globalLbhc = current ∧ r.2.2 = s) ∨
        (current.downEpList.anyDown = true ∧ (Faults.ofUpdates updates).passes 1 5 = true ∧
          r.1.globalLbhc.downEpList = allUp current.downEpList)) := by
  rw [noneEventOpt, if_pos hfirst, run_fetch_ofUpdates, Server.get_eq, hobj]
  dsimp only [Fetch.ofOption]
  cases hdown : current.downEpList.anyDown with
  | false => exact ⟨rfl, hobj, .inl ⟨.inl rfl, rfl, rfl⟩⟩
  | true =>
    rw [if_pos rfl]
    rcases run_sendAndCache (.ofUpdates updates)
        { current with downEpList := allUp current.downEpList }
        { globalLbhc := current, globalSyncLoop := 1 } 1 hobj with
      ⟨-, hpasses, stored, m, t, hstored, hlist, -, hrun⟩ | ⟨hnot, m, hrun⟩
    · rw [hrun]
      exact ⟨rfl, hstored, .inr ⟨rfl, hpasses, hlist⟩⟩
    · have hblocked : (Faults.ofUpdates updates).passes 1 5 = false := by
        by_contra hpasses
        exact hnot ⟨rfl, by simpa using hpasses⟩
      rw [hrun]
      exact ⟨rfl, hobj, .inl ⟨.inr hblocked, rfl, rfl⟩⟩

/-- Without an object the first `noneEventOpt` gives up. -/
theorem run_noneEventOpt_absent {p : Poller} (updates : ℕ → Outcome) {s : Server Lbhc}
    (hobj : s.object = none) (hfirst : p.globalSyncLoop = 0) :
    run (.ofUpdates updates) (noneEventOpt p) 0 s = (p, 1, s) := by
  rw [noneEventOpt, if_pos hfirst, run_fetch_bind]
  simp [Faults.ofUpdates, Server.get, hobj]

/-- Without an object `noneEventOpt` stores nothing, for an update creates none. -/
theorem noneEventOpt_absent {p : Poller} {s : Server Lbhc} (hobj : s.object = none) :
    (alone (noneEventOpt p) s).2 = s := by
  by_cases hfirst : p.globalSyncLoop = 0
  · have hrun := run_noneEventOpt_absent (fun _ => .success) hobj hfirst
    exact congrArg (fun r => r.2.2) hrun
  · rw [noneEventOpt, if_neg hfirst]
    split
    · have hrefused := Server.update_refused_of_missing rfl hobj
      obtain ⟨reply, m, hreply, hrun⟩ : ∃ reply m, (∀ o, reply ≠ .accepted o) ∧ run .none
          (retryUpdate { p.globalLbhc with downEpList := allUp p.globalLbhc.downEpList } 5) 0 s =
            (reply, m, s) :=
        run_retryUpdate_refused (.inl (hrefused _))
      exact congrArg (fun r => r.2.2) (run_sendAndCache_refused hreply hrun _)
    · rfl

/-- A later `noneEventOpt` issues no update exactly when nothing is down in the cache. -/
theorem noneEventOpt_idle {p : Poller} (hlater : 0 < p.globalSyncLoop) :
    (noneEventOpt p).idle = !p.globalLbhc.downEpList.anyDown := by
  rw [noneEventOpt, if_neg (by omega)]
  cases p.globalLbhc.downEpList.anyDown with
  | false => rfl
  | true => rfl

/-- A later `noneEventOpt` that finds nothing down in the cache does nothing. -/
theorem noneEventOpt_of_up {p : Poller} (hlater : 0 < p.globalSyncLoop)
    (hup : p.globalLbhc.downEpList.anyDown = false) : noneEventOpt p = pure p := by
  rw [noneEventOpt, if_neg (by omega), if_neg (by simp [hup])]

/-- A later `noneEventOpt` that finds something down in the cache marks the cache up. Its
update, accepted, leaves cache and store equal; refused, it leaves the store alone. -/
theorem run_noneEventOpt_later {p : Poller} (updates : ℕ → Outcome) {current : Lbhc}
    {s : Server Lbhc} (hobj : s.object = some current) (hlater : 0 < p.globalSyncLoop)
    (hdown : p.globalLbhc.downEpList.anyDown = true) :
    let r := run (.ofUpdates updates) (noneEventOpt p) 0 s
    r.1.globalSyncLoop = p.globalSyncLoop ∧
      r.1.globalLbhc.downEpList = allUp p.globalLbhc.downEpList ∧
      ((p.globalLbhc.metadata.resourceVersion = current.metadata.resourceVersion ∧
          (Faults.ofUpdates updates).passes 0 5 = true ∧ r.2.2.object = some r.1.globalLbhc) ∨
        (¬ (p.globalLbhc.metadata.resourceVersion = current.metadata.resourceVersion ∧
          (Faults.ofUpdates updates).passes 0 5 = true) ∧
          r.1.globalLbhc.metadata = p.globalLbhc.metadata ∧ r.2.2 = s)) := by
  rw [noneEventOpt, if_neg (by omega), if_pos hdown]
  dsimp only
  rcases run_sendAndCache (.ofUpdates updates)
      { p.globalLbhc with downEpList := allUp p.globalLbhc.downEpList }
      { p with globalLbhc := { p.globalLbhc with
        downEpList := allUp p.globalLbhc.downEpList } } 0 hobj with
    ⟨hversion, hpasses, stored, m, t, hstored, hlist, -, hrun⟩ | ⟨hnot, m, hrun⟩
  · rw [hrun]
    exact ⟨rfl, hlist, .inl ⟨hversion, hpasses, hstored⟩⟩
  · rw [hrun]
    exact ⟨rfl, rfl, .inr ⟨hnot, rfl, rfl⟩⟩

/-- A poll without reported peers leaves every verdict of the cache up, whatever becomes of its
update. -/
theorem run_noneEventOpt_cache {p : Poller} (hlater : 0 < p.globalSyncLoop) (faults : Faults)
    (s : Server Lbhc) :
    let r := run faults (noneEventOpt p) 0 s
    r.1.globalSyncLoop = p.globalSyncLoop ∧ ∀ svc ep, r.1.globalLbhc.downEpList.entry svc ep =
      (p.globalLbhc.downEpList.entry svc ep).map fun _ => true := by
  cases hdown : p.globalLbhc.downEpList.anyDown with
  | false =>
    rw [noneEventOpt_of_up hlater hdown, run_pure]
    refine ⟨rfl, fun svc ep => ?_⟩
    rw [← Bool.not_eq_true, DownEpList.anyDown_iff] at hdown
    cases hentry : p.globalLbhc.downEpList.entry svc ep with
    | none => rfl
    | some status =>
      cases status with
      | true => rfl
      | false => exact absurd ⟨svc, ep, hentry⟩ hdown
  | true =>
    rw [noneEventOpt, if_neg (by omega), if_pos hdown]
    simp only [← entry_allUp]
    cases hobj : s.object with
    | none =>
      have hrefused := Server.update_refused_of_missing rfl hobj
      obtain ⟨reply, m, hreply, hrun⟩ : ∃ reply m, (∀ o, reply ≠ .accepted o) ∧ run faults
          (retryUpdate { p.globalLbhc with downEpList := allUp p.globalLbhc.downEpList } 5) 0 s =
            (reply, m, s) :=
        run_retryUpdate_refused (.inl (hrefused _))
      rw [run_sendAndCache_refused hreply hrun]
      exact ⟨rfl, fun _ _ => rfl⟩
    | some current =>
      rcases run_sendAndCache faults
          { p.globalLbhc with downEpList := allUp p.globalLbhc.downEpList }
          { p with globalLbhc := { p.globalLbhc with
            downEpList := allUp p.globalLbhc.downEpList } } 0 hobj with
        ⟨-, -, stored, m, t, -, hlist, -, hrun⟩ | ⟨-, m, hrun⟩
      · rw [hrun]
        exact ⟨rfl, fun svc ep => by rw [hlist]⟩
      · rw [hrun]
        exact ⟨rfl, fun _ _ => rfl⟩

end HealthCheck
