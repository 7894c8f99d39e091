import HealthCheck.Nginx.Peers
import HealthCheck.PollRuns

/-!
# Verdicts and hysteresis

Probes change the state that nginx keeps of a peer, and polls copy that state into the
verdicts. This file follows one peer through an arbitrary sequence of probes and polls. A
poll leaves the verdict down exactly when nginx holds the peer down and the last probe
failed: a peer that is down but rising is skipped by the loop that marks peers down and
is then taken for recovered by the loop that follows.
-/

namespace HealthCheck

open Api Api.Client Nginx

/-- A peer that starts up, and whose name is the name of no other peer. -/
structure WatchedPeer where
  peers : Peers
  zone : Zone
  index : ℕ
  peer : Peer
  present : peers.at? zone index = some peer
  fresh : peer.shm = {}
  unique : ∀ zone' index' other, peers.at? zone' index' = some other →
    other.name = peer.name → zone' = zone ∧ index' = index

/-- The state of nginx, of the polling goroutine and of the stored object. -/
structure PollState where
  peers : Peers
  poller : Poller
  server : Server Lbhc

/-- A probe of some peer comes back, or the controller polls. -/
inductive PollOp where
  | probe (zone : Zone) (index : ℕ) (result : Bool)
  | poll (o : Ownership)

/-- The listed peers. -/
def PollState.downs (s : PollState) : List HcNgxDetail :=
  s.peers.listing.http ++ s.peers.listing.stream

/-- One event; the API calls of a poll succeed. -/
def PollState.step (crd : Crd) (s : PollState) : PollOp → PollState
  | .probe zone index result => { s with peers := s.peers.probe zone index result }
  | .poll o =>
    let r := run .none (syncHealthCheck crd o s.peers.listing s.poller) 0 s.server
    { s with poller := r.1, server := r.2.2 }

/-- Without faults `noneEventOpt` keeps the cache equal to the stored object and leaves
nothing down. -/
theorem cached_noneEventOpt {p : Poller} {s : Server Lbhc}
    (hcached : 0 < p.globalSyncLoop → s.object = some p.globalLbhc) :
    let r := run .none (noneEventOpt p) 0 s
    (0 < r.1.globalSyncLoop → r.2.2.object = some r.1.globalLbhc) ∧
      ∀ lbhc ∈ r.2.2.object, lbhc.downEpList.anyDown = false := by
  have hstoredUp : ∀ {t : Server Lbhc} {cached : Lbhc}, t.object = some cached →
      cached.downEpList.anyDown = false → ∀ lbhc ∈ t.object, lbhc.downEpList.anyDown = false := by
    rintro t cached hstored hup lbhc hlbhc
    rw [hstored] at hlbhc
    cases hlbhc
    exact hup
  rcases Nat.eq_zero_or_pos p.globalSyncLoop with hfirst | hlater
  · cases hobj : s.object with
    | none =>
      have hrun : run .none (noneEventOpt p) 0 s = (p, 1, s) :=
        run_noneEventOpt_absent (fun _ => .success) hobj hfirst
      rw [hrun]
      exact ⟨hcached, by simp [hobj]⟩
    | some current =>
      obtain ⟨-, hstored, hcase⟩ := run_noneEventOpt_first (fun _ => .success) hobj hfirst
      refine ⟨fun _ => hstored, hstoredUp hstored ?_⟩
      rcases hcase with ⟨hup | hblocked, hsame, -⟩ | ⟨-, -, hlist⟩
      · rw [hsame, hup]
      · simp [Faults.passes, Faults.ofUpdates] at hblocked
      · rw [hlist, anyDown_allUp]
  · have hobj := hcached hlater
    cases hdown : p.globalLbhc.downEpList.anyDown with
    | false =>
      rw [noneEventOpt_of_up hlater hdown, run_pure]
      exact ⟨hcached, hstoredUp hobj hdown⟩
    | true =>
      obtain ⟨-, hlist, hcase⟩ := run_noneEventOpt_later (fun _ => .success) hobj hlater hdown
      rcases hcase with ⟨-, -, hstored⟩ | ⟨hnot, -⟩
      · exact ⟨fun _ => hstored, hstoredUp hstored (by rw [hlist, anyDown_allUp])⟩
      · exact absurd ⟨rfl, rfl⟩ hnot

/-- Without faults the verdicts on owned services after `eventOpt` are the computed ones,
stored or not. -/
theorem entry_run_eventOpt (crd : Crd) {o : Ownership} (servers : ServersNgxList) (p : Poller)
    (s : Server Lbhc) {svc : String} (howns : o.owns svc = true) (ep : String) :
    ∃ lbhc stored : Lbhc, (run .none (eventOpt crd o servers p) 0 s).2.2.object = some stored ∧
      stored.downEpList.entry svc ep =
        (eventDownEpList o servers lbhc.downEpList).entry svc ep := by
  obtain ⟨lbhc, n, t, hobj, -, -, hstored, -, hcase⟩ :=
    run_eventOpt crd o servers p (fun _ => .success) s
  refine ⟨lbhc, _, hstored, ?_⟩
  rcases hcase with ⟨hcompare | hblocked, hsame, -⟩ | ⟨-, -, hlist⟩
  · rw [hsame]
    cases hentry : (eventDownEpList o servers lbhc.downEpList).entry svc ep with
    | some status => exact entry_of_compareMaps hcompare hentry
    | none =>
      rw [entry_eventDownEpList, eventVerdict] at hentry
      simp only [howns, Bool.true_eq_false, false_and, if_false, true_and] at hentry
      split at hentry
      · cases hentry
      · split at hentry
        · exact hentry
        · exact Option.map_eq_none_iff.mp hentry
  · simp [Faults.passes, Faults.ofUpdates] at hblocked
  · rw [hlist]

/-- A poll keeps the cache equal to the stored object. -/
theorem cached_poll {crd : Crd} {o : Ownership} {s : PollState}
    (hcached : 0 < s.poller.globalSyncLoop → s.server.object = some s.poller.globalLbhc) :
    0 < (s.step crd (.poll o)).poller.globalSyncLoop →
      (s.step crd (.poll o)).server.object = some (s.step crd (.poll o)).poller.globalLbhc := by
  unfold PollState.step syncHealthCheck
  dsimp only
  split
  · obtain ⟨-, -, -, -, -, -, hstored, -, -⟩ :=
      run_eventOpt crd o s.peers.listing s.poller (fun _ => .success) s.server
    exact fun _ => hstored
  · split
    · exact (cached_noneEventOpt hcached).1
    · exact hcached

namespace WatchedPeer

variable (w : WatchedPeer) (crd : Crd) (server : Server Lbhc)

/-- The state after a sequence of events, from the start of the controller on. -/
def after (ops : List PollOp) : PollState :=
  ops.foldl (PollState.step crd) { peers := w.peers, poller := {}, server := server }

/-- The outcomes of the probes of the watched peer. -/
def history (ops : List PollOp) : List Bool :=
  ops.filterMap fun
    | .probe zone index result => if zone = w.zone ∧ index = w.index then some result else none
    | .poll _ => none

/-- nginx holds the watched peer down. -/
def isDown (s : PollState) : Bool :=
  (s.peers.at? w.zone w.index).any fun peer => peer.shm.down

/-- nginx holds the watched peer down although its last probe succeeded. -/
def isRising (s : PollState) : Bool :=
  (s.peers.at? w.zone w.index).any fun peer => peer.shm.down && 0 < peer.shm.riseCount

/-- The stored verdict on the watched peer. -/
def verdict (s : PollState) : Option Bool :=
  s.server.object.bind fun lbhc => lbhc.downEpList.entry w.peer.upstreamName w.peer.name

/-- The verdict is down if and only if nginx holds the peer down. -/
def Follows (s : PollState) : Prop := w.verdict s = some false ↔ w.isDown s = true

variable {w crd server}

theorem after_concat (ops : List PollOp) (op : PollOp) :
    w.after crd server (ops ++ [op]) = (w.after crd server ops).step crd op := by
  simp [after]

/-- The watched peer has gone through its history. -/
theorem at?_after (ops : List PollOp) :
    (w.after crd server ops).peers.at? w.zone w.index = some (w.peer.after (w.history ops)) := by
  induction ops using List.reverseRecOn with
  | nil => exact w.present
  | append_singleton ops op ih =>
    rw [after_concat, history, List.filterMap_append, ← history]
    cases op with
    | poll o => simpa [PollState.step] using ih
    | probe zone index result =>
      rw [PollState.step, Peers.at?_probe, ih]
      by_cases hplace : zone = w.zone ∧ index = w.index
      · obtain ⟨rfl, rfl⟩ := hplace
        simp
      · have hplace' : ¬ (w.zone = zone ∧ w.index = index) :=
          fun h => hplace ⟨h.1.symm, h.2.symm⟩
        simp [hplace, hplace']

/-- No other peer ever has the name of the watched one. -/
theorem unique_after (ops : List PollOp) {zone : Zone} {index : ℕ} {other : Peer}
    (hother : (w.after crd server ops).peers.at? zone index = some other)
    (hname : other.name = w.peer.name) : zone = w.zone ∧ index = w.index := by
  induction ops using List.reverseRecOn generalizing other with
  | nil => exact w.unique zone index other hother hname
  | append_singleton ops op ih =>
    rw [after_concat] at hother
    cases op with
    | poll o => exact ih hother hname
    | probe zone' index' result =>
      rw [PollState.step, Peers.at?_probe] at hother
      split at hother
      · obtain ⟨old, hold, rfl⟩ := Option.map_eq_some_iff.mp hother
        exact ih hold (by rw [← hname]; exact ((Peer.after_config old [result]).2.1).symm)
      · exact ih hother hname

/-- The listed peers with the name of the watched peer: itself, when it is down. -/
theorem listed_name_iff (ops : List PollOp) {d : HcNgxDetail} :
    (d ∈ (w.after crd server ops).downs ∧ d.name = w.peer.name) ↔
      w.isDown (w.after crd server ops) = true ∧ d =
        { upstream := w.peer.upstreamName
          name := w.peer.name
          rise := (w.peer.after (w.history ops)).shm.riseCount } := by
  obtain ⟨hupstream, hname, -, -⟩ := w.peer.after_config (w.history ops)
  have hat : (w.after crd server ops).peers.at? w.zone w.index =
      some (w.peer.after (w.history ops)) := at?_after ops
  rw [PollState.downs, Peers.mem_listing, isDown, hat]
  constructor
  · rintro ⟨⟨zone, index, peer, hpeer, hdown, rfl⟩, hpeerName⟩
    obtain ⟨rfl, rfl⟩ := unique_after ops hpeer hpeerName
    rw [hat, Option.some.injEq] at hpeer
    subst hpeer
    exact ⟨by simpa using hdown, by rw [hupstream, hname]⟩
  · rintro ⟨hdown, rfl⟩
    exact ⟨⟨w.zone, w.index, _, hat, by simpa using hdown, by rw [hupstream, hname]⟩, rfl⟩

/-- The watched peer is reported and not rising exactly when nginx holds it down and its
last probe failed. -/
theorem reported_iff (ops : List PollOp) :
    Reported (w.after crd server ops).downs w.peer.upstreamName w.peer.name ↔
      w.isDown (w.after crd server ops) = true ∧
        w.isRising (w.after crd server ops) = false := by
  have hat : (w.after crd server ops).peers.at? w.zone w.index =
      some (w.peer.after (w.history ops)) := at?_after ops
  have hrising : ∀ s : PollState, s.peers.at? w.zone w.index =
      some (w.peer.after (w.history ops)) → w.isDown s = true →
      (w.isRising s = false ↔ (w.peer.after (w.history ops)).shm.riseCount = 0) := by
    intro s hs hdown
    rw [isDown, hs, Option.any_some] at hdown
    simp [isRising, hs, hdown]
  constructor
  · rintro ⟨d, hmem, -, hname, hrise⟩
    obtain ⟨hdown, rfl⟩ := (listed_name_iff ops).mp ⟨hmem, hname⟩
    refine ⟨hdown, (hrising _ hat hdown).mpr ?_⟩
    simpa using hrise
  · rintro ⟨hdown, hnot⟩
    obtain ⟨hmem, hname⟩ := (listed_name_iff ops).mpr ⟨hdown, rfl⟩
    refine ⟨_, hmem, rfl, hname, ?_⟩
    simp [(hrising _ hat hdown).mp hnot]

/-- Of an owned service, the name of the watched peer is recorded exactly when the peer is
reported and not rising. -/
theorem recorded_iff (ops : List PollOp) {o : Ownership}
    (howns : o.owns w.peer.upstreamName = true) :
    Recorded o (w.after crd server ops).downs w.peer.name ↔
      Reported (w.after crd server ops).downs w.peer.upstreamName w.peer.name := by
  constructor
  · rintro ⟨d, hmem, hname, hskip⟩
    obtain ⟨-, hd⟩ := (listed_name_iff ops).mp ⟨hmem, hname⟩
    have hupstream : d.upstream = w.peer.upstreamName := by rw [hd]
    rw [hupstream, howns] at hskip
    exact ⟨d, hmem, hupstream, hname, hskip.resolve_left (by simp)⟩
  · rintro ⟨d, hmem, -, hname, hrise⟩
    exact ⟨d, hmem, hname, .inr hrise⟩

/-- After the first poll the cache is the stored object, because only polls write it. -/
theorem cached_after (ops : List PollOp) :
    0 < (w.after crd server ops).poller.globalSyncLoop →
      (w.after crd server ops).server.object =
        some (w.after crd server ops).poller.globalLbhc := by
  induction ops using List.reverseRecOn with
  | nil => exact fun h => absurd h (Nat.lt_irrefl 0)
  | append_singleton ops op ih =>
    rw [after_concat]
    cases op with
    | probe zone index result => exact ih
    | poll o => exact cached_poll ih

/-- The verdict after a poll of an owned service. -/
theorem verdict_poll (ops : List PollOp) {o : Ownership}
    (howns : o.owns w.peer.upstreamName = true) :
    w.verdict (w.after crd server (ops ++ [.poll o])) = some false ↔
      w.isDown (w.after crd server ops) = true ∧ w.isRising (w.after crd server ops) = false := by
  rw [← reported_iff, after_concat, verdict, PollState.step, syncHealthCheck]
  dsimp only
  split
  · next htotal =>
    obtain ⟨lbhc, stored, hstored, hentry⟩ := entry_run_eventOpt crd
      (w.after crd server ops).peers.listing (w.after crd server ops).poller
      (w.after crd server ops).server howns w.peer.name
    have hrecorded : Recorded o (w.after crd server ops).downs w.peer.name ↔
        Reported (w.after crd server ops).downs w.peer.upstreamName w.peer.name :=
      recorded_iff ops howns
    rw [PollState.downs] at hrecorded ⊢
    rw [hstored, Option.bind_some, hentry, entry_eventDownEpList, eventVerdict]
    simp only [howns, Bool.true_eq_false, false_and, if_false, true_and, hrecorded]
    split
    · next h => simp [h]
    · next h => simp [h]
  · next htotal =>
    have hzero : (w.after crd server ops).peers.listing.total = 0 := by
      have := (w.after crd server ops).peers.total_nonneg
      omega
    have hnil : (w.after crd server ops).downs = [] := (Peers.total_eq_zero_iff _).mp hzero
    have hup := (cached_noneEventOpt (p := (w.after crd server ops).poller)
      (cached_after ops)).2
    rw [if_pos hzero, hnil]
    refine iff_of_false ?_ (by simp [Reported])
    intro hverdict
    obtain ⟨lbhc, hlbhc, hentry⟩ := Option.bind_eq_some_iff.mp hverdict
    have hany := DownEpList.anyDown_iff.mpr ⟨_, _, hentry⟩
    rw [hup lbhc hlbhc] at hany
    cases hany

/-- The history of a longer sequence. -/
theorem history_append (first second : List PollOp) :
    w.history (first ++ second) = w.history first ++ w.history second := List.filterMap_append

/-- nginx's flag on the watched peer. -/
theorem isDown_after (ops : List PollOp) :
    w.isDown (w.after crd server ops) = (w.peer.after (w.history ops)).shm.down := by
  rw [isDown, at?_after, Option.any_some]

/-- A change of nginx's flag between two times comes with a row of outcomes. -/
theorem row_of_isDown_ne {first second : List PollOp} {down : Bool}
    (hfirst : w.isDown (w.after crd server first) = down)
    (hsecond : w.isDown (w.after crd server (first ++ second)) ≠ down) :
    ∃ results, results ≠ [] ∧ results <+: w.history second ∧
      List.replicate (w.peer.threshold down) down <:+ w.history first ++ results := by
  rw [isDown_after] at hfirst hsecond
  rw [history_append] at hsecond
  exact Peer.row_of_down_ne (by rw [w.fresh]) (by rw [w.fresh]) hfirst hsecond

/-- After a poll of an owned service the verdict follows nginx exactly when the peer is not
rising at the poll. Between two polls at which it is not rising, the verdict ceases to be
down only after `rise` successes in a row, and becomes down only after `fall` failures in a
row, the last of them after the first poll. -/
theorem verdict_follows_nginx_iff (w : WatchedPeer) (crd : Crd) (server : Server Lbhc) :
    (∀ ops o, o.owns w.peer.upstreamName = true →
      (w.Follows (w.after crd server (ops ++ [.poll o])) ↔
        w.isRising (w.after crd server ops) = false)) ∧
    ∀ first o second o', o.owns w.peer.upstreamName = true →
      o'.owns w.peer.upstreamName = true → w.isRising (w.after crd server first) = false →
      w.isRising (w.after crd server (first ++ [.poll o] ++ second)) = false →
      (w.verdict (w.after crd server (first ++ [.poll o])) = some false →
        w.verdict (w.after crd server (first ++ [.poll o] ++ second ++ [.poll o'])) ≠ some false →
        ∃ results, results ≠ [] ∧ results <+: w.history second ∧
          List.replicate w.peer.rise true <:+ w.history first ++ results) ∧
      (w.verdict (w.after crd server (first ++ [.poll o])) ≠ some false →
        w.verdict (w.after crd server (first ++ [.poll o] ++ second ++ [.poll o'])) = some false →
        ∃ results, results ≠ [] ∧ results <+: w.history second ∧
          List.replicate w.peer.fall false <:+ w.history first ++ results) := by
  have hpolled : ∀ ops o, w.isDown (w.after crd server (ops ++ [.poll o])) =
      w.isDown (w.after crd server ops) := by
    intro ops o
    rw [isDown_after, isDown_after, history_append]
    simp [history]
  have hhistory : ∀ first o second, w.history (first ++ [.poll o] ++ second) =
      w.history (first ++ second) := by
    intro first o second
    simp [history]
  refine ⟨fun ops o howns => ?_, fun first o second o' howns howns' hfirst hsecond => ?_⟩
  · rw [Follows, verdict_poll ops howns, hpolled]
    cases hrising : w.isRising (w.after crd server ops) with
    | false => simp
    | true =>
      have hdown : w.isDown (w.after crd server ops) = true := by
        rw [isRising, at?_after] at hrising
        rw [isDown_after]
        simp only [Option.any_some, Bool.and_eq_true] at hrising
        exact hrising.1
      simp [hdown]
  · have hbefore : w.verdict (w.after crd server (first ++ [.poll o])) = some false ↔
        w.isDown (w.after crd server first) = true := by
      simp [verdict_poll first howns, hfirst]
    have hafter : w.verdict (w.after crd server (first ++ [.poll o] ++ second ++ [.poll o'])) =
        some false ↔ w.isDown (w.after crd server (first ++ second)) = true := by
      rw [verdict_poll _ howns', hsecond, isDown_after, isDown_after, hhistory]
      simp
    rw [ne_eq, ne_eq, hbefore, hafter]
    refine ⟨fun hdown hup => row_of_isDown_ne hdown hup, fun hup hdown => ?_⟩
    have hne : w.isDown (w.after crd server (first ++ second)) ≠ false := by simp [hdown]
    exact row_of_isDown_ne (by simpa using hup) hne

/-- The only peer of nginx, which needs three successes to rise and two failures to fall. -/
def single : WatchedPeer where
  peers := ⟨fun
    | .http => [{ upstreamName := "web_default", name := "10.0.0.1:80", rise := 3, fall := 2 }]
    | .stream => []⟩
  zone := .http
  index := 0
  peer := { upstreamName := "web_default", name := "10.0.0.1:80", rise := 3, fall := 2 }
  present := rfl
  fresh := rfl
  unique := by
    rintro (_ | _) (_ | index) other hother -
    · exact ⟨rfl, rfl⟩
    all_goals simp [Peers.at?] at hother

/-- A server on which the node's object does not exist yet. -/
def emptyServer : Server Lbhc := .absent

/-- After two failures the verdict follows nginx. -/
theorem verdict_follows_single :
    single.Follows (single.after ⟨"node1", "default"⟩ emptyServer
      ([.probe .http 0 false, .probe .http 0 false] ++ [.poll { isLeader := true }])) :=
  ((verdict_follows_nginx_iff single ⟨"node1", "default"⟩ emptyServer).1 _ _
    (by decide +kernel)).mpr (by decide +kernel)

/-- One success is enough: nginx still holds the peer down, and the poll marks it up. -/
theorem verdict_ignores_rise :
    ¬ single.Follows (single.after ⟨"node1", "default"⟩ emptyServer
      [.probe .http 0 false, .probe .http 0 false, .poll { isLeader := true },
        .probe .http 0 true, .poll { isLeader := true }]) := by
  intro hfollows
  have hdown := hfollows.mpr (by decide +kernel)
  revert hdown
  decide +kernel

end WatchedPeer

end HealthCheck
