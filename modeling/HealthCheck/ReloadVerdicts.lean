import HealthCheck.Hysteresis
import HealthCheck.Nginx.Inheritance
import HealthCheck.Restarts

/-!
# Verdicts that nginx forgets

The controller knows of a peer what nginx lists. When a load of the configuration fails, nginx goes
on as before. With the next load that succeeds, every peer starts anew, as down if its `check`
directive leaves `default_down` as it is, and the next poll records it as down, whatever the checks
had found. The same happens when the master dies and a poll without an answer starts another one.
-/

namespace HealthCheck

open Api Api.Client Nginx

namespace Nginx.Master

variable {Pid Addr : Type} [DecidableEq Addr] {hash : String → UInt32} {z : Zone}
  {block : CheckBlock Addr}

/-- The peers of a module after a load that succeeds, and that inherits nothing. -/
theorem peers_run_of_counted (before : List (MasterEvent Pid Addr)) {installing next : Load Addr}
    (hinstalling : installing.succeeds = true) {events : List (MasterEvent Pid Addr)}
    (hevents : ∀ event ∈ events, event.commits = false)
    (hcounted : ∃ event ∈ events, event.counted z = true) (hnext : next.succeeds = true)
    (hblock : next.blocks z = some block) :
    (run hash (before ++ .load installing :: events ++ [.load next])).peers.zone z =
      block.peers.map fun peer => peer.checked peer.initial.counts := by
  have hany : events.any (MasterEvent.counted z) = true := List.any_eq_true.mpr hcounted
  have hrecords := ModuleCycle.records_reload (c := ModuleCycle.run z before) hinstalling hevents
    hnext hblock
  have hmodule : ModuleCycle.run z (before ++ .load installing :: events ++ [.load next]) =
      (events.foldl (ModuleCycle.step z)
        ((ModuleCycle.run z before).step z (.load installing))).step
        z (.load next) := by
    rw [ModuleCycle.run_append, ModuleCycle.run_append]
    rfl
  rw [hany] at hrecords
  rw [peers_run, hmodule]
  rw [ModuleCycle.step_load_of_some hblock, hnext] at hrecords ⊢
  change List.zipWith _ block.peers (ModuleCycle.load z _ block true).records = _
  rw [hrecords, List.zipWith_map_right, List.zipWith_self]
  rfl

/-- The peers of a module after the first load. -/
theorem peers_initCycle_start {load : Load Addr} (hload : load.succeeds = true)
    (hblock : load.blocks z = some block) :
    ((start : Master Pid Addr).initCycle hash load).peers.zone z =
      block.peers.map fun peer => peer.checked peer.initial.counts := by
  have hmodule : ModuleCycle.run z [(.load load : MasterEvent Pid Addr)] =
      ModuleCycle.start.load z block true := by
    rw [← hload]
    exact ModuleCycle.step_load_of_some hblock
  have hnone : ∀ peer : ConfPeer Addr,
      findShmPeer z ([] : List (PeerRecord Pid Addr)) peer = none := by
    intro peer
    cases z <;> rfl
  change (run hash [.load load]).peers.zone z = _
  rw [peers_run, hmodule]
  change List.zipWith _ block.peers (block.peers.map fun peer =>
    initShmPeer z peer (findShmPeer z ModuleCycle.start.inherited peer)) = _
  rw [List.zipWith_map_right, List.zipWith_self]
  refine List.map_congr_left fun peer _ => ?_
  change peer.checked (initShmPeer z peer (findShmPeer z [] peer)).state.counts = _
  rw [hnone]
  rfl

end Nginx.Master

/-- A poll while every peer of a module is as new. -/
theorem entry_poll_of_initial {Pid Addr : Type} {m : Master Pid Addr} {z : Zone}
    {block : CheckBlock Addr}
    (hzone : m.peers.zone z = block.peers.map fun peer => peer.checked peer.initial.counts)
    {peer : ConfPeer Addr} (hpeer : peer ∈ block.peers) (hdown : peer.conf.defaultDown = true)
    (crd : Crd) {o : Ownership} (howns : o.owns peer.upstreamName = true) (p : Poller)
    (s : Server Lbhc) :
    ∃ stored : Lbhc, (run .none (syncHealthCheck crd o m.peers.listing p) 0 s).2.2.object =
        some stored ∧ stored.downEpList.entry peer.upstreamName peer.name = some false := by
  have hlisted : Reported (m.peers.listing.http ++ m.peers.listing.stream) peer.upstreamName
      peer.name := by
    obtain ⟨index, hindex⟩ := List.mem_iff_getElem?.mp hpeer
    refine ⟨_, Peers.mem_listing.mpr ⟨z, index, peer.checked peer.initial.counts, ?_, hdown, rfl⟩,
      rfl, rfl, Int.le_refl 0⟩
    rw [Peers.at?, hzone, List.getElem?_map, hindex]
    rfl
  have htotal : 0 < m.peers.listing.total := by
    obtain ⟨d, hd, -⟩ := hlisted
    refine lt_of_le_of_ne m.peers.total_nonneg fun hzero => ?_
    rw [m.peers.total_eq_zero_iff.mp hzero.symm] at hd
    cases hd
  rw [syncHealthCheck, if_pos htotal]
  obtain ⟨lbhc, stored, hstored, hentry⟩ :=
    entry_run_eventOpt crd m.peers.listing p s howns peer.name
  refine ⟨stored, hstored, hentry.trans ?_⟩
  rw [entry_eventDownEpList, eventVerdict, if_neg (by simp [howns]), if_pos ⟨howns, hlisted⟩]

/-- After a load that fails, the next load that succeeds makes the next poll record as down every
peer of the node whose `default_down` is set: the verdict on it does not depend on what the checks
have found, nor on what was recorded before. -/
theorem poll_after_failed_load {Pid Addr : Type} [DecidableEq Addr] (hash : String → UInt32)
    {z : Zone} (before : List (MasterEvent Pid Addr)) {installing next : Load Addr}
    (hinstalling : installing.succeeds = true) {events : List (MasterEvent Pid Addr)}
    (hevents : ∀ event ∈ events, event.commits = false)
    (hcounted : ∃ event ∈ events, event.counted z = true) (hnext : next.succeeds = true)
    {block : CheckBlock Addr} (hblock : next.blocks z = some block) {peer : ConfPeer Addr}
    (hpeer : peer ∈ block.peers) (hdown : peer.conf.defaultDown = true) (crd : Crd) {o : Ownership}
    (howns : o.owns peer.upstreamName = true) (p : Poller) (s : Server Lbhc) :
    ∃ stored : Lbhc, (run .none (syncHealthCheck crd o
        (Master.run hash (before ++ .load installing :: events ++ [.load next])).peers.listing p)
        0 s).2.2.object = some stored ∧
      stored.downEpList.entry peer.upstreamName peer.name = some false := by
  exact entry_poll_of_initial
    (Master.peers_run_of_counted before hinstalling hevents hcounted hnext hblock) hpeer hdown crd
    howns p s

/-- Two checks have succeeded, so that the server is up, and then a load fails. -/
theorem sharedServer_recorded_down :
    ∃ stored : Lbhc, (run .none (syncHealthCheck ⟨"node1", "default"⟩ { isLeader := true }
        (Master.run (fun _ => 0) ([] ++ (.load Master.sharedServer : MasterEvent ℕ ℕ) ::
          [.check .http 0 true 5, .check .http 0 true 9, .load Master.unopened] ++
          [.load Master.sharedServer])).peers.listing {}) 0 WatchedPeer.emptyServer).2.2.object =
        some stored ∧
      stored.downEpList.entry "web" "10.0.0.7:80" = some false :=
  have hevents : ∀ event ∈ ([.check .http 0 true 5, .check .http 0 true 9,
      .load Master.unopened] : List (MasterEvent ℕ ℕ)), event.commits = false := by decide
  have hcounted : ∃ event ∈ ([.check .http 0 true 5, .check .http 0 true 9,
      .load Master.unopened] : List (MasterEvent ℕ ℕ)), event.counted .http = true :=
    ⟨.load Master.unopened, by simp, rfl⟩
  poll_after_failed_load (fun _ => 0) [] rfl hevents hcounted rfl Master.sharedServer_blocks
    (List.mem_cons_self : (⟨"web", "10.0.0.7:80", 7, {}⟩ : ConfPeer ℕ) ∈ _) rfl _ rfl _ _

/-- A master that has died is gone, with the workers or without them. -/
theorem Nginx.Host.step_crash {Addr : Type} [DecidableEq Addr] (hash : String → UInt32)
    (h : Host Addr) (orphaned : Bool) : (h.step hash (.crash orphaned)).master = none ∧
      (h.step hash (.crash orphaned)).files = h.files := by
  rw [Host.step]
  cases hmaster : h.master with
  | none => exact ⟨hmaster, rfl⟩
  | some m => exact ⟨rfl, rfl⟩

/-- The master of nginx dies with its workers, whatever they have found so far. If nothing stands in
the way of a new one, the next poll, which gets no answer, starts it, and the poll after that
records as down every peer of the node whose `default_down` is set. -/
theorem poll_after_restart {Thread Addr : Type} [DecidableEq Thread] [DecidableEq Addr]
    (hash : String → UInt32) {s : Supervision Thread Addr} {t : Thread}
    (ht : (s.locals t).AtRest) (hstart : (s.memory.step hash (.crash false)).startable = true)
    (pid : ℕ) {z : Zone} {block : CheckBlock Addr} (hblock : s.memory.files.blocks z = some block)
    {peer : ConfPeer Addr} (hpeer : peer ∈ block.peers) (hdown : peer.conf.defaultDown = true)
    (crd : Crd) {o : Ownership} (howns : o.owns peer.upstreamName = true) (p : Poller)
    (server : Server Lbhc) :
    ∃ m : Master ℕ Addr,
      ((.host (.crash false) :: attempt t pid).foldl (Supervision.step hash) s).memory.status =
        some m ∧
      ∃ stored : Lbhc, (run .none (syncHealthCheck crd o m.peers.listing p) 0 server).2.2.object =
          some stored ∧ stored.downEpList.entry peer.upstreamName peer.name = some false := by
  obtain ⟨hmaster, hfiles⟩ := s.memory.step_crash hash false
  have hattempt : (attempt t pid).foldl (Supervision.step hash)
      (Supervision.step hash s (.host (.crash false))) = _ :=
    Supervision.foldl_attempt (s := Supervision.step hash s (.host (.crash false))) ht pid
  have hload : s.memory.files.succeeds = true := by
    rw [← hfiles]
    exact Host.succeeds_of_startable hstart
  refine ⟨Master.start.initCycle hash s.memory.files, ?_, ?_⟩
  · rw [List.foldl_cons, hattempt, ← hfiles]
    exact Host.status_round hash hmaster hstart pid
  · exact entry_poll_of_initial (Master.peers_initCycle_start hload hblock) hpeer hdown crd howns p
      server

/-- The first poll has started nginx with the server of two upstreams. -/
def sharedServerStarted : Supervision Unit ℕ :=
  (attempt () 7).foldl (Supervision.step fun _ => 0) (Supervision.boot Master.sharedServer [1])

/-- The master dies. -/
theorem sharedServer_restarted :
    ∃ m : Master ℕ ℕ, ((.host (.crash false) :: attempt () 9).foldl (Supervision.step fun _ => 0)
        sharedServerStarted).memory.status = some m ∧
      ∃ stored : Lbhc, (run .none (syncHealthCheck ⟨"node1", "default"⟩ { isLeader := true }
          m.peers.listing {}) 0 WatchedPeer.emptyServer).2.2.object = some stored ∧
        stored.downEpList.entry "web" "10.0.0.7:80" = some false :=
  poll_after_restart (fun _ => 0) (s := sharedServerStarted) (t := ()) trivial rfl 9
    Master.sharedServer_blocks
    (List.mem_cons_self : (⟨"web", "10.0.0.7:80", 7, {}⟩ : ConfPeer ℕ) ∈ _) rfl _ rfl _ _

end HealthCheck
