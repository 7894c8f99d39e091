import HealthCheck.KeyedLists
import HealthCheck.Nginx.Cycles

/-!
# What a reload keeps of the checks

The state of a peer is meant to outlast a reload. It does so in the zone of the load before, and
under the key by which a module tells its peers apart: the address in the http module, the upstream
and the address in the stream module.
-/

namespace HealthCheck.Nginx

open KeyedLists

variable {Pid Addr : Type} {z : Zone}

/-- A load that replaces the running configuration. -/
def MasterEvent.commits : MasterEvent Pid Addr → Bool
  | .load attempt => attempt.succeeds
  | .check _ _ _ _ | .own _ _ _ => false

/-- A load that the module counts. -/
def MasterEvent.counted (z : Zone) : MasterEvent Pid Addr → Bool
  | .load attempt => (attempt.blocks z).isSome
  | .check _ _ _ _ | .own _ _ _ => false

/-- What the module tells a peer by. -/
def ConfPeer.key (z : Zone) (peer : ConfPeer Addr) : Option String × Addr :=
  match z with
  | .http => (none, peer.peerAddr)
  | .stream => (some peer.upstreamName, peer.peerAddr)

def PeerRecord.key (record : PeerRecord Pid Addr) : Option String × Addr :=
  (record.upstreamName, record.sockaddr)

@[simp] theorem key_initShmPeer (peer : ConfPeer Addr) (opsh : Option (PeerRecord Pid Addr)) :
    (initShmPeer z peer opsh).key = peer.key z := by
  cases z <;> rfl

@[simp] theorem key_edit (block : CheckBlock Addr) (event : MasterEvent Pid Addr)
    (record : PeerRecord Pid Addr) : (event.edit block record).key = record.key := by
  cases event with
  | load attempt => rfl
  | check z index result now =>
    simp only [MasterEvent.edit]
    cases block.peers[index]? <;> rfl
  | own z index owner => rfl

theorem edit_check {block : CheckBlock Addr} {index : ℕ} {peer : ConfPeer Addr}
    (hpeer : block.peers[index]? = some peer) {result : Bool} {now : Msec} :
    (MasterEvent.check z index result now : MasterEvent Pid Addr).edit block =
      fun record => { record with state := record.state.update peer result now } := by
  funext record
  simp [MasterEvent.edit, hpeer]

/-- The load and the configuration that a zone comes from. -/
def Installed.origin (i : Installed Pid Addr) : ℕ × CheckBlock Addr := (i.generation, i.block)

namespace ModuleCycle

variable {c : ModuleCycle Pid Addr} {event : MasterEvent Pid Addr}

/-- The records are those of the configured peers, in their order. -/
def Keyed (z : Zone) (c : ModuleCycle Pid Addr) : Prop :=
  ∀ i ∈ c.installed, i.records.map PeerRecord.key = i.block.peers.map (ConfPeer.key z)

theorem keyed_start : (start : ModuleCycle Pid Addr).Keyed z := fun _ h => by cases h

/-- The records that a load inherits are those of some peers. -/
theorem Keyed.inherited (h : c.Keyed z) :
    ∃ peers : List (ConfPeer Addr),
      c.inherited.map PeerRecord.key = peers.map (ConfPeer.key z) := by
  unfold ModuleCycle.inherited
  cases hi : c.installed.filter fun i => i.generation = c.generation with
  | none => exact ⟨[], rfl⟩
  | some i => exact ⟨i.block.peers, h i (Option.filter_eq_some_iff.mp hi).1⟩

variable [DecidableEq Addr]

theorem Keyed.step (h : c.Keyed z) (event : MasterEvent Pid Addr) : (c.step z event).Keyed z := by
  have hwrite : ∀ z' index, Keyed z
      (if z' = z then c.write index fun block => event.edit block else c) := by
    intro z' index
    split_ifs
    · intro i hi
      obtain ⟨j, hj, rfl⟩ := Option.mem_map.mp hi
      exact (map_key_modify (key_edit j.block event) _ _).trans (h j hj)
    · exact h
  cases event with
  | load attempt =>
    cases hblock : attempt.blocks z with
    | none =>
      rw [step_load_of_none hblock]
      cases attempt.succeeds with
      | true => exact keyed_start
      | false => exact h
    | some block =>
      rw [step_load_of_some hblock]
      cases attempt.succeeds with
      | true =>
        rintro i ⟨rfl⟩
        simp [Function.comp_def]
      | false => exact h
  | check z' index result now => exact hwrite z' index
  | own z' index owner => exact hwrite z' index

/-- As long as the running configuration is not replaced, only the counter moves away from its
zone. -/
theorem step_of_not_commits (h : event.commits = false) :
    (c.step z event).generation = c.generation + (if event.counted z then 1 else 0) ∧
      (c.step z event).installed.map Installed.origin = c.installed.map Installed.origin := by
  have hwrite : ∀ z' index,
      (if z' = z then c.write index fun block => event.edit block else c).generation =
          c.generation ∧
        (if z' = z then c.write index fun block => event.edit block else c).installed.map
          Installed.origin = c.installed.map Installed.origin := by
    intro z' index
    split_ifs
    · exact ⟨rfl, by rw [write, Option.map_map]; rfl⟩
    · exact ⟨rfl, rfl⟩
  cases event with
  | load attempt =>
    have hfails : attempt.succeeds = false := h
    cases hblock : attempt.blocks z with
    | none =>
      rw [step_load_of_none hblock, hfails]
      simp [MasterEvent.counted, hblock, skip]
    | some block =>
      rw [step_load_of_some hblock, hfails]
      simp [MasterEvent.counted, hblock, load]
  | check z' index result now => exact hwrite z' index
  | own z' index owner => exact hwrite z' index

theorem run_of_not_commits {events : List (MasterEvent Pid Addr)}
    (h : ∀ event ∈ events, event.commits = false) :
    (events.foldl (step z) c).generation = c.generation + events.countP (MasterEvent.counted z) ∧
      (events.foldl (step z) c).installed.map Installed.origin =
        c.installed.map Installed.origin := by
  induction events generalizing c with
  | nil => exact ⟨rfl, rfl⟩
  | cons event events ih =>
    obtain ⟨hevent, hevents⟩ := List.forall_mem_cons.mp h
    obtain ⟨hgeneration, hinstalled⟩ := step_of_not_commits (c := c) (z := z) hevent
    obtain ⟨hgeneration', hinstalled'⟩ := @ih (c.step z event) hevents
    refine ⟨?_, hinstalled'.trans hinstalled⟩
    rw [List.foldl_cons, hgeneration', hgeneration, List.countP_cons]
    omega

/-- A load that succeeds installs the zone that it has counted. -/
theorem generation_of_commits (h : event.commits = true) {i : Installed Pid Addr}
    (hi : i ∈ (c.step z event).installed) : i.generation = (c.step z event).generation := by
  cases event with
  | load attempt =>
    have hsucceeds : attempt.succeeds = true := h
    revert hi
    cases hblock : attempt.blocks z with
    | none =>
      rw [step_load_of_none hblock, hsucceeds]
      exact fun hi => by cases hi
    | some block =>
      rw [step_load_of_some hblock, hsucceeds]
      rintro ⟨rfl⟩
      rfl
  | check z' index result now => cases h
  | own z' index owner => cases h

/-- The zone from which the next load inherits is the running one, unless a load has been counted
since it was installed. -/
theorem inherited_run (hnew : ∀ i ∈ c.installed, i.generation = c.generation)
    {events : List (MasterEvent Pid Addr)} (h : ∀ event ∈ events, event.commits = false) :
    (events.foldl (step z) c).inherited =
      if events.any (MasterEvent.counted z) then [] else (events.foldl (step z) c).records := by
  obtain ⟨hgeneration, hinstalled⟩ := run_of_not_commits (c := c) (z := z) h
  have hcount : events.any (MasterEvent.counted z) = true ↔
      0 < events.countP (MasterEvent.counted z) := by
    rw [List.countP_pos_iff, List.any_eq_true]
  generalize events.foldl (step z) c = d at hgeneration hinstalled ⊢
  unfold inherited records
  cases hi : d.installed with
  | none => simp
  | some i =>
    have hmem : i.origin ∈ c.installed.map Installed.origin := by
      rw [← hinstalled, hi]
      rfl
    obtain ⟨j, hj, horigin⟩ := Option.mem_map.mp hmem
    have hgen : j.generation = i.generation := congrArg Prod.fst horigin
    have hinew := hnew j hj
    by_cases hany : events.any (MasterEvent.counted z) = true
    · have hne : ¬ i.generation = d.generation := by
        have hpos := hcount.mp hany
        omega
      simp [Option.filter, hne, hany]
    · have heq : i.generation = d.generation := by
        have hzero := mt hcount.mpr hany
        omega
      simp [Option.filter, heq, hany]

/-- A module finds a peer by its key. -/
theorem findShmPeer_eq_first? {records : List (PeerRecord Pid Addr)} {peers : List (ConfPeer Addr)}
    (hkeys : records.map PeerRecord.key = peers.map (ConfPeer.key z)) (peer : ConfPeer Addr) :
    findShmPeer z records peer = first? PeerRecord.key records (peer.key z) := by
  cases z with
  | http =>
    -- no record of the http module names an upstream
    have hnone : ∀ record ∈ records, record.upstreamName = none := by
      intro record hrecord
      have hmem := hkeys ▸ List.mem_map_of_mem hrecord
      obtain ⟨p, -, hp⟩ := List.mem_map.mp hmem
      exact (congrArg Prod.fst hp).symm
    refine find?_congr fun record hrecord => ?_
    simp [PeerRecord.key, ConfPeer.key, hnone record hrecord]
  | stream => simp [findShmPeer, first?, PeerRecord.key, ConfPeer.key, and_comm]

theorem keyed_run (events : List (MasterEvent Pid Addr)) :
    (run z events).Keyed z :=
  List.foldlRecOn events (step z) keyed_start fun _ h event _ => h.step event

/-- The next load that succeeds gives each peer the state of the first record that matches it, or
starts anew. -/
theorem records_reload {installing next : Load Addr} (hinstalling : installing.succeeds = true)
    {events : List (MasterEvent Pid Addr)} (hevents : ∀ event ∈ events, event.commits = false)
    (hnext : next.succeeds = true) {block : CheckBlock Addr} (hblock : next.blocks z = some block) :
    ((events.foldl (step z) (c.step z (.load installing))).step z (.load next)).records =
      block.peers.map fun peer => initShmPeer z peer
        (if events.any (MasterEvent.counted z) then none
          else
            findShmPeer z (events.foldl (step z) (c.step z (.load installing))).records peer) := by
  have hcommits : (MasterEvent.load installing : MasterEvent Pid Addr).commits = true := hinstalling
  have hinherited := inherited_run (z := z) (c := c.step z (.load installing))
    (fun i hi => generation_of_commits hcommits hi) hevents
  rw [step_load_of_some hblock, hnext]
  change block.peers.map _ = _
  rw [hinherited]
  split_ifs
  · refine List.map_congr_left fun peer _ => ?_
    cases z <;> rfl
  · rfl

/-- The zone while the configuration that has installed it runs, and no load has been counted. -/
structure Running (z : Zone) (block : CheckBlock Addr) (c : ModuleCycle Pid Addr)
    (i : Installed Pid Addr) : Prop where
  installed : c.installed = some i
  generation : i.generation = c.generation
  configured : i.block = block
  keys : i.records.map PeerRecord.key = block.peers.map (ConfPeer.key z)

theorem running_run {attempt : Load Addr} (hsucceeds : attempt.succeeds = true)
    {block : CheckBlock Addr} (hblock : attempt.blocks z = some block)
    (before : List (MasterEvent Pid Addr)) {events : List (MasterEvent Pid Addr)}
    (h : ∀ event ∈ events, event.commits = false ∧ event.counted z = false) :
    ∃ i, Running z block (run z (before ++ .load attempt :: events)) i := by
  have hkeyed := keyed_run (z := z) (before ++ .load attempt :: events)
  have hzero : events.countP (MasterEvent.counted z) = 0 :=
    List.countP_eq_zero.mpr fun event hevent => by simp [(h event hevent).2]
  rw [run_append, List.foldl_cons, step_load_of_some hblock, hsucceeds] at hkeyed ⊢
  obtain ⟨hgeneration, horigin⟩ := run_of_not_commits
    (c := (run z before).load z block true) (z := z) fun event hevent =>
      (h event hevent).1
  obtain ⟨i, hi, hfrom⟩ := Option.map_eq_some_iff.mp horigin
  have hiblock : i.block = block := congrArg Prod.snd hfrom
  refine ⟨i, hi, ?_, hiblock, hiblock ▸ hkeyed i hi⟩
  rw [hgeneration, hzero]
  exact congrArg Prod.fst hfrom

/-- To load the running configuration again keeps the states if and only if peers with the same key
have the same state. -/
theorem Running.states_load_iff {block : CheckBlock Addr} {i : Installed Pid Addr}
    (h : Running z block c i) :
    (c.load z block true).records.map PeerRecord.state = i.records.map PeerRecord.state ↔
      ∀ x ∈ i.records, ∀ y ∈ i.records, x.key = y.key → x.state = y.state := by
  have hinherited : c.inherited = i.records := by
    simp [inherited, h.installed, Option.filter, h.generation]
  -- every peer is found by its key
  have hfound : ∀ peer ∈ block.peers,
      some (initShmPeer z peer (findShmPeer z c.inherited peer)).state =
        (first? PeerRecord.key i.records (peer.key z)).map PeerRecord.state := by
    intro peer hpeer
    have hmem : peer.key z ∈ i.records.map PeerRecord.key := h.keys ▸ List.mem_map_of_mem hpeer
    obtain ⟨record, hrecord, hkey⟩ := List.mem_map.mp hmem
    obtain ⟨y, hy⟩ := exists_first? PeerRecord.key hrecord
    rw [hinherited, findShmPeer_eq_first? h.keys, ← hkey, hy]
    rfl
  have hstates : ((c.load z block true).records.map PeerRecord.state).map some =
      i.records.map fun record =>
        (first? PeerRecord.key i.records record.key).map PeerRecord.state :=
    calc ((c.load z block true).records.map PeerRecord.state).map some
      _ = block.peers.map fun peer =>
          some (initShmPeer z peer (findShmPeer z c.inherited peer)).state := by
        simp [records, load, Function.comp_def]
      _ = block.peers.map fun peer =>
          (first? PeerRecord.key i.records (peer.key z)).map PeerRecord.state :=
        List.map_congr_left hfound
      _ = (block.peers.map (ConfPeer.key z)).map fun k =>
          (first? PeerRecord.key i.records k).map PeerRecord.state := by
        rw [List.map_map]
        rfl
      _ = _ := by
        rw [← h.keys, List.map_map]
        rfl
  rw [← first?_agrees_iff, ← List.map_inj_left, ← hstates,
    ← (List.map_injective_iff.mpr (Option.some_injective PeerState)).eq_iff]
  simp only [List.map_map, Function.comp_def]

/-- With one more check. -/
theorem Running.check {block : CheckBlock Addr} {i : Installed Pid Addr} (h : Running z block c i)
    {index : ℕ} {peer : ConfPeer Addr} (hpeer : block.peers[index]? = some peer) (result : Bool)
    (now : Msec) :
    Running z block (c.step z (.check z index result now)) { i with
      records := i.records.modify index fun record =>
        { record with state := record.state.update peer result now } } := by
  have hstep : c.step z (.check z index result now) =
      c.write index fun block => MasterEvent.edit block (.check z index result now) := if_pos rfl
  rw [hstep, ← edit_check (z := z) hpeer]
  refine ⟨?_, h.generation, h.configured, (map_key_modify (key_edit block _) _ _).trans h.keys⟩
  simp [write, h.installed, h.configured]

end ModuleCycle

namespace Master

/-- Checks of the module, each with the place of its peer. -/
def checksOf (z : Zone) (checks : List (ℕ × Bool × Msec)) : List (MasterEvent Pid Addr) :=
  checks.map fun check => .check z check.1 check.2.1 check.2.2

theorem commits_of_mem_checksOf {checks : List (ℕ × Bool × Msec)} {event : MasterEvent Pid Addr}
    (h : event ∈ checksOf z checks) : event.commits = false ∧ event.counted z = false := by
  obtain ⟨check, -, rfl⟩ := List.mem_map.mp h
  exact ⟨rfl, rfl⟩

variable [DecidableEq Addr] {block : CheckBlock Addr}

/-- What a load gets from the loads before. Let a load have installed the running configuration, and
let no other one have replaced it since. If none has been counted by the module either, then the
next load that succeeds gives each peer the state of the first peer of the running configuration
that matches it. If one has been counted, and has failed, then every peer starts anew. -/
theorem reload_inherits (hash : String → UInt32) (before : List (MasterEvent Pid Addr))
    {installing next : Load Addr} (hinstalling : installing.succeeds = true)
    {events : List (MasterEvent Pid Addr)} (hevents : ∀ event ∈ events, event.commits = false)
    (hnext : next.succeeds = true) (hblock : next.blocks z = some block) :
    (run hash (before ++ .load installing :: events ++ [.load next])).records z =
      block.peers.map fun peer => initShmPeer z peer
        (if events.any (MasterEvent.counted z) then none
          else
            findShmPeer z ((run hash (before ++ .load installing :: events)).records z) peer) := by
  rw [records_run, records_run, ModuleCycle.run_append, ModuleCycle.run_append, List.foldl_cons,
    List.foldl_cons, List.foldl_nil]
  exact ModuleCycle.records_reload hinstalling hevents hnext hblock

/-- The module keeps every state over every reload of a configuration, whatever the checks have
found, if and only if it can tell all the peers of the configuration apart. In the http module the
same address must not occur in two upstreams. -/
theorem reload_keeps_iff (hash : String → UInt32) (before : List (MasterEvent Pid Addr))
    {attempt : Load Addr} (hsucceeds : attempt.succeeds = true)
    (hblock : attempt.blocks z = some block) :
    (∀ checks : List (ℕ × Bool × Msec),
      ((run hash (before ++ .load attempt :: checksOf z checks ++ [.load attempt])).records z).map
          PeerRecord.state =
        ((run hash (before ++ .load attempt :: checksOf z checks)).records z).map
          PeerRecord.state) ↔
      (block.peers.map (ConfPeer.key z)).Nodup := by
  have hrunning : ∀ checks, ∃ i : Installed Pid Addr, ModuleCycle.Running z block
      (ModuleCycle.run z (before ++ .load attempt :: checksOf z checks)) i := fun checks =>
    ModuleCycle.running_run hsucceeds hblock before fun event => commits_of_mem_checksOf
  -- one run of checks at a time
  have hkept : ∀ checks i, ModuleCycle.Running z block
      (ModuleCycle.run z (before ++ .load attempt :: checksOf z checks)) i →
      (((run hash (before ++ .load attempt :: checksOf z checks ++ [.load attempt])).records z).map
          PeerRecord.state =
        ((run hash (before ++ .load attempt :: checksOf z checks)).records z).map
          PeerRecord.state ↔
        ∀ x ∈ i.records, ∀ y ∈ i.records, x.key = y.key → x.state = y.state) := by
    intro checks i hi
    rw [records_run, records_run, ModuleCycle.run_append, List.foldl_cons, List.foldl_nil,
      ModuleCycle.step_load_of_some hblock, hsucceeds, ← hi.states_load_iff]
    simp [ModuleCycle.records, hi.installed]
  constructor
  · intro h
    rw [List.nodup_iff_getElem?_ne_getElem?]
    intro j k hjk hk hsame
    obtain ⟨i, hi⟩ := hrunning []
    have hlength : i.records.length = block.peers.length := by
      simpa using congrArg List.length hi.keys
    rw [List.length_map] at hk
    obtain ⟨x, hx⟩ : ∃ x, i.records[j]? = some x := ⟨_, List.getElem?_eq_getElem (by omega)⟩
    obtain ⟨y, hy⟩ : ∃ y, i.records[k]? = some y := ⟨_, List.getElem?_eq_getElem (by omega)⟩
    have hkey : x.key = y.key := by
      rw [← hi.keys, List.getElem?_map, List.getElem?_map, hx, hy] at hsame
      exact Option.some.inj hsame
    have hpeer : block.peers[k]? = some (block.peers[k]) := List.getElem?_eq_getElem hk
    have hbefore : x.state = y.state := (hkept [] i hi).mp (h []) x (List.mem_of_getElem? hx) y
      (List.mem_of_getElem? hy) hkey
    -- one more check of the second peer, and the states differ
    have hcheck := hi.check hpeer true 0
    have hrun : (ModuleCycle.run z (before ++ .load attempt :: checksOf z [])).step z
        (.check z k true 0) = ModuleCycle.run z
          (before ++ .load attempt :: checksOf z [(k, true, 0)]) := by
      simp only [ModuleCycle.run_append, List.foldl_cons, checksOf, List.map_cons, List.map_nil,
        List.foldl_nil]
    rw [hrun] at hcheck
    have hafter := (hkept [(k, true, 0)] _ hcheck).mp (h _) x
      (List.mem_of_getElem? (i := j) (by simp [hx, Nat.ne_of_gt hjk]))
      { y with state := y.state.update block.peers[k] true 0 }
      (List.mem_of_getElem? (i := k) (by simp [hy])) hkey
    have hcount := congrArg (fun state => state.counts.riseCount) (hbefore.symm.trans hafter)
    simp [PeerState.update, ConfPeer.checked, Peer.statusUpdate] at hcount
  · intro hnodup checks
    obtain ⟨i, hi⟩ := hrunning checks
    rw [hkept checks i hi]
    intro x hx y hy hkey
    rw [List.inj_on_of_nodup_map (hi.keys ▸ hnodup) hx hy hkey]

/-- One server in two upstreams. -/
def sharedBlock : CheckBlock ℕ :=
  ⟨0, [⟨"web", "10.0.0.7:80", 7, {}⟩, ⟨"api", "10.0.0.7:80", 7, {}⟩]⟩

/-- A configuration of the http module. -/
def sharedServer : Load ℕ where
  blocks
    | .http => some sharedBlock
    | .stream => none
  parsed := true
  room _ := true
  opened := true

/-- The same, but a file that it needs cannot be opened. -/
def unopened : Load ℕ := { sharedServer with opened := false }

theorem sharedServer_blocks : sharedServer.blocks .http = some sharedBlock := rfl

theorem sharedServer_forgotten :
    (run (fun _ => 0) ([] ++ (.load sharedServer : MasterEvent ℕ ℕ) ::
        [.check .http 0 true 5, .load unopened] ++ [.load sharedServer])).records .http =
      sharedBlock.peers.map fun peer => initShmPeer .http peer none :=
  have hevents : ∀ event ∈ ([.check .http 0 true 5, .load unopened] : List (MasterEvent ℕ ℕ)),
      event.commits = false := by decide
  reload_inherits (fun _ => 0) [] rfl hevents rfl sharedServer_blocks

theorem sharedServer_mixed :
    ¬ ∀ checks : List (ℕ × Bool × Msec),
      ((run (fun _ => 0) ([] ++ (.load sharedServer : MasterEvent ℕ ℕ) :: checksOf .http checks ++
          [.load sharedServer])).records .http).map PeerRecord.state =
        ((run (fun _ => 0) ([] ++ (.load sharedServer : MasterEvent ℕ ℕ) ::
          checksOf .http checks)).records .http).map PeerRecord.state :=
  fun h => absurd ((reload_keeps_iff (fun _ => 0) [] rfl sharedServer_blocks).mp h) (by decide)

end Master

end HealthCheck.Nginx
