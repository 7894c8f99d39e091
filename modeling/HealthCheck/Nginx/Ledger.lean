import HealthCheck.Nginx.Inheritance

/-!
# One peer over all loads

With distinct keys in every configuration, the shared memory of a module is a map from keys to
states. The ledger of a peer follows its state over checks and loads without a look at the other
peers, at their order or at the zones: a load keeps the state of a peer that stays, unless a load
that has failed came in between.
-/

namespace HealthCheck.Nginx

open KeyedLists

variable {Pid Addr : Type} {z : Zone}

theorem ModuleCycle.records_write {c : ModuleCycle Pid Addr} {i : Installed Pid Addr}
    (hi : c.installed = some i) {index : ℕ}
    {f : CheckBlock Addr → PeerRecord Pid Addr → PeerRecord Pid Addr} :
    (c.write index f).records = i.records.modify index (f i.block) := by
  simp [ModuleCycle.records, ModuleCycle.write, hi]

variable [DecidableEq Addr] {key : Option String × Addr}

/-- What there is to know about the peer with a given key: the peers that are configured, the state
of this one, and whether the next load forgets it. -/
structure Ledger (Addr : Type) where
  peers : List (ConfPeer Addr)
  state : Option PeerState
  forgets : Bool

/-- A load keeps the state of a peer that stays and starts a peer that comes. -/
def Ledger.load (z : Zone) (key : Option String × Addr) (ledger : Ledger Addr)
    (peers : List (ConfPeer Addr)) : Ledger Addr where
  peers := peers
  state := (first? (ConfPeer.key z) peers key).map fun peer =>
    (if ledger.forgets then none else ledger.state).getD peer.initial
  forgets := false

/-- A check counts if it is a check of this peer. -/
def Ledger.check (z : Zone) (key : Option String × Addr) (ledger : Ledger Addr) (index : ℕ)
    (result : Bool) (now : Msec) : Ledger Addr :=
  match ledger.peers[index]? with
  | some peer =>
    if peer.key z = key then
      { ledger with state := ledger.state.map fun state => state.update peer result now }
    else ledger
  | none => ledger

def Ledger.step (z : Zone) (key : Option String × Addr) (ledger : Ledger Addr) :
    MasterEvent Pid Addr → Ledger Addr
  | .load attempt =>
    if attempt.succeeds then
      ledger.load z key (((attempt.blocks z).map CheckBlock.peers).getD [])
    else { ledger with forgets := ledger.forgets || (attempt.blocks z).isSome }
  | .check z' index result now => if z' = z then ledger.check z key index result now else ledger
  | .own _ _ _ => ledger

def Ledger.start : Ledger Addr := ⟨[], none, false⟩

/-- The module and the ledger agree on the peer. -/
structure Ledger.Agrees (z : Zone) (key : Option String × Addr) (ledger : Ledger Addr)
    (c : ModuleCycle Pid Addr) : Prop where
  keyed : c.Keyed z
  distinct : ∀ i ∈ c.installed, (i.block.peers.map (ConfPeer.key z)).Nodup
  peers : ledger.peers = (c.installed.map fun i => i.block.peers).getD []
  state : ledger.state = (first? PeerRecord.key c.records key).map PeerRecord.state
  forgets : ∀ i ∈ c.installed, (ledger.forgets = true ↔ i.generation ≠ c.generation)

namespace Ledger.Agrees

variable {ledger : Ledger Addr} {c : ModuleCycle Pid Addr}

/-- What the next load inherits. -/
theorem inherited (h : ledger.Agrees z key c) :
    (if ledger.forgets then none else ledger.state) =
      (first? PeerRecord.key c.inherited key).map PeerRecord.state := by
  rw [h.state]
  unfold ModuleCycle.inherited ModuleCycle.records
  cases hi : c.installed with
  | none => simp [first?]
  | some i =>
    have hforgets := h.forgets i hi
    cases hl : ledger.forgets with
    | true => simp [Option.filter, hforgets.mp hl, first?]
    | false =>
      have hgeneration : i.generation = c.generation := by
        by_contra hne
        rw [hforgets.mpr hne] at hl
        cases hl
      simp [Option.filter, hgeneration]

/-- A module without a zone. -/
theorem of_none (hinstalled : c.installed = none) (hpeers : ledger.peers = [])
    (hstate : ledger.state = none) : ledger.Agrees z key c := by
  have hnot : ∀ i, ¬ i ∈ c.installed := by simp [hinstalled]
  refine ⟨fun i hi => absurd hi (hnot i), fun i hi => absurd hi (hnot i), ?_, ?_,
    fun i hi => absurd hi (hnot i)⟩
  · rw [hpeers, hinstalled]
    rfl
  · rw [hstate, ModuleCycle.records, hinstalled]
    rfl

theorem load_succeeds (h : ledger.Agrees z key c) {block : CheckBlock Addr}
    (hdistinct : (block.peers.map (ConfPeer.key z)).Nodup) :
    (ledger.load z key block.peers).Agrees z key (c.load z block true) := by
  refine ⟨?_, ?_, rfl, ?_, ?_⟩
  · rintro i ⟨rfl⟩
    simp [Function.comp_def]
  · rintro i ⟨rfl⟩
    exact hdistinct
  · obtain ⟨peers, hkeys⟩ := h.keyed.inherited
    change (first? (ConfPeer.key z) block.peers key).map _ =
      (first? PeerRecord.key (block.peers.map _) key).map PeerRecord.state
    rw [first?_map fun peer => key_initShmPeer peer _, Option.map_map, h.inherited]
    cases hpeer : first? (ConfPeer.key z) block.peers key with
    | none => rfl
    | some peer =>
      have hkey : peer.key z = key := key_of_first? hpeer
      simp [initShmPeer, ModuleCycle.findShmPeer_eq_first? hkeys, hkey]
  · rintro i ⟨rfl⟩
    simp [Ledger.load, ModuleCycle.load]

/-- A load that fails leaves the records as they are. -/
theorem load_fails (h : ledger.Agrees z key c) (block : CheckBlock Addr) :
    Agrees z key { ledger with forgets := true } (c.load z block false) := by
  refine ⟨h.keyed, h.distinct, h.peers, h.state, fun i hi => ?_⟩
  have hle := c.generation_le i hi
  refine iff_of_true rfl ?_
  change i.generation ≠ c.generation + 1
  omega

/-- A write to a record, in which the key does not change. -/
theorem write (h : ledger.Agrees z key c) {index : ℕ}
    {f : CheckBlock Addr → PeerRecord Pid Addr → PeerRecord Pid Addr}
    (hf : ∀ block record, (f block record).key = record.key) {state : Option PeerState}
    (hstate : state =
      (first? PeerRecord.key (c.write index f).records key).map PeerRecord.state) :
    Agrees z key { ledger with state := state } (c.write index f) := by
  have hback : ∀ i ∈ (c.write index f).installed, ∃ j ∈ c.installed,
      { j with records := j.records.modify index (f j.block) } = i := fun i hi =>
    Option.mem_map.mp hi
  refine ⟨?_, ?_, ?_, hstate, ?_⟩
  · intro i hi
    obtain ⟨j, hj, rfl⟩ := hback i hi
    exact (map_key_modify (hf j.block) _ _).trans (h.keyed j hj)
  · intro i hi
    obtain ⟨j, hj, rfl⟩ := hback i hi
    exact h.distinct j hj
  · simp [ModuleCycle.write, h.peers, Function.comp_def]
  · intro i hi
    obtain ⟨j, hj, rfl⟩ := hback i hi
    exact h.forgets j hj

/-- The record of a peer that is configured. -/
theorem record (h : ledger.Agrees z key c) {i : Installed Pid Addr} (hi : c.installed = some i)
    {index : ℕ} {peer : ConfPeer Addr} (hpeer : i.block.peers[index]? = some peer) :
    ∃ x, i.records[index]? = some x ∧ x.key = peer.key z := by
  have hkey := congrArg (fun keys => keys[index]?) (h.keyed i hi)
  simp only [List.getElem?_map, hpeer, Option.map_some] at hkey
  exact Option.map_eq_some_iff.mp hkey

theorem check (h : ledger.Agrees z key c) (index : ℕ) (result : Bool) (now : Msec) :
    (ledger.check z key index result now).Agrees z key
      (c.write index fun block => (MasterEvent.check z index result now).edit block) := by
  have hkey : ∀ block record, ((MasterEvent.check z index result now : MasterEvent Pid Addr).edit
      block record).key = record.key := fun block => key_edit block _
  have hpeers := h.peers
  unfold Ledger.check
  cases hi : c.installed with
  | none =>
    rw [hi] at hpeers
    rw [hpeers, ModuleCycle.write_of_none hi]
    exact h
  | some i =>
    have hrecords : c.records = i.records := by simp [ModuleCycle.records, hi]
    have hnodup : (i.records.map PeerRecord.key).Nodup := h.keyed i hi ▸ h.distinct i hi
    have hstate := h.state
    rw [hrecords] at hstate
    rw [hi] at hpeers
    have hplace : ledger.peers[index]? = i.block.peers[index]? := by rw [hpeers]; rfl
    cases hpeer : i.block.peers[index]? with
    | none =>
      rw [hplace, hpeer]
      refine h.write hkey ?_
      have hedit : (MasterEvent.check z index result now : MasterEvent Pid Addr).edit i.block =
          id := by
        funext record
        simp [MasterEvent.edit, hpeer]
      rw [ModuleCycle.records_write hi, hedit, List.modify_id]
      exact hstate
    | some peer =>
      obtain ⟨x, hx, hxkey⟩ := h.record hi hpeer
      have hfirst := first?_modify hnodup (hkey i.block) hx key
      rw [hxkey] at hfirst
      rw [hplace, hpeer]
      dsimp only
      split_ifs with hpeerKey
      · refine h.write hkey ?_
        have hfound : first? PeerRecord.key i.records key = some x :=
          (first?_eq_some_iff hnodup).mpr ⟨List.mem_of_getElem? hx, hxkey.trans hpeerKey⟩
        rw [ModuleCycle.records_write hi, hfirst, if_pos hpeerKey, hstate, hfound,
          edit_check hpeer]
        rfl
      · refine h.write hkey ?_
        rw [ModuleCycle.records_write hi, hfirst, if_neg hpeerKey]
        exact hstate

theorem own (h : ledger.Agrees z key c) (index : ℕ) (owner : Option Pid) :
    ledger.Agrees z key
      (c.write index fun block => (MasterEvent.own z index owner).edit block) := by
  have hkey : ∀ block record, ((MasterEvent.own z index owner : MasterEvent Pid Addr).edit
      block record).key = record.key := fun block => key_edit block _
  refine h.write hkey ?_
  rw [h.state]
  cases hi : c.installed with
  | none => rw [ModuleCycle.write_of_none hi]
  | some i =>
    have hrecords : c.records = i.records := by simp [ModuleCycle.records, hi]
    have hnodup : (i.records.map PeerRecord.key).Nodup := h.keyed i hi ▸ h.distinct i hi
    rw [ModuleCycle.records_write hi, hrecords]
    cases hx : i.records[index]? with
    | none => rw [List.modify_eq_self (List.getElem?_eq_none_iff.mp hx)]
    | some x =>
      rw [first?_modify hnodup (hkey i.block) hx key]
      split_ifs with hxkey
      · rw [(first?_eq_some_iff hnodup).mpr ⟨List.mem_of_getElem? hx, hxkey⟩]
        rfl
      · rfl

theorem step {event : MasterEvent Pid Addr} (h : ledger.Agrees z key c)
    (hdistinct : ∀ attempt, event = .load attempt → ∀ block ∈ attempt.blocks z,
      (block.peers.map (ConfPeer.key z)).Nodup) :
    (ledger.step z key event).Agrees z key (c.step z event) := by
  cases event with
  | load attempt =>
    cases hblock : attempt.blocks z with
    | none =>
      rw [ModuleCycle.step_load_of_none hblock]
      cases hsucceeds : attempt.succeeds with
      | true =>
        simp only [Ledger.step, hblock, hsucceeds, if_true]
        exact of_none rfl rfl rfl
      | false => simpa [Ledger.step, hblock, hsucceeds, ModuleCycle.skip] using h
    | some block =>
      rw [ModuleCycle.step_load_of_some hblock]
      cases hsucceeds : attempt.succeeds with
      | true =>
        simp only [Ledger.step, hblock, hsucceeds, if_true]
        exact h.load_succeeds (hdistinct attempt rfl block hblock)
      | false => simpa [Ledger.step, hblock, hsucceeds] using h.load_fails block
  | check z' index result now =>
    by_cases hz : z' = z
    · subst hz
      simpa [Ledger.step, ModuleCycle.step] using h.check index result now
    · simpa [Ledger.step, ModuleCycle.step, hz] using h
  | own z' index owner =>
    by_cases hz : z' = z
    · subst hz
      simpa [Ledger.step, ModuleCycle.step] using h.own index owner
    · simpa [Ledger.step, ModuleCycle.step, hz] using h

end Ledger.Agrees

/-- In every run of the master whose configurations have distinct keys, the shared memory holds for
every key what its ledger says, and nothing for a key that is not configured. -/
theorem Master.run_refines_ledger (hash : String → UInt32) {events : List (MasterEvent Pid Addr)}
    (hdistinct : ∀ attempt, .load attempt ∈ events → ∀ block ∈ attempt.blocks z,
      (block.peers.map (ConfPeer.key z)).Nodup) (key : Option String × Addr) :
    (first? PeerRecord.key ((run hash events).records z) key).map PeerRecord.state =
      (events.foldl (Ledger.step z key) .start).state := by
  rw [Master.records_run, ModuleCycle.run]
  suffices h : ∀ (ledger : Ledger Addr) (c : ModuleCycle Pid Addr), ledger.Agrees z key c →
      (events.foldl (Ledger.step z key) ledger).Agrees z key
        (events.foldl (ModuleCycle.step z) c) from
    (h .start .start (.of_none rfl rfl rfl)).state.symm
  induction events with
  | nil => exact fun _ _ h => h
  | cons event events ih =>
    intro ledger c h
    refine ih (fun attempt hmem => hdistinct attempt (List.mem_cons_of_mem _ hmem)) _ _
      (h.step fun attempt heq => ?_)
    exact hdistinct attempt (heq ▸ List.mem_cons_self)

namespace Master

/-- The server of two upstreams as a configuration of the stream module. -/
def sharedStream : Load ℕ :=
  { sharedServer with
    blocks
      | .http => none
      | .stream => some sharedBlock }

theorem sharedStream_kept :
    (first? PeerRecord.key ((run (fun _ => 0) ([.load sharedStream, .check .stream 1 true 5,
        .check .stream 1 true 9, .load sharedStream] : List (MasterEvent ℕ ℕ))).records .stream)
        (some "api", 7)).map PeerRecord.state =
      some { accessTime := 9, counts := { riseCount := 2, down := false } } := by
  refine (run_refines_ledger (fun _ => 0) (fun attempt hmem block hblock => ?_) _).trans
    (by decide)
  have hattempt : attempt = sharedStream := by simpa using hmem
  subst hattempt
  obtain rfl : sharedBlock = block := Option.some.inj hblock
  decide

end Master

end HealthCheck.Nginx
