import HealthCheck.Nginx.Requests
import HealthCheck.Nginx.Workers

/-!
# Shared memory from one configuration to the next

Whenever the master of nginx loads a configuration, each check module gets a zone of shared memory
of its own, with the number of the load in its name. The states of the peers are copied from the
zone of the load before, if that zone is among those of the running configuration. A load that
fails after the module has been initialised leaves the running configuration as it is, but it has
taken a number.

The first part of the file is the code; the second part is the same per module, without names.
-/

namespace HealthCheck.Nginx

/-- A peer of a configuration, as `ngx_http_upstream_check_add_peer` enters it. -/
structure ConfPeer (Addr : Type) where
  upstreamName : String
  name : String
  peerAddr : Addr
  conf : CheckConf

/-- The configuration of one module: the size from `check_shm_size` and the peers. -/
structure CheckBlock (Addr : Type) where
  checkShmSize : ℕ
  peers : List (ConfPeer Addr)

/-- What one zone hands on to the next of a peer. -/
structure PeerState where
  accessTime : Msec := 0
  counts : PeerShm
  deriving DecidableEq

/-- `ngx_upstream_check_peer_shm_t`. Only the stream module writes the name of the upstream. -/
structure PeerRecord (Pid Addr : Type) where
  sockaddr : Addr
  upstreamName : Option String
  owner : Option Pid
  state : PeerState

/-- `ngx_upstream_check_peers_shm_t`; its `number` is the number of peers. -/
structure PeersShm (Pid Addr : Type) where
  generation : ℕ
  checksum : UInt64
  peers : List (PeerRecord Pid Addr)

/-- `ngx_shm_zone_t`, with the module that has declared it. -/
structure ShmZone (Pid Addr : Type) where
  name : String
  tag : Zone
  size : ℕ
  data : Option (PeersShm Pid Addr)

/-- What the master has: the counters of loads, and the running configuration with its zones. -/
structure Master (Pid Addr : Type) where
  generation : Zone → ℕ
  blocks : Zone → Option (CheckBlock Addr)
  zones : List (ShmZone Pid Addr)

/-- A load of the configuration: the blocks that are initialised, whether the rest of the file can
be parsed, which zones have room for their peers, and whether everything else that the
configuration asks for can be opened. -/
structure Load (Addr : Type) where
  blocks : Zone → Option (CheckBlock Addr)
  parsed : Bool
  room : Zone → Bool
  opened : Bool

/-- What the names of a module's zones begin with. -/
def shmBase : Zone → String
  | .http => "ngx_http_upstream_check"
  | .stream => "ngx_stream_upstream_check"

/-- `ngx_http_upstream_check_get_shm_name`. -/
def shmName (z : Zone) (generation : ℕ) : String := shmBase z ++ "#" ++ toString generation

/-- The peer as a worker sees it. -/
def ConfPeer.checked {Addr : Type} (peer : ConfPeer Addr) (shm : PeerShm) : Peer where
  upstreamName := peer.upstreamName
  name := peer.name
  rise := peer.conf.rise
  fall := peer.conf.fall
  shm := shm

/-- The state of a peer after `status_update`. -/
def PeerState.update {Addr : Type} (peer : ConfPeer Addr) (result : Bool) (now : Msec)
    (state : PeerState) : PeerState where
  accessTime := now
  counts := ((peer.checked state.counts).statusUpdate result).shm

/-! ### The code -/

section Model

variable {Pid Addr : Type} [DecidableEq Addr] (hash : String → UInt32)

/-- `add_peer` adds the hashes of the names up. -/
def CheckBlock.checksum (block : CheckBlock Addr) : UInt64 :=
  block.peers.foldl (fun sum peer => sum + (hash peer.name).toUInt64) 0

/-- The size of a zone is a megabyte at least. -/
def CheckBlock.shmSize (block : CheckBlock Addr) : ℕ := max (1024 * 1024) block.checkShmSize

/-- `ngx_shared_memory_find`. -/
def sharedMemoryFind (zones : List (ShmZone Pid Addr)) (name : String) (tag : Zone) :
    Option (ShmZone Pid Addr) :=
  zones.find? fun zone => zone.name = name ∧ zone.tag = tag

/-- `ngx_http_upstream_check_find_shm_peer` compares the addresses only,
`ngx_stream_upstream_check_find_shm_peer` the upstreams as well. -/
def findShmPeer (z : Zone) (peers : List (PeerRecord Pid Addr)) (peer : ConfPeer Addr) :
    Option (PeerRecord Pid Addr) :=
  match z with
  | .http => peers.find? fun record => record.sockaddr = peer.peerAddr
  | .stream => peers.find? fun record =>
      record.sockaddr = peer.peerAddr ∧ record.upstreamName = some peer.upstreamName

/-- The state of a peer that is new. -/
def ConfPeer.initial (peer : ConfPeer Addr) : PeerState where
  counts := { down := peer.conf.defaultDown }

/-- A record after `ngx_http_upstream_check_init_shm_peer`, with the fields that its caller has
written before. -/
def initShmPeer (z : Zone) (peer : ConfPeer Addr) (opsh : Option (PeerRecord Pid Addr)) :
    PeerRecord Pid Addr where
  sockaddr := peer.peerAddr
  upstreamName :=
    match z with
    | .http => none
    | .stream => some peer.upstreamName
  owner := none
  state := (opsh.map PeerRecord.state).getD peer.initial

/-- `ngx_http_upstream_check_init_shm_zone` in a zone with room for the peers. -/
def initShmZone (z : Zone) (generation : ℕ) (old : List (ShmZone Pid Addr))
    (block : CheckBlock Addr) (data : Option (PeersShm Pid Addr)) : PeersShm Pid Addr :=
  match data.filter fun opeers =>
    opeers.peers.length = block.peers.length ∧ opeers.checksum = block.checksum hash with
  -- the peers have not changed: the zone is used again as it is
  | some same => { same with peers := same.peers.map fun record => { record with owner := none } }
  | none =>
    let oshmZone :=
      if 1 < generation then sharedMemoryFind old (shmName z (generation - 1)) z else none
    let opeers :=
      match oshmZone with
      | some zone => zone.data
      | none => data
    { generation := generation
      checksum := block.checksum hash
      peers := block.peers.map fun peer =>
        initShmPeer z peer (opeers.bind fun opeers => findShmPeer z opeers.peers peer) }

/-- The load comes to its end. -/
def Load.succeeds (load : Load Addr) : Bool :=
  load.parsed && ([Zone.http, .stream].all fun z => (load.blocks z).isNone || load.room z) &&
    load.opened

namespace Master

/-- `init_shm` counts the load in the modules that have a block. -/
def bump (m : Master Pid Addr) (load : Load Addr) (z : Zone) : ℕ :=
  if (load.blocks z).isSome then m.generation z + 1 else m.generation z

/-- A zone of the new configuration. `ngx_init_cycle` looks for a zone of the same name among the
old ones, and passes its data on if the tag and the size are the same as well. -/
def newZone (m : Master Pid Addr) (z : Zone) (generation : ℕ) (block : CheckBlock Addr) :
    ShmZone Pid Addr :=
  let oshmZone := (m.zones.find? fun zone => zone.name = shmName z generation).filter fun zone =>
    zone.tag = z ∧ zone.size = block.shmSize
  { name := shmName z generation
    tag := z
    size := block.shmSize
    data := some (initShmZone hash z generation m.zones block (oshmZone.bind ShmZone.data)) }

/-- `ngx_init_cycle`. Wherever the load fails, the zones that it has created are freed and the old
configuration stays. -/
def initCycle (m : Master Pid Addr) (load : Load Addr) : Master Pid Addr :=
  if load.succeeds then
    { generation := m.bump load
      blocks := load.blocks
      zones := [Zone.http, .stream].filterMap fun z =>
        (load.blocks z).map (m.newZone hash z (m.bump load z)) }
  else { m with generation := m.bump load }

/-- A worker writes to the record of a peer. -/
def write (m : Master Pid Addr) (z : Zone) (index : ℕ)
    (f : PeerRecord Pid Addr → PeerRecord Pid Addr) : Master Pid Addr :=
  { m with zones := m.zones.map fun zone =>
      if zone.tag = z then
        { zone with data := zone.data.map fun data =>
            { data with peers := data.peers.modify index f } }
      else zone }

end Master

/-- What happens: a load, the end of a check by a worker of the running configuration, or a worker
that writes the owner of a peer. -/
inductive MasterEvent (Pid Addr : Type) where
  | load (load : Load Addr)
  | check (z : Zone) (index : ℕ) (result : Bool) (now : Msec)
  | own (z : Zone) (index : ℕ) (owner : Option Pid)

/-- The change that an event makes to a record of the module. -/
def MasterEvent.edit (block : CheckBlock Addr) :
    MasterEvent Pid Addr → PeerRecord Pid Addr → PeerRecord Pid Addr
  | .load _, record => record
  | .check _ index result now, record =>
    match block.peers[index]? with
    | some peer => { record with state := record.state.update peer result now }
    | none => record
  | .own _ _ owner, record => { record with owner := owner }

/-- One event. -/
def Master.step (m : Master Pid Addr) (event : MasterEvent Pid Addr) : Master Pid Addr :=
  match event with
  | .load load => m.initCycle hash load
  | .check z index _ _ | .own z index _ =>
    (m.blocks z).elim m fun block => m.write z index (event.edit block)

/-- The master before its first configuration. -/
def Master.start : Master Pid Addr where
  generation _ := 0
  blocks _ := none
  zones := []

/-- The master after some events. -/
def Master.run (events : List (MasterEvent Pid Addr)) : Master Pid Addr :=
  events.foldl (Master.step hash) .start

/-- The records that the workers of the running configuration use. -/
def Master.records (m : Master Pid Addr) (z : Zone) : List (PeerRecord Pid Addr) :=
  (((m.zones.find? fun zone => zone.tag = z).bind ShmZone.data).map PeersShm.peers).getD []

/-- The peers that the workers of the running configuration check. -/
def Master.peers (m : Master Pid Addr) : Peers where
  zone z := List.zipWith (fun peer record => peer.checked record.state.counts)
    (((m.blocks z).map CheckBlock.peers).getD []) (m.records z)

end Model

/-! ### One module -/

section Modules

variable {Pid Addr : Type} {hash : String → UInt32}

/-- The zone of a module in the running configuration. -/
structure Installed (Pid Addr : Type) where
  generation : ℕ
  block : CheckBlock Addr
  records : List (PeerRecord Pid Addr)

/-- A module with its counter of loads. The zone that is installed comes from one of them. -/
structure ModuleCycle (Pid Addr : Type) where
  generation : ℕ
  installed : Option (Installed Pid Addr)
  generation_le : ∀ i ∈ installed, 1 ≤ i.generation ∧ i.generation ≤ generation

namespace ModuleCycle

/-- The records of the zone that is installed. -/
def records (c : ModuleCycle Pid Addr) : List (PeerRecord Pid Addr) :=
  (c.installed.map Installed.records).getD []

/-- The records from which a load inherits: those that are installed, if no load has been counted
since. -/
def inherited (c : ModuleCycle Pid Addr) : List (PeerRecord Pid Addr) :=
  ((c.installed.filter fun i => i.generation = c.generation).map Installed.records).getD []

/-- A load without a block for the module, which succeeds or not. -/
def skip (c : ModuleCycle Pid Addr) (succeeds : Bool) : ModuleCycle Pid Addr :=
  if succeeds then ⟨c.generation, none, fun _ h => by cases h⟩ else c

/-- A worker writes to the record of a peer. -/
def write (c : ModuleCycle Pid Addr) (index : ℕ)
    (f : CheckBlock Addr → PeerRecord Pid Addr → PeerRecord Pid Addr) : ModuleCycle Pid Addr where
  generation := c.generation
  installed := c.installed.map fun i => { i with records := i.records.modify index (f i.block) }
  generation_le := by
    intro i hi
    obtain ⟨j, hj, rfl⟩ := Option.mem_map.mp hi
    exact c.generation_le j hj

theorem write_of_none {c : ModuleCycle Pid Addr} (h : c.installed = none) {index : ℕ}
    {f : CheckBlock Addr → PeerRecord Pid Addr → PeerRecord Pid Addr} : c.write index f = c := by
  obtain ⟨generation, installed, hle⟩ := c
  obtain rfl : installed = none := h
  rfl

variable [DecidableEq Addr] {z : Zone}

/-- A load with a block for the module. -/
def load (z : Zone) (c : ModuleCycle Pid Addr) (block : CheckBlock Addr) (succeeds : Bool) :
    ModuleCycle Pid Addr where
  generation := c.generation + 1
  installed :=
    if succeeds then
      some ⟨c.generation + 1, block,
        block.peers.map fun peer => initShmPeer z peer (findShmPeer z c.inherited peer)⟩
    else c.installed
  generation_le := by
    cases succeeds with
    | true =>
      rintro i ⟨rfl⟩
      exact ⟨Nat.le_add_left 1 _, Nat.le_refl _⟩
    | false =>
      intro i hi
      have h := c.generation_le i hi
      omega

/-- One event, as far as the module is concerned. -/
def step (z : Zone) (c : ModuleCycle Pid Addr) (event : MasterEvent Pid Addr) :
    ModuleCycle Pid Addr :=
  match event with
  | .load load =>
    match load.blocks z with
    | some block => c.load z block load.succeeds
    | none => c.skip load.succeeds
  | .check z' index _ _ | .own z' index _ =>
    if z' = z then c.write index fun block => event.edit block else c

theorem step_load_of_some {c : ModuleCycle Pid Addr} {attempt : Load Addr} {block : CheckBlock Addr}
    (h : attempt.blocks z = some block) :
    c.step z (.load attempt) = c.load z block attempt.succeeds := by
  simp only [step, h]

theorem step_load_of_none {c : ModuleCycle Pid Addr} {attempt : Load Addr}
    (h : attempt.blocks z = none) : c.step z (.load attempt) = c.skip attempt.succeeds := by
  simp only [step, h]

/-- The module before the first configuration. -/
def start : ModuleCycle Pid Addr := ⟨0, none, fun _ h => by cases h⟩

/-- The module after some events. -/
def run (z : Zone) (events : List (MasterEvent Pid Addr)) : ModuleCycle Pid Addr :=
  events.foldl (step z) start

theorem run_append (first second : List (MasterEvent Pid Addr)) :
    run z (first ++ second) = second.foldl (step z) (run z first) := List.foldl_append

end ModuleCycle

/-- The peers that the workers check with the zone. -/
def Installed.peers (i : Installed Pid Addr) : List Peer :=
  List.zipWith (fun peer record => peer.checked record.state.counts) i.block.peers i.records

/-- The zone as it is in shared memory. -/
def Installed.zone (hash : String → UInt32) (z : Zone) (i : Installed Pid Addr) :
    ShmZone Pid Addr where
  name := shmName z i.generation
  tag := z
  size := i.block.shmSize
  data := some ⟨i.generation, i.block.checksum hash, i.records⟩

/-- The master with the given modules. -/
def Master.ofModules (hash : String → UInt32) (c : Zone → ModuleCycle Pid Addr) :
    Master Pid Addr where
  generation z := (c z).generation
  blocks z := (c z).installed.map Installed.block
  zones := [Zone.http, .stream].filterMap fun z => (c z).installed.map (Installed.zone hash z)

/-- Neither the modules nor the loads of a module share a name. -/
theorem shmName_injective {z z' : Zone} {g g' : ℕ} (h : shmName z g = shmName z' g') :
    z = z' ∧ g = g' := by
  have hlist : (shmBase z).toList ++ ("#".toList ++ (toString g).toList) =
      (shmBase z').toList ++ ("#".toList ++ (toString g').toList) := by
    have hname := congrArg String.toList h
    simpa only [shmName, String.toList_append, List.append_assoc] using hname
  have hlong : ∀ z, 5 ≤ (shmBase z).toList.length := by
    intro z
    cases z <;> decide
  have hzone : z = z' := by
    -- the names differ in the fifth character
    have htake := congrArg (List.take 5) hlist
    rw [List.take_append_of_le_length (hlong z), List.take_append_of_le_length (hlong z')] at htake
    revert htake
    cases z <;> cases z' <;> decide
  subst hzone
  refine ⟨rfl, ?_⟩
  have hdigits : (toString g).toList = (toString g').toList :=
    List.append_cancel_left (List.append_cancel_left hlist)
  have hint : toString (g : ℤ) = toString (g' : ℤ) := String.toList_injective hdigits
  exact Int.ofNat.inj (toString_int_injective hint)

namespace Master

variable {c : Zone → ModuleCycle Pid Addr}

/-- A search among the zones that no zone of the other module can answer. -/
theorem find?_zones (z : Zone) {P : ShmZone Pid Addr → Bool}
    (hother : ∀ z' i, z' ≠ z → P (Installed.zone hash z' i) = false) :
    (ofModules hash c).zones.find? P =
      ((c z).installed.map (Installed.zone hash z)).filter P := by
  have hcons : ∀ (first second : Option (ShmZone Pid Addr)),
      ([first, second].filterMap id).find? P = (first.filter P).or (second.filter P) := by
    intro first second
    cases first with
    | none => cases second <;> simp [Option.filter, List.find?_singleton]
    | some zone =>
      cases second <;> cases hzone : P zone <;> simp [Option.filter, hzone, List.find?_singleton]
  have hnone : ∀ z', z' ≠ z → ((c z').installed.map (Installed.zone hash z')).filter P = none := by
    intro z' hne
    cases (c z').installed with
    | none => rfl
    | some i => simp [Option.filter, hother z' i hne]
  change (([(c .http).installed.map (Installed.zone hash .http),
    (c .stream).installed.map (Installed.zone hash .stream)] :
      List (Option (ShmZone Pid Addr))).filterMap id).find? P = _
  rw [hcons]
  cases z with
  | http => rw [hnone .stream (by decide), Option.or_none]
  | stream => rw [hnone .http (by decide), Option.none_or]

/-- A write acts on the module of the record. -/
theorem write_ofModules (z : Zone) (index : ℕ)
    (f : CheckBlock Addr → PeerRecord Pid Addr → PeerRecord Pid Addr) {i : Installed Pid Addr}
    (hi : (c z).installed = some i) :
    (ofModules hash c).write z index (f i.block) =
      ofModules hash fun z' => if z = z' then (c z').write index f else c z' := by
  have hgeneration : ∀ z', (c z').generation =
      (if z = z' then (c z').write index f else c z').generation := by
    intro z'
    split_ifs <;> rfl
  have hblocks : ∀ z', (c z').installed.map Installed.block =
      (if z = z' then (c z').write index f else c z').installed.map Installed.block := by
    intro z'
    split_ifs
    · simp [ModuleCycle.write, Function.comp_def]
    · rfl
  simp only [write, ofModules, mk.injEq]
  refine ⟨funext hgeneration, funext hblocks, ?_⟩
  rw [List.map_filterMap]
  refine List.filterMap_congr fun z' _ => ?_
  by_cases hz : z = z'
  · subst hz
    simp [hi, ModuleCycle.write, Installed.zone]
  · have hz' : ¬ z' = z := fun h => hz h.symm
    rw [if_neg hz]
    cases (c z').installed with
    | none => rfl
    | some j => simp [hz', Installed.zone]

/-- The zone of a load is found if it is installed. -/
theorem sharedMemoryFind_zones (z : Zone) (generation : ℕ) :
    sharedMemoryFind (ofModules hash c).zones (shmName z generation) z =
      ((c z).installed.filter fun i => i.generation = generation).map (Installed.zone hash z) := by
  rw [sharedMemoryFind, find?_zones z (fun z' i hne => by simp [Installed.zone, hne])]
  cases (c z).installed with
  | none => rfl
  | some i =>
    have hname : shmName z i.generation = shmName z generation ↔ i.generation = generation :=
      ⟨fun h => (shmName_injective h).2, fun h => by rw [h]⟩
    by_cases h : i.generation = generation <;> simp [Option.filter, Installed.zone, hname, h]

/-- The name of a new zone is new. -/
theorem find?_name_zones (z : Zone) :
    ((ofModules hash c).zones.find? fun zone => zone.name = shmName z ((c z).generation + 1)) =
      none := by
  rw [find?_zones z]
  · cases hi : (c z).installed with
    | none => rfl
    | some i =>
      have hle := (c z).generation_le i hi
      have hname : ¬ shmName z i.generation = shmName z ((c z).generation + 1) := by
        intro h
        have heq := (shmName_injective h).2
        omega
      simp [Option.filter, Installed.zone, hname]
  · intro z' i hne
    have hname : ¬ shmName z' i.generation = shmName z ((c z).generation + 1) := fun h =>
      hne (shmName_injective h).1
    simp [Installed.zone, hname]

/-- The search for the zone of the load before finds the zone from which the module inherits. -/
theorem previous_zones (z : Zone) :
    (if 1 < (c z).generation + 1 then
        sharedMemoryFind (ofModules hash c).zones (shmName z ((c z).generation + 1 - 1)) z
      else none) =
      ((c z).installed.filter fun i => i.generation = (c z).generation).map
        (Installed.zone hash z) := by
  rw [Nat.add_sub_cancel, sharedMemoryFind_zones]
  split_ifs with hfirst
  · rfl
  · -- nothing is installed before the first load
    cases hi : (c z).installed with
    | none => rfl
    | some i =>
      have hle := (c z).generation_le i hi
      omega

theorem records_ofModules (z : Zone) : (ofModules hash c).records z = (c z).records := by
  rw [records, find?_zones z fun z' i hne => by simp [Installed.zone, hne], ModuleCycle.records]
  cases (c z).installed with
  | none => rfl
  | some i => simp [Option.filter, Installed.zone]

theorem peers_ofModules (z : Zone) :
    (ofModules hash c).peers.zone z = ((c z).installed.map Installed.peers).getD [] := by
  change List.zipWith _ ((((c z).installed.map Installed.block).map CheckBlock.peers).getD [])
    ((ofModules hash c).records z) = _
  rw [records_ofModules, ModuleCycle.records]
  cases (c z).installed <;> rfl

variable [DecidableEq Addr]

/-- A new zone takes over the records from which the module inherits. -/
theorem newZone_ofModules (z : Zone) (block : CheckBlock Addr) :
    (ofModules hash c).newZone hash z ((c z).generation + 1) block =
      Installed.zone hash z ⟨(c z).generation + 1, block, block.peers.map fun peer =>
        initShmPeer z peer (findShmPeer z (c z).inherited peer)⟩ := by
  simp only [newZone, initShmZone, find?_name_zones, previous_zones, Option.filter_none,
    Option.bind_none, ModuleCycle.inherited, Installed.zone]
  cases (c z).installed.filter fun i => i.generation = (c z).generation with
  | none => cases z <;> rfl
  | some i => rfl

/-- A load acts on each module by itself. -/
theorem initCycle_ofModules (load : Load Addr) :
    (ofModules hash c).initCycle hash load =
      ofModules hash fun z => (c z).step z (.load load) := by
  have hbump : ∀ z, (ofModules hash c).bump load z = ((c z).step z (.load load)).generation := by
    intro z
    simp only [bump, ModuleCycle.step]
    cases hblock : load.blocks z with
    | none => cases hsucceeds : load.succeeds <;> simp [ModuleCycle.skip, ofModules]
    | some block => rfl
  unfold initCycle
  split_ifs with hsucceeds
  · have hzone : ∀ z, (load.blocks z).map
        ((ofModules hash c).newZone hash z ((ofModules hash c).bump load z)) =
          ((c z).step z (.load load)).installed.map (Installed.zone hash z) := by
      intro z
      rw [hbump]
      simp only [ModuleCycle.step]
      cases hblock : load.blocks z with
      | none => simp [ModuleCycle.skip, hsucceeds]
      | some block => simp [ModuleCycle.load, hsucceeds, newZone_ofModules]
    have hblocks : ∀ z, load.blocks z =
        ((c z).step z (.load load)).installed.map Installed.block := by
      intro z
      simp only [ModuleCycle.step]
      cases hblock : load.blocks z <;> simp [ModuleCycle.skip, ModuleCycle.load, hsucceeds]
    simp only [ofModules] at hbump hzone ⊢
    simp only [mk.injEq]
    exact ⟨funext hbump, funext hblocks, List.filterMap_congr fun z _ => hzone z⟩
  · have hinstalled : ∀ z, ((c z).step z (.load load)).installed = (c z).installed := by
      intro z
      simp only [ModuleCycle.step]
      cases hblock : load.blocks z <;> simp [ModuleCycle.skip, ModuleCycle.load, hsucceeds]
    simp only [ofModules] at hbump ⊢
    simp only [mk.injEq, hinstalled]
    exact ⟨funext hbump, trivial, trivial⟩

/-- The master is its modules. -/
theorem step_ofModules (event : MasterEvent Pid Addr) :
    (ofModules hash c).step hash event = ofModules hash fun z => (c z).step z event := by
  have hwrite : ∀ z index (f : CheckBlock Addr → PeerRecord Pid Addr → PeerRecord Pid Addr),
      (((ofModules hash c).blocks z).elim (ofModules hash c) fun block =>
        (ofModules hash c).write z index (f block)) =
      ofModules hash fun z' => if z = z' then (c z').write index f else c z' := by
    intro z index f
    cases hi : (c z).installed with
    | some i =>
      have hblock : (ofModules hash c).blocks z = some i.block := by simp [ofModules, hi]
      rw [hblock]
      exact write_ofModules z index f hi
    | none =>
      have hblock : (ofModules hash c).blocks z = none := by simp [ofModules, hi]
      have hsame : (fun z' => if z = z' then (c z').write index f else c z') = c := by
        funext z'
        split_ifs with hz
        · exact ModuleCycle.write_of_none (hz ▸ hi)
        · rfl
      rw [hblock, hsame]
      rfl
  cases event with
  | load load => exact initCycle_ofModules load
  | check z index result now =>
    exact hwrite z index fun block => (MasterEvent.check z index result now).edit block
  | own z index owner =>
    exact hwrite z index fun block => (MasterEvent.own z index owner).edit block

/-- A run of the master is a run of each module. -/
theorem run_ofModules (events : List (MasterEvent Pid Addr)) :
    events.foldl (step hash) (ofModules hash c) =
      ofModules hash fun z => events.foldl (ModuleCycle.step z) (c z) := by
  induction events generalizing c with
  | nil => rfl
  | cons event events ih => rw [List.foldl_cons, step_ofModules, ih]; rfl

/-- The master after any run is its modules after it. -/
theorem run_eq_ofModules (events : List (MasterEvent Pid Addr)) :
    run hash events = ofModules hash fun z => ModuleCycle.run z events :=
  run_ofModules (c := fun _ => ModuleCycle.start) events

theorem peers_run (events : List (MasterEvent Pid Addr)) (z : Zone) :
    (run hash events).peers.zone z =
      ((ModuleCycle.run z events).installed.map Installed.peers).getD [] := by
  rw [run_eq_ofModules, peers_ofModules]

theorem records_run (events : List (MasterEvent Pid Addr)) (z : Zone) :
    (run hash events).records z = (ModuleCycle.run z events).records := by
  rw [run_eq_ofModules, records_ofModules]

end Master

end Modules

end HealthCheck.Nginx
