import HealthCheck.Endpoints.Predicates
import HealthCheck.Nginx.Upstream
import HealthCheck.Store.Jobs

/-!
# The upstream files

Every edit of the upstream files parses the whole configuration, changes the directives of one
file in memory and writes this file back. Parsing and building are taken to be inverse to each
other, and writing to succeed, so a file is the list of its directives.
-/

namespace HealthCheck.Nginx

open Store

/-- The contents of the two files. -/
abbrev Files := UpstreamFile → List BlockDirective

/-- A job on the two files. -/
abbrev FileJob := Job UpstreamFile (List BlockDirective)

/-- The order in which a parse lists the files. It follows the `include` directives of
`nginx.conf`, which is not part of the controller. -/
structure Payload where
  config : List UpstreamFile
  nodup : config.Nodup
  complete : ∀ file, file ∈ config

/-- The directives that `delServerInNginxUpstream` keeps: upstreams of other names. Directives
that are no upstreams go too. An upstream always has a name, or it would not have been parsed. -/
def keeps (name : String) (p : BlockDirective) : Bool :=
  p.directive = "upstream" ∧ p.args.head? ≠ some name

/-- The change that `delServerInNginxUpstream` makes to a file. -/
def delBlocks (name : String) : Function.End (List BlockDirective) :=
  fun parsed => parsed.filter (keeps name)

/-- `delServerInNginxUpstream`. A file without directives is not written. -/
def delServerInNginxUpstream (payload : Payload) (name : String) : FileJob :=
  .edit (fun _ => delBlocks name) (fun _ parsed => parsed.isEmpty) payload.config

/-- The change that `writeNginxUpstream` makes to a file. -/
def appendBlocks (blocks : List BlockDirective) : Function.End (List BlockDirective) :=
  fun parsed => parsed ++ blocks

/-- `writeNginxUpstream`. Only the file at the path is written. -/
def writeNginxUpstream (payload : Payload) (path : UpstreamFile) (blocks : List BlockDirective) :
    FileJob :=
  .edit (fun file => if file = path then appendBlocks blocks else 1) (fun file _ => file ≠ path)
    payload.config

/-- The calls of `writeNginxUpstream`, one for each block. -/
def writeAll (payload : Payload) : List (UpstreamFile × BlockDirective) → FileJob
  | [] => .done
  | (path, block) :: written =>
    (writeNginxUpstream payload path [block]).andThen (writeAll payload written)

/-- The blocks that `addServerInNginxUpstream` writes; none after an error or a panic. -/
def writtenBlocks (endpoints : Endpoints) : List (UpstreamFile × BlockDirective) :=
  match addServerInNginxUpstream endpoints with
  | some (.ok written) => written
  | _ => []

/-- The endpoints branch of `Reconcile`. -/
def reconcileEndpoints (payload : Payload) (endpoints : Endpoints) : FileJob :=
  if endpoints.metadata.label vsHcIsEnable = "true" then
    (delServerInNginxUpstream payload (svcNsName endpoints)).andThen
      (writeAll payload (writtenBlocks endpoints))
  else if endpoints.metadata.label vsHcIsEnable = "false" then
    delServerInNginxUpstream payload (svcNsName endpoints)
  else .done

/-- What the `Delete` predicate does to the files for an `Endpoints` object. -/
def deleteEndpoints (payload : Payload) (endpoints : Endpoints) : FileJob :=
  if endpoints.managed then delServerInNginxUpstream payload (svcNsName endpoints) else .done

/-! ### The edits -/

theorem delBlocks_of_isEmpty {name : String} {parsed : List BlockDirective}
    (h : parsed.isEmpty = true) : delBlocks name parsed = parsed := by
  rw [List.isEmpty_iff.mp h]
  rfl

/-- The blocks for one of the files. -/
def blocksFor (written : List (UpstreamFile × BlockDirective)) (file : UpstreamFile) :
    List BlockDirective :=
  (written.filter fun w => w.1 = file).map Prod.snd

theorem appendBlocks_nil : appendBlocks [] = 1 := by
  funext parsed
  exact List.append_nil parsed

/-- The first block and then the others. -/
theorem appendBlocks_blocksFor_cons (path : UpstreamFile) (block : BlockDirective)
    (written : List (UpstreamFile × BlockDirective)) (file : UpstreamFile) :
    appendBlocks (blocksFor ((path, block) :: written) file) =
      appendBlocks (blocksFor written file) *
        if file = path then appendBlocks [block] else 1 := by
  by_cases hpath : file = path
  · have hfirst : blocksFor ((path, block) :: written) file = block :: blocksFor written file := by
      simp [blocksFor, hpath]
    funext parsed
    rw [hfirst, if_pos hpath]
    exact List.append_cons parsed block _
  · have hother : ¬ path = file := fun h => hpath h.symm
    have hrest : blocksFor ((path, block) :: written) file = blocksFor written file := by
      simp [blocksFor, hother]
    rw [hrest, if_neg hpath, mul_one]

variable (payload : Payload)

theorem alone_delServerInNginxUpstream (name : String) (files : Files) :
    (delServerInNginxUpstream payload name).alone files = fun file => delBlocks name (files file) :=
  alone_edit (fun _ _ h => delBlocks_of_isEmpty h) payload.nodup payload.complete files

theorem alone_writeNginxUpstream (path : UpstreamFile) (blocks : List BlockDirective)
    (files : Files) : (writeNginxUpstream payload path blocks).alone files =
      fun file => (if file = path then appendBlocks blocks else 1) (files file) := by
  refine alone_edit (fun file parsed h => ?_) payload.nodup payload.complete files
  rw [if_neg (of_decide_eq_true h)]
  rfl

theorem alone_writeAll (written : List (UpstreamFile × BlockDirective)) (files : Files) :
    (writeAll payload written).alone files =
      fun file => appendBlocks (blocksFor written file) (files file) := by
  induction written generalizing files with
  | nil =>
    funext file
    exact (List.append_nil (files file)).symm
  | cons w written ih =>
    obtain ⟨path, block⟩ := w
    rw [writeAll, Job.alone_andThen, ih, alone_writeNginxUpstream]
    funext file
    rw [appendBlocks_blocksFor_cons]
    rfl

/-! ### The blocks of a service -/

theorem writeNonempty_append (name : String) (blocks : ServerBlocks) :
    writeNonempty .http name blocks.tcpServerBlockParam ++
        writeNonempty .stream name blocks.udpServerBlockParam =
      ([UpstreamFile.http, .stream].filter fun path => blocks.of path ≠ []).map
        fun path => (path, upstreamDirective name (blocks.of path)) := by
  by_cases htcp : blocks.tcpServerBlockParam = []
  · by_cases hudp : blocks.udpServerBlockParam = []
    · simp [writeNonempty, ServerBlocks.of, htcp, hudp]
    · simp [writeNonempty, ServerBlocks.of, htcp, hudp]
  · by_cases hudp : blocks.udpServerBlockParam = []
    · simp [writeNonempty, ServerBlocks.of, htcp, hudp]
    · simp [writeNonempty, ServerBlocks.of, htcp, hudp]

/-- A service has at most one block in a file, and it bears the name of the service. -/
theorem writtenBlocks_eq (endpoints : Endpoints) : ∃ (paths : List UpstreamFile)
    (block : UpstreamFile → List Directive), paths.Nodup ∧ writtenBlocks endpoints =
      paths.map fun path => (path, upstreamDirective (svcNsName endpoints) (block path)) := by
  have hnone : ∃ (paths : List UpstreamFile) (block : UpstreamFile → List Directive),
      paths.Nodup ∧ ([] : List (UpstreamFile × BlockDirective)) =
        paths.map fun path => (path, upstreamDirective (svcNsName endpoints) (block path)) :=
    ⟨[], fun _ => [], List.nodup_nil, rfl⟩
  unfold writtenBlocks addServerInNginxUpstream
  cases getHcFromEndpoints endpoints with
  | none => exact hnone
  | some hcPara =>
    rw [Option.map_some]
    split_ifs
    · cases getEndpointsAddress endpoints with
      | error e => exact hnone
      | ok ips =>
        exact ⟨[upstreamFile hcPara.protocol], fun _ => singlePortBlock hcPara ips,
          List.nodup_singleton _, rfl⟩
    · cases getEndpointsPort endpoints with
      | error e => exact hnone
      | ok epPorts =>
        have hnodup : [UpstreamFile.http, .stream].Nodup := by decide
        exact ⟨_, _, hnodup.filter _, writeNonempty_append (svcNsName endpoints) _⟩

theorem of_mem_writtenBlocks {endpoints : Endpoints} {w : UpstreamFile × BlockDirective}
    (hw : w ∈ writtenBlocks endpoints) :
    ∃ block, w.2 = upstreamDirective (svcNsName endpoints) block := by
  obtain ⟨paths, block, -, hwritten⟩ := writtenBlocks_eq endpoints
  rw [hwritten, List.mem_map] at hw
  obtain ⟨path, -, rfl⟩ := hw
  exact ⟨block path, rfl⟩

/-- The blocks in a file that `addServerInNginxUpstream` makes from an object. -/
def generated (endpoints : Endpoints) (file : UpstreamFile) : List BlockDirective :=
  blocksFor (writtenBlocks endpoints) file

theorem exists_of_mem_generated {endpoints : Endpoints} {file : UpstreamFile} {b : BlockDirective}
    (hb : b ∈ generated endpoints file) : ∃ path, (path, b) ∈ writtenBlocks endpoints := by
  obtain ⟨⟨path, b'⟩, hw, rfl⟩ := List.mem_map.mp hb
  exact ⟨path, List.mem_of_mem_filter hw⟩

theorem length_generated_le_one (endpoints : Endpoints) (file : UpstreamFile) :
    (generated endpoints file).length ≤ 1 := by
  obtain ⟨paths, block, hnodup, hwritten⟩ := writtenBlocks_eq endpoints
  rw [generated, blocksFor, hwritten, List.length_map, List.filter_map, List.length_map]
  calc (paths.filter fun path => path = file).length
      = paths.count file := (List.count_eq_length_filter).symm
    _ ≤ 1 := List.nodup_iff_count_le_one.mp hnodup file

end HealthCheck.Nginx
