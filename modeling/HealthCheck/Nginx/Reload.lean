import HealthCheck.Nginx.Labels
import HealthCheck.Nginx.Requests

/-!
# When nginx is reloaded

The endpoints branch of `Reconcile` rewrites the upstream files, appends the blocks of the service
and reloads nginx, and it returns at the first error in between. Here the files are texts, the
functions of the crossplane library that parse and build them are parameters, and so is the outcome
of every step: a parse that cannot open a file, a build that fails, a write that fails or leaves a
part of the text only, and the reload.
-/

namespace HealthCheck.Nginx

/-- What becomes of a file that is written. -/
inductive WriteOutcome (κ : Type) where
  | written
  | failed
  | cut (text : κ)

/-- The functions of the crossplane library: the directives that a parse finds in a text, none if
the text is malformed, and the text built from directives. -/
structure Crossplane (κ : Type) where
  parse : κ → List BlockDirective
  build : List BlockDirective → Option κ

/-- The outcomes of the steps of the branch. A parse is true when every file can be opened. -/
structure BranchOutcomes (κ : Type) where
  delParse : Bool
  delWrite : UpstreamFile → WriteOutcome κ
  addParse : UpstreamFile → Bool
  addWrite : UpstreamFile → WriteOutcome κ
  reload : Bool

/-- How the branch returns: the files, whether `reloadNgx` was invoked after the last write to
them, and whether the error is nil. -/
structure BranchResult (κ : Type) where
  files : UpstreamFile → κ
  reloaded : Bool
  ok : Bool

variable {κ : Type} (lib : Crossplane κ) (o : BranchOutcomes κ)

/-- `writeCrossplane`. Its error is dropped by all callers. -/
def writeCrossplane (outcome : WriteOutcome κ) (parsed : List BlockDirective) (text : κ) : κ :=
  match lib.build parsed with
  | none => text
  | some new =>
    match outcome with
    | .written => new
    | .failed => text
    | .cut part => part

/-- `delServerInNginxUpstream`; the result is `none` for a panic: the error of the parse is logged,
and then the payload, a nil pointer, is dereferenced. -/
def delServer (name : String) (files : UpstreamFile → κ) : Option (UpstreamFile → κ) :=
  if o.delParse then
    some fun file =>
      if (lib.parse (files file)).isEmpty then files file
      else
        writeCrossplane lib (o.delWrite file) (delBlocks name (lib.parse (files file))) (files file)
  else none

/-- `writeNginxUpstream` with one block; the result is false when an error is returned. -/
def writeServer (state : (UpstreamFile → κ) × Bool) (w : UpstreamFile × BlockDirective) :
    (UpstreamFile → κ) × Bool :=
  if o.addParse w.1 then
    (Function.update state.1 w.1 (writeCrossplane lib (o.addWrite w.1)
      (lib.parse (state.1 w.1) ++ [w.2]) (state.1 w.1)), state.2)
  else (state.1, false)

/-- `addServerInNginxUpstream` returns the error of `writeNginxUpstream` only in the mode for a
single port. -/
def returnsWriteError (endpoints : Endpoints) : Bool :=
  (getHcFromEndpoints endpoints).any fun hcPara => Go.equalFold hcPara.isEnableAllPorts "false"

/-- `addServerInNginxUpstream` with its writes; `none` is a panic. -/
def addServer (endpoints : Endpoints) (files : UpstreamFile → κ) :
    Option ((UpstreamFile → κ) × Bool) :=
  (addServerInNginxUpstream endpoints).map fun blocks =>
    match blocks with
    | .error _ => (files, false)
    | .ok written =>
      let r := written.foldl (writeServer lib o) (files, true)
      (r.1, r.2 || !returnsWriteError endpoints)

/-- The endpoints branch of `Reconcile`; `none` is a panic. -/
def endpointsBranch (endpoints : Endpoints) (files : UpstreamFile → κ) :
    Option (BranchResult κ) :=
  if endpoints.metadata.label vsHcIsEnable = "true" then do
    let files ← delServer lib o (svcNsName endpoints) files
    let (files, added) ← addServer lib o endpoints files
    if added then some ⟨files, true, o.reload⟩ else some ⟨files, false, false⟩
  else if endpoints.metadata.label vsHcIsEnable = "false" then do
    let files ← delServer lib o (svcNsName endpoints) files
    some ⟨files, true, o.reload⟩
  else some ⟨files, false, true⟩

/-- `addServerInNginxUpstream` returns an error: there is no address, or the files cannot be opened,
in the mode for a single port; there is no port in the mode for all ports. -/
def AddFails (endpoints : Endpoints) : Prop :=
  ∃ hcPara ∈ getHcFromEndpoints endpoints,
    if singlePort endpoints then
      listedIps endpoints = [] ∨ o.addParse (upstreamFile hcPara.protocol) = false
    else portsOf endpoints = []

/-- How `addServerInNginxUpstream` ends. When it returns an error it has not written anything. -/
theorem addServer_cases {endpoints : Endpoints}
    (henabled : endpoints.metadata.label vsHcIsEnable = "true") (files : UpstreamFile → κ) :
    (¬ AddFails o endpoints ∧ addServer lib o endpoints files = none) ∨
      (AddFails o endpoints ∧ addServer lib o endpoints files = some (files, false)) ∨
      (¬ AddFails o endpoints ∧
        ∃ files', addServer lib o endpoints files = some (files', true)) := by
  unfold AddFails addServer addServerInNginxUpstream returnsWriteError
  cases hhc : getHcFromEndpoints endpoints with
  | none => exact .inl ⟨by simp, rfl⟩
  | some hcPara =>
    have hread := (of_getHcFromEndpoints (isEnable_ne_empty henabled) hhc).isEnableAllPorts
    have haddress : getEndpointsAddress endpoints = if listedIps endpoints = [] then
        .error "endpoints address is nil" else .ok (listedIps endpoints) := rfl
    have hports : getEndpointsPort endpoints = if portsOf endpoints = [] then
        .error "endpoints ports is nil" else .ok (portsOf endpoints) := rfl
    simp only [Option.map_some, Option.any_some, Option.mem_some, exists_eq_left', hread]
    cases singlePort endpoints with
    | true =>
      by_cases hips : listedIps endpoints = []
      · simp [haddress, hips, Except.map]
      · cases hparse : o.addParse (upstreamFile hcPara.protocol) with
        | true => simp [haddress, hips, Except.map, writeServer, hparse]
        | false => simp [haddress, hips, Except.map, writeServer, hparse]
    | false =>
      by_cases hnone : portsOf endpoints = []
      · simp [hports, hnone, Except.map]
      · simp [hports, hnone, Except.map]

/-- The deletion leaves a file as it is: nothing is parsed in it, or the build fails, or the write
fails, or the text that is written is that of the file already. -/
def Unchanged (name : String) (files : UpstreamFile → κ) (file : UpstreamFile) : Prop :=
  lib.parse (files file) = [] ∨
    lib.build (delBlocks name (lib.parse (files file))) = none ∨
    o.delWrite file = .failed ∨
    (o.delWrite file = .written ∧
      lib.build (delBlocks name (lib.parse (files file))) = some (files file)) ∨
    o.delWrite file = .cut (files file)

theorem writeCrossplane_eq_iff (outcome : WriteOutcome κ) (parsed : List BlockDirective)
    (text : κ) :
    writeCrossplane lib outcome parsed text = text ↔
      lib.build parsed = none ∨ outcome = .failed ∨
        (outcome = .written ∧ lib.build parsed = some text) ∨ outcome = .cut text := by
  rw [writeCrossplane]
  cases lib.build parsed with
  | none => simp
  | some new => cases outcome <;> simp

/-- The deletion either panics or leaves the files that are unchanged. -/
theorem delServer_eq_iff (name : String) (files : UpstreamFile → κ) :
    (∀ deleted ∈ delServer lib o name files, deleted = files) ↔
      (o.delParse = true → ∀ file, Unchanged lib o name files file) := by
  rw [delServer]
  cases o.delParse with
  | false => simp
  | true =>
    simp only [if_true, Option.mem_some, forall_eq', true_imp_iff]
    rw [funext_iff]
    refine forall_congr' fun file => ?_
    rw [Unchanged]
    by_cases hparse : lib.parse (files file) = []
    · simp [hparse]
    · rw [if_neg (by simpa using hparse), writeCrossplane_eq_iff, or_iff_right hparse]

/-- When the branch returns, the files are as before or nginx has been reloaded after the last
write, if and only if the deletion finds nothing to change in the files, or fails to change them,
whenever the addition fails. -/
theorem reloaded_after_write_iff (endpoints : Endpoints) (files : UpstreamFile → κ) :
    (∀ r ∈ endpointsBranch lib o endpoints files, r.files = files ∨ r.reloaded = true) ↔
      (endpoints.metadata.label vsHcIsEnable = "true" → AddFails o endpoints → o.delParse = true →
        ∀ file, Unchanged lib o (svcNsName endpoints) files file) := by
  rw [← delServer_eq_iff]
  unfold endpointsBranch
  by_cases henabled : endpoints.metadata.label vsHcIsEnable = "true"
  · rw [if_pos henabled]
    cases delServer lib o (svcNsName endpoints) files with
    | none => simp
    | some deleted =>
      simp only [Option.bind_eq_bind, Option.bind_some, Option.mem_some, forall_eq', henabled,
        forall_const]
      rcases addServer_cases lib o henabled deleted with
        ⟨hok, hadd⟩ | ⟨hfails, hadd⟩ | ⟨hok, files', hadd⟩
      · simp [hadd, hok]
      · simp [hadd, hfails]
      · simp [hadd, hok]
  · rw [if_neg henabled]
    split
    · cases delServer lib o (svcNsName endpoints) files with
      | none => simp [henabled]
      | some deleted => simp [henabled]
    · simp [henabled]

/-! ### Files as lists of directives -/

/-- Parsing and building that are inverse to each other. -/
def Crossplane.plain : Crossplane (List BlockDirective) := ⟨id, some⟩

/-- All steps succeed. -/
def BranchOutcomes.success : BranchOutcomes κ :=
  ⟨true, fun _ => .written, fun _ => true, fun _ => .written, true⟩

theorem delServer_plain (name : String) (files : Files) :
    delServer .plain .success name files = some fun file => delBlocks name (files file) := by
  simp only [delServer, BranchOutcomes.success, if_true, Option.some.injEq]
  funext file
  split
  · next hempty => exact (delBlocks_of_isEmpty hempty).symm
  · rfl

theorem foldl_writeServer_plain (written : List (UpstreamFile × BlockDirective)) (files : Files) :
    written.foldl (writeServer .plain .success) (files, true) =
      (fun file => appendBlocks (blocksFor written file) (files file), true) := by
  induction written generalizing files with
  | nil =>
    rw [List.foldl_nil, Prod.mk.injEq]
    exact ⟨funext fun file => (List.append_nil (files file)).symm, rfl⟩
  | cons w written ih =>
    obtain ⟨path, block⟩ := w
    have hround : writeServer .plain .success (files, true) (path, block) =
        (Function.update files path (files path ++ [block]), true) := rfl
    rw [List.foldl_cons, hround, ih, Prod.mk.injEq]
    refine ⟨funext fun file => ?_, rfl⟩
    rw [appendBlocks_blocksFor_cons]
    by_cases hfile : file = path
    · subst hfile
      rw [Function.update_self, if_pos rfl]
      rfl
    · rw [Function.update_of_ne hfile, if_neg hfile]
      rfl

/-- When all steps succeed, the branch leaves the files that its job leaves. -/
theorem endpointsBranch_plain (payload : Payload) (endpoints : Endpoints) (files : Files) :
    ∀ r ∈ endpointsBranch .plain .success endpoints files,
      r.files = (reconcileEndpoints payload endpoints).alone files := by
  intro r hr
  unfold endpointsBranch at hr
  unfold reconcileEndpoints
  rw [delServer_plain] at hr
  simp only [Option.bind_eq_bind, Option.bind_some] at hr
  by_cases henabled : endpoints.metadata.label vsHcIsEnable = "true"
  · rw [if_pos henabled] at hr ⊢
    rw [Store.Job.alone_andThen, alone_delServerInNginxUpstream, alone_writeAll]
    unfold addServer at hr
    unfold writtenBlocks
    cases hadd : addServerInNginxUpstream endpoints with
    | none => simp [hadd] at hr
    | some blocks =>
      cases blocks with
      | error e =>
        simp only [hadd, Option.map_some, Option.bind_some, Bool.false_eq_true, if_false,
          Option.mem_some] at hr
        subst hr
        exact funext fun file => (List.append_nil _).symm
      | ok written =>
        simp only [hadd, Option.map_some, Option.bind_some, foldl_writeServer_plain, Bool.true_or,
          if_true, Option.mem_some] at hr
        subst hr
        rfl
  · rw [if_neg henabled] at hr ⊢
    split at hr
    · next hdisabled =>
      rw [if_pos hdisabled, alone_delServerInNginxUpstream]
      cases hr
      rfl
    · next hneither =>
      rw [if_neg hneither]
      cases hr
      rfl

/-- An enabled object without endpoints. -/
def noEndpoints : Endpoints where
  metadata := { name := "web", nameSpace := "prod",
                labels := (∅ : Go.Map String String).insert vsHcIsEnable "true" }

/-- The http file with the upstream of that object. -/
def upstreamBefore : Files
  | .http => [upstreamDirective "web_prod" (serverDirectives ["10.0.0.7"] 80)]
  | .stream => []

/-- The last endpoint of a service is gone: its upstream is deleted from the file, the addition
returns an error, and nginx goes on with the upstream. -/
theorem not_reloaded_without_endpoints :
    ¬ ∀ r ∈ endpointsBranch .plain .success noEndpoints upstreamBefore,
      r.files = upstreamBefore ∨ r.reloaded = true := by
  have henabled : noEndpoints.metadata.label vsHcIsEnable = "true" := by decide
  have hfails : AddFails (.success : BranchOutcomes (List BlockDirective)) noEndpoints := by
    have hread : (getHcFromEndpoints noEndpoints).isSome = true := by decide
    obtain ⟨hcPara, hhc⟩ := Option.isSome_iff_exists.mp hread
    refine ⟨hcPara, hhc, ?_⟩
    rw [if_neg (by decide)]
    rfl
  have hbranch : endpointsBranch .plain .success noEndpoints upstreamBefore =
      some ⟨fun file => delBlocks (svcNsName noEndpoints) (upstreamBefore file), false, false⟩ := by
    rw [endpointsBranch, if_pos henabled, delServer_plain]
    rcases addServer_cases .plain .success henabled
        (fun file => delBlocks (svcNsName noEndpoints) (upstreamBefore file)) with
      ⟨hok, -⟩ | ⟨-, hadd⟩ | ⟨hok, -⟩
    · exact absurd hfails hok
    · simp [hadd]
    · exact absurd hfails hok
  intro hreloaded
  rcases hreloaded _ hbranch with hfiles | hreload
  · exact absurd (congrFun hfiles .http) (by decide)
  · cases hreload

end HealthCheck.Nginx
