import HealthCheck.Nginx.Files

/-!
# The upstream files and the enabled services

What the files are for: they hold the upstreams of the services that are enabled, as
generated from the latest `Endpoints` object of each service, and nothing else. Events are
handled one at a time here; the files start empty.
-/

namespace HealthCheck.Nginx

open Runs Store

/-- The name of a service. Kubernetes allows no underscore in its parts. -/
@[ext]
structure ServiceKey where
  name : String
  nameSpace : String
  name_ok : '_' ∉ name.toList
  nameSpace_ok : '_' ∉ nameSpace.toList
  deriving DecidableEq

/-- The name of the upstreams of a service. -/
def ServiceKey.upstream (key : ServiceKey) : String :=
  virtualServiceFullValue key.name key.nameSpace

/-- Different services have different upstreams. -/
theorem ServiceKey.upstream_injective : Function.Injective ServiceKey.upstream := by
  intro a b h
  have hsplit := congrArg (Go.split · '_') h
  simp only [ServiceKey.upstream, split_virtualServiceFullValue a.name_ok a.nameSpace_ok,
    split_virtualServiceFullValue b.name_ok b.nameSpace_ok, List.cons.injEq, and_true] at hsplit
  exact ServiceKey.ext hsplit.1 hsplit.2

theorem ServiceKey.upstream_ne {a b : ServiceKey} (h : a ≠ b) : a.upstream ≠ b.upstream :=
  fun heq => h (ServiceKey.upstream_injective heq)

/-- The `Endpoints` object of a service. -/
structure ServiceEndpoints where
  endpoints : Endpoints
  name_ok : '_' ∉ endpoints.metadata.name.toList
  nameSpace_ok : '_' ∉ endpoints.metadata.nameSpace.toList

/-- The service of the object. -/
def ServiceEndpoints.key (ep : ServiceEndpoints) : ServiceKey :=
  ⟨ep.endpoints.metadata.name, ep.endpoints.metadata.nameSpace, ep.name_ok, ep.nameSpace_ok⟩

/-- What happens to the `Endpoints` object of a service. -/
inductive ServiceEvent where
  | upsert (ep : ServiceEndpoints)
  | delete (ep : ServiceEndpoints)

namespace ServiceEvent

def key : ServiceEvent → ServiceKey
  | upsert ep => ep.key
  | delete ep => ep.key

/-- The object after the event. -/
def latest : ServiceEvent → Option Endpoints
  | upsert ep => some ep.endpoints
  | delete _ => none

/-- How the controller handles the event. -/
def job (payload : Payload) : ServiceEvent → FileJob
  | upsert ep => reconcileEndpoints payload ep.endpoints
  | delete ep => deleteEndpoints payload ep.endpoints

/-- The controller removes the blocks that the service has had: the label `hc_enabled` has one of
its two values, or the deleted object carries the label of the managed objects. -/
def Clears : ServiceEvent → Prop
  | upsert ep => ep.endpoints.metadata.label vsHcIsEnable = "true" ∨
      ep.endpoints.metadata.label vsHcIsEnable = "false"
  | delete ep => ep.endpoints.managed = true

end ServiceEvent

/-- The files, and the latest object of each service. -/
structure World where
  files : Files
  latest : ServiceKey → Option Endpoints

/-- Empty files and no services. -/
def World.start : World := ⟨fun _ => [], fun _ => none⟩

/-- One event. -/
def World.step (payload : Payload) (w : World) (e : ServiceEvent) : World :=
  ⟨(e.job payload).alone w.files, Function.update w.latest e.key e.latest⟩

/-- The blocks that a file should have for a service with this latest object. -/
def expected (latest : Option Endpoints) (file : UpstreamFile) : List BlockDirective :=
  match latest with
  | some ep => if ep.metadata.label vsHcIsEnable = "true" then generated ep file else []
  | none => []

/-- An upstream of the name. -/
def named (name : String) (b : BlockDirective) : Bool :=
  b.directive = "upstream" ∧ b.args.head? = some name

/-- The files are what the latest objects ask for. -/
structure World.Refines (w : World) : Prop where
  blocks : ∀ (key : ServiceKey) file,
    (w.files file).filter (named key.upstream) = expected (w.latest key) file
  services : ∀ file, ∀ b ∈ w.files file, ∃ key : ServiceKey, named key.upstream b = true
  unique : ∀ name file, ((w.files file).filter (named name)).length ≤ 1

/-- The event leaves the blocks of all other services, in their order. -/
def World.LeavesOthers (payload : Payload) (w : World) (e : ServiceEvent) : Prop :=
  ∀ file, ((w.step payload e).files file).filter (fun b => !named e.key.upstream b) =
    (w.files file).filter fun b => !named e.key.upstream b

/-- The event clears the blocks of the service, or the service should have none before it. -/
def World.Handled (w : World) (e : ServiceEvent) : Prop :=
  e.Clears ∨ ∀ file, expected (w.latest e.key) file = []

/-! ### What an event does to the files -/

/-- The blocks of a service bear its name. -/
theorem named_of_mem_writtenBlocks {ep : ServiceEndpoints} {w : UpstreamFile × BlockDirective}
    (hw : w ∈ writtenBlocks ep.endpoints) : named ep.key.upstream w.2 = true := by
  obtain ⟨block, hblock⟩ := of_mem_writtenBlocks hw
  rw [hblock]
  simp [named, upstreamDirective, svcNsName, ServiceKey.upstream, ServiceEndpoints.key]

theorem named_of_mem_generated {ep : ServiceEndpoints} {file : UpstreamFile} {b : BlockDirective}
    (hb : b ∈ generated ep.endpoints file) : named ep.key.upstream b = true := by
  obtain ⟨path, hw⟩ := exists_of_mem_generated hb
  exact named_of_mem_writtenBlocks hw

section Events

variable (payload : Payload) {e : ServiceEvent}

/-- An event that clears leaves the other blocks and appends the expected ones. -/
theorem alone_job_of_clears (hclears : e.Clears) (files : Files) :
    (e.job payload).alone files =
      fun file => delBlocks e.key.upstream (files file) ++ expected e.latest file := by
  cases e with
  | upsert ep =>
    rw [ServiceEvent.job, reconcileEndpoints]
    rcases hclears with htrue | hfalse
    · rw [if_pos htrue, Job.alone_andThen, alone_writeAll, alone_delServerInNginxUpstream]
      funext file
      have hexpected : expected (ServiceEvent.upsert ep).latest file =
          generated ep.endpoints file :=
        if_pos htrue
      rw [hexpected]
      rfl
    · have hother : ep.endpoints.metadata.label vsHcIsEnable ≠ "true" := by
        rw [hfalse]
        decide
      rw [if_neg hother, if_pos hfalse, alone_delServerInNginxUpstream]
      funext file
      have hexpected : expected (ServiceEvent.upsert ep).latest file = [] := if_neg hother
      rw [hexpected, List.append_nil]
      rfl
  | delete ep =>
    have hmanaged : ep.endpoints.managed = true := hclears
    rw [ServiceEvent.job, deleteEndpoints, if_pos hmanaged, alone_delServerInNginxUpstream]
    funext file
    exact (List.append_nil _).symm

/-- An event that does not clear leaves the files alone. -/
theorem alone_job_of_not_clears (hclears : ¬ e.Clears) (files : Files) :
    (e.job payload).alone files = files := by
  cases e with
  | upsert ep =>
    obtain ⟨htrue, hfalse⟩ := not_or.mp hclears
    rw [ServiceEvent.job, reconcileEndpoints, if_neg htrue, if_neg hfalse]
    rfl
  | delete ep =>
    have hunmanaged : ¬ ep.endpoints.managed = true := hclears
    rw [ServiceEvent.job, deleteEndpoints, if_neg hunmanaged]
    rfl

/-- After an event that does not clear, the service should have no blocks. -/
theorem expected_of_not_clears (hclears : ¬ e.Clears) (file : UpstreamFile) :
    expected e.latest file = [] := by
  cases e with
  | upsert ep => exact if_neg fun htrue => hclears (Or.inl htrue)
  | delete ep => rfl

/-- The blocks that a service should have bear its name. -/
theorem named_of_mem_expected {file : UpstreamFile} {b : BlockDirective}
    (hb : b ∈ expected e.latest file) : named e.key.upstream b = true := by
  cases e with
  | upsert ep =>
    rw [ServiceEvent.latest, expected] at hb
    split at hb
    · exact named_of_mem_generated hb
    · cases hb
  | delete ep => cases hb

end Events

/-! ### Blocks of one name -/

theorem keeps_of_named {name other : String} {b : BlockDirective} (hne : name ≠ other)
    (hb : named name b = true) : keeps other b = true := by
  simp only [named, keeps, decide_eq_true_eq] at hb ⊢
  refine ⟨hb.1, fun h => hne ?_⟩
  rw [hb.2] at h
  exact Option.some.inj h

theorem named_eq_false_of_keeps {name : String} {b : BlockDirective} (hb : keeps name b = true) :
    named name b = false := by
  simp only [named, keeps, decide_eq_true_eq, decide_eq_false_iff_not, not_and] at hb ⊢
  exact fun _ => hb.2

theorem named_inj {name other : String} {b : BlockDirective} (hname : named name b = true)
    (hother : named other b = true) : name = other := by
  by_contra hne
  have hfalse := named_eq_false_of_keeps (keeps_of_named hne hname)
  exact absurd hother (by simp [hfalse])

/-- Among blocks of one name there is none of another. -/
theorem filter_named_eq_nil {name other : String} {blocks : List BlockDirective}
    (hblocks : ∀ b ∈ blocks, named name b = true) (hne : other ≠ name) :
    blocks.filter (named other) = [] := by
  rw [List.filter_eq_nil_iff]
  intro b hb hother
  exact hne (named_inj hother (hblocks b hb))

/-- No block of a name is left after its deletion. -/
theorem filter_named_delBlocks_self (name : String) (parsed : List BlockDirective) :
    (delBlocks name parsed).filter (named name) = [] := by
  rw [delBlocks, List.filter_filter, List.filter_eq_nil_iff]
  intro b _ hb
  obtain ⟨hnamed, hkeeps⟩ := Bool.and_eq_true_iff.mp hb
  exact absurd hnamed (by simp [named_eq_false_of_keeps hkeeps])

/-- A deletion leaves the blocks of other names. -/
theorem filter_named_delBlocks {name other : String} (hne : name ≠ other)
    (parsed : List BlockDirective) :
    (delBlocks other parsed).filter (named name) = parsed.filter (named name) := by
  rw [delBlocks, List.filter_filter]
  apply List.filter_congr
  intro b _
  by_cases hb : named name b = true
  · simp [hb, keeps_of_named hne hb]
  · simp [hb]

/-! ### Runs -/

theorem length_expected_le_one (latest : Option Endpoints) (file : UpstreamFile) :
    (expected latest file).length ≤ 1 := by
  cases latest with
  | none => exact Nat.zero_le 1
  | some ep =>
    rw [expected]
    split
    · exact length_generated_le_one ep file
    · exact Nat.zero_le 1

namespace World

/-- That no name has two blocks in a file follows from the rest. -/
theorem Refines.mk_of_blocks {w : World}
    (hblocks : ∀ (key : ServiceKey) file,
      (w.files file).filter (named key.upstream) = expected (w.latest key) file)
    (hservices : ∀ file, ∀ b ∈ w.files file, ∃ key : ServiceKey, named key.upstream b = true) :
    w.Refines := by
  refine ⟨hblocks, hservices, fun name file => ?_⟩
  cases hname : (w.files file).filter (named name) with
  | nil => exact Nat.zero_le 1
  | cons b rest =>
    have hb : b ∈ (w.files file).filter (named name) := hname ▸ List.mem_cons_self
    obtain ⟨hmem, hnamed⟩ := List.mem_filter.mp hb
    obtain ⟨key, hkey⟩ := hservices file b hmem
    rw [← hname, named_inj hnamed hkey, hblocks]
    exact length_expected_le_one _ file

theorem refines_start : start.Refines :=
  .mk_of_blocks (fun _ _ => rfl) fun _ _ hb => absurd hb List.not_mem_nil

variable (payload : Payload) {w : World} {e : ServiceEvent}

theorem latest_step_self : (w.step payload e).latest e.key = e.latest :=
  Function.update_self ..

theorem latest_step_of_ne {key : ServiceKey} (hkey : key ≠ e.key) :
    (w.step payload e).latest key = w.latest key :=
  Function.update_of_ne hkey ..

theorem files_step_of_clears (hclears : e.Clears) (file : UpstreamFile) :
    (w.step payload e).files file =
      delBlocks e.key.upstream (w.files file) ++ expected e.latest file :=
  congrFun (alone_job_of_clears payload hclears w.files) file

theorem files_step_of_not_clears (hclears : ¬ e.Clears) :
    (w.step payload e).files = w.files :=
  alone_job_of_not_clears payload hclears w.files

/-- A handled event keeps the files what the latest objects ask for. -/
theorem refines_step (hrefines : w.Refines) (hhandled : w.Handled e) :
    (w.step payload e).Refines := by
  by_cases hclears : e.Clears
  · refine .mk_of_blocks (fun key file => ?_) fun file b hb => ?_
    · rw [files_step_of_clears payload hclears, List.filter_append]
      by_cases hkey : key = e.key
      · subst hkey
        rw [filter_named_delBlocks_self, List.nil_append, latest_step_self, List.filter_eq_self]
        exact fun b hb => named_of_mem_expected hb
      · have hname := ServiceKey.upstream_ne hkey
        have hnone : (expected e.latest file).filter (named key.upstream) = [] :=
          filter_named_eq_nil (fun b hb => named_of_mem_expected hb) hname
        rw [filter_named_delBlocks hname, hnone, List.append_nil, hrefines.blocks,
          latest_step_of_ne payload hkey]
    · rw [files_step_of_clears payload hclears, List.mem_append] at hb
      rcases hb with hold | hnew
      · exact hrefines.services file b (List.mem_of_mem_filter hold)
      · exact ⟨e.key, named_of_mem_expected hnew⟩
  · have hnone := hhandled.resolve_left hclears
    refine .mk_of_blocks (fun key file => ?_) fun file b hb => ?_
    · rw [files_step_of_not_clears payload hclears, hrefines.blocks]
      by_cases hkey : key = e.key
      · subst hkey
        rw [latest_step_self, hnone, expected_of_not_clears hclears]
      · rw [latest_step_of_ne payload hkey]
    · rw [files_step_of_not_clears payload hclears] at hb
      exact hrefines.services file b hb

/-- An event that is not handled is seen in the files after it. -/
theorem handled_of_refines_step (hrefines : w.Refines) (hnext : (w.step payload e).Refines) :
    w.Handled e := by
  by_cases hclears : e.Clears
  · exact Or.inl hclears
  · refine Or.inr fun file => ?_
    have hblocks := hnext.blocks e.key file
    rw [files_step_of_not_clears payload hclears, hrefines.blocks, latest_step_self,
      expected_of_not_clears hclears] at hblocks
    exact hblocks

/-- Whatever the event, the blocks of other services stay. -/
theorem leavesOthers (hrefines : w.Refines) : w.LeavesOthers payload e := by
  intro file
  by_cases hclears : e.Clears
  · have hnew : (expected e.latest file).filter (fun b => !named e.key.upstream b) = [] := by
      rw [List.filter_eq_nil_iff]
      exact fun b hb => by simp [named_of_mem_expected hb]
    rw [files_step_of_clears payload hclears, List.filter_append, hnew, List.append_nil, delBlocks,
      List.filter_filter]
    apply List.filter_congr
    intro b hb
    obtain ⟨key, hkey⟩ := hrefines.services file b hb
    by_cases hmine : named e.key.upstream b = true
    · simp [hmine]
    · have hne : key.upstream ≠ e.key.upstream := fun h => hmine (h ▸ hkey)
      simp [hmine, keeps_of_named hne hkey]
  · rw [files_step_of_not_clears payload hclears]

/-- Exactly in the runs whose events are all handled, the files are at every time the blocks of
the enabled services, generated from their latest objects, and each event leaves the blocks of
all other services. -/
theorem files_refine_iff (events : List ServiceEvent) :
    (Throughout (step payload) Refines start events ∧
      Along (step payload) (LeavesOthers payload) start events) ↔
    Along (step payload) Handled start events := by
  have hiff : Throughout (step payload) Refines start events ↔
      Along (step payload) Handled start events :=
    throughout_iff_along (fun w e => refines_step payload) (fun w h => h)
      (fun w e => handled_of_refines_step payload) refines_start
  rw [hiff]
  refine and_iff_left_of_imp fun hhandled => ?_
  exact hhandled.imp Refines (fun w e => refines_step payload)
    (fun w e hrefines _ => leavesOthers payload hrefines) refines_start

/-- The `Endpoints` object of a managed service with one pod. -/
def onePod (key : ServiceKey) (labels : Go.Map String String) : ServiceEndpoints where
  endpoints :=
    { metadata :=
        { name := key.name, nameSpace := key.nameSpace,
          labels := labels.insert vsDomain vsDomainName }
      subsets := [{ addresses := [{ ip := "10.0.0.7" }],
                    ports := [{ name := "http", port := 80, protocol := "TCP" }] }] }
  name_ok := key.name_ok
  nameSpace_ok := key.nameSpace_ok

/-- The label that enables the checks. -/
def hcEnabled : Go.Map String String := (∅ : Go.Map String String).insert vsHcIsEnable "true"

/-- A service in one fixed namespace. -/
def inProd (name : String) (name_ok : '_' ∉ name.toList) : ServiceKey :=
  ⟨name, "prod", name_ok, by decide⟩

def web : ServiceKey := inProd "web" (by decide)

/-- The http file first. -/
def httpFirst : Payload := ⟨[.http, .stream], by decide, by rintro (_ | _) <;> decide⟩

/-- The block of a service stays when the label `hc_enabled` is removed. -/
theorem files_not_refined_after_label_removal :
    ¬ Throughout (step httpFirst) Refines start
      [.upsert (onePod web hcEnabled), .upsert (onePod web ∅)] := by
  rintro ⟨-, -, hlast⟩
  have hblocks := hlast.blocks web .http
  exact absurd hblocks (by decide +kernel)

end World

end HealthCheck.Nginx
