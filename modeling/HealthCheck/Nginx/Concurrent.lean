import HealthCheck.Nginx.Refinement

/-!
# A deletion and a reconcile at once

The `Delete` predicate runs in the goroutine of the informer and edits the upstream files
while a worker may be doing so. There is no lock around the parse and the writes of an
edit.
-/

namespace HealthCheck.Nginx

open Runs Store

/-- The handler for the deletion of `x` and the worker's reconcile of `y`, before their first
steps. The worker is `true`. -/
def race (payload : Payload) (files : Files) (x y : ServiceEndpoints) :
    Pair UpstreamFile (List BlockDirective) where
  store := files
  thread
    | false => ⟨deleteEndpoints payload x.endpoints, files⟩
    | true => ⟨reconcileEndpoints payload y.endpoints, files⟩

/-- The edits that a deletion of the name does not get in the way of. -/
def besides (name : String) : Submonoid (Function.End (List BlockDirective)) :=
  Submonoid.centralizer {delBlocks name}

theorem mem_besides {name : String} {f : Function.End (List BlockDirective)} :
    f ∈ besides name ↔ ∀ parsed, delBlocks name (f parsed) = f (delBlocks name parsed) := by
  rw [besides, Submonoid.mem_centralizer_iff]
  simp only [Set.mem_singleton_iff, forall_eq]
  exact funext_iff

theorem delBlocks_mem_besides (name other : String) : delBlocks other ∈ besides name := by
  rw [mem_besides]
  intro parsed
  exact List.filter_comm ..

theorem appendBlocks_mem_besides {name : String} {blocks : List BlockDirective}
    (hblocks : ∀ b ∈ blocks, keeps name b = true) : appendBlocks blocks ∈ besides name := by
  rw [mem_besides]
  intro parsed
  rw [delBlocks, appendBlocks, List.filter_append, List.filter_eq_self.mpr hblocks]
  rfl

section Edits

variable (payload : Payload)

theorem edits_delServerInNginxUpstream {A : Submonoid (Function.End (List BlockDirective))}
    {name : String} (hname : delBlocks name ∈ A) (files : Files) :
    Edits A (delServerInNginxUpstream payload name) files fun _ => delBlocks name :=
  edits_edit (fun _ _ h => delBlocks_of_isEmpty h) payload.nodup (fun _ => hname)
    payload.complete files

theorem edits_writeNginxUpstream {A : Submonoid (Function.End (List BlockDirective))}
    (path : UpstreamFile) {blocks : List BlockDirective} (hblocks : appendBlocks blocks ∈ A)
    (files : Files) : Edits A (writeNginxUpstream payload path blocks) files
      fun file => if file = path then appendBlocks blocks else 1 := by
  refine edits_edit (fun file parsed h => ?_) payload.nodup (fun file => ?_) payload.complete files
  · rw [if_neg (of_decide_eq_true h)]
    rfl
  · split
    · exact hblocks
    · exact A.one_mem

theorem edits_writeAll {A : Submonoid (Function.End (List BlockDirective))}
    {written : List (UpstreamFile × BlockDirective)}
    (hwritten : ∀ w ∈ written, appendBlocks [w.2] ∈ A) (files : Files) :
    Edits A (writeAll payload written) files fun file => appendBlocks (blocksFor written file) := by
  induction written generalizing files with
  | nil =>
    have hnone : (fun file => appendBlocks (blocksFor [] file)) = 1 :=
      funext fun _ => appendBlocks_nil
    rw [hnone]
    exact Edits.done files
  | cons w written ih =>
    obtain ⟨path, block⟩ := w
    obtain ⟨hfirst, hrest⟩ := List.forall_mem_cons.mp hwritten
    have hboth : (fun file => appendBlocks (blocksFor ((path, block) :: written) file)) =
        (fun file => appendBlocks (blocksFor written file)) *
          fun file => if file = path then appendBlocks [block] else 1 :=
      funext fun file => appendBlocks_blocksFor_cons path block written file
    rw [hboth]
    exact (edits_writeNginxUpstream payload path hfirst files).andThen (ih hrest)

end Edits

/-- The edits of the handler and those of the worker. -/
def raceEdits (x y : ServiceEndpoints) :
    Bool → UpstreamFile → Function.End (List BlockDirective)
  | false => fun _ => delBlocks x.key.upstream
  | true => (fun file => appendBlocks (generated y.endpoints file)) *
      fun _ => delBlocks y.key.upstream

/-- The edits that each of them may make: the worker's do not get in the way of the deletion. -/
def raceClass (x : ServiceEndpoints) : Bool → Submonoid (Function.End (List BlockDirective))
  | false => Submonoid.centralizer (besides x.key.upstream)
  | true => besides x.key.upstream

theorem raceClass_commute (x : ServiceEndpoints) :
    ∀ f ∈ raceClass x true, ∀ g ∈ raceClass x false, Commute f g :=
  fun f hf _ hg => Submonoid.mem_centralizer_iff.mp hg f hf

theorem edits_race (payload : Payload) (files : Files) {x y : ServiceEndpoints}
    (hxy : x.key ≠ y.key) (hmanaged : x.endpoints.managed = true)
    (henabled : y.endpoints.metadata.label vsHcIsEnable = "true") (who : Bool) :
    Edits (raceClass x who) ((race payload files x y).thread who).job
      ((race payload files x y).thread who).read (raceEdits x y who) := by
  cases who with
  | false =>
    have hjob : deleteEndpoints payload x.endpoints =
        delServerInNginxUpstream payload x.key.upstream := if_pos hmanaged
    have hmine : delBlocks x.key.upstream ∈ raceClass x false :=
      Submonoid.mem_centralizer_iff.mpr fun f hf => (funext (mem_besides.mp hf)).symm
    rw [race, hjob]
    exact edits_delServerInNginxUpstream payload hmine files
  | true =>
    have hjob : reconcileEndpoints payload y.endpoints =
        (delServerInNginxUpstream payload y.key.upstream).andThen
          (writeAll payload (writtenBlocks y.endpoints)) := if_pos henabled
    have hname := ServiceKey.upstream_ne hxy.symm
    have hblocks : ∀ w ∈ writtenBlocks y.endpoints, appendBlocks [w.2] ∈ raceClass x true := by
      intro w hw
      apply appendBlocks_mem_besides
      intro b hb
      rw [List.mem_singleton.mp hb]
      exact keeps_of_named hname (named_of_mem_writtenBlocks hw)
    rw [race, hjob]
    exact (edits_delServerInNginxUpstream payload (delBlocks_mem_besides _ _) files).andThen
      (edits_writeAll payload hblocks)

/-- If every write of the two finds its file as its own parse has read it, then after both have
finished no block of the deleted service is left, the other one has exactly its new blocks, and
every third service has the blocks that it had. -/
theorem concurrent_edits_kept {payload : Payload} {files : Files} {x y : ServiceEndpoints}
    (hxy : x.key ≠ y.key) (hmanaged : x.endpoints.managed = true)
    (henabled : y.endpoints.metadata.label vsHcIsEnable = "true") {schedule : List Bool}
    (hfresh : Along Pair.step Pair.Fresh (race payload files x y) schedule)
    (hdone : ∀ who,
      ((schedule.foldl Pair.step (race payload files x y)).thread who).job.finished = true)
    (file : UpstreamFile) :
    let final := (schedule.foldl Pair.step (race payload files x y)).store file
    final.filter (named x.key.upstream) = [] ∧
    final.filter (named y.key.upstream) = generated y.endpoints file ∧
    ∀ key : ServiceKey, key ≠ x.key → key ≠ y.key →
      final.filter (named key.upstream) = (files file).filter (named key.upstream) := by
  have hfinal : (schedule.foldl Pair.step (race payload files x y)).store file =
      delBlocks y.key.upstream (delBlocks x.key.upstream (files file)) ++
        generated y.endpoints file :=
    store_eq_of_fresh (raceClass_commute x) (edits_race payload files hxy hmanaged henabled)
      hfresh hdone file
  have hnamed : ∀ b ∈ generated y.endpoints file, named y.key.upstream b = true :=
    fun b hb => named_of_mem_generated hb
  have hother : ∀ key : ServiceKey, key ≠ y.key →
      (generated y.endpoints file).filter (named key.upstream) = [] :=
    fun key hkey => filter_named_eq_nil hnamed (ServiceKey.upstream_ne hkey)
  dsimp only
  rw [hfinal]
  refine ⟨?_, ?_, fun key hx hy => ?_⟩
  · rw [List.filter_append, filter_named_delBlocks (ServiceKey.upstream_ne hxy),
      filter_named_delBlocks_self, hother x.key hxy, List.nil_append]
  · rw [List.filter_append, filter_named_delBlocks_self, List.nil_append,
      List.filter_eq_self.mpr hnamed]
  · rw [List.filter_append, filter_named_delBlocks (ServiceKey.upstream_ne hy),
      filter_named_delBlocks (ServiceKey.upstream_ne hx), hother key hy, List.append_nil]

/-- A service that has a block in the http file. -/
def dns : ServiceKey := World.inProd "dns" (by decide)

def dnsFiles : Files
  | .http => [upstreamDirective dns.upstream [⟨"server", ["10.0.0.9:53"]⟩]]
  | .stream => []

open World in
/-- The deletion of one service while another one is added. -/
def dnsRace : Pair UpstreamFile (List BlockDirective) :=
  race httpFirst dnsFiles (onePod dns ∅) (onePod web hcEnabled)

open World in
/-- Both have parsed the files before one of them writes, but the first write of the worker changes
nothing. -/
theorem concurrent_edits_kept_interleaved :
    (([false, true, true, false, true, true].foldl Pair.step dnsRace).store .http).filter
      (named dns.upstream) = [] :=
  (@concurrent_edits_kept httpFirst dnsFiles (onePod dns ∅) (onePod web hcEnabled)
    (by decide +kernel) (by decide +kernel) (by decide +kernel)
    [false, true, true, false, true, true] (by decide +kernel) (by decide +kernel) .http).1

/-- The worker has parsed the files before the handler writes them, and writes the block of the
deleted service back. -/
theorem concurrent_edits_undone :
    (∀ who, (([true, false, false, true, true, true].foldl Pair.step dnsRace).thread
      who).job.finished = true) ∧
    (([true, false, false, true, true, true].foldl Pair.step dnsRace).store .http).filter
      (named dns.upstream) ≠ [] := by
  decide +kernel

end HealthCheck.Nginx
