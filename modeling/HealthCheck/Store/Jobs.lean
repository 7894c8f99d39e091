import HealthCheck.Runs
import Mathlib.Algebra.Group.Action.End
import Mathlib.GroupTheory.Submonoid.Centralizer

/-!
# Unlocked edits of a store

A job reads the whole store and writes parts of it, one write at a time, with contents that it
has made from what it read. Two jobs that run at once can undo each other's writes. If every
write finds its part as the writer has read it, the writes are edits of the part as it is,
and edits that commute add up to the same store in any interleaving.
-/

namespace HealthCheck.Store

open Runs

/-- A program that reads the store and writes its parts. -/
inductive Job (ι κ : Type) where
  | done
  | parse (next : (ι → κ) → Job ι κ)
  | write (i : ι) (content : κ) (next : Job ι κ)

variable {ι κ : Type}

namespace Job

/-- One job after the other. -/
def andThen : Job ι κ → Job ι κ → Job ι κ
  | done, second => second
  | parse next, second => parse fun s => (next s).andThen second
  | write i content next, second => write i content (next.andThen second)

/-- Nothing is left to do. -/
def finished : Job ι κ → Bool
  | done => true
  | _ => false

theorem eq_done_of_finished {job : Job ι κ} (h : job.finished = true) : job = done := by
  cases job with
  | done => rfl
  | parse next => cases h
  | write i content next => cases h

/-- The store after a job that nothing interrupts. -/
def alone [DecidableEq ι] : Job ι κ → (ι → κ) → ι → κ
  | done, s => s
  | parse next, s => (next s).alone s
  | write i content next, s => next.alone (Function.update s i content)

@[simp]
theorem alone_andThen [DecidableEq ι] (first second : Job ι κ) (s : ι → κ) :
    (first.andThen second).alone s = second.alone (first.alone s) := by
  induction first generalizing s with
  | done => rfl
  | parse next ih => exact ih s s
  | write i content next ih => exact ih _

end Job

/-- A job that has begun, with the store as it was at the last parse. -/
structure Thread (ι κ : Type) where
  job : Job ι κ
  read : ι → κ

/-- Two jobs on one store. -/
structure Pair (ι κ : Type) where
  store : ι → κ
  thread : Bool → Thread ι κ

variable [DecidableEq ι]

namespace Pair

/-- One step of one of the two jobs. -/
def step (p : Pair ι κ) (who : Bool) : Pair ι κ :=
  match (p.thread who).job with
  | .done => p
  | .parse next => { p with thread := Function.update p.thread who ⟨next p.store, p.store⟩ }
  | .write i content next =>
    { store := Function.update p.store i content
      thread := Function.update p.thread who ⟨next, (p.thread who).read⟩ }

/-- A write finds its part of the store as the job has read it. -/
def Fresh (p : Pair ι κ) (who : Bool) : Prop :=
  match (p.thread who).job with
  | .write i _ _ => p.store i = (p.thread who).read i
  | _ => True

omit [DecidableEq ι] in
instance Fresh.decidable [DecidableEq κ] (p : Pair ι κ) (who : Bool) : Decidable (p.Fresh who) := by
  unfold Fresh
  split <;> infer_instance

end Pair

/-- The job, begun with the store as read, makes the edits. A parse may find that an edit changes
nothing and leave it out. -/
inductive Edits (A : Submonoid (Function.End κ)) :
    Job ι κ → (ι → κ) → (ι → Function.End κ) → Prop
  | done (r : ι → κ) : Edits A .done r 1
  | parse {next : (ι → κ) → Job ι κ} {r : ι → κ} {E : ι → Function.End κ}
      (E' : (ι → κ) → ι → Function.End κ) (hE : ∀ i, E i ∈ A)
      (hsame : ∀ s i, E' s i (s i) = E i (s i)) (h : ∀ s, Edits A (next s) s (E' s)) :
      Edits A (.parse next) r E
  | write {i : ι} {f : Function.End κ} {next : Job ι κ} {r : ι → κ} {E : ι → Function.End κ}
      (hf : f ∈ A) (h : Edits A next r E) :
      Edits A (.write i (f (r i)) next) r (Function.update E i (E i * f))

variable {A : Submonoid (Function.End κ)}

namespace Edits

theorem mem {job : Job ι κ} {r : ι → κ} {E : ι → Function.End κ} (h : Edits A job r E) (i : ι) :
    E i ∈ A := by
  induction h with
  | done r => exact A.one_mem
  | parse E' hE hsame h ih => exact hE i
  | @write j f next r E hf h ih =>
    by_cases hij : i = j
    · subst hij
      rw [Function.update_self]
      exact A.mul_mem ih hf
    · rw [Function.update_of_ne hij]
      exact ih

theorem of_done {r : ι → κ} {E : ι → Function.End κ} (h : Edits A .done r E) : E = 1 := by
  cases h
  rfl

theorem of_write {i : ι} {content : κ} {next : Job ι κ} {r : ι → κ} {E : ι → Function.End κ}
    (h : Edits A (.write i content next) r E) : ∃ f ∈ A, ∃ E', Edits A next r E' ∧
      content = f (r i) ∧ E = Function.update E' i (E' i * f) := by
  cases h with
  | write hf h => exact ⟨_, hf, _, h, rfl, rfl⟩

/-- The edits of two jobs in a row. -/
theorem andThen {first second : Job ι κ} {r : ι → κ} {E₁ E₂ : ι → Function.End κ}
    (h₁ : Edits A first r E₁) (h₂ : ∀ r, Edits A second r E₂) :
    Edits A (first.andThen second) r (E₂ * E₁) := by
  induction h₁ with
  | done r =>
    rw [mul_one]
    exact h₂ r
  | @parse next r E E' hE hsame h ih =>
    refine .parse (fun s => E₂ * E' s) (fun i => A.mul_mem ((h₂ r).mem i) (hE i)) ?_ ih
    intro s i
    exact congrArg (E₂ i) (hsame s i)
  | @write i f next r E hf h ih =>
    have hupdate : E₂ * Function.update E i (E i * f) =
        Function.update (E₂ * E) i ((E₂ * E) i * f) := by
      funext j
      by_cases hij : j = i
      · subst hij
        simp [mul_assoc]
      · simp [Function.update_of_ne hij]
    rw [hupdate]
    exact .write hf ih

end Edits

/-! ### Editing the parts one by one -/

/-- The writes after a parse: the parts in order, without those that are skipped. -/
def Job.writes (f : ι → Function.End κ) (skip : ι → κ → Bool) (s : ι → κ) : List ι → Job ι κ
  | [] => .done
  | i :: order =>
    if skip i (s i) then writes f skip s order
    else .write i (f i (s i)) (writes f skip s order)

/-- The job that parses the store and then edits its parts. -/
def Job.edit (f : ι → Function.End κ) (skip : ι → κ → Bool) (order : List ι) : Job ι κ :=
  .parse fun s => .writes f skip s order

section Edit

variable {f : ι → Function.End κ} {skip : ι → κ → Bool} {order : List ι}
  (hskip : ∀ i c, skip i c = true → f i c = c) (hnodup : order.Nodup)

include hskip hnodup

theorem alone_writes {s cur : ι → κ} (hcur : ∀ i ∈ order, cur i = s i) (i : ι) :
    (Job.writes f skip s order).alone cur i = if i ∈ order then f i (s i) else cur i := by
  induction order generalizing cur with
  | nil => simp [Job.writes, Job.alone]
  | cons j order ih =>
    obtain ⟨hj, hrest⟩ := List.nodup_cons.mp hnodup
    obtain ⟨hcurj, hcurRest⟩ := List.forall_mem_cons.mp hcur
    rw [Job.writes]
    split
    · next hskipped =>
      rw [ih hrest hcurRest]
      by_cases hij : i = j
      · subst hij
        simp [hj, hcurj, hskip i _ hskipped]
      · simp [hij]
    · have hupdate : ∀ k ∈ order, Function.update cur j (f j (s j)) k = s k := by
        intro k hk
        rw [Function.update_of_ne (ne_of_mem_of_not_mem hk hj)]
        exact hcurRest k hk
      rw [Job.alone, ih hrest hupdate]
      by_cases hij : i = j
      · subst hij
        simp [hj]
      · simp [hij]

/-- Alone, the job edits every part. -/
theorem alone_edit (hcomplete : ∀ i, i ∈ order) (s : ι → κ) :
    (Job.edit f skip order).alone s = fun i => f i (s i) := by
  funext i
  rw [Job.edit, Job.alone, alone_writes hskip hnodup (fun _ _ => rfl), if_pos (hcomplete i)]

omit hskip in
theorem edits_writes {A : Submonoid (Function.End κ)} (hf : ∀ i, f i ∈ A)
    (s : ι → κ) : Edits A (Job.writes f skip s order) s
      fun i => if i ∈ order ∧ skip i (s i) = false then f i else 1 := by
  induction order with
  | nil =>
    rw [Job.writes]
    convert Edits.done s using 1
    funext i
    simp
  | cons j order ih =>
    obtain ⟨hj, hrest⟩ := List.nodup_cons.mp hnodup
    rw [Job.writes]
    split
    · next hskipped =>
      convert ih hrest using 2 with i
      by_cases hij : i = j
      · subst hij
        simp [hj, hskipped]
      · simp [hij]
    · next hwritten =>
      convert Edits.write (hf j) (ih hrest) using 1
      funext i
      by_cases hij : i = j
      · subst hij
        simp [hj, hwritten]
      · simp [hij]

/-- The job makes the edits, also when others run. -/
theorem edits_edit {A : Submonoid (Function.End κ)} (hf : ∀ i, f i ∈ A)
    (hcomplete : ∀ i, i ∈ order) (r : ι → κ) : Edits A (Job.edit f skip order) r f := by
  refine .parse _ hf ?_ (edits_writes hnodup hf)
  intro s i
  by_cases hskipped : skip i (s i) = true
  · rw [if_neg (by simp [hskipped]), hskip i _ hskipped]
    rfl
  · rw [if_pos ⟨hcomplete i, by simpa using hskipped⟩]

end Edit

/-! ### Two jobs at once -/

section Commuting

variable {A : Bool → Submonoid (Function.End κ)}
  (hcommute : ∀ f ∈ A true, ∀ g ∈ A false, Commute f g)

include hcommute in
/-- Edits of the two jobs may be swapped. -/
theorem swap {who : Bool} {f g : Function.End κ} (hf : f ∈ A who) (hg : g ∈ A !who) (c : κ) :
    f (g c) = g (f c) := by
  cases who with
  | true => exact congrFun (hcommute f hf g hg).eq c
  | false => exact congrFun (hcommute g hg f hf).eq.symm c

/-- The edits that are still to be made turn the store into the target. -/
structure Pending (A : Bool → Submonoid (Function.End κ)) (target : ι → κ) (p : Pair ι κ)
    (E : Bool → ι → Function.End κ) : Prop where
  edits : ∀ who, Edits (A who) (p.thread who).job (p.thread who).read (E who)
  reaches : ∀ who i, E who i (E (!who) i (p.store i)) = target i

/-- A step of one job leaves the edits of the other one. -/
theorem edits_update {thread : Bool → Thread ι κ} {E : Bool → ι → Function.End κ} {who : Bool}
    {t : Thread ι κ} {E' : ι → Function.End κ}
    (hedits : ∀ who, Edits (A who) (thread who).job (thread who).read (E who))
    (h : Edits (A who) t.job t.read E') (who' : Bool) :
    Edits (A who') (Function.update thread who t who').job (Function.update thread who t who').read
      (Function.update E who E' who') := by
  by_cases hwho : who' = who
  · subst hwho
    simpa only [Function.update_self] using h
  · simpa only [Function.update_of_ne hwho] using hedits who'

include hcommute

/-- One order of the edits is enough. -/
theorem Pending.of_edits {target : ι → κ} {p : Pair ι κ} {E : Bool → ι → Function.End κ}
    (hedits : ∀ who, Edits (A who) (p.thread who).job (p.thread who).read (E who)) (who : Bool)
    (hreaches : ∀ i, E (!who) i (E who i (p.store i)) = target i) : Pending A target p E := by
  refine ⟨hedits, fun who' i => ?_⟩
  rcases Bool.eq_or_eq_not who' who with rfl | rfl
  · rw [← hreaches i]
    exact swap hcommute ((hedits who').mem i) ((hedits _).mem i) _
  · rw [Bool.not_not]
    exact hreaches i

/-- A step with fresh writes leaves the target as it is. -/
theorem pending_step {target : ι → κ} {p : Pair ι κ} {who : Bool}
    (hpending : ∃ E, Pending A target p E) (hfresh : p.Fresh who) :
    ∃ E, Pending A target (p.step who) E := by
  obtain ⟨E, hedits, hreaches⟩ := hpending
  have hmine := hedits who
  have hother : (!who) ≠ who := Bool.not_ne_self who
  cases hjob : (p.thread who).job with
  | done => exact ⟨E, by simpa only [Pair.step, hjob] using Pending.mk hedits hreaches⟩
  | parse next =>
    rw [hjob] at hmine
    cases hmine with
    | parse E' hE hsame h =>
      simp only [Pair.step, hjob]
      refine ⟨Function.update E who (E' p.store), Pending.of_edits hcommute ?_ who fun i => ?_⟩
      · exact edits_update hedits (h p.store)
      · -- what the parse leaves out changes nothing
        have htarget := hreaches (!who) i
        rw [Bool.not_not] at htarget
        rw [Function.update_self, Function.update_of_ne hother, hsame, htarget]
  | write i content next =>
    rw [hjob] at hmine
    obtain ⟨f, hf, E', h, rfl, hE⟩ := hmine.of_write
    have hread : p.store i = (p.thread who).read i := by simpa only [Pair.Fresh, hjob] using hfresh
    simp only [Pair.step, hjob]
    refine ⟨Function.update E who E', Pending.of_edits hcommute ?_ who fun j => ?_⟩
    · exact edits_update hedits h
    · have htarget := hreaches (!who) j
      rw [Bool.not_not, hE] at htarget
      rw [Function.update_self, Function.update_of_ne hother, ← htarget]
      dsimp only
      by_cases hj : j = i
      · subst hj
        rw [Function.update_self, Function.update_self, ← hread]
        rfl
      · rw [Function.update_of_ne hj, Function.update_of_ne hj]

/-- Two jobs whose edits commute, both finished and every write of theirs fresh, have left the
store that one job after the other would have made. -/
theorem store_eq_of_fresh {p : Pair ι κ} {E : Bool → ι → Function.End κ}
    (hedits : ∀ who, Edits (A who) (p.thread who).job (p.thread who).read (E who))
    {schedule : List Bool} (hfresh : Along Pair.step Pair.Fresh p schedule)
    (hdone : ∀ who, ((schedule.foldl Pair.step p).thread who).job.finished = true) (i : ι) :
    (schedule.foldl Pair.step p).store i = E true i (E false i (p.store i)) := by
  have hstart : Pending A (fun i => E true i (E false i (p.store i))) p E :=
    Pending.of_edits hcommute hedits false fun _ => rfl
  obtain ⟨E', hedits', hreaches⟩ :=
    invariant_of_along (fun p who => pending_step hcommute) ⟨E, hstart⟩ hfresh
  have hnone : ∀ who, E' who = 1 := by
    intro who
    have hmine := hedits' who
    rw [Job.eq_done_of_finished (hdone who)] at hmine
    exact hmine.of_done
  have htarget := hreaches true i
  rwa [hnone true, hnone (!true)] at htarget

end Commuting

end HealthCheck.Store
