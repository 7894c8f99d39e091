import HealthCheck.Api.Client
import HealthCheck.Runs
import Mathlib.Logic.Function.Basic

/-!
# Concurrent programs and serial orders

Programs that run concurrently on one object make their requests in any order. A program
that reads, decides from what it has read last and sends that object back at most once is
a transaction under optimistic concurrency: its update is accepted only when nothing has
changed since the read, and it could then as well have run all at once, at the moment of
the update. This holds as long as no update without a version overwrites anything. A
program may read several times, so the library asks for a relation between earlier and
later objects that all the programs respect.
-/

namespace HealthCheck.Api

namespace Client

variable {α ρ : Type}

/-- What a program does next when all its reads see the same. -/
def settle (o : Option α) : Client α ρ → Client α ρ
  | .done r => .done r
  | .get next => (next (.ofOption o)).settle o
  | .create obj next => .create obj next
  | .update obj next => .update obj next

variable [Resource α]

/-- The rest of a program, after it has last read `o`, agrees with the whole program run on
`o` alone: it reports success only if the whole program does, it sends what the whole
program sends, and this carries the version read. Reads to come may see later objects. -/
def Agrees (later : Option α → Option α → Prop) (whole : Client α Bool) :
    Client α Bool → Option α → Prop
  | .done ok, o => ok = true → whole.settle o = .done true
  | .get next, o => ∀ o', later o o' → Agrees later whole (next (.ofOption o')) o'
  | .update obj next, o => whole.settle o = .update obj next ∧
      Resource.resourceVersion obj = o.bind Resource.resourceVersion ∧
      ∀ sent, next sent = .done sent.ok
  | .create _ _, _ => False

/-- A relation between what is stored at one time and later. -/
structure Progress (later : Option α → Option α → Prop) : Prop where
  refl : ∀ o, later o o
  trans : ∀ {o o' o''}, later o o' → later o' o'' → later o o''
  stored : ∀ {obj o}, later (some obj) o → o ≠ none

/-- A program that reads first, agrees with itself after every read, and leads from what it
reads to something later. -/
structure Transactional (later : Option α → Option α → Prop) (p : Client α Bool) : Prop where
  reads : ∃ next, p = .get next ∧ ∀ o, Agrees later p (next (.ofOption o)) o
  writes : ∀ {o obj next stored}, p.settle o = .update obj next →
    Resource.stamp 0 stored = Resource.stamp 0 obj → later o (some stored)

variable [DecidableEq α]

/-- Running alone, all reads see the same. -/
theorem alone_settle (p : Client α ρ) (s : Server α) :
    alone p s = alone (p.settle s.object) s := by
  induction p with
  | done r => rfl
  | get next ih =>
    have hget : alone (.get next) s = alone (next s.get) s := alone_fetch_bind next s
    rw [hget, s.get_eq]
    exact ih _
  | create obj next => rfl
  | update obj next => rfl

/-- A program ends, or it sends something later than `o` with the version of `o`. -/
def Decides (later : Option α → Option α → Prop) (o : Option α) (q : Client α Bool) : Prop :=
  (∃ ok, q = .done ok) ∨ ∃ obj, q = send obj ∧
    Resource.resourceVersion obj = o.bind Resource.resourceVersion ∧
    ∀ stored, Resource.stamp 0 stored = Resource.stamp 0 obj → later o (some stored)

omit [DecidableEq α] in
/-- A program that decides after one read is a transaction. -/
theorem transactional_of_decides {later : Option α → Option α → Prop}
    {f : Fetch α → Client α Bool} (hf : ∀ o, Decides later o (f (.ofOption o))) :
    Transactional later (fetch >>= f) := by
  have hsettle : ∀ o, (fetch >>= f).settle o = (f (.ofOption o)).settle o := fun _ => rfl
  refine ⟨⟨f, rfl, fun o => ?_⟩, fun {o obj next stored} hsend hcontent => ?_⟩
  · rcases hf o with ⟨ok, hdone⟩ | ⟨obj, hsend, hversion, -⟩
    · rw [hdone]
      intro hok
      rw [hsettle, hdone, hok]
      rfl
    · rw [hsend]
      refine ⟨?_, hversion, fun sent => rfl⟩
      rw [hsettle, hsend]
      rfl
  · rw [hsettle] at hsend
    rcases hf o with ⟨ok, hdone⟩ | ⟨obj', hsent, -, hlater⟩
    · rw [hdone] at hsend
      cases hsend
    · rw [hsent] at hsend
      cases hsend
      exact hlater stored hcontent

end Client

open Client

/-- Programs that run concurrently on one object. -/
structure Pool (ι α ρ : Type) [Resource α] where
  threads : ι → Client α ρ
  server : Server α

namespace Pool

variable {ι α ρ : Type} [Resource α] [DecidableEq α] [DecidableEq ι]

/-- One program makes its next request. -/
def step (s : Pool ι α ρ) (i : ι) : Pool ι α ρ where
  threads := Function.update s.threads i ((s.threads i).stepOn s.server).1
  server := ((s.threads i).stepOn s.server).2

/-- An update without a version does not overwrite anything. -/
def NoBlindOverwrite (s : Pool ι α ρ) (i : ι) : Prop :=
  ∀ obj ∈ (s.threads i).sends, Resource.resourceVersion obj = none → s.server.object = none

instance (s : Pool ι α ρ) (i : ι) : Decidable (s.NoBlindOverwrite i) :=
  inferInstanceAs (Decidable (∀ obj ∈ (s.threads i).sends, _))

/-- Running programs alone, one after the other, leads from one state to another, and all of
them succeed. -/
def Serial (calls : ι → Client α Bool) : List ι → Server α → Server α → Prop
  | [], s, t => t = s
  | i :: order, s, t => (alone (calls i) s).1 = true ∧ Serial calls order (alone (calls i) s).2 t

omit [DecidableEq ι] in
/-- One more program at the end. -/
theorem Serial.snoc {calls : ι → Client α Bool} {order : List ι} {s t u : Server α} {i : ι}
    (h : Serial calls order s t) (hi : alone (calls i) t = (true, u)) :
    Serial calls (order ++ [i]) s u := by
  induction order generalizing s with
  | nil =>
    have hts : t = s := h
    subst hts
    exact ⟨congrArg Prod.fst hi, (congrArg Prod.snd hi).symm⟩
  | cons j order ih => exact ⟨h.1, ih h.2⟩

omit [DecidableEq ι] in
/-- What one of the programs establishes and the others keep holds at the end. -/
theorem Serial.established {calls : ι → Client α Bool} {order : List ι} {s t : Server α}
    {i : ι} (h : Serial calls order s t) (hi : i ∈ order) (Q : Server α → Prop)
    (hestablish : ∀ s, (alone (calls i) s).1 = true → Q (alone (calls i) s).2)
    (hkeep : ∀ j ∈ order, ∀ s, Q s → Q (alone (calls j) s).2) : Q t := by
  have hrest : ∀ {order : List ι} {s : Server α}, Serial calls order s t → Q s →
      (∀ j ∈ order, ∀ s, Q s → Q (alone (calls j) s).2) → Q t := by
    intro order
    induction order with
    | nil =>
      intro s h hs _
      have hts : t = s := h
      exact hts ▸ hs
    | cons j order ih =>
      intro s h hs hkeep
      exact ih h.2 (hkeep j List.mem_cons_self s hs) fun k hk => hkeep k (List.mem_cons_of_mem j hk)
  induction order generalizing s with
  | nil => cases hi
  | cons j order ih =>
    have hlater : ∀ k ∈ order, ∀ s, Q s → Q (alone (calls k) s).2 :=
      fun k hk => hkeep k (List.mem_cons_of_mem j hk)
    rcases List.mem_cons.mp hi with rfl | hi
    · exact hrest h.2 (hestablish s h.1) hlater
    · exact ih h.2 hi hlater

/-- The programs that have succeeded, in some order, lead to the present state when they run
one after the other. -/
def Serializable (calls : ι → Client α Bool) (s₀ : Server α) (s : Pool ι α Bool) : Prop :=
  ∃ order : List ι, order.Nodup ∧ (∀ i, i ∈ order ↔ (s.threads i).result = some true) ∧
    Serial calls order s₀ s.server

variable {later : Option α → Option α → Prop} {calls : ι → Client α Bool} {s₀ : Server α}
  {s : Pool ι α Bool}

/-- Where a program can be: not begun, ended, or going on from an object read earlier. -/
def InFlight (later : Option α → Option α → Prop) (whole q : Client α Bool) (s : Server α) :
    Prop :=
  q = whole ∨ (∃ ok, q = .done ok) ∨
    ∃ o, Agrees later whole q o ∧ later o s.object ∧ ∀ obj ∈ o, s.Seen obj

/-- What a request of a program in flight does. Either the program has already succeeded and
nothing happens, or it succeeds now and the state changes as if it ran now all at once, or it
does not succeed now and the state stays. -/
structure StepSpec (later : Option α → Option α → Prop) (whole q : Client α Bool) (s : Server α)
    (r : Client α Bool × Server α) : Prop where
  inFlight : InFlight later whole r.1 r.2
  later : later s.object r.2.object
  seen : ∀ {obj}, s.Seen obj → r.2.Seen obj
  effect : (q.result = some true ∧ r = (q, s)) ∨ (q.result ≠ some true ∧
    ((r.1.result = some true ∧ alone whole s = (true, r.2)) ∨
      (r.1.result ≠ some true ∧ r.2 = s)))

omit [DecidableEq ι] in
/-- A read. -/
theorem stepSpec_get {whole : Client α Bool} (hprogress : Progress later)
    {next : Fetch α → Client α Bool} {s : Server α}
    (hagrees : Agrees later whole (next (.ofOption s.object)) s.object) :
    StepSpec later whole (.get next) s (next s.get, s) := by
  rw [s.get_eq]
  refine ⟨.inr (.inr ⟨_, hagrees, hprogress.refl _, fun obj hobj => Server.seen_of_object hobj⟩),
    hprogress.refl _, id, .inr ⟨nofun, ?_⟩⟩
  cases hnext : next (.ofOption s.object) with
  | done ok =>
    cases ok with
    | true =>
      rw [hnext] at hagrees
      refine .inl ⟨rfl, ?_⟩
      rw [alone_settle, hagrees rfl]
      rfl
    | false => exact .inr ⟨nofun, rfl⟩
  | get _ => exact .inr ⟨nofun, rfl⟩
  | create _ _ => exact .inr ⟨nofun, rfl⟩
  | update _ _ => exact .inr ⟨nofun, rfl⟩

omit [DecidableEq ι] in
/-- An update that is not refused as a conflict finds the object that was read. -/
theorem object_eq_or_conflict (hprogress : Progress later) {o : Option α} {obj : α} {s : Server α}
    (hversion : Resource.resourceVersion obj = o.bind Resource.resourceVersion)
    (hlater : later o s.object) (hseen : ∀ old ∈ o, s.Seen old)
    (hblind : Resource.resourceVersion obj = none → s.object = none) :
    s.object = o ∨ s.update obj = (.conflict, s) := by
  cases o with
  | none => exact .inl (hblind hversion)
  | some old =>
    obtain ⟨current, hcurrent⟩ := Option.ne_none_iff_exists'.mp (hprogress.stored hlater)
    obtain ⟨v, -, hv, -⟩ := hseen old rfl
    have hsent : Resource.resourceVersion obj = some v := hversion.trans hv
    by_cases hsame : Resource.resourceVersion current = some v
    · have heq : current = old :=
        (hseen old rfl).eq_of_version_eq hcurrent (hv.trans hsame.symm)
      exact .inl (by rw [hcurrent, heq])
    · exact .inr (Server.update_of_version_ne hcurrent hsent hsame)

omit [DecidableEq ι] in
/-- An update. -/
theorem stepSpec_update {whole : Client α Bool} (hprogress : Progress later)
    (hwhole : Transactional later whole) {obj : α} {next : Sent α → Client α Bool} {o : Option α}
    {s : Server α} (hagrees : Agrees later whole (.update obj next) o) (hlater : later o s.object)
    (hseen : ∀ old ∈ o, s.Seen old)
    (hblind : Resource.resourceVersion obj = none → s.object = none) :
    StepSpec later whole (.update obj next) s (next (s.update obj).1, (s.update obj).2) := by
  obtain ⟨hsettle, hversion, hnext⟩ := hagrees
  rw [hnext]
  rcases object_eq_or_conflict hprogress hversion hlater hseen hblind with hobj | hconflict
  · have halone : alone whole s = ((s.update obj).1.ok, (s.update obj).2) := by
      have hput : alone (.update obj next) s = alone (next (s.update obj).1) (s.update obj).2 :=
        alone_put_bind obj next s
      rw [alone_settle, hobj, hsettle, hput, hnext]
      rfl
    refine ⟨.inr (.inl ⟨_, rfl⟩), ?_, fun h => h.update obj, .inr ⟨by simp [result], ?_⟩⟩
    · rcases s.update_object obj with hsame | ⟨stored, hstored, hcontent⟩
      · rw [hsame]
        exact hprogress.refl _
      · rw [hstored, hobj]
        exact hwhole.writes hsettle hcontent
    · cases hok : (s.update obj).1.ok with
      | true => exact .inl ⟨rfl, by rw [halone, hok]⟩
      | false =>
        refine .inr ⟨by simp [result], ?_⟩
        rcases s.update_cases obj with ⟨hsame, -⟩ | ⟨current, -, -, hupdate⟩ | hstore
        · exact hsame
        · simp [hupdate, Sent.ok] at hok
        · simp [hstore, Server.store, Sent.ok] at hok
  · rw [hconflict]
    refine ⟨.inr (.inl ⟨_, rfl⟩), hprogress.refl _, id, .inr ⟨by simp [result], .inr ⟨?_, rfl⟩⟩⟩
    simp [result, Sent.ok]

omit [DecidableEq ι] in
/-- Any request of a program in flight. -/
theorem stepSpec {whole q : Client α Bool} (hprogress : Progress later)
    (hwhole : Transactional later whole) {s : Server α} (hq : InFlight later whole q s)
    (hblind : ∀ obj next, q = .update obj next → Resource.resourceVersion obj = none →
      s.object = none) : StepSpec later whole q s (q.stepOn s) := by
  have hdone : ∀ ok, StepSpec later whole (.done ok) s (.done ok, s) := by
    intro ok
    refine ⟨.inr (.inl ⟨ok, rfl⟩), hprogress.refl _, id, ?_⟩
    cases ok with
    | true => exact .inl ⟨rfl, rfl⟩
    | false => exact .inr ⟨nofun, .inr ⟨nofun, rfl⟩⟩
  rcases hq with rfl | ⟨ok, rfl⟩ | ⟨o, hagrees, hlater, hseen⟩
  · obtain ⟨next, rfl, hreads⟩ := hwhole.reads
    exact stepSpec_get hprogress (hreads s.object)
  · exact hdone ok
  · cases q with
    | done ok => exact hdone ok
    | get next => exact stepSpec_get hprogress (hagrees s.object hlater)
    | create obj next => exact hagrees.elim
    | update obj next =>
      exact stepSpec_update hprogress hwhole hagrees hlater hseen (hblind obj next rfl)

/-- The invariant of the concurrent run. -/
structure Serialized (later : Option α → Option α → Prop) (calls : ι → Client α Bool)
    (s₀ : Server α) (s : Pool ι α Bool) : Prop where
  serializable : Serializable calls s₀ s
  inFlight : ∀ i, InFlight later (calls i) (s.threads i) s.server

omit [DecidableEq α] [DecidableEq ι] in
/-- A program in flight stays in flight when others write. -/
theorem InFlight.mono (hprogress : Progress later) {whole q : Client α Bool} {s t : Server α}
    (hq : InFlight later whole q s) (hlater : later s.object t.object)
    (hseen : ∀ {obj}, s.Seen obj → t.Seen obj) : InFlight later whole q t := by
  rcases hq with hq | hq | ⟨o, hagrees, ho, hold⟩
  · exact .inl hq
  · exact .inr (.inl hq)
  · exact .inr (.inr ⟨o, hagrees, hprogress.trans ho hlater, fun obj hobj => hseen (hold obj hobj)⟩)

/-- The program whose turn it is has made its request. -/
theorem threads_step_self (i : ι) :
    (s.step i).threads i = ((s.threads i).stepOn s.server).1 :=
  Function.update_self _ _ _

/-- The others have not moved. -/
theorem threads_step_of_ne {i j : ι} (hj : j ≠ i) : (s.step i).threads j = s.threads j :=
  Function.update_of_ne hj _ _

/-- A request that neither changes the server nor makes its program succeed leaves the order of
the programs that have succeeded as it is. -/
theorem Serializable.step_of_same (h : Serializable calls s₀ s) {i : ι}
    (hserver : ((s.threads i).stepOn s.server).2 = s.server)
    (hresult : (((s.threads i).stepOn s.server).1.result = some true ↔
      (s.threads i).result = some true)) : Serializable calls s₀ (s.step i) := by
  obtain ⟨order, hnodup, hmem, hserial⟩ := h
  refine ⟨order, hnodup, fun j => ?_, ?_⟩
  · by_cases hj : j = i
    · subst hj
      rw [threads_step_self, hmem, hresult]
    · rw [threads_step_of_ne hj, hmem]
  · rw [step, hserver]
    exact hserial

/-- A program that succeeds with this request, as it would alone, comes last in the order. -/
theorem Serializable.step_of_success (h : Serializable calls s₀ s) {i : ι}
    (hopen : (s.threads i).result ≠ some true)
    (hsucceeds : ((s.threads i).stepOn s.server).1.result = some true)
    (halone : alone (calls i) s.server = (true, ((s.threads i).stepOn s.server).2)) :
    Serializable calls s₀ (s.step i) := by
  obtain ⟨order, hnodup, hmem, hserial⟩ := h
  have hnew : i ∉ order := fun hi => hopen ((hmem i).mp hi)
  refine ⟨order ++ [i], ?_, fun j => ?_, hserial.snoc halone⟩
  · refine List.nodup_append.mpr ⟨hnodup, by simp, fun a ha b hb hab => ?_⟩
    rw [hab, List.mem_singleton.mp hb] at ha
    exact hnew ha
  · by_cases hj : j = i
    · subst hj
      simp [threads_step_self, hsucceeds]
    · rw [threads_step_of_ne hj, ← hmem]
      simp [hj]

/-- Every request keeps the invariant. -/
theorem serialized_step (hprogress : Progress later)
    (hcalls : ∀ i, Transactional later (calls i)) (h : Serialized later calls s₀ s) {i : ι}
    (hblind : s.NoBlindOverwrite i) : Serialized later calls s₀ (s.step i) := by
  have hspec : StepSpec later (calls i) (s.threads i) s.server ((s.threads i).stepOn s.server) := by
    refine stepSpec hprogress (hcalls i) (h.inFlight i) fun obj next hq => ?_
    exact hblind obj (by rw [hq]; rfl)
  refine ⟨?_, fun j => ?_⟩
  · rcases hspec.effect with ⟨-, hsame⟩ | ⟨hopen, ⟨hsucceeds, halone⟩ | ⟨hnot, hsame⟩⟩
    · exact h.serializable.step_of_same (by rw [hsame]) (by rw [hsame])
    · exact h.serializable.step_of_success hopen hsucceeds halone
    · exact h.serializable.step_of_same hsame (iff_of_false hnot hopen)
  · by_cases hj : j = i
    · subst hj
      rw [threads_step_self]
      exact hspec.inFlight
    · rw [threads_step_of_ne hj]
      exact (h.inFlight j).mono hprogress hspec.later hspec.seen

omit [DecidableEq α] [DecidableEq ι] in
/-- The programs before their first requests. -/
def start (calls : ι → Client α ρ) (s₀ : Server α) : Pool ι α ρ := ⟨calls, s₀⟩

/-- Concurrent transactions are serializable in every run in which no update without a version
overwrites anything. -/
theorem serializable_of_along (hprogress : Progress later)
    (hcalls : ∀ i, Transactional later (calls i)) {schedule : List ι}
    (hblind : Runs.Along step NoBlindOverwrite (start calls s₀) schedule) :
    Serializable calls s₀ (schedule.foldl step (start calls s₀)) := by
  have hstart : Serialized later calls s₀ (start calls s₀) := by
    refine ⟨⟨[], List.nodup_nil, fun i => ?_, rfl⟩, fun i => .inl rfl⟩
    obtain ⟨next, hnext, -⟩ := (hcalls i).reads
    simp [start, hnext, result]
  have hstep : ∀ (s : Pool ι α Bool) (i : ι), Serialized later calls s₀ s →
      s.NoBlindOverwrite i → Serialized later calls s₀ (s.step i) :=
    fun s i h hi => serialized_step hprogress hcalls h hi
  exact (Runs.invariant_of_along hstep hstart hblind).serializable

end Pool

end HealthCheck.Api
