import HealthCheck.Api.Client

/-!
# Programs that edit what they have read

A program that sends only objects it has read, edited, with the version read, changes a
stored object only by its edit: the server accepts the update only when the stored object
is the one that was read. This does not depend on what other programs do meanwhile, as
long as nobody deletes the object.
-/

namespace HealthCheck.Api

/-- The object in the answer to a read. -/
def Fetch.toOption {α : Type} : Fetch α → Option α
  | .found obj => some obj
  | _ => none

namespace Client

variable {α ρ σ : Type} [Resource α]

/-- Whatever the program sends, until it reads again, is an edit of the object it has read
last, with its version. -/
def Tracks (edit : α → α → Prop) : Client α ρ → Option α → Prop
  | .done _, _ => True
  | .get next, _ => ∀ a, Tracks edit (next a) a.toOption
  | .update sent next, o =>
    (∃ obj ∈ o, Resource.resourceVersion sent = Resource.resourceVersion obj ∧ edit obj sent) ∧
      ∀ reply, Tracks edit (next reply) o
  | .create _ _, _ => False

variable {edit : α → α → Prop}

/-- Composition, when what follows does not rely on what was read before. -/
theorem Tracks.bind {p : Client α ρ} {o : Option α} (hp : Tracks edit p o)
    {f : ρ → Client α σ} (hf : ∀ r o, Tracks edit (f r) o) : Tracks edit (p >>= f) o := by
  change Tracks edit (p.bind f) o
  induction p generalizing o with
  | done r => exact hf r o
  | get next ih => exact fun a => ih a (hp a)
  | create obj next ih => exact hp.elim
  | update obj next ih => exact ⟨hp.1, fun reply => ih reply (hp.2 reply)⟩

/-- Repeated attempts with one edit. -/
theorem tracks_retryUpdate {obj sent : α} (hedit : edit obj sent)
    (hversion : Resource.resourceVersion sent = Resource.resourceVersion obj) (steps : ℕ) :
    Tracks edit (retryUpdate sent steps) (some obj) := by
  induction steps with
  | zero => trivial
  | succ steps ih =>
    refine ⟨⟨obj, rfl, hversion, hedit⟩, fun reply => ?_⟩
    cases reply with
    | accepted _ => trivial
    | conflict => exact ih
    | failed => trivial

/-- The program tracks an object that was stored at some time, and has not been deleted. -/
def Tracking (edit : α → α → Prop) (q : Client α ρ) (s : Server α) : Prop :=
  ∃ o, Tracks edit q o ∧ (o ≠ none → s.object ≠ none) ∧ ∀ obj ∈ o, s.Seen obj

/-- Other programs do not disturb a program that tracks. -/
theorem Tracking.mono {q : Client α ρ} {s t : Server α} (h : Tracking edit q s)
    (hstored : s.object ≠ none → t.object ≠ none)
    (hseen : ∀ {obj}, s.Seen obj → t.Seen obj) : Tracking edit q t := by
  obtain ⟨o, htracks, hthere, hold⟩ := h
  exact ⟨o, htracks, hstored ∘ hthere, fun obj hobj => hseen (hold obj hobj)⟩

variable [DecidableEq α]

/-- A request deletes nothing. -/
theorem stepOn_object_ne_none (q : Client α ρ) {s : Server α} (hobj : s.object ≠ none) :
    (q.stepOn s).2.object ≠ none := by
  cases q with
  | done r => exact hobj
  | get next => exact hobj
  | create obj next =>
    obtain ⟨current, hcurrent⟩ := Option.ne_none_iff_exists'.mp hobj
    simp [stepOn, Server.create, hcurrent]
  | update obj next =>
    change (s.update obj).2.object ≠ none
    rcases s.update_object obj with hsame | ⟨stored, hstored, -⟩
    · rwa [hsame]
    · rw [hstored]
      exact Option.some_ne_none stored

/-- An object read earlier is still recognised by its version after a request. -/
theorem seen_stepOn (q : Client α ρ) {s : Server α} {obj : α} (hseen : s.Seen obj) :
    (q.stepOn s).2.Seen obj := by
  cases q with
  | done r => exact hseen
  | get next => exact hseen
  | create new next => exact hseen.create new
  | update new next => exact hseen.update new

/-- What is sent carries another version than what is stored. -/
def Stale (s : Server α) (sent : α) : Prop :=
  ∃ current ∈ s.object, ∃ v ∈ Resource.resourceVersion sent,
    Resource.resourceVersion current ≠ some v

instance (s : Server α) (sent : α) : Decidable (Stale s sent) :=
  inferInstanceAs (Decidable (∃ current ∈ s.object, _))

/-- A program that sends something stale changes nothing. -/
theorem stepOn_of_stale {q : Client α ρ} {s : Server α} (hstale : ∀ sent ∈ q.sends, Stale s sent) :
    (q.stepOn s).2 = s := by
  cases q with
  | done r => rfl
  | get next => rfl
  | create sent next =>
    obtain ⟨current, hcurrent, -⟩ := hstale sent rfl
    have hcurrent : s.object = some current := hcurrent
    simp [stepOn, Server.create, hcurrent]
  | update sent next =>
    obtain ⟨current, hcurrent, v, hsent, hversion⟩ := hstale sent rfl
    exact congrArg Prod.snd (Server.update_of_version_ne hcurrent hsent hversion)

/-- A request of a program that tracks changes the stored object only by an edit of it. -/
theorem Tracking.stepOn {q : Client α ρ} {s : Server α} (h : Tracking edit q s) :
    Tracking edit (q.stepOn s).1 (q.stepOn s).2 ∧
      ((q.stepOn s).2 = s ∨ ∃ obj sent stored, s.object = some obj ∧ edit obj sent ∧
        (q.stepOn s).2.object = some stored ∧
        Resource.stamp 0 stored = Resource.stamp 0 sent) := by
  obtain ⟨o, htracks, hthere, hold⟩ := h
  cases q with
  | done r => exact ⟨⟨o, htracks, hthere, hold⟩, .inl rfl⟩
  | get next =>
    refine ⟨⟨s.object, ?_, id, fun obj hobj => Server.seen_of_object hobj⟩, .inl rfl⟩
    have hread : s.get.toOption = s.object := by
      rw [s.get_eq]
      cases s.object <;> rfl
    exact hread ▸ htracks s.get
  | create obj next => exact htracks.elim
  | update sent next =>
    obtain ⟨⟨obj, hobj, hversion, hedit⟩, hnext⟩ := htracks
    refine ⟨⟨o, hnext _, fun ho => stepOn_object_ne_none (.update sent next) (hthere ho),
      fun obj hobj => (hold obj hobj).update sent⟩, ?_⟩
    obtain ⟨current, hcurrent⟩ := Option.ne_none_iff_exists'.mp
      (hthere (Option.ne_none_iff_exists'.mpr ⟨obj, hobj⟩))
    by_cases hsame : Resource.resourceVersion current = Resource.resourceVersion obj
    · have heq : current = obj := (hold obj hobj).eq_of_version_eq hcurrent hsame.symm
      subst heq
      rcases s.update_object sent with hunchanged | ⟨stored, hstored, hcontent⟩
      · exact .inl hunchanged
      · exact .inr ⟨current, sent, stored, hcurrent, hedit, hstored, hcontent⟩
    · obtain ⟨v, -, hv, -⟩ := hold obj hobj
      have hconflict := Server.update_of_version_ne hcurrent (hversion.trans hv) (hv ▸ hsame)
      exact .inl (congrArg Prod.snd hconflict)

end Client

end HealthCheck.Api
