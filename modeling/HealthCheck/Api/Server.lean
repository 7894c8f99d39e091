import Mathlib.Data.Nat.Notation
import Mathlib.Tactic.Common

/-!
# An object of the API server

The API server stores each object under optimistic concurrency: every accepted
write gives the object a new resource version, and an update is checked against
the version the sender read. Kinds of resources differ in two points, whether an
update may create a missing object and whether an update without a version is
applied unconditionally. Servers differ in what they do about an object that has been
deleted since it was read: one that compares UIDs does not create it again. A write
that changes nothing keeps the stored version.
-/

namespace HealthCheck.Api

/-- What the environment lets happen to one request. `success` means that the
request reaches the server and is answered by it. -/
inductive Outcome where
  | success
  | conflict
  | error
  deriving DecidableEq, Repr

/-- The answer to a read. -/
inductive Fetch (α : Type) where
  | found (obj : α)
  | notFound
  | failed
  deriving DecidableEq, Repr

/-- The answer to a write. An accepted write returns the object as stored. -/
inductive Sent (α : Type) where
  | accepted (obj : α)
  | conflict
  | failed
  deriving DecidableEq, Repr

/-- The answer to a read of what is stored. -/
def Fetch.ofOption {α : Type} : Option α → Fetch α
  | some obj => .found obj
  | none => .notFound

/-- Whether a write was accepted. -/
def Sent.ok {α : Type} : Sent α → Bool
  | .accepted _ => true
  | _ => false

/-- A kind of object that the API server stores. -/
class Resource (α : Type) where
  /-- The version carried by an object; a new object carries none. -/
  resourceVersion : α → Option ℕ
  /-- The object with its version replaced. -/
  stamp : ℕ → α → α
  /-- Whether an update of a missing object creates it. -/
  createOnUpdate : Bool
  /-- Whether an update without a version overwrites what is stored. -/
  unconditionalUpdate : Bool
  /-- A stamped object carries the stamp. -/
  resourceVersion_stamp : ∀ v obj, resourceVersion (stamp v obj) = some v
  /-- Only the last stamp shows. -/
  stamp_stamp : ∀ v w obj, stamp v (stamp w obj) = stamp v obj

attribute [simp] Resource.resourceVersion_stamp Resource.stamp_stamp

/-- The server's side of one object: the versions given out so far and the object. -/
@[ext]
structure Server (α : Type) [Resource α] where
  /-- The last version given out. -/
  clock : ℕ
  /-- The stored object, when there is one. -/
  object : Option α
  /-- Whether UIDs are compared. An object with a version has been read and has a UID. -/
  comparesUids : Bool := true
  /-- A stored object carries one of the versions given out. -/
  versioned : ∀ obj ∈ object, ∃ v ≤ clock, Resource.resourceVersion obj = some v

namespace Server

variable {α : Type} [Resource α]

/-- The server of an object that was never stored. -/
def absent : Server α where
  clock := 0
  object := none
  versioned := by simp

/-- A server that holds the given object under the given version. -/
def holding (v : ℕ) (obj : α) : Server α where
  clock := v
  object := some (Resource.stamp v obj)
  versioned := by
    rintro _ ⟨rfl⟩
    exact ⟨v, Nat.le_refl _, Resource.resourceVersion_stamp _ _⟩

/-- Reading the object. -/
def get (s : Server α) : Fetch α :=
  match s.object with
  | some obj => .found obj
  | none => .notFound

theorem get_eq (s : Server α) : s.get = .ofOption s.object := by
  unfold get
  cases s.object <;> rfl

/-- Storing an object under a fresh version. -/
def store (s : Server α) (obj : α) : Sent α × Server α :=
  (.accepted (Resource.stamp (s.clock + 1) obj),
    { clock := s.clock + 1
      object := some (Resource.stamp (s.clock + 1) obj)
      comparesUids := s.comparesUids
      versioned := by
        rintro _ ⟨rfl⟩
        exact ⟨s.clock + 1, Nat.le_refl _, Resource.resourceVersion_stamp _ _⟩ })

/-- A create request fails when the object exists. -/
def create (s : Server α) (obj : α) : Sent α × Server α :=
  match s.object with
  | some _ => (.failed, s)
  | none => s.store obj

/-- Deleting the object. -/
def remove (s : Server α) : Server α where
  clock := s.clock
  object := none
  comparesUids := s.comparesUids
  versioned := by simp

variable [DecidableEq α]

/-- Overwriting the stored object, unless nothing but the version would change. -/
def overwrite (s : Server α) (current obj : α) : Sent α × Server α :=
  if Resource.stamp 0 obj = Resource.stamp 0 current then (.accepted current, s) else s.store obj

/-- An update request, checked against the stored version. -/
def update (s : Server α) (obj : α) : Sent α × Server α :=
  match s.object with
  | none =>
    if s.comparesUids ∧ (Resource.resourceVersion obj).isSome then (.conflict, s)
    else if Resource.createOnUpdate α then s.store obj else (.failed, s)
  | some current =>
    match Resource.resourceVersion obj with
    | none => if Resource.unconditionalUpdate α then s.overwrite current obj else (.failed, s)
    | some v =>
      if Resource.resourceVersion current = some v then s.overwrite current obj
      else (.conflict, s)

/-- What an update can do: it is refused and changes nothing, it is accepted without
changing anything, or it stores the object sent under a fresh version. -/
theorem update_cases (s : Server α) (obj : α) :
    ((s.update obj).2 = s ∧ ∀ o, (s.update obj).1 ≠ .accepted o) ∨
    (∃ current, s.object = some current ∧ Resource.stamp 0 obj = Resource.stamp 0 current ∧
      s.update obj = (.accepted current, s)) ∨
    s.update obj = s.store obj := by
  cases hobj : s.object with
  | none =>
    by_cases huid : s.comparesUids = true ∧ (Resource.resourceVersion obj).isSome = true
    · exact .inl (by simp [update, hobj, if_pos huid])
    · by_cases hcreate : Resource.createOnUpdate α = true
      · exact .inr (.inr (by simp only [update, hobj, if_neg huid, if_pos hcreate]))
      · exact .inl (by simp [update, hobj, if_neg huid, hcreate])
  | some current =>
    have hrefusedOrOverwrite : ((s.update obj).2 = s ∧ ∀ o, (s.update obj).1 ≠ .accepted o) ∨
        s.update obj = s.overwrite current obj := by
      cases hversion : Resource.resourceVersion obj with
      | none => by_cases hplain : Resource.unconditionalUpdate α = true <;>
          simp [update, hobj, hversion, hplain]
      | some v => by_cases hcurrent : Resource.resourceVersion current = some v <;>
          simp [update, hobj, hversion, hcurrent]
    rcases hrefusedOrOverwrite with hrefused | hover
    · exact .inl hrefused
    · by_cases hsame : Resource.stamp 0 obj = Resource.stamp 0 current
      · exact .inr (.inl ⟨current, rfl, hsame, by rw [hover, overwrite, if_pos hsame]⟩)
      · exact .inr (.inr (by rw [hover, overwrite, if_neg hsame]))

/-- An accepted update leaves the returned object stored, with the content sent. -/
theorem update_accepted {s t : Server α} {obj stored : α}
    (h : s.update obj = (.accepted stored, t)) :
    t.object = some stored ∧ Resource.stamp 0 stored = Resource.stamp 0 obj := by
  rcases update_cases s obj with ⟨-, hno⟩ | ⟨current, hobj, hsame, hupdate⟩ | hstore
  · exact absurd (congrArg Prod.fst h) (hno stored)
  · rw [hupdate] at h
    cases h
    exact ⟨hobj, hsame.symm⟩
  · rw [hstore, store] at h
    cases h
    exact ⟨rfl, Resource.stamp_stamp _ _ _⟩

/-- After an update everything is as before, or the content sent is stored. -/
theorem update_object (s : Server α) (obj : α) :
    (s.update obj).2 = s ∨ ∃ stored, (s.update obj).2.object = some stored ∧
      Resource.stamp 0 stored = Resource.stamp 0 obj := by
  rcases update_cases s obj with ⟨hsame, -⟩ | ⟨current, -, -, hupdate⟩ | hstore
  · exact .inl hsame
  · exact .inl (congrArg Prod.snd hupdate)
  · rw [hstore]
    exact .inr ⟨_, rfl, Resource.stamp_stamp _ _ _⟩

omit [DecidableEq α] in
/-- After a create request everything is as before, or the content sent is stored. -/
theorem create_object (s : Server α) (obj : α) :
    (s.create obj).2 = s ∨ ∃ stored, (s.create obj).2.object = some stored ∧
      Resource.stamp 0 stored = Resource.stamp 0 obj := by
  unfold create
  split
  · exact .inl rfl
  · exact .inr ⟨_, rfl, Resource.stamp_stamp _ _ _⟩

/-- An update with the version of the stored object is never refused. -/
theorem update_of_version_eq {s : Server α} {current obj : α} (hobj : s.object = some current)
    (hversion : Resource.resourceVersion obj = Resource.resourceVersion current) :
    s.update obj = s.overwrite current obj := by
  obtain ⟨v, -, hv⟩ := s.versioned current hobj
  simp only [update, hobj, hversion, hv, if_true]

/-- Overwriting is always accepted. -/
theorem overwrite_accepted (s : Server α) (current obj : α) :
    ∃ stored t, s.overwrite current obj = (.accepted stored, t) := by
  unfold overwrite
  split
  · exact ⟨_, _, rfl⟩
  · exact ⟨_, _, rfl⟩

/-- An update with the version of the stored object is accepted, and its content is stored. -/
theorem update_of_version {s : Server α} {current obj : α} (hobj : s.object = some current)
    (hversion : Resource.resourceVersion obj = Resource.resourceVersion current) :
    ∃ stored t, s.update obj = (.accepted stored, t) ∧ t.object = some stored ∧
      Resource.stamp 0 stored = Resource.stamp 0 obj := by
  obtain ⟨stored, t, hover⟩ := overwrite_accepted s current obj
  have hupdate := (update_of_version_eq hobj hversion).trans hover
  obtain ⟨hstored, hcontent⟩ := update_accepted hupdate
  exact ⟨stored, t, hupdate, hstored, hcontent⟩

/-- An update with a version other than the stored one is a conflict. -/
theorem update_of_version_ne {s : Server α} {current obj : α} {v : ℕ}
    (hobj : s.object = some current) (hsent : Resource.resourceVersion obj = some v)
    (hversion : Resource.resourceVersion current ≠ some v) :
    s.update obj = (.conflict, s) := by
  simp only [update, hobj, hsent, if_neg hversion]

/-- For a kind that has no updates without a version, any version but the stored one is
refused. -/
theorem update_refused {s : Server α} {current obj : α}
    (hplain : Resource.unconditionalUpdate α = false) (hobj : s.object = some current)
    (hversion : Resource.resourceVersion obj ≠ Resource.resourceVersion current) :
    (s.update obj).2 = s ∧ ∀ o, (s.update obj).1 ≠ .accepted o := by
  cases hsent : Resource.resourceVersion obj with
  | none => simp [update, hobj, hsent, hplain]
  | some v =>
    have hne : Resource.resourceVersion current ≠ some v := fun h => hversion (hsent.trans h.symm)
    simp [update_of_version_ne hobj hsent hne]

/-- For a kind that updates do not create, any update of a missing object is refused. -/
theorem update_refused_of_missing {s : Server α} (hcreate : Resource.createOnUpdate α = false)
    (hobj : s.object = none) (obj : α) :
    (s.update obj).2 = s ∧ ∀ o, (s.update obj).1 ≠ .accepted o := by
  by_cases huid : s.comparesUids = true ∧ (Resource.resourceVersion obj).isSome = true
  · simp [update, hobj, if_pos huid]
  · simp [update, hobj, if_neg huid, hcreate]

/-- The object was stored at some time: its version has been given out, and whatever is
stored under that version is this object. -/
def Seen (s : Server α) (obj : α) : Prop :=
  ∃ v ≤ s.clock, Resource.resourceVersion obj = some v ∧
    ∀ current ∈ s.object, Resource.resourceVersion current = some v → current = obj

omit [DecidableEq α] in
theorem seen_of_object {s : Server α} {obj : α} (hobj : s.object = some obj) : s.Seen obj := by
  obtain ⟨v, hv, hversion⟩ := s.versioned obj hobj
  refine ⟨v, hv, hversion, ?_⟩
  rintro current hcurrent -
  rw [hobj] at hcurrent
  exact (Option.some.inj hcurrent).symm

omit [DecidableEq α] in
/-- Two objects with the same version, one of them stored, are the same. -/
theorem Seen.eq_of_version_eq {s : Server α} {obj current : α} (hseen : s.Seen obj)
    (hcurrent : s.object = some current)
    (hversion : Resource.resourceVersion obj = Resource.resourceVersion current) :
    current = obj := by
  obtain ⟨v, -, hv, hsame⟩ := hseen
  exact hsame current hcurrent (hversion.symm.trans hv)

omit [DecidableEq α] in
/-- A fresh version is different from all versions seen. -/
theorem Seen.store {s : Server α} {obj : α} (hseen : s.Seen obj) (new : α) :
    (s.store new).2.Seen obj := by
  obtain ⟨v, hv, hversion, -⟩ := hseen
  refine ⟨v, Nat.le_succ_of_le hv, hversion, ?_⟩
  rintro _ ⟨rfl⟩ hnew
  rw [Resource.resourceVersion_stamp, Option.some.injEq] at hnew
  omega

theorem Seen.update {s : Server α} {obj : α} (hseen : s.Seen obj) (new : α) :
    (s.update new).2.Seen obj := by
  rcases update_cases s new with ⟨hsame, -⟩ | ⟨current, -, -, hupdate⟩ | hstore
  · rwa [hsame]
  · rwa [hupdate]
  · rw [hstore]
    exact hseen.store new

omit [DecidableEq α] in
theorem Seen.create {s : Server α} {obj : α} (hseen : s.Seen obj) (new : α) :
    (s.create new).2.Seen obj := by
  unfold Server.create
  split
  · exact hseen
  · exact hseen.store new

omit [DecidableEq α] in
theorem Seen.remove {s : Server α} {obj : α} (hseen : s.Seen obj) : s.remove.Seen obj := by
  obtain ⟨v, hv, hversion, -⟩ := hseen
  exact ⟨v, hv, hversion, by simp [Server.remove]⟩

omit [DecidableEq α] in
/-- An object stored in place of another has another version. -/
theorem Seen.version_ne {s : Server α} {obj current : α} (hseen : s.Seen obj)
    (hcurrent : s.object = some current) (hne : current ≠ obj) :
    Resource.resourceVersion current ≠ Resource.resourceVersion obj :=
  fun hversion => hne (hseen.eq_of_version_eq hcurrent hversion.symm)

end Server

end HealthCheck.Api
