import HealthCheck.Api.Client

/-!
# Programs amid the writes of others

Other clients may write between any two requests of a program. `amid` runs a program with the
writes that land before each of its requests given beforehand, and records what became of the
program's own writes. A version that is no longer stored never comes back, so a retried update
that sends the same object each time is accepted at its first attempt or, where it creates a
missing object, after the object was deleted.
-/

namespace HealthCheck.Api

/-- A write of another client. -/
inductive Write (α : Type) where
  | update (obj : α)
  | create (obj : α)
  | remove

variable {α ρ : Type} [Resource α] [DecidableEq α]

namespace Server

/-- A write lands, accepted or not. -/
def write (s : Server α) : Write α → Server α
  | .update obj => (s.update obj).2
  | .create obj => (s.create obj).2
  | .remove => s.remove

/-- Several writes land, one after the other. -/
def writes (s : Server α) (ws : List (Write α)) : Server α := ws.foldl write s

/-- The version was given out, and it is not the one that is stored. -/
def Past (v : ℕ) (s : Server α) : Prop :=
  v ≤ s.clock ∧ ∀ obj ∈ s.object, Resource.resourceVersion obj ≠ some v

/-- What a write can do. -/
theorem write_cases (s : Server α) (w : Write α) :
    s.write w = s ∨ (∃ obj, s.write w = (s.store obj).2) ∨ s.write w = s.remove := by
  cases w with
  | update obj =>
    rcases update_cases s obj with ⟨hsame, -⟩ | ⟨current, -, -, hupdate⟩ | hstore
    · exact .inl hsame
    · exact .inl (congrArg Prod.snd hupdate)
    · exact .inr (.inl ⟨obj, congrArg Prod.snd hstore⟩)
  | create obj =>
    cases hobj : s.object with
    | none => exact .inr (.inl ⟨obj, by simp [write, create, hobj]⟩)
    | some current => exact .inl (by simp [write, create, hobj])
  | remove => exact .inr (.inr rfl)

/-- Versions are given out in increasing order. -/
theorem clock_le_writes (s : Server α) (ws : List (Write α)) : s.clock ≤ (s.writes ws).clock := by
  induction ws generalizing s with
  | nil => exact Nat.le_refl _
  | cons w ws ih =>
    refine Nat.le_trans ?_ (ih (s.write w))
    rcases s.write_cases w with hsame | ⟨obj, hstore⟩ | hremove
    · exact Nat.le_of_eq (congrArg clock hsame).symm
    · rw [hstore]
      exact Nat.le_succ _
    · exact Nat.le_of_eq (congrArg clock hremove).symm

/-- Writes do not change whether UIDs are compared. -/
theorem comparesUids_writes (s : Server α) (ws : List (Write α)) :
    (s.writes ws).comparesUids = s.comparesUids := by
  induction ws generalizing s with
  | nil => rfl
  | cons w ws ih =>
    refine (ih (s.write w)).trans ?_
    rcases s.write_cases w with hsame | ⟨obj, hstore⟩ | hremove
    · rw [hsame]
    · rw [hstore]
      rfl
    · rw [hremove]
      rfl

/-- A version that is past stays past. -/
theorem Past.writes {v : ℕ} {s : Server α} (hpast : s.Past v) (ws : List (Write α)) :
    (s.writes ws).Past v := by
  induction ws generalizing s with
  | nil => exact hpast
  | cons w ws ih =>
    apply ih
    obtain ⟨hclock, hother⟩ := hpast
    rcases s.write_cases w with hsame | ⟨obj, hstore⟩ | hremove
    · rw [hsame]
      exact ⟨hclock, hother⟩
    · rw [hstore]
      refine ⟨Nat.le_succ_of_le hclock, ?_⟩
      rintro _ ⟨rfl⟩ hversion
      rw [Resource.resourceVersion_stamp, Option.some.injEq] at hversion
      omega
    · rw [hremove]
      exact ⟨hclock, by simp [Server.remove]⟩

/-- A conflict changes nothing. -/
theorem eq_of_update_conflict {s : Server α} {obj : α} (hconflict : (s.update obj).1 = .conflict) :
    (s.update obj).2 = s := by
  rcases update_cases s obj with ⟨hsame, -⟩ | ⟨current, -, -, hupdate⟩ | hstore
  · exact hsame
  · rw [hupdate]
  · rw [hstore] at hconflict
    cases hconflict

/-- Some object is stored under the version. -/
def Stores (s : Server α) (version : Option ℕ) : Prop :=
  ∃ current ∈ s.object, Resource.resourceVersion current = version

/-- The server takes an update of an object with this version: the version is the stored one, or
there is no object and the update creates one. -/
def Takes (s : Server α) (version : Option ℕ) : Prop :=
  s.Stores version ∨
    (s.object = none ∧ s.comparesUids = false ∧ Resource.createOnUpdate α = true)

/-- What becomes of an update that carries a version. -/
theorem update_versioned (s : Server α) {obj : α} {v : ℕ}
    (hversion : Resource.resourceVersion obj = some v) :
    (s.Takes (some v) ∧ ∃ stored, (s.update obj).1 = .accepted stored) ∨
      (¬ s.Takes (some v) ∧ ((s.update obj).1 = .conflict ∨
        Resource.createOnUpdate α = false ∧ (s.update obj).1 = .failed)) := by
  cases hobj : s.object with
  | none =>
    have hstores : ¬ s.Stores (some v) := by simp [Stores, hobj]
    have hupdate : s.update obj = if s.comparesUids then (.conflict, s)
        else if Resource.createOnUpdate α then s.store obj else (.failed, s) := by
      simp [update, hobj, hversion]
    cases huid : s.comparesUids with
    | true =>
      refine .inr ⟨?_, .inl (by rw [hupdate, huid, if_pos rfl])⟩
      rintro (h | ⟨-, hnot, -⟩)
      · exact hstores h
      · exact Bool.noConfusion (huid.symm.trans hnot)
    | false =>
      rw [huid, if_neg Bool.false_ne_true] at hupdate
      cases hcreate : Resource.createOnUpdate α with
      | true =>
        rw [hcreate, if_pos rfl] at hupdate
        exact .inl ⟨.inr ⟨hobj, huid, hcreate⟩, _, congrArg Prod.fst hupdate⟩
      | false =>
        rw [hcreate, if_neg Bool.false_ne_true] at hupdate
        refine .inr ⟨?_, .inr ⟨rfl, congrArg Prod.fst hupdate⟩⟩
        rintro (h | ⟨-, -, hnot⟩)
        · exact hstores h
        · exact Bool.noConfusion (hcreate.symm.trans hnot)
  | some current =>
    by_cases hsame : Resource.resourceVersion current = some v
    · obtain ⟨stored, t, hupdate, -⟩ := update_of_version hobj (hversion.trans hsame.symm)
      exact .inl ⟨.inl ⟨current, hobj, hsame⟩, stored, congrArg Prod.fst hupdate⟩
    · have hupdate := update_of_version_ne hobj hversion hsame
      refine .inr ⟨?_, .inl (congrArg Prod.fst hupdate)⟩
      simp [Takes, Stores, hobj, hsame]

end Server

namespace Client

/-- Run a program from its `n`-th request on, with the writes `env k` landing before its `k`-th
request. The result comes with the answers to the program's own writes, each with the server right
after it. -/
def amid (env : ℕ → List (Write α)) : Client α ρ → ℕ → Server α → ρ × List (Sent α × Server α)
  | .done r, _, _ => (r, [])
  | .get next, n, s =>
    amid env (next (s.writes (env n)).get) (n + 1) (s.writes (env n))
  | .create obj next, n, s =>
    let reply := (s.writes (env n)).create obj
    let rest := amid env (next reply.1) (n + 1) reply.2
    (rest.1, reply :: rest.2)
  | .update obj next, n, s =>
    let reply := (s.writes (env n)).update obj
    let rest := amid env (next reply.1) (n + 1) reply.2
    (rest.1, reply :: rest.2)

/-- The server that the `k`-th request meets, counted from the `n`-th one, when the program's own
requests change nothing until then. -/
def meets (env : ℕ → List (Write α)) : ℕ → Server α → ℕ → Server α
  | n, s, 0 => s.writes (env n)
  | n, s, k + 1 => meets env (n + 1) (s.writes (env n)) k

/-- The answers to the program's writes include an acceptance, after which the stored object has
the property. -/
def Wrote (attempts : List (Sent α × Server α)) (effect : α → Prop) : Prop :=
  ∃ attempt ∈ attempts, ∃ stored, attempt.1 = .accepted stored ∧
    attempt.2.object = some stored ∧ effect stored

variable {env : ℕ → List (Write α)} {obj : α} {v n : ℕ} {s : Server α}

/-- A version that is past stays past for later requests. -/
theorem past_meets (hpast : s.Past v) (k : ℕ) : (meets env n s k).Past v := by
  induction k generalizing n s with
  | zero => exact hpast.writes _
  | succ k ih => exact ih (hpast.writes _)

theorem comparesUids_meets (k : ℕ) : (meets env n s k).comparesUids = s.comparesUids := by
  induction k generalizing n s with
  | zero => exact s.comparesUids_writes _
  | succ k ih => exact ih.trans (s.comparesUids_writes _)

omit [DecidableEq α] in
/-- A version that was given out and is not stored is past. -/
theorem past_of_not_stores (hv : v ≤ s.clock) (hnot : ¬ s.Stores (some v)) : s.Past v :=
  ⟨hv, fun current hobj hsame => hnot ⟨current, hobj, hsame⟩⟩

/-- What is stored after an acceptance is what was sent. -/
theorem update_wrote {effect : α → Prop} {stored : α}
    (heffect : ∀ stored, Resource.stamp 0 stored = Resource.stamp 0 obj → effect stored)
    (haccepted : (s.update obj).1 = .accepted stored) :
    (s.update obj).2.object = some stored ∧ effect stored := by
  have hpair : s.update obj = (.accepted stored, (s.update obj).2) := Prod.ext haccepted rfl
  obtain ⟨hstored, hcontent⟩ := Server.update_accepted hpair
  exact ⟨hstored, heffect stored hcontent⟩

omit [DecidableEq α] in
theorem wrote_cons {attempt : Sent α × Server α} {attempts : List (Sent α × Server α)}
    {effect : α → Prop} : Wrote (attempt :: attempts) effect ↔
      (∃ stored, attempt.1 = .accepted stored ∧ attempt.2.object = some stored ∧ effect stored) ∨
        Wrote attempts effect := by
  simp [Wrote]

omit [DecidableEq α] in
/-- Refused writes write nothing. -/
theorem not_wrote {attempts : List (Sent α × Server α)} {effect : α → Prop}
    (hrefused : ∀ attempt ∈ attempts, attempt.1.ok = false) : ¬ Wrote attempts effect := by
  rintro ⟨attempt, hmem, stored, haccepted, -⟩
  have hok := hrefused attempt hmem
  rw [haccepted] at hok
  cases hok

theorem amid_put_bind (f : Sent α → Client α ρ) :
    amid env (put obj >>= f) n s =
      let reply := (s.writes (env n)).update obj
      let rest := amid env (f reply.1) (n + 1) reply.2
      (rest.1, reply :: rest.2) := rfl

/-- A conflict is followed by another attempt. -/
theorem amid_retryUpdate_conflict (r : ρ) (steps : ℕ)
    (hconflict : ((s.writes (env n)).update obj).1 = .conflict) :
    amid env (retryUpdate obj (steps + 1) >>= fun _ => pure r) n s =
      let rest := amid env (retryUpdate obj steps >>= fun _ => pure r) (n + 1) (s.writes (env n))
      (rest.1, (s.writes (env n)).update obj :: rest.2) := by
  rw [retryUpdate, bind_assoc, amid_put_bind]
  simp only [hconflict, Server.eq_of_update_conflict hconflict]

/-- Any other answer is the last one. -/
theorem amid_retryUpdate_last (r : ρ) (steps : ℕ)
    (hlast : ((s.writes (env n)).update obj).1 ≠ .conflict) :
    amid env (retryUpdate obj (steps + 1) >>= fun _ => pure r) n s =
      (r, [(s.writes (env n)).update obj]) := by
  rw [retryUpdate, bind_assoc, amid_put_bind]
  cases hanswer : ((s.writes (env n)).update obj).1 with
  | conflict => exact absurd hanswer hlast
  | accepted stored =>
    simp only [hanswer]
    rfl
  | failed =>
    simp only [hanswer]
    rfl

/-- What a retried update returns does not depend on the answers. -/
theorem amid_retryUpdate_result (r : ρ) (steps : ℕ) :
    (amid env (retryUpdate obj steps >>= fun _ => pure r) n s).1 = r := by
  induction steps generalizing n s with
  | zero => rfl
  | succ steps ih =>
    by_cases hconflict : ((s.writes (env n)).update obj).1 = .conflict
    · rw [amid_retryUpdate_conflict r steps hconflict]
      exact ih
    · rw [amid_retryUpdate_last r steps hconflict]

/-- A retried update is accepted exactly when some attempt meets a server that takes it. -/
theorem wrote_retryUpdate_iff {effect : α → Prop} (r : ρ)
    (hversion : Resource.resourceVersion obj = some v) (hv : v ≤ s.clock)
    (heffect : ∀ stored, Resource.stamp 0 stored = Resource.stamp 0 obj → effect stored)
    (steps : ℕ) :
    Wrote (amid env (retryUpdate obj steps >>= fun _ => pure r) n s).2 effect ↔
      ∃ k < steps, (meets env n s k).Takes (some v) := by
  induction steps generalizing n s with
  | zero =>
    constructor
    · rintro ⟨attempt, hmem, -⟩
      cases hmem
    · rintro ⟨k, hk, -⟩
      omega
  | succ steps ih =>
    have hclock : v ≤ (s.writes (env n)).clock := Nat.le_trans hv (s.clock_le_writes _)
    have hsplit : (∃ k < steps + 1, (meets env n s k).Takes (some v)) ↔
        (s.writes (env n)).Takes (some v) ∨
          ∃ k < steps, (meets env (n + 1) (s.writes (env n)) k).Takes (some v) :=
      Nat.exists_lt_succ_left
    rw [hsplit]
    rcases (s.writes (env n)).update_versioned hversion with
      ⟨htakes, stored, haccepted⟩ | ⟨hnot, hconflict | ⟨hcreate, hfailed⟩⟩
    · -- the first attempt is accepted
      have hlast : ((s.writes (env n)).update obj).1 ≠ .conflict := by simp [haccepted]
      rw [amid_retryUpdate_last r steps hlast, wrote_cons]
      exact iff_of_true (.inl ⟨stored, haccepted, update_wrote heffect haccepted⟩) (.inl htakes)
    · -- a conflict changes nothing, and the next attempts decide
      have hrest := ih (n := n + 1) (s := s.writes (env n)) hclock
      rw [amid_retryUpdate_conflict r steps hconflict, wrote_cons]
      simp only [hconflict, hnot, reduceCtorEq, false_and, exists_false, false_or]
      exact hrest
    · -- the object is gone: there is no further attempt, and the version does not come back
      have hlast : ((s.writes (env n)).update obj).1 ≠ .conflict := by simp [hfailed]
      have hpast := past_of_not_stores hclock fun hstores => hnot (.inl hstores)
      have hrefused : ∀ attempt ∈ [(s.writes (env n)).update obj], attempt.1.ok = false := by
        simp [hfailed, Sent.ok]
      rw [amid_retryUpdate_last r steps hlast]
      refine iff_of_false (not_wrote hrefused) ?_
      rintro (htakes | ⟨k, -, ⟨current, hobj, hsame⟩ | ⟨-, -, hcreates⟩⟩)
      · exact hnot htakes
      · exact (past_meets hpast k).2 current hobj hsame
      · exact Bool.noConfusion (hcreate.symm.trans hcreates)

/-! ## Read, edit and send -/

/-- Read the object, compute a new one and send it with retries. Only the error of the read is
returned, as `false`; a refused update is not. -/
def editWithRetry (edit : α → Option α) : Client α Bool := do
  match ← fetch with
  | .found obj =>
    match edit obj with
    | some new =>
      let _ ← retryOnConflict new
      pure true
    | none => pure true
  | _ => pure false

/-- A program that reports success had nothing to change in the object it read, or one of its
writes was accepted and had its effect. -/
def SuccessMeansWritten (p : Client α Bool) (nothing effect : α → Prop)
    (env : ℕ → List (Write α)) (s : Server α) : Prop :=
  (amid env p 0 s).1 = true →
    (∀ read ∈ (s.writes (env 0)).object, nothing read) ∨ Wrote (amid env p 0 s).2 effect

/-- The update is in time: at the first attempt the version read is still the stored one. Where
updates create missing objects and no UIDs are compared, it is also in time if the object is missing
at one of the five attempts. -/
def InTime (env : ℕ → List (Write α)) (read : α) (s : Server α) : Prop :=
  ((s.writes (env 0)).writes (env 1)).Stores (Resource.resourceVersion read) ∨
    (s.comparesUids = false ∧ Resource.createOnUpdate α = true ∧
      ∃ k < 5, (meets env 1 (s.writes (env 0)) k).object = none)

/-- Some attempt meets a server that takes the update exactly when the update is in time. -/
theorem takes_iff_inTime {read : α} (hversion : Resource.resourceVersion read = some v)
    (hv : v ≤ (s.writes (env 0)).clock) :
    (∃ k < 5, (meets env 1 (s.writes (env 0)) k).Takes (some v)) ↔
      InTime env read s := by
  rw [InTime, hversion]
  constructor
  · rintro ⟨k, hk, ⟨current, hobj, hsame⟩ | ⟨hnone, huids, hcreate⟩⟩
    · refine .inl ?_
      by_contra hgone
      have hpast : ((s.writes (env 0)).writes (env 1)).Past v :=
        past_of_not_stores (Nat.le_trans hv (Server.clock_le_writes _ _)) hgone
      cases k with
      | zero => exact hgone ⟨current, hobj, hsame⟩
      | succ k => exact (past_meets hpast k).2 current hobj hsame
    · rw [comparesUids_meets, Server.comparesUids_writes] at huids
      exact .inr ⟨huids, hcreate, k, hk, hnone⟩
  · rintro (hstores | ⟨huids, hcreate, k, hk, hnone⟩)
    · exact ⟨0, by decide, .inl hstores⟩
    · refine ⟨k, hk, .inr ⟨hnone, ?_, hcreate⟩⟩
      rw [comparesUids_meets, Server.comparesUids_writes, huids]

/-- Reporting success means that the write happened exactly when there was nothing to change in the
object read or the update was in time. -/
theorem editWithRetry_written_iff {edit : α → Option α} {nothing effect : α → Prop}
    (hversion : ∀ obj new, edit obj = some new →
      Resource.resourceVersion new = Resource.resourceVersion obj)
    (hnothing : ∀ obj, edit obj = none → nothing obj)
    (heffect : ∀ obj new stored, edit obj = some new →
      Resource.stamp 0 stored = Resource.stamp 0 new → effect stored) :
    SuccessMeansWritten (editWithRetry edit) nothing effect env s ↔
      ∀ read ∈ (s.writes (env 0)).object, nothing read ∨ InTime env read s := by
  have hamid : amid env (editWithRetry edit) 0 s = amid env
      (match (s.writes (env 0)).get with
        | .found obj =>
          match edit obj with
          | some new => retryOnConflict new >>= fun _ => pure true
          | none => pure true
        | _ => pure false) 1 (s.writes (env 0)) := rfl
  unfold SuccessMeansWritten
  rw [hamid, Server.get_eq]
  cases hobj : (s.writes (env 0)).object with
  | none => exact iff_of_true (by simp [Fetch.ofOption]) (by simp)
  | some read =>
    obtain ⟨v, hv, hread⟩ := (s.writes (env 0)).versioned read hobj
    simp only [Fetch.ofOption, Option.mem_some_iff, forall_eq']
    cases hedit : edit read with
    | none => exact iff_of_true (fun _ => .inl (hnothing read hedit)) (.inl (hnothing read hedit))
    | some new =>
      have hsent : Resource.resourceVersion new = some v := (hversion read new hedit).trans hread
      have hwrote := @wrote_retryUpdate_iff α Bool _ _ env new v 1 (s.writes (env 0)) effect true
        hsent hv (fun stored => heffect read new stored hedit) 5
      rw [takes_iff_inTime hread hv] at hwrote
      have hresult := @amid_retryUpdate_result α Bool _ _ env new 1 (s.writes (env 0)) true 5
      simp only [retryOnConflict, hresult, hwrote, true_imp_iff]

end Client

end HealthCheck.Api
