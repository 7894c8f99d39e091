import HealthCheck.Api.Server

/-!
# Client programs of the API server

A function of the controller that works on one object is a tree of requests: it
reads or writes the object and goes on with the answer. `run` executes such a
program alone, with a fault decided beforehand for every request; `stepOn` makes
one request of it, so that programs can be interleaved request by request.
-/

namespace HealthCheck.Api

/-- A program that talks to the server about one object of type `α` and returns
a `ρ`. -/
inductive Client (α ρ : Type) where
  | done (result : ρ)
  | get (next : Fetch α → Client α ρ)
  | create (obj : α) (next : Sent α → Client α ρ)
  | update (obj : α) (next : Sent α → Client α ρ)

/-- The fate of the `n`-th request of a program, by the kind of the request. -/
structure Faults where
  /-- The fate of a read. -/
  get : ℕ → Outcome
  /-- The fate of a create request. -/
  create : ℕ → Outcome
  /-- The fate of an update. -/
  update : ℕ → Outcome

/-- No request fails on its way. -/
def Faults.none : Faults := ⟨fun _ => .success, fun _ => .success, fun _ => .success⟩

/-- Only updates fail. -/
def Faults.ofUpdates (updates : ℕ → Outcome) : Faults :=
  ⟨fun _ => .success, fun _ => .success, updates⟩

/-- Among the next `steps` update attempts, the first one that does not end in a
conflict goes through. -/
def Faults.passes (faults : Faults) : ℕ → ℕ → Bool
  | _, 0 => false
  | n, steps + 1 =>
    match faults.update n with
    | .success => true
    | .conflict => faults.passes (n + 1) steps
    | .error => false

namespace Client

variable {α ρ σ : Type}

/-- The program ends without a further request. -/
def idle : Client α ρ → Bool
  | .done _ => true
  | _ => false

/-- The result of a program that has ended. -/
def result : Client α ρ → Option ρ
  | .done r => some r
  | _ => none

/-- The program reads next. -/
def reading : Client α ρ → Bool
  | .get _ => true
  | _ => false

/-- The object that a program sends next. -/
def sends : Client α ρ → Option α
  | .create obj _ => some obj
  | .update obj _ => some obj
  | _ => none

/-- Sequential composition of programs. -/
def bind : Client α ρ → (ρ → Client α σ) → Client α σ
  | .done r, f => f r
  | .get next, f => .get fun a => (next a).bind f
  | .create obj next, f => .create obj fun a => (next a).bind f
  | .update obj next, f => .update obj fun a => (next a).bind f

instance : Monad (Client α) where
  pure := .done
  bind := bind

/-- The order in which programs are put together does not matter. -/
theorem bind_assoc {τ : Type} (p : Client α ρ) (f : ρ → Client α σ) (g : σ → Client α τ) :
    p >>= f >>= g = p >>= fun r => f r >>= g := by
  change (p.bind f).bind g = p.bind fun r => (f r).bind g
  induction p with
  | done r => rfl
  | get next ih => exact congrArg Client.get (funext ih)
  | create obj next ih => exact congrArg (Client.create obj) (funext ih)
  | update obj next ih => exact congrArg (Client.update obj) (funext ih)

/-- Read the object. -/
def fetch : Client α (Fetch α) := .get .done

/-- Send a create request. -/
def post (obj : α) : Client α (Sent α) := .create obj .done

/-- Send an update. -/
def put (obj : α) : Client α (Sent α) := .update obj .done

/-- Send an update once and return whether it was accepted. -/
def send (obj : α) : Client α Bool := do
  return (← put obj).ok

/-- Update attempts as long as the server answers with a conflict, at most `steps` of
them, always with the same object. -/
def retryUpdate (obj : α) : ℕ → Client α (Sent α)
  | 0 => pure .conflict
  | steps + 1 => do
    match ← put obj with
    | .conflict => retryUpdate obj steps
    | answer => pure answer

/-- `retry.RetryOnConflict` with `retry.DefaultRetry`, which makes five attempts. -/
def retryOnConflict (obj : α) : Client α (Sent α) := retryUpdate obj 5

variable [Resource α] [DecidableEq α]

/-- The answer to a write whose fate is decided. -/
def answer (outcome : Outcome) (s : Server α) (reply : Sent α × Server α) : Sent α × Server α :=
  match outcome with
  | .success => reply
  | .conflict => (.conflict, s)
  | .error => (.failed, s)

/-- Run a program from its `n`-th request on. The result comes with the number of
requests made so far. -/
def run (faults : Faults) : Client α ρ → ℕ → Server α → ρ × ℕ × Server α
  | .done r, n, s => (r, n, s)
  | .get next, n, s =>
    run faults (next (if faults.get n = .success then s.get else .failed)) (n + 1) s
  | .create obj next, n, s =>
    run faults (next (answer (faults.create n) s (s.create obj)).1) (n + 1)
      (answer (faults.create n) s (s.create obj)).2
  | .update obj next, n, s =>
    run faults (next (answer (faults.update n) s (s.update obj)).1) (n + 1)
      (answer (faults.update n) s (s.update obj)).2

/-- The objects that a program sends in its run, whether or not the server takes them. -/
def sent (faults : Faults) : Client α ρ → ℕ → Server α → List α
  | .done _, _, _ => []
  | .get next, n, s =>
    sent faults (next (if faults.get n = .success then s.get else .failed)) (n + 1) s
  | .create obj next, n, s =>
    obj :: sent faults (next (answer (faults.create n) s (s.create obj)).1) (n + 1)
      (answer (faults.create n) s (s.create obj)).2
  | .update obj next, n, s =>
    obj :: sent faults (next (answer (faults.update n) s (s.update obj)).1) (n + 1)
      (answer (faults.update n) s (s.update obj)).2

/-- Run a program without faults and without anybody else writing. -/
def alone (p : Client α ρ) (s : Server α) : ρ × Server α :=
  let r := run .none p 0 s
  (r.1, r.2.2)

/-- Make one request. A finished program stays as it is. -/
def stepOn : Client α ρ → Server α → Client α ρ × Server α
  | .done r, s => (.done r, s)
  | .get next, s => (next s.get, s)
  | .create obj next, s => (next (s.create obj).1, (s.create obj).2)
  | .update obj next, s => (next (s.update obj).1, (s.update obj).2)

@[simp] theorem run_pure (faults : Faults) (r : ρ) (n : ℕ) (s : Server α) :
    run faults (pure r : Client α ρ) n s = (r, n, s) := rfl

/-- Running a composition runs the parts one after the other. -/
theorem run_bind (faults : Faults) (p : Client α ρ) (f : ρ → Client α σ) (n : ℕ)
    (s : Server α) :
    run faults (p >>= f) n s =
      run faults (f (run faults p n s).1) (run faults p n s).2.1 (run faults p n s).2.2 := by
  change run faults (p.bind f) n s = _
  induction p generalizing n s with
  | done r => rfl
  | get next ih => exact ih _ _ _
  | create obj next ih => exact ih _ _ _
  | update obj next ih => exact ih _ _ _

@[simp] theorem run_fetch_bind (faults : Faults) (f : Fetch α → Client α σ) (n : ℕ)
    (s : Server α) :
    run faults (fetch >>= f) n s =
      run faults (f (if faults.get n = .success then s.get else .failed)) (n + 1) s := rfl

/-- Where only updates fail, a read returns what is stored. -/
theorem run_fetch_ofUpdates (updates : ℕ → Outcome) (f : Fetch α → Client α σ) (n : ℕ)
    (s : Server α) :
    run (.ofUpdates updates) (fetch >>= f) n s = run (.ofUpdates updates) (f s.get) (n + 1) s := rfl

@[simp] theorem run_put_bind (faults : Faults) (obj : α) (f : Sent α → Client α σ) (n : ℕ)
    (s : Server α) :
    run faults (put obj >>= f) n s =
      run faults (f (answer (faults.update n) s (s.update obj)).1) (n + 1)
        (answer (faults.update n) s (s.update obj)).2 := rfl

/-- A program that reads first and returns false when the read fails has read the object whenever it
returns true. -/
theorem run_fetch_ok {faults : Faults} {f : Fetch α → Client α Bool} {n : ℕ} {s : Server α}
    {obj : α} (hobj : s.object = some obj) (hfailed : f .failed = pure false)
    (hok : (run faults (fetch >>= f) n s).1 = true) :
    run faults (fetch >>= f) n s = run faults (f (.found obj)) (n + 1) s := by
  rw [run_fetch_bind] at hok ⊢
  by_cases hget : faults.get n = .success
  · rw [if_pos hget, Server.get_eq, hobj]
    rfl
  · rw [if_neg hget, hfailed] at hok
    cases hok

/-- An update that was accepted is stored. -/
theorem run_send_ok {faults : Faults} {obj : α} {n : ℕ} {s : Server α}
    (hok : (run faults (send obj) n s).1 = true) :
    ∃ stored, (run faults (send obj) n s).2.2.object = some stored ∧
      Resource.stamp 0 stored = Resource.stamp 0 obj := by
  rw [send, run_put_bind, run_pure] at hok ⊢
  cases hfate : faults.update n with
  | success =>
    rw [hfate] at hok
    cases hupdate : s.update obj with
    | mk reply t =>
      rw [hupdate] at hok
      cases reply with
      | accepted stored => exact ⟨stored, Server.update_accepted hupdate⟩
      | conflict => cases hok
      | failed => cases hok
  | conflict =>
    rw [hfate] at hok
    cases hok
  | error =>
    rw [hfate] at hok
    cases hok

/-- A composition sends what its parts send, one after the other. -/
theorem sent_bind (faults : Faults) (p : Client α ρ) (f : ρ → Client α σ) (n : ℕ)
    (s : Server α) :
    sent faults (p >>= f) n s = sent faults p n s ++
      sent faults (f (run faults p n s).1) (run faults p n s).2.1 (run faults p n s).2.2 := by
  change sent faults (p.bind f) n s = _
  induction p generalizing n s with
  | done r => rfl
  | get next ih => exact ih _ _ _
  | create obj next ih => exact congrArg (obj :: ·) (ih _ _ _)
  | update obj next ih => exact congrArg (obj :: ·) (ih _ _ _)

@[simp] theorem sent_fetch_bind (faults : Faults) (f : Fetch α → Client α σ) (n : ℕ)
    (s : Server α) :
    sent faults (fetch >>= f) n s =
      sent faults (f (if faults.get n = .success then s.get else .failed)) (n + 1) s := rfl

/-- What a program sends that reads first, and sends nothing when the read fails. -/
theorem mem_sent_fetch_bind {faults : Faults} {f : Fetch α → Client α σ} {n : ℕ} {s : Server α}
    {new : α} (hfailed : sent faults (f .failed) (n + 1) s = [])
    (hnew : new ∈ sent faults (fetch >>= f) n s) :
    (∃ obj ∈ s.object, new ∈ sent faults (f (.found obj)) (n + 1) s) ∨
      (s.object = none ∧ new ∈ sent faults (f .notFound) (n + 1) s) := by
  rw [sent_fetch_bind] at hnew
  by_cases hget : faults.get n = .success
  · rw [if_pos hget, Server.get_eq] at hnew
    cases hobj : s.object with
    | none =>
      rw [hobj] at hnew
      exact .inr ⟨rfl, hnew⟩
    | some obj =>
      rw [hobj] at hnew
      exact .inl ⟨obj, rfl, hnew⟩
  · rw [if_neg hget, hfailed] at hnew
    cases hnew

/-- A retried update is sent at least once. -/
theorem sent_retryOnConflict_bind_ne_nil (faults : Faults) (obj : α) (f : Sent α → Client α σ)
    (n : ℕ) (s : Server α) : sent faults (retryOnConflict obj >>= f) n s ≠ [] :=
  List.cons_ne_nil obj _

@[simp] theorem sent_send (faults : Faults) (obj : α) (n : ℕ) (s : Server α) :
    sent faults (send obj) n s = [obj] := rfl

/-- All attempts of a retried update send the same object. -/
theorem eq_of_mem_sent_retryUpdate {faults : Faults} {obj new : α} {n steps : ℕ} {s : Server α}
    (hnew : new ∈ sent faults (retryUpdate obj steps) n s) : new = obj := by
  induction steps generalizing n s with
  | zero => cases hnew
  | succ steps ih =>
    rw [retryUpdate, sent_bind] at hnew
    rcases List.mem_append.mp hnew with hfirst | hlater
    · exact List.mem_singleton.mp hfirst
    · split at hlater
      · exact ih hlater
      · cases hlater

/-- The first attempt of a retried update sends the object. -/
theorem mem_sent_retryOnConflict_bind (faults : Faults) (obj : α) (f : Sent α → Client α σ)
    (n : ℕ) (s : Server α) : obj ∈ sent faults (retryOnConflict obj >>= f) n s :=
  List.mem_cons_self

/-- What holds of the stored object and of all objects sent, whatever their version, holds of
the object stored afterwards. -/
theorem forall_object_run {Q : α → Prop}
    (hcontent : ∀ {a b : α}, Resource.stamp 0 a = Resource.stamp 0 b → Q b → Q a)
    {faults : Faults} {p : Client α ρ} {n : ℕ} {s : Server α} (hold : ∀ obj ∈ s.object, Q obj)
    (hsent : ∀ obj ∈ sent faults p n s, Q obj) : ∀ obj ∈ (run faults p n s).2.2.object, Q obj := by
  induction p generalizing n s with
  | done r => exact hold
  | get next ih => exact ih _ hold hsent
  | create new next ih =>
    obtain ⟨hnew, hlater⟩ := List.forall_mem_cons.mp hsent
    refine ih _ ?_ hlater
    cases faults.create n with
    | success =>
      rcases s.create_object new with hsame | ⟨stored, hstored, heq⟩
      · rwa [answer, hsame]
      · rw [answer, hstored]
        rintro obj ⟨rfl⟩
        exact hcontent heq hnew
    | conflict => exact hold
    | error => exact hold
  | update new next ih =>
    obtain ⟨hnew, hlater⟩ := List.forall_mem_cons.mp hsent
    refine ih _ ?_ hlater
    cases faults.update n with
    | success =>
      rcases s.update_object new with hsame | ⟨stored, hstored, heq⟩
      · rwa [answer, hsame]
      · rw [answer, hstored]
        rintro obj ⟨rfl⟩
        exact hcontent heq hnew
    | conflict => exact hold
    | error => exact hold

/-- A program that sends nothing leaves the server as it was. -/
theorem run_eq_of_sent_eq_nil {faults : Faults} {p : Client α ρ} {n : ℕ} {s : Server α}
    (hnothing : sent faults p n s = []) : (run faults p n s).2.2 = s := by
  induction p generalizing n with
  | done r => rfl
  | get next ih => exact ih _ hnothing
  | create obj next ih => exact absurd hnothing (List.cons_ne_nil _ _)
  | update obj next ih => exact absurd hnothing (List.cons_ne_nil _ _)

/-- A retried update that the server would accept is carried out as soon as an attempt
goes through. -/
theorem run_retryUpdate_accepted {faults : Faults} {obj stored : α} {n steps : ℕ}
    {s t : Server α} (hupdate : s.update obj = (.accepted stored, t))
    (hpasses : faults.passes n steps = true) :
    ∃ m, run faults (retryUpdate obj steps) n s = (.accepted stored, m, t) := by
  induction steps generalizing n with
  | zero => simp [Faults.passes] at hpasses
  | succ steps ih =>
    rw [retryUpdate, run_put_bind, hupdate]
    cases hn : faults.update n with
    | success => exact ⟨n + 1, rfl⟩
    | conflict =>
      simp only [Faults.passes, hn] at hpasses
      exact ih hpasses
    | error => simp [Faults.passes, hn] at hpasses

/-- A retried update that the server refuses, or of which no attempt goes through,
changes nothing and is not reported as accepted. -/
theorem run_retryUpdate_refused {faults : Faults} {obj : α} {n steps : ℕ} {s : Server α}
    (hrefused : ((s.update obj).2 = s ∧ ∀ o, (s.update obj).1 ≠ .accepted o) ∨
      faults.passes n steps = false) :
    ∃ reply m, (∀ o, reply ≠ .accepted o) ∧
      run faults (retryUpdate obj steps) n s = (reply, m, s) := by
  induction steps generalizing n with
  | zero => exact ⟨.conflict, n, by simp, rfl⟩
  | succ steps ih =>
    rw [retryUpdate, run_put_bind]
    cases hn : faults.update n with
    | success =>
      rcases hrefused with ⟨hsame, hno⟩ | hpasses
      · simp only [answer, hsame]
        cases hreply : (s.update obj).1 with
        | accepted o => exact absurd hreply (hno o)
        | conflict => exact ih (.inl ⟨hsame, hno⟩)
        | failed => exact ⟨.failed, n + 1, by simp, rfl⟩
      · simp [Faults.passes, hn] at hpasses
    | conflict =>
      refine ih (hrefused.imp_right fun hpasses => ?_)
      simpa only [Faults.passes, hn] using hpasses
    | error => exact ⟨.failed, n + 1, by simp, rfl⟩

/-- A retried update of a kind that has no updates without a version is carried out
exactly when it carries the stored version and an attempt goes through. -/
theorem run_retryUpdate_of_version (faults : Faults) (obj : α) (n steps : ℕ) {current : α}
    {s : Server α} (hplain : Resource.unconditionalUpdate α = false)
    (hobj : s.object = some current) :
    (Resource.resourceVersion obj = Resource.resourceVersion current ∧
      faults.passes n steps = true ∧ ∃ stored m t, s.update obj = (.accepted stored, t) ∧
        run faults (retryUpdate obj steps) n s = (.accepted stored, m, t)) ∨
    (¬ (Resource.resourceVersion obj = Resource.resourceVersion current ∧
        faults.passes n steps = true) ∧ ∃ reply m, (∀ o, reply ≠ .accepted o) ∧
        run faults (retryUpdate obj steps) n s = (reply, m, s)) := by
  by_cases hversion : Resource.resourceVersion obj = Resource.resourceVersion current
  · obtain ⟨stored, t, hupdate, -⟩ := Server.update_of_version hobj hversion
    by_cases hpasses : faults.passes n steps = true
    · obtain ⟨m, hrun⟩ := run_retryUpdate_accepted hupdate hpasses
      exact .inl ⟨hversion, hpasses, stored, m, t, hupdate, hrun⟩
    · have hblocked : faults.passes n steps = false := by simpa using hpasses
      exact .inr ⟨fun h => hpasses h.2, run_retryUpdate_refused (.inr hblocked)⟩
  · exact .inr ⟨fun h => hversion h.1,
      run_retryUpdate_refused (.inl (Server.update_refused hplain hobj hversion))⟩

/-- An object read before a program ran is still recognised by its version afterwards. -/
theorem seen_run {obj : α} (faults : Faults) (p : Client α ρ) {n : ℕ} {s : Server α}
    (hseen : s.Seen obj) : (run faults p n s).2.2.Seen obj := by
  induction p generalizing n s with
  | done r => exact hseen
  | get next ih => exact ih _ hseen
  | create new next ih =>
    refine ih _ ?_
    cases faults.create n with
    | success => exact hseen.create new
    | conflict => exact hseen
    | error => exact hseen
  | update new next ih =>
    refine ih _ ?_
    cases faults.update n with
    | success => exact hseen.update new
    | conflict => exact hseen
    | error => exact hseen

/-- Without faults the number of requests made does not matter. -/
theorem run_none_congr (p : Client α ρ) (n m : ℕ) (s : Server α) :
    (run .none p n s).1 = (run .none p m s).1 ∧
      (run .none p n s).2.2 = (run .none p m s).2.2 := by
  induction p generalizing n m s with
  | done r => exact ⟨rfl, rfl⟩
  | get next ih => exact ih _ _ _ _
  | create obj next ih => exact ih _ _ _ _
  | update obj next ih => exact ih _ _ _ _

@[simp] theorem alone_pure (r : ρ) (s : Server α) :
    alone (pure r : Client α ρ) s = (r, s) := rfl

/-- Running a composition alone runs the parts alone, one after the other. -/
theorem alone_bind (p : Client α ρ) (f : ρ → Client α σ) (s : Server α) :
    alone (p >>= f) s = alone (f (alone p s).1) (alone p s).2 := by
  have h := run_none_congr (f (alone p s).1) (run .none p 0 s).2.1 0 (alone p s).2
  simp only [alone, run_bind] at h ⊢
  exact Prod.ext h.1 h.2

@[simp] theorem alone_fetch_bind (f : Fetch α → Client α σ) (s : Server α) :
    alone (fetch >>= f) s = alone (f s.get) s := by
  rw [alone_bind]
  rfl

@[simp] theorem alone_put_bind (obj : α) (f : Sent α → Client α σ) (s : Server α) :
    alone (put obj >>= f) s = alone (f (s.update obj).1) (s.update obj).2 := by
  rw [alone_bind]
  rfl

/-- Sending changes the server as the update does. -/
@[simp] theorem alone_send (obj : α) (s : Server α) :
    alone (send obj) s = ((s.update obj).1.ok, (s.update obj).2) := by
  rw [send, alone_put_bind]
  rfl

/-- An update with the stored version, sent alone, is accepted. -/
theorem alone_send_of_version {s : Server α} {current obj : α} (hobj : s.object = some current)
    (hversion : Resource.resourceVersion obj = Resource.resourceVersion current) :
    ∃ stored, (alone (send obj) s).1 = true ∧ (alone (send obj) s).2.object = some stored ∧
      Resource.stamp 0 stored = Resource.stamp 0 obj := by
  obtain ⟨stored, t, hupdate, hstored, hcontent⟩ := Server.update_of_version hobj hversion
  rw [alone_send, hupdate]
  exact ⟨stored, rfl, hstored, hcontent⟩

end Client

end HealthCheck.Api
