import HealthCheck.Nginx.Handlers

/-!
# The life of a check

Every check that a worker starts is reported once, and its handlers make the accesses that the
interleavings of several workers are made of. In the http module a check also ends with the release
of the peer, so that the peer is checked again. In the stream module it does not when the connection
fails at once: the worker keeps the peer and waits for itself.
-/

namespace HealthCheck.Nginx

open Interleaving

namespace Checker

variable {Pid Ctx : Type} {env : CheckSetup Pid Ctx} {c d : Checker Pid Ctx} {now : Msec}

variable [DecidableEq Pid]

/-! ### Every check is reported once -/

/-- As many checks have been started as have been reported or are in progress. -/
theorem Handled.count {c' : Checker Pid Ctx} (h : Handled env c c')
    (hcount : c.starts = c.reports.length + c.pending) :
    c'.starts = c'.reports.length + c'.pending := by
  have hadvanced : ∀ (now : Msec) {d : Checker Pid Ctx}, d.starts = d.reports.length + 1 →
      Advanced env now d c' → c'.starts = c'.reports.length + c'.pending := by
    rintro now d hd (hcontinued | ⟨result, hended⟩)
    · rw [hcontinued.starts, hcontinued.reports, hcontinued.inCheck.pending, hd]
    · rw [hended.starts, hended.reports, hended.resting.pending, hd, List.length_append]
      rfl
  cases h with
  | continues hin h => exact hadvanced 0 (by rw [hcount, hin.pending]) (.inl h)
  | ends hin now result h => exact hadvanced now (by rw [hcount, hin.pending]) (.inr ⟨result, h⟩)
  | rests hrest h => exact h ▸ hcount
  | discards hrest hkept hshm hstarts hreports hrest' hclosed =>
    rw [hstarts, hreports, hrest'.pending, hcount, hrest.pending]
  | starts hrest now htaken h =>
    exact hadvanced now (by simp [taken, hcount, hrest.pending]) h
  | sticks hrest now hzone htaken h =>
    rw [h.starts, h.reports, h.resting.pending, List.length_append]
    simp [taken, hcount, hrest.pending]

/-- An event of the worker, or a change that other workers have made to the shared memory. -/
inductive CheckerOp (Pid : Type) where
  | event (event : CheckEvent)
  | memory (shm : SharedPeer Pid)

def handleOp (env : CheckSetup Pid Ctx) (c : Checker Pid Ctx) :
    CheckerOp Pid → Option (Checker Pid Ctx)
  | .event event => handle env c event
  | .memory shm => some { c with shm := shm }

/-- Whatever the type of the check, whatever happens on the sockets and whatever other workers do to
the shared memory in the meantime: no handler dereferences a null pointer, and every check that has
been started has been reported exactly once, unless it is still in progress. -/
theorem starts_eq_reports (env : CheckSetup Pid Ctx) (shm : SharedPeer Pid)
    (ops : List (CheckerOp Pid)) :
    ∃ c, ops.foldlM (handleOp env) (fresh shm) = some c ∧
      c.starts = c.reports.length + c.pending := by
  suffices h : ∀ c : Checker Pid Ctx, (InCheck c ∨ Resting c) →
      c.starts = c.reports.length + c.pending →
      ∃ c', ops.foldlM (handleOp env) c = some c' ∧ c'.starts = c'.reports.length + c'.pending from
    h _ (.inr (resting_fresh shm)) rfl
  induction ops with
  | nil => exact fun c _ hcount => ⟨c, rfl, hcount⟩
  | cons op ops ih =>
    intro c hwf hcount
    cases op with
    | event event =>
      obtain ⟨d, hd, hhandled⟩ := handled_handle env hwf event
      obtain ⟨c', hc', hcount'⟩ := ih d hhandled.wf (hhandled.count hcount)
      exact ⟨c', by rw [List.foldlM_cons, handleOp, hd]; exact hc', hcount'⟩
    | memory shm =>
      have hwf' : InCheck { c with shm := shm } ∨ Resting { c with shm := shm } :=
        hwf.imp (fun h => ⟨h.timer, h.connection, h.data⟩) fun h => ⟨h.timer, h.connection, h.state⟩
      exact ih _ hwf' hcount

/-! ### The accesses behind the handlers -/

/-- The worker as it is between two handlers. -/
structure Simulates (c : Checker Pid Ctx) (w : Worker) : Prop where
  inCheck : c.peer.timeoutSet = true → w.phase = .checking
  resting : c.peer.timeoutSet = false → w = ⟨.idle, c.peer.connection.isSome⟩

/-- The result with which a check ends. -/
def finishResult : WorkerInput → Option Bool
  | .finish result _ _ _ => some result
  | _ => none

theorem finishResult_beginInputs (now : Msec) : (beginInputs now).filterMap finishResult = [] := rfl

theorem finishResult_finishInputs (result : Bool) (now : Msec) (cleans keeps : Bool) :
    (finishInputs result now cleans keeps).filterMap finishResult = [result] := rfl

variable (env) in
/-- The accesses of the worker, alone, that lead from one state to the other and report the same
results. -/
def Accesses (c : Checker Pid Ctx) (w : Worker) (c' : Checker Pid Ctx) : Prop :=
  ∃ (is : List WorkerInput) (w' : Worker), Simulates c' w' ∧
    System.alone (workerAccess env.conf) env.pid (w, c.shm) is = (w', c'.shm) ∧
    c'.reports = c.reports ++ is.filterMap finishResult

theorem accesses_refl {w : Worker} (hsim : Simulates d w) (hshm : d.shm = c.shm)
    (hreports : d.reports = c.reports) : Accesses env c w d :=
  ⟨[], w, hsim, by rw [hshm]; rfl, by simp [hreports]⟩

/-- A check that goes on or ends. -/
theorem accesses_advanced {w : Worker} {c' : Checker Pid Ctx} (now : Msec)
    (hphase : w.phase = .checking) (h : Advanced env now c c') : Accesses env c w c' := by
  obtain ⟨phase, kept⟩ := w
  obtain rfl : phase = .checking := hphase
  rcases h with hcontinued | ⟨result, hended⟩
  · refine accesses_refl ⟨fun _ => rfl, fun h => ?_⟩ hcontinued.shm hcontinued.reports
    rw [hcontinued.inCheck.timer] at h
    cases h
  · refine ⟨finishInputs result now true c'.peer.connection.isSome, _, ⟨fun h => ?_, fun _ => rfl⟩,
      ?_, ?_⟩
    · rw [hended.resting.timer] at h
      cases h
    · rw [alone_finishInputs, hended.shm]
      simp
    · rw [hended.reports, finishResult_finishInputs]

/-- A handler makes the accesses of a worker that runs alone. -/
theorem accesses_handled {w : Worker} {c' : Checker Pid Ctx} (hfree : c.shm.mutex = none)
    (hsim : Simulates c w) (h : Handled env c c') : Accesses env c w c' := by
  have hbegin : ∀ now, Resting c → (c.shm.beginHandler env.conf env.pid now).1 = .checking →
      System.alone (workerAccess env.conf) env.pid (w, c.shm) (beginInputs now) =
        (⟨.checking, c.peer.connection.isSome⟩, (taken env now c).shm) := by
    intro now hrest htaken
    rw [hsim.resting hrest.timer, alone_beginInputs hfree, htaken]
    rfl
  cases h with
  | continues hin h => exact accesses_advanced 0 (hsim.inCheck hin.timer) (.inl h)
  | ends hin now result h => exact accesses_advanced now (hsim.inCheck hin.timer) (.inr ⟨result, h⟩)
  | rests hrest h =>
    subst h
    exact accesses_refl hsim rfl rfl
  | discards hrest hkept hshm hstarts hreports hrest' hclosed =>
    refine ⟨[.discard], ⟨.idle, false⟩, ⟨fun h => ?_, fun _ => by rw [hclosed]; rfl⟩, ?_, ?_⟩
    · rw [hrest'.timer] at h
      cases h
    · rw [hsim.resting hrest.timer, hkept, hshm]
      rfl
    · rw [hreports]
      exact (List.append_nil _).symm
  | starts hrest now htaken h =>
    obtain ⟨is, w', hsim', halone, hreports⟩ :=
      accesses_advanced (w := ⟨.checking, c.peer.connection.isSome⟩) now rfl h
    refine ⟨beginInputs now ++ is, w', hsim', ?_, ?_⟩
    · rw [System.alone_append, hbegin now hrest htaken, halone]
    · rw [List.filterMap_append, finishResult_beginInputs]
      exact hreports
  | sticks hrest now hzone htaken h =>
    refine ⟨beginInputs now ++ finishInputs false now false false, ⟨.idle, false⟩,
      ⟨fun h' => ?_, fun _ => by rw [h.connection]; rfl⟩, ?_, ?_⟩
    · rw [h.resting.timer] at h'
      cases h'
    · rw [System.alone_append, hbegin now hrest htaken, alone_finishInputs, h.shm]
      rfl
    · rw [List.filterMap_append, finishResult_beginInputs, finishResult_finishInputs]
      exact h.reports

theorem mutex_beginHandler {conf : WorkerConf} {pid : Pid} (shm : SharedPeer Pid) (now : Msec) :
    (shm.beginHandler conf pid now).2.mutex = shm.mutex := by
  unfold SharedPeer.beginHandler
  split_ifs <;> rfl

theorem Handled.mutex {c' : Checker Pid Ctx} (h : Handled env c c') :
    c'.shm.mutex = c.shm.mutex := by
  have hadvanced : ∀ {now d}, Advanced env now d c' → c'.shm.mutex = d.shm.mutex := by
    rintro now d (hcontinued | ⟨result, hended⟩)
    · rw [hcontinued.shm]
    · rw [hended.shm]
  cases h with
  | continues hin h => rw [h.shm]
  | ends hin now result h => rw [h.shm]
  | rests hrest h => rw [h]
  | discards hrest hkept hshm hstarts hreports hrest' hclosed => rw [hshm]
  | starts hrest now htaken h => exact (hadvanced h).trans (mutex_beginHandler c.shm now)
  | sticks hrest now hzone htaken h =>
    rw [h.shm]
    exact mutex_beginHandler c.shm now

/-- The handlers refine the accesses: for every row of events, the worker that makes one access at a
time, alone, has a run that leads to the same shared memory, reports the same results and ends
between two handlers in the same state. -/
theorem run_refines_accesses (env : CheckSetup Pid Ctx) {w : Worker} (hwf : InCheck c ∨ Resting c)
    (hfree : c.shm.mutex = none) (hsim : Simulates c w) (events : List CheckEvent) :
    ∃ c', run env c events = some c' ∧ Accesses env c w c' := by
  induction events generalizing c w with
  | nil => exact ⟨c, rfl, accesses_refl hsim rfl rfl⟩
  | cons event events ih =>
    obtain ⟨d, hd, hhandled⟩ := handled_handle env hwf event
    obtain ⟨is, w', hsim', halone, hreports⟩ := accesses_handled hfree hsim hhandled
    obtain ⟨c', hc', js, w'', hsim'', halone', hreports'⟩ :=
      ih hhandled.wf (hhandled.mutex.trans hfree) hsim'
    refine ⟨c', by rw [run, List.foldlM_cons, hd]; exact hc', is ++ js, w'', hsim'', ?_, ?_⟩
    · rw [System.alone_append, halone, halone']
    · rw [hreports', hreports, List.filterMap_append, List.append_assoc]

/-- A check over TCP, with nothing to send or to parse. -/
def tcpSetup (zone : Zone) (known : ⟨false, false, false, zone = .http, false⟩ ∈
    zone.checkTypes.map Prod.snd) : CheckSetup Bool Unit where
  pid := true
  zone := zone
  type := ⟨false, false, false, zone = .http, false⟩
  known := known
  keepaliveRequests := 1
  sendLength := 0
  conf := CheckSystem.webConf
  protocol :=
    { init := (), recv := fun _ _ _ => (), parse := fun _ => ⟨.ok, false, ()⟩, reinit := id }

/-- The shared memory of a new peer. -/
def freshShm : SharedPeer Bool := (CheckSystem.fresh {} 1).memory

/-- No answer of a system call is a failure. -/
def goodAnswer : WriteAnswer where
  peek := true
  armed := true
  allocated := true
  sent := 0
  failed := false

theorem tcp_refines_accesses :
    ∃ c', run (tcpSetup .http (by decide)) (fresh freshShm)
        [.timer 3000 true .again goodAnswer, .writable 3010 goodAnswer] = some c' ∧
      Accesses (tcpSetup .http (by decide)) (fresh freshShm) ⟨.idle, false⟩ c' :=
  run_refines_accesses (tcpSetup .http (by decide)) (.inr (resting_fresh freshShm)) rfl
    ⟨fun h => Bool.noConfusion h, fun _ => rfl⟩ _

/-! ### Peers that are checked again, and peers that are not -/

theorem owner_of_taken {conf : WorkerConf} {pid : Pid} {shm : SharedPeer Pid}
    (h : (shm.beginHandler conf pid now).1 = .checking) :
    (shm.beginHandler conf pid now).2.owner = some pid := by
  unfold SharedPeer.beginHandler at h ⊢
  split_ifs at h ⊢ <;> simp_all

theorem generation_beginHandler {conf : WorkerConf} {pid : Pid} (shm : SharedPeer Pid)
    (now : Msec) : (shm.beginHandler conf pid now).2.generation = shm.generation := by
  unfold SharedPeer.beginHandler
  split_ifs <;> rfl

/-- With nobody else around, the worker owns the peer while it checks it, and nobody does
otherwise. -/
structure OwnsInCheck (env : CheckSetup Pid Ctx) (c : Checker Pid Ctx) : Prop where
  wf : InCheck c ∨ Resting c
  owner : c.shm.owner = if c.peer.timeoutSet then some env.pid else none
  generation : c.shm.generation = env.conf.generation

theorem OwnsInCheck.handled {c' : Checker Pid Ctx} (hzone : env.zone = .http)
    (hown : OwnsInCheck env c) (h : Handled env c c') : OwnsInCheck env c' := by
  have hadvanced : ∀ now {d}, d.shm.owner = some env.pid → d.shm.generation = env.conf.generation →
      Advanced env now d c' → c'.shm.owner = (if c'.peer.timeoutSet then some env.pid else none) ∧
        c'.shm.generation = env.conf.generation := by
    rintro now d howner hgeneration (hcontinued | ⟨result, hended⟩)
    · rw [hcontinued.shm, hcontinued.inCheck.timer]
      exact ⟨howner, hgeneration⟩
    · rw [hended.shm, hended.resting.timer]
      exact ⟨rfl, hgeneration⟩
  suffices hc' : c'.shm.owner = (if c'.peer.timeoutSet then some env.pid else none) ∧
      c'.shm.generation = env.conf.generation from ⟨h.wf, hc'.1, hc'.2⟩
  have hin : InCheck c → c.shm.owner = some env.pid := fun h => by rw [hown.owner, h.timer]; rfl
  cases h with
  | continues hcheck h => exact hadvanced 0 (hin hcheck) hown.generation (.inl h)
  | ends hcheck now result h => exact hadvanced now (hin hcheck) hown.generation (.inr ⟨result, h⟩)
  | rests hrest h =>
    subst h
    exact ⟨hown.owner, hown.generation⟩
  | discards hrest hkept hshm hstarts hreports hrest' hclosed =>
    rw [hshm, hrest'.timer]
    exact ⟨rfl, hown.generation⟩
  | starts hrest now htaken h =>
    exact hadvanced now (owner_of_taken htaken)
      ((generation_beginHandler c.shm now).trans hown.generation) h
  | sticks hrest now hstream htaken h =>
    rw [hzone] at hstream
    cases hstream

/-- In the http module every peer is checked again and again: after any row of events the check in
progress, if there is one, ends with its timeout at the latest and releases the peer; if there is
none, the first timer after the interval starts one. -/
theorem http_checks_again (hzone : env.zone = .http) {shm : SharedPeer Pid}
    (howner : shm.owner = none) (hgeneration : shm.generation = env.conf.generation)
    (events : List CheckEvent) :
    ∃ c, run env (fresh shm) events = some c ∧
      (c.peer.timeoutSet = true → ∀ now, ∃ c', handle env c (.timeout now) = some c' ∧
        c'.reports.length = c.reports.length + 1 ∧ c'.shm.owner = none) ∧
      (c.peer.timeoutSet = false → ∀ now peek connect answer,
        env.conf.checkInterval ≤ now - c.shm.accessTime →
        ∃ c', handle env c (.timer now peek connect answer) = some c' ∧
          c'.starts = c.starts + 1) := by
  have hstart : OwnsInCheck env (fresh shm) := ⟨.inr (resting_fresh shm), howner, hgeneration⟩
  obtain ⟨c, hc, hown⟩ := run_invariant (fun c (h : OwnsInCheck env c) => h.wf)
    (fun c c' h => h.handled hzone) hstart events
  refine ⟨c, hc, fun htimer now => ?_, fun htimer now peek connect answer hinterval => ?_⟩
  · have hin : InCheck c := hown.wf.resolve_right fun hrest => by simp [hrest.timer] at htimer
    obtain ⟨c', result, hc', hended⟩ := ended_timeoutHandler env now hin
    refine ⟨c', by simpa [handle, htimer] using hc', ?_, by rw [hended.shm]⟩
    rw [hended.reports, List.length_append]
    rfl
  · have hrest : Resting c := hown.wf.resolve_left fun hin => by simp [hin.timer] at htimer
    have hnone : c.shm.owner = none := by rw [hown.owner, htimer]; rfl
    have htaken : (c.shm.beginHandler env.conf env.pid now).1 = .checking := by
      simp [SharedPeer.beginHandler, hnone, hown.generation, hinterval]
    have hrest' : Resting (taken env now c) := ⟨hrest.timer, hrest.connection, hrest.state⟩
    refine ⟨_, by simp only [handle, htimer, htaken]; rfl, ?_⟩
    rcases connectHandler_cases env now peek connect answer hrest' with hadvanced | ⟨-, hstuck⟩
    · exact hadvanced.starts
    · exact hstuck.starts

theorem tcp_checks_again :
    ∃ c, run (tcpSetup .http (by decide)) (fresh freshShm)
        [.timer 3000 true .failed goodAnswer] = some c ∧
      (c.peer.timeoutSet = true → ∀ now, ∃ c',
        handle (tcpSetup .http (by decide)) c (.timeout now) =
          some c' ∧ c'.reports.length = c.reports.length + 1 ∧ c'.shm.owner = none) ∧
      (c.peer.timeoutSet = false → ∀ now peek connect answer, 3000 ≤ now - c.shm.accessTime →
        ∃ c', handle (tcpSetup .http (by decide)) c (.timer now peek connect answer) = some c' ∧
          c'.starts = c.starts + 1) :=
  http_checks_again rfl rfl rfl _

/-- Without a connection and with the peer in its possession, the worker does nothing any more. -/
theorem run_of_stuck (hrest : Resting c) (hconn : c.peer.connection = none)
    (howner : c.shm.owner = some env.pid) (events : List CheckEvent) :
    run env c events = some c := by
  have hstep : ∀ event, handle env c event = some c := by
    intro event
    cases event with
    | timer now peek connect answer =>
      have hbegin : c.shm.beginHandler env.conf env.pid now = (.idle, c.shm) := if_pos (.inl howner)
      simp [handle, hrest.timer, hbegin]
    | writable now answer => simp [handle, hconn]
    | readable now answer => simp [handle, hconn]
    | timeout now => simp [handle, hrest.timer]
  induction events with
  | nil => rfl
  | cons event events ih =>
    rw [run, List.foldlM_cons, hstep]
    exact ih

/-- In the stream module a connection that fails at once is the end of the checks by this worker: it
reports the failure, keeps the peer, and from then on no event changes anything. -/
theorem stream_stops_checking (hzone : env.zone = .stream) (hrest : Resting c)
    (htaken : (c.shm.beginHandler env.conf env.pid now).1 = .checking) {peek : Bool}
    (hclosed : (c.peer.connection.filter fun _ => peek) = none) (answer : WriteAnswer) :
    ∃ c', handle env c (.timer now peek .failed answer) = some c' ∧
      c'.reports = c.reports ++ [false] ∧ c'.shm.owner = some env.pid ∧
      ∀ events, run env c' events = some c' := by
  let stuck : Checker Pid Ctx := statusUpdate env false now { taken env now c with
    peer := { c.peer with connection := none } }
  have hhandle : handle env c (.timer now peek .failed answer) = some stuck := by
    have hfilter : ((taken env now c).peer.connection.filter fun _ => peek) = none := hclosed
    have hconnect : connectHandler env peek .failed answer now (taken env now c) = stuck := by
      simp only [connectHandler, hfilter, hzone]
      rfl
    rw [← hconnect]
    simp only [handle, hrest.timer, htaken]
    rfl
  have howner : stuck.shm.owner = some env.pid := owner_of_taken htaken
  have hstuck : Resting stuck :=
    ⟨hrest.timer, fun conn h => absurd h (Option.some_ne_none conn).symm, hrest.state⟩
  exact ⟨stuck, hhandle, rfl, howner, run_of_stuck hstuck rfl howner⟩

theorem tcp_stops_checking :
    ∃ c', handle (tcpSetup .stream (by decide)) (fresh freshShm)
        (.timer 3000 true .failed goodAnswer) = some c' ∧
      c'.reports = [false] ∧ c'.shm.owner = some true ∧
      ∀ events, run (tcpSetup .stream (by decide)) c' events = some c' :=
  stream_stops_checking rfl (resting_fresh freshShm) (by decide) rfl goodAnswer

end Checker

end HealthCheck.Nginx
