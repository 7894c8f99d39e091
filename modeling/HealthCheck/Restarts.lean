import HealthCheck.Supervision

/-!
# Calls that bring nginx back

A call of `reloadNgx` that runs alone can only reload a master that serves, or start one where there
is none. So a poll without an answer brings nginx back, unless something stands in the way that no
number of polls removes. Two calls at the same time can do otherwise.
-/

namespace HealthCheck

open Nginx Interleaving

/-! ### Calls that run alone -/

/-- The goroutine is not in a call. -/
def Caller.AtRest {Addr : Type} : Caller Addr → Prop
  | .idle | .returned _ => True
  | _ => False

/-- A whole call. -/
def wholeCall (pid : ℕ) : List CallInput := .call :: List.replicate 8 (.command pid)

section Alone

variable {Thread Addr : Type} [DecidableEq Addr] {hash : String → UInt32} {h : Host Addr}

/-- A call of `reloadNgx` that reaches a process is a reload. -/
theorem reloadNgx_of_reaches (hreaches : h.reaches = true) (pid : ℕ) :
    reloadNgx hash h pid = h.signal .reload := by
  rw [reloadNgx]
  exact if_pos ((h.signal_snd .reload).trans hreaches)

/-- A call of `reloadNgx` that reaches no process is a start. -/
theorem reloadNgx_of_not_reaches (hreaches : h.reaches = false) (pid : ℕ) :
    reloadNgx hash h pid = startNgx hash h pid := by
  have hstop : restartNgx hash h pid = startNgx hash h pid := by
    rw [restartNgx, Host.signal_of_not_reaches hreaches]
    rfl
  rw [reloadNgx, Host.signal_of_not_reaches hreaches]
  exact hstop

/-- A call goes on by one command. -/
def Caller.advance (hash : String → UInt32) (pid : ℕ) (r : Caller Addr × Host Addr) :
    Caller Addr × Host Addr := r.1.command hash r.2 pid

theorem Caller.advance_signal (hash : String → UInt32) (hreaches : h.reaches = false) (pid : ℕ) :
    advance hash pid (.reload, h) = (.stop, h) ∧ advance hash pid (.stop, h) = (.start, h) := by
  constructor
  · rw [advance, Caller.command, Host.signal_of_not_reaches hreaches]
    rfl
  · rw [advance, Caller.command, Host.signal_of_not_reaches hreaches]
    rfl

/-- The command `nginx`, with all its tries to open the sockets. -/
theorem Caller.advance_start (h : Host Addr) (pid : ℕ) :
    (advance hash pid)^[6] (.start, h) =
      (.returned (startNgx hash h pid).2, (startNgx hash h pid).1) := by
  have hreturned (n : ℕ) (ok : Bool) (h' : Host Addr) :
      (advance hash pid)^[n] (.returned ok, h') = (.returned ok, h') :=
    Function.iterate_fixed rfl n
  have hstart : advance hash pid (.start, h) =
      (if h.files.succeeds then .binding h.files 5 else .returned false, h) := rfl
  rw [Function.iterate_succ_apply, hstart, startNgx]
  cases h.files.succeeds with
  | false => exact hreturned 5 false h
  | true =>
    cases hbound : h.bound with
    | true =>
      have hbind (tries : ℕ) : advance hash pid (.binding h.files tries, h) =
          (if 1 < tries then .binding h.files (tries - 1) else .returned false, h) := by
        rw [advance, Caller.command, hbound]
        rfl
      simp [Function.iterate_succ_apply, hbind]
    | false =>
      have hbind : advance hash pid (.binding h.files 5, h) =
          (.returned true, h.daemon hash h.files pid) := by
        rw [advance, Caller.command, hbound]
        rfl
      change (advance hash pid)^[5] (.binding h.files 5, h) = _
      rw [Function.iterate_succ_apply, hbind]
      exact hreturned 4 true _

/-- The commands of a call, run one after the other, are `reloadNgx`. -/
theorem alone_wholeCall (t : Thread) {c : Caller Addr} (hc : c.AtRest) (pid : ℕ) :
    System.alone (callAccess hash) t (c, h) (wholeCall pid) =
      (.returned (reloadNgx hash h pid).2, (reloadNgx hash h pid).1) := by
  have hcall : callAccess hash t .call c h = (.reload, h) := by
    cases c with
    | idle | returned ok => rfl
    | reload | stop | start | binding load tries => cases hc
  have hcommands (n : ℕ) (r : Caller Addr × Host Addr) :
      System.alone (callAccess hash) t r (List.replicate n (.command pid)) =
        (Caller.advance hash pid)^[n] r := by
    induction n generalizing r with
    | zero => rfl
    | succ n ih => exact ih _
  have hwhole : System.alone (callAccess hash) t (c, h) (wholeCall pid) =
      (Caller.advance hash pid)^[8] (.reload, h) := by
    rw [← hcommands, ← hcall]
    rfl
  rw [hwhole]
  cases hreaches : h.reaches with
  | true =>
    have hreload : Caller.advance hash pid (.reload, h) =
        (.returned true, (h.signal .reload).1) := by
      rw [Caller.advance, Caller.command, Host.signal_snd, hreaches]
      rfl
    rw [Function.iterate_succ_apply, hreload, reloadNgx_of_reaches hreaches, Host.signal_snd,
      hreaches]
    exact Function.iterate_fixed rfl 7
  | false =>
    obtain ⟨hreload, hstop⟩ := Caller.advance_signal hash hreaches pid
    rw [Function.iterate_succ_apply, hreload, Function.iterate_succ_apply, hstop,
      Caller.advance_start, reloadNgx_of_not_reaches hreaches]

end Alone

/-! ### Polls without an answer -/

/-- What nginx has begun is completed: the master writes its pid file and looks at its flags, and if
it has been told to stop it ends. -/
def settling {Addr : Type} : List (HostEvent Addr) := [.pidfile true, .wake, .unlink, .exit]

/-- A whole call, and then nginx has the time to settle. -/
def attempt {Thread Addr : Type} (t : Thread) (pid : ℕ) : List (SupervisionOp Thread Addr) :=
  (wholeCall pid).map (.caller t) ++ settling.map .host

/-- A load that succeeds has parsed the configuration. -/
theorem Nginx.Load.parsed_of_succeeds {Addr : Type} (load : Load Addr)
    (hsucceeds : load.succeeds = true) : load.parsed = true := by
  rw [Load.succeeds, Bool.and_eq_true, Bool.and_eq_true] at hsucceeds
  exact hsucceeds.1.1

namespace Nginx.Host

variable {Addr : Type} {h : Host Addr} {m : MasterProcess Addr}

/-- A master serves and goes on to do so. -/
def up (h : Host Addr) : Bool := h.master.any fun m => m.stage = .serving && !m.terminate

/-- The master will serve. -/
def lasts (h : Host Addr) : Bool := h.master.any fun m => m.stage ≠ .exiting && !m.terminate

/-- Once no master is there, nginx can be started: the configuration can be loaded, no worker of an
old master holds the sockets, and the pid file does not name another process. -/
def startable (h : Host Addr) : Bool :=
  h.files.succeeds && h.orphans.isNone &&
    (h.master.isSome || !h.pidFile.any fun pid => h.others.contains pid)

theorem up_iff : h.up = true ↔
    ∃ m, h.master = some m ∧ m.stage = .serving ∧ m.terminate = false := by
  simp [up, Option.any_eq_true]

theorem lasts_of_master (hmaster : h.master = some m) :
    h.lasts = (decide (m.stage ≠ .exiting) && !m.terminate) := by
  rw [lasts, hmaster]
  rfl

theorem succeeds_of_startable (hstart : h.startable = true) : h.files.succeeds = true := by
  rw [startable, Bool.and_eq_true, Bool.and_eq_true] at hstart
  exact hstart.1.1

/-- Without a master, nginx can be started if the first two commands of a call reach nobody and the
third one succeeds. -/
theorem startable_of_none (hmaster : h.master = none) :
    h.startable = (h.files.succeeds && !h.bound && !h.reaches) := by
  rw [startable, reaches, bound, hmaster]
  cases hsucceeds : h.files.succeeds with
  | false => rfl
  | true => cases h.orphans <;> simp [h.files.parsed_of_succeeds hsucceeds]

variable [DecidableEq Addr] (hash : String → UInt32)

/-- The host after everything has been completed. -/
def settle (h : Host Addr) : Host Addr := settling.foldl (step hash) h

/-- The host after an attempt. -/
def round (h : Host Addr) (pid : ℕ) : Host Addr := (reloadNgx hash h pid).1.settle hash

variable {hash}

theorem Consistent.reloadNgx (hh : h.Consistent) (pid : ℕ) :
    (reloadNgx hash h pid).1.Consistent := by
  cases hreaches : h.reaches with
  | true =>
    rw [reloadNgx_of_reaches hreaches]
    exact hh.signal .reload
  | false =>
    rw [reloadNgx_of_not_reaches hreaches, startNgx]
    split_ifs with hstart
    · rw [Bool.and_eq_true, Bool.not_eq_true'] at hstart
      exact Consistent.daemon hstart.2 h.files pid
    · exact hh

theorem Consistent.settle (hh : h.Consistent) : (h.settle hash).Consistent := by
  have hstep {h : Host Addr} (hh : h.Consistent) (event : HostEvent Addr) :
      (h.step hash event).Consistent := hh.step event
  exact hstep (hstep (hstep (hstep hh (.pidfile true)) .wake) .unlink) .exit

theorem Consistent.round (hh : h.Consistent) (pid : ℕ) : (h.round hash pid).Consistent :=
  (hh.reloadNgx pid).settle

theorem settle_of_none (hmaster : h.master = none) : h.settle hash = h := by
  simp [settle, settling, step, inStage_of_none hmaster]

/-- A master that has written its pid file and has not been told to stop looks at its flags. -/
theorem settle_of_serving (hmaster : h.master = some m) (hstage : m.stage = .serving)
    (hrunning : m.terminate = false) :
    h.settle hash = { h with master := some (wake hash h.files m) } := by
  have hwake : (wake hash h.files m).stage = .serving := (wake_stage ..).trans hstage
  have hterminate : (wake hash h.files m).terminate = false := by
    rw [wake, if_neg (by simp [hrunning])]
    split_ifs <;> exact hrunning
  have hpidfile : h.step hash (.pidfile true) = h := by
    rw [step, inStage_of_some hmaster, if_neg (by simp [hstage])]
  have hloop : h.step hash .wake = { h with master := some (wake hash h.files m) } := by
    rw [step, inStage_of_some hmaster, if_pos hstage]
  have hunlink : Host.step hash { h with master := some (wake hash h.files m) } .unlink =
      { h with master := some (wake hash h.files m) } := by
    rw [step, inStage_of_some rfl, if_pos hwake, if_neg (by simp [hterminate])]
  have hexit : Host.step hash { h with master := some (wake hash h.files m) } .exit =
      { h with master := some (wake hash h.files m) } := by
    rw [step, inStage_of_some rfl, if_neg (by simp [hwake])]
  rw [settle, settling, List.foldl_cons, hpidfile, List.foldl_cons, hloop, List.foldl_cons, hunlink,
    List.foldl_cons, hexit, List.foldl_nil]

/-- A master that has written its pid file and has been told to stop ends. -/
theorem settle_of_terminate (hmaster : h.master = some m) (hstage : m.stage = .serving)
    (hstopped : m.terminate = true) :
    h.settle hash = { h with pidFile := none, master := none } := by
  have hpidfile : h.step hash (.pidfile true) = h := by
    rw [step, inStage_of_some hmaster, if_neg (by simp [hstage])]
  have hloop : h.step hash .wake = { h with master := some m } := by
    rw [step, inStage_of_some hmaster, if_pos hstage, wake, if_pos hstopped]
  have hunlink : Host.step hash { h with master := some m } .unlink =
      { h with pidFile := none, master := some { m with stage := .exiting } } := by
    rw [step, inStage_of_some rfl, if_pos hstage, if_pos hstopped]
  rw [settle, settling, List.foldl_cons, hpidfile, List.foldl_cons, hloop, List.foldl_cons, hunlink]
  rfl

/-- A master that has just been started is on its way to serve. -/
theorem settle_of_daemonized (hmaster : h.master = some m) (hstage : m.stage = .daemonized) :
    h.settle hash =
      settle hash
        { h with pidFile := some m.pid, master := some { m with stage := .serving } } := by
  have hpidfile : h.step hash (.pidfile true) =
      { h with pidFile := some m.pid, master := some { m with stage := .serving } } := by
    rw [step, inStage_of_some hmaster, if_pos hstage]
    rfl
  rw [settle, settling, List.foldl_cons, hpidfile]
  rfl

theorem settle_of_exiting (hmaster : h.master = some m) (hstage : m.stage = .exiting) :
    h.settle hash = { h with master := none } := by
  have hother (stage : Stage) (hne : stage ≠ .exiting) (f : MasterProcess Addr → Host Addr) :
      h.inStage stage f = h := by
    rw [inStage_of_some hmaster, hstage, if_neg hne.symm]
  have hexit : h.step hash .exit = { h with master := none } := by
    rw [step, inStage_of_some hmaster, if_pos hstage]
  rw [settle, settling, List.foldl_cons, List.foldl_cons, List.foldl_cons, List.foldl_cons,
    List.foldl_nil, step, hother _ (by decide), step, hother _ (by decide), step,
    hother _ (by decide), hexit]

/-- The host settles with the master that is to last, or without one. -/
theorem settle_of_master (hh : h.Consistent) (hmaster : h.master = some m) :
    (h.settle hash).up = true ∧ h.lasts = true ∨
      h.settle hash = { h with pidFile := none, master := none } ∧ h.lasts = false := by
  have hserving (h : Host Addr) (m : MasterProcess Addr) (hmaster : h.master = some m)
      (hstage : m.stage = .serving) : (h.settle hash).up = true ∧ h.lasts = true ∨
        h.settle hash = { h with pidFile := none, master := none } ∧ h.lasts = false := by
    cases hterminate : m.terminate with
    | true =>
      refine Or.inr ⟨settle_of_terminate hmaster hstage hterminate, ?_⟩
      simp [lasts_of_master hmaster, hterminate]
    | false =>
      refine Or.inl ⟨?_, by simp [lasts_of_master hmaster, hterminate, hstage]⟩
      have hwake : (wake hash h.files m).terminate = false := by
        rw [wake, if_neg (by simp [hterminate])]
        split_ifs <;> exact hterminate
      rw [settle_of_serving hmaster hstage hterminate]
      simp [up, wake_stage, hstage, hwake]
  cases hstage : m.stage with
  | serving => exact hserving h m hmaster hstage
  | daemonized =>
    have hlasts :
        lasts { h with pidFile := some m.pid, master := some { m with stage := .serving } } =
        h.lasts := by
      rw [lasts_of_master hmaster, lasts_of_master rfl]
      simp [hstage]
    rw [settle_of_daemonized hmaster hstage, ← hlasts]
    exact hserving _ _ rfl rfl
  | exiting =>
    refine Or.inr ⟨?_, by simp [lasts_of_master hmaster, hstage]⟩
    have hfile : h.pidFile = none := hh.deleted m hmaster hstage
    rw [settle_of_exiting hmaster hstage, ← hfile]

/-- While there is a master, a call can do no more than have it reload. -/
theorem reloadNgx_of_master (hmaster : h.master = some m) (pid : ℕ) :
    (HealthCheck.reloadNgx hash h pid).1 = h ∨
      (HealthCheck.reloadNgx hash h pid).1 = { h with master := some (m.receive .reload) } := by
  cases hreaches : h.reaches with
  | true =>
    rw [reloadNgx_of_reaches hreaches]
    refine (h.signal_fst .reload).imp_right ?_
    rintro ⟨_, hm, hsignal⟩
    rw [hmaster] at hm
    obtain ⟨rfl⟩ := hm
    exact hsignal
  | false =>
    have hbound : h.bound = true := by
      rw [bound, hmaster]
      rfl
    refine Or.inl ?_
    rw [reloadNgx_of_not_reaches hreaches, startNgx, hbound, Bool.not_true, Bool.and_false]
    rfl

/-- An attempt when there is a master. -/
theorem round_of_master (hash : String → UInt32) (hh : h.Consistent) (hmaster : h.master = some m)
    (pid : ℕ) :
    (h.round hash pid).up = true ∧ h.lasts = true ∨
      h.round hash pid = { h with pidFile := none, master := none } ∧ h.lasts = false := by
  have hcalled : (HealthCheck.reloadNgx hash h pid).1.Consistent := hh.reloadNgx pid
  rcases reloadNgx_of_master hmaster pid with hsame | hreload
  · rw [round, hsame]
    exact settle_of_master hh hmaster
  · have hlasts : lasts { h with master := some (m.receive .reload) } = h.lasts := by
      rw [lasts_of_master hmaster]
      rfl
    rw [hreload] at hcalled
    rw [round, hreload, ← hlasts]
    exact settle_of_master hcalled rfl

/-- A call when nginx can be started. -/
theorem reloadNgx_of_startable (hash : String → UInt32) (hmaster : h.master = none)
    (hstart : h.startable = true) (pid : ℕ) :
    h.reaches = false ∧ HealthCheck.reloadNgx hash h pid = (h.daemon hash h.files pid, true) := by
  rw [startable_of_none hmaster, Bool.and_eq_true, Bool.not_eq_true'] at hstart
  refine ⟨hstart.2, ?_⟩
  rw [reloadNgx_of_not_reaches hstart.2, startNgx]
  exact if_pos hstart.1

/-- An attempt when there is no master. -/
theorem round_of_none (hash : String → UInt32) (hmaster : h.master = none) (pid : ℕ) :
    h.startable = true ∧ h.round hash pid = settle hash (h.daemon hash h.files pid) ∨
      h.startable = false ∧ h.round hash pid = h := by
  cases hstart : h.startable with
  | true =>
    refine Or.inl ⟨rfl, ?_⟩
    rw [round, (reloadNgx_of_startable hash hmaster hstart pid).2]
  | false =>
    refine Or.inr ⟨rfl, ?_⟩
    rw [startable_of_none hmaster] at hstart
    cases hreaches : h.reaches with
    | true =>
      rw [round, reloadNgx_of_reaches hreaches, signal_of_no_master hmaster, settle_of_none hmaster]
    | false =>
      rw [hreaches, Bool.not_false, Bool.and_true] at hstart
      rw [round, reloadNgx_of_not_reaches hreaches, startNgx, hstart]
      exact settle_of_none hmaster

/-- A start leads to a master that serves the configuration without anything from before. -/
theorem status_settle_daemon (load : Load Addr) (pid : ℕ) :
    (settle hash (h.daemon hash load pid)).up = true ∧
      (settle hash (h.daemon hash load pid)).status = some (Master.start.initCycle hash load) := by
  have hsettle : settle hash (h.daemon hash load pid) = { h with
      pidFile := some pid
      master := some ⟨pid, .serving, false, false, Master.start.initCycle hash load⟩ } := by
    rw [settle_of_daemonized rfl rfl, settle_of_serving rfl rfl rfl]
    rfl
  rw [hsettle]
  exact ⟨rfl, rfl⟩

theorem status_round (hash : String → UInt32) (hmaster : h.master = none)
    (hstart : h.startable = true) (pid : ℕ) :
    (h.round hash pid).status = some (Master.start.initCycle hash h.files) := by
  rw [round, (reloadNgx_of_startable hash hmaster hstart pid).2]
  exact (status_settle_daemon _ _).2

/-- What is up stays up. -/
theorem up_rounds (hh : h.Consistent) (hup : h.up = true) (pids : List ℕ) :
    (pids.foldl (round hash) h).up = true := by
  induction pids generalizing h with
  | nil => exact hup
  | cons pid pids ih =>
    obtain ⟨m, hmaster, hstage, hrunning⟩ := up_iff.mp hup
    have hlasts : h.lasts = true := by
      rw [lasts_of_master hmaster, hstage, hrunning]
      rfl
    have hround : (h.round hash pid).up = true := by
      rcases round_of_master hash hh hmaster pid with hround | hround
      · exact hround.1
      · rw [hlasts] at hround
        cases hround.2
    exact ih (hh.round pid) hround

/-- Attempts when there is no master: the first one starts nginx, or none ever does. -/
theorem up_rounds_of_none (hmaster : h.master = none) {pids : List ℕ} (hpids : pids ≠ []) :
    (pids.foldl (round hash) h).up = h.startable := by
  obtain ⟨pid, pids, rfl⟩ := List.exists_cons_of_ne_nil hpids
  have hh : h.Consistent := .of_no_master hmaster
  rw [List.foldl_cons]
  rcases round_of_none hash hmaster pid with ⟨hstart, hround⟩ | ⟨hstart, hround⟩
  · rw [hstart]
    refine up_rounds (hh.round pid) ?_ pids
    rw [hround]
    exact (status_settle_daemon _ _).1
  · have hsame : ∀ pids : List ℕ, pids.foldl (round hash) h = h := by
      intro pids
      induction pids with
      | nil => rfl
      | cons pid pids ih =>
        rcases round_of_none hash hmaster pid with hnext | hnext
        · rw [hstart] at hnext
          cases hnext.1
        · rw [List.foldl_cons, hnext.2]
          exact ih
    rw [hround, hsame, hstart, up, hmaster]
    rfl

/-- Attempts in any state of the host: two of them decide. -/
theorem up_rounds_iff (hh : h.Consistent) {pids : List ℕ} (hpids : 2 ≤ pids.length) :
    (pids.foldl (round hash) h).up = true ↔ h.lasts = true ∨ h.startable = true := by
  cases hmaster : h.master with
  | none =>
    have hne : pids ≠ [] := by
      rintro rfl
      simp at hpids
    have hlasts : h.lasts = false := by
      rw [lasts, hmaster]
      rfl
    rw [up_rounds_of_none hmaster hne, hlasts]
    simp
  | some m =>
    obtain ⟨pid, pids, rfl⟩ := List.exists_cons_of_length_pos (by omega : 0 < pids.length)
    have hne : pids ≠ [] := by
      rintro rfl
      simp at hpids
    rw [List.foldl_cons]
    rcases round_of_master hash hh hmaster pid with ⟨hup, hlasts⟩ | ⟨hround, hlasts⟩
    · simp [hlasts, up_rounds (hh.round pid) hup]
    · rw [hround, up_rounds_of_none rfl hne, hlasts]
      simp [startable, hmaster]

end Nginx.Host

namespace Supervision

variable {Thread Addr : Type} [DecidableEq Thread] [DecidableEq Addr] {hash : String → UInt32}
  {s : Supervision Thread Addr} {t : Thread}

/-- Every state that is reached is consistent. -/
theorem consistent_run (files : Load Addr) (others : List ℕ)
    (ops : List (SupervisionOp Thread Addr)) :
    (ops.foldl (step hash) (boot files others)).memory.Consistent := by
  refine List.foldlRecOn (motive := fun s => s.memory.Consistent) ops (step hash) ?_ ?_
  · exact .of_no_master rfl
  · intro s hs op _
    exact consistent_step op hs

/-- A whole call while nothing else happens. -/
theorem foldl_wholeCall (ht : (s.locals t).AtRest) (pid : ℕ) :
    ((wholeCall pid).map (.caller t)).foldl (step hash) s =
      { locals := Function.update s.locals t (.returned (reloadNgx hash s.memory pid).2)
        memory := (reloadNgx hash s.memory pid).1 } := by
  have hsystem :
      ((wholeCall pid).map fun i => (t, i)).foldl (System.step (callAccess hash)) s = _ :=
    System.foldl_alone t (wholeCall pid) s
  rw [alone_wholeCall t ht, List.foldl_map] at hsystem
  rw [List.foldl_map]
  exact hsystem

theorem foldl_host (events : List (HostEvent Addr)) (s : Supervision Thread Addr) :
    (events.map .host).foldl (step hash) s =
      { s with memory := events.foldl (Host.step hash) s.memory } := by
  induction events generalizing s with
  | nil => rfl
  | cons event events ih => exact ih _

theorem foldl_attempt (ht : (s.locals t).AtRest) (pid : ℕ) :
    (attempt t pid).foldl (step hash) s =
      { locals := Function.update s.locals t (.returned (reloadNgx hash s.memory pid).2)
        memory := s.memory.round hash pid } := by
  rw [attempt, List.foldl_append, foldl_wholeCall ht, foldl_host]
  rfl

theorem memory_attempts (ht : (s.locals t).AtRest) (pids : List ℕ) :
    ((pids.flatMap (attempt t)).foldl (step hash) s).memory =
      pids.foldl (Host.round hash) s.memory := by
  induction pids generalizing s with
  | nil => rfl
  | cons pid pids ih =>
    rw [List.flatMap_cons, List.foldl_append, foldl_attempt ht, List.foldl_cons]
    refine ih ?_
    change (Function.update s.locals t _ t).AtRest
    rw [Function.update_self]
    trivial

/-- A call when nginx serves, whatever has happened before and in whatever order: the master gets
the reload, or the configuration cannot be parsed and the call fails without an effect. It never
comes to a stop or to a second start. -/
theorem call_of_serving (files : Load Addr) (others : List ℕ)
    {ops : List (SupervisionOp Thread Addr)}
    (hs : s = ops.foldl (step hash) (boot files others)) (ht : (s.locals t).AtRest)
    {m : MasterProcess Addr} (hmaster : s.memory.master = some m) (hserving : m.stage = .serving)
    (pid : ℕ) :
    ((wholeCall pid).map (.caller t)).foldl (step hash) s =
      { locals := Function.update s.locals t (.returned s.memory.files.parsed)
        memory := { s.memory with master := some { m with
          reconfigure := m.reconfigure || s.memory.files.parsed } } } := by
  have hconsistent : s.memory.Consistent := by
    rw [hs]
    exact consistent_run files others ops
  have hfile := hconsistent.written m hmaster hserving
  have hbound : s.memory.bound = true := by
    rw [Host.bound, hmaster]
    rfl
  rw [foldl_wholeCall ht]
  generalize s.memory = h at *
  cases hparsed : h.files.parsed with
  | true =>
    have hreaches : h.reaches = true :=
      Host.reaches_iff.mpr ⟨hparsed, m.pid, hfile, Or.inl ⟨m, hmaster, rfl⟩⟩
    rw [reloadNgx_of_reaches hreaches, Host.signal_of_master hparsed hmaster hfile, Bool.or_true]
    rfl
  | false =>
    have hreaches : h.reaches = false := by
      rw [Host.reaches, hparsed, Bool.false_and]
    have hsame : ({ h with master := some m } : Host Addr) = h := by
      rw [← hmaster]
    rw [reloadNgx_of_not_reaches hreaches, startNgx, hbound, Bool.not_true, Bool.and_false,
      Bool.or_false]
    exact congrArg _ hsame.symm

/-- The first poll has found that nginx does not run. -/
def firstPoll : Supervision Unit ℕ := (attempt () 7).foldl (step fun _ => 0) (boot noUpstreams [1])

/-- Another call follows. -/
theorem call_of_serving_firstPoll :
    ((wholeCall 9).map (.caller ())).foldl (step fun _ => 0) firstPoll =
      { locals := Function.update firstPoll.locals () (.returned true)
        memory := { firstPoll.memory with master := some ⟨7, .serving, true, false,
          Master.start.initCycle (fun _ => 0) noUpstreams⟩ } } :=
  have hmaster : firstPoll.memory.master =
      some ⟨7, .serving, false, false, Master.start.initCycle (fun _ => 0) noUpstreams⟩ := rfl
  call_of_serving (s := firstPoll) (t := ()) noUpstreams [1] rfl trivial hmaster rfl 9

/-- One call sends its reload in vain; another one, made at the same time, starts nginx; the first
one goes on. -/
def overlappingCalls (a b : Thread) (pid : ℕ) : List (SupervisionOp Thread Addr) :=
  [.caller b .call, .caller b (.command pid)] ++ (wholeCall pid).map (.caller a) ++
    [.host (.pidfile true), .caller b (.command pid)]

theorem step_caller {i : CallInput} {c : Caller Addr} {h : Host Addr}
    (hc : callAccess hash t i (s.locals t) s.memory = (c, h)) :
    step hash s (.caller t i) = ⟨Function.update s.locals t c, h⟩ := by
  change (⟨Function.update s.locals t (callAccess hash t i (s.locals t) s.memory).1,
    (callAccess hash t i (s.locals t) s.memory).2⟩ : Supervision Thread Addr) = _
  rw [hc]

/-- A call that has sent its reload to nobody. -/
theorem foldl_reload (ht : (s.locals t).AtRest) (hreaches : s.memory.reaches = false) (pid : ℕ) :
    [.caller t .call, .caller t (.command pid)].foldl (step hash) s =
      ⟨Function.update s.locals t .stop, s.memory⟩ := by
  have hcall : callAccess hash t .call (s.locals t) s.memory = (.reload, s.memory) := by
    cases hc : s.locals t with
    | idle | returned ok => rfl
    | reload | stop | start | binding load tries =>
      rw [hc] at ht
      cases ht
  rw [List.foldl_cons, step_caller hcall, List.foldl_cons, List.foldl_nil]
  have hcommand : callAccess hash t (.command pid) (Function.update s.locals t .reload t) s.memory =
      (.stop, s.memory) := by
    rw [Function.update_self]
    exact (Caller.advance_signal hash hreaches pid).1
  rw [step_caller hcommand, Function.update_idem]

/-- Two calls made at the same time, when nginx does not run and could be started, can leave it
stopped although both of them return nil. -/
theorem overlapping_calls_stop {a b : Thread} (hab : a ≠ b) (ha : (s.locals a).AtRest)
    (hb : (s.locals b).AtRest) (hmaster : s.memory.master = none)
    (hstart : s.memory.startable = true) (pid : ℕ) :
    ((overlappingCalls a b pid).foldl (step hash) s).locals a = .returned true ∧
      ((overlappingCalls a b pid).foldl (step hash) s).locals b = .returned true ∧
      ((overlappingCalls a b pid ++ settling.map SupervisionOp.host).foldl (step hash) s).memory =
        { s.memory with pidFile := none } := by
  obtain ⟨hreaches, hcall⟩ := Host.reloadNgx_of_startable hash hmaster hstart pid
  have hparsed : s.memory.files.parsed = true :=
    s.memory.files.parsed_of_succeeds (Host.succeeds_of_startable hstart)
  obtain ⟨locals, files, pidFile, master, orphans, others⟩ := s
  obtain rfl : master = none := hmaster
  -- the process that the call of a starts, once it has written its pid file
  let started : Host Addr := ⟨files, some pid,
    some ⟨pid, .serving, false, false, Master.start.initCycle hash files⟩, orphans, others⟩
  have hrest : (Function.update locals b .stop a).AtRest := by
    rw [Function.update_of_ne hab]
    exact ha
  have hlocals : Function.update (Function.update locals b .stop) a (.returned true) b = .stop := by
    rw [Function.update_of_ne hab.symm, Function.update_self]
  have hsignal : started.signal .stop = _ := Host.signal_of_master hparsed rfl rfl
  have hstop : Caller.command hash started pid .stop =
      (.returned true, (started.signal .stop).1) := by
    rw [Caller.command, hsignal]
    rfl
  have hrun : (overlappingCalls a b pid).foldl (step hash)
      ⟨locals, files, pidFile, none, orphans, others⟩ =
      ⟨Function.update (Function.update (Function.update locals b .stop) a (.returned true)) b
        (.returned true), (started.signal .stop).1⟩ := by
    rw [overlappingCalls, List.foldl_append, List.foldl_append, foldl_reload hb hreaches,
      foldl_wholeCall hrest, hcall]
    refine step_caller ?_
    change callAccess hash b (.command pid)
      (Function.update (Function.update locals b .stop) a (.returned true) b) started = _
    rw [hlocals]
    exact hstop
  rw [List.foldl_append, foldl_host, hrun]
  refine ⟨?_, Function.update_self .., ?_⟩
  · change Function.update _ b _ a = _
    rw [Function.update_of_ne hab, Function.update_self]
  · change Host.settle hash (started.signal .stop).1 = _
    rw [hsignal]
    exact Host.settle_of_terminate rfl rfl rfl

/-- A poll and an event, both at the start of the controller. -/
theorem overlapping_calls_stop_boot :
    ((overlappingCalls true false 7).foldl (step fun _ => 0)
        (boot noUpstreams [1])).locals true = .returned true ∧
      ((overlappingCalls true false 7).foldl (step fun _ => 0)
        (boot noUpstreams [1])).locals false = .returned true ∧
      ((overlappingCalls true false 7 ++ settling.map SupervisionOp.host).foldl (step fun _ => 0)
        (boot noUpstreams [1])).memory = ⟨noUpstreams, none, none, none, [1]⟩ :=
  overlapping_calls_stop (s := boot noUpstreams [1]) (a := true) (b := false) (by decide) trivial
    trivial rfl rfl 7

/-- Whatever has happened before: polls without an answer bring nginx back exactly if its master is
there and has not been told to stop, or if the configuration can be loaded, no worker of a dead
master holds the sockets and the number in the pid file is not that of another process. -/
theorem up_attempts_iff (files : Load Addr) (others : List ℕ)
    {ops : List (SupervisionOp Thread Addr)}
    (hs : s = ops.foldl (step hash) (boot files others)) (ht : (s.locals t).AtRest)
    {pids : List ℕ} (hpids : 2 ≤ pids.length) :
    ((pids.flatMap (attempt t)).foldl (step hash) s).memory.up = true ↔
      s.memory.lasts = true ∨ s.memory.startable = true := by
  have hconsistent : s.memory.Consistent := by
    rw [hs]
    exact consistent_run files others ops
  rw [memory_attempts ht, Host.up_rounds_iff hconsistent hpids]

/-- The master has died, and another process has got its number. -/
def reusedPid : Supervision Unit ℕ :=
  [.host (.crash false), .host (.born 7)].foldl (step fun _ => 0) firstPoll

/-- Polls do not bring nginx back. -/
theorem up_attempts_reusedPid :
    ¬ ((([8, 9, 10] : List ℕ).flatMap (attempt ())).foldl (step fun _ => 0)
      reusedPid).memory.up = true := by
  have hreached : reusedPid =
      (attempt () 7 ++ [SupervisionOp.host (.crash false), .host (.born 7)]).foldl (step fun _ => 0)
        (boot noUpstreams [1]) := rfl
  rw [up_attempts_iff (s := reusedPid) (t := ()) noUpstreams [1] hreached trivial (by decide)]
  decide

end Supervision

end HealthCheck
