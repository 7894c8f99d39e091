import HealthCheck.Nginx.Cycles

/-!
# The processes of nginx

Whoever wants something from nginx runs its binary. With a signal to send, the binary reads the
configuration and the pid file, and signals the process with the number found there, whichever it
is. Without one it becomes the master: the command may return as soon as the listening sockets are
open, before the pid file is written. Go's `cmd.Run` waits longer, until nobody holds the pipe to
its standard error any more, which the master closes behind `ngx_create_pidfile`; so the model has
runs that the controller does not have, and what holds in all runs holds in its runs as well. A
master that is told to stop deletes the pid file first and closes the sockets last.
-/

namespace HealthCheck.Nginx

/-- How far a master has come: it has left its terminal, it has written the pid file, it has deleted
the pid file again. -/
inductive Stage where
  | daemonized
  | serving
  | exiting
  deriving DecidableEq

/-- The signals that the controller has `nginx -s` send. -/
inductive Signal where
  | reload
  | stop

/-- A master, with the flags `ngx_reconfigure` and `ngx_terminate` that its signal handler sets. -/
structure MasterProcess (Addr : Type) where
  pid : ℕ
  stage : Stage
  reconfigure : Bool
  terminate : Bool
  cycle : Master ℕ Addr

/-- Where nginx runs. The files are what a load of the configuration as it stands would give; the
orphans are the configuration that the workers of a dead master go on with; the other processes are
those that a signal can reach, among them a master that has died until somebody waits for it. -/
structure Host (Addr : Type) where
  files : Load Addr
  pidFile : Option ℕ
  master : Option (MasterProcess Addr)
  orphans : Option (Master ℕ Addr)
  others : List ℕ

/-- What happens on the host besides the commands: the configuration is written; the master creates
its pid file or ends because it cannot; the loop of the master looks at its flags; it deletes the
pid file at its end; it closes the sockets; it dies, and its workers stay or not; they end as well;
a worker ends a check; another process begins or ends. -/
inductive HostEvent (Addr : Type) where
  | write (files : Load Addr)
  | pidfile (created : Bool)
  | wake
  | unlink
  | exit
  | crash (orphaned : Bool)
  | orphansExit
  | check (z : Zone) (index : ℕ) (result : Bool) (now : Msec)
  | born (pid : ℕ)
  | died (pid : ℕ)

section Model

variable {Addr : Type}

/-- `ngx_signal_handler` in a master. -/
def MasterProcess.receive (m : MasterProcess Addr) : Signal → MasterProcess Addr
  | .reload => { m with reconfigure := true }
  | .stop => { m with terminate := true }

namespace Host

/-- The listening sockets are open. Workers whose master has died keep them open. -/
def bound (h : Host Addr) : Bool := h.master.isSome || h.orphans.isSome

/-- `ngx_os_signal_process`, with whether the signal has been sent. -/
def kill (h : Host Addr) (sig : Signal) (pid : ℕ) : Host Addr × Bool :=
  match h.master with
  | some m =>
    if m.pid = pid then ({ h with master := some (m.receive sig) }, true)
    else (h, h.others.contains pid)
  | none => (h, h.others.contains pid)

/-- `nginx -s`, with whether its exit status is 0. `ngx_init_cycle` returns to a process that only
signals once the configuration is parsed; then comes `ngx_signal_process`. -/
def signal (h : Host Addr) (sig : Signal) : Host Addr × Bool :=
  if h.files.parsed then
    match h.pidFile with
    | some pid => h.kill sig pid
    | none => (h, false)
  else (h, false)

/-- What happens to the master if it is in the stage. -/
def inStage (h : Host Addr) (stage : Stage) (f : MasterProcess Addr → Host Addr) : Host Addr :=
  match h.master with
  | some m => if m.stage = stage then f m else h
  | none => h

/-- The configuration whose status page is served. -/
def status (h : Host Addr) : Option (Master ℕ Addr) :=
  match h.master with
  | some m => if m.stage = .serving then some m.cycle else none
  | none => h.orphans

variable [DecidableEq Addr] (hash : String → UInt32)

/-- `nginx` has opened the sockets with the configuration that it has loaded: `ngx_daemon` makes its
child the master. -/
def daemon (h : Host Addr) (load : Load Addr) (pid : ℕ) : Host Addr :=
  { h with master := some ⟨pid, .daemonized, false, false, Master.start.initCycle hash load⟩ }

/-- An iteration of the loop in `ngx_master_process_cycle`. A master that has been told to terminate
does not look at the other flags any more. -/
def wake (files : Load Addr) (m : MasterProcess Addr) : MasterProcess Addr :=
  if m.terminate then m
  else if m.reconfigure then { m with reconfigure := false, cycle := m.cycle.initCycle hash files }
  else m

/-- One event. -/
def step (h : Host Addr) : HostEvent Addr → Host Addr
  | .write files => { h with files := files }
  | .pidfile created => h.inStage .daemonized fun m =>
    if created then { h with pidFile := some m.pid, master := some { m with stage := .serving } }
    else { h with master := none }
  | .wake => h.inStage .serving fun m => { h with master := some (wake hash h.files m) }
  -- `ngx_master_process_exit` begins when the workers have ended, and with the pid file
  | .unlink => h.inStage .serving fun m =>
    if m.terminate then { h with pidFile := none, master := some { m with stage := .exiting } }
    else h
  | .exit => h.inStage .exiting fun _ => { h with master := none }
  | .crash orphaned =>
    match h.master with
    | some m =>
      { h with master := none
               orphans := if orphaned ∧ m.stage = .serving then some m.cycle else none }
    | none => h
  | .orphansExit => { h with orphans := none }
  | .check z index result now =>
    let checked (cycle : Master ℕ Addr) := cycle.step hash (.check z index result now)
    { h with master := h.master.map fun m =>
               if m.stage = .serving then { m with cycle := checked m.cycle } else m
             orphans := h.orphans.map checked }
  | .born pid => { h with others := pid :: h.others }
  | .died pid => { h with others := h.others.filter fun other => other ≠ pid }

end Host

end Model

/-! ### What a signal does -/

namespace Host

variable {Addr : Type} {h : Host Addr} {m : MasterProcess Addr} {sig : Signal} {pid : ℕ}

/-- There is a process that `nginx -s` reaches. -/
def reaches (h : Host Addr) : Bool :=
  h.files.parsed && h.pidFile.any fun pid =>
    (h.master.any fun m => m.pid = pid) || h.others.contains pid

theorem reaches_iff : h.reaches = true ↔ h.files.parsed = true ∧ ∃ pid, h.pidFile = some pid ∧
    ((∃ m, h.master = some m ∧ m.pid = pid) ∨ pid ∈ h.others) := by
  simp [reaches, Option.any_eq_true]

/-- Whether a signal is sent does not depend on the signal. -/
theorem signal_snd (h : Host Addr) (sig : Signal) : (h.signal sig).2 = h.reaches := by
  obtain ⟨files, pidFile, master, orphans, others⟩ := h
  rw [signal, reaches]
  cases files.parsed with
  | false => rfl
  | true =>
    cases pidFile with
    | none => rfl
    | some pid =>
      cases master with
      | none => rfl
      | some m => by_cases hpid : m.pid = pid <;> simp [kill, hpid]

/-- A command that reaches nobody changes nothing. -/
theorem signal_of_not_reaches (hreaches : h.reaches = false) : h.signal sig = (h, false) := by
  refine Prod.ext ?_ (by rw [signal_snd, hreaches])
  obtain ⟨files, pidFile, master, orphans, others⟩ := h
  rw [signal]
  cases hparsed : files.parsed with
  | false => rfl
  | true =>
    cases pidFile with
    | none => rfl
    | some pid =>
      cases master with
      | none => rfl
      | some m =>
        have hpid : m.pid ≠ pid := by
          rintro rfl
          simp [reaches, hparsed] at hreaches
        simp [kill, hpid]

/-- A signal to the master. -/
theorem signal_of_master (hparsed : h.files.parsed = true) (hmaster : h.master = some m)
    (hpid : h.pidFile = some m.pid) :
    h.signal sig = ({ h with master := some (m.receive sig) }, true) := by
  obtain ⟨files, pidFile, master, orphans, others⟩ := h
  obtain rfl : master = some m := hmaster
  obtain rfl : pidFile = some m.pid := hpid
  rw [signal, if_pos hparsed]
  exact if_pos rfl

/-- A signal to another process. -/
theorem signal_of_no_master (hmaster : h.master = none) : (h.signal sig).1 = h := by
  rw [signal]
  cases h.files.parsed with
  | false => rfl
  | true =>
    cases h.pidFile with
    | none => rfl
    | some pid =>
      change (h.kill sig pid).1 = h
      rw [kill, hmaster]

/-- A signal changes nothing but the flag of the master. -/
theorem signal_fst (h : Host Addr) (sig : Signal) :
    (h.signal sig).1 = h ∨ ∃ m, h.master = some m ∧
      (h.signal sig).1 = { h with master := some (m.receive sig) } := by
  cases hmaster : h.master with
  | none => exact Or.inl (signal_of_no_master hmaster)
  | some m =>
    by_cases hreached : h.files.parsed = true ∧ h.pidFile = some m.pid
    · have hsignal : h.signal sig = _ := signal_of_master hreached.1 hmaster hreached.2
      exact Or.inr ⟨m, rfl, congrArg Prod.fst hsignal⟩
    · refine Or.inl ?_
      rw [signal]
      split_ifs with hparsed
      · cases hfile : h.pidFile with
        | none => rfl
        | some pid =>
          have hpid : m.pid ≠ pid := by
            rintro rfl
            exact hreached ⟨hparsed, hfile⟩
          simp [kill, hmaster, hpid]
      · rfl

/-! ### What happens to a master -/

theorem inStage_of_none (hmaster : h.master = none) (stage : Stage)
    (f : MasterProcess Addr → Host Addr) : h.inStage stage f = h := by
  rw [inStage, hmaster]

theorem inStage_of_some (hmaster : h.master = some m) (stage : Stage)
    (f : MasterProcess Addr → Host Addr) :
    h.inStage stage f = if m.stage = stage then f m else h := by
  rw [inStage, hmaster]

/-- What is shown for a master in the stage holds of what happens to it. -/
theorem inStage_induction {stage : Stage} {f : MasterProcess Addr → Host Addr}
    {P : Host Addr → Prop} (hsame : P h)
    (hin : ∀ m, h.master = some m → m.stage = stage → P (f m)) : P (h.inStage stage f) := by
  cases hmaster : h.master with
  | none =>
    rw [inStage_of_none hmaster]
    exact hsame
  | some m =>
    rw [inStage_of_some hmaster]
    split_ifs with hstage
    · exact hin m hmaster hstage
    · exact hsame

variable [DecidableEq Addr] {hash : String → UInt32}

theorem wake_pid (files : Load Addr) (m : MasterProcess Addr) :
    (wake hash files m).pid = m.pid := by
  rw [wake]
  split_ifs <;> rfl

theorem wake_stage (files : Load Addr) (m : MasterProcess Addr) :
    (wake hash files m).stage = m.stage := by
  rw [wake]
  split_ifs <;> rfl

end Host

end HealthCheck.Nginx
