import HealthCheck.Interleaving
import HealthCheck.Nginx.Processes
import HealthCheck.Runs
import Mathlib.Data.Fintype.Basic

/-!
# How the controller keeps nginx running

Nothing but the controller starts nginx. Its goroutines call `reloadNgx` when the configuration has
changed and when a poll gets no answer: if the reload fails they send a stop, and if that fails as
well they start nginx. The calls are not synchronised with each other, nor with the processes of
nginx.
-/

namespace HealthCheck

open Nginx Interleaving Runs

/-- Where a goroutine stands in `reloadNgx`: before one of its commands; in the last command, which
has loaded the configuration and tries to open the sockets; after the call, with whether it has
returned nil. -/
inductive Caller (Addr : Type) where
  | idle
  | reload
  | stop
  | start
  | binding (load : Load Addr) (tries : ℕ)
  | returned (ok : Bool)

/-- A goroutine calls `reloadNgx`, or its call goes on. The number is that of the process which the
command may leave. -/
inductive CallInput where
  | call
  | command (pid : ℕ)

/-- A step of a goroutine, or something that happens on the host. -/
inductive SupervisionOp (Thread Addr : Type) where
  | caller (t : Thread) (i : CallInput)
  | host (event : HostEvent Addr)

/-- The goroutines and the host. -/
abbrev Supervision (Thread Addr : Type) := System Thread (Caller Addr) (Host Addr)

section Model

variable {Thread Addr : Type} [DecidableEq Thread] [DecidableEq Addr] (hash : String → UInt32)

/-- `startNgx` when nothing else happens, with whether it returns nil. -/
def startNgx (h : Host Addr) (pid : ℕ) : Host Addr × Bool :=
  if h.files.succeeds && !h.bound then (h.daemon hash h.files pid, true) else (h, false)

/-- `restartNgx` when nothing else happens. -/
def restartNgx (h : Host Addr) (pid : ℕ) : Host Addr × Bool :=
  let stopped := h.signal .stop
  if stopped.2 then stopped else startNgx hash stopped.1 pid

/-- `reloadNgx` when nothing else happens. -/
def reloadNgx (h : Host Addr) (pid : ℕ) : Host Addr × Bool :=
  let reloaded := h.signal .reload
  if reloaded.2 then reloaded else restartNgx hash reloaded.1 pid

/-- The next command of a call. `ngx_open_listening_sockets` tries five times. -/
def Caller.command (h : Host Addr) (pid : ℕ) : Caller Addr → Caller Addr × Host Addr
  | .reload =>
    let reloaded := h.signal .reload
    (if reloaded.2 then .returned true else .stop, reloaded.1)
  | .stop =>
    let stopped := h.signal .stop
    (if stopped.2 then .returned true else .start, stopped.1)
  | .start => (if h.files.succeeds then .binding h.files 5 else .returned false, h)
  | .binding load tries =>
    if h.bound then (if 1 < tries then .binding load (tries - 1) else .returned false, h)
    else (.returned true, h.daemon hash load pid)
  | .idle => (.idle, h)
  | .returned ok => (.returned ok, h)

/-- A step of a goroutine. -/
def callAccess (_ : Thread) : CallInput → Caller Addr → Host Addr → Caller Addr × Host Addr
  | .call, .idle, h | .call, .returned _, h => (.reload, h)
  | .call, c, h => (c, h)
  | .command pid, c, h => c.command hash h pid

/-- One step. -/
def Supervision.step (s : Supervision Thread Addr) :
    SupervisionOp Thread Addr → Supervision Thread Addr
  | .caller t i => System.step (callAccess hash) s (t, i)
  | .host event => { s with memory := s.memory.step hash event }

/-- The container has been started: only the controller runs. -/
def Supervision.boot (files : Load Addr) (others : List ℕ) : Supervision Thread Addr where
  locals _ := .idle
  memory := ⟨files, none, none, none, others⟩

end Model

/-! ### The pid file -/

namespace Nginx.Host

variable {Addr : Type} {h : Host Addr} {m : MasterProcess Addr}

/-- The pid file is that of the master, from when it has written it until it has deleted it. There
is no master beside the workers of another one. -/
structure Consistent (h : Host Addr) : Prop where
  written : ∀ m, h.master = some m → m.stage = .serving → h.pidFile = some m.pid
  deleted : ∀ m, h.master = some m → m.stage = .exiting → h.pidFile = none
  alone : ∀ m, h.master = some m → h.orphans = none

theorem Consistent.of_no_master (hmaster : h.master = none) : h.Consistent := by
  constructor <;> simp [hmaster]

/-- A change of the master that leaves the files alone. -/
theorem Consistent.of_master (hh : h.Consistent) (hmaster : h.master = some m)
    {m' : MasterProcess Addr} (hpid : m'.pid = m.pid) (hstage : m'.stage = m.stage) :
    Consistent { h with master := some m' } := by
  refine ⟨?_, ?_, ?_⟩ <;> rintro _ ⟨rfl⟩
  · rw [hpid, hstage]
    exact hh.written m hmaster
  · rw [hstage]
    exact hh.deleted m hmaster
  · exact hh.alone m hmaster

theorem Consistent.signal (hh : h.Consistent) (sig : Signal) : (h.signal sig).1.Consistent := by
  rcases h.signal_fst sig with hsame | ⟨m, hmaster, hsignal⟩
  · rw [hsame]
    exact hh
  · rw [hsignal]
    cases sig <;> exact hh.of_master hmaster rfl rfl

variable [DecidableEq Addr] {hash : String → UInt32}

theorem Consistent.daemon (hbound : h.bound = false) (load : Load Addr) (pid : ℕ) :
    (h.daemon hash load pid).Consistent := by
  have horphans : h.orphans = none := by
    rw [bound, Bool.or_eq_false_iff] at hbound
    simpa using hbound.2
  refine ⟨?_, ?_, ?_⟩ <;> rintro _ ⟨rfl⟩
  · intro hstage
    cases hstage
  · intro hstage
    cases hstage
  · exact horphans

theorem Consistent.step (hh : h.Consistent) (event : HostEvent Addr) :
    (h.step hash event).Consistent := by
  cases event with
  | write files => exact ⟨hh.written, hh.deleted, hh.alone⟩
  | pidfile created =>
    refine inStage_induction hh fun m hmaster _ => ?_
    cases created with
    | false => exact .of_no_master rfl
    | true =>
      refine ⟨?_, ?_, ?_⟩ <;> rintro _ ⟨rfl⟩
      · exact fun _ => rfl
      · intro hstage
        cases hstage
      · exact hh.alone m hmaster
  | wake =>
    exact inStage_induction hh fun m hmaster _ =>
      hh.of_master hmaster (wake_pid ..) (wake_stage ..)
  | unlink =>
    refine inStage_induction hh fun m hmaster _ => ?_
    split_ifs
    · refine ⟨?_, ?_, ?_⟩ <;> rintro _ ⟨rfl⟩
      · intro hstage
        cases hstage
      · exact fun _ => rfl
      · exact hh.alone m hmaster
    · exact hh
  | exit => exact inStage_induction hh fun _ _ _ => .of_no_master rfl
  | crash orphaned =>
    rw [Host.step]
    cases hmaster : h.master with
    | none => exact hh
    | some m => exact .of_no_master rfl
  | orphansExit => exact ⟨hh.written, hh.deleted, fun _ _ => rfl⟩
  | check z index result now =>
    cases hmaster : h.master with
    | none =>
      refine .of_no_master ?_
      simp [Host.step, hmaster]
    | some m =>
      have horphans := hh.alone m hmaster
      refine ⟨?_, ?_, ?_⟩ <;> simp only [Host.step, hmaster, Option.map_some, Option.some.injEq]
      · rintro _ rfl
        split_ifs with hstage
        · exact fun _ => hh.written m hmaster hstage
        · exact hh.written m hmaster
      · rintro _ rfl
        split_ifs with hstage
        · exact hh.deleted m hmaster
        · exact hh.deleted m hmaster
      · intro _ _
        rw [horphans, Option.map_none]
  | born pid => exact ⟨hh.written, hh.deleted, hh.alone⟩
  | died pid => exact ⟨hh.written, hh.deleted, hh.alone⟩

theorem Consistent.command (hh : h.Consistent) (c : Caller Addr) (pid : ℕ) :
    (c.command hash h pid).2.Consistent := by
  cases c with
  | idle | start | returned ok => exact hh
  | reload => exact hh.signal .reload
  | stop => exact hh.signal .stop
  | binding load tries =>
    rw [Caller.command]
    cases hbound : h.bound with
    | true => exact hh
    | false => exact Consistent.daemon hbound load pid

theorem Consistent.callAccess {Thread : Type} (hh : h.Consistent) (t : Thread) (i : CallInput)
    (c : Caller Addr) : (callAccess hash t i c h).2.Consistent := by
  cases i with
  | call => cases c <;> exact hh
  | command pid => exact hh.command c pid

end Nginx.Host

namespace Supervision

variable {Thread Addr : Type} [DecidableEq Thread] [DecidableEq Addr] {hash : String → UInt32}
  {s : Supervision Thread Addr}

theorem consistent_step (op : SupervisionOp Thread Addr) (hs : s.memory.Consistent) :
    (step hash s op).memory.Consistent := by
  cases op with
  | caller t i => exact hs.callAccess t i (s.locals t)
  | host event => exact hs.step event

end Supervision

/-! ### Calls that are not disturbed -/

/-- The call has sent its reload in vain and will send its stop. -/
def Caller.stopping {Addr : Type} : Caller Addr → Bool
  | .stop => true
  | _ => false

/-- The step may let a signal reach somebody: it writes the configuration or the pid file, or a
process begins with the number in the pid file. -/
def SupervisionOp.opens {Thread Addr : Type} (h : Host Addr) : SupervisionOp Thread Addr → Bool
  | .host (.write _) | .host (.pidfile _) => true
  | .host (.born pid) | .caller _ (.command pid) => h.pidFile = some pid
  | _ => false

namespace Nginx.Host

variable {Addr : Type} {h : Host Addr}

/-- Fewer processes, the same files. -/
theorem reaches_of_le {h' : Host Addr} (hparsed : h'.files.parsed = h.files.parsed)
    (hfile : ∀ pid, h'.pidFile = some pid → h.pidFile = some pid)
    (hmaster : ∀ m', h'.master = some m' → ∃ m, h.master = some m ∧ m.pid = m'.pid)
    (hothers : ∀ pid, h.pidFile = some pid → pid ∈ h'.others → pid ∈ h.others)
    (hreaches : h'.reaches = true) : h.reaches = true := by
  obtain ⟨hp, pid, hpid, hreached⟩ := reaches_iff.mp hreaches
  refine reaches_iff.mpr ⟨hparsed ▸ hp, pid, hfile pid hpid, ?_⟩
  rcases hreached with ⟨m', hm', rfl⟩ | hother
  · exact Or.inl (hmaster m' hm')
  · exact Or.inr (hothers pid (hfile pid hpid) hother)

/-- A signal leaves it as it is whom the next one reaches. -/
theorem reaches_signal (h : Host Addr) (sig : Signal) : (h.signal sig).1.reaches = h.reaches := by
  rcases h.signal_fst sig with hsame | ⟨m, hmaster, hsignal⟩
  · rw [hsame]
  · rw [hsignal, reaches, reaches, hmaster]
    cases sig <;> rfl

variable [DecidableEq Addr] {hash : String → UInt32}

/-- What happens on the host lets no signal through, with the exceptions of `opens`. -/
theorem reaches_of_step {Thread : Type} {event : HostEvent Addr}
    (hopens : SupervisionOp.opens h (.host event : SupervisionOp Thread Addr) = false)
    (hreaches : (h.step hash event).reaches = true) : h.reaches = true := by
  have hin {stage : Stage} {f : MasterProcess Addr → Host Addr}
      (hf : ∀ m, h.master = some m → m.stage = stage → (f m).reaches = true → h.reaches = true) :
      (h.inStage stage f).reaches = true → h.reaches = true :=
    inStage_induction (P := fun h' => h'.reaches = true → h.reaches = true) id hf
  revert hreaches
  cases event with
  | write files => cases hopens
  | pidfile created => cases hopens
  | wake =>
    refine hin fun m hmaster _ => ?_
    refine reaches_of_le rfl (fun _ => id) ?_ (fun _ _ => id)
    rintro _ ⟨rfl⟩
    exact ⟨m, hmaster, (wake_pid ..).symm⟩
  | unlink =>
    refine hin fun m hmaster _ => ?_
    split_ifs
    · intro hreaches
      obtain ⟨-, pid, hpid, -⟩ := reaches_iff.mp hreaches
      cases hpid
    · exact id
  | exit =>
    refine hin fun m hmaster _ => ?_
    exact reaches_of_le rfl (fun _ => id) (fun _ hm' => by cases hm') (fun _ _ => id)
  | crash orphaned =>
    rw [Host.step]
    cases hmaster : h.master with
    | none => exact id
    | some m => exact reaches_of_le rfl (fun _ => id) (fun _ hm' => by cases hm') (fun _ _ => id)
  | orphansExit => exact reaches_of_le rfl (fun _ => id) (fun m hm => ⟨m, hm, rfl⟩) (fun _ _ => id)
  | check z index result now =>
    refine reaches_of_le rfl (fun _ => id) (fun m' hm' => ?_) (fun _ _ => id)
    obtain ⟨m, hm, rfl⟩ := Option.map_eq_some_iff.mp hm'
    refine ⟨m, hm, ?_⟩
    split_ifs <;> rfl
  | born pid =>
    refine reaches_of_le rfl (fun _ => id) (fun m hm => ⟨m, hm, rfl⟩) fun other hfile hother => ?_
    have hne : ¬ h.pidFile = some pid := of_decide_eq_false hopens
    refine (List.mem_cons.mp hother).resolve_left fun heq => hne ?_
    rw [hfile, heq]
  | died pid =>
    exact reaches_of_le rfl (fun _ => id) (fun m hm => ⟨m, hm, rfl⟩)
      fun _ _ hother => (List.mem_filter.mp hother).1

theorem reaches_of_command {Thread : Type} {t : Thread} {pid : ℕ} {c : Caller Addr}
    (hopens : SupervisionOp.opens h (.caller t (.command pid)) = false)
    (hreaches : (c.command hash h pid).2.reaches = true) : h.reaches = true := by
  cases c with
  | idle | start | returned ok => exact hreaches
  | reload => exact (h.reaches_signal .reload).symm.trans hreaches
  | stop => exact (h.reaches_signal .stop).symm.trans hreaches
  | binding load tries =>
    rw [Caller.command] at hreaches
    cases hbound : h.bound with
    | true =>
      rw [hbound] at hreaches
      exact hreaches
    | false =>
      rw [hbound] at hreaches
      obtain ⟨hparsed, file, hfile, hreached⟩ := reaches_iff.mp hreaches
      have hne : ¬ h.pidFile = some pid := of_decide_eq_false hopens
      refine reaches_iff.mpr ⟨hparsed, file, hfile, hreached.imp_left ?_⟩
      rintro ⟨_, ⟨rfl⟩, rfl⟩
      exact absurd hfile hne

/-- A master that is not told to terminate goes on without the flag. -/
theorem terminate_step (hh : ∀ m, h.master = some m → m.terminate = false)
    (event : HostEvent Addr) (m' : MasterProcess Addr)
    (hm' : (h.step hash event).master = some m') : m'.terminate = false := by
  have hin {stage : Stage} {f : MasterProcess Addr → Host Addr}
      (hf : ∀ m, h.master = some m → m.stage = stage → (f m).master = some m' →
        m'.terminate = false) :
      (h.inStage stage f).master = some m' → m'.terminate = false :=
    inStage_induction (P := fun h' => h'.master = some m' → m'.terminate = false) (hh m') hf
  revert hm'
  cases event with
  | write files => exact hh m'
  | pidfile created =>
    refine hin fun m hmaster _ => ?_
    cases created with
    | false =>
      intro hm'
      cases hm'
    | true =>
      rintro ⟨rfl⟩
      exact hh m hmaster
  | wake =>
    refine hin fun m hmaster _ => ?_
    rintro ⟨rfl⟩
    rw [wake, if_neg (by simp [hh m hmaster])]
    split_ifs <;> exact hh m hmaster
  | unlink =>
    refine hin fun m hmaster _ => ?_
    rw [if_neg (by simp [hh m hmaster])]
    exact hh m'
  | exit =>
    refine hin fun m hmaster _ hm' => ?_
    cases hm'
  | crash orphaned =>
    intro hm'
    rw [Host.step] at hm'
    cases hmaster : h.master with
    | none =>
      rw [hmaster] at hm'
      exact hh m' hm'
    | some m =>
      rw [hmaster] at hm'
      cases hm'
  | orphansExit => exact hh m'
  | check z index result now =>
    intro hm'
    obtain ⟨m, hm, rfl⟩ := Option.map_eq_some_iff.mp hm'
    split_ifs <;> exact hh m hm
  | born pid => exact hh m'
  | died pid => exact hh m'

end Nginx.Host

namespace Supervision

variable {Thread Addr : Type} [DecidableEq Thread] [DecidableEq Addr] {hash : String → UInt32}
  {s : Supervision Thread Addr}

/-- While a call stands between its reload and its stop, nothing lets a signal through that was not
let through before. -/
def Undisturbed (s : Supervision Thread Addr) (op : SupervisionOp Thread Addr) : Prop :=
  (∃ t, (s.locals t).stopping = true) → op.opens s.memory = false

instance Undisturbed.decidable [Fintype Thread] (s : Supervision Thread Addr)
    (op : SupervisionOp Thread Addr) : Decidable (Undisturbed s op) :=
  inferInstanceAs (Decidable ((∃ t, (s.locals t).stopping = true) → op.opens s.memory = false))

/-- No master has been told to stop, and no stop that is still to come will reach one. -/
structure Unstopped (s : Supervision Thread Addr) : Prop where
  running : ∀ m, s.memory.master = some m → m.terminate = false
  harmless : ∀ t, (s.locals t).stopping = true → s.memory.reaches = false

theorem unstopped_command (hs : Unstopped s) {t : Thread} {pid : ℕ}
    (hop : Undisturbed s (.caller t (.command pid))) :
    Unstopped (step hash s (.caller t (.command pid))) := by
  constructor
  · change ∀ m, ((s.locals t).command hash s.memory pid).2.master = some m → m.terminate = false
    cases hc : s.locals t with
    | idle | start | returned ok => exact hs.running
    | reload =>
      rcases s.memory.signal_fst .reload with hsame | ⟨m, hmaster, hsignal⟩
      · rw [Caller.command, hsame]
        exact hs.running
      · rw [Caller.command, hsignal]
        rintro _ ⟨rfl⟩
        exact hs.running m hmaster
    | stop =>
      have hreaches : s.memory.reaches = false := hs.harmless t (by rw [hc]; rfl)
      rw [Caller.command, Host.signal_of_not_reaches hreaches]
      exact hs.running
    | binding load tries =>
      rw [Caller.command]
      cases s.memory.bound with
      | true => exact hs.running
      | false =>
        rintro _ ⟨rfl⟩
        rfl
  · refine System.holds_step (A := fun _ (c : Caller Addr) (h : Host Addr) =>
      c.stopping = true → h.reaches = false) (fun hstopping => ?_) fun q _ hstopping => ?_
    · -- a call comes to its stop by a reload that has reached nobody
      change ((s.locals t).command hash s.memory pid).1.stopping = true at hstopping
      change ((s.locals t).command hash s.memory pid).2.reaches = false
      cases hc : s.locals t with
      | reload =>
        rw [hc, Caller.command, Host.signal_snd] at hstopping
        cases hreaches : s.memory.reaches with
        | true =>
          rw [hreaches] at hstopping
          cases hstopping
        | false =>
          rw [Caller.command, Host.signal_of_not_reaches hreaches]
          exact hreaches
      | stop =>
        rw [hc, Caller.command] at hstopping
        split_ifs at hstopping <;> cases hstopping
      | start =>
        rw [hc, Caller.command] at hstopping
        split_ifs at hstopping <;> cases hstopping
      | binding load tries =>
        rw [hc, Caller.command] at hstopping
        split_ifs at hstopping <;> cases hstopping
      | idle | returned ok =>
        rw [hc] at hstopping
        cases hstopping
    · exact Bool.eq_false_iff.mpr fun hreaches => Bool.eq_false_iff.mp (hs.harmless q hstopping)
        (Host.reaches_of_command (hop ⟨q, hstopping⟩) hreaches)

theorem unstopped_step (op : SupervisionOp Thread Addr) (hs : Unstopped s)
    (hop : Undisturbed s op) : Unstopped (step hash s op) := by
  cases op with
  | caller t i =>
    cases i with
    | command pid => exact unstopped_command hs hop
    | call =>
      have hmemory : (step hash s (.caller t .call)).memory = s.memory := by
        change (callAccess hash t .call (s.locals t) s.memory).2 = s.memory
        cases s.locals t <;> rfl
      refine ⟨by rw [hmemory]; exact hs.running, ?_⟩
      refine System.holds_step (A := fun _ (c : Caller Addr) (h : Host Addr) =>
        c.stopping = true → h.reaches = false) (fun hstopping => ?_) fun q _ hstopping => ?_
      · cases hc : s.locals t with
        | stop => exact hmemory ▸ hs.harmless t (by rw [hc]; rfl)
        | idle | reload | start | binding load tries | returned ok =>
          rw [hc] at hstopping
          cases hstopping
      · exact hmemory ▸ hs.harmless q hstopping
  | host event =>
    refine ⟨Host.terminate_step hs.running event, fun t hstopping => ?_⟩
    exact Bool.eq_false_iff.mpr fun hreaches => Bool.eq_false_iff.mp (hs.harmless t hstopping)
      (Host.reaches_of_step (hop ⟨t, hstopping⟩) hreaches)

/-- As long as nothing comes between the reload of a call and its stop, the controller never stops
anything: no order of the calls, of the writes, of the deaths of masters and workers ends with a
master that has been told to terminate, or with a call whose stop would reach a process. -/
theorem never_terminated (files : Load Addr) (others : List ℕ)
    {ops : List (SupervisionOp Thread Addr)}
    (hops : Along (step hash) Undisturbed (boot files others) ops) :
    Throughout (step hash)
      (fun s => (∀ m, s.memory.master = some m → m.terminate = false) ∧
        ∀ t, (s.locals t).stopping = true → s.memory.reaches = false)
      (boot files others) ops := by
  refine throughout_of_along (fun _ op => unstopped_step op)
    (fun _ hs => ⟨hs.running, hs.harmless⟩) ?_ hops
  constructor
  · rintro _ ⟨⟩
  · rintro _ ⟨⟩

/-- A configuration that can be loaded, without upstreams. -/
def noUpstreams : Load ℕ := ⟨fun _ => none, true, fun _ => true, true⟩

/-- The first poll starts nginx, and a reload follows. -/
theorem never_terminated_first_poll :
    Throughout (step fun _ => 0)
      (fun s => (∀ m, s.memory.master = some m → m.terminate = false) ∧
        ∀ t, (s.locals t).stopping = true → s.memory.reaches = false)
      (boot noUpstreams [1] : Supervision Unit ℕ)
      [.caller () .call, .caller () (.command 7), .caller () (.command 7), .caller () (.command 7),
        .caller () (.command 7), .host (.pidfile true), .caller () .call, .caller () (.command 9),
        .host .wake] :=
  never_terminated noUpstreams [1] (by decide)

end Supervision

end HealthCheck
