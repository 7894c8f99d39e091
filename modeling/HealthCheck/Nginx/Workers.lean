import HealthCheck.Interleaving
import HealthCheck.Runs
import HealthCheck.Nginx.Peers

/-!
# Worker processes that check one peer

Every worker of nginx has a timer for every peer, and a field `owner` in the shared memory of the
peer says which of them performs the current check. The field is taken in `begin_handler` under
the mutex of the peer; `status_update` and `clean_event` write to the same memory without it. In
this file a worker makes one access to the shared memory at a time, so that the accesses of the
workers interleave in any order.
-/

namespace HealthCheck.Nginx

open Interleaving

/-- `ngx_msec_t`; differences wrap around. -/
abbrev Msec := UInt64

/-- The counter that an outcome increments. -/
def PeerShm.count (shm : PeerShm) (result : Bool) : ℕ :=
  if result then shm.riseCount else shm.fallCount

def PeerShm.setCount (shm : PeerShm) (result : Bool) (n : ℕ) : PeerShm :=
  if result then { shm with riseCount := n } else { shm with fallCount := n }

@[simp] theorem PeerShm.count_setCount_self (shm : PeerShm) (result : Bool) (n : ℕ) :
    (shm.setCount result n).count result = n := by
  cases result <;> rfl

@[simp] theorem PeerShm.count_setCount_not (shm : PeerShm) (result : Bool) (n : ℕ) :
    (shm.setCount (!result) n).count result = shm.count result := by
  cases result <;> rfl

@[simp] theorem PeerShm.down_setCount (shm : PeerShm) (result : Bool) (n : ℕ) :
    (shm.setCount result n).down = shm.down := by
  cases result <;> rfl

/-- What a worker knows of the peer: its configuration, and the generation of the configuration
that the worker runs with. -/
structure WorkerConf where
  peer : Peer
  checkInterval : Msec
  generation : ℕ

/-- `ngx_upstream_check_peer_shm_t`, with the generation of its zone. The owner is `none` for
`NGX_INVALID_PID`. -/
structure SharedPeer (Pid : Type) where
  mutex : Option Pid
  owner : Option Pid
  accessTime : Msec
  counts : PeerShm
  generation : ℕ

/-- The next access of `status_update`. -/
inductive UpdatePoint where
  | load
  | store (loaded : ℕ)
  | clear
  | readDown
  | readCount
  | flip
  | stamp
  deriving DecidableEq

/-- The branch for a success increments first, the branch for a failure clears first. -/
def UpdatePoint.first (result : Bool) : UpdatePoint := if result then .load else .clear

/-- Where a worker is in the handlers of the peer. Inside a handler it is the next access that
counts; `idle` and `checking` are the states in which it waits for an event. -/
inductive Phase where
  | idle
  | entered (now : Msec)
  | sampled (now interval : Msec)
  | locked (now interval : Msec)
  | claiming
  | takingOver (now : Msec)
  | stamping (now : Msec)
  | unlocking (returns : Bool)
  | confirming
  | checking
  | updating (result : Bool) (now : Msec) (cleans : Bool) (point : UpdatePoint)
  | releasing
  | exited
  deriving DecidableEq

/-- A worker, with whether it has kept the connection of its last check. -/
structure Worker where
  phase : Phase
  kept : Bool

/-- What happens to a worker: the check timer fires, the running handler makes its next access, the
check ends, the peer closes a kept connection, the worker has been told to quit. At the end of a
check the handler calls `clean_event` or returns without it. -/
inductive WorkerInput where
  | begin (now : Msec)
  | access
  | finish (result : Bool) (now : Msec) (cleans keeps : Bool)
  | discard
  | exit

section Model

variable {Pid : Type} [DecidableEq Pid] (conf : WorkerConf)

/-- One access of `ngx_http_upstream_check_status_update`, the same in the stream module. -/
def SharedPeer.advanceUpdate (shm : SharedPeer Pid) (result : Bool) (now : Msec) (cleans : Bool) :
    UpdatePoint → Phase × SharedPeer Pid
  | .load => (.updating result now cleans (.store (shm.counts.count result)), shm)
  | .store loaded =>
    (.updating result now cleans (if result then .clear else .readDown),
      { shm with counts := shm.counts.setCount result (loaded + 1) })
  | .clear =>
    (.updating result now cleans (if result then .readDown else .load),
      { shm with counts := shm.counts.setCount (!result) 0 })
  -- a success matters to a peer that is down, a failure to one that is not
  | .readDown =>
    (.updating result now cleans (if shm.counts.down = result then .readCount else .stamp), shm)
  | .readCount =>
    (.updating result now cleans
      (if conf.peer.threshold result ≤ shm.counts.count result then .flip else .stamp), shm)
  | .flip =>
    (.updating result now cleans .stamp,
      { shm with counts := { shm.counts with down := !result } })
  | .stamp => (if cleans then .releasing else .idle, { shm with accessTime := now })

/-- The next access of the running handler: `begin_handler` up to the start of the check, then
`status_update` and the end of `clean_event`. -/
def SharedPeer.advance (pid : Pid) (shm : SharedPeer Pid) : Phase → Phase × SharedPeer Pid
  | .entered now => (.sampled now (now - shm.accessTime), shm)
  | .sampled now interval =>
    match shm.mutex with
    | none => (.locked now interval, { shm with mutex := some pid })
    | some _ => (.sampled now interval, shm)
  | .locked now interval =>
    if shm.generation ≠ conf.generation then (.unlocking true, shm)
    else if conf.checkInterval ≤ interval ∧ shm.owner = none then (.claiming, shm)
    else if conf.checkInterval <<< 4 ≤ interval then (.takingOver now, shm)
    else (.unlocking false, shm)
  | .claiming => (.unlocking false, { shm with owner := some pid })
  | .takingOver now => (.stamping now, { shm with owner := some pid })
  | .stamping now => (.unlocking false, { shm with accessTime := now })
  | .unlocking returns => (if returns then .idle else .confirming, { shm with mutex := none })
  | .confirming => (if shm.owner = some pid then .checking else .idle, shm)
  | .updating result now cleans point => shm.advanceUpdate conf result now cleans point
  | .releasing => (.idle, { shm with owner := none })
  | .idle => (.idle, shm)
  | .checking => (.checking, shm)
  | .exited => (.exited, shm)

/-- One access of a worker, on an input from its environment. -/
def workerAccess (pid : Pid) (i : WorkerInput) (w : Worker) (shm : SharedPeer Pid) :
    Worker × SharedPeer Pid :=
  match i, w.phase with
  | .begin now, .idle =>
    if shm.owner = some pid then (w, shm) else ({ w with phase := .entered now }, shm)
  | .access, phase =>
    let r := shm.advance conf pid phase
    ({ w with phase := r.1 }, r.2)
  | .finish result now cleans keeps, .checking =>
    ({ phase := .updating result now cleans (.first result), kept := cleans && keeps }, shm)
  | .discard, .idle =>
    if w.kept then ({ w with kept := false }, { shm with owner := none }) else (w, shm)
  | .exit, .idle | .exit, .confirming | .exit, .checking => ({ w with phase := .exited }, shm)
  | _, _ => (w, shm)

/-- The workers and the shared memory of the peer. -/
abbrev CheckSystem (Pid : Type) := System Pid Worker (SharedPeer Pid)

/-- The workers at the start of a zone in which the peer is new. -/
def CheckSystem.fresh (counts : PeerShm) (generation : ℕ) : CheckSystem Pid where
  locals _ := ⟨.idle, false⟩
  memory :=
    { mutex := none, owner := none, accessTime := 0, counts := counts, generation := generation }

/-- One access by one worker. -/
abbrev CheckSystem.step : CheckSystem Pid → Pid × WorkerInput → CheckSystem Pid :=
  System.step (workerAccess conf)

end Model

end HealthCheck.Nginx
