import HealthCheck.Nginx.Overlap

/-!
# The handlers of a worker

A check is a sequence of events in the loop of one worker: the timer of the peer, the socket that
becomes writable or readable, the timeout. Here every handler runs to its end; the answers of the
system calls are inputs. The http and the stream module have the same handlers, but for two
places: what `connect_handler` does when the connection fails at once, and what a timeout means to a
check over UDP. A handler that dereferences a null pointer has no result.
-/

namespace HealthCheck.Nginx

open Interleaving

/-- A row of `ngx_check_types`: whether its handlers are `send_handler` and `recv_handler` rather
than `peek_handler`, and its last two columns. -/
structure CheckType where
  sends : Bool
  receives : Bool
  needPool : Bool
  needKeepalive : Bool
  datagram : Bool := false
  deriving DecidableEq, Repr

/-- `ngx_check_types` of the two modules. -/
def Zone.checkTypes : Zone → List (String × CheckType)
  | .http =>
    [("tcp", ⟨false, false, false, true, false⟩), ("http", ⟨true, true, true, true, false⟩),
      ("fastcgi", ⟨true, true, true, false, false⟩),
      ("ssl_hello", ⟨true, true, true, false, false⟩),
      ("mysql", ⟨true, true, true, false, false⟩), ("ajp", ⟨true, true, true, false, false⟩)]
  | .stream =>
    [("tcp", ⟨false, false, false, false, false⟩), ("udp", ⟨true, false, true, false, true⟩),
      ("http", ⟨true, true, true, true, false⟩)]

/-- Four types of the http module do not keep their connections. -/
theorem Zone.closing_mem_checkTypes :
    (⟨true, true, true, false, false⟩ : CheckType) ∈ Zone.http.checkTypes.map Prod.snd := by
  decide

/-- `peer->state`. -/
inductive CheckState where
  | initial
  | connectDone
  | sendDone
  | recvDone
  | allDone
  deriving DecidableEq, Repr

/-- A connection. It is idle when its handlers are the dummy and the discard handler. -/
structure Connection where
  error : Bool
  requests : ℕ
  idle : Bool

/-- What `peer->parse` returns, with whether it marks the connection as broken. -/
inductive ParseCode where
  | ok
  | again
  | error
  deriving DecidableEq, Repr

structure Parsed (Ctx : Type) where
  code : ParseCode
  breaks : Bool
  ctx : Ctx

/-- The functions of a check type that concern the response, and what the loop of `recv_handler`
leaves in their context: it depends on the bytes that are read and on whether memory is refused. -/
structure Protocol (Ctx : Type) where
  init : Ctx
  recv : Ctx → List UInt8 → Bool → Ctx
  parse : Ctx → Parsed Ctx
  reinit : Ctx → Ctx

/-- Some bytes are read, and `peer->parse` is called. -/
def Protocol.receive {Ctx : Type} (p : Protocol Ctx) (ctx : Ctx) (bytes : List UInt8) :
    Parsed Ctx :=
  p.parse (p.recv ctx bytes true)

/-- `peer->check_data`: the bytes that are still to be sent, and what has been received. -/
structure CheckData (Ctx : Type) where
  unsent : ℕ
  ctx : Ctx

/-- `ngx_upstream_check_peer_t`, which every worker has for itself. -/
structure LocalPeer (Ctx : Type) where
  state : CheckState := .initial
  connection : Option Connection := none
  timeoutSet : Bool := false
  checkData : Option (CheckData Ctx) := none

/-- A worker with its peer and the shared memory; how many checks it has started and the results
that it has reported are kept for the record. -/
structure Checker (Pid Ctx : Type) where
  peer : LocalPeer Ctx
  shm : SharedPeer Pid
  starts : ℕ
  reports : List Bool

/-- The worker and the configuration of the check. -/
structure CheckSetup (Pid Ctx : Type) where
  pid : Pid
  zone : Zone
  type : CheckType
  known : type ∈ zone.checkTypes.map Prod.snd
  keepaliveRequests : ℕ
  sendLength : ℕ
  conf : WorkerConf
  protocol : Protocol Ctx

/-- What `ngx_event_connect_peer` returns; `failed` is `NGX_ERROR` or `NGX_DECLINED`. -/
inductive ConnectCode where
  | ok
  | again
  | failed

/-- The answers to a handler for a writable socket: of `recv` with `MSG_PEEK`, of
`ngx_handle_write_event`, of the allocation, how many bytes `send` has taken when it returns
something else, and whether that is an error. -/
structure WriteAnswer where
  peek : Bool
  armed : Bool
  allocated : Bool
  sent : ℕ
  failed : Bool

/-- What ends the loop that reads from a socket. -/
inductive ReadEnd where
  | again
  | closed
  | failed
  deriving DecidableEq

/-- The answers to a handler for a readable socket. -/
structure ReadAnswer where
  peek : Bool
  armed : Bool
  allocated : Bool
  bytes : List UInt8
  ending : ReadEnd

/-- An event of the loop, with the time that the worker has cached and the answers. -/
inductive CheckEvent where
  | timer (now : Msec) (peek : Bool) (connect : ConnectCode) (write : WriteAnswer)
  | writable (now : Msec) (write : WriteAnswer)
  | readable (now : Msec) (read : ReadAnswer)
  | timeout (now : Msec)

namespace Checker

variable {Pid Ctx : Type} (env : CheckSetup Pid Ctx)

/-- `status_update`. -/
def statusUpdate (result : Bool) (now : Msec) (c : Checker Pid Ctx) : Checker Pid Ctx :=
  { c with
    shm := { c.shm with counts := env.conf.record result c.shm.counts, accessTime := now }
    reports := c.reports ++ [result] }

/-- `c->error = 1` (or `0`) for the connection of the peer. -/
def setError (error : Bool) (c : Checker Pid Ctx) : Checker Pid Ctx :=
  { c with
    peer := { c.peer with
      connection := c.peer.connection.map fun conn => { conn with error := error } } }

def setState (state : CheckState) (c : Checker Pid Ctx) : Checker Pid Ctx :=
  { c with peer := { c.peer with state := state } }

/-- The connection that `clean_event` leaves. -/
def keepConnection (conn : Connection) : Option Connection :=
  if conn.error = false ∧ env.type.needKeepalive = true ∧ conn.requests < env.keepaliveRequests then
    some { conn with idle := true }
  else none

/-- `clean_event`. -/
def cleanEvent (c : Checker Pid Ctx) : Checker Pid Ctx :=
  { c with
    peer :=
      { state := .allDone
        connection := c.peer.connection.bind (keepConnection env)
        timeoutSet := false
        checkData := c.peer.checkData.map fun data =>
          { unsent := env.sendLength, ctx := env.protocol.reinit data.ctx } }
    shm := { c.shm with owner := none } }

/-- The label `check_send_fail`, and `check_recv_fail`. -/
def fail (now : Msec) (c : Checker Pid Ctx) : Checker Pid Ctx :=
  cleanEvent env (statusUpdate env false now c)

/-- `peek_handler`. -/
def peekHandler (ok : Bool) (now : Msec) (c : Checker Pid Ctx) : Checker Pid Ctx :=
  cleanEvent env (if ok then statusUpdate env true now c
    else statusUpdate env false now (setError true c))

/-- The end of `send_handler`, with the data of the check. -/
def sendLoop (answer : WriteAnswer) (now : Msec) (data : CheckData Ctx) (c : Checker Pid Ctx) :
    Checker Pid Ctx :=
  if data.unsent ≤ answer.sent then
    { c with
      peer :=
        { c.peer with
          state := .sendDone
          connection :=
            c.peer.connection.map fun conn => { conn with requests := conn.requests + 1 }
          checkData := some { data with unsent := 0 } } }
  else
    let c := { c with peer := { c.peer with
      checkData := some { data with unsent := data.unsent - answer.sent } } }
    if answer.failed then fail env now (setError true c) else c

/-- `send_handler`. -/
def sendHandler (answer : WriteAnswer) (now : Msec) (c : Checker Pid Ctx) : Checker Pid Ctx :=
  if env.type.needPool = false then fail env now c
  else if c.peer.state ≠ .connectDone then
    if answer.armed then c else fail env now c
  else
    match c.peer.checkData with
    | some data => sendLoop env answer now data c
    | none =>
      if answer.allocated then
        sendLoop env answer now { unsent := env.sendLength, ctx := env.protocol.init } c
      else fail env now c

/-- The switch over the result of the parser in `recv_handler`. -/
def recvSwitch (code : ParseCode) (closed : Bool) (now : Msec) (c : Checker Pid Ctx) :
    Checker Pid Ctx :=
  match code with
  | .again =>
    if closed then
      cleanEvent env (setState .recvDone (setError true (statusUpdate env false now c)))
    else c
  | .error => cleanEvent env (setState .recvDone (statusUpdate env false now c))
  | .ok => cleanEvent env (setState .recvDone (statusUpdate env true now c))

/-- `recv_handler`; `peer->check_data` is dereferenced. -/
def recvHandler (answer : ReadAnswer) (now : Msec) (c : Checker Pid Ctx) :
    Option (Checker Pid Ctx) :=
  if c.peer.state ≠ .sendDone then some (if answer.armed then c else fail env now c)
  else
    c.peer.checkData.map fun data =>
      let ctx := env.protocol.recv data.ctx answer.bytes answer.allocated
      let c := { c with peer := { c.peer with checkData := some { data with ctx := ctx } } }
      if answer.allocated = false then fail env now c
      else if answer.ending = .failed then fail env now (setError true c)
      else
        let parsed := env.protocol.parse ctx
        let c :=
          { c with peer := { c.peer with checkData := some { data with ctx := parsed.ctx } } }
        recvSwitch env parsed.code (answer.ending = .closed) now
          (if parsed.breaks then setError true c else c)

/-- `discard_handler`. -/
def discardHandler (answer : ReadAnswer) (c : Checker Pid Ctx) : Checker Pid Ctx :=
  if answer.ending = .again ∧ answer.armed = true then c else cleanEvent env (setError true c)

/-- `timeout_handler`; the connection is dereferenced. In the stream module a check over UDP that
nobody has answered is a success. -/
def timeoutHandler (now : Msec) (c : Checker Pid Ctx) : Option (Checker Pid Ctx) :=
  c.peer.connection.map fun _ =>
    let c := { c with peer := { c.peer with timeoutSet := false } }
    match env.zone, env.type.datagram with
    | .stream, true => cleanEvent env (statusUpdate env true now (setError false c))
    | _, _ => cleanEvent env (statusUpdate env false now (setError true c))

/-- The handler for a writable socket. -/
def writeHandler (answer : WriteAnswer) (now : Msec) (c : Checker Pid Ctx) : Checker Pid Ctx :=
  if env.type.sends then sendHandler env answer now c else peekHandler env answer.peek now c

/-- The handler for a readable socket. -/
def readHandler (answer : ReadAnswer) (now : Msec) (c : Checker Pid Ctx) :
    Option (Checker Pid Ctx) :=
  if env.type.receives then recvHandler env answer now c
  else some (peekHandler env answer.peek now c)

/-- `connect_handler` from the label `upstream_check_connect_done` on. -/
def connectDone (conn : Connection) (ready : Bool) (answer : WriteAnswer) (now : Msec)
    (c : Checker Pid Ctx) : Checker Pid Ctx :=
  let c := { c with
    peer := { c.peer with
      state := .connectDone
      connection := some { conn with idle := false }
      timeoutSet := true } }
  if ready then writeHandler env answer now c else c

/-- `connect_handler`: the kept connection if it is still good, otherwise a new one. In the stream
module `clean_event` is not called when there is none. -/
def connectHandler (peek : Bool) (connect : ConnectCode) (answer : WriteAnswer) (now : Msec)
    (c : Checker Pid Ctx) : Checker Pid Ctx :=
  match c.peer.connection.filter fun _ => peek with
  | some conn => connectDone env conn true answer now c
  | none =>
    let c := { c with peer := { c.peer with connection := none } }
    let fresh : Connection := { error := false, requests := 0, idle := false }
    match connect with
    | .ok => connectDone env fresh true answer now c
    | .again => connectDone env fresh false answer now c
    | .failed =>
      match env.zone with
      | .http => fail env now c
      | .stream => statusUpdate env false now c

section Events

variable [DecidableEq Pid]

/-- One event. -/
def handle (c : Checker Pid Ctx) : CheckEvent → Option (Checker Pid Ctx)
  | .timer now peek connect answer =>
    if c.peer.timeoutSet then some c
    else
      let r := c.shm.beginHandler env.conf env.pid now
      if r.1 = .checking then
        some (connectHandler env peek connect answer now
          { c with shm := r.2, starts := c.starts + 1 })
      else some { c with shm := r.2 }
  | .writable now answer =>
    match c.peer.connection with
    | none => some c
    | some conn => some (if conn.idle then c else writeHandler env answer now c)
  | .readable now answer =>
    match c.peer.connection with
    | none => some c
    | some conn =>
      if conn.idle then some (discardHandler env answer c) else readHandler env answer now c
  | .timeout now => if c.peer.timeoutSet then timeoutHandler env now c else some c

/-- A row of events. -/
def run (c : Checker Pid Ctx) (events : List CheckEvent) : Option (Checker Pid Ctx) :=
  events.foldlM (handle env) c

end Events

/-! ### What the handlers do -/

/-- A check is in progress. -/
structure InCheck (c : Checker Pid Ctx) : Prop where
  timer : c.peer.timeoutSet = true
  connection : ∃ conn, c.peer.connection = some conn ∧ conn.idle = false
  data : c.peer.state = .sendDone → c.peer.checkData.isSome = true

/-- No check is in progress; a connection that is left has been kept. -/
structure Resting (c : Checker Pid Ctx) : Prop where
  timer : c.peer.timeoutSet = false
  connection : ∀ conn, c.peer.connection = some conn → conn.idle = true
  state : c.peer.state ≠ .sendDone

/-- The check goes on. -/
structure Continued (c c' : Checker Pid Ctx) : Prop where
  shm : c'.shm = c.shm
  starts : c'.starts = c.starts
  reports : c'.reports = c.reports
  inCheck : InCheck c'

/-- The check has ended: its result has been reported and the peer released. -/
structure Ended (result : Bool) (now : Msec) (c c' : Checker Pid Ctx) : Prop where
  shm : c'.shm = { c.shm with
    owner := none, accessTime := now, counts := env.conf.record result c.shm.counts }
  starts : c'.starts = c.starts
  reports : c'.reports = c.reports ++ [result]
  resting : Resting c'

/-- The connection could not be made: the result has been reported, the peer is not released. -/
structure Stuck (now : Msec) (c c' : Checker Pid Ctx) : Prop where
  shm : c'.shm = { c.shm with accessTime := now, counts := env.conf.record false c.shm.counts }
  starts : c'.starts = c.starts
  reports : c'.reports = c.reports ++ [false]
  resting : Resting c'
  connection : c'.peer.connection = none

/-- The check goes on or has ended. -/
def Advanced (now : Msec) (c c' : Checker Pid Ctx) : Prop :=
  Continued c c' ∨ ∃ result, Ended env result now c c'

variable {env} {c d : Checker Pid Ctx} {now : Msec} {result : Bool}

theorem resting_cleanEvent (c : Checker Pid Ctx) : Resting (cleanEvent env c) := by
  refine ⟨rfl, fun conn hconn => ?_, CheckState.noConfusion⟩
  obtain ⟨old, -, hkept⟩ := Option.bind_eq_some_iff.mp hconn
  unfold keepConnection at hkept
  split at hkept
  · cases hkept
    rfl
  · cases hkept

/-- `clean_event` after `status_update` ends the check. -/
theorem ended_cleanEvent
    (hshm : d.shm = { c.shm with counts := env.conf.record result c.shm.counts, accessTime := now })
    (hstarts : d.starts = c.starts) (hreports : d.reports = c.reports ++ [result]) :
    Ended env result now c (cleanEvent env d) :=
  ⟨by simp [cleanEvent, hshm], hstarts, hreports, resting_cleanEvent d⟩

theorem ended_fail (hshm : d.shm = c.shm) (hstarts : d.starts = c.starts)
    (hreports : d.reports = c.reports) : Ended env false now c (fail env now d) :=
  ended_cleanEvent (by simp [statusUpdate, hshm]) hstarts (by simp [statusUpdate, hreports])

theorem ended_peekHandler (ok : Bool) (c : Checker Pid Ctx) :
    Ended env ok now c (peekHandler env ok now c) := by
  cases ok <;> exact ended_cleanEvent rfl rfl rfl

theorem advanced_sendLoop (answer : WriteAnswer) (data : CheckData Ctx) (h : InCheck c) :
    Advanced env now c (sendLoop env answer now data c) := by
  obtain ⟨conn, hconn, hidle⟩ := h.connection
  unfold sendLoop
  split
  · refine .inl ⟨rfl, rfl, rfl, h.timer, ?_, fun _ => rfl⟩
    exact ⟨{ conn with requests := conn.requests + 1 }, by simp [hconn], hidle⟩
  · dsimp only
    split
    · exact .inr ⟨false, ended_fail rfl rfl rfl⟩
    · exact .inl ⟨rfl, rfl, rfl, h.timer, h.connection, fun _ => rfl⟩

theorem advanced_sendHandler (answer : WriteAnswer) (h : InCheck c) :
    Advanced env now c (sendHandler env answer now c) := by
  have hfail : Advanced env now c (fail env now c) := .inr ⟨false, ended_fail rfl rfl rfl⟩
  unfold sendHandler
  split
  · exact hfail
  · split
    · split
      · exact .inl ⟨rfl, rfl, rfl, h⟩
      · exact hfail
    · cases c.peer.checkData with
      | some data => exact advanced_sendLoop answer data h
      | none =>
        dsimp only
        split
        · exact advanced_sendLoop answer _ h
        · exact hfail

theorem advanced_writeHandler (env : CheckSetup Pid Ctx) (now : Msec) (answer : WriteAnswer)
    (h : InCheck c) :
    Advanced env now c (writeHandler env answer now c) := by
  unfold writeHandler
  split
  · exact advanced_sendHandler answer h
  · exact .inr ⟨answer.peek, ended_peekHandler answer.peek c⟩

theorem InCheck.setError (error : Bool) (h : InCheck c) : InCheck (setError error c) := by
  obtain ⟨conn, hconn, hidle⟩ := h.connection
  exact ⟨h.timer, ⟨{ conn with error := error }, by simp [Checker.setError, hconn], hidle⟩, h.data⟩

theorem advanced_recvSwitch (code : ParseCode) (closed : Bool) (h : InCheck d)
    (hshm : d.shm = c.shm) (hstarts : d.starts = c.starts) (hreports : d.reports = c.reports) :
    Advanced env now c (recvSwitch env code closed now d) := by
  have hupdate : ∀ result : Bool, (statusUpdate env result now d).shm =
      { c.shm with counts := env.conf.record result c.shm.counts, accessTime := now } := by
    intro result
    rw [statusUpdate, hshm]
  have hreport : ∀ result : Bool,
      (statusUpdate env result now d).reports = c.reports ++ [result] := by
    intro result
    rw [statusUpdate, hreports]
  cases code with
  | ok => exact .inr ⟨true, ended_cleanEvent (hupdate true) hstarts (hreport true)⟩
  | error => exact .inr ⟨false, ended_cleanEvent (hupdate false) hstarts (hreport false)⟩
  | again =>
    cases closed with
    | true => exact .inr ⟨false, ended_cleanEvent (hupdate false) hstarts (hreport false)⟩
    | false => exact .inl ⟨hshm, hstarts, hreports, h⟩

theorem advanced_recvHandler (answer : ReadAnswer) (h : InCheck c) :
    ∃ c', recvHandler env answer now c = some c' ∧ Advanced env now c c' := by
  unfold recvHandler
  split
  · refine ⟨_, rfl, ?_⟩
    split
    · exact .inl ⟨rfl, rfl, rfl, h⟩
    · exact .inr ⟨false, ended_fail rfl rfl rfl⟩
  · rename_i hstate
    obtain ⟨data, hdata⟩ := Option.isSome_iff_exists.mp (h.data (not_not.mp hstate))
    rw [hdata]
    refine ⟨_, rfl, ?_⟩
    dsimp only
    split
    · exact .inr ⟨false, ended_fail rfl rfl rfl⟩
    · split
      · exact .inr ⟨false, ended_fail rfl rfl rfl⟩
      · have hdone : InCheck { c with peer := { c.peer with
            checkData := some { data with
              ctx := (env.protocol.parse (env.protocol.recv data.ctx answer.bytes
                answer.allocated)).ctx } } } :=
          ⟨h.timer, h.connection, fun _ => rfl⟩
        split
        · exact advanced_recvSwitch _ _ (hdone.setError true) rfl rfl rfl
        · exact advanced_recvSwitch _ _ hdone rfl rfl rfl

theorem advanced_readHandler (env : CheckSetup Pid Ctx) (now : Msec) (answer : ReadAnswer)
    (h : InCheck c) :
    ∃ c', readHandler env answer now c = some c' ∧ Advanced env now c c' := by
  unfold readHandler
  split
  · exact advanced_recvHandler answer h
  · exact ⟨_, rfl, .inr ⟨answer.peek, ended_peekHandler answer.peek c⟩⟩

theorem ended_timeoutHandler (env : CheckSetup Pid Ctx) (now : Msec) (h : InCheck c) :
    ∃ c' result, timeoutHandler env now c = some c' ∧ Ended env result now c c' := by
  obtain ⟨conn, hconn, -⟩ := h.connection
  unfold timeoutHandler
  rw [hconn]
  cases hzone : env.zone with
  | http => exact ⟨_, false, rfl, ended_cleanEvent rfl rfl rfl⟩
  | stream =>
    cases hdatagram : env.type.datagram with
    | true => exact ⟨_, true, rfl, ended_cleanEvent rfl rfl rfl⟩
    | false => exact ⟨_, false, rfl, ended_cleanEvent rfl rfl rfl⟩

theorem Advanced.congr {c' : Checker Pid Ctx} (h : Advanced env now d c') (hshm : d.shm = c.shm)
    (hstarts : d.starts = c.starts) (hreports : d.reports = c.reports) : Advanced env now c c' := by
  rcases h with hcontinued | ⟨result, hended⟩
  · exact .inl ⟨hcontinued.shm.trans hshm, hcontinued.starts.trans hstarts,
      hcontinued.reports.trans hreports, hcontinued.inCheck⟩
  · refine .inr ⟨result, ?_, hended.starts.trans hstarts, ?_, hended.resting⟩
    · rw [hended.shm, hshm]
    · rw [hended.reports, hreports]

theorem advanced_connectDone (conn : Connection) (ready : Bool) (answer : WriteAnswer)
    (c : Checker Pid Ctx) : Advanced env now c (connectDone env conn ready answer now c) := by
  have hin : InCheck { c with peer := { c.peer with
      state := .connectDone, connection := some { conn with idle := false },
      timeoutSet := true } } :=
    ⟨rfl, ⟨_, rfl, rfl⟩, fun h => CheckState.noConfusion h⟩
  unfold connectDone
  dsimp only
  split
  · exact (advanced_writeHandler env now answer hin).congr rfl rfl rfl
  · exact .inl ⟨rfl, rfl, rfl, hin⟩

/-- `connect_handler` starts a check, or ends it at once; in the stream module it can also leave the
peer as it is. -/
theorem connectHandler_cases (env : CheckSetup Pid Ctx) (now : Msec) (peek : Bool)
    (connect : ConnectCode) (answer : WriteAnswer) (h : Resting c) :
    Advanced env now c (connectHandler env peek connect answer now c) ∨
      (env.zone = .stream ∧ Stuck env now c (connectHandler env peek connect answer now c)) := by
  unfold connectHandler
  cases c.peer.connection.filter fun _ => peek with
  | some conn => exact .inl (advanced_connectDone conn true answer c)
  | none =>
    cases connect with
    | ok => exact .inl ((advanced_connectDone _ true answer _).congr rfl rfl rfl)
    | again => exact .inl ((advanced_connectDone _ false answer _).congr rfl rfl rfl)
    | failed =>
      cases hzone : env.zone with
      | http => exact .inl (.inr ⟨false, ended_fail rfl rfl rfl⟩)
      | stream =>
        refine .inr ⟨rfl, rfl, rfl, rfl, ⟨h.timer, ?_, h.state⟩, rfl⟩
        simp [statusUpdate]

theorem Advanced.starts {c' : Checker Pid Ctx} (h : Advanced env now c c') :
    c'.starts = c.starts := by
  rcases h with hcontinued | ⟨result, hended⟩
  · exact hcontinued.starts
  · exact hended.starts

/-- The checks in progress: one or none. -/
def pending (c : Checker Pid Ctx) : ℕ := if c.peer.timeoutSet then 1 else 0

theorem InCheck.pending (h : InCheck c) : c.pending = 1 := if_pos h.timer

theorem Resting.pending (h : Resting c) : c.pending = 0 := by
  simp [Checker.pending, h.timer]

/-- A worker that has not checked the peer yet. -/
def fresh (shm : SharedPeer Pid) : Checker Pid Ctx where
  peer := {}
  shm := shm
  starts := 0
  reports := []

theorem resting_fresh (shm : SharedPeer Pid) : Resting (fresh shm : Checker Pid Ctx) :=
  ⟨rfl, fun conn h => absurd h (Option.some_ne_none conn).symm, CheckState.noConfusion⟩

variable [DecidableEq Pid]

variable (env) in
/-- The checker when `begin_handler` has taken the peer and calls `connect_handler`. -/
def taken (now : Msec) (c : Checker Pid Ctx) : Checker Pid Ctx :=
  { c with shm := (c.shm.beginHandler env.conf env.pid now).2, starts := c.starts + 1 }

variable (env) in
/-- What an event does. -/
inductive Handled (c c' : Checker Pid Ctx) : Prop where
  | continues (hin : InCheck c) (h : Continued c c')
  | ends (hin : InCheck c) (now : Msec) (result : Bool) (h : Ended env result now c c')
  | rests (hrest : Resting c) (h : c' = c)
  | discards (hrest : Resting c) (hkept : c.peer.connection.isSome = true)
      (hshm : c'.shm = { c.shm with owner := none }) (hstarts : c'.starts = c.starts)
      (hreports : c'.reports = c.reports) (hrest' : Resting c')
      (hclosed : c'.peer.connection = none)
  | starts (hrest : Resting c) (now : Msec)
      (htaken : (c.shm.beginHandler env.conf env.pid now).1 = .checking)
      (h : Advanced env now (taken env now c) c')
  | sticks (hrest : Resting c) (now : Msec) (hzone : env.zone = .stream)
      (htaken : (c.shm.beginHandler env.conf env.pid now).1 = .checking)
      (h : Stuck env now (taken env now c) c')

/-- `begin_handler` leaves the memory alone when it does not take the peer. -/
theorem beginHandler_of_not_taken {conf : WorkerConf} {pid : Pid} {shm : SharedPeer Pid}
    (h : (shm.beginHandler conf pid now).1 ≠ .checking) :
    (shm.beginHandler conf pid now).2 = shm := by
  unfold SharedPeer.beginHandler at h ⊢
  split_ifs at h ⊢ <;> simp_all

/-- Every event is handled, without a null pointer, when a check is in progress or not. -/
theorem handled_handle (env : CheckSetup Pid Ctx) (hwf : InCheck c ∨ Resting c)
    (event : CheckEvent) :
    ∃ c', handle env c event = some c' ∧ Handled env c c' := by
  have hadvance : InCheck c → ∀ {now c'}, Advanced env now c c' → Handled env c c' := by
    rintro hin now c' (hcontinued | ⟨result, hended⟩)
    · exact .continues hin hcontinued
    · exact .ends hin now result hended
  rcases hwf with hin | hrest
  · obtain ⟨conn, hconn, hbusy⟩ := hin.connection
    have hsame : Handled env c c := .continues hin ⟨rfl, rfl, rfl, hin⟩
    cases event with
    | timer now peek connect answer => exact ⟨c, by simp [handle, hin.timer], hsame⟩
    | writable now answer =>
      exact ⟨writeHandler env answer now c, by simp [handle, hconn, hbusy],
        hadvance hin (advanced_writeHandler env now answer hin)⟩
    | readable now answer =>
      obtain ⟨c', hread, hadvanced⟩ := advanced_readHandler env now answer hin
      exact ⟨c', by simpa [handle, hconn, hbusy] using hread, hadvance hin hadvanced⟩
    | timeout now =>
      obtain ⟨c', result, htimeout, hended⟩ := ended_timeoutHandler env now hin
      exact ⟨c', by simpa [handle, hin.timer] using htimeout, .ends hin now result hended⟩
  · have hsame : Handled env c c := .rests hrest rfl
    cases event with
    | timer now peek connect answer =>
      by_cases htaken : (c.shm.beginHandler env.conf env.pid now).1 = .checking
      · have hrest' : Resting (taken env now c) := ⟨hrest.timer, hrest.connection, hrest.state⟩
        refine ⟨_, by simp only [handle, hrest.timer, htaken]; rfl, ?_⟩
        rcases connectHandler_cases env now peek connect answer hrest' with
          hadvanced | ⟨hzone, hstuck⟩
        · exact .starts hrest now htaken hadvanced
        · exact .sticks hrest now hzone htaken hstuck
      · refine ⟨c, ?_, hsame⟩
        simp [handle, hrest.timer, htaken, beginHandler_of_not_taken htaken]
    | writable now answer =>
      cases hconn : c.peer.connection with
      | none => exact ⟨c, by simp [handle, hconn], hsame⟩
      | some conn => exact ⟨c, by simp [handle, hconn, hrest.connection conn hconn], hsame⟩
    | readable now answer =>
      cases hconn : c.peer.connection with
      | none => exact ⟨c, by simp [handle, hconn], hsame⟩
      | some conn =>
        refine ⟨_, by simp only [handle, hconn, hrest.connection conn hconn]; rfl, ?_⟩
        unfold discardHandler
        split
        · exact hsame
        · refine .discards hrest (by simp [hconn]) rfl rfl rfl (resting_cleanEvent _) ?_
          simp [cleanEvent, setError, hconn, keepConnection]
    | timeout now => exact ⟨c, by simp [handle, hrest.timer], hsame⟩

theorem Handled.wf {c' : Checker Pid Ctx} (h : Handled env c c') : InCheck c' ∨ Resting c' := by
  have hadvanced : ∀ {now d}, Advanced env now d c' → InCheck c' ∨ Resting c' := by
    rintro now d (hcontinued | ⟨result, hended⟩)
    · exact .inl hcontinued.inCheck
    · exact .inr hended.resting
  cases h with
  | continues hin h => exact .inl h.inCheck
  | ends hin now result h => exact .inr h.resting
  | rests hrest h => exact .inr (h ▸ hrest)
  | discards hrest hkept hshm hstarts hreports hrest' hclosed => exact .inr hrest'
  | starts hrest now htaken h => exact hadvanced h
  | sticks hrest now hzone htaken h => exact .inr h.resting

/-- What every event keeps holds after every row of events, and there is always a result. -/
theorem run_invariant {Inv : Checker Pid Ctx → Prop} (hwf : ∀ c, Inv c → InCheck c ∨ Resting c)
    (hstep : ∀ c c', Inv c → Handled env c c' → Inv c') (hinit : Inv c) (events : List CheckEvent) :
    ∃ c', run env c events = some c' ∧ Inv c' := by
  induction events generalizing c with
  | nil => exact ⟨c, rfl, hinit⟩
  | cons event events ih =>
    obtain ⟨d, hd, hhandled⟩ := handled_handle env (hwf c hinit) event
    obtain ⟨c', hc', hinv⟩ := ih (hstep c d hinit hhandled)
    exact ⟨c', by rw [run, List.foldlM_cons, hd]; exact hc', hinv⟩

end Checker

end HealthCheck.Nginx
