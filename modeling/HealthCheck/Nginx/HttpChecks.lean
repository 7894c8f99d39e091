import HealthCheck.Nginx.Lifecycle
import HealthCheck.Nginx.Segments

/-!
# The result of an http check

The context into which a response is received belongs to the peer and is used for one check after
the other: `clean_event` makes it ready for the next one, and keeps the buffer at the size that it
has grown to. So whatever has happened before, a check reports a success if and only if a response
with one of the expected codes has come, and not in pieces that make the parser stumble.
-/

namespace HealthCheck.Nginx

/-- What the functions of a check type keep of the context: it is sound as long as the bytes that
were read are parsed, and it is fresh when a check begins, also after one that could not read. -/
structure Protocol.Keeps {Ctx : Type} (p : Protocol Ctx) (Sound Fresh : Ctx → Prop) : Prop where
  init : Fresh p.init
  sound : ∀ ctx, Fresh ctx → Sound ctx
  receive : ∀ ctx bytes, Sound ctx → Sound (p.receive ctx bytes).ctx
  reinit : ∀ ctx, Sound ctx → Fresh (p.reinit ctx)
  failed : ∀ ctx bytes allocated, Sound ctx → Fresh (p.reinit (p.recv ctx bytes allocated))

/-- The buffer always has room, and it is never smaller than at first. -/
theorem httpProtocol_keeps {halfPage : ℕ} (h : 0 < halfPage) (statusAlive : ℕ) :
    (httpProtocol halfPage statusAlive).Keeps
      (fun ctx => (ctx.buf halfPage).Open ∧ halfPage ≤ (ctx.buf halfPage).size)
      (fun ctx => ctx.HasRead halfPage [] ∧ halfPage ≤ (ctx.buf halfPage).size) where
  init := ⟨⟨rfl, rfl, rfl, h⟩, Nat.le_refl _⟩
  sound _ hfresh := ⟨hfresh.1.open_buf, hfresh.2⟩
  receive _ bytes hsound :=
    have hreceive := HttpCtx.open_receive statusAlive hsound.1 bytes
    ⟨hreceive.1, hsound.2.trans hreceive.2⟩
  reinit ctx hsound :=
    have hreinit := HttpCtx.hasRead_reinit ctx statusAlive (h.trans_le hsound.2)
    ⟨hreinit.1, hsound.2.trans_eq hreinit.2.symm⟩
  failed ctx bytes allocated hsound :=
    have hsize := hsound.2.trans (RecvBuf.size_le_collect halfPage ctx.recv bytes allocated)
    have hreinit := HttpCtx.hasRead_reinit
      ((httpProtocol halfPage statusAlive).recv ctx bytes allocated) statusAlive (h.trans_le hsize)
    ⟨hreinit.1, hsize.trans_eq hreinit.2.symm⟩

namespace Protocol

variable {Ctx : Type} {p : Protocol Ctx} {ctx : Ctx} {piece : List UInt8}

theorem verdict_cons_of_ne (h : (p.receive ctx piece).code ≠ .again) (pieces : List (List UInt8)) :
    p.verdict ctx (piece :: pieces) = some (decide ((p.receive ctx piece).code = .ok)) := by
  rw [verdict]
  cases hcode : (p.receive ctx piece).code with
  | again => exact absurd hcode h
  | ok => rfl
  | error => rfl

theorem verdict_cons_of_again (h : (p.receive ctx piece).code = .again)
    (pieces : List (List UInt8)) :
    p.verdict ctx (piece :: pieces) = p.verdict (p.receive ctx piece).ctx pieces := by
  rw [verdict, h]

theorem verdict_singleton :
    (p.verdict ctx [piece]).getD false = decide ((p.receive ctx piece).code = .ok) := by
  rw [verdict]
  cases (p.receive ctx piece).code with
  | again => rfl
  | ok => rfl
  | error => rfl

end Protocol

/-- The event of the timer of the peer. -/
def CheckEvent.isTimer : CheckEvent → Bool
  | .timer .. => true
  | _ => false

namespace Checker

variable {Pid Ctx : Type} {env : CheckSetup Pid Ctx} {c d : Checker Pid Ctx} {now : Msec}
variable {Sound Fresh : Ctx → Prop} {received : Prop} {peer : LocalPeer Ctx}

/-! ### The context between the checks -/

/-- The context of a peer, which is fresh unless something may have been received. -/
structure Held (Sound Fresh : Ctx → Prop) (received : Prop) (peer : LocalPeer Ctx) : Prop where
  sound : ∀ data, peer.checkData = some data → Sound data.ctx
  fresh : ¬ received → ∀ data, peer.checkData = some data → Fresh data.ctx

theorem held_of_fresh (hp : env.protocol.Keeps Sound Fresh)
    (h : ∀ data, peer.checkData = some data → Fresh data.ctx) : Held Sound Fresh received peer :=
  ⟨fun data hdata => hp.sound data.ctx (h data hdata), fun _ => h⟩

theorem held_reinit (hp : env.protocol.Keeps Sound Fresh)
    (h : ∀ data, c.peer.checkData = some data → Fresh (env.protocol.reinit data.ctx)) :
    Held Sound Fresh received (cleanEvent env c).peer := by
  refine held_of_fresh hp fun data hdata => ?_
  obtain ⟨old, hold, rfl⟩ := Option.map_eq_some_iff.mp hdata
  exact h old hold

theorem held_cleanEvent (hp : env.protocol.Keeps Sound Fresh)
    (h : ∀ data, c.peer.checkData = some data → Sound data.ctx) :
    Held Sound Fresh received (cleanEvent env c).peer :=
  held_reinit hp fun data hdata => hp.reinit data.ctx (h data hdata)

theorem held_peekHandler (hp : env.protocol.Keeps Sound Fresh) (ok : Bool)
    (h : ∀ data, c.peer.checkData = some data → Sound data.ctx) :
    Held Sound Fresh received (peekHandler env ok now c).peer := by
  cases ok <;> exact held_cleanEvent hp h

theorem held_sendLoop (hp : env.protocol.Keeps Sound Fresh) (answer : WriteAnswer)
    {data : CheckData Ctx} (h : Fresh data.ctx) :
    Held Sound Fresh received (sendLoop env answer now data c).peer := by
  unfold sendLoop
  split
  · refine held_of_fresh hp fun data' hdata' => ?_
    cases hdata'
    exact h
  · dsimp only
    split
    · refine held_cleanEvent hp fun data' hdata' => ?_
      cases hdata'
      exact hp.sound data.ctx h
    · refine held_of_fresh hp fun data' hdata' => ?_
      cases hdata'
      exact h

/-- What a handler leaves: only from `NGX_HTTP_CHECK_SEND_DONE` on something is received. -/
def Leaves (Sound Fresh : Ctx → Prop) (c d : Checker Pid Ctx) : Prop :=
  Held Sound Fresh (c.peer.state = .sendDone ∧ d.peer.state = .sendDone) d.peer

theorem leaves_refl (h : Held Sound Fresh (c.peer.state = .sendDone) c.peer) :
    Leaves Sound Fresh c c :=
  ⟨h.sound, fun hother => h.fresh fun hstate => hother ⟨hstate, hstate⟩⟩

theorem Leaves.held_of_ne (h : Leaves Sound Fresh c d) (hstate : c.peer.state ≠ .sendDone) :
    Held Sound Fresh received d.peer :=
  ⟨h.sound, fun _ => h.fresh fun hboth => hstate hboth.1⟩

theorem leaves_writeHandler (hp : env.protocol.Keeps Sound Fresh) (answer : WriteAnswer)
    (now : Msec) (h : Held Sound Fresh (c.peer.state = .sendDone) c.peer) :
    Leaves Sound Fresh c (writeHandler env answer now c) := by
  unfold writeHandler
  split
  · unfold sendHandler
    split
    · exact held_cleanEvent hp h.sound
    · split
      · split
        · exact leaves_refl h
        · exact held_cleanEvent hp h.sound
      · rename_i hstate
        have hfresh := h.fresh (by rw [not_not.mp hstate]; exact CheckState.noConfusion)
        cases hdata : c.peer.checkData with
        | some data => exact held_sendLoop hp answer (hfresh data hdata)
        | none =>
          dsimp only
          split
          · exact held_sendLoop hp answer hp.init
          · exact held_cleanEvent hp h.sound
  · exact held_peekHandler hp answer.peek h.sound

theorem leaves_recvSwitch (hp : env.protocol.Keeps Sound Fresh) (code : ParseCode) (closed : Bool)
    (hstate : c.peer.state = .sendDone) (hsame : d.peer.state = c.peer.state)
    (h : ∀ data, d.peer.checkData = some data → Sound data.ctx) :
    Leaves Sound Fresh c (recvSwitch env code closed now d) := by
  cases code with
  | ok => exact held_cleanEvent hp h
  | error => exact held_cleanEvent hp h
  | again =>
    cases closed with
    | true => exact held_cleanEvent hp h
    | false => exact ⟨h, fun hother => absurd ⟨hstate, hsame.trans hstate⟩ hother⟩

theorem leaves_recvHandler (hp : env.protocol.Keeps Sound Fresh) {answer : ReadAnswer}
    (h : Held Sound Fresh (c.peer.state = .sendDone) c.peer)
    (hd : recvHandler env answer now c = some d) : Leaves Sound Fresh c d := by
  by_cases hstate : c.peer.state = .sendDone
  · rw [recvHandler, if_neg (not_not.mpr hstate)] at hd
    obtain ⟨data, hdata, rfl⟩ := Option.map_eq_some_iff.mp hd
    have hfailed : ∀ data', some { data with
        ctx := env.protocol.recv data.ctx answer.bytes answer.allocated } = some data' →
        Fresh (env.protocol.reinit data'.ctx) := by
      intro data' hdata'
      cases hdata'
      exact hp.failed data.ctx answer.bytes answer.allocated (h.sound data hdata)
    dsimp only
    cases hallocated : answer.allocated with
    | false =>
      rw [hallocated] at hfailed
      exact held_reinit hp hfailed
    | true =>
      rw [hallocated] at hfailed
      rw [if_neg (by decide)]
      have hsound : ∀ data', some { data with
          ctx := (env.protocol.receive data.ctx answer.bytes).ctx } = some data' →
          Sound data'.ctx := by
        intro data' hdata'
        cases hdata'
        exact hp.receive data.ctx answer.bytes (h.sound data hdata)
      split
      · exact held_reinit hp hfailed
      · split
        · exact leaves_recvSwitch hp _ _ hstate rfl hsound
        · exact leaves_recvSwitch hp _ _ hstate rfl hsound
  · rw [recvHandler, if_pos hstate] at hd
    cases hd
    split
    · exact leaves_refl h
    · exact held_cleanEvent hp h.sound

theorem leaves_readHandler (hp : env.protocol.Keeps Sound Fresh) {answer : ReadAnswer}
    (h : Held Sound Fresh (c.peer.state = .sendDone) c.peer)
    (hd : readHandler env answer now c = some d) : Leaves Sound Fresh c d := by
  unfold readHandler at hd
  split_ifs at hd
  · exact leaves_recvHandler hp h hd
  · cases hd
    exact held_peekHandler hp answer.peek h.sound

theorem leaves_timeoutHandler (hp : env.protocol.Keeps Sound Fresh)
    (h : Held Sound Fresh (c.peer.state = .sendDone) c.peer)
    (hd : timeoutHandler env now c = some d) : Leaves Sound Fresh c d := by
  obtain ⟨conn, -, rfl⟩ := Option.map_eq_some_iff.mp hd
  cases env.zone with
  | http => exact held_cleanEvent hp h.sound
  | stream =>
    cases env.type.datagram with
    | true => exact held_cleanEvent hp h.sound
    | false => exact held_cleanEvent hp h.sound

theorem leaves_discardHandler (hp : env.protocol.Keeps Sound Fresh) (answer : ReadAnswer)
    (h : Held Sound Fresh (c.peer.state = .sendDone) c.peer) :
    Leaves Sound Fresh c (discardHandler env answer c) := by
  unfold discardHandler
  split
  · exact leaves_refl h
  · exact held_cleanEvent hp h.sound

theorem held_connectDone (hp : env.protocol.Keeps Sound Fresh) (conn : Connection) (ready : Bool)
    (answer : WriteAnswer) (h : ∀ data, c.peer.checkData = some data → Fresh data.ctx) :
    Held Sound Fresh False (connectDone env conn ready answer now c).peer := by
  unfold connectDone
  dsimp only
  split
  · refine Leaves.held_of_ne (leaves_writeHandler hp answer now ?_) ?_
    · exact held_of_fresh hp h
    · exact CheckState.noConfusion
  · exact held_of_fresh hp h

theorem held_connectHandler (hp : env.protocol.Keeps Sound Fresh) (peek : Bool)
    (connect : ConnectCode) (answer : WriteAnswer) (now : Msec)
    (h : ∀ data, c.peer.checkData = some data → Fresh data.ctx) :
    Held Sound Fresh False (connectHandler env peek connect answer now c).peer := by
  have hsound : ∀ data, c.peer.checkData = some data → Sound data.ctx :=
    fun data hdata => hp.sound data.ctx (h data hdata)
  unfold connectHandler
  cases c.peer.connection.filter fun _ => peek with
  | some conn => exact held_connectDone hp conn true answer h
  | none =>
    cases connect with
    | ok => exact held_connectDone hp _ true answer h
    | again => exact held_connectDone hp _ false answer h
    | failed =>
      cases env.zone with
      | http => exact held_cleanEvent hp hsound
      | stream => exact held_of_fresh hp h

/-! ### A check that awaits its response -/

/-- The request has been sent, and the response is awaited. -/
structure Awaits (env : CheckSetup Pid Ctx) (c : Checker Pid Ctx) (data : CheckData Ctx) :
    Prop where
  receives : env.type.receives = true
  inCheck : InCheck c
  state : c.peer.state = .sendDone
  data : c.peer.checkData = some data

/-- The peer when the parser has looked at the bytes. -/
def parsedPeer (env : CheckSetup Pid Ctx) (bytes : List UInt8) (data : CheckData Ctx)
    (c : Checker Pid Ctx) : Checker Pid Ctx :=
  let parsed := env.protocol.receive data.ctx bytes
  let c := { c with peer := { c.peer with checkData := some { data with ctx := parsed.ctx } } }
  if parsed.breaks then setError true c else c

theorem reports_parsedPeer (bytes : List UInt8) (data : CheckData Ctx) (c : Checker Pid Ctx) :
    (parsedPeer env bytes data c).reports = c.reports := by
  unfold parsedPeer
  dsimp only
  split <;> rfl

/-- Without a result the response is still awaited. -/
theorem Awaits.again {data : CheckData Ctx} (h : Awaits env c data) (bytes : List UInt8) :
    Awaits env (parsedPeer env bytes data c)
      { data with ctx := (env.protocol.receive data.ctx bytes).ctx } := by
  have hin : InCheck { c with peer := { c.peer with
      checkData := some { data with ctx := (env.protocol.receive data.ctx bytes).ctx } } } :=
    ⟨h.inCheck.timer, h.inCheck.connection, fun _ => rfl⟩
  unfold parsedPeer
  dsimp only
  split
  · exact ⟨h.receives, hin.setError true, h.state, rfl⟩
  · exact ⟨h.receives, hin, h.state, rfl⟩

/-- With a result, or when the server has closed the connection, the check ends. -/
theorem recvSwitch_ends (env : CheckSetup Pid Ctx) (now : Msec) (c : Checker Pid Ctx)
    {code : ParseCode} {closed : Bool} (h : code ≠ .again ∨ closed = true) :
    Resting (recvSwitch env code closed now c) ∧
      (recvSwitch env code closed now c).reports = c.reports ++ [decide (code = .ok)] := by
  cases code with
  | ok => exact ⟨resting_cleanEvent _, rfl⟩
  | error => exact ⟨resting_cleanEvent _, rfl⟩
  | again =>
    cases closed with
    | true => exact ⟨resting_cleanEvent _, rfl⟩
    | false => rcases h with h | h <;> contradiction

/-- A check that receives does not go over UDP. -/
theorem Awaits.not_datagram {data : CheckData Ctx} (h : Awaits env c data) :
    env.type.datagram = false := by
  have htypes : ∀ zone : Zone, ∀ type ∈ zone.checkTypes.map Prod.snd,
      type.receives = true → type.datagram = false := by
    intro zone
    cases zone <;> decide
  exact htypes env.zone env.type env.known h.receives

variable [DecidableEq Pid]

/-- What every event keeps of the context. -/
theorem leaves_handle (hp : env.protocol.Keeps Sound Fresh) (hwf : InCheck c ∨ Resting c)
    (h : Held Sound Fresh (c.peer.state = .sendDone) c.peer) {event : CheckEvent}
    (hd : handle env c event = some d) : Leaves Sound Fresh c d := by
  cases event with
  | timer now peek connect answer =>
    unfold handle at hd
    dsimp only at hd
    split_ifs at hd with htimer
    · cases hd
      exact leaves_refl h
    · cases hd
      have hrest : Resting c := hwf.resolve_left fun hin => htimer hin.timer
      have hheld := held_connectHandler (c := taken env now c) hp peek connect answer now
        (h.fresh hrest.state)
      exact ⟨hheld.sound, fun _ => hheld.fresh id⟩
    · cases hd
      exact leaves_refl h
  | writable now answer =>
    unfold handle at hd
    dsimp only at hd
    cases hconn : c.peer.connection with
    | none =>
      rw [hconn] at hd
      cases hd
      exact leaves_refl h
    | some conn =>
      rw [hconn] at hd
      cases hd
      split
      · exact leaves_refl h
      · exact leaves_writeHandler hp answer now h
  | readable now answer =>
    unfold handle at hd
    dsimp only at hd
    cases hconn : c.peer.connection with
    | none =>
      rw [hconn] at hd
      cases hd
      exact leaves_refl h
    | some conn =>
      rw [hconn] at hd
      dsimp only at hd
      split_ifs at hd
      · cases hd
        exact leaves_discardHandler hp answer h
      · exact leaves_readHandler hp h hd
  | timeout now =>
    unfold handle at hd
    dsimp only at hd
    split_ifs at hd
    · exact leaves_timeoutHandler hp h hd
    · cases hd
      exact leaves_refl h

/-- The context in every state that a worker can reach. -/
theorem held_ops (hp : env.protocol.Keeps Sound Fresh) (hwf : InCheck c ∨ Resting c)
    (h : Held Sound Fresh (c.peer.state = .sendDone) c.peer) {ops : List (CheckerOp Pid)}
    (hd : ops.foldlM (handleOp env) c = some d) :
    (InCheck d ∨ Resting d) ∧ Held Sound Fresh (d.peer.state = .sendDone) d.peer := by
  induction ops generalizing c with
  | nil =>
    cases hd
    exact ⟨hwf, h⟩
  | cons op ops ih =>
    rw [List.foldlM_cons] at hd
    cases op with
    | event event =>
      obtain ⟨c', hc', hhandled⟩ := handled_handle env hwf event
      have hleaves := leaves_handle hp hwf h hc'
      rw [handleOp, hc'] at hd
      refine ih hhandled.wf ⟨hleaves.sound, fun hstate => hleaves.fresh fun hboth => ?_⟩ hd
      exact hstate hboth.2
    | memory shm =>
      refine ih (c := { c with shm := shm }) (hwf.imp ?_ ?_) h hd
      · exact fun hin => ⟨hin.timer, hin.connection, hin.data⟩
      · exact fun hrest => ⟨hrest.timer, hrest.connection, hrest.state⟩

/-! ### The report of a check -/

theorem run_cons {event : CheckEvent} (h : handle env c event = some d) (events : List CheckEvent) :
    run env c (event :: events) = run env d events := by
  rw [run, List.foldlM_cons, h]
  rfl

/-- Between two checks only the timer of the peer starts something. -/
theorem quiet_of_resting (env : CheckSetup Pid Ctx) (hrest : Resting c) {event : CheckEvent}
    (hevent : event.isTimer = false) :
    ∃ d, handle env c event = some d ∧ Resting d ∧ d.reports = c.reports := by
  have hquiet : ∃ d, some c = some d ∧ Resting d ∧ d.reports = c.reports := ⟨c, rfl, hrest, rfl⟩
  cases event with
  | timer now peek connect answer => cases hevent
  | writable now answer =>
    cases hconn : c.peer.connection with
    | none => simpa [handle, hconn] using hquiet
    | some conn => simpa [handle, hconn, hrest.connection conn hconn] using hquiet
  | readable now answer =>
    cases hconn : c.peer.connection with
    | none => simpa [handle, hconn] using hquiet
    | some conn =>
      refine ⟨discardHandler env answer c, by simp [handle, hconn, hrest.connection conn hconn], ?_⟩
      unfold discardHandler
      split
      · exact ⟨hrest, rfl⟩
      · exact ⟨resting_cleanEvent _, rfl⟩
  | timeout now => simpa [handle, hrest.timer] using hquiet

theorem run_of_resting (env : CheckSetup Pid Ctx) (hrest : Resting c) {events : List CheckEvent}
    (hevents : ∀ event ∈ events, event.isTimer = false) :
    ∃ d, run env c events = some d ∧ d.reports = c.reports := by
  induction events generalizing c with
  | nil => exact ⟨c, rfl, rfl⟩
  | cons event events ih =>
    obtain ⟨hevent, hrests⟩ := List.forall_mem_cons.mp hevents
    obtain ⟨c', hc', hrest', hreports⟩ := quiet_of_resting env hrest hevent
    obtain ⟨d, hd, hsame⟩ := ih hrest' hrests
    exact ⟨d, (run_cons hc' events).trans hd, hsame.trans hreports⟩

namespace Awaits

variable {data : CheckData Ctx}

theorem handle_readable (h : Awaits env c data) (now : Msec) {answer : ReadAnswer}
    (hallocated : answer.allocated = true) (hending : answer.ending ≠ .failed) :
    handle env c (.readable now answer) =
      some (recvSwitch env (env.protocol.receive data.ctx answer.bytes).code
        (answer.ending = .closed) now (parsedPeer env answer.bytes data c)) := by
  obtain ⟨conn, hconn, hidle⟩ := h.inCheck.connection
  simp [handle, hconn, hidle, readHandler, h.receives, recvHandler, h.state, h.data, hallocated,
    hending, parsedPeer, Protocol.receive]

theorem handle_timeout (h : Awaits env c data) (now : Msec) :
    ∃ d, handle env c (.timeout now) = some d ∧ d.reports = c.reports ++ [false] := by
  obtain ⟨conn, hconn, -⟩ := h.inCheck.connection
  refine ⟨_, by simp only [handle, h.inCheck.timer, timeoutHandler, hconn]; rfl, ?_⟩
  rw [h.not_datagram]
  cases env.zone with
  | http => rfl
  | stream => rfl

end Awaits

end Checker

/-- How a response comes in: in pieces, each of which is read completely, until the server closes
the connection behind the last one or, as nothing more comes, the timeout is over. -/
structure Delivery where
  arrivals : List (Msec × ReadAnswer)
  ending : Msec
  last : Option ReadAnswer
  again : ∀ a ∈ arrivals, a.2.allocated = true ∧ a.2.ending = .again
  closed : ∀ answer, last = some answer → answer.allocated = true ∧ answer.ending = .closed

namespace Delivery

/-- The server keeps the connection open. -/
def untilTimeout (arrivals : List (Msec × ReadAnswer)) (ending : Msec)
    (again : ∀ a ∈ arrivals, a.2.allocated = true ∧ a.2.ending = .again) : Delivery where
  arrivals := arrivals
  ending := ending
  last := none
  again := again
  closed := by simp

def pieces (delivery : Delivery) : List (List UInt8) :=
  delivery.arrivals.map (fun a => a.2.bytes) ++ delivery.last.toList.map ReadAnswer.bytes

def lastEvent (now : Msec) (last : Option ReadAnswer) : CheckEvent :=
  last.elim (.timeout now) (.readable now)

def events (delivery : Delivery) : List CheckEvent :=
  delivery.arrivals.map (fun a => .readable a.1 a.2) ++ [lastEvent delivery.ending delivery.last]

/-- The timer of the peer has no part in it. -/
theorem not_isTimer (arrivals : List (Msec × ReadAnswer)) (ending : Msec)
    (last : Option ReadAnswer) :
    ∀ event ∈ arrivals.map (fun a => CheckEvent.readable a.1 a.2) ++ [lastEvent ending last],
      event.isTimer = false := by
  intro event hevent
  rcases List.mem_append.mp hevent with hmem | hmem
  · obtain ⟨a, -, rfl⟩ := List.mem_map.mp hmem
    rfl
  · obtain rfl := List.mem_singleton.mp hmem
    cases last <;> rfl

end Delivery

namespace Checker

variable {Pid Ctx : Type} {env : CheckSetup Pid Ctx} {c : Checker Pid Ctx} {data : CheckData Ctx}
variable [DecidableEq Pid]

/-- A check reports what its protocol says of the pieces, and a failure if that is nothing. -/
theorem Awaits.reports_run (h : Awaits env c data) {arrivals : List (Msec × ReadAnswer)}
    (hagain : ∀ a ∈ arrivals, a.2.allocated = true ∧ a.2.ending = .again) (ending : Msec)
    {last : Option ReadAnswer}
    (hclosed : ∀ answer, last = some answer → answer.allocated = true ∧ answer.ending = .closed) :
    ∃ d, run env c (arrivals.map (fun a => .readable a.1 a.2) ++ [Delivery.lastEvent ending last]) =
        some d ∧
      d.reports = c.reports ++ [(env.protocol.verdict data.ctx
        (arrivals.map (fun a => a.2.bytes) ++ last.toList.map ReadAnswer.bytes)).getD false] := by
  induction arrivals generalizing c data with
  | nil =>
    cases last with
    | none =>
      obtain ⟨d, hd, hreports⟩ := h.handle_timeout ending
      exact ⟨d, run_cons hd [], hreports⟩
    | some answer =>
      obtain ⟨hallocated, hending⟩ := hclosed answer rfl
      have hhandle :=
        h.handle_readable ending hallocated (by rw [hending]; exact ReadEnd.noConfusion)
      refine ⟨_, run_cons hhandle [], ?_⟩
      rw [(recvSwitch_ends env ending _ (.inr (decide_eq_true hending))).2, reports_parsedPeer]
      exact congrArg (fun result => c.reports ++ [result]) Protocol.verdict_singleton.symm
  | cons a arrivals ih =>
    obtain ⟨⟨hallocated, hending⟩, hrest⟩ := List.forall_mem_cons.mp hagain
    have hhandle := h.handle_readable a.1 hallocated (by rw [hending]; exact ReadEnd.noConfusion)
    rw [List.map_cons, List.cons_append, run_cons hhandle, List.map_cons, List.cons_append]
    by_cases hcode : (env.protocol.receive data.ctx a.2.bytes).code = .again
    · -- no result yet
      obtain ⟨d, hd, hreports⟩ := ih (h.again a.2.bytes) hrest
      rw [hcode, hending, Protocol.verdict_cons_of_again hcode]
      exact ⟨d, hd, by rw [hreports, reports_parsedPeer]⟩
    · -- the check is over, and what comes behind is discarded
      obtain ⟨hresting, hreports⟩ := recvSwitch_ends env a.1 (parsedPeer env a.2.bytes data c)
        (.inl hcode : _ ∨ decide (a.2.ending = .closed) = true)
      obtain ⟨d, hd, hsame⟩ :=
        run_of_resting env hresting (Delivery.not_isTimer arrivals ending last)
      rw [Protocol.verdict_cons_of_ne hcode]
      exact ⟨d, hd, by rw [hsame, hreports, reports_parsedPeer]; rfl⟩

/-- In whatever state a worker is: when it has sent the request of a check, the check begins with a
fresh context and reports what its protocol says of the pieces. -/
theorem reports_of_sent {Sound Fresh : Ctx → Prop} (hp : env.protocol.Keeps Sound Fresh)
    (hreceives : env.type.receives = true) {shm : SharedPeer Pid} {ops : List (CheckerOp Pid)}
    {event : CheckEvent} {c d : Checker Pid Ctx}
    (hc : ops.foldlM (handleOp env) (fresh shm) = some c) (hunsent : c.peer.state ≠ .sendDone)
    (hd : handle env c event = some d) (hsent : d.peer.state = .sendDone) (delivery : Delivery) :
    ∃ data e, d.peer.checkData = some data ∧ Fresh data.ctx ∧
      run env d delivery.events = some e ∧
      e.reports = d.reports ++ [(env.protocol.verdict data.ctx delivery.pieces).getD false] := by
  have hnone : ∀ data, (fresh shm : Checker Pid Ctx).peer.checkData = some data → False :=
    fun data hdata => Option.some_ne_none data hdata.symm
  obtain ⟨hwf, hheld⟩ := held_ops hp (.inr (resting_fresh shm))
    ⟨fun data hdata => (hnone data hdata).elim, fun _ data hdata => (hnone data hdata).elim⟩ hc
  obtain ⟨d', hd', hhandled⟩ := handled_handle env hwf event
  obtain rfl : d' = d := Option.some.inj (hd'.symm.trans hd)
  have hin : InCheck d' := hhandled.wf.resolve_right fun hrest => hrest.state hsent
  obtain ⟨data, hdata⟩ := Option.isSome_iff_exists.mp (hin.data hsent)
  have hfresh := ((leaves_handle hp hwf hheld hd).held_of_ne hunsent).fresh id data hdata
  have hawaits : Awaits env d' data := ⟨hreceives, hin, hsent, hdata⟩
  obtain ⟨e, he, hreports⟩ := hawaits.reports_run delivery.again delivery.ending delivery.closed
  exact ⟨data, e, hdata, hfresh, he, hreports⟩

/-- In whatever state a worker is: when it has sent the request of an http check, the check reports
a success if and only if a response with one of the expected codes comes in, and not in pieces that
make the parser stumble. It cannot stumble over less than half a page. -/
theorem http_reports_response {env : CheckSetup Pid HttpCtx} {halfPage statusAlive : ℕ}
    (hprotocol : env.protocol = httpProtocol halfPage statusAlive)
    (hreceives : env.type.receives = true) (hpage : 0 < halfPage) {shm : SharedPeer Pid}
    {ops : List (CheckerOp Pid)} {event : CheckEvent} {c d : Checker Pid HttpCtx}
    (hc : ops.foldlM (handleOp env) (fresh shm) = some c) (hunsent : c.peer.state ≠ .sendDone)
    (hd : handle env c event = some d) (hsent : d.peer.state = .sendDone) (delivery : Delivery) :
    ∃ data e result, d.peer.checkData = some data ∧ run env d delivery.events = some e ∧
      e.reports = d.reports ++ [result] ∧
      (result = true ↔
        data.ctx.straddles halfPage statusAlive delivery.pieces = false ∧
          ∃ r : Response, r.bytes <+: delivery.pieces.flatten ∧
            codeMask r.code &&& statusAlive ≠ 0) ∧
      (delivery.pieces.flatten.length < halfPage →
        data.ctx.straddles halfPage statusAlive delivery.pieces = false) := by
  have hp := hprotocol ▸ httpProtocol_keeps hpage statusAlive
  obtain ⟨data, e, hdata, ⟨hread, hsize⟩, he, hreports⟩ :=
    reports_of_sent hp hreceives hc hunsent hd hsent delivery
  refine ⟨data, e, _, hdata, he, hreports, ?_, fun hshort => ?_⟩
  · rw [hprotocol]
    exact hread.verdict_iff statusAlive delivery.pieces
  · exact hread.straddles_of_room (by rw [List.length_nil]; omega)

/-- A check over http, with a very small page. -/
def httpSetup : CheckSetup Bool HttpCtx where
  pid := true
  zone := .http
  type := ⟨true, true, true, true, false⟩
  known := by decide
  keepaliveRequests := 1
  sendLength := 18
  conf := CheckSystem.webConf
  protocol := httpProtocol 17 0x0006

/-- The first piece of an answer ends between CR and LF. -/
def splitAnswer : Delivery where
  arrivals := [(3020, ⟨true, true, true, "HTTP/1.1 200 OK\r".toUTF8.data.toList, .again⟩)]
  ending := 3030
  last := some ⟨true, true, true, "\n\r\n".toUTF8.data.toList, .closed⟩
  again := by simp
  closed := by simp

theorem http_reports_splitAnswer :
    ∃ d, handle httpSetup (fresh freshShm) (.timer 3000 true .ok { goodAnswer with sent := 18 }) =
        some d ∧
      ∃ e, run httpSetup d splitAnswer.events = some e ∧ e.reports = [false] := by
  have hc : List.foldlM (handleOp httpSetup) (fresh freshShm) [] = some (fresh freshShm) := rfl
  obtain ⟨d, hd, hsent, hctx, hnone⟩ : ∃ d, handle httpSetup (fresh freshShm)
      (.timer 3000 true .ok { goodAnswer with sent := 18 }) = some d ∧
      d.peer.state = .sendDone ∧ d.peer.checkData = some ⟨0, {}⟩ ∧ d.reports = [] :=
    ⟨_, rfl, rfl, rfl, rfl⟩
  obtain ⟨data, e, result, hdata, he, hreports, hiff, -⟩ :=
    http_reports_response rfl rfl (by decide) hc CheckState.noConfusion hd hsent splitAnswer
  obtain rfl : ⟨0, {}⟩ = data := Option.some.inj (hctx.symm.trans hdata)
  have hstraddles : HttpCtx.straddles 17 0x0006 {} splitAnswer.pieces = true := by decide +kernel
  rw [hnone] at hreports
  refine ⟨d, hd, e, he, ?_⟩
  cases result with
  | false => exact hreports
  | true => exact absurd (hstraddles.symm.trans (hiff.mp rfl).1) Bool.noConfusion

end Checker

end HealthCheck.Nginx
