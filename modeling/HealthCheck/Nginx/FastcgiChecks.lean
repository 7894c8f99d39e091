import HealthCheck.Nginx.Fastcgi
import HealthCheck.Nginx.HttpChecks

/-!
# Checks over FastCGI

The check type `fastcgi` shares its initialisation with `http`. That one leaves the length and the
padding of the last record in the context, but a new check does not read them before it has set
them, and so every check judges its answer as the first one does.
-/

namespace HealthCheck.Nginx

open Scanner

/-- What `recv_handler` is given. When the NULL pointer is dereferenced anything may follow. -/
def FastcgiCode.parseCode (undefined : ParseCode) : FastcgiCode → ParseCode
  | .ok => .ok
  | .again => .again
  | .error => .error
  | .crash => undefined

/-- The functions of the check type `fastcgi`. Its contexts are initialised by `http_init` and
`http_reinit`. -/
def fastcgiProtocol (halfPage statusAlive : ℕ) (undefined : ParseCode) : Protocol FastcgiCtx where
  init := {}
  recv ctx bytes allocated := { ctx with recv := RecvBuf.collect halfPage ctx.recv bytes allocated }
  parse ctx :=
    let parsed := fastcgiParse statusAlive ctx (ctx.recv.getD ⟨[], 0, halfPage⟩)
    ⟨parsed.1.parseCode undefined, false, parsed.2⟩
  reinit ctx :=
    { recv := ctx.recv.map RecvBuf.reset, state := .version, head := { ctx.head with type := 0 } }

/-! ### What the record before has left -/

/-- Two heads that differ only in what is set before it is read. -/
structure RecordState.Agree (state : RecordState) (head head' : RecordHead) : Prop where
  type : head.type = head'.type
  length : state = .contentLengthLo ∨ state = .paddingLength ∨ state = .reserved →
    head.length = head'.length
  padding : state = .reserved → head.padding = head'.padding

def Alike (s s' : RecordState × RecordHead) : Prop := s.1 = s'.1 ∧ s.1.Agree s.2 s'.2

/-- One byte does not tell such heads apart. -/
theorem recordByte_rel (s s' : RecordState × RecordHead) (c : UInt8) (h : Alike s s') :
    Scan.Rel Alike (recordByte s c) (recordByte s' c) := by
  obtain ⟨state, type, length, padding⟩ := s
  obtain ⟨_, type', length', padding'⟩ := s'
  obtain ⟨rfl, htype, hlength, hpadding⟩ := h
  dsimp only at htype hlength hpadding
  subst htype
  cases state with
  | version | type | requestIdHi | requestIdLo =>
    simp only [recordByte]
    split_ifs
    · exact .again ⟨rfl, rfl, by simp, by simp⟩
    · exact .stop none
  | contentLengthHi => exact .again ⟨rfl, rfl, fun _ => rfl, by simp⟩
  | contentLengthLo =>
    obtain rfl : length = length' := hlength (.inl rfl)
    exact .again ⟨rfl, rfl, fun _ => rfl, by simp⟩
  | paddingLength =>
    obtain rfl : length = length' := hlength (.inr (.inl rfl))
    exact .again ⟨rfl, rfl, fun _ => rfl, fun _ => rfl⟩
  | reserved =>
    obtain rfl : length = length' := hlength (.inr (.inr rfl))
    obtain rfl : padding = padding' := hpadding rfl
    exact .stop _

section Verdict

variable {halfPage statusAlive : ℕ} {ctx ctx' : FastcgiCtx} {seen : List UInt8}

/-- Nor does a whole check. -/
theorem fastcgiVerdict_of_alike (statusAlive : ℕ) (h : RecvBuf.Received halfPage ctx.recv seen)
    (h' : RecvBuf.Received halfPage ctx'.recv seen)
    (halike : Alike (ctx.state, ctx.head) (ctx'.state, ctx'.head)) (pieces : List (List UInt8)) :
    fastcgiVerdict halfPage statusAlive ctx pieces =
      fastcgiVerdict halfPage statusAlive ctx' pieces := by
  induction pieces generalizing ctx ctx' seen with
  | nil => rfl
  | cons piece pieces ih =>
    have hrel := scanRest_rel recordByte_rel halike (seen ++ piece)
    generalize hscan : scanRest recordByte (ctx.state, ctx.head) (seen ++ piece) = first,
      hscan' : scanRest recordByte (ctx'.state, ctx'.head) (seen ++ piece) = second at hrel
    cases hrel with
    | @again s s' hnext =>
      obtain ⟨recv, hrecv, hverdict⟩ := verdict_of_again statusAlive ctx h hscan pieces
      obtain ⟨recv', hrecv', hverdict'⟩ := verdict_of_again statusAlive ctx' h' hscan' pieces
      rw [hverdict, hverdict']
      exact ih hrecv hrecv' hnext
    | stop result =>
      obtain ⟨head, rest⟩ := result
      cases head with
      | none => rw [verdict_of_error statusAlive h hscan, verdict_of_error statusAlive h' hscan']
      | some head => rw [verdict_of_head statusAlive h hscan, verdict_of_head statusAlive h' hscan']

/-- The context when a check begins. -/
structure FastcgiCtx.Fresh (halfPage : ℕ) (ctx : FastcgiCtx) : Prop where
  recv : RecvBuf.Received halfPage ctx.recv []
  state : ctx.state = .version
  type : ctx.head.type = 0

/-- Every check judges its answer as the first one does. -/
theorem FastcgiCtx.Fresh.verdict_eq (h : ctx.Fresh halfPage) (hpage : 0 < halfPage)
    (statusAlive : ℕ) (pieces : List (List UInt8)) :
    fastcgiVerdict halfPage statusAlive ctx pieces =
      fastcgiVerdict halfPage statusAlive {} pieces := by
  refine fastcgiVerdict_of_alike statusAlive h.recv (received_init hpage)
    ⟨h.state, h.type, ?_, ?_⟩ pieces
  · rw [h.state]
    simp
  · rw [h.state]
    simp

theorem FastcgiCode.parseCode_eq_again (undefined : ParseCode) {code : FastcgiCode}
    (h : code ≠ .crash) : code.parseCode undefined = .again ↔ code = .again := by
  cases code with
  | ok | again | error => simp [parseCode]
  | crash => exact absurd rfl h

theorem FastcgiCode.parseCode_eq_ok (undefined : ParseCode) {code : FastcgiCode}
    (h : code ≠ .crash) : code.parseCode undefined = .ok ↔ code = .ok := by
  cases code with
  | ok | again | error => simp [parseCode]
  | crash => exact absurd rfl h

theorem fastcgiVerdict_cons_of_again {piece : List UInt8}
    (h : (fastcgiReceive halfPage statusAlive ctx piece).1 = .again) (pieces : List (List UInt8)) :
    fastcgiVerdict halfPage statusAlive ctx (piece :: pieces) =
      fastcgiVerdict halfPage statusAlive
        (fastcgiReceive halfPage statusAlive ctx piece).2 pieces := by
  rw [fastcgiVerdict, h]

theorem fastcgiVerdict_cons_of_ne {piece : List UInt8}
    (h : (fastcgiReceive halfPage statusAlive ctx piece).1 ≠ .again) (pieces : List (List UInt8)) :
    fastcgiVerdict halfPage statusAlive ctx (piece :: pieces) =
      (fastcgiReceive halfPage statusAlive ctx piece).1 := by
  rw [fastcgiVerdict]
  cases hcode : (fastcgiReceive halfPage statusAlive ctx piece).1 with
  | again => exact absurd hcode h
  | ok | error | crash => rfl

/-- The handlers see the same answer. -/
theorem fastcgiProtocol_verdict_iff (undefined : ParseCode) {pieces : List (List UInt8)}
    (h : fastcgiVerdict halfPage statusAlive ctx pieces ≠ .crash) :
    ((fastcgiProtocol halfPage statusAlive undefined).verdict ctx pieces).getD false = true ↔
      fastcgiVerdict halfPage statusAlive ctx pieces = .ok := by
  induction pieces generalizing ctx with
  | nil => simp [Protocol.verdict, fastcgiVerdict]
  | cons piece pieces ih =>
    have hcode : ((fastcgiProtocol halfPage statusAlive undefined).receive ctx piece).code =
        (fastcgiReceive halfPage statusAlive ctx piece).1.parseCode undefined := rfl
    by_cases hagain : (fastcgiReceive halfPage statusAlive ctx piece).1 = .again
    · rw [fastcgiVerdict_cons_of_again hagain] at h ⊢
      rw [Protocol.verdict_cons_of_again (by rw [hcode, hagain]; rfl)]
      exact ih h
    · rw [fastcgiVerdict_cons_of_ne hagain] at h ⊢
      have hne := mt (FastcgiCode.parseCode_eq_again undefined h).mp hagain
      rw [Protocol.verdict_cons_of_ne (by rwa [hcode]), hcode, Option.getD_some, decide_eq_true_iff]
      exact FastcgiCode.parseCode_eq_ok undefined h

end Verdict

theorem afterRecord_recv (statusAlive : ℕ) (ctx : FastcgiCtx)
    (scan : Scan (RecordState × RecordHead) (Option RecordHead × List UInt8)) :
    (afterRecord statusAlive ctx scan).2.recv = ctx.recv := by
  rcases scan with ⟨state, head⟩ | ⟨_ | head, rest⟩ <;> rfl

theorem fastcgiProtocol_keeps {halfPage : ℕ} (h : 0 < halfPage) (statusAlive : ℕ)
    (undefined : ParseCode) :
    (fastcgiProtocol halfPage statusAlive undefined).Keeps
      (fun ctx => ∃ seen, RecvBuf.Received halfPage ctx.recv seen)
      (FastcgiCtx.Fresh halfPage) where
  init := ⟨received_init h, rfl, rfl⟩
  sound _ hfresh := ⟨[], hfresh.recv⟩
  receive ctx bytes := fun ⟨seen, hsound⟩ => by
    obtain ⟨recv, hrecv, hreceive⟩ := fastcgiReceive_of_received statusAlive hsound bytes
    refine ⟨seen ++ bytes, ?_⟩
    change RecvBuf.Received halfPage (fastcgiReceive halfPage statusAlive ctx bytes).2.recv _
    rw [hreceive, afterRecord_recv]
    exact hrecv
  reinit _ := fun ⟨_, hsound⟩ =>
    ⟨RecvBuf.received_reset (Nat.zero_lt_of_lt hsound.open_buf), rfl, rfl⟩
  failed ctx bytes allocated := fun ⟨_, hsound⟩ =>
    ⟨RecvBuf.received_reset (Nat.lt_of_lt_of_le (Nat.zero_lt_of_lt hsound.open_buf)
      (RecvBuf.size_le_collect halfPage ctx.recv bytes allocated)), rfl, rfl⟩

namespace Checker

variable {Pid : Type} [DecidableEq Pid]

/-- In whatever state a worker is: when it has sent the request of such a check, and the answer does
not make it read through a NULL pointer, the check reports a success if and only if the answer is
accepted when it comes in the same pieces to a context that nothing has been received in. -/
theorem fastcgi_reports_verdict {env : CheckSetup Pid FastcgiCtx} {halfPage statusAlive : ℕ}
    {undefined : ParseCode}
    (hprotocol : env.protocol = fastcgiProtocol halfPage statusAlive undefined)
    (hreceives : env.type.receives = true) (hpage : 0 < halfPage) {shm : SharedPeer Pid}
    {ops : List (CheckerOp Pid)} {event : CheckEvent} {c d : Checker Pid FastcgiCtx}
    (hc : ops.foldlM (handleOp env) (fresh shm) = some c) (hunsent : c.peer.state ≠ .sendDone)
    (hd : handle env c event = some d) (hsent : d.peer.state = .sendDone) (delivery : Delivery)
    (hcrash : fastcgiVerdict halfPage statusAlive {} delivery.pieces ≠ .crash) :
    ∃ e result, run env d delivery.events = some e ∧ e.reports = d.reports ++ [result] ∧
      (result = true ↔ fastcgiVerdict halfPage statusAlive {} delivery.pieces = .ok) := by
  have hp := hprotocol ▸ fastcgiProtocol_keeps hpage statusAlive undefined
  obtain ⟨data, e, -, hfresh, he, hreports⟩ :=
    reports_of_sent hp hreceives hc hunsent hd hsent delivery
  have hverdict := hfresh.verdict_eq hpage statusAlive delivery.pieces
  refine ⟨e, _, he, hreports, ?_⟩
  rw [← hverdict] at hcrash ⊢
  rw [hprotocol]
  exact fastcgiProtocol_verdict_iff undefined hcrash

/-- A check over FastCGI that expects a code of the class 2xx. -/
def fastcgiSetup : CheckSetup Bool FastcgiCtx where
  pid := true
  zone := .http
  type := ⟨true, true, true, false, false⟩
  known := Zone.closing_mem_checkTypes
  keepaliveRequests := 1
  sendLength := 40
  conf := CheckSystem.webConf
  protocol := fastcgiProtocol 2048 0x0002 .error

/-- The first piece of a failure ends in the header of the record. -/
def splitFailure : Delivery :=
  .untilTimeout
    [(3020, ⟨true, true, true, failedAnswer.take 5, .again⟩),
      (3025, ⟨true, true, true, failedAnswer.drop 5, .again⟩)] 3030 (by simp)

theorem fastcgi_reports_splitFailure :
    ∃ d, handle fastcgiSetup (fresh freshShm)
        (.timer 3000 true .ok { goodAnswer with sent := 40 }) = some d ∧
      ∃ e, run fastcgiSetup d splitFailure.events = some e ∧ e.reports = [true] := by
  have hc : List.foldlM (handleOp fastcgiSetup) (fresh freshShm) [] = some (fresh freshShm) := rfl
  obtain ⟨d, hd, hsent, hnone⟩ : ∃ d, handle fastcgiSetup (fresh freshShm)
      (.timer 3000 true .ok { goodAnswer with sent := 40 }) = some d ∧
      d.peer.state = .sendDone ∧ d.reports = [] := ⟨_, rfl, rfl, rfl⟩
  have hok : fastcgiVerdict 2048 0x0002 {} splitFailure.pieces = .ok := by decide +kernel
  obtain ⟨e, result, he, hreports, hiff⟩ :=
    fastcgi_reports_verdict rfl rfl (by decide) hc CheckState.noConfusion hd hsent splitFailure
      (by rw [hok]; exact FastcgiCode.noConfusion)
  rw [hnone, hiff.mpr hok] at hreports
  exact ⟨d, hd, e, he, hreports⟩

end Checker

end HealthCheck.Nginx
