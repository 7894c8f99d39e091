import HealthCheck.Nginx.HttpChecks

/-!
# Checks that look at the head of an answer

The check types `ssl_hello`, `mysql` and `ajp` wait until the answer has as many bytes as a fixed
head, and then look at some of them. They do not move the position in the buffer, so that it does no
harm to them when the position is set back: the result does not depend on the pieces in which the
answer comes.
-/

namespace HealthCheck.Nginx

/-- The check types of the http module that look at a head. -/
inductive HeadCheck where
  | sslHello
  | mysql
  | ajp

namespace HeadCheck

/-- The size of `ngx_ssl_server_hello_t`, of `ngx_mysql_handshake_init_t` and of
`ngx_ajp_cpong_packet`. -/
def size : HeadCheck → ℕ
  | .sslHello => 47
  | .mysql => 5
  | .ajp => 5

/-- `ngx_ajp_cpong_packet`. -/
def cpongPacket : List UInt8 := [0x41, 0x42, 0x00, 0x01, 0x09]

/-- What the functions compare: the fields `msg_type` and `handshake_type`, the `packet_number`, the
whole packet. -/
def accepts : HeadCheck → List UInt8 → Bool
  | .sslHello, answer => answer[0]? = some 0x16 ∧ answer[5]? = some 0x02
  | .mysql, answer => answer[3]? = some 0x00
  | .ajp, answer => answer.take 5 = cpongPacket

/-- `ngx_http_upstream_check_ssl_hello_parse`, `ngx_http_upstream_check_mysql_parse` and
`ngx_http_upstream_check_ajp_parse`. -/
def parse (check : HeadCheck) (buf : RecvBuf) : ParseCode :=
  if buf.data.length - buf.pos < check.size then .again
  else if check.accepts (buf.data.drop buf.pos) then .ok else .error

/-- The functions of such a check type. The three of them initialise their contexts alike. -/
def protocol (halfPage : ℕ) (check : HeadCheck) : Protocol (Option RecvBuf) where
  init := none
  recv := RecvBuf.collect halfPage
  parse ctx := ⟨check.parse (ctx.getD ⟨[], 0, halfPage⟩), false, ctx⟩
  reinit ctx := ctx.map RecvBuf.reset

/-- The answer is long enough, and its head is as it should be. -/
def Answers (check : HeadCheck) (answer : List UInt8) : Prop :=
  check.size ≤ answer.length ∧ check.accepts answer = true

variable {check : HeadCheck} {halfPage : ℕ} {ctx : Option RecvBuf} {seen : List UInt8}

/-- The check looks at the head only. -/
theorem accepts_append {answer : List UInt8} (h : check.size ≤ answer.length) (more : List UInt8) :
    check.accepts (answer ++ more) = check.accepts answer := by
  have hbyte : ∀ i, i < check.size → (answer ++ more)[i]? = answer[i]? := fun i hi =>
    List.getElem?_append_left (by omega)
  cases check with
  | sslHello => simp only [accepts, hbyte 0 (by decide), hbyte 5 (by decide)]
  | mysql => simp only [accepts, hbyte 3 (by decide)]
  | ajp => simp only [accepts, List.take_append_of_le_length (show 5 ≤ answer.length from h)]

theorem receive_of_received (h : RecvBuf.Received halfPage ctx seen) (check : HeadCheck)
    (piece : List UInt8) :
    RecvBuf.Received halfPage ((check.protocol halfPage).receive ctx piece).ctx (seen ++ piece) ∧
      ((check.protocol halfPage).receive ctx piece).code =
        if (seen ++ piece).length < check.size then .again
        else if check.accepts (seen ++ piece) then .ok else .error := by
  have hnext := h.fill piece
  refine ⟨hnext, ?_⟩
  change check.parse ((ctx.getD ⟨[], 0, halfPage⟩).fill piece) = _
  have hdata : ((ctx.getD ⟨[], 0, halfPage⟩).fill piece).data = seen ++ piece := hnext.data
  have hpos : ((ctx.getD ⟨[], 0, halfPage⟩).fill piece).pos = 0 := hnext.pos
  rw [parse, hdata, hpos, Nat.sub_zero, List.drop_zero]

/-- What becomes of an answer that comes in pieces, when its head has not come before. -/
theorem verdict_iff (h : RecvBuf.Received halfPage ctx seen) (hshort : seen.length < check.size)
    (pieces : List (List UInt8)) :
    ((check.protocol halfPage).verdict ctx pieces).getD false = true ↔
      check.Answers (seen ++ pieces.flatten) := by
  induction pieces generalizing ctx seen with
  | nil =>
    constructor
    · intro hverdict
      cases hverdict
    · intro hanswers
      have hsize := hanswers.1
      rw [List.flatten_nil, List.append_nil] at hsize
      omega
  | cons piece pieces ih =>
    obtain ⟨hnext, hcode⟩ := receive_of_received h check piece
    rw [List.flatten_cons, ← List.append_assoc]
    by_cases hhead : (seen ++ piece).length < check.size
    · rw [if_pos hhead] at hcode
      rw [Protocol.verdict_cons_of_again hcode]
      exact ih hnext hhead
    · rw [if_neg hhead] at hcode
      have hlong : check.size ≤ (seen ++ piece).length := Nat.le_of_not_lt hhead
      have hne : ((check.protocol halfPage).receive ctx piece).code ≠ .again := by
        rw [hcode]
        split_ifs <;> exact ParseCode.noConfusion
      rw [Protocol.verdict_cons_of_ne hne, hcode, Answers, accepts_append hlong, List.length_append]
      cases check.accepts (seen ++ piece) with
      | true => exact ⟨fun _ => ⟨by omega, rfl⟩, fun _ => rfl⟩
      | false => simp

theorem protocol_keeps (h : 0 < halfPage) (check : HeadCheck) :
    (check.protocol halfPage).Keeps (fun ctx => ∃ seen, RecvBuf.Received halfPage ctx seen)
      (fun ctx => RecvBuf.Received halfPage ctx []) where
  init := ⟨rfl, rfl, h⟩
  sound _ hfresh := ⟨[], hfresh⟩
  receive _ bytes := fun ⟨_, hsound⟩ => ⟨_, (receive_of_received hsound check bytes).1⟩
  reinit _ := fun ⟨_, hsound⟩ =>
    RecvBuf.received_reset (Nat.lt_of_le_of_lt (Nat.zero_le _) hsound.open_buf)
  failed ctx bytes allocated := fun ⟨_, hsound⟩ =>
    RecvBuf.received_reset (Nat.lt_of_lt_of_le (Nat.lt_of_le_of_lt (Nat.zero_le _) hsound.open_buf)
      (RecvBuf.size_le_collect halfPage ctx bytes allocated))

end HeadCheck

namespace Checker

variable {Pid : Type} [DecidableEq Pid]

/-- In whatever state a worker is: when it has sent the request of such a check, the check reports a
success if and only if an answer with the head comes in, in whatever pieces. -/
theorem head_reports_answer {env : CheckSetup Pid (Option RecvBuf)} {halfPage : ℕ}
    (check : HeadCheck) (hprotocol : env.protocol = check.protocol halfPage)
    (hreceives : env.type.receives = true) (hpage : 0 < halfPage) {shm : SharedPeer Pid}
    {ops : List (CheckerOp Pid)} {event : CheckEvent} {c d : Checker Pid (Option RecvBuf)}
    (hc : ops.foldlM (handleOp env) (fresh shm) = some c) (hunsent : c.peer.state ≠ .sendDone)
    (hd : handle env c event = some d) (hsent : d.peer.state = .sendDone) (delivery : Delivery) :
    ∃ e result, run env d delivery.events = some e ∧ e.reports = d.reports ++ [result] ∧
      (result = true ↔ check.Answers delivery.pieces.flatten) := by
  have hp := hprotocol ▸ check.protocol_keeps hpage
  obtain ⟨data, e, -, hfresh, he, hreports⟩ :=
    reports_of_sent hp hreceives hc hunsent hd hsent delivery
  refine ⟨e, _, he, hreports, ?_⟩
  rw [hprotocol]
  have hsize : ([] : List UInt8).length < check.size := by
    cases check <;> decide
  exact HeadCheck.verdict_iff hfresh hsize delivery.pieces

/-- A check of a database, which sends its greeting unasked. -/
def mysqlSetup : CheckSetup Bool (Option RecvBuf) where
  pid := true
  zone := .http
  type := ⟨true, true, true, false, false⟩
  known := Zone.closing_mem_checkTypes
  keepaliveRequests := 1
  sendLength := 0
  conf := CheckSystem.webConf
  protocol := HeadCheck.mysql.protocol 4

/-- A greeting in two pieces; the second one does not fit into the buffer. -/
def splitGreeting : Delivery :=
  .untilTimeout
    [(3020, ⟨true, true, true, [0x4a, 0x00], .again⟩),
      (3025, ⟨true, true, true, [0x00, 0x00, 0x0a, 0x38], .again⟩)] 3030 (by simp)

theorem mysql_reports_splitGreeting :
    ∃ d, handle mysqlSetup (fresh freshShm) (.timer 3000 true .ok goodAnswer) = some d ∧
      ∃ e, run mysqlSetup d splitGreeting.events = some e ∧ e.reports = [true] := by
  have hc : List.foldlM (handleOp mysqlSetup) (fresh freshShm) [] = some (fresh freshShm) := rfl
  obtain ⟨d, hd, hsent, hnone⟩ : ∃ d, handle mysqlSetup (fresh freshShm)
      (.timer 3000 true .ok goodAnswer) = some d ∧ d.peer.state = .sendDone ∧ d.reports = [] :=
    ⟨_, rfl, rfl, rfl⟩
  obtain ⟨e, result, he, hreports, hiff⟩ :=
    head_reports_answer .mysql rfl rfl (by decide) hc CheckState.noConfusion hd hsent splitGreeting
  have hanswers : HeadCheck.mysql.Answers splitGreeting.pieces.flatten := by
    constructor <;> decide
  rw [hnone, hiff.mpr hanswers] at hreports
  exact ⟨d, hd, e, he, hreports⟩

end Checker

end HealthCheck.Nginx
