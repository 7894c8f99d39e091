import HealthCheck.Nginx.Segments

/-!
# Answers over FastCGI

The check type `fastcgi` reads the header of one record and then takes the content for the lines of
a CGI response, in which it looks for a status. It needs the whole content, and more, when the
header is complete; the header itself must come in one piece, as the position in the buffer is not
moved along with the state. The lines are read to the end of the content, whether they belong to the
header or to the body of the response.
-/

namespace HealthCheck.Nginx

open Scanner

/-! ### The header of a record -/

/-- `ngx_http_fastcgi_state_e`, as far as the header of a record is concerned. -/
inductive RecordState where
  | version
  | type
  | requestIdHi
  | requestIdLo
  | contentLengthHi
  | contentLengthLo
  | paddingLength
  | reserved
  deriving DecidableEq

/-- `ctx->status.code`, `ctx->length` and `ctx->padding`. -/
structure RecordHead where
  type : UInt8 := 0
  length : ℕ := 0
  padding : ℕ := 0
  deriving DecidableEq

/-- The types of the records that a server sends. -/
def fastcgiStdout : UInt8 := 6

@[inherit_doc fastcgiStdout]
def fastcgiStderr : UInt8 := 7

@[inherit_doc fastcgiStdout]
def fastcgiEndRequest : UInt8 := 3

/-- One byte in `ngx_http_upstream_check_fastcgi_process_record`; the result is none for
`NGX_ERROR`. -/
def recordByte :
    RecordState × RecordHead → UInt8 → Scan (RecordState × RecordHead) (Option RecordHead)
  | (.version, head), c => if c = 1 then .again (.type, head) else .stop none
  | (.type, head), c =>
    if c = fastcgiStdout ∨ c = fastcgiStderr ∨ c = fastcgiEndRequest then
      .again (.requestIdHi, { head with type := c })
    else .stop none
  | (.requestIdHi, head), c => if c = 0 then .again (.requestIdLo, head) else .stop none
  | (.requestIdLo, head), c => if c = 1 then .again (.contentLengthHi, head) else .stop none
  | (.contentLengthHi, head), c => .again (.contentLengthLo, { head with length := c.toNat <<< 8 })
  | (.contentLengthLo, head), c =>
    .again (.paddingLength, { head with length := head.length ||| c.toNat })
  | (.paddingLength, head), c => .again (.reserved, { head with padding := c.toNat })
  | (.reserved, head), _ => .stop (some head)

/-! ### The lines of a response -/

/-- The states of `ngx_http_upstream_check_parse_fastcgi_status`. -/
inductive HeaderState where
  | start
  | name
  | spaceBeforeValue
  | value
  | spaceAfterValue
  | ignoreLine
  | almostDone
  | headerAlmostDone
  deriving DecidableEq

/-- The local variables: the bytes from `name_s` on, with none for NULL; whether the header has been
found; the digits of its value and their number. -/
structure HeaderScan where
  state : HeaderState := .start
  name : Option (List UInt8) := none
  find : Bool := false
  code : ℕ := 0
  count : ℕ := 0
  deriving DecidableEq

/-- What ends the reading of the lines: a status (`NGX_DONE`), an error, or the dereference of the
pointer `name_s` when it is NULL. -/
inductive HeaderResult where
  | status (code : ℕ)
  | error
  | crash
  deriving DecidableEq

/-- The bytes with an entry in the table `lowcase`. -/
def isNameByte (c : UInt8) : Bool :=
  c = '-'.toUInt8 || ('0'.toUInt8 ≤ c && c ≤ '9'.toUInt8) || ('A'.toUInt8 ≤ c && c ≤ 'Z'.toUInt8) ||
    ('a'.toUInt8 ≤ c && c ≤ 'z'.toUInt8)

/-- The case of a letter in `ngx_strncasecmp`. -/
def lowerByte (c : UInt8) : UInt8 := if 'A'.toUInt8 ≤ c ∧ c ≤ 'Z'.toUInt8 then c ||| 0x20 else c

/-- `ngx_strncasecmp` returns 0, for as many bytes as the first list has; the second one is
terminated by a zero. -/
def strncaseEq : List UInt8 → List UInt8 → Bool
  | [], _ => true
  | c :: _, [] => c = 0
  | c :: cs, d :: ds => lowerByte c = lowerByte d && strncaseEq cs ds

/-- The name that is looked for. -/
def statusName : List UInt8 := "status".toUTF8.data.toList

/-- One byte in `ngx_http_upstream_check_parse_fastcgi_status`. The result is none when the function
returns `NGX_OK` at the end of a line, to be called again for the next one. -/
def headerByte (s : HeaderScan) (c : UInt8) : Scan HeaderScan (Option HeaderResult) :=
  let passed := { s with name := s.name.map fun name => name ++ [c] }
  match s.state with
  | .start =>
    if c = crByte then .again { passed with state := .headerAlmostDone }
    else if c = lfByte then .stop none
    else if isNameByte c then .again { passed with state := .name, name := some [c] }
    else if c = 0 then .stop (some .error)
    else .again { passed with state := .name }
  | .name =>
    if isNameByte c then .again passed
    else if c = ':'.toUInt8 then
      match s.name with
      | none => .stop (some .crash)
      | some name => .again { passed with
          state := .spaceBeforeValue, find := s.find || strncaseEq name statusName }
    else if c = crByte then .again { passed with state := .almostDone }
    else if c = lfByte then .stop none
    else if c = 0 then .stop (some .error)
    else .again passed
  | .spaceBeforeValue =>
    if c = space then .again passed
    else if c = crByte then .again { passed with state := .almostDone }
    else if c = lfByte then .stop none
    else if c = 0 then .stop (some .error)
    else if s.find then
      if IsDigitFrom '1' c ∧ s.count = 0 then
        .again { passed with
          state := .value, code := s.code * 10 + digitValue c, count := s.count + 1 }
      else .stop (some .error)
    else .again { passed with state := .value }
  | .value =>
    if s.find then
      if IsDigitFrom '0' c then
        if s.count + 1 = 3 then .stop (some (.status (s.code * 10 + digitValue c)))
        else .again { passed with code := s.code * 10 + digitValue c, count := s.count + 1 }
      else .stop (some .error)
    else if c = space then .again { passed with state := .spaceAfterValue }
    else if c = crByte then .again { passed with state := .almostDone }
    else if c = lfByte then .stop none
    else if c = 0 then .stop (some .error)
    else .again passed
  | .spaceAfterValue =>
    if c = space then .again passed
    else if c = crByte then .again { passed with state := .almostDone }
    -- the line ends, but the function goes on with what it knows of this one
    else if c = lfByte then .again { passed with state := .start }
    else if c = 0 then .stop (some .error)
    else .again { passed with state := .value }
  | .ignoreLine => if c = lfByte then .again { passed with state := .start } else .again passed
  | .almostDone =>
    if c = lfByte then .stop none
    else if c = crByte then .again passed
    else .stop (some .error)
  | .headerAlmostDone => if c = lfByte then .stop none else .stop (some .error)

/-- The loop around `ngx_http_upstream_check_parse_fastcgi_status`: it is called for one line after
the other until it returns something else than `NGX_OK`. -/
def readLines (content : List UInt8) : Scan HeaderScan HeaderResult :=
  scan (restart headerByte {}) {} content

/-! ### The answer -/

/-- What `ngx_http_upstream_check_fastcgi_parse` returns, if it returns. -/
inductive FastcgiCode where
  | ok
  | again
  | error
  | crash
  deriving DecidableEq

/-- `ngx_http_upstream_check_ctx_t`, as far as the answer is concerned. -/
structure FastcgiCtx where
  recv : Option RecvBuf := none
  state : RecordState := .version
  head : RecordHead := {}
  deriving DecidableEq

/-- The second half of `ngx_http_upstream_check_fastcgi_parse`, once the content is there. -/
def judgeContent (statusAlive : ℕ) (content : List UInt8) : FastcgiCode :=
  match readLines content with
  | .again _ => .ok
  | .stop (.status code) =>
    if statusAlive = 0 ∨ codeMask code &&& statusAlive ≠ 0 then .ok else .error
  | .stop .error => .error
  | .stop .crash => .crash

/-- `ngx_http_upstream_check_fastcgi_parse` behind the header. -/
def judgeRecord (statusAlive : ℕ) (head : RecordHead) (rest : List UInt8) : FastcgiCode :=
  if head.type ≠ fastcgiStdout ∧ head.type ≠ fastcgiStderr then .error
  else if head.type = fastcgiStdout ∧ head.length = 0 then .error
  else if head.type = fastcgiStderr then .error
  else if head.length < rest.length then judgeContent statusAlive (rest.take head.length)
  else .error

/-- `ngx_http_upstream_check_fastcgi_parse` when `ngx_http_upstream_check_fastcgi_process_record`
has returned. After a result nothing reads the state, the type and the buffer until they are
initialised again, and so the state `ngx_http_fastcgi_st_padding` is never met. -/
def afterRecord (statusAlive : ℕ) (ctx : FastcgiCtx) :
    Scan (RecordState × RecordHead) (Option RecordHead × List UInt8) → FastcgiCode × FastcgiCtx
  | .again (state, head) => (.again, { ctx with state, head })
  | .stop (none, _) => (.error, ctx)
  | .stop (some head, rest) => (judgeRecord statusAlive head rest, { ctx with head })

/-- `ngx_http_upstream_check_fastcgi_parse`. -/
def fastcgiParse (statusAlive : ℕ) (ctx : FastcgiCtx) (buf : RecvBuf) : FastcgiCode × FastcgiCtx :=
  if buf.pos < buf.data.length then
    afterRecord statusAlive { ctx with recv := some buf }
      (scanRest recordByte (ctx.state, ctx.head) (buf.data.drop buf.pos))
  else (.again, { ctx with recv := some buf })

/-- What `recv_handler` does with a piece of the answer. -/
def fastcgiReceive (halfPage statusAlive : ℕ) (ctx : FastcgiCtx) (piece : List UInt8) :
    FastcgiCode × FastcgiCtx :=
  fastcgiParse statusAlive ctx ((ctx.recv.getD ⟨[], 0, halfPage⟩).fill piece)

/-- What a check makes of an answer that comes in the given pieces: the first result that is not
`NGX_AGAIN`. -/
def fastcgiVerdict (halfPage statusAlive : ℕ) (ctx : FastcgiCtx) : List (List UInt8) → FastcgiCode
  | [] => .again
  | piece :: pieces =>
    match (fastcgiReceive halfPage statusAlive ctx piece).1 with
    | .again =>
      fastcgiVerdict halfPage statusAlive (fastcgiReceive halfPage statusAlive ctx piece).2 pieces
    | code => code

/-! ### Bytes that no line can contain -/

/-- What a byte can do in a state that is met: `sw_ignore_line` is not. -/
inductive HeaderOutcome (s : HeaderScan) : Scan HeaderScan (Option HeaderResult) → Prop where
  | line : HeaderOutcome s (.stop none)
  | error : HeaderOutcome s (.stop (some .error))
  | crash : HeaderOutcome s (.stop (some .crash))
  | status {code : ℕ} (find : s.find = true) (count : s.count = 2) :
      HeaderOutcome s (.stop (some (.status code)))
  | goOn {s' : HeaderScan} (state : s'.state ≠ .ignoreLine) (find : s'.find = s.find)
      (count : s'.count = s.count) : HeaderOutcome s (.again s')
  | named {s' : HeaderScan} (name : s.state = .name) (state : s'.state = .spaceBeforeValue)
      (count : s'.count = s.count) : HeaderOutcome s (.again s')
  | digit {s' : HeaderScan} (find : s.find = true) (state : s'.state = .value)
      (count : s'.count = s.count + 1) : HeaderOutcome s (.again s')

theorem headerByte_outcome {s : HeaderScan} (h : s.state ≠ .ignoreLine) (c : UInt8) :
    HeaderOutcome s (headerByte s c) := by
  obtain ⟨state, name, find, code, count⟩ := s
  have hgoOn : ∀ state' name', state' ≠ .ignoreLine →
      HeaderOutcome ⟨state, name, find, code, count⟩ (.again ⟨state', name', find, code, count⟩) :=
    fun _ _ hstate => .goOn hstate rfl rfl
  cases state with
  | start =>
    simp only [headerByte]
    split_ifs
    · exact hgoOn _ _ HeaderState.noConfusion
    · exact .line
    · exact hgoOn _ _ HeaderState.noConfusion
    · exact .error
    · exact hgoOn _ _ HeaderState.noConfusion
  | name =>
    simp only [headerByte]
    split_ifs
    · exact hgoOn _ _ HeaderState.noConfusion
    · cases name with
      | none => exact .crash
      | some name => exact .named rfl rfl rfl
    · exact hgoOn _ _ HeaderState.noConfusion
    · exact .line
    · exact .error
    · exact hgoOn _ _ HeaderState.noConfusion
  | spaceBeforeValue =>
    simp only [headerByte]
    split_ifs with _ _ _ _ hfind
    · exact hgoOn _ _ HeaderState.noConfusion
    · exact hgoOn _ _ HeaderState.noConfusion
    · exact .line
    · exact .error
    · exact .digit hfind rfl rfl
    · exact .error
    · exact hgoOn _ _ HeaderState.noConfusion
  | value =>
    simp only [headerByte]
    split_ifs with hfind _ hcount
    · exact .status hfind (by simpa using hcount)
    · exact .digit hfind rfl rfl
    · exact .error
    · exact hgoOn _ _ HeaderState.noConfusion
    · exact hgoOn _ _ HeaderState.noConfusion
    · exact .line
    · exact .error
    · exact hgoOn _ _ HeaderState.noConfusion
  | spaceAfterValue =>
    simp only [headerByte]
    split_ifs
    · exact hgoOn _ _ HeaderState.noConfusion
    · exact hgoOn _ _ HeaderState.noConfusion
    · exact hgoOn _ _ HeaderState.noConfusion
    · exact .error
    · exact hgoOn _ _ HeaderState.noConfusion
  | ignoreLine => exact absurd rfl h
  | almostDone =>
    simp only [headerByte]
    split_ifs
    · exact .line
    · exact hgoOn _ _ HeaderState.noConfusion
    · exact .error
  | headerAlmostDone =>
    simp only [headerByte]
    split_ifs
    · exact .line
    · exact .error

/-- No line contains a zero. -/
theorem headerByte_zero {s : HeaderScan} (h : s.state ≠ .ignoreLine) :
    headerByte s 0 = .stop (some .error) := by
  obtain ⟨state, name, find, code, count⟩ := s
  cases state with
  | start | name | spaceBeforeValue | spaceAfterValue | almostDone | headerAlmostDone => rfl
  | value => cases find <;> rfl
  | ignoreLine => exact absurd rfl h

/-- After few bytes there is no status yet. -/
structure Early (n : ℕ) (s : HeaderScan) : Prop where
  state : s.state ≠ .ignoreLine
  name : s.state = .name → 1 ≤ n
  find : s.find = true → 2 ≤ n
  count : s.count = 0 ∨ s.count + 2 ≤ n

theorem early_init (n : ℕ) : Early n {} where
  state := HeaderState.noConfusion
  name := HeaderState.noConfusion
  find := Bool.noConfusion
  count := .inl rfl

theorem Early.step {n : ℕ} {s s' : HeaderScan} {c : UInt8} (h : Early n s)
    (hs' : headerByte s c = .again s') : Early (n + 1) s' := by
  have houtcome := hs' ▸ headerByte_outcome h.state c
  cases houtcome with
  | goOn hstate hfind hcount =>
    refine ⟨hstate, fun _ => Nat.le_add_left 1 n, fun hfound => ?_, ?_⟩
    · exact Nat.le_succ_of_le (h.find (hfind ▸ hfound))
    · rw [hcount]
      exact h.count.imp_right Nat.le_succ_of_le
  | named hname hstate hcount =>
    have hn := h.name hname
    refine ⟨?_, fun _ => Nat.le_add_left 1 n, fun _ => by omega, ?_⟩
    · rw [hstate]
      exact HeaderState.noConfusion
    · rw [hcount]
      exact h.count.imp_right Nat.le_succ_of_le
  | digit hfound hstate hcount =>
    have hn := h.find hfound
    refine ⟨?_, fun _ => Nat.le_add_left 1 n, fun _ => by omega, ?_⟩
    · rw [hstate]
      exact HeaderState.noConfusion
    · rcases h.count with hzero | hmore <;> omega

/-- A zero among the first five bytes ends the reading without a status. -/
theorem scan_of_zero {pre : List UInt8} (post : List UInt8) {n : ℕ} {s : HeaderScan}
    (h : Early n s) (hpre : n + pre.length ≤ 4) :
    scan (restart headerByte {}) s (pre ++ 0 :: post) = .stop .error ∨
      scan (restart headerByte {}) s (pre ++ 0 :: post) = .stop .crash := by
  induction pre generalizing n s with
  | nil =>
    refine .inl (scan_cons_stop ?_)
    rw [restart, headerByte_zero h.state]
  | cons c pre ih =>
    rw [List.length_cons] at hpre
    cases hbyte : headerByte s c with
    | again s' =>
      have hrestart : restart headerByte {} s c = .again s' := by
        rw [restart, hbyte]
      rw [List.cons_append, scan_cons_again hrestart]
      exact ih (h.step hbyte) (by omega)
    | stop r =>
      have houtcome := hbyte ▸ headerByte_outcome h.state c
      cases houtcome with
      | line =>
        have hrestart : restart headerByte {} s c = .again {} := by
          rw [restart, hbyte]
        rw [List.cons_append, scan_cons_again hrestart]
        exact ih (early_init (n + 1)) (by omega)
      | error => exact .inl (scan_cons_stop (by rw [restart, hbyte]))
      | crash => exact .inr (scan_cons_stop (by rw [restart, hbyte]))
      | status _ hcount =>
        rcases h.count with hzero | hmore <;> omega

theorem judgeContent_of_zero (statusAlive : ℕ) {pre : List UInt8} (hpre : pre.length ≤ 4)
    (post : List UInt8) : judgeContent statusAlive (pre ++ 0 :: post) ≠ .ok := by
  rw [judgeContent, readLines]
  rcases scan_of_zero post (early_init 0) (by omega : 0 + pre.length ≤ 4) with hscan | hscan
  · rw [hscan]
    exact FastcgiCode.noConfusion
  · rw [hscan]
    exact FastcgiCode.noConfusion

/-! ### Answers in pieces -/

section Pieces

variable {halfPage statusAlive : ℕ} {ctx : FastcgiCtx} {seen piece : List UInt8}

theorem judgeContent_ne_again (statusAlive : ℕ) (content : List UInt8) :
    judgeContent statusAlive content ≠ .again := by
  rw [judgeContent]
  cases readLines content with
  | again s => exact FastcgiCode.noConfusion
  | stop r =>
    cases r with
    | status code =>
      dsimp only
      split_ifs <;> exact FastcgiCode.noConfusion
    | error => exact FastcgiCode.noConfusion
    | crash => exact FastcgiCode.noConfusion

theorem judgeRecord_ne_again (statusAlive : ℕ) (head : RecordHead) (rest : List UInt8) :
    judgeRecord statusAlive head rest ≠ .again := by
  rw [judgeRecord]
  split_ifs
  · exact FastcgiCode.noConfusion
  · exact FastcgiCode.noConfusion
  · exact FastcgiCode.noConfusion
  · exact judgeContent_ne_again _ _
  · exact FastcgiCode.noConfusion

/-- The content is judged when it has come, and more. -/
theorem judgeRecord_of_lt (statusAlive : ℕ) {length : ℕ} (padding : ℕ) {rest : List UInt8}
    (hpos : 0 < length) (hlength : length < rest.length) :
    judgeRecord statusAlive ⟨fastcgiStdout, length, padding⟩ rest =
      judgeContent statusAlive (rest.take length) := by
  have hstderr : fastcgiStdout ≠ fastcgiStderr := by decide
  simp [judgeRecord, hstderr, hpos.ne', hlength]

/-- The record of an answer. -/
theorem judgeRecord_stdout (statusAlive length padding : ℕ) (rest : List UInt8) :
    judgeRecord statusAlive ⟨fastcgiStdout, length, padding⟩ rest = .ok ↔
      0 < length ∧ length < rest.length ∧ judgeContent statusAlive (rest.take length) = .ok := by
  by_cases hzero : length = 0
  · simp [judgeRecord, hzero]
  · have hpos := Nat.pos_of_ne_zero hzero
    by_cases hlength : length < rest.length
    · rw [judgeRecord_of_lt statusAlive padding hpos hlength]
      simp [hpos, hlength]
    · simp [judgeRecord, hzero, hlength]

theorem received_init (hpage : 0 < halfPage) :
    RecvBuf.Received halfPage ({} : FastcgiCtx).recv [] := ⟨rfl, rfl, hpage⟩

/-- The parser reads all the bytes that have come, also when there are none. -/
theorem fastcgiReceive_of_received (statusAlive : ℕ) (h : RecvBuf.Received halfPage ctx.recv seen)
    (piece : List UInt8) :
    ∃ recv, RecvBuf.Received halfPage recv (seen ++ piece) ∧
      fastcgiReceive halfPage statusAlive ctx piece =
        afterRecord statusAlive { ctx with recv := recv }
          (scanRest recordByte (ctx.state, ctx.head) (seen ++ piece)) := by
  have hnext := h.fill piece
  refine ⟨_, hnext, ?_⟩
  have hdata : ((ctx.recv.getD ⟨[], 0, halfPage⟩).fill piece).data = seen ++ piece := hnext.data
  have hpos : ((ctx.recv.getD ⟨[], 0, halfPage⟩).fill piece).pos = 0 := hnext.pos
  rw [fastcgiReceive, fastcgiParse, hdata, hpos, List.drop_zero]
  by_cases hnil : seen ++ piece = []
  · rw [hnil, List.length_nil, if_neg (Nat.lt_irrefl 0)]
    rfl
  · rw [if_pos (List.length_pos_of_ne_nil hnil)]

theorem verdict_of_head (statusAlive : ℕ) (h : RecvBuf.Received halfPage ctx.recv seen)
    {head : RecordHead} {rest : List UInt8}
    (hscan : scanRest recordByte (ctx.state, ctx.head) (seen ++ piece) = .stop (some head, rest))
    (pieces : List (List UInt8)) :
    fastcgiVerdict halfPage statusAlive ctx (piece :: pieces) =
      judgeRecord statusAlive head rest := by
  obtain ⟨recv, -, hreceive⟩ := fastcgiReceive_of_received statusAlive h piece
  rw [fastcgiVerdict, hreceive, hscan, afterRecord]
  cases hjudge : judgeRecord statusAlive head rest with
  | again => exact absurd hjudge (judgeRecord_ne_again _ _ _)
  | ok | error | crash => rfl

theorem verdict_of_error (statusAlive : ℕ) (h : RecvBuf.Received halfPage ctx.recv seen)
    {rest : List UInt8}
    (hscan : scanRest recordByte (ctx.state, ctx.head) (seen ++ piece) = .stop (none, rest))
    (pieces : List (List UInt8)) :
    fastcgiVerdict halfPage statusAlive ctx (piece :: pieces) = .error := by
  obtain ⟨recv, -, hreceive⟩ := fastcgiReceive_of_received statusAlive h piece
  rw [fastcgiVerdict, hreceive, hscan, afterRecord]

/-- Without a result the state has moved on, but the position has not. -/
theorem verdict_of_again (statusAlive : ℕ) (ctx : FastcgiCtx)
    (h : RecvBuf.Received halfPage ctx.recv seen) {state : RecordState} {head : RecordHead}
    (hscan : scanRest recordByte (ctx.state, ctx.head) (seen ++ piece) = .again (state, head))
    (pieces : List (List UInt8)) :
    ∃ recv, RecvBuf.Received halfPage recv (seen ++ piece) ∧
      fastcgiVerdict halfPage statusAlive ctx (piece :: pieces) =
        fastcgiVerdict halfPage statusAlive ⟨recv, state, head⟩ pieces := by
  obtain ⟨recv, hrecv, hreceive⟩ := fastcgiReceive_of_received statusAlive h piece
  refine ⟨recv, hrecv, ?_⟩
  rw [fastcgiVerdict, hreceive, hscan, afterRecord]

/-- The header of a record with an answer. -/
def stdoutHead (hi lo padding : UInt8) : List UInt8 := [1, fastcgiStdout, 0, 1, hi, lo, padding, 0]

/-- The length of the content. -/
def contentLength (hi lo : UInt8) : ℕ := hi.toNat <<< 8 ||| lo.toNat

theorem scan_stdoutHead (hi lo padding : UInt8) (rest : List UInt8) :
    scanRest recordByte (.version, {}) (stdoutHead hi lo padding ++ rest) =
      .stop (some ⟨fastcgiStdout, contentLength hi lo, padding.toNat⟩, rest) := rfl

/-- A record whose content would have a zero among its first five bytes. -/
theorem judgeRecord_of_zero (statusAlive : ℕ) {length padding : ℕ} {pre : List UInt8}
    (hpre : pre.length ≤ 4) (hlength : pre.length < length) (post : List UInt8) :
    judgeRecord statusAlive ⟨fastcgiStdout, length, padding⟩ (pre ++ 0 :: post) ≠ .ok := by
  intro hok
  obtain ⟨-, -, hcontent⟩ := (judgeRecord_stdout ..).mp hok
  obtain ⟨more, rfl⟩ : ∃ more, length = pre.length + (more + 1) :=
    ⟨length - pre.length - 1, by omega⟩
  rw [List.take_length_add_append, List.take_succ_cons] at hcontent
  exact judgeContent_of_zero statusAlive hpre _ hcontent

/-- The header comes with the first piece, and so that piece decides. -/
theorem verdict_of_whole_head (statusAlive : ℕ) (hpage : 0 < halfPage) (hi lo padding : UInt8)
    (rest : List UInt8) (pieces : List (List UInt8)) :
    fastcgiVerdict halfPage statusAlive {} ((stdoutHead hi lo padding ++ rest) :: pieces) =
      judgeRecord statusAlive ⟨fastcgiStdout, contentLength hi lo, padding.toNat⟩ rest :=
  verdict_of_head statusAlive (received_init hpage) (scan_stdoutHead hi lo padding rest) pieces

/-- What has come of the header is read again together with the second piece. -/
theorem verdict_reread (statusAlive : ℕ) (hpage : 0 < halfPage) {first second rest : List UInt8}
    {state : RecordState} {head : RecordHead} {result : Option RecordHead}
    (hagain : scanRest recordByte (.version, {}) first = .again (state, head))
    (hresult : scanRest recordByte (state, head) (first ++ second) = .stop (result, rest))
    (pieces : List (List UInt8)) :
    fastcgiVerdict halfPage statusAlive {} (first :: second :: pieces) =
      result.elim .error fun head' => judgeRecord statusAlive head' rest := by
  obtain ⟨recv, hrecv, hverdict⟩ :=
    verdict_of_again statusAlive {} (received_init hpage) hagain (second :: pieces)
  rw [hverdict]
  cases result with
  | none => exact verdict_of_error statusAlive hrecv hresult pieces
  | some head' => exact verdict_of_head statusAlive hrecv hresult pieces

/-- The same for bytes that have come of such a content. -/
theorem judgeRecord_of_append (statusAlive : ℕ) {length padding : ℕ} {pre post rest ys : List UInt8}
    (hpre : pre.length ≤ 4) (hlength : pre.length < length) (h : rest ++ ys = pre ++ 0 :: post) :
    judgeRecord statusAlive ⟨fastcgiStdout, length, padding⟩ rest ≠ .ok := by
  intro hok
  obtain ⟨-, hlong, -⟩ := (judgeRecord_stdout ..).mp hok
  have hwhole : pre ++ [0] <+: rest ++ ys := by
    rw [h]
    exact ⟨post, by simp⟩
  have hle : (pre ++ [0]).length ≤ rest.length := by
    rw [List.length_append, List.length_singleton]
    omega
  obtain ⟨zs, rfl⟩ := List.prefix_of_prefix_length_le hwhole (List.prefix_append _ _) hle
  rw [List.append_assoc] at hok
  exact judgeRecord_of_zero statusAlive hpre hlength _ hok

/-- Three bytes of the header come first, and the fourth alone after them: together they do not
complete the header, and so the third piece is read behind them. -/
theorem not_ok_of_three_one (statusAlive : ℕ) (hpage : 0 < halfPage) (third : List UInt8)
    (pieces : List (List UInt8)) :
    fastcgiVerdict halfPage statusAlive {} ([1, fastcgiStdout, 0] :: [1] :: third :: pieces) ≠
      .ok := by
  have hfirst : scanRest recordByte (.version, {}) [1, fastcgiStdout, 0] =
      .again (.requestIdLo, ⟨fastcgiStdout, 0, 0⟩) := rfl
  have hsecond : scanRest recordByte (.requestIdLo, ⟨fastcgiStdout, 0, 0⟩)
      ([1, fastcgiStdout, 0] ++ [1]) = .again (.reserved, ⟨fastcgiStdout, 1536, 1⟩) := rfl
  have hthird : scanRest recordByte (.reserved, ⟨fastcgiStdout, 1536, 1⟩)
      ([1, fastcgiStdout, 0] ++ [1] ++ third) =
        .stop (some ⟨fastcgiStdout, 1536, 1⟩, [fastcgiStdout] ++ 0 :: 1 :: third) := rfl
  obtain ⟨recv, hrecv, hverdict⟩ :=
    verdict_of_again statusAlive {} (received_init hpage) hfirst ([1] :: third :: pieces)
  obtain ⟨recv', hrecv', hverdict'⟩ :=
    verdict_of_again statusAlive ⟨recv, .requestIdLo, ⟨fastcgiStdout, 0, 0⟩⟩ hrecv hsecond
      (third :: pieces)
  rw [hverdict, hverdict', verdict_of_head statusAlive hrecv' hthird]
  exact judgeRecord_of_zero statusAlive (by simp) (by simp) _

/-- Five bytes of the header come first: the next reading takes its first byte for the second one of
the length. -/
theorem judgeRecord_after_five (statusAlive : ℕ) {hi lo padding : UInt8}
    {second ys more : List UInt8}
    (hrest : second ++ ys = lo :: padding :: 0 :: more) :
    judgeRecord statusAlive ⟨fastcgiStdout, hi.toNat <<< 8 ||| 1, 6⟩ (1 :: hi :: second) = .ok ↔
      hi = 0 := by
  constructor
  · intro hok
    by_contra hne
    have hcontent : (1 :: hi :: second) ++ ys = [1, hi, lo, padding] ++ 0 :: more := by
      rw [List.cons_append, List.cons_append, hrest]
      rfl
    have hlength : 4 < hi.toNat <<< 8 ||| 1 := by
      have hpos : 0 < hi.toNat := Nat.pos_of_ne_zero fun hzero => hne (UInt8.toNat_inj.mp hzero)
      have hle : hi.toNat <<< 8 ≤ hi.toNat <<< 8 ||| 1 := Nat.left_le_or
      rw [Nat.shiftLeft_eq] at hle ⊢
      omega
    exact judgeRecord_of_append statusAlive (by simp) hlength hcontent hok
  · rintro rfl
    have hlong : 1 < second.length + 2 := by omega
    exact (judgeRecord_stdout ..).mpr ⟨by decide, hlong, rfl⟩

/-- Seven bytes of the header come first: the next reading takes its second byte for the content. -/
theorem judgeRecord_after_seven (statusAlive : ℕ) {length padding : ℕ} (post : List UInt8) :
    judgeRecord statusAlive ⟨fastcgiStdout, length, padding⟩ (fastcgiStdout :: 0 :: post) = .ok ↔
      length = 1 := by
  constructor
  · intro hok
    obtain ⟨hpos, -, -⟩ := (judgeRecord_stdout ..).mp hok
    by_contra hne
    have hlength : 1 < length := by omega
    exact judgeRecord_of_zero statusAlive (show [fastcgiStdout].length ≤ 4 by decide) hlength _ hok
  · rintro rfl
    exact (judgeRecord_stdout ..).mpr ⟨Nat.one_pos, by simp, rfl⟩

/-- The header comes in two pieces or more: the content does not matter. -/
theorem ok_of_split_head (statusAlive : ℕ) (hpage : 0 < halfPage) {hi lo padding : UInt8}
    {more first second : List UInt8} {pieces : List (List UInt8)} (hfirst : first ≠ [])
    (hsecond : second ≠ []) (hshort : first.length < 8)
    (hanswer : first ++ (second ++ pieces.flatten) = stdoutHead hi lo padding ++ more) :
    fastcgiVerdict halfPage statusAlive {} (first :: second :: pieces) = .ok ↔
      first.length = 5 ∧ hi = 0 ∨ first.length = 7 ∧ contentLength hi lo = 1 := by
  -- the state has moved on by as many bytes as have come, and reads the header from its first byte
  rcases first with _ | ⟨b₀, _ | ⟨b₁, _ | ⟨b₂, _ | ⟨b₃, _ | ⟨b₄, _ | ⟨b₅, _ | ⟨b₆, tail⟩⟩⟩⟩⟩⟩⟩
  · exact absurd rfl hfirst
  all_goals simp only [stdoutHead, List.cons_append, List.nil_append, List.cons.injEq] at hanswer
  · -- the first byte of the header is read as a type
    obtain ⟨rfl, -⟩ := hanswer
    rw [verdict_reread statusAlive hpage rfl rfl]
    simp
  · -- as the first byte of the request id
    obtain ⟨rfl, rfl, -⟩ := hanswer
    rw [verdict_reread statusAlive hpage rfl rfl]
    simp
  · -- as the second byte of the request id
    obtain ⟨rfl, rfl, rfl, hrest⟩ := hanswer
    refine iff_of_false ?_ (by simp)
    rcases second with _ | ⟨c, _ | ⟨d, second⟩⟩
    · exact absurd rfl hsecond
    · -- the fourth byte alone does not complete the header
      simp only [List.cons_append, List.nil_append, List.cons.injEq] at hrest
      obtain ⟨rfl, hrest⟩ := hrest
      obtain ⟨third, pieces, rfl⟩ : ∃ third rest, pieces = third :: rest := by
        cases pieces with
        | nil => cases hrest
        | cons third rest => exact ⟨third, rest, rfl⟩
      exact not_ok_of_three_one statusAlive hpage third pieces
    · simp only [List.cons_append, List.cons.injEq] at hrest
      obtain ⟨rfl, rfl, hrest⟩ := hrest
      rw [verdict_reread statusAlive hpage rfl rfl]
      have hrest : second ++ pieces.flatten = [lo, padding] ++ 0 :: more := hrest
      exact judgeRecord_of_append statusAlive (by simp) (show 2 < _ by decide) hrest
  · -- as the first byte of the length
    obtain ⟨rfl, rfl, rfl, rfl, hrest⟩ := hanswer
    refine iff_of_false ?_ (by simp)
    rw [verdict_reread statusAlive hpage rfl rfl]
    have hrest : second ++ pieces.flatten = [hi, lo, padding] ++ 0 :: more := hrest
    exact judgeRecord_of_append statusAlive (by simp) (show 3 < _ by decide) hrest
  · -- as the second byte of the length
    obtain ⟨rfl, rfl, rfl, rfl, hhi, hrest⟩ := hanswer
    subst b₄
    rw [verdict_reread statusAlive hpage rfl rfl]
    refine (judgeRecord_after_five statusAlive hrest).trans ?_
    simp
  · -- as the length of the padding
    obtain ⟨rfl, rfl, rfl, rfl, rfl, rfl, hrest⟩ := hanswer
    refine iff_of_false ?_ (by simp)
    rw [verdict_reread statusAlive hpage rfl rfl]
    intro hok
    obtain ⟨hlength, -, -⟩ := (judgeRecord_stdout ..).mp hok
    exact judgeRecord_of_zero statusAlive (show ([] : List UInt8).length ≤ 4 by decide)
      hlength _ hok
  · -- as the byte that is reserved
    obtain ⟨rfl, rfl, rfl, rfl, hhi, hlo, hpadding, hrest⟩ := hanswer
    subst b₄ b₅ b₆
    obtain rfl : tail = [] := by
      simp only [List.length_cons] at hshort
      exact List.eq_nil_of_length_eq_zero (by omega)
    rw [verdict_reread statusAlive hpage rfl rfl]
    refine (judgeRecord_after_seven statusAlive _).trans ?_
    simp [contentLength]

/-- An answer in pieces: the check succeeds when the whole record and more comes with the first
piece and its content is fine, and otherwise if and only if the first piece ends at one of two
places in the header of a record that happens to have a suitable length. -/
theorem fastcgi_ok_iff (statusAlive : ℕ) (hpage : 0 < halfPage) {hi lo padding : UInt8}
    {more first : List UInt8} {pieces : List (List UInt8)} (hfirst : first ≠ [])
    (hpieces : ∀ piece ∈ pieces, piece ≠ [])
    (hanswer : first ++ pieces.flatten = stdoutHead hi lo padding ++ more) :
    fastcgiVerdict halfPage statusAlive {} (first :: pieces) = .ok ↔
      (0 < contentLength hi lo ∧ 8 + contentLength hi lo < first.length ∧
        judgeContent statusAlive (more.take (contentLength hi lo)) = .ok) ∨
      first.length = 5 ∧ hi = 0 ∨ first.length = 7 ∧ contentLength hi lo = 1 := by
  by_cases hshort : first.length < 8
  · obtain ⟨second, pieces, rfl⟩ : ∃ second rest, pieces = second :: rest := by
      cases pieces with
      | nil =>
        have hlength := congrArg List.length hanswer
        simp [stdoutHead] at hlength
        omega
      | cons second rest => exact ⟨second, rest, rfl⟩
    obtain ⟨hsecond, hpieces⟩ := List.forall_mem_cons.mp hpieces
    rw [ok_of_split_head statusAlive hpage hfirst hsecond hshort hanswer]
    refine (or_iff_right ?_).symm
    rintro ⟨-, hlong, -⟩
    omega
  · have hhead : stdoutHead hi lo padding <+: first :=
      List.prefix_of_prefix_length_le (hanswer ▸ List.prefix_append _ more)
        (List.prefix_append first pieces.flatten) (Nat.le_of_not_lt hshort)
    obtain ⟨rest, rfl⟩ := hhead
    rw [List.append_assoc, List.append_cancel_left_eq] at hanswer
    have hlength : (stdoutHead hi lo padding ++ rest).length = 8 + rest.length :=
      List.length_append
    rw [verdict_of_whole_head statusAlive hpage, judgeRecord_stdout, hlength, ← hanswer]
    refine Iff.trans ?_ (or_iff_left ?_).symm
    · refine and_congr_right fun _ => ?_
      rw [Nat.add_lt_add_iff_left]
      refine and_congr_right fun hlong => ?_
      rw [List.take_append_of_le_length hlong.le]
    · omega

end Pieces

/-- An answer with a failure and its last record. -/
def failedAnswer : List UInt8 :=
  stdoutHead 0 15 0 ++ "Status: 500\r\n\r\n".toUTF8.data.toList ++
    [1, fastcgiEndRequest, 0, 1, 0, 8, 0, 0, 0, 0, 0, 0, 0, 0, 0, 0]

/-- As a whole it is a failure, and in two pieces it is a success. -/
theorem failedAnswer_ok_when_split :
    fastcgiVerdict 2048 0x0002 {} [failedAnswer] ≠ .ok ∧
      fastcgiVerdict 2048 0x0002 {} [failedAnswer.take 5, failedAnswer.drop 5] = .ok := by
  constructor
  · intro hok
    have hanswer : failedAnswer ++ [].flatten = stdoutHead 0 15 0 ++ failedAnswer.drop 8 := rfl
    rcases (fastcgi_ok_iff 0x0002 (by decide) (by decide) (by simp) hanswer).mp hok with
      ⟨-, -, hcontent⟩ | ⟨hfive, -⟩ | ⟨hseven, -⟩
    · revert hcontent
      decide
    · cases hfive
    · cases hseven
  · have hanswer : failedAnswer.take 5 ++ [failedAnswer.drop 5].flatten =
        stdoutHead 0 15 0 ++ failedAnswer.drop 8 := rfl
    refine (fastcgi_ok_iff 0x0002 (by decide) (by decide) ?_ hanswer).mpr (.inr (.inl ⟨rfl, rfl⟩))
    rw [List.forall_mem_singleton]
    decide

end HealthCheck.Nginx
