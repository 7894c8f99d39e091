import HealthCheck.Nginx.Handlers
import HealthCheck.Nginx.StatusLine

/-!
# Responses that come in pieces

`recv_handler` collects a response in a buffer and calls the parser whenever the socket has nothing
more to read. The parser goes on where it has stopped. When the buffer is full, it is replaced by
one of twice the size, and the position of the parser is set to the beginning of the new one,
although its state is not: the bytes that it has read before are read again, in the state that they
have led to.
-/

namespace HealthCheck.Nginx

open Scanner

/-- `ctx->recv`: the bytes between `start` and `last`, the position in them and the size. -/
structure RecvBuf where
  data : List UInt8
  pos : ℕ
  size : ℕ
  deriving DecidableEq

/-- `ngx_http_upstream_check_ctx_t`, as far as the response is concerned. -/
structure HttpCtx where
  recv : Option RecvBuf := none
  state : LineState := .start
  status : HttpStatus := {}
  deriving DecidableEq

/-- A buffer that is full is enlarged by twice. -/
def RecvBuf.enlarge (buf : RecvBuf) : RecvBuf :=
  if buf.data.length = buf.size then { buf with pos := 0, size := buf.size * 2 } else buf

/-- A byte from the socket, once there is room for it. -/
def RecvBuf.push (buf : RecvBuf) (byte : UInt8) : RecvBuf :=
  { buf.enlarge with data := buf.enlarge.data ++ [byte] }

/-- The loop of `recv_handler`. A call of `recv` may return more than one byte, which makes no
difference to the buffer; the last call finds room and nothing to read. -/
def RecvBuf.fill (buf : RecvBuf) (bytes : List UInt8) : RecvBuf := (bytes.foldl push buf).enlarge

/-- `ctx->recv` after the loop of `recv_handler`, which begins with a buffer of half a page. When
memory is refused, nothing has been read if it was for that one, and otherwise the buffer is not
enlarged. -/
def RecvBuf.collect (halfPage : ℕ) (recv : Option RecvBuf) (bytes : List UInt8) (allocated : Bool) :
    Option RecvBuf :=
  if allocated then some ((recv.getD ⟨[], 0, halfPage⟩).fill bytes)
  else if bytes.isEmpty then recv
  else some (bytes.foldl push (recv.getD ⟨[], 0, halfPage⟩))

/-- `ctx->recv` in `http_reinit`: the buffer is emptied, but keeps its size. -/
def RecvBuf.reset (buf : RecvBuf) : RecvBuf := { buf with data := [], pos := 0 }

/-- The class of a status code, as a bit of `check_http_expect_alive`. -/
def codeMask (code : ℕ) : ℕ :=
  if 200 ≤ code ∧ code < 300 then 0x0002
  else if 300 ≤ code ∧ code < 400 then 0x0004
  else if 400 ≤ code ∧ code < 500 then 0x0008
  else if 500 ≤ code ∧ code < 600 then 0x0010
  else 0x8000

/-- `ngx_http_upstream_check_http_parse` without `check_http_expect_body`, which the controller does
not write. After a result nothing reads the context until it is initialised again. -/
def httpParse (statusAlive : ℕ) (ctx : HttpCtx) (buf : RecvBuf) : Parsed HttpCtx :=
  if buf.pos < buf.data.length then
    match parseStatusLine ctx.state ctx.status (buf.data.drop buf.pos) with
    | .again (state, status) =>
      ⟨.again, false, { recv := some { buf with pos := buf.data.length }, state, status }⟩
    | .stop .error => ⟨.error, false, { ctx with recv := some buf }⟩
    | .stop (.done code) =>
      { code := if codeMask code &&& statusAlive = 0 then .error else .ok
        breaks := !(200 ≤ code ∧ code < 400)
        ctx := { ctx with recv := some buf, state := .receiveBody } }
  else ⟨.again, false, { ctx with recv := some buf }⟩

/-- The check type `http`; the first buffer has the size of half a page. -/
def httpProtocol (halfPage statusAlive : ℕ) : Protocol HttpCtx where
  init := {}
  recv ctx bytes allocated := { ctx with recv := RecvBuf.collect halfPage ctx.recv bytes allocated }
  parse ctx := httpParse statusAlive ctx (ctx.recv.getD ⟨[], 0, halfPage⟩)
  reinit ctx := { recv := ctx.recv.map RecvBuf.reset }

/-! ### The buffer -/

namespace RecvBuf

/-- The buffer has not been read behind its end, and there is room in it. -/
def Open (buf : RecvBuf) : Prop := buf.data.length < buf.size

@[simp] theorem data_enlarge (buf : RecvBuf) : buf.enlarge.data = buf.data := by
  unfold enlarge
  split_ifs <;> rfl

theorem enlarge_of_open {buf : RecvBuf} (h : buf.Open) : buf.enlarge = buf :=
  if_neg (Nat.ne_of_lt h)

theorem open_enlarge {buf : RecvBuf} (hle : buf.data.length ≤ buf.size) (hsize : 0 < buf.size) :
    buf.enlarge.Open := by
  unfold enlarge Open
  split_ifs with hfull
  · change buf.data.length < buf.size * 2
    omega
  · omega

/-- With enough room the bytes are appended, and nothing else changes. -/
theorem foldl_push_of_room {buf : RecvBuf} {bytes : List UInt8}
    (h : buf.data.length + bytes.length ≤ buf.size) :
    bytes.foldl push buf = { buf with data := buf.data ++ bytes } := by
  induction bytes generalizing buf with
  | nil => simp
  | cons byte bytes ih =>
    rw [List.length_cons] at h
    have hopen : buf.Open := by
      unfold Open
      omega
    rw [List.foldl_cons, push, enlarge_of_open hopen, ih (by simp; omega)]
    simp

/-- In any case they are appended. -/
theorem foldl_push {buf : RecvBuf} (hle : buf.data.length ≤ buf.size) (hsize : 0 < buf.size)
    (bytes : List UInt8) :
    (bytes.foldl push buf).data = buf.data ++ bytes ∧
      (bytes.foldl push buf).data.length ≤ (bytes.foldl push buf).size ∧
      0 < (bytes.foldl push buf).size := by
  induction bytes generalizing buf with
  | nil => exact ⟨by simp, hle, hsize⟩
  | cons byte bytes ih =>
    have hopen := open_enlarge hle hsize
    unfold Open at hopen
    obtain ⟨hdata, hlength, hpos⟩ := @ih (buf.push byte) (by simp [push] at hopen ⊢; omega)
      (by simp [push] at hopen ⊢; omega)
    refine ⟨?_, hlength, hpos⟩
    rw [List.foldl_cons, hdata]
    simp [push]

/-- Once the buffer is enlarged, its position is the beginning. -/
theorem pos_foldl_push {buf : RecvBuf} (h : buf.pos = 0) (bytes : List UInt8) :
    (bytes.foldl push buf).enlarge.pos = 0 := by
  have henlarge : ∀ buf : RecvBuf, buf.pos = 0 → buf.enlarge.pos = 0 := by
    intro buf h
    unfold enlarge
    split_ifs
    · rfl
    · exact h
  induction bytes generalizing buf with
  | nil => exact henlarge buf h
  | cons byte bytes ih => exact ih (henlarge buf h)

/-- A piece that fits into the buffer. -/
theorem fill_of_room {buf : RecvBuf} {bytes : List UInt8}
    (h : buf.data.length + bytes.length < buf.size) :
    buf.fill bytes = { buf with data := buf.data ++ bytes } := by
  rw [fill, foldl_push_of_room (by omega), enlarge_of_open]
  simpa [Open] using h

theorem data_fill {buf : RecvBuf} (hopen : buf.Open) (bytes : List UInt8) :
    (buf.fill bytes).data = buf.data ++ bytes ∧ (buf.fill bytes).Open := by
  have hpos : 0 < buf.size := Nat.lt_of_le_of_lt (Nat.zero_le _) hopen
  obtain ⟨hdata, hle, hsize⟩ := foldl_push (Nat.le_of_lt hopen) hpos bytes
  exact ⟨by rw [fill, data_enlarge, hdata], open_enlarge hle hsize⟩

theorem size_le_enlarge (buf : RecvBuf) : buf.size ≤ buf.enlarge.size := by
  unfold enlarge
  split_ifs
  · change buf.size ≤ buf.size * 2
    omega
  · exact Nat.le_refl _

theorem size_le_foldl_push (buf : RecvBuf) (bytes : List UInt8) :
    buf.size ≤ (bytes.foldl push buf).size := by
  induction bytes generalizing buf with
  | nil => exact Nat.le_refl _
  | cons byte bytes ih => exact (size_le_enlarge buf).trans (ih (buf.push byte))

theorem size_le_fill (buf : RecvBuf) (bytes : List UInt8) : buf.size ≤ (buf.fill bytes).size :=
  (size_le_foldl_push buf bytes).trans (size_le_enlarge _)

theorem getD_map_reset (halfPage : ℕ) (recv : Option RecvBuf) :
    (recv.map reset).getD ⟨[], 0, halfPage⟩ = ⟨[], 0, (recv.getD ⟨[], 0, halfPage⟩).size⟩ := by
  cases recv with
  | none => rfl
  | some buf => rfl

/-- A buffer that is there, or the first one of half a page, never gets smaller. -/
theorem size_le_collect (halfPage : ℕ) (recv : Option RecvBuf) (bytes : List UInt8)
    (allocated : Bool) :
    (recv.getD ⟨[], 0, halfPage⟩).size ≤
      ((collect halfPage recv bytes allocated).getD ⟨[], 0, halfPage⟩).size := by
  unfold collect
  split_ifs
  · exact size_le_fill _ bytes
  · exact Nat.le_refl _
  · exact size_le_foldl_push _ bytes

/-- A piece that does not fit in: the bytes before it are to be read again. -/
theorem pos_fill_of_full {buf : RecvBuf} (hopen : buf.Open) {bytes : List UInt8}
    (h : buf.size ≤ buf.data.length + bytes.length) : (buf.fill bytes).pos = 0 := by
  unfold Open at hopen
  -- the bytes that fill the buffer up, and the others
  obtain ⟨first, rest, rfl, hfirst⟩ : ∃ first rest, bytes = first ++ rest ∧
      buf.data.length + first.length = buf.size :=
    ⟨bytes.take (buf.size - buf.data.length), bytes.drop (buf.size - buf.data.length),
      (List.take_append_drop _ _).symm, by rw [List.length_take]; omega⟩
  have hfull : enlarge { buf with data := buf.data ++ first } =
      { data := buf.data ++ first, pos := 0, size := buf.size * 2 } :=
    if_pos (by simpa using hfirst)
  have hroom : first.foldl push buf = { buf with data := buf.data ++ first } :=
    foldl_push_of_room (by omega)
  rw [fill, List.foldl_append, hroom]
  cases rest with
  | nil => rw [List.foldl_nil, hfull]
  | cons byte rest =>
    refine pos_foldl_push ?_ rest
    rw [push, hfull]

/-- A buffer, or the first one of half a page, has received some bytes, and its position is still
the beginning. -/
structure Received (halfPage : ℕ) (recv : Option RecvBuf) (seen : List UInt8) : Prop where
  data : (recv.getD ⟨[], 0, halfPage⟩).data = seen
  pos : (recv.getD ⟨[], 0, halfPage⟩).pos = 0
  open_buf : (recv.getD ⟨[], 0, halfPage⟩).Open

theorem received_reset {halfPage : ℕ} {recv : Option RecvBuf}
    (h : 0 < (recv.getD ⟨[], 0, halfPage⟩).size) :
    Received halfPage (recv.map reset) [] := by
  have hbuf := getD_map_reset halfPage recv
  refine ⟨?_, ?_, ?_⟩ <;> rw [hbuf]
  exact h

theorem Received.fill {halfPage : ℕ} {recv : Option RecvBuf} {seen : List UInt8}
    (h : Received halfPage recv seen) (piece : List UInt8) :
    Received halfPage (some ((recv.getD ⟨[], 0, halfPage⟩).fill piece)) (seen ++ piece) := by
  obtain ⟨hdata, hopen⟩ := data_fill h.open_buf piece
  exact ⟨by rw [← h.data]; exact hdata, pos_foldl_push h.pos piece, hopen⟩

end RecvBuf

/-! ### Bytes that are read again -/

/-- A state in which the beginning of a response can be read again. -/
def LineState.rereads : LineState → Bool
  | .statusText | .cr => true
  | _ => false

/-- A state at the end of a line. -/
def LineState.atLineEnd : LineState → Bool
  | .lf | .cr | .almostDone => true
  | _ => false

/-- A state in the middle of a line. -/
def LineState.inLine : LineState → Bool
  | .start | .lf | .cr | .almostDone | .receiveBody => false
  | _ => true

/-- Where the parser is if it has read the same bytes as text: in the text as long as no line has
come to its end, and then in the same state, but for a CR right behind the status code. -/
inductive ReadsAs : LineState → LineState → Prop where
  | line {state : LineState} (h : state.inLine = true) : ReadsAs state .statusText
  | same {state : LineState} (h : state.atLineEnd = true) : ReadsAs state state
  | ending : ReadsAs .almostDone .lf

section Reread

variable {status status' : HttpStatus} {c : UInt8} {state state' : LineState} {seen : List UInt8}

theorem IsDigitFrom.ne_lineEnd {first : Char} (hfirst : '0'.toUInt8 ≤ first.toUInt8)
    (h : IsDigitFrom first c) : c ≠ crByte ∧ c ≠ lfByte := by
  have hle : '0'.toUInt8 ≤ c := UInt8.le_trans hfirst h.1
  constructor
  · rintro rfl
    revert hle
    decide
  · rintro rfl
    revert hle
    decide

theorem eq_of_goOnIf {fits : Bool} {next : LineState}
    (h : goOnIf fits next status = .again (state', status')) : fits = true ∧ state' = next := by
  unfold goOnIf at h
  split_ifs at h with hfits
  cases h
  exact ⟨hfits, rfl⟩

/-- A state in which a byte ends what a row of digits has begun. -/
theorem eq_of_digitOr {last : UInt8} {next after : LineState}
    (hlast : last ≠ crByte ∧ last ≠ lfByte)
    {status₁ status₂ : HttpStatus}
    (h : (if c = last then .again (after, status₁) else
      goOnIf (IsDigitFrom '0' c) next status₂) = (.again (state', status') : LineScan)) :
    c ≠ crByte ∧ c ≠ lfByte ∧ (state' = after ∨ state' = next) := by
  by_cases hc : c = last
  · rw [if_pos hc] at h
    cases h
    exact ⟨hc ▸ hlast.1, hc ▸ hlast.2, .inl rfl⟩
  · rw [if_neg hc] at h
    obtain ⟨hfits, rfl⟩ := eq_of_goOnIf h
    obtain ⟨hcr, hlf⟩ := (of_decide_eq_true hfits).ne_lineEnd (by decide)
    exact ⟨hcr, hlf, .inr rfl⟩

/-- In the middle of a line the parser stays there, unless a CR ends it. -/
theorem parseByte_of_line (hline : state.inLine = true)
    (h : parseByte (state, status) c = .again (state', status')) :
    (c ≠ crByte ∧ c ≠ lfByte ∧ state'.inLine = true) ∨
      (c = crByte ∧ (state' = .lf ∨ state' = .almostDone)) := by
  cases state with
  | h | ht | htt | http =>
    obtain ⟨hfits, rfl⟩ := eq_of_goOnIf h
    obtain rfl := of_decide_eq_true hfits
    exact .inl (by decide)
  | firstMajorDigit | firstMinorDigit =>
    obtain ⟨hfits, rfl⟩ := eq_of_goOnIf h
    obtain ⟨hcr, hlf⟩ := (of_decide_eq_true hfits).ne_lineEnd (by decide)
    exact .inl ⟨hcr, hlf, rfl⟩
  | majorDigit | minorDigit =>
    obtain ⟨hcr, hlf, rfl | rfl⟩ := eq_of_digitOr (by decide) h
    · exact .inl ⟨hcr, hlf, rfl⟩
    · exact .inl ⟨hcr, hlf, rfl⟩
  | status =>
    obtain ⟨hcr, hlf, rfl | rfl⟩ := eq_of_digitOr (by decide) h
    · exact .inl ⟨hcr, hlf, rfl⟩
    · refine .inl ⟨hcr, hlf, ?_⟩
      split_ifs <;> rfl
  | spaceAfterStatus =>
    unfold parseByte at h
    dsimp only at h
    split_ifs at h with htext hcr hlf
    · cases h
      refine .inl ⟨?_, ?_, rfl⟩
      · rcases htext with rfl | rfl <;> decide
      · rcases htext with rfl | rfl <;> decide
    · cases h
      exact .inr ⟨hcr, .inr rfl⟩
  | statusText =>
    unfold parseByte at h
    dsimp only at h
    split_ifs at h with hcr hlf
    · cases h
      exact .inr ⟨hcr, .inl rfl⟩
    · cases h
      exact .inl ⟨hcr, hlf, rfl⟩
  | start | lf | cr | almostDone | receiveBody => cases hline

/-- To read the same bytes as text keeps up with the parser. -/
theorem ReadsAs.step {text : LineState} (hreads : ReadsAs state text) (other : HttpStatus)
    (h : parseByte (state, status) c = .again (state', status')) :
    ∃ text', parseByte (text, other) c = .again (text', other) ∧ ReadsAs state' text' := by
  cases hreads with
  | line hline =>
    rcases parseByte_of_line hline h with ⟨hcr, hlf, hline'⟩ | ⟨rfl, rfl | rfl⟩
    · exact ⟨.statusText, parseByte_text hcr hlf, .line hline'⟩
    · exact ⟨.lf, rfl, .same rfl⟩
    · exact ⟨.lf, rfl, .ending⟩
  | same hend =>
    cases state with
    | lf =>
      obtain ⟨hfits, rfl⟩ := eq_of_goOnIf h
      exact ⟨.cr, by rw [of_decide_eq_true hfits]; rfl, .same rfl⟩
    | cr =>
      by_cases hcr : c = crByte
      · subst hcr
        cases h
        exact ⟨.almostDone, rfl, .same rfl⟩
      · rw [parseByte_cr hcr] at h
        cases h
        exact ⟨.statusText, parseByte_cr hcr, .line rfl⟩
    | almostDone =>
      unfold parseByte at h
      dsimp only at h
      split_ifs at h
    | _ => cases hend
  | ending =>
    unfold parseByte at h
    dsimp only at h
    split_ifs at h

theorem ReadsAs.scan {text : LineState} (hreads : ReadsAs state text) (other : HttpStatus)
    (h : scan parseByte (state, status) seen = .again (state', status')) :
    ∃ text', Scanner.scan parseByte (text, other) seen = .again (text', other) ∧
      ReadsAs state' text' := by
  induction seen generalizing state status text with
  | nil =>
    cases h
    exact ⟨text, rfl, hreads⟩
  | cons c seen ih =>
    cases hstep : parseByte (state, status) c with
    | stop result =>
      rw [scan_cons_stop hstep] at h
      cases h
    | again s =>
      rw [scan_cons_again hstep] at h
      obtain ⟨text', htext, hreads'⟩ := hreads.step other hstep
      obtain ⟨text'', hscan, hreads''⟩ := ih hreads' h
      exact ⟨text'', (scan_cons_again htext).trans hscan, hreads''⟩

/-- What has been read without a result begins with an H. -/
theorem exists_of_scan_again (h : scan parseByte (.start, {}) seen = .again (state, status)) :
    (seen = [] ∧ state = .start ∧ status = {}) ∨ ∃ rest, seen = 'H'.toUInt8 :: rest ∧
      scan parseByte (.h, {}) rest = .again (state, status) := by
  cases seen with
  | nil =>
    cases h
    exact .inl ⟨rfl, rfl, rfl⟩
  | cons c rest =>
    by_cases hc : c = 'H'.toUInt8
    · subst hc
      exact .inr ⟨rest, rfl, h⟩
    · have herror : parseByte (.start, {}) c = .stop .error := if_neg (by simpa using hc)
      rw [scan_cons_stop herror] at h
      cases h

/-- In the text of a line, or right behind one, the bytes that have led there lead there again. -/
theorem scan_reread (h : scan parseByte (.start, {}) seen = .again (state, status))
    (hstate : state.rereads = true) :
    scan parseByte (state, status) seen = .again (state, status) := by
  rcases exists_of_scan_again h with ⟨-, rfl, -⟩ | ⟨rest, rfl, hrest⟩
  · cases hstate
  · obtain ⟨text, hscan, hreads⟩ :=
      (ReadsAs.line rfl : ReadsAs .h .statusText).scan status hrest
    have htext : parseByte (.statusText, status) 'H'.toUInt8 = .again (.statusText, status) := rfl
    have hcr : parseByte (.cr, status) 'H'.toUInt8 = .again (.statusText, status) := rfl
    cases hreads with
    | line hline =>
      cases state with
      | statusText => exact (scan_cons_again htext).trans hscan
      | cr => cases hline
      | _ => cases hstate
    | same hend =>
      cases state with
      | statusText => cases hend
      | cr => exact (scan_cons_again hcr).trans hscan
      | _ => cases hstate
    | ending => cases hstate

theorem ne_receiveBody_of_scan_again
    (h : scan parseByte (.start, {}) seen = .again (state, status)) : state ≠ .receiveBody := by
  rintro rfl
  rcases exists_of_scan_again h with ⟨-, hstate, -⟩ | ⟨rest, -, hrest⟩
  · cases hstate
  · obtain ⟨text, -, hreads⟩ :=
      (ReadsAs.line rfl : ReadsAs .h .statusText).scan status hrest
    cases hreads with
    | line hline => cases hline
    | same hend => cases hend

/-- In any other state the first of them is an error. -/
theorem scan_reread_error (h : scan parseByte (.start, {}) seen = .again (state, status))
    (hstate : state.rereads = false) (hseen : seen ≠ []) (more : List UInt8) :
    scan parseByte (state, status) (seen ++ more) = .stop .error := by
  rcases exists_of_scan_again h with ⟨hnil, -, -⟩ | ⟨rest, rfl, hrest⟩
  · exact absurd hnil hseen
  · obtain ⟨text, -, hreads⟩ :=
      (ReadsAs.line rfl : ReadsAs .h .statusText).scan status hrest
    rw [List.cons_append]
    refine scan_cons_stop ?_
    cases state with
    | start | receiveBody =>
      -- states that are not reached
      cases hreads with
      | line hline => cases hline
      | same hend => cases hend
    | statusText | cr => cases hstate
    | _ => rfl

end Reread

/-! ### The verdict -/

/-- What a check makes of a response that comes in the given pieces: the first result that is not
`NGX_AGAIN`. -/
def Protocol.verdict {Ctx : Type} (p : Protocol Ctx) (ctx : Ctx) : List (List UInt8) → Option Bool
  | [] => none
  | piece :: pieces =>
    match (p.receive ctx piece).code with
    | .again => p.verdict (p.receive ctx piece).ctx pieces
    | .ok => some true
    | .error => some false

/-- What the whole response says. -/
def wholeVerdict (statusAlive : ℕ) (response : List UInt8) : Option Bool :=
  match scan parseByte (.start, {}) response with
  | .again _ => none
  | .stop .error => some false
  | .stop (.done code) => some (codeMask code &&& statusAlive ≠ 0)

namespace HttpCtx

variable {halfPage statusAlive : ℕ} {ctx : HttpCtx} {seen : List UInt8}

/-- The buffer that the next piece is received into. -/
def buf (halfPage : ℕ) (ctx : HttpCtx) : RecvBuf := ctx.recv.getD ⟨[], 0, halfPage⟩

/-- The context has read some bytes, and there is no result yet. -/
structure HasRead (halfPage : ℕ) (ctx : HttpCtx) (seen : List UInt8) : Prop where
  parsed : scan parseByte (.start, {}) seen = .again (ctx.state, ctx.status)
  data : (ctx.buf halfPage).data = seen
  pos : (ctx.buf halfPage).pos = seen.length
  open_buf : (ctx.buf halfPage).Open

/-- The next piece makes the parser read its bytes again, in a state in which it cannot. -/
def stumbles (halfPage : ℕ) (ctx : HttpCtx) (piece : List UInt8) : Bool :=
  (ctx.buf halfPage).size ≤ (ctx.buf halfPage).data.length + piece.length &&
    (ctx.buf halfPage).data ≠ [] && !ctx.state.rereads

/-- Before there is a result, some piece makes the parser stumble. -/
def straddles (halfPage statusAlive : ℕ) (ctx : HttpCtx) : List (List UInt8) → Bool
  | [] => false
  | piece :: pieces =>
    ctx.stumbles halfPage piece ||
      ((httpProtocol halfPage statusAlive).receive ctx piece).code = .again &&
        straddles halfPage statusAlive ((httpProtocol halfPage statusAlive).receive ctx piece).ctx
          pieces

theorem receive_eq (halfPage statusAlive : ℕ) (ctx : HttpCtx) (piece : List UInt8) :
    (httpProtocol halfPage statusAlive).receive ctx piece =
      httpParse statusAlive ctx ((ctx.buf halfPage).fill piece) := rfl

/-- The bytes that the parser is given with the next piece. -/
def unread (halfPage : ℕ) (ctx : HttpCtx) (piece : List UInt8) : List UInt8 :=
  ((ctx.buf halfPage).fill piece).data.drop ((ctx.buf halfPage).fill piece).pos

namespace HasRead

theorem pos_fill (h : ctx.HasRead halfPage seen) (piece : List UInt8) :
    ((ctx.buf halfPage).fill piece).pos =
      if (ctx.buf halfPage).size ≤ seen.length + piece.length then 0 else seen.length := by
  split_ifs with hfull
  · exact RecvBuf.pos_fill_of_full h.open_buf (by rwa [h.data])
  · rw [RecvBuf.fill_of_room (by rw [h.data]; omega)]
    exact h.pos

/-- As long as the parser does not stumble, it sees the piece behind what it has read. -/
theorem scan_unread (h : ctx.HasRead halfPage seen) {piece : List UInt8}
    (hgoes : ctx.stumbles halfPage piece = false) :
    scan parseByte (ctx.state, ctx.status) (ctx.unread halfPage piece) =
      scan parseByte (.start, {}) (seen ++ piece) := by
  rw [unread, (RecvBuf.data_fill h.open_buf piece).1, h.data, h.pos_fill,
    scan_append_again h.parsed]
  split_ifs with hfull
  · rw [List.drop_zero]
    by_cases hseen : seen = []
    · subst hseen
      rfl
    · have hrereads : ctx.state.rereads = true := by
        simpa [stumbles, h.data, hfull, hseen] using hgoes
      rw [scan_append_again (scan_reread h.parsed hrereads)]
  · rw [List.drop_left]

theorem scan_unread_error (h : ctx.HasRead halfPage seen) {piece : List UInt8}
    (hstumbles : ctx.stumbles halfPage piece = true) :
    scan parseByte (ctx.state, ctx.status) (ctx.unread halfPage piece) = .stop .error := by
  simp only [stumbles, h.data, Bool.and_eq_true, decide_eq_true_eq, Bool.not_eq_true']
    at hstumbles
  obtain ⟨⟨hfull, hseen⟩, hrereads⟩ := hstumbles
  rw [unread, (RecvBuf.data_fill h.open_buf piece).1, h.data, h.pos_fill, if_pos hfull,
    List.drop_zero]
  exact scan_reread_error h.parsed hrereads hseen piece

theorem parseStatusLine_eq (h : ctx.HasRead halfPage seen) (piece : List UInt8) :
    parseStatusLine ctx.state ctx.status (ctx.unread halfPage piece) =
      scan parseByte (ctx.state, ctx.status) (ctx.unread halfPage piece) :=
  if_neg (ne_receiveBody_of_scan_again h.parsed)

/-- A result means that there was something to read. -/
theorem pos_lt_of_stop {piece : List UInt8} {result : LineResult}
    (hscan : scan parseByte (ctx.state, ctx.status) (ctx.unread halfPage piece) = .stop result) :
    ((ctx.buf halfPage).fill piece).pos < ((ctx.buf halfPage).fill piece).data.length := by
  by_contra hle
  rw [unread, List.drop_eq_nil_of_le (by omega)] at hscan
  cases hscan

theorem receive_error (h : ctx.HasRead halfPage seen) {piece : List UInt8}
    (hscan : scan parseByte (ctx.state, ctx.status) (ctx.unread halfPage piece) = .stop .error) :
    ((httpProtocol halfPage statusAlive).receive ctx piece).code = .error := by
  have hparse := (h.parseStatusLine_eq piece).trans hscan
  rw [receive_eq, httpParse, if_pos (pos_lt_of_stop hscan)]
  rw [unread] at hparse
  rw [hparse]

theorem receive_done (h : ctx.HasRead halfPage seen) {piece : List UInt8} {code : ℕ}
    (hscan : scan parseByte (ctx.state, ctx.status) (ctx.unread halfPage piece) =
      .stop (.done code)) :
    ((httpProtocol halfPage statusAlive).receive ctx piece).code =
      if codeMask code &&& statusAlive = 0 then .error else .ok := by
  have hparse := (h.parseStatusLine_eq piece).trans hscan
  rw [receive_eq, httpParse, if_pos (pos_lt_of_stop hscan)]
  rw [unread] at hparse
  rw [hparse]

/-- Without a result the context has read the piece as well. -/
theorem receive_again (statusAlive : ℕ) (h : ctx.HasRead halfPage seen) {piece : List UInt8}
    {state : LineState} {status : HttpStatus}
    (hscan : scan parseByte (ctx.state, ctx.status) (ctx.unread halfPage piece) =
      .again (state, status))
    (hparsed : scan parseByte (.start, {}) (seen ++ piece) = .again (state, status)) :
    ((httpProtocol halfPage statusAlive).receive ctx piece).code = .again ∧
      HasRead halfPage ((httpProtocol halfPage statusAlive).receive ctx piece).ctx
        (seen ++ piece) := by
  obtain ⟨hdata, hopen⟩ := RecvBuf.data_fill h.open_buf piece
  have hparse := (h.parseStatusLine_eq piece).trans hscan
  have hreceive : (httpProtocol halfPage statusAlive).receive ctx piece =
      ⟨.again, false, { recv := some { (ctx.buf halfPage).fill piece with
        pos := ((ctx.buf halfPage).fill piece).data.length }, state, status }⟩ := by
    rw [receive_eq, httpParse]
    split_ifs with hpos
    · rw [unread] at hparse
      rw [hparse]
    · -- nothing to read
      rw [unread, List.drop_eq_nil_of_le (by omega)] at hscan
      cases hscan
      have hend : ((ctx.buf halfPage).fill piece).pos =
          ((ctx.buf halfPage).fill piece).data.length := by
        have hle := h.pos_fill piece
        rw [hdata, h.data, List.length_append] at hpos ⊢
        split_ifs at hle <;> omega
      rw [← hend]
  rw [hreceive]
  refine ⟨rfl, hparsed, ?_, ?_, ?_⟩
  · exact hdata.trans (by rw [h.data])
  · change ((ctx.buf halfPage).fill piece).data.length = _
    rw [hdata, h.data]
  · exact hopen

end HasRead

/-- What becomes of a response that comes in pieces, when some of it may have come before. -/
theorem HasRead.verdict_eq (statusAlive : ℕ) (h : ctx.HasRead halfPage seen)
    (pieces : List (List UInt8)) :
    (httpProtocol halfPage statusAlive).verdict ctx pieces =
      if straddles halfPage statusAlive ctx pieces then some false
      else wholeVerdict statusAlive (seen ++ pieces.flatten) := by
  induction pieces generalizing ctx seen with
  | nil => simp [Protocol.verdict, straddles, wholeVerdict, h.parsed]
  | cons piece pieces ih =>
    rw [Protocol.verdict, straddles, List.flatten_cons, ← List.append_assoc]
    cases hstumbles : ctx.stumbles halfPage piece with
    | true => rw [h.receive_error (h.scan_unread_error hstumbles)]; rfl
    | false =>
      have hunread := h.scan_unread hstumbles
      cases hscan : scan parseByte (.start, {}) (seen ++ piece) with
      | again s =>
        obtain ⟨hcode, hread⟩ := h.receive_again statusAlive (hunread.trans hscan)
          hscan
        rw [hcode]
        simpa using ih hread
      | stop result =>
        have hwhole := scan_append_stop hscan pieces.flatten
        cases result with
        | error =>
          rw [h.receive_error (hunread.trans hscan), wholeVerdict, hwhole]
          rfl
        | done code =>
          rw [h.receive_done (hunread.trans hscan), wholeVerdict, hwhole]
          by_cases hmask : codeMask code &&& statusAlive = 0
          · simp [hmask]
          · simp [hmask]

/-- The parser changes nothing in the buffer but the position. -/
theorem buf_receive (halfPage statusAlive : ℕ) (ctx : HttpCtx) (piece : List UInt8) :
    ∃ pos, ((httpProtocol halfPage statusAlive).receive ctx piece).ctx.buf halfPage =
      { (ctx.buf halfPage).fill piece with pos } := by
  rw [receive_eq]
  unfold httpParse
  split_ifs
  · cases parseStatusLine ctx.state ctx.status
        (((ctx.buf halfPage).fill piece).data.drop ((ctx.buf halfPage).fill piece).pos) with
    | again s => exact ⟨_, rfl⟩
    | stop result =>
      cases result with
      | error => exact ⟨_, rfl⟩
      | done code => exact ⟨_, rfl⟩
  · exact ⟨_, rfl⟩

/-- There is always room in the buffer, and it never gets smaller. -/
theorem open_receive (statusAlive : ℕ) (h : (ctx.buf halfPage).Open) (piece : List UInt8) :
    (((httpProtocol halfPage statusAlive).receive ctx piece).ctx.buf halfPage).Open ∧
      (ctx.buf halfPage).size ≤
        (((httpProtocol halfPage statusAlive).receive ctx piece).ctx.buf halfPage).size := by
  obtain ⟨pos, hbuf⟩ := buf_receive halfPage statusAlive ctx piece
  rw [hbuf]
  exact ⟨(RecvBuf.data_fill h piece).2, RecvBuf.size_le_fill _ piece⟩

/-- After a check the context is as if nothing had been received. -/
theorem hasRead_reinit (ctx : HttpCtx) (statusAlive : ℕ) (h : 0 < (ctx.buf halfPage).size) :
    HasRead halfPage ((httpProtocol halfPage statusAlive).reinit ctx) [] ∧
      (((httpProtocol halfPage statusAlive).reinit ctx).buf halfPage).size =
        (ctx.buf halfPage).size := by
  have hbuf : ((httpProtocol halfPage statusAlive).reinit ctx).buf halfPage =
      ⟨[], 0, (ctx.buf halfPage).size⟩ := RecvBuf.getD_map_reset halfPage ctx.recv
  refine ⟨⟨rfl, ?_, ?_, ?_⟩, ?_⟩
  · rw [hbuf]
  · rw [hbuf]
    rfl
  · rw [hbuf]
    exact h
  · rw [hbuf]

/-- A response that fits into the buffer does not make the parser stumble. -/
theorem HasRead.straddles_of_room (h : ctx.HasRead halfPage seen) {pieces : List (List UInt8)}
    (hroom : seen.length + pieces.flatten.length < (ctx.buf halfPage).size) :
    straddles halfPage statusAlive ctx pieces = false := by
  induction pieces generalizing ctx seen with
  | nil => rfl
  | cons piece pieces ih =>
    rw [List.flatten_cons, List.length_append] at hroom
    have hgoes : ctx.stumbles halfPage piece = false := by
      simp only [stumbles, h.data, Bool.and_eq_false_iff, decide_eq_false_iff_not]
      exact .inl (.inl (by omega))
    have hunread := h.scan_unread hgoes
    rw [straddles, hgoes, Bool.false_or]
    cases hscan : scan parseByte (.start, {}) (seen ++ piece) with
    | again s =>
      obtain ⟨hcode, hread⟩ := h.receive_again statusAlive (hunread.trans hscan) hscan
      rw [hcode, decide_eq_true rfl, Bool.true_and]
      refine ih hread ?_
      obtain ⟨pos, hbuf⟩ := buf_receive halfPage statusAlive ctx piece
      rw [hbuf, RecvBuf.fill_of_room (by rw [h.data]; omega), List.length_append]
      change _ < (ctx.buf halfPage).size
      omega
    | stop result =>
      have hcode : ((httpProtocol halfPage statusAlive).receive ctx piece).code ≠ .again := by
        cases result with
        | error =>
          rw [h.receive_error (hunread.trans hscan)]
          exact ParseCode.noConfusion
        | done code =>
          rw [h.receive_done (hunread.trans hscan)]
          split_ifs <;> exact ParseCode.noConfusion
      rw [decide_eq_false hcode, Bool.false_and]

end HttpCtx

/-- A whole response is a success if its status code belongs to one of the classes. -/
theorem wholeVerdict_eq_true_iff {statusAlive : ℕ} {input : List UInt8} :
    wholeVerdict statusAlive input = some true ↔
      ∃ r : Response, r.bytes <+: input ∧ codeMask r.code &&& statusAlive ≠ 0 := by
  constructor
  · intro h
    unfold wholeVerdict at h
    cases hscan : scan parseByte (.start, {}) input with
    | again s => rw [hscan] at h; cases h
    | stop result =>
      rw [hscan] at h
      cases result with
      | error => cases h
      | done code =>
        obtain ⟨r, rest, rfl⟩ := Response.exists_of_scan hscan
        rw [r.scan_bytes] at hscan
        cases hscan
        exact ⟨r, List.prefix_append _ _, by simpa using h⟩
  · rintro ⟨r, ⟨rest, rfl⟩, halive⟩
    rw [wholeVerdict, r.scan_bytes]
    simpa using halive

/-- What comes in pieces is a success if the whole is one, unless the parser stumbles. -/
theorem HttpCtx.HasRead.verdict_iff {halfPage : ℕ} {ctx : HttpCtx} {seen : List UInt8}
    (statusAlive : ℕ) (h : ctx.HasRead halfPage seen) (pieces : List (List UInt8)) :
    ((httpProtocol halfPage statusAlive).verdict ctx pieces).getD false = true ↔
      ctx.straddles halfPage statusAlive pieces = false ∧
        ∃ r : Response,
          r.bytes <+: seen ++ pieces.flatten ∧ codeMask r.code &&& statusAlive ≠ 0 := by
  have hgetD : ∀ verdict : Option Bool, verdict.getD false = true ↔ verdict = some true := by
    intro verdict
    cases verdict <;> simp
  rw [hgetD, h.verdict_eq, ← wholeVerdict_eq_true_iff]
  cases ctx.straddles halfPage statusAlive pieces <;> simp

end HealthCheck.Nginx
