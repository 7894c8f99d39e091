import HealthCheck.Scanner
import Mathlib.Data.List.Basic

/-!
# The parser of HTTP responses

`ngx_upstream_check_http_parse_status_line` reads the status line and the header of a response, byte
by byte. It keeps its state in the context of the check, so that the response may come in pieces.
What it accepts is a regular language, with some liberties: spaces inside the status code, and a
header that ends with a bare LF.
-/

namespace HealthCheck.Nginx

open Scanner

/-- The states of the parser. -/
inductive LineState where
  | start
  | h
  | ht
  | htt
  | http
  | firstMajorDigit
  | majorDigit
  | firstMinorDigit
  | minorDigit
  | status
  | spaceAfterStatus
  | statusText
  | lf
  | cr
  | almostDone
  | receiveBody
  deriving DecidableEq, Repr

/-- `ngx_http_status_t`, without the pointers into the buffer. -/
structure HttpStatus where
  code : ℕ := 0
  count : ℕ := 0
  deriving DecidableEq, Repr

/-- What the parser stops with: an error, or the end of the header. -/
inductive LineResult where
  | error
  | done (code : ℕ)
  deriving DecidableEq, Repr

def crByte : UInt8 := 13
def lfByte : UInt8 := 10
def space : UInt8 := ' '.toUInt8
def dot : UInt8 := '.'.toUInt8

/-- A byte between two digits. -/
def IsDigitFrom (first : Char) (c : UInt8) : Prop := first.toUInt8 ≤ c ∧ c ≤ '9'.toUInt8

instance (first : Char) (c : UInt8) : Decidable (IsDigitFrom first c) :=
  inferInstanceAs (Decidable (_ ∧ _))

/-- The value of a digit. -/
def digitValue (c : UInt8) : ℕ := c.toNat - '0'.toNat

abbrev LineScan := Scan (LineState × HttpStatus) LineResult

/-- Go on in the next state if the byte is as it should be. -/
def goOnIf (fits : Bool) (next : LineState) (status : HttpStatus) : LineScan :=
  if fits then .again (next, status) else .stop .error

/-- One digit of the status code; the third one is the last. -/
def HttpStatus.addDigit (status : HttpStatus) (ch : UInt8) : HttpStatus where
  code := status.code * 10 + digitValue ch
  count := status.count + 1

/-- One round of the loop over the bytes. -/
def parseByte (s : LineState × HttpStatus) (ch : UInt8) : LineScan :=
  match s with
  | (.start, status) => goOnIf (ch = 'H'.toUInt8) .h status
  | (.h, status) => goOnIf (ch = 'T'.toUInt8) .ht status
  | (.ht, status) => goOnIf (ch = 'T'.toUInt8) .htt status
  | (.htt, status) => goOnIf (ch = 'P'.toUInt8) .http status
  | (.http, status) => goOnIf (ch = '/'.toUInt8) .firstMajorDigit status
  | (.firstMajorDigit, status) => goOnIf (IsDigitFrom '1' ch) .majorDigit status
  | (.majorDigit, status) =>
    if ch = dot then .again (.firstMinorDigit, status)
    else goOnIf (IsDigitFrom '0' ch) .majorDigit status
  | (.firstMinorDigit, status) => goOnIf (IsDigitFrom '0' ch) .minorDigit status
  | (.minorDigit, status) =>
    if ch = space then .again (.status, status)
    else goOnIf (IsDigitFrom '0' ch) .minorDigit status
  | (.status, status) =>
    if ch = space then .again (.status, status)
    else goOnIf (IsDigitFrom '0' ch) (if status.count + 1 = 3 then .spaceAfterStatus else .status)
      (status.addDigit ch)
  | (.spaceAfterStatus, status) =>
    if ch = space ∨ ch = dot then .again (.statusText, status)
    else if ch = crByte then .again (.almostDone, status)
    else if ch = lfByte then .stop (.done status.code)
    else .stop .error
  | (.statusText, status) =>
    if ch = crByte then .again (.lf, status)
    else if ch = lfByte then .stop (.done status.code)
    else .again (.statusText, status)
  | (.lf, status) => goOnIf (ch = lfByte) .cr status
  | (.cr, status) =>
    if ch = crByte then .again (.almostDone, status) else .again (.statusText, status)
  | (.almostDone, status) => if ch = lfByte then .stop (.done status.code) else .stop .error
  | (.receiveBody, status) => .stop (.done status.code)

/-- `ngx_upstream_check_http_parse_status_line`. -/
def parseStatusLine (state : LineState) (status : HttpStatus) (bytes : List UInt8) : LineScan :=
  if state = .receiveBody then .stop (.done status.code)
  else scan parseByte (state, status) bytes

/-! ### What is accepted -/

/-- The rest of a response from the text of its status line to the end of the header. After a CRLF
any byte but a CR belongs to the next line. -/
inductive TextEnd : List UInt8 → Prop where
  | bare : TextEnd [lfByte]
  | last : TextEnd [crByte, lfByte, crByte, lfByte]
  | text {c : UInt8} {t : List UInt8} (hcr : c ≠ crByte) (hlf : c ≠ lfByte) (ht : TextEnd t) :
      TextEnd (c :: t)
  | line {c : UInt8} {t : List UInt8} (hcr : c ≠ crByte) (ht : TextEnd t) :
      TextEnd (crByte :: lfByte :: c :: t)

/-- The rest of a response behind its status code. -/
inductive HeaderEnd : List UInt8 → Prop where
  | bare : HeaderEnd [lfByte]
  | line : HeaderEnd [crByte, lfByte]
  | text {c : UInt8} {t : List UInt8} (hc : c = space ∨ c = dot) (ht : TextEnd t) :
      HeaderEnd (c :: t)

/-- A response up to the end of its header. -/
structure Response where
  majorFirst : UInt8
  major : List UInt8
  minorFirst : UInt8
  minor : List UInt8
  spaces₁ : ℕ
  spaces₂ : ℕ
  spaces₃ : ℕ
  digit₁ : UInt8
  digit₂ : UInt8
  digit₃ : UInt8
  ending : List UInt8
  majorFirst_digit : IsDigitFrom '1' majorFirst
  major_digits : ∀ c ∈ major, IsDigitFrom '0' c
  minorFirst_digit : IsDigitFrom '0' minorFirst
  minor_digits : ∀ c ∈ minor, IsDigitFrom '0' c
  digit₁_digit : IsDigitFrom '0' digit₁
  digit₂_digit : IsDigitFrom '0' digit₂
  digit₃_digit : IsDigitFrom '0' digit₃
  headerEnd : HeaderEnd ending

namespace Response

def code (r : Response) : ℕ :=
  (digitValue r.digit₁ * 10 + digitValue r.digit₂) * 10 + digitValue r.digit₃

/-- The protocol and the version, with the space behind them. -/
def version (r : Response) : List UInt8 :=
  ['H', 'T', 'T', 'P', '/'].map Char.toUInt8 ++
    (r.majorFirst :: (r.major ++ dot :: r.minorFirst :: (r.minor ++ [space])))

/-- The status code, with the spaces before and between its digits. -/
def number (r : Response) : List UInt8 :=
  List.replicate r.spaces₁ space ++ r.digit₁ :: (List.replicate r.spaces₂ space ++
    r.digit₂ :: (List.replicate r.spaces₃ space ++ [r.digit₃]))

def bytes (r : Response) : List UInt8 := r.version ++ (r.number ++ r.ending)

end Response

section Accepted

variable {status : HttpStatus} {c : UInt8} {bytes : List UInt8} {code : ℕ}

theorem IsDigitFrom.ne_space (h : IsDigitFrom '0' c) : c ≠ space := by
  rintro rfl
  revert h
  decide

theorem IsDigitFrom.ne_dot (h : IsDigitFrom '0' c) : c ≠ dot := by
  rintro rfl
  revert h
  decide

theorem parseByte_text (hcr : c ≠ crByte) (hlf : c ≠ lfByte) :
    parseByte (.statusText, status) c = .again (.statusText, status) := by
  simp [parseByte, hcr, hlf]

theorem parseByte_cr (hcr : c ≠ crByte) :
    parseByte (.cr, status) c = .again (.statusText, status) := by
  simp [parseByte, hcr]

/-- The header is read to its end. -/
theorem TextEnd.scan_eq {t : List UInt8} (h : TextEnd t) (rest : List UInt8) :
    scan parseByte (.statusText, status) (t ++ rest) = .stop (.done status.code) := by
  induction h with
  | bare => rfl
  | last => rfl
  | text hcr hlf ht ih => rw [List.cons_append, scan_cons_again (parseByte_text hcr hlf), ih]
  | @line c t hcr ht ih =>
    have hnext : scan parseByte (.statusText, status) [crByte, lfByte, c] =
        .again (.statusText, status) :=
      (scan_cons_again rfl).trans ((scan_cons_again rfl).trans (scan_cons_again (parseByte_cr hcr)))
    exact (scan_append_again hnext (t ++ rest)).trans ih

/-- Where the end of the header is found, there is one. -/
theorem exists_textEnd (h : scan parseByte (.statusText, status) bytes = .stop (.done code)) :
    ∃ t, TextEnd t ∧ t <+: bytes := by
  suffices hlength : ∀ n (bytes : List UInt8), bytes.length ≤ n →
      scan parseByte (.statusText, status) bytes = .stop (.done code) →
      ∃ t, TextEnd t ∧ t <+: bytes from hlength bytes.length bytes (Nat.le_refl _) h
  intro n
  induction n with
  | zero =>
    intro bytes hle h
    rw [List.length_eq_zero_iff.mp (Nat.le_zero.mp hle)] at h
    cases h
  | succ n ih =>
    intro bytes hle h
    cases bytes with
    | nil => cases h
    | cons c rest =>
      rw [List.length_cons] at hle
      by_cases hcr : c = crByte
      · subst hcr
        -- a line ends here, and the next byte must be LF
        cases rest with
        | nil => cases h
        | cons d rest =>
          by_cases hlf : d = lfByte
          · subst hlf
            cases rest with
            | nil => cases h
            | cons e rest =>
              by_cases hcr : e = crByte
              · subst hcr
                cases rest with
                | nil => cases h
                | cons f rest =>
                  by_cases hf : f = lfByte
                  · subst hf
                    exact ⟨_, .last, rest, rfl⟩
                  · have herror : parseByte (.almostDone, status) f = .stop .error := if_neg hf
                    change scan parseByte (.almostDone, status) (f :: rest) = _ at h
                    rw [scan_cons_stop herror] at h
                    cases h
              · change scan parseByte (.cr, status) (e :: rest) = _ at h
                rw [scan_cons_again (parseByte_cr hcr)] at h
                simp only [List.length_cons] at hle
                obtain ⟨t, ht, htail, rfl⟩ := ih rest (by omega) h
                exact ⟨_, .line hcr ht, htail, rfl⟩
          · have herror : parseByte (.lf, status) d = .stop .error := by
              simp [parseByte, goOnIf, hlf]
            change scan parseByte (.lf, status) (d :: rest) = _ at h
            rw [scan_cons_stop herror] at h
            cases h
      · by_cases hlf : c = lfByte
        · subst hlf
          exact ⟨_, .bare, rest, rfl⟩
        · rw [scan_cons_again (parseByte_text hcr hlf)] at h
          obtain ⟨t, ht, htail, rfl⟩ := ih rest (by omega) h
          exact ⟨_, .text hcr hlf ht, htail, rfl⟩

/-- The header is read to its end. -/
theorem HeaderEnd.scan_eq {t : List UInt8} (h : HeaderEnd t) (rest : List UInt8) :
    scan parseByte (.spaceAfterStatus, status) (t ++ rest) = .stop (.done status.code) := by
  cases h with
  | bare => rfl
  | line => rfl
  | text hc ht =>
    have hstep : parseByte (.spaceAfterStatus, status) _ = .again (.statusText, status) :=
      if_pos hc
    rw [List.cons_append, scan_cons_again hstep, ht.scan_eq]

theorem exists_headerEnd
    (h : scan parseByte (.spaceAfterStatus, status) bytes = .stop (.done code)) :
    ∃ t, HeaderEnd t ∧ t <+: bytes := by
  cases bytes with
  | nil => cases h
  | cons c rest =>
    rw [scan_cons] at h
    unfold parseByte at h
    dsimp only at h
    split_ifs at h with hc hcr hlf
    · obtain ⟨t, ht, htail, rfl⟩ := exists_textEnd h
      exact ⟨_, .text hc ht, htail, rfl⟩
    · subst hcr
      cases rest with
      | nil => cases h
      | cons d rest =>
        by_cases hd : d = lfByte
        · subst hd
          exact ⟨_, .line, rest, rfl⟩
        · have herror : parseByte (.almostDone, status) d = .stop .error := if_neg hd
          change scan parseByte (.almostDone, status) (d :: rest) = _ at h
          rw [scan_cons_stop herror] at h
          cases h
    · subst hlf
      exact ⟨_, .bare, rest, rfl⟩
    · cases h

/-- The spaces before a digit of the status code are skipped. -/
theorem scan_spaces (n : ℕ) (rest : List UInt8) :
    scan parseByte (.status, status) (List.replicate n space ++ rest) =
      scan parseByte (.status, status) rest := by
  refine scan_append_again (scan_of_stays fun x hx => ?_) rest
  rw [List.eq_of_mem_replicate hx]
  rfl

theorem parseByte_digit (h : IsDigitFrom '0' c) :
    parseByte (.status, status) c = .again
      (if status.count + 1 = 3 then .spaceAfterStatus else .status, status.addDigit c) := by
  simp [parseByte, goOnIf, h, h.ne_space]

/-- Another byte is an error, unless it is the one that the state waits for. -/
theorem goOnIf_error {fits : Bool} (h : ¬ fits = true) {next : LineState} :
    ∃ r, r ≠ LineResult.done code ∧ goOnIf fits next status = .stop r :=
  ⟨.error, LineResult.noConfusion, if_neg h⟩

/-- A digit is found where the scan does not fail. -/
theorem exists_digit (h : scan parseByte (.status, status) bytes = .stop (.done code)) :
    ∃ n c rest, bytes = List.replicate n space ++ c :: rest ∧ IsDigitFrom '0' c ∧
      scan parseByte
        (if status.count + 1 = 3 then .spaceAfterStatus else .status, status.addDigit c) rest =
          .stop (.done code) := by
  induction bytes with
  | nil => cases h
  | cons c rest ih =>
    by_cases hspace : c = space
    · subst hspace
      obtain ⟨n, d, rest, rfl, hd, hrest⟩ := ih h
      exact ⟨n + 1, d, rest, rfl, hd, hrest⟩
    · by_cases hdigit : IsDigitFrom '0' c
      · rw [scan_cons_again (parseByte_digit hdigit)] at h
        exact ⟨0, c, rest, rfl, hdigit, h⟩
      · refine absurd h (scan_cons_ne ?_)
        simp only [parseByte, if_neg hspace]
        exact goOnIf_error (by simpa using hdigit)

theorem parseByte_majorDigit (h : IsDigitFrom '0' c) :
    parseByte (.majorDigit, status) c = .again (.majorDigit, status) := by
  simp [parseByte, goOnIf, h, h.ne_dot]

theorem parseByte_minorDigit (h : IsDigitFrom '0' c) :
    parseByte (.minorDigit, status) c = .again (.minorDigit, status) := by
  simp [parseByte, goOnIf, h, h.ne_space]

/-- A state that waits for one byte. -/
theorem exists_of_goOnIf {state next : LineState} {fits : UInt8 → Prop} [DecidablePred fits]
    (hstep : ∀ c, parseByte (state, status) c = goOnIf (fits c) next status)
    (h : scan parseByte (state, status) bytes = .stop (.done code)) :
    ∃ c rest, bytes = c :: rest ∧ fits c ∧
      scan parseByte (next, status) rest = .stop (.done code) := by
  refine exists_of_scan_cons fits (fun c hc => ?_) (fun c hc => ?_) h
  · rw [hstep]
    exact goOnIf_error (by simpa using hc)
  · rw [hstep, goOnIf, if_pos (by simpa using hc)]

/-- The digits of the version up to the byte that ends them. -/
theorem exists_digits {state next : LineState} {last : UInt8}
    (hstep : ∀ c, parseByte (state, status) c =
      if c = last then .again (next, status) else goOnIf (IsDigitFrom '0' c) state status)
    (hlast : ¬ IsDigitFrom '0' last)
    (h : scan parseByte (state, status) bytes = .stop (.done code)) :
    ∃ digits rest, bytes = digits ++ last :: rest ∧ (∀ c ∈ digits, IsDigitFrom '0' c) ∧
      scan parseByte (next, status) rest = .stop (.done code) := by
  have hstays : ∀ c, IsDigitFrom '0' c → parseByte (state, status) c = .again (state, status) := by
    intro c hdigit
    have hc : c ≠ last := fun heq => hlast (heq ▸ hdigit)
    rw [hstep, if_neg hc, goOnIf, if_pos (by simpa using hdigit)]
  have hother : ∀ c, ¬ IsDigitFrom '0' c → ¬ c = last →
      ∃ r, r ≠ LineResult.done code ∧ parseByte (state, status) c = .stop r := by
    intro c hdigit hc
    rw [hstep, if_neg hc]
    exact goOnIf_error (by simpa using hdigit)
  have hleaves : ∀ c, c = last → parseByte (state, status) c = .again (next, status) := by
    intro c hc
    rw [hstep, if_pos hc]
  obtain ⟨digits, c, rest, hbytes, hdigits, rfl, hrest⟩ :=
    exists_of_scan_stays (IsDigitFrom '0') (fun c => c = last) hother hstays hleaves h
  exact ⟨digits, rest, hbytes, hdigits, hrest⟩

end Accepted

namespace Response

/-- The version of a response is read. -/
theorem scan_version (r : Response) :
    scan parseByte (.start, {}) r.version = .again (.status, {}) := by
  have hmajor : scan parseByte (.majorDigit, {}) r.major = .again (.majorDigit, {}) :=
    scan_of_stays fun c hc => parseByte_majorDigit (r.major_digits c hc)
  have hminor : scan parseByte (.minorDigit, {}) r.minor = .again (.minorDigit, {}) :=
    scan_of_stays fun c hc => parseByte_minorDigit (r.minor_digits c hc)
  have hfirst : parseByte (.firstMajorDigit, {}) r.majorFirst = .again (.majorDigit, {}) := by
    simp [parseByte, goOnIf, r.majorFirst_digit]
  have hsecond : parseByte (.firstMinorDigit, {}) r.minorFirst = .again (.minorDigit, {}) := by
    simp [parseByte, goOnIf, r.minorFirst_digit]
  have hname : scan parseByte (.start, {}) (['H', 'T', 'T', 'P', '/'].map Char.toUInt8) =
      .again (.firstMajorDigit, {}) := by decide
  have hdot : parseByte (.majorDigit, {}) dot = .again (.firstMinorDigit, {}) := rfl
  rw [version, scan_append_again hname, scan_cons_again hfirst, scan_append_again hmajor,
    scan_cons_again hdot, scan_cons_again hsecond, scan_append_again hminor]
  rfl

/-- The status code of a response is read. -/
theorem scan_number (r : Response) (rest : List UInt8) :
    scan parseByte (.status, {}) (r.number ++ rest) =
      scan parseByte (.spaceAfterStatus, ⟨r.code, 3⟩) rest := by
  simp only [number, List.append_assoc, List.cons_append, List.nil_append]
  rw [scan_spaces, scan_cons_again (parseByte_digit r.digit₁_digit), if_neg (by decide),
    scan_spaces, scan_cons_again (parseByte_digit r.digit₂_digit),
    if_neg (by simp [HttpStatus.addDigit]), scan_spaces,
    scan_cons_again (parseByte_digit r.digit₃_digit),
    if_pos (by simp [HttpStatus.addDigit])]
  simp [HttpStatus.addDigit, code]

/-- A response is read to the end of its header, whatever follows. -/
theorem scan_bytes (r : Response) (rest : List UInt8) :
    scan parseByte (.start, {}) (r.bytes ++ rest) = .stop (.done r.code) := by
  rw [bytes, List.append_assoc, scan_append_again r.scan_version, List.append_assoc,
    r.scan_number, r.headerEnd.scan_eq]

/-- What the parser accepts begins with a response. -/
theorem exists_of_scan {input : List UInt8} {code : ℕ}
    (h : scan parseByte (.start, {}) input = .stop (.done code)) :
    ∃ (r : Response) (rest : List UInt8), r.bytes ++ rest = input := by
  -- "HTTP/", the version, the three digits and the rest, one after the other
  obtain ⟨_, _, rfl, rfl, h₁⟩ := exists_of_goOnIf (fun c => rfl) h
  obtain ⟨_, _, rfl, rfl, h₂⟩ := exists_of_goOnIf (fun c => rfl) h₁
  obtain ⟨_, _, rfl, rfl, h₃⟩ := exists_of_goOnIf (fun c => rfl) h₂
  obtain ⟨_, _, rfl, rfl, h₄⟩ := exists_of_goOnIf (fun c => rfl) h₃
  obtain ⟨_, _, rfl, rfl, h₅⟩ := exists_of_goOnIf (fun c => rfl) h₄
  obtain ⟨majorFirst, _, rfl, hmajorFirst, h₆⟩ := exists_of_goOnIf (fun c => rfl) h₅
  obtain ⟨major, _, rfl, hmajor, h₇⟩ := exists_digits (fun c => rfl) (by decide) h₆
  obtain ⟨minorFirst, _, rfl, hminorFirst, h₈⟩ := exists_of_goOnIf (fun c => rfl) h₇
  obtain ⟨minor, _, rfl, hminor, h₉⟩ := exists_digits (fun c => rfl) (by decide) h₈
  obtain ⟨spaces₁, digit₁, _, rfl, hdigit₁, hcode₁⟩ := exists_digit h₉
  obtain ⟨spaces₂, digit₂, _, rfl, hdigit₂, hcode₂⟩ := exists_digit hcode₁
  obtain ⟨spaces₃, digit₃, _, rfl, hdigit₃, hcode₃⟩ := exists_digit hcode₂
  obtain ⟨ending, hending, rest, rfl⟩ := exists_headerEnd hcode₃
  exact ⟨⟨majorFirst, major, minorFirst, minor, spaces₁, spaces₂, spaces₃, digit₁, digit₂, digit₃,
    ending, hmajorFirst, hmajor, hminorFirst, hminor, hdigit₁, hdigit₂, hdigit₃, hending⟩, rest,
    by simp [bytes, version, number]⟩

/-- The parser accepts exactly what begins with a response, and the code that it returns is the code
of the response. -/
theorem parseStatusLine_done_iff {input : List UInt8} {code : ℕ} :
    parseStatusLine .start {} input = .stop (.done code) ↔
      ∃ r : Response, r.code = code ∧ r.bytes <+: input := by
  rw [parseStatusLine, if_neg LineState.noConfusion]
  constructor
  · intro h
    obtain ⟨r, rest, rfl⟩ := exists_of_scan h
    rw [r.scan_bytes] at h
    exact ⟨r, LineResult.done.inj (Scan.stop.inj h), rest, rfl⟩
  · rintro ⟨r, rfl, rest, rfl⟩
    exact r.scan_bytes rest

end Response

end HealthCheck.Nginx
