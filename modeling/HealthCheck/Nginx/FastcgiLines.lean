import HealthCheck.Nginx.Fastcgi

/-!
# The lines of an answer over FastCGI

The content of a record is read line by line, and the first line that decides something decides the
check. What a line decides is said here without the states of the parser: a colon behind its first
byte makes a header of it, wherever the line stands, and a header whose first byte can not be part
of a name takes the worker down.
-/

namespace HealthCheck.Nginx

open Scanner

/-- What ends the name of a header. -/
def colon : UInt8 := ':'.toUInt8

/-- Neither a byte of the end of a line nor the end of a string. -/
def LineByte (c : UInt8) : Prop := c ≠ crByte ∧ c ≠ lfByte ∧ c ≠ 0

instance (c : UInt8) : Decidable (LineByte c) := inferInstanceAs (Decidable (_ ∧ _ ∧ _))

theorem lineBytes_of_all {bytes : List UInt8}
    (h : (bytes.all fun c => decide (LineByte c)) = true) : ∀ c ∈ bytes, LineByte c :=
  fun c hc => of_decide_eq_true (List.all_eq_true.mp h c hc)

/-- The end of a line, with a carriage return or without. -/
def lineEnd (crlf : Bool) : List UInt8 := if crlf then [crByte, lfByte] else [lfByte]

/-- A line of the content. Behind a space, `sw_space_after_value` does not take a bare line feed for
the end of the line. -/
structure ContentLine where
  body : List UInt8
  crlf : Bool
  plain : ∀ c ∈ body, LineByte c
  closed : crlf = true ∨ body.getLast? ≠ some space

def ContentLine.text (line : ContentLine) : List UInt8 := line.body ++ lineEnd line.crlf

/-- What the value of a status decides: nothing when it is empty, and otherwise its first three
bytes are digits or it is an error. -/
def statusValue : List UInt8 → Option HeaderResult
  | [] => none
  | a :: b :: c :: _ =>
    if IsDigitFrom '1' a ∧ IsDigitFrom '0' b ∧ IsDigitFrom '0' c then
      some (.status ((digitValue a * 10 + digitValue b) * 10 + digitValue c))
    else some .error
  | _ => some .error

/-- What a line decides, if anything. The name of the status can be cut short. -/
def lineResult : List UInt8 → Option HeaderResult
  | [] => none
  | c :: rest =>
    if rest.contains colon then
      if isNameByte c then
        if strncaseEq (c :: rest.takeWhile (· != colon)) statusName then
          statusValue ((rest.dropWhile (· != colon)).tail.dropWhile (· == space))
        else none
      else some .crash
    else none

/-! ### What the parser makes of a line -/

section Lines

variable {crlf : Bool} {s : HeaderScan} {name : Option (List UInt8)} {c : UInt8}
  {bytes more : List UInt8}

/-- The states in which a line can end. -/
inductive EndsLine (crlf : Bool) : HeaderScan → Prop where
  | start {s : HeaderScan} (state : s.state = .start) : EndsLine crlf s
  | name {s : HeaderScan} (state : s.state = .name) : EndsLine crlf s
  | spaceBeforeValue {s : HeaderScan} (state : s.state = .spaceBeforeValue) : EndsLine crlf s
  | value {s : HeaderScan} (state : s.state = .value) (find : s.find = false) : EndsLine crlf s
  | spaceAfterValue {s : HeaderScan} (state : s.state = .spaceAfterValue) (h : crlf = true) :
      EndsLine crlf s

theorem scan_lineEnd (h : EndsLine crlf s) (more : List UInt8) :
    scan (restart headerByte {}) s (lineEnd crlf ++ more) = readLines more := by
  obtain ⟨state, name, find, code, count⟩ := s
  cases h with
  | start hstate | name hstate | spaceBeforeValue hstate =>
    obtain rfl := hstate
    cases crlf <;> rfl
  | value hstate hfind =>
    obtain rfl := hstate
    obtain rfl := hfind
    cases crlf <;> rfl
  | spaceAfterValue hstate hcrlf =>
    obtain rfl := hstate
    obtain rfl := hcrlf
    rfl

theorem restart_of_again {s' : HeaderScan} (h : headerByte s c = .again s') :
    restart headerByte {} s c = .again s' := by
  rw [restart, h]

theorem restart_of_some {r : HeaderResult} (h : headerByte s c = .stop (some r)) :
    restart headerByte {} s c = .stop r := by
  rw [restart, h]

theorem headerByte_first (hc : LineByte c) :
    headerByte {} c =
      .again { state := .name, name := if isNameByte c = true then some [c] else none } := by
  obtain ⟨hcr, hlf, hzero⟩ := hc
  cases hname : isNameByte c <;> simp [headerByte, hcr, hlf, hzero, hname]

theorem headerByte_name (hc : LineByte c) (hcolon : c ≠ colon) (name : Option (List UInt8)) :
    headerByte { state := .name, name } c =
      .again { state := .name, name := name.map fun name => name ++ [c] } := by
  obtain ⟨hcr, hlf, hzero⟩ := hc
  have hcolon : c ≠ ':'.toUInt8 := hcolon
  cases hname : isNameByte c <;> simp [headerByte, hcr, hlf, hzero, hname, hcolon]

/-- The bytes up to the colon. -/
theorem scan_name (hplain : ∀ c ∈ bytes, LineByte c) (hcolon : colon ∉ bytes)
    (name : Option (List UInt8)) (more : List UInt8) :
    scan (restart headerByte {}) { state := .name, name } (bytes ++ more) =
      scan (restart headerByte {}) { state := .name, name := name.map fun name => name ++ bytes }
        more := by
  induction bytes generalizing name with
  | nil => cases name <;> simp
  | cons c bytes ih =>
    obtain ⟨hc, hplain⟩ := List.forall_mem_cons.mp hplain
    obtain ⟨hne, hcolon⟩ := not_or.mp (mt List.mem_cons.mpr hcolon)
    rw [List.cons_append,
      scan_cons_again (restart_of_again (headerByte_name hc (Ne.symm hne) name)), ih hplain hcolon]
    cases name <;> simp

/-- A byte of a value that is not the one of a status. -/
theorem headerByte_value (hc : LineByte c) (hfind : s.find = false)
    (hstate : s.state = .spaceBeforeValue ∨ s.state = .value ∨ s.state = .spaceAfterValue) :
    ∃ s', headerByte s c = .again s' ∧ s'.find = false ∧
      (s'.state = .spaceBeforeValue ∨ s'.state = .value ∨ s'.state = .spaceAfterValue) ∧
      (s'.state = .spaceAfterValue → c = space) := by
  obtain ⟨state, name, find, code, count⟩ := s
  obtain ⟨hcr, hlf, hzero⟩ := hc
  obtain rfl : find = false := hfind
  by_cases hspace : c = space
  · rcases hstate with rfl | rfl | rfl <;> simp [headerByte, hspace]
  · rcases hstate with rfl | rfl | rfl <;> simp [headerByte, hcr, hlf, hzero, hspace]

/-- The value of another header is skipped. -/
theorem scan_value (hplain : ∀ c ∈ bytes, LineByte c) (hfind : s.find = false)
    (hstate : s.state = .spaceBeforeValue ∨ s.state = .value ∨ s.state = .spaceAfterValue)
    (hclosed : crlf = true ∨
      bytes.getLast? ≠ some space ∧ (bytes = [] → s.state ≠ .spaceAfterValue))
    (more : List UInt8) :
    scan (restart headerByte {}) s (bytes ++ (lineEnd crlf ++ more)) = readLines more := by
  induction bytes generalizing s with
  | nil =>
    refine scan_lineEnd ?_ more
    rcases hstate with hstate | hstate | hstate
    · exact .spaceBeforeValue hstate
    · exact .value hstate hfind
    · refine .spaceAfterValue hstate (hclosed.resolve_right ?_)
      rintro ⟨-, hnot⟩
      exact hnot rfl hstate
  | cons c bytes ih =>
    obtain ⟨hc, hplain⟩ := List.forall_mem_cons.mp hplain
    obtain ⟨s', hs', hfind', hstate', hspace⟩ := headerByte_value hc hfind hstate
    rw [List.cons_append, scan_cons_again (restart_of_again hs')]
    -- only a space leads to the state in which a bare line feed would not end the line
    refine ih hplain hfind' hstate' (hclosed.imp_right ?_)
    rintro ⟨hlast, -⟩
    cases bytes with
    | nil =>
      refine ⟨by simp, fun _ hafter => hlast ?_⟩
      rw [hspace hafter]
      rfl
    | cons d bytes => exact ⟨by rwa [List.getLast?_cons_cons] at hlast, by simp⟩

/-- The bytes of a value that is the one of a status. -/
theorem scan_digit (hc : IsDigitFrom '0' c) {code count : ℕ} (hcount : count + 1 ≠ 3)
    (more : List UInt8) :
    scan (restart headerByte {}) ⟨.value, name, true, code, count⟩ (c :: more) =
      scan (restart headerByte {})
        ⟨.value, name.map fun name => name ++ [c], true, code * 10 + digitValue c, count + 1⟩
          more :=
  scan_cons_again (restart_of_again (by simp [headerByte, hc, hcount]))

theorem scan_not_digit (hc : ¬ IsDigitFrom '0' c) {code count : ℕ} (more : List UInt8) :
    scan (restart headerByte {}) ⟨.value, name, true, code, count⟩ (c :: more) = .stop .error :=
  scan_cons_stop (restart_of_some (by simp [headerByte, hc]))

theorem scan_last_digit (hc : IsDigitFrom '0' c) {code : ℕ} (more : List UInt8) :
    scan (restart headerByte {}) ⟨.value, name, true, code, 2⟩ (c :: more) =
      .stop (.status (code * 10 + digitValue c)) :=
  scan_cons_stop (restart_of_some (by simp [headerByte, hc]))

theorem scan_few_digits (crlf : Bool) {code count : ℕ} (more : List UInt8) :
    scan (restart headerByte {}) ⟨.value, name, true, code, count⟩ (lineEnd crlf ++ more) =
      .stop .error := by
  cases crlf <;> rfl

/-- The first digit has been read. -/
theorem scan_first_digit {a : UInt8} (ha : IsDigitFrom '1' a) (bytes more : List UInt8) :
    scan (restart headerByte {}) ⟨.value, name, true, digitValue a, 1⟩
        (bytes ++ (lineEnd crlf ++ more)) =
      (statusValue (a :: bytes)).elim (readLines more) .stop := by
  rcases bytes with _ | ⟨b, bytes⟩
  · exact scan_few_digits crlf more
  by_cases hb : IsDigitFrom '0' b
  · rw [List.cons_append, scan_digit hb (by decide)]
    rcases bytes with _ | ⟨c, bytes⟩
    · exact scan_few_digits crlf more
    by_cases hc : IsDigitFrom '0' c
    · rw [List.cons_append, scan_last_digit hc, statusValue, if_pos ⟨ha, hb, hc⟩]
      rfl
    · rw [List.cons_append, scan_not_digit hc, statusValue, if_neg (by tauto)]
      rfl
  · rw [List.cons_append, scan_not_digit hb]
    rcases bytes with _ | ⟨c, bytes⟩
    · rfl
    · rw [statusValue, if_neg (by tauto)]
      rfl

theorem statusValue_of_not {a : UInt8} (ha : ¬ IsDigitFrom '1' a) (bytes : List UInt8) :
    statusValue (a :: bytes) = some .error := by
  rcases bytes with _ | ⟨b, _ | ⟨c, bytes⟩⟩
  · rfl
  · rfl
  · rw [statusValue, if_neg (by tauto)]

/-- The value of a status. -/
theorem scan_status (hplain : ∀ c ∈ bytes, LineByte c) (name : Option (List UInt8))
    (more : List UInt8) :
    scan (restart headerByte {}) ⟨.spaceBeforeValue, name, true, 0, 0⟩
        (bytes ++ (lineEnd crlf ++ more)) =
      (statusValue (bytes.dropWhile (· == space))).elim (readLines more) .stop := by
  induction bytes generalizing name with
  | nil => exact scan_lineEnd (.spaceBeforeValue rfl) more
  | cons c bytes ih =>
    obtain ⟨⟨hcr, hlf, hzero⟩, hplain⟩ := List.forall_mem_cons.mp hplain
    rw [List.cons_append]
    by_cases hspace : c = space
    · rw [List.dropWhile_cons_of_pos (by simpa using hspace)]
      have hstay : headerByte ⟨.spaceBeforeValue, name, true, 0, 0⟩ c =
          .again ⟨.spaceBeforeValue, name.map fun name => name ++ [c], true, 0, 0⟩ := by
        simp [headerByte, hspace]
      rw [scan_cons_again (restart_of_again hstay)]
      exact ih hplain _
    · rw [List.dropWhile_cons_of_neg (by simpa using hspace)]
      by_cases hdigit : IsDigitFrom '1' c
      · have hfirst : headerByte ⟨.spaceBeforeValue, name, true, 0, 0⟩ c =
            .again ⟨.value, name.map fun name => name ++ [c], true, digitValue c, 1⟩ := by
          simp [headerByte, hcr, hlf, hzero, hspace, hdigit]
        rw [scan_cons_again (restart_of_again hfirst)]
        exact scan_first_digit hdigit bytes more
      · have herror : headerByte ⟨.spaceBeforeValue, name, true, 0, 0⟩ c = .stop (some .error) := by
          simp [headerByte, hcr, hlf, hzero, hspace, hdigit]
        rw [scan_cons_stop (restart_of_some herror), statusValue_of_not hdigit]
        rfl

/-- The parts of a header. -/
theorem lineResult_header {first : List UInt8} (hfirst : colon ∉ first) (c : UInt8)
    (value : List UInt8) :
    lineResult (c :: (first ++ colon :: value)) =
      if isNameByte c then
        if strncaseEq (c :: first) statusName then statusValue (value.dropWhile (· == space))
        else none
      else some .crash := by
  have hbefore : ∀ b ∈ first, (b != colon) = true := by
    intro b hb
    rw [bne_iff_ne]
    rintro rfl
    exact hfirst hb
  have hname : (first ++ colon :: value).takeWhile (· != colon) = first := by
    rw [List.takeWhile_append_of_pos hbefore]
    simp
  have hrest : (first ++ colon :: value).dropWhile (· != colon) = colon :: value := by
    rw [List.dropWhile_append_of_pos hbefore]
    simp
  rw [lineResult, if_pos (by simp), hname, hrest, List.tail_cons]

/-- A header, from the colon on. -/
theorem scan_colon {first value : List UInt8} (hplain : ∀ c ∈ value, LineByte c)
    (hclosed : crlf = true ∨ value.getLast? ≠ some space) (more : List UInt8) :
    scan (restart headerByte {}) { state := .name, name := some first }
        (colon :: (value ++ (lineEnd crlf ++ more))) =
      (if strncaseEq first statusName then statusValue (value.dropWhile (· == space))
        else none).elim (readLines more) .stop := by
  have hbyte : headerByte { state := .name, name := some first } colon =
      .again ⟨.spaceBeforeValue, some (first ++ [colon]), strncaseEq first statusName, 0, 0⟩ := rfl
  rw [scan_cons_again (restart_of_again hbyte)]
  cases strncaseEq first statusName with
  | true => exact scan_status hplain _ more
  | false =>
    exact scan_value hplain rfl (.inl rfl)
      (hclosed.imp_right fun hlast => ⟨hlast, fun _ => HeaderState.noConfusion⟩) more

/-- A line of a content decides what it says, and otherwise the next one does. -/
theorem readLines_line (line : ContentLine) (more : List UInt8) :
    readLines (line.text ++ more) = (lineResult line.body).elim (readLines more) .stop := by
  obtain ⟨body, crlf, hplain, hclosed⟩ := line
  change scan (restart headerByte {}) {} ((body ++ lineEnd crlf) ++ more) =
    (lineResult body).elim (readLines more) .stop
  rw [List.append_assoc]
  cases body with
  | nil => exact scan_lineEnd (.start rfl) more
  | cons c rest =>
    obtain ⟨hc, hplain⟩ := List.forall_mem_cons.mp hplain
    rw [List.cons_append, scan_cons_again (restart_of_again (headerByte_first hc))]
    -- the first byte is part of the name even if it is a colon
    by_cases hcolon : colon ∈ rest
    · obtain ⟨first, value, rfl, hfirst⟩ := List.eq_append_cons_of_mem hcolon
      have hbefore : ∀ b ∈ first, LineByte b := fun b hb => hplain b (List.mem_append_left _ hb)
      have hvalue : ∀ b ∈ value, LineByte b := fun b hb =>
        hplain b (List.mem_append_right _ (List.mem_cons_of_mem _ hb))
      rw [lineResult_header hfirst, List.append_assoc, scan_name hbefore hfirst, List.cons_append]
      cases isNameByte c with
      | true =>
        refine scan_colon hvalue (hclosed.imp_right fun hlast => ?_) more
        cases value with
        | nil => simp
        | cons d value =>
          rwa [← List.cons_append, List.getLast?_append_cons, List.getLast?_cons_cons] at hlast
      | false => exact scan_cons_stop rfl
    · rw [scan_name hplain hcolon, scan_lineEnd (.name rfl), lineResult,
        if_neg (by simpa using hcolon)]
      rfl

/-- The first line that decides something decides. -/
theorem readLines_lines (lines : List ContentLine) (more : List UInt8) :
    readLines (lines.flatMap ContentLine.text ++ more) =
      (lines.findSome? fun line => lineResult line.body).elim (readLines more) .stop := by
  induction lines with
  | nil => rfl
  | cons line lines ih =>
    rw [List.flatMap_cons, List.append_assoc, readLines_line, List.findSome?_cons]
    cases lineResult line.body with
    | none => exact ih
    | some r => rfl

end Lines

/-! ### What the check makes of the lines -/

/-- What `ngx_http_upstream_check_fastcgi_parse` returns for the line that decides. -/
def HeaderResult.code (statusAlive : ℕ) : HeaderResult → FastcgiCode
  | .status code => if statusAlive = 0 ∨ codeMask code &&& statusAlive ≠ 0 then .ok else .error
  | .error => .error
  | .crash => .crash

theorem judgeContent_lines (statusAlive : ℕ) (lines : List ContentLine) :
    judgeContent statusAlive (lines.flatMap ContentLine.text) =
      (lines.findSome? fun line => lineResult line.body).elim .ok
        (HeaderResult.code statusAlive) := by
  have hread := readLines_lines lines []
  rw [List.append_nil] at hread
  rw [judgeContent, hread]
  cases lines.findSome? fun line => lineResult line.body with
  | none => rfl
  | some r => cases r <;> rfl

section Answers

variable {halfPage : ℕ} {hi lo padding : UInt8} {lines : List ContentLine} {extra : List UInt8}

theorem ContentLine.text_ne_nil (line : ContentLine) : line.text ≠ [] := by
  obtain ⟨body, crlf, _, _⟩ := line
  cases crlf <;> simp [ContentLine.text, lineEnd]

/-- The answer comes as a whole, and something behind its first record. -/
theorem verdict_lines (statusAlive : ℕ) (hpage : 0 < halfPage) (hlines : lines ≠ [])
    (hlength : contentLength hi lo = (lines.flatMap ContentLine.text).length) (hextra : extra ≠ [])
    (pieces : List (List UInt8)) :
    fastcgiVerdict halfPage statusAlive {}
        ((stdoutHead hi lo padding ++ (lines.flatMap ContentLine.text ++ extra)) :: pieces) =
      (lines.findSome? fun line => lineResult line.body).elim .ok
        (HeaderResult.code statusAlive) := by
  have hpos : 0 < contentLength hi lo := by
    rw [hlength]
    apply List.length_pos_of_ne_nil
    intro hnil
    obtain ⟨line, hline⟩ := List.exists_mem_of_ne_nil lines hlines
    exact line.text_ne_nil (List.flatMap_eq_nil_iff.mp hnil line hline)
  have hlong : contentLength hi lo < (lines.flatMap ContentLine.text ++ extra).length := by
    have hone := List.length_pos_of_ne_nil hextra
    rw [List.length_append]
    omega
  rw [verdict_of_whole_head statusAlive hpage, judgeRecord_of_lt statusAlive _ hpos hlong, hlength,
    List.take_left, judgeContent_lines]

/-- A line takes the worker down if and only if it has a colon behind its first byte and begins with
a byte that no name begins with. -/
theorem lineResult_eq_crash_iff (body : List UInt8) :
    lineResult body = some .crash ↔
      ∃ c rest, body = c :: rest ∧ isNameByte c = false ∧ colon ∈ rest := by
  have hvalue : ∀ value, statusValue value ≠ some .crash := by
    intro value
    rcases value with _ | ⟨a, _ | ⟨b, _ | ⟨c, value⟩⟩⟩
    · simp [statusValue]
    · simp [statusValue]
    · simp [statusValue]
    · rw [statusValue]
      split_ifs <;> simp
  cases body with
  | nil => simp [lineResult]
  | cons c rest =>
    by_cases hcolon : colon ∈ rest
    · obtain ⟨first, value, rfl, hfirst⟩ := List.eq_append_cons_of_mem hcolon
      rw [lineResult_header hfirst]
      cases hname : isNameByte c with
      | true =>
        refine iff_of_false ?_ ?_
        · rw [if_pos rfl]
          split_ifs
          · exact hvalue _
          · exact not_false
        · rintro ⟨c', rest, hbody, hnot, -⟩
          obtain ⟨rfl, -⟩ := List.cons.inj hbody
          rw [hname] at hnot
          cases hnot
      | false => exact iff_of_true rfl ⟨c, _, rfl, hname, hcolon⟩
    · rw [lineResult, if_neg (by simpa using hcolon)]
      refine iff_of_false (by simp) ?_
      rintro ⟨c', rest', hbody, -, hmem⟩
      obtain ⟨rfl, rfl⟩ := List.cons.inj hbody
      exact hcolon hmem

theorem code_eq_ok_iff (statusAlive : ℕ) (r : HeaderResult) :
    r.code statusAlive = .ok ↔
      ∃ code, r = .status code ∧ (statusAlive = 0 ∨ codeMask code &&& statusAlive ≠ 0) := by
  cases r with
  | status code =>
    rw [HeaderResult.code]
    split_ifs with halive <;> simp [halive]
  | error | crash => simp [HeaderResult.code]

theorem code_eq_crash_iff (statusAlive : ℕ) (r : HeaderResult) :
    r.code statusAlive = .crash ↔ r = .crash := by
  cases r with
  | status code =>
    rw [HeaderResult.code]
    split_ifs <;> simp
  | error | crash => simp [HeaderResult.code]

/-- The check succeeds if and only if no line decides anything or the first one that does has a
status that is configured. Lines of the header and of the body of the response are treated alike. -/
theorem fastcgi_accepts_lines_iff (statusAlive : ℕ) (hpage : 0 < halfPage) (hlines : lines ≠ [])
    (hlength : contentLength hi lo = (lines.flatMap ContentLine.text).length) (hextra : extra ≠ [])
    (pieces : List (List UInt8)) :
    fastcgiVerdict halfPage statusAlive {}
        ((stdoutHead hi lo padding ++ (lines.flatMap ContentLine.text ++ extra)) :: pieces) = .ok ↔
      (∀ line ∈ lines, lineResult line.body = none) ∨
      ∃ before line after code, lines = before ++ line :: after ∧
        (∀ earlier ∈ before, lineResult earlier.body = none) ∧
        lineResult line.body = some (.status code) ∧
        (statusAlive = 0 ∨ codeMask code &&& statusAlive ≠ 0) := by
  rw [verdict_lines statusAlive hpage hlines hlength hextra]
  cases hfirst : lines.findSome? fun line => lineResult line.body with
  | none => exact iff_of_true rfl (.inl (List.findSome?_eq_none_iff.mp hfirst))
  | some r =>
    obtain ⟨before, line, after, hsplit, hline, hbefore⟩ := List.findSome?_eq_some_iff.mp hfirst
    rw [Option.elim_some, code_eq_ok_iff]
    constructor
    · rintro ⟨code, rfl, halive⟩
      exact .inr ⟨before, line, after, code, hsplit, hbefore, hline, halive⟩
    · rintro (hnone | ⟨before', line', after', code, hsplit', hbefore', hline', halive⟩)
      · rw [List.findSome?_eq_none_iff.mpr hnone] at hfirst
        cases hfirst
      · have hfirst' :=
          List.findSome?_eq_some_iff.mpr ⟨before', line', after', hsplit', hline', hbefore'⟩
        exact ⟨code, Option.some.inj (hfirst.symm.trans hfirst'), halive⟩

/-- The worker is taken down if and only if the first line that decides anything has a colon behind
its first byte and begins with a byte that no name begins with. -/
theorem fastcgi_crashes_iff (statusAlive : ℕ) (hpage : 0 < halfPage) (hlines : lines ≠ [])
    (hlength : contentLength hi lo = (lines.flatMap ContentLine.text).length) (hextra : extra ≠ [])
    (pieces : List (List UInt8)) :
    fastcgiVerdict halfPage statusAlive {}
        ((stdoutHead hi lo padding ++ (lines.flatMap ContentLine.text ++ extra)) :: pieces) =
      .crash ↔
      ∃ before line after c rest, lines = before ++ line :: after ∧
        (∀ earlier ∈ before, lineResult earlier.body = none) ∧
        line.body = c :: rest ∧ isNameByte c = false ∧ colon ∈ rest := by
  rw [verdict_lines statusAlive hpage hlines hlength hextra]
  have hcrash : (lines.findSome? fun line => lineResult line.body).elim .ok
      (HeaderResult.code statusAlive) = .crash ↔
        (lines.findSome? fun line => lineResult line.body) = some .crash := by
    cases lines.findSome? fun line => lineResult line.body with
    | none => simp
    | some r => rw [Option.elim_some, code_eq_crash_iff, Option.some.injEq]
  rw [hcrash, List.findSome?_eq_some_iff]
  constructor
  · rintro ⟨before, line, after, hsplit, hline, hbefore⟩
    obtain ⟨c, rest, hbody, hname, hcolon⟩ := (lineResult_eq_crash_iff _).mp hline
    exact ⟨before, line, after, c, rest, hsplit, hbefore, hbody, hname, hcolon⟩
  · rintro ⟨before, line, after, c, rest, hsplit, hbefore, hbody, hname, hcolon⟩
    exact ⟨before, line, after, hsplit,
      (lineResult_eq_crash_iff _).mpr ⟨c, rest, hbody, hname, hcolon⟩, hbefore⟩

end Answers

/-- A page with one line of text, as an application sends it that sets no status. -/
def page (line : ContentLine) : List ContentLine :=
  [⟨"Content-type: text/html".toUTF8.data.toList, true, lineBytes_of_all rfl, .inl rfl⟩,
    ⟨[], true, lineBytes_of_all rfl, .inl rfl⟩, line]

/-- The line says that all is well. -/
def wellLine : ContentLine where
  body := "<p>ok</p>".toUTF8.data.toList
  crlf := false
  plain := lineBytes_of_all rfl
  closed := .inr (by decide)

/-- The line tells the time. -/
def clockLine : ContentLine where
  body := "<p>10:30</p>".toUTF8.data.toList
  crlf := false
  plain := lineBytes_of_all rfl
  closed := .inr (by decide)

theorem page_accepted :
    fastcgiVerdict 2048 0x0002 {}
      [stdoutHead 0 37 3 ++ ((page wellLine).flatMap ContentLine.text ++ [0, 0, 0])] = .ok := by
  refine (fastcgi_accepts_lines_iff 0x0002 (by decide) (List.cons_ne_nil _ _) rfl
    (List.cons_ne_nil _ _) []).mpr (.inl ?_)
  intro line hline
  simp only [List.mem_cons, List.not_mem_nil, or_false] at hline
  rcases hline with rfl | rfl | rfl <;> decide

theorem page_crashes :
    fastcgiVerdict 2048 0x0002 {}
      [stdoutHead 0 40 0 ++ ((page clockLine).flatMap ContentLine.text ++ [1])] = .crash := by
  refine (fastcgi_crashes_iff 0x0002 (by decide) (List.cons_ne_nil _ _) rfl
    (List.cons_ne_nil _ _) []).mpr ?_
  refine ⟨(page clockLine).take 2, clockLine, [], '<'.toUInt8, clockLine.body.tail,
    rfl, ?_, rfl, ?_, ?_⟩
  · intro line hline
    simp only [page, List.take_succ_cons, List.take_zero, List.mem_cons, List.not_mem_nil,
      or_false] at hline
    rcases hline with rfl | rfl <;> decide
  · decide
  · decide

end HealthCheck.Nginx
