import HealthCheck.Go.Numerals
import HealthCheck.Scanner

/-!
# JSON texts

The automaton by which `encoding/json` reads a text, one character after the other, with a stack of
the arrays and objects that are open. Here it keeps the values as well. Numbers and strings are kept
as they are written, which for a string without escape sequences is the string.

The rules at the end say of a text that is put together from others what the automaton makes of it:
the value that it denotes, or nothing.
-/

namespace HealthCheck.Go.Json

open Scanner

inductive Value where
  | null
  | bool (b : Bool)
  | num (literal : List Char)
  | str (literal : List Char)
  | arr (elems : List Value)
  | obj (members : List (List Char × Value))

/-- An array or object that is open: what has been read of it, and the key whose value is being
read. -/
inductive Frame where
  | arr (done : List Value)
  | obj (done : List (List Char × Value))
  | member (done : List (List Char × Value)) (key : List Char)

/-- Where the automaton is in a number. -/
inductive NumberState where
  | neg
  | zero
  | int
  | dot
  | frac
  | exp
  | expSign
  | expDigits

/-- The number may end here. -/
def NumberState.complete : NumberState → Bool
  | .zero | .int | .frac | .expDigits => true
  | .neg | .dot | .exp | .expSign => false

inductive Mode where
  | value
  | valueOrEnd
  | key
  | keyOrEnd
  | text (isKey : Bool) (read : List Char)
  | escape (isKey : Bool) (read : List Char)
  | hex (isKey : Bool) (read : List Char) (left : ℕ)
  | colon (key : List Char)
  | number (state : NumberState) (read : List Char)
  | word (rest : List Char) (v : Value)
  | after (v : Value)

abbrev Cfg := Mode × List Frame

def fail : Scan Cfg Unit := .stop ()

def isSpace (c : Char) : Bool := c == ' ' || c == '\t' || c == '\r' || c == '\n'

/-- `stateBeginValue`, but for the spaces. -/
def beginValue (stack : List Frame) (c : Char) : Scan Cfg Unit :=
  if c = '{' then .again (.keyOrEnd, .obj [] :: stack)
  else if c = '[' then .again (.valueOrEnd, .arr [] :: stack)
  else if c = '"' then .again (.text false [], stack)
  else if c = '-' then .again (.number .neg [c], stack)
  else if c = '0' then .again (.number .zero [c], stack)
  else if c.isDigit then .again (.number .int [c], stack)
  else if c = 't' then .again (.word "rue".toList (.bool true), stack)
  else if c = 'f' then .again (.word "alse".toList (.bool false), stack)
  else if c = 'n' then .again (.word "ull".toList .null, stack)
  else fail

/-- `stateEndValue`. -/
def endValue (v : Value) (stack : List Frame) (c : Char) : Scan Cfg Unit :=
  if isSpace c then .again (.after v, stack)
  else
    match stack with
    | .arr done :: stack =>
      if c = ',' then .again (.value, .arr (done ++ [v]) :: stack)
      else if c = ']' then .again (.after (.arr (done ++ [v])), stack)
      else fail
    | .member done key :: stack =>
      if c = ',' then .again (.key, .obj (done ++ [(key, v)]) :: stack)
      else if c = '}' then .again (.after (.obj (done ++ [(key, v)])), stack)
      else fail
    | _ => fail

/-- The beginning of a key. -/
def beginKey (stack : List Frame) (c : Char) : Scan Cfg Unit :=
  if c = '"' then .again (.text true [], stack) else fail

/-- The end of a number, unless there is a fraction or an exponent. -/
def endNumber (dot : Bool) (read : List Char) (stack : List Frame) (c : Char) : Scan Cfg Unit :=
  if dot && c == '.' then .again (.number .dot (read ++ [c]), stack)
  else if c = 'e' || c = 'E' then .again (.number .exp (read ++ [c]), stack)
  else endValue (.num read) stack c

def numberStep (state : NumberState) (read : List Char) (stack : List Frame) (c : Char) :
    Scan Cfg Unit :=
  match state with
  | .neg =>
    if c = '0' then .again (.number .zero (read ++ [c]), stack)
    else if c.isDigit then .again (.number .int (read ++ [c]), stack)
    else fail
  | .zero => endNumber true read stack c
  | .int =>
    if c.isDigit then .again (.number .int (read ++ [c]), stack) else endNumber true read stack c
  | .dot => if c.isDigit then .again (.number .frac (read ++ [c]), stack) else fail
  | .frac =>
    if c.isDigit then .again (.number .frac (read ++ [c]), stack) else endNumber false read stack c
  | .exp =>
    if c = '+' || c = '-' then .again (.number .expSign (read ++ [c]), stack)
    else if c.isDigit then .again (.number .expDigits (read ++ [c]), stack)
    else fail
  | .expSign => if c.isDigit then .again (.number .expDigits (read ++ [c]), stack) else fail
  | .expDigits =>
    if c.isDigit then .again (.number .expDigits (read ++ [c]), stack)
    else endValue (.num read) stack c

/-- Inside a string. -/
def textStep (isKey : Bool) (read : List Char) (stack : List Frame) (c : Char) : Scan Cfg Unit :=
  if c = '"' then .again (if isKey then .colon read else .after (.str read), stack)
  else if c = '\\' then .again (.escape isKey (read ++ [c]), stack)
  else if c < ' ' then fail
  else .again (.text isKey (read ++ [c]), stack)

def isHexDigit (c : Char) : Bool := c.isDigit || ('a' ≤ c && c ≤ 'f') || ('A' ≤ c && c ≤ 'F')

/-- Inside an escape sequence. -/
def escapeStep (isKey : Bool) (read : List Char) (stack : List Frame) (c : Char) : Scan Cfg Unit :=
  if "bfnrt\\/\"".toList.contains c then .again (.text isKey (read ++ [c]), stack)
  else if c = 'u' then .again (.hex isKey (read ++ [c]) 3, stack)
  else fail

def hexStep (isKey : Bool) (read : List Char) (left : ℕ) (stack : List Frame) (c : Char) :
    Scan Cfg Unit :=
  if isHexDigit c then
    .again
      (if left = 0 then .text isKey (read ++ [c]) else .hex isKey (read ++ [c]) (left - 1), stack)
  else fail

/-- Inside one of the words. -/
def wordStep (v : Value) (stack : List Frame) (c : Char) : List Char → Scan Cfg Unit
  | [] => fail
  | x :: rest =>
    if c = x then .again (if rest.isEmpty then .after v else .word rest v, stack) else fail

def step (s : Cfg) (c : Char) : Scan Cfg Unit :=
  match s.1, s.2 with
  | .value, stack => if isSpace c then .again s else beginValue stack c
  | .valueOrEnd, .arr _ :: stack =>
    if isSpace c then .again s
    else if c = ']' then .again (.after (.arr []), stack)
    else beginValue s.2 c
  | .key, stack => if isSpace c then .again s else beginKey stack c
  | .keyOrEnd, .obj _ :: stack =>
    if isSpace c then .again s
    else if c = '}' then .again (.after (.obj []), stack)
    else beginKey s.2 c
  | .colon key, .obj done :: stack =>
    if isSpace c then .again s
    else if c = ':' then .again (.value, .member done key :: stack)
    else fail
  | .text isKey read, stack => textStep isKey read stack c
  | .escape isKey read, stack => escapeStep isKey read stack c
  | .hex isKey read left, stack => hexStep isKey read left stack c
  | .number state read, stack => numberStep state read stack c
  | .word rest v, stack => wordStep v stack c rest
  | .after v, stack => endValue v stack c
  | _, _ => fail

/-- `checkValid`, with the value; at the end of the text a space is read. -/
def parse (text : List Char) : Option Value :=
  match scan step (.value, []) (text ++ [' ']) with
  | .again (.after v, []) => some v
  | _ => none

/-! ### Where a value ends -/

variable {mode : Mode} {stack : List Frame} {v : Value} {c : Char} {text : List Char}

/-- The automaton has read a value, or a number that may end here. -/
inductive Ready : Mode → Value → Prop where
  | after (v : Value) : Ready (.after v) v
  | number {state : NumberState} {read : List Char} (h : state.complete = true) :
      Ready (.number state read) (.num read)

/-- A character with which no number goes on. -/
def EndsNumber (c : Char) : Prop := c.isDigit = false ∧ c ≠ '.' ∧ c ≠ 'e' ∧ c ≠ 'E'

instance (c : Char) : Decidable (EndsNumber c) := inferInstanceAs (Decidable (_ ∧ _))

theorem eq_of_isSpace (h : isSpace c = true) : c = ' ' ∨ c = '\t' ∨ c = '\r' ∨ c = '\n' := by
  simpa [isSpace, or_assoc] using h

theorem endsNumber_of_isSpace (h : isSpace c = true) : EndsNumber c := by
  rcases eq_of_isSpace h with rfl | rfl | rfl | rfl <;> decide

theorem Ready.step (h : Ready mode v) (hc : EndsNumber c) (stack : List Frame) :
    Json.step (mode, stack) c = endValue v stack c := by
  cases h with
  | after => rfl
  | @number state read hcomplete =>
    obtain ⟨hdigit, hdot, he, hE⟩ := hc
    have hend : ∀ dot, endNumber dot read stack c = endValue (.num read) stack c := by
      intro dot
      simp [endNumber, hdot, he, hE]
    cases state with
    | zero => exact hend true
    | int => exact (if_neg (by simp [hdigit])).trans (hend true)
    | frac => exact (if_neg (by simp [hdigit])).trans (hend false)
    | expDigits => exact if_neg (by simp [hdigit])
    | neg | dot | exp | expSign => cases hcomplete

/-- A row of spaces. -/
def Spaces (text : List Char) : Prop := text.all isSpace = true

/-- The automaton waits for something that is not a space. -/
inductive Waits : Mode → List Frame → Prop where
  | value {stack : List Frame} : Waits .value stack
  | key {stack : List Frame} : Waits .key stack
  | keyOrEnd {done : List (List Char × Value)} {stack : List Frame} :
      Waits .keyOrEnd (.obj done :: stack)
  | valueOrEnd {done : List Value} {stack : List Frame} : Waits .valueOrEnd (.arr done :: stack)
  | after {v : Value} {stack : List Frame} : Waits (.after v) stack

theorem Waits.scan_spaces (h : Waits mode stack) (htext : Spaces text) :
    scan Json.step (mode, stack) text = .again (mode, stack) := by
  refine scan_of_stays fun c hc => ?_
  cases h with
  | value | key | keyOrEnd | valueOrEnd | after => exact if_pos (List.all_eq_true.mp htext c hc)

/-- Behind a value the spaces are skipped, whatever it was. -/
theorem Ready.scan_spaces (h : Ready mode v) (stack : List Frame) (htext : Spaces text)
    (rest : List Char) :
    ∃ mode', scan Json.step (mode, stack) (text ++ rest) = scan Json.step (mode', stack) rest ∧
      Ready mode' v := by
  cases text with
  | nil => exact ⟨mode, rfl, h⟩
  | cons c text =>
    obtain ⟨hc, hspaces⟩ := Bool.and_eq_true_iff.mp htext
    have hfirst : Json.step (mode, stack) c = .again (.after v, stack) :=
      (h.step (endsNumber_of_isSpace hc) stack).trans (if_pos hc)
    refine ⟨.after v, ?_, .after v⟩
    rw [List.cons_append, scan_cons_again hfirst,
      scan_append_again (Waits.after.scan_spaces hspaces)]

/-! ### Texts and what they denote -/

/-- Wherever a value is expected, the text is read as the given one. -/
def Reads (text : List Char) (v : Value) : Prop :=
  ∀ stack, ∃ mode, scan step (.value, stack) text = .again (mode, stack) ∧ Ready mode v

/-- Wherever a value is expected, the text is an error. -/
def Fails (text : List Char) : Prop := ∀ stack, scan step (.value, stack) text = fail

/-- What a text stands for: a value, or an error. -/
def Denotes (text : List Char) : Option Value → Prop
  | some v => Reads text v
  | none => Fails text

theorem parse_of_denotes {o : Option Value} (h : Denotes text o) {spaces : List Char}
    (hspaces : Spaces spaces) : parse (text ++ spaces) = o := by
  cases o with
  | none =>
    have hfails := scan_append_stop (h []) (spaces ++ [' '])
    rw [parse, List.append_assoc, hfails]
  | some v =>
    obtain ⟨mode, hscan, hready⟩ := h []
    obtain ⟨mode', hmode', hready'⟩ := hready.scan_spaces [] hspaces [' ']
    have hend : Json.step (mode', []) ' ' = .again (.after v, []) := hready'.step (by decide) []
    rw [parse, List.append_assoc, scan_append_again hscan, hmode', scan_cons_again hend]
    rfl

/-- A character that can stand in a string as it is. -/
def isPlain (c : Char) : Bool := c != '"' && c != '\\' && ' ' ≤ c

/-- A text that can stand in a string as it is. -/
def Plain (text : List Char) : Prop := text.all isPlain = true

theorem scan_plain (h : Plain text) (isKey : Bool) (read : List Char) :
    scan step (.text isKey read, stack) text = .again (.text isKey (read ++ text), stack) := by
  induction text generalizing read with
  | nil => simp
  | cons c text ih =>
    obtain ⟨hc, hrest⟩ := Bool.and_eq_true_iff.mp h
    obtain ⟨⟨hquote, hescape⟩, hspace⟩ : (c ≠ '"' ∧ c ≠ '\\') ∧ ' ' ≤ c := by
      simpa [isPlain] using hc
    have hstep : step (.text isKey read, stack) c = .again (.text isKey (read ++ [c]), stack) := by
      change textStep isKey read stack c = _
      rw [textStep, if_neg hquote, if_neg hescape, if_neg (Char.not_lt.mpr hspace)]
    rw [scan_cons_again hstep, ih hrest, List.append_assoc]
    rfl

theorem reads_str (h : Plain text) : Reads ('"' :: text ++ ['"']) (.str text) := by
  intro stack
  have hbegin : step (.value, stack) '"' = .again (.text false [], stack) := rfl
  refine ⟨.after (.str text), ?_, .after _⟩
  rw [List.cons_append, scan_cons_again hbegin, scan_append_again (scan_plain h false [])]
  rfl

theorem scan_digits (h : ∀ c ∈ text, c.isDigit = true) (read : List Char) :
    scan step (.number .int read, stack) text = .again (.number .int (read ++ text), stack) := by
  induction text generalizing read with
  | nil => simp
  | cons c text ih =>
    obtain ⟨hc, hrest⟩ := List.forall_mem_cons.mp h
    have hstep : step (.number .int read, stack) c = .again (.number .int (read ++ [c]), stack) :=
      if_pos hc
    rw [scan_cons_again hstep, ih hrest, List.append_assoc]
    rfl

/-- The digits of a number, of which the first is not zero. -/
theorem reads_digits {first : Char} {digits : List Char} (hfirst : first.isDigit = true)
    (hzero : first ≠ '0') (h : ∀ c ∈ digits, c.isDigit = true) :
    Reads (first :: digits) (.num (first :: digits)) := by
  intro stack
  have hne : ∀ c : Char, c.isDigit = false → first ≠ c := by
    rintro c hc rfl
    rw [hfirst] at hc
    cases hc
  have hspace : isSpace first = false := by
    simp [isSpace, hne]
  have hbegin : step (.value, stack) first = .again (.number .int [first], stack) := by
    change (if isSpace first then _ else beginValue stack first) = _
    rw [hspace, if_neg (by simp), beginValue, if_neg (hne _ rfl), if_neg (hne _ rfl),
      if_neg (hne _ rfl), if_neg (hne _ rfl), if_neg hzero, if_pos hfirst]
  refine ⟨.number .int (first :: digits), ?_, .number rfl⟩
  rw [scan_cons_again hbegin, scan_digits h]
  rfl

theorem reads_toDigits (n : ℕ) : Reads (Nat.toDigits 10 n) (.num (Nat.toDigits 10 n)) := by
  by_cases h : n = 0
  · subst h
    exact fun stack => ⟨.number .zero ['0'], rfl, .number rfl⟩
  · obtain ⟨first, digits, hdigits, hfirst⟩ := exists_toDigits h
    have hall : ∀ c ∈ first :: digits, c.isDigit = true := by
      rw [← hdigits]
      exact fun c hc => Nat.isDigit_of_mem_toDigits (by decide) (by decide) hc
    rw [hdigits]
    obtain ⟨hdigit, hrest⟩ := List.forall_mem_cons.mp hall
    exact reads_digits hdigit hfirst hrest

/-! ### Objects -/

/-- A member of an object in a text. -/
structure Member where
  key : List Char
  text : List Char
  value : Option Value
  plain : Plain key
  denotes : Denotes text value

namespace Member

def written (m : Member) : List Char := '"' :: m.key ++ '"' :: ':' :: ' ' :: m.text

def pair (m : Member) : Option (List Char × Value) := m.value.map fun v => (m.key, v)

/-- In an object a key is expected. -/
theorem scan_written (m : Member) (hmode : mode = .key ∨ mode = .keyOrEnd)
    (done : List (List Char × Value)) (stack : List Frame) (rest : List Char) :
    scan step (mode, .obj done :: stack) (m.written ++ rest) =
      scan step (.value, .member done m.key :: stack) (m.text ++ rest) := by
  have hbegin :
      step (mode, .obj done :: stack) '"' = .again (.text true [], .obj done :: stack) := by
    rcases hmode with rfl | rfl <;> rfl
  rw [written, List.cons_append, List.cons_append, List.append_assoc, scan_cons_again hbegin,
    scan_append_again (scan_plain m.plain true [])]
  rfl

/-- The members of an object, with commas between them. -/
def list (sep : List Char) : List Member → List Char
  | [] => []
  | [m] => m.written
  | m :: m' :: ms => m.written ++ (',' :: sep ++ list sep (m' :: ms))

theorem scan_list {sep trail : List Char} (hsep : Spaces sep) (htrail : Spaces trail)
    {ms : List Member} (hms : ms ≠ []) (hmode : mode = .key ∨ mode = .keyOrEnd)
    (done : List (List Char × Value)) (stack : List Frame) :
    scan step (mode, .obj done :: stack) (list sep ms ++ (trail ++ ['}'])) =
      (ms.mapM pair).elim fail fun pairs => .again (.after (.obj (done ++ pairs)), stack) := by
  induction ms generalizing mode done with
  | nil => exact absurd rfl hms
  | cons m ms ih =>
    have hvalue := m.denotes
    cases ms with
    | nil =>
      rw [list, m.scan_written hmode]
      cases hm : m.value with
      | none =>
        rw [hm] at hvalue
        rw [scan_append_stop (hvalue _)]
        simp [pair, hm, fail]
      | some v =>
        rw [hm] at hvalue
        obtain ⟨mode₁, hscan, hready⟩ := hvalue (.member done m.key :: stack)
        obtain ⟨mode₂, hspaces, hready₂⟩ :=
          hready.scan_spaces (.member done m.key :: stack) htrail ['}']
        rw [scan_append_again hscan, hspaces, scan_cons, hready₂.step (by decide)]
        simp [pair, hm]
        rfl
    | cons m' ms =>
      rw [list, List.append_assoc, m.scan_written hmode, List.mapM_cons]
      cases hm : m.value with
      | none =>
        rw [hm] at hvalue
        rw [scan_append_stop (hvalue _)]
        simp [pair, hm, fail]
      | some v =>
        rw [hm] at hvalue
        obtain ⟨mode₁, hscan, hready⟩ := hvalue (.member done m.key :: stack)
        have hcomma : step (mode₁, .member done m.key :: stack) ',' =
            .again (.key, .obj (done ++ [(m.key, v)]) :: stack) := hready.step (by decide) _
        have hskip : scan step (.key, .obj (done ++ [(m.key, v)]) :: stack) sep =
            .again (.key, .obj (done ++ [(m.key, v)]) :: stack) := Waits.key.scan_spaces hsep
        rw [scan_append_again hscan, List.cons_append, List.cons_append, scan_cons_again hcomma,
          List.append_assoc, scan_append_again hskip, ih (List.cons_ne_nil m' ms) (.inl rfl)]
        cases (m' :: ms).mapM pair with
        | none => simp [pair, hm]
        | some pairs => simp [pair, hm]

end Member

/-- An object, with spaces in three places. -/
def objectText (lead sep trail : List Char) (ms : List Member) : List Char :=
  '{' :: lead ++ (Member.list sep ms ++ (trail ++ ['}']))

/-- An object is in order if its members are. -/
theorem denotes_objectText {lead sep trail : List Char} (hlead : Spaces lead) (hsep : Spaces sep)
    (htrail : Spaces trail) {ms : List Member} (hms : ms ≠ []) :
    Denotes (objectText lead sep trail ms) ((ms.mapM Member.pair).map .obj) := by
  have hscan : ∀ stack, scan step (.value, stack) (objectText lead sep trail ms) =
      (ms.mapM Member.pair).elim fail fun pairs => .again (.after (.obj pairs), stack) := by
    intro stack
    have hbegin : step (.value, stack) '{' = .again (.keyOrEnd, .obj [] :: stack) := rfl
    have hskip : scan step (.keyOrEnd, .obj [] :: stack) lead =
        .again (.keyOrEnd, .obj [] :: stack) := Waits.keyOrEnd.scan_spaces hlead
    rw [objectText, List.cons_append, scan_cons_again hbegin, scan_append_again hskip,
      Member.scan_list hsep htrail hms (.inr rfl)]
    rfl
  cases hpairs : ms.mapM Member.pair with
  | none =>
    intro stack
    rw [hscan, hpairs]
    rfl
  | some pairs =>
    intro stack
    exact ⟨.after (.obj pairs), by rw [hscan, hpairs]; rfl, .after _⟩

/-! ### Arrays that are written row by row -/

/-- An object as an element of an array, with or without a comma behind it. -/
structure Row where
  text : List Char
  value : Value
  comma : Bool
  isObject : ∃ rest, text = '{' :: rest
  reads : Reads text value

namespace Row

def written (indent tail : List Char) (row : Row) : List Char :=
  indent ++ (row.text ++ ((if row.comma then [','] else []) ++ tail))

def list (indent tail : List Char) (rows : List Row) : List Char :=
  rows.flatMap (written indent tail)

/-- The commas are where they should be: behind every row but the last. -/
def separated : List Bool → Bool
  | [] => false
  | comma :: commas => if comma then separated commas else commas.isEmpty

theorem exists_list_cons (indent tail : List Char) (row : Row) (rows : List Row)
    (rest : List Char) :
    ∃ text, list indent tail (row :: rows) ++ rest = indent ++ '{' :: text := by
  obtain ⟨text, htext⟩ := row.isObject
  refine
    ⟨text ++ ((if row.comma then [','] else []) ++ tail ++ (list indent tail rows ++ rest)), ?_⟩
  rw [list, List.flatMap_cons, written, htext, List.append_assoc, List.append_assoc,
    List.append_assoc]
  rfl

theorem scan_list {indent tail trail : List Char} (hindent : Spaces indent) (htail : Spaces tail)
    (htrail : Spaces trail) (rows : List Row) (done : List Value) (stack : List Frame) :
    scan step (.value, .arr done :: stack) (list indent tail rows ++ (trail ++ [']'])) =
      if separated (rows.map comma) then
        .again (.after (.arr (done ++ rows.map value)), stack)
      else fail := by
  induction rows generalizing done with
  | nil =>
    have hskip : scan step (.value, .arr done :: stack) trail =
        .again (.value, .arr done :: stack) :=
      Waits.value.scan_spaces htrail
    rw [list, List.flatMap_nil, List.nil_append, scan_append_again hskip]
    rfl
  | cons row rows ih =>
    have hskip : scan step (.value, .arr done :: stack) indent =
        .again (.value, .arr done :: stack) :=
      Waits.value.scan_spaces hindent
    obtain ⟨mode₁, hscan, hready⟩ := row.reads (.arr done :: stack)
    rw [list, List.flatMap_cons, written, List.append_assoc, List.append_assoc,
      scan_append_again hskip, List.append_assoc, scan_append_again hscan, List.append_assoc]
    change scan step (mode₁, .arr done :: stack) ((if row.comma then [','] else []) ++
      (tail ++ (list indent tail rows ++ (trail ++ [']'])))) = _
    rw [List.map_cons, separated]
    cases row.comma with
    | true =>
      have hcomma : step (mode₁, .arr done :: stack) ',' =
          .again (.value, .arr (done ++ [row.value]) :: stack) := hready.step (by decide) _
      have htail : scan step (.value, .arr (done ++ [row.value]) :: stack) tail =
          .again (.value, .arr (done ++ [row.value]) :: stack) := Waits.value.scan_spaces htail
      rw [if_pos rfl, if_pos rfl, List.singleton_append, scan_cons_again hcomma,
        scan_append_again htail, ih, List.append_assoc]
      rfl
    | false =>
      obtain ⟨mode₂, hspaces, hready₂⟩ := hready.scan_spaces (.arr done :: stack) htail
        (list indent tail rows ++ (trail ++ [']']))
      rw [if_neg Bool.false_ne_true, if_neg Bool.false_ne_true, List.nil_append, hspaces]
      cases rows with
      | nil =>
        obtain ⟨mode₃, htrails, hready₃⟩ := hready₂.scan_spaces (.arr done :: stack) htrail [']']
        rw [list, List.flatMap_nil, List.nil_append, htrails, scan_cons, hready₃.step (by decide)]
        rfl
      | cons next rows =>
        -- the next row begins where a comma is expected
        obtain ⟨text, htext⟩ := exists_list_cons indent tail next rows (trail ++ [']'])
        obtain ⟨mode₃, hindents, hready₃⟩ :=
          hready₂.scan_spaces (.arr done :: stack) hindent ('{' :: text)
        rw [htext, hindents, scan_cons, hready₃.step (by decide)]
        rfl

/-- At the beginning of an array the first row is read as any other. -/
theorem scan_list_valueOrEnd {indent tail : List Char} (hindent : Spaces indent) (row : Row)
    (rows : List Row) (stack : List Frame) (rest : List Char) :
    scan step (.valueOrEnd, .arr [] :: stack) (list indent tail (row :: rows) ++ rest) =
      scan step (.value, .arr [] :: stack) (list indent tail (row :: rows) ++ rest) := by
  have hskip : scan step (.value, .arr [] :: stack) indent = .again (.value, .arr [] :: stack) :=
    Waits.value.scan_spaces hindent
  have hskip' : scan step (.valueOrEnd, .arr [] :: stack) indent =
      .again (.valueOrEnd, .arr [] :: stack) := Waits.valueOrEnd.scan_spaces hindent
  obtain ⟨text, htext⟩ := exists_list_cons indent tail row rows rest
  rw [htext, scan_append_again hskip, scan_append_again hskip']
  rfl

end Row

/-- An array, with spaces in four places. -/
def arrayText (lead indent tail trail : List Char) (rows : List Row) : List Char :=
  '[' :: lead ++ (Row.list indent tail rows ++ (trail ++ [']']))

/-- An array that is written row by row is in order if the commas are. -/
theorem denotes_arrayText {lead indent tail trail : List Char} (hlead : Spaces lead)
    (hindent : Spaces indent) (htail : Spaces tail) (htrail : Spaces trail) (rows : List Row) :
    Denotes (arrayText lead indent tail trail rows)
      (if rows.isEmpty || Row.separated (rows.map Row.comma) then some (.arr (rows.map Row.value))
        else none) := by
  have hscan : ∀ stack, scan step (.value, stack) (arrayText lead indent tail trail rows) =
      if rows.isEmpty || Row.separated (rows.map Row.comma) then
        .again (.after (.arr (rows.map Row.value)), stack)
      else fail := by
    intro stack
    have hbegin : step (.value, stack) '[' = .again (.valueOrEnd, .arr [] :: stack) := rfl
    have hskip : ∀ text, Spaces text → scan step (.valueOrEnd, .arr [] :: stack) text =
        .again (.valueOrEnd, .arr [] :: stack) := fun _ => Waits.valueOrEnd.scan_spaces
    rw [arrayText, List.cons_append, scan_cons_again hbegin, scan_append_again (hskip lead hlead)]
    cases rows with
    | nil =>
      rw [Row.list, List.flatMap_nil, List.nil_append, scan_append_again (hskip trail htrail)]
      rfl
    | cons row rows =>
      rw [Row.scan_list_valueOrEnd hindent, Row.scan_list hindent htail htrail]
      rfl
  split_ifs with hcommas
  · intro stack
    exact ⟨.after _, by rw [hscan, if_pos hcommas], .after _⟩
  · intro stack
    rw [hscan, if_neg hcommas]

end HealthCheck.Go.Json
