import HealthCheck.Go.Json
import HealthCheck.Nginx.Peers

/-!
# The listing as a text

`ngx_upstream_check_status_json_format` goes through the peers twice: first it counts those that are
to be listed, then it writes them, with a comma behind each whose number is not the count. The
shared memory is not locked, and the workers go on checking in the meantime, so that every read may
find something else. What comes out is a JSON text only if as many peers are written as have been
counted, or none.
-/

namespace HealthCheck.Nginx

open Go

/-- `NGX_CHECK_STATUS_DOWN` and `NGX_CHECK_STATUS_UP`. -/
structure StatusFlag where
  down : Bool := false
  up : Bool := false

/-- The test of the flag at the beginning of every loop. -/
def StatusFlag.passes (flag : StatusFlag) (down : Bool) : Bool :=
  if flag.down then down else if flag.up then !down else true

/-- What is read of a peer: its flag in the loop that counts and in the test of the loop that
writes, and then, with the rest of the peer, what is written. -/
structure PeerReads where
  peer : Peer
  checkType : String
  port : ℕ
  counted : Bool
  tested : Bool

/-- `%ui`. -/
def ui (n : ℕ) : List Char := Nat.toDigits 10 n

def statusText (down : Bool) : List Char := if down then "down".toList else "up".toList

/-- The line of a peer; `last` if its number is the count. -/
def PeerReads.line (r : PeerReads) (index : ℕ) (last : Bool) : List Char :=
  "    \x7b\"index\": ".toList ++ ui index ++
    ", \"upstream\": \"".toList ++ r.peer.upstreamName.toList ++
    "\", \"name\": \"".toList ++ r.peer.name.toList ++
    "\", \"status\": \"".toList ++ statusText r.peer.shm.down ++
    "\", \"rise\": ".toList ++ ui r.peer.shm.riseCount ++
    ", \"fall\": ".toList ++ ui r.peer.shm.fallCount ++
    ", \"type\": \"".toList ++ r.checkType.toList ++
    "\", \"port\": ".toList ++ ui r.port ++ "\x7d".toList ++
    (if last then [] else ",".toList) ++ "\n".toList

/-- The loop that counts. -/
def counted (flag : StatusFlag) (reads : List PeerReads) : ℕ :=
  (reads.filter fun r => flag.passes r.counted).length

/-- The loop that writes, from an index on; `count` is what has been written. -/
def writeLines (flag : StatusFlag) (total : ℕ) : ℕ → ℕ → List PeerReads → List Char
  | _, _, [] => []
  | index, count, r :: reads =>
    if flag.passes r.tested then
      r.line index (count + 1 = total) ++ writeLines flag total (index + 1) (count + 1) reads
    else writeLines flag total (index + 1) count reads

/-- `ngx_upstream_check_status_json_format`. Without a stream section there are no stream peers. -/
def jsonFormat (flag : StatusFlag) (generation : ℕ) (reads : Zone → List PeerReads) : List Char :=
  "\x7b\"servers\": \x7b\n".toList ++
    "  \"total\": ".toList ++ ui (counted flag (reads .stream) + counted flag (reads .http)) ++
    ",\n".toList ++
    "  \"generation\": ".toList ++ ui generation ++ ",\n".toList ++
    "  \"http\": [\n".toList ++
    writeLines flag (counted flag (reads .http)) 0 0 (reads .http) ++
    "  ],\n  \"stream\": [\n".toList ++
    writeLines flag (counted flag (reads .stream)) 0 0 (reads .stream) ++
    "  ]\n".toList ++ "\x7d\x7d\n".toList

/-- `ngx_align`. -/
def align (d a : ℕ) : ℕ := (d + (a - 1)) / a * a

/-- The size of the buffer in `ngx_upstream_check_status_handler`: a quarter of a page for each
peer, and a page. -/
def bufferSize (pagesize peers : ℕ) : ℕ := align (peers * pagesize / 4) pagesize + pagesize

/-- The body of the answer; `ngx_snprintf` writes what fits into the buffer. -/
def statusBody (pagesize : ℕ) (flag : StatusFlag) (generation : ℕ) (reads : Zone → List PeerReads) :
    List Char :=
  (jsonFormat flag generation reads).take
    (bufferSize pagesize ((reads .stream).length + (reads .http).length))

/-! ### The parts of the text -/

/-- The names can stand in a JSON text as they are. -/
structure PeerReads.Printable (r : PeerReads) : Prop where
  upstreamName : Json.Plain r.peer.upstreamName.toList
  name : Json.Plain r.peer.name.toList
  checkType : Json.Plain r.checkType.toList

/-- A number in an object. -/
def uiMember (key : String) (hkey : Json.Plain key.toList) (n : ℕ) : Json.Member where
  key := key.toList
  text := ui n
  value := some (.num (ui n))
  plain := hkey
  denotes := Json.reads_toDigits n

/-- A string in an object. -/
def strMember (key : String) (hkey : Json.Plain key.toList) {text : List Char}
    (h : Json.Plain text) : Json.Member where
  key := key.toList
  text := '"' :: text ++ ['"']
  value := some (.str text)
  plain := hkey
  denotes := Json.reads_str h

theorem plain_statusText (down : Bool) : Json.Plain (statusText down) := by
  cases down <;> rfl

namespace PeerReads

variable {r : PeerReads}

/-- The members of the object in the line of a peer. -/
def members (h : r.Printable) (index : ℕ) : List Json.Member :=
  [uiMember "index" rfl index, strMember "upstream" rfl h.upstreamName, strMember "name" rfl h.name,
    strMember "status" rfl (plain_statusText r.peer.shm.down),
    uiMember "rise" rfl r.peer.shm.riseCount, uiMember "fall" rfl r.peer.shm.fallCount,
    strMember "type" rfl h.checkType, uiMember "port" rfl r.port]

/-- The object in the line of a peer. -/
def value (r : PeerReads) (index : ℕ) : Json.Value :=
  .obj [("index".toList, .num (ui index)), ("upstream".toList, .str r.peer.upstreamName.toList),
    ("name".toList, .str r.peer.name.toList), ("status".toList, .str (statusText r.peer.shm.down)),
    ("rise".toList, .num (ui r.peer.shm.riseCount)),
    ("fall".toList, .num (ui r.peer.shm.fallCount)),
    ("type".toList, .str r.checkType.toList), ("port".toList, .num (ui r.port))]

theorem reads_members (h : r.Printable) (index : ℕ) :
    Json.Reads (Json.objectText [] [' '] [] (members h index)) (r.value index) := by
  have hspaces : Json.Spaces [] ∧ Json.Spaces [' '] := ⟨rfl, rfl⟩
  have hmembers : members h index ≠ [] := List.cons_ne_nil _ _
  have hdenotes := Json.denotes_objectText hspaces.1 hspaces.2 hspaces.1 hmembers
  have hpairs : ((members h index).mapM Json.Member.pair).map Json.Value.obj =
      some (r.value index) := rfl
  rw [hpairs] at hdenotes
  exact hdenotes

def row (h : r.Printable) (index : ℕ) (last : Bool) : Json.Row where
  text := Json.objectText [] [' '] [] (members h index)
  value := r.value index
  comma := !last
  isObject := ⟨_, rfl⟩
  reads := reads_members h index

theorem line_eq (h : r.Printable) (index : ℕ) (last : Bool) :
    r.line index last = (row h index last).written "    ".toList ['\n'] := by
  delta line
  simp only [row, Json.Row.written, Json.objectText, members, Json.Member.list, Json.Member.written,
    uiMember, strMember, String.reduceToList, List.append_assoc, List.cons_append, List.nil_append]
  cases last <;> rfl

end PeerReads

/-! ### The whole text -/

section Rows

variable {flag : StatusFlag} {total : ℕ}

/-- The peers that are written. -/
def listed (flag : StatusFlag) (reads : List PeerReads) : List PeerReads :=
  reads.filter fun r => flag.passes r.tested

/-- Their objects, from an index on. -/
def listedValues (flag : StatusFlag) : ℕ → List PeerReads → List Json.Value
  | _, [] => []
  | index, r :: reads =>
    if flag.passes r.tested then r.value index :: listedValues flag (index + 1) reads
    else listedValues flag (index + 1) reads

/-- As many peers are written as have been counted, or none. -/
def inOrder (flag : StatusFlag) (reads : List PeerReads) : Bool :=
  (listed flag reads).isEmpty || (listed flag reads).length = counted flag reads

/-- A peer with names that can be printed. -/
abbrev Printed := { r : PeerReads // r.Printable }

/-- The lines that the second loop writes. -/
def rows (flag : StatusFlag) (total : ℕ) : ℕ → ℕ → List Printed → List Json.Row
  | _, _, [] => []
  | index, count, r :: reads =>
    if flag.passes r.1.tested then
      PeerReads.row r.2 index (count + 1 = total) :: rows flag total (index + 1) (count + 1) reads
    else rows flag total (index + 1) count reads

theorem writeLines_eq (index count : ℕ) (reads : List Printed) :
    writeLines flag total index count (reads.map Subtype.val) =
      Json.Row.list "    ".toList ['\n'] (rows flag total index count reads) := by
  induction reads generalizing index count with
  | nil => rfl
  | cons r reads ih =>
    rw [List.map_cons, writeLines, rows]
    split_ifs
    · rw [ih, r.1.line_eq r.2]
      rfl
    · exact ih (index + 1) count

theorem value_rows (index count : ℕ) (reads : List Printed) :
    (rows flag total index count reads).map Json.Row.value =
      listedValues flag index (reads.map Subtype.val) := by
  induction reads generalizing index count with
  | nil => rfl
  | cons r reads ih =>
    rw [List.map_cons, listedValues, rows]
    split_ifs
    · rw [List.map_cons, ih]
      rfl
    · exact ih (index + 1) count

theorem length_rows (flag : StatusFlag) (total index count : ℕ) (reads : List Printed) :
    (rows flag total index count reads).length = (listed flag (reads.map Subtype.val)).length := by
  induction reads generalizing index count with
  | nil => rfl
  | cons r reads ih =>
    rw [List.map_cons, listed, rows, List.filter_cons]
    split_ifs
    · rw [List.length_cons, List.length_cons, ih]
      rfl
    · exact ih (index + 1) count

/-- The commas are in their places when the count comes up with the last line. -/
theorem separated_rows (index count : ℕ) (reads : List Printed) :
    Json.Row.separated ((rows flag total index count reads).map Json.Row.comma) =
      decide (0 < (listed flag (reads.map Subtype.val)).length ∧
        count + (listed flag (reads.map Subtype.val)).length = total) := by
  induction reads generalizing index count with
  | nil => rfl
  | cons r reads ih =>
    rw [List.map_cons, listed, rows, List.filter_cons]
    split_ifs
    · change (if (!decide (count + 1 = total)) = true then _ else _) =
        decide (0 < (listed flag (reads.map Subtype.val)).length + 1 ∧
          count + ((listed flag (reads.map Subtype.val)).length + 1) = total)
      by_cases htotal : count + 1 = total
      · have hempty : ((rows flag total (index + 1) (count + 1) reads).map Json.Row.comma).isEmpty =
            decide ((listed flag (reads.map Subtype.val)).length = 0) := by
          rw [← length_rows flag total (index + 1) (count + 1) reads]
          cases rows flag total (index + 1) (count + 1) reads <;> rfl
        rw [if_neg (by simp [htotal]), hempty, decide_eq_decide]
        omega
      · rw [if_pos (by simp [htotal]), ih, decide_eq_decide]
        omega
    · exact ih (index + 1) count

/-- The lines of a module make up an array if they are in order. -/
theorem inOrder_rows (reads : List Printed) :
    ((rows flag (counted flag (reads.map Subtype.val)) 0 0 reads).isEmpty ||
      Json.Row.separated ((rows flag (counted flag (reads.map Subtype.val)) 0 0 reads).map
        Json.Row.comma)) = inOrder flag (reads.map Subtype.val) := by
  have hempty : ∀ {α β : Type} {l : List α} {l' : List β}, l.length = l'.length →
      l.isEmpty = l'.isEmpty := by
    intro α β l l' h
    cases l <;> cases l' <;> simp_all
  rw [inOrder, hempty (length_rows flag _ 0 0 reads), separated_rows, Nat.zero_add]
  cases listed flag (reads.map Subtype.val) with
  | nil => rfl
  | cons r rs => simp

/-- The key of a module in the text. -/
def Zone.key : Zone → List Char
  | .http => "http".toList
  | .stream => "stream".toList

theorem Zone.key_http : Zone.http.key = "http".toList := rfl

theorem Zone.key_stream : Zone.stream.key = "stream".toList := rfl

/-- The array of a module. -/
def arrayMember (z : Zone) (flag : StatusFlag) (reads : List Printed) : Json.Member where
  key := z.key
  text := Json.arrayText ['\n'] "    ".toList ['\n'] "  ".toList
    (rows flag (counted flag (reads.map Subtype.val)) 0 0 reads)
  value :=
    if inOrder flag (reads.map Subtype.val) then
      some (.arr (listedValues flag 0 (reads.map Subtype.val)))
    else none
  plain := by cases z <;> rfl
  denotes := by
    have hspaces : Json.Spaces ['\n'] ∧ Json.Spaces "    ".toList ∧ Json.Spaces "  ".toList :=
      ⟨rfl, rfl, rfl⟩
    rw [← inOrder_rows, ← value_rows]
    exact Json.denotes_arrayText hspaces.1 hspaces.2.1 hspaces.1 hspaces.2.2 _

/-- The members of the object with the servers. -/
def serversMembers (flag : StatusFlag) (generation : ℕ) (http stream : List Printed) :
    List Json.Member :=
  [uiMember "total" rfl
      (counted flag (stream.map Subtype.val) + counted flag (http.map Subtype.val)),
    uiMember "generation" rfl generation, arrayMember .http flag http,
    arrayMember .stream flag stream]

/-- What is listed, as a JSON value. -/
def jsonValue (flag : StatusFlag) (generation : ℕ) (reads : Zone → List PeerReads) : Json.Value :=
  .obj [("servers".toList,
    .obj [("total".toList, .num (ui (counted flag (reads .stream) + counted flag (reads .http)))),
      ("generation".toList, .num (ui generation)),
      ("http".toList, .arr (listedValues flag 0 (reads .http))),
      ("stream".toList, .arr (listedValues flag 0 (reads .stream)))])]

def serversMember (flag : StatusFlag) (generation : ℕ) (http stream : List Printed) :
    Json.Member where
  key := "servers".toList
  text := Json.objectText "\n  ".toList "\n  ".toList ['\n']
    (serversMembers flag generation http stream)
  value := ((serversMembers flag generation http stream).mapM Json.Member.pair).map .obj
  plain := rfl
  denotes :=
    have hspaces : Json.Spaces "\n  ".toList ∧ Json.Spaces ['\n'] := ⟨rfl, rfl⟩
    Json.denotes_objectText hspaces.1 hspaces.1 hspaces.2 (List.cons_ne_nil _ _)

theorem written_arrayMember (z : Zone) (reads : List Printed) :
    (arrayMember z flag reads).written =
      '"' :: z.key ++ '"' :: ':' :: ' ' :: '[' :: '\n' ::
        (writeLines flag (counted flag (reads.map Subtype.val)) 0 0 (reads.map Subtype.val) ++
          ("  ".toList ++ [']'])) := by
  rw [writeLines_eq]
  rfl

theorem written_serversMember (generation : ℕ) (http stream : List Printed) :
    (serversMember flag generation http stream).written =
      '"' :: "servers".toList ++ '"' :: ':' :: ' ' :: '\x7b' :: "\n  ".toList ++
        (Json.Member.list "\n  ".toList (serversMembers flag generation http stream) ++
          ['\n', '\x7d']) := rfl

theorem jsonFormat_eq (flag : StatusFlag) (generation : ℕ) {reads : Zone → List PeerReads}
    {http stream : List Printed} (hhttp : reads .http = http.map Subtype.val)
    (hstream : reads .stream = stream.map Subtype.val) :
    jsonFormat flag generation reads =
      Json.objectText [] [] [] [serversMember flag generation http stream] ++ ['\n'] := by
  delta jsonFormat Json.objectText
  rw [hhttp, hstream, Json.Member.list, written_serversMember]
  delta serversMembers
  simp only [Json.Member.list, written_arrayMember]
  simp only [Json.Member.written, uiMember, Zone.key_http, Zone.key_stream, String.reduceToList,
    List.append_assoc, List.cons_append, List.nil_append]

theorem pair_arrayMember (z : Zone) (reads : List Printed) :
    (arrayMember z flag reads).pair =
      if inOrder flag (reads.map Subtype.val) then
        some (z.key, .arr (listedValues flag 0 (reads.map Subtype.val)))
      else none := by
  change (if inOrder flag (reads.map Subtype.val) then some _ else none).map _ = _
  split_ifs <;> rfl

theorem pair_serversMember (generation : ℕ) {reads : Zone → List PeerReads}
    {http stream : List Printed} (hhttp : reads .http = http.map Subtype.val)
    (hstream : reads .stream = stream.map Subtype.val) :
    ([serversMember flag generation http stream].mapM Json.Member.pair).map Json.Value.obj =
      if inOrder flag (reads .http) && inOrder flag (reads .stream) then
        some (jsonValue flag generation reads)
      else none := by
  have hservers : (serversMember flag generation http stream).pair =
      (((serversMembers flag generation http stream).mapM Json.Member.pair).map .obj).map
        fun v => ("servers".toList, v) := rfl
  rw [List.mapM_cons, List.mapM_nil, hservers]
  delta serversMembers jsonValue
  rw [List.mapM_cons, List.mapM_cons, List.mapM_cons, List.mapM_cons, List.mapM_nil,
    pair_arrayMember, pair_arrayMember, hhttp, hstream]
  cases inOrder flag (http.map Subtype.val) with
  | false => rfl
  | true =>
    cases inOrder flag (stream.map Subtype.val) with
    | false => rfl
    | true => rfl

/-- The text is a JSON text if and only if both modules are in order. -/
theorem parse_jsonFormat (flag : StatusFlag) (generation : ℕ) {reads : Zone → List PeerReads}
    (hreads : ∀ z, ∀ r ∈ reads z, r.Printable) :
    Json.parse (jsonFormat flag generation reads) =
      if inOrder flag (reads .http) && inOrder flag (reads .stream) then
        some (jsonValue flag generation reads)
      else none := by
  obtain ⟨http, hhttp⟩ : ∃ http : List Printed, reads .http = http.map Subtype.val :=
    ⟨(reads .http).attachWith _ (hreads .http), by simp⟩
  obtain ⟨stream, hstream⟩ : ∃ stream : List Printed, reads .stream = stream.map Subtype.val :=
    ⟨(reads .stream).attachWith _ (hreads .stream), by simp⟩
  have hspaces : Json.Spaces [] ∧ Json.Spaces ['\n'] := ⟨rfl, rfl⟩
  rw [jsonFormat_eq flag generation hhttp hstream,
    Json.parse_of_denotes (Json.denotes_objectText hspaces.1 hspaces.1 hspaces.1
      (List.cons_ne_nil _ _)) hspaces.2, pair_serversMember generation hhttp hstream]

end Rows

/-! ### The buffer -/

theorem le_align {a : ℕ} (ha : 0 < a) (d : ℕ) : d ≤ align d a := by
  have hsplit := Nat.div_add_mod' (d + (a - 1)) a
  have hmod := Nat.mod_lt (d + (a - 1)) ha
  unfold align
  omega

/-- A quarter of a page for every peer, and a page for the rest. -/
theorem le_bufferSize {pagesize : ℕ} (hpage : 0 < pagesize) (peers : ℕ) :
    peers * (pagesize / 4) + pagesize ≤ bufferSize pagesize peers :=
  Nat.add_le_add_right ((Nat.mul_div_le_mul_div_assoc _ _ _).trans (le_align hpage _)) _

theorem length_ui {n : ℕ} (h : n ≤ maxInt) : (ui n).length ≤ 19 :=
  (Nat.length_toDigits_le_iff (by decide) (by decide)).mpr (Nat.lt_of_le_of_lt h (by decide))

theorem length_writeLines (flag : StatusFlag) (total : ℕ) {quarter : ℕ} {reads : List PeerReads}
    (h : ∀ r ∈ reads, ∀ index ≤ maxInt, ∀ last, (r.line index last).length ≤ quarter)
    {index : ℕ} (hindex : index + reads.length ≤ maxInt) (count : ℕ) :
    (writeLines flag total index count reads).length ≤ reads.length * quarter := by
  induction reads generalizing index count with
  | nil => exact Nat.zero_le _
  | cons r reads ih =>
    obtain ⟨hr, hreads⟩ := List.forall_mem_cons.mp h
    rw [List.length_cons] at hindex
    have hrest := ih hreads (by omega : index + 1 + reads.length ≤ maxInt)
    rw [List.length_cons, Nat.succ_mul, writeLines]
    split_ifs
    · have hline := hr index (by omega) (decide (count + 1 = total))
      have hlines := hrest (count + 1)
      rw [List.length_append]
      omega
    · have hlines := hrest count
      omega

/-- What is read of a peer can be written: names that are plain and together not too long for a
quarter of a page, and numbers that fit into an `int`. -/
structure PeerReads.Writable (pagesize : ℕ) (r : PeerReads) : Prop where
  printable : r.Printable
  names : r.peer.upstreamName.toList.length + r.peer.name.toList.length +
      r.checkType.toList.length +
    181 ≤ pagesize / 4
  rise : r.peer.shm.riseCount ≤ maxInt
  fall : r.peer.shm.fallCount ≤ maxInt
  port : r.port ≤ maxInt

theorem PeerReads.Writable.length_line {pagesize : ℕ} {r : PeerReads} (h : r.Writable pagesize)
    {index : ℕ} (hindex : index ≤ maxInt) (last : Bool) :
    (r.line index last).length ≤ pagesize / 4 := by
  have hnames := h.names
  have hnumbers := And.intro (length_ui hindex) (And.intro (length_ui h.rise)
    (And.intro (length_ui h.fall) (length_ui h.port)))
  have hstatus : (statusText r.peer.shm.down).length ≤ 4 := by
    cases r.peer.shm.down <;> decide
  have hcomma : (if last then [] else ",".toList).length ≤ 1 := by
    cases last <;> decide
  delta line
  simp only [List.length_append, String.reduceToList, List.length_cons, List.length_nil] at hcomma ⊢
  omega

/-- The same for everything that is read. -/
structure Writable (pagesize generation : ℕ) (reads : Zone → List PeerReads) : Prop where
  page : 128 ≤ pagesize
  peer : ∀ z, ∀ r ∈ reads z, r.Writable pagesize
  generation : generation ≤ maxInt
  peers : (reads .stream).length + (reads .http).length ≤ maxInt

theorem counted_le (flag : StatusFlag) (reads : List PeerReads) :
    counted flag reads ≤ reads.length :=
  List.length_filter_le _ _

/-- The text fits into the buffer. -/
theorem Writable.statusBody_eq {pagesize generation : ℕ} {reads : Zone → List PeerReads}
    (h : Writable pagesize generation reads) (flag : StatusFlag) :
    statusBody pagesize flag generation reads = jsonFormat flag generation reads := by
  have hpeers := h.peers
  have hbuffer := le_bufferSize (by have := h.page; omega : 0 < pagesize)
    ((reads .stream).length + (reads .http).length)
  have hstream := counted_le flag (reads .stream)
  have hhttp := counted_le flag (reads .http)
  have htotal := length_ui
    (by omega : counted flag (reads .stream) + counted flag (reads .http) ≤ maxInt)
  have hgeneration := length_ui h.generation
  have hline : ∀ z, ∀ r ∈ reads z, ∀ index ≤ maxInt, ∀ last,
      (r.line index last).length ≤ pagesize / 4 :=
    fun z r hr index hindex last => (h.peer z r hr).length_line hindex last
  have hhttpLines := length_writeLines flag (counted flag (reads .http)) (hline .http)
    (by omega : 0 + (reads .http).length ≤ maxInt) 0
  have hstreamLines := length_writeLines flag (counted flag (reads .stream)) (hline .stream)
    (by omega : 0 + (reads .stream).length ≤ maxInt) 0
  have hpage := h.page
  refine List.take_of_length_le (Nat.le_trans ?_ hbuffer)
  delta jsonFormat
  simp only [List.length_append, String.reduceToList, List.length_cons, List.length_nil]
  rw [Nat.add_mul]
  omega

end HealthCheck.Nginx
