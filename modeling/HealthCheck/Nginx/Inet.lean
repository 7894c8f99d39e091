import HealthCheck.Net.Addresses
import HealthCheck.Nginx.Check

/-!
# Addresses in the configuration of nginx

The argument of a `server` directive is a path, or a host and a port. An IPv6 host is written in
brackets, and its text has to be one that nginx can convert; any other host may also be a name. The
peers of a server are named after the addresses that the host was converted to or resolved to, not
after its text. Texts are lists of characters here, and all of them are meant to be ASCII.
-/

namespace HealthCheck.Nginx

/-- An address as nginx reads it. The host is the text that is converted or resolved, without the
brackets of an IPv6 address; the port is missing when none was given. -/
inductive NgxAddress where
  | unix (path : String)
  | inet (host : String) (port : Option ℕ)
  | inet6 (host : String) (port : Option ℕ)
  deriving DecidableEq, Repr

/-- `ngx_strlchr`: the text before and after the first occurrence of a character. -/
def ngxStrlchr (c : Char) : List Char → Option (List Char × List Char)
  | [] => none
  | d :: text =>
    if d = c then some ([], text)
    else (ngxStrlchr c text).map fun parts => (d :: parts.1, parts.2)

/-- The loop of `ngx_inet_addr`; `none` is `INADDR_NONE`. -/
def ngxInetAddrFrom : ℕ → ℕ → ℕ → List Char → Option ℕ
  | addr, octet, n, [] => if n = 3 then some (addr * 256 + octet) else none
  | addr, octet, n, c :: text =>
    if '0' ≤ c ∧ c ≤ '9' then
      let octet := octet * 10 + (c.toNat - '0'.toNat)
      if 255 < octet then none else ngxInetAddrFrom addr octet n text
    else if c = '.' then ngxInetAddrFrom (addr * 256 + octet) 0 (n + 1) text
    else none

/-- `ngx_inet_addr`, in the byte order of the host. The address 255.255.255.255 is `INADDR_NONE`
itself. -/
def ngxInetAddr (text : List Char) : Option ℕ :=
  (ngxInetAddrFrom 0 0 0 text).filter fun addr => addr ≠ 4294967295

/-- The variables of `ngx_inet6_addr`: the words that are written, where the zeros go in between,
the text behind the last colon, and the word that is read with the number of its digits. The counter
`n` is `8 - words.length`. -/
structure Inet6State where
  words : List ℕ := []
  zero : Option ℕ := none
  digit : Option (List Char) := none
  nibbles : ℕ := 0
  word : ℕ := 0

/-- The loop of `ngx_inet6_addr`. It is left at the first dot, with the last two words read. -/
def ngxInet6AddrFrom : Inet6State → List Char → Option Inet6State
  | s, [] => some s
  | s, c :: text =>
    if c = ':' then
      if s.nibbles ≠ 0 then
        if s.words.length + 1 < 8 then
          ngxInet6AddrFrom { s with digit := some text, words := s.words ++ [s.word],
                                    nibbles := 0, word := 0 } text
        else none
      else if s.zero.isNone then
        ngxInet6AddrFrom { s with digit := some text, zero := some s.words.length } text
      else none
    else if c = '.' ∧ s.nibbles ≠ 0 then
      if 8 - s.words.length < 2 then none
      else
        (s.digit.bind ngxInetAddr).map fun addr =>
          { s with words := s.words ++ [addr / 65536], word := addr % 65536 }
    else if 4 < s.nibbles + 1 then none
    else if Net.isHexDigit c then
      ngxInet6AddrFrom
        { s with nibbles := s.nibbles + 1, word := s.word * 16 + Net.hexValue c } text
    else none

/-- `ngx_inet6_addr`: the eight words of the address. -/
def ngxInet6Addr (text : List Char) : Option (List ℕ) :=
  if text.isEmpty then none
  else
    match ngxInet6AddrFrom {} (if text.head? = some ':' then text.tail else text) with
    | none => none
    | some s =>
      if s.nibbles = 0 ∧ s.zero.isNone then none
      else
        let words := s.words ++ [s.word]
        match s.zero with
        | some start =>
          if words.length < 8 then
            some (words.take start ++ List.replicate (8 - words.length) 0 ++ words.drop start)
          else none
        | none => if words.length = 8 then some words else none

/-- A port; `none` is the error `invalid port`. -/
def ngxPort (text : List Char) : Option ℕ :=
  (ngxAtoi text).filter fun port => 1 ≤ port ∧ port ≤ 65535

/-- The path after `unix:` in either case. -/
def ngxUnixPath : List Char → Option (List Char)
  | u :: n :: i :: x :: ':' :: path =>
    if (u = 'u' ∨ u = 'U') ∧ (n = 'n' ∨ n = 'N') ∧ (i = 'i' ∨ i = 'I') ∧ (x = 'x' ∨ x = 'X') then
      some path
    else none
  | _ => none

/-- `ngx_parse_unix_domain_url`, behind `unix:`. The structure has room for 108 bytes, one of them
for the end of the text. -/
def ngxParseUnixDomainUrl (path : List Char) : Option NgxAddress :=
  if path.isEmpty ∨ 108 < path.length + 1 then none else some (.unix (String.ofList path))

/-- `ngx_parse_inet_url` for the argument of a `server` directive, which has no URI. -/
def ngxParseInetUrl (url : List Char) : Option NgxAddress :=
  if url.contains '/' || url.contains '?' then none
  else
    match ngxStrlchr ':' url with
    | some (host, port) =>
      match ngxPort port with
      | some n => if host.isEmpty then none else some (.inet (String.ofList host) (some n))
      | none => none
    | none => if url.isEmpty then none else some (.inet (String.ofList url) none)

/-- `ngx_parse_inet6_url` for the argument of a `server` directive, after the bracket. -/
def ngxParseInet6Url (url : List Char) : Option NgxAddress :=
  match ngxStrlchr ']' url with
  | some (host, rest) =>
    if rest.contains '/' || (ngxInet6Addr host).isNone then none
    else
      match rest with
      | [] => some (.inet6 (String.ofList host) none)
      | ':' :: port =>
        match ngxPort port with
        | some n => some (.inet6 (String.ofList host) (some n))
        | none => none
      | _ => none
  | none => none

/-- `ngx_parse_url`; `none` is an error. -/
def ngxParseUrl (url : String) : Option NgxAddress :=
  match ngxUnixPath url.toList with
  | some path => ngxParseUnixDomainUrl path
  | none =>
    match url.toList with
    | '[' :: rest => ngxParseInet6Url rest
    | _ => ngxParseInetUrl url.toList

/-- An address of a socket, without the port. -/
inductive NgxSockaddr where
  | inet (addr : UInt32)
  | inet6 (words : List ℕ)
  deriving DecidableEq

/-- `ngx_inet_ntop` for IPv4. -/
def ngxInetNtop (addr : UInt32) : String :=
  toString (addr.toNat / 16777216) ++ "." ++ toString (addr.toNat / 65536 % 256) ++ "." ++
    toString (addr.toNat / 256 % 256) ++ "." ++ toString (addr.toNat % 256)

/-- The variables of `ngx_inet6_ntop`, counted in words: where the longest run of zeros begins,
where the last one begins, and how long they are. -/
structure ZeroRun where
  zero : Option ℕ := none
  last : ℕ := 0
  max : ℕ := 1
  n : ℕ := 0

/-- The end of a run. -/
def ZeroRun.close (run : ZeroRun) : ZeroRun :=
  if run.max < run.n then { run with zero := some run.last, max := run.n } else run

/-- The loop of `ngx_inet6_ntop` that looks for the longest run of zeros. -/
def zeroRunFrom : ℕ → ZeroRun → List ℕ → ZeroRun
  | _, run, [] => run.close
  | i, run, word :: words =>
    if word ≠ 0 then zeroRunFrom (i + 1) { run.close with n := 0 } words
    else
      zeroRunFrom (i + 1)
        { run with last := if run.n = 0 then i else run.last, n := run.n + 1 } words

/-- `ngx_inet6_ntop`, on the eight words of the address. After some runs of zeros at the beginning
the last two words are printed as an IPv4 address. -/
def ngxInet6Ntop (words : List ℕ) : String :=
  let run := zeroRunFrom 0 {} words
  let first := run.zero = some 0
  let dotted := first ∧ ((run.max = 5 ∧ words.getD 5 0 = 65535) ∨ run.max = 6 ∨
    (run.max = 7 ∧ words.getD 7 0 / 256 ≠ 0 ∧ words.getD 7 0 % 256 ≠ 1))
  let print := fun word i =>
    if run.zero = some i then [':']
    else if run.zero.any fun start => start < i ∧ i < start + run.max then []
    else Nat.toDigits 16 word ++ if i < 7 then [':'] else []
  String.ofList ((if first then [':'] else []) ++
      (words.zipIdx.take (if dotted then 6 else 8)).flatMap fun p => print p.1 p.2) ++
    if dotted then ngxInetNtop (.ofNat (words.getD 6 0 * 65536 + words.getD 7 0)) else ""

/-- `ngx_sock_ntop` with the port. -/
def ngxSockNtop : NgxSockaddr → ℕ → String
  | .inet addr, port => ngxInetNtop addr ++ ":" ++ toString port
  | .inet6 words, port => "[" ++ ngxInet6Ntop words ++ "]:" ++ toString port

/-- The names that the peers of a server get from `ngx_inet_add_addr`. A host that is not converted
is resolved, and `resolve` is what the system finds for it. A port that is missing is that of
http. -/
def NgxAddress.names (resolve : String → List NgxSockaddr) : NgxAddress → List String
  | .unix path => ["unix:" ++ path]
  | .inet host port =>
    ((ngxInetAddr host.toList).elim (resolve host) fun addr => [.inet (.ofNat addr)]).map
      fun sockaddr => ngxSockNtop sockaddr (port.getD 80)
  | .inet6 host port =>
    (ngxInet6Addr host.toList).toList.map fun words => ngxSockNtop (.inet6 words) (port.getD 80)

/-! ### Converting IPv4 addresses -/

/-- The digits of an octet are read into it. -/
theorem ngxInetAddrFrom_digits {digits : List Char} (hdigits : ∀ c ∈ digits, c.isDigit = true)
    {addr octet n : ℕ} (hle : Nat.ofDigitChars 10 digits octet ≤ 255) (rest : List Char) :
    ngxInetAddrFrom addr octet n (digits ++ rest) =
      ngxInetAddrFrom addr (Nat.ofDigitChars 10 digits octet) n rest := by
  induction digits generalizing octet with
  | nil => rfl
  | cons c digits ih =>
    obtain ⟨hc, hmore⟩ := List.forall_mem_cons.mp hdigits
    rw [Nat.ofDigitChars_cons] at hle ⊢
    have hsmall := le_ofDigitChars digits (10 * octet + (c.toNat - '0'.toNat))
    rw [List.cons_append, ngxInetAddrFrom, if_pos (isDigit_bounds hc)]
    dsimp only
    rw [if_neg (by omega), Nat.mul_comm octet 10, ih hmore hle]

/-- An octet and the dot behind it. -/
theorem ngxInetAddrFrom_octet {octet : List Char} (hoctet : Net.IsOctet octet) (addr n : ℕ)
    (rest : List Char) :
    ngxInetAddrFrom addr 0 n (octet ++ '.' :: rest) =
      ngxInetAddrFrom (addr * 256 + Nat.ofDigitChars 10 octet 0) 0 (n + 1) rest := by
  rw [ngxInetAddrFrom_digits hoctet.digits hoctet.le, ngxInetAddrFrom, if_neg (by decide),
    if_pos rfl]

/-- The number of an IPv4 address. -/
def inetNumber (a b c d : List Char) : ℕ :=
  ((Nat.ofDigitChars 10 a 0 * 256 + Nat.ofDigitChars 10 b 0) * 256 +
    Nat.ofDigitChars 10 c 0) * 256 +
    Nat.ofDigitChars 10 d 0

section Octets

variable {a b c d : List Char}

theorem ngxInetAddrFrom_ipv4 (ha : Net.IsOctet a) (hb : Net.IsOctet b) (hc : Net.IsOctet c)
    (hd : Net.IsOctet d) :
    ngxInetAddrFrom 0 0 0 (a ++ '.' :: (b ++ '.' :: (c ++ '.' :: d))) =
      some (inetNumber a b c d) := by
  have hlast := @ngxInetAddrFrom_digits d hd.digits
    ((Nat.ofDigitChars 10 a 0 * 256 + Nat.ofDigitChars 10 b 0) * 256 + Nat.ofDigitChars 10 c 0) 0 3
    hd.le []
  rw [List.append_nil] at hlast
  rw [ngxInetAddrFrom_octet ha, ngxInetAddrFrom_octet hb, ngxInetAddrFrom_octet hc, Nat.zero_mul,
    Nat.zero_add, hlast, ngxInetAddrFrom, if_pos rfl]
  rfl

theorem inetNumber_lt (ha : Net.IsOctet a) (hb : Net.IsOctet b) (hc : Net.IsOctet c)
    (hd : Net.IsOctet d) : inetNumber a b c d < 4294967296 := by
  have hale := ha.le
  have hble := hb.le
  have hcle := hc.le
  have hdle := hd.le
  unfold inetNumber
  omega

/-- The four numbers are printed one after the other. -/
theorem toList_ngxInetNtop (addr : UInt32) :
    (ngxInetNtop addr).toList =
      Nat.toDigits 10 (addr.toNat / 16777216) ++ '.' ::
        (Nat.toDigits 10 (addr.toNat / 65536 % 256) ++ '.' ::
          (Nat.toDigits 10 (addr.toNat / 256 % 256) ++
            '.' :: Nat.toDigits 10 (addr.toNat % 256))) := by
  simp [ngxInetNtop, String.toList_append]

theorem ngxInetNtop_ofNat (ha : Net.IsOctet a) (hb : Net.IsOctet b) (hc : Net.IsOctet c)
    (hd : Net.IsOctet d) :
    (ngxInetNtop (.ofNat (inetNumber a b c d))).toList =
      Nat.toDigits 10 (Nat.ofDigitChars 10 a 0) ++ '.' ::
        (Nat.toDigits 10 (Nat.ofDigitChars 10 b 0) ++ '.' ::
          (Nat.toDigits 10 (Nat.ofDigitChars 10 c 0) ++ '.' ::
            Nat.toDigits 10 (Nat.ofDigitChars 10 d 0))) := by
  have hnumber : (UInt32.ofNat (inetNumber a b c d)).toNat = inetNumber a b c d :=
    UInt32.toNat_ofNat_of_lt' (inetNumber_lt ha hb hc hd)
  have hale := ha.le
  have hble := hb.le
  have hcle := hc.le
  have hdle := hd.le
  have hbytes : inetNumber a b c d / 16777216 = Nat.ofDigitChars 10 a 0 ∧
      inetNumber a b c d / 65536 % 256 = Nat.ofDigitChars 10 b 0 ∧
      inetNumber a b c d / 256 % 256 = Nat.ofDigitChars 10 c 0 ∧
      inetNumber a b c d % 256 = Nat.ofDigitChars 10 d 0 := by
    unfold inetNumber
    omega
  rw [toList_ngxInetNtop, hnumber, hbytes.1, hbytes.2.1, hbytes.2.2.1, hbytes.2.2.2]

end Octets

/-- What is printed is canonical. -/
theorem isCanonicalIPv4_ngxInetNtop (addr : UInt32) :
    Net.IsCanonicalIPv4 (ngxInetNtop addr).toList := by
  have haddr := addr.toNat_lt
  rw [toList_ngxInetNtop]
  exact ⟨_, _, _, _, ⟨Net.isCanonicalOctet_toDigits (by omega),
    Net.isCanonicalOctet_toDigits (by omega), Net.isCanonicalOctet_toDigits (by omega),
    Net.isCanonicalOctet_toDigits (by omega)⟩, rfl⟩

/-- What is printed is read as the same number. -/
theorem ngxInetAddrFrom_ngxInetNtop (addr : UInt32) :
    ngxInetAddrFrom 0 0 0 (ngxInetNtop addr).toList = some addr.toNat := by
  have haddr := addr.toNat_lt
  have hoctet : ∀ {n : ℕ}, n ≤ 255 → Net.IsOctet (Nat.toDigits 10 n) :=
    fun hn => (Net.isCanonicalOctet_toDigits hn).toIsOctet
  rw [toList_ngxInetNtop, ngxInetAddrFrom_ipv4 (hoctet (by omega)) (hoctet (by omega))
    (hoctet (by omega)) (hoctet (by omega))]
  simp only [inetNumber, Nat.ofDigitChars_ten_toDigits, Option.some.injEq]
  omega

theorem ngxInetNtop_injective : Function.Injective ngxInetNtop := by
  intro addr addr' heq
  have hread := ngxInetAddrFrom_ngxInetNtop addr
  rw [heq, ngxInetAddrFrom_ngxInetNtop addr', Option.some.injEq] at hread
  exact UInt32.toNat_inj.mp hread.symm

/-- An IPv4 address is a number, and it is printed again as it is exactly if it is canonical. -/
theorem exists_ngxInetAddrFrom {t : List Char} (ht : Net.IsIPv4 t) :
    ∃ addr : UInt32, ngxInetAddrFrom 0 0 0 t = some addr.toNat ∧
      ((ngxInetNtop addr).toList = t ↔ Net.IsCanonicalIPv4 t) := by
  obtain ⟨a, b, c, d, ⟨ha, hb, hc, hd⟩, rfl⟩ := ht
  have hlt := inetNumber_lt ha hb hc hd
  refine ⟨.ofNat (inetNumber a b c d), ?_, fun hprinted => ?_, fun hcanonical => ?_⟩
  · rw [ngxInetAddrFrom_ipv4 ha hb hc hd, UInt32.toNat_ofNat_of_lt' hlt]
  · rw [← hprinted]
    exact isCanonicalIPv4_ngxInetNtop _
  · obtain ⟨a', b', c', d', ⟨ha', hb', hc', hd'⟩, heq⟩ := hcanonical
    have hread := ngxInetAddrFrom_ipv4 ha hb hc hd
    rw [heq, ngxInetAddrFrom_ipv4 ha'.toIsOctet hb'.toIsOctet hc'.toIsOctet hd'.toIsOctet,
      Option.some.injEq] at hread
    rw [heq, ← hread, ngxInetNtop_ofNat ha'.toIsOctet hb'.toIsOctet hc'.toIsOctet hd'.toIsOctet,
      ha'.toIsOctet.toDigits_eq_iff.mpr ha', hb'.toIsOctet.toDigits_eq_iff.mpr hb',
      hc'.toIsOctet.toDigits_eq_iff.mpr hc', hd'.toIsOctet.toDigits_eq_iff.mpr hd']

/-! ### Converting IPv6 addresses -/

/-- No piece without a colon is longer than a group of four digits. -/
def ShortPieces (text : List Char) : Prop :=
  ∀ before piece after, text = before ++ piece ++ after → ':' ∉ piece → piece.length ≤ 4

/-- The IPv6 texts that are sure to be converted: no piece between colons has more than four
characters, and there are at most seven colons. This leaves out groups with superfluous zeros, a
dotted end, and seven groups besides the two colons. -/
structure Plain (text : List Char) : Prop where
  short : ShortPieces text
  colons : text.count ':' ≤ 7

theorem ShortPieces.append_left {text rest : List Char} (h : ShortPieces (text ++ rest)) :
    ShortPieces text := fun before piece after hsplit =>
  h before piece (after ++ rest) (by simp [hsplit])

theorem ShortPieces.append_right {text rest : List Char} (h : ShortPieces (text ++ rest)) :
    ShortPieces rest := fun before piece after hsplit =>
  h (text ++ before) piece after (by simp [hsplit])

theorem ShortPieces.length_le {text : List Char} (h : ShortPieces text) (hcolon : ':' ∉ text) :
    text.length ≤ 4 :=
  h [] text [] (by simp) hcolon

theorem ne_of_isHexDigit {c : Char} (hc : Net.isHexDigit c = true) : c ≠ ':' ∧ c ≠ '.' := by
  constructor
  · rintro rfl
    exact absurd hc (by decide)
  · rintro rfl
    exact absurd hc (by decide)

/-- Up to four digits are read into the word. -/
theorem ngxInet6AddrFrom_digits {digits : List Char}
    (hdigits : ∀ c ∈ digits, Net.isHexDigit c = true) {s : Inet6State}
    (hfits : s.nibbles + digits.length ≤ 4) (rest : List Char) :
    ∃ word, ngxInet6AddrFrom s (digits ++ rest) =
      ngxInet6AddrFrom { s with nibbles := s.nibbles + digits.length, word := word } rest := by
  induction digits generalizing s with
  | nil => exact ⟨s.word, rfl⟩
  | cons c digits ih =>
    obtain ⟨hc, hrest⟩ := List.forall_mem_cons.mp hdigits
    obtain ⟨hcolon, hdot⟩ := ne_of_isHexDigit hc
    rw [List.length_cons] at hfits
    obtain ⟨word, hword⟩ := @ih hrest
      { s with nibbles := s.nibbles + 1, word := s.word * 16 + Net.hexValue c }
      (by dsimp only; omega)
    refine ⟨word, ?_⟩
    rw [List.cons_append, ngxInet6AddrFrom, if_neg hcolon, if_neg fun h => hdot h.1,
      if_neg (by omega), if_pos hc, hword, List.length_cons, Nat.add_assoc, Nat.add_comm 1]

/-- A colon behind a word puts it to the others. -/
theorem ngxInet6AddrFrom_colon {s : Inet6State} (hnibbles : s.nibbles ≠ 0)
    (hroom : s.words.length + 1 < 8) (text : List Char) :
    ngxInet6AddrFrom s (':' :: text) =
      ngxInet6AddrFrom { s with digit := some text, words := s.words ++ [s.word],
                                nibbles := 0, word := 0 } text := by
  rw [ngxInet6AddrFrom, if_pos rfl, if_pos hnibbles, if_pos hroom]

/-- Groups are read one after the other; the last one stays in the variables. -/
theorem ngxInet6AddrFrom_groups {dotted : Bool} {n : ℕ} {text : List Char}
    (htext : Net.IsGroups dotted n text) (hshort : ShortPieces text) {s : Inet6State}
    (hstart : s.nibbles = 0) (hroom : s.words.length + n ≤ 8) (rest : List Char) :
    ∃ s', ngxInet6AddrFrom s (text ++ rest) = ngxInet6AddrFrom s' rest ∧ s'.nibbles ≠ 0 ∧
      s'.zero = s.zero ∧ s'.words.length + 1 = s.words.length + n := by
  induction htext generalizing s with
  | @group t ht =>
    have hpos := List.length_pos_iff.mpr ht.ne_nil
    have hfits : s.nibbles + t.length ≤ 4 := by
      have hlength := hshort.length_le ht.colon_not_mem
      omega
    obtain ⟨word, hword⟩ := ngxInet6AddrFrom_digits ht.digits hfits rest
    exact ⟨_, hword, (by omega : s.nibbles + t.length ≠ 0), rfl, rfl⟩
  | @ipv4 t _ ht =>
    have hlength := hshort.length_le ht.colon_not_mem
    exact absurd ht.length_ge (by omega)
  | @more t others n ht hothers ih =>
    have hpos := List.length_pos_iff.mpr ht.ne_nil
    have hmore := hothers.pos
    have hfits : s.nibbles + t.length ≤ 4 := by
      have hlength := hshort.append_left.length_le ht.colon_not_mem
      omega
    have hrest : ShortPieces others := (show ShortPieces ([':'] ++ others) from
      hshort.append_right).append_right
    obtain ⟨word, hword⟩ := ngxInet6AddrFrom_digits ht.digits hfits (':' :: (others ++ rest))
    have hcolon := @ngxInet6AddrFrom_colon { s with nibbles := s.nibbles + t.length, word := word }
      (by dsimp only; omega) (by dsimp only; omega) (others ++ rest)
    obtain ⟨s', hread, hnibbles, hzero, hwords⟩ := @ih hrest
      { s with digit := some (others ++ rest), words := s.words ++ [word], nibbles := 0, word := 0 }
      rfl (by simp only [List.length_append, List.length_singleton]; omega)
    refine ⟨s', ?_, hnibbles, hzero, ?_⟩
    · rw [List.append_assoc, List.cons_append, hword, hcolon, hread]
    · rw [hwords, List.length_append, List.length_singleton]
      omega

/-- The second one of two colons, and the groups behind it. -/
theorem ngxInet6AddrFrom_zeros {n : ℕ} {right : List Char} (hright : Net.IsSomeGroups true n right)
    (hshort : ShortPieces right) {s : Inet6State} (hstart : s.nibbles = 0) (hzero : s.zero = none)
    (hroom : s.words.length + max n 1 ≤ 7) :
    ∃ s', ngxInet6AddrFrom s (':' :: right) = some s' ∧ s'.zero.isSome = true ∧
      s'.words.length + 1 < 8 := by
  have hcolon : ngxInet6AddrFrom s (':' :: right) =
      ngxInet6AddrFrom { s with digit := some right, zero := some s.words.length } right := by
    rw [ngxInet6AddrFrom, if_pos rfl, if_neg (not_not.mpr hstart), if_pos (by rw [hzero]; rfl)]
  rw [hcolon]
  rcases hright with ⟨rfl, rfl⟩ | hgroups
  · exact ⟨_, rfl, rfl, (by omega : s.words.length + 1 < 8)⟩
  · have hpos := hgroups.pos
    obtain ⟨s', hread, -, hkept, hwords⟩ := @ngxInet6AddrFrom_groups true n right hgroups hshort
      { s with digit := some right, zero := some s.words.length } hstart
      (by dsimp only; omega) []
    rw [List.append_nil] at hread
    refine ⟨s', hread, ?_, ?_⟩
    · rw [hkept]
      rfl
    · dsimp only at hwords
      omega

/-- The conversion succeeds if eight words are read, or fewer with a place for zeros. -/
theorem isSome_ngxInet6Addr_of_read {text : List Char} {s : Inet6State} (hne : text ≠ [])
    (hread : ngxInet6AddrFrom {} (if text.head? = some ':' then text.tail else text) = some s)
    (hends : (s.nibbles ≠ 0 ∧ s.zero = none ∧ s.words.length + 1 = 8) ∨
      (s.zero.isSome = true ∧ s.words.length + 1 < 8)) : (ngxInet6Addr text).isSome = true := by
  have hfull : text.isEmpty = false := List.isEmpty_eq_false_iff.mpr hne
  rw [ngxInet6Addr, hfull, if_neg Bool.false_ne_true, hread]
  dsimp only
  rcases hends with ⟨hnibbles, hzero, hwords⟩ | ⟨hzero, hwords⟩
  · simp [hnibbles, hzero, hwords]
  · obtain ⟨start, hstart⟩ := Option.isSome_iff_exists.mp hzero
    simp [hstart, hwords]

/-- nginx converts every plain IPv6 address. -/
theorem isSome_ngxInet6Addr {text : List Char} (htext : Net.IsIPv6 text) (hplain : Plain text) :
    (ngxInet6Addr text).isSome = true := by
  have hne : text ≠ [] := by
    rintro rfl
    exact absurd htext.two_le_count_colon (by decide)
  cases htext with
  | full hgroups =>
    obtain ⟨s, hread, hnibbles, hzero, hwords⟩ := @ngxInet6AddrFrom_groups true 8 text hgroups
      hplain.short {} rfl (by decide) []
    have hhead := hgroups.head?_append_ne []
    rw [List.append_nil] at hread hhead
    refine isSome_ngxInet6Addr_of_read hne ?_ (.inl ⟨hnibbles, hzero, hwords⟩)
    rw [if_neg hhead]
    exact hread
  | @short left right m n hleft hright hfits =>
    have hshort : ShortPieces (left ++ ([':', ':'] ++ right)) := hplain.short
    have hright' : ShortPieces right := hshort.append_right.append_right
    rcases hleft with ⟨rfl, rfl⟩ | hgroups
    · obtain ⟨s, hread, hends⟩ := @ngxInet6AddrFrom_zeros n right hright hright' {} rfl rfl
        (by simp; omega)
      exact isSome_ngxInet6Addr_of_read hne hread (.inr hends)
    · have hcount := hgroups.le_count_colon_of_not_dotted
      have hcolons := hplain.colons
      rw [List.count_append, List.count_cons_self, List.count_cons_self] at hcolons
      obtain ⟨s, hread, hnibbles, hzero, hwords⟩ := @ngxInet6AddrFrom_groups false m left hgroups
        hshort.append_left {} rfl (by simp; omega) (':' :: ':' :: right)
      simp only [List.length_nil, Nat.zero_add] at hwords
      have hcolon := ngxInet6AddrFrom_colon hnibbles (by omega) (':' :: right)
      obtain ⟨s', hread', hends⟩ := @ngxInet6AddrFrom_zeros n right hright hright'
        { s with digit := some (':' :: right), words := s.words ++ [s.word], nibbles := 0,
                 word := 0 }
        rfl hzero (by simp only [List.length_append, List.length_singleton]; omega)
      refine isSome_ngxInet6Addr_of_read hne ?_ (.inr hends)
      rw [if_neg (hgroups.head?_append_ne _), hread, hcolon]
      exact hread'

example : ngxInet6Addr "fd00::7".toList = some [64768, 0, 0, 0, 0, 0, 0, 7] := by decide +kernel

-- two colons behind seven groups are one word too many
example : ngxInet6Addr "1:2:3:4:5:6:7::".toList = none := by decide +kernel

/-! ### Reading -/

theorem ngxStrlchr_append {c : Char} {before : List Char} (hbefore : c ∉ before)
    (after : List Char) : ngxStrlchr c (before ++ c :: after) = some (before, after) := by
  induction before with
  | nil => simp [ngxStrlchr]
  | cons d before ih =>
    obtain ⟨hne, hrest⟩ := not_or.mp (List.mem_cons.not.mp hbefore)
    rw [List.cons_append, ngxStrlchr, if_neg (Ne.symm hne), ih hrest]
    rfl

/-- Text with a colon is no number. -/
theorem ngxAtoi_of_colon {line : List Char} (hcolon : ':' ∈ line) : ngxAtoi line = none := by
  have hfrom : ∀ value, ngxAtoiFrom value line = none := by
    induction line with
    | nil => cases hcolon
    | cons c line ih =>
      intro value
      rw [ngxAtoiFrom]
      rcases List.mem_cons.mp hcolon with rfl | hrest
      · exact if_pos (.inr (by decide))
      · split
        · rfl
        · split
          · rfl
          · exact ih hrest _
  rw [ngxAtoi, hfrom]
  split <;> rfl

theorem ngxPort_toString {port : ℕ} (hport : 1 ≤ port ∧ port ≤ 65535) :
    ngxPort (toString port).toList = some port := by
  have hfits : port ≤ maxIntT := by
    simp only [maxIntT]
    omega
  rw [ngxPort, ngxAtoi_toString hfits]
  simp [hport]

theorem ngxUnixPath_of_ne {c : Char} (hc : ¬ (c = 'u' ∨ c = 'U')) (rest : List Char) :
    ngxUnixPath (c :: rest) = none := by
  unfold ngxUnixPath
  split
  · next u n i x path heq =>
    obtain ⟨rfl, -⟩ := List.cons.inj heq
    exact if_neg fun h => hc h.1
  · rfl

/-- Text that begins like an address, without a bracket. -/
theorem ngxParseUrl_of_plain {url : String} {c : Char} {rest : List Char}
    (hurl : url.toList = c :: rest) (hc : Net.isAddressChar c = true) :
    ngxParseUrl url = ngxParseInetUrl url.toList := by
  have hunix : ¬ (c = 'u' ∨ c = 'U') := by
    rintro (rfl | rfl)
    · exact absurd hc (by decide)
    · exact absurd hc (by decide)
  have hbracket : c ≠ '[' := by
    rintro rfl
    exact absurd hc (by decide)
  rw [ngxParseUrl, hurl, ngxUnixPath_of_ne hunix]
  dsimp only
  split
  · next heq =>
    obtain ⟨rfl, -⟩ := List.cons.inj heq
    exact absurd rfl hbracket
  · rfl

theorem ngxParseUrl_of_bracket {url : String} {rest : List Char} (hurl : url.toList = '[' :: rest) :
    ngxParseUrl url = ngxParseInet6Url rest := by
  have hunix : ngxUnixPath ('[' :: rest) = none := ngxUnixPath_of_ne (by decide) rest
  simp only [ngxParseUrl, hurl, hunix]

theorem not_contains_of_isAddressChar {url : List Char} {c : Char}
    (hurl : ∀ d ∈ url, Net.isAddressChar d = true) (hc : Net.isAddressChar c = false) :
    url.contains c = false := by
  rw [← Bool.not_eq_true, List.contains_iff_mem]
  intro hmem
  rw [hurl c hmem] at hc
  cases hc

/-- A host in brackets and a port. -/
theorem ngxParseInet6Url_of_port {host digits : List Char}
    (hreads : (ngxInet6Addr host).isSome = true) (hhost : ']' ∉ host)
    (hdigits : ∀ c ∈ digits, Net.isAddressChar c = true) {port : ℕ}
    (hport : ngxPort digits = some port) :
    ngxParseInet6Url (host ++ ']' :: ':' :: digits) =
      some (.inet6 (String.ofList host) (some port)) := by
  have hrest : (':' :: digits).contains '/' = false :=
    not_contains_of_isAddressChar (List.forall_mem_cons.mpr ⟨by decide, hdigits⟩) (by decide)
  have hnone : (ngxInet6Addr host).isNone = false := by
    rw [← Option.not_isSome, hreads]
    rfl
  simp only [ngxParseInet6Url, ngxStrlchr_append hhost, hrest, hnone, hport, Bool.or_self,
    Bool.false_eq_true, if_false]

theorem isAddressChar_of_mem_toString {port : ℕ} :
    ∀ c ∈ (toString port).toList, Net.isAddressChar c = true :=
  fun _ hc => Net.isAddressChar_of_isDigit (isDigit_of_mem_toString hc)

section Address

variable {ip : String} {port : ℕ} (hport : 1 ≤ port ∧ port ≤ 65535)

include hport

omit hport in
/-- An IPv4 address and what is behind the colon. -/
theorem ngxParseUrl_ipv4_colon {text : String} (hip : Net.IsIPv4 ip.toList)
    (hslash : '/' ∉ text.toList) (hquery : '?' ∉ text.toList) :
    ngxParseUrl (ip ++ ":" ++ text) = (ngxPort text.toList).map fun n => .inet ip (some n) := by
  have hurl : (ip ++ ":" ++ text).toList = ip.toList ++ ':' :: text.toList := by
    simp [String.toList_append]
  have hnone : ∀ c, Net.isAddressChar c = false → c ∉ text.toList →
      (ip.toList ++ ':' :: text.toList).contains c = false := by
    intro c hc htext
    rw [← Bool.not_eq_true, List.contains_iff_mem]
    have hcolon : c ≠ ':' := by
      rintro rfl
      exact absurd hc (by decide)
    have haddress : c ∉ ip.toList := by
      intro hmem
      rw [hip.isAddressChar c hmem] at hc
      cases hc
    simp [haddress, hcolon, htext]
  obtain ⟨c, rest, hfirst⟩ := List.exists_cons_of_ne_nil hip.ne_nil
  have hplain : (ip ++ ":" ++ text).toList = c :: (rest ++ ':' :: text.toList) := by
    rw [hurl, hfirst, List.cons_append]
  rw [ngxParseUrl_of_plain hplain (hip.isAddressChar c (hfirst ▸ List.mem_cons_self)), hurl,
    ngxParseInetUrl, hnone '/' (by decide) hslash, hnone '?' (by decide) hquery,
    ngxStrlchr_append hip.colon_not_mem]
  dsimp only
  cases ngxPort text.toList with
  | none => rfl
  | some n => simp [hip.ne_nil]

/-- An IPv4 address and a port are read as what they are. -/
theorem ngxParseUrl_ipv4 (hip : Net.IsIPv4 ip.toList) :
    ngxParseUrl (ip ++ ":" ++ toString port) = some (.inet ip (some port)) := by
  have hdigit : ∀ {c : Char}, c.isDigit = false → c ∉ (toString port).toList := by
    intro c hc hmem
    rw [isDigit_of_mem_toString hmem] at hc
    cases hc
  rw [ngxParseUrl_ipv4_colon hip (hdigit (by decide)) (hdigit (by decide)), ngxPort_toString hport]
  rfl

/-- So are an IPv6 address in brackets that can be converted, and a port. -/
theorem ngxParseUrl_ipv6 (hip : Net.IsIPv6 ip.toList)
    (hreads : (ngxInet6Addr ip.toList).isSome = true) :
    ngxParseUrl ("[" ++ ip ++ "]" ++ ":" ++ toString port) = some (.inet6 ip (some port)) := by
  have hurl : ("[" ++ ip ++ "]" ++ ":" ++ toString port).toList =
      '[' :: (ip.toList ++ ']' :: ':' :: (toString port).toList) := by
    simp [String.toList_append]
  have hbracket : ']' ∉ ip.toList := fun hmem =>
    absurd (hip.isAddressChar _ hmem) (by decide)
  rw [ngxParseUrl_of_bracket hurl, ngxParseInet6Url_of_port hreads hbracket
    isAddressChar_of_mem_toString (ngxPort_toString hport), String.ofList_toList]

omit hport in
/-- Without brackets an IPv6 address is not accepted: what follows its first colon is no port. -/
theorem ngxParseUrl_bare_ipv6 (hip : Net.IsIPv6 ip.toList) :
    ngxParseUrl (ip ++ ":" ++ toString port) = none := by
  have hcolons := hip.two_le_count_colon
  have hmem : ':' ∈ ip.toList := List.count_pos_iff.mp (by omega)
  obtain ⟨before, after, hsplit, hbefore⟩ := List.eq_append_cons_of_mem hmem
  have hmore : ':' ∈ after := by
    rw [hsplit, List.count_append, List.count_eq_zero_of_not_mem hbefore,
      List.count_cons_self] at hcolons
    exact List.count_pos_iff.mp (by omega)
  have hurl : (ip ++ ":" ++ toString port).toList =
      before ++ ':' :: (after ++ ':' :: (toString port).toList) := by
    simp [String.toList_append, hsplit]
  have hfirst : ∃ c rest, (ip ++ ":" ++ toString port).toList = c :: rest ∧
      Net.isAddressChar c = true := by
    cases before with
    | nil => exact ⟨':', _, hurl, by decide⟩
    | cons c before =>
      exact ⟨c, _, hurl, hip.isAddressChar c (hsplit ▸ List.mem_append_left _ List.mem_cons_self)⟩
  obtain ⟨c, rest, hplain, hc⟩ := hfirst
  rw [ngxParseUrl_of_plain hplain hc, hurl, ngxParseInetUrl, ngxStrlchr_append hbefore]
  dsimp only
  rw [ngxPort, ngxAtoi_of_colon (List.mem_append_left _ hmore)]
  split <;> rfl

end Address

end HealthCheck.Nginx
