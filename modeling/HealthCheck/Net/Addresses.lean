import HealthCheck.Go.Numerals

/-!
# Text forms of IP addresses

An IPv4 address is written as four decimal numbers with dots between them. An IPv6 address is
written as eight hexadecimal groups with colons between them; the last two groups may be written as
an IPv4 address, and one run of zero groups may be written as two colons.
-/

namespace HealthCheck.Net

/-- A hexadecimal digit. -/
def isHexDigit (c : Char) : Bool :=
  c.isDigit || ('a' ≤ c && c ≤ 'f') || ('A' ≤ c && c ≤ 'F')

/-- The value of a hexadecimal digit. -/
def hexValue (c : Char) : ℕ :=
  if c.isDigit then c.toNat - '0'.toNat else c.toLower.toNat - 'a'.toNat + 10

/-- One number of an IPv4 address. -/
structure IsOctet (t : List Char) : Prop where
  ne_nil : t ≠ []
  digits : ∀ c ∈ t, c.isDigit = true
  le : Nat.ofDigitChars 10 t 0 ≤ 255

/-- One group of an IPv6 address. -/
structure IsGroup (t : List Char) : Prop where
  ne_nil : t ≠ []
  digits : ∀ c ∈ t, isHexDigit c = true
  le : t.foldl (fun n c => 16 * n + hexValue c) 0 ≤ 65535

/-- An IPv4 address. -/
def IsIPv4 (t : List Char) : Prop :=
  ∃ a b c d, (IsOctet a ∧ IsOctet b ∧ IsOctet c ∧ IsOctet d) ∧
    t = a ++ '.' :: (b ++ '.' :: (c ++ '.' :: d))

/-- A number of an IPv4 address without superfluous zeros. -/
structure IsCanonicalOctet (t : List Char) : Prop extends IsOctet t where
  canonical : t.head? = some '0' → t = ['0']

/-- An IPv4 address without superfluous zeros. -/
def IsCanonicalIPv4 (t : List Char) : Prop :=
  ∃ a b c d, (IsCanonicalOctet a ∧ IsCanonicalOctet b ∧ IsCanonicalOctet c ∧ IsCanonicalOctet d) ∧
    t = a ++ '.' :: (b ++ '.' :: (c ++ '.' :: d))

/-- The text of `n` groups. The last two of them may be an IPv4 address if `dotted` allows it. -/
inductive IsGroups (dotted : Bool) : ℕ → List Char → Prop
  | group {t : List Char} (ht : IsGroup t) : IsGroups dotted 1 t
  | ipv4 {t : List Char} (hdotted : dotted = true) (ht : IsIPv4 t) : IsGroups dotted 2 t
  | more {t rest : List Char} {n : ℕ} (ht : IsGroup t) (hrest : IsGroups dotted n rest) :
    IsGroups dotted (n + 1) (t ++ ':' :: rest)

/-- The text of `n` groups, which may be none. -/
def IsSomeGroups (dotted : Bool) (n : ℕ) (t : List Char) : Prop :=
  (n = 0 ∧ t = []) ∨ IsGroups dotted n t

/-- An IPv6 address. -/
inductive IsIPv6 : List Char → Prop
  | full {t : List Char} (ht : IsGroups true 8 t) : IsIPv6 t
  | short {left right : List Char} {m n : ℕ} (hleft : IsSomeGroups false m left)
    (hright : IsSomeGroups true n right) (hfits : m + n ≤ 7) :
    IsIPv6 (left ++ ':' :: ':' :: right)

/-! ### Numbers -/

/-- A number is printed again as it is written exactly if it is canonical. -/
theorem IsOctet.toDigits_eq_iff {t : List Char} (ht : IsOctet t) :
    Nat.toDigits 10 (Nat.ofDigitChars 10 t 0) = t ↔ IsCanonicalOctet t := by
  rw [Go.toDigits_ofDigitChars_iff ⟨ht.ne_nil, ht.digits⟩]
  exact ⟨fun h => ⟨ht, h⟩, fun h => h.canonical⟩

theorem isCanonicalOctet_toDigits {n : ℕ} (hn : n ≤ 255) :
    IsCanonicalOctet (Nat.toDigits 10 n) := by
  have hvalue : Nat.ofDigitChars 10 (Nat.toDigits 10 n) 0 = n := Nat.ofDigitChars_ten_toDigits
  have hoctet : IsOctet (Nat.toDigits 10 n) := {
    ne_nil := Nat.toDigits_ne_nil
    digits := fun c hc => Nat.isDigit_of_mem_toDigits (by decide) (by decide) hc
    le := by rw [hvalue]; exact hn }
  rw [← hoctet.toDigits_eq_iff, hvalue]

theorem IsCanonicalIPv4.isIPv4 {t : List Char} (ht : IsCanonicalIPv4 t) : IsIPv4 t := by
  obtain ⟨a, b, c, d, ⟨ha, hb, hc, hd⟩, rfl⟩ := ht
  exact ⟨a, b, c, d, ⟨ha.toIsOctet, hb.toIsOctet, hc.toIsOctet, hd.toIsOctet⟩, rfl⟩

/-! ### Characters -/

/-- The characters of addresses. -/
def isAddressChar (c : Char) : Bool := isHexDigit c || c == ':' || c == '.'

theorem isAddressChar_of_isHexDigit {c : Char} (hc : isHexDigit c = true) :
    isAddressChar c = true := by
  simp [isAddressChar, hc]

theorem isAddressChar_of_isDigit {c : Char} (hc : c.isDigit = true) : isAddressChar c = true :=
  isAddressChar_of_isHexDigit (by simp [isHexDigit, hc])

theorem IsIPv4.isAddressChar {t : List Char} (ht : IsIPv4 t) :
    ∀ c ∈ t, Net.isAddressChar c = true := by
  obtain ⟨a, b, c, d, ⟨ha, hb, hc, hd⟩, rfl⟩ := ht
  have hoctet : ∀ {t : List Char}, IsOctet t → ∀ c ∈ t, Net.isAddressChar c = true :=
    fun ht c hc => isAddressChar_of_isDigit (ht.digits c hc)
  have hdot : Net.isAddressChar '.' = true := by decide
  simp only [List.forall_mem_append, List.forall_mem_cons]
  exact ⟨hoctet ha, hdot, hoctet hb, hdot, hoctet hc, hdot, hoctet hd⟩

theorem IsIPv4.colon_not_mem {t : List Char} (ht : IsIPv4 t) : ':' ∉ t := by
  obtain ⟨a, b, c, d, ⟨ha, hb, hc, hd⟩, rfl⟩ := ht
  have hoctet : ∀ {t : List Char}, IsOctet t → ':' ∉ t :=
    fun ht hmem => absurd (ht.digits _ hmem) (by decide)
  simp [hoctet ha, hoctet hb, hoctet hc, hoctet hd]

theorem IsIPv4.ne_nil {t : List Char} (ht : IsIPv4 t) : t ≠ [] := by
  obtain ⟨a, b, c, d, -, rfl⟩ := ht
  simp

theorem IsIPv4.length_ge {t : List Char} (ht : IsIPv4 t) : 7 ≤ t.length := by
  obtain ⟨a, b, c, d, ⟨ha, hb, hc, hd⟩, rfl⟩ := ht
  have hoctet : ∀ {t : List Char}, IsOctet t → 1 ≤ t.length :=
    fun ht => List.length_pos_iff.mpr ht.ne_nil
  have := hoctet ha
  have := hoctet hb
  have := hoctet hc
  have := hoctet hd
  simp only [List.length_append, List.length_cons]
  omega

theorem IsGroup.colon_not_mem {t : List Char} (ht : IsGroup t) : ':' ∉ t :=
  fun hmem => absurd (ht.digits _ hmem) (by decide)

variable {dotted : Bool} {n : ℕ} {t : List Char}

theorem IsGroups.isAddressChar (ht : IsGroups dotted n t) :
    ∀ c ∈ t, Net.isAddressChar c = true := by
  have hgroup : ∀ {t : List Char}, IsGroup t → ∀ c ∈ t, Net.isAddressChar c = true :=
    fun ht c hc => isAddressChar_of_isHexDigit (ht.digits c hc)
  induction ht with
  | group ht => exact hgroup ht
  | ipv4 _ ht => exact ht.isAddressChar
  | more ht _ ih =>
    simp only [List.forall_mem_append, List.forall_mem_cons]
    exact ⟨hgroup ht, by decide, ih⟩

theorem IsIPv6.isAddressChar (ht : IsIPv6 t) : ∀ c ∈ t, Net.isAddressChar c = true := by
  have hsome : ∀ {dotted : Bool} {n : ℕ} {t : List Char}, IsSomeGroups dotted n t →
      ∀ c ∈ t, Net.isAddressChar c = true := by
    rintro dotted n t (⟨-, rfl⟩ | ht)
    · exact fun _ h => absurd h List.not_mem_nil
    · exact ht.isAddressChar
  cases ht with
  | full ht => exact ht.isAddressChar
  | short hleft hright _ =>
    simp only [List.forall_mem_append, List.forall_mem_cons]
    exact ⟨hsome hleft, by decide, by decide, hsome hright⟩

theorem IsGroups.pos (ht : IsGroups dotted n t) : 0 < n := by
  cases ht with
  | group _ => omega
  | ipv4 _ _ => omega
  | more _ _ => omega

/-- Groups do not begin with a colon. -/
theorem IsGroups.head?_append_ne (ht : IsGroups dotted n t) (more : List Char) :
    (t ++ more).head? ≠ some ':' := by
  have hhead : ∀ {t : List Char} (more : List Char), t ≠ [] → ':' ∉ t →
      (t ++ more).head? ≠ some ':' := by
    intro t more hne hcolon heq
    obtain ⟨c, rest, rfl⟩ := List.exists_cons_of_ne_nil hne
    obtain rfl : c = ':' := Option.some.inj heq
    exact hcolon List.mem_cons_self
  cases ht with
  | group ht => exact hhead more ht.ne_nil ht.colon_not_mem
  | ipv4 _ ht => exact hhead more ht.ne_nil ht.colon_not_mem
  | more ht _ =>
    rw [List.append_assoc]
    exact hhead _ ht.ne_nil ht.colon_not_mem

/-- There are almost as many colons as groups. -/
theorem IsGroups.le_count_colon (ht : IsGroups dotted n t) : n ≤ t.count ':' + 2 := by
  induction ht with
  | group _ => omega
  | ipv4 _ _ => omega
  | more _ _ ih =>
    rw [List.count_append, List.count_cons_self]
    omega

theorem IsGroups.le_count_colon_of_not_dotted (ht : IsGroups false n t) : n ≤ t.count ':' + 1 := by
  generalize hdotted : false = dotted at ht
  induction ht with
  | group _ => omega
  | ipv4 h _ =>
    rw [← hdotted] at h
    cases h
  | more _ _ ih =>
    rw [List.count_append, List.count_cons_self]
    omega

/-- An IPv6 address has at least two colons. -/
theorem IsIPv6.two_le_count_colon (ht : IsIPv6 t) : 2 ≤ t.count ':' := by
  cases ht with
  | full ht =>
    have hcount := ht.le_count_colon
    omega
  | short _ _ _ =>
    rw [List.count_append, List.count_cons_self, List.count_cons_self]
    omega

end HealthCheck.Net
