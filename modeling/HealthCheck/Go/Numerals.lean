import HealthCheck.Go.Strings

/-!
# Decimal numerals

The integers that texts denote, and what `strconv.Atoi` makes of them: the integer if it is an
`int`, and an error if it is not or if the text is no numeral.
-/

namespace HealthCheck.Go

/-- A text of digits that is not empty. -/
def IsDigits (text : List Char) : Prop := text ≠ [] ∧ ∀ c ∈ text, c.isDigit = true

/-- The integer that a decimal numeral with an optional sign denotes. -/
inductive Numeral : List Char → ℤ → Prop
  | unsigned {digits : List Char} (h : IsDigits digits) :
      Numeral digits (Nat.ofDigitChars 10 digits 0)
  | plus {digits : List Char} (h : IsDigits digits) :
      Numeral ('+' :: digits) (Nat.ofDigitChars 10 digits 0)
  | minus {digits : List Char} (h : IsDigits digits) :
      Numeral ('-' :: digits) (-Nat.ofDigitChars 10 digits 0)

/-- The integer is an `int` of a 64-bit machine. -/
def FitsInt (v : ℤ) : Prop := -(maxInt + 1) ≤ v ∧ v ≤ maxInt

instance (v : ℤ) : Decidable (FitsInt v) := inferInstanceAs (Decidable (_ ∧ _))

/-- The sign of a numeral, and what follows it. -/
def readSign : List Char → Bool × List Char
  | '-' :: digits => (true, digits)
  | '+' :: digits => (false, digits)
  | digits => (false, digits)

/-- The value of digits behind a sign. -/
def signedValue (negative : Bool) (digits : List Char) : ℤ :=
  if negative then -Nat.ofDigitChars 10 digits 0 else Nat.ofDigitChars 10 digits 0

theorem readSign_of_digits {digits : List Char} (h : IsDigits digits) :
    readSign digits = (false, digits) := by
  unfold readSign
  split
  · exact absurd (h.2 '-' List.mem_cons_self) (by decide)
  · exact absurd (h.2 '+' List.mem_cons_self) (by decide)
  · rfl

/-- A numeral is a sign and digits. -/
theorem numeral_iff {text : List Char} {v : ℤ} :
    Numeral text v ↔
      IsDigits (readSign text).2 ∧ v = signedValue (readSign text).1 (readSign text).2 := by
  constructor
  · intro h
    cases h with
    | unsigned h =>
      rw [readSign_of_digits h]
      exact ⟨h, rfl⟩
    | plus h => exact ⟨h, rfl⟩
    | minus h => exact ⟨h, rfl⟩
  · rintro ⟨hdigits, rfl⟩
    unfold readSign at hdigits ⊢
    split at hdigits
    · exact .minus hdigits
    · exact .plus hdigits
    · exact .unsigned hdigits

theorem Numeral.unique {text : List Char} {v w : ℤ} (h : Numeral text v) (h' : Numeral text w) :
    v = w :=
  (numeral_iff.mp h).2.trans (numeral_iff.mp h').2.symm

/-- What `Atoi` does once the sign is read. -/
def readDigits (negative : Bool) (digits : List Char) : ℤ × Bool :=
  if digits.isEmpty || !digits.all Char.isDigit then (0, false)
  else if negative then
    if Nat.ofDigitChars 10 digits 0 ≤ maxInt + 1 then (-Nat.ofDigitChars 10 digits 0, true)
    else (-(maxInt + 1), false)
  else
    if Nat.ofDigitChars 10 digits 0 ≤ maxInt then (Nat.ofDigitChars 10 digits 0, true)
    else (maxInt, false)

theorem atoi_eq (s : String) :
    atoi s = readDigits (readSign s.toList).1 (readSign s.toList).2 := rfl

theorem readDigits_of_digits (negative : Bool) {digits : List Char} (h : IsDigits digits) :
    readDigits negative digits =
      if FitsInt (signedValue negative digits) then (signedValue negative digits, true)
      else (if negative then -(maxInt + 1) else maxInt, false) := by
  have hall : digits.all Char.isDigit = true := List.all_eq_true.mpr h.2
  unfold readDigits signedValue FitsInt
  rw [hall, if_neg (by simp [h.1])]
  generalize Nat.ofDigitChars 10 digits 0 = n
  cases negative with
  | true =>
    have hfits : -(maxInt + 1 : ℤ) ≤ -n ∧ -(n : ℤ) ≤ maxInt ↔ n ≤ maxInt + 1 := by omega
    simp only [if_true, hfits]
  | false =>
    have hfits : -(maxInt + 1 : ℤ) ≤ n ∧ (n : ℤ) ≤ maxInt ↔ n ≤ maxInt := by omega
    simp only [Bool.false_eq_true, if_false, hfits]

theorem isDigits_of_readDigits {negative : Bool} {digits : List Char}
    (h : (readDigits negative digits).2 = true) : IsDigits digits := by
  unfold readDigits at h
  split at h
  · cases h
  · next hdigits =>
    rw [Bool.or_eq_true, not_or, List.isEmpty_iff, Bool.not_eq_true', Bool.not_eq_false] at hdigits
    exact ⟨hdigits.1, List.all_eq_true.mp hdigits.2⟩

section Atoi

variable {s : String} {v : ℤ}

/-- `Atoi` on a numeral. -/
theorem atoi_of_numeral (h : Numeral s.toList v) :
    atoi s = if FitsInt v then (v, true)
      else (if (readSign s.toList).1 then -(maxInt + 1) else maxInt, false) := by
  obtain ⟨hdigits, rfl⟩ := numeral_iff.mp h
  rw [atoi_eq, readDigits_of_digits _ hdigits]

/-- The value is that of the numeral exactly if it is an `int`, also when the error is dropped. -/
theorem atoi_eq_numeral_iff (h : Numeral s.toList v) : (atoi s).1 = v ↔ FitsInt v := by
  rw [atoi_of_numeral h]
  split
  · next hfits => exact iff_of_true rfl hfits
  · next hfits =>
    refine iff_of_false (fun heq => hfits ?_) hfits
    rw [← heq]
    dsimp only
    split <;> decide

/-- Without an error, the text is a numeral of the value. -/
theorem numeral_of_atoi (h : (atoi s).2 = true) : Numeral s.toList (atoi s).1 := by
  have hnumeral := numeral_iff.mpr ⟨isDigits_of_readDigits h, rfl⟩
  rw [atoi_of_numeral hnumeral] at h ⊢
  split at h
  · next hfits =>
    rw [if_pos hfits]
    exact hnumeral
  · cases h

end Atoi

/-! ### Digits -/

/-- A number that is not zero does not begin with the digit zero. -/
theorem exists_toDigits {n : ℕ} (h : n ≠ 0) :
    ∃ first digits, Nat.toDigits 10 n = first :: digits ∧ first ≠ '0' := by
  induction n using Nat.strongRecOn with
  | ind n ih =>
    by_cases hn : n < 10
    · refine ⟨n.digitChar, [], Nat.toDigits_of_lt_base hn, ?_⟩
      have hdigit : ∀ m < 10, m ≠ 0 → m.digitChar ≠ '0' := by decide
      exact hdigit n hn h
    · obtain ⟨first, digits, hdigits, hfirst⟩ := ih (n / 10) (by omega) (by omega)
      refine ⟨first, digits ++ [(n % 10).digitChar], ?_, hfirst⟩
      rw [Nat.toDigits_of_base_le (by decide) (by omega), hdigits]
      rfl

theorem toDigits_digit {c : Char} (hc : c.isDigit = true) :
    Nat.toDigits 10 (c.toNat - '0'.toNat) = [c] ∧ c.toNat - '0'.toNat < 10 := by
  have hrange : 48 ≤ c.toNat ∧ c.toNat ≤ 57 := by
    simpa [Char.isDigit, UInt32.le_iff_toNat_le] using hc
  have hsmall : c.toNat - '0'.toNat < 10 := by
    have hzero : '0'.toNat = 48 := rfl
    omega
  have hall : ∀ n ≤ 57, 48 ≤ n → (n - '0'.toNat).digitChar = Char.ofNat n := by decide
  refine ⟨?_, hsmall⟩
  rw [Nat.toDigits_of_lt_base hsmall, hall c.toNat hrange.2 hrange.1, Char.ofNat_toNat]

/-- The digits behind a number that is not zero are its last digits. -/
theorem toDigits_ofDigitChars_of_pos {digits : List Char} (h : ∀ c ∈ digits, c.isDigit = true)
    {n : ℕ} (hn : 0 < n) :
    Nat.toDigits 10 (Nat.ofDigitChars 10 digits n) = Nat.toDigits 10 n ++ digits := by
  induction digits generalizing n with
  | nil => rw [Nat.ofDigitChars_nil, List.append_nil]
  | cons c digits ih =>
    obtain ⟨hc, hdigits⟩ := List.forall_mem_cons.mp h
    obtain ⟨hdigit, hsmall⟩ := toDigits_digit hc
    rw [Nat.ofDigitChars_cons, ih hdigits (by omega),
      ← Nat.toDigits_append_toDigits (by decide) hn hsmall, hdigit, List.append_assoc]
    rfl

/-- Digits are printed again as they are unless they begin with a superfluous zero. -/
theorem toDigits_ofDigitChars_iff {digits : List Char} (h : IsDigits digits) :
    Nat.toDigits 10 (Nat.ofDigitChars 10 digits 0) = digits ↔
      (digits.head? = some '0' → digits = ['0']) := by
  constructor
  · intro hprinted hzero
    by_cases hvalue : Nat.ofDigitChars 10 digits 0 = 0
    · rw [hvalue] at hprinted
      exact hprinted.symm
    · obtain ⟨first, rest, hfirst, hne⟩ := exists_toDigits hvalue
      rw [← hprinted, hfirst] at hzero
      exact absurd (Option.some.inj hzero) hne
  · intro hzero
    obtain ⟨c, rest, rfl⟩ := List.exists_cons_of_ne_nil h.1
    obtain ⟨hc, hrest⟩ := List.forall_mem_cons.mp h.2
    by_cases hfirst : c = '0'
    · rw [hzero (by rw [hfirst]; rfl)]
      rfl
    · obtain ⟨hdigit, hsmall⟩ := toDigits_digit hc
      have hpos : 0 < c.toNat - '0'.toNat := by
        refine Nat.pos_of_ne_zero fun hnone => hfirst ?_
        rw [hnone] at hdigit
        exact (List.cons.inj hdigit).1.symm
      rw [Nat.ofDigitChars_cons, Nat.mul_zero, Nat.zero_add,
        toDigits_ofDigitChars_of_pos hrest hpos, hdigit]
      rfl

end HealthCheck.Go
