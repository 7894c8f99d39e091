import Mathlib.Data.List.Infix
import Mathlib.Data.Int.Notation

/-!
# Strings and integers of Go

The controller builds its keys with `fmt.Sprintf` and takes them apart again with
`strings.Split`; label values go through `strconv.Atoi` and the case functions.
Label values and object names are ASCII by the rules of the API server, so the
case functions below map letters only.
-/

namespace HealthCheck.Go

/-- `strings.Split` for a separator of one character. -/
def split (s : String) (sep : Char) : List String :=
  (s.toList.splitOn sep).map String.ofList

/-- The loop of `strings.Split` for a longer separator. `part` is the part read so far, and `skip`
characters of the separator found last are still to be passed over. -/
def splitFrom (sep : List Char) : ℕ → List Char → List Char → List (List Char)
  | _, part, [] => [part]
  | skip + 1, part, _ :: rest => splitFrom sep skip part rest
  | 0, part, c :: rest =>
    if sep.isPrefixOf (c :: rest) then part :: splitFrom sep (sep.length - 1) [] rest
    else splitFrom sep 0 (part ++ [c]) rest

/-- `strings.Split` for any separator that is not empty. -/
def splitText (s sep : String) : List String :=
  (splitFrom sep.toList 0 [] s.toList).map String.ofList

/-- `strings.HasPrefix`. -/
def hasPrefix (s start : String) : Bool := start.toList.isPrefixOf s.toList

/-- `strings.Contains`. -/
def contains (s sub : String) : Bool := s.toList.tails.any sub.toList.isPrefixOf

/-- `strings.ToUpper` on ASCII text. -/
def toUpper (s : String) : String := String.ofList (s.toList.map Char.toUpper)

/-- `strings.ToLower` on ASCII text. -/
def toLower (s : String) : String := String.ofList (s.toList.map Char.toLower)

/-- `strings.EqualFold` on ASCII text. -/
def equalFold (s t : String) : Bool := toLower s == toLower t

/-- A small letter is turned into a capital one and back; other characters stay as they are. -/
theorem char_toLower_toUpper (c : Char) : c.toUpper.toLower = c.toLower := by
  by_cases hsmall : 'a'.val ≤ c.val ∧ c.val ≤ 'z'.val
  · obtain ⟨ha, hz⟩ := id hsmall
    have ha : 97 ≤ c.val.toNat := ha
    have hz : c.val.toNat ≤ 122 := hz
    have hupper : c.toUpper.val.toNat = c.val.toNat - 32 := by
      have htoUpper : c.toUpper = _ := dif_pos hsmall
      rw [htoUpper, UInt32.toNat_add]
      change (c.val.toNat + 4294967264) % 4294967296 = _
      omega
    have hcapital : 'A'.val ≤ c.toUpper.val ∧ c.toUpper.val ≤ 'Z'.val := by
      change 65 ≤ c.toUpper.val.toNat ∧ c.toUpper.val.toNat ≤ 90
      omega
    have hnot : ¬ ('A'.val ≤ c.val ∧ c.val ≤ 'Z'.val) := by
      change ¬ (65 ≤ c.val.toNat ∧ c.val.toNat ≤ 90)
      omega
    have hback : c.toUpper.toLower = _ := dif_pos hcapital
    have hsame : c.toLower = c := dif_neg hnot
    apply Char.ext
    apply UInt32.toNat_inj.mp
    rw [hback, hsame, UInt32.toNat_add]
    change (c.toUpper.val.toNat + 32) % 4294967296 = _
    omega
  · have hsame : c.toUpper = c := dif_neg hsmall
    rw [hsame]

theorem toLower_toUpper (s : String) : toLower (toUpper s) = toLower s := by
  have hchars : Char.toLower ∘ Char.toUpper = Char.toLower := funext char_toLower_toUpper
  simp only [toLower, toUpper, String.toList_ofList, List.map_map, hchars]

/-- The largest value of Go's `int` on a 64-bit machine. -/
def maxInt : ℕ := 9223372036854775807

/-- The conversion `int32(v)`. -/
def int32 (v : ℤ) : ℤ := Int.bmod v 4294967296

/-- `strconv.Atoi`. The second component is false when an error is returned;
the value is then `0` for malformed text and the nearest `int` for text that is
out of range, which is what callers that drop the error go on with. -/
def atoi (s : String) : ℤ × Bool :=
  let signed : Bool × List Char := match s.toList with
    | '-' :: digits => (true, digits)
    | '+' :: digits => (false, digits)
    | digits => (false, digits)
  if signed.2.isEmpty || !signed.2.all Char.isDigit then (0, false)
  else
    let n := Nat.ofDigitChars 10 signed.2 0
    if signed.1 then
      if n ≤ maxInt + 1 then (-n, true) else (-(maxInt + 1), false)
    else
      if n ≤ maxInt then (n, true) else (maxInt, false)

/-- Text without the separator in front of a separator is the first part. -/
theorem split_append {a b : String} {sep : Char} (ha : sep ∉ a.toList) :
    split (a ++ String.singleton sep ++ b) sep = a :: split b sep := by
  have hlist : (a ++ String.singleton sep ++ b).toList = a.toList ++ sep :: b.toList := by
    simp [String.toList_append]
  rw [split, hlist, List.splitOn_append_cons_self_of_not_mem ha, List.map_cons,
    String.ofList_toList, split]

/-- Text without the separator is its own only part. -/
theorem split_of_not_mem {a : String} {sep : Char} (ha : sep ∉ a.toList) :
    split a sep = [a] := by
  rw [split, List.splitOn_eq_singleton ha, List.map_cons, String.ofList_toList, List.map_nil]

/-- Joining two separator-free texts and splitting again gives both back. -/
theorem split_join {a b : String} {sep : Char} (ha : sep ∉ a.toList) (hb : sep ∉ b.toList) :
    split (a ++ String.singleton sep ++ b) sep = [a, b] := by
  rw [split_append ha, split_of_not_mem hb]

/-- A text that splits into two parts is exactly their join. -/
theorem eq_join_of_split {s a b : String} {sep : Char} (h : split s sep = [a, b]) :
    s = a ++ String.singleton sep ++ b := by
  have hparts : s.toList.splitOn sep = [a.toList, b.toList] := by
    have hmap := congrArg (List.map String.toList) h
    simpa [split, Function.comp_def, String.toList_ofList] using hmap
  have hjoin : [sep].intercalate (s.toList.splitOn sep) = s.toList :=
    List.intercalate_splitOn sep
  rw [hparts] at hjoin
  apply String.toList_injective
  rw [← hjoin]
  simp [String.toList_append, List.intercalate]

/-- No part contains the separator. -/
theorem not_mem_of_mem_splitOn {s part : List Char} {sep : Char} (hpart : part ∈ s.splitOn sep) :
    sep ∉ part := by
  -- The first separator ends a part without it, and the rest is shorter.
  induction hlength : s.length using Nat.strong_induction_on generalizing s with
  | _ n ih =>
    by_cases hsep : sep ∈ s
    · obtain ⟨a, b, rfl, ha⟩ := List.eq_append_cons_of_mem hsep
      rw [List.splitOn_append_cons_self_of_not_mem ha, List.mem_cons] at hpart
      rcases hpart with rfl | hrest
      · exact ha
      · refine ih b.length ?_ hrest rfl
        rw [← hlength, List.length_append, List.length_cons]
        omega
    · rw [List.splitOn_eq_singleton hsep, List.mem_singleton] at hpart
      exact hpart ▸ hsep

/-- A text splits into two parts exactly when it joins two texts without the separator. -/
theorem split_eq_pair_iff {s a b : String} {sep : Char} :
    split s sep = [a, b] ↔
      sep ∉ a.toList ∧ sep ∉ b.toList ∧ s = a ++ String.singleton sep ++ b := by
  constructor
  · intro h
    have hparts : ∀ part ∈ [a, b], sep ∉ part.toList := by
      intro part hpart
      rw [← h, split, List.mem_map] at hpart
      obtain ⟨chars, hchars, rfl⟩ := hpart
      rw [String.toList_ofList]
      exact not_mem_of_mem_splitOn hchars
    exact ⟨hparts a (by simp), hparts b (by simp), eq_join_of_split h⟩
  · rintro ⟨ha, hb, rfl⟩
    exact split_join ha hb

/-- The characters of a separator that was found are passed over. -/
theorem splitFrom_skip (sep : List Char) (part a b : List Char) :
    splitFrom sep a.length part (a ++ b) = splitFrom sep 0 part b := by
  induction a with
  | nil => rfl
  | cons c a ih => exact ih

/-- Text that begins with the separator has an empty first part. -/
theorem splitText_append_self {sep : String} (hsep : sep ≠ "") (s : String) :
    splitText (sep ++ s) sep = "" :: splitText s sep := by
  have hchars : sep.toList ≠ [] := fun h => hsep (String.toList_injective h)
  obtain ⟨c, rest, hcons⟩ := List.exists_cons_of_ne_nil hchars
  have hpre : sep.toList.isPrefixOf (c :: (rest ++ s.toList)) = true := by
    rw [hcons]
    simp
  have hskip : sep.toList.length - 1 = rest.length := by simp [hcons]
  unfold splitText
  rw [String.toList_append]
  conv_lhs => rw [hcons, List.cons_append, splitFrom, ← hcons]
  rw [if_pos hpre, hskip, splitFrom_skip]
  rfl

theorem splitFrom_ne_nil (sep : List Char) (skip : ℕ) (part s : List Char) :
    splitFrom sep skip part s ≠ [] := by
  induction s generalizing skip part with
  | nil => simp [splitFrom]
  | cons c rest ih =>
    cases skip with
    | succ skip => exact ih skip part
    | zero =>
      unfold splitFrom
      split
      · exact List.cons_ne_nil _ _
      · exact ih 0 _

theorem contains_iff {s sub : String} : contains s sub = true ↔ sub.toList <:+: s.toList := by
  simp only [contains, List.any_eq_true, List.mem_tails, List.isPrefixOf_iff_prefix]
  constructor
  · rintro ⟨t, hsuffix, hpre⟩
    exact hpre.isInfix.trans hsuffix.isInfix
  · rintro ⟨a, b, hab⟩
    refine ⟨sub.toList ++ b, ⟨a, ?_⟩, List.prefix_append _ _⟩
    rw [← List.append_assoc]
    exact hab

/-- Text without the separator is its own only part, and only such text is. -/
theorem splitFrom_zero {sep : List Char} (hsep : sep ≠ []) (part s : List Char) :
    (¬ sep <:+: s ∧ splitFrom sep 0 part s = [part ++ s]) ∨
      (sep <:+: s ∧ 2 ≤ (splitFrom sep 0 part s).length) := by
  induction s generalizing part with
  | nil => exact .inl ⟨by simpa using hsep, by simp [splitFrom]⟩
  | cons c rest ih =>
    unfold splitFrom
    split
    · next hpre =>
      have hlength := List.length_pos_iff.mpr (splitFrom_ne_nil sep (sep.length - 1) [] rest)
      refine .inr ⟨(List.isPrefixOf_iff_prefix.mp hpre).isInfix, ?_⟩
      rw [List.length_cons]
      omega
    · next hpre =>
      have hnot : ¬ sep <+: c :: rest := fun h => hpre (List.isPrefixOf_iff_prefix.mpr h)
      rw [List.infix_cons_iff, or_iff_right hnot]
      rcases ih (part ++ [c]) with ⟨hpart, heq⟩ | hmany
      · exact .inl ⟨hpart, by rw [heq]; simp⟩
      · exact .inr hmany

theorem splitText_of_not_contains {s sep : String} (hsep : sep ≠ "")
    (hnot : contains s sep = false) : splitText s sep = [s] := by
  have hchars : sep.toList ≠ [] := fun h => hsep (String.toList_injective h)
  have hpart : ¬ sep.toList <:+: s.toList := by simpa [← contains_iff] using hnot
  rcases splitFrom_zero hchars [] s.toList with ⟨-, heq⟩ | ⟨h, -⟩
  · rw [splitText, heq]
    simp [String.ofList_toList]
  · exact absurd h hpart

theorem two_le_length_splitText {s sep : String} (hsep : sep ≠ "")
    (hcontains : contains s sep = true) : 2 ≤ (splitText s sep).length := by
  have hchars : sep.toList ≠ [] := fun h => hsep (String.toList_injective h)
  rcases splitFrom_zero hchars [] s.toList with ⟨hnot, -⟩ | ⟨-, hmany⟩
  · exact absurd (contains_iff.mp hcontains) hnot
  · simpa [splitText] using hmany

/-- No `int` exceeds the largest one, also when the error of `Atoi` is dropped. -/
theorem atoi_le (s : String) : (atoi s).1 ≤ maxInt := by
  unfold atoi
  dsimp only
  split_ifs <;> simp <;> omega

end HealthCheck.Go
