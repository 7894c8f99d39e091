import HealthCheck.Go.Strings

/-!
# The `check` directive of nginx

`ngx_http_upstream_check` and `ngx_stream_upstream_check` are the same parser with
different tables of check types. A single argument that it does not accept makes nginx
reject the whole configuration.
-/

namespace HealthCheck.Nginx

/-- `NGX_MAX_INT_T_VALUE` on a 64-bit machine. -/
def maxIntT : ℕ := 9223372036854775807

/-- The loop of `ngx_atoi`; `none` is `NGX_ERROR`. -/
def ngxAtoiFrom : ℕ → List Char → Option ℕ
  | value, [] => some value
  | value, c :: line =>
    if c < '0' ∨ '9' < c then none
    else if maxIntT / 10 ≤ value ∧
        (maxIntT / 10 < value ∨ maxIntT % 10 < c.toNat - '0'.toNat) then none
    else ngxAtoiFrom (value * 10 + (c.toNat - '0'.toNat)) line

/-- `ngx_atoi`. -/
def ngxAtoi (line : List Char) : Option ℕ := if line.isEmpty then none else ngxAtoiFrom 0 line

/-- The two files with upstreams, and with them the two parsers. -/
inductive UpstreamFile where
  | http
  | stream
  deriving DecidableEq, Repr

/-- The names in `ngx_check_types`. -/
def checkTypes : UpstreamFile → List String
  | .http => ["tcp", "http", "fastcgi", "ssl_hello", "mysql", "ajp"]
  | .stream => ["tcp", "udp", "http"]

/-- What a `check` directive configures, with the defaults. -/
structure CheckConf where
  type : String := "tcp"
  port : ℕ := 0
  rise : ℕ := 2
  fall : ℕ := 5
  interval : ℕ := 30000
  timeout : ℕ := 1000
  defaultDown : Bool := true
  deriving DecidableEq, Repr

/-- The rest of an argument that begins with the key. -/
def valueOf (key : String) (arg : String) : Option (List Char) :=
  if key.toList.isPrefixOf arg.toList then some (arg.toList.drop key.toList.length) else none

/-- A number that is not zero. -/
def positive (line : List Char) : Option ℕ := (ngxAtoi line).filter (· ≠ 0)

/-- `ngx_http_get_check_type_conf`. -/
def checkType (file : UpstreamFile) (name : List Char) : Option String :=
  (checkTypes file).find? fun known => known.toList = name

/-- One round of the loop over the arguments. The keys are tried in this order. -/
def checkArg (file : UpstreamFile) (conf : CheckConf) (arg : String) : Option CheckConf :=
  match valueOf "type=" arg with
  | some s => (checkType file s).map fun type => { conf with type := type }
  | none =>
    match valueOf "port=" arg with
    | some s => (positive s).map fun port => { conf with port := port }
    | none =>
      match valueOf "interval=" arg with
      | some s => (positive s).map fun interval => { conf with interval := interval }
      | none =>
        match valueOf "timeout=" arg with
        | some s => (positive s).map fun timeout => { conf with timeout := timeout }
        | none =>
          match valueOf "rise=" arg with
          | some s => (positive s).map fun rise => { conf with rise := rise }
          | none =>
            match valueOf "fall=" arg with
            | some s => (positive s).map fun fall => { conf with fall := fall }
            | none =>
              match valueOf "default_down=" arg with
              | some s =>
                if Go.equalFold (String.ofList s) "true" then some { conf with defaultDown := true }
                else if Go.equalFold (String.ofList s) "false" then
                  some { conf with defaultDown := false }
                else none
              | none => none

/-- `ngx_http_upstream_check` and `ngx_stream_upstream_check`, on the arguments after the name
of the directive. -/
def upstreamCheck (file : UpstreamFile) (args : List String) : Option CheckConf :=
  args.foldlM (checkArg file) {}

/-- The port of the argument of a `server` directive; `none` is an error. -/
def serverPort (arg : String) : Option ℕ :=
  match Go.split arg ':' with
  | [_, port] => (ngxAtoi port.toList).filter fun port => 1 ≤ port ∧ port ≤ 65535
  | _ => none

/-! ### Numbers that Go has printed -/

theorem le_ofDigitChars (line : List Char) (value : ℕ) :
    value ≤ Nat.ofDigitChars 10 line value := by
  induction line generalizing value with
  | nil => exact Nat.le_refl value
  | cons c line ih =>
    rw [Nat.ofDigitChars_cons]
    have hnext := ih (10 * value + (c.toNat - '0'.toNat))
    omega

theorem isDigit_bounds {c : Char} (hc : c.isDigit = true) : '0' ≤ c ∧ c ≤ '9' := by
  simp only [Char.isDigit, Bool.and_eq_true, decide_eq_true_eq] at hc
  exact hc

/-- Digits are read as the number they write, as long as it fits. -/
theorem ngxAtoiFrom_of_digits {line : List Char} {value : ℕ}
    (hdigits : ∀ c ∈ line, c.isDigit = true)
    (hfits : Nat.ofDigitChars 10 line value ≤ maxIntT) :
    ngxAtoiFrom value line = some (Nat.ofDigitChars 10 line value) := by
  induction line generalizing value with
  | nil => rfl
  | cons c line ih =>
    obtain ⟨hzero, hnine⟩ := isDigit_bounds (hdigits c List.mem_cons_self)
    have hrange : ¬ (c < '0' ∨ '9' < c) := by
      rintro (h | h)
      · exact absurd hzero (Char.not_le.mpr h)
      · exact absurd hnine (Char.not_le.mpr h)
    rw [Nat.ofDigitChars_cons] at hfits ⊢
    have hsmall := le_ofDigitChars line (10 * value + (c.toNat - '0'.toNat))
    have hroom : ¬ (maxIntT / 10 ≤ value ∧
        (maxIntT / 10 < value ∨ maxIntT % 10 < c.toNat - '0'.toNat)) := by
      simp only [maxIntT] at hfits ⊢
      omega
    rw [ngxAtoiFrom, if_neg hrange, if_neg hroom, Nat.mul_comm value 10]
    exact ih (fun d hd => hdigits d (List.mem_cons_of_mem c hd)) hfits

/-- A natural number is printed with digits only. -/
theorem isDigit_of_mem_toString {n : ℕ} {c : Char} (hc : c ∈ (toString n).toList) :
    c.isDigit = true := by
  rw [Nat.toString_eq_ofList_toDigits, String.toList_ofList] at hc
  exact Nat.isDigit_of_mem_toDigits (by decide) (by decide) hc

/-- A negative number is printed with its sign first. -/
theorem toList_toString_negSucc (n : ℕ) :
    (toString (Int.negSucc n)).toList = '-' :: (toString (n + 1)).toList := by
  change ("-" ++ (n + 1).repr).toList = _
  rw [String.toList_append]
  rfl

/-- A printed number has digits and a sign. -/
theorem not_mem_toString {c : Char} (hdigit : c.isDigit = false) (hsign : c ≠ '-') (v : ℤ) :
    c ∉ (toString v).toList := by
  have hdigits : ∀ n : ℕ, c ∉ (toString n).toList := by
    intro n hc
    rw [isDigit_of_mem_toString hc] at hdigit
    cases hdigit
  cases v with
  | ofNat n => exact hdigits n
  | negSucc n =>
    rw [toList_toString_negSucc, List.mem_cons, not_or]
    exact ⟨hsign, hdigits (n + 1)⟩

theorem colon_not_mem_toString (v : ℤ) : ':' ∉ (toString v).toList :=
  not_mem_toString (by decide) (by decide) v

/-- nginx reads back a natural number that Go has printed. -/
theorem ngxAtoi_toString {n : ℕ} (hfits : n ≤ maxIntT) :
    ngxAtoi (toString n).toList = some n := by
  rw [Nat.toString_eq_ofList_toDigits, String.toList_ofList, ngxAtoi,
    if_neg (by simp)]
  have hvalue : Nat.ofDigitChars 10 (Nat.toDigits 10 n) 0 = n :=
    Nat.ofDigitChars_toDigits (by decide) (by decide)
  rw [ngxAtoiFrom_of_digits, hvalue]
  · exact fun c hc => Nat.isDigit_of_mem_toDigits (by decide) (by decide) hc
  · rwa [hvalue]

/-- nginx rejects a negative number. -/
theorem ngxAtoi_negative {v : ℤ} (hneg : v < 0) : ngxAtoi (toString v).toList = none := by
  obtain ⟨n, rfl⟩ := Int.eq_negSucc_of_lt_zero hneg
  rw [toList_toString_negSucc]
  rfl

/-- nginx reads back a number that Go has printed, unless it is negative. -/
theorem ngxAtoi_toString_int {v : ℤ} (hfits : v ≤ maxIntT) :
    ngxAtoi (toString v).toList = if 0 ≤ v then some v.toNat else none := by
  by_cases hneg : v < 0
  · rw [ngxAtoi_negative hneg, if_neg (by omega)]
  · obtain ⟨n, rfl⟩ := Int.eq_ofNat_of_zero_le (by omega : 0 ≤ v)
    have hfits : n ≤ maxIntT := by omega
    rw [if_pos (by omega)]
    exact ngxAtoi_toString hfits

theorem positive_toString {v : ℤ} (hfits : v ≤ maxIntT) :
    positive (toString v).toList = if 1 ≤ v then some v.toNat else none := by
  rw [positive, ngxAtoi_toString_int hfits]
  by_cases hpos : 1 ≤ v
  · have hne : v.toNat ≠ 0 := by omega
    rw [if_pos (by omega), if_pos hpos]
    simp [hne]
  · rw [if_neg hpos]
    by_cases hzero : 0 ≤ v
    · have heq : v = 0 := by omega
      simp [heq]
    · simp [hzero]

/-! ### Arguments that the controller writes -/

theorem valueOf_append (key value : String) : valueOf key (key ++ value) = some value.toList := by
  simp [valueOf, String.toList_append]

/-- Two keys that differ at some place are not confused. -/
theorem valueOf_other {key other value : String}
    (hkey : ∀ tail, key.toList.isPrefixOf (other.toList ++ tail) = false) :
    valueOf key (other ++ value) = none := by
  rw [valueOf, String.toList_append, if_neg]
  rw [hkey]
  exact Bool.false_ne_true

section Keys

variable (file : UpstreamFile) (conf : CheckConf) (value : String)

theorem checkArg_type : checkArg file conf ("type=" ++ value) =
    (checkType file value.toList).map fun type => { conf with type := type } := by
  rw [checkArg, valueOf_append]

theorem checkArg_interval : checkArg file conf ("interval=" ++ value) =
    (positive value.toList).map fun interval => { conf with interval := interval } := by
  rw [checkArg, valueOf_other fun _ => rfl, valueOf_other fun _ => rfl, valueOf_append]

theorem checkArg_timeout : checkArg file conf ("timeout=" ++ value) =
    (positive value.toList).map fun timeout => { conf with timeout := timeout } := by
  rw [checkArg, valueOf_other fun _ => rfl, valueOf_other fun _ => rfl, valueOf_other fun _ => rfl,
    valueOf_append]

theorem checkArg_rise : checkArg file conf ("rise=" ++ value) =
    (positive value.toList).map fun rise => { conf with rise := rise } := by
  rw [checkArg, valueOf_other fun _ => rfl, valueOf_other fun _ => rfl, valueOf_other fun _ => rfl,
    valueOf_other fun _ => rfl, valueOf_append]

theorem checkArg_fall : checkArg file conf ("fall=" ++ value) =
    (positive value.toList).map fun fall => { conf with fall := fall } := by
  rw [checkArg, valueOf_other fun _ => rfl, valueOf_other fun _ => rfl, valueOf_other fun _ => rfl,
    valueOf_other fun _ => rfl, valueOf_other fun _ => rfl, valueOf_append]

end Keys

/-- The type is known exactly when it is in the table, letter by letter. -/
theorem checkType_eq (file : UpstreamFile) (name : String) :
    checkType file name.toList = if name ∈ checkTypes file then some name else none := by
  unfold checkType
  split
  · next hmem =>
    have hfound : ((checkTypes file).find? fun known => known.toList = name.toList).isSome := by
      rw [List.find?_isSome]
      exact ⟨name, hmem, decide_eq_true rfl⟩
    obtain ⟨known, hknown⟩ := Option.isSome_iff_exists.mp hfound
    have hsame := List.find?_some hknown
    rw [hknown, String.toList_injective (of_decide_eq_true hsame)]
  · next hmem =>
    rw [List.find?_eq_none]
    intro known hknown hsame
    exact hmem (String.toList_injective (of_decide_eq_true hsame) ▸ hknown)

/-- A `server` argument is accepted exactly for a port from 1 to 65535, if the address has no
colon. -/
theorem serverPort_isSome {ip : String} {port : ℤ} (hip : ':' ∉ ip.toList)
    (hfits : port ≤ maxIntT) :
    (serverPort (ip ++ ":" ++ toString port)).isSome ↔ 1 ≤ port ∧ port ≤ 65535 := by
  have hsep : ":" = String.singleton ':' := rfl
  have hsplit : Go.split (ip ++ ":" ++ toString port) ':' = [ip, toString port] := by
    rw [hsep, Go.split_join hip (colon_not_mem_toString port)]
  rw [serverPort, hsplit]
  simp only [ngxAtoi_toString_int hfits]
  by_cases hneg : port < 0
  · rw [if_neg (by omega)]
    simp
    omega
  · rw [if_pos (by omega)]
    simp
    omega

end HealthCheck.Nginx
