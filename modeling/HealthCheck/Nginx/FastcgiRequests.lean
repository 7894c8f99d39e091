import HealthCheck.Nginx.Fastcgi

/-!
# Requests over FastCGI

The request of a check of type `fastcgi` is made once, when the configuration is read: a record that
begins the request, the parameters, an empty record that ends them, and room for a last record that
nothing is written to. The size of the buffer is computed beforehand, with one byte for the length
of a name and two bytes for the length of the parameters.
-/

namespace HealthCheck.Nginx

/-- The name and the value of a parameter. -/
abbrev FastcgiParam := List UInt8 × List UInt8

/-- The type of a record that begins a request. -/
def fastcgiBeginRequest : UInt8 := 1

/-- The type of a record with parameters. -/
def fastcgiParams : UInt8 := 4

/-- `ngx_http_fastcgi_header_t`. -/
def recordHeader (type hi lo padding : UInt8) : List UInt8 := [1, type, 0, 1, hi, lo, padding, 0]

/-- `ngx_http_fastcgi_begin_request_t`: the application is a responder and closes the connection. -/
def beginRequest : List UInt8 := [0, 1, 0, 0, 0, 0, 0, 0]

/-- The length of a name or of a value. -/
def encodeLength (n : ℕ) : List UInt8 :=
  if 127 < n then
    [UInt8.ofNat (n >>> 24 &&& 0x7f ||| 0x80), UInt8.ofNat (n >>> 16 &&& 0xff),
      UInt8.ofNat (n >>> 8 &&& 0xff), UInt8.ofNat (n &&& 0xff)]
  else [UInt8.ofNat n]

def encodeParam (param : FastcgiParam) : List UInt8 :=
  encodeLength param.1.length ++ encodeLength param.2.length ++ param.1 ++ param.2

/-- `len`, as it is computed before the parameters are written. -/
def paramsLength (params : List FastcgiParam) : ℕ :=
  params.foldl (fun len param =>
    len + (1 + param.1.length + (if 127 < param.2.length then 4 else 1) + param.2.length)) 0

/-- `padding`. -/
def paramsPadding (params : List FastcgiParam) : ℕ :=
  if 8 - paramsLength params % 8 = 8 then 0 else 8 - paramsLength params % 8

/-- `size`: what is allocated. -/
def requestSize (params : List FastcgiParam) : ℕ :=
  8 + 8 + 8 + paramsLength params + paramsPadding params + 8 + 8

/-- The header of the record with the parameters. -/
def paramsHeader (params : List FastcgiParam) : List UInt8 :=
  recordHeader fastcgiParams (UInt8.ofNat (paramsLength params >>> 8 &&& 0xff))
    (UInt8.ofNat (paramsLength params &&& 0xff)) (UInt8.ofNat (paramsPadding params))

/-- What `ngx_http_upstream_check_create_fastcgi_request` writes. -/
def requestBytes (params : List FastcgiParam) : List UInt8 :=
  recordHeader fastcgiBeginRequest 0 8 0 ++ beginRequest ++ paramsHeader params ++
    params.flatMap encodeParam ++ List.replicate (paramsPadding params) 0 ++
    recordHeader fastcgiParams 0 0 0

/-- The request that is sent. The header of the last record is not written: there is what the memory
held before. -/
def createFastcgiRequest (params : List FastcgiParam) (stale : List UInt8) : List UInt8 :=
  requestBytes params ++ stale

/-! ### The size of the buffer -/

theorem foldl_paramLength (params : List FastcgiParam) (start : ℕ) :
    params.foldl (fun len param =>
      len + (1 + param.1.length + (if 127 < param.2.length then 4 else 1) + param.2.length)) start =
      start + paramsLength params := by
  induction params generalizing start with
  | nil => rfl
  | cons param params ih =>
    rw [paramsLength, List.foldl_cons, List.foldl_cons, ih, ih (0 + _)]
    omega

theorem paramsLength_cons (param : FastcgiParam) (params : List FastcgiParam) :
    paramsLength (param :: params) =
      1 + param.1.length + (if 127 < param.2.length then 4 else 1) + param.2.length +
        paramsLength params := by
  rw [paramsLength, List.foldl_cons, foldl_paramLength, Nat.zero_add]

theorem length_encodeLength (n : ℕ) : (encodeLength n).length = if 127 < n then 4 else 1 := by
  rw [encodeLength]
  split_ifs <;> rfl

/-- The names that are too long for one byte. -/
def longNames (params : List FastcgiParam) : ℕ := params.countP fun param => 127 < param.1.length

/-- What is written for the parameters is longer than computed by three bytes for each long name. -/
theorem length_params (params : List FastcgiParam) :
    (params.flatMap encodeParam).length = paramsLength params + 3 * longNames params := by
  induction params with
  | nil => rfl
  | cons param params ih =>
    have hcount : longNames (param :: params) =
        longNames params + if 127 < param.1.length then 1 else 0 := by
      simp [longNames, List.countP_cons]
    rw [List.flatMap_cons, List.length_append, ih, paramsLength_cons, hcount, encodeParam]
    simp only [List.length_append, length_encodeLength]
    split_ifs <;> omega

theorem longNames_eq_zero_iff {params : List FastcgiParam} :
    longNames params = 0 ↔ ∀ param ∈ params, param.1.length ≤ 127 := by
  simp [longNames, List.countP_eq_zero]

/-- What is written leaves room for the last record, but for three bytes for each long name. -/
theorem length_requestBytes (params : List FastcgiParam) :
    (requestBytes params).length + 8 = requestSize params + 3 * longNames params := by
  have hparams := length_params params
  simp only [requestBytes, requestSize, paramsHeader, recordHeader, beginRequest,
    List.length_append, List.length_cons, List.length_nil, List.length_replicate, hparams]
  omega

/-- The request lies within the buffer if and only if no name has more than 127 bytes; and what is
written of it lies within the buffer if and only if at most two names have. -/
theorem request_fits_iff (params : List FastcgiParam) :
    ((requestBytes params).length + 8 ≤ requestSize params ↔
      ∀ param ∈ params, param.1.length ≤ 127) ∧
    ((requestBytes params).length ≤ requestSize params ↔ longNames params ≤ 2) := by
  have hlength := length_requestBytes params
  refine ⟨?_, by omega⟩
  rw [← longNames_eq_zero_iff]
  omega

/-! ### What an application reads -/

/-- The record at the start of the bytes: its type, its content, and what follows it. -/
def takeRecord : List UInt8 → Option (UInt8 × List UInt8 × List UInt8)
  | version :: type :: idHi :: idLo :: hi :: lo :: padding :: _ :: rest =>
    if version = 1 ∧ idHi = 0 ∧ idLo = 1 ∧ contentLength hi lo + padding.toNat ≤ rest.length then
      some (type, rest.take (contentLength hi lo), rest.drop (contentLength hi lo + padding.toNat))
    else none
  | _ => none

/-- The contents of the records with parameters, up to an empty one. -/
def takeParams : ℕ → List UInt8 → Option (List UInt8 × List UInt8)
  | 0, _ => none
  | fuel + 1, bytes => (takeRecord bytes).bind fun record =>
    if record.1 = fastcgiParams then
      if record.2.1 = [] then some ([], record.2.2)
      else (takeParams fuel record.2.2).map fun more => (record.2.1 ++ more.1, more.2)
    else none

/-- A length of four bytes, behind the first one. -/
def decodeLongLength (b₃ : UInt8) : List UInt8 → Option (ℕ × List UInt8)
  | b₂ :: b₁ :: b₀ :: rest =>
    some (b₃.toNat % 128 * 16777216 + b₂.toNat * 65536 + b₁.toNat * 256 + b₀.toNat, rest)
  | _ => none

/-- The length of a name or of a value. -/
def decodeLength : List UInt8 → Option (ℕ × List UInt8)
  | [] => none
  | b :: rest => if b.toNat < 128 then some (b.toNat, rest) else decodeLongLength b rest

/-- The parameters. -/
def decodeParams : ℕ → List UInt8 → Option (List FastcgiParam)
  | 0, bytes => if bytes = [] then some [] else none
  | fuel + 1, bytes =>
    if bytes = [] then some []
    else (decodeLength bytes).bind fun first => (decodeLength first.2).bind fun second =>
      if first.1 + second.1 ≤ second.2.length then
        (decodeParams fuel (second.2.drop (first.1 + second.1))).map fun params =>
          (second.2.take first.1, (second.2.drop first.1).take second.1) :: params
      else none

/-- A request as an application reads it, and what it reads on with. -/
def decodeRequest (bytes : List UInt8) : Option (List FastcgiParam × List UInt8) :=
  (takeRecord bytes).bind fun start =>
    if start.1 = fastcgiBeginRequest then
      (takeParams bytes.length start.2.2).bind fun content =>
        (decodeParams content.1.length content.1).map fun params => (params, content.2)
    else none

theorem takeRecord_append (type : UInt8) {hi lo padding : UInt8} {content zeros : List UInt8}
    (hcontent : content.length = contentLength hi lo) (hzeros : zeros.length = padding.toNat)
    (rest : List UInt8) :
    takeRecord (recordHeader type hi lo padding ++ (content ++ (zeros ++ rest))) =
      some (type, content, rest) := by
  have hlength : contentLength hi lo + padding.toNat ≤ (content ++ (zeros ++ rest)).length := by
    simp only [List.length_append]
    omega
  have hdrop : (content ++ (zeros ++ rest)).drop (contentLength hi lo + padding.toNat) = rest := by
    rw [← List.append_assoc, ← hcontent, ← hzeros, ← List.length_append, List.drop_left]
  have htake : (content ++ (zeros ++ rest)).take (contentLength hi lo) = content := by
    rw [← hcontent, List.take_left]
  rw [recordHeader, List.cons_append, List.cons_append, List.cons_append, List.cons_append,
    List.cons_append, List.cons_append, List.cons_append, List.cons_append, List.nil_append,
    takeRecord, if_pos ⟨rfl, rfl, rfl, hlength⟩, htake, hdrop]

theorem toNat_ofNat_byte {n : ℕ} (h : n < 256) : (UInt8.ofNat n).toNat = n :=
  UInt8.toNat_ofNat_of_lt' h

theorem and_byte (n : ℕ) : n &&& 0xff = n % 256 := Nat.and_two_pow_sub_one_eq_mod n 8

/-- The two bytes of the length in the header. -/
theorem contentLength_ofNat {n : ℕ} (h : n < 65536) :
    contentLength (UInt8.ofNat (n >>> 8 &&& 0xff)) (UInt8.ofNat (n &&& 0xff)) = n := by
  have hshift : n >>> 8 = n / 256 := Nat.shiftRight_eq_div_pow n 8
  have hlow : n % 256 < 256 := Nat.mod_lt n (by decide)
  have hor : (n / 256 % 256) <<< 8 + n % 256 = (n / 256 % 256) <<< 8 ||| n % 256 :=
    Nat.shiftLeft_add_eq_or_of_lt (i := 8) hlow _
  rw [contentLength, and_byte, and_byte, hshift, toNat_ofNat_byte (by omega),
    toNat_ofNat_byte (by omega), ← hor, Nat.shiftLeft_eq]
  omega

theorem decodeLength_encodeLength {n : ℕ} (h : n < 2147483648) (rest : List UInt8) :
    decodeLength (encodeLength n ++ rest) = some (n, rest) := by
  rw [encodeLength]
  split_ifs with hlong
  · have hfirst : n >>> 24 &&& 0x7f ||| 0x80 = n / 16777216 + 128 := by
      have hmask : n >>> 24 &&& 0x7f = n >>> 24 % 128 := Nat.and_two_pow_sub_one_eq_mod _ 7
      have hshift : n >>> 24 = n / 16777216 := Nat.shiftRight_eq_div_pow n 24
      have hlt : n / 16777216 < 128 := by omega
      have hor : 128 + n / 16777216 = 128 ||| n / 16777216 :=
        Nat.two_pow_add_eq_or_of_lt (i := 7) hlt 1
      rw [hmask, hshift, Nat.mod_eq_of_lt hlt, Nat.or_comm, Nat.add_comm]
      exact hor.symm
    have hsecond : n >>> 16 = n / 65536 := Nat.shiftRight_eq_div_pow n 16
    have hthird : n >>> 8 = n / 256 := Nat.shiftRight_eq_div_pow n 8
    rw [hfirst, hsecond, hthird, and_byte, and_byte, and_byte]
    simp only [List.cons_append, List.nil_append, decodeLength, decodeLongLength]
    rw [toNat_ofNat_byte (by omega), toNat_ofNat_byte (by omega), toNat_ofNat_byte (by omega),
      toNat_ofNat_byte (by omega), if_neg (by omega)]
    congr 2
    omega
  · rw [List.singleton_append, decodeLength, toNat_ofNat_byte (by omega), if_pos (by omega)]

theorem decodeParams_cons (fuel : ℕ) {param : FastcgiParam} (hname : param.1.length < 2147483648)
    (hvalue : param.2.length < 2147483648) (rest : List UInt8) :
    decodeParams (fuel + 1) (encodeParam param ++ rest) =
      (decodeParams fuel rest).map fun params => param :: params := by
  have hne : encodeParam param ++ rest ≠ [] := by
    intro hnil
    have hlength := congrArg List.length hnil
    simp only [encodeParam, List.length_append, length_encodeLength, List.length_nil] at hlength
    split_ifs at hlength <;> omega
  have hfits : param.1.length + param.2.length ≤ (param.1 ++ (param.2 ++ rest)).length := by
    simp only [List.length_append]
    omega
  have hdrop : (param.1 ++ (param.2 ++ rest)).drop (param.1.length + param.2.length) = rest := by
    rw [← List.append_assoc, ← List.length_append, List.drop_left]
  rw [decodeParams, if_neg hne, encodeParam, List.append_assoc, List.append_assoc,
    List.append_assoc, decodeLength_encodeLength hname, Option.bind_some,
    decodeLength_encodeLength hvalue,
    Option.bind_some, if_pos hfits, hdrop, List.take_left, List.drop_left, List.take_left]

theorem decodeParams_flatMap {params : List FastcgiParam} {fuel : ℕ} (hfuel : params.length ≤ fuel)
    (h : ∀ param ∈ params, param.1.length < 2147483648 ∧ param.2.length < 2147483648) :
    decodeParams fuel (params.flatMap encodeParam) = some params := by
  induction params generalizing fuel with
  | nil => cases fuel <;> rfl
  | cons param params ih =>
    obtain ⟨⟨hname, hvalue⟩, h⟩ := List.forall_mem_cons.mp h
    obtain ⟨fuel, rfl⟩ : ∃ k, fuel = k + 1 := ⟨fuel - 1, by rw [List.length_cons] at hfuel; omega⟩
    rw [List.flatMap_cons, decodeParams_cons fuel hname hvalue, ih (Nat.le_of_succ_le_succ hfuel) h,
      Option.map_some]

/-- The parameters and their number are bounded by their length. -/
theorem bounds_of_paramsLength (params : List FastcgiParam) :
    params.length ≤ paramsLength params ∧ ∀ param ∈ params,
      param.1.length ≤ paramsLength params ∧ param.2.length ≤ paramsLength params := by
  induction params with
  | nil => simp
  | cons param params ih =>
    obtain ⟨hlength, hparams⟩ := ih
    rw [paramsLength_cons, List.forall_mem_cons, List.length_cons]
    refine ⟨by omega, ⟨by omega, by omega⟩, ?_⟩
    intro other hother
    obtain ⟨hname, hvalue⟩ := hparams other hother
    exact ⟨by omega, by omega⟩

theorem paramsLength_pos {params : List FastcgiParam} (hne : params ≠ []) :
    0 < paramsLength params := by
  have hcount := (bounds_of_paramsLength params).1
  have hpos := List.length_pos_of_ne_nil hne
  omega

/-- The parameters are read back when no name is too long for the computation of their length. -/
theorem decodeParams_params {params : List FastcgiParam}
    (hcontent : (params.flatMap encodeParam).length = paramsLength params)
    (hlength : paramsLength params < 65536) :
    decodeParams (params.flatMap encodeParam).length (params.flatMap encodeParam) =
      some params := by
  obtain ⟨hcount, hbounds⟩ := bounds_of_paramsLength params
  apply decodeParams_flatMap
  · omega
  · intro param hparam
    obtain ⟨hname, hvalue⟩ := hbounds param hparam
    exact ⟨by omega, by omega⟩

theorem takeRecord_params {params : List FastcgiParam}
    (hcontent : (params.flatMap encodeParam).length = paramsLength params)
    (hlength : paramsLength params < 65536) (rest : List UInt8) :
    takeRecord (paramsHeader params ++ (params.flatMap encodeParam ++
      (List.replicate (paramsPadding params) 0 ++ rest))) =
      some (fastcgiParams, params.flatMap encodeParam, rest) := by
  have hpadding : paramsPadding params < 256 := by
    rw [paramsPadding]
    split_ifs <;> omega
  apply takeRecord_append
  · rw [hcontent, contentLength_ofNat hlength]
  · rw [List.length_replicate, toNat_ofNat_byte hpadding]

section Records

variable {bytes content rest : List UInt8} (fuel : ℕ)

theorem takeParams_record (h : takeRecord bytes = some (fastcgiParams, content, rest))
    (hne : content ≠ []) :
    takeParams (fuel + 1) bytes =
      (takeParams fuel rest).map fun more => (content ++ more.1, more.2) := by
  rw [takeParams, h, Option.bind_some, if_pos rfl, if_neg hne]

theorem takeParams_end (h : takeRecord bytes = some (fastcgiParams, [], rest)) :
    takeParams (fuel + 1) bytes = some ([], rest) := by
  rw [takeParams, h, Option.bind_some, if_pos rfl, if_pos rfl]

end Records

/-- What the application reads are the parameters, as long as no name is too long for the buffer and
all of them fit into one record. It goes on with what the memory held before: the record that would
end the input of the request is not written. -/
theorem decodeRequest_createFastcgiRequest {params : List FastcgiParam} (hne : params ≠ [])
    (hnames : ∀ param ∈ params, param.1.length ≤ 127) (hlength : paramsLength params < 65536)
    (stale : List UInt8) :
    decodeRequest (createFastcgiRequest params stale) = some (params, stale) := by
  have hcontent : (params.flatMap encodeParam).length = paramsLength params := by
    rw [length_params, longNames_eq_zero_iff.mpr hnames, Nat.mul_zero, Nat.add_zero]
  have hempty : params.flatMap encodeParam ≠ [] := by
    apply List.ne_nil_of_length_pos
    rw [hcontent]
    exact paramsLength_pos hne
  have hbytes : createFastcgiRequest params stale =
      recordHeader fastcgiBeginRequest 0 8 0 ++ (beginRequest ++ ([] ++
        (paramsHeader params ++ (params.flatMap encodeParam ++
          (List.replicate (paramsPadding params) 0 ++
            (recordHeader fastcgiParams 0 0 0 ++ ([] ++ ([] ++ stale)))))))) := by
    simp only [createFastcgiRequest, requestBytes, List.append_assoc, List.nil_append]
  obtain ⟨fuel, hfuel⟩ : ∃ k, (createFastcgiRequest params stale).length = k + 2 := by
    have hsize := length_requestBytes params
    refine ⟨(createFastcgiRequest params stale).length - 2, ?_⟩
    rw [createFastcgiRequest, List.length_append]
    simp only [requestSize] at hsize
    omega
  -- the three records that are written
  have hstart : ∀ rest, takeRecord (recordHeader fastcgiBeginRequest 0 8 0 ++
      (beginRequest ++ ([] ++ rest))) = some (fastcgiBeginRequest, beginRequest, rest) :=
    takeRecord_append fastcgiBeginRequest rfl rfl
  have hparams := takeRecord_params hcontent hlength
    (recordHeader fastcgiParams 0 0 0 ++ ([] ++ ([] ++ stale)))
  have hlast : takeRecord (recordHeader fastcgiParams 0 0 0 ++ ([] ++ ([] ++ stale))) =
      some (fastcgiParams, [], stale) := takeRecord_append fastcgiParams rfl rfl stale
  rw [decodeRequest, hfuel, hbytes, hstart, Option.bind_some, if_pos rfl,
    takeParams_record (fuel + 1) hparams hempty, takeParams_end fuel hlast, Option.map_some,
    Option.bind_some, List.append_nil, decodeParams_params hcontent hlength, Option.map_some]

/-- `fastcgi_default_params`. -/
def fastcgiDefaultParams : List FastcgiParam :=
  [("REQUEST_METHOD".toUTF8.data.toList, "GET".toUTF8.data.toList),
    ("REQUEST_URI".toUTF8.data.toList, "/".toUTF8.data.toList),
    ("SCRIPT_FILENAME".toUTF8.data.toList, "index.php".toUTF8.data.toList)]

theorem decodeRequest_fastcgiDefaultParams :
    decodeRequest (createFastcgiRequest fastcgiDefaultParams [5, 5, 5, 5, 5, 5, 5, 5]) =
      some (fastcgiDefaultParams, [5, 5, 5, 5, 5, 5, 5, 5]) := by
  apply decodeRequest_createFastcgiRequest
  · exact List.cons_ne_nil _ _
  · have hall : (fastcgiDefaultParams.all fun param => decide (param.1.length ≤ 127)) = true := rfl
    exact fun param hparam => of_decide_eq_true (List.all_eq_true.mp hall param hparam)
  · decide

end HealthCheck.Nginx
