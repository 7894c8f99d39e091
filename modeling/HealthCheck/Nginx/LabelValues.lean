import HealthCheck.Go.Numerals
import HealthCheck.Nginx.Labels

/-!
# Which numbers the labels ask for

`hc_monitor_parameter` has the four numbers of a check in its parts, and a part that is missing or
no number stands for a default. `hc_protocol_port` has a port and a protocol. `getHcFromEndpoints`
returns what the labels ask for exactly if `hc_enabled` is set, the labels have as many parts as it
takes from them, and the numbers are values of `int`.
-/

namespace HealthCheck.Nginx

/-- The value that a part of a label asks for: that of the numeral, or the default if the part is
missing or no numeral. -/
structure FieldValue (part : Option String) (default value : ℤ) : Prop where
  numeral : ∀ text ∈ part, ∀ v, Go.Numeral text.toList v → value = v
  otherwise : (∀ text ∈ part, ∀ v, ¬ Go.Numeral text.toList v) → value = default

/-- The check parameters that the labels ask for. -/
structure LabelsParsed (ep : Endpoints) (hc : VsHealthCheck) : Prop where
  interval : FieldValue (Go.split (ep.metadata.label vsHcMonitorParam) '-')[0]? 3000 hc.interval
  timeout : FieldValue (Go.split (ep.metadata.label vsHcMonitorParam) '-')[1]? 1000 hc.timeout
  rise : FieldValue (Go.split (ep.metadata.label vsHcMonitorParam) '-')[2]? 3 hc.sucChecks
  fall : FieldValue (Go.split (ep.metadata.label vsHcMonitorParam) '-')[3]? 5 hc.failChecks
  protocolPort : ep.metadata.label vsHcIsEnableAllPorts = "false" → ∀ port protocol,
    Go.split (ep.metadata.label vsHcProtocolPort) '-' = [port, protocol] →
      ∀ v, Go.Numeral port.toList v → hc.port = v ∧ hc.protocol = protocol

/-- If a part is a numeral, it is one of an `int`. -/
def PartFits (part : Option String) : Prop :=
  ∀ text ∈ part, ∀ v, Go.Numeral text.toList v → Go.FitsInt v

/-- The numbers that are taken from the labels are values of `int`. -/
structure NumeralsFit (ep : Endpoints) : Prop where
  monitor : ∀ index < 4, PartFits (Go.split (ep.metadata.label vsHcMonitorParam) '-')[index]?
  port : ep.metadata.label vsHcIsEnableAllPorts = "false" → ∀ port protocol,
    Go.split (ep.metadata.label vsHcProtocolPort) '-' = [port, protocol] →
      ∀ v, Go.Numeral port.toList v → Go.FitsInt v

/-- The labels ask for the zero value: the four numbers are written as zero, and the port and the
protocol are not written or are zero and empty. -/
structure ZeroAsked (ep : Endpoints) : Prop where
  monitor : ∀ index < 4, ∃ text ∈ (Go.split (ep.metadata.label vsHcMonitorParam) '-')[index]?,
    Go.Numeral text.toList 0
  port : ep.metadata.label vsHcIsEnableAllPorts = "false" → ∀ port protocol,
    Go.split (ep.metadata.label vsHcProtocolPort) '-' = [port, protocol] →
      ∀ v, Go.Numeral port.toList v → v = 0 ∧ protocol = ""

theorem atoiOr_eq_numeral_iff {text : String} {default v : ℤ} (h : Go.Numeral text.toList v)
    (hdefault : Go.FitsInt default) : atoiOr text default = v ↔ Go.FitsInt v := by
  unfold atoiOr
  rw [Go.atoi_of_numeral h]
  by_cases hfits : Go.FitsInt v
  · simp [hfits]
  · simp only [hfits, if_false, Bool.false_eq_true, iff_false]
    rintro rfl
    exact hfits hdefault

theorem atoiOr_of_not_numeral {text : String} {default : ℤ}
    (h : ∀ v, ¬ Go.Numeral text.toList v) : atoiOr text default = default := by
  unfold atoiOr
  rw [if_neg fun hok => h _ (Go.numeral_of_atoi hok)]

/-- A field has the value that the label asks for exactly if this is an `int`. -/
theorem fieldValue_iff_partFits {part : Option String} {default value : ℤ}
    (hdefault : Go.FitsInt default) (hvalue : value = partOr part default) :
    FieldValue part default value ↔ PartFits part := by
  subst hvalue
  cases part with
  | none => exact iff_of_true ⟨by simp, fun _ => rfl⟩ (by simp [PartFits])
  | some text =>
    constructor
    · intro h text' htext v hv
      cases htext
      exact (atoiOr_eq_numeral_iff hv hdefault).mp (h.numeral text rfl v hv)
    · intro hfits
      refine ⟨fun text' htext v hv => ?_, fun hnone => atoiOr_of_not_numeral (hnone text rfl)⟩
      cases htext
      exact (atoiOr_eq_numeral_iff hv hdefault).mpr (hfits text rfl v hv)

theorem fieldValue_zero_iff {part : Option String} {default : ℤ} (hdefault : default ≠ 0) :
    FieldValue part default 0 ↔ ∃ text ∈ part, Go.Numeral text.toList 0 := by
  constructor
  · intro h
    by_contra hnone
    refine hdefault (h.otherwise fun text htext v hv => hnone ⟨text, htext, ?_⟩).symm
    rw [h.numeral text htext v hv]
    exact hv
  · rintro ⟨text, htext, hzero⟩
    refine ⟨fun text' htext' v hv => ?_, fun hnone => absurd hzero (hnone text htext 0)⟩
    rw [Option.mem_unique htext' htext] at hv
    exact hzero.unique hv

/-- Without `hc_enabled` the labels are not read, and the result is right if they ask for zeros. -/
theorem labelsParsed_zero_iff (ep : Endpoints) : LabelsParsed ep {} ↔ ZeroAsked ep := by
  constructor
  · intro h
    refine ⟨fun index hindex => ?_, fun hfalse port protocol hsplit v hv => ?_⟩
    · have hcases : index = 0 ∨ index = 1 ∨ index = 2 ∨ index = 3 := by omega
      rcases hcases with rfl | rfl | rfl | rfl
      · exact (fieldValue_zero_iff (by decide)).mp h.interval
      · exact (fieldValue_zero_iff (by decide)).mp h.timeout
      · exact (fieldValue_zero_iff (by decide)).mp h.rise
      · exact (fieldValue_zero_iff (by decide)).mp h.fall
    · obtain ⟨hport, hprotocol⟩ := h.protocolPort hfalse port protocol hsplit v hv
      exact ⟨hport.symm, hprotocol.symm⟩
  · intro h
    have hfield : ∀ index < 4, ∀ default : ℤ, default ≠ 0 →
        FieldValue (Go.split (ep.metadata.label vsHcMonitorParam) '-')[index]? default 0 :=
      fun index hindex default hdefault =>
        (fieldValue_zero_iff hdefault).mpr (h.monitor index hindex)
    refine ⟨hfield 0 (by decide) 3000 (by decide), hfield 1 (by decide) 1000 (by decide),
      hfield 2 (by decide) 3 (by decide), hfield 3 (by decide) 5 (by decide),
      fun hfalse port protocol hsplit v hv => ?_⟩
    obtain ⟨rfl, rfl⟩ := h.port hfalse port protocol hsplit v hv
    exact ⟨rfl, rfl⟩

section Parsed

variable {ep : Endpoints} {hc : VsHealthCheck} (hset : ep.metadata.label vsHcIsEnable ≠ "")
  (h : getHcFromEndpoints ep = some hc)

include hset h

theorem protocolPort_of_getHcFromEndpoints
    (hfalse : ep.metadata.label vsHcIsEnableAllPorts = "false") {port protocol : String}
    (hsplit : Go.split (ep.metadata.label vsHcProtocolPort) '-' = [port, protocol]) :
    hc.port = (Go.atoi port).1 ∧ hc.protocol = protocol := by
  refine (of_getHcFromEndpoints hset h).protocolPort ?_ port protocol [] hsplit
  rw [singlePort, hfalse]
  decide

/-- With `hc_enabled` set, what is returned is what the labels ask for exactly if the numbers are
values of `int`. -/
theorem labelsParsed_iff_numeralsFit : LabelsParsed ep hc ↔ NumeralsFit ep := by
  have hport := @protocolPort_of_getHcFromEndpoints ep hc hset h
  rw [getHcFromEndpoints_eq hset, Option.bind_eq_some_iff] at h
  obtain ⟨hc₁, -, hmonitor⟩ := h
  have hread := eq_of_readMonitorParam hmonitor
  have hinterval := fieldValue_iff_partFits (by decide : Go.FitsInt 3000)
    (congrArg VsHealthCheck.interval hread)
  have htimeout := fieldValue_iff_partFits (by decide : Go.FitsInt 1000)
    (congrArg VsHealthCheck.timeout hread)
  have hrise := fieldValue_iff_partFits (by decide : Go.FitsInt 3)
    (congrArg VsHealthCheck.sucChecks hread)
  have hfall := fieldValue_iff_partFits (by decide : Go.FitsInt 5)
    (congrArg VsHealthCheck.failChecks hread)
  constructor
  · intro hparsed
    refine ⟨fun index hindex => ?_, fun hfalse port protocol hsplit v hv => ?_⟩
    · have hcases : index = 0 ∨ index = 1 ∨ index = 2 ∨ index = 3 := by omega
      rcases hcases with rfl | rfl | rfl | rfl
      · exact hinterval.mp hparsed.interval
      · exact htimeout.mp hparsed.timeout
      · exact hrise.mp hparsed.rise
      · exact hfall.mp hparsed.fall
    · have hvalue := (hparsed.protocolPort hfalse port protocol hsplit v hv).1
      rw [(hport hfalse hsplit).1] at hvalue
      exact (Go.atoi_eq_numeral_iff hv).mp hvalue
  · intro hfits
    refine ⟨hinterval.mpr (hfits.monitor 0 (by decide)), htimeout.mpr (hfits.monitor 1 (by decide)),
      hrise.mpr (hfits.monitor 2 (by decide)), hfall.mpr (hfits.monitor 3 (by decide)),
      fun hfalse port protocol hsplit v hv => ?_⟩
    obtain ⟨hvalue, hprotocol⟩ := hport hfalse hsplit
    have hint := hfits.port hfalse port protocol hsplit v hv
    exact ⟨hvalue.trans ((Go.atoi_eq_numeral_iff hv).mpr hint), hprotocol⟩

end Parsed

/-- When the labels of an object are read without a panic and as they ask for. Without `hc_enabled`
they are not read at all: the result is the zero value, which is right only if they ask for
zeros. -/
theorem labels_parsed_iff (ep : Endpoints) :
    (∃ hc, getHcFromEndpoints ep = some hc ∧ LabelsParsed ep hc) ↔
      if ep.metadata.label vsHcIsEnable = "" then ZeroAsked ep
      else LabelsShaped ep ∧ NumeralsFit ep := by
  by_cases hset : ep.metadata.label vsHcIsEnable = ""
  · have hzero : getHcFromEndpoints ep = some {} := by
      rw [getHcFromEndpoints, if_neg (not_not_intro hset)]
    rw [if_pos hset, hzero, ← labelsParsed_zero_iff]
    simp
  · rw [if_neg hset, ← getHcFromEndpoints_isSome hset, Option.isSome_iff_exists,
      ← exists_and_right]
    refine exists_congr fun hc => and_congr_right fun hhc => ?_
    exact labelsParsed_iff_numeralsFit hset hhc

/-- A service whose check has the given labels. -/
def labelled (labels : List (String × String)) : Endpoints where
  metadata :=
    { name := "web", nameSpace := "prod",
      labels := labels.foldl (fun m kv => m.insert kv.1 kv.2) (∅ : Go.Map String String) }
  subsets := [{ addresses := [⟨"10.0.0.7", none, none⟩], ports := [⟨"http", 80, "TCP", none⟩] }]

example : (getHcFromEndpoints (labelled [(vsHcIsEnable, "true"),
    (vsHcMonitorParam, "2000-500-x-4")])).map
      (fun hc => [hc.interval, hc.timeout, hc.sucChecks, hc.failChecks]) =
        some [2000, 500, 3, 4] := by
  decide +kernel

/-- A label with the interval only, and a label with the port only: in both cases the controller
indexes past the end. -/
theorem labels_short_panic :
    getHcFromEndpoints (labelled [(vsHcIsEnable, "true"), (vsHcMonitorParam, "3000")]) = none ∧
      getHcFromEndpoints (labelled [(vsHcIsEnable, "true"), (vsHcIsEnableAllPorts, "false"),
        (vsHcProtocolPort, "80")]) = none := by
  decide +kernel

end HealthCheck.Nginx
