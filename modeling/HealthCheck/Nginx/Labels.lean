import HealthCheck.Nginx.Upstream

/-!
# What the labels of a service give

`getHcFromEndpoints` reads five labels with free-form values. For every choice of values,
the results below say whether it panics, and what the check parameters are if it does not.
-/

namespace HealthCheck.Nginx

/-- The four numbers of a check are at least one. -/
def VsHealthCheck.Positive (hc : VsHealthCheck) : Prop :=
  1 ≤ hc.interval ∧ 1 ≤ hc.sucChecks ∧ 1 ≤ hc.failChecks ∧ 1 ≤ hc.timeout

instance (hc : VsHealthCheck) : Decidable hc.Positive := inferInstanceAs (Decidable (_ ∧ _))

/-- The numbers fit into Go's `int`. -/
structure VsHealthCheck.Fits (hc : VsHealthCheck) : Prop where
  port : hc.port ≤ maxIntT
  interval : hc.interval ≤ maxIntT
  sucChecks : hc.sucChecks ≤ maxIntT
  failChecks : hc.failChecks ≤ maxIntT
  timeout : hc.timeout ≤ maxIntT

/-- Only the port of the label `hc_protocol_port` is checked. -/
def singlePort (ep : Endpoints) : Bool :=
  Go.equalFold (ep.metadata.label vsHcIsEnableAllPorts) "false"

/-- The split labels have the parts that the controller takes from them. -/
def LabelsShaped (ep : Endpoints) : Prop :=
  (ep.metadata.label vsHcMonitorParam = "" ∨
    4 ≤ (Go.split (ep.metadata.label vsHcMonitorParam) '-').length) ∧
  (singlePort ep = true → ep.metadata.label vsHcProtocolPort = "" ∨
    2 ≤ (Go.split (ep.metadata.label vsHcProtocolPort) '-').length)

/-- None of the four parts that are used is a number below one. A part that is no number gives
the default. -/
def MonitorParamOk (param : String) : Prop :=
  ∀ part ∈ (Go.split param '-').take 4, (Go.atoi part).2 = true → 1 ≤ (Go.atoi part).1

instance (param : String) : Decidable (MonitorParamOk param) := List.decidableBAll _ _

theorem atoi_le_maxIntT (text : String) : (Go.atoi text).1 ≤ maxIntT := Go.atoi_le text

/-- The number that the controller takes from a part of `hc_monitor_parameter`. -/
def partOr (part : Option String) (default : ℤ) : ℤ := part.elim default (atoiOr · default)

section Parts

variable {default : ℤ} (part : Option String)

theorem one_le_partOr_iff (hdefault : 1 ≤ default) :
    1 ≤ partOr part default ↔
      ∀ text ∈ part, (Go.atoi text).2 = true → 1 ≤ (Go.atoi text).1 := by
  cases part with
  | none => simp [partOr, hdefault]
  | some text =>
    have hvalue : partOr (some text) default = atoiOr text default := rfl
    rw [hvalue, atoiOr]
    split
    · next hok => simp [hok]
    · next hok => simp [hok, hdefault]

theorem partOr_le (hdefault : default ≤ maxIntT) : partOr part default ≤ maxIntT := by
  cases part with
  | none => exact hdefault
  | some text =>
    have hvalue : partOr (some text) default = atoiOr text default := rfl
    rw [hvalue, atoiOr]
    split
    · exact atoi_le_maxIntT text
    · exact hdefault

end Parts

/-- The first four elements of a list, one by one. -/
theorem forall_mem_take_four {α : Type} {l : List α} {P : α → Prop} :
    (∀ a ∈ l.take 4, P a) ↔
      (∀ a ∈ l[0]?, P a) ∧ (∀ a ∈ l[1]?, P a) ∧ (∀ a ∈ l[2]?, P a) ∧ ∀ a ∈ l[3]?, P a := by
  rcases l with _ | ⟨a, _ | ⟨b, _ | ⟨c, _ | ⟨d, rest⟩⟩⟩⟩ <;> simp

/-- The result of reading `hc_monitor_parameter`. An empty label has one part, which is no
number. -/
theorem eq_of_readMonitorParam {param : String} {hc hc' : VsHealthCheck}
    (h : readMonitorParam param hc = some hc') :
    hc' = { hc with
      interval := partOr (Go.split param '-')[0]? 3000
      timeout := partOr (Go.split param '-')[1]? 1000
      sucChecks := partOr (Go.split param '-')[2]? 3
      failChecks := partOr (Go.split param '-')[3]? 5 } := by
  unfold readMonitorParam at h
  split at h
  · split at h
    · next interval timeout sucChecks failChecks rest hsplit =>
      cases h
      rw [hsplit]
      rfl
    · cases h
  · next hempty =>
    cases h
    rw [not_ne_iff.mp hempty]
    rfl

/-- What reading the label `hc_monitor_parameter` leaves alone, and what it sets. -/
structure MonitorParamRead (param : String) (hc hc' : VsHealthCheck) : Prop where
  isEnableAllPorts : hc'.isEnableAllPorts = hc.isEnableAllPorts
  httpProtocol : hc'.httpProtocol = hc.httpProtocol
  protocol : hc'.protocol = hc.protocol
  port : hc'.port = hc.port
  positive : hc'.Positive ↔ MonitorParamOk param
  fits : hc.port ≤ maxIntT → hc'.Fits

theorem of_readMonitorParam {param : String} {hc hc' : VsHealthCheck}
    (h : readMonitorParam param hc = some hc') : MonitorParamRead param hc hc' := by
  obtain rfl := eq_of_readMonitorParam h
  refine ⟨rfl, rfl, rfl, rfl, ?_, fun hport => ⟨hport, ?_, ?_, ?_, ?_⟩⟩
  · rw [MonitorParamOk, forall_mem_take_four, ← one_le_partOr_iff _ (by decide : (1 : ℤ) ≤ 3000),
      ← one_le_partOr_iff _ (by decide : (1 : ℤ) ≤ 1000),
      ← one_le_partOr_iff _ (by decide : (1 : ℤ) ≤ 3),
      ← one_le_partOr_iff _ (by decide : (1 : ℤ) ≤ 5)]
    constructor
    · rintro ⟨hinterval, hrise, hfall, htimeout⟩
      exact ⟨hinterval, htimeout, hrise, hfall⟩
    · rintro ⟨hinterval, htimeout, hrise, hfall⟩
      exact ⟨hinterval, hrise, hfall, htimeout⟩
  all_goals exact partOr_le _ (by decide)

theorem readMonitorParam_isSome {param : String} {hc : VsHealthCheck} :
    (readMonitorParam param hc).isSome ↔ param = "" ∨ 4 ≤ (Go.split param '-').length := by
  unfold readMonitorParam
  by_cases hempty : param = ""
  · simp [hempty]
  · rw [if_pos hempty]
    split
    · next hsplit => simp [hsplit]
    · next hother =>
      simp only [Option.isSome_none, Bool.false_eq_true, hempty, false_or, false_iff]
      intro hlength
      match hsplit : Go.split param '-', hlength with
      | a :: b :: c :: d :: rest, _ => exact hother a b c d rest hsplit

/-- What `getHcFromEndpoints` has read from the labels of an enabled object. -/
structure LabelsRead (ep : Endpoints) (hc : VsHealthCheck) : Prop where
  isEnableAllPorts : Go.equalFold hc.isEnableAllPorts "false" = singlePort ep
  httpProtocol : hc.httpProtocol = ep.metadata.label vsHcHttpProtocol
  unset : ep.metadata.label vsHcProtocolPort = "" → hc.port = 0
  protocolPort : singlePort ep = true → ∀ port protocol rest,
    Go.split (ep.metadata.label vsHcProtocolPort) '-' = port :: protocol :: rest →
      hc.port = (Go.atoi port).1 ∧ hc.protocol = protocol
  positive : hc.Positive ↔ MonitorParamOk (ep.metadata.label vsHcMonitorParam)
  fits : hc.Fits

section Labels

variable {ep : Endpoints}

/-- Filling `HcPorts` sets nothing else. -/
theorem fillHcPorts_eq (hc : VsHealthCheck) :
    ∃ hcPorts, fillHcPorts ep hc = { hc with hcPorts := hcPorts } := by
  unfold fillHcPorts
  split
  · exact ⟨_, rfl⟩
  · exact ⟨hc.hcPorts, rfl⟩

theorem readEnabled_eq : ∃ hcPorts allPorts, Go.equalFold allPorts "false" = singlePort ep ∧
    readEnabled ep =
      { isEnable := ep.metadata.label vsHcIsEnable, isEnableAllPorts := allPorts,
        hcPorts := hcPorts, httpProtocol := ep.metadata.label vsHcHttpProtocol } := by
  unfold readEnabled
  dsimp only
  generalize hall : (if ep.metadata.label vsHcIsEnableAllPorts ≠ "" then
    ep.metadata.label vsHcIsEnableAllPorts else "true") = allPorts
  have hfold : Go.equalFold allPorts "false" = singlePort ep := by
    rw [← hall, singlePort]
    split
    · rfl
    · next hempty =>
      rw [not_ne_iff.mp hempty]
      decide
  split
  · obtain ⟨hcPorts, hfill⟩ := @fillHcPorts_eq ep
      { isEnable := ep.metadata.label vsHcIsEnable, isEnableAllPorts := allPorts }
    exact ⟨hcPorts, allPorts, hfold, by rw [hfill]⟩
  · exact ⟨[], allPorts, hfold, rfl⟩

theorem isEnableAllPorts_readEnabled :
    Go.equalFold (readEnabled ep).isEnableAllPorts "false" = singlePort ep := by
  obtain ⟨hcPorts, allPorts, hfold, heq⟩ := @readEnabled_eq ep
  rw [heq]
  exact hfold

theorem readProtocolPort_isSome :
    (readProtocolPort ep (readEnabled ep)).isSome ↔
      (singlePort ep = true → ep.metadata.label vsHcProtocolPort = "" ∨
        2 ≤ (Go.split (ep.metadata.label vsHcProtocolPort) '-').length) := by
  unfold readProtocolPort
  rw [isEnableAllPorts_readEnabled]
  by_cases hempty : ep.metadata.label vsHcProtocolPort = ""
  · simp [hempty]
  · by_cases hsingle : singlePort ep = true
    · simp only [ne_eq, hempty, not_false_eq_true, if_true, hsingle, false_or, forall_const]
      split
      · next hsplit => simp [hsplit]
      · next hother =>
        simp only [Option.isSome_none, Bool.false_eq_true, false_iff]
        intro hlength
        match hsplit : Go.split (ep.metadata.label vsHcProtocolPort) '-', hlength with
        | port :: protocol :: rest, _ => exact hother port protocol rest hsplit
    · simp [hempty, hsingle]

theorem isEnable_ne_empty (henabled : ep.metadata.label vsHcIsEnable = "true") :
    ep.metadata.label vsHcIsEnable ≠ "" := by
  rw [henabled]
  decide

theorem getHcFromEndpoints_eq (hset : ep.metadata.label vsHcIsEnable ≠ "") :
    getHcFromEndpoints ep = (readProtocolPort ep (readEnabled ep)).bind
      (readMonitorParam (ep.metadata.label vsHcMonitorParam)) := by
  rw [getHcFromEndpoints, if_pos hset]

/-- With `hc_enabled` set, the labels are read without a panic exactly if they have the parts. -/
theorem getHcFromEndpoints_isSome (hset : ep.metadata.label vsHcIsEnable ≠ "") :
    (getHcFromEndpoints ep).isSome ↔ LabelsShaped ep := by
  rw [getHcFromEndpoints_eq hset, LabelsShaped, ← readProtocolPort_isSome]
  cases readProtocolPort ep (readEnabled ep) with
  | none => simp
  | some hc => simp [readMonitorParam_isSome]

/-- What reading the label `hc_protocol_port` leaves alone, and what it sets. -/
structure ProtocolPortRead (ep : Endpoints) (hc hc' : VsHealthCheck) : Prop where
  isEnableAllPorts : hc'.isEnableAllPorts = hc.isEnableAllPorts
  httpProtocol : hc'.httpProtocol = hc.httpProtocol
  unset : ep.metadata.label vsHcProtocolPort = "" → hc'.port = hc.port
  protocolPort : Go.equalFold hc.isEnableAllPorts "false" = true → ∀ port protocol rest,
    Go.split (ep.metadata.label vsHcProtocolPort) '-' = port :: protocol :: rest →
      hc'.port = (Go.atoi port).1 ∧ hc'.protocol = protocol
  fits : hc.port ≤ maxIntT → hc'.port ≤ maxIntT

theorem of_readProtocolPort {hc hc' : VsHealthCheck} (h : readProtocolPort ep hc = some hc') :
    ProtocolPortRead ep hc hc' := by
  unfold readProtocolPort at h
  dsimp only at h
  split at h
  · next hset =>
    split at h
    · split at h
      · next port protocol rest hsplit =>
        cases h
        refine ⟨rfl, rfl, fun hempty => absurd hempty hset, ?_, fun _ => atoi_le_maxIntT port⟩
        intro _ port' protocol' rest' hsplit'
        rw [hsplit] at hsplit'
        cases hsplit'
        exact ⟨rfl, rfl⟩
      · cases h
    · next hall =>
      cases h
      obtain ⟨hcPorts, hfill⟩ := @fillHcPorts_eq ep hc
      rw [hfill]
      exact ⟨rfl, rfl, fun _ => rfl, fun hsingle => absurd hsingle hall, id⟩
  · next hunset =>
    cases h
    have hempty : ep.metadata.label vsHcProtocolPort = "" := not_ne_iff.mp hunset
    refine ⟨rfl, rfl, fun _ => rfl, fun _ port protocol rest hsplit => ?_, id⟩
    rw [hempty] at hsplit
    cases hsplit

theorem of_getHcFromEndpoints (hset : ep.metadata.label vsHcIsEnable ≠ "")
    {hc : VsHealthCheck} (h : getHcFromEndpoints ep = some hc) : LabelsRead ep hc := by
  rw [getHcFromEndpoints_eq hset, Option.bind_eq_some_iff] at h
  obtain ⟨hc₁, hprotocolPort, hmonitor⟩ := h
  have hport := of_readProtocolPort hprotocolPort
  have hparam := of_readMonitorParam hmonitor
  obtain ⟨hcPorts, allPorts, hfold, hfirst⟩ := @readEnabled_eq ep
  rw [hfirst] at hport
  have hfits : hc₁.port ≤ maxIntT := hport.fits (by simp)
  refine ⟨?_, ?_, ?_, ?_, hparam.positive, hparam.fits hfits⟩
  · rw [hparam.isEnableAllPorts, hport.isEnableAllPorts, hfold]
  · rw [hparam.httpProtocol, hport.httpProtocol]
  · rw [hparam.port]
    exact hport.unset
  · rw [hparam.port, hparam.protocol, ← hfold]
    exact hport.protocolPort

end Labels

end HealthCheck.Nginx
