import HealthCheck.PollEntries

/-!
# Interference between services in a poll

The verdicts that `eventOpt` computes for a service should depend on the service alone: on its
verdicts, on its peers in the payload and on who owns it. The recovery loop is the exception. It
consults one dictionary, in which the peers of all services are recorded by their `ip:port`, so
that a down verdict is kept or cleared according to what is reported for other services.
-/

namespace HealthCheck

/-- What a poll computes the new verdicts from. -/
structure PollInput where
  ownership : Ownership
  servers : ServersNgxList
  downEpList : DownEpList

namespace PollInput

/-- The peers in the payload, in the order in which the two loops take them. -/
def downs (input : PollInput) : List HcNgxDetail := input.servers.http ++ input.servers.stream

/-- The verdicts computed by `eventOpt`. -/
def computed (input : PollInput) : DownEpList :=
  eventDownEpList input.ownership input.servers input.downEpList

/-- The two inputs agree on the service: on its verdicts, its peers and its owner. -/
structure AgreeOn (svc : String) (x y : PollInput) : Prop where
  entries : ∀ ep, x.downEpList.entry svc ep = y.downEpList.entry svc ep
  items : ∀ d, d.upstream = svc → (d ∈ x.downs ↔ d ∈ y.downs)
  owner : x.ownership.owns svc = y.ownership.owns svc

/-- The name of the endpoint is recorded because of a peer of another service. -/
def RecordedElsewhere (input : PollInput) (svc ep : String) : Prop :=
  ∃ d ∈ input.downs, d.upstream ≠ svc ∧ d.name = ep ∧
    (input.ownership.owns d.upstream = false ∨ d.rise ≤ 0)

instance (input : PollInput) (svc ep : String) : Decidable (input.RecordedElsewhere svc ep) :=
  inferInstanceAs (Decidable (∃ d ∈ input.downs, _))

/-- The endpoint is left to the recovery loop: it is marked down, and the payload loops neither
delete its service nor report it. -/
def LeftToRecovery (input : PollInput) (svc ep : String) : Prop :=
  input.downEpList.entry svc ep = some false ∧
    ¬ (input.ownership.owns svc = false ∧ Listed input.downs svc) ∧
    ¬ (input.ownership.owns svc = true ∧ Reported input.downs svc ep)

theorem entry_computed (input : PollInput) (svc ep : String) :
    input.computed.entry svc ep =
      eventVerdict input.ownership input.downs svc ep (input.downEpList.entry svc ep) :=
  entry_eventDownEpList input.ownership input.servers input.downEpList svc ep

/-- Of an endpoint left to the recovery loop, only peers of other services can be recorded. -/
theorem recorded_iff_elsewhere {input : PollInput} {svc ep : String}
    (hleft : input.LeftToRecovery svc ep) :
    Recorded input.ownership input.downs ep ↔ input.RecordedElsewhere svc ep := by
  obtain ⟨-, hkept, hreported⟩ := hleft
  constructor
  · rintro ⟨d, hd, hname, hrecorded⟩
    refine ⟨d, hd, ?_, hname, hrecorded⟩
    rintro rfl
    rcases hrecorded with howns | hrise
    · exact hkept ⟨howns, d, hd, rfl⟩
    · cases howns : input.ownership.owns d.upstream with
      | false => exact hkept ⟨howns, d, hd, rfl⟩
      | true => exact hreported ⟨howns, d, hd, rfl, hname, hrise⟩
  · rintro ⟨d, hd, -, hname, hrecorded⟩
    exact ⟨d, hd, hname, hrecorded⟩

/-- The recovery loop clears a down verdict that is left to it, unless another service's peer
has the same name recorded. -/
theorem entry_computed_left {input : PollInput} {svc ep : String}
    (hleft : input.LeftToRecovery svc ep) :
    input.computed.entry svc ep =
      if input.RecordedElsewhere svc ep then some false else some true := by
  obtain ⟨hdown, hkept, hreported⟩ := id hleft
  rw [entry_computed, eventVerdict, if_neg hkept, if_neg hreported, hdown]
  by_cases helsewhere : input.RecordedElsewhere svc ep
  · rw [if_pos ((recorded_iff_elsewhere hleft).mpr helsewhere), if_pos helsewhere]
  · rw [if_neg (mt (recorded_iff_elsewhere hleft).mp helsewhere), if_neg helsewhere]
    rfl

section Agree

variable {svc : String} {x y : PollInput} (hagree : AgreeOn svc x y)

include hagree

theorem AgreeOn.listed : Listed x.downs svc ↔ Listed y.downs svc := by
  constructor
  · rintro ⟨d, hd, hsvc⟩
    exact ⟨d, (hagree.items d hsvc).mp hd, hsvc⟩
  · rintro ⟨d, hd, hsvc⟩
    exact ⟨d, (hagree.items d hsvc).mpr hd, hsvc⟩

theorem AgreeOn.reported (ep : String) : Reported x.downs svc ep ↔ Reported y.downs svc ep := by
  constructor
  · rintro ⟨d, hd, hsvc, hdown⟩
    exact ⟨d, (hagree.items d hsvc).mp hd, hsvc, hdown⟩
  · rintro ⟨d, hd, hsvc, hdown⟩
    exact ⟨d, (hagree.items d hsvc).mpr hd, hsvc, hdown⟩

theorem AgreeOn.leftToRecovery (ep : String) :
    x.LeftToRecovery svc ep ↔ y.LeftToRecovery svc ep := by
  rw [LeftToRecovery, LeftToRecovery, hagree.entries, hagree.owner, hagree.listed, hagree.reported]

/-- Whatever is not left to the recovery loop depends on the service alone. -/
theorem AgreeOn.entry_computed_eq {ep : String} (hleft : ¬ x.LeftToRecovery svc ep) :
    x.computed.entry svc ep = y.computed.entry svc ep := by
  rw [entry_computed, entry_computed, eventVerdict, eventVerdict, ← hagree.entries, ← hagree.owner]
  simp only [← hagree.listed, ← hagree.reported]
  by_cases hdropped : x.ownership.owns svc = false ∧ Listed x.downs svc
  · rw [if_pos hdropped, if_pos hdropped]
  · by_cases hreported : x.ownership.owns svc = true ∧ Reported x.downs svc ep
    · rw [if_neg hdropped, if_neg hdropped, if_pos hreported, if_pos hreported]
    · rw [if_neg hdropped, if_neg hdropped, if_neg hreported, if_neg hreported]
      -- a missing or an up verdict is the same before and after the recovery
      have hup : x.downEpList.entry svc ep =
          (x.downEpList.entry svc ep).map fun _ => true := by
        cases hentry : x.downEpList.entry svc ep with
        | none => rfl
        | some status =>
          cases status with
          | true => rfl
          | false => exact absurd ⟨hentry, hdropped, hreported⟩ hleft
      rw [← hup, ite_self, ite_self]

end Agree

/-- When the verdicts computed for a service depend on the service alone: exactly if every down
verdict left to the recovery loop has its name recorded for other services in both polls or in
neither. -/
theorem services_isolated_iff {svc : String} {x y : PollInput} (hagree : AgreeOn svc x y) :
    (∀ ep, x.computed.entry svc ep = y.computed.entry svc ep) ↔
      ∀ ep, x.LeftToRecovery svc ep →
        (x.RecordedElsewhere svc ep ↔ y.RecordedElsewhere svc ep) := by
  constructor
  · intro hsame ep hleft
    have hentries := hsame ep
    rw [entry_computed_left hleft,
      entry_computed_left ((hagree.leftToRecovery ep).mp hleft)] at hentries
    by_cases hx : x.RecordedElsewhere svc ep
    · by_cases hy : y.RecordedElsewhere svc ep
      · exact iff_of_true hx hy
      · simp [hx, hy] at hentries
    · by_cases hy : y.RecordedElsewhere svc ep
      · simp [hx, hy] at hentries
      · exact iff_of_false hx hy
  · intro hsame ep
    by_cases hleft : x.LeftToRecovery svc ep
    · rw [entry_computed_left hleft, entry_computed_left ((hagree.leftToRecovery ep).mp hleft)]
      simp only [hsame ep hleft]
    · exact hagree.entry_computed_eq hleft

/-- A node that owns all services and has one endpoint marked down, at a poll that reports one
peer of another service. -/
def sharedPod (name : String) : PollInput where
  ownership := { isLeader := true }
  servers :=
    { total := 1, http := [{ upstream := "api_prod", name := name, rise := 0 }], stream := [] }
  downEpList := some ((∅ : Go.Map String EpStatus).insert "web_prod"
    ((∅ : EpStatus).insert "10.0.0.7:80" false))

theorem agreeOn_sharedPod (name name' : String) :
    AgreeOn "web_prod" (sharedPod name) (sharedPod name') where
  entries _ := rfl
  items := by
    have hother : ∀ name d, d.upstream = "web_prod" → d ∉ (sharedPod name).downs := by
      rintro name d hsvc hd
      have hd : d ∈ [({ upstream := "api_prod", name := name, rise := 0 } : HcNgxDetail)] := hd
      rw [List.mem_singleton.mp hd] at hsvc
      exact absurd hsvc (by decide : "api_prod" ≠ "web_prod")
    intro d hsvc
    exact iff_of_false (hother name d hsvc) (hother name' d hsvc)
  owner := rfl

theorem services_isolated_other_pods :
    (sharedPod "10.0.0.8:80").computed.entry "web_prod" "10.0.0.7:80" =
      (sharedPod "10.0.0.9:80").computed.entry "web_prod" "10.0.0.7:80" := by
  refine (services_isolated_iff (agreeOn_sharedPod "10.0.0.8:80" "10.0.0.9:80")).mpr ?_ _
  rintro ep ⟨hdown, -, -⟩
  have hep : ep = "10.0.0.7:80" := by
    by_contra hne
    have hnone : ((∅ : EpStatus).insert "10.0.0.7:80" false).lookup ep = none := by
      rw [AList.lookup_insert_ne hne]
      rfl
    have hdown : ((∅ : EpStatus).insert "10.0.0.7:80" false).lookup ep = some false := hdown
    rw [hnone] at hdown
    cases hdown
  subst hep
  exact iff_of_false (by decide +kernel) (by decide +kernel)

/-- The pod behind both services is kept down for the one because it is down for the other. -/
theorem services_interfere :
    AgreeOn "web_prod" (sharedPod "10.0.0.7:80") (sharedPod "10.0.0.9:80") ∧
    (sharedPod "10.0.0.7:80").computed.entry "web_prod" "10.0.0.7:80" = some false ∧
    (sharedPod "10.0.0.9:80").computed.entry "web_prod" "10.0.0.7:80" = some true :=
  ⟨agreeOn_sharedPod _ _, by decide +kernel, by decide +kernel⟩

end PollInput

end HealthCheck
