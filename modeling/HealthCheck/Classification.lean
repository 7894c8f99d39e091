import HealthCheck.Reconcile

/-!
# What the verdicts make of every address

The keys of the verdicts are per port, the addresses per IP, so that one IP can have verdicts
of both kinds. The loop over the up verdicts runs first and the loop over the down verdicts last:
one down verdict makes an address not ready, whatever the order in which Go ranges over the maps.
-/

namespace HealthCheck

open Api

/-- The address of a target is on the given side only. -/
def EpStore.Only (store : EpStore) (side : Side) (t : String × String × String) : Prop :=
  store.Has side t ∧ ¬ store.Has side.other t

/-- Some well-formed key `ip:port` of the service has the given verdict. The parts of such a key
have no colon of their own. -/
def DownEpList.Judges (l : DownEpList) (name nameSpace ip : String) (status : Bool) : Prop :=
  ∃ port, ':' ∉ ip.toList ∧ ':' ∉ port.toList ∧
    l.entry (virtualServiceFullValue name nameSpace) (ip ++ ":" ++ port) = some status

/-- The entries with a target are the well-formed keys of the target's IP. -/
theorem target_eq_some_iff {name nameSpace : String} (hname : '_' ∉ name.toList)
    (hspace : '_' ∉ nameSpace.toList) {wanted status : Bool} {svc ep ip : String} :
    target wanted (svc, ep, status) = some (name, nameSpace, ip) ↔
      svc = virtualServiceFullValue name nameSpace ∧ status = wanted ∧
        ∃ port, Go.split ep ':' = [ip, port] := by
  constructor
  · intro htarget
    refine ⟨service_of_target htarget, verdict_of_target htarget, ?_⟩
    unfold target at htarget
    split at htarget
    · split at htarget
      · split at htarget
        · next ip' port hsplit =>
          cases htarget
          exact ⟨port, hsplit⟩
        · cases htarget
      · cases htarget
    · cases htarget
  · rintro ⟨rfl, rfl, port, hsplit⟩
    simp [target, split_virtualServiceFullValue hname hspace, hsplit]

/-- A loop moves an address when some key of its IP has the loop's verdict, in any order. -/
theorem moved_iff_judges {lbhc : Lbhc} (order : RangeOrder lbhc.downEpList) (dst : Side)
    {name nameSpace : String} (hname : '_' ∉ name.toList) (hspace : '_' ∉ nameSpace.toList)
    (ip : String) :
    Moved dst (fun _ _ => .none) order.entries (name, nameSpace, ip) ↔
      lbhc.downEpList.Judges name nameSpace ip dst.verdict := by
  have hsep : ":" = String.singleton ':' := rfl
  constructor
  · rintro ⟨⟨svc, ep, status⟩, hmem, htarget, -⟩
    obtain ⟨rfl, rfl, port, hsplit⟩ := (target_eq_some_iff hname hspace).mp htarget
    obtain ⟨hip, hport, rfl⟩ := Go.split_eq_pair_iff.mp hsplit
    exact ⟨port, hip, hport, order.mem_entries.mp hmem⟩
  · rintro ⟨port, hip, hport, hentry⟩
    refine ⟨_, order.mem_entries.mpr hentry, ?_, getsThrough_none⟩
    refine (target_eq_some_iff hname hspace).mpr ⟨rfl, rfl, port, ?_⟩
    rw [hsep]
    exact Go.split_join hip hport

variable (lbhc : Lbhc) (ups downs : RangeOrder lbhc.downEpList) (store : EpStore)

/-- Without faults no address is gained or lost. -/
theorem exists_has_modifyEpBaseOnLbhc (t : String × String × String) :
    (∃ side, (modifyEpBaseOnLbhc lbhc ups downs .none store).2.Has side t) ↔
      ∃ side, store.Has side t := by
  rw [Side.exists_iff, Side.exists_iff, modifyEpBaseOnLbhc_ready, modifyEpBaseOnLbhc_notReady,
    ReadyAfterUps]
  by_cases hup : Moved .ready ReconcileFaults.none.up ups.entries t <;>
    by_cases hdown : Moved .notReady ReconcileFaults.none.down downs.entries t <;>
    simp [hup, hdown, or_comm]

/-- The verdicts classify every address: down before up, and no verdict leaves an address where it
is. This holds for every order in which the two loops range over the verdicts, and also for an IP
that was on both sides before. -/
theorem modifyEpBaseOnLbhc_classifies :
    let after := (modifyEpBaseOnLbhc lbhc ups downs .none store).2
    let l := lbhc.downEpList
    (∀ name nameSpace ip, '_' ∉ name.toList → '_' ∉ nameSpace.toList →
      (∃ side, store.Has side (name, nameSpace, ip)) →
        (l.Judges name nameSpace ip false → after.Only .notReady (name, nameSpace, ip)) ∧
        (¬ l.Judges name nameSpace ip false → l.Judges name nameSpace ip true →
          after.Only .ready (name, nameSpace, ip)) ∧
        (¬ l.Judges name nameSpace ip false → ¬ l.Judges name nameSpace ip true →
          ∀ side, after.Has side (name, nameSpace, ip) ↔ store.Has side (name, nameSpace, ip))) ∧
      ∀ t, (∃ side, after.Has side t) ↔ ∃ side, store.Has side t := by
  refine ⟨fun name nameSpace ip hname hspace hhas => ?_,
    exists_has_modifyEpBaseOnLbhc lbhc ups downs store⟩
  have hup := moved_iff_judges ups .ready hname hspace ip
  have hdown := moved_iff_judges downs .notReady hname hspace ip
  have hready := modifyEpBaseOnLbhc_ready lbhc ups downs .none store (name, nameSpace, ip)
  have hnotReady := modifyEpBaseOnLbhc_notReady lbhc ups downs .none store (name, nameSpace, ip)
  simp only [ReconcileFaults.none, ReadyAfterUps, hup, hdown, Side.verdict] at hready hnotReady
  rw [Side.exists_iff] at hhas
  refine ⟨fun hfalse => ?_, fun hfalse htrue => ?_, fun hfalse htrue side => ?_⟩
  · -- The second loop finds the address ready, or it was not ready and stayed so.
    simp only [hfalse, not_true_eq_false, and_false, and_true] at hready hnotReady
    refine ⟨hnotReady.mpr ?_, hready.mp⟩
    by_cases htrue : lbhc.downEpList.Judges name nameSpace ip true
    · exact .inr (hhas.imp_right fun h => ⟨h, htrue⟩)
    · exact hhas.elim (fun h => .inr (.inl h)) fun h => .inl ⟨h, htrue⟩
  · simp only [hfalse, htrue, not_true_eq_false, not_false_eq_true, and_false, and_true,
      or_false] at hready hnotReady
    exact ⟨hready.mpr hhas, hnotReady.mp⟩
  · simp only [hfalse, htrue, not_false_eq_true, and_false, and_true, or_false] at hready hnotReady
    cases side with
    | ready => exact hready
    | notReady => exact hnotReady

/-- Three addresses of one service. -/
def threeAddresses : EpStore := fun name nameSpace => .holding 1
  { metadata := { name, nameSpace }
    subsets := [{ addresses := [⟨"10.0.0.7", none, none⟩, ⟨"10.0.0.8", none, none⟩]
                  notReadyAddresses := [⟨"10.0.0.9", none, none⟩] }] }

/-- The ports of the first address have verdicts of both kinds, the third address is up. -/
def mixedVerdicts : Lbhc where
  metadata := { name := "node", nameSpace := "kube-system" }
  downEpList := some ((∅ : Go.Map String EpStatus).insert "web_prod"
    ((((∅ : EpStatus).insert "10.0.0.7:80" true).insert "10.0.0.7:81" false).insert
      "10.0.0.9:80" true))

/-- The down verdict on one port decides. -/
theorem mixedVerdicts_down :
    threeAddresses.Has .ready ("web", "prod", "10.0.0.7") ∧
      (modifyEpBaseOnLbhc mixedVerdicts (.listed _) (.listed _) .none threeAddresses).2.Only
        .notReady ("web", "prod", "10.0.0.7") := by
  have hhas : threeAddresses.Has .ready ("web", "prod", "10.0.0.7") := by
    unfold EpStore.Has
    decide +kernel
  have hjudges : mixedVerdicts.downEpList.Judges "web" "prod" "10.0.0.7" false :=
    ⟨"81", by decide, by decide, by decide +kernel⟩
  exact ⟨hhas, ((modifyEpBaseOnLbhc_classifies mixedVerdicts (.listed _) (.listed _)
    threeAddresses).1 "web" "prod" "10.0.0.7" (by decide) (by decide) ⟨.ready, hhas⟩).1 hjudges⟩

end HealthCheck
