import HealthCheck.Reconcile

/-!
# Recovery

An up verdict is deleted from the `Lbhc` object once it has been carried out. The
reconciler decides this from the error that `modifyEpBaseOnLbhc` returns, which reports
only one of the three ways in which a move can fail: a failed membership test counts as
"not in the list", and a failed update is logged.
-/

namespace HealthCheck

open Api Api.Client

/-- An up verdict that has been removed from the stored object has taken effect: its
address is on no not ready list, unless another verdict on the address is down. -/
def RecoveryKept (lbhc : Lbhc) (result : Server Lbhc × EpStore) : Prop :=
  ∀ svc ep t, lbhc.downEpList.entry svc ep = some true → target true (svc, ep, true) = some t →
    (∃ stored ∈ result.1.object, stored.downEpList.entry svc ep = none) →
    result.2.Has .notReady t →
    ∃ ep', lbhc.downEpList.entry svc ep' = some false ∧ target false (svc, ep', false) = some t

/-- Every up verdict without a down verdict on the same address, whose address is on a not
ready list, has an entry whose requests get through. -/
def RecoveryCarriedOut (lbhc : Lbhc) (ups : RangeOrder lbhc.downEpList) (faults : ReconcileFaults)
    (store : EpStore) : Prop :=
  ∀ svc ep t, lbhc.downEpList.entry svc ep = some true → target true (svc, ep, true) = some t →
    store.Has .notReady t →
    (∃ ep', lbhc.downEpList.entry svc ep' = some false ∧ target false (svc, ep', false) = some t) ∨
      Moved .ready faults.up ups.entries t

/-- The second read of some move fails, in the first or in the second loop, so that
`Reconcile` returns an error. -/
def ReconcileFails (lbhc : Lbhc) (ups downs : RangeOrder lbhc.downEpList)
    (faults : ReconcileFaults) (store : EpStore) : Prop :=
  ReadLost .ready faults.up ups.entries (store.Has .notReady) ∨
    ReadLost .notReady faults.down downs.entries (ReadyAfterUps lbhc ups faults store)

/-- When `modifyEpBaseOnLbhc` returns an error. -/
theorem modifyEpBaseOnLbhc_error (lbhc : Lbhc) (ups downs : RangeOrder lbhc.downEpList)
    (faults : ReconcileFaults) (store : EpStore) :
    (modifyEpBaseOnLbhc lbhc ups downs faults store).1 = false ↔
      ReconcileFails lbhc ups downs faults store := by
  have hready : (ups.entries.foldl (visitEntry .ready faults.up) (true, store)).2.Has .ready =
      ReadyAfterUps lbhc ups faults store := by
    funext t
    exact propext (foldl_visitEntry_has .ready faults.up ups.entries (true, store) t).2
  rw [modifyEpBaseOnLbhc, foldl_visitEntry_error, foldl_visitEntry_error, ReconcileFails, ← hready]
  simp only [Bool.true_eq_false, false_or]
  rfl

/-- When a reconcile removes an up verdict from the stored object. -/
theorem reconcileLbhc_removes_iff {lbhc : Lbhc} {server : Server Lbhc}
    (hobj : server.object = some lbhc) (ups downs : RangeOrder lbhc.downEpList)
    (faults : ReconcileFaults) (store : EpStore) (svc ep : String)
    (hup : lbhc.downEpList.entry svc ep = some true) :
    (∃ stored ∈ (reconcileLbhc lbhc ups downs faults server store).1.object,
        stored.downEpList.entry svc ep = none) ↔
      ¬ ReconcileFails lbhc ups downs faults store ∧ faults.clean.passes 0 5 = true := by
  have hkept : ¬ ∃ stored ∈ server.object, stored.downEpList.entry svc ep = none := by
    rintro ⟨stored, hstored, hnone⟩
    rw [hobj] at hstored
    cases hstored
    rw [hup] at hnone
    cases hnone
  rw [← modifyEpBaseOnLbhc_error, reconcileLbhc]
  cases hmodified : (modifyEpBaseOnLbhc lbhc ups downs faults store).1 with
  | false => simpa using hkept
  | true =>
    have hany : lbhc.downEpList.anyUp = true := DownEpList.anyUp_iff.mpr ⟨svc, ep, hup⟩
    simp only [if_true, cleanHcBaseEpUpStatus, hany, Bool.true_eq_false, not_false_eq_true,
      true_and, run_bind]
    rcases run_retryOnConflict_lbhc faults.clean
        { lbhc with downEpList := lbhc.downEpList.deleteUp } 0 hobj with
      ⟨-, hpasses, stored, m, t, hstored, hlist, -, hrun⟩ | ⟨hnot, reply, m, -, hrun⟩
    · rw [hrun]
      refine iff_of_true ⟨stored, hstored, ?_⟩ hpasses
      rw [hlist, DownEpList.entry_deleteUp, hup]
      rfl
    · rw [hrun]
      exact iff_of_false hkept fun hpasses => hnot ⟨rfl, hpasses⟩

/-- The up verdicts that a reconcile removes have taken effect exactly when every one of
them whose address is not ready gets its requests through, unless the reconcile returns
an error or the clean-up itself fails. -/
theorem recovery_kept_iff (lbhc : Lbhc) (ups downs : RangeOrder lbhc.downEpList)
    (faults : ReconcileFaults) (server : Server Lbhc) (store : EpStore)
    (hobj : server.object = some lbhc) :
    RecoveryKept lbhc (reconcileLbhc lbhc ups downs faults server store) ↔
      faults.clean.passes 0 5 = false ∨ ReconcileFails lbhc ups downs faults store ∨
        RecoveryCarriedOut lbhc ups faults store := by
  have hstore := reconcileLbhc_store lbhc ups downs faults server store
  have hremoves := reconcileLbhc_removes_iff hobj ups downs faults store
  unfold RecoveryKept
  constructor
  · intro hkept
    by_cases hpasses : faults.clean.passes 0 5 = true
    · by_cases hfails : ReconcileFails lbhc ups downs faults store
      · exact .inr (.inl hfails)
      · refine .inr (.inr fun svc ep t hup ht hhas => ?_)
        by_cases hmoved : Moved .ready faults.up ups.entries t
        · exact .inr hmoved
        · refine .inl (hkept svc ep t hup ht ((hremoves svc ep hup).mpr ⟨hfails, hpasses⟩) ?_)
          rw [hstore, modifyEpBaseOnLbhc_notReady]
          exact .inl ⟨hhas, hmoved⟩
    · exact .inl (by simpa using hpasses)
  · intro hcond svc ep t hup ht hremoved hhas
    obtain ⟨hfails, hpasses⟩ := (hremoves svc ep hup).mp hremoved
    rcases hcond with hblocked | hfailed | hcarried
    · rw [hpasses] at hblocked
      cases hblocked
    · exact absurd hfailed hfails
    · rw [hstore, modifyEpBaseOnLbhc_notReady] at hhas
      rcases hhas with ⟨hbefore, hnot⟩ | ⟨-, hmoved⟩
      · exact (hcarried svc ep t hup ht hbefore).resolve_right hnot
      · exact hmoved.entry ht

/-- One endpoint that is up again. -/
def oneUp : Lbhc where
  metadata := { name := "node1", nameSpace := "default", resourceVersion := some 1 }
  downEpList := some ((∅ : Go.Map String EpStatus).insert "web_default"
    ((∅ : EpStatus).insert "10.0.0.1:80" true))

/-- `Endpoints` objects that all have the endpoint's address on their not ready list. -/
def oneNotReady : EpStore := fun name nameSpace => .holding 1
  { metadata := { name := name, nameSpace := nameSpace }
    subsets := [{ notReadyAddresses := [{ ip := "10.0.0.1" }] }] }

/-- Without faults the recovery is carried out. -/
theorem recovery_kept_oneUp :
    (Server.holding 1 oneUp).object = some oneUp ∧
      RecoveryKept oneUp (reconcileLbhc oneUp (.listed _) (.listed _)
        ⟨fun _ _ => .none, fun _ _ => .none, .none⟩ (.holding 1 oneUp) oneNotReady) := by
  refine ⟨rfl, (recovery_kept_iff oneUp _ _ _ _ _ rfl).mpr (.inr (.inr ?_))⟩
  rintro svc ep t hup ht -
  exact .inr ⟨(svc, ep, true), DownEpList.mem_pairs.mpr hup, ht, rfl, rfl, rfl⟩

/-- The update of the move fails, the error is logged, and the up verdict is deleted: the
endpoint stays not ready and nothing is left to recover it. -/
theorem recovery_forgotten :
    ¬ RecoveryKept oneUp (reconcileLbhc oneUp (.listed _) (.listed _)
      ⟨fun _ _ => .ofUpdates fun _ => .error, fun _ _ => .none, .none⟩
      (.holding 1 oneUp) oneNotReady) := by
  intro hkept
  obtain ⟨ep', hdown, -⟩ := hkept "web_default" "10.0.0.1:80" ("web", "default", "10.0.0.1")
    (by decide +kernel) (by decide +kernel) (by decide +kernel)
    (by unfold EpStore.Has; decide +kernel)
  have hany := DownEpList.anyDown_iff.mpr ⟨_, ep', hdown⟩
  revert hany
  decide +kernel

end HealthCheck
