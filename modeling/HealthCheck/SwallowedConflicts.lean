import HealthCheck.Api.Interference
import HealthCheck.Endpoints.Moves
import HealthCheck.Poll

/-!
# Updates that came too late

Four functions send their update through `RetryOnConflict` and return nil whatever comes of it.
Every attempt sends the object that was read at the beginning, so an update that meets a
newer version at its first attempt meets one at all attempts: the function returns nil and its
effect never was in the store. The callers take nil for success.
-/

namespace HealthCheck

open Api Api.Client

/-- The read of `Reconcile` and the clean-up of the object read. The result is true when
`cleanHcBaseEpUpStatus` was called and returned nil. -/
def fetchAndClean : Client Lbhc Bool := do
  match ← fetch with
  | .found lbhc =>
    cleanHcBaseEpUpStatus lbhc
    pure true
  | _ => pure false

theorem modifyEp_eq_editWithRetry (dst : Side) (epIp : String) :
    modifyEp dst epIp = editWithRetry fun ep =>
      if ep.Has dst.other epIp then some (ep.moveTo dst epIp) else none := by
  unfold modifyEp editWithRetry
  congr 1
  funext fetched
  cases fetched with
  | found ep =>
    dsimp only
    split <;> rfl
  | notFound => rfl
  | failed => rfl

theorem fetchAndClean_eq_editWithRetry :
    fetchAndClean = editWithRetry fun lbhc : Lbhc =>
      if lbhc.downEpList.anyUp then some { lbhc with downEpList := lbhc.downEpList.deleteUp }
      else none := by
  unfold fetchAndClean editWithRetry cleanHcBaseEpUpStatus
  congr 1
  funext fetched
  cases fetched with
  | found lbhc =>
    dsimp only
    split
    · exact bind_assoc _ _ _
    · rfl
  | notFound => rfl
  | failed => rfl

theorem deleteLbhcEpElemByOne_eq_editWithRetry (svcName : String) :
    deleteLbhcEpElemByOne svcName = editWithRetry fun lbhc : Lbhc =>
      some { lbhc with downEpList := lbhc.downEpList.deleteService svcName } := by
  unfold deleteLbhcEpElemByOne editWithRetry
  congr 1
  funext fetched
  cases fetched <;> rfl

/-- A move reports success truthfully exactly when there was nothing to move or its update was in
time. -/
theorem modifyEp_written_iff (dst : Side) (epIp : String) (env : ℕ → List (Write Endpoints))
    (s : Server Endpoints) :
    SuccessMeansWritten (modifyEp dst epIp) (fun ep => ¬ ep.Has dst.other epIp)
        (fun ep => ¬ ep.Has dst.other epIp ∧ ep.Has dst epIp) env s ↔
      ∀ read ∈ (s.writes (env 0)).object, ¬ read.Has dst.other epIp ∨ InTime env read s := by
  rw [modifyEp_eq_editWithRetry]
  refine editWithRetry_written_iff ?_ ?_ ?_
  · intro ep new hedit
    split at hedit
    · cases hedit
      rfl
    · cases hedit
  · intro ep hedit hhas
    rw [if_pos hhas] at hedit
    cases hedit
  · intro ep new stored hedit hcontent
    split at hedit
    · next hhas =>
      cases hedit
      rw [Endpoints.has_iff_of_stamp_eq hcontent, Endpoints.has_iff_of_stamp_eq hcontent,
        Endpoints.has_source_moveTo, Endpoints.has_dst_moveTo]
      exact ⟨fun h => h.2 rfl, .inr ⟨rfl, hhas⟩⟩
    · cases hedit

/-- So does the clean-up: there was no entry to delete, or its update was in time. -/
theorem fetchAndClean_written_iff (env : ℕ → List (Write Lbhc)) (s : Server Lbhc) :
    SuccessMeansWritten fetchAndClean (fun lbhc => lbhc.downEpList.anyUp = false)
        (fun lbhc => lbhc.downEpList.anyUp = false) env s ↔
      ∀ read ∈ (s.writes (env 0)).object,
        read.downEpList.anyUp = false ∨ InTime env read s := by
  rw [fetchAndClean_eq_editWithRetry]
  refine editWithRetry_written_iff ?_ ?_ ?_
  · intro lbhc new hedit
    split at hedit
    · cases hedit
      rfl
    · cases hedit
  · intro lbhc hedit
    split at hedit
    · cases hedit
    · next hup => simpa using hup
  · intro lbhc new stored hedit hcontent
    split at hedit
    · cases hedit
      rw [downEpList_eq_of_stamp_eq hcontent, ← Bool.not_eq_true, DownEpList.anyUp_iff]
      rintro ⟨svc, ep, hentry⟩
      exact DownEpList.entry_deleteUp_ne_true hentry
    · cases hedit

/-- The deletion of a service always sends an update, which has to be in time unless the service
had no entry. -/
theorem deleteLbhcEpElemByOne_written_iff (svcName : String) (env : ℕ → List (Write Lbhc))
    (s : Server Lbhc) :
    SuccessMeansWritten (deleteLbhcEpElemByOne svcName)
        (fun lbhc => lbhc.downEpList.service svcName = none)
        (fun lbhc => lbhc.downEpList.service svcName = none) env s ↔
      ∀ read ∈ (s.writes (env 0)).object,
        read.downEpList.service svcName = none ∨ InTime env read s := by
  rw [deleteLbhcEpElemByOne_eq_editWithRetry]
  refine editWithRetry_written_iff ?_ ?_ ?_
  · intro lbhc new hedit
    cases hedit
    rfl
  · intro lbhc hedit
    cases hedit
  · intro lbhc new stored hedit hcontent
    cases hedit
    rw [downEpList_eq_of_stamp_eq hcontent, DownEpList.service_deleteService, if_pos rfl]

/-- For each of the four functions, every stored object and every behaviour of other writers: that
the function returns nil means that it had nothing to change or that its effect was in the store,
exactly when it had nothing to change in the object it read or its update was in time. -/
theorem success_means_written_iff (epIp svcName : String) (epEnv : ℕ → List (Write Endpoints))
    (endpoints : Server Endpoints) (lbhcEnv : ℕ → List (Write Lbhc)) (lbhcs : Server Lbhc) :
    (SuccessMeansWritten (modifyEpInNotReadyAddressList epIp) (fun ep => ¬ ep.Has .ready epIp)
        (fun ep => ¬ ep.Has .ready epIp ∧ ep.Has .notReady epIp) epEnv endpoints ↔
      ∀ read ∈ (endpoints.writes (epEnv 0)).object,
        ¬ read.Has .ready epIp ∨ InTime epEnv read endpoints) ∧
    (SuccessMeansWritten (modifyEpInAddressList epIp) (fun ep => ¬ ep.Has .notReady epIp)
        (fun ep => ¬ ep.Has .notReady epIp ∧ ep.Has .ready epIp) epEnv endpoints ↔
      ∀ read ∈ (endpoints.writes (epEnv 0)).object,
        ¬ read.Has .notReady epIp ∨ InTime epEnv read endpoints) ∧
    (SuccessMeansWritten fetchAndClean (fun lbhc => lbhc.downEpList.anyUp = false)
        (fun lbhc => lbhc.downEpList.anyUp = false) lbhcEnv lbhcs ↔
      ∀ read ∈ (lbhcs.writes (lbhcEnv 0)).object,
        read.downEpList.anyUp = false ∨ InTime lbhcEnv read lbhcs) ∧
    (SuccessMeansWritten (deleteLbhcEpElemByOne svcName)
        (fun lbhc => lbhc.downEpList.service svcName = none)
        (fun lbhc => lbhc.downEpList.service svcName = none) lbhcEnv lbhcs ↔
      ∀ read ∈ (lbhcs.writes (lbhcEnv 0)).object,
        read.downEpList.service svcName = none ∨ InTime lbhcEnv read lbhcs) := by
  refine ⟨?_, ?_, ?_, ?_⟩
  · exact modifyEp_written_iff .notReady epIp epEnv endpoints
  · exact modifyEp_written_iff .ready epIp epEnv endpoints
  · exact fetchAndClean_written_iff lbhcEnv lbhcs
  · exact deleteLbhcEpElemByOne_written_iff svcName lbhcEnv lbhcs

/-- Another writer's update lands between the read and the first attempt: the move and the deletion
both return nil, and all their attempts end in a conflict. -/
theorem late_update_reported_as_success :
    let ep : Endpoints :=
      { metadata := { name := "web", nameSpace := "prod" }
        subsets := [{ addresses := [⟨"10.0.0.7", none, none⟩] }] }
    let lbhc : Lbhc :=
      { metadata := { name := "node-1", nameSpace := "default" }
        downEpList := some ((∅ : Go.Map String EpStatus).insert "web_prod" ∅) }
    let epEnv : ℕ → List (Write Endpoints) := fun n =>
      if n = 1 then [.update { ep with subsets := [] }] else []
    let lbhcEnv : ℕ → List (Write Lbhc) := fun n =>
      if n = 1 then [.update { lbhc with
        metadata := { lbhc.metadata with resourceVersion := some 1 }, downEpList := none }] else []
    ¬ SuccessMeansWritten (modifyEpInNotReadyAddressList "10.0.0.7")
        (fun ep => ¬ ep.Has .ready "10.0.0.7")
        (fun ep => ¬ ep.Has .ready "10.0.0.7" ∧ ep.Has .notReady "10.0.0.7") epEnv
        (.holding 1 ep) ∧
      ¬ SuccessMeansWritten (deleteLbhcEpElemByOne "web_prod")
        (fun lbhc => lbhc.downEpList.service "web_prod" = none)
        (fun lbhc => lbhc.downEpList.service "web_prod" = none) lbhcEnv (.holding 1 lbhc) := by
  intro ep lbhc epEnv lbhcEnv
  constructor
  · intro hsuccess
    rcases hsuccess (by decide +kernel) with hnothing | hwrote
    · exact hnothing (Resource.stamp 1 ep) rfl (by decide)
    · exact not_wrote (by decide +kernel) hwrote
  · intro hsuccess
    rcases hsuccess (by decide +kernel) with hnothing | hwrote
    · exact absurd (hnothing (Resource.stamp 1 lbhc) rfl) (by decide)
    · exact not_wrote (by decide +kernel) hwrote

end HealthCheck
