import HealthCheck.Leases
import HealthCheck.Runs

/-!
# The cached holder of a lease

`GlobalSvcLeaseDetail` should mirror the leases: after each event, the entry of a service is the
holder of its lease, or empty when there is none. The mirror breaks in three ways. A holder that
is nil before or after an update is dereferenced; the name of a service that contains `kubevip-`
cannot be told from the name of its lease; and a deletion is not handled at all.
-/

namespace HealthCheck

/-- The lease of a service and the cache that follows it; the cache is gone after a panic. -/
structure LeaseWatch where
  current : Option LeaseState
  detail : Option LeaseDetail

namespace LeaseWatch

/-- The start of the program, before the lease is created. -/
def start : LeaseWatch := ⟨none, some ∅⟩

/-- An operation on the lease, and the handling of its event. -/
def step (site : LeaseSite) (w : LeaseWatch) (op : LeaseOp) : LeaseWatch where
  current := op.after w.current
  detail := w.detail.bind (handleLease site op w.current)

/-- The holder of the lease, empty when there is no lease or no holder. -/
def holder (w : LeaseWatch) : String := (w.current.bind LeaseState.holder).getD ""

/-- There was no panic, and the cached holder is that of the lease. -/
def Mirrors (site : LeaseSite) (w : LeaseWatch) : Prop :=
  ∃ detail, w.detail = some detail ∧ detail.holder site.key = w.holder

/-- The operations that the handlers follow: a lease with a holder is created only under a plain
name; a new version has a holder and follows one with a holder, the same one unless the name is
plain; and what is deleted has no holder. -/
def Followed (site : LeaseSite) (w : LeaseWatch) (op : LeaseOp) : Prop :=
  match op, w.current with
  | .write holder, none => site.Plain ∨ holder.getD "" = ""
  | .write holder, some old =>
    holder ≠ none ∧ old.holder ≠ none ∧ (site.Plain ∨ holder = old.holder)
  | .resync, _ => True
  | .delete, _ => w.holder = ""

variable {site : LeaseSite} {w : LeaseWatch}

/-- A panic is final. -/
theorem not_mirrors_of_panic {op : LeaseOp} {detail : LeaseDetail}
    (hdetail : w.detail = some detail)
    (hpanic : handleLease site op w.current detail = none) :
    ¬ (w.step site op).Mirrors site := by
  rintro ⟨detail', hsome, -⟩
  rw [step, hdetail, Option.bind_some, hpanic] at hsome
  cases hsome

/-- After an event that was handled, the mirror is a matter of the two holders. -/
theorem mirrors_step_iff {op : LeaseOp} {detail detail' : LeaseDetail}
    (hdetail : w.detail = some detail)
    (hhandled : handleLease site op w.current detail = some detail') :
    (w.step site op).Mirrors site ↔ detail'.holder site.key = (w.step site op).holder := by
  have hstep : (w.step site op).detail = some detail' := by
    rw [step, hdetail, Option.bind_some, hhandled]
  constructor
  · rintro ⟨d, hd, hmirrors⟩
    rw [hstep] at hd
    obtain rfl := Option.some.inj hd
    exact hmirrors
  · intro hmirrors
    exact ⟨detail', hstep, hmirrors⟩

/-- From a state in which the cache mirrors the lease, an operation keeps the mirror exactly if
the handlers follow it. -/
theorem mirrors_step (hmirrors : w.Mirrors site) (op : LeaseOp) :
    (w.step site op).Mirrors site ↔ w.Followed site op := by
  obtain ⟨detail, hdetail, hholder⟩ := hmirrors
  cases op with
  | resync =>
    have hhandled := handleLease_resync site detail w.current
    rw [mirrors_step_iff hdetail hhandled]
    exact iff_of_true hholder trivial
  | delete =>
    rw [mirrors_step_iff hdetail rfl, hholder]
    rfl
  | write holder =>
    cases hcurrent : w.current with
    | none =>
      have hhandled : handleLease site (.write holder) w.current detail =
          some (site.record (holder.getD "") detail) := by
        rw [hcurrent, handleLease_create]
      have hempty : w.holder = "" := by simp [LeaseWatch.holder, hcurrent]
      have hafter : (w.step site (.write holder)).holder = holder.getD "" := rfl
      simp only [mirrors_step_iff hdetail hhandled, site.holder_record, hafter, hholder, hempty,
        Followed, hcurrent]
      by_cases hplain : site.Plain
      · simp [hplain]
      · rw [if_neg hplain, or_iff_right hplain]
        exact eq_comm
    | some old =>
      simp only [Followed, hcurrent]
      rcases handleLease_update_cases site detail holder old with
        ⟨hnil, hpanic⟩ | ⟨new, oldHolder, rfl, hold, hhandled⟩
      · rw [← hcurrent] at hpanic
        refine iff_of_false (not_mirrors_of_panic hdetail hpanic) fun hfollowed => ?_
        exact hnil.elim hfollowed.1 hfollowed.2.1
      · rw [← hcurrent] at hhandled
        have hbefore : w.holder = oldHolder := by simp [LeaseWatch.holder, hcurrent, hold]
        have hafter : (w.step site (.write (some new))).holder = new := rfl
        rw [mirrors_step_iff hdetail hhandled, hafter, hold]
        by_cases hsame : new = oldHolder
        · rw [if_pos hsame, hholder, hbefore, hsame]
          simp
        · rw [if_neg hsame, site.holder_record, hholder, hbefore]
          by_cases hplain : site.Plain
          · simp [hplain]
          · simp [hplain, hsame, eq_comm]

/-- When the cache mirrors the lease after each event of a run, without a panic: exactly if the
handlers follow every operation of the run. -/
theorem cache_mirrors_lease_iff (site : LeaseSite) (ops : List LeaseOp) :
    Runs.Throughout (step site) (Mirrors site) start ops ↔
      Runs.Along (step site) (Followed site) start ops := by
  have hstart : start.Mirrors site := ⟨∅, rfl, rfl⟩
  refine Runs.throughout_iff_along (fun w op hw hop => ?_) (fun w hw => hw)
    (fun w op hw hnext => ?_)
    hstart
  · exact (mirrors_step hw op).mpr hop
  · exact (mirrors_step hw op).mp hnext

/-- The service prod/web. -/
def webSite : LeaseSite := ⟨"web", "prod"⟩

/-- A service whose name begins like that of a lease. -/
def kubevipSite : LeaseSite := ⟨"kubevip-web", "prod"⟩

/-- The holder gives the lease up, the lease is deleted, and the lease of a service named like a
lease is created: the cache does not follow, the first time because of a panic. -/
theorem cache_misses_lease :
    (step webSite (step webSite start (.write (some "node-1"))) (.write none)).detail = none ∧
    (let w := step webSite (step webSite start (.write (some "node-1"))) .delete
     w.holder = "" ∧ w.detail.map (fun detail => detail.holder webSite.key) = some "node-1") ∧
    (let w := step kubevipSite start (.write (some "node-1"))
     w.holder = "node-1" ∧
       w.detail.map (fun detail => detail.holder kubevipSite.key) = some "") := by
  decide +kernel

end LeaseWatch

end HealthCheck
