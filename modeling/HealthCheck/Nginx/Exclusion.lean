import HealthCheck.Nginx.Workers
import Mathlib.Data.Fintype.Basic

/-!
# At most one check at a time

The mutex orders the workers that want to start a check. The worker that performs one is named by
the field `owner`, until it releases the peer itself, unless another worker writes to the field in
the meantime. There are two places where the code does so without regard to a check in progress:
the takeover of a peer that seems to be abandoned, and `discard_handler`, which cleans up after a
kept connection. Without such a write at most one worker checks the peer at any time, and the
counters, although they are not updated atomically, are those of one update after the other.
-/

namespace HealthCheck.Nginx

open Interleaving Runs

/-- The worker has the mutex of the peer. -/
def Phase.holdsMutex : Phase → Bool
  | .locked _ _ | .claiming | .takingOver _ | .stamping _ | .unlocking _ => true
  | _ => false

/-- The worker has seen that nobody owns the peer, and is about to write its own pid. -/
def Phase.isClaiming : Phase → Bool
  | .claiming => true
  | _ => false

/-- The worker performs a check, up to the release of the peer. -/
def Phase.inCheck : Phase → Bool
  | .checking | .updating _ _ _ _ | .releasing => true
  | _ => false

/-- The worker is in the middle of `status_update`. -/
def Phase.isUpdating : Phase → Bool
  | .updating _ _ _ _ => true
  | _ => false

/-- The next access writes the owner whoever performs a check. -/
def Worker.seizes (w : Worker) : WorkerInput → Bool
  | .access =>
    match w.phase with
    | .takingOver _ => true
    | _ => false
  | .discard => w.phase = .idle && w.kept
  | _ => false

section Effects

variable {Pid : Type} {conf : WorkerConf} {p q : Pid} {i : WorkerInput} {w w' v : Worker}
  {shm shm' : SharedPeer Pid}

/-- What an access of a worker does to the mutex and to the owner. -/
inductive Effect (p : Pid) (i : WorkerInput) (w w' : Worker) (shm shm' : SharedPeer Pid) :
    Prop where
  | quiet (hmutex : shm'.mutex = shm.mutex) (howner : shm'.owner = shm.owner)
      (hholds : w'.phase.holdsMutex = w.phase.holdsMutex)
      (hcheck : w'.phase.inCheck = true → w.phase.inCheck = true ∨ shm.owner = some p)
      (hclaim : w'.phase.isClaiming = true → w.phase.isClaiming = true ∨ shm.owner = none)
  | lock (hfree : shm.mutex = none) (hmutex : shm'.mutex = some p) (howner : shm'.owner = shm.owner)
      (hholds : w'.phase.holdsMutex = true) (hcheck : w'.phase.inCheck = false)
      (hclaim : w'.phase.isClaiming = false)
  | unlock (hheld : w.phase.holdsMutex = true) (hmutex : shm'.mutex = none)
      (howner : shm'.owner = shm.owner) (hholds : w'.phase.holdsMutex = false)
      (hcheck : w'.phase.inCheck = false) (hclaim : w'.phase.isClaiming = false)
  | take (hheld : w.phase.holdsMutex = true) (hmutex : shm'.mutex = shm.mutex)
      (howner : shm'.owner = some p) (hholds : w'.phase.holdsMutex = true)
      (hcheck : w'.phase.inCheck = false) (hclaim : w'.phase.isClaiming = false)
      (hreason : w.phase.isClaiming = true ∨ w.seizes i = true)
  | release (hmutex : shm'.mutex = shm.mutex) (howner : shm'.owner = none)
      (hheld : w.phase.holdsMutex = false) (hholds : w'.phase.holdsMutex = false)
      (hcheck : w'.phase.inCheck = false)
      (hreason : w.phase.inCheck = true ∨ w.seizes i = true)

theorem Effect.refl : Effect p i w w shm shm := .quiet rfl rfl rfl .inl .inl

/-- An access that changes neither the mutex nor the owner, nor whether the worker has the mutex,
and after which the worker is in a check only if it was. -/
theorem Effect.of_same (hmutex : shm'.mutex = shm.mutex) (howner : shm'.owner = shm.owner)
    (hholds : w'.phase.holdsMutex = w.phase.holdsMutex)
    (hcheck : (!w'.phase.inCheck || w.phase.inCheck) = true)
    (hclaim : w'.phase.isClaiming = false) : Effect p i w w' shm shm' := by
  refine .quiet hmutex howner hholds (fun h => .inl ?_) fun h => ?_
  · simpa [h] using hcheck
  · simp [h] at hclaim

/-- What the shared memory says of a worker: whether it has the mutex, that it owns the peer while
it performs a check, and that nobody does while it is about to claim it. -/
structure Named (p : Pid) (w : Worker) (shm : SharedPeer Pid) : Prop where
  mutex : w.phase.holdsMutex = true ↔ shm.mutex = some p
  owner : w.phase.inCheck = true → shm.owner = some p
  claiming : w.phase.isClaiming = true → shm.owner = none

/-- A worker keeps its own assertion. -/
theorem Named.own (h : Named p w shm) (heffect : Effect p i w w' shm shm') : Named p w' shm' := by
  cases heffect with
  | quiet hmutex howner hholds hcheck hclaim =>
    refine ⟨by rw [hholds, hmutex]; exact h.mutex, fun hin => ?_, fun hin => ?_⟩
    · rw [howner]
      exact (hcheck hin).elim h.owner id
    · rw [howner]
      exact (hclaim hin).elim h.claiming id
  | lock hfree hmutex howner hholds hcheck hclaim =>
    exact ⟨by simp [hholds, hmutex], by simp [hcheck], by simp [hclaim]⟩
  | unlock hheld hmutex howner hholds hcheck hclaim =>
    exact ⟨by simp [hholds, hmutex], by simp [hcheck], by simp [hclaim]⟩
  | take hheld hmutex howner hholds hcheck hclaim hreason =>
    exact ⟨by rw [hholds, hmutex, ← h.mutex, hheld], fun _ => howner, by simp [hclaim]⟩
  | release hmutex howner hheld hholds hcheck hreason =>
    exact ⟨by rw [hholds, hmutex, ← h.mutex, hheld], by simp [hcheck], fun _ => howner⟩

/-- A worker that is not in a check when the peer is seized keeps its assertion under the accesses
of another one. -/
theorem Named.other (hne : q ≠ p) (hq : Named q v shm) (hp : Named p w shm)
    (heffect : Effect p i w w' shm shm') (hseizes : w.seizes i = true → v.phase.inCheck = false) :
    Named q v shm' := by
  have hpq : some p ≠ some q := fun h => hne (Option.some.inj h).symm
  have hnotHeld : shm.mutex = some p → v.phase.holdsMutex = false := by
    intro hmutex
    rw [Bool.eq_false_iff, ne_eq, hq.mutex, hmutex]
    exact hpq
  have hnotClaiming : v.phase.holdsMutex = false → v.phase.isClaiming = false := by
    cases v.phase with
    | claiming => exact fun h => Bool.noConfusion h
    | _ => exact fun _ => rfl
  cases heffect with
  | quiet hmutex howner hholds hcheck hclaim =>
    exact ⟨by rw [hmutex]; exact hq.mutex, by rw [howner]; exact hq.owner,
      by rw [howner]; exact hq.claiming⟩
  | lock hfree hmutex howner hholds hcheck hclaim =>
    have hnot : v.phase.holdsMutex = false := by
      rw [Bool.eq_false_iff, ne_eq, hq.mutex, hfree]
      simp
    exact ⟨by simp [hnot, hmutex, hpq], by rw [howner]; exact hq.owner,
      by rw [howner]; exact hq.claiming⟩
  | unlock hheld hmutex howner hholds hcheck hclaim =>
    have hnot := hnotHeld (hp.mutex.mp hheld)
    exact ⟨by simp [hnot, hmutex], by rw [howner]; exact hq.owner,
      by rw [howner]; exact hq.claiming⟩
  | take hheld hmutex howner hholds hcheck hclaim hreason =>
    have hnot := hnotHeld (hp.mutex.mp hheld)
    have hout : v.phase.inCheck = false := by
      rcases hreason with hclaiming | hseized
      · rw [Bool.eq_false_iff]
        intro hin
        have howned := hq.owner hin
        rw [hp.claiming hclaiming] at howned
        cases howned
      · exact hseizes hseized
    exact ⟨by rw [hmutex]; exact hq.mutex, by simp [hout], by simp [hnotClaiming hnot]⟩
  | release hmutex howner hheld hholds hcheck hreason =>
    have hout : v.phase.inCheck = false := by
      rcases hreason with hin | hseized
      · rw [Bool.eq_false_iff]
        intro hin'
        exact hpq ((hp.owner hin).symm.trans (hq.owner hin'))
      · exact hseizes hseized
    exact ⟨by rw [hmutex]; exact hq.mutex, by simp [hout], fun _ => howner⟩

/-- A worker starts a check when it is the owner. -/
theorem Effect.owner_of_starts (heffect : Effect p i w w' shm shm')
    (hbefore : w.phase.inCheck = false) (hafter : w'.phase.inCheck = true) :
    shm.owner = some p := by
  cases heffect with
  | quiet hmutex howner hholds hcheck hclaim =>
    refine (hcheck hafter).resolve_left ?_
    simp [hbefore]
  | lock _ _ _ _ hcheck => simp [hcheck] at hafter
  | unlock _ _ _ _ hcheck => simp [hcheck] at hafter
  | take _ _ _ _ hcheck => simp [hcheck] at hafter
  | release _ _ _ _ hcheck => simp [hcheck] at hafter

theorem effect_advanceUpdate (result : Bool) (now : Msec) (cleans : Bool) (point : UpdatePoint)
    (kept : Bool) :
    let r := shm.advanceUpdate conf result now cleans point
    Effect p i ⟨.updating result now cleans point, kept⟩ ⟨r.1, kept⟩ shm r.2 := by
  cases point with
  | stamp => cases cleans <;> exact .of_same rfl rfl rfl rfl rfl
  | load | store | clear | readDown | readCount | flip => exact .of_same rfl rfl rfl rfl rfl

variable [DecidableEq Pid]

theorem effect_advance (phase : Phase) (kept : Bool) :
    let r := shm.advance conf p phase
    Effect p .access ⟨phase, kept⟩ ⟨r.1, kept⟩ shm r.2 := by
  cases phase with
  | idle | checking | exited => exact .refl
  | entered | stamping => exact .of_same rfl rfl rfl rfl rfl
  | sampled now interval =>
    cases hmutex : shm.mutex with
    | none =>
      simp only [SharedPeer.advance, hmutex]
      exact .lock hmutex rfl rfl rfl rfl rfl
    | some holder =>
      simp only [SharedPeer.advance, hmutex]
      exact .of_same rfl rfl rfl rfl rfl
  | locked now interval =>
    simp only [SharedPeer.advance]
    split
    · exact .of_same rfl rfl rfl rfl rfl
    · split
      · rename_i hfree
        exact .quiet rfl rfl rfl .inl fun _ => .inr hfree.2
      · split <;> exact .of_same rfl rfl rfl rfl rfl
  | claiming => exact .take rfl rfl rfl rfl rfl rfl (.inl rfl)
  | takingOver now => exact .take rfl rfl rfl rfl rfl rfl (.inr rfl)
  | unlocking returns => cases returns <;> exact .unlock rfl rfl rfl rfl rfl rfl
  | confirming =>
    simp only [SharedPeer.advance]
    split
    · rename_i howner
      exact .quiet rfl rfl rfl (fun _ => .inr howner) .inl
    · exact .of_same rfl rfl rfl rfl rfl
  | updating result now cleans point => exact effect_advanceUpdate result now cleans point kept
  | releasing => exact .release rfl rfl rfl rfl rfl (.inl rfl)

/-- Every access has one of the effects. -/
theorem effect_workerAccess (conf : WorkerConf) (p : Pid) (i : WorkerInput) (w : Worker)
    (shm : SharedPeer Pid) :
    Effect p i w (workerAccess conf p i w shm).1 shm (workerAccess conf p i w shm).2 := by
  obtain ⟨phase, kept⟩ := w
  cases i with
  | begin now =>
    cases phase with
    | idle =>
      simp only [workerAccess]
      split
      · exact .refl
      · exact .of_same rfl rfl rfl rfl rfl
    | _ => exact .refl
  | access => exact effect_advance phase kept
  | finish result now cleans keeps =>
    cases phase with
    | checking => exact .of_same rfl rfl rfl rfl rfl
    | _ => exact .refl
  | discard =>
    cases phase with
    | idle =>
      cases kept with
      | true => exact .release rfl rfl rfl rfl rfl (.inr rfl)
      | false => exact .refl
    | _ => exact .refl
  | exit =>
    cases phase with
    | idle | confirming | checking => exact .of_same rfl rfl rfl rfl rfl
    | _ => exact .refl

/-- A worker that seizes the peer leaves nobody else as its owner. -/
theorem owner_of_seizes (hseizes : w.seizes i = true) (hne : q ≠ p) :
    (workerAccess conf p i w shm).2.owner ≠ some q := by
  obtain ⟨phase, kept⟩ := w
  cases i with
  | access =>
    cases phase with
    | takingOver now => exact fun h => hne (Option.some.inj h).symm
    | _ => cases hseizes
  | discard =>
    obtain ⟨rfl, rfl⟩ : phase = .idle ∧ kept = true := by simpa [Worker.seizes] using hseizes
    exact (Option.some_ne_none q).symm
  | _ => cases hseizes

end Effects

section Runs

variable {Pid : Type} {conf : WorkerConf} {s : CheckSystem Pid} {ops : List (Pid × WorkerInput)}

namespace CheckSystem

/-- No handler of the peer is running and no check is in progress. -/
structure Quiet (s : CheckSystem Pid) : Prop where
  idle : ∀ p, (s.locals p).phase = .idle
  free : s.memory.mutex = none

theorem fresh_quiet (counts : PeerShm) (generation : ℕ) :
    (fresh counts generation : CheckSystem Pid).Quiet := ⟨fun _ => rfl, rfl⟩

/-- The owner is the worker that performs a check. -/
def Owned (s : CheckSystem Pid) : Prop :=
  ∀ p, (s.locals p).phase.inCheck = true → s.memory.owner = some p

/-- At most one worker performs a check. -/
def Exclusive (s : CheckSystem Pid) : Prop :=
  ∀ p q, (s.locals p).phase.inCheck = true → (s.locals q).phase.inCheck = true → p = q

/-- The access does not seize the peer while another worker checks it. -/
def Undisturbed (s : CheckSystem Pid) (op : Pid × WorkerInput) : Prop :=
  (s.locals op.1).seizes op.2 = true → ∀ q, q ≠ op.1 → (s.locals q).phase.inCheck = false

instance [Fintype Pid] [DecidableEq Pid] (s : CheckSystem Pid) (op : Pid × WorkerInput) :
    Decidable (s.Undisturbed op) :=
  inferInstanceAs (Decidable (_ = true → ∀ q, q ≠ op.1 → _ = false))

theorem Owned.exclusive (h : s.Owned) : s.Exclusive := by
  intro p q hp hq
  exact Option.some.inj ((h p hp).symm.trans (h q hq))

theorem Quiet.holds_named (h : s.Quiet) : s.Holds Named := by
  intro p
  refine ⟨?_, ?_, ?_⟩
  · rw [h.idle p, h.free]
    exact ⟨fun hidle => Bool.noConfusion hidle,
      fun hsome => absurd hsome.symm (Option.some_ne_none p)⟩
  · rw [h.idle p]
    exact fun hidle => Bool.noConfusion hidle
  · rw [h.idle p]
    exact fun hidle => Bool.noConfusion hidle

variable [DecidableEq Pid]

theorem holds_named_step (op : Pid × WorkerInput) (h : s.Holds Named) (hop : s.Undisturbed op) :
    (CheckSystem.step conf s op).Holds Named := by
  obtain ⟨p, i⟩ := op
  have heffect := effect_workerAccess conf p i (s.locals p) s.memory
  exact System.holds_step ((h p).own heffect)
    fun q hne => (h q).other hne (h p) heffect fun hseizes => hop hseizes q hne

/-- An access that seizes the peer during the check of another worker is seen at once. -/
theorem undisturbed_of_owned_step (op : Pid × WorkerInput)
    (hnext : (CheckSystem.step conf s op).Owned) : s.Undisturbed op := by
  obtain ⟨p, i⟩ := op
  intro hseizes q hne
  rw [Bool.eq_false_iff]
  intro hin
  have howner := hnext q (by rw [System.step_locals_of_ne hne]; exact hin)
  exact owner_of_seizes hseizes hne howner

/-- Whatever the workers do, and in whatever order their accesses interleave, the owner is the
worker that performs a check as long as no worker seizes the peer during the check of another one,
and no longer. In that case at most one worker performs a check at any time. -/
theorem owned_throughout_iff (hquiet : s.Quiet) :
    (Throughout (CheckSystem.step conf) Owned s ops ↔
        Along (CheckSystem.step conf) Undisturbed s ops) ∧
      (Along (CheckSystem.step conf) Undisturbed s ops →
        Throughout (CheckSystem.step conf) Exclusive s ops) := by
  have hstep : ∀ (t : CheckSystem Pid) op, t.Holds Named → t.Undisturbed op →
      (CheckSystem.step conf t op).Holds Named := fun t op => holds_named_step op
  have howned : ∀ t : CheckSystem Pid, t.Holds Named → t.Owned := fun t h p => (h p).owner
  constructor
  · exact throughout_iff_along hstep howned (fun t op _ => undisturbed_of_owned_step op)
      hquiet.holds_named
  · exact throughout_of_along hstep (fun t h => (howned t h).exclusive) hquiet.holds_named

/-- A peer that is checked every three seconds. -/
def webConf : WorkerConf where
  peer := { upstreamName := "web", name := "10.0.0.1:80", rise := 2, fall := 3 }
  checkInterval := 3000
  generation := 1

/-- Two workers in `begin_handler` at the same time; one of them gets the peer and reports a
success. -/
def twoWorkers : List (Bool × WorkerInput) :=
  [(false, .begin 3000), (true, .begin 3000), (false, .access), (true, .access), (false, .access),
    (true, .access), (false, .access), (false, .access), (false, .access), (true, .access),
    (true, .access), (false, .access), (true, .access), (true, .access),
    (false, .finish true 3100 true false), (false, .access), (false, .access), (false, .access),
    (false, .access), (false, .access), (false, .access)]

theorem exclusive_throughout_twoWorkers :
    Throughout (CheckSystem.step webConf) Exclusive (fresh {} 1) twoWorkers :=
  (owned_throughout_iff (fresh_quiet {} 1)).2 (by decide +kernel)

end CheckSystem

end Runs

section Updates

variable {Pid : Type} {conf : WorkerConf} {p q : Pid} {i : WorkerInput} {w v : Worker}
  {shm : SharedPeer Pid}

/-- The last part of `status_update`: the flag changes when the counter has reached the
threshold. -/
def WorkerConf.settle (conf : WorkerConf) (result : Bool) (counts : PeerShm) : PeerShm :=
  if counts.down = result ∧ conf.peer.threshold result ≤ counts.count result then
    { counts with down := !result }
  else counts

/-- From the store of the incremented counter on. -/
def WorkerConf.completeStore (conf : WorkerConf) (result : Bool) (counts : PeerShm) (loaded : ℕ) :
    PeerShm :=
  conf.settle result (if result then (counts.setCount true (loaded + 1)).setCount false 0
    else counts.setCount false (loaded + 1))

/-- The counters at the end of an update, if nobody else writes to them until then. -/
def WorkerConf.completeUpdate (conf : WorkerConf) (result : Bool) (counts : PeerShm) :
    UpdatePoint → PeerShm
  | .load => conf.completeStore result counts (counts.count result)
  | .store loaded => conf.completeStore result counts loaded
  | .clear =>
    if result then conf.settle true (counts.setCount false 0)
    else conf.completeStore false (counts.setCount true 0) (counts.count false)
  | .readDown => conf.settle result counts
  | .readCount =>
    if conf.peer.threshold result ≤ counts.count result then { counts with down := !result }
    else counts
  | .flip => { counts with down := !result }
  | .stamp => counts

/-- The counters once a worker has finished what it is doing to them. -/
def WorkerConf.complete (conf : WorkerConf) (phase : Phase) (counts : PeerShm) : PeerShm :=
  match phase with
  | .updating result _ _ point => conf.completeUpdate result counts point
  | _ => counts

/-- The counters after an update in one step. -/
def WorkerConf.record (conf : WorkerConf) (result : Bool) (counts : PeerShm) : PeerShm :=
  (({ conf.peer with shm := counts } : Peer).statusUpdate result).shm

/-- The result that a worker reports with its next access, if it begins an update. -/
def Worker.reports (w : Worker) : WorkerInput → Option Bool
  | .finish result _ _ _ => if w.phase = .checking then some result else none
  | _ => none

theorem reports_of_not_inCheck (h : w.phase.inCheck = false) : w.reports i = none := by
  cases i with
  | finish result now cleans keeps =>
    refine if_neg fun hphase => ?_
    rw [hphase] at h
    cases h
  | _ => rfl

theorem isUpdating_of_not_inCheck {phase : Phase} (h : phase.inCheck = false) :
    phase.isUpdating = false := by
  cases phase with
  | updating => cases h
  | _ => rfl

theorem complete_of_not_updating {phase : Phase} (h : phase.isUpdating = false) (counts : PeerShm) :
    conf.complete phase counts = counts := by
  cases phase with
  | updating => cases h
  | _ => rfl

/-- One access of an update leads to the same counters in the end. -/
theorem complete_advanceUpdate (result : Bool) (now : Msec) (cleans : Bool) (point : UpdatePoint) :
    conf.complete (shm.advanceUpdate conf result now cleans point).1
        (shm.advanceUpdate conf result now cleans point).2.counts =
      conf.completeUpdate result shm.counts point := by
  cases point with
  | load | flip => rfl
  | store loaded => cases result <;> rfl
  | clear => cases result <;> rfl
  | readDown =>
    by_cases hdown : shm.counts.down = result
    · simp [SharedPeer.advanceUpdate, WorkerConf.complete, WorkerConf.completeUpdate,
        WorkerConf.settle, hdown]
    · simp [SharedPeer.advanceUpdate, WorkerConf.complete, WorkerConf.completeUpdate,
        WorkerConf.settle, hdown]
  | readCount =>
    by_cases hcount : conf.peer.threshold result ≤ shm.counts.count result
    · simp [SharedPeer.advanceUpdate, WorkerConf.complete, WorkerConf.completeUpdate, hcount]
    · simp [SharedPeer.advanceUpdate, WorkerConf.complete, WorkerConf.completeUpdate, hcount]
  | stamp => cases cleans <;> rfl

/-- The accesses of an update amount to `status_update` in one step. -/
theorem completeUpdate_first (result : Bool) (counts : PeerShm) :
    conf.completeUpdate result counts (.first result) = conf.record result counts := by
  cases result with
  | true =>
    simp only [UpdatePoint.first, if_true, WorkerConf.completeUpdate, WorkerConf.completeStore,
      WorkerConf.settle, WorkerConf.record, Peer.statusUpdate, PeerShm.setCount, PeerShm.count,
      Peer.threshold]
    by_cases hdown : counts.down = true ∧ conf.peer.rise ≤ counts.riseCount + 1
    · simp [hdown]
    · simp [hdown]
  | false =>
    simp only [UpdatePoint.first, WorkerConf.completeUpdate, WorkerConf.completeStore,
      WorkerConf.settle, WorkerConf.record, Peer.statusUpdate, PeerShm.setCount, PeerShm.count,
      Peer.threshold]
    by_cases hdown : counts.down = false ∧ conf.peer.fall ≤ counts.fallCount + 1
    · simp [hdown]
    · simp [hdown]

variable [DecidableEq Pid]

/-- An access leads to the same counters in the end, unless it begins an update. -/
theorem complete_workerAccess (conf : WorkerConf) (p : Pid) (i : WorkerInput) (w : Worker)
    (shm : SharedPeer Pid) :
    conf.complete (workerAccess conf p i w shm).1.phase (workerAccess conf p i w shm).2.counts =
      (w.reports i).elim (conf.complete w.phase shm.counts)
        fun result => conf.record result (conf.complete w.phase shm.counts) := by
  obtain ⟨phase, kept⟩ := w
  cases i with
  | begin now =>
    cases phase with
    | idle =>
      simp only [workerAccess]
      split <;> rfl
    | _ => rfl
  | access =>
    cases phase with
    | sampled now interval =>
      cases hmutex : shm.mutex <;> simp only [workerAccess, SharedPeer.advance, hmutex] <;> rfl
    | locked now interval =>
      simp only [workerAccess, SharedPeer.advance]
      split_ifs <;> rfl
    | unlocking returns => cases returns <;> rfl
    | confirming =>
      simp only [workerAccess, SharedPeer.advance]
      split_ifs <;> rfl
    | updating result now cleans point => exact complete_advanceUpdate result now cleans point
    | _ => rfl
  | finish result now cleans keeps =>
    cases phase with
    | checking => exact completeUpdate_first result shm.counts
    | _ => rfl
  | discard =>
    cases phase with
    | idle => cases kept <;> rfl
    | _ => rfl
  | exit => cases phase <;> rfl

/-- Only a worker in the middle of an update writes to the counters. -/
theorem counts_workerAccess (h : w.phase.isUpdating = false) :
    (workerAccess conf p i w shm).2.counts = shm.counts := by
  obtain ⟨phase, kept⟩ := w
  cases i with
  | begin now =>
    cases phase with
    | idle =>
      simp only [workerAccess]
      split <;> rfl
    | _ => rfl
  | access =>
    cases phase with
    | sampled now interval =>
      cases hmutex : shm.mutex <;> simp only [workerAccess, SharedPeer.advance, hmutex]
    | locked now interval =>
      simp only [workerAccess, SharedPeer.advance]
      split_ifs <;> rfl
    | updating => cases h
    | _ => rfl
  | discard =>
    cases phase with
    | idle => cases kept <;> rfl
    | _ => rfl
  | finish => cases phase <;> rfl
  | exit => cases phase <;> rfl

end Updates

namespace CheckSystem

variable {Pid : Type} {conf : WorkerConf} {s : CheckSystem Pid} {counts : PeerShm}

/-- The counters are the given ones, but for what the worker that performs a check still has to do
to them. -/
structure Settled (conf : WorkerConf) (s : CheckSystem Pid) (counts : PeerShm) : Prop where
  busy : ∀ p, (s.locals p).phase.inCheck = true →
    conf.complete (s.locals p).phase s.memory.counts = counts
  rest : (∀ p, (s.locals p).phase.inCheck = false) → s.memory.counts = counts

variable [DecidableEq Pid]

/-- The results that the workers report in a run, in the order in which their updates begin. -/
def reported (conf : WorkerConf) : CheckSystem Pid → List (Pid × WorkerInput) → List Bool
  | _, [] => []
  | s, op :: ops =>
    ((s.locals op.1).reports op.2).toList ++ reported conf (CheckSystem.step conf s op) ops

/-- An access by one worker; the update that it begins is the next one. -/
theorem Settled.step (h : Settled conf s counts) (hnamed : s.Holds Named) (p : Pid)
    (i : WorkerInput) :
    Settled conf (CheckSystem.step conf s (p, i))
      (((s.locals p).reports i).elim counts fun result => conf.record result counts) := by
  have heffect := effect_workerAccess conf p i (s.locals p) s.memory
  have hcomplete := complete_workerAccess conf p i (s.locals p) s.memory
  have hsame : ∀ q, q ≠ p → (CheckSystem.step conf s (p, i)).locals q = s.locals q :=
    fun q hne => System.step_locals_of_ne hne
  cases hin : (s.locals p).phase.inCheck with
  | true =>
    rw [h.busy p hin] at hcomplete
    refine ⟨fun q hq => ?_, fun hnone => ?_⟩
    · have hqp : q = p := by
        by_contra hne
        rw [hsame q hne] at hq
        exact hne (Option.some.inj (((hnamed q).owner hq).symm.trans ((hnamed p).owner hin)))
      subst hqp
      rw [System.step_locals_self, System.step_memory]
      exact hcomplete
    · have hp := hnone p
      rw [System.step_locals_self] at hp
      rwa [complete_of_not_updating (isUpdating_of_not_inCheck hp)] at hcomplete
  | false =>
    have hnot := isUpdating_of_not_inCheck hin
    have hcounts : (CheckSystem.step conf s (p, i)).memory.counts = s.memory.counts :=
      counts_workerAccess hnot
    rw [reports_of_not_inCheck hin]
    refine ⟨fun q hq => ?_, fun hnone => ?_⟩
    · rw [hcounts]
      by_cases hqp : q = p
      · -- the check that starts is the only one
        subst hqp
        have hrest : s.memory.counts = counts := by
          refine h.rest fun q' => ?_
          rw [Bool.eq_false_iff]
          intro hq'
          rw [System.step_locals_self] at hq
          have howner := heffect.owner_of_starts hin hq
          have hq'q := Option.some.inj (((hnamed q').owner hq').symm.trans howner)
          rw [hq'q, hin] at hq'
          cases hq'
        rw [reports_of_not_inCheck hin, complete_of_not_updating hnot, Option.elim_none]
          at hcomplete
        rw [System.step_locals_self, ← hcounts, ← hrest]
        exact hcomplete
      · rw [hsame q hqp] at hq ⊢
        exact h.busy q hq
    · rw [hcounts]
      refine h.rest fun q => ?_
      by_cases hqp : q = p
      · rw [hqp, hin]
      · rw [← hsame q hqp]
        exact hnone q

/-- The counters after a run are those of the reported results, recorded one after the other. -/
theorem settled_run {ops : List (Pid × WorkerInput)} (hnamed : s.Holds Named)
    (h : Settled conf s counts) (halong : Along (CheckSystem.step conf) Undisturbed s ops) :
    Settled conf (ops.foldl (CheckSystem.step conf) s)
      (({ conf.peer with shm := counts } : Peer).after (reported conf s ops)).shm := by
  induction ops generalizing s counts with
  | nil => exact h
  | cons op ops ih =>
    obtain ⟨p, i⟩ := op
    have hnext := ih (holds_named_step (p, i) hnamed halong.1) (h.step hnamed p i) halong.2
    have hrecord : ∀ result, ({ conf.peer with shm := conf.record result counts } : Peer) =
        ({ conf.peer with shm := counts } : Peer).statusUpdate result := by
      intro result
      cases result <;> rfl
    rw [reported, Peer.after_append]
    cases hreports : (s.locals p).reports i with
    | none => simpa [hreports] using hnext
    | some result =>
      rw [hreports, Option.elim_some, hrecord] at hnext
      simpa [Peer.after] using hnext

/-- No update is lost, although the counters are read and written one access at a time: when no
worker seizes the peer during the check of another one, and no update is in progress at the end of
the run, the counters are those that one update after the other gives. -/
theorem counts_eq_after_reported {ops : List (Pid × WorkerInput)} (hquiet : s.Quiet)
    (halong : Along (CheckSystem.step conf) Undisturbed s ops)
    (hdone : ∀ p, ((ops.foldl (CheckSystem.step conf) s).locals p).phase.isUpdating = false) :
    (ops.foldl (CheckSystem.step conf) s).memory.counts =
      (({ conf.peer with shm := s.memory.counts } : Peer).after (reported conf s ops)).shm := by
  have hstart : Settled conf s s.memory.counts :=
    ⟨fun p hin => by simp [hquiet.idle p, Phase.inCheck] at hin, fun _ => rfl⟩
  have hend := settled_run hquiet.holds_named hstart halong
  by_cases hbusy : ∃ p, ((ops.foldl (CheckSystem.step conf) s).locals p).phase.inCheck = true
  · obtain ⟨p, hp⟩ := hbusy
    have hcomplete := hend.busy p hp
    rwa [complete_of_not_updating (hdone p)] at hcomplete
  · exact hend.rest fun p => Bool.eq_false_iff.mpr fun hp => hbusy ⟨p, hp⟩

theorem counts_twoWorkers :
    (twoWorkers.foldl (CheckSystem.step webConf) (fresh {} 1)).memory.counts =
      { riseCount := 1, fallCount := 0, down := false } :=
  counts_eq_after_reported (fresh_quiet {} 1) (by decide +kernel) (by decide +kernel)

end CheckSystem

end HealthCheck.Nginx
