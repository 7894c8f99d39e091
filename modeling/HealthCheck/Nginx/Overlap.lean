import HealthCheck.Nginx.Exclusion

/-!
# Checks that overlap

A worker that claims a peer does not touch the time of the last access, which an update sets. So
until the first check is over, the peer of a new zone looks as if it had been abandoned, and the
next worker whose timer fires takes it over. Two updates at a time can count as one.
-/

namespace HealthCheck.Nginx

open Interleaving

section Begin

variable {Pid : Type} [DecidableEq Pid] {conf : WorkerConf}

/-- The inputs of a worker whose check timer fires and that runs `begin_handler` to its end. -/
def beginInputs (now : Msec) : List WorkerInput := .begin now :: List.replicate 7 .access

/-- `begin_handler` without an interruption: the state in which it leaves the worker, and the shared
memory. -/
def SharedPeer.beginHandler (conf : WorkerConf) (pid : Pid) (now : Msec) (shm : SharedPeer Pid) :
    Phase × SharedPeer Pid :=
  if shm.owner = some pid ∨ shm.generation ≠ conf.generation then (.idle, shm)
  else if conf.checkInterval ≤ now - shm.accessTime ∧ shm.owner = none then
    (.checking, { shm with owner := some pid })
  else if conf.checkInterval <<< 4 ≤ now - shm.accessTime then
    (.checking, { shm with owner := some pid, accessTime := now })
  else (.idle, shm)

/-- The accesses of an uninterrupted `begin_handler`. -/
theorem alone_beginInputs {pid : Pid} {now : Msec} {shm : SharedPeer Pid} {kept : Bool}
    (hfree : shm.mutex = none) :
    System.alone (workerAccess conf) pid (⟨.idle, kept⟩, shm) (beginInputs now) =
      (⟨(shm.beginHandler conf pid now).1, kept⟩, (shm.beginHandler conf pid now).2) := by
  obtain ⟨mutex, owner, accessTime, counts, generation⟩ := shm
  subst hfree
  simp only [System.alone, beginInputs, List.replicate, List.foldl_cons, List.foldl_nil,
    SharedPeer.beginHandler]
  by_cases hmine : owner = some pid
  · simp [workerAccess, SharedPeer.advance, hmine]
  · by_cases hgen : generation = conf.generation
    · by_cases hclaim : conf.checkInterval ≤ now - accessTime ∧ owner = none
      · simp [workerAccess, SharedPeer.advance, hgen, hclaim]
      · by_cases htake : conf.checkInterval <<< 4 ≤ now - accessTime
        · simp [workerAccess, SharedPeer.advance, hmine, hgen, hclaim, htake]
        · simp [workerAccess, SharedPeer.advance, hmine, hgen, hclaim, htake]
    · simp [workerAccess, SharedPeer.advance, hmine, hgen]

/-- The inputs of a worker whose check ends and that runs `status_update` and, if it does so,
`clean_event`. -/
def finishInputs (result : Bool) (now : Msec) (cleans keeps : Bool) : List WorkerInput :=
  .finish result now cleans keeps :: List.replicate 8 .access

/-- The accesses of an uninterrupted end of a check. -/
theorem alone_finishInputs {pid : Pid} {now : Msec} {shm : SharedPeer Pid}
    {kept result cleans keeps : Bool} :
    System.alone (workerAccess conf) pid (⟨.checking, kept⟩, shm)
        (finishInputs result now cleans keeps) =
      (⟨.idle, cleans && keeps⟩,
        { shm with
          owner := if cleans then none else shm.owner
          accessTime := now
          counts := conf.record result shm.counts }) := by
  rw [← completeUpdate_first]
  have hclear : ∀ n : ℕ, (shm.counts.setCount true n).count false = shm.counts.count false :=
    fun n => shm.counts.count_setCount_not false n
  have hstore : ∀ n m : ℕ, ((shm.counts.setCount true n).setCount false m).count true = n :=
    fun n m => by rw [← Bool.not_true, PeerShm.count_setCount_not, PeerShm.count_setCount_self]
  -- the branches for the flag and for the threshold
  by_cases hdown : shm.counts.down = result <;>
    by_cases hcount : conf.peer.threshold result ≤ shm.counts.count result + 1 <;>
    cases result <;> cases cleans <;>
    simp [System.alone, finishInputs, List.replicate, workerAccess, SharedPeer.advance,
      SharedPeer.advanceUpdate, UpdatePoint.first, WorkerConf.completeUpdate,
      WorkerConf.completeStore, WorkerConf.settle, hclear, hstore, hdown, hcount]

end Begin

namespace CheckSystem

variable {Pid : Type} [DecidableEq Pid] {conf : WorkerConf} {s : CheckSystem Pid} {p q : Pid}
  {now : Msec}

/-- A worker runs without an interruption. -/
def runAlone (conf : WorkerConf) (s : CheckSystem Pid) (p : Pid) (is : List WorkerInput) :
    CheckSystem Pid :=
  (is.map fun i => (p, i)).foldl (CheckSystem.step conf) s

theorem runAlone_begin {kept : Bool} (hidle : s.locals q = ⟨.idle, kept⟩)
    (hfree : s.memory.mutex = none) :
    s.runAlone conf q (beginInputs now) =
      { locals := Function.update s.locals q ⟨(s.memory.beginHandler conf q now).1, kept⟩
        memory := (s.memory.beginHandler conf q now).2 } := by
  rw [runAlone, System.foldl_alone, hidle, alone_beginInputs hfree]

/-- The begin handler of an idle worker during the check of another one: there are two checks at a
time afterwards if and only if the last access, by the clocks of the workers, is sixteen intervals
ago or more. How long the check in progress has taken does not matter. -/
theorem exclusive_runAlone_begin_iff (howned : s.Owned) (hcheck : (s.locals p).phase.inCheck = true)
    (hidle : (s.locals q).phase = .idle) (hfree : s.memory.mutex = none)
    (hgeneration : s.memory.generation = conf.generation) :
    (s.runAlone conf q (beginInputs now)).Exclusive ↔
      now - s.memory.accessTime < conf.checkInterval <<< 4 := by
  have howner : s.memory.owner = some p := howned p hcheck
  have hne : p ≠ q := by
    rintro rfl
    rw [hidle] at hcheck
    cases hcheck
  cases hq : s.locals q with
  | mk phase kept =>
    obtain rfl : phase = .idle := by rw [hq] at hidle; exact hidle
    have hbegin : (s.memory.beginHandler conf q now).1 =
        if conf.checkInterval <<< 4 ≤ now - s.memory.accessTime then .checking else .idle := by
      simp only [SharedPeer.beginHandler, howner, hgeneration]
      split_ifs <;> simp_all
    rw [runAlone_begin hq hfree, hbegin, ← UInt64.not_le]
    constructor
    · intro hexclusive hle
      refine hne (hexclusive p q ?_ ?_)
      · simpa [Function.update_of_ne hne] using hcheck
      · simp [hle, Phase.inCheck]
    · intro hlt r r'
      rw [if_neg hlt, ← hq, Function.update_eq_self]
      exact howned.exclusive r r'

/-- The worker `false` checks the peer, which has last been accessed a second after the start. -/
def oneChecking : CheckSystem Bool where
  locals p := ⟨if p then .idle else .checking, false⟩
  memory :=
    { mutex := none, owner := some false, accessTime := 1000, counts := {}, generation := 1 }

theorem exclusive_oneChecking_begin :
    (oneChecking.runAlone webConf true (beginInputs 48999)).Exclusive :=
  (exclusive_runAlone_begin_iff
    (fun p hp => by cases p with | false => rfl | true => cases hp) (p := false)
    rfl rfl rfl rfl).mpr
    (by decide)

/-- A new zone after the timers of two workers have fired, one after the other. -/
def bothBegun (conf : WorkerConf) (counts : PeerShm) (p q : Pid) (now later : Msec) :
    CheckSystem Pid :=
  ((fresh counts conf.generation).runAlone conf p (beginInputs now)).runAlone conf q
    (beginInputs later)

/-- Two workers whose timers fire before the first check is over. -/
theorem bothBegun_eq (counts : PeerShm) (hne : q ≠ p) {later : Msec}
    (hclaim : conf.checkInterval ≤ now) (htake : conf.checkInterval <<< 4 ≤ later) :
    bothBegun conf counts p q now later =
      { locals := Function.update (Function.update (fun _ => ⟨.idle, false⟩) p ⟨.checking, false⟩) q
          ⟨.checking, false⟩
        memory :=
          { mutex := none, owner := some q, accessTime := later, counts := counts
            generation := conf.generation } } := by
  have hpq : ¬ p = q := fun h => hne h.symm
  have hfirst : (fresh counts conf.generation).runAlone conf p (beginInputs now) =
      { locals := Function.update (fun _ => ⟨.idle, false⟩) p ⟨.checking, false⟩
        memory :=
          { mutex := none, owner := some p, accessTime := 0, counts := counts
            generation := conf.generation } } := by
    rw [runAlone_begin rfl rfl]
    simp [fresh, SharedPeer.beginHandler, hclaim]
  have hidle : Function.update (fun _ => (⟨.idle, false⟩ : Worker)) p ⟨.checking, false⟩ q =
      ⟨.idle, false⟩ := Function.update_of_ne hne ..
  rw [bothBegun, hfirst, runAlone_begin hidle rfl]
  simp [SharedPeer.beginHandler, htake, hpq]

omit [DecidableEq Pid] in
/-- An access of an update changes nothing when it is repeated. -/
theorem advanceUpdate_twice (conf : WorkerConf) (shm : SharedPeer Pid) (result : Bool) (now : Msec)
    (cleans : Bool) (point : UpdatePoint) :
    (shm.advanceUpdate conf result now cleans point).2.advanceUpdate conf result now cleans point =
      shm.advanceUpdate conf result now cleans point := by
  cases point with
  | store loaded => cases result <;> rfl
  | clear => cases result <;> rfl
  | load | readDown | readCount | flip | stamp => rfl

omit [DecidableEq Pid] in
theorem inCheck_advanceUpdate (shm : SharedPeer Pid) (result : Bool) (cleans : Bool)
    (point : UpdatePoint) :
    (shm.advanceUpdate conf result now cleans point).1.inCheck = true ∨
      (shm.advanceUpdate conf result now cleans point).1 = .idle := by
  cases point with
  | stamp =>
    cases cleans with
    | true => exact .inl rfl
    | false => exact .inr rfl
  | load | store | clear | readDown | readCount | flip => exact .inl rfl

/-- The end of a check changes nothing when it is repeated access by access. -/
theorem repeat_finish {result : Bool} :
    ∀ i ∈ finishInputs result now true false, ∀ (w : Worker) (shm : SharedPeer Pid),
      w.phase.inCheck = true ∨ w.phase = .idle →
      ((workerAccess conf p i w shm).1.phase.inCheck = true ∨
          (workerAccess conf p i w shm).1.phase = .idle) ∧
        workerAccess conf q i w (workerAccess conf p i w shm).2 = workerAccess conf p i w shm := by
  intro i hi w shm hw
  obtain ⟨phase, kept⟩ := w
  obtain rfl | rfl : i = .finish result now true false ∨ i = .access := by
    simpa [finishInputs] using hi
  · cases phase with
    | checking => exact ⟨.inl rfl, rfl⟩
    | _ => exact ⟨hw, rfl⟩
  · cases phase with
    | idle | checking => exact ⟨hw, rfl⟩
    | releasing => exact ⟨.inr rfl, rfl⟩
    | updating result now cleans point =>
      have htwice := advanceUpdate_twice conf shm result now cleans point
      refine ⟨inCheck_advanceUpdate shm result cleans point, ?_⟩
      exact congrArg (fun r => (Worker.mk r.1 kept, r.2)) htwice
    | _ => simp [Phase.inCheck] at hw

/-- Two workers that end their checks in step. -/
def doubleFinish (p q : Pid) (now : Msec) (result : Bool) : List (Pid × WorkerInput) :=
  (finishInputs result now true false).flatMap fun i => [(p, i), (q, i)]

/-- Two workers that perform a check of the peer at the same time and come to the same result: their
updates can count as one. -/
theorem lockstep_finish (hne : q ≠ p) (hp : s.locals p = ⟨.checking, false⟩)
    (hq : s.locals q = ⟨.checking, false⟩) (result : Bool) :
    (doubleFinish p q now result).foldl (CheckSystem.step conf) s =
      { locals := Function.update (Function.update s.locals p ⟨.idle, false⟩) q ⟨.idle, false⟩
        memory :=
          { s.memory with owner := none, accessTime := now
                          counts := conf.record result s.memory.counts } } := by
  rw [doubleFinish, CheckSystem.step, System.foldl_lockstep hne repeat_finish s (by rw [hp, hq])
    (.inl (by rw [hp]; rfl)), hp, alone_finishInputs]
  rfl

/-- The results that are reported in a run, with the workers that report them. -/
def reportedBy (conf : WorkerConf) :
    CheckSystem Pid → List (Pid × WorkerInput) → List (Pid × Bool)
  | _, [] => []
  | s, op :: ops =>
    ((s.locals op.1).reports op.2).toList.map (op.1, ·) ++
      reportedBy conf (CheckSystem.step conf s op) ops

theorem reported_eq_map (ops : List (Pid × WorkerInput)) :
    reported conf s ops = (reportedBy conf s ops).map Prod.snd := by
  induction ops generalizing s with
  | nil => rfl
  | cons op ops ih =>
    rw [reported, reportedBy, ih, List.map_append, List.map_map]
    exact congrArg (· ++ _) (List.map_id _).symm

/-- Nothing is reported by inputs other than the end of a check. -/
theorem reportedBy_eq_nil {ops : List (Pid × WorkerInput)}
    (hnone : ∀ op ∈ ops, ∀ w : Worker, w.reports op.2 = none) : reportedBy conf s ops = [] := by
  induction ops generalizing s with
  | nil => rfl
  | cons op ops ih =>
    obtain ⟨hop, hops⟩ := List.forall_mem_cons.mp hnone
    rw [reportedBy, hop, ih hops]
    rfl

theorem reportedBy_doubleFinish (hne : q ≠ p) (hp : s.locals p = ⟨.checking, false⟩)
    (hq : s.locals q = ⟨.checking, false⟩) (result : Bool) :
    reportedBy conf s (doubleFinish p q now result) = [(p, result), (q, result)] := by
  have hrest : ∀ t : CheckSystem Pid, reportedBy conf t
      ((List.replicate 8 WorkerInput.access).flatMap fun i => [(p, i), (q, i)]) = [] := by
    refine fun t => reportedBy_eq_nil fun op hop w => ?_
    obtain ⟨i, hi, hmem⟩ := List.mem_flatMap.mp hop
    obtain rfl : i = .access := List.eq_of_mem_replicate hi
    obtain rfl | rfl : op = (p, .access) ∨ op = (q, .access) := by simpa using hmem
    · rfl
    · rfl
  rw [doubleFinish, finishInputs, List.flatMap_cons, List.cons_append, List.cons_append,
    List.nil_append, reportedBy, reportedBy, hrest, System.step_locals_of_ne hne, hp, hq]
  rfl

omit [DecidableEq Pid] in
/-- A second report of the same result is seen in its counter. -/
theorem after_two_ne_record (result : Bool) (counts : PeerShm) :
    (({ conf.peer with shm := counts } : Peer).after [result, result]).shm ≠
      conf.record result counts := by
  intro h
  have hcount := congrArg (fun shm => shm.count result) h
  cases result <;> simp [Peer.after, Peer.statusUpdate, WorkerConf.record, PeerShm.count] at hcount

/-- In a new zone, whatever the configuration: when the timers of two workers fire before the first
check is over, both of them check the peer. In one of the runs that follow each of them reports the
same result and releases the peer, and the counters are those after a single report, not after the
two. -/
theorem fresh_loses_update (conf : WorkerConf) (counts : PeerShm) (result : Bool) (hne : q ≠ p)
    {later : Msec} (hclaim : conf.checkInterval ≤ now) (htake : conf.checkInterval <<< 4 ≤ later) :
    (((bothBegun conf counts p q now later).locals p).phase = .checking ∧
        ((bothBegun conf counts p q now later).locals q).phase = .checking) ∧
      ∃ ops : List (Pid × WorkerInput),
        reportedBy conf (bothBegun conf counts p q now later) ops = [(p, result), (q, result)] ∧
        (ops.foldl (CheckSystem.step conf) (bothBegun conf counts p q now later)).Quiet ∧
        (ops.foldl (CheckSystem.step conf)
          (bothBegun conf counts p q now later)).memory.owner = none ∧
        (ops.foldl (CheckSystem.step conf)
          (bothBegun conf counts p q now later)).memory.counts = conf.record result counts ∧
        (ops.foldl (CheckSystem.step conf)
            (bothBegun conf counts p q now later)).memory.counts ≠
          (({ conf.peer with shm := counts } : Peer).after
            (reported conf (bothBegun conf counts p q now later) ops)).shm := by
  have hbegun := bothBegun_eq counts hne hclaim htake
  have hp : (bothBegun conf counts p q now later).locals p = ⟨.checking, false⟩ := by
    simp [hbegun, hne.symm]
  have hq : (bothBegun conf counts p q now later).locals q = ⟨.checking, false⟩ := by
    simp [hbegun]
  have hreported := @reportedBy_doubleFinish _ _ conf _ p q later hne hp hq result
  have hend := @lockstep_finish _ _ conf _ p q later hne hp hq result
  have hcounts : (bothBegun conf counts p q now later).memory.counts = counts := by rw [hbegun]
  refine ⟨⟨by rw [hp], by rw [hq]⟩, doubleFinish p q later result, hreported, ?_, by rw [hend],
    ?_, ?_⟩
  · rw [hend]
    refine ⟨fun r => ?_, ?_⟩
    · by_cases hrq : r = q
      · simp [hrq]
      · by_cases hrp : r = p
        · simp [hrp, hne.symm]
        · simp [hbegun, hrq, hrp]
    · rw [hbegun]
  · rw [hend, hcounts]
  · rw [hend, hcounts, reported_eq_map, hreported]
    exact (after_two_ne_record result counts).symm

theorem webConf_loses_update :
    (((bothBegun webConf {} false true 3000 48000).locals false).phase = .checking ∧
        ((bothBegun webConf {} false true 3000 48000).locals true).phase = .checking) ∧
      ∃ ops : List (Bool × WorkerInput),
        reportedBy webConf (bothBegun webConf {} false true 3000 48000) ops =
          [(false, false), (true, false)] ∧
        (ops.foldl (CheckSystem.step webConf) (bothBegun webConf {} false true 3000 48000)).Quiet ∧
        (ops.foldl (CheckSystem.step webConf)
          (bothBegun webConf {} false true 3000 48000)).memory.owner = none ∧
        (ops.foldl (CheckSystem.step webConf)
          (bothBegun webConf {} false true 3000 48000)).memory.counts = webConf.record false {} ∧
        (ops.foldl (CheckSystem.step webConf)
            (bothBegun webConf {} false true 3000 48000)).memory.counts ≠
          (({ webConf.peer with shm := {} } : Peer).after
            (reported webConf (bothBegun webConf {} false true 3000 48000) ops)).shm :=
  fresh_loses_update webConf {} false (by decide) (by decide) (by decide)

end CheckSystem

end HealthCheck.Nginx
