import HealthCheck.Owners

/-!
# Several nodes

The nodes poll their own nginx and reconcile their own `Lbhc` object, but they all write
the same `Endpoints` objects, and leases move services from one node to another. An
address moves back to the ready side only through an up verdict of some node. When polls
leave the verdicts on other nodes' services alone and a node keeps a service as long as it
has an up verdict on it, a node moves back addresses of its own services only.
-/

namespace HealthCheck

open Api Api.Client

/-- The nodes and the shared `Endpoints` objects. -/
structure Fleet (ν : Type) where
  nodes : ν → Node
  store : EpStore

/-- Leases and leadership move, a node polls, or a node reconciles its `Lbhc` object, in
some order of its loops and with some fate of its requests. -/
inductive FleetOp (ν : Type) where
  | handover (owners : ν → Ownership)
  | poll (n : ν) (servers : ServersNgxList)
  | reconcile (n : ν) (ups downs : ∀ l, RangeOrder l) (faults : ReconcileFaults)

namespace Fleet

variable {ν : Type} [DecidableEq ν]

/-- One operation. -/
def step (crd : ν → Crd) (s : Fleet ν) : FleetOp ν → Fleet ν
  | .handover owners => { s with nodes := fun n => { s.nodes n with ownership := owners n } }
  | .poll n servers =>
    { s with nodes := Function.update s.nodes n ((s.nodes n).poll (crd n) servers) }
  | .reconcile n ups downs faults =>
    match (s.nodes n).server.object with
    | some lbhc =>
      let r := reconcileLbhc lbhc (ups _) (downs _) faults (s.nodes n).server s.store
      { nodes := Function.update s.nodes n { s.nodes n with server := r.1 }, store := r.2 }
    | none => s

omit [DecidableEq ν] in
/-- The controllers have just started. -/
def start (owners : ν → Ownership) (servers : ν → Server Lbhc) (store : EpStore) : Fleet ν where
  nodes n := { ownership := owners n, poller := {}, server := servers n }
  store := store

/-- A poll clears no down mark of a service that the node does not own. -/
def OwnerClears (crd : ν → Crd) (s : Fleet ν) : FleetOp ν → Prop
  | .poll n servers => ∀ svc ep, (s.nodes n).ownership.owns svc = false →
      (s.nodes n).verdict svc ep = some false →
      ((s.step crd (.poll n servers)).nodes n).verdict svc ep ≠ some true
  | _ => True

/-- A reconcile moves no address of a service that the node does not own to the ready side:
what was not ready stays not ready, and what is ready was ready. -/
def OwnerMoves (crd : ν → Crd) (s : Fleet ν) : FleetOp ν → Prop
  | .reconcile n ups downs faults => ∀ t : String × String × String,
      (s.nodes n).ownership.owns (virtualServiceFullValue t.1 t.2.1) = false →
      (s.store.Has .notReady t →
        (s.step crd (.reconcile n ups downs faults)).store.Has .notReady t) ∧
      ((s.step crd (.reconcile n ups downs faults)).store.Has .ready t → s.store.Has .ready t)
  | _ => True

omit [DecidableEq ν] in
/-- A poll leaves alone the down marks of the services that the node does not own. -/
def PollSafe (s : Fleet ν) : FleetOp ν → Prop
  | .poll n servers => ∀ svc ep, (s.nodes n).ownership.owns svc = false →
      (s.nodes n).verdict svc ep = some false → (s.nodes n).LeavesAlone servers svc ep
  | _ => True

omit [DecidableEq ν] in
/-- A node does not lose a service on which it has an up verdict. -/
def HandoverSafe (s : Fleet ν) : FleetOp ν → Prop
  | .handover owners => ∀ n svc ep, (s.nodes n).verdict svc ep = some true →
      (s.nodes n).ownership.owns svc = true → (owners n).owns svc = true
  | _ => True

/-- Every node's cache comes from its store. -/
def CachesSeen (s : Fleet ν) : Prop := ∀ n, (s.nodes n).CacheSeen

/-- Up verdicts are on services of the node. -/
def UpsOwned (s : Fleet ν) : Prop :=
  ∀ n svc ep, (s.nodes n).verdict svc ep = some true → (s.nodes n).ownership.owns svc = true

variable {crd : ν → Crd} {s : Fleet ν}

/-- What a reconcile does to the verdicts of the node. -/
theorem verdict_reconcile {lbhc : Lbhc} {node : Node} (hobj : node.server.object = some lbhc)
    (ups downs : RangeOrder lbhc.downEpList) (faults : ReconcileFaults) (store : EpStore)
    {svc ep : String}
    (hup : ({ node with server := (reconcileLbhc lbhc ups downs faults node.server store).1 } :
      Node).verdict svc ep = some true) : node.verdict svc ep = some true := by
  obtain ⟨stored, hstored, hcase⟩ := reconcileLbhc_object hobj ups downs faults store
  rw [Node.verdict_of_object hstored] at hup
  rw [Node.verdict_of_object hobj]
  rcases hcase with rfl | hlist
  · exact hup
  · rw [hlist] at hup
    exact absurd hup DownEpList.entry_deleteUp_ne_true

theorem step_reconcile {n : ν} {lbhc : Lbhc} (hobj : (s.nodes n).server.object = some lbhc)
    (ups downs : ∀ l, RangeOrder l) (faults : ReconcileFaults) :
    s.step crd (.reconcile n ups downs faults) =
      { nodes := Function.update s.nodes n { s.nodes n with
          server := (reconcileLbhc lbhc (ups _) (downs _) faults (s.nodes n).server s.store).1 }
        store := (reconcileLbhc lbhc (ups _) (downs _) faults (s.nodes n).server s.store).2 } := by
  simp [step, hobj]

theorem step_reconcile_absent {n : ν} (hobj : (s.nodes n).server.object = none)
    (ups downs : ∀ l, RangeOrder l) (faults : ReconcileFaults) :
    s.step crd (.reconcile n ups downs faults) = s := by
  simp [step, hobj]

/-- Every operation keeps the caches objects of their stores. -/
theorem cachesSeen_step (hseen : s.CachesSeen) (op : FleetOp ν) : (s.step crd op).CachesSeen := by
  intro m
  cases op with
  | handover owners => exact hseen m
  | poll n servers =>
    by_cases hm : m = n
    · subst hm
      simpa [step] using Node.cacheSeen_poll (crd m) servers (hseen m)
    · simpa [step, Function.update_of_ne hm] using hseen m
  | reconcile n ups downs faults =>
    cases hobj : (s.nodes n).server.object with
    | none =>
      rw [step_reconcile_absent hobj]
      exact hseen m
    | some lbhc =>
      rw [step_reconcile hobj]
      by_cases hm : m = n
      · subst hm
        intro hloop
        simp only [Function.update_self] at hloop ⊢
        obtain ⟨stored, hstored, -⟩ := reconcileLbhc_object hobj (ups _) (downs _) faults s.store
        have hcache := (hseen m hloop).2
        exact ⟨⟨stored, hstored⟩, seen_reconcileLbhc hcache _ _ _ _⟩
      · simpa [Function.update_of_ne hm] using hseen m

/-- Safe operations keep the up verdicts on services of their nodes. -/
theorem upsOwned_step {op : FleetOp ν} (hseen : s.CachesSeen) (hups : s.UpsOwned)
    (hpoll : s.PollSafe op) (hhandover : s.HandoverSafe op) : (s.step crd op).UpsOwned := by
  intro m svc ep hup
  cases op with
  | handover owners => exact hhandover m svc ep hup (hups m svc ep hup)
  | poll n servers =>
    by_cases hm : m = n
    · subst hm
      have hpolled : ((s.nodes m).poll (crd m) servers).verdict svc ep = some true := by
        simpa [step] using hup
      have howner : ((s.step crd (.poll m servers)).nodes m).ownership =
          (s.nodes m).ownership := by
        simp [step, Node.poll]
      rw [howner]
      cases hverdict : (s.nodes m).verdict svc ep with
      | none =>
        exact absurd hverdict (Node.verdict_ne_none_of_poll (crd m) servers (hseen m) hpolled)
      | some status =>
        cases status with
        | true => exact hups m svc ep hverdict
        | false =>
          by_contra howns
          have hother : (s.nodes m).ownership.owns svc = false := by simpa using howns
          have hcleared := (Node.clears_iff (crd m) servers (hseen m) hother hverdict).mp hpolled
          exact hcleared (hpoll svc ep hother hverdict)
    · simp only [step, Function.update_of_ne hm] at hup ⊢
      exact hups m svc ep hup
  | reconcile n ups downs faults =>
    cases hobj : (s.nodes n).server.object with
    | none =>
      rw [step_reconcile_absent hobj] at hup ⊢
      exact hups m svc ep hup
    | some lbhc =>
      rw [step_reconcile hobj] at hup ⊢
      by_cases hm : m = n
      · subst hm
        simp only [Function.update_self] at hup ⊢
        exact hups m svc ep (verdict_reconcile hobj _ _ _ _ hup)
      · simp only [Function.update_of_ne hm] at hup ⊢
        exact hups m svc ep hup

/-- A reconcile of a node without up verdicts on other nodes' services moves back addresses
of the node's own services only. -/
theorem ownerMoves_of_upsOwned (hups : s.UpsOwned) (op : FleetOp ν) : s.OwnerMoves crd op := by
  cases op with
  | handover owners => trivial
  | poll n servers => trivial
  | reconcile n ups downs faults =>
    intro t howns
    cases hobj : (s.nodes n).server.object with
    | none =>
      rw [step_reconcile_absent hobj]
      exact ⟨id, id⟩
    | some lbhc =>
      have hnot : ¬ Moved .ready faults.up (ups lbhc.downEpList).entries t := by
        rintro ⟨⟨svc, ep, status⟩, hmem, htarget, -⟩
        have hsvc : svc = virtualServiceFullValue t.1 t.2.1 := service_of_target htarget
        have hstatus : status = true := verdict_of_target htarget
        have hentry := (ups lbhc.downEpList).mem_entries.mp hmem
        have hverdict : (s.nodes n).verdict svc ep = some true := by
          rw [Node.verdict_of_object hobj, hentry, hstatus]
        have howned := hups n svc ep hverdict
        rw [hsvc, howns] at howned
        cases howned
      rw [step_reconcile hobj]
      dsimp only
      rw [reconcileLbhc_store, modifyEpBaseOnLbhc_notReady, modifyEpBaseOnLbhc_ready]
      refine ⟨fun hhas => .inl ⟨hhas, hnot⟩, ?_⟩
      rintro ⟨hready | ⟨-, hmoved⟩, -⟩
      · exact hready
      · exact absurd hmoved hnot

/-- With caches from the store, a poll clears only down marks of owned services exactly when
it leaves the other down marks alone. -/
theorem ownerClears_iff (hseen : s.CachesSeen) (op : FleetOp ν) :
    s.OwnerClears crd op ↔ s.PollSafe op := by
  cases op with
  | handover owners => exact Iff.rfl
  | reconcile n ups downs faults => exact Iff.rfl
  | poll n servers =>
    have hnode : (s.step crd (.poll n servers)).nodes n = (s.nodes n).poll (crd n) servers := by
      simp [step]
    have hclears := fun svc ep => @Node.clears_iff (s.nodes n) (crd n) servers (hseen n) svc ep
    simp only [OwnerClears, PollSafe, hnode]
    refine forall₄_congr fun svc ep howns hdown => ?_
    rw [ne_eq, hclears svc ep howns hdown, not_not]

/-- In every run, polls clear only down marks of owned services exactly when they leave the
others alone; and in a run in which moreover no node loses a service on which it has an up
verdict, no node moves back an address of a service that it does not own. -/
theorem owner_only_clears (crd : ν → Crd) (owners : ν → Ownership) (servers : ν → Server Lbhc)
    (store : EpStore) (ops : List (FleetOp ν)) :
    (Runs.Along (step crd) (OwnerClears crd) (start owners servers store) ops ↔
      Runs.Along (step crd) PollSafe (start owners servers store) ops) ∧
    ((start owners servers store).UpsOwned →
      Runs.Along (step crd) (fun s op => s.PollSafe op ∧ s.HandoverSafe op)
        (start owners servers store) ops →
      Runs.Along (step crd) (OwnerMoves crd) (start owners servers store) ops) := by
  have hstart : (start owners servers store).CachesSeen :=
    fun n hloop => absurd hloop (Nat.lt_irrefl 0)
  refine ⟨⟨fun hclears => ?_, fun hsafe => ?_⟩, fun hups hsafe => ?_⟩
  · exact hclears.imp CachesSeen (fun s op hseen _ => cachesSeen_step hseen op)
      (fun s op hseen => (ownerClears_iff hseen op).mp) hstart
  · exact hsafe.imp CachesSeen (fun s op hseen _ => cachesSeen_step hseen op)
      (fun s op hseen => (ownerClears_iff hseen op).mpr) hstart
  · exact hsafe.imp (fun s => s.CachesSeen ∧ s.UpsOwned)
      (fun s op hinv hop => ⟨cachesSeen_step hinv.1 op,
        upsOwned_step hinv.1 hinv.2 hop.1 hop.2⟩)
      (fun s op hinv _ => ownerMoves_of_upsOwned hinv.2 op) ⟨hstart, hups⟩

/-- A down mark left from an earlier time. -/
def formerVerdicts : DownEpList :=
  some ((∅ : Go.Map String EpStatus).insert "web_default"
    ((∅ : EpStatus).insert "10.0.0.1:80" false))

/-- A node that is no leader and has kept the down mark. -/
def formerOwner : Fleet Unit :=
  start (fun _ => {})
    (fun _ => .holding 1
      { metadata := { name := "node1", nameSpace := "default" }, downEpList := formerVerdicts })
    fun name nameSpace => .holding 1
      { metadata := { name := name, nameSpace := nameSpace }
        subsets := [{ notReadyAddresses := [{ ip := "10.0.0.1" }] }] }

/-- A poll that reports a peer of the service and a reconcile leave the address alone. -/
theorem owner_moves_formerOwner :
    Runs.Along (step fun _ => ⟨"node1", "default"⟩) (OwnerMoves fun _ => ⟨"node1", "default"⟩)
      formerOwner
      [.poll () { total := 1, http := [⟨"web_default", "10.0.0.1:80", 0⟩], stream := [] },
        .reconcile () .listed .listed ⟨fun _ _ => .none, fun _ _ => .none, .none⟩] := by
  have hpairs : formerVerdicts.pairs = [("web_default", "10.0.0.1:80", false)] := by
    decide +kernel
  have hverdict : ∀ svc ep status, (formerOwner.nodes ()).verdict svc ep = some status →
      svc = "web_default" ∧ ep = "10.0.0.1:80" ∧ status = false := by
    intro svc ep status hentry
    have hmem : (svc, ep, status) ∈ formerVerdicts.pairs := DownEpList.mem_pairs.mpr hentry
    rw [hpairs, List.mem_singleton] at hmem
    simpa using hmem
  refine (owner_only_clears (fun _ => ⟨"node1", "default"⟩) _ _ _ _).2 ?_ ?_
  · intro n svc ep hup
    have hfalse := (hverdict svc ep true hup).2.2
    cases hfalse
  · refine ⟨⟨fun svc ep _ hdown => ?_, trivial⟩, ⟨trivial, trivial⟩, trivial⟩
    obtain ⟨rfl, rfl, -⟩ := hverdict svc ep false hdown
    exact .inl ⟨by decide, .inl ⟨_, List.mem_singleton_self _, rfl⟩⟩

/-- Neither half holds in general: the node marks the service of another node up because
nothing is reported, and then moves the address back. -/
theorem former_owner_clears :
    ¬ Runs.Along (step fun _ => ⟨"node1", "default"⟩) (OwnerClears fun _ => ⟨"node1", "default"⟩)
        formerOwner [.poll () { total := 0, http := [], stream := [] }] ∧
    ¬ Runs.Along (step fun _ => ⟨"node1", "default"⟩) (OwnerMoves fun _ => ⟨"node1", "default"⟩)
        formerOwner [.poll () { total := 0, http := [], stream := [] },
          .reconcile () .listed .listed ⟨fun _ _ => .none, fun _ _ => .none, .none⟩] := by
  constructor
  · rintro ⟨hclears, -⟩
    exact hclears "web_default" "10.0.0.1:80" (by decide +kernel) (by decide +kernel)
      (by decide +kernel)
  · rintro ⟨-, hmoves, -⟩
    have hkept := (hmoves ("web", "default", "10.0.0.1") (by decide +kernel)).1
      (by unfold EpStore.Has; decide +kernel)
    revert hkept
    unfold EpStore.Has
    decide +kernel

end Fleet

end HealthCheck
