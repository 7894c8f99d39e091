import HealthCheck.Reconcile
import HealthCheck.Runs

/-!
# Whose `Lbhc` object a controller acts on

Every node has an `Lbhc` object, and every controller sees the events of all of them. The Update
predicate lets only the object named `CrdName` through; the Create predicate asks for a label
instead, and `Reconcile` takes whatever object a request names. So a request for another node's
object comes from its creation, or from its listing when the program starts, and is carried out
like one for the controller's own.
-/

namespace HealthCheck

open Api Api.Client

/-- The Create predicate for `Lbhc` objects. -/
def createLbhc (obj : Lbhc) : Bool := (obj.metadata.labels.lookup vsDomain).isSome

/-- The Update predicate for `Lbhc` objects. -/
def updateLbhc (crdName : String) (old new : Lbhc) : Bool :=
  decide (new.metadata.resourceVersion ≠ old.metadata.resourceVersion) &&
    decide (new.metadata.name = crdName)

/-! ## What a reconcile sends -/

/-- The `Endpoints` objects that one round of a loop of `modifyEpBaseOnLbhc` sends. -/
def sentForEntry (dst : Side) (faults : String → String → Faults) (store : EpStore)
    (entry : String × String × Bool) : List Endpoints :=
  match target dst.verdict entry with
  | some (name, nameSpace, ip) =>
    sent (faults entry.1 entry.2.1) (moveIfIn dst ip) 0 (store name nameSpace)
  | none => []

/-- The `Endpoints` objects that a loop of `modifyEpBaseOnLbhc` sends. -/
def sentForEntries (dst : Side) (faults : String → String → Faults) :
    Bool × EpStore → List (String × String × Bool) → List Endpoints
  | _, [] => []
  | state, entry :: entries =>
    sentForEntry dst faults state.2 entry ++
      sentForEntries dst faults (visitEntry dst faults state entry) entries

/-- The moves that `modifyEpBaseOnLbhc` sends. -/
def sentMoves (lbhc : Lbhc) (ups downs : RangeOrder lbhc.downEpList) (faults : ReconcileFaults)
    (store : EpStore) : List Endpoints :=
  sentForEntries .ready faults.up (true, store) ups.entries ++
    sentForEntries .notReady faults.down
      (ups.entries.foldl (visitEntry .ready faults.up) (true, store)) downs.entries

/-- The updates of the `Lbhc` object that the reconcile sends. -/
def sentUpdates (lbhc : Lbhc) (ups downs : RangeOrder lbhc.downEpList) (faults : ReconcileFaults)
    (server : Server Lbhc) (store : EpStore) : List Lbhc :=
  if (modifyEpBaseOnLbhc lbhc ups downs faults store).1 then
    sent faults.clean (cleanHcBaseEpUpStatus lbhc) 0 server
  else []

/-- There is nothing to carry out in the object: it has no up verdict, and no address with a
down verdict is ready. -/
def Settled (lbhc : Lbhc) (store : EpStore) : Prop :=
  lbhc.downEpList.anyUp = false ∧
    ∀ entry ∈ lbhc.downEpList.pairs, ∀ t ∈ target false entry, ¬ store.Has .ready t

instance (store : EpStore) (side : Side) (t : String × String × String) :
    Decidable (store.Has side t) :=
  inferInstanceAs (Decidable (HasAddr _ side _))

instance (lbhc : Lbhc) (store : EpStore) : Decidable (Settled lbhc store) :=
  inferInstanceAs (Decidable (_ ∧ _))

/-- Replacing an object by itself changes nothing. -/
theorem EpStore.set_self (store : EpStore) (name nameSpace : String) :
    store.set name nameSpace (store name nameSpace) = store := by
  funext name' nameSpace'
  unfold EpStore.set
  split
  · next hkey => rw [hkey.1, hkey.2]
  · rfl

/-- The test before a move sends nothing. -/
theorem sent_epIn (faults : Faults) (side : Side) (epIp : String) (n : ℕ) (s : Server Endpoints) :
    sent faults (epIn side epIp) n s = [] := by
  rw [epIn, sent_fetch_bind]
  split <;> rfl

/-- A round sends nothing when the address is not on the source side. -/
theorem sent_moveIfIn_of_not_has {dst : Side} {epIp : String} {s : Server Endpoints}
    (hnot : ¬ HasAddr s dst.other epIp) (faults : Faults) :
    sent faults (moveIfIn dst epIp) 0 s = [] := by
  have hno : (run faults (epIn dst.other epIp) 0 s).1 = false := by
    have htest := run_epIn_bind faults dst.other epIp pure s
    rw [run_bind] at htest
    rcases htest with ⟨hhas, -⟩ | ⟨-, hrun⟩
    · exact absurd hhas hnot
    · exact congrArg Prod.fst hrun
  rw [moveIfIn_eq, sent_bind, sent_epIn, hno]
  rfl

/-- A round sends the moved object when the address is on the source side and no read fails. -/
theorem sent_moveIfIn_of_has {dst : Side} {epIp : String} {s : Server Endpoints}
    (hhas : HasAddr s dst.other epIp) : sent .none (moveIfIn dst epIp) 0 s ≠ [] := by
  obtain ⟨ep, hobj, hep⟩ := hhas
  have hfound : s.get = .found ep := by
    rw [Server.get_eq, Option.mem_def.mp hobj]
    rfl
  have hyes : (run .none (epIn dst.other epIp) 0 s) = (true, 1, s) := by
    rw [epIn, run_fetch_bind]
    simp [Faults.none, hfound, hep]
  rw [moveIfIn_eq, sent_bind, sent_epIn, hyes, if_pos rfl, modifyEp, sent_fetch_bind]
  simp only [Faults.none, if_true, hfound, hep]
  exact sent_retryOnConflict_bind_ne_nil _ _ _ _ _

/-- A round that sends nothing leaves the store as it was. -/
theorem visitEntry_store_of_sent {dst : Side} {faults : String → String → Faults}
    {state : Bool × EpStore} {entry : String × String × Bool}
    (hnothing : sentForEntry dst faults state.2 entry = []) :
    (visitEntry dst faults state entry).2 = state.2 := by
  cases htarget : target dst.verdict entry with
  | none => simp only [visitEntry, htarget]
  | some t =>
    simp only [sentForEntry, htarget] at hnothing
    simp only [visitEntry, htarget, run_eq_of_sent_eq_nil hnothing]
    exact EpStore.set_self _ _ _

/-- So does a loop. -/
theorem foldl_visitEntry_store_of_sent {dst : Side} {faults : String → String → Faults}
    {entries : List (String × String × Bool)} {state : Bool × EpStore}
    (hnothing : sentForEntries dst faults state entries = []) :
    (entries.foldl (visitEntry dst faults) state).2 = state.2 := by
  induction entries generalizing state with
  | nil => rfl
  | cons entry entries ih =>
    obtain ⟨hentry, hentries⟩ := List.append_eq_nil_iff.mp hnothing
    exact (ih hentries).trans (visitEntry_store_of_sent hentry)

/-- A loop sends nothing when no target is on the source side. -/
theorem sentForEntries_eq_nil {dst : Side} {faults : String → String → Faults}
    {entries : List (String × String × Bool)} {state : Bool × EpStore}
    (hnot : ∀ entry ∈ entries, ∀ t ∈ target dst.verdict entry, ¬ state.2.Has dst.other t) :
    sentForEntries dst faults state entries = [] := by
  induction entries generalizing state with
  | nil => rfl
  | cons entry entries ih =>
    have hentry : sentForEntry dst faults state.2 entry = [] := by
      unfold sentForEntry
      split
      · next name nameSpace ip htarget =>
        exact sent_moveIfIn_of_not_has (hnot entry (List.mem_cons_self ..) _ htarget) _
      · rfl
    have hsame := visitEntry_store_of_sent hentry
    rw [sentForEntries, hentry, List.nil_append]
    refine ih fun e he t ht => ?_
    rw [hsame]
    exact hnot e (List.mem_cons_of_mem _ he) t ht

/-- Without faults, a loop that sends nothing finds no target on the source side. -/
theorem not_has_of_sentForEntries_eq_nil {dst : Side} {entries : List (String × String × Bool)}
    {state : Bool × EpStore}
    (hnothing : sentForEntries dst (fun _ _ => .none) state entries = []) :
    ∀ entry ∈ entries, ∀ t ∈ target dst.verdict entry, ¬ state.2.Has dst.other t := by
  induction entries generalizing state with
  | nil => simp
  | cons entry entries ih =>
    obtain ⟨hentry, hentries⟩ := List.append_eq_nil_iff.mp hnothing
    have hsame := visitEntry_store_of_sent hentry
    intro e he t ht hhas
    rcases List.mem_cons.mp he with rfl | hmem
    · rw [sentForEntry, Option.mem_def.mp ht] at hentry
      exact sent_moveIfIn_of_has hhas hentry
    · exact ih hentries e hmem t ht (hsame ▸ hhas)

/-- A loop none of whose requests fails returns no error. -/
theorem foldl_visitEntry_none (dst : Side) (entries : List (String × String × Bool))
    (store : EpStore) :
    (entries.foldl (visitEntry dst fun _ _ => .none) (true, store)).1 = true := by
  by_contra herror
  have hfalse := (foldl_visitEntry_error dst (fun _ _ => Faults.none) entries (true, store)).mp
    (by simpa using herror)
  rcases hfalse with htrue | ⟨_, _, _, _, _, _, _, hread, _⟩
  · cases htrue
  · exact hread.2 rfl

/-- The clean-up sends something exactly when there is an up verdict. -/
theorem sent_cleanHcBaseEpUpStatus_eq_nil (faults : Faults) (lbhc : Lbhc) (s : Server Lbhc) :
    sent faults (cleanHcBaseEpUpStatus lbhc) 0 s = [] ↔ lbhc.downEpList.anyUp = false := by
  unfold cleanHcBaseEpUpStatus
  split
  · next hup =>
    have hsends := sent_retryOnConflict_bind_ne_nil faults
      { lbhc with downEpList := lbhc.downEpList.deleteUp } (fun _ => pure ()) 0 s
    rw [hup]
    exact iff_of_false hsends (by simp)
  · next hup => exact iff_of_true rfl (by simpa using hup)

section Settled

variable {lbhc : Lbhc} {store : EpStore}

/-- Nothing to carry out means nothing is sent and nothing changes, whatever the order of the
loops and whatever happens to the requests. -/
theorem Settled.sends_nothing (hsettled : Settled lbhc store)
    (ups downs : RangeOrder lbhc.downEpList) (faults : ReconcileFaults) (server : Server Lbhc) :
    sentUpdates lbhc ups downs faults server store = [] ∧
      sentMoves lbhc ups downs faults store = [] ∧
      reconcileLbhc lbhc ups downs faults server store = (server, store) := by
  have hclean := (sent_cleanHcBaseEpUpStatus_eq_nil faults.clean lbhc server).mpr hsettled.1
  have hups : sentForEntries .ready faults.up (true, store) ups.entries = [] := by
    refine sentForEntries_eq_nil fun entry hentry t ht => ?_
    have hup : lbhc.downEpList.anyUp = true :=
      List.any_eq_true.mpr ⟨entry, ups.perm.mem_iff.mp hentry, verdict_of_target ht⟩
    rw [hsettled.1] at hup
    cases hup
  have hafter := foldl_visitEntry_store_of_sent hups
  have hdowns : sentForEntries .notReady faults.down
      (ups.entries.foldl (visitEntry .ready faults.up) (true, store)) downs.entries = [] := by
    refine sentForEntries_eq_nil fun entry hentry t ht => ?_
    rw [hafter]
    exact hsettled.2 entry (downs.perm.mem_iff.mp hentry) t ht
  have hstore : (modifyEpBaseOnLbhc lbhc ups downs faults store).2 = store :=
    (foldl_visitEntry_store_of_sent hdowns).trans hafter
  refine ⟨?_, ?_, ?_⟩
  · rw [sentUpdates, hclean, ite_self]
  · rw [sentMoves, hups, hdowns, List.append_nil]
  · unfold reconcileLbhc
    simp only [hstore, run_eq_of_sent_eq_nil hclean, ite_self]

/-- When nothing is sent although no request fails, there was nothing to carry out. -/
theorem settled_of_sends_nothing {server : Server Lbhc}
    (hupdates : sentUpdates lbhc (.listed _) (.listed _) .none server store = [])
    (hmoves : sentMoves lbhc (.listed _) (.listed _) .none store = []) : Settled lbhc store := by
  obtain ⟨hups, hdowns⟩ := List.append_eq_nil_iff.mp hmoves
  have hafter := foldl_visitEntry_store_of_sent hups
  constructor
  · have hups := foldl_visitEntry_none .ready lbhc.downEpList.pairs store
    have hok : (modifyEpBaseOnLbhc lbhc (.listed _) (.listed _) .none store).1 = true := by
      have hstate : lbhc.downEpList.pairs.foldl (visitEntry .ready fun _ _ => .none) (true, store) =
          (true, store) := Prod.ext hups hafter
      rw [modifyEpBaseOnLbhc]
      change (lbhc.downEpList.pairs.foldl (visitEntry .notReady fun _ _ => .none)
        (lbhc.downEpList.pairs.foldl (visitEntry .ready fun _ _ => .none) (true, store))).1 = true
      rw [hstate]
      exact foldl_visitEntry_none .notReady _ _
    rw [sentUpdates, hok, if_pos rfl] at hupdates
    exact (sent_cleanHcBaseEpUpStatus_eq_nil _ _ _).mp hupdates
  · intro entry hentry t ht hhas
    refine not_has_of_sentForEntries_eq_nil hdowns entry hentry t ht ?_
    rw [hafter]
    exact hhas

end Settled

/-! ## Events and requests -/

/-- The `Lbhc` objects of all nodes, the `Endpoints` objects and the queued requests of one
controller. -/
structure LbhcWatch where
  lbhcs : String → String → Server Lbhc
  store : EpStore
  requests : List (String × String)

/-- An event of an `Lbhc` object is delivered, a queued request is reconciled, in some order of
the loops and with some fate of its requests, or other programs write. -/
inductive LbhcWatchOp where
  | created (obj : Lbhc)
  | updated (old new : Lbhc)
  | reconcile (name nameSpace : String) (ups downs : ∀ l, RangeOrder l) (faults : ReconcileFaults)
  | others (lbhcs : String → String → Server Lbhc) (store : EpStore)

namespace LbhcWatch

/-- Queue a request for an object, unless there is one already. -/
def request (s : LbhcWatch) (obj : Lbhc) : LbhcWatch :=
  { s with requests := s.requests.insert (obj.metadata.name, obj.metadata.nameSpace) }

/-- `Reconcile` of a queued request. A request that returned an error is queued again. -/
def reconcile (s : LbhcWatch) (name nameSpace : String) (ups downs : ∀ l, RangeOrder l)
    (faults : ReconcileFaults) : LbhcWatch :=
  match (s.lbhcs name nameSpace).object with
  | some lbhc =>
    let r := reconcileLbhc lbhc (ups _) (downs _) faults (s.lbhcs name nameSpace) s.store
    { lbhcs := fun name' nameSpace' =>
        if name' = name ∧ nameSpace' = nameSpace then r.1 else s.lbhcs name' nameSpace'
      store := r.2
      requests :=
        if (modifyEpBaseOnLbhc lbhc (ups _) (downs _) faults s.store).1 then
          s.requests.erase (name, nameSpace)
        else s.requests }
  | none => { s with requests := s.requests.erase (name, nameSpace) }

/-- One step of the controller named `crdName`, or of its environment. -/
def step (crdName : String) (s : LbhcWatch) : LbhcWatchOp → LbhcWatch
  | .created obj => if createLbhc obj then s.request obj else s
  | .updated old new => if updateLbhc crdName old new then s.request new else s
  | .reconcile name nameSpace ups downs faults =>
    if s.requests.contains (name, nameSpace) then s.reconcile name nameSpace ups downs faults
    else s
  | .others lbhcs store => { s with lbhcs := lbhcs, store := store }

/-- The `Lbhc` and `Endpoints` objects that the reconcile of a request sends. -/
def sends (s : LbhcWatch) (name nameSpace : String) (ups downs : ∀ l, RangeOrder l)
    (faults : ReconcileFaults) : List Lbhc × List Endpoints :=
  match (s.lbhcs name nameSpace).object with
  | some lbhc =>
    (sentUpdates lbhc (ups _) (downs _) faults (s.lbhcs name nameSpace) s.store,
      sentMoves lbhc (ups _) (downs _) faults s.store)
  | none => ([], [])

/-- The controller acts on its own object only: whatever a reconcile sends originates from the
object named `crdName`, objects of other names stay as they are, and so do the `Endpoints`
objects when the request was for an object of another name. -/
def ActsOnOwn (crdName : String) (s : LbhcWatch) : LbhcWatchOp → Prop
  | .reconcile name nameSpace _ _ _ => (name, nameSpace) ∈ s.requests → ∀ ups downs faults,
    let after := s.reconcile name nameSpace ups downs faults
    (s.sends name nameSpace ups downs faults ≠ ([], []) → name = crdName) ∧
      (∀ name' nameSpace', name' ≠ crdName →
        after.lbhcs name' nameSpace' = s.lbhcs name' nameSpace') ∧
      (name ≠ crdName → after.store = s.store)
  | _ => True

/-- A request for an object of another name finds nothing to carry out in it. -/
def ForeignSettled (crdName : String) (s : LbhcWatch) : LbhcWatchOp → Prop
  | .reconcile name nameSpace _ _ _ => (name, nameSpace) ∈ s.requests → name ≠ crdName →
    ∀ lbhc ∈ (s.lbhcs name nameSpace).object, Settled lbhc s.store
  | _ => True

variable {crdName : String} {s : LbhcWatch}

/-- A reconcile leaves the other `Lbhc` objects alone. -/
theorem lbhcs_reconcile_of_ne {name nameSpace name' : String} (hne : name' ≠ name)
    (nameSpace' : String) (ups downs : ∀ l, RangeOrder l) (faults : ReconcileFaults) :
    (s.reconcile name nameSpace ups downs faults).lbhcs name' nameSpace' =
      s.lbhcs name' nameSpace' := by
  unfold reconcile
  split
  · exact if_neg fun h => hne h.1
  · rfl

/-- A reconcile of an object with nothing to carry out sends nothing and changes no object. -/
theorem reconcile_of_settled {name nameSpace : String}
    (hsettled : ∀ lbhc ∈ (s.lbhcs name nameSpace).object, Settled lbhc s.store)
    (ups downs : ∀ l, RangeOrder l) (faults : ReconcileFaults) :
    s.sends name nameSpace ups downs faults = ([], []) ∧
      (s.reconcile name nameSpace ups downs faults).lbhcs = s.lbhcs ∧
      (s.reconcile name nameSpace ups downs faults).store = s.store := by
  cases hobj : (s.lbhcs name nameSpace).object with
  | none => simp [sends, reconcile, hobj]
  | some lbhc =>
    obtain ⟨hupdates, hmoves, hsame⟩ := (hsettled lbhc hobj).sends_nothing
      (ups _) (downs _) faults (s.lbhcs name nameSpace)
    refine ⟨?_, ?_, ?_⟩
    · simp only [sends, hobj, hupdates, hmoves]
    · funext name' nameSpace'
      simp only [reconcile, hobj, hsame]
      split
      · next hkey => rw [hkey.1, hkey.2]
      · rfl
    · simp only [reconcile, hobj, hsame]

/-- One step: the controller acts on its own object only exactly when a request for another one
finds nothing to carry out. -/
theorem actsOnOwn_iff (op : LbhcWatchOp) :
    s.ActsOnOwn crdName op ↔ s.ForeignSettled crdName op := by
  cases op with
  | created obj => exact Iff.rfl
  | updated old new => exact Iff.rfl
  | others lbhcs store => exact Iff.rfl
  | reconcile name nameSpace ups downs faults =>
    constructor
    · intro hown hqueued hforeign lbhc hobj
      have hnothing :
          s.sends name nameSpace RangeOrder.listed RangeOrder.listed .none = ([], []) := by
        by_contra hsends
        exact hforeign ((hown hqueued _ _ _).1 hsends)
      simp only [sends, Option.mem_def.mp hobj, Prod.mk.injEq] at hnothing
      exact settled_of_sends_nothing hnothing.1 hnothing.2
    · intro hforeign hqueued ups downs faults
      by_cases hname : name = crdName
      · refine ⟨fun _ => hname, fun name' nameSpace' hne => ?_, fun hne => absurd hname hne⟩
        exact lbhcs_reconcile_of_ne (hname ▸ hne) nameSpace' ups downs faults
      · obtain ⟨hnothing, hlbhcs, hstore⟩ :=
          reconcile_of_settled (hforeign hqueued hname) ups downs faults
        exact ⟨fun h => absurd hnothing h, fun _ _ _ => by rw [hlbhcs], fun _ => hstore⟩

/-- In every run of a controller, with the events of any number of `Lbhc` objects, it acts on
its own object only exactly when no request for another one finds anything to carry out. -/
theorem acts_on_own_iff (crdName : String) (s : LbhcWatch) (ops : List LbhcWatchOp) :
    Runs.Along (step crdName) (ActsOnOwn crdName) s ops ↔
      Runs.Along (step crdName) (ForeignSettled crdName) s ops := by
  have hiff : ActsOnOwn crdName = ForeignSettled crdName := by
    funext s op
    exact propext (actsOnOwn_iff op)
  rw [hiff]

/-- The object of a second node, which has seen an address come up. -/
def nodeTwo : Lbhc where
  metadata :=
    { name := "node-2", nameSpace := "default", resourceVersion := some 1
      labels := (∅ : Go.Map String String).insert vsDomain vsDomainName }
  downEpList := some ((∅ : Go.Map String EpStatus).insert "web_prod"
    ((∅ : EpStatus).insert "10.0.0.7:80" true))

/-- The second node's object is stored, and the address is not ready yet. -/
def beforeListing : LbhcWatch where
  lbhcs name nameSpace :=
    if name = "node-2" ∧ nameSpace = "default" then .holding 1 nodeTwo else .absent
  store name nameSpace :=
    if name = "web" ∧ nameSpace = "prod" then
      .holding 1
        { metadata := { name := "web", nameSpace := "prod" }
          subsets := [{ notReadyAddresses := [{ ip := "10.0.0.7" }] }] }
    else .absent
  requests := []

/-- The first node's controller starts and is told of the second node's object. It moves the
address, which the object is about, and deletes the verdict from it. -/
theorem other_node_carried_out :
    let ops : List LbhcWatchOp :=
      [.created nodeTwo, .reconcile "node-2" "default" RangeOrder.listed RangeOrder.listed .none]
    let after := ops.foldl (step "node-1") beforeListing
    ¬ Runs.Along (step "node-1") (ActsOnOwn "node-1") beforeListing ops ∧
      HasAddr (after.store "web" "prod") .ready "10.0.0.7" ∧
      ∀ lbhc ∈ (after.lbhcs "node-2" "default").object,
        lbhc.downEpList.entry "web_prod" "10.0.0.7:80" = none := by
  intro ops after
  refine ⟨?_, by decide +kernel, by decide +kernel⟩
  rintro ⟨-, hown, -⟩
  have hqueued : ("node-2", "default") ∈
      (beforeListing.step "node-1" (.created nodeTwo)).requests := by decide +kernel
  have hmoved : HasAddr (((beforeListing.step "node-1" (.created nodeTwo)).reconcile "node-2"
      "default" RangeOrder.listed RangeOrder.listed .none).store "web" "prod")
      .ready "10.0.0.7" := by
    decide +kernel
  have hsame := (hown hqueued RangeOrder.listed RangeOrder.listed .none).2.2 (by decide)
  rw [hsame] at hmoved
  exact absurd hmoved (by decide +kernel)

end LbhcWatch

end HealthCheck
