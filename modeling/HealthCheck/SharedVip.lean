import HealthCheck.Leases
import HealthCheck.Runs

/-!
# Services that share an address

Two load balancer services with one address: kube-vip announces the address for the one, `l`, and
ignores the other, `s`. The node that holds the lease of `l` should answer for both. The entry of
`l` in `GlobalSvcLeaseDetail` follows the lease; the entry of `s` is a copy that `cacheSvcDetail`
takes when an event of `s` itself is handled. The two agree as long as the lease does not change
hands after that.
-/

namespace HealthCheck

/-- The two services and their address. -/
structure SharedVip where
  l : LeaseSite
  s : LeaseSite
  vip : String
  vip_ne : vip ≠ ""
  named : l.svc ≠ ""
  distinct : s.key ≠ l.key

namespace SharedVip

/-- A version of the service that kube-vip announces. -/
structure IsL (v : SharedVip) (svc : Service) : Prop where
  key : svc.key = v.l.key
  type : svc.type = "LoadBalancer"
  announced : (svc.metadata.annotations.lookup vsVipIgnore).getD "" ≠ "true"

/-- A version of the service that kube-vip ignores. -/
structure IsS (v : SharedVip) (svc : Service) : Prop where
  key : svc.key = v.s.key
  type : svc.type = "LoadBalancer"
  loadBalancerIP : svc.loadBalancerIP = v.vip
  ignored : (svc.metadata.annotations.lookup vsVipIgnore).getD "" = "true"

/-- A listing of the services of the cluster in which nobody but `l` announces the address. -/
structure Listing (v : SharedVip) where
  services : List Service
  only : ∀ svc ∈ services, svc.announces v.vip = true →
    svc.metadata.name = v.l.svc ∧ svc.metadata.nameSpace = v.l.nameSpace

/-- The listing has `l`. -/
def Listing.HasL {v : SharedVip} (listing : Listing v) : Prop :=
  ∃ svc ∈ listing.services, svc.announces v.vip = true

instance {v : SharedVip} (listing : Listing v) : Decidable listing.HasL :=
  inferInstanceAs (Decidable (∃ svc ∈ listing.services, _))

/-- What happens: an event of `l`, an event of `s`, or an operation on the lease of `l`. An event
of a service comes with what a listing shows at the time. -/
inductive Op (v : SharedVip) where
  | serviceL (svc : Service) (isL : v.IsL svc) (listing : Listing v)
  | serviceS (svc : Service) (isS : v.IsS svc) (listing : Listing v)
  | lease (op : LeaseOp)

/-- The lease of `l`, the package variables, which are gone after a panic, and which events there
have been. The two services are to agree, `due`, after an event that follows the first event of
`s` and the first event of the lease. -/
structure State where
  lease : Option LeaseState := none
  cache : Option SvcCache := some {}
  seenS : Bool := false
  seenL : Bool := false
  seenLease : Bool := false
  due : Bool := false

/-- There were events of `s` and of the lease. -/
def State.both (w : State) : Bool := w.seenS && w.seenLease

variable (v : SharedVip)

/-- The leases by name and namespace, as far as they matter. -/
def leases (current : Option LeaseState) (name nameSpace : String) : Option Lease :=
  if name = leaseStart ++ v.l.svc ∧ nameSpace = v.l.nameSpace then
    current.map fun state => v.l.lease state.version state.holder
  else none

/-- Handling what happens. Without a lease, a resync or a deletion is no event. -/
def step (w : State) : Op v → State
  | .serviceL svc _ listing =>
    { w with
      cache := w.cache.bind (cacheSvcDetail true listing.services (v.leases w.lease) svc)
      seenL := true
      due := w.both }
  | .serviceS svc _ listing =>
    { w with
      cache := w.cache.bind (cacheSvcDetail true listing.services (v.leases w.lease) svc)
      seenS := true
      due := w.both }
  | .lease op =>
    if w.lease = none ∧ op.after w.lease = none then w
    else
      { w with
        lease := op.after w.lease
        cache := w.cache.bind fun cache =>
          (handleLease v.l op w.lease cache.globalSvcLeaseDetail).map fun detail =>
            { cache with globalSvcLeaseDetail := detail }
        seenLease := true
        due := w.both }

/-- The cached holder of a service. -/
def State.holder (w : State) (site : LeaseSite) : String :=
  w.cache.elim "" fun cache => cache.globalSvcLeaseDetail.holder site.key

/-- What `checkSvcIsValid` consults on a node. -/
def ownership (cache : SvcCache) (hostName : String) (isLeader : Bool) : Ownership where
  globalSvcIsLb := cache.globalSvcIsLb
  globalSvcLeaseDetail := cache.globalSvcLeaseDetail
  globalHostName := hostName
  isLeader := isLeader

/-- There was no panic; and when they are to agree, the cached holders of the two services are the
same, so that, once there was an event of `l` as well, on every node `checkSvcIsValid` gives the
same answer for both. -/
def Agreed (w : State) : Prop :=
  ∃ cache, w.cache = some cache ∧ (w.due = true →
    w.holder v.s = w.holder v.l ∧ (w.seenL = true → ∀ hostName isLeader,
      (ownership cache hostName isLeader).owns v.s.key =
        (ownership cache hostName isLeader).owns v.l.key))

/-! ### What the events say

A list of events has the newest one first. -/

section History

variable {v : SharedVip}

/-- The lease after the events. -/
def leaseOf : List (Op v) → Option LeaseState
  | [] => none
  | .lease op :: past => op.after (leaseOf past)
  | .serviceL _ _ _ :: past => leaseOf past
  | .serviceS _ _ _ :: past => leaseOf past

/-- The holder that an event of `s` finds: that of the lease of `l`, if `l` is listed. -/
def found (listing : Listing v) (lease : Option LeaseState) : String :=
  if listing.HasL then (lease.bind LeaseState.holder).getD "" else ""

/-- The holder that the last event of `s` found. -/
def lastFound : List (Op v) → String
  | [] => ""
  | .serviceS _ _ listing :: past => found listing (leaseOf past)
  | .serviceL _ _ _ :: past => lastFound past
  | .lease _ :: past => lastFound past

/-- The holder that was last written to the lease. A lease whose name cannot be told from that of
the service says nothing. -/
def lastWritten : List (Op v) → String
  | [] => ""
  | .lease (.write holder) :: _ => if v.l.Plain then holder.getD "" else ""
  | .lease .resync :: past => lastWritten past
  | .lease .delete :: past => lastWritten past
  | .serviceL _ _ _ :: past => lastWritten past
  | .serviceS _ _ _ :: past => lastWritten past

/-- There was an event of `s`. -/
def SeenS (past : List (Op v)) : Prop :=
  ∃ svc isS listing, Op.serviceS svc isS listing ∈ past

/-- There was an event of the lease: the first one is a write. -/
def SeenLease (past : List (Op v)) : Prop :=
  ∃ holder, Op.lease (.write holder) ∈ past

/-- Without a lease, a resync or a deletion is no event. -/
def Op.IsEvent (current : Option LeaseState) : Op v → Prop
  | .lease op => ¬ (current = none ∧ op.after current = none)
  | .serviceL _ _ _ => True
  | .serviceS _ _ _ => True

/-- Some event follows the first event of `s` and the first event of the lease. -/
def Due : List (Op v) → Prop
  | [] => False
  | op :: past => Due past ∨ (op.IsEvent (leaseOf past) ∧ SeenS past ∧ SeenLease past)

/-- No holder is missing where it is dereferenced: an event of `s` does not find a lease without
holder, and no new version of the lease is without holder or follows one without. -/
def NoNil (current : Option LeaseState) : Op v → Prop
  | .serviceS _ _ listing => listing.HasL → ∀ state ∈ current, state.holder ≠ none
  | .lease (.write holder) => ∀ old ∈ current, holder ≠ none ∧ old.holder ≠ none
  | .lease .resync => True
  | .lease .delete => True
  | .serviceL _ _ _ => True

variable (v)

/-- No holder is missing, and from the event on that follows the first ones there is one holder:
the last event of `s` has found it, and it was last written to the lease. -/
structure Steady (events : List (Op v)) (holder : String) : Prop where
  noNil : ∀ op past, op :: past <:+ events → NoNil (leaseOf past) op
  found : ∀ past, past <:+ events → Due past → lastFound past = holder
  written : ∀ past, past <:+ events → Due past → lastWritten past = holder

end History

/-! ### What the events do -/

section Events

variable {v}

theorem labelled_of_announces {svc : Service} {lbip : String} (h : svc.announces lbip = true) :
    (svc.metadata.labels.lookup vsKubeVipIpamAddress).isSome = true := by
  have hlabel : svc.metadata.label vsKubeVipIpamAddress ≠ "" := by
    simp only [Service.announces, decide_eq_true_eq] at h
    exact h.2.1
  unfold ObjectMeta.label at hlabel
  cases hlookup : svc.metadata.labels.lookup vsKubeVipIpamAddress with
  | none => simp [hlookup] at hlabel
  | some value => rfl

/-- `findLeaderBaseLbip` finds the lease of `l`. -/
theorem findLeaderBaseLbip_eq (listing : Listing v) (current : Option LeaseState) :
    findLeaderBaseLbip listing.services (v.leases current) v.vip =
      if listing.HasL then current.elim (some "") LeaseState.holder else some "" := by
  unfold findLeaderBaseLbip
  dsimp only
  by_cases hl : listing.HasL
  · rw [if_pos hl]
    obtain ⟨svc, hsvc, hannounces⟩ := hl
    cases hfind : (listing.services.filter fun svc =>
        (svc.metadata.labels.lookup vsKubeVipIpamAddress).isSome).find? (·.announces v.vip) with
    | none =>
      have hmem : svc ∈ listing.services.filter fun svc =>
          (svc.metadata.labels.lookup vsKubeVipIpamAddress).isSome :=
        List.mem_filter.mpr ⟨hsvc, labelled_of_announces hannounces⟩
      exact absurd hannounces (List.find?_eq_none.mp hfind svc hmem)
    | some vs =>
      have hvs := List.find?_some hfind
      have hmem := (List.mem_filter.mp (List.mem_of_find?_eq_some hfind)).1
      obtain ⟨hname, hspace⟩ := listing.only vs hmem hvs
      simp only [hname, hspace, leases, v.named, ne_eq, not_false_eq_true, if_true, true_and]
      cases current <;> rfl
  · rw [if_neg hl]
    cases hfind : (listing.services.filter fun svc =>
        (svc.metadata.labels.lookup vsKubeVipIpamAddress).isSome).find? (·.announces v.vip) with
    | none => rfl
    | some vs =>
      have hvs := List.find?_some hfind
      have hmem := (List.mem_filter.mp (List.mem_of_find?_eq_some hfind)).1
      exact absurd ⟨vs, hmem, hvs⟩ hl

/-- An event of `l` marks it as a load balancer service. -/
theorem cacheSvcDetail_l {svc : Service} (isL : v.IsL svc) (services : List Service)
    (leases : String → String → Option Lease) (cache : SvcCache) :
    cacheSvcDetail true services leases svc cache =
      some { cache with globalSvcIsLb := cache.globalSvcIsLb.insert v.l.key true } := by
  have hnot : ¬ (svc.loadBalancerIP ≠ "" ∧
      (svc.metadata.annotations.lookup vsVipIgnore).getD "" = "true") := fun h => isL.announced h.2
  rw [cacheSvcDetail, if_pos rfl, if_pos isL.type]
  dsimp only
  rw [if_neg hnot, isL.key]

/-- An event of `s` marks it as a load balancer service and caches the holder it finds. -/
theorem cacheSvcDetail_s {svc : Service} (isS : v.IsS svc) (services : List Service)
    (leases : String → String → Option Lease) (cache : SvcCache) :
    cacheSvcDetail true services leases svc cache =
      (findLeaderBaseLbip services leases v.vip).map fun leader =>
        { globalSvcIsLb := cache.globalSvcIsLb.insert v.s.key true
          globalSvcLeaseDetail := cache.globalSvcLeaseDetail.insert v.s.key leader } := by
  have hyes : svc.loadBalancerIP ≠ "" ∧
      (svc.metadata.annotations.lookup vsVipIgnore).getD "" = "true" :=
    ⟨isS.loadBalancerIP ▸ v.vip_ne, isS.ignored⟩
  rw [cacheSvcDetail, if_pos rfl, if_pos isS.type]
  dsimp only
  rw [if_pos hyes, isS.key, isS.loadBalancerIP]

end Events

/-! ### Runs -/

/-- No panic, and the holders agree when they should. -/
def Matches (w : State) : Prop :=
  w.cache ≠ none ∧ (w.due = true → w.holder v.s = w.holder v.l)

/-- What holds of the package variables in every run: a service that was seen is marked as a load
balancer service, and agreement is due only after events of `s`. -/
structure Tracked (w : State) : Prop where
  due : w.due = true → w.both = true
  lbS : w.seenS = true → ∀ cache ∈ w.cache, cache.globalSvcIsLb.lookup v.s.key = some true
  lbL : w.seenL = true → ∀ cache ∈ w.cache, cache.globalSvcIsLb.lookup v.l.key = some true

variable {v}

theorem holder_of_cache {w : State} {cache : SvcCache} (hcache : w.cache = some cache)
    (site : LeaseSite) : w.holder site = cache.globalSvcLeaseDetail.holder site.key := by
  rw [State.holder, hcache]
  rfl

/-- Among services known as load balancers, the cached holder decides who answers. -/
theorem agreed_iff {w : State} (htracked : Tracked v w) : Agreed v w ↔ Matches v w := by
  constructor
  · rintro ⟨cache, hcache, hagreed⟩
    exact ⟨by simp [hcache], fun hdue => (hagreed hdue).1⟩
  · rintro ⟨halive, hmatches⟩
    obtain ⟨cache, hcache⟩ := Option.ne_none_iff_exists'.mp halive
    refine ⟨cache, hcache, fun hdue => ⟨hmatches hdue, fun hl hostName isLeader => ?_⟩⟩
    have hholders := hmatches hdue
    rw [holder_of_cache hcache, holder_of_cache hcache] at hholders
    have hs : w.seenS = true := (Bool.and_eq_true_iff.mp (htracked.due hdue)).1
    have hlbS := htracked.lbS hs cache hcache
    have hlbL := htracked.lbL hl cache hcache
    simp only [LeaseDetail.holder] at hholders
    simp only [Ownership.owns, ownership, hlbS, hlbL, hholders]

theorem tracked_step {w : State} (htracked : Tracked v w) (op : Op v) :
    Tracked v (v.step w op) := by
  have hne : v.l.key ≠ v.s.key := v.distinct.symm
  cases op with
  | serviceL svc isL listing =>
    refine ⟨id, fun hs cache hcache => ?_, fun _ cache hcache => ?_⟩
    · obtain ⟨before, hbefore, hhandled⟩ := Option.bind_eq_some_iff.mp hcache
      rw [cacheSvcDetail_l isL, Option.some.injEq] at hhandled
      rw [← hhandled, AList.lookup_insert_ne v.distinct]
      exact htracked.lbS hs before hbefore
    · obtain ⟨before, -, hhandled⟩ := Option.bind_eq_some_iff.mp hcache
      rw [cacheSvcDetail_l isL, Option.some.injEq] at hhandled
      rw [← hhandled, AList.lookup_insert]
  | serviceS svc isS listing =>
    refine ⟨fun hdue => ?_, fun _ cache hcache => ?_, fun hl cache hcache => ?_⟩
    · exact Bool.and_eq_true_iff.mpr ⟨rfl, (Bool.and_eq_true_iff.mp hdue).2⟩
    · obtain ⟨before, -, hhandled⟩ := Option.bind_eq_some_iff.mp hcache
      rw [cacheSvcDetail_s isS, Option.map_eq_some_iff] at hhandled
      obtain ⟨leader, -, rfl⟩ := hhandled
      rw [AList.lookup_insert]
    · obtain ⟨before, hbefore, hhandled⟩ := Option.bind_eq_some_iff.mp hcache
      rw [cacheSvcDetail_s isS, Option.map_eq_some_iff] at hhandled
      obtain ⟨leader, -, rfl⟩ := hhandled
      rw [AList.lookup_insert_ne hne]
      exact htracked.lbL hl before hbefore
  | lease op =>
    rw [step]
    split
    · exact htracked
    · refine ⟨fun hdue => ?_, fun hs cache hcache => ?_, fun hl cache hcache => ?_⟩
      · exact Bool.and_eq_true_iff.mpr ⟨(Bool.and_eq_true_iff.mp hdue).1, rfl⟩
      · obtain ⟨before, hbefore, hhandled⟩ := Option.bind_eq_some_iff.mp hcache
        obtain ⟨detail, -, rfl⟩ := Option.map_eq_some_iff.mp hhandled
        exact htracked.lbS hs before hbefore
      · obtain ⟨before, hbefore, hhandled⟩ := Option.bind_eq_some_iff.mp hcache
        obtain ⟨detail, -, rfl⟩ := Option.map_eq_some_iff.mp hhandled
        exact htracked.lbL hl before hbefore

/-! ### One event -/

/-- An event of `l` changes no holder. -/
theorem serviceL_spec (w : State) {svc : Service} (isL : v.IsL svc) (listing : Listing v) :
    ((v.step w (.serviceL svc isL listing)).cache ≠ none ↔ w.cache ≠ none) ∧
      ∀ site, (v.step w (.serviceL svc isL listing)).holder site = w.holder site := by
  cases hcache : w.cache with
  | none => simp [step, State.holder, hcache]
  | some cache => simp [step, State.holder, hcache, cacheSvcDetail_l isL]

/-- An event of `s` caches the holder that it finds. -/
theorem serviceS_spec (w : State) {svc : Service} (isS : v.IsS svc) (listing : Listing v) :
    ((v.step w (.serviceS svc isS listing)).cache ≠ none ↔
        w.cache ≠ none ∧ NoNil w.lease (.serviceS svc isS listing)) ∧
      ((v.step w (.serviceS svc isS listing)).cache ≠ none →
        (v.step w (.serviceS svc isS listing)).holder v.s = found listing w.lease ∧
          (v.step w (.serviceS svc isS listing)).holder v.l = w.holder v.l) := by
  cases hcache : w.cache with
  | none => simp [step, hcache]
  | some cache =>
    have hstep : (v.step w (.serviceS svc isS listing)).cache =
        (if listing.HasL then w.lease.elim (some "") LeaseState.holder else some "").map
          fun leader =>
            { globalSvcIsLb := cache.globalSvcIsLb.insert v.s.key true
              globalSvcLeaseDetail := cache.globalSvcLeaseDetail.insert v.s.key leader } := by
      simp only [step, hcache, Option.bind_some, cacheSvcDetail_s isS, findLeaderBaseLbip_eq]
    by_cases hnil : NoNil w.lease (.serviceS svc isS listing)
    · have hfound : (if listing.HasL then w.lease.elim (some "") LeaseState.holder else some "") =
          some (found listing w.lease) := by
        unfold found
        split
        · next hl =>
          cases hlease : w.lease with
          | none => rfl
          | some state =>
            obtain ⟨holder, hholder⟩ := Option.ne_none_iff_exists'.mp (hnil hl state hlease)
            simp [hholder]
        · rfl
      rw [hfound, Option.map_some] at hstep
      refine ⟨iff_of_true (by simp [hstep]) ⟨by simp, hnil⟩, fun _ => ⟨?_, ?_⟩⟩
      · rw [holder_of_cache hstep, LeaseDetail.holder, AList.lookup_insert, Option.getD_some]
      · rw [holder_of_cache hstep, holder_of_cache hcache, LeaseDetail.holder,
          AList.lookup_insert_ne v.distinct.symm, LeaseDetail.holder]
    · -- the lease of `l` has no holder to be dereferenced
      have hpanic : (v.step w (.serviceS svc isS listing)).cache = none := by
        simp only [NoNil, Classical.not_imp, not_forall, not_not] at hnil
        obtain ⟨hl, state, hstate, hholder⟩ := hnil
        rw [hstep, if_pos hl, show w.lease = some state from hstate, Option.elim_some, hholder]
        rfl
      simp [hpanic, hnil]

/-- A resync or a deletion of the lease changes no holder. -/
theorem cache_lease_idle (w : State) {op : LeaseOp} (hop : op = .resync ∨ op = .delete) :
    (v.step w (.lease op)).cache = w.cache := by
  rw [step]
  split
  · rfl
  · cases hcache : w.cache with
    | none => rfl
    | some cache =>
      rcases hop with rfl | rfl
      · simp [handleLease_resync]
      · rfl

theorem cache_lease_write (w : State) (holder : Option String) :
    (v.step w (.lease (.write holder))).cache = w.cache.bind fun cache =>
      (handleLease v.l (.write holder) w.lease cache.globalSvcLeaseDetail).map fun detail =>
        { cache with globalSvcLeaseDetail := detail } := by
  have hevent : ¬ (w.lease = none ∧ (LeaseOp.write holder).after w.lease = none) := by
    simp [LeaseOp.after]
  rw [step, if_neg hevent]

/-- A write of the lease leaves `l` with the holder that is written, if its name is plain and it had
the holder of the version before. -/
theorem lease_write_spec {w : State} {holder : Option String}
    (hold : ∀ old ∈ w.lease, w.holder v.l = if v.l.Plain then old.holder.getD "" else "")
    (hplain : ¬ v.l.Plain → w.holder v.l = "") :
    ((v.step w (.lease (.write holder))).cache ≠ none ↔
        w.cache ≠ none ∧ NoNil w.lease (.lease (.write holder) : Op v)) ∧
      ((v.step w (.lease (.write holder))).cache ≠ none →
        (v.step w (.lease (.write holder))).holder v.s = w.holder v.s ∧
          (v.step w (.lease (.write holder))).holder v.l =
            if v.l.Plain then holder.getD "" else "") := by
  have hstep := @cache_lease_write v w holder
  cases hcache : w.cache with
  | none =>
    rw [hcache, Option.bind_none] at hstep
    simp [hstep]
  | some cache =>
    rw [hcache, Option.bind_some] at hstep
    have hs := holder_of_cache hcache v.s
    have hl := holder_of_cache hcache v.l
    rcases handleLease_write_cases v.l cache.globalSvcLeaseDetail holder w.lease with
      ⟨⟨old, hmem, hnil⟩, hpanic⟩ | ⟨hno, ⟨⟨old, hmem, hsame⟩, hhandled⟩ | hhandled⟩
    · rw [hpanic, Option.map_none] at hstep
      refine ⟨iff_of_false (fun h => h hstep) fun h => ?_, fun h => absurd hstep h⟩
      exact hnil.elim (h.2 old hmem).1 (h.2 old hmem).2
    · rw [hhandled, Option.map_some] at hstep
      refine ⟨iff_of_true (by simp [hstep]) ⟨by simp, hno⟩, fun _ => ?_⟩
      rw [holder_of_cache hstep, holder_of_cache hstep, ← hs, ← hl, hold old hmem, hsame]
      exact ⟨rfl, rfl⟩
    · rw [hhandled, Option.map_some] at hstep
      refine ⟨iff_of_true (by simp [hstep]) ⟨by simp, hno⟩, fun _ => ?_⟩
      rw [holder_of_cache hstep, holder_of_cache hstep, v.l.holder_record,
        v.l.holder_record_ne v.distinct, ← hs, ← hl]
      refine ⟨rfl, ?_⟩
      by_cases hname : v.l.Plain
      · rw [if_pos hname, if_pos hname]
      · rw [if_neg hname, if_neg hname, hplain hname]

/-! ### Histories -/

theorem lastWritten_of_lease {past : List (Op v)} {state : LeaseState}
    (hlease : leaseOf past = some state) :
    lastWritten past = if v.l.Plain then state.holder.getD "" else "" := by
  induction past with
  | nil => cases hlease
  | cons op past ih =>
    cases op with
    | serviceL svc isL listing => exact ih hlease
    | serviceS svc isS listing => exact ih hlease
    | lease op =>
      cases op with
      | write holder =>
        obtain rfl := Option.some.inj hlease
        rfl
      | resync => exact ih hlease
      | delete => cases hlease

theorem lastWritten_of_not_plain (hplain : ¬ v.l.Plain) (past : List (Op v)) :
    lastWritten past = "" := by
  induction past with
  | nil => rfl
  | cons op past ih =>
    cases op with
    | serviceL svc isL listing => exact ih
    | serviceS svc isS listing => exact ih
    | lease op =>
      cases op with
      | write holder => exact if_neg hplain
      | resync => exact ih
      | delete => exact ih

/-- A lease was written. -/
theorem seenLease_of_lease {past : List (Op v)} (hlease : leaseOf past ≠ none) :
    SeenLease past := by
  induction past with
  | nil => exact absurd rfl hlease
  | cons op past ih =>
    have hlater : SeenLease past → SeenLease (op :: past) :=
      fun ⟨holder, hmem⟩ => ⟨holder, List.mem_cons_of_mem _ hmem⟩
    cases op with
    | serviceL svc isL listing => exact hlater (ih hlease)
    | serviceS svc isS listing => exact hlater (ih hlease)
    | lease op =>
      cases op with
      | write holder => exact ⟨holder, List.mem_cons_self⟩
      | resync => exact hlater (ih hlease)
      | delete => exact absurd rfl hlease

theorem SeenS.cons {past : List (Op v)} (h : SeenS past) (op : Op v) : SeenS (op :: past) := by
  obtain ⟨svc, isS, listing, hmem⟩ := h
  exact ⟨svc, isS, listing, List.mem_cons_of_mem _ hmem⟩

theorem SeenLease.cons {past : List (Op v)} (h : SeenLease past) (op : Op v) :
    SeenLease (op :: past) := by
  obtain ⟨holder, hmem⟩ := h
  exact ⟨holder, List.mem_cons_of_mem _ hmem⟩

theorem seen_of_due {past : List (Op v)} (hdue : Due past) : SeenS past ∧ SeenLease past := by
  induction past with
  | nil => exact hdue.elim
  | cons op past ih =>
    have hseen : SeenS past ∧ SeenLease past := hdue.elim ih And.right
    exact ⟨hseen.1.cons op, hseen.2.cons op⟩

theorem due_of_suffix {past events : List (Op v)} (hpast : past <:+ events) (hdue : Due past) :
    Due events := by
  induction events with
  | nil => exact List.suffix_nil.mp hpast ▸ hdue
  | cons op events ih =>
    rcases List.suffix_cons_iff.mp hpast with rfl | hpast
    · exact hdue
    · exact .inl (ih hpast)

/-- What the state has of the events. -/
structure Follows (past : List (Op v)) (w : State) : Prop where
  lease : w.lease = leaseOf past
  seenS : w.seenS = true ↔ SeenS past
  seenLease : w.seenLease = true ↔ SeenLease past
  due : w.due = true ↔ Due past
  holderS : w.cache ≠ none → w.holder v.s = lastFound past
  holderL : w.cache ≠ none → w.holder v.l = lastWritten past

section Step

variable {past : List (Op v)} {w : State} (hw : Follows past w)

include hw

theorem Follows.due_of_event {op : Op v} (hevent : op.IsEvent (leaseOf past)) :
    w.both = true ↔ Due (op :: past) := by
  rw [State.both, Bool.and_eq_true, hw.seenS, hw.seenLease]
  exact ⟨fun h => .inr ⟨hevent, h⟩, fun h => h.elim seen_of_due And.right⟩

theorem follows_serviceL {svc : Service} (isL : v.IsL svc) (listing : Listing v) :
    Follows (.serviceL svc isL listing :: past) (v.step w (.serviceL svc isL listing)) := by
  obtain ⟨halive, hholder⟩ := serviceL_spec w isL listing
  exact {
    lease := hw.lease
    seenS := hw.seenS.trans (by simp [SeenS])
    seenLease := hw.seenLease.trans (by simp [SeenLease])
    due := hw.due_of_event trivial
    holderS := fun h => (hholder v.s).trans (hw.holderS (halive.mp h))
    holderL := fun h => (hholder v.l).trans (hw.holderL (halive.mp h)) }

theorem follows_serviceS {svc : Service} (isS : v.IsS svc) (listing : Listing v) :
    Follows (.serviceS svc isS listing :: past) (v.step w (.serviceS svc isS listing)) := by
  obtain ⟨halive, hholder⟩ := serviceS_spec w isS listing
  exact {
    lease := hw.lease
    seenS := iff_of_true rfl ⟨svc, isS, listing, List.mem_cons_self⟩
    seenLease := hw.seenLease.trans (by simp [SeenLease])
    due := hw.due_of_event trivial
    holderS := fun h => (hholder h).1.trans (by rw [lastFound, hw.lease])
    holderL := fun h => (hholder h).2.trans (hw.holderL (halive.mp h).1) }

/-- A resync or a deletion: the variables stay, and so do what was found and what was written. -/
theorem follows_lease_idle {op : LeaseOp} (hop : op = .resync ∨ op = .delete) :
    Follows (.lease op :: past) (v.step w (.lease op)) := by
  have hcache := @cache_lease_idle v w op hop
  have hholder : ∀ site, (v.step w (.lease op)).holder site = w.holder site := fun site => by
    rw [State.holder, hcache, State.holder]
  have hfound : lastFound (.lease op :: past) = lastFound past := rfl
  have hwritten : lastWritten (.lease op :: past) = lastWritten past := by
    rcases hop with rfl | rfl <;> rfl
  have hseenS : SeenS (.lease op :: past) ↔ SeenS past := by simp [SeenS]
  have hseenLease : SeenLease (.lease op :: past) ↔ SeenLease past := by
    rcases hop with rfl | rfl <;> simp [SeenLease]
  refine ⟨?_, ?_, ?_, ?_, ?_, ?_⟩
  · rw [step, leaseOf, ← hw.lease]
    split
    · next hnone => exact hnone.1.trans hnone.2.symm
    · rfl
  · rw [hseenS, ← hw.seenS, step]
    split <;> rfl
  · rw [hseenLease, ← hw.seenLease, step]
    split
    · rfl
    · next hevent =>
      have hsome : leaseOf past ≠ none := by
        rintro hnone
        refine hevent ⟨hw.lease.trans hnone, ?_⟩
        rw [hw.lease, hnone]
        rcases hop with rfl | rfl <;> rfl
      exact iff_of_true rfl (hw.seenLease.mpr (seenLease_of_lease hsome))
  · by_cases hevent : w.lease = none ∧ op.after w.lease = none
    · rw [step, if_pos hevent, hw.due]
      rw [hw.lease] at hevent
      exact (or_iff_left fun h => h.1 hevent).symm
    · rw [step, if_neg hevent]
      rw [hw.lease] at hevent
      exact hw.due_of_event hevent
  · intro h
    rw [hholder, hfound]
    exact hw.holderS (hcache ▸ h)
  · intro h
    rw [hholder, hwritten]
    exact hw.holderL (hcache ▸ h)

theorem Follows.write_spec (halive : w.cache ≠ none) (holder : Option String) :
    ((v.step w (.lease (.write holder))).cache ≠ none ↔
        w.cache ≠ none ∧ NoNil w.lease (.lease (.write holder) : Op v)) ∧
      ((v.step w (.lease (.write holder))).cache ≠ none →
        (v.step w (.lease (.write holder))).holder v.s = w.holder v.s ∧
          (v.step w (.lease (.write holder))).holder v.l =
            if v.l.Plain then holder.getD "" else "") := by
  refine lease_write_spec (fun old hold => ?_) fun hplain => ?_
  · rw [hw.holderL halive]
    exact lastWritten_of_lease (hw.lease ▸ hold)
  · rw [hw.holderL halive, lastWritten_of_not_plain hplain]

theorem follows_lease_write (holder : Option String) :
    Follows (.lease (.write holder) :: past) (v.step w (.lease (.write holder))) := by
  have hevent : ¬ (w.lease = none ∧ (LeaseOp.write holder).after w.lease = none) := by
    simp [LeaseOp.after]
  have halive : (v.step w (.lease (.write holder))).cache ≠ none → w.cache ≠ none := by
    rw [cache_lease_write]
    intro hafter hnone
    rw [hnone] at hafter
    exact hafter rfl
  have hholder := fun h => (hw.write_spec (halive h) holder).2 h
  refine ⟨?_, ?_, ?_, ?_, fun h => (hholder h).1.trans (hw.holderS (halive h)),
    fun h => (hholder h).2⟩
  · rw [step, if_neg hevent, leaseOf, hw.lease]
  · rw [step, if_neg hevent]
    exact hw.seenS.trans (by simp [SeenS])
  · rw [step, if_neg hevent]
    exact iff_of_true rfl ⟨holder, List.mem_cons_self⟩
  · rw [step, if_neg hevent]
    rw [hw.lease] at hevent
    exact hw.due_of_event hevent

theorem follows_step (op : Op v) : Follows (op :: past) (v.step w op) := by
  cases op with
  | serviceL svc isL listing => exact follows_serviceL hw isL listing
  | serviceS svc isS listing => exact follows_serviceS hw isS listing
  | lease op =>
    cases op with
    | write holder => exact follows_lease_write hw holder
    | resync => exact follows_lease_idle hw (.inl rfl)
    | delete => exact follows_lease_idle hw (.inr rfl)

/-- The program goes on exactly if no holder is missing. -/
theorem alive_step_iff (op : Op v) :
    (v.step w op).cache ≠ none ↔ w.cache ≠ none ∧ NoNil (leaseOf past) op := by
  rw [← hw.lease]
  cases op with
  | serviceL svc isL listing =>
    exact (serviceL_spec w isL listing).1.trans (and_iff_left trivial).symm
  | serviceS svc isS listing => exact (serviceS_spec w isS listing).1
  | lease op =>
    cases op with
    | write holder =>
      by_cases halive : w.cache ≠ none
      · exact (hw.write_spec halive holder).1
      · rw [cache_lease_write, not_not.mp halive]
        simp
    | resync =>
      rw [cache_lease_idle w (.inl rfl)]
      exact (and_iff_left trivial).symm
    | delete =>
      rw [cache_lease_idle w (.inr rfl)]
      exact (and_iff_left trivial).symm

end Step

/-! ### Whole runs -/

/-- The state after the events. -/
def State.after (events : List (Op v)) : State := events.foldr (fun op w => v.step w op) {}

theorem follows_after (events : List (Op v)) :
    Follows events (State.after events) ∧ Tracked v (State.after events) := by
  induction events with
  | nil =>
    refine ⟨⟨rfl, ?_, ?_, ?_, fun _ => rfl, fun _ => rfl⟩, ⟨?_, ?_, ?_⟩⟩
    · simp [State.after, SeenS]
    · simp [State.after, SeenLease]
    · simp [State.after, Due]
    · simp [State.after]
    · simp [State.after]
    · simp [State.after]
  | cons op events ih => exact ⟨follows_step ih.1 op, tracked_step ih.2 op⟩

theorem alive_after_iff {events : List (Op v)} :
    (State.after events).cache ≠ none ↔
      ∀ op past, op :: past <:+ events → NoNil (leaseOf past) op := by
  induction events with
  | nil => simp [State.after]
  | cons op events ih =>
    have hstep := alive_step_iff (follows_after events).1 op
    refine (hstep.trans (and_congr_left fun _ => ih)).trans ?_
    simp only [List.suffix_cons_iff]
    constructor
    · rintro ⟨hpast, hop⟩ op' past (heq | hsuffix)
      · obtain ⟨rfl, rfl⟩ := List.cons.inj heq
        exact hop
      · exact hpast op' past hsuffix
    · exact fun h => ⟨fun op' past hsuffix => h op' past (.inr hsuffix), h op events (.inl rfl)⟩

/-- An event changes what was found or what was written, not both. -/
theorem found_or_written_cons (op : Op v) (past : List (Op v)) :
    lastFound (op :: past) = lastFound past ∨ lastWritten (op :: past) = lastWritten past := by
  cases op with
  | serviceL svc isL listing => exact .inl rfl
  | serviceS svc isS listing => exact .inr rfl
  | lease op => exact .inl rfl

/-- When what was found always is what was written, it is the same holder all the time. -/
theorem exists_holder {events : List (Op v)}
    (hagree : ∀ past, past <:+ events → Due past → lastFound past = lastWritten past) :
    ∃ holder, ∀ past, past <:+ events → Due past →
      lastFound past = holder ∧ lastWritten past = holder := by
  induction events with
  | nil => exact ⟨"", fun past hpast hdue => absurd hdue (by simp [List.suffix_nil.mp hpast, Due])⟩
  | cons op events ih =>
    have hlast := hagree (op :: events) List.suffix_rfl
    obtain ⟨holder, hholder⟩ :=
      ih fun past hpast => hagree past (hpast.trans (List.suffix_cons _ _))
    by_cases hdue : Due events
    · -- the event has changed neither
      obtain ⟨hfound, hwritten⟩ := hholder events List.suffix_rfl hdue
      have hboth := hlast (.inl hdue)
      refine ⟨holder, fun past hpast hpastDue => ?_⟩
      rcases List.suffix_cons_iff.mp hpast with rfl | hpast
      · rcases found_or_written_cons op events with hsame | hsame
        · exact ⟨hsame.trans hfound, hboth.symm.trans (hsame.trans hfound)⟩
        · exact ⟨hboth.trans (hsame.trans hwritten), hsame.trans hwritten⟩
      · exact hholder past hpast hpastDue
    · -- no agreement was due before the event
      refine ⟨lastWritten (op :: events), fun past hpast hpastDue => ?_⟩
      rcases List.suffix_cons_iff.mp hpast with rfl | hpast
      · exact ⟨hlast hpastDue, rfl⟩
      · exact absurd (due_of_suffix hpast hpastDue) hdue

/-- When services that share an address share its leader: in a run of events from the start of the
program, the two agree after every event that follows the first ones exactly if no holder is missing
and from then on there is one holder, which the events of `s` find and which is written to the
lease. -/
theorem shared_leader_iff (v : SharedVip) (ops : List (Op v)) :
    Runs.Throughout v.step (Agreed v) {} ops ↔ ∃ holder, Steady v ops.reverse holder := by
  have hagreed : ∀ past : List (Op v), Agreed v (State.after past) ↔
      (∀ op earlier, op :: earlier <:+ past → NoNil (leaseOf earlier) op) ∧
        (Due past → lastFound past = lastWritten past) := by
    intro past
    obtain ⟨hfollows, htracked⟩ := follows_after past
    rw [agreed_iff htracked, Matches, alive_after_iff.symm, hfollows.due]
    refine and_congr_right fun halive => ?_
    rw [hfollows.holderS halive, hfollows.holderL halive]
  rw [Runs.throughout_iff_suffix]
  constructor
  · intro hall
    have hall' := fun past hpast => (hagreed past).mp (hall past hpast)
    obtain ⟨holder, hholder⟩ := exists_holder fun past hpast => (hall' past hpast).2
    exact ⟨holder, (hall' _ List.suffix_rfl).1, fun past hpast hdue => (hholder past hpast hdue).1,
      fun past hpast hdue => (hholder past hpast hdue).2⟩
  · rintro ⟨holder, hsteady⟩ past hpast
    refine (hagreed past).mpr ⟨fun op earlier h => hsteady.noNil op earlier (h.trans hpast), ?_⟩
    exact fun hdue => (hsteady.found past hpast hdue).trans (hsteady.written past hpast hdue).symm

/-- prod/web, which kube-vip announces, and prod/api, which it ignores. -/
def webAndApi : SharedVip where
  l := ⟨"web", "prod"⟩
  s := ⟨"api", "prod"⟩
  vip := "192.168.0.10"
  vip_ne := by decide
  named := by decide
  distinct := by decide

/-- A load balancer service with the shared address. -/
def vipService (name ignore : String) : Service where
  metadata :=
    { name := name
      nameSpace := "prod"
      labels := (∅ : Go.Map String String).insert vsKubeVipIpamAddress "192.168.0.10"
      annotations := (∅ : Go.Map String String).insert vsVipIgnore ignore }
  type := "LoadBalancer"
  loadBalancerIP := "192.168.0.10"

/-- Both services are there. -/
def bothListed : Listing webAndApi where
  services := [vipService "api" "true", vipService "web" "false"]
  only := by decide +kernel

/-- Events of `l`, of its lease and of `s`, and then a handover of the lease. -/
def failover : List (Op webAndApi) :=
  [.serviceL (vipService "web" "false") ⟨by decide, by decide, by decide +kernel⟩ bothListed,
    .lease (.write (some "node-1")),
    .serviceS (vipService "api" "true") ⟨by decide, by decide, by decide, by decide +kernel⟩
      bothListed,
    .lease (.write (some "node-2"))]

/-- After the failover the announced service belongs to the new node, the ignored one still to the
old node. -/
theorem failover_not_shared :
    let w := failover.foldl webAndApi.step {}
    w.due = true ∧ w.holder webAndApi.l = "node-2" ∧
      w.holder webAndApi.s = "node-1" ∧
      w.cache.map (fun cache => ((ownership cache "node-2" false).owns webAndApi.l.key,
        (ownership cache "node-2" false).owns webAndApi.s.key)) = some (true, false) := by
  decide +kernel

end SharedVip

end HealthCheck
