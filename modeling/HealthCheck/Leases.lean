import HealthCheck.Poll

/-!
# Leases of load balancer services

In cluster mode the node that holds the kube-vip lease of a load balancer service answers for it.
The controller caches the holders by service in `GlobalSvcLeaseDetail`, which the Lease branches
of the Create and Update predicates maintain; the Delete predicate has no such branch. For a
service that kube-vip ignores, `cacheSvcDetail` looks for another service with the same address
and copies the holder of its lease. Dereferencing a nil holder is a panic, modelled by `none`.
-/

namespace HealthCheck

def vsKubeVipIpamAddress : String := "ipam-address"
def vsVipIgnore : String := "kube-vip.io/ignore"

/-- What the names of the leases begin with. -/
def leaseStart : String := "kubevip-"

/-- A `Lease`, with the fields the controller reads. -/
structure Lease where
  metadata : ObjectMeta
  holderIdentity : Option String
  deriving DecidableEq

/-- `GlobalSvcLeaseDetail`. -/
abbrev LeaseDetail := Go.Map String String

/-- Reading the cached holder; a missing entry reads as the empty string. -/
def LeaseDetail.holder (detail : LeaseDetail) (svcName : String) : String :=
  (detail.lookup svcName).getD ""

/-- Caching a holder under the service whose lease has the given name. A name with several
occurrences of the beginning is given up. -/
def cacheHolder (metadata : ObjectMeta) (holder : String) (detail : LeaseDetail) :
    Bool × LeaseDetail :=
  match Go.splitText metadata.name leaseStart with
  | [_, svc] => (true, detail.insert (virtualServiceFullValue svc metadata.nameSpace) holder)
  | _ => (false, detail)

/-- The Create predicate for leases. -/
def createLease (lease : Lease) (detail : LeaseDetail) : Bool × LeaseDetail :=
  if Go.hasPrefix lease.metadata.name leaseStart then
    cacheHolder lease.metadata (lease.holderIdentity.getD "") detail
  else (false, detail)

/-- The Update predicate for leases. The holders are dereferenced before they are tested, so that
the branch for a new lease without holder is never reached. -/
def updateLease (new old : Lease) (detail : LeaseDetail) : Option (Bool × LeaseDetail) :=
  if Go.hasPrefix new.metadata.name leaseStart then
    if new.metadata.resourceVersion ≠ old.metadata.resourceVersion then
      match new.holderIdentity, old.holderIdentity with
      | some newHolder, some oldHolder =>
        if newHolder ≠ oldHolder then some (cacheHolder new.metadata newHolder detail)
        else some (false, detail)
      | _, _ => none
    else some (false, detail)
  else some (false, detail)

/-- A service that kube-vip announces: the condition of the loop of `findLeaderBaseLbip`. -/
def Service.announces (svc : Service) (lbip : String) : Bool :=
  svc.type = "LoadBalancer" ∧ svc.metadata.label vsKubeVipIpamAddress ≠ "" ∧
    svc.loadBalancerIP = lbip ∧
    ((svc.metadata.annotations.lookup vsVipIgnore).getD "" = "false" ∨
      (svc.metadata.annotations.lookup vsVipIgnore).getD "" = "")

/-- `findLeaderBaseLbip`, given the services of the cluster in the order of the listing and the
leases by name and namespace. -/
def findLeaderBaseLbip (services : List Service) (leases : String → String → Option Lease)
    (lbip : String) : Option String :=
  let listed := services.filter fun svc => (svc.metadata.labels.lookup vsKubeVipIpamAddress).isSome
  match listed.find? (·.announces lbip) with
  | none => some ""
  | some vs =>
    if vs.metadata.name ≠ "" then
      match leases (leaseStart ++ vs.metadata.name) vs.metadata.nameSpace with
      | none => some ""
      | some lease => lease.holderIdentity
    else some ""

/-- The package variables that the predicates keep about services. -/
structure SvcCache where
  globalSvcIsLb : Go.Map String Bool := ∅
  globalSvcLeaseDetail : LeaseDetail := ∅

/-- The key of a service in the package variables. -/
def Service.key (svc : Service) : String :=
  virtualServiceFullValue svc.metadata.name svc.metadata.nameSpace

/-- `cacheSvcDetail`. -/
def cacheSvcDetail (deployIsCluster : Bool) (services : List Service)
    (leases : String → String → Option Lease) (svc : Service) (cache : SvcCache) :
    Option SvcCache :=
  if deployIsCluster then
    if svc.type = "LoadBalancer" then
      let cache := { cache with globalSvcIsLb := cache.globalSvcIsLb.insert svc.key true }
      if svc.loadBalancerIP ≠ "" ∧
          (svc.metadata.annotations.lookup vsVipIgnore).getD "" = "true" then
        (findLeaderBaseLbip services leases svc.loadBalancerIP).map fun leader =>
          { cache with globalSvcLeaseDetail := cache.globalSvcLeaseDetail.insert svc.key leader }
      else some cache
    else some { cache with globalSvcIsLb := cache.globalSvcIsLb.insert svc.key false }
  else some { cache with globalSvcIsLb := cache.globalSvcIsLb.insert svc.key false }

/-! ### The lease of one service -/

/-- A service by its name and namespace. -/
structure LeaseSite where
  svc : String
  nameSpace : String

namespace LeaseSite

/-- The key under which the service's holder is cached. -/
def key (site : LeaseSite) : String := virtualServiceFullValue site.svc site.nameSpace

/-- The lease of the service in one of its versions. -/
def lease (site : LeaseSite) (version : ℕ) (holder : Option String) : Lease where
  metadata :=
    { name := leaseStart ++ site.svc
      nameSpace := site.nameSpace
      resourceVersion := some version }
  holderIdentity := holder

/-- The name of the service does not repeat the beginning of the lease's name. -/
def Plain (site : LeaseSite) : Prop := Go.contains site.svc leaseStart = false

instance (site : LeaseSite) : Decidable site.Plain := inferInstanceAs (Decidable (_ = _))

end LeaseSite

/-- What the API server has of the lease: its version and its holder. -/
structure LeaseState where
  version : ℕ
  holder : Option String
  deriving DecidableEq

/-- What happens to the lease of a service. A write creates the lease or gives it a new version; a
resync delivers the lease once more, in the version that is known. -/
inductive LeaseOp where
  | write (holder : Option String)
  | resync
  | delete
  deriving DecidableEq

/-- The lease after an operation. -/
def LeaseOp.after (op : LeaseOp) (current : Option LeaseState) : Option LeaseState :=
  match op with
  | .write holder => some ⟨(current.elim 0 LeaseState.version) + 1, holder⟩
  | .resync => current
  | .delete => none

/-- The event of an operation, handled by the predicate of its kind. -/
def handleLease (site : LeaseSite) (op : LeaseOp) (current : Option LeaseState)
    (detail : LeaseDetail) : Option LeaseDetail :=
  match op, current with
  | .write holder, none => some (createLease (site.lease 1 holder) detail).2
  | .write holder, some old =>
    (updateLease (site.lease (old.version + 1) holder) (site.lease old.version old.holder)
      detail).map Prod.snd
  | .resync, some old =>
    (updateLease (site.lease old.version old.holder) (site.lease old.version old.holder)
      detail).map Prod.snd
  | .resync, none => some detail
  | .delete, _ => some detail

/-! ### What the handlers do -/

theorem leaseStart_ne : leaseStart ≠ "" := by decide

namespace LeaseSite

variable (site : LeaseSite)

theorem hasPrefix_lease (version : ℕ) (holder : Option String) :
    Go.hasPrefix (site.lease version holder).metadata.name leaseStart = true := by
  simp [lease, Go.hasPrefix, String.toList_append]

/-- The entry of the service set to a holder, if the name can be told from that of the lease. -/
def record (holder : String) (detail : LeaseDetail) : LeaseDetail :=
  if site.Plain then detail.insert site.key holder else detail

theorem cacheHolder_lease (version : ℕ) (h : Option String) (holder : String)
    (detail : LeaseDetail) :
    (cacheHolder (site.lease version h).metadata holder detail).2 = site.record holder detail := by
  have hsplit : Go.splitText (site.lease version h).metadata.name leaseStart =
      "" :: Go.splitText site.svc leaseStart := Go.splitText_append_self leaseStart_ne site.svc
  unfold cacheHolder record
  by_cases hplain : site.Plain
  · rw [hsplit, Go.splitText_of_not_contains leaseStart_ne hplain, if_pos hplain]
    rfl
  · have hmany := Go.two_le_length_splitText leaseStart_ne
      (by simpa [Plain] using hplain : Go.contains site.svc leaseStart = true)
    rw [if_neg hplain, hsplit]
    split
    · next svc hparts =>
      rw [List.cons.injEq] at hparts
      rw [hparts.2] at hmany
      simp at hmany
    · rfl

theorem holder_record (holder : String) (detail : LeaseDetail) :
    (site.record holder detail).holder site.key =
      if site.Plain then holder else detail.holder site.key := by
  unfold record LeaseDetail.holder
  by_cases hplain : site.Plain
  · rw [if_pos hplain, if_pos hplain, AList.lookup_insert, Option.getD_some]
  · rw [if_neg hplain, if_neg hplain]

/-- The entries of other services stay. -/
theorem holder_record_ne {key : String} (hkey : key ≠ site.key) (holder : String)
    (detail : LeaseDetail) : (site.record holder detail).holder key = detail.holder key := by
  unfold record LeaseDetail.holder
  split
  · rw [AList.lookup_insert_ne hkey]
  · rfl

end LeaseSite

section Handlers

variable (site : LeaseSite) (detail : LeaseDetail)

/-- A new lease is recorded. -/
theorem handleLease_create (holder : Option String) :
    handleLease site (.write holder) none detail = some (site.record (holder.getD "") detail) := by
  rw [handleLease, createLease, if_pos (site.hasPrefix_lease 1 holder), site.cacheHolder_lease]
  rfl

/-- A new version without holder, or after one without holder, is a panic. -/
theorem handleLease_update_nil {holder : Option String} {old : LeaseState}
    (hnil : holder = none ∨ old.holder = none) :
    handleLease site (.write holder) (some old) detail = none := by
  have hversion : (site.lease (old.version + 1) holder).metadata.resourceVersion ≠
      (site.lease old.version old.holder).metadata.resourceVersion := by simp [LeaseSite.lease]
  rw [handleLease, updateLease, if_pos (site.hasPrefix_lease _ _), if_pos hversion]
  rcases hnil with h | h
  · simp [LeaseSite.lease, h]
  · simp [LeaseSite.lease, h]

/-- A new version with another holder is recorded. -/
theorem handleLease_update {holder oldHolder : String} {old : LeaseState}
    (hold : old.holder = some oldHolder) :
    handleLease site (.write (some holder)) (some old) detail =
      some (if holder = oldHolder then detail else site.record holder detail) := by
  have hversion : (site.lease (old.version + 1) (some holder)).metadata.resourceVersion ≠
      (site.lease old.version old.holder).metadata.resourceVersion := by simp [LeaseSite.lease]
  rw [handleLease, updateLease, if_pos (site.hasPrefix_lease _ _), if_pos hversion]
  by_cases hsame : holder = oldHolder
  · simp [LeaseSite.lease, hold, hsame]
  · simp [LeaseSite.lease, hold, hsame, ← site.cacheHolder_lease (old.version + 1) (some holder)]

/-- What a new version can do: one of the holders is missing, or both are there. -/
theorem handleLease_update_cases (holder : Option String) (old : LeaseState) :
    ((holder = none ∨ old.holder = none) ∧
      handleLease site (.write holder) (some old) detail = none) ∨
    ∃ new oldHolder, holder = some new ∧ old.holder = some oldHolder ∧
      handleLease site (.write holder) (some old) detail =
        some (if new = oldHolder then detail else site.record new detail) := by
  by_cases hnil : holder = none ∨ old.holder = none
  · exact .inl ⟨hnil, handleLease_update_nil site detail hnil⟩
  · rw [not_or] at hnil
    obtain ⟨new, rfl⟩ := Option.ne_none_iff_exists'.mp hnil.1
    obtain ⟨oldHolder, hold⟩ := Option.ne_none_iff_exists'.mp hnil.2
    exact .inr ⟨new, oldHolder, rfl, hold, handleLease_update site detail hold⟩

/-- What the handling of a write can do: a holder is missing, or the holder is the one of the
version before, or it is recorded. -/
theorem handleLease_write_cases (holder : Option String) (current : Option LeaseState) :
    ((∃ old ∈ current, holder = none ∨ old.holder = none) ∧
        handleLease site (.write holder) current detail = none) ∨
      ((∀ old ∈ current, holder ≠ none ∧ old.holder ≠ none) ∧
        ((∃ old ∈ current, old.holder = holder) ∧
            handleLease site (.write holder) current detail = some detail ∨
          handleLease site (.write holder) current detail =
            some (site.record (holder.getD "") detail))) := by
  cases current with
  | none => exact .inr ⟨by simp, .inr (handleLease_create site detail holder)⟩
  | some old =>
    rcases handleLease_update_cases site detail holder old with
      ⟨hnil, hpanic⟩ | ⟨new, oldHolder, rfl, hold, hhandled⟩
    · exact .inl ⟨⟨old, rfl, hnil⟩, hpanic⟩
    · refine .inr ⟨by simp [hold], ?_⟩
      by_cases hsame : new = oldHolder
      · rw [if_pos hsame] at hhandled
        exact .inl ⟨⟨old, rfl, by rw [hold, hsame]⟩, hhandled⟩
      · rw [if_neg hsame] at hhandled
        exact .inr hhandled

/-- A resync has no effect. -/
theorem handleLease_resync (current : Option LeaseState) :
    handleLease site .resync current detail = some detail := by
  cases current with
  | none => rfl
  | some old =>
    rw [handleLease, updateLease, if_pos (site.hasPrefix_lease _ _), if_neg (by simp)]
    rfl

end Handlers

end HealthCheck
