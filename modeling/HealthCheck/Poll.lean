import HealthCheck.Api.Client
import HealthCheck.DownEpList

/-!
# Polling nginx

`SyncHealthCheck` asks nginx for the peers it holds down and turns the answer into
verdicts. With peers reported, `eventOpt` works on the stored `Lbhc` object; with none
reported, `noneEventOpt` works on the copy cached in the package variable `GlobalLbhc`,
whose map it shares. Both are programs over the node's `Lbhc` object that take and
return the package variables.
-/

namespace HealthCheck

open Api Api.Client

/-- One peer in nginx's status listing. -/
structure HcNgxDetail where
  upstream : String
  name : String
  rise : ℤ
  deriving DecidableEq, Repr

/-- nginx's status listing, restricted by the query to the peers that are down. -/
structure ServersNgxList where
  total : ℤ
  http : List HcNgxDetail
  stream : List HcNgxDetail
  deriving DecidableEq, Repr

/-- The package variables that decide which services this node answers for. -/
structure Ownership where
  globalSvcIsLb : Go.Map String Bool := ∅
  globalSvcLeaseDetail : Go.Map String String := ∅
  globalHostName : String := ""
  isLeader : Bool := false

/-- The test of `checkSvcIsValid`: the lease holder answers for a load balancer service,
the elected leader for any other. -/
def Ownership.owns (o : Ownership) (svcName : String) : Bool :=
  if (o.globalSvcIsLb.lookup svcName).getD false then
    (o.globalSvcLeaseDetail.lookup svcName).getD "" != "" &&
      (o.globalSvcLeaseDetail.lookup svcName).getD "" == o.globalHostName
  else o.isLeader

/-- `checkSvcIsValid`, which also deletes a service that is not this node's. -/
def checkSvcIsValid (o : Ownership) (svcName : String) (l : DownEpList) : Bool × DownEpList :=
  if o.owns svcName then (true, l) else (false, l.deleteService svcName)

/-- One round of the two payload loops of `eventOpt`: the verdicts and the dictionary
`recordEpIpDownDict` after one reported peer. -/
def reportDown (o : Ownership) (state : DownEpList × Go.Map String Bool) (down : HcNgxDetail) :
    DownEpList × Go.Map String Bool :=
  let checked := checkSvcIsValid o down.upstream state.1
  if !checked.1 then (checked.2, state.2.insert down.name true)
  else if 0 < down.rise then state -- skip rise
  else
    (state.1.setService down.upstream
        (((state.1.service down.upstream).getD ∅).insert down.name false),
      state.2.insert down.name true)

/-- A payload loop of `eventOpt`. -/
def reportDowns (o : Ownership) (downs : List HcNgxDetail)
    (state : DownEpList × Go.Map String Bool) : DownEpList × Go.Map String Bool :=
  downs.foldl (reportDown o) state

/-- The recovery loop of `eventOpt`: whatever was down and is not recorded becomes up. -/
def recoverOthers (record : Go.Map String Bool) (l : DownEpList) : DownEpList :=
  l.mapStatus fun ep status => if !(record.lookup ep).getD false && !status then true else status

/-- The verdicts that `eventOpt` computes from the stored ones and the payload. -/
def eventDownEpList (o : Ownership) (servers : ServersNgxList) (l : DownEpList) : DownEpList :=
  let reported := reportDowns o servers.stream (reportDowns o servers.http (l, ∅))
  recoverOthers reported.2 reported.1

/-- The loop of `noneEventOpt`: every down verdict becomes up. -/
def allUp (l : DownEpList) : DownEpList :=
  l.mapStatus fun _ status => if !status then true else status

/-- The package variables of the polling goroutine. -/
structure Poller where
  globalLbhc : Lbhc := { metadata := { name := "", nameSpace := "" } }
  globalSyncLoop : ℕ := 0
  deriving DecidableEq

/-- The command line flags that name this node's `Lbhc` object. -/
structure Crd where
  crdName : String
  crdNamespace : String

/-- The object that `eventOpt` creates when there is none. -/
def Crd.newLbhc (crd : Crd) : Lbhc where
  metadata :=
    { name := crd.crdName
      nameSpace := crd.crdNamespace
      labels := (∅ : Go.Map String String).insert vsDomain vsDomainName }
  downEpList := some ∅

/-- The first half of `eventOpt`: fetch the object, or create it when there is none. Any
other error is only logged, and the function goes on with the zero value. -/
def fetchOrCreate (crd : Crd) : Api.Client Lbhc Lbhc := do
  match ← Api.Client.fetch with
  | .found lbhc => pure lbhc
  | .notFound =>
    match ← Api.Client.post crd.newLbhc with
    | .accepted lbhc => pure lbhc
    | _ => pure crd.newLbhc
  | .failed => pure { metadata := { name := "", nameSpace := "" } }

/-- Send `lbhc` and cache it when it is accepted; otherwise keep the package variables. -/
def sendAndCache (lbhc : Lbhc) (p : Poller) : Api.Client Lbhc Poller := do
  match ← Api.Client.retryOnConflict lbhc with
  | .accepted stored => pure { p with globalLbhc := stored }
  | _ => pure p

/-- `eventOpt`. -/
def eventOpt (crd : Crd) (o : Ownership) (servers : ServersNgxList) (p : Poller) :
    Api.Client Lbhc Poller := do
  let lbhc ← fetchOrCreate crd
  let downEpList := eventDownEpList o servers lbhc.downEpList
  let cached : Poller := { globalLbhc := lbhc, globalSyncLoop := p.globalSyncLoop + 1 }
  if compareMaps downEpList lbhc.downEpList then pure cached
  else sendAndCache { lbhc with downEpList := downEpList } cached

/-- `noneEventOpt`. After the first poll the local `lbhc` is a shallow copy of `GlobalLbhc`,
so the loop changes the cached map as well, whatever becomes of the update. -/
def noneEventOpt (p : Poller) : Api.Client Lbhc Poller := do
  if p.globalSyncLoop = 0 then
    match ← Api.Client.fetch with
    | .found lbhc =>
      let cached : Poller := { globalLbhc := lbhc, globalSyncLoop := 1 }
      if lbhc.downEpList.anyDown then
        sendAndCache { lbhc with downEpList := allUp lbhc.downEpList } cached
      else pure cached
    | _ => pure p
  else if p.globalLbhc.downEpList.anyDown then
    let shared : Lbhc := { p.globalLbhc with downEpList := allUp p.globalLbhc.downEpList }
    sendAndCache shared { p with globalLbhc := shared }
  else pure p

/-- The part of `SyncHealthCheck` that follows the answer of nginx. -/
def syncHealthCheck (crd : Crd) (o : Ownership) (servers : ServersNgxList) (p : Poller) :
    Api.Client Lbhc Poller :=
  if 0 < servers.total then eventOpt crd o servers p
  else if servers.total = 0 then noneEventOpt p
  else pure p

/-- `cleanHcBaseEpUpStatus` on the object that `Reconcile` fetched. A refused update is
only logged. -/
def cleanHcBaseEpUpStatus (lbhc : Lbhc) : Api.Client Lbhc Unit :=
  if lbhc.downEpList.anyUp then do
    let _ ← Api.Client.retryOnConflict { lbhc with downEpList := lbhc.downEpList.deleteUp }
    pure ()
  else pure ()

/-- `deleteLbhcEpElemByOne`. The result is false when the object could not be fetched. -/
def deleteLbhcEpElemByOne (svcName : String) : Api.Client Lbhc Bool := do
  match ← Api.Client.fetch with
  | .found lbhc =>
    let _ ← Api.Client.retryOnConflict
      { lbhc with downEpList := lbhc.downEpList.deleteService svcName }
    pure true
  | _ => pure false

/-- What an update of the stored `Lbhc` object with retries does. -/
theorem run_retryOnConflict_lbhc (faults : Faults) (lbhc : Lbhc) (n : ℕ) {current : Lbhc}
    {s : Server Lbhc} (hobj : s.object = some current) :
    (lbhc.metadata.resourceVersion = current.metadata.resourceVersion ∧
      faults.passes n 5 = true ∧ ∃ stored m t, t.object = some stored ∧
        stored.downEpList = lbhc.downEpList ∧
        stored.metadata.labels = lbhc.metadata.labels ∧
        run faults (retryOnConflict lbhc) n s = (.accepted stored, m, t)) ∨
    (¬ (lbhc.metadata.resourceVersion = current.metadata.resourceVersion ∧
        faults.passes n 5 = true) ∧ ∃ reply m, (∀ o, reply ≠ .accepted o) ∧
        run faults (retryOnConflict lbhc) n s = (reply, m, s)) := by
  rcases run_retryUpdate_of_version faults lbhc n 5 rfl hobj with
    ⟨hversion, hpasses, stored, m, t, hupdate, hrun⟩ | hrefused
  · obtain ⟨hstored, hcontent⟩ := Server.update_accepted hupdate
    exact .inl ⟨hversion, hpasses, stored, m, t, hstored, downEpList_eq_of_stamp_eq hcontent,
      labels_eq_of_stamp_eq hcontent, hrun⟩
  · exact .inr hrefused

end HealthCheck
