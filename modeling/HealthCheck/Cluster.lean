import HealthCheck.Endpoints.Edits
import HealthCheck.Endpoints.Predicates
import HealthCheck.PollRuns
import HealthCheck.Reconcile

/-!
# The controller among other programs

The state of this file is what one node's controller and the other programs of the cluster
work on together: the stored objects, the events that the informers have not delivered yet
and the requests that the reconcile worker has not taken up yet. Every write that changes
an object queues an event, in the order of the writes; delivering an event runs the
predicate of its kind; a predicate that returns true queues a request. No request to the
API server fails.
-/

namespace HealthCheck

open Api Api.Client

/-- A watch event about the node's `Lbhc` object. -/
inductive LbhcEvent where
  | created (labels : Go.Map String String)
  | updated
  deriving DecidableEq

/-- What happened to an `Endpoints` object. -/
inductive EpChange where
  | created (new : Endpoints)
  | updated (old new : Endpoints)
  | deleted (old : Endpoints)
  deriving DecidableEq

/-- A watch event about an `Endpoints` object. -/
structure EpEvent where
  name : String
  nameSpace : String
  change : EpChange
  deriving DecidableEq

/-- The event that a write of the `Lbhc` object causes. -/
def lbhcChange : Option Lbhc → Option Lbhc → List LbhcEvent
  | none, some new => [.created new.metadata.labels]
  | some old, some new => if old = new then [] else [.updated]
  | _, none => []

/-- The event that a write of an `Endpoints` object causes. -/
def epChange : Option Endpoints → Option Endpoints → List EpChange
  | none, some new => [.created new]
  | some old, some new => if old = new then [] else [.updated old new]
  | some old, none => [.deleted old]
  | none, none => []

/-- The test by which the Update predicate decides whether the node answers for a service. -/
def Ownership.answersFor (o : Ownership) (svcName : String) : Bool :=
  o.globalHostName == (o.globalSvcLeaseDetail.lookup svcName).getD "" || o.isLeader

/-- A node that owns every service, and the services of the cluster. -/
structure Controller where
  crd : Crd
  ownership : Ownership
  owns_all : ∀ svcName, ownership.owns svcName = true
  services : String → String → Option Service

/-- The key of an object; names and namespaces are not empty. -/
structure ObjectKey where
  name : String
  nameSpace : String
  name_ne : name ≠ ""
  nameSpace_ne : nameSpace ≠ ""

/-- The objects, the events and the requests. -/
structure Cluster where
  lbhc : Server Lbhc
  poller : Poller
  store : EpStore
  lbhcEvents : List LbhcEvent
  epEvents : List EpEvent
  requests : List (String × String)

namespace Cluster

/-- Writing the `Lbhc` object. -/
def setLbhc (s : Cluster) (server : Server Lbhc) : Cluster :=
  { s with
    lbhc := server
    lbhcEvents := s.lbhcEvents ++ lbhcChange s.lbhc.object server.object }

/-- Writing an `Endpoints` object. -/
def setEp (s : Cluster) (name nameSpace : String) (server : Server Endpoints) : Cluster :=
  { s with
    store := s.store.set name nameSpace server
    epEvents := s.epEvents ++
      (epChange (s.store name nameSpace).object server.object).map (EpEvent.mk name nameSpace) }

/-- Running a program on an `Endpoints` object. -/
def runEp (s : Cluster) (name nameSpace : String) (p : Client Endpoints Bool) : Cluster :=
  s.setEp name nameSpace (alone p (s.store name nameSpace)).2

/-- Queueing a request. The queue holds a request once. -/
def request (s : Cluster) (name nameSpace : String) : Cluster :=
  { s with requests := s.requests.insert (name, nameSpace) }

/-- One round of a loop of `modifyEpBaseOnLbhc`. -/
def visit (dst : Side) (s : Cluster) (entry : String × String × Bool) : Cluster :=
  match target dst.verdict entry with
  | some (name, nameSpace, ip) => s.runEp name nameSpace (moveIfIn dst ip)
  | none => s

/-- The first branch of `Reconcile`, for the object just fetched. -/
def reconcileLbhc (lbhc : Lbhc) (ups downs : RangeOrder lbhc.downEpList) (s : Cluster) : Cluster :=
  let moved := downs.entries.foldl (visit .notReady) (ups.entries.foldl (visit .ready) s)
  moved.setLbhc (alone (cleanHcBaseEpUpStatus lbhc) moved.lbhc).2

/-- The branch of `Reconcile` for the service with the key of the request. -/
def reconcileSvc (c : Controller) (name nameSpace : String) (s : Cluster) : Cluster :=
  match c.services name nameSpace with
  | some svc => s.runEp name nameSpace (syncSvcLabelToEp svc)
  | none => s

/-- `Reconcile` for a queued request. The branch for `Endpoints` objects writes nginx's files
only. -/
def reconcile (c : Controller) (ups downs : ∀ l, RangeOrder l) (name nameSpace : String)
    (s : Cluster) : Cluster :=
  let taken : Cluster := { s with requests := s.requests.filter (· ≠ (name, nameSpace)) }
  let carried :=
    match s.lbhc.object with
    | some lbhc =>
      if (name, nameSpace) = (c.crd.crdName, c.crd.crdNamespace) then
        taken.reconcileLbhc lbhc (ups _) (downs _)
      else taken
    | none => taken
  carried.reconcileSvc c name nameSpace

/-- The address that `syncLbhcWithEndpoints` finds in an entry of the object's service. -/
def syncTarget (name nameSpace : String) (entry : String × String × Bool) : Option String :=
  if entry.1 = virtualServiceFullValue name nameSpace ∧ entry.2.2 = false then
    match Go.split entry.2.1 ':' with
    | [ip, _] => some ip
    | _ => none
  else none

/-- Moving addresses of one object to the not ready side. -/
def moveDowns (name nameSpace : String) (ips : List String) (s : Cluster) : Cluster :=
  ips.foldl (fun s ip => s.runEp name nameSpace (moveIfIn .notReady ip)) s

/-- `syncLbhcWithEndpoints`. -/
def syncLbhcWithEndpoints (order : ∀ l, RangeOrder l) (name nameSpace : String) (s : Cluster) :
    Cluster :=
  if name = "" ∨ nameSpace = "" then s
  else
    match s.lbhc.object with
    | some lbhc =>
      s.moveDowns name nameSpace
        ((order lbhc.downEpList).entries.filterMap (syncTarget name nameSpace))
    | none => s

/-- The Create, Update and Delete predicates for `Endpoints` objects. A predicate that returns
true queues a request for the object. -/
def handleEp (c : Controller) (order : ∀ l, RangeOrder l) (s : Cluster) (e : EpEvent) : Cluster :=
  let svcName := virtualServiceFullValue e.name e.nameSpace
  match e.change with
  | .created new => if new.managed then s.request e.name e.nameSpace else s
  | .updated old new =>
    if new.managed ∧ new.metadata.resourceVersion ≠ old.metadata.resourceVersion then
      if c.ownership.answersFor svcName then
        if !compareEpSubsets new.subsets old.subsets ||
            !compareMapsStrings new.metadata.labels old.metadata.labels then
          (s.syncLbhcWithEndpoints order e.name e.nameSpace).request e.name e.nameSpace
        else s
      else s.request e.name e.nameSpace
    else s
  | .deleted old =>
    if old.managed then
      (s.setLbhc (alone (deleteLbhcEpElemByOne svcName) s.lbhc).2).request e.name e.nameSpace
    else s

end Cluster

/-- Whether the predicate for the `Lbhc` object returns true. The node's own object has the
name `CrdName`, and an update that changes it changes its version. -/
def LbhcEvent.passes : LbhcEvent → Bool
  | .created labels => (labels.lookup vsDomain).isSome
  | .updated => true

/-- What happens in the cluster. Other programs create or update an object by `write` and
delete it by `remove`. -/
inductive ClusterOp where
  | poll (servers : ServersNgxList)
  | write (key : ObjectKey) (ep : Endpoints)
  | remove (key : ObjectKey)
  | createEp (key : ObjectKey) (svc : Service) (pod : PodAddress)
  | deleteEp (key : ObjectKey) (podIp : String)
  | deliverLbhc
  | deliverEp (order : ∀ l, RangeOrder l)
  | reconcile (name nameSpace : String) (ups downs : ∀ l, RangeOrder l)

namespace Cluster

/-- The object as another program sends it, without a version. -/
def unversioned (ep : Endpoints) : Endpoints :=
  { ep with metadata := { ep.metadata with resourceVersion := none } }

/-- One operation. Delivering and reconciling do nothing when nothing is queued. -/
def step (c : Controller) (s : Cluster) : ClusterOp → Cluster
  | .poll servers =>
    let r := alone (syncHealthCheck c.crd c.ownership servers s.poller) s.lbhc
    { s.setLbhc r.2 with poller := r.1 }
  | .write key ep =>
    s.setEp key.name key.nameSpace ((s.store key.name key.nameSpace).update (unversioned ep)).2
  | .remove key => s.setEp key.name key.nameSpace (s.store key.name key.nameSpace).remove
  | .createEp key svc pod => s.runEp key.name key.nameSpace (HealthCheck.createEp svc pod)
  | .deleteEp key podIp => s.runEp key.name key.nameSpace (HealthCheck.deleteEp podIp)
  | .deliverLbhc =>
    match s.lbhcEvents with
    | e :: rest =>
      let left : Cluster := { s with lbhcEvents := rest }
      if e.passes then left.request c.crd.crdName c.crd.crdNamespace else left
    | [] => s
  | .deliverEp order =>
    match s.epEvents with
    | e :: rest => handleEp c order { s with epEvents := rest } e
    | [] => s
  | .reconcile name nameSpace ups downs =>
    if (name, nameSpace) ∈ s.requests then s.reconcile c ups downs name nameSpace else s

/-- The controller starts: the informers list the objects that exist. -/
def start (lbhc : Server Lbhc) (store : EpStore) (listed : List EpEvent) : Cluster where
  lbhc := lbhc
  poller := {}
  store := store
  lbhcEvents := lbhcChange none lbhc.object
  epEvents := listed
  requests := []

/-- Nothing is pending. -/
def Quiescent (s : Cluster) : Prop := s.lbhcEvents = [] ∧ s.epEvents = [] ∧ s.requests = []

/-- No address that is marked down is ready. -/
def DownNotServed (s : Cluster) : Prop :=
  ∀ lbhc ∈ s.lbhc.object, ∀ name nameSpace ip port : String,
    '_' ∉ name.toList → '_' ∉ nameSpace.toList → ':' ∉ ip.toList → ':' ∉ port.toList →
    lbhc.downEpList.entry (virtualServiceFullValue name nameSpace)
      (ip ++ String.singleton ':' ++ port) = some false →
    ¬ HasAddr (s.store name nameSpace) .ready ip

end Cluster

end HealthCheck
