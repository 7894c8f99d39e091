import HealthCheck.Api.Server
import HealthCheck.Go.Maps
import HealthCheck.Go.Strings

/-!
# The objects the controller works on

The Kubernetes objects carry the fields that the controller reads or writes. A list
that the API server stores empty is read back as nil, so nil and empty lists are
not told apart; the map in the `Lbhc` specification keeps the distinction, because
`compareMaps` makes it.
-/

namespace HealthCheck

/-- Metadata of a Kubernetes object. An empty resource version is `none`. -/
structure ObjectMeta where
  name : String
  nameSpace : String
  labels : Go.Map String String := ∅
  annotations : Go.Map String String := ∅
  resourceVersion : Option ℕ := none
  deriving DecidableEq

/-- Indexing a label map: a missing label reads as the empty string. -/
def ObjectMeta.label (m : ObjectMeta) (key : String) : String := (m.labels.lookup key).getD ""

/-- The metadata with its resource version replaced. -/
def ObjectMeta.withVersion (m : ObjectMeta) (v : ℕ) : ObjectMeta :=
  { m with resourceVersion := some v }

/-- The pod an endpoint address points to. -/
structure ObjectReference where
  kind : String
  nameSpace : String
  name : String
  deriving DecidableEq, Repr

/-- One address of an `Endpoints` object. -/
structure EndpointAddress where
  ip : String
  nodeName : Option String := none
  targetRef : Option ObjectReference := none
  deriving DecidableEq, Repr

/-- One port of an `Endpoints` object. -/
structure EndpointPort where
  name : String
  port : ℤ
  protocol : String
  appProtocol : Option String := none
  deriving DecidableEq, Repr

/-- Addresses that share their ports. -/
structure EndpointSubset where
  addresses : List EndpointAddress := []
  notReadyAddresses : List EndpointAddress := []
  ports : List EndpointPort := []
  deriving DecidableEq, Repr

/-- The `Endpoints` object of a service. -/
structure Endpoints where
  metadata : ObjectMeta
  subsets : List EndpointSubset := []
  deriving DecidableEq

/-- A target port is a number or the name of a container port. -/
inductive IntOrString where
  | int (value : ℤ)
  | str (value : String)
  deriving DecidableEq, Repr

/-- `IntOrString.IntValue`, which drops the error of a name that is no number. -/
def IntOrString.intValue : IntOrString → ℤ
  | .int value => value
  | .str value => (Go.atoi value).1

/-- One port of a `Service`. -/
structure ServicePort where
  name : String
  port : ℤ
  targetPort : IntOrString
  protocol : String
  appProtocol : Option String := none
  deriving DecidableEq, Repr

/-- A `Service`, with the fields the controller reads. -/
structure Service where
  metadata : ObjectMeta
  type : String := ""
  loadBalancerIP : String := ""
  ports : List ServicePort := []
  deriving DecidableEq

/-- The verdicts on the endpoints of one service: `false` marks an endpoint down. -/
abbrev EpStatus := Go.Map String Bool

/-- The verdicts of an `Lbhc` object by service; `none` is Go's nil map. -/
abbrev DownEpList := Option (Go.Map String EpStatus)

/-- The custom resource that holds the verdicts of one node. -/
structure Lbhc where
  metadata : ObjectMeta
  downEpList : DownEpList := none
  deriving DecidableEq

/-- The core `Endpoints` kind may be created by an update and overwritten without a
version. -/
instance : Api.Resource Endpoints where
  resourceVersion ep := ep.metadata.resourceVersion
  stamp v ep := { ep with metadata := ep.metadata.withVersion v }
  createOnUpdate := true
  unconditionalUpdate := true
  resourceVersion_stamp _ _ := rfl
  stamp_stamp _ _ _ := rfl

/-- A custom resource is neither created by an update nor updated without a version. -/
instance : Api.Resource Lbhc where
  resourceVersion lbhc := lbhc.metadata.resourceVersion
  stamp v lbhc := { lbhc with metadata := lbhc.metadata.withVersion v }
  createOnUpdate := false
  unconditionalUpdate := false
  resourceVersion_stamp _ _ := rfl
  stamp_stamp _ _ _ := rfl

/-- `Lbhc` objects with the same content have the same verdicts. -/
theorem downEpList_eq_of_stamp_eq {a b : Lbhc}
    (h : Api.Resource.stamp 0 a = Api.Resource.stamp 0 b) : a.downEpList = b.downEpList := by
  have hlist := congrArg Lbhc.downEpList h
  exact hlist

/-- `Lbhc` objects with the same content have the same labels. -/
theorem labels_eq_of_stamp_eq {a b : Lbhc}
    (h : Api.Resource.stamp 0 a = Api.Resource.stamp 0 b) :
    a.metadata.labels = b.metadata.labels := by
  have hlabels := congrArg (fun lbhc => lbhc.metadata.labels) h
  exact hlabels

/-- `VirtualServiceFullValue`, the key of a service in `DownEpList` and its upstream name. -/
def virtualServiceFullValue (name nameSpace : String) : String := name ++ "_" ++ nameSpace

/-- The label that marks the objects the controller manages. -/
def vsDomain : String := "network.kubernetes.io"

/-- The value the controller gives that label on objects of its own. -/
def vsDomainName : String := "virtual-service"

/-- The full value splits back into name and namespace; Kubernetes names have no
underscore. -/
theorem split_virtualServiceFullValue {name nameSpace : String} (hname : '_' ∉ name.toList)
    (hspace : '_' ∉ nameSpace.toList) :
    Go.split (virtualServiceFullValue name nameSpace) '_' = [name, nameSpace] := by
  have hsep : "_" = String.singleton '_' := rfl
  rw [virtualServiceFullValue, hsep, Go.split_join hname hspace]

/-- A key that splits into two parts is the full value of these parts. -/
theorem eq_virtualServiceFullValue {key name nameSpace : String}
    (h : Go.split key '_' = [name, nameSpace]) :
    key = virtualServiceFullValue name nameSpace := by
  have hsep : "_" = String.singleton '_' := rfl
  rw [virtualServiceFullValue, hsep, ← Go.eq_join_of_split h]

end HealthCheck
