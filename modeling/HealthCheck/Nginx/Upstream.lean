import HealthCheck.Objects
import HealthCheck.Nginx.Check

/-!
# The upstreams of a service

`addServerInNginxUpstream` turns an `Endpoints` object into upstream blocks. How the
service is checked comes from free-form labels, which `getHcFromEndpoints` reads. Indexing
past the end of a split label is a panic, modelled by `none`.
-/

namespace HealthCheck.Nginx

def vsHcIsEnable : String := "virtualservices.kubernetes.io/hc_enabled"
def vsHcIsEnableAllPorts : String := "virtualservices.kubernetes.io/hc_enabled_allports"
def vsHcProtocolPort : String := "virtualservices.kubernetes.io/hc_protocol_port"
def vsHcHttpProtocol : String := "virtualservices.kubernetes.io/hc_http_protocol"
def vsHcMonitorParam : String := "virtualservices.kubernetes.io/hc_monitor_parameter"

/-- A port to check. -/
structure VsHealthCheckPort where
  protocol : String
  port : ℤ
  deriving DecidableEq, Repr

/-- How a service is checked. -/
structure VsHealthCheck where
  isEnable : String := ""
  isEnableAllPorts : String := ""
  hcPorts : List VsHealthCheckPort := []
  httpProtocol : String := ""
  protocol : String := ""
  port : ℤ := 0
  interval : ℤ := 0
  timeout : ℤ := 0
  sucChecks : ℤ := 0
  failChecks : ℤ := 0
  deriving DecidableEq, Repr

/-- One port in `getK8sPortsToVsHcPort`. -/
def k8sPortToVsHcPort (httpProtocol : String) (port : EndpointPort) : Option VsHealthCheckPort :=
  if port.protocol = "TCP" then
    some ⟨if httpProtocol ≠ "" then httpProtocol else "TCP", port.port⟩
  else if port.protocol = "UDP" then some ⟨"UDP", port.port⟩
  else if port.protocol = "SCTP" then some ⟨"SCTP", port.port⟩
  else none

/-- `getK8sPortsToVsHcPort`. -/
def getK8sPortsToVsHcPort (endpoints : Endpoints) : List VsHealthCheckPort :=
  endpoints.subsets.flatMap fun sub =>
    sub.ports.filterMap (k8sPortToVsHcPort (endpoints.metadata.label vsHcHttpProtocol))

/-- The loop that sets `HcPorts` if some subset has ports. -/
def fillHcPorts (endpoints : Endpoints) (hc : VsHealthCheck) : VsHealthCheck :=
  if endpoints.subsets.any fun sub => sub.ports ≠ [] then
    { hc with hcPorts := getK8sPortsToVsHcPort endpoints }
  else hc

/-- What `getHcFromEndpoints` does with the label `hc_protocol_port`. -/
def readProtocolPort (endpoints : Endpoints) (hc : VsHealthCheck) : Option VsHealthCheck :=
  let protocolPort := endpoints.metadata.label vsHcProtocolPort
  if protocolPort ≠ "" then
    if Go.equalFold hc.isEnableAllPorts "false" then
      match Go.split protocolPort '-' with
      | port :: protocol :: _ =>
        -- the error of `Atoi` is dropped
        let port := (Go.atoi port).1
        some { hc with port := port, protocol := protocol, hcPorts := [⟨protocol, Go.int32 port⟩] }
      | _ => none
    else some (fillHcPorts endpoints hc)
  else some { hc with protocol := if hc.httpProtocol ≠ "" then hc.httpProtocol else "tcp" }

/-- `strconv.Atoi` with a default in place of the error. -/
def atoiOr (text : String) (default : ℤ) : ℤ :=
  if (Go.atoi text).2 then (Go.atoi text).1 else default

/-- What `getHcFromEndpoints` does with the label `hc_monitor_parameter`. -/
def readMonitorParam (param : String) (hc : VsHealthCheck) : Option VsHealthCheck :=
  if param ≠ "" then
    match Go.split param '-' with
    | interval :: timeout :: sucChecks :: failChecks :: _ =>
      some { hc with
        interval := atoiOr interval 3000, timeout := atoiOr timeout 1000,
        sucChecks := atoiOr sucChecks 3, failChecks := atoiOr failChecks 5 }
    | _ => none
  else some { hc with interval := 3000, timeout := 1000, sucChecks := 3, failChecks := 5 }

/-- What `getHcFromEndpoints` has set before it comes to the label `hc_protocol_port`. -/
def readEnabled (endpoints : Endpoints) : VsHealthCheck :=
  let label := endpoints.metadata.label
  let allPorts :=
    if label vsHcIsEnableAllPorts ≠ "" then label vsHcIsEnableAllPorts else "true"
  let hc : VsHealthCheck := { isEnable := label vsHcIsEnable, isEnableAllPorts := allPorts }
  let hc := if Go.equalFold allPorts "true" then fillHcPorts endpoints hc else hc
  { hc with httpProtocol := label vsHcHttpProtocol }

/-- `getHcFromEndpoints`. -/
def getHcFromEndpoints (endpoints : Endpoints) : Option VsHealthCheck :=
  if endpoints.metadata.label vsHcIsEnable ≠ "" then
    (readProtocolPort endpoints (readEnabled endpoints)).bind
      (readMonitorParam (endpoints.metadata.label vsHcMonitorParam))
  else some {}

/-- The loop of `getEndpointsAddress` over one list of addresses. One variable serves all
rounds, so an address without IP repeats the one before. -/
def epAddresses : String → List EndpointAddress → List String
  | _, [] => []
  | ip, addr :: addrs =>
    let ip := if addr.ip ≠ "" then addr.ip else ip
    ip :: epAddresses ip addrs

/-- `getEndpointsAddress`, reduced to the IPs. -/
def getEndpointsAddress (k8sEp : Endpoints) : Except String (List String) :=
  let epAddr := k8sEp.subsets.flatMap fun sub =>
    epAddresses "" sub.addresses ++ epAddresses "" sub.notReadyAddresses
  if epAddr = [] then .error "endpoints address is nil" else .ok epAddr

/-- `getEndpointsPort`. -/
def getEndpointsPort (k8sEp : Endpoints) : Except String (List EndpointPort) :=
  let epPorts := k8sEp.subsets.flatMap fun sub => sub.ports
  if epPorts = [] then .error "endpoints ports is nil" else .ok epPorts

/-- A directive without a block. -/
structure Directive where
  directive : String
  args : List String
  deriving DecidableEq, Repr

/-- A directive at the top level of an upstream file, with its block. -/
structure BlockDirective extends Directive where
  block : List Directive
  deriving DecidableEq, Repr

/-- The argument of the `server` line of an address. -/
def serverArgument (ip : String) (port : ℤ) : String := ip ++ ":" ++ toString port

/-- One `server` line for each address. -/
def serverDirectives (ips : List String) (port : ℤ) : List Directive :=
  ips.map fun ip => ⟨"server", [serverArgument ip port]⟩

/-- The arguments that every `check` begins with. -/
def checkArray (hcPara : VsHealthCheck) : List String :=
  ["interval=" ++ toString hcPara.interval, "rise=" ++ toString hcPara.sucChecks,
    "fall=" ++ toString hcPara.failChecks, "timeout=" ++ toString hcPara.timeout]

def checkDirective (hcPara : VsHealthCheck) (args : List String) : Directive :=
  ⟨"check", checkArray hcPara ++ args⟩

def expectAlive : Directive := ⟨"check_http_expect_alive", ["http_2xx", "http_3xx"]⟩

/-- The file for a protocol. -/
def upstreamFile (protocol : String) : UpstreamFile :=
  if Go.toUpper protocol = "UDP" then .stream else .http

/-- The block for the one port of the label `hc_protocol_port`. -/
def singlePortBlock (hcPara : VsHealthCheck) (ips : List String) : List Directive :=
  serverDirectives ips hcPara.port ++
    [checkDirective hcPara ["type=" ++ hcPara.protocol]] ++
    if Go.equalFold "http" hcPara.protocol then [expectAlive] else []

/-- What a TCP or HTTP port adds to the block of the http file. -/
def tcpPortBlock (hcPara : VsHealthCheck) (ips : List String) (port : EndpointPort) :
    List Directive :=
  let type := if hcPara.httpProtocol ≠ "" then hcPara.httpProtocol else port.protocol
  serverDirectives ips port.port ++
    [checkDirective hcPara ["type=" ++ Go.toLower type]] ++
    if Go.equalFold "http" hcPara.httpProtocol then [expectAlive] else []

/-- What a UDP port adds to the block of the stream file. -/
def udpPortBlock (hcPara : VsHealthCheck) (ips : List String) (port : EndpointPort) :
    List Directive :=
  serverDirectives ips port.port ++
    [checkDirective hcPara ["default_down=true", "type=" ++ Go.toLower port.protocol]]

/-- The blocks that the loop over the ports fills. -/
structure ServerBlocks where
  tcpServerBlockParam : List Directive := []
  udpServerBlockParam : List Directive := []
  deriving DecidableEq, Repr

/-- One round of the loop over the ports. -/
def addPort (hcPara : VsHealthCheck) (epAddress : Except String (List String))
    (blocks : ServerBlocks) (port : EndpointPort) : ServerBlocks :=
  match epAddress with
  | .error _ => blocks
  | .ok ips =>
    let protocolHc := Go.toUpper port.protocol
    if protocolHc = "HTTP" ∨ protocolHc = "TCP" then
      { blocks with
        tcpServerBlockParam := blocks.tcpServerBlockParam ++ tcpPortBlock hcPara ips port }
    else if protocolHc = "UDP" then
      { blocks with
        udpServerBlockParam := blocks.udpServerBlockParam ++ udpPortBlock hcPara ips port }
    else blocks

/-- The name of the upstream of an `Endpoints` object. -/
def svcNsName (endpoints : Endpoints) : String :=
  virtualServiceFullValue endpoints.metadata.name endpoints.metadata.nameSpace

def upstreamDirective (name : String) (block : List Directive) : BlockDirective :=
  { directive := "upstream", args := [name], block := block }

/-- A block is written unless it is empty. -/
def writeNonempty (file : UpstreamFile) (name : String) (block : List Directive) :
    List (UpstreamFile × BlockDirective) :=
  if block ≠ [] then [(file, upstreamDirective name block)] else []

/-- `addServerInNginxUpstream` up to its calls of `writeNginxUpstream`: the blocks that it
hands over, in order, each with its file. -/
def addServerInNginxUpstream (endpoints : Endpoints) :
    Option (Except String (List (UpstreamFile × BlockDirective))) :=
  (getHcFromEndpoints endpoints).map fun hcPara =>
    if Go.equalFold hcPara.isEnableAllPorts "false" then
      (getEndpointsAddress endpoints).map fun ips =>
        [(upstreamFile hcPara.protocol,
          upstreamDirective (svcNsName endpoints) (singlePortBlock hcPara ips))]
    else
      (getEndpointsPort endpoints).map fun epPorts =>
        let blocks := epPorts.foldl (addPort hcPara (getEndpointsAddress endpoints)) {}
        writeNonempty .http (svcNsName endpoints) blocks.tcpServerBlockParam ++
          writeNonempty .stream (svcNsName endpoints) blocks.udpServerBlockParam

/-! ### Addresses -/

/-- The addresses of an object, ready or not. -/
def addressesOf (ep : Endpoints) : List EndpointAddress :=
  ep.subsets.flatMap fun sub => sub.addresses ++ sub.notReadyAddresses

/-- The IPs of an object, ready or not, as `getEndpointsAddress` lists them. -/
def listedIps (ep : Endpoints) : List String :=
  ep.subsets.flatMap fun sub =>
    epAddresses "" sub.addresses ++ epAddresses "" sub.notReadyAddresses

theorem epAddresses_eq {addrs : List EndpointAddress} (ip : String)
    (haddrs : ∀ addr ∈ addrs, addr.ip ≠ "") :
    epAddresses ip addrs = addrs.map EndpointAddress.ip := by
  induction addrs generalizing ip with
  | nil => rfl
  | cons addr addrs ih =>
    obtain ⟨haddr, haddrs⟩ := List.forall_mem_cons.mp haddrs
    rw [epAddresses, if_pos haddr, ih addr.ip haddrs, List.map_cons]

theorem listedIps_eq {ep : Endpoints} (hips : ∀ addr ∈ addressesOf ep, addr.ip ≠ "") :
    listedIps ep = (addressesOf ep).map EndpointAddress.ip := by
  rw [listedIps, addressesOf, List.map_flatMap]
  apply List.flatMap_congr
  intro sub hsub
  have hsubIps : ∀ addr ∈ sub.addresses ++ sub.notReadyAddresses, addr.ip ≠ "" :=
    fun addr haddr => hips addr (List.mem_flatMap.mpr ⟨sub, hsub, haddr⟩)
  obtain ⟨hready, hnotReady⟩ := List.forall_mem_append.mp hsubIps
  rw [epAddresses_eq "" hready, epAddresses_eq "" hnotReady, List.map_append]

theorem getEndpointsAddress_eq {ep : Endpoints} (hips : ∀ addr ∈ addressesOf ep, addr.ip ≠ "") :
    getEndpointsAddress ep = if addressesOf ep = [] then .error "endpoints address is nil"
      else .ok ((addressesOf ep).map EndpointAddress.ip) := by
  have haddress : getEndpointsAddress ep = if listedIps ep = [] then
      .error "endpoints address is nil" else .ok (listedIps ep) := rfl
  simp only [haddress, listedIps_eq hips, List.map_eq_nil_iff]

/-! ### What the loop over the ports leaves in the blocks -/

/-- The ports of an object. -/
def portsOf (ep : Endpoints) : List EndpointPort := ep.subsets.flatMap EndpointSubset.ports

/-- The file of a port when all ports are checked; `none` if its protocol is neither. -/
def portFile (port : EndpointPort) : Option UpstreamFile :=
  let protocolHc := Go.toUpper port.protocol
  if protocolHc = "HTTP" ∨ protocolHc = "TCP" then some .http
  else if protocolHc = "UDP" then some .stream
  else none

/-- What a port adds to the block of its file. -/
def portBlock (hcPara : VsHealthCheck) (ips : List String) :
    UpstreamFile → EndpointPort → List Directive
  | .http, port => tcpPortBlock hcPara ips port
  | .stream, port => udpPortBlock hcPara ips port

/-- The block of a file. -/
def ServerBlocks.of (blocks : ServerBlocks) : UpstreamFile → List Directive
  | .http => blocks.tcpServerBlockParam
  | .stream => blocks.udpServerBlockParam

variable (hcPara : VsHealthCheck) (ips : List String)

theorem addPort_of (blocks : ServerBlocks) (port : EndpointPort) (file : UpstreamFile) :
    (addPort hcPara (.ok ips) blocks port).of file =
      blocks.of file ++
        if portFile port = some file then portBlock hcPara ips file port else [] := by
  unfold addPort portFile
  dsimp only
  split
  · cases file <;> simp [ServerBlocks.of, portBlock]
  · split <;> cases file <;> simp [ServerBlocks.of, portBlock]

/-- Each file gets what its ports add. -/
theorem foldl_addPort_of (ports : List EndpointPort) (blocks : ServerBlocks)
    (file : UpstreamFile) :
    (ports.foldl (addPort hcPara (.ok ips)) blocks).of file = blocks.of file ++
      (ports.filter fun port => portFile port = some file).flatMap
        (portBlock hcPara ips file) := by
  induction ports generalizing blocks with
  | nil => simp
  | cons port ports ih =>
    rw [List.foldl_cons, ih, addPort_of, List.append_assoc, List.filter_cons]
    by_cases hfile : portFile port = some file
    · simp [hfile]
    · simp [hfile]

/-- Without addresses the loop writes nothing. -/
theorem foldl_addPort_error (e : String) (ports : List EndpointPort) (blocks : ServerBlocks) :
    ports.foldl (addPort hcPara (.error e)) blocks = blocks := by
  induction ports with
  | nil => rfl
  | cons port ports ih => exact ih

end HealthCheck.Nginx
