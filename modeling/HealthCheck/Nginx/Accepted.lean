import HealthCheck.Net.Addresses
import HealthCheck.Nginx.Labels

/-!
# Which upstreams nginx accepts

The generator of the upstreams and the parser of nginx agree on the form of a `check`,
but not on its values: the generator passes label values through as they are, while the
parser has its own table of types and its own bounds. What follows compares the two for
every choice of labels.
-/

namespace HealthCheck.Nginx

/-- nginx accepts a directive in an upstream of the file. -/
def Directive.accepted (file : UpstreamFile) (d : Directive) : Bool :=
  if d.directive = "check" then (upstreamCheck file d.args).isSome
  else if d.directive = "server" then d.args.any fun arg => (serverPort arg).isSome
  else true

/-- nginx accepts a block in the file. -/
def Accepted (file : UpstreamFile) (block : List Directive) : Prop :=
  ∀ d ∈ block, d.accepted file = true

instance (file : UpstreamFile) (block : List Directive) : Decidable (Accepted file block) :=
  List.decidableBAll _ block

theorem accepted_append {file : UpstreamFile} {a b : List Directive} :
    Accepted file (a ++ b) ↔ Accepted file a ∧ Accepted file b :=
  List.forall_mem_append

/-! ### Checks -/

section Checks

variable {file : UpstreamFile} {hc : VsHealthCheck} {type : String}

/-- The numbers of a check as nginx has read them. -/
def VsHealthCheck.conf (hc : VsHealthCheck) : CheckConf :=
  { interval := hc.interval.toNat, rise := hc.sucChecks.toNat, fall := hc.failChecks.toNat,
    timeout := hc.timeout.toNat }

/-- nginx reads the numbers of a check back, unless one of them is below one. -/
theorem upstreamCheck_checkArray (hfits : hc.Fits) (args : List String) :
    upstreamCheck file (checkArray hc ++ args) =
      if hc.Positive then args.foldlM (checkArg file) hc.conf else none := by
  simp only [upstreamCheck, checkArray, List.cons_append, List.nil_append, List.foldlM_cons,
    checkArg_interval, checkArg_rise, checkArg_fall, checkArg_timeout,
    positive_toString hfits.interval, positive_toString hfits.sucChecks,
    positive_toString hfits.failChecks, positive_toString hfits.timeout]
  by_cases hinterval : 1 ≤ hc.interval
  · by_cases hrise : 1 ≤ hc.sucChecks
    · by_cases hfall : 1 ≤ hc.failChecks
      · by_cases htimeout : 1 ≤ hc.timeout
        · simp [VsHealthCheck.Positive, VsHealthCheck.conf, hinterval, hrise, hfall, htimeout]
        · simp [VsHealthCheck.Positive, hinterval, hrise, hfall, htimeout]
      · simp [VsHealthCheck.Positive, hinterval, hrise, hfall]
    · simp [VsHealthCheck.Positive, hinterval, hrise]
  · simp [VsHealthCheck.Positive, hinterval]

/-- nginx accepts a check exactly if its numbers are at least one and its type is in the table.
Arguments before the type do no harm if they are accepted themselves. -/
theorem accepted_checkDirective (hfits : hc.Fits) {extra : List String}
    (hextra : ∀ conf, (extra.foldlM (checkArg file) conf).isSome) :
    Accepted file [checkDirective hc (extra ++ ["type=" ++ type])] ↔
      hc.Positive ∧ type ∈ checkTypes file := by
  obtain ⟨conf, hconf⟩ := Option.isSome_iff_exists.mp (hextra hc.conf)
  simp only [Accepted, List.forall_mem_singleton, Directive.accepted, checkDirective,
    if_true, upstreamCheck_checkArray hfits, List.foldlM_append, hconf, Option.bind_eq_bind,
    Option.bind_some, List.foldlM_cons, checkArg_type, checkType_eq]
  by_cases hpositive : hc.Positive
  · by_cases htype : type ∈ checkTypes file
    · simp [hpositive, htype]
    · simp [hpositive, htype]
  · simp [hpositive]

end Checks

/-! ### Servers -/

/-- An address in dotted decimal form. -/
def IsIPv4 (ip : String) : Prop :=
  ∃ a b c d : ℕ, a < 256 ∧ b < 256 ∧ c < 256 ∧ d < 256 ∧
    ip = toString a ++ "." ++ toString b ++ "." ++ toString c ++ "." ++ toString d

/-- An address in dotted decimal form is an IPv4 address. -/
theorem IsIPv4.net {ip : String} (hip : IsIPv4 ip) : Net.IsIPv4 ip.toList := by
  obtain ⟨a, b, c, d, ha, hb, hc, hd, rfl⟩ := hip
  have hoctet : ∀ {n : ℕ}, n < 256 → Net.IsOctet (toString n).toList := by
    intro n hn
    have hdigits : ∀ c ∈ (toString n).toList, c.isDigit = true := fun _ => isDigit_of_mem_toString
    rw [Nat.toString_eq_ofList_toDigits, String.toList_ofList] at hdigits ⊢
    have hvalue : Nat.ofDigitChars 10 (Nat.toDigits 10 n) 0 = n :=
      Nat.ofDigitChars_toDigits (by decide) (by decide)
    exact ⟨by simp, hdigits, by omega⟩
  refine ⟨_, _, _, _, ⟨hoctet ha, hoctet hb, hoctet hc, hoctet hd⟩, ?_⟩
  simp [String.toList_append]

theorem IsIPv4.ne_empty {ip : String} (hip : IsIPv4 ip) : ip ≠ "" := by
  rintro rfl
  exact hip.net.ne_nil rfl

theorem accepted_serverDirectives {file : UpstreamFile} {ips : List String} {port : ℤ}
    (hips : ∀ ip ∈ ips, IsIPv4 ip) (hsome : ips ≠ []) (hfits : port ≤ maxIntT) :
    Accepted file (serverDirectives ips port) ↔ 1 ≤ port ∧ port ≤ 65535 := by
  have hone : ∀ ip ∈ ips, Directive.accepted file ⟨"server", [ip ++ ":" ++ toString port]⟩ = true ↔
      1 ≤ port ∧ port ≤ 65535 := by
    intro ip hip
    rw [← serverPort_isSome (hips ip hip).net.colon_not_mem hfits]
    simp [Directive.accepted]
  obtain ⟨ip, hip⟩ := List.exists_mem_of_ne_nil ips hsome
  simp only [Accepted, serverDirectives, List.forall_mem_map]
  exact ⟨fun hall => (hone ip hip).mp (hall ip hip), fun hport ip hip => (hone ip hip).mpr hport⟩

theorem accepted_expectAlive (file : UpstreamFile) (condition : Bool) :
    Accepted file (if condition then [expectAlive] else []) := by
  cases condition <;> cases file <;> decide

/-! ### Blocks -/

/-- Every block that is written is accepted in the file it is written to. -/
def AllAccepted (ep : Endpoints) : Prop :=
  ∀ written, addServerInNginxUpstream ep = some (.ok written) →
    ∀ w ∈ written, Accepted w.1 w.2.block

/-- The lower case of a port's own protocol is a type of the port's file. -/
theorem toLower_mem_checkTypes {port : EndpointPort} {file : UpstreamFile}
    (hfile : portFile port = some file) : Go.toLower port.protocol ∈ checkTypes file := by
  have hlower := Go.toLower_toUpper port.protocol
  unfold portFile at hfile
  dsimp only at hfile
  rw [← hlower]
  split at hfile
  · next htcp =>
    cases hfile
    rcases htcp with h | h <;> rw [h] <;> decide
  · split at hfile
    · next hudp =>
      cases hfile
      rw [hudp]
      decide
    · cases hfile

/-- The blocks of the files are accepted if what each port adds to its file is. -/
theorem accepted_portBlocks {hc : VsHealthCheck} {ips : List String} {ports : List EndpointPort} :
    (∀ file, Accepted file ((ports.filter fun port => portFile port = some file).flatMap
      (portBlock hc ips file))) ↔
    ∀ port ∈ ports, ∀ file, portFile port = some file →
      Accepted file (portBlock hc ips file port) := by
  simp only [Accepted, List.mem_flatMap, List.mem_filter, decide_eq_true_eq]
  constructor
  · intro h port hport file hfile d hd
    exact h file d ⟨port, ⟨hport, hfile⟩, hd⟩
  · rintro h file d ⟨port, ⟨hport, hfile⟩, hd⟩
    exact h port hport file hfile d hd

section Blocks

variable {hc : VsHealthCheck} {ips : List String} (hips : ∀ ip ∈ ips, IsIPv4 ip)
  (hsome : ips ≠ []) (hfits : hc.Fits)

include hips hsome hfits

theorem accepted_singlePortBlock {file : UpstreamFile} :
    Accepted file (singlePortBlock hc ips) ↔
      (1 ≤ hc.port ∧ hc.port ≤ 65535) ∧ hc.Positive ∧ hc.protocol ∈ checkTypes file := by
  have hcheck : Accepted file [checkDirective hc ["type=" ++ hc.protocol]] ↔
      hc.Positive ∧ hc.protocol ∈ checkTypes file :=
    @accepted_checkDirective file hc hc.protocol hfits [] fun _ => rfl
  rw [singlePortBlock, accepted_append, accepted_append,
    accepted_serverDirectives hips hsome hfits.port, hcheck]
  exact and_iff_left (accepted_expectAlive file _)

theorem accepted_tcpPortBlock {port : EndpointPort} (hport : 1 ≤ port.port ∧ port.port ≤ 65535)
    (hfile : portFile port = some .http) :
    Accepted .http (tcpPortBlock hc ips port) ↔
      hc.Positive ∧ (hc.httpProtocol = "" ∨ Go.toLower hc.httpProtocol ∈ checkTypes .http) := by
  have hcheck : ∀ type, Accepted .http [checkDirective hc ["type=" ++ type]] ↔
      hc.Positive ∧ type ∈ checkTypes .http :=
    fun type => @accepted_checkDirective .http hc type hfits [] fun _ => rfl
  have hmax : port.port ≤ maxIntT := by
    simp only [maxIntT]
    omega
  rw [tcpPortBlock, accepted_append, accepted_append,
    accepted_serverDirectives hips hsome hmax, hcheck,
    and_iff_left (accepted_expectAlive .http _), and_iff_right hport]
  by_cases hhttp : hc.httpProtocol = ""
  · have htype := toLower_mem_checkTypes hfile
    simp [hhttp, htype]
  · simp [hhttp]

theorem accepted_udpPortBlock {port : EndpointPort} (hport : 1 ≤ port.port ∧ port.port ≤ 65535)
    (hfile : portFile port = some .stream) :
    Accepted .stream (udpPortBlock hc ips port) ↔ hc.Positive := by
  have hcheck : Accepted .stream
      [checkDirective hc ["default_down=true", "type=" ++ Go.toLower port.protocol]] ↔
      hc.Positive ∧ Go.toLower port.protocol ∈ checkTypes .stream :=
    @accepted_checkDirective .stream hc _ hfits ["default_down=true"] fun _ => rfl
  have hmax : port.port ≤ maxIntT := by
    simp only [maxIntT]
    omega
  rw [udpPortBlock, accepted_append, accepted_serverDirectives hips hsome hmax, hcheck,
    and_iff_right hport,
    and_iff_left (toLower_mem_checkTypes hfile)]

/-- All that the ports add is accepted exactly if the numbers and, for a TCP port, the label
`hc_http_protocol` are. -/
theorem accepted_ports {ports : List EndpointPort}
    (hports : ∀ port ∈ ports, 1 ≤ port.port ∧ port.port ≤ 65535) :
    (∀ file, Accepted file ((ports.filter fun port => portFile port = some file).flatMap
      (portBlock hc ips file))) ↔
      ((∃ port ∈ ports, portFile port ≠ none) → hc.Positive) ∧
      ((∃ port ∈ ports, portFile port = some .http) →
        hc.httpProtocol = "" ∨ Go.toLower hc.httpProtocol ∈ checkTypes .http) := by
  have hblock : ∀ port ∈ ports, ∀ file, portFile port = some file →
      (Accepted file (portBlock hc ips file port) ↔ hc.Positive ∧ (file = .http →
        hc.httpProtocol = "" ∨ Go.toLower hc.httpProtocol ∈ checkTypes .http)) := by
    intro port hport file hfile
    cases file with
    | http =>
      rw [portBlock, accepted_tcpPortBlock hips hsome hfits (hports port hport) hfile]
      simp
    | stream =>
      rw [portBlock, accepted_udpPortBlock hips hsome hfits (hports port hport) hfile]
      simp
  rw [accepted_portBlocks]
  constructor
  · intro h
    refine ⟨?_, ?_⟩
    · rintro ⟨port, hport, hfile⟩
      obtain ⟨file, hfile⟩ := Option.ne_none_iff_exists'.mp hfile
      exact ((hblock port hport file hfile).mp (h port hport file hfile)).1
    · rintro ⟨port, hport, hfile⟩
      exact ((hblock port hport .http hfile).mp (h port hport .http hfile)).2 rfl
  · rintro ⟨hpositive, htype⟩ port hport file hfile
    refine (hblock port hport file hfile).mpr ⟨hpositive ⟨port, hport, ?_⟩, ?_⟩
    · rw [hfile]
      exact Option.some_ne_none file
    · rintro rfl
      exact htype ⟨port, hport, hfile⟩

end Blocks

/-! ### All labels -/

/-- The controller writes an upstream for an enabled object. -/
def Writes (ep : Endpoints) : Prop :=
  LabelsShaped ep ∧ addressesOf ep ≠ [] ∧
    (singlePort ep = true ∨ ∃ port ∈ portsOf ep, portFile port ≠ none)

/-- The values of the labels that nginx can work with. -/
structure LabelsOk (ep : Endpoints) : Prop where
  monitorParam : MonitorParamOk (ep.metadata.label vsHcMonitorParam)
  protocolPort : singlePort ep = true → ∃ port type rest,
    Go.split (ep.metadata.label vsHcProtocolPort) '-' = port :: type :: rest ∧
      (1 ≤ (Go.atoi port).1 ∧ (Go.atoi port).1 ≤ 65535) ∧
      (type ∈ checkTypes .http ∨ type = "udp")
  httpProtocol : singlePort ep = false → (∃ port ∈ portsOf ep, portFile port = some .http) →
    ep.metadata.label vsHcHttpProtocol = "" ∨
      Go.toLower (ep.metadata.label vsHcHttpProtocol) ∈ checkTypes .http

/-- The types that are accepted in the file that the type itself leads to. -/
theorem mem_checkTypes_upstreamFile (type : String) :
    type ∈ checkTypes (upstreamFile type) ↔ type ∈ checkTypes .http ∨ type = "udp" := by
  have hhttp : ∀ t ∈ checkTypes .http, Go.toUpper t ≠ "UDP" := by decide
  have hstream : ∀ t ∈ checkTypes .stream, Go.toUpper t = "UDP" → t = "udp" := by decide
  unfold upstreamFile
  split
  · next hudp =>
    constructor
    · intro hmem
      exact Or.inr (hstream type hmem hudp)
    · rintro (hmem | rfl)
      · exact absurd hudp (hhttp type hmem)
      · decide
  · next hudp =>
    constructor
    · exact Or.inl
    · rintro (hmem | rfl)
      · exact hmem
      · exact absurd (by decide) hudp

theorem accepted_writeNonempty {file : UpstreamFile} {name : String} {block : List Directive} :
    (∀ w ∈ writeNonempty file name block, Accepted w.1 w.2.block) ↔ Accepted file block := by
  unfold writeNonempty
  split
  · simp [upstreamDirective]
  · next hempty =>
    rw [not_ne_iff.mp hempty]
    simp [Accepted]

section AllLabels

variable {ep : Endpoints} {hc : VsHealthCheck} (hhc : getHcFromEndpoints ep = some hc)
  (hips : ∀ addr ∈ addressesOf ep, IsIPv4 addr.ip)

include hhc hips

theorem allAccepted_single (hsingle : Go.equalFold hc.isEnableAllPorts "false" = true) :
    AllAccepted ep ↔ (addressesOf ep ≠ [] → Accepted (upstreamFile hc.protocol)
      (singlePortBlock hc ((addressesOf ep).map EndpointAddress.ip))) := by
  simp only [AllAccepted, addServerInNginxUpstream, hhc, Option.map_some, hsingle, if_true,
    getEndpointsAddress_eq fun addr haddr => (hips addr haddr).ne_empty]
  by_cases hnone : addressesOf ep = []
  · simp [hnone, Except.map]
  · simp [hnone, Except.map, upstreamDirective]

theorem allAccepted_allPorts (hall : Go.equalFold hc.isEnableAllPorts "false" = false) :
    AllAccepted ep ↔ (addressesOf ep ≠ [] → ∀ file, Accepted file
      (((portsOf ep).filter fun port => portFile port = some file).flatMap
        (portBlock hc ((addressesOf ep).map EndpointAddress.ip) file))) := by
  have hports : getEndpointsPort ep =
      if portsOf ep = [] then .error "endpoints ports is nil" else .ok (portsOf ep) := rfl
  simp only [AllAccepted, addServerInNginxUpstream, hhc, Option.map_some, hall,
    Bool.false_eq_true, if_false, hports,
    getEndpointsAddress_eq fun addr haddr => (hips addr haddr).ne_empty]
  by_cases hnoPorts : portsOf ep = []
  · simp [hnoPorts, Except.map, Accepted]
  · by_cases hnone : addressesOf ep = []
    · simp [hnoPorts, hnone, Except.map, foldl_addPort_error, writeNonempty]
    · have hblock := fun file => foldl_addPort_of hc ((addressesOf ep).map EndpointAddress.ip)
        (portsOf ep) {} file
      have hhttp := hblock .http
      have hstream := hblock .stream
      simp only [ServerBlocks.of, List.nil_append] at hhttp hstream
      simp only [hnoPorts, hnone, if_false, Except.map, Option.some.injEq, Except.ok.injEq,
        forall_eq', List.forall_mem_append, accepted_writeNonempty, hhttp, hstream, ne_eq,
        not_false_eq_true, forall_const]
      constructor
      · rintro ⟨h₁, h₂⟩ (_ | _)
        · exact h₁
        · exact h₂
      · exact fun h => ⟨h .http, h .stream⟩

end AllLabels

section Read

variable {ep : Endpoints} {hc : VsHealthCheck} (hread : LabelsRead ep hc)
  (hlabels : LabelsShaped ep)

include hread

include hlabels in
/-- With a single port, the values read are acceptable exactly if the labels are. -/
theorem labelsOk_single (hsingle : singlePort ep = true) :
    (1 ≤ hc.port ∧ hc.port ≤ 65535) ∧ hc.Positive ∧
      hc.protocol ∈ checkTypes (upstreamFile hc.protocol) ↔ LabelsOk ep := by
  rw [mem_checkTypes_upstreamFile, hread.positive]
  constructor
  · rintro ⟨hport, hmonitor, htype⟩
    refine ⟨hmonitor, fun _ => ?_, fun hall => absurd (hsingle.symm.trans hall) (by decide)⟩
    have hlength : 2 ≤ (Go.split (ep.metadata.label vsHcProtocolPort) '-').length := by
      refine (hlabels.2 hsingle).resolve_left fun hempty => ?_
      have hzero := hread.unset hempty
      omega
    match hsplit : Go.split (ep.metadata.label vsHcProtocolPort) '-', hlength with
    | port :: type :: rest, _ =>
      obtain ⟨hportEq, htypeEq⟩ := hread.protocolPort hsingle port type rest hsplit
      rw [hportEq] at hport
      rw [htypeEq] at htype
      exact ⟨port, type, rest, rfl, hport, htype⟩
  · intro hok
    obtain ⟨port, type, rest, hsplit, hport, htype⟩ := hok.protocolPort hsingle
    obtain ⟨hportEq, htypeEq⟩ := hread.protocolPort hsingle port type rest hsplit
    rw [hportEq, htypeEq]
    exact ⟨hport, hok.monitorParam, htype⟩

/-- With all ports, the values read are acceptable exactly if the labels are. -/
theorem labelsOk_allPorts (hall : singlePort ep = false)
    (hsome : ∃ port ∈ portsOf ep, portFile port ≠ none) :
    ((∃ port ∈ portsOf ep, portFile port ≠ none) → hc.Positive) ∧
      ((∃ port ∈ portsOf ep, portFile port = some .http) →
        hc.httpProtocol = "" ∨ Go.toLower hc.httpProtocol ∈ checkTypes .http) ↔ LabelsOk ep := by
  rw [hread.positive, hread.httpProtocol]
  constructor
  · rintro ⟨hmonitor, hhttp⟩
    exact ⟨hmonitor hsome, fun hsingle => absurd (hall.symm.trans hsingle) (by decide),
      fun _ => hhttp⟩
  · intro hok
    exact ⟨fun _ => hok.monitorParam, hok.httpProtocol hall⟩

end Read

section Iff

variable {ep : Endpoints} {hc : VsHealthCheck} (hhc : getHcFromEndpoints ep = some hc)
  (hread : LabelsRead ep hc) (hlabels : LabelsShaped ep)
  (hips : ∀ addr ∈ addressesOf ep, IsIPv4 addr.ip)

include hhc hread hlabels hips

theorem allAccepted_iff_of_single (hsingle : singlePort ep = true) :
    AllAccepted ep ↔ (Writes ep → LabelsOk ep) := by
  rw [allAccepted_single hhc hips (hread.isEnableAllPorts.trans hsingle)]
  have hblock : addressesOf ep ≠ [] → _ := fun hne =>
    (accepted_singlePortBlock (List.forall_mem_map.mpr hips) (mt List.map_eq_nil_iff.mp hne)
      hread.fits).trans (labelsOk_single hread hlabels hsingle)
  constructor
  · intro h hwrites
    exact (hblock hwrites.2.1).mp (h hwrites.2.1)
  · intro h hne
    exact (hblock hne).mpr (h ⟨hlabels, hne, Or.inl hsingle⟩)

theorem allAccepted_iff_of_allPorts (hall : singlePort ep = false)
    (hports : ∀ port ∈ portsOf ep, 1 ≤ port.port ∧ port.port ≤ 65535) :
    AllAccepted ep ↔ (Writes ep → LabelsOk ep) := by
  rw [allAccepted_allPorts hhc hips (hread.isEnableAllPorts.trans hall)]
  have hblock := fun hne : addressesOf ep ≠ [] =>
    accepted_ports (List.forall_mem_map.mpr hips) (mt List.map_eq_nil_iff.mp hne) hread.fits hports
  by_cases hsome : ∃ port ∈ portsOf ep, portFile port ≠ none
  · have hok := labelsOk_allPorts hread hall hsome
    constructor
    · intro h hwrites
      exact hok.mp ((hblock hwrites.2.1).mp (h hwrites.2.1))
    · intro h hne
      exact (hblock hne).mpr (hok.mpr (h ⟨hlabels, hne, Or.inr hsome⟩))
  · -- no port has a protocol that is written
    refine iff_of_true (fun hne => (hblock hne).mpr ⟨fun h => absurd h hsome, ?_⟩) ?_
    · rintro ⟨port, hport, hfile⟩
      have hne : portFile port ≠ none := hfile ▸ Option.some_ne_none UpstreamFile.http
      exact absurd ⟨port, hport, hne⟩ hsome
    · intro hwrites
      rcases hwrites.2.2 with hsingle | h
      · exact absurd (hall.symm.trans hsingle) (by decide)
      · exact absurd h hsome

end Iff

/-- Which labels nginx can work with: of an enabled object with IPv4 addresses and valid ports,
every upstream that the controller writes is accepted, exactly if the labels are all right or
nothing is written at all. -/
theorem written_accepted_iff {ep : Endpoints}
    (henabled : ep.metadata.label vsHcIsEnable = "true")
    (hips : ∀ addr ∈ addressesOf ep, IsIPv4 addr.ip)
    (hports : ∀ port ∈ portsOf ep, 1 ≤ port.port ∧ port.port ≤ 65535) :
    AllAccepted ep ↔ (Writes ep → LabelsOk ep) := by
  have hshaped := getHcFromEndpoints_isSome (isEnable_ne_empty henabled)
  cases hhc : getHcFromEndpoints ep with
  | none =>
    rw [hhc] at hshaped
    have hnone : ¬ LabelsShaped ep := by simpa using hshaped
    refine iff_of_true ?_ fun hwrites => absurd hwrites.1 hnone
    intro written hwritten
    simp [addServerInNginxUpstream, hhc] at hwritten
  | some hc =>
    have hread := of_getHcFromEndpoints (isEnable_ne_empty henabled) hhc
    have hlabels : LabelsShaped ep := hshaped.mp (by rw [hhc]; rfl)
    cases hsingle : singlePort ep with
    | true => exact allAccepted_iff_of_single hhc hread hlabels hips hsingle
    | false => exact allAccepted_iff_of_allPorts hhc hread hlabels hips hsingle hports

/-- A service with one pod, checked on the one port that the label names. -/
def onePort (protocolPort : String) : Endpoints where
  metadata :=
    { name := "web", nameSpace := "prod",
      labels := (((∅ : Go.Map String String).insert vsHcIsEnable "true").insert
        vsHcIsEnableAllPorts "false").insert vsHcProtocolPort protocolPort }
  subsets := [{ addresses := [{ ip := "10.0.0.7" }],
                ports := [{ name := "http", port := 80, protocol := "TCP" }] }]

theorem onePort_isIPv4 (protocolPort : String) :
    ∀ addr ∈ addressesOf (onePort protocolPort), IsIPv4 addr.ip := by
  intro addr haddr
  obtain rfl : addr = { ip := "10.0.0.7" } := by simpa [addressesOf, onePort] using haddr
  exact ⟨10, 0, 0, 7, by decide, by decide, by decide, by decide, by decide +kernel⟩

theorem written_accepted_http : AllAccepted (onePort "80-http") :=
  (written_accepted_iff (by decide +kernel) (onePort_isIPv4 "80-http") (by decide +kernel)).mpr
    fun _ => ⟨by decide +kernel, fun _ => ⟨"80", "http", [], by decide +kernel, by decide +kernel,
      by decide⟩, fun hall => absurd hall (by decide +kernel)⟩

/-- The protocol of Kubernetes, in capitals, is not a type of nginx. -/
theorem written_rejected_upperCase :
    (onePort "80-TCP").metadata.label vsHcIsEnable = "true" ∧
    (∀ addr ∈ addressesOf (onePort "80-TCP"), IsIPv4 addr.ip) ∧
    (∀ port ∈ portsOf (onePort "80-TCP"), 1 ≤ port.port ∧ port.port ≤ 65535) ∧
    ¬ AllAccepted (onePort "80-TCP") := by
  refine ⟨by decide +kernel, onePort_isIPv4 "80-TCP", by decide +kernel, fun haccepted => ?_⟩
  let check : Directive :=
    ⟨"check", ["interval=3000", "rise=3", "fall=5", "timeout=1000", "type=TCP"]⟩
  have hwritten : addServerInNginxUpstream (onePort "80-TCP") = some (.ok [(.http,
      upstreamDirective "web_prod" [⟨"server", ["10.0.0.7:80"]⟩, check])]) := by
    decide +kernel
  have hcheck : check.accepted .http = true :=
    haccepted _ hwritten _ List.mem_cons_self check (by simp [upstreamDirective])
  exact absurd hcheck (by decide +kernel)

end HealthCheck.Nginx
