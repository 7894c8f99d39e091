import HealthCheck.Nginx.Labels
import HealthCheck.Nginx.Requests

/-!
# Which servers an upstream has

The addresses and the ports of an object are gathered over all its subsets and then combined, so
that every address gets a server line for every port. In the object an address has only the ports
of its own subsets. This file compares the two.
-/

namespace HealthCheck.Nginx

/-- The protocol whose ports belong to a file. -/
def fileProtocol : UpstreamFile → String
  | .http => "TCP"
  | .stream => "UDP"

/-- The object has an endpoint with this IP and port for the file: some subset has both. -/
def IsEndpoint (ep : Endpoints) (file : UpstreamFile) (ip : String) (port : ℤ) : Prop :=
  ∃ sub ∈ ep.subsets, (∃ addr ∈ sub.addresses ++ sub.notReadyAddresses, addr.ip = ip) ∧
    ∃ p ∈ sub.ports, p.protocol = fileProtocol file ∧ p.port = port

instance (ep : Endpoints) (file : UpstreamFile) (ip : String) (port : ℤ) :
    Decidable (IsEndpoint ep file ip port) :=
  inferInstanceAs (Decidable (∃ sub ∈ ep.subsets, _))

/-- The arguments of the server lines that `addServerInNginxUpstream` writes to a file. -/
def serverAddresses (ep : Endpoints) (file : UpstreamFile) : List String :=
  (generated ep file).flatMap fun b =>
    (b.block.filter Directive.isServer).flatMap Directive.args

/-- The servers written to each file are the endpoints of the object, and no block is written to a
file without servers. -/
def ServersExact (ep : Endpoints) : Prop :=
  ∀ file,
    (∀ text, text ∈ serverAddresses ep file ↔
      ∃ ip port, IsEndpoint ep file ip port ∧ text = ip ++ ":" ++ toString port) ∧
    ((∀ ip port, ¬ IsEndpoint ep file ip port) → generated ep file = [])

/-- The labels and ports of an object ask for servers on the port, in the file. The labels are read
without a panic; in the mode for all ports, some subset has the port and its protocol leads to the
file; otherwise the port and the file are those of the label `hc_protocol_port`. -/
def Requested (ep : Endpoints) (file : UpstreamFile) (port : ℤ) : Prop :=
  ∃ hc ∈ getHcFromEndpoints ep,
    if singlePort ep then upstreamFile hc.protocol = file ∧ hc.port = port
    else ∃ p ∈ portsOf ep, portFile p = some file ∧ p.port = port

/-- The ports of the requested checks. -/
theorem exists_requestedChecks_iff {ep : Endpoints}
    (henabled : ep.metadata.label vsHcIsEnable = "true") (file : UpstreamFile) (port : ℤ) :
    (∃ check ∈ requestedChecks ep file, check.port = port) ↔ Requested ep file port := by
  unfold requestedChecks Requested
  cases hhc : getHcFromEndpoints ep with
  | none => simp
  | some hc =>
    have hread := (of_getHcFromEndpoints (isEnable_ne_empty henabled) hhc).isEnableAllPorts
    simp only [hread, Option.mem_some, exists_eq_left']
    cases singlePort ep with
    | true =>
      by_cases hfile : upstreamFile hc.protocol = file
      · simp [hfile, singleCheck]
      · simp [hfile]
    | false => simp [portCheck, and_assoc]

/-- The servers written to a file: every listed IP with every requested port. -/
theorem mem_serverAddresses_iff {ep : Endpoints}
    (henabled : ep.metadata.label vsHcIsEnable = "true") (file : UpstreamFile) (text : String) :
    text ∈ serverAddresses ep file ↔
      ∃ ip port, ip ∈ listedIps ep ∧ Requested ep file port ∧
        text = ip ++ ":" ++ toString port := by
  simp only [← exists_requestedChecks_iff henabled]
  rw [serverAddresses, generated_eq]
  by_cases hnone : listedIps ep = [] ∨ requestedChecks ep file = []
  · rw [if_pos hnone]
    rcases hnone with hips | hchecks
    · simp [hips]
    · simp [hchecks]
  · rw [if_neg hnone, List.flatMap_singleton, upstreamDirective, servers_checksBlock]
    simp only [List.mem_flatMap, List.mem_map, Prod.exists, List.mem_product]
    constructor
    · rintro ⟨line, ⟨port, ip, ⟨⟨check, hcheck, rfl⟩, hip⟩, rfl⟩, htext⟩
      exact ⟨ip, check.port, hip, ⟨check, hcheck, rfl⟩, List.mem_singleton.mp htext⟩
    · rintro ⟨ip, port, hip, ⟨check, hcheck, rfl⟩, rfl⟩
      exact ⟨serverLine (check.port, ip), ⟨check.port, ip, ⟨⟨check, hcheck, rfl⟩, hip⟩, rfl⟩,
        List.mem_singleton.mpr rfl⟩

/-- A file without servers gets no block. -/
theorem generated_eq_nil_iff {ep : Endpoints}
    (henabled : ep.metadata.label vsHcIsEnable = "true") (file : UpstreamFile) :
    generated ep file = [] ↔ listedIps ep = [] ∨ ∀ port, ¬ Requested ep file port := by
  have hchecks : requestedChecks ep file = [] ↔ ∀ port, ¬ Requested ep file port := by
    simp only [← exists_requestedChecks_iff henabled]
    constructor
    · rintro hnil port ⟨check, hcheck, -⟩
      rw [hnil] at hcheck
      cases hcheck
    · intro hnone
      exact List.eq_nil_iff_forall_not_mem.mpr fun check hcheck =>
        hnone check.port ⟨check, hcheck, rfl⟩
  rw [generated_eq, ← hchecks]
  by_cases hnone : listedIps ep = [] ∨ requestedChecks ep file = []
  · simp [hnone]
  · simp [hnone]

/-- An IP and a port in front of and behind the last colon of a server argument. -/
theorem server_text_injective {ip ip' : String} {port port' : ℤ}
    (h : ip ++ ":" ++ toString port = ip' ++ ":" ++ toString port') : ip = ip' ∧ port = port' := by
  have hline : serverLine (port, ip) = serverLine (port', ip') := by rw [serverLine, serverLine, h]
  have hpair := serverLine_injective hline
  exact ⟨(Prod.mk.inj hpair).2, (Prod.mk.inj hpair).1⟩

/-- The IP of an endpoint is listed, unless some IP is empty: then the one before it may be listed
in its place. -/
theorem IsEndpoint.mem_listedIps {ep : Endpoints} (hips : ∀ addr ∈ addressesOf ep, addr.ip ≠ "")
    {file : UpstreamFile} {ip : String} {port : ℤ} (h : IsEndpoint ep file ip port) :
    ip ∈ listedIps ep := by
  obtain ⟨sub, hsub, ⟨addr, haddr, rfl⟩, -⟩ := h
  rw [listedIps_eq hips]
  exact List.mem_map_of_mem (List.mem_flatMap.mpr ⟨sub, hsub, haddr⟩)

/-- The servers are the listed addresses with the ports that are asked for. -/
theorem serversExact_iff_listed {ep : Endpoints}
    (henabled : ep.metadata.label vsHcIsEnable = "true") :
    ServersExact ep ↔ ∀ file port,
      (∀ ip, IsEndpoint ep file ip port → ip ∈ listedIps ep ∧ Requested ep file port) ∧
      (Requested ep file port → ∀ ip ∈ listedIps ep, IsEndpoint ep file ip port) := by
  constructor
  · intro hexact file port
    constructor
    · intro ip hendpoint
      obtain ⟨ip', port', hlisted, hrequested, htext⟩ :=
        (mem_serverAddresses_iff henabled file _).mp
        (((hexact file).1 _).mpr ⟨ip, port, hendpoint, rfl⟩)
      obtain ⟨rfl, rfl⟩ := server_text_injective htext
      exact ⟨hlisted, hrequested⟩
    · intro hrequested ip hlisted
      obtain ⟨ip', port', hendpoint, htext⟩ := ((hexact file).1 _).mp
        ((mem_serverAddresses_iff henabled file _).mpr ⟨ip, port, hlisted, hrequested, rfl⟩)
      obtain ⟨rfl, rfl⟩ := server_text_injective htext
      exact hendpoint
  · intro hcondition file
    refine ⟨fun text => ?_, fun hnone => ?_⟩
    · rw [mem_serverAddresses_iff henabled]
      constructor
      · rintro ⟨ip, port, hlisted, hrequested, rfl⟩
        exact ⟨ip, port, (hcondition file port).2 hrequested ip hlisted, rfl⟩
      · rintro ⟨ip, port, hendpoint, rfl⟩
        obtain ⟨hlisted, hrequested⟩ := (hcondition file port).1 ip hendpoint
        exact ⟨ip, port, hlisted, hrequested, rfl⟩
    · rw [generated_eq_nil_iff henabled]
      refine or_iff_not_imp_left.mpr fun hsome port hrequested => ?_
      obtain ⟨ip, hlisted⟩ := List.exists_mem_of_ne_nil _ hsome
      exact hnone ip port ((hcondition file port).2 hrequested ip hlisted)

/-- The servers are exactly the endpoints if and only if every endpoint has its address listed and
its port asked for, and every listed address has an endpoint on every port that is asked for. Unless
some IP is empty, the listed addresses are those of the object. -/
theorem servers_exact_iff {ep : Endpoints} (henabled : ep.metadata.label vsHcIsEnable = "true") :
    (ServersExact ep ↔ ∀ file port,
      (∀ ip, IsEndpoint ep file ip port → ip ∈ listedIps ep ∧ Requested ep file port) ∧
      (Requested ep file port → ∀ ip ∈ listedIps ep, IsEndpoint ep file ip port)) ∧
    ((∀ addr ∈ addressesOf ep, addr.ip ≠ "") →
      (ServersExact ep ↔ ∀ file port,
        (∀ ip, IsEndpoint ep file ip port → Requested ep file port) ∧
        (Requested ep file port → ∀ addr ∈ addressesOf ep, IsEndpoint ep file addr.ip port))) := by
  refine ⟨serversExact_iff_listed henabled, fun hips => ?_⟩
  rw [serversExact_iff_listed henabled]
  refine forall₂_congr fun file port => and_congr (forall_congr' fun ip => ?_) ?_
  · exact forall_congr' fun hendpoint => and_iff_right (hendpoint.mem_listedIps hips)
  · rw [listedIps_eq hips, List.forall_mem_map]

/-- When all ports are checked and the labels are read without a panic, every port of an endpoint
is asked for. -/
theorem requested_of_isEndpoint {ep : Endpoints} (hall : singlePort ep = false)
    (hread : (getHcFromEndpoints ep).isSome = true) {file : UpstreamFile} {ip : String} {port : ℤ}
    (h : IsEndpoint ep file ip port) : Requested ep file port := by
  obtain ⟨sub, hsub, -, p, hp, hprotocol, rfl⟩ := h
  obtain ⟨hc, hhc⟩ := Option.isSome_iff_exists.mp hread
  refine ⟨hc, hhc, ?_⟩
  rw [hall, if_neg Bool.false_ne_true]
  refine ⟨p, List.mem_flatMap.mpr ⟨sub, hsub, hp⟩, ?_, rfl⟩
  rw [portFile, hprotocol]
  cases file <;> decide

/-- An object that is checked on all ports. -/
def checkedOn (subsets : List EndpointSubset) : Endpoints where
  metadata := { name := "web", nameSpace := "prod",
                labels := (∅ : Go.Map String String).insert vsHcIsEnable "true" }
  subsets := subsets

/-- One subset with two ports. -/
def oneSubset : Endpoints := checkedOn
  [{ addresses := [⟨"10.0.0.7", none, none⟩], notReadyAddresses := [⟨"10.0.0.8", none, none⟩]
     ports := [⟨"http", 80, "TCP", none⟩, ⟨"dns", 53, "UDP", none⟩] }]

/-- With one subset every address has every port. -/
theorem servers_exact_oneSubset : ServersExact oneSubset := by
  have hips : ∀ addr ∈ addressesOf oneSubset, addr.ip ≠ "" := by decide
  refine ((servers_exact_iff (by decide)).2 hips).mpr fun file port => ⟨?_, ?_⟩
  · intro ip hendpoint
    exact requested_of_isEndpoint (by decide) (by decide) hendpoint
  · rintro ⟨hc, -, hrequested⟩
    rw [if_neg (by decide)] at hrequested
    obtain ⟨p, hp, hfile, rfl⟩ := hrequested
    have hcross : ∀ p ∈ portsOf oneSubset, portFile p = some file → ∀ addr ∈ addressesOf oneSubset,
        IsEndpoint oneSubset file addr.ip p.port := by
      cases file <;> decide
    exact hcross p hp hfile

/-- Two subsets with different ports. -/
def twoSubsets : Endpoints := checkedOn
  [{ addresses := [⟨"10.0.0.7", none, none⟩], ports := [⟨"http", 80, "TCP", none⟩] },
   { addresses := [⟨"10.0.0.8", none, none⟩], ports := [⟨"http", 8080, "TCP", none⟩] }]

/-- The address of the one subset is written with the port of the other. -/
theorem servers_of_twoSubsets : ¬ ServersExact twoSubsets := by
  intro hexact
  have hmem : "10.0.0.7:8080" ∈ serverAddresses twoSubsets .http := by decide +kernel
  obtain ⟨ip, port, hendpoint, htext⟩ := ((hexact .http).1 _).mp hmem
  have htext : "10.0.0.7" ++ ":" ++ toString (8080 : ℤ) = ip ++ ":" ++ toString port := htext
  obtain ⟨rfl, rfl⟩ := server_text_injective htext
  exact absurd hendpoint (by decide)

end HealthCheck.Nginx
