import HealthCheck.Nginx.Files
import Mathlib.Data.List.ProdSigma
import Mathlib.Data.List.Perm.Basic

/-!
# What an object asks for

An `Endpoints` object asks nginx to check some ports of its addresses. Its labels and ports
say which ports, and which lines follow the servers of each. The blocks that
`addServerInNginxUpstream` writes are determined by these checks and by the addresses, and
up to the order of the server lines they determine them in turn.
-/

namespace HealthCheck.Nginx

/-! ### Products of lists -/

section Products

variable {α β : Type*} {l l' : List α} {m m' : List β}

theorem countP_fst_product [DecidableEq α] (a : α) (l : List α) (m : List β) :
    (l ×ˢ m).countP (fun x => x.1 = a) = l.count a * m.length := by
  induction l with
  | nil => simp
  | cons x l ih =>
    rw [List.product_cons, List.countP_append, List.countP_map, ih, List.count_cons, Nat.add_mul,
      Nat.add_comm]
    by_cases hx : x = a
    · simp [hx, Function.comp_def]
    · simp [hx, Function.comp_def]

theorem countP_snd_product [DecidableEq β] (b : β) (l : List α) (m : List β) :
    (l ×ˢ m).countP (fun x => x.2 = b) = l.length * m.count b := by
  induction l with
  | nil => simp
  | cons x l ih =>
    rw [List.product_cons, List.countP_append, List.countP_map, ih, List.length_cons, Nat.add_mul,
      Nat.one_mul, Nat.add_comm]
    rfl

/-- Two products of nonempty lists agree up to order exactly if their factors do, provided that
the first factors have the same length. -/
theorem product_perm_product_iff [DecidableEq α] [DecidableEq β]
    (hlength : l.length = l'.length) (hl : l ≠ []) (hm : m ≠ []) :
    (l ×ˢ m).Perm (l' ×ˢ m') ↔ l.Perm l' ∧ m.Perm m' := by
  constructor
  · intro hperm
    have hlpos : 0 < l.length := List.length_pos_iff.mpr hl
    have hmpos : 0 < m.length := List.length_pos_iff.mpr hm
    have hmlength : m.length = m'.length := by
      have hproduct := hperm.length_eq
      rw [List.length_product, List.length_product, ← hlength] at hproduct
      exact Nat.eq_of_mul_eq_mul_left hlpos hproduct
    constructor
    · refine List.perm_iff_count.mpr fun a => ?_
      have hcount := hperm.countP_eq (fun x => x.1 = a)
      rw [countP_fst_product, countP_fst_product, ← hmlength] at hcount
      exact Nat.eq_of_mul_eq_mul_right hmpos hcount
    · refine List.perm_iff_count.mpr fun b => ?_
      have hcount := hperm.countP_eq (fun x => x.2 = b)
      rw [countP_snd_product, countP_snd_product, ← hlength] at hcount
      exact Nat.eq_of_mul_eq_mul_left hlpos hcount
  · rintro ⟨hl, hm⟩
    exact hl.product hm

end Products

/-! ### Checks -/

/-- The lines that follow the servers of a port: a `check` and, for HTTP, the answers that are
expected. -/
structure CheckLines where
  args : List String
  expects : Bool
  deriving DecidableEq, Repr

/-- A port to be checked, with the lines that follow its servers. -/
structure PortCheck where
  port : ℤ
  lines : CheckLines
  deriving DecidableEq, Repr

def CheckLines.directives (lines : CheckLines) : List Directive :=
  ⟨"check", lines.args⟩ :: if lines.expects then [expectAlive] else []

/-- The check for the one port of the label `hc_protocol_port`. -/
def singleCheck (hcPara : VsHealthCheck) : PortCheck where
  port := hcPara.port
  lines :=
    { args := checkArray hcPara ++ ["type=" ++ hcPara.protocol]
      expects := Go.equalFold "http" hcPara.protocol }

/-- The check for one of all ports. -/
def portCheck (hcPara : VsHealthCheck) (file : UpstreamFile) (port : EndpointPort) : PortCheck where
  port := port.port
  lines :=
    match file with
    | .http =>
      let type := if hcPara.httpProtocol ≠ "" then hcPara.httpProtocol else port.protocol
      { args := checkArray hcPara ++ ["type=" ++ Go.toLower type]
        expects := Go.equalFold "http" hcPara.httpProtocol }
    | .stream =>
      { args := checkArray hcPara ++ ["default_down=true", "type=" ++ Go.toLower port.protocol]
        expects := false }

/-- The checks that an object asks for in a file: one for the port of the label
`hc_protocol_port`, or one for each port whose protocol belongs to the file. Labels that are
too short ask for nothing. -/
def requestedChecks (ep : Endpoints) (file : UpstreamFile) : List PortCheck :=
  match getHcFromEndpoints ep with
  | none => []
  | some hcPara =>
    if Go.equalFold hcPara.isEnableAllPorts "false" then
      if upstreamFile hcPara.protocol = file then [singleCheck hcPara] else []
    else ((portsOf ep).filter fun port => portFile port = some file).map (portCheck hcPara file)

/-- The block that carries out the checks on the given addresses. -/
def checksBlock (ips : List String) (checks : List PortCheck) : List Directive :=
  checks.flatMap fun check => serverDirectives ips check.port ++ check.lines.directives

/-! ### What is written -/

theorem portBlock_eq (hcPara : VsHealthCheck) (ips : List String) (file : UpstreamFile)
    (port : EndpointPort) :
    portBlock hcPara ips file port =
      serverDirectives ips port.port ++ (portCheck hcPara file port).lines.directives := by
  cases file with
  | http => exact List.append_assoc _ _ _
  | stream => rfl

theorem singlePortBlock_eq (hcPara : VsHealthCheck) (ips : List String) :
    singlePortBlock hcPara ips = checksBlock ips [singleCheck hcPara] := by
  rw [checksBlock, List.flatMap_singleton]
  exact List.append_assoc _ _ _

theorem blocksFor_append (file : UpstreamFile) (a b : List (UpstreamFile × BlockDirective)) :
    blocksFor (a ++ b) file = blocksFor a file ++ blocksFor b file := by
  simp [blocksFor]

theorem blocksFor_writeNonempty (file file' : UpstreamFile) (name : String)
    (block : List Directive) :
    blocksFor (writeNonempty file' name block) file =
      if file' = file ∧ block ≠ [] then [upstreamDirective name block] else [] := by
  unfold writeNonempty blocksFor
  by_cases hblock : block = []
  · simp [hblock]
  · by_cases hfile : file' = file
    · simp [hblock, hfile]
    · simp [hblock, hfile]

theorem checksBlock_eq_nil {ips : List String} {checks : List PortCheck} :
    checksBlock ips checks = [] ↔ checks = [] := by
  cases checks with
  | nil => simp [checksBlock]
  | cons check checks => simp [checksBlock, CheckLines.directives]

theorem blocksFor_single (file : UpstreamFile) (hcPara : VsHealthCheck) (name : String)
    (ips : List String) :
    blocksFor [(upstreamFile hcPara.protocol,
      upstreamDirective name (singlePortBlock hcPara ips))] file =
      if upstreamFile hcPara.protocol = file then
        [upstreamDirective name (checksBlock ips [singleCheck hcPara])] else [] := by
  rw [singlePortBlock_eq]
  unfold blocksFor
  split
  · next hfile => simp [hfile]
  · next hfile => simp [hfile]

theorem foldl_addPort_eq (hcPara : VsHealthCheck) (ips : List String) (ports : List EndpointPort)
    (file : UpstreamFile) :
    (ports.foldl (addPort hcPara (.ok ips)) {}).of file =
      checksBlock ips ((ports.filter fun port => portFile port = some file).map
        (portCheck hcPara file)) := by
  rw [foldl_addPort_of, checksBlock, List.flatMap_map]
  have hempty : ({} : ServerBlocks).of file = [] := by cases file <;> rfl
  rw [hempty, List.nil_append]
  exact List.flatMap_congr fun port _ => portBlock_eq hcPara ips file port

section Written

variable {ep : Endpoints} {hcPara : VsHealthCheck} (hhc : getHcFromEndpoints ep = some hcPara)
  (file : UpstreamFile)

include hhc

theorem generated_of_single
    (hsingle : Go.equalFold hcPara.isEnableAllPorts "false" = true) :
    generated ep file =
      if listedIps ep = [] ∨ upstreamFile hcPara.protocol ≠ file then []
      else
        [upstreamDirective (svcNsName ep) (checksBlock (listedIps ep) [singleCheck hcPara])] := by
  have haddress : getEndpointsAddress ep = if listedIps ep = [] then
      .error "endpoints address is nil" else .ok (listedIps ep) := rfl
  simp only [generated, writtenBlocks, addServerInNginxUpstream, hhc, Option.map_some,
    if_pos hsingle, haddress]
  by_cases hips : listedIps ep = []
  · simp [hips, Except.map, blocksFor]
  · simp only [hips, if_false, Except.map, blocksFor_single, false_or]
    by_cases hfile : upstreamFile hcPara.protocol = file
    · simp [hfile]
    · simp [hfile]

theorem generated_of_allPorts
    (hall : ¬ Go.equalFold hcPara.isEnableAllPorts "false" = true) :
    generated ep file =
      let checks := ((portsOf ep).filter fun port => portFile port = some file).map
        (portCheck hcPara file)
      if listedIps ep = [] ∨ checks = [] then []
      else [upstreamDirective (svcNsName ep) (checksBlock (listedIps ep) checks)] := by
  have haddress : getEndpointsAddress ep = if listedIps ep = [] then
      .error "endpoints address is nil" else .ok (listedIps ep) := rfl
  have hports : getEndpointsPort ep =
      if portsOf ep = [] then .error "endpoints ports is nil" else .ok (portsOf ep) := rfl
  simp only [generated, writtenBlocks, addServerInNginxUpstream, hhc, Option.map_some, if_neg hall,
    haddress, hports]
  by_cases hnoPorts : portsOf ep = []
  · simp [hnoPorts, Except.map, blocksFor]
  · by_cases hips : listedIps ep = []
    · simp [hnoPorts, hips, Except.map, foldl_addPort_error, blocksFor, writeNonempty]
    · have hfile := foldl_addPort_eq hcPara (listedIps ep) (portsOf ep)
      have hhttp := hfile .http
      have hstream := hfile .stream
      simp only [ServerBlocks.of] at hhttp hstream
      simp only [hnoPorts, hips, if_false, Except.map, blocksFor_append, blocksFor_writeNonempty,
        hhttp, hstream, ne_eq, checksBlock_eq_nil, false_or]
      cases file with
      | http => simp only [true_and, ite_not, reduceCtorEq, false_and, if_false, List.append_nil]
      | stream => simp only [reduceCtorEq, false_and, if_false, List.nil_append, true_and, ite_not]

end Written

/-- The blocks that are written: in each file, one block with the checks asked for there, if
there is one, provided that the object has an address. -/
theorem generated_eq (ep : Endpoints) (file : UpstreamFile) :
    generated ep file =
      if listedIps ep = [] ∨ requestedChecks ep file = [] then []
      else [upstreamDirective (svcNsName ep)
        (checksBlock (listedIps ep) (requestedChecks ep file))] := by
  cases hhc : getHcFromEndpoints ep with
  | none =>
    simp [generated, writtenBlocks, addServerInNginxUpstream, requestedChecks, hhc, blocksFor]
  | some hcPara =>
    by_cases hsingle : Go.equalFold hcPara.isEnableAllPorts "false" = true
    · rw [generated_of_single hhc file hsingle]
      by_cases hfile : upstreamFile hcPara.protocol = file
      · simp [requestedChecks, hhc, hsingle, hfile]
      · simp [requestedChecks, hhc, hsingle, hfile]
    · rw [generated_of_allPorts hhc file hsingle]
      simp only [requestedChecks, hhc, if_neg hsingle]

/-! ### Blocks up to the order of their servers -/

/-- The directive is a server line. -/
def Directive.isServer (d : Directive) : Bool := d.directive = "server"

/-- The two blocks have the same name, the same servers up to order and, apart from the servers,
the same lines. -/
structure SameUpToServers (x y : BlockDirective) : Prop where
  toDirective : x.toDirective = y.toDirective
  servers : (x.block.filter Directive.isServer).Perm (y.block.filter Directive.isServer)
  others : x.block.filter (fun d => !d.isServer) = y.block.filter fun d => !d.isServer

/-- In each file the same blocks are written, up to the order of their servers. -/
def SameWritten (x y : Endpoints) : Prop :=
  ∀ file, List.Forall₂ SameUpToServers (generated x file) (generated y file)

/-- The line of a server. -/
def serverLine (server : ℤ × String) : Directive :=
  ⟨"server", [server.2 ++ ":" ++ toString server.1]⟩

theorem toString_int_injective : Function.Injective (toString : ℤ → String) := by
  have hnat : Function.Injective (toString : ℕ → String) := by
    intro a b hab
    have hdigits : ∀ n : ℕ, Nat.ofDigitChars 10 (toString n).toList 0 = n := by
      intro n
      rw [Nat.toString_eq_ofList_toDigits, String.toList_ofList]
      exact Nat.ofDigitChars_toDigits (by decide) (by decide)
    rw [← hdigits a, ← hdigits b, hab]
  have hsign : ∀ a b : ℕ, toString (Int.ofNat a) ≠ toString (Int.negSucc b) := by
    intro a b hab
    have hmem : '-' ∈ (toString a).toList := by
      have hlist := congrArg String.toList hab
      rw [toList_toString_negSucc] at hlist
      exact hlist ▸ List.mem_cons_self
    exact absurd (isDigit_of_mem_toString hmem) (by decide)
  intro a b hab
  cases a with
  | ofNat a =>
    cases b with
    | ofNat b => exact congrArg Int.ofNat (hnat hab)
    | negSucc b => exact absurd hab (hsign a b)
  | negSucc a =>
    cases b with
    | ofNat b => exact absurd hab.symm (hsign b a)
    | negSucc b =>
      have hlist := congrArg String.toList hab
      rw [toList_toString_negSucc, toList_toString_negSucc, List.cons.injEq] at hlist
      have hsucc : a + 1 = b + 1 := hnat (String.toList_injective hlist.2)
      exact congrArg Int.negSucc (Nat.succ.inj hsucc)

/-- Two equal lists with a separator after parts without it have the same parts. -/
theorem append_sep_inj {α : Type*} {sep : α} {a a' b b' : List α} (ha : sep ∉ a) (ha' : sep ∉ a')
    (h : a ++ sep :: b = a' ++ sep :: b') : a = a' ∧ b = b' := by
  induction a generalizing a' with
  | nil =>
    cases a' with
    | nil => exact ⟨rfl, (List.cons.inj h).2⟩
    | cons x a' => exact absurd ((List.cons.inj h).1 ▸ List.mem_cons_self) ha'
  | cons x a ih =>
    cases a' with
    | nil => exact absurd ((List.cons.inj h).1 ▸ List.mem_cons_self) ha
    | cons y a' =>
      obtain ⟨rfl, htail⟩ := List.cons.inj h
      rw [List.mem_cons, not_or] at ha ha'
      obtain ⟨rfl, hb⟩ := ih ha.2 ha'.2 htail
      exact ⟨rfl, hb⟩

/-- The printed port has no colon, so that a server line shows its address and its port. -/
theorem serverLine_injective : Function.Injective serverLine := by
  rintro ⟨port, ip⟩ ⟨port', ip'⟩ heq
  have htext : ip ++ ":" ++ toString port = ip' ++ ":" ++ toString port' := by
    simpa [serverLine] using heq
  have hchars := congrArg (fun text => text.toList.reverse) htext
  have hcolon : ":".toList = [':'] := rfl
  simp only [String.toList_append, hcolon, List.reverse_append, List.reverse_cons,
    List.reverse_nil, List.nil_append, List.singleton_append] at hchars
  have hnone : ∀ v : ℤ, ':' ∉ (toString v).toList.reverse :=
    fun v => by simpa using colon_not_mem_toString v
  obtain ⟨hport, hip⟩ := append_sep_inj (hnone port) (hnone port') hchars
  rw [Prod.mk.injEq]
  constructor
  · exact toString_int_injective (String.toList_injective (List.reverse_injective hport))
  · exact String.toList_injective (List.reverse_injective hip)

theorem filter_directives (lines : CheckLines) :
    lines.directives.filter Directive.isServer = [] ∧
      lines.directives.filter (fun d => !d.isServer) = lines.directives := by
  have hno : ∀ d ∈ lines.directives, d.isServer = false := by
    intro d hd
    obtain ⟨args, expects⟩ := lines
    rcases List.mem_cons.mp hd with rfl | hexpect
    · rfl
    · cases expects with
      | true =>
        rw [List.mem_singleton.mp hexpect]
        rfl
      | false => cases hexpect
  constructor
  · simpa [List.filter_eq_nil_iff] using hno
  · simpa [List.filter_eq_self] using hno

theorem filter_serverDirectives (ips : List String) (port : ℤ) :
    (serverDirectives ips port).filter Directive.isServer = serverDirectives ips port ∧
      (serverDirectives ips port).filter (fun d => !d.isServer) = [] := by
  have hall : ∀ d ∈ serverDirectives ips port, d.isServer = true := by
    intro d hd
    obtain ⟨ip, -, rfl⟩ := List.mem_map.mp hd
    rfl
  constructor
  · exact List.filter_eq_self.mpr hall
  · simpa [List.filter_eq_nil_iff] using hall

theorem servers_checksBlock (ips : List String) (checks : List PortCheck) :
    (checksBlock ips checks).filter Directive.isServer =
      (checks.map PortCheck.port ×ˢ ips).map serverLine := by
  induction checks with
  | nil => rfl
  | cons check checks ih =>
    rw [checksBlock, List.flatMap_cons, List.filter_append, List.filter_append,
      (filter_serverDirectives ips check.port).1, (filter_directives check.lines).1,
      List.append_nil, List.map_cons, List.product_cons, List.map_append, List.map_map, ← ih]
    rfl

theorem others_checksBlock (ips : List String) (checks : List PortCheck) :
    (checksBlock ips checks).filter (fun d => !d.isServer) =
      (checks.map PortCheck.lines).flatMap CheckLines.directives := by
  induction checks with
  | nil => rfl
  | cons check checks ih =>
    rw [checksBlock, List.flatMap_cons, List.filter_append, List.filter_append,
      (filter_serverDirectives ips check.port).2, (filter_directives check.lines).2,
      List.nil_append, List.map_cons, List.flatMap_cons, ← ih]
    rfl

/-- Every check begins with a `check` line, so the lines show the checks. -/
theorem flatMap_directives_injective :
    Function.Injective fun checks : List CheckLines => checks.flatMap CheckLines.directives := by
  have hcheck : expectAlive.directive ≠ "check" := by decide
  intro xs ys heq
  dsimp only at heq
  induction xs generalizing ys with
  | nil =>
    cases ys with
    | nil => rfl
    | cons y ys => simp [CheckLines.directives] at heq
  | cons x xs ih =>
    cases ys with
    | nil => simp [CheckLines.directives] at heq
    | cons y ys =>
      have hhead : ∀ zs : List CheckLines, ∀ rest,
          zs.flatMap CheckLines.directives ≠ expectAlive :: rest := by
        intro zs rest hzs
        cases zs with
        | nil => cases hzs
        | cons z zs =>
          rw [List.flatMap_cons, CheckLines.directives, List.cons_append, List.cons.injEq] at hzs
          exact hcheck (congrArg Directive.directive hzs.1).symm
      obtain ⟨xargs, xexpects⟩ := x
      obtain ⟨yargs, yexpects⟩ := y
      simp only [List.flatMap_cons, CheckLines.directives, List.cons_append, List.cons.injEq,
        Directive.mk.injEq, true_and] at heq
      obtain ⟨rfl, hrest⟩ := heq
      cases xexpects <;> cases yexpects
      · rw [ih hrest]
      · exact absurd hrest (hhead xs _)
      · exact absurd hrest.symm (hhead ys _)
      · simp only [if_true, List.singleton_append, List.cons.injEq, true_and] at hrest
        rw [ih hrest]

/-- Blocks that carry out checks agree up to the order of their servers exactly if the checks have
the same lines, each port is checked equally often and, if there is a check, each address is
listed equally often. -/
theorem sameUpToServers_checksBlock {name : String} {ips ips' : List String}
    {checks checks' : List PortCheck} (hips : ips ≠ []) (hchecks : checks ≠ []) :
    SameUpToServers (upstreamDirective name (checksBlock ips checks))
        (upstreamDirective name (checksBlock ips' checks')) ↔
      checks.map PortCheck.lines = checks'.map PortCheck.lines ∧
        (checks.map PortCheck.port).Perm (checks'.map PortCheck.port) ∧ ips.Perm ips' := by
  have hports : checks.map PortCheck.port ≠ [] := mt List.map_eq_nil_iff.mp hchecks
  have hlines : (checksBlock ips checks).filter (fun d => !d.isServer) =
      (checksBlock ips' checks').filter (fun d => !d.isServer) ↔
      checks.map PortCheck.lines = checks'.map PortCheck.lines := by
    rw [others_checksBlock, others_checksBlock]
    exact flatMap_directives_injective.eq_iff
  have hservers : checks.length = checks'.length →
      (((checksBlock ips checks).filter Directive.isServer).Perm
        ((checksBlock ips' checks').filter Directive.isServer) ↔
      (checks.map PortCheck.port).Perm (checks'.map PortCheck.port) ∧ ips.Perm ips') := by
    intro hlength
    rw [servers_checksBlock, servers_checksBlock, List.map_perm_map_iff serverLine_injective]
    exact product_perm_product_iff (by simpa using hlength) hports hips
  constructor
  · intro hsame
    have hlinesEq := hlines.mp hsame.others
    have hlength : checks.length = checks'.length := by
      simpa using congrArg List.length hlinesEq
    exact ⟨hlinesEq, (hservers hlength).mp hsame.servers⟩
  · rintro ⟨hlinesEq, hperm⟩
    have hlength : checks.length = checks'.length := by
      simpa using congrArg List.length hlinesEq
    exact ⟨rfl, (hservers hlength).mpr hperm, hlines.mpr hlinesEq⟩

/-- Two objects ask for the same checks: in each file the same lines in the same order, each port
equally often and, if anything is asked for, on the same addresses. -/
def SameRequests (x y : Endpoints) : Prop :=
  ∀ file,
    (requestedChecks x file).map PortCheck.lines = (requestedChecks y file).map PortCheck.lines ∧
    ((requestedChecks x file).map PortCheck.port).Perm
      ((requestedChecks y file).map PortCheck.port) ∧
    (requestedChecks x file ≠ [] → (listedIps x).Perm (listedIps y))

/-- Objects of one name with addresses lead to the same blocks, up to the order of the servers,
exactly if they ask for the same checks. -/
theorem sameWritten_iff {x y : Endpoints} (hname : svcNsName x = svcNsName y)
    (hx : listedIps x ≠ []) (hy : listedIps y ≠ []) : SameWritten x y ↔ SameRequests x y := by
  refine forall_congr' fun file => ?_
  rw [generated_eq, generated_eq, hname]
  by_cases hcx : requestedChecks x file = []
  · by_cases hcy : requestedChecks y file = []
    · simp [hcx, hcy]
    · have hlines : (requestedChecks y file).map PortCheck.lines ≠ [] :=
        mt List.map_eq_nil_iff.mp hcy
      simp [hcx, hcy, hy, hlines.symm]
  · by_cases hcy : requestedChecks y file = []
    · simp [hcx, hcy, hx]
    · simp only [hx, hy, hcx, hcy, or_self, if_false, List.forall₂_cons, List.Forall₂.nil, and_true,
        ne_eq, not_false_eq_true, forall_const]
      exact sameUpToServers_checksBlock hx hcx

end HealthCheck.Nginx
