import HealthCheck.Classification
import HealthCheck.Cluster
import HealthCheck.Nginx.Inet
import HealthCheck.Nginx.Upstream

/-!
# Endpoints on their way through nginx

The controller hands an endpoint to nginx as the argument of a `server` directive and gets it back
as the name of a peer. The argument joins address and port with a colon, and the name is taken apart
at the colons. That works for IPv4 as nginx prints it: superfluous zeros do not come back. nginx
writes an IPv6 address in brackets: without them it does not accept the argument, and in a name with
them there are too many colons.
-/

namespace HealthCheck.Nginx

/-! ### Addresses of endpoints -/

/-- The text of an address in the syntax of the configuration. -/
def NgxAddress.argument : NgxAddress → String
  | .unix path => "unix:" ++ path
  | .inet host none => host
  | .inet host (some port) => host ++ ":" ++ toString port
  | .inet6 host none => "[" ++ host ++ "]"
  | .inet6 host (some port) => "[" ++ host ++ "]" ++ ":" ++ toString port

/-- The address of an endpoint. -/
def ngxAddressOf (ip : String) (port : ℕ) : NgxAddress :=
  if ip.toList.contains ':' then .inet6 ip (some port) else .inet ip (some port)

/-! ### The way back -/

/-- The address that `syncLbhcWithEndpoints` finds in a name. -/
theorem syncTarget_eq_some_iff {name nameSpace ep ip : String} :
    Cluster.syncTarget name nameSpace (virtualServiceFullValue name nameSpace, ep, false) =
        some ip ↔ ∃ port, Go.split ep ':' = [ip, port] := by
  rw [Cluster.syncTarget, if_pos ⟨rfl, rfl⟩]
  constructor
  · intro hsync
    split at hsync
    · next ip' port hsplit =>
      cases hsync
      exact ⟨port, hsplit⟩
    · cases hsync
  · rintro ⟨port, hsplit⟩
    dsimp only
    rw [hsplit]

/-- An endpoint survives the way through nginx: the argument written for it denotes its address and
port, and from the names of its peers both functions recover the address, for every service. -/
structure SurvivesNginx (resolve : String → List NgxSockaddr) (ip : String) (port : ℕ) : Prop where
  denotes : ngxParseUrl (serverArgument ip port) = some (ngxAddressOf ip port)
  named : (ngxAddressOf ip port).names resolve ≠ []
  modified : ∀ peer ∈ (ngxAddressOf ip port).names resolve, ∀ name nameSpace verdict,
    '_' ∉ name.toList → '_' ∉ nameSpace.toList →
      target verdict (virtualServiceFullValue name nameSpace, peer, verdict) =
        some (name, nameSpace, ip)
  synced : ∀ peer ∈ (ngxAddressOf ip port).names resolve, ∀ name nameSpace,
    Cluster.syncTarget name nameSpace (virtualServiceFullValue name nameSpace, peer, false) =
      some ip

/-- An IPv4 address is recovered: it has no superfluous zeros, and the address that nginx does not
convert itself is resolved to what it is. -/
structure Recoverable (resolve : String → List NgxSockaddr) (ip : String) : Prop where
  canonical : Net.IsCanonicalIPv4 ip.toList
  broadcast : ip = "255.255.255.255" →
    resolve ip ≠ [] ∧ ∀ sockaddr ∈ resolve ip, sockaddr = .inet 4294967295

section Families

variable {ip : String} (port : ℕ)

theorem ngxAddressOf_ipv4 (hip : Net.IsIPv4 ip.toList) :
    ngxAddressOf ip port = .inet ip (some port) := by
  rw [ngxAddressOf, if_neg]
  rw [List.contains_iff_mem]
  exact hip.colon_not_mem

theorem ngxAddressOf_ipv6 (hip : Net.IsIPv6 ip.toList) :
    ngxAddressOf ip port = .inet6 ip (some port) := by
  have hcolons := hip.two_le_count_colon
  rw [ngxAddressOf, if_pos]
  rw [List.contains_iff_mem]
  exact List.count_pos_iff.mp (by omega)

/-- The name of an IPv6 peer begins with a bracket, and that of an IPv4 peer with its address. -/
theorem split_ngxSockNtop_iff (hip : Net.IsIPv4 ip.toList) (sockaddr : NgxSockaddr) :
    (∃ text, Go.split (ngxSockNtop sockaddr port) ':' = [ip, text]) ↔
      ∃ addr, sockaddr = .inet addr ∧ ngxInetNtop addr = ip := by
  have hsep : ":" = String.singleton ':' := rfl
  cases sockaddr with
  | inet addr =>
    have hcolon : ':' ∉ (ngxInetNtop addr).toList :=
      (isCanonicalIPv4_ngxInetNtop addr).isIPv4.colon_not_mem
    have hsplit : Go.split (ngxSockNtop (.inet addr) port) ':' =
        [ngxInetNtop addr, toString port] := by
      rw [ngxSockNtop, hsep]
      exact Go.split_join hcolon (colon_not_mem_toString port)
    simp [hsplit]
  | inet6 words =>
    refine iff_of_false ?_ (by simp)
    rintro ⟨text, hsplit⟩
    obtain ⟨-, -, hname⟩ := Go.split_eq_pair_iff.mp hsplit
    obtain ⟨c, rest, hfirst⟩ := List.exists_cons_of_ne_nil hip.ne_nil
    have hbracket : (ngxSockNtop (.inet6 words) port).toList.head? = some '[' := by
      simp [ngxSockNtop, String.toList_append]
    rw [hname, String.toList_append, String.toList_append, hfirst] at hbracket
    obtain rfl : c = '[' := Option.some.inj hbracket
    exact absurd (hip.isAddressChar '[' (hfirst ▸ List.mem_cons_self)) (by decide)

/-- The peers of an IPv4 server: nginx does not convert the address of all ones. -/
theorem names_ipv4 (resolve : String → List NgxSockaddr) (hip : Net.IsIPv4 ip.toList) :
    ∃ addr : UInt32, (ngxInetNtop addr = ip ↔ Net.IsCanonicalIPv4 ip.toList) ∧
      (ngxAddressOf ip port).names resolve =
        (if addr = 4294967295 then resolve ip else [.inet addr]).map
          fun sockaddr => ngxSockNtop sockaddr port := by
  obtain ⟨addr, hread, hprinted⟩ := exists_ngxInetAddrFrom hip
  refine ⟨addr, by rw [← hprinted, String.toList_inj], ?_⟩
  rw [ngxAddressOf_ipv4 port hip, NgxAddress.names, ngxInetAddr, hread, Option.getD_some]
  by_cases hones : addr = 4294967295
  · rw [if_pos hones, hones]
    rfl
  · have hne : addr.toNat ≠ 4294967295 := fun h => hones (UInt32.toNat_inj.mp h)
    rw [if_neg hones, Option.filter_some, if_pos (by simpa using hne)]
    simp [UInt32.ofNat_toNat]

variable {port} (hport : 1 ≤ port ∧ port ≤ 65535)

include hport

/-- nginx reads the text of an address as that address. -/
theorem ngxParseUrl_argument
    (hip : Net.IsIPv4 ip.toList ∨ (Net.IsIPv6 ip.toList ∧ Plain ip.toList)) :
    ngxParseUrl (ngxAddressOf ip port).argument = some (ngxAddressOf ip port) := by
  rcases hip with hv4 | ⟨hv6, hplain⟩
  · rw [ngxAddressOf_ipv4 port hv4]
    exact ngxParseUrl_ipv4 hport hv4
  · rw [ngxAddressOf_ipv6 port hv6]
    exact ngxParseUrl_ipv6 hport hv6 (isSome_ngxInet6Addr hv6 hplain)

variable {resolve : String → List NgxSockaddr}

/-- An IPv4 endpoint survives exactly if the numbers of its peers are printed as it is written. -/
theorem survivesNginx_ipv4_iff (hip : Net.IsIPv4 ip.toList) :
    SurvivesNginx resolve ip port ↔ (ngxAddressOf ip port).names resolve ≠ [] ∧
      ∀ peer ∈ (ngxAddressOf ip port).names resolve, ∃ text, Go.split peer ':' = [ip, text] := by
  constructor
  · intro hsurvives
    exact ⟨hsurvives.named, fun peer hpeer =>
      syncTarget_eq_some_iff.mp (hsurvives.synced peer hpeer "" "")⟩
  · rintro ⟨hnamed, hsplits⟩
    refine ⟨?_, hnamed, fun peer hpeer name nameSpace verdict hname hspace => ?_,
      fun peer hpeer name nameSpace => syncTarget_eq_some_iff.mpr (hsplits peer hpeer)⟩
    · have hread := ngxParseUrl_argument hport (.inl hip)
      rw [ngxAddressOf_ipv4 port hip] at hread ⊢
      exact hread
    · exact (target_eq_some_iff hname hspace).mpr ⟨rfl, rfl, hsplits peer hpeer⟩

theorem survivesNginx_ipv4_iff_recoverable (hip : Net.IsIPv4 ip.toList) :
    SurvivesNginx resolve ip port ↔ Recoverable resolve ip := by
  obtain ⟨addr, hprinted, hnames⟩ := @names_ipv4 ip port resolve hip
  have hones : ngxInetNtop 4294967295 = "255.255.255.255" := by decide +kernel
  rw [survivesNginx_ipv4_iff hport hip, hnames]
  simp only [List.forall_mem_map, ne_eq, List.map_eq_nil_iff, split_ngxSockNtop_iff port hip]
  by_cases haddr : addr = 4294967295
  · subst haddr
    rw [if_pos rfl]
    constructor
    · rintro ⟨hsome, hall⟩
      obtain ⟨sockaddr, hmem⟩ := List.exists_mem_of_ne_nil _ hsome
      obtain ⟨addr, -, rfl⟩ := hall sockaddr hmem
      refine ⟨isCanonicalIPv4_ngxInetNtop addr, fun hip => ⟨hsome, fun sockaddr hmem => ?_⟩⟩
      obtain ⟨addr', rfl, hsame⟩ := hall sockaddr hmem
      rw [ngxInetNtop_injective (hsame.trans (hip.trans hones.symm))]
    · rintro ⟨hcanonical, hresolved⟩
      have htext := hprinted.mpr hcanonical
      obtain ⟨hsome, hall⟩ := hresolved (htext.symm.trans hones)
      exact ⟨hsome, fun sockaddr hmem => ⟨_, hall sockaddr hmem, htext⟩⟩
  · rw [if_neg haddr]
    simp only [List.mem_singleton, forall_eq, NgxSockaddr.inet.injEq, exists_eq_left', hprinted]
    constructor
    · rintro ⟨-, hcanonical⟩
      refine ⟨hcanonical, fun hip => absurd ?_ haddr⟩
      exact ngxInetNtop_injective ((hprinted.mpr hcanonical).trans (hip.trans hones.symm))
    · exact fun h => ⟨by simp, h.canonical⟩

omit hport in
theorem not_survivesNginx_ipv6 (hip : Net.IsIPv6 ip.toList) :
    ¬ SurvivesNginx resolve ip port := by
  intro hsurvives
  have hdenotes := hsurvives.denotes
  have hrejected : ngxParseUrl (serverArgument ip port) = none := ngxParseUrl_bare_ipv6 hip
  rw [hrejected] at hdenotes
  cases hdenotes

end Families

/-- An endpoint survives the way through nginx exactly if it has an IPv4 address without superfluous
zeros, whatever hosts are resolved to, as long as the address of all ones is resolved to itself. -/
theorem endpoint_round_trip_iff (resolve : String → List NgxSockaddr) {ip : String}
    (hip : Net.IsIPv4 ip.toList ∨ Net.IsIPv6 ip.toList) {port : ℕ}
    (hport : 1 ≤ port ∧ port ≤ 65535) :
    SurvivesNginx resolve ip port ↔ Recoverable resolve ip := by
  rcases hip with hv4 | hv6
  · exact survivesNginx_ipv4_iff_recoverable hport hv4
  · refine iff_of_false (not_survivesNginx_ipv6 hv6) fun hrecoverable => ?_
    have hcolons := hv6.two_le_count_colon
    rw [List.count_eq_zero_of_not_mem hrecoverable.canonical.isIPv4.colon_not_mem] at hcolons
    exact absurd hcolons (by decide)

/-- The address of a pod. -/
theorem isCanonicalIPv4_web : Net.IsCanonicalIPv4 "10.0.0.7".toList := by
  have hten : Net.IsCanonicalOctet ['1', '0'] := Net.isCanonicalOctet_toDigits (n := 10) (by decide)
  have hzero : Net.IsCanonicalOctet ['0'] := Net.isCanonicalOctet_toDigits (n := 0) (by decide)
  have hseven : Net.IsCanonicalOctet ['7'] := Net.isCanonicalOctet_toDigits (n := 7) (by decide)
  exact ⟨['1', '0'], ['0'], ['0'], ['7'], ⟨hten, hzero, hzero, hseven⟩, rfl⟩

theorem isIPv6_web : Net.IsIPv6 "fd00::7".toList := by
  have hleft : Net.IsGroup "fd00".toList := ⟨by decide, List.all_eq_true.mp rfl, by decide⟩
  have hright : Net.IsGroup "7".toList := ⟨by decide, List.all_eq_true.mp rfl, by decide⟩
  exact @Net.IsIPv6.short "fd00".toList "7".toList 1 1 (.inr (.group hleft))
    (.inr (.group hright)) (by decide)

theorem endpoint_round_trip_ipv4 :
    (Net.IsIPv4 "10.0.0.7".toList ∨ Net.IsIPv6 "10.0.0.7".toList) ∧ (1 ≤ 80 ∧ 80 ≤ 65535) ∧
      SurvivesNginx (fun _ => []) "10.0.0.7" 80 := by
  refine ⟨.inl isCanonicalIPv4_web.isIPv4, by decide, ?_⟩
  refine
    (endpoint_round_trip_iff (fun _ => []) (.inl isCanonicalIPv4_web.isIPv4) (by decide)).mpr ?_
  exact ⟨isCanonicalIPv4_web, fun h => absurd h (by decide)⟩

/-- An IPv6 endpoint: nginx does not accept the argument, and the verdict on the peer that it would
report is not applied to any address. An IPv4 endpoint with a superfluous zero: nginx reports
another text, and the verdict is applied to that. -/
theorem endpoint_lost :
    (Net.IsIPv6 "fd00::7".toList ∧ serverArgument "fd00::7" 80 = "fd00::7:80" ∧
      ngxParseUrl (serverArgument "fd00::7" 80) = none ∧
      (ngxAddressOf "fd00::7" 80).names (fun _ => []) = ["[fd00::7]:80"] ∧
      target false ("web_prod", "[fd00::7]:80", false) = none ∧
      Cluster.syncTarget "web" "prod" ("web_prod", "[fd00::7]:80", false) = none ∧
      ¬ SurvivesNginx (fun _ => []) "fd00::7" 80) ∧
    (ngxParseUrl (serverArgument "010.0.0.7" 80) = some (.inet "010.0.0.7" (some 80)) ∧
      (ngxAddressOf "010.0.0.7" 80).names (fun _ => []) = ["10.0.0.7:80"] ∧
      target false ("web_prod", "10.0.0.7:80", false) = some ("web", "prod", "10.0.0.7")) :=
  ⟨⟨isIPv6_web, by decide +kernel, by decide +kernel, by decide +kernel, by decide +kernel,
    by decide +kernel, not_survivesNginx_ipv6 isIPv6_web⟩,
    by decide +kernel, by decide +kernel, by decide +kernel⟩

end HealthCheck.Nginx
