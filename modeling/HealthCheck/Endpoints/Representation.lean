import HealthCheck.Endpoints.Conservation
import HealthCheck.Runs

/-!
# The form of the `Endpoints` objects that the controller manages

The controller keeps all addresses of a service in one subset, drops the subset when the last
address goes, and lists no IP twice. Only `_createEp` tests for duplicates; the other functions
add no address, or move one from list to list. What a call sends has this form when the
object it reads has it, whatever happens to the requests, so the stored object has it as long
as nobody else writes.
-/

namespace HealthCheck

open Api Api.Client

/-- The IPs of a subset, over both lists. -/
def EndpointSubset.ips (sub : EndpointSubset) : List String := sub.both.map EndpointAddress.ip

/-- There is at most one subset, it has an address, and no IP is in it twice. -/
structure Represented (subs : List EndpointSubset) : Prop where
  single : subs.length ≤ 1
  full : ∀ sub ∈ subs, sub.both ≠ []
  distinct : ∀ sub ∈ subs, sub.ips.Nodup

namespace Represented

variable {subs subs' : List EndpointSubset}

theorem nil : Represented [] := ⟨by simp, by simp, by simp⟩

theorem of_singleton {sub : EndpointSubset} (hfull : sub.both ≠ []) (hdistinct : sub.ips.Nodup) :
    Represented [sub] :=
  ⟨le_rfl, by simpa using hfull, by simpa using hdistinct⟩

/-- There is no subset, or there is one. -/
theorem cases (h : Represented subs) :
    subs = [] ∨ ∃ sub, subs = [sub] ∧ sub.both ≠ [] ∧ sub.ips.Nodup := by
  cases subs with
  | nil => exact .inl rfl
  | cons sub rest =>
    have hrest : rest = [] := by
      have hlength := h.single
      rw [List.length_cons] at hlength
      exact List.length_eq_zero_iff.mp (by omega)
    exact .inr ⟨sub, by rw [hrest], h.full sub List.mem_cons_self,
      h.distinct sub List.mem_cons_self⟩

/-- Subsets with the same IPs, in any order, have the same form. -/
theorem of_perm (h : Represented subs)
    (hips : List.Forall₂ (fun sub sub' : EndpointSubset => sub'.ips.Perm sub.ips) subs subs') :
    Represented subs' := by
  rcases h.cases with rfl | ⟨sub, rfl, hfull, hdistinct⟩
  · rw [List.forall₂_nil_left_iff.mp hips]
    exact nil
  · obtain ⟨sub', rest, hperm, hrest, rfl⟩ := List.forall₂_cons_left_iff.mp hips
    rw [List.forall₂_nil_left_iff.mp hrest]
    refine of_singleton (fun hnil => hfull ?_) (hperm.nodup_iff.mpr hdistinct)
    have hlength := hperm.length_eq
    simp only [EndpointSubset.ips, List.length_map, hnil, List.length_nil] at hlength
    exact List.length_eq_zero_iff.mp hlength.symm

/-- With one subset, no other one can receive the addresses it keeps. -/
theorem keepsApart (h : Represented subs) (dst : Side) (epIp : String) :
    KeepsApart dst epIp subs := by
  rcases h.cases with rfl | ⟨sub, rfl, -⟩
  · exact .nil
  · exact List.pairwise_singleton _ _

/-- No IP is in a list twice, so that none is lost. -/
theorem arrivesWhole (h : Represented subs) (dst : Side) (epIp : String) :
    ArrivesWhole dst epIp subs := by
  intro sub hsub _
  have hdistinct := (((sub.both_perm dst.other).map EndpointAddress.ip).nodup_iff.mp
    (h.distinct sub hsub)).sublist ((List.sublist_append_left _ _).map _)
  have hmoved : (((sub.on dst.other).filter fun addr => addr.ip = epIp).map
      EndpointAddress.ip).Nodup := hdistinct.sublist (List.filter_sublist.map _)
  have hsame : ∀ ip ∈ ((sub.on dst.other).filter fun addr => addr.ip = epIp).map EndpointAddress.ip,
      ip = epIp := by
    intro ip hip
    obtain ⟨addr, haddr, rfl⟩ := List.mem_map.mp hip
    exact of_decide_eq_true (List.mem_filter.mp haddr).2
  rw [List.eq_replicate_of_mem hsame, List.nodup_replicate, List.length_map] at hmoved
  exact hmoved

end Represented

/-! ## What the edits keep -/

section Edits

variable {subs subs' : List EndpointSubset}

theorem represented_setPorts (ports : List EndpointPort) (h : Represented subs) :
    Represented (setPorts ports subs) := by
  rcases h.cases with rfl | ⟨sub, rfl, hfull, hdistinct⟩
  · exact .nil
  · exact .of_singleton hfull hdistinct

theorem represented_fillPorts (svc : Service) (h : Represented subs) :
    Represented (fillPorts svc subs) := by
  unfold fillPorts
  split
  · split
    · exact represented_setPorts _ h
    · exact h
  · exact .nil

/-- Appending an address with a new IP, to a subset that may be empty. -/
theorem represented_appendAddress {addr : EndpointAddress} (hsingle : subs.length ≤ 1)
    (hdistinct : ∀ sub ∈ subs, sub.ips.Nodup) (hnew : ∀ side, ¬ HasIp side subs addr.ip) :
    Represented (appendAddress addr subs) := by
  cases subs with
  | nil => exact .of_singleton (by simp [EndpointSubset.both]) (by simp [EndpointSubset.ips,
      EndpointSubset.both])
  | cons sub rest =>
    have hrest : rest = [] := by
      rw [List.length_cons] at hsingle
      exact List.length_eq_zero_iff.mp (by omega)
    subst hrest
    have hfresh : addr.ip ∉ sub.ips := by
      intro hmem
      obtain ⟨old, hold, hip⟩ := List.mem_map.mp hmem
      rcases List.mem_append.mp hold with hready | hnotReady
      · exact hnew .ready ⟨sub, List.mem_cons_self, old, hready, hip⟩
      · exact hnew .notReady ⟨sub, List.mem_cons_self, old, hnotReady, hip⟩
    refine .of_singleton (by simp [EndpointSubset.both]) ?_
    have hperm : (EndpointSubset.ips { sub with addresses := sub.addresses ++ [addr] }).Perm
        (addr.ip :: sub.ips) := by
      simp [EndpointSubset.ips, EndpointSubset.both]
    rw [hperm.nodup_iff]
    exact List.nodup_cons.mpr ⟨hfresh, hdistinct sub List.mem_cons_self⟩

/-- What `_updateEp` touches keeps its IP. -/
theorem ips_touchSubsets {pod : PodAddress} {nameSpace : String}
    (htouch : touchSubsets pod nameSpace subs = some subs') :
    List.Forall₂ (fun sub sub' : EndpointSubset => sub'.ips.Perm sub.ips) subs subs' := by
  have hrefl : ∀ l : List EndpointSubset,
      List.Forall₂ (fun sub sub' : EndpointSubset => sub'.ips.Perm sub.ips) l l :=
    fun l => List.forall₂_same.mpr fun sub _ => .refl _
  obtain ⟨before, sub, after, side, addrs, -, -, haddrs, rfl, rfl⟩ := touchSubsets_spec htouch
  refine List.rel_append (hrefl before) (.cons ?_ (hrefl after))
  cases side with
  | ready =>
    have hips : addrs.map EndpointAddress.ip = sub.addresses.map EndpointAddress.ip :=
      ips_touchAddress haddrs
    simp [EndpointSubset.ips, EndpointSubset.both, EndpointSubset.assign, hips]
  | notReady =>
    have hips : addrs.map EndpointAddress.ip = sub.notReadyAddresses.map EndpointAddress.ip :=
      ips_touchAddress haddrs
    simp [EndpointSubset.ips, EndpointSubset.both, EndpointSubset.assign, hips]

/-- A move keeps the addresses of the subset. -/
theorem represented_moveSubsets (dst : Side) (epIp : String) (h : Represented subs) :
    Represented (moveSubsets dst epIp [] subs) := by
  have hconserved := conserved_moveSubsets_iff.mpr ⟨h.keepsApart dst epIp, h.arrivesWhole dst epIp⟩
  exact h.of_perm (hconserved.imp fun _ _ hsub => hsub.both.map _)

/-- Deleting takes addresses away, and the subset with the last one. -/
theorem represented_dropEmpty {podIp : String} (h : Represented subs)
    (hdrop : dropEmpty (deleteAddresses podIp [] [] false subs).1 = some subs') :
    Represented subs' := by
  rcases h.cases with rfl | ⟨sub, rfl, -, hdistinct⟩
  · cases hdrop
    exact .nil
  · -- the subset after the first loop has some of the addresses it had before
    obtain ⟨left, hleft, hsublist⟩ : ∃ left,
        (deleteAddresses podIp [] [] false [sub]).1 = [left] ∧ left.both.Sublist sub.both := by
      unfold deleteAddresses
      dsimp only
      split
      · exact ⟨_, rfl, List.Sublist.append_right List.filter_sublist _⟩
      · exact ⟨_, rfl, List.Sublist.append List.filter_sublist List.filter_sublist⟩
    rw [hleft] at hdrop
    have hcases : subs' = [] ∨ (subs' = [left] ∧ left.both ≠ []) := by
      by_cases hvacant : left.both = []
      · obtain ⟨hready, hnotReady⟩ := List.append_eq_nil_iff.mp hvacant
        have hgone : dropEmpty [left] = some [] := by
          simp [dropEmpty, dropEmptyFrom, hready, hnotReady]
        rw [hgone] at hdrop
        cases hdrop
        exact .inl rfl
      · have hfull : (left.notReadyAddresses.isEmpty && left.addresses.isEmpty) = false := by
          rw [← Bool.not_eq_true]
          intro hempty
          simp only [Bool.and_eq_true, List.isEmpty_iff] at hempty
          exact hvacant (List.append_eq_nil_iff.mpr hempty.symm)
        have hkept : dropEmpty [left] = some [left] := by
          simp [dropEmpty, dropEmptyFrom, hfull]
        rw [hkept] at hdrop
        cases hdrop
        exact .inr ⟨rfl, hvacant⟩
    rcases hcases with rfl | ⟨rfl, hfull⟩
    · exact .nil
    · exact .of_singleton hfull (hdistinct.sublist (hsublist.map _))

end Edits

/-! ## What the calls send -/

section Calls

variable {faults : Faults} {n : ℕ} {s : Server Endpoints} {new : Endpoints}

/-- The object that `_createEp` sends. -/
theorem represented_addAddress {svc : Service} {pod : PodAddress} {ep : Endpoints}
    (hsingle : ep.subsets.length ≤ 1) (hdistinct : ∀ sub ∈ ep.subsets, sub.ips.Nodup)
    (hnew : new ∈ sent faults (addAddress svc pod ep) n s) : Represented new.subsets := by
  unfold addAddress at hnew
  split at hnew
  · cases hnew
  · next hfresh =>
    rw [sent_send, List.mem_singleton] at hnew
    subst hnew
    refine represented_fillPorts svc (represented_appendAddress hsingle hdistinct fun side => ?_)
    rw [not_or] at hfresh
    cases side with
    | ready => exact hfresh.1
    | notReady => exact hfresh.2

variable (hold : ∀ ep ∈ s.object, Represented ep.subsets)
include hold

theorem represented_createEp {svc : Service} {pod : PodAddress} (hpod : pod.podIp ≠ "")
    (hnew : new ∈ sent faults (createEp svc pod) n s) : Represented new.subsets := by
  rcases mem_sent_fetch_bind rfl hnew with ⟨ep, hobj, hnew⟩ | ⟨-, hnew⟩
  · have hep := hold ep hobj
    simp only [if_pos hpod] at hnew
    exact represented_addAddress hep.single hep.distinct hnew
  · -- the new object has an empty subset, which receives the address
    simp only [if_pos hpod] at hnew
    refine represented_addAddress ?_ ?_ hnew
    · exact le_rfl
    · simp [Service.newEndpoints, EndpointSubset.ips, EndpointSubset.both]

theorem represented_createEpOf {svc : Option Service} {pod : PodAddress} (hpod : pod.podIp ≠ "")
    (hnew : new ∈ sent faults (createEpOf svc pod) n s) : Represented new.subsets := by
  cases svc with
  | none => cases hnew
  | some svc => exact represented_createEp hold hpod hnew

theorem represented_updateEp {nameSpace : String} {svc : Option Service} {pod : PodAddress}
    (hpod : pod.podIp ≠ "") (hnew : new ∈ sent faults (updateEp nameSpace svc pod) n s) :
    Represented new.subsets := by
  rcases mem_sent_fetch_bind rfl hnew with ⟨ep, hobj, hnew⟩ | ⟨-, hnew⟩
  · dsimp only at hnew
    split at hnew
    · next subs htouch =>
      rw [sent_send, List.mem_singleton] at hnew
      subst hnew
      exact (hold ep hobj).of_perm (ips_touchSubsets htouch)
    · exact represented_createEpOf hold hpod hnew
  · cases hnew

theorem represented_updateEpInfo {nameSpace : String} {svc : Option Service} {pod : PodAddress}
    (hpod : pod.podIp ≠ "") (hnew : new ∈ sent faults (updateEpInfo nameSpace svc pod) n s) :
    Represented new.subsets := by
  rcases mem_sent_fetch_bind rfl hnew with ⟨ep, -, hnew⟩ | ⟨-, hnew⟩
  · dsimp only at hnew
    split at hnew
    · exact represented_createEpOf hold hpod hnew
    · exact represented_updateEp hold hpod hnew
  · cases hnew

theorem represented_deleteEp {podIp : String} (hnew : new ∈ sent faults (deleteEp podIp) n s) :
    Represented new.subsets := by
  rcases mem_sent_fetch_bind rfl hnew with ⟨ep, hobj, hnew⟩ | ⟨-, hnew⟩
  · dsimp only at hnew
    split at hnew
    · next subs hdrop =>
      split at hnew
      · rw [sent_send, List.mem_singleton] at hnew
        subst hnew
        exact represented_dropEmpty (hold ep hobj) hdrop
      · cases hnew
    · cases hnew
  · cases hnew

theorem represented_modifyEp {dst : Side} {epIp : String}
    (hnew : new ∈ sent faults (modifyEp dst epIp) n s) : Represented new.subsets := by
  obtain ⟨ep, hobj, -, rfl⟩ := of_mem_sent_modifyEp hnew
  exact represented_moveSubsets dst epIp (hold ep hobj)

theorem represented_syncSvcLabelToEp {svc : Service}
    (hnew : new ∈ sent faults (syncSvcLabelToEp svc) n s) : Represented new.subsets := by
  rcases mem_sent_fetch_bind rfl hnew with ⟨ep, hobj, hnew⟩ | ⟨-, hnew⟩
  · simp only [sent_send, List.mem_singleton] at hnew
    subst hnew
    exact represented_setPorts _ (hold ep hobj)
  · simp only [sent_send, List.mem_singleton] at hnew
    subst hnew
    exact .nil

end Calls

/-! ## Runs -/

/-- A call that writes the `Endpoints` object of a service. The service itself, which
`updateEpInfo` looks up, may change between calls. -/
inductive ManagingCall where
  | createEpInfo (svc : Service) (pod : PodAddress)
  | updateEpInfo (nameSpace : String) (svc : Option Service) (pod : PodAddress)
  | deleteEp (podIp : String)
  | modifyEpInNotReadyAddressList (epIp : String)
  | modifyEpInAddressList (epIp : String)
  | syncSvcLabelToEp (svc : Service)

namespace ManagingCall

/-- The program of a call. -/
def program : ManagingCall → Client Endpoints Bool
  | createEpInfo svc pod => HealthCheck.createEpInfo svc pod
  | updateEpInfo nameSpace svc pod => HealthCheck.updateEpInfo nameSpace svc pod
  | deleteEp podIp => HealthCheck.deleteEp podIp
  | modifyEpInNotReadyAddressList epIp => HealthCheck.modifyEpInNotReadyAddressList epIp
  | modifyEpInAddressList epIp => HealthCheck.modifyEpInAddressList epIp
  | syncSvcLabelToEp svc => HealthCheck.syncSvcLabelToEp svc

/-- The pod's address that a call is given. -/
def podIp : ManagingCall → Option String
  | createEpInfo _ pod => some pod.podIp
  | updateEpInfo _ _ pod => some pod.podIp
  | deleteEp podIp => some podIp
  | modifyEpInNotReadyAddressList epIp => some epIp
  | modifyEpInAddressList epIp => some epIp
  | syncSvcLabelToEp _ => none

/-- A call with some fate of its requests, while nobody else writes. -/
def step (s : Server Endpoints) (call : ManagingCall × Faults) : Server Endpoints :=
  (run call.2 call.1.program 0 s).2.2

/-- The stored object, if there is one, has the form. -/
def StoredWell (s : Server Endpoints) : Prop := ∀ ep ∈ s.object, Represented ep.subsets

/-- One call. -/
theorem storedWell_step {s : Server Endpoints} (hold : StoredWell s) {call : ManagingCall × Faults}
    (hip : call.1.podIp ≠ some "") : StoredWell (step s call) := by
  refine forall_object_run ?_ hold fun new hnew => ?_
  · intro a b hcontent hb
    rwa [Endpoints.subsets_eq_of_stamp_eq hcontent]
  · obtain ⟨call, faults⟩ := call
    cases call with
    | createEpInfo svc pod => exact represented_createEp hold (by simpa [podIp] using hip) hnew
    | updateEpInfo nameSpace svc pod =>
      exact represented_updateEpInfo hold (by simpa [podIp] using hip) hnew
    | deleteEp podIp => exact represented_deleteEp hold hnew
    | modifyEpInNotReadyAddressList epIp => exact represented_modifyEp hold hnew
    | modifyEpInAddressList epIp => exact represented_modifyEp hold hnew
    | syncSvcLabelToEp svc => exact represented_syncSvcLabelToEp hold hnew

/-- From an absent object, every stored state has at most one subset, with at least one address
and no IP twice, however many calls are made and whatever happens to their requests. -/
theorem managed_endpoints_represented {s : Server Endpoints} (habsent : s.object = none)
    (calls : List (ManagingCall × Faults)) (hips : ∀ call ∈ calls, call.1.podIp ≠ some "") :
    Runs.Throughout step StoredWell s calls := by
  have hinit : StoredWell s := by
    intro ep hep
    rw [habsent] at hep
    cases hep
  have halong : Runs.Along step (fun _ call => call.1.podIp ≠ some "") s calls :=
    Runs.along_of_forall fun call hcall _ => hips call hcall
  exact @Runs.throughout_of_along _ _ step StoredWell _ StoredWell
    (fun _ _ hold hip => storedWell_step hold hip) (fun _ h => h) s calls hinit halong

/-- An address comes, becomes not ready, is touched and goes again. -/
theorem managed_endpoints_one_pod :
    Runs.Throughout step StoredWell .absent
      ([.syncSvcLabelToEp ⟨⟨"web", "prod", ∅, ∅, none⟩, "LoadBalancer", "", []⟩,
        .updateEpInfo "prod" (some ⟨⟨"web", "prod", ∅, ∅, none⟩, "LoadBalancer", "", []⟩)
          ⟨"web-0", "10.0.0.7", "node-1"⟩,
        .modifyEpInNotReadyAddressList "10.0.0.7",
        .deleteEp "10.0.0.7"].map fun call => (call, .none)) :=
  managed_endpoints_represented rfl _ (by decide)

end ManagingCall

end HealthCheck
