import HealthCheck.Endpoints.Deletion

/-!
# When `deleteEp` removes exactly the address of the pod

The slices that collect the addresses to keep are shared by all subsets, the not ready addresses
are passed over once the IP has been found, and a subset behind a dropped one is not looked at. On
an object with several subsets the addresses that `deleteEp` sends are therefore only rarely the
old ones without the pod's. This file gives the exact condition.
-/

namespace HealthCheck

open Api Api.Client

/-- The subset with the entries of the IP removed from both lists. -/
def EndpointSubset.without (podIp : String) (sub : EndpointSubset) : EndpointSubset :=
  { sub with
    addresses := sub.addresses.filter fun addr => addr.ip ≠ podIp
    notReadyAddresses := sub.notReadyAddresses.filter fun addr => addr.ip ≠ podIp }

namespace Endpoints

/-- The object with the entries of the IP removed and the subsets dropped that are empty then. -/
def without (podIp : String) (ep : Endpoints) : Endpoints :=
  { ep with subsets := (ep.subsets.map (.without podIp)).filter fun sub => !sub.vacant }

/-- The IP is an address of the object. -/
def Lists (ep : Endpoints) (ip : String) : Prop := ep.Has .ready ip ∨ ep.Has .notReady ip

instance (ep : Endpoints) (ip : String) : Decidable (ep.Lists ip) :=
  inferInstanceAs (Decidable (_ ∨ _))

end Endpoints

/-- The loops of `deleteEp` end without an index out of range. -/
def DeletionCompletes (podIp : String) (ep : Endpoints) : Prop :=
  dropEmpty (deleteAddresses podIp [] [] false ep.subsets).1 ≠ none

/-- What the shared variables of `deleteEp` need: only the last subset keeps a ready address, the
IP is found in the first subset or among the ready addresses of the second one, and it is not to
be removed from any not ready list after that. No two neighbouring subsets become empty. -/
structure CleanDeletion (podIp : String) (subs : List EndpointSubset) : Prop where
  first : ∀ sub ∈ subs.head?, Holds podIp sub.addresses → ¬ Holds podIp sub.notReadyAddresses
  later : ∀ sub ∈ subs.tail, ¬ Holds podIp sub.notReadyAddresses
  kept : ∀ sub ∈ subs.dropLast, ∀ addr ∈ sub.addresses, addr.ip = podIp
  early : ∀ sub ∈ subs.head?, ∀ sub' ∈ subs.tail.head?,
    Holds podIp sub.addresses ∨ Holds podIp sub.notReadyAddresses ∨ Holds podIp sub'.addresses
  apart : (subs.map (EndpointSubset.without podIp)).IsChain fun sub sub' =>
    ¬ (sub.vacant = true ∧ sub'.vacant = true)

/-- The first loop finds the IP when it is there. -/
theorem found_deleteAddresses (podIp : String) (kept keptNotReady : List EndpointAddress)
    (isFind : Bool) (subs : List EndpointSubset) :
    (deleteAddresses podIp kept keptNotReady isFind subs).2 = true ↔
      isFind = true ∨ HasIp .ready subs podIp ∨ HasIp .notReady subs podIp := by
  induction subs generalizing kept keptNotReady isFind with
  | nil => simp [deleteAddresses]
  | cons sub subs ih =>
    have hready : (∃ addr ∈ sub.on .ready, addr.ip = podIp) ↔ Holds podIp sub.addresses := Iff.rfl
    have hnotReady : (∃ addr ∈ sub.on .notReady, addr.ip = podIp) ↔
        Holds podIp sub.notReadyAddresses := Iff.rfl
    rw [deleteAddresses, any_eq_holds, any_eq_holds, hasIp_cons, hasIp_cons, hready, hnotReady]
    dsimp only
    split
    · next hfind =>
      simp only [Bool.or_eq_true, decide_eq_true_eq] at hfind
      rw [ih]
      simp only [Bool.or_eq_true, decide_eq_true_eq]
      exact iff_of_true (.inl hfind) (hfind.imp_right fun h => .inl (.inl h))
    · next hfind =>
      simp only [Bool.or_eq_true, decide_eq_true_eq, not_or] at hfind
      rw [ih]
      simp only [decide_eq_true_eq, hfind.1, hfind.2, Bool.false_eq_true, false_or]
      exact or_left_comm

/-- Removing the IP changes nothing exactly when it is not there. -/
theorem eq_filter_iff {ip : String} {addrs : List EndpointAddress} :
    addrs = addrs.filter (fun addr => addr.ip ≠ ip) ↔ ¬ Holds ip addrs :=
  ⟨fun heq hholds => not_holds_filter ip addrs (heq ▸ hholds),
    fun h => (filter_of_not_holds h).symm⟩

/-- Removing the IP leaves nothing exactly when nothing else is there. -/
theorem filter_eq_nil_iff_forall {ip : String} {addrs : List EndpointAddress} :
    addrs.filter (fun addr => addr.ip ≠ ip) = [] ↔ ∀ addr ∈ addrs, addr.ip = ip := by
  simp [List.filter_eq_nil_iff]

theorem forall_mem_dropLast_cons {α : Type} {P : α → Prop} {a : α} {l : List α} :
    (∀ b ∈ (a :: l).dropLast, P b) ↔ (l = [] ∨ P a) ∧ ∀ b ∈ l.dropLast, P b := by
  cases l with
  | nil => simp
  | cons b l => simp

/-- The first loop once the IP has been found: not ready addresses stay, and ready ones are carried
on from subset to subset. -/
theorem deleteAddresses_true_eq_iff (podIp : String) (kept keptNotReady : List EndpointAddress)
    (subs : List EndpointSubset) :
    (deleteAddresses podIp kept keptNotReady true subs).1 = subs.map (.without podIp) ↔
      (subs = [] ∨ kept = []) ∧ (∀ sub ∈ subs, ¬ Holds podIp sub.notReadyAddresses) ∧
        ∀ sub ∈ subs.dropLast, ∀ addr ∈ sub.addresses, addr.ip = podIp := by
  induction subs generalizing kept with
  | nil => simp [deleteAddresses]
  | cons sub subs ih =>
    have hhead :
        ({ sub with addresses := kept ++ sub.addresses.filter fun addr => addr.ip ≠ podIp } :
          EndpointSubset) = sub.without podIp ↔
        kept = [] ∧ ¬ Holds podIp sub.notReadyAddresses := by
      rw [EndpointSubset.without, EndpointSubset.mk.injEq, eq_filter_iff, List.append_left_eq_self]
      simp
    rw [deleteAddresses, Bool.true_or]
    dsimp only
    rw [if_pos rfl, List.map_cons, List.cons.injEq, hhead, ih, forall_mem_dropLast_cons,
      List.forall_mem_cons, List.append_eq_nil_iff, filter_eq_nil_iff_forall]
    simp only [List.cons_ne_nil, false_or]
    tauto

/-- Finding the IP among the ready addresses of the next subset, or having found it before. -/
theorem deleteAddresses_of_holds {podIp : String} {sub : EndpointSubset}
    (hready : Holds podIp sub.addresses) (kept keptNotReady : List EndpointAddress)
    (subs : List EndpointSubset) :
    deleteAddresses podIp kept keptNotReady false (sub :: subs) =
      deleteAddresses podIp kept keptNotReady true (sub :: subs) := by
  simp only [deleteAddresses, any_eq_holds, hready, decide_true, Bool.or_true]

/-- The first loop at a subset in which the IP is not ready, before it has been found. -/
theorem deleteAddresses_of_not_holds {podIp : String} {sub : EndpointSubset}
    (hready : ¬ Holds podIp sub.addresses) (kept keptNotReady : List EndpointAddress)
    (subs : List EndpointSubset) :
    (deleteAddresses podIp kept keptNotReady false (sub :: subs)).1 =
      { sub with
        addresses := kept ++ (sub.without podIp).addresses
        notReadyAddresses := keptNotReady ++ (sub.without podIp).notReadyAddresses } ::
      (deleteAddresses podIp (kept ++ sub.addresses)
        (keptNotReady ++ (sub.without podIp).notReadyAddresses)
        (decide (Holds podIp sub.notReadyAddresses)) subs).1 := by
  simp only [deleteAddresses, any_eq_holds, hready, decide_false, Bool.or_false,
    Bool.false_eq_true, if_false, EndpointSubset.without, filter_of_not_holds hready]

/-- As long as the IP has not been found, the addresses of a subset come back in the next one. -/
theorem deleteAddresses_carried {podIp : String} {sub sub' : EndpointSubset}
    (hfull : sub.vacant = false) (hnotReady : ¬ Holds podIp sub.notReadyAddresses)
    (hready' : ¬ Holds podIp sub'.addresses) (subs : List EndpointSubset) :
    (deleteAddresses podIp sub.addresses (sub.without podIp).notReadyAddresses false
      (sub' :: subs)).1 ≠ (sub' :: subs).map (.without podIp) := by
  intro heq
  rw [deleteAddresses_of_not_holds hready', List.map_cons, List.cons.injEq] at heq
  have haddrs := congrArg EndpointSubset.addresses heq.1
  have hnotReadys := congrArg EndpointSubset.notReadyAddresses heq.1
  rw [List.append_left_eq_self] at haddrs hnotReadys
  have hgone : sub.notReadyAddresses = [] := by
    rw [← filter_of_not_holds hnotReady]
    exact hnotReadys
  rw [EndpointSubset.vacant_iff.mpr ⟨haddrs, hgone⟩] at hfull
  cases hfull

/-- The first loop removes exactly the IP from subsets of which none is empty. -/
theorem deleteAddresses_eq_iff {podIp : String} {subs : List EndpointSubset}
    (hfull : ∀ sub ∈ subs, sub.vacant = false)
    (hlists : HasIp .ready subs podIp ∨ HasIp .notReady subs podIp) :
    (deleteAddresses podIp [] [] false subs).1 = subs.map (.without podIp) ↔
      (∀ sub ∈ subs.head?, Holds podIp sub.addresses → ¬ Holds podIp sub.notReadyAddresses) ∧
      (∀ sub ∈ subs.tail, ¬ Holds podIp sub.notReadyAddresses) ∧
      (∀ sub ∈ subs.dropLast, ∀ addr ∈ sub.addresses, addr.ip = podIp) ∧
      ∀ sub ∈ subs.head?, ∀ sub' ∈ subs.tail.head?, Holds podIp sub.addresses ∨
        Holds podIp sub.notReadyAddresses ∨ Holds podIp sub'.addresses := by
  cases subs with
  | nil => exact absurd hlists (by simp)
  | cons sub subs =>
    simp only [List.head?_cons, Option.mem_some, forall_eq', List.tail_cons]
    by_cases hready : Holds podIp sub.addresses
    · have hearly : ∀ sub' ∈ subs.head?, Holds podIp sub.addresses ∨
          Holds podIp sub.notReadyAddresses ∨ Holds podIp sub'.addresses :=
        fun _ _ => .inl hready
      rw [deleteAddresses_of_holds hready, deleteAddresses_true_eq_iff, List.forall_mem_cons]
      tauto
    · have hnone : (∀ addr ∈ sub.addresses, addr.ip = podIp) ↔ sub.addresses = [] := by
        rw [← filter_eq_nil_iff_forall, filter_of_not_holds hready]
      have hhead : ({ sub with
          addresses := [] ++ (sub.without podIp).addresses
          notReadyAddresses := [] ++ (sub.without podIp).notReadyAddresses } : EndpointSubset) =
            sub.without podIp := rfl
      rw [deleteAddresses_of_not_holds hready, List.map_cons, List.cons.injEq, hhead, eq_self,
        true_and, forall_mem_dropLast_cons, hnone, List.nil_append, List.nil_append]
      by_cases hnotReady : Holds podIp sub.notReadyAddresses
      · have hearly : ∀ sub' ∈ subs.head?, Holds podIp sub.addresses ∨
            Holds podIp sub.notReadyAddresses ∨ Holds podIp sub'.addresses :=
          fun _ _ => .inr (.inl hnotReady)
        rw [decide_eq_true hnotReady, deleteAddresses_true_eq_iff]
        tauto
      · rw [decide_eq_false hnotReady]
        cases subs with
        | nil =>
          -- The IP is somewhere, so there is another subset.
          rw [hasIp_cons, hasIp_cons] at hlists
          rcases hlists with (hip | hip) | (hip | hip)
          · exact absurd hip hready
          · exact absurd hip hasIp_nil
          · exact absurd hip hnotReady
          · exact absurd hip hasIp_nil
        | cons sub' subs =>
          simp only [List.head?_cons, Option.mem_some, forall_eq', hready, hnotReady, false_or,
            List.cons_ne_nil, IsEmpty.forall_iff, true_and]
          by_cases hready' : Holds podIp sub'.addresses
          · rw [deleteAddresses_of_holds hready', deleteAddresses_true_eq_iff]
            simp only [List.cons_ne_nil, false_or]
            tauto
          · have hsub : sub.vacant = false := hfull sub List.mem_cons_self
            exact iff_of_false (deleteAddresses_carried hsub hnotReady hready' subs)
              fun h => hready' h.2.2

/-- A subset that the first loop empties is one that becomes empty by the removal. -/
theorem forall₂_deleteAddresses (podIp : String) (kept keptNotReady : List EndpointAddress)
    (isFind : Bool) (subs : List EndpointSubset) :
    List.Forall₂ (fun sub sub' => sub.ports = sub'.ports ∧ (sub.vacant = true → sub'.vacant = true))
      (deleteAddresses podIp kept keptNotReady isFind subs).1
      (subs.map (EndpointSubset.without podIp)) := by
  induction subs generalizing kept keptNotReady isFind with
  | nil => exact .nil
  | cons sub subs ih =>
    unfold deleteAddresses
    dsimp only
    rw [List.map_cons]
    split
    · refine .cons ⟨rfl, fun hvacant => ?_⟩ (ih _ _ _)
      obtain ⟨hready, hnotReady⟩ := EndpointSubset.vacant_iff.mp hvacant
      refine EndpointSubset.vacant_iff.mpr ⟨(List.append_eq_nil_iff.mp hready).2, ?_⟩
      have hnotReady : sub.notReadyAddresses = [] := hnotReady
      simp [EndpointSubset.without, hnotReady]
    · refine .cons ⟨rfl, fun hvacant => ?_⟩ (ih _ _ _)
      obtain ⟨hready, hnotReady⟩ := EndpointSubset.vacant_iff.mp hvacant
      exact EndpointSubset.vacant_iff.mpr
        ⟨(List.append_eq_nil_iff.mp hready).2, (List.append_eq_nil_iff.mp hnotReady).2⟩

/-- Empty subsets with the same ports are the same. -/
theorem EndpointSubset.eq_of_vacant {sub sub' : EndpointSubset} (hports : sub.ports = sub'.ports)
    (hsub : sub.vacant = true) (hsub' : sub'.vacant = true) : sub = sub' := by
  obtain ⟨hready, hnotReady⟩ := vacant_iff.mp hsub
  obtain ⟨hready', hnotReady'⟩ := vacant_iff.mp hsub'
  cases sub
  cases sub'
  simp_all

/-- What remains after both loops is the subsets without the IP exactly when the deletion is
clean. -/
theorem skim_deleteAddresses_iff {podIp : String} {subs : List EndpointSubset}
    (hfull : ∀ sub ∈ subs, sub.vacant = false)
    (hlists : HasIp .ready subs podIp ∨ HasIp .notReady subs podIp) :
    Go.skim EndpointSubset.vacant (deleteAddresses podIp [] [] false subs).1 =
        (subs.map (.without podIp)).filter (fun sub => !sub.vacant) ↔
      CleanDeletion podIp subs := by
  have hremoved := deleteAddresses_eq_iff hfull hlists
  constructor
  · intro hskim
    have hsame : (deleteAddresses podIp [] [] false subs).1 = subs.map (.without podIp) := by
      refine Go.eq_of_filter_sublist ((forall₂_deleteAddresses podIp [] [] false subs).imp
        fun _ _ h => ⟨h.2, EndpointSubset.eq_of_vacant h.1⟩) ?_
      rw [← hskim]
      exact Go.filter_sublist_skim _
    obtain ⟨hfirst, hlater, hkept, hearly⟩ := hremoved.mp hsame
    rw [hsame, Go.skim_eq_filter_iff] at hskim
    exact ⟨hfirst, hlater, hkept, hearly, hskim⟩
  · intro hclean
    rw [hremoved.mpr ⟨hclean.first, hclean.later, hclean.kept, hclean.early⟩,
      Go.skim_eq_filter_iff]
    exact hclean.apart

/-- The object that `deleteEp` sends. -/
theorem sent_deleteEp {podIp : String} {ep : Endpoints} {s : Server Endpoints} {faults : Faults}
    (hobj : s.object = some ep) (hget : faults.get 0 = .success)
    (hcompletes : DeletionCompletes podIp ep) :
    sent faults (deleteEp podIp) 0 s =
      if ep.Lists podIp then
        [{ ep with
            subsets := Go.skim EndpointSubset.vacant
              (deleteAddresses podIp [] [] false ep.subsets).1 }]
      else [] := by
  obtain ⟨subs, hsubs⟩ := Option.ne_none_iff_exists'.mp hcompletes
  have hfound : (deleteAddresses podIp [] [] false ep.subsets).2 = true ↔ ep.Lists podIp := by
    rw [found_deleteAddresses]
    simp [Endpoints.Lists, Endpoints.Has]
  rw [deleteEp, sent_fetch_bind, if_pos hget, Server.get_eq, hobj]
  dsimp only [Fetch.ofOption]
  rw [hsubs, ← eq_skim_of_dropEmpty hsubs]
  dsimp only
  by_cases hlists : ep.Lists podIp
  · rw [if_pos hlists, if_pos (hfound.mpr hlists), sent_send]
  · rw [if_neg hlists, if_neg (fun h => hlists (hfound.mp h))]
    rfl

/-- `deleteEp` removes exactly the address of the pod if and only if the IP is not there or the
deletion is clean. -/
theorem deleteEp_removes_exactly_iff {podIp : String} {ep : Endpoints} {s : Server Endpoints}
    {faults : Faults} (hobj : s.object = some ep) (hget : faults.get 0 = .success)
    (hfull : ∀ sub ∈ ep.subsets, sub.vacant = false) :
    (DeletionCompletes podIp ep → sent faults (deleteEp podIp) 0 s =
        if ep.Lists podIp then [ep.without podIp] else []) ↔
      (DeletionCompletes podIp ep → ep.Lists podIp → CleanDeletion podIp ep.subsets) := by
  refine forall_congr' fun hcompletes => ?_
  rw [sent_deleteEp hobj hget hcompletes]
  by_cases hlists : ep.Lists podIp
  · rw [if_pos hlists, if_pos hlists, ← skim_deleteAddresses_iff hfull hlists, Endpoints.without]
    simp [hlists]
  · simp [hlists]

/-- Two pods on one port and a third one on another. -/
def twoPorts : Endpoints where
  metadata := { name := "web", nameSpace := "prod", resourceVersion := some 1 }
  subsets := [{ addresses := [⟨"10.0.0.7", none, none⟩, ⟨"10.0.0.8", none, none⟩]
                ports := [⟨"http", 80, "TCP", none⟩] },
              { addresses := [⟨"10.0.0.9", none, none⟩]
                ports := [⟨"http", 8080, "TCP", none⟩] }]

/-- One pod on each port. -/
def onePerPort : Endpoints where
  metadata := twoPorts.metadata
  subsets := [{ addresses := [⟨"10.0.0.7", none, none⟩]
                ports := [⟨"http", 80, "TCP", none⟩] },
              { addresses := [⟨"10.0.0.9", none, none⟩]
                ports := [⟨"http", 8080, "TCP", none⟩] }]

/-- Deleting the only pod of the first subset is clean. -/
theorem deleteEp_removes_exactly_onePerPort :
    DeletionCompletes "10.0.0.7" onePerPort ∧
      sent .none (deleteEp "10.0.0.7") 0 (.holding 1 onePerPort) =
        [onePerPort.without "10.0.0.7"] := by
  have hcompletes : DeletionCompletes "10.0.0.7" onePerPort := by
    unfold DeletionCompletes
    decide +kernel
  have hclean : CleanDeletion "10.0.0.7" onePerPort.subsets :=
    ⟨by decide, by decide, by decide, by decide, by decide⟩
  have hexact := (@deleteEp_removes_exactly_iff "10.0.0.7" onePerPort (.holding 1 onePerPort) .none
    rfl rfl (by decide)).mpr fun _ _ => hclean
  exact ⟨hcompletes, hexact hcompletes⟩

/-- Deleting one of the two pods of the first subset adds the other one to the second subset. -/
theorem deleteEp_duplicates_address :
    ¬ (DeletionCompletes "10.0.0.7" twoPorts →
      sent .none (deleteEp "10.0.0.7") 0 (.holding 1 twoPorts) =
        if twoPorts.Lists "10.0.0.7" then [twoPorts.without "10.0.0.7"] else []) := by
  intro hexact
  have hcompletes : DeletionCompletes "10.0.0.7" twoPorts := by
    unfold DeletionCompletes
    decide +kernel
  exact absurd (hexact hcompletes) (by decide +kernel)

/-! ### Dropping the empty subsets -/

/-- The subsets after the first loop of `deleteEp`. -/
def afterRemoval (podIp : String) (subs : List EndpointSubset) : List EndpointSubset :=
  (deleteAddresses podIp [] [] false subs).1

/-- What the second loop of `deleteEp` needs: no two neighbouring subsets are empty, and if the last
one is empty, it is the only one. -/
structure SafelyDropped (subs : List EndpointSubset) : Prop where
  apart : subs.IsChain fun sub sub' => ¬ (sub.vacant = true ∧ sub'.vacant = true)
  last : (∃ sub ∈ subs.getLast?, sub.vacant = true) → ∀ sub ∈ subs.dropLast, sub.vacant = false

/-- Whatever the first loop leaves, the second one ends without a panic and leaves exactly the
subsets with an address, if and only if the empty ones are apart and not at the end. -/
theorem dropEmpty_exact_iff (podIp : String) (subs : List EndpointSubset) :
    dropEmpty (afterRemoval podIp subs) =
        some ((afterRemoval podIp subs).filter fun sub => !sub.vacant) ↔
      SafelyDropped (afterRemoval podIp subs) := by
  rw [dropEmpty, dropEmptyFrom_eq]
  refine (Go.deleteRanging_eq_filter_iff _).trans ⟨fun h => ⟨h.2, ?_⟩, fun h => ⟨?_, h.apart⟩⟩
  · intro hlast sub hsub
    rw [← Bool.not_eq_true]
    exact fun hvacant => h.1 ⟨hlast, sub, hsub, hvacant⟩
  · rintro ⟨hlast, sub, hsub, hvacant⟩
    rw [h.last hlast sub hsub] at hvacant
    cases hvacant

/-- A subset with one port. -/
def subsetOn (port : ℤ) (ips : List String) : EndpointSubset where
  addresses := ips.map fun ip => { ip := ip }
  ports := [{ name := "http", port := port, protocol := "TCP" }]

/-- A pod that is alone in two subsets: dropping both is a panic, and with another subset behind
them, one of them stays. -/
theorem dropEmpty_fails_podTwice :
    dropEmpty (afterRemoval "10.0.0.7"
        [subsetOn 80 ["10.0.0.7"], subsetOn 8080 ["10.0.0.7"]]) = none ∧
      dropEmpty (afterRemoval "10.0.0.7"
        [subsetOn 80 ["10.0.0.7"], subsetOn 8080 ["10.0.0.7"], subsetOn 9090 ["10.0.0.8"]]) =
          some [subsetOn 8080 [], subsetOn 9090 ["10.0.0.8"]] := by
  decide +kernel

end HealthCheck
