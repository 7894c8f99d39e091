import HealthCheck.Endpoints.Edits

/-!
# When `deleteEp` deletes the address

`deleteEp` stops looking at not ready addresses once it has found the IP, and it drops
empty subsets from the slice over which it ranges. On an object that has the IP in at most
one list, and an address in every subset, both are harmless: the IP is gone, and no index
is out of range.
-/

namespace HealthCheck

open Api Api.Client

/-- The IP is the address of an entry of the list. -/
def Holds (ip : String) (addrs : List EndpointAddress) : Prop := ∃ addr ∈ addrs, addr.ip = ip

instance (ip : String) (addrs : List EndpointAddress) : Decidable (Holds ip addrs) :=
  inferInstanceAs (Decidable (∃ addr ∈ addrs, _))

/-- In how many lists the IP is. -/
def listCount (ip : String) : List EndpointSubset → ℕ
  | [] => 0
  | sub :: subs => (decide (Holds ip sub.addresses)).toNat +
      (decide (Holds ip sub.notReadyAddresses)).toNat + listCount ip subs

/-- At most one list has the IP, and every subset has an address. -/
def Removable (ip : String) (ep : Endpoints) : Prop :=
  listCount ip ep.subsets ≤ 1 ∧ ∀ sub ∈ ep.subsets, sub.vacant = false

instance (ip : String) (ep : Endpoints) : Decidable (Removable ip ep) :=
  inferInstanceAs (Decidable (_ ∧ _))

theorem not_hasIp_of_listCount {ip : String} {subs : List EndpointSubset}
    (hcount : listCount ip subs = 0) (side : Side) : ¬ HasIp side subs ip := by
  induction subs with
  | nil => exact hasIp_nil
  | cons sub subs ih =>
    simp only [listCount, Nat.add_eq_zero_iff, Bool.toNat_eq_zero, decide_eq_false_iff_not]
      at hcount
    rw [hasIp_cons, not_or]
    refine ⟨?_, ih hcount.2⟩
    cases side with
    | ready => exact hcount.1.1
    | notReady => exact hcount.1.2

/-- Filtering the IP out of a list without it changes nothing. -/
theorem filter_of_not_holds {ip : String} {addrs : List EndpointAddress} (hip : ¬ Holds ip addrs) :
    addrs.filter (fun addr => addr.ip ≠ ip) = addrs := by
  refine List.filter_eq_self.mpr fun addr haddr => decide_eq_true fun heq => hip ⟨addr, haddr, heq⟩

/-- What is left when an IP is filtered out. -/
theorem holds_filter_iff {ip podIp : String} {addrs : List EndpointAddress} :
    Holds ip (addrs.filter fun addr => addr.ip ≠ podIp) ↔ Holds ip addrs ∧ ip ≠ podIp := by
  constructor
  · rintro ⟨addr, haddr, rfl⟩
    obtain ⟨hmem, hne⟩ := List.mem_filter.mp haddr
    exact ⟨⟨addr, hmem, rfl⟩, of_decide_eq_true hne⟩
  · rintro ⟨⟨addr, hmem, rfl⟩, hne⟩
    exact ⟨addr, List.mem_filter.mpr ⟨hmem, decide_eq_true hne⟩, rfl⟩

theorem not_holds_filter (ip : String) (addrs : List EndpointAddress) :
    ¬ Holds ip (addrs.filter fun addr => addr.ip ≠ ip) :=
  fun h => (holds_filter_iff.mp h).2 rfl

theorem not_holds_append {ip : String} {addrs addrs' : List EndpointAddress}
    (h : ¬ Holds ip addrs) (h' : ¬ Holds ip addrs') : ¬ Holds ip (addrs ++ addrs') := by
  rintro ⟨addr, haddr, hip⟩
  rcases List.mem_append.mp haddr with hleft | hright
  · exact h ⟨addr, hleft, hip⟩
  · exact h' ⟨addr, hright, hip⟩

theorem any_eq_holds (ip : String) (addrs : List EndpointAddress) :
    addrs.any (fun addr => addr.ip = ip) = decide (Holds ip addrs) := by
  rw [Bool.eq_iff_iff, decide_eq_true_iff]
  simp [Holds]

/-- What the first loop of `deleteEp` does to subsets with the IP in at most one list. -/
structure Deleted (podIp : String) (isFind : Bool) (subs : List EndpointSubset)
    (result : List EndpointSubset × Bool) : Prop where
  notReady : ¬ HasIp .notReady result.1 podIp
  vacant : result.1.countP EndpointSubset.vacant + isFind.toNat ≤ 1
  found : result.2 = false → isFind = false ∧ listCount podIp subs = 0

/-- A subset from which nothing is taken is not vacant afterwards. -/
theorem vacant_of_kept {sub : EndpointSubset} (hsub : sub.vacant = false)
    (kept keptNotReady : List EndpointAddress) :
    EndpointSubset.vacant { sub with
      addresses := kept ++ sub.addresses, notReadyAddresses := keptNotReady ++
        sub.notReadyAddresses } = false := by
  rw [← Bool.not_eq_true] at hsub ⊢
  intro hvacant
  apply hsub
  simp only [EndpointSubset.vacant, Bool.and_eq_true, List.isEmpty_iff, List.append_eq_nil_iff]
    at hvacant ⊢
  exact ⟨hvacant.1.2, hvacant.2.2⟩

/-- One more subset in front: it does not have the IP among its not ready addresses, and if it
is vacant the IP was found in it. -/
theorem Deleted.cons {podIp : String} {isFind isFind' : Bool} {sub : EndpointSubset}
    {subs : List EndpointSubset} {result : List EndpointSubset × Bool}
    (h : Deleted podIp isFind' subs result) {head : EndpointSubset}
    (hhead : ¬ Holds podIp head.notReadyAddresses)
    (hvacant : head.vacant.toNat + isFind.toNat ≤ isFind'.toNat)
    (hfound : isFind' = false → ¬ Holds podIp sub.addresses ∧ ¬ Holds podIp sub.notReadyAddresses) :
    Deleted podIp isFind (sub :: subs) (head :: result.1, result.2) where
  notReady := by
    rw [hasIp_cons, not_or]
    exact ⟨hhead, h.notReady⟩
  vacant := by
    have hrest := h.vacant
    have hcons : (head :: result.1).countP EndpointSubset.vacant =
        result.1.countP EndpointSubset.vacant + head.vacant.toNat := by
      rw [List.countP_cons]
      cases head.vacant <;> rfl
    simp only [hcons]
    omega
  found := by
    intro hresult
    obtain ⟨hfind, hcount⟩ := h.found hresult
    obtain ⟨hready, hnotReady⟩ := hfound hfind
    rw [hfind, Bool.toNat_false] at hvacant
    refine ⟨Bool.toNat_eq_zero.mp (by omega), ?_⟩
    simp [listCount, hready, hnotReady, hcount]

/-- Deleting from subsets with the IP in at most one list. -/
theorem deleted_deleteAddresses {podIp : String} {subs : List EndpointSubset}
    (hfull : ∀ sub ∈ subs, sub.vacant = false) (kept : List EndpointAddress)
    {keptNotReady : List EndpointAddress} (hkept : ¬ Holds podIp keptNotReady) (isFind : Bool)
    (hcount : listCount podIp subs + isFind.toNat ≤ 1) :
    Deleted podIp isFind subs (deleteAddresses podIp kept keptNotReady isFind subs) := by
  induction subs generalizing kept keptNotReady isFind with
  | nil =>
    refine ⟨hasIp_nil, ?_, fun h => ⟨h, rfl⟩⟩
    simpa [listCount, deleteAddresses] using hcount
  | cons sub subs ih =>
    have hsub : sub.vacant = false := hfull sub List.mem_cons_self
    have hrest : ∀ sub' ∈ subs, sub'.vacant = false :=
      fun sub' hsub' => hfull sub' (List.mem_cons_of_mem _ hsub')
    unfold deleteAddresses
    dsimp only
    rw [any_eq_holds, any_eq_holds]
    simp only [listCount] at hcount
    by_cases hready : Holds podIp sub.addresses
    · -- the address is ready here, so it is nowhere else and has not been found before
      have hnotFound : isFind = false := by
        refine Bool.toNat_eq_zero.mp ?_
        simp only [hready, decide_true, Bool.toNat_true] at hcount
        omega
      have hnotReady : ¬ Holds podIp sub.notReadyAddresses := by
        intro hholds
        simp only [hready, hholds, decide_true, Bool.toNat_true] at hcount
        omega
      subst hnotFound
      simp only [hready, hnotReady, decide_true, decide_false, Bool.toNat_true, Bool.toNat_false,
        Bool.false_or, if_true] at hcount ⊢
      refine (ih hrest _ hkept true (by simp only [Bool.toNat_true]; omega)).cons hnotReady ?_ nofun
      exact Bool.toNat_le _
    · rw [filter_of_not_holds hready]
      simp only [hready, decide_false, Bool.or_false, Bool.toNat_false] at hcount ⊢
      cases isFind with
      | true =>
        -- found earlier: nothing is taken from this subset
        have hnotReady : ¬ Holds podIp sub.notReadyAddresses := by
          intro hholds
          simp only [hholds, decide_true, Bool.toNat_true] at hcount
          omega
        simp only [hnotReady, decide_false, Bool.toNat_false, Bool.toNat_true] at hcount
        have hkeeps := vacant_of_kept hsub kept []
        refine (ih hrest _ hkept true (by simp only [Bool.toNat_true]; omega)).cons hnotReady ?_
          nofun
        simpa using hkeeps
      | false =>
        rw [if_neg (by simp)]
        by_cases hnotReady : Holds podIp sub.notReadyAddresses
        · simp only [hnotReady, decide_true, Bool.toNat_true, Bool.toNat_false] at hcount ⊢
          have hkept' := not_holds_append hkept (not_holds_filter podIp sub.notReadyAddresses)
          refine (ih hrest _ hkept' true (by simp only [Bool.toNat_true]; omega)).cons hkept' ?_
            nofun
          exact Bool.toNat_le _
        · rw [filter_of_not_holds hnotReady]
          simp only [hnotReady, decide_false, Bool.toNat_false] at hcount ⊢
          have hkept' := not_holds_append hkept hnotReady
          refine (ih hrest _ hkept' false (by simp only [Bool.toNat_false]; omega)).cons hkept' ?_
            fun _ => ⟨hready, hnotReady⟩
          rw [vacant_of_kept hsub kept keptNotReady]
          rfl

/-- With at most one vacant subset, the second loop of `deleteEp` does not panic. -/
theorem dropEmpty_ne_none {subs : List EndpointSubset}
    (hone : subs.countP EndpointSubset.vacant ≤ 1) : dropEmpty subs ≠ none := by
  rw [dropEmpty_eq, if_neg]
  · exact Option.some_ne_none _
  · -- A vacant last subset and another one would be two.
    rintro ⟨⟨sub, hlast, hsub⟩, sub', hmem, hsub'⟩
    have hother : 0 < subs.dropLast.countP EndpointSubset.vacant :=
      List.countP_pos_iff.mpr ⟨sub', hmem, hsub'⟩
    rw [← List.dropLast_append_getLast? sub hlast, List.countP_append, List.countP_singleton,
      hsub, if_pos rfl] at hone
    omega

/-- On an object with the IP in at most one list, `deleteEp` computes subsets without it; that
it has not found the IP means that it was not there. -/
theorem deleteEp_removable {podIp : String} {ep : Endpoints} (hremovable : Removable podIp ep) :
    ∃ subs, dropEmpty (deleteAddresses podIp [] [] false ep.subsets).1 = some subs ∧
      (∀ side, ¬ HasIp side subs podIp) ∧
      ((deleteAddresses podIp [] [] false ep.subsets).2 = false →
        ∀ side, ¬ ep.Has side podIp) := by
  have hnil : ¬ Holds podIp [] := by simp [Holds]
  have hdeleted := deleted_deleteAddresses hremovable.2 [] hnil false
    (by simpa using hremovable.1)
  have hdrop : dropEmpty (deleteAddresses podIp [] [] false ep.subsets).1 ≠ none := by
    exact dropEmpty_ne_none (by simpa using hdeleted.vacant)
  obtain ⟨subs, hsubs⟩ := Option.ne_none_iff_exists'.mp hdrop
  refine ⟨subs, hsubs, fun side hip => ?_, fun hfound side => ?_⟩
  · have hloop := hasIp_of_dropEmpty hsubs hip
    cases side with
    | ready =>
      rcases of_hasIp_deleteAddresses hloop with ⟨_, hempty, -⟩ | hne
      · cases hempty
      · exact hne.2 rfl
    | notReady => exact hdeleted.notReady hloop
  · exact not_hasIp_of_listCount (hdeleted.found hfound).2 side

end HealthCheck
