import HealthCheck.Endpoints.Deletion
import Mathlib.Data.List.Forall2

/-!
# What a move does to each subset

A move should take one IP from one list of a subset to the other and leave everything else
alone. The slice of kept addresses is declared outside the loop over the subsets, so a later
subset that has source addresses also receives what the earlier ones kept. A destination that was
nil is made anew for each address with the IP, so that of several such addresses only the last one
arrives. What is received has other IPs than what is lost, so a subset is conserved only if neither
happens to it.
-/

namespace HealthCheck

open Api Api.Client

/-- At most one entry of the list has the IP. -/
def AtMostOnce (ip : String) (addrs : List EndpointAddress) : Prop :=
  (addrs.filter fun addr => addr.ip = ip).length ≤ 1

instance (ip : String) (addrs : List EndpointAddress) : Decidable (AtMostOnce ip addrs) :=
  inferInstanceAs (Decidable (_ ≤ _))

theorem filter_eq_nil_of_not_holds {ip : String} {addrs : List EndpointAddress}
    (h : ¬ Holds ip addrs) : addrs.filter (fun addr => addr.ip = ip) = [] := by
  rw [List.filter_eq_nil_iff]
  exact fun addr haddr hip => h ⟨addr, haddr, of_decide_eq_true hip⟩

/-- A list has the addresses with the IP and the others. -/
theorem length_filter_add (ip : String) (addrs : List EndpointAddress) :
    (addrs.filter fun addr => addr.ip = ip).length +
      (addrs.filter fun addr => addr.ip ≠ ip).length = addrs.length := by
  have hperm := List.filter_append_perm (fun addr : EndpointAddress => decide (addr.ip = ip)) addrs
  rw [← List.length_append, ← hperm.length_eq]
  simp

namespace EndpointSubset

/-- The addresses of both lists. -/
def both (sub : EndpointSubset) : List EndpointAddress := sub.addresses ++ sub.notReadyAddresses

/-- The addresses of both lists, those of a given side first. -/
theorem both_perm (sub : EndpointSubset) (side : Side) :
    sub.both.Perm (sub.on side ++ sub.on side.other) := by
  cases side with
  | ready => exact .refl _
  | notReady => exact List.perm_append_comm

variable (dst : Side) (epIp : String) (kept : List EndpointAddress) (sub : EndpointSubset)

/-- The destination receives what arrives of the addresses with the IP. -/
theorem on_dst_move : (sub.move dst epIp kept).1.on dst = sub.on dst ++ sub.arriving dst epIp := by
  by_cases hnil : sub.on dst.other = []
  · rw [move_of_nil hnil, ← received_eq, received_of_nil hnil]
  · rw [move_of_ne_nil hnil, on_assign_other, on_assign, received_eq]

/-- The source is left with what has been kept so far, unless it had nothing. -/
theorem on_source_move : (sub.move dst epIp kept).1.on dst.other =
    if sub.on dst.other = [] then []
    else kept ++ (sub.on dst.other).filter fun addr => addr.ip ≠ epIp := by
  by_cases hnil : sub.on dst.other = []
  · rw [move_of_nil hnil, if_pos hnil, hnil]
  · rw [move_of_ne_nil hnil, if_neg hnil, on_assign]

/-- What is kept for the later subsets. -/
theorem kept_move : (sub.move dst epIp kept).2 =
    kept ++ (sub.on dst.other).filter fun addr => addr.ip ≠ epIp := by
  by_cases hnil : sub.on dst.other = []
  · simp [move_of_nil hnil, hnil]
  · rw [move_of_ne_nil hnil]

/-- The ports stay. -/
theorem ports_move : (sub.move dst epIp kept).1.ports = sub.ports := by
  by_cases hnil : sub.on dst.other = []
  · rw [move_of_nil hnil]
  · rw [move_of_ne_nil hnil]
    cases dst <;> rfl

/-- The addresses with the IP all arrive, exactly if the destination is not nil or there is at most
one of them. -/
theorem length_arriving_eq_iff :
    (sub.arriving dst epIp).length = ((sub.on dst.other).filter fun addr => addr.ip = epIp).length ↔
      (sub.on dst = [] → AtMostOnce epIp (sub.on dst.other)) := by
  rw [arriving, AtMostOnce]
  generalize (sub.on dst.other).filter (fun addr => addr.ip = epIp) = moved
  by_cases hnil : sub.on dst = []
  · simp only [hnil, List.isEmpty_nil, if_true, true_imp_iff]
    rcases moved.eq_nil_or_concat with rfl | ⟨first, last, rfl⟩
    · simp
    · simp
  · simp [hnil]

theorem length_arriving_le :
    (sub.arriving dst epIp).length ≤
      ((sub.on dst.other).filter fun addr => addr.ip = epIp).length := by
  rw [arriving]
  generalize (sub.on dst.other).filter (fun addr => addr.ip = epIp) = moved
  split
  · rcases moved.eq_nil_or_concat with rfl | ⟨first, last, rfl⟩
    · simp
    · simp
  · exact le_rfl

/-- All the addresses with the IP arrive. -/
theorem arriving_of_atMostOnce (h : sub.on dst = [] → AtMostOnce epIp (sub.on dst.other)) :
    sub.arriving dst epIp = (sub.on dst.other).filter fun addr => addr.ip = epIp := by
  have hlength := (length_arriving_eq_iff dst epIp sub).mpr h
  rw [arriving] at hlength ⊢
  split
  · next hnil =>
    rw [if_pos hnil] at hlength
    generalize (sub.on dst.other).filter (fun addr => addr.ip = epIp) = moved at hlength ⊢
    rcases moved.eq_nil_or_concat with rfl | ⟨first, last, rfl⟩
    · rfl
    · have hfirst : first = [] := by
        simp at hlength
        exact hlength
      rw [hfirst]
      rfl
  · rfl

/-- What arrives has the IP. -/
theorem filter_arriving :
    (sub.arriving dst epIp).filter (fun addr => addr.ip ≠ epIp) = [] ∧
      (sub.arriving dst epIp).filter (fun addr => addr.ip = epIp) = sub.arriving dst epIp := by
  have hip : ∀ addr ∈ sub.arriving dst epIp, addr.ip = epIp :=
    fun addr haddr => (exists_mem_arriving.mp ⟨addr, haddr, rfl⟩).1
  constructor
  · rw [List.filter_eq_nil_iff]
    exact fun addr haddr hne => of_decide_eq_true hne (hip addr haddr)
  · rw [List.filter_eq_self]
    exact fun addr haddr => decide_eq_true (hip addr haddr)

end EndpointSubset

/-- A subset before and after a move to the side `dst`: the addresses of both lists together and
the ports are the same, the source has no address with the IP, and the addresses with other IPs
are in the same list. -/
structure Conserved (dst : Side) (epIp : String) (sub moved : EndpointSubset) : Prop where
  both : moved.both.Perm sub.both
  ports : moved.ports = sub.ports
  gone : ¬ Holds epIp (moved.on dst.other)
  others : ∀ side, ((moved.on side).filter fun addr => addr.ip ≠ epIp).Perm
    ((sub.on side).filter fun addr => addr.ip ≠ epIp)

section Move

variable {dst : Side} {epIp : String} {kept : List EndpointAddress} {sub : EndpointSubset}

/-- The source after a move that adds nothing to it. -/
theorem EndpointSubset.on_source_move_of (hnone : sub.on dst.other = [] ∨ kept = []) :
    (sub.move dst epIp kept).1.on dst.other =
      (sub.on dst.other).filter fun addr => addr.ip ≠ epIp := by
  rw [EndpointSubset.on_source_move]
  split
  · next hnil => rw [hnil, List.filter_nil]
  · next hne => rw [hnone.resolve_left hne, List.nil_append]

theorem EndpointSubset.not_holds_source_move (hkept : ¬ Holds epIp kept) :
    ¬ Holds epIp ((sub.move dst epIp kept).1.on dst.other) := by
  rw [EndpointSubset.on_source_move]
  split
  · simp [Holds]
  · exact not_holds_append hkept (not_holds_filter epIp _)

/-- The addresses with the IP at the destination, if none was there before. -/
theorem EndpointSubset.filter_dst_move (hone : ¬ Holds epIp (sub.on dst)) :
    (((sub.move dst epIp kept).1.on dst).filter fun addr => addr.ip = epIp) =
      sub.arriving dst epIp := by
  rw [EndpointSubset.on_dst_move, List.filter_append, filter_eq_nil_of_not_holds hone,
    List.nil_append, (EndpointSubset.filter_arriving dst epIp sub).2]

/-- A subset that is conserved receives nothing from earlier subsets. -/
theorem Conserved.kept_eq_nil (hkept : ¬ Holds epIp kept)
    (h : Conserved dst epIp sub (sub.move dst epIp kept).1) :
    sub.on dst.other = [] ∨ kept = [] := by
  by_cases hnil : sub.on dst.other = []
  · exact .inl hnil
  · right
    have hothers := (h.others dst.other).length_eq
    rw [EndpointSubset.on_source_move, if_neg hnil, List.filter_append, filter_of_not_holds hkept,
      List.filter_filter, List.length_append] at hothers
    simp only [Bool.and_self] at hothers
    exact List.eq_nil_of_length_eq_zero (by omega)

/-- All the addresses with the IP arrive in a subset that is conserved. -/
theorem Conserved.atMostOnce (hnone : sub.on dst.other = [] ∨ kept = [])
    (h : Conserved dst epIp sub (sub.move dst epIp kept).1) :
    sub.on dst = [] → AtMostOnce epIp (sub.on dst.other) := by
  rw [← EndpointSubset.length_arriving_eq_iff]
  have hold := (sub.both_perm dst).length_eq
  have hnew := ((sub.move dst epIp kept).1.both_perm dst).length_eq
  have hboth := h.both.length_eq
  have hsplit := length_filter_add epIp (sub.on dst.other)
  rw [hnew, hold, EndpointSubset.on_dst_move, EndpointSubset.on_source_move_of hnone] at hboth
  simp only [List.length_append] at hboth
  omega

/-- A move that adds nothing to the source conserves a subset in which all the addresses with the IP
arrive. -/
theorem conserved_move (hnone : sub.on dst.other = [] ∨ kept = [])
    (honce : sub.on dst = [] → AtMostOnce epIp (sub.on dst.other)) :
    Conserved dst epIp sub (sub.move dst epIp kept).1 := by
  have hleft : (sub.move dst epIp kept).1.on dst.other = _ :=
    EndpointSubset.on_source_move_of hnone
  have hdst := EndpointSubset.on_dst_move dst epIp kept sub
  rw [EndpointSubset.arriving_of_atMostOnce dst epIp sub honce] at hdst
  refine ⟨?_, EndpointSubset.ports_move dst epIp kept sub, ?_, fun side => ?_⟩
  · have hsplit := List.filter_append_perm
      (fun addr : EndpointAddress => decide (addr.ip = epIp)) (sub.on dst.other)
    refine ((sub.move dst epIp kept).1.both_perm dst).trans (.trans ?_ (sub.both_perm dst).symm)
    rw [hdst, hleft, List.append_assoc]
    refine List.Perm.append_left _ (.trans ?_ hsplit)
    simp
  · rw [hleft]
    exact not_holds_filter epIp _
  · rcases side.eq_or_eq_other dst with rfl | rfl
    · rw [hdst, List.filter_append, List.filter_filter]
      simp
    · rw [hleft, List.filter_filter]
      simp

end Move

/-- A move conserves a subset exactly if it receives nothing from earlier subsets and all the
addresses with the IP arrive. -/
theorem conserved_move_iff {dst : Side} {epIp : String} {kept : List EndpointAddress}
    (hkept : ¬ Holds epIp kept) (sub : EndpointSubset) :
    Conserved dst epIp sub (sub.move dst epIp kept).1 ↔
      (sub.on dst.other = [] ∨ kept = []) ∧
        (sub.on dst = [] → AtMostOnce epIp (sub.on dst.other)) := by
  constructor
  · intro hconserved
    have hnone := hconserved.kept_eq_nil hkept
    exact ⟨hnone, hconserved.atMostOnce hnone⟩
  · rintro ⟨hnone, honce⟩
    exact conserved_move hnone honce

/-! ## The loop over the subsets -/

section Loop

variable (dst : Side) (epIp : String)

/-- No subset with source addresses comes after one that keeps a source address. -/
def KeepsApart (subs : List EndpointSubset) : Prop :=
  subs.Pairwise fun sub later =>
    (∃ addr ∈ sub.on dst.other, addr.ip ≠ epIp) → later.on dst.other = []

instance (subs : List EndpointSubset) : Decidable (KeepsApart dst epIp subs) :=
  inferInstanceAs (Decidable (subs.Pairwise _))

/-- The same in the middle of the loop, where some addresses have been kept already. -/
def ApartFrom (kept : List EndpointAddress) (subs : List EndpointSubset) : Prop :=
  (kept ≠ [] → ∀ sub ∈ subs, sub.on dst.other = []) ∧ KeepsApart dst epIp subs

/-- No address with the IP is lost on the way to an empty list. -/
def ArrivesWhole (subs : List EndpointSubset) : Prop :=
  ∀ sub ∈ subs, sub.on dst = [] → AtMostOnce epIp (sub.on dst.other)

instance (subs : List EndpointSubset) : Decidable (ArrivesWhole dst epIp subs) :=
  inferInstanceAs (Decidable (∀ sub ∈ subs, _))

/-- How many addresses there are in all lists. -/
def addressCount : List EndpointSubset → ℕ
  | [] => 0
  | sub :: subs => sub.both.length + addressCount subs

variable {dst epIp} {kept : List EndpointAddress} {sub : EndpointSubset}
  {subs : List EndpointSubset}

theorem arrivesWhole_cons : ArrivesWhole dst epIp (sub :: subs) ↔
    (sub.on dst = [] → AtMostOnce epIp (sub.on dst.other)) ∧ ArrivesWhole dst epIp subs :=
  List.forall_mem_cons

/-- One round of the loop. -/
theorem apartFrom_cons : ApartFrom dst epIp kept (sub :: subs) ↔
    (sub.on dst.other = [] ∨ kept = []) ∧
      ApartFrom dst epIp (sub.move dst epIp kept).2 subs := by
  have hkeeps : ((sub.on dst.other).filter fun addr => addr.ip ≠ epIp) ≠ [] ↔
      ∃ addr ∈ sub.on dst.other, addr.ip ≠ epIp := by
    simp [List.filter_eq_nil_iff]
  simp only [ApartFrom, KeepsApart, List.pairwise_cons, List.forall_mem_cons,
    EndpointSubset.kept_move, ne_eq, List.append_eq_nil_iff, not_and_or]
  rw [← ne_eq, ← ne_eq, hkeeps]
  constructor
  · rintro ⟨hkept, hhead, htail⟩
    refine ⟨?_, ?_, htail⟩
    · by_cases hnil : kept = []
      · exact .inr hnil
      · exact .inl (hkept hnil).1
    · rintro (hne | hsome)
      · exact (hkept hne).2
      · exact fun later hlater => hhead later hlater hsome
  · rintro ⟨hsub, hrest, htail⟩
    refine ⟨fun hne => ⟨hsub.resolve_right hne, hrest (.inl hne)⟩, ?_, htail⟩
    exact fun later hlater hsome => hrest (.inr hsome) later hlater

/-- The addresses kept have other IPs. -/
theorem not_holds_kept_move (hkept : ¬ Holds epIp kept) :
    ¬ Holds epIp (sub.move dst epIp kept).2 := by
  rw [EndpointSubset.kept_move]
  exact not_holds_append hkept (not_holds_filter epIp _)

/-- In the middle of the loop: the rest of the subsets is conserved exactly if none of them receives
kept addresses or loses one. -/
theorem conserved_moveSubsets_from_iff (hkept : ¬ Holds epIp kept) :
    List.Forall₂ (Conserved dst epIp) subs (moveSubsets dst epIp kept subs) ↔
      ApartFrom dst epIp kept subs ∧ ArrivesWhole dst epIp subs := by
  induction subs generalizing kept with
  | nil => simp [moveSubsets, ApartFrom, KeepsApart, ArrivesWhole]
  | cons sub subs ih =>
    rw [moveSubsets, List.forall₂_cons, conserved_move_iff hkept, ih (not_holds_kept_move hkept),
      apartFrom_cons, arrivesWhole_cons]
    tauto

/-- Subsets that are conserved have as many addresses as before. -/
theorem addressCount_of_conserved {moved : List EndpointSubset}
    (hconserved :
      List.Forall₂ (fun sub sub' : EndpointSubset => sub'.both.Perm sub.both) subs moved) :
    addressCount moved = addressCount subs := by
  induction hconserved with
  | nil => rfl
  | cons hsub _ ih =>
    have hlength := hsub.length_eq
    simp only [addressCount]
    omega

/-- A move conserves every subset exactly when no subset receives what an earlier one kept and none
loses an address with the IP. -/
theorem conserved_moveSubsets_iff :
    List.Forall₂ (Conserved dst epIp) subs (moveSubsets dst epIp [] subs) ↔
      KeepsApart dst epIp subs ∧ ArrivesWhole dst epIp subs := by
  have hnone : ¬ Holds epIp [] := by simp [Holds]
  rw [conserved_moveSubsets_from_iff hnone, ApartFrom]
  simp

end Loop

/-! ## There and back -/

/-- Two subsets that differ in the order of addresses only. -/
structure Reordered (sub other : EndpointSubset) : Prop where
  lists : ∀ side, (other.on side).Perm (sub.on side)
  ports : other.ports = sub.ports

/-- Two moves that conserve a subset restore it, when the IP was on the source side of the first
one only. -/
theorem reordered_of_conserved {dst : Side} {epIp : String} {sub moved back : EndpointSubset}
    (hone : ¬ Holds epIp (sub.on dst)) (hthere : Conserved dst epIp sub moved)
    (hback : Conserved dst.other epIp moved back) : Reordered sub back := by
  have hgone : ¬ Holds epIp (back.on dst) := by simpa using hback.gone
  have hdst : (back.on dst).Perm (sub.on dst) := by
    have hothers := (hback.others dst).trans (hthere.others dst)
    rwa [filter_of_not_holds hgone, filter_of_not_holds hone] at hothers
  have hboth : (back.on dst ++ back.on dst.other).Perm (sub.on dst ++ sub.on dst.other) :=
    (back.both_perm dst).symm.trans
      ((hback.both.trans hthere.both).trans (sub.both_perm dst))
  have hsource : (back.on dst.other).Perm (sub.on dst.other) :=
    (List.perm_append_left_iff (sub.on dst)).mp ((hdst.append_right _).symm.trans hboth)
  refine ⟨fun side => ?_, hback.ports.trans hthere.ports⟩
  rcases side.eq_or_eq_other dst with rfl | rfl
  · exact hdst
  · exact hsource

/-- What a move back does to a subset, in terms of what the first move has done. -/
theorem reordered_move_iff {dst : Side} {epIp : String} {kept kept' : List EndpointAddress}
    {sub : EndpointSubset} (hone : ¬ Holds epIp (sub.on dst)) (hkept : ¬ Holds epIp kept)
    (hkept' : ¬ Holds epIp kept') :
    Reordered sub ((sub.move dst epIp kept).1.move dst.other epIp kept').1 ↔
      Conserved dst epIp sub (sub.move dst epIp kept).1 ∧
        Conserved dst.other epIp (sub.move dst epIp kept).1
          ((sub.move dst epIp kept).1.move dst.other epIp kept').1 := by
  refine ⟨fun hsame => ?_, fun ⟨hthere, hback⟩ => reordered_of_conserved hone hthere hback⟩
  rw [conserved_move_iff hkept, conserved_move_iff hkept', Side.other_other]
  have hdst := EndpointSubset.on_dst_move dst epIp kept sub
  have hsource := EndpointSubset.on_source_move dst epIp kept sub
  have hgone : ¬ Holds epIp ((sub.move dst epIp kept).1.on dst.other) :=
    EndpointSubset.not_holds_source_move hkept
  have hmatches : (((sub.move dst epIp kept).1.on dst).filter fun addr => addr.ip = epIp) =
      sub.arriving dst epIp := EndpointSubset.filter_dst_move hone
  generalize (sub.move dst epIp kept).1 = moved at *
  have hback := EndpointSubset.on_dst_move dst.other epIp kept' moved
  have hbackSource := EndpointSubset.on_source_move dst.other epIp kept' moved
  rw [Side.other_other] at hbackSource
  -- no address with the IP is left behind, so those that come back are counted at the source
  have hcount : (moved.arriving dst.other epIp).length =
      ((sub.on dst.other).filter fun addr => addr.ip = epIp).length := by
    have hperm := ((hsame.lists dst.other).filter fun addr => decide (addr.ip = epIp)).length_eq
    rw [hback, List.filter_append, filter_eq_nil_of_not_holds hgone, List.nil_append,
      (EndpointSubset.filter_arriving dst.other epIp moved).2] at hperm
    exact hperm
  have hfirst := EndpointSubset.length_arriving_le dst epIp sub
  have hsecond := EndpointSubset.length_arriving_le dst.other epIp moved
  rw [Side.other_other, hmatches] at hsecond
  refine ⟨⟨?_, ?_⟩, ?_, ?_⟩
  · by_cases hnil : sub.on dst.other = []
    · exact .inl hnil
    · right
      have hperm := ((hsame.lists dst.other).filter fun addr => decide (addr.ip ≠ epIp)).length_eq
      rw [hback, List.filter_append, (EndpointSubset.filter_arriving dst.other epIp moved).1,
        List.append_nil, filter_of_not_holds hgone, hsource, if_neg hnil, List.length_append]
        at hperm
      exact List.eq_nil_of_length_eq_zero (by omega)
  · exact (EndpointSubset.length_arriving_eq_iff dst epIp sub).mp (by omega)
  · by_cases hnil : moved.on dst = []
    · exact .inl hnil
    · right
      have hperm := (hsame.lists dst).length_eq
      rw [hbackSource, if_neg hnil, hdst, List.filter_append, filter_of_not_holds hone,
        (EndpointSubset.filter_arriving dst epIp sub).1, List.append_nil, List.length_append]
        at hperm
      exact List.eq_nil_of_length_eq_zero (by omega)
  · have hall := (EndpointSubset.length_arriving_eq_iff dst.other epIp moved).mp (by
      rw [Side.other_other, hmatches]
      omega)
    rwa [Side.other_other] at hall

/-- No subset that has addresses on the side `dst` after a move there comes after one that has an
address with another IP on that side. -/
def BackApart (dst : Side) (epIp : String) (subs : List EndpointSubset) : Prop :=
  subs.Pairwise fun sub later => (∃ addr ∈ sub.on dst, addr.ip ≠ epIp) →
    later.on dst = [] ∧ ¬ Holds epIp (later.on dst.other)

instance (dst : Side) (epIp : String) (subs : List EndpointSubset) :
    Decidable (BackApart dst epIp subs) :=
  inferInstanceAs (Decidable (subs.Pairwise _))

section Back

variable {dst : Side} {epIp : String} {subs : List EndpointSubset}

/-- The destination lists after a move. -/
theorem map_on_moveSubsets (kept : List EndpointAddress) :
    (moveSubsets dst epIp kept subs).map (fun sub => sub.on dst) =
      subs.map fun sub => sub.on dst ++ sub.arriving dst epIp := by
  induction subs generalizing kept with
  | nil => rfl
  | cons sub subs ih =>
    rw [moveSubsets, List.map_cons, List.map_cons, ih, EndpointSubset.on_dst_move]

/-- When the move back conserves every subset, in terms of the subsets before the first move. -/
theorem keepsApart_moveSubsets_iff (kept : List EndpointAddress) :
    KeepsApart dst.other epIp (moveSubsets dst epIp kept subs) ↔ BackApart dst epIp subs := by
  have hlists : KeepsApart dst.other epIp (moveSubsets dst epIp kept subs) ↔
      ((moveSubsets dst epIp kept subs).map fun sub => sub.on dst).Pairwise
        fun addrs later => (∃ addr ∈ addrs, addr.ip ≠ epIp) → later = [] := by
    rw [List.pairwise_map, KeepsApart, Side.other_other]
  rw [hlists, map_on_moveSubsets, List.pairwise_map, BackApart]
  refine List.Pairwise.iff fun sub later => ?_
  have hsome : (∃ addr ∈ sub.on dst ++ sub.arriving dst epIp, addr.ip ≠ epIp) ↔
      ∃ addr ∈ sub.on dst, addr.ip ≠ epIp := by
    constructor
    · rintro ⟨addr, haddr, hne⟩
      rcases List.mem_append.mp haddr with hdst | harriving
      · exact ⟨addr, hdst, hne⟩
      · exact absurd (EndpointSubset.exists_mem_arriving.mp ⟨addr, harriving, rfl⟩).1 hne
    · rintro ⟨addr, hdst, hne⟩
      exact ⟨addr, List.mem_append_left _ hdst, hne⟩
  have hnone : later.on dst ++ later.arriving dst epIp = [] ↔
      later.on dst = [] ∧ ¬ Holds epIp (later.on dst.other) := by
    rw [List.append_eq_nil_iff]
    refine and_congr_right fun _ => ?_
    have harriving : (∃ addr ∈ later.arriving dst epIp, addr.ip = epIp) ↔
        Holds epIp (later.on dst.other) := by
      rw [EndpointSubset.exists_mem_arriving]
      exact and_iff_right rfl
    rw [← harriving]
    constructor
    · intro hnil
      simp [hnil]
    · intro hno
      rw [List.eq_nil_iff_forall_not_mem]
      exact fun addr haddr =>
        hno ⟨addr, haddr, (EndpointSubset.exists_mem_arriving.mp ⟨addr, haddr, rfl⟩).1⟩
  rw [hsome, hnone]

/-- No address with the IP is lost on the way back to a list that a move has emptied. -/
def ReturnsWhole (dst : Side) (epIp : String) (subs : List EndpointSubset) : Prop :=
  ∀ sub ∈ subs, (∀ addr ∈ sub.on dst.other, addr.ip = epIp) → AtMostOnce epIp (sub.on dst.other)

instance (dst : Side) (epIp : String) (subs : List EndpointSubset) :
    Decidable (ReturnsWhole dst epIp subs) :=
  inferInstanceAs (Decidable (∀ sub ∈ subs, _))

/-- What a subset that a move has conserved has on the two sides, as far as the way back is
concerned. -/
theorem atMostOnce_of_conserved {sub moved : EndpointSubset} (hone : ¬ Holds epIp (sub.on dst))
    (h : Conserved dst epIp sub moved) :
    (moved.on dst.other = [] → AtMostOnce epIp (moved.on dst)) ↔
      ((∀ addr ∈ sub.on dst.other, addr.ip = epIp) → AtMostOnce epIp (sub.on dst.other)) := by
  have hempty : moved.on dst.other = [] ↔ ∀ addr ∈ sub.on dst.other, addr.ip = epIp := by
    have hothers := (h.others dst.other).length_eq
    rw [filter_of_not_holds h.gone] at hothers
    rw [← List.length_eq_zero_iff, hothers, List.length_eq_zero_iff, List.filter_eq_nil_iff]
    simp
  have hmatches : ((moved.on dst).filter fun addr => addr.ip = epIp).length =
      ((sub.on dst.other).filter fun addr => addr.ip = epIp).length := by
    have hperm := (moved.both_perm dst).symm.trans (h.both.trans (sub.both_perm dst))
    have hcount := (hperm.filter fun addr => decide (addr.ip = epIp)).length_eq
    rw [List.filter_append, List.filter_append, filter_eq_nil_of_not_holds hone,
      filter_eq_nil_of_not_holds h.gone, List.append_nil, List.nil_append] at hcount
    exact hcount
  rw [hempty, AtMostOnce, AtMostOnce, hmatches]

theorem arrivesWhole_back_iff {moved : List EndpointSubset}
    (hone : ∀ sub ∈ subs, ¬ Holds epIp (sub.on dst))
    (hthere : List.Forall₂ (Conserved dst epIp) subs moved) :
    ArrivesWhole dst.other epIp moved ↔ ReturnsWhole dst epIp subs := by
  induction hthere with
  | nil => simp [ArrivesWhole, ReturnsWhole]
  | cons hsub _ ih =>
    obtain ⟨hhead, htail⟩ := List.forall_mem_cons.mp hone
    rw [arrivesWhole_cons, Side.other_other, ih htail, ReturnsWhole, ReturnsWhole,
      List.forall_mem_cons, atMostOnce_of_conserved hhead hsub]

/-- Two moves restore every subset exactly when both conserve every subset. -/
theorem forall_reordered_iff {kept kept' : List EndpointAddress}
    (hone : ∀ sub ∈ subs, ¬ Holds epIp (sub.on dst)) (hkept : ¬ Holds epIp kept)
    (hkept' : ¬ Holds epIp kept') :
    List.Forall₂ Reordered subs
        (moveSubsets dst.other epIp kept' (moveSubsets dst epIp kept subs)) ↔
      List.Forall₂ (Conserved dst epIp) subs (moveSubsets dst epIp kept subs) ∧
        List.Forall₂ (Conserved dst.other epIp) (moveSubsets dst epIp kept subs)
          (moveSubsets dst.other epIp kept' (moveSubsets dst epIp kept subs)) := by
  induction subs generalizing kept kept' with
  | nil => simp [moveSubsets]
  | cons sub subs ih =>
    obtain ⟨hhead, htail⟩ := List.forall_mem_cons.mp hone
    rw [moveSubsets, moveSubsets, List.forall₂_cons, List.forall₂_cons, List.forall₂_cons,
      reordered_move_iff hhead hkept hkept',
      ih htail (not_holds_kept_move hkept) (not_holds_kept_move hkept')]
    exact and_and_and_comm

/-- Two moves one after the other restore every subset exactly when no subset receives or loses an
address on either way. -/
theorem reordered_moveSubsets_iff (hone : ¬ HasIp dst subs epIp) :
    List.Forall₂ Reordered subs
        (moveSubsets dst.other epIp [] (moveSubsets dst epIp [] subs)) ↔
      (KeepsApart dst epIp subs ∧ ArrivesWhole dst epIp subs) ∧
        BackApart dst epIp subs ∧ ReturnsWhole dst epIp subs := by
  have hfirst : ∀ sub ∈ subs, ¬ Holds epIp (sub.on dst) :=
    fun sub hsub hholds => hone ⟨sub, hsub, hholds⟩
  have hnone : ¬ Holds epIp [] := by simp [Holds]
  rw [forall_reordered_iff hfirst hnone hnone, conserved_moveSubsets_iff,
    conserved_moveSubsets_iff, keepsApart_moveSubsets_iff]
  refine and_congr_right fun hthere => and_congr_right fun _ => ?_
  exact arrivesWhole_back_iff hfirst (conserved_moveSubsets_iff.mpr hthere)

end Back

/-! ## The objects sent and stored -/

section Programs

variable {dst : Side} {epIp : String}

/-- What a move sends, if anything, is the object read with the address moved. -/
theorem of_mem_sent_modifyEp {faults : Faults} {n : ℕ} {s : Server Endpoints} {new : Endpoints}
    (hnew : new ∈ sent faults (modifyEp dst epIp) n s) :
    ∃ ep ∈ s.object, ep.Has dst.other epIp ∧ new = ep.moveTo dst epIp := by
  rcases mem_sent_fetch_bind rfl hnew with ⟨ep, hobj, hnew⟩ | ⟨-, hnew⟩
  · dsimp only at hnew
    split at hnew
    · next hhas =>
      rw [sent_bind] at hnew
      rcases List.mem_append.mp hnew with hattempt | hlater
      · exact ⟨ep, hobj, hhas, eq_of_mem_sent_retryUpdate hattempt⟩
      · cases hlater
    · cases hnew
  · cases hnew

/-- A move of an address that is there sends the object. -/
theorem mem_sent_modifyEp {s : Server Endpoints} {ep : Endpoints} (hobj : s.object = some ep)
    (hhas : ep.Has dst.other epIp) : ep.moveTo dst epIp ∈ sent .none (modifyEp dst epIp) 0 s := by
  rw [modifyEp, sent_fetch_bind]
  simp only [Faults.none, if_true, Server.get, hobj, hhas]
  exact mem_sent_retryOnConflict_bind _ _ _ _ _

/-- The stored object after a move of an address that is there. -/
theorem subsets_modifyEp {s : Server Endpoints} {ep : Endpoints} (hobj : s.object = some ep)
    (hhas : ep.Has dst.other epIp) :
    ∃ stored, (alone (modifyEp dst epIp) s).2.object = some stored ∧
      stored.subsets = moveSubsets dst epIp [] ep.subsets := by
  have hversion : Resource.resourceVersion (ep.moveTo dst epIp) =
      Resource.resourceVersion ep := rfl
  obtain ⟨stored, t, hupdate, hstored, hcontent⟩ := Server.update_of_version hobj hversion
  refine ⟨stored, ?_, Endpoints.subsets_eq_of_stamp_eq hcontent⟩
  rw [modifyEp, alone_fetch_bind]
  simp only [Server.get, hobj, hhas, if_true]
  rw [alone_bind, retryOnConflict, retryUpdate, alone_put_bind, hupdate]
  exact hstored

end Programs

/-- For every object and every IP, a move sends an object in which every subset is conserved, and
a second move back restores the object up to the order of addresses when the IP was on one side
only: exactly when no subset with source addresses comes after one that keeps a source address and
no list that is empty should receive two addresses with the IP, and, for the way back, the same
holds of the other side. -/
theorem moves_conserve_iff (dst : Side) (epIp : String) (v : ℕ) (ep : Endpoints) :
    (∀ new ∈ sent .none (modifyEp dst epIp) 0 (.holding v ep),
        List.Forall₂ (Conserved dst epIp) ep.subsets new.subsets) ∧
      (ep.Has dst.other epIp → ¬ ep.Has dst epIp →
        let moved := (alone (modifyEp dst epIp) (.holding v ep)).2
        ∀ back ∈ (alone (modifyEp dst.other epIp) moved).2.object,
          List.Forall₂ Reordered ep.subsets back.subsets) ↔
    (ep.Has dst.other epIp →
      (KeepsApart dst epIp ep.subsets ∧ ArrivesWhole dst epIp ep.subsets) ∧
      (¬ ep.Has dst epIp → BackApart dst epIp ep.subsets ∧ ReturnsWhole dst epIp ep.subsets)) := by
  have hobj : (Server.holding v ep).object = some (Resource.stamp v ep) := rfl
  have hrestored : ep.Has dst.other epIp →
      ((∀ back ∈ (alone (modifyEp dst.other epIp)
          (alone (modifyEp dst epIp) (.holding v ep)).2).2.object,
        List.Forall₂ Reordered ep.subsets back.subsets) ↔
      List.Forall₂ Reordered ep.subsets
        (moveSubsets dst.other epIp [] (moveSubsets dst epIp [] ep.subsets))) := by
    intro hhas
    obtain ⟨moved, hmoved, hsubsets⟩ := subsets_modifyEp hobj hhas
    have hmovedSubsets : moved.subsets = moveSubsets dst epIp [] ep.subsets := hsubsets
    have hthere : moved.Has dst.other.other epIp := by
      have hdst := (hasIp_dst_moveSubsets dst epIp [] ep.subsets epIp).mpr (.inr ⟨rfl, hhas⟩)
      rwa [Side.other_other, Endpoints.Has, hmovedSubsets]
    obtain ⟨back, hback, hbackSubsets⟩ := subsets_modifyEp hmoved hthere
    rw [hback, ← hmovedSubsets, ← hbackSubsets]
    simp
  constructor
  · rintro ⟨hsent, hback⟩ hhas
    constructor
    · exact conserved_moveSubsets_iff.mp (hsent _ (mem_sent_modifyEp hobj hhas))
    · intro hone
      exact ((reordered_moveSubsets_iff hone).mp ((hrestored hhas).mp (hback hhas hone))).2
  · intro hapart
    constructor
    · intro new hnew
      obtain ⟨read, hread, hhas, rfl⟩ := of_mem_sent_modifyEp hnew
      cases hread
      exact conserved_moveSubsets_iff.mpr (hapart hhas).1
    · intro hhas hone
      obtain ⟨hthere, hback⟩ := hapart hhas
      exact (hrestored hhas).mpr ((reordered_moveSubsets_iff hone).mpr ⟨hthere, hback hone⟩)

/-- A service with two subsets: the address that the first one keeps also appears in the second
one, behind the other port. -/
theorem kept_address_spreads :
    let ep : Endpoints :=
      { metadata := { name := "web", nameSpace := "prod" }
        subsets := [
          { addresses := [⟨"10.0.0.7", none, none⟩, ⟨"10.0.0.8", none, none⟩]
            ports := [⟨"http", 80, "TCP", none⟩] },
          { addresses := [⟨"10.0.0.9", none, none⟩], ports := [⟨"https", 443, "TCP", none⟩] }] }
    ¬ ∀ new ∈ sent .none (modifyEpInNotReadyAddressList "10.0.0.7") 0 (.holding 1 ep),
      List.Forall₂ (Conserved .notReady "10.0.0.7") ep.subsets new.subsets := by
  intro ep hall
  have hconserved := hall _ (@mem_sent_modifyEp _ _ _ (Resource.stamp 1 ep) rfl (by decide))
  have hcount := addressCount_of_conserved (hconserved.imp fun _ _ h => h.both)
  exact absurd hcount (by decide)

end HealthCheck
