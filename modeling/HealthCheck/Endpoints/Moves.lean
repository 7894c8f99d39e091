import HealthCheck.Api.Client
import HealthCheck.Objects

/-!
# Moving an address between the two lists

Every subset of an `Endpoints` object has a list of ready and a list of not ready
addresses. `modifyEpInAddressList` and `modifyEpInNotReadyAddressList` are one function
with the lists exchanged. The slice that collects the addresses to keep is shared by all
subsets, so that a later subset also receives what earlier subsets kept; and a destination
that was nil is made anew for every address that is moved, so that only the last one of several
with the IP arrives. The sets of IPs on the two sides nevertheless change by the moved one only.
-/

namespace HealthCheck

open Api Api.Client

/-- The two address lists of a subset. -/
inductive Side where
  | ready
  | notReady
  deriving DecidableEq, Repr

namespace Side

/-- The opposite list. -/
def other : Side → Side
  | ready => notReady
  | notReady => ready

@[simp] theorem other_other (side : Side) : side.other.other = side := by
  cases side <;> rfl

theorem eq_or_eq_other (side dst : Side) : side = dst ∨ side = dst.other := by
  cases side <;> cases dst <;> decide

theorem exists_iff {p : Side → Prop} : (∃ side, p side) ↔ p ready ∨ p notReady := by
  constructor
  · rintro ⟨side, hside⟩
    cases side with
    | ready => exact .inl hside
    | notReady => exact .inr hside
  · rintro (hside | hside)
    · exact ⟨ready, hside⟩
    · exact ⟨notReady, hside⟩

end Side

namespace EndpointSubset

/-- The addresses on one side. -/
def on (sub : EndpointSubset) : Side → List EndpointAddress
  | .ready => sub.addresses
  | .notReady => sub.notReadyAddresses

/-- Assigning the addresses on one side. -/
def assign (sub : EndpointSubset) (side : Side) (addrs : List EndpointAddress) : EndpointSubset :=
  match side with
  | .ready => { sub with addresses := addrs }
  | .notReady => { sub with notReadyAddresses := addrs }

@[simp] theorem on_assign (sub : EndpointSubset) (side : Side) (addrs : List EndpointAddress) :
    (sub.assign side addrs).on side = addrs := by
  cases side <;> rfl

@[simp] theorem assign_on (sub : EndpointSubset) (side : Side) :
    sub.assign side (sub.on side) = sub := by
  cases side <;> rfl

@[simp] theorem on_assign_other (sub : EndpointSubset) (side : Side)
    (addrs : List EndpointAddress) : (sub.assign side.other addrs).on side = sub.on side := by
  cases side <;> rfl

/-- The destination after the loop over the source addresses. The loop asks the copy of the subset
with which it has started whether the destination is nil, and if it is makes a new one for each
address with the IP. -/
def received (dst : Side) (epIp : String) (sub : EndpointSubset) : List EndpointAddress :=
  (sub.on dst.other).foldl (fun addrs addr =>
    if addr.ip = epIp then (if (sub.on dst).isEmpty then [] else addrs) ++ [addr] else addrs)
    (sub.on dst)

/-- The body of the loop over the subsets, where `kept` is the slice shared by all rounds:
the addresses with the given IP go to the side `dst`, the others are kept. A subset without
addresses on the source side is skipped. -/
def move (dst : Side) (epIp : String) (kept : List EndpointAddress) (sub : EndpointSubset) :
    EndpointSubset × List EndpointAddress :=
  let source := sub.on dst.other
  if source.isEmpty then (sub, kept)
  else
    let kept := kept ++ source.filter (fun addr => addr.ip ≠ epIp)
    ((sub.assign dst (sub.received dst epIp)).assign dst.other kept, kept)

theorem move_of_nil {dst : Side} {sub : EndpointSubset} (hnil : sub.on dst.other = [])
    (epIp : String) (kept : List EndpointAddress) : sub.move dst epIp kept = (sub, kept) := by
  simp [move, hnil]

theorem move_of_ne_nil {dst : Side} {sub : EndpointSubset} (hne : sub.on dst.other ≠ [])
    (epIp : String) (kept : List EndpointAddress) :
    sub.move dst epIp kept =
      ((sub.assign dst (sub.received dst epIp)).assign dst.other
          (kept ++ (sub.on dst.other).filter fun addr => addr.ip ≠ epIp),
        kept ++ (sub.on dst.other).filter fun addr => addr.ip ≠ epIp) := by
  simp [move, hne]

/-- The addresses with the IP that arrive: all of them if there are addresses already, and
otherwise the last one. -/
def arriving (dst : Side) (epIp : String) (sub : EndpointSubset) : List EndpointAddress :=
  let moved := (sub.on dst.other).filter fun addr => addr.ip = epIp
  if (sub.on dst).isEmpty then moved.getLast?.toList else moved

theorem received_eq (dst : Side) (epIp : String) (sub : EndpointSubset) :
    sub.received dst epIp = sub.on dst ++ sub.arriving dst epIp := by
  rw [received, arriving]
  generalize sub.on dst.other = source
  cases hdst : (sub.on dst).isEmpty with
  | true =>
    rw [List.isEmpty_iff.mp hdst]
    -- from the last address on, as the earlier ones do not matter
    induction source using List.reverseRecOn with
    | nil => rfl
    | append_singleton source addr ih =>
      rw [List.foldl_append, List.filter_append]
      by_cases hip : addr.ip = epIp <;> simp_all
  | false =>
    generalize sub.on dst = addrs
    induction source generalizing addrs with
    | nil => simp
    | cons addr source ih =>
      rw [List.foldl_cons, ih]
      by_cases hip : addr.ip = epIp <;> simp [hip]

example : received .notReady "10.0.0.7"
    { addresses := [⟨"10.0.0.7", some "node-1", none⟩, ⟨"10.0.0.7", some "node-2", none⟩] } =
      [⟨"10.0.0.7", some "node-2", none⟩] := by decide

theorem received_of_nil {dst : Side} {sub : EndpointSubset} (hnil : sub.on dst.other = [])
    (epIp : String) : sub.received dst epIp = sub.on dst := by
  rw [received, hnil, List.foldl_nil]

/-- What arrives are addresses with the IP, and there are some if there were some. -/
theorem exists_mem_arriving {dst : Side} {epIp ip : String} {sub : EndpointSubset} :
    (∃ addr ∈ sub.arriving dst epIp, addr.ip = ip) ↔
      ip = epIp ∧ ∃ addr ∈ sub.on dst.other, addr.ip = ip := by
  rw [arriving]
  split
  · constructor
    · rintro ⟨addr, haddr, rfl⟩
      have hmoved := List.mem_filter.mp (List.mem_of_getLast? (Option.mem_toList.mp haddr))
      exact ⟨of_decide_eq_true hmoved.2, addr, hmoved.1, rfl⟩
    · rintro ⟨rfl, addr, haddr, hip⟩
      have hne : ((sub.on dst.other).filter fun addr => addr.ip = ip) ≠ [] :=
        List.ne_nil_of_mem (List.mem_filter.mpr ⟨haddr, decide_eq_true hip⟩)
      have hlast := List.mem_filter.mp (List.getLast_mem hne)
      refine ⟨_, ?_, of_decide_eq_true hlast.2⟩
      rw [List.getLast?_eq_some_getLast hne, Option.toList_some]
      exact List.mem_singleton_self _
  · constructor
    · rintro ⟨addr, haddr, rfl⟩
      have hmoved := List.mem_filter.mp haddr
      exact ⟨of_decide_eq_true hmoved.2, addr, hmoved.1, rfl⟩
    · rintro ⟨rfl, addr, haddr, hip⟩
      exact ⟨addr, List.mem_filter.mpr ⟨haddr, decide_eq_true hip⟩, hip⟩

end EndpointSubset

/-- The loop over the subsets. -/
def moveSubsets (dst : Side) (epIp : String) :
    List EndpointAddress → List EndpointSubset → List EndpointSubset
  | _, [] => []
  | kept, sub :: subs =>
    let moved := sub.move dst epIp kept
    moved.1 :: moveSubsets dst epIp moved.2 subs

/-- The IP is the address of some subset on the given side. -/
def HasIp (side : Side) (subs : List EndpointSubset) (ip : String) : Prop :=
  ∃ sub ∈ subs, ∃ addr ∈ sub.on side, addr.ip = ip

instance (side : Side) (subs : List EndpointSubset) (ip : String) :
    Decidable (HasIp side subs ip) :=
  inferInstanceAs (Decidable (∃ sub ∈ subs, _))

@[simp] theorem hasIp_nil {side : Side} {ip : String} : ¬ HasIp side [] ip := by simp [HasIp]

@[simp] theorem hasIp_cons {side : Side} {sub : EndpointSubset} {subs : List EndpointSubset}
    {ip : String} :
    HasIp side (sub :: subs) ip ↔ (∃ addr ∈ sub.on side, addr.ip = ip) ∨ HasIp side subs ip := by
  simp [HasIp]

theorem hasIp_append {side : Side} {subs more : List EndpointSubset} {ip : String} :
    HasIp side (subs ++ more) ip ↔ HasIp side subs ip ∨ HasIp side more ip := by
  simp [HasIp, or_and_right, exists_or]

/-- The addresses on one side, of all subsets. -/
def listedOn (side : Side) (subs : List EndpointSubset) : List EndpointAddress :=
  subs.flatMap fun sub => sub.on side

theorem hasIp_iff_listedOn {side : Side} {subs : List EndpointSubset} {ip : String} :
    HasIp side subs ip ↔ ∃ addr ∈ listedOn side subs, addr.ip = ip := by
  simp only [listedOn, List.mem_flatMap, HasIp]
  constructor
  · rintro ⟨sub, hsub, addr, haddr, hip⟩
    exact ⟨addr, ⟨sub, hsub, haddr⟩, hip⟩
  · rintro ⟨addr, ⟨sub, hsub, haddr⟩, hip⟩
    exact ⟨sub, hsub, addr, haddr, hip⟩

/-- A round puts the moved address on the side `dst`, in addition to what is there. -/
theorem mem_dst_move (dst : Side) (epIp : String) (kept : List EndpointAddress)
    (sub : EndpointSubset) (ip : String) :
    (∃ addr ∈ (sub.move dst epIp kept).1.on dst, addr.ip = ip) ↔
      (∃ addr ∈ sub.on dst, addr.ip = ip) ∨
        (ip = epIp ∧ ∃ addr ∈ sub.on dst.other, addr.ip = ip) := by
  by_cases hnil : sub.on dst.other = []
  · simp [EndpointSubset.move_of_nil hnil, hnil]
  · rw [EndpointSubset.move_of_ne_nil hnil, EndpointSubset.on_assign_other,
      EndpointSubset.on_assign, EndpointSubset.received_eq, ← EndpointSubset.exists_mem_arriving]
    simp only [List.mem_append, or_and_right, exists_or]

/-- A round keeps every other address on the source side and adds nothing to that side but
kept addresses. -/
theorem mem_source_move (dst : Side) (epIp : String) (kept : List EndpointAddress)
    (sub : EndpointSubset) (addr : EndpointAddress) :
    (addr ∈ sub.on dst.other → addr.ip ≠ epIp →
      addr ∈ (sub.move dst epIp kept).1.on dst.other) ∧
    (addr ∈ (sub.move dst epIp kept).1.on dst.other →
      addr ∈ kept ∨ (addr ∈ sub.on dst.other ∧ addr.ip ≠ epIp)) ∧
    (addr ∈ (sub.move dst epIp kept).2 →
      addr ∈ kept ∨ (addr ∈ sub.on dst.other ∧ addr.ip ≠ epIp)) := by
  by_cases hnil : sub.on dst.other = []
  · simp [EndpointSubset.move_of_nil hnil, hnil]
  · rw [EndpointSubset.move_of_ne_nil hnil, EndpointSubset.on_assign]
    simp only [List.mem_append, List.mem_filter, decide_eq_true_eq]
    exact ⟨fun haddr hne => .inr ⟨haddr, hne⟩, id, id⟩

/-- The loop puts the moved address on the side `dst`. -/
theorem hasIp_dst_moveSubsets (dst : Side) (epIp : String) (kept : List EndpointAddress)
    (subs : List EndpointSubset) (ip : String) :
    HasIp dst (moveSubsets dst epIp kept subs) ip ↔
      HasIp dst subs ip ∨ (ip = epIp ∧ HasIp dst.other subs ip) := by
  induction subs generalizing kept with
  | nil => simp [moveSubsets]
  | cons sub subs ih =>
    rw [moveSubsets, hasIp_cons, ih, mem_dst_move, hasIp_cons, hasIp_cons, and_or_left,
      or_or_or_comm]

/-- Every other address stays on the source side. -/
theorem hasIp_source_moveSubsets (dst : Side) {epIp ip : String} (kept : List EndpointAddress)
    {subs : List EndpointSubset} (hip : HasIp dst.other subs ip) (hne : ip ≠ epIp) :
    HasIp dst.other (moveSubsets dst epIp kept subs) ip := by
  induction subs generalizing kept with
  | nil => exact absurd hip hasIp_nil
  | cons sub subs ih =>
    rw [moveSubsets, hasIp_cons]
    rcases hasIp_cons.mp hip with ⟨addr, haddr, rfl⟩ | hrest
    · exact .inl ⟨addr, (mem_source_move dst epIp kept sub addr).1 haddr hne, rfl⟩
    · exact .inr (ih _ hrest)

/-- Nothing is on the source side that was not kept from it. -/
theorem of_hasIp_source_moveSubsets {dst : Side} {epIp ip : String}
    {kept : List EndpointAddress} {subs : List EndpointSubset}
    (hip : HasIp dst.other (moveSubsets dst epIp kept subs) ip) :
    (∃ addr ∈ kept, addr.ip = ip) ∨ (HasIp dst.other subs ip ∧ ip ≠ epIp) := by
  induction subs generalizing kept with
  | nil => exact absurd hip hasIp_nil
  | cons sub subs ih =>
    have hstep := mem_source_move dst epIp kept sub
    rw [moveSubsets, hasIp_cons] at hip
    rw [hasIp_cons]
    rcases hip with ⟨addr, haddr, rfl⟩ | hrest
    · rcases (hstep addr).2.1 haddr with hkept | ⟨hold, hne⟩
      · exact .inl ⟨addr, hkept, rfl⟩
      · exact .inr ⟨.inl ⟨addr, hold, rfl⟩, hne⟩
    · rcases ih hrest with ⟨addr, haddr, rfl⟩ | ⟨hold, hne⟩
      · rcases (hstep addr).2.2 haddr with hkept | ⟨hold, hne⟩
        · exact .inl ⟨addr, hkept, rfl⟩
        · exact .inr ⟨.inl ⟨addr, hold, rfl⟩, hne⟩
      · exact .inr ⟨.inr hold, hne⟩

namespace Endpoints

/-- The IP is an address of the object on the given side. -/
def Has (ep : Endpoints) (side : Side) (ip : String) : Prop := HasIp side ep.subsets ip

instance (ep : Endpoints) (side : Side) (ip : String) : Decidable (ep.Has side ip) :=
  inferInstanceAs (Decidable (HasIp side ep.subsets ip))

/-- The object that a move sends. -/
def moveTo (dst : Side) (epIp : String) (ep : Endpoints) : Endpoints :=
  { ep with subsets := moveSubsets dst epIp [] ep.subsets }

/-- A move adds the address to one side. -/
theorem has_dst_moveTo (dst : Side) (epIp : String) (ep : Endpoints) (ip : String) :
    (ep.moveTo dst epIp).Has dst ip ↔ ep.Has dst ip ∨ (ip = epIp ∧ ep.Has dst.other ip) :=
  hasIp_dst_moveSubsets dst epIp [] ep.subsets ip

/-- A move removes the address from the other side, and no other address. -/
theorem has_source_moveTo (dst : Side) (epIp : String) (ep : Endpoints) (ip : String) :
    (ep.moveTo dst epIp).Has dst.other ip ↔ ep.Has dst.other ip ∧ ip ≠ epIp := by
  constructor
  · intro hip
    rcases of_hasIp_source_moveSubsets hip with ⟨addr, haddr, -⟩ | hold
    · cases haddr
    · exact hold
  · rintro ⟨hip, hne⟩
    exact hasIp_source_moveSubsets dst [] hip hne

theorem subsets_eq_of_stamp_eq {a b : Endpoints} (h : Resource.stamp 0 a = Resource.stamp 0 b) :
    a.subsets = b.subsets := by
  have hsubsets := congrArg Endpoints.subsets h
  exact hsubsets

/-- Objects with the same content have the same addresses. -/
theorem has_iff_of_stamp_eq {a b : Endpoints} (h : Resource.stamp 0 a = Resource.stamp 0 b)
    (side : Side) (ip : String) : a.Has side ip ↔ b.Has side ip := by
  rw [Has, Has, subsets_eq_of_stamp_eq h]

end Endpoints

/-- The addresses that were there are on the sides where they were. -/
def SidesKept (old new : Endpoints) : Prop :=
  ∀ ip, (∃ side, old.Has side ip) → ∀ side, new.Has side ip ↔ old.Has side ip

/-- The stored object has the address on the given side. -/
def HasAddr (s : Server Endpoints) (side : Side) (ip : String) : Prop :=
  ∃ ep ∈ s.object, ep.Has side ip

instance (s : Server Endpoints) (side : Side) (ip : String) : Decidable (HasAddr s side ip) :=
  inferInstanceAs (Decidable (∃ ep ∈ s.object, _))

theorem hasAddr_of_object {s : Server Endpoints} {ep : Endpoints} (hobj : s.object = some ep)
    (side : Side) (ip : String) : HasAddr s side ip ↔ ep.Has side ip := by
  simp [HasAddr, hobj]

/-- An update adds no addresses but those of the object sent. -/
theorem of_hasAddr_update {s : Server Endpoints} {sent : Endpoints} {side : Side} {ip : String}
    (hip : HasAddr (s.update sent).2 side ip) : HasAddr s side ip ∨ sent.Has side ip := by
  rcases s.update_object sent with hsame | ⟨stored, hstored, hcontent⟩
  · exact .inl (hsame ▸ hip)
  · rw [hasAddr_of_object hstored, Endpoints.has_iff_of_stamp_eq hcontent] at hip
    exact .inr hip

/-- The membership test before a move. An error of the read is logged and reads as "no". -/
def epIn (side : Side) (epIp : String) : Client Endpoints Bool := do
  match ← fetch with
  | .found ep => pure (decide (ep.Has side epIp))
  | _ => pure false

/-- `epInReadyAddressList`. -/
def epInReadyAddressList (epIp : String) : Client Endpoints Bool := epIn .ready epIp

/-- `epInNoReadyAddressList`. -/
def epInNoReadyAddressList (epIp : String) : Client Endpoints Bool := epIn .notReady epIp

/-- Fetch the object, move the address and send the object when something was moved. Only
the error of the read is returned, as `false`; a refused update is logged. -/
def modifyEp (dst : Side) (epIp : String) : Client Endpoints Bool := do
  match ← fetch with
  | .found ep =>
    if ep.Has dst.other epIp then
      let _ ← retryOnConflict (ep.moveTo dst epIp)
      pure true
    else pure true
  | _ => pure false

/-- `modifyEpInAddressList`. -/
def modifyEpInAddressList (epIp : String) : Client Endpoints Bool := modifyEp .ready epIp

/-- `modifyEpInNotReadyAddressList`. -/
def modifyEpInNotReadyAddressList (epIp : String) : Client Endpoints Bool :=
  modifyEp .notReady epIp

end HealthCheck
