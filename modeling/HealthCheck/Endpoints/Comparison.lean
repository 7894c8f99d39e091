import HealthCheck.Endpoints.Predicates

/-!
# Which subsets compare as equal

`compareEpSubsets` is to find out whether two lists of subsets are the same up to order. It tests
that the old lists are not nil, and that they have the length of the new ones and all their entries.
The lists are slices here, so that a nil slice is told from an empty one. An object from the API
server has no empty slices that are not nil, and for such objects this is the comparison of the
Update predicate.
-/

namespace HealthCheck

/-- An endpoint subset with its lists as slices. -/
structure SubsetSlices where
  addresses : Go.Slice EndpointAddress
  notReadyAddresses : Go.Slice EndpointAddress
  ports : Go.Slice EndpointPort
  deriving DecidableEq

namespace SubsetSlices

/-- The body of the loop of `compareEpSubsets`. -/
def compareEpSubset (new old : SubsetSlices) : Bool :=
  (old.addresses != .nil && compareEpAddress new.addresses.elems old.addresses.elems) &&
    (old.notReadyAddresses != .nil &&
      compareEpAddress new.notReadyAddresses.elems old.notReadyAddresses.elems) &&
    (old.ports != .nil && compareEpPorts new.ports.elems old.ports.elems)

/-- `compareEpSubsets`. -/
def compareEpSubsets (newSubsets oldSubsets : List SubsetSlices) : Bool :=
  newSubsets.length == oldSubsets.length &&
    (newSubsets.zip oldSubsets).all fun pair => compareEpSubset pair.1 pair.2

/-- A list as it is decoded: without entries it is nil. -/
def decoded {α : Type} : List α → Go.Slice α
  | [] => .nil
  | a :: as => .of (a :: as)

/-- A subset as it is decoded. -/
def ofSubset (sub : EndpointSubset) : SubsetSlices :=
  ⟨decoded sub.addresses, decoded sub.notReadyAddresses, decoded sub.ports⟩

theorem elems_decoded {α : Type} (xs : List α) : (decoded xs).elems = xs := by
  cases xs <;> rfl

theorem decoded_bne_nil {α : Type} [DecidableEq α] (xs : List α) :
    (decoded xs != .nil) = !xs.isEmpty := by
  cases xs <;> rfl

/-- On decoded objects this is the comparison of the Update predicate. -/
theorem compareEpSubsets_ofSubset (new old : List EndpointSubset) :
    compareEpSubsets (new.map ofSubset) (old.map ofSubset) =
      HealthCheck.compareEpSubsets new old := by
  have hsubset (new old : EndpointSubset) :
      compareEpSubset (ofSubset new) (ofSubset old) = HealthCheck.compareEpSubset new old := by
    simp only [compareEpSubset, ofSubset, elems_decoded, decoded_bne_nil,
      HealthCheck.compareEpSubset]
  unfold compareEpSubsets HealthCheck.compareEpSubsets
  rw [List.length_map, List.length_map, List.zip_map, List.all_map]
  simp only [Function.comp_def, Prod.map, hsubset]

/-! ### What is compared -/

/-- The IPs on each side, and the ports with their protocols. -/
def readyIps (sub : SubsetSlices) : List String := sub.addresses.elems.map EndpointAddress.ip

@[inherit_doc readyIps]
def notReadyIps (sub : SubsetSlices) : List String :=
  sub.notReadyAddresses.elems.map EndpointAddress.ip

@[inherit_doc readyIps]
def portKeys (sub : SubsetSlices) : List (ℤ × String) := sub.ports.elems.map portKey

/-- The subsets have the same IPs on each side, and the same ports and protocols, up to order. -/
def Same (new old : SubsetSlices) : Prop :=
  new.readyIps.Perm old.readyIps ∧ new.notReadyIps.Perm old.notReadyIps ∧
    new.portKeys.Perm old.portKeys

/-- Each list of the old subset is as long as that of the new one, and nothing of the new one is
missing in it. -/
def NoneMissing (new old : SubsetSlices) : Prop :=
  Go.Covered new.readyIps old.readyIps ∧ Go.Covered new.notReadyIps old.notReadyIps ∧
    Go.Covered new.portKeys old.portKeys

/-- No list of the subset is nil. -/
def NoNil (sub : SubsetSlices) : Prop :=
  sub.addresses ≠ .nil ∧ sub.notReadyAddresses ≠ .nil ∧ sub.ports ≠ .nil

/-- Some IP or port is more often in a list of the new subset than in that of the old one. -/
def Repeats (new old : SubsetSlices) : Prop :=
  Go.Exceeds new.readyIps old.readyIps ∨ Go.Exceeds new.notReadyIps old.notReadyIps ∨
    Go.Exceeds new.portKeys old.portKeys

theorem compareEpSubset_iff {new old : SubsetSlices} :
    compareEpSubset new old = true ↔ NoneMissing new old ∧ NoNil old := by
  simp only [compareEpSubset, Bool.and_eq_true, bne_iff_ne, compareEpAddress_iff,
    compareEpPorts_iff, NoneMissing, NoNil, readyIps, notReadyIps, portKeys]
  tauto

theorem same_iff {new old : SubsetSlices} :
    Same new old ↔ NoneMissing new old ∧ ¬ Repeats new old := by
  rw [Same, Go.perm_iff_covered, Go.perm_iff_covered, Go.perm_iff_covered, NoneMissing, Repeats]
  tauto

theorem Same.symm {new old : SubsetSlices} (h : Same new old) : Same old new :=
  ⟨h.1.symm, h.2.1.symm, h.2.2.symm⟩

theorem same_self (sub : SubsetSlices) : Same sub sub := ⟨.refl _, .refl _, .refl _⟩

/-! ### Lists of subsets -/

section Subsets

variable {new old : List SubsetSlices}

theorem compareEpSubsets_iff :
    compareEpSubsets new old = true ↔
      List.Forall₂ NoneMissing new old ∧ ∀ pair ∈ new.zip old, NoNil pair.2 := by
  rw [← Go.forall₂_and_iff (S := fun _ old => NoNil old), compareEpSubsets,
    List.forall₂_iff_zip, Bool.and_eq_true, beq_iff_eq, List.all_eq_true]
  simp only [Prod.forall, compareEpSubset_iff]

theorem forall₂_same_iff :
    List.Forall₂ Same new old ↔
      List.Forall₂ NoneMissing new old ∧ ∀ pair ∈ new.zip old, ¬ Repeats pair.1 pair.2 := by
  rw [← Go.forall₂_and_iff (S := fun new old => ¬ Repeats new old)]
  constructor
  · exact fun h => h.imp fun _ _ hsame => same_iff.mp hsame
  · exact fun h => h.imp fun _ _ hsame => same_iff.mpr hsame

/-- The pair is decided as it should be: something of the new subsets is missing in the old ones, or
there is both a nil list in the old ones and an entry more often in the new ones, or neither. -/
def Decided (new old : List SubsetSlices) : Prop :=
  List.Forall₂ NoneMissing new old →
    ((∃ pair ∈ new.zip old, ¬ NoNil pair.2) ↔ ∃ pair ∈ new.zip old, Repeats pair.1 pair.2)

theorem compareEpSubsets_exact_iff :
    (compareEpSubsets new old = true ↔ List.Forall₂ Same new old) ↔ Decided new old := by
  rw [compareEpSubsets_iff, forall₂_same_iff, Decided, ← not_iff_not (a := ∃ pair ∈ _, ¬ NoNil _)]
  push Not
  exact and_congr_right_iff

theorem forall₂_same_comm : List.Forall₂ Same new old ↔ List.Forall₂ Same old new := by
  constructor
  · exact fun h => (h.imp fun _ _ => Same.symm).flip
  · exact fun h => (h.imp fun _ _ => Same.symm).flip

theorem compareEpSubsets_self_iff :
    compareEpSubsets new new = true ↔ ∀ sub ∈ new, NoNil sub := by
  rw [compareEpSubsets_iff, ← Go.forall₂_and_iff (S := fun _ old => NoNil old), List.forall₂_same]
  exact forall₂_congr fun sub _ => and_iff_right (same_iff.mp (same_self sub)).1

end Subsets

/-- When the comparison is what it is to be. It decides whether two lists of subsets are equal up to
order, exactly if the pair is decided; it is reflexive at a list exactly if no list in it is nil;
and it is symmetric at a pair exactly if the pair is decided in both directions or in neither. -/
theorem compareEpSubsets_decides_iff (new old : List SubsetSlices) :
    ((compareEpSubsets new old = true ↔ List.Forall₂ Same new old) ↔ Decided new old) ∧
      (compareEpSubsets new new = true ↔ ∀ sub ∈ new, NoNil sub) ∧
      (compareEpSubsets new old = compareEpSubsets old new ↔
        (Decided new old ↔ Decided old new)) := by
  refine ⟨compareEpSubsets_exact_iff, compareEpSubsets_self_iff, ?_⟩
  have hnew := @compareEpSubsets_exact_iff new old
  have hold := @compareEpSubsets_exact_iff old new
  rw [forall₂_same_comm] at hold
  rw [← hnew, ← hold, Bool.eq_iff_iff]
  tauto

/-- A subset of pods on one port. -/
def onHttp (ready : List String) (notReady : Go.Slice EndpointAddress) : SubsetSlices where
  addresses := .of (ready.map fun ip => { ip := ip })
  notReadyAddresses := notReady
  ports := .of [{ name := "http", port := 80, protocol := "TCP" }]

/-- A subset with all pods ready does not compare as equal to itself. A repeated IP hides another
one, in one direction only. -/
theorem compareEpSubsets_misses :
    compareEpSubsets [onHttp ["10.0.0.7"] .nil] [onHttp ["10.0.0.7"] .nil] = false ∧
      List.Forall₂ Same [onHttp ["10.0.0.7"] .nil] [onHttp ["10.0.0.7"] .nil] ∧
      compareEpSubsets [onHttp ["10.0.0.7", "10.0.0.7"] (.of [])]
        [onHttp ["10.0.0.7", "10.0.0.8"] (.of [])] = true ∧
      compareEpSubsets [onHttp ["10.0.0.7", "10.0.0.8"] (.of [])]
        [onHttp ["10.0.0.7", "10.0.0.7"] (.of [])] = false :=
  ⟨by decide +kernel, .cons (same_self _) .nil, by decide +kernel, by decide +kernel⟩

end SubsetSlices

end HealthCheck
