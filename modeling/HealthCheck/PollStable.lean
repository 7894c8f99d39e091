import HealthCheck.PollFailure
import HealthCheck.PollStored
import HealthCheck.Reconcile

/-!
# Polls do not depend on orders, and settle

The verdicts that a poll computes depend only on which peers are reported, not on their order or
number, and not on the order in which the recovery loop ranges over the map. Computing them again
from the result changes nothing, so that with an unchanged status of nginx only the first poll can
send an update.
-/

namespace HealthCheck

open Api Api.Client

/-- Equality of Go maps: both nil or neither, with the same services and the same verdicts. -/
structure DownEpList.Same (a b : DownEpList) : Prop where
  isSome : a.isSome = b.isSome
  service : ∀ svc, (a.service svc).isSome = (b.service svc).isSome
  entry : ∀ svc ep, a.entry svc ep = b.entry svc ep

namespace DownEpList.Same

theorem symm {a b : DownEpList} (h : a.Same b) : b.Same a :=
  ⟨h.isSome.symm, fun svc => (h.service svc).symm, fun svc ep => (h.entry svc ep).symm⟩

theorem trans {a b c : DownEpList} (hab : a.Same b) (hbc : b.Same c) : a.Same c :=
  ⟨hab.isSome.trans hbc.isSome, fun svc => (hab.service svc).trans (hbc.service svc),
    fun svc ep => (hab.entry svc ep).trans (hbc.entry svc ep)⟩

end DownEpList.Same

/-- The payloads report the same peers in each list, in any order and any number of times. -/
def SameItems (servers servers' : ServersNgxList) : Prop :=
  (∀ d, d ∈ servers.http ↔ d ∈ servers'.http) ∧ ∀ d, d ∈ servers.stream ↔ d ∈ servers'.stream

namespace SameItems

variable {servers servers' : ServersNgxList}

theorem symm (h : SameItems servers servers') : SameItems servers' servers :=
  ⟨fun d => (h.1 d).symm, fun d => (h.2 d).symm⟩

theorem trans {servers'' : ServersNgxList} (h : SameItems servers servers')
    (h' : SameItems servers' servers'') : SameItems servers servers'' :=
  ⟨fun d => (h.1 d).trans (h'.1 d), fun d => (h.2 d).trans (h'.2 d)⟩

theorem mem_iff (h : SameItems servers servers') (d : HcNgxDetail) :
    d ∈ servers.http ++ servers.stream ↔ d ∈ servers'.http ++ servers'.stream := by
  rw [List.mem_append, List.mem_append, h.1, h.2]

/-- Whether some reported peer has a property does not depend on order and number. -/
theorem exists_iff (h : SameItems servers servers') (Q : HcNgxDetail → Prop) :
    (∃ d ∈ servers.http ++ servers.stream, Q d) ↔
      ∃ d ∈ servers'.http ++ servers'.stream, Q d :=
  exists_congr fun d => and_congr_left' (h.mem_iff d)

end SameItems

/-! ### Loops in the order of the runtime -/

/-- One round of the recovery loop of `eventOpt`. -/
def recoverEntry (record : Go.Map String Bool) (l : DownEpList) (e : String × String × Bool) :
    DownEpList :=
  if !(record.lookup e.2.1).getD false && !e.2.2 then
    l.setService e.1 (((l.service e.1).getD ∅).insert e.2.1 true)
  else l

/-- The recovery loop in a given order. -/
def recoverIn (record : Go.Map String Bool) {l : DownEpList} (order : RangeOrder l) : DownEpList :=
  order.entries.foldl (recoverEntry record) l

/-- The verdicts that `eventOpt` computes when the recovery loop ranges in the given order. -/
def eventDownEpListIn (o : Ownership) (servers : ServersNgxList) (order : ∀ l, RangeOrder l)
    (l : DownEpList) : DownEpList :=
  let reported := reportDowns o servers.stream (reportDowns o servers.http (l, ∅))
  recoverIn reported.2 (order reported.1)

/-- `compareMaps` when its loop ranges in the given order. -/
def compareMapsIn {new : DownEpList} (order : RangeOrder new) (old : DownEpList) : Bool :=
  if new.len = 0 ∧ old.len = 0 then true
  else if new.isNone ∨ old.isNone then false
  else
    match order.entries.mapM fun p => old.entry p.1 p.2.1 with
    | none => false
    | some dataSlice2 => order.entries.map (fun p => p.2.2) == dataSlice2

/-- Assigning a verdict of a service that is there keeps the services. -/
theorem service_recoverEntry {record : Go.Map String Bool} {l : DownEpList}
    {e : String × String × Bool} (hservice : (l.service e.1).isSome = true) :
    (recoverEntry record l e).isSome = l.isSome ∧
      ∀ svc, ((recoverEntry record l e).service svc).isSome = (l.service svc).isSome := by
  unfold recoverEntry
  split
  · refine ⟨?_, fun svc => ?_⟩
    · cases l with
      | none => cases hservice
      | some m => rfl
    · rw [DownEpList.service_setService]
      split
      · next hsvc =>
        rw [hsvc, hservice]
        rfl
      · rfl
  · exact ⟨rfl, fun _ => rfl⟩

/-- The verdicts after one round. -/
theorem entry_recoverEntry (record : Go.Map String Bool) (l : DownEpList)
    (e : String × String × Bool) (svc ep : String) :
    (recoverEntry record l e).entry svc ep =
      if (svc = e.1 ∧ ep = e.2.1) ∧ (record.lookup ep).getD false = false ∧ e.2.2 = false then
        some true
      else l.entry svc ep := by
  unfold recoverEntry
  split
  · next hdown =>
    simp only [Bool.and_eq_true, Bool.not_eq_true'] at hdown
    rw [DownEpList.entry_setService_insert]
    by_cases hhere : svc = e.1 ∧ ep = e.2.1
    · obtain ⟨rfl, rfl⟩ := hhere
      simp [hdown]
    · simp [hhere]
  · next hother =>
    simp only [Bool.and_eq_true, Bool.not_eq_true'] at hother
    rw [if_neg]
    rintro ⟨⟨rfl, rfl⟩, h⟩
    exact hother h

/-- The recovery loop keeps the services. -/
theorem service_foldl_recoverEntry {record : Go.Map String Bool}
    {entries : List (String × String × Bool)} {l : DownEpList}
    (hservice : ∀ e ∈ entries, (l.service e.1).isSome = true) :
    (entries.foldl (recoverEntry record) l).isSome = l.isSome ∧
      ∀ svc, ((entries.foldl (recoverEntry record) l).service svc).isSome =
        (l.service svc).isSome := by
  induction entries generalizing l with
  | nil => exact ⟨rfl, fun _ => rfl⟩
  | cons e entries ih =>
    obtain ⟨hhere, hrest⟩ := List.forall_mem_cons.mp hservice
    obtain ⟨hsome, hkept⟩ := @service_recoverEntry record l e hhere
    obtain ⟨hsome', hkept'⟩ := @ih (recoverEntry record l e) fun e' he' => by
      rw [hkept]
      exact hrest e' he'
    exact ⟨hsome'.trans hsome, fun svc => (hkept' svc).trans (hkept svc)⟩

/-- The recovery loop turns the down verdicts that are not recorded into up, and leaves the
others. -/
theorem entry_foldl_recoverEntry (record : Go.Map String Bool)
    (entries : List (String × String × Bool)) (l : DownEpList) (svc ep : String) :
    ((svc, ep, false) ∈ entries ∧ (record.lookup ep).getD false = false ∧
        (entries.foldl (recoverEntry record) l).entry svc ep = some true) ∨
      (¬ ((svc, ep, false) ∈ entries ∧ (record.lookup ep).getD false = false) ∧
        (entries.foldl (recoverEntry record) l).entry svc ep = l.entry svc ep) := by
  induction entries generalizing l with
  | nil => exact .inr ⟨by simp, rfl⟩
  | cons e entries ih =>
    rw [List.foldl_cons]
    rcases ih (recoverEntry record l e) with ⟨hmem, hrecord, heq⟩ | ⟨hnot, heq⟩
    · exact .inl ⟨List.mem_cons_of_mem _ hmem, hrecord, heq⟩
    · rw [heq, entry_recoverEntry]
      by_cases hhere : e = (svc, ep, false) ∧ (record.lookup ep).getD false = false
      · obtain ⟨rfl, hrecord⟩ := hhere
        exact .inl ⟨List.mem_cons_self, hrecord, if_pos ⟨⟨rfl, rfl⟩, hrecord, rfl⟩⟩
      · refine .inr ⟨?_, if_neg ?_⟩
        · rintro ⟨hmem, hrecord⟩
          rcases List.mem_cons.mp hmem with heq | hrest
          · exact hhere ⟨heq.symm, hrecord⟩
          · exact hnot ⟨hrest, hrecord⟩
        · rintro ⟨⟨rfl, rfl⟩, hrecord, hdown⟩
          exact hhere ⟨Prod.ext rfl (Prod.ext rfl hdown), hrecord⟩

/-- The order of the recovery loop does not matter. -/
theorem recoverIn_same (record : Go.Map String Bool) {l : DownEpList} (order : RangeOrder l) :
    (recoverIn record order).Same (recoverOthers record l) := by
  have hservice : ∀ e ∈ order.entries, (l.service e.1).isSome = true := by
    rintro ⟨svc, ep, status⟩ he
    exact DownEpList.isSome_service_of_entry (order.mem_entries.mp he)
  obtain ⟨hsome, hkept⟩ := @service_foldl_recoverEntry record order.entries l hservice
  refine ⟨?_, fun svc => ?_, fun svc ep => ?_⟩
  · rw [recoverIn, hsome, recoverOthers, DownEpList.isSome_mapStatus]
  · rw [recoverIn, hkept, recoverOthers, DownEpList.isSome_service_mapStatus]
  · rw [recoverOthers, DownEpList.entry_mapStatus, recoverIn]
    rcases entry_foldl_recoverEntry record order.entries l svc ep with
      ⟨hdown, hrecord, heq⟩ | ⟨hnot, heq⟩
    · rw [heq, order.mem_entries.mp hdown]
      simp [hrecord]
    · rw [heq]
      rw [order.mem_entries] at hnot
      cases hentry : l.entry svc ep with
      | none => rfl
      | some status =>
        cases status with
        | true => simp
        | false =>
          have hrecord : (record.lookup ep).getD false = true := by
            by_contra hrecord
            exact hnot ⟨hentry, by simpa using hrecord⟩
          simp [hrecord]

/-- The order of the recovery loop does not matter for what `eventOpt` computes. -/
theorem eventDownEpListIn_same (o : Ownership) (servers : ServersNgxList)
    (order : ∀ l, RangeOrder l) (l : DownEpList) :
    (eventDownEpListIn o servers order l).Same (eventDownEpList o servers l) :=
  recoverIn_same _ _

/-! ### The comparison -/

/-- When the comparison reports no change, in any order. -/
theorem compareMapsIn_iff {new old : DownEpList} (order : RangeOrder new) :
    compareMapsIn order old = true ↔ (new.len = 0 ∧ old.len = 0) ∨
      (new.isSome = true ∧ old.isSome = true ∧ ∀ svc ep status,
        new.entry svc ep = some status → old.entry svc ep = some status) := by
  unfold compareMapsIn
  by_cases hlen : new.len = 0 ∧ old.len = 0
  · simp [hlen]
  · rw [if_neg hlen, or_iff_right hlen]
    by_cases hnil : new.isNone = true ∨ old.isNone = true
    · rw [if_pos hnil]
      refine iff_of_false Bool.false_ne_true ?_
      rintro ⟨hnew, hold, -⟩
      rcases hnil with hnone | hnone
      · rw [Option.isNone_iff_eq_none.mp hnone] at hnew
        cases hnew
      · rw [Option.isNone_iff_eq_none.mp hnone] at hold
        cases hold
    · have hsome : new.isSome = true ∧ old.isSome = true := by
        rw [Option.isNone_iff_eq_none, Option.isNone_iff_eq_none, not_or] at hnil
        exact hnil.imp Option.isSome_iff_ne_none.mpr Option.isSome_iff_ne_none.mpr
      have hall : (order.entries.mapM fun p => old.entry p.1 p.2.1) =
          some (order.entries.map fun p => p.2.2) ↔ ∀ svc ep status,
            new.entry svc ep = some status → old.entry svc ep = some status := by
        rw [mapM_eq_map_iff]
        constructor
        · intro hlookup svc ep status hentry
          exact hlookup _ (order.mem_entries.mpr hentry)
        · rintro hentries ⟨svc, ep, status⟩ he
          exact hentries svc ep status (order.mem_entries.mp he)
      rw [if_neg hnil, ← hall]
      cases order.entries.mapM fun p => old.entry p.1 p.2.1 with
      | none => simp
      | some values =>
        simp only [hsome, true_and, beq_iff_eq, Option.some.injEq]
        exact eq_comm

/-- The order in which `compareMaps` ranges over the new map does not matter. -/
theorem compareMapsIn_eq {new old : DownEpList} (order : RangeOrder new) :
    compareMapsIn order old = compareMaps new old := by
  have hlisted : compareMaps new old = compareMapsIn (.listed new) old := rfl
  rw [hlisted, Bool.eq_iff_iff, compareMapsIn_iff, compareMapsIn_iff]

theorem DownEpList.len_eq_zero_iff {l : DownEpList} :
    l.len = 0 ↔ ∀ svc, (l.service svc).isSome = false := by
  cases l with
  | none => simp [len, service]
  | some m =>
    have hservice : ∀ svc, (DownEpList.service (some m) svc).isSome = false ↔ svc ∉ m := by
      intro svc
      rw [← Bool.not_eq_true]
      exact not_congr AList.lookup_isSome
    simp only [hservice, AList.mem_keys]
    rw [← List.eq_nil_iff_forall_not_mem]
    simp [len, AList.keys, List.keys]

/-- A map compares like any map equal to it, and without a change with itself. -/
theorem compareMaps_of_same {new old : DownEpList} (hsame : new.Same old) :
    compareMaps new old = true := by
  refine (compareMapsIn_iff (.listed new)).mpr ?_
  cases hold : old.isSome with
  | true => exact .inr ⟨hsame.isSome.trans hold, rfl, fun svc ep status h => hsame.entry svc ep ▸ h⟩
  | false =>
    have hnew := hsame.isSome.trans hold
    rw [Option.isSome_eq_false_iff, Option.isNone_iff_eq_none] at hold hnew
    rw [hold, hnew]
    exact .inl ⟨rfl, rfl⟩

theorem compareMaps_congr {new new' : DownEpList} (hsame : new.Same new') (old : DownEpList) :
    compareMaps new old = compareMaps new' old := by
  have hlen : new.len = 0 ↔ new'.len = 0 := by
    simp only [DownEpList.len_eq_zero_iff, hsame.service]
  rw [← compareMapsIn_eq (.listed new), ← compareMapsIn_eq (.listed new'), Bool.eq_iff_iff,
    compareMapsIn_iff, compareMapsIn_iff, hlen, hsame.isSome]
  simp only [hsame.entry]

/-! ### What is computed -/

/-- Some peer of the service is reported and not rising. -/
def ReportedIn (downs : List HcNgxDetail) (svc : String) : Prop :=
  ∃ d ∈ downs, d.upstream = svc ∧ d.rise ≤ 0

instance (downs : List HcNgxDetail) (svc : String) : Decidable (ReportedIn downs svc) :=
  inferInstanceAs (Decidable (∃ d ∈ downs, _))

/-- The services after one reported peer. -/
theorem isSome_service_reportDown (o : Ownership) (state : DownEpList × Go.Map String Bool)
    (d : HcNgxDetail) (svc : String) :
    ((reportDown o state d).1.service svc).isSome =
      if o.owns svc = false then (if d.upstream = svc then false else (state.1.service svc).isSome)
      else if d.upstream = svc ∧ d.rise ≤ 0 then true
      else (state.1.service svc).isSome := by
  rw [service_reportDown]
  by_cases hsvc : d.upstream = svc
  · by_cases hrise : d.rise ≤ 0
    · cases o.owns svc with
      | false => simp [hsvc]
      | true => simp [hsvc, hrise]
    · cases o.owns svc with
      | false => simp [hsvc]
      | true => simp [hsvc, hrise]
  · simp [hsvc]

/-- The services after a payload loop. -/
theorem isSome_service_reportDowns (o : Ownership) (downs : List HcNgxDetail)
    (state : DownEpList × Go.Map String Bool) (svc : String) :
    ((reportDowns o downs state).1.service svc).isSome =
      if o.owns svc = false then (if Listed downs svc then false else (state.1.service svc).isSome)
      else if ReportedIn downs svc then true
      else (state.1.service svc).isSome := by
  induction downs generalizing state with
  | nil => simp [reportDowns, Listed, ReportedIn]
  | cons d downs ih =>
    have hreported : ReportedIn (d :: downs) svc ↔
        (d.upstream = svc ∧ d.rise ≤ 0) ∨ ReportedIn downs svc := by
      simp [ReportedIn]
    rw [reportDowns, List.foldl_cons, ← reportDowns, ih, isSome_service_reportDown]
    cases o.owns svc with
    | false => by_cases hd : d.upstream = svc <;> by_cases hlisted : Listed downs svc <;>
        simp [hd, hlisted]
    | true =>
      by_cases hd : d.upstream = svc ∧ d.rise ≤ 0 <;> by_cases hrest : ReportedIn downs svc <;>
        simp [hd, hrest, hreported]

section Computed

variable (o : Ownership) (servers : ServersNgxList) (l : DownEpList)

theorem isSome_service_eventDownEpList (svc : String) :
    ((eventDownEpList o servers l).service svc).isSome =
      if o.owns svc = false then
        (if Listed (servers.http ++ servers.stream) svc then false else (l.service svc).isSome)
      else if ReportedIn (servers.http ++ servers.stream) svc then true
      else (l.service svc).isSome := by
  rw [eventDownEpList_eq, recoverOthers, DownEpList.isSome_service_mapStatus,
    isSome_service_reportDowns]

/-- A verdict that was computed from a payload is computed again from it. -/
theorem eventVerdict_eventVerdict (downs : List HcNgxDetail) (svc ep : String)
    (verdict : Option Bool) :
    eventVerdict o downs svc ep (eventVerdict o downs svc ep verdict) =
      eventVerdict o downs svc ep verdict := by
  unfold eventVerdict
  split
  · rfl
  · split
    · rfl
    · split
      · rfl
      · rw [Option.map_map]
        rfl

/-- What is computed twice is what is computed once. -/
theorem eventDownEpList_idem :
    (eventDownEpList o servers (eventDownEpList o servers l)).Same
      (eventDownEpList o servers l) := by
  refine ⟨?_, fun svc => ?_, fun svc ep => ?_⟩
  · rw [Bool.eq_iff_iff, isSome_eventDownEpList_iff, isSome_eventDownEpList_iff, or_assoc, or_self]
  · simp only [isSome_service_eventDownEpList]
    split
    · split
      · rfl
      · rfl
    · split
      · rfl
      · rfl
  · rw [entry_eventDownEpList, entry_eventDownEpList, eventVerdict_eventVerdict]

variable {l} in
/-- What is computed from equal maps is equal. -/
theorem eventDownEpList_congr {l' : DownEpList} (hsame : l.Same l') :
    (eventDownEpList o servers l).Same (eventDownEpList o servers l') := by
  refine ⟨?_, fun svc => ?_, fun svc ep => ?_⟩
  · rw [Bool.eq_iff_iff, isSome_eventDownEpList_iff, isSome_eventDownEpList_iff, hsame.isSome]
  · rw [isSome_service_eventDownEpList, isSome_service_eventDownEpList, hsame.service]
  · rw [entry_eventDownEpList, entry_eventDownEpList, hsame.entry]

end Computed

/-- What is computed does not depend on the order and number of the reports. -/
theorem eventDownEpList_of_items (o : Ownership) {servers servers' : ServersNgxList}
    (h : SameItems servers servers') (l : DownEpList) :
    (eventDownEpList o servers l).Same (eventDownEpList o servers' l) := by
  have hlisted : ∀ svc, Listed (servers.http ++ servers.stream) svc ↔
      Listed (servers'.http ++ servers'.stream) svc := fun _ => h.exists_iff _
  refine ⟨?_, fun svc => ?_, fun svc ep => ?_⟩
  · rw [Bool.eq_iff_iff, isSome_eventDownEpList_iff, isSome_eventDownEpList_iff]
    exact or_congr_right (h.exists_iff _)
  · have hreported : ReportedIn (servers.http ++ servers.stream) svc ↔
        ReportedIn (servers'.http ++ servers'.stream) svc := h.exists_iff _
    simp only [isSome_service_eventDownEpList, hlisted, hreported]
  · have hreported : Reported (servers.http ++ servers.stream) svc ep ↔
        Reported (servers'.http ++ servers'.stream) svc ep := h.exists_iff _
    have hrecorded : Recorded o (servers.http ++ servers.stream) ep ↔
        Recorded o (servers'.http ++ servers'.stream) ep := h.exists_iff _
    simp only [entry_eventDownEpList, eventVerdict, hlisted, hreported, hrecorded]

/-! ### Polls -/

/-- A poll: what nginx answers, and the orders in which the runtime ranges over the maps. -/
structure StatusPoll where
  servers : ServersNgxList
  recovery : ∀ l, RangeOrder l
  comparison : ∀ l, RangeOrder l

/-- The status of nginx is the same for both polls. -/
def StatusPoll.SameStatus (a b : StatusPoll) : Prop :=
  a.servers.total = b.servers.total ∧ SameItems a.servers b.servers

/-- `eventOpt` when the loops range in the orders of the poll. -/
def eventOptIn (crd : Crd) (o : Ownership) (poll : StatusPoll) : Poller → Client Lbhc Poller :=
  eventOptWith crd (eventDownEpListIn o poll.servers poll.recovery)
    fun new old => compareMapsIn (poll.comparison new) old

/-- `syncHealthCheck` when the loops range in the orders of the poll. -/
def syncHealthCheckIn (crd : Crd) (o : Ownership) (poll : StatusPoll) (p : Poller) :
    Client Lbhc Poller :=
  if 0 < poll.servers.total then eventOptIn crd o poll p
  else if poll.servers.total = 0 then noneEventOpt p
  else pure p

/-- The package variables and the store after one poll. -/
def pollStep (crd : Crd) (o : Ownership) (state : Poller × Server Lbhc) (poll : StatusPoll) :
    Poller × Server Lbhc :=
  alone (syncHealthCheckIn crd o poll state.1) state.2

/-- The updates of the `Lbhc` object that a run of polls sends. -/
def pollUpdates (crd : Crd) (o : Ownership) : List StatusPoll → Poller × Server Lbhc → List Lbhc
  | [], _ => []
  | poll :: polls, state =>
    sent .none (syncHealthCheckIn crd o poll state.1) 0 state.2 ++
      pollUpdates crd o polls (pollStep crd o state poll)

/-- A poll with the status of `servers` finds nothing to send. -/
def PollSettled (o : Ownership) (servers : ServersNgxList) (state : Poller × Server Lbhc) : Prop :=
  (0 < servers.total → ∃ lbhc, state.2.object = some lbhc ∧
      compareMaps (eventDownEpList o servers lbhc.downEpList) lbhc.downEpList = true) ∧
    (servers.total = 0 → (state.1.globalSyncLoop = 0 ∧ state.2.object = none) ∨
      (0 < state.1.globalSyncLoop ∧ state.1.globalLbhc.downEpList.anyDown = false))

/-- The comparison does not depend on orders. -/
theorem compareMapsIn_eventDownEpListIn (o : Ownership) (poll : StatusPoll) (l old : DownEpList) :
    compareMapsIn (poll.comparison (eventDownEpListIn o poll.servers poll.recovery l)) old =
      compareMaps (eventDownEpList o poll.servers l) old := by
  rw [compareMapsIn_eq, compareMaps_congr (eventDownEpListIn_same o poll.servers poll.recovery l)]

theorem eventDownEpListIn_idem (o : Ownership) (servers : ServersNgxList)
    (order : ∀ l, RangeOrder l) (l : DownEpList) :
    (eventDownEpList o servers (eventDownEpListIn o servers order l)).Same
      (eventDownEpListIn o servers order l) := by
  have hsame := eventDownEpListIn_same o servers order l
  exact (eventDownEpList_congr o servers hsame).trans
    ((eventDownEpList_idem o servers l).trans hsame.symm)

theorem settled_eventOptIn (crd : Crd) (o : Ownership) (poll : StatusPoll) (p : Poller)
    (s : Server Lbhc) : ∃ lbhc, (alone (eventOptIn crd o poll p) s).2.object = some lbhc ∧
      compareMaps (eventDownEpList o poll.servers lbhc.downEpList) lbhc.downEpList = true := by
  obtain ⟨lbhc, n, t, hobj, -, -, hstored, -, hpoll⟩ := run_eventOptWith crd
    (eventDownEpListIn o poll.servers poll.recovery)
    (fun new old => compareMapsIn (poll.comparison new) old) p (fun _ => .success) s
  refine ⟨_, hstored, ?_⟩
  rcases hpoll with ⟨hsame, heq, -⟩ | ⟨-, -, hlist⟩
  · rcases hsame with hsame | hblocked
    · rw [compareMapsIn_eventDownEpListIn] at hsame
      rw [heq]
      exact hsame
    · cases hblocked
  · rw [hlist]
    exact compareMaps_of_same (eventDownEpListIn_idem o poll.servers poll.recovery lbhc.downEpList)

theorem settled_noneEventOpt (p : Poller) (s : Server Lbhc) :
    let state := alone (noneEventOpt p) s
    (state.1.globalSyncLoop = 0 ∧ state.2.object = none) ∨
      (0 < state.1.globalSyncLoop ∧ state.1.globalLbhc.downEpList.anyDown = false) := by
  by_cases hfirst : p.globalSyncLoop = 0
  · cases hobj : s.object with
    | none =>
      have hrun := run_noneEventOpt_absent (fun _ => .success) hobj hfirst
      refine .inl ⟨?_, ?_⟩
      · exact (congrArg (fun r => r.1.globalSyncLoop) hrun).trans hfirst
      · rw [noneEventOpt_absent hobj]
        exact hobj
    | some current =>
      obtain ⟨hloop, -, hpoll⟩ := run_noneEventOpt_first (fun _ => .success) hobj hfirst
      refine .inr ⟨?_, ?_⟩
      · exact hloop ▸ Nat.one_pos
      · rcases hpoll with ⟨hup, heq, -⟩ | ⟨-, -, hlist⟩
        · rcases hup with hup | hblocked
          · exact (congrArg (fun lbhc => lbhc.downEpList.anyDown) heq).trans hup
          · cases hblocked
        · exact (congrArg DownEpList.anyDown hlist).trans (anyDown_allUp _)
  · have hlater : 0 < p.globalSyncLoop := Nat.pos_of_ne_zero hfirst
    obtain ⟨hloop, hentry⟩ := run_noneEventOpt_cache hlater .none s
    refine .inr ⟨?_, ?_⟩
    · exact hloop ▸ hlater
    · rw [← Bool.not_eq_true, DownEpList.anyDown_iff]
      rintro ⟨svc, ep, hdown⟩
      have hup := (hentry svc ep).symm.trans hdown
      rw [Option.map_eq_some_iff] at hup
      obtain ⟨-, -, htrue⟩ := hup
      cases htrue

/-- After a poll the next one with its status finds nothing to send. -/
theorem settled_pollStep (crd : Crd) (o : Ownership) (state : Poller × Server Lbhc)
    (poll : StatusPoll) : PollSettled o poll.servers (pollStep crd o state poll) := by
  unfold pollStep syncHealthCheckIn
  refine ⟨fun hpos => ?_, fun hzero => ?_⟩
  · rw [if_pos hpos]
    exact settled_eventOptIn crd o poll state.1 state.2
  · rw [if_neg (by omega), if_pos hzero]
    exact settled_noneEventOpt state.1 state.2

/-- Whether there is something to send does not depend on the order and number of the reports. -/
theorem PollSettled.of_items {o : Ownership} {servers servers' : ServersNgxList}
    {state : Poller × Server Lbhc} (hsettled : PollSettled o servers state)
    (htotal : servers.total = servers'.total) (hitems : SameItems servers servers') :
    PollSettled o servers' state := by
  refine ⟨fun hpos => ?_, fun hzero => hsettled.2 (htotal.trans hzero)⟩
  obtain ⟨lbhc, hobj, hcompare⟩ := hsettled.1 (htotal ▸ hpos)
  refine ⟨lbhc, hobj, ?_⟩
  rw [← compareMaps_congr (eventDownEpList_of_items o hitems lbhc.downEpList)]
  exact hcompare

/-- A poll that finds nothing to send sends nothing. -/
theorem sent_of_settled (crd : Crd) {o : Ownership} {poll : StatusPoll}
    {state : Poller × Server Lbhc} (hsettled : PollSettled o poll.servers state) :
    sent .none (syncHealthCheckIn crd o poll state.1) 0 state.2 = [] := by
  obtain ⟨hevent, hzero⟩ := hsettled
  unfold syncHealthCheckIn
  by_cases hpos : 0 < poll.servers.total
  · obtain ⟨lbhc, hobj, hcompare⟩ := hevent hpos
    have hfetch : run .none (fetchOrCreate crd) 0 state.2 = (lbhc, 1, state.2) ∧
        sent .none (fetchOrCreate crd) 0 state.2 = [] := by
      rw [fetchOrCreate, run_fetch_bind, sent_fetch_bind, Server.get_eq, hobj]
      exact ⟨rfl, rfl⟩
    rw [if_pos hpos, eventOptIn, eventOptWith, sent_bind, hfetch.1, hfetch.2, List.nil_append]
    dsimp only
    rw [compareMapsIn_eventDownEpListIn, hcompare]
    rfl
  · rw [if_neg hpos]
    split
    · next htotal =>
      rcases hzero htotal with ⟨hfirst, hobj⟩ | ⟨hlater, hup⟩
      · rw [noneEventOpt, if_pos hfirst, sent_fetch_bind, Server.get_eq, hobj]
        rfl
      · rw [noneEventOpt_of_up hlater hup]
        rfl
    · rfl

/-- From a settled state no poll with the same status sends an update. -/
theorem pollUpdates_of_settled (crd : Crd) {o : Ownership} {first : StatusPoll}
    {polls : List StatusPoll} (hstatus : ∀ poll ∈ polls, first.SameStatus poll)
    {state : Poller × Server Lbhc} (hsettled : PollSettled o first.servers state) :
    pollUpdates crd o polls state = [] := by
  induction polls generalizing first state with
  | nil => rfl
  | cons poll polls ih =>
    obtain ⟨⟨htotal, hitems⟩, hrest⟩ := List.forall_mem_cons.mp hstatus
    rw [pollUpdates, sent_of_settled crd (hsettled.of_items htotal hitems), List.nil_append]
    refine @ih poll (fun next hnext => ?_) _ (settled_pollStep crd o state poll)
    obtain ⟨htotal', hitems'⟩ := hrest next hnext
    exact ⟨htotal.symm.trans htotal', hitems.symm.trans hitems'⟩

/-- Polls are order-independent and stable. What `eventOpt` computes does not depend on the order
and number of the reports nor on the orders of the loops, computing it again changes nothing, and of
polls with one status of nginx only the first can send an update. -/
theorem polls_order_independent_and_stable (crd : Crd) (o : Ownership)
    {servers servers' : ServersNgxList} (hitems : SameItems servers servers')
    (order order' : ∀ l, RangeOrder l) (l : DownEpList) :
    (eventDownEpListIn o servers order l).Same (eventDownEpListIn o servers' order' l) ∧
      (eventDownEpListIn o servers' order' (eventDownEpListIn o servers order l)).Same
        (eventDownEpListIn o servers order l) ∧
      ∀ (first : StatusPoll) (rest : List StatusPoll), (∀ poll ∈ rest, first.SameStatus poll) →
        ∀ state, pollUpdates crd o rest (pollStep crd o state first) = [] := by
  have hother := eventDownEpListIn_same o servers' order'
  have hpayload := eventDownEpList_of_items o hitems
  refine ⟨?_, ?_, fun first rest hstatus state => ?_⟩
  · exact (eventDownEpListIn_same o servers order l).trans ((hpayload l).trans (hother l).symm)
  · exact (hother _).trans ((hpayload _).symm.trans (eventDownEpListIn_idem o servers order l))
  · exact pollUpdates_of_settled crd hstatus (settled_pollStep crd o state first)

/-- Two peers of a service are down. -/
def twoReports : ServersNgxList where
  total := 2
  http := [⟨"web_prod", "10.0.0.7:80", 0⟩, ⟨"web_prod", "10.0.0.8:80", 0⟩]
  stream := []

/-- The reports of `twoReports` in another order, one of them repeated. -/
def shuffledReports : ServersNgxList where
  total := 2
  http := [⟨"web_prod", "10.0.0.8:80", 0⟩, ⟨"web_prod", "10.0.0.7:80", 0⟩,
    ⟨"web_prod", "10.0.0.8:80", 0⟩]
  stream := []

theorem polls_stable_shuffled :
    let poll : StatusPoll := ⟨twoReports, RangeOrder.listed, RangeOrder.listed⟩
    let again : StatusPoll := ⟨shuffledReports, RangeOrder.listed, RangeOrder.listed⟩
    SameItems twoReports shuffledReports ∧
      (eventDownEpListIn leading twoReports RangeOrder.listed none).Same
        (eventDownEpListIn leading shuffledReports RangeOrder.listed none) ∧
      pollUpdates ⟨"node-1", "kube-system"⟩ leading [poll] ({}, .absent) ≠ [] ∧
      pollUpdates ⟨"node-1", "kube-system"⟩ leading [again, poll]
        (pollStep ⟨"node-1", "kube-system"⟩ leading ({}, .absent) poll) = [] := by
  have hitems : SameItems twoReports shuffledReports := by
    refine ⟨fun d => ?_, fun _ => Iff.rfl⟩
    simp only [twoReports, shuffledReports, List.mem_cons, List.not_mem_nil, or_false]
    tauto
  obtain ⟨hsame, -, hpolls⟩ := polls_order_independent_and_stable ⟨"node-1", "kube-system"⟩ leading
    hitems RangeOrder.listed RangeOrder.listed none
  refine ⟨hitems, hsame, by decide +kernel, hpolls _ _ ?_ _⟩
  intro poll hpoll
  rcases List.mem_pair.mp hpoll with rfl | rfl
  · exact ⟨rfl, hitems⟩
  · exact ⟨rfl, fun _ => Iff.rfl, fun _ => Iff.rfl⟩

end HealthCheck
