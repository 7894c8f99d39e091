import HealthCheck.PollRuns

/-!
# Whether a poll's result is stored

`eventOpt` sends the verdicts it has computed unless `compareMaps` takes them for the stored
ones. The comparison goes through the entries of the computed map and looks each up in the stored
one. What the payload loops add or change is always seen that way; the services that
`checkSvcIsValid` deletes are not, unless something else has changed in the same poll.
-/

namespace HealthCheck

open Api Api.Client

/-- The stored verdict on an endpoint. -/
def storedEntry (s : Server Lbhc) (svc ep : String) : Option Bool :=
  s.object.bind fun lbhc => lbhc.downEpList.entry svc ep

/-- The verdicts that `eventOpt` starts from: the stored ones, or none in a new object. -/
def startingList (s : Server Lbhc) : DownEpList :=
  match s.object with
  | some lbhc => lbhc.downEpList
  | none => some ∅

/-- The two maps have the same entries. -/
def SameEntries (a b : DownEpList) : Prop := ∀ svc ep, a.entry svc ep = b.entry svc ep

/-- The poll deletes no entry: no service of another node with a reported peer has one. -/
def NothingDropped (o : Ownership) (downs : List HcNgxDetail) (l : DownEpList) : Prop :=
  ∀ svc ep, o.owns svc = false → Listed downs svc → l.entry svc ep = none

/-- The poll changes the value of an entry or adds one: an owned endpoint is reported, not rising
and not marked down yet, or an endpoint marked down, of a service that is not deleted, is recorded
no more. -/
def SomethingChanged (o : Ownership) (downs : List HcNgxDetail) (l : DownEpList) : Prop :=
  ∃ svc ep, (o.owns svc = true ∧ Reported downs svc ep ∧ l.entry svc ep ≠ some false) ∨
    (¬ (o.owns svc = false ∧ Listed downs svc) ∧ l.entry svc ep = some false ∧
      ¬ Recorded o downs ep)

/-! ### The comparison -/

/-- `compareMaps` reports no change when the maps are not nil and every entry of the new one is
in the old one. -/
theorem compareMaps_of_entries {new old : DownEpList} (hnew : new.isSome = true)
    (hold : old.isSome = true)
    (hentries : ∀ svc ep status, new.entry svc ep = some status → old.entry svc ep = some status) :
    compareMaps new old = true := by
  have hlookups : new.pairs.mapM (fun p => old.entry p.1 p.2.1) =
      some (new.pairs.map fun p => p.2.2) := by
    refine mapM_eq_map_iff.mpr ?_
    rintro ⟨svc, ep, status⟩ hmem
    exact hentries svc ep status (DownEpList.mem_pairs.mp hmem)
  have hnil : ¬ (new.isNone = true ∨ old.isNone = true) := by
    rw [Option.isNone_iff_eq_none, Option.isNone_iff_eq_none, not_or]
    exact ⟨Option.isSome_iff_ne_none.mp hnew, Option.isSome_iff_ne_none.mp hold⟩
  unfold compareMaps
  rw [if_neg hnil, hlookups]
  split
  · rfl
  · exact beq_self_eq_true _

theorem isSome_eventDownEpList (o : Ownership) (servers : ServersNgxList) {l : DownEpList}
    (hsome : l.isSome = true) : (eventDownEpList o servers l).isSome = true :=
  (isSome_eventDownEpList_iff o servers l).mpr (.inl hsome)

theorem isSome_of_entry {l : DownEpList} {svc ep : String} {status : Bool}
    (hentry : l.entry svc ep = some status) : l.isSome = true := by
  cases l with
  | none => cases hentry
  | some m => rfl

/-! ### What the comparison sees -/

section Verdicts

variable {o : Ownership} {downs : List HcNgxDetail} {svc ep : String} {verdict : Option Bool}

theorem eventVerdict_dropped (howns : o.owns svc = false) (hlisted : Listed downs svc) :
    eventVerdict o downs svc ep verdict = none := if_pos ⟨howns, hlisted⟩

/-- A verdict that is not deleted stays a verdict. -/
theorem isSome_eventVerdict (hkept : ¬ (o.owns svc = false ∧ Listed downs svc))
    (hverdict : verdict.isSome = true) : (eventVerdict o downs svc ep verdict).isSome = true := by
  unfold eventVerdict
  rw [if_neg hkept]
  split
  · rfl
  · split
    · exact hverdict
    · simpa using hverdict

/-- An owned endpoint that is reported and not rising gets a down verdict. -/
theorem eventVerdict_reported (howns : o.owns svc = true) (hreported : Reported downs svc ep) :
    eventVerdict o downs svc ep verdict = some false := by
  have hkept : ¬ (o.owns svc = false ∧ Listed downs svc) := by simp [howns]
  rw [eventVerdict, if_neg hkept, if_pos ⟨howns, hreported⟩]

/-- A down verdict on an endpoint that is recorded no more becomes up. -/
theorem eventVerdict_recovered (hkept : ¬ (o.owns svc = false ∧ Listed downs svc))
    (hrecorded : ¬ Recorded o downs ep) :
    eventVerdict o downs svc ep (some false) = some true := by
  have hreported : ¬ (o.owns svc = true ∧ Reported downs svc ep) := by
    rintro ⟨-, d, hd, -, hname, hrise⟩
    exact hrecorded ⟨d, hd, hname, .inr hrise⟩
  rw [eventVerdict, if_neg hkept, if_neg hreported, if_neg hrecorded]
  rfl

end Verdicts

section Comparison

variable (o : Ownership) (downs : List HcNgxDetail) (l : DownEpList)

/-- Every computed verdict is the stored one exactly if nothing was changed or added. -/
theorem eventVerdict_stored_iff :
    (∀ svc ep status, eventVerdict o downs svc ep (l.entry svc ep) = some status →
      l.entry svc ep = some status) ↔ ¬ SomethingChanged o downs l := by
  constructor
  · rintro hstored ⟨svc, ep, ⟨howns, hreported, hup⟩ | ⟨hkept, hdown, hrecorded⟩⟩
    · exact hup (hstored svc ep false (eventVerdict_reported howns hreported))
    · have hbecomes :=
        hstored svc ep true (by rw [hdown]; exact eventVerdict_recovered hkept hrecorded)
      rw [hdown] at hbecomes
      cases hbecomes
  · intro hsame svc ep status hstatus
    by_cases hdropped : o.owns svc = false ∧ Listed downs svc
    · rw [eventVerdict_dropped hdropped.1 hdropped.2] at hstatus
      cases hstatus
    · by_cases hreported : o.owns svc = true ∧ Reported downs svc ep
      · have hdown : l.entry svc ep = some false := by
          by_contra hup
          exact hsame ⟨svc, ep, .inl ⟨hreported.1, hreported.2, hup⟩⟩
        rw [eventVerdict_reported hreported.1 hreported.2] at hstatus
        rw [hdown, hstatus]
      · rw [eventVerdict, if_neg hdropped, if_neg hreported] at hstatus
        split at hstatus
        · exact hstatus
        · next hrecorded =>
          cases hentry : l.entry svc ep with
          | none => simp [hentry] at hstatus
          | some stored =>
            cases stored with
            | true => simpa [hentry] using hstatus
            | false => exact absurd ⟨svc, ep, .inr ⟨hdropped, hentry, hrecorded⟩⟩ hsame

/-- When nothing is deleted, computed verdicts that are all stored ones are all there are. -/
theorem eventVerdict_eq_of_stored (hkept : NothingDropped o downs l)
    (hstored : ∀ svc ep status, eventVerdict o downs svc ep (l.entry svc ep) = some status →
      l.entry svc ep = some status) (svc ep : String) :
    eventVerdict o downs svc ep (l.entry svc ep) = l.entry svc ep := by
  cases hcomputed : eventVerdict o downs svc ep (l.entry svc ep) with
  | some status => exact (hstored svc ep status hcomputed).symm
  | none =>
    by_cases hdropped : o.owns svc = false ∧ Listed downs svc
    · exact (hkept svc ep hdropped.1 hdropped.2).symm
    · cases hentry : l.entry svc ep with
      | none => rfl
      | some stored =>
        have hsome := @isSome_eventVerdict o downs svc ep _ hdropped
          (by rw [hentry]; rfl : (l.entry svc ep).isSome = true)
        rw [hcomputed] at hsome
        cases hsome

end Comparison

/-- The update is skipped only for equal entries exactly if nothing is deleted or something else
changes as well. -/
theorem skipped_only_if_same_iff (o : Ownership) (servers : ServersNgxList) (l : DownEpList) :
    (compareMaps (eventDownEpList o servers l) l = true →
      SameEntries (eventDownEpList o servers l) l) ↔
    NothingDropped o (servers.http ++ servers.stream) l ∨
      SomethingChanged o (servers.http ++ servers.stream) l := by
  have hstored := eventVerdict_stored_iff o (servers.http ++ servers.stream) l
  have hentry := entry_eventDownEpList o servers l
  constructor
  · intro hskipped
    by_contra hnot
    rw [not_or] at hnot
    have hincluded := hstored.mpr hnot.2
    -- a deleted entry makes both maps non-nil, and the comparison does not miss it
    obtain ⟨svc, ep, howns, hlisted, hsome⟩ : ∃ svc ep, o.owns svc = false ∧
        Listed (servers.http ++ servers.stream) svc ∧ l.entry svc ep ≠ none := by
      simpa [NothingDropped] using hnot.1
    obtain ⟨status, hstatus⟩ := Option.ne_none_iff_exists'.mp hsome
    have hl : l.isSome = true := isSome_of_entry hstatus
    have hsame := hskipped (compareMaps_of_entries (isSome_eventDownEpList o servers hl) hl
      fun svc ep status h => hincluded svc ep status (by rwa [hentry] at h))
    have hdropped := hsame svc ep
    rw [hentry, eventVerdict_dropped howns hlisted, hstatus] at hdropped
    cases hdropped
  · intro hcond hcompare
    have hincluded : ∀ svc ep status,
        eventVerdict o (servers.http ++ servers.stream) svc ep (l.entry svc ep) = some status →
          l.entry svc ep = some status := by
      intro svc ep status hstatus
      exact entry_of_compareMaps hcompare (by rwa [hentry])
    rcases hcond with hkept | hchanged
    · intro svc ep
      rw [hentry]
      exact eventVerdict_eq_of_stored o _ l hkept hincluded svc ep
    · exact absurd hchanged (hstored.mp hincluded)

/-- What is stored after a poll without faults: the computed verdicts, unless the comparison takes
them for the old ones. -/
theorem storedEntry_eventOpt (crd : Crd) (o : Ownership) (servers : ServersNgxList) (p : Poller)
    (s : Server Lbhc) (svc ep : String) :
    storedEntry (alone (eventOpt crd o servers p) s).2 svc ep =
      if compareMaps (eventDownEpList o servers (startingList s)) (startingList s) = true then
        (startingList s).entry svc ep
      else (eventDownEpList o servers (startingList s)).entry svc ep := by
  obtain ⟨lbhc, n, t, hobj, hbase, -, hstored, -, hcase⟩ :=
    run_eventOpt crd o servers p (fun _ => .success) s
  have hstart : startingList s = lbhc.downEpList := by
    rcases hbase with ⟨hsome, -⟩ | ⟨hnone, hempty, -⟩
    · simp only [startingList, hsome]
    · simp only [startingList, hnone, hempty]
  have hentry : storedEntry (alone (eventOpt crd o servers p) s).2 svc ep =
      (run (.ofUpdates fun _ => .success) (eventOpt crd o servers p)
        0 s).1.globalLbhc.downEpList.entry
        svc ep := by
    rw [storedEntry]
    exact congrArg (fun object => object.bind fun lbhc : Lbhc => lbhc.downEpList.entry svc ep)
      hstored
  rw [hentry, hstart]
  rcases hcase with ⟨hcompare | hblocked, hsame, -⟩ | ⟨hcompare, -, hlist⟩
  · rw [if_pos hcompare, hsame]
  · simp [Faults.passes, Faults.ofUpdates] at hblocked
  · rw [if_neg (by simp [hcompare]), hlist]

/-- When a poll's result is what gets stored, and when the update is skipped only for equal
entries: exactly if the poll deletes no entry, or changes or adds one as well. -/
theorem poll_result_stored_iff (crd : Crd) (o : Ownership) (servers : ServersNgxList) (p : Poller)
    (s : Server Lbhc) :
    let computed := eventDownEpList o servers (startingList s)
    let cond := NothingDropped o (servers.http ++ servers.stream) (startingList s) ∨
      SomethingChanged o (servers.http ++ servers.stream) (startingList s)
    ((∀ svc ep, storedEntry (alone (eventOpt crd o servers p) s).2 svc ep =
      computed.entry svc ep) ↔ cond) ∧
    ((compareMaps computed (startingList s) = true → SameEntries computed (startingList s)) ↔
      cond) := by
  intro computed cond
  have hskipped := skipped_only_if_same_iff o servers (startingList s)
  refine ⟨Iff.trans ?_ hskipped, hskipped⟩
  simp only [storedEntry_eventOpt]
  constructor
  · intro hstored hcompare svc ep
    have hentry := hstored svc ep
    rw [if_pos hcompare] at hentry
    exact hentry.symm
  · intro hsame svc ep
    split
    · next hcompare => exact (hsame hcompare svc ep).symm
    · rfl

/-- A node that owns nothing, with a verdict on a service that it has lost. -/
def lostService : Lbhc where
  metadata := { name := "node-1", nameSpace := "kube-system", resourceVersion := some 1 }
  downEpList := some ((∅ : Go.Map String EpStatus).insert "web_prod"
    ((∅ : EpStatus).insert "10.0.0.7:80" false))

/-- The one peer that nginx reports belongs to the lost service. -/
def lostReport : ServersNgxList where
  total := 1
  http := [{ upstream := "web_prod", name := "10.0.0.7:80", rise := 0 }]
  stream := []

/-- The service is deleted from the computed verdicts, and its verdict stays stored. -/
theorem poll_result_not_stored :
    let s : Server Lbhc := .holding 1 lostService
    (eventDownEpList {} lostReport (startingList s)).entry "web_prod" "10.0.0.7:80" = none ∧
    storedEntry (alone (eventOpt ⟨"node-1", "kube-system"⟩ {} lostReport {}) s).2 "web_prod"
      "10.0.0.7:80" = some false ∧
    compareMaps (eventDownEpList {} lostReport (startingList s)) (startingList s) = true := by
  decide +kernel

end HealthCheck
