import HealthCheck.Poll

/-!
# What a poll does to the verdicts

The two payload loops and the recovery loop of `eventOpt` have a closed form: what
becomes of an entry depends on who owns its service, on the peers reported for its
service and on the names recorded as down. `noneEventOpt` marks everything up.
-/

namespace HealthCheck

/-- Some reported peer belongs to the service. -/
def Listed (downs : List HcNgxDetail) (svc : String) : Prop := ∃ d ∈ downs, d.upstream = svc

/-- Some reported peer has the name and is recorded in `recordEpIpDownDict`: it belongs to
a service of another node, or it is not rising. -/
def Recorded (o : Ownership) (downs : List HcNgxDetail) (ep : String) : Prop :=
  ∃ d ∈ downs, d.name = ep ∧ (o.owns d.upstream = false ∨ d.rise ≤ 0)

/-- The endpoint of the service is reported and not rising. -/
def Reported (downs : List HcNgxDetail) (svc ep : String) : Prop :=
  ∃ d ∈ downs, d.upstream = svc ∧ d.name = ep ∧ d.rise ≤ 0

/-- The payload reports an endpoint of this node that is not rising. -/
def ReportsOwned (o : Ownership) (servers : ServersNgxList) : Prop :=
  ∃ d ∈ servers.http ++ servers.stream, o.owns d.upstream = true ∧ d.rise ≤ 0

instance (downs : List HcNgxDetail) (svc : String) : Decidable (Listed downs svc) :=
  inferInstanceAs (Decidable (∃ d ∈ downs, _))

instance (o : Ownership) (downs : List HcNgxDetail) (ep : String) :
    Decidable (Recorded o downs ep) :=
  inferInstanceAs (Decidable (∃ d ∈ downs, _))

instance (downs : List HcNgxDetail) (svc ep : String) : Decidable (Reported downs svc ep) :=
  inferInstanceAs (Decidable (∃ d ∈ downs, _))

@[simp]
theorem listed_cons {d : HcNgxDetail} {downs : List HcNgxDetail} {svc : String} :
    Listed (d :: downs) svc ↔ d.upstream = svc ∨ Listed downs svc := by
  simp [Listed]

@[simp]
theorem recorded_cons {o : Ownership} {d : HcNgxDetail} {downs : List HcNgxDetail}
    {ep : String} :
    Recorded o (d :: downs) ep ↔
      (d.name = ep ∧ (o.owns d.upstream = false ∨ d.rise ≤ 0)) ∨ Recorded o downs ep := by
  simp [Recorded]

@[simp]
theorem reported_cons {d : HcNgxDetail} {downs : List HcNgxDetail} {svc ep : String} :
    Reported (d :: downs) svc ep ↔
      (d.upstream = svc ∧ d.name = ep ∧ d.rise ≤ 0) ∨ Reported downs svc ep := by
  simp [Reported]

/-- What a reported peer does: a service of another node is forgotten, an owned endpoint is down
unless it is rising. -/
theorem reportDown_cases (o : Ownership) (state : DownEpList × Go.Map String Bool)
    (d : HcNgxDetail) :
    (o.owns d.upstream = false ∧
      reportDown o state d = (state.1.deleteService d.upstream, state.2.insert d.name true)) ∨
    (o.owns d.upstream = true ∧ d.rise ≤ 0 ∧
      reportDown o state d = (state.1.setService d.upstream
        (((state.1.service d.upstream).getD ∅).insert d.name false), state.2.insert d.name true)) ∨
    (o.owns d.upstream = true ∧ ¬ d.rise ≤ 0 ∧ reportDown o state d = state) := by
  cases howns : o.owns d.upstream with
  | false => exact .inl ⟨rfl, by simp [reportDown, checkSvcIsValid, howns]⟩
  | true =>
    by_cases hrise : d.rise ≤ 0
    · have hskip : ¬ 0 < d.rise := by omega
      exact .inr (.inl ⟨rfl, hrise, by simp [reportDown, checkSvcIsValid, howns, hskip]⟩)
    · have hskip : 0 < d.rise := by omega
      exact .inr (.inr ⟨rfl, hrise, by simp [reportDown, checkSvcIsValid, howns, hskip]⟩)

/-- The services after one reported peer: only its own one changes. -/
theorem service_reportDown (o : Ownership) (state : DownEpList × Go.Map String Bool)
    (d : HcNgxDetail) (svc : String) :
    (reportDown o state d).1.service svc =
      if d.upstream = svc then
        if o.owns svc = false then none
        else if d.rise ≤ 0 then some (((state.1.service svc).getD ∅).insert d.name false)
        else state.1.service svc
      else state.1.service svc := by
  rcases reportDown_cases o state d with ⟨howns, heq⟩ | ⟨howns, hrise, heq⟩ | ⟨howns, hrise, heq⟩
  · rw [heq, DownEpList.service_deleteService]
    by_cases hsvc : d.upstream = svc
    · simp [← hsvc, howns]
    · simp [hsvc, Ne.symm hsvc]
  · rw [heq, DownEpList.service_setService]
    by_cases hsvc : d.upstream = svc
    · simp [← hsvc, howns, hrise]
    · simp [hsvc, Ne.symm hsvc]
  · rw [heq]
    by_cases hsvc : d.upstream = svc
    · simp [← hsvc, howns, hrise]
    · simp [hsvc]

/-- The verdicts after one reported peer. -/
theorem entry_reportDown (o : Ownership) (state : DownEpList × Go.Map String Bool)
    (d : HcNgxDetail) (svc ep : String) :
    (reportDown o state d).1.entry svc ep =
      if o.owns svc = false then (if d.upstream = svc then none else state.1.entry svc ep)
      else if d.upstream = svc ∧ d.name = ep ∧ d.rise ≤ 0 then some false
      else state.1.entry svc ep := by
  rw [DownEpList.entry, service_reportDown]
  by_cases hsvc : d.upstream = svc
  · cases o.owns svc with
    | false => simp [hsvc]
    | true =>
      by_cases hrise : d.rise ≤ 0
      · have hname : ep = d.name ↔ d.name = ep := eq_comm
        simp [hsvc, hrise, DownEpList.lookup_insert_service, hname]
      · simp [hsvc, hrise, DownEpList.entry]
  · simp [hsvc, DownEpList.entry]

/-- The recorded names after one reported peer. -/
theorem record_reportDown (o : Ownership) (state : DownEpList × Go.Map String Bool)
    (d : HcNgxDetail) (ep : String) :
    ((reportDown o state d).2.lookup ep).getD false = true ↔
      (d.name = ep ∧ (o.owns d.upstream = false ∨ d.rise ≤ 0)) ∨
        (state.2.lookup ep).getD false = true := by
  rcases reportDown_cases o state d with ⟨howns, heq⟩ | ⟨howns, hrise, heq⟩ | ⟨howns, hrise, heq⟩
  · rw [heq, Go.Map.lookup_insert_ite]
    by_cases hep : ep = d.name
    · simp [hep, howns]
    · simp [hep, Ne.symm hep]
  · rw [heq, Go.Map.lookup_insert_ite]
    by_cases hep : ep = d.name
    · simp [hep, hrise]
    · simp [hep, Ne.symm hep]
  · rw [heq]
    simp [howns, hrise]

/-- The verdicts after a payload loop. A service of another node disappears as soon as one
of its peers is reported; an owned endpoint that is reported and not rising is down. -/
theorem entry_reportDowns (o : Ownership) (downs : List HcNgxDetail)
    (state : DownEpList × Go.Map String Bool) (svc ep : String) :
    (reportDowns o downs state).1.entry svc ep =
      if o.owns svc = false then (if Listed downs svc then none else state.1.entry svc ep)
      else if Reported downs svc ep then some false
      else state.1.entry svc ep := by
  induction downs generalizing state with
  | nil => simp [reportDowns, Listed, Reported]
  | cons d downs ih =>
    have hrest := ih (reportDown o state d)
    rw [reportDowns, List.foldl_cons, ← reportDowns, hrest, entry_reportDown]
    cases o.owns svc with
    | false => by_cases hd : d.upstream = svc <;> by_cases hlisted : Listed downs svc <;>
        simp [hd, hlisted]
    | true =>
      by_cases hd : d.upstream = svc ∧ d.name = ep ∧ d.rise ≤ 0
      · simp [hd]
      · by_cases hreported : Reported downs svc ep
        · simp [hreported]
        · simp only [Bool.true_eq_false, ↓reduceIte, hreported, hd, reported_cons, or_self]

/-- The recorded names after a payload loop. -/
theorem record_reportDowns (o : Ownership) (downs : List HcNgxDetail)
    (state : DownEpList × Go.Map String Bool) (ep : String) :
    ((reportDowns o downs state).2.lookup ep).getD false = true ↔
      Recorded o downs ep ∨ (state.2.lookup ep).getD false = true := by
  induction downs generalizing state with
  | nil => simp [reportDowns, Recorded]
  | cons d downs ih =>
    rw [reportDowns, List.foldl_cons, ← reportDowns, ih, record_reportDown]
    rw [recorded_cons]
    tauto

/-- The two payload loops are one loop over both lists. -/
theorem eventDownEpList_eq (o : Ownership) (servers : ServersNgxList) (l : DownEpList) :
    eventDownEpList o servers l =
      recoverOthers (reportDowns o (servers.http ++ servers.stream) (l, ∅)).2
        (reportDowns o (servers.http ++ servers.stream) (l, ∅)).1 := by
  simp only [eventDownEpList, reportDowns, List.foldl_append]

/-- The payload loops make a map out of nil exactly when an owned peer is reported. -/
theorem isSome_reportDowns_iff (o : Ownership) (downs : List HcNgxDetail)
    (state : DownEpList × Go.Map String Bool) :
    (reportDowns o downs state).1.isSome = true ↔
      state.1.isSome = true ∨ ∃ d ∈ downs, o.owns d.upstream = true ∧ d.rise ≤ 0 := by
  induction downs generalizing state with
  | nil => simp [reportDowns]
  | cons d downs ih =>
    rw [reportDowns, List.foldl_cons, ← reportDowns, ih]
    rcases reportDown_cases o state d with ⟨howns, heq⟩ | ⟨howns, hrise, heq⟩ | ⟨howns, hrise, heq⟩
    · rw [heq]
      simp [DownEpList.deleteService, howns]
    · rw [heq]
      simp [DownEpList.setService, howns, hrise]
    · rw [heq]
      simp [hrise]

theorem isSome_eventDownEpList_iff (o : Ownership) (servers : ServersNgxList) (l : DownEpList) :
    (eventDownEpList o servers l).isSome = true ↔ l.isSome = true ∨ ReportsOwned o servers := by
  rw [eventDownEpList_eq, recoverOthers, DownEpList.isSome_mapStatus, isSome_reportDowns_iff]
  rfl

/-- The verdict that `eventOpt` computes from the verdict on an endpoint. On a service of
another node with a reported peer it is dropped; an owned endpoint that is reported and not
rising is down; otherwise it stays, except that a down verdict becomes up unless the
endpoint's name is recorded. -/
def eventVerdict (o : Ownership) (downs : List HcNgxDetail) (svc ep : String)
    (verdict : Option Bool) : Option Bool :=
  if o.owns svc = false ∧ Listed downs svc then none
  else if o.owns svc = true ∧ Reported downs svc ep then some false
  else if Recorded o downs ep then verdict
  else verdict.map fun _ => true

/-- The verdicts that `eventOpt` computes. -/
theorem entry_eventDownEpList (o : Ownership) (servers : ServersNgxList) (l : DownEpList)
    (svc ep : String) :
    (eventDownEpList o servers l).entry svc ep =
      eventVerdict o (servers.http ++ servers.stream) svc ep (l.entry svc ep) := by
  have hrecord := record_reportDowns o (servers.http ++ servers.stream) (l, ∅) ep
  have hentry := entry_reportDowns o (servers.http ++ servers.stream) (l, ∅) svc ep
  have hreported : o.owns svc = true → Reported (servers.http ++ servers.stream) svc ep →
      Recorded o (servers.http ++ servers.stream) ep := by
    rintro - ⟨d, hd, -, hname, hrise⟩
    exact ⟨d, hd, hname, Or.inr hrise⟩
  rw [eventVerdict, eventDownEpList_eq, recoverOthers, DownEpList.entry_mapStatus, hentry]
  by_cases hep : Recorded o (servers.http ++ servers.stream) ep
  · have hkept : ((reportDowns o (servers.http ++ servers.stream) (l, ∅)).2.lookup ep).getD
        false = true := hrecord.mpr (Or.inl hep)
    have hid : (fun status : Bool => if !true && !status then true else status) = id := rfl
    rw [hkept, hid, Option.map_id, id]
    cases o.owns svc <;> simp [hep]
  · have hlost : ((reportDowns o (servers.http ++ servers.stream) (l, ∅)).2.lookup ep).getD
        false = false := by simpa [hep] using hrecord
    have hup : (fun status : Bool => if !false && !status then true else status) =
        fun _ => true := by
      funext status
      cases status <;> rfl
    have hnot : ¬ (o.owns svc = true ∧ Reported (servers.http ++ servers.stream) svc ep) :=
      fun h => hep (hreported h.1 h.2)
    rw [hlost, hup]
    cases howns : o.owns svc with
    | false =>
      by_cases hlisted : Listed (servers.http ++ servers.stream) svc <;> simp [hlisted, hep]
    | true =>
      have hdown : ¬ Reported (servers.http ++ servers.stream) svc ep :=
        fun h => hnot ⟨howns, h⟩
      simp [hdown, hep]

/-- The verdicts that `noneEventOpt` computes. -/
@[simp]
theorem entry_allUp (l : DownEpList) (svc ep : String) :
    (allUp l).entry svc ep = (l.entry svc ep).map fun _ => true := by
  have hup : (fun status : Bool => if !status then true else status) = fun _ => true := by
    funext status
    cases status <;> rfl
  rw [allUp, DownEpList.entry_mapStatus, hup]

end HealthCheck
