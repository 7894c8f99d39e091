import HealthCheck.DownEpList
import HealthCheck.Endpoints.Moves
import HealthCheck.Poll

/-!
# Carrying out the verdicts

`modifyEpBaseOnLbhc` ranges over the verdicts twice. The first loop moves the addresses
of up verdicts to the ready side, the second loop those of down verdicts to the not
ready side. Go ranges over a map in any order, so the order of each loop is a
parameter, and so is what happens to every request.
-/

namespace HealthCheck

open Api Api.Client

/-- The `Endpoints` objects by name and namespace. -/
abbrev EpStore := String → String → Server Endpoints

/-- The store with one object replaced. -/
def EpStore.set (store : EpStore) (name nameSpace : String) (s : Server Endpoints) : EpStore :=
  fun name' nameSpace' =>
    if name' = name ∧ nameSpace' = nameSpace then s else store name' nameSpace'

theorem EpStore.get_set (store : EpStore) (t : String × String) (s : Server Endpoints) :
    store.set t.1 t.2 s t.1 t.2 = s := if_pos ⟨rfl, rfl⟩

theorem EpStore.get_set_of_ne (store : EpStore) {t t' : String × String} (hne : t' ≠ t)
    (s : Server Endpoints) : store.set t.1 t.2 s t'.1 t'.2 = store t'.1 t'.2 :=
  if_neg fun h => hne (Prod.ext h.1 h.2)

/-- An order in which Go may range over the verdicts. -/
structure RangeOrder (l : DownEpList) where
  entries : List (String × String × Bool)
  perm : entries.Perm l.pairs

/-- The order of the underlying lists. -/
def RangeOrder.listed (l : DownEpList) : RangeOrder l := ⟨l.pairs, .refl _⟩

/-- Every order visits the entries of the map. -/
theorem RangeOrder.mem_entries {l : DownEpList} (order : RangeOrder l) {svc ep : String}
    {status : Bool} : (svc, ep, status) ∈ order.entries ↔ l.entry svc ep = some status :=
  order.perm.mem_iff.trans DownEpList.mem_pairs

/-- The `Endpoints` object and the address that an entry with the wanted verdict is about.
Keys of another form are skipped. -/
def target (wanted : Bool) (entry : String × String × Bool) : Option (String × String × String) :=
  match Go.split entry.1 '_' with
  | [name, nameSpace] =>
    if entry.2.2 = wanted then
      match Go.split entry.2.1 ':' with
      | [ip, _] => some (name, nameSpace, ip)
      | _ => none
    else none
  | _ => none

/-- The verdict that puts an address on a side. -/
def Side.verdict : Side → Bool
  | .ready => true
  | .notReady => false

/-- What the loops do about one address: the test and, if it succeeds, the move. -/
def moveIfIn : Side → String → Client Endpoints Bool
  | .ready, epIp => do
    if ← epInNoReadyAddressList epIp then modifyEpInAddressList epIp else pure true
  | .notReady, epIp => do
    if ← epInReadyAddressList epIp then modifyEpInNotReadyAddressList epIp else pure true

/-- One round of the loop that moves addresses to the side `dst`. The state is `errRet`,
true as long as it is nil, and the store. -/
def visitEntry (dst : Side) (faults : String → String → Faults) (state : Bool × EpStore)
    (entry : String × String × Bool) : Bool × EpStore :=
  match target dst.verdict entry with
  | some (name, nameSpace, ip) =>
    let r := run (faults entry.1 entry.2.1) (moveIfIn dst ip) 0 (state.2 name nameSpace)
    (state.1 && r.1, state.2.set name nameSpace r.2.2)
  | none => state

/-- The fate of the requests that a reconcile of the `Lbhc` object makes, by loop and entry. -/
structure ReconcileFaults where
  up : String → String → Faults
  down : String → String → Faults
  clean : Faults

/-- All requests of a reconcile get through. -/
def ReconcileFaults.none : ReconcileFaults := ⟨fun _ _ => .none, fun _ _ => .none, .none⟩

/-- `modifyEpBaseOnLbhc`. The result is false when an error is returned. -/
def modifyEpBaseOnLbhc (lbhc : Lbhc) (ups downs : RangeOrder lbhc.downEpList)
    (faults : ReconcileFaults) (store : EpStore) : Bool × EpStore :=
  downs.entries.foldl (visitEntry .notReady faults.down)
    (ups.entries.foldl (visitEntry .ready faults.up) (true, store))

/-- The first branch of `Reconcile`, on an object just fetched: carry out the verdicts and,
unless that returned an error, delete the up verdicts. -/
def reconcileLbhc (lbhc : Lbhc) (ups downs : RangeOrder lbhc.downEpList)
    (faults : ReconcileFaults) (server : Server Lbhc) (store : EpStore) :
    Server Lbhc × EpStore :=
  let modified := modifyEpBaseOnLbhc lbhc ups downs faults store
  if modified.1 then
    ((run faults.clean (cleanHcBaseEpUpStatus lbhc) 0 server).2.2, modified.2)
  else (server, modified.2)

/-- The requests that a move needs get through: the read of the test, the read of the move
and the update. -/
def GetsThrough (faults : Faults) : Prop :=
  faults.get 0 = .success ∧ faults.get 1 = .success ∧ faults.passes 2 5 = true

/-- Without faults every request gets through. -/
theorem getsThrough_none : GetsThrough .none := ⟨rfl, rfl, rfl⟩

/-- The read of the move fails after the read of the test succeeded: an error is returned. -/
def ReadFails (faults : Faults) : Prop := faults.get 0 = .success ∧ faults.get 1 ≠ .success

theorem moveIfIn_eq (dst : Side) (epIp : String) :
    moveIfIn dst epIp = (do if ← epIn dst.other epIp then modifyEp dst epIp else pure true) := by
  cases dst <;> rfl

/-- The test. -/
theorem run_epIn_bind {ρ : Type} (faults : Faults) (side : Side) (epIp : String)
    (next : Bool → Client Endpoints ρ) (s : Server Endpoints) :
    (HasAddr s side epIp ∧ faults.get 0 = .success ∧
        run faults (epIn side epIp >>= next) 0 s = run faults (next true) 1 s) ∨
      (¬ (HasAddr s side epIp ∧ faults.get 0 = .success) ∧
        run faults (epIn side epIp >>= next) 0 s = run faults (next false) 1 s) := by
  rw [run_bind, epIn, run_fetch_bind]
  by_cases hget : faults.get 0 = .success
  · rw [if_pos hget]
    cases hobj : s.object with
    | none => exact .inr ⟨by simp [HasAddr, hobj], by simp [Server.get, hobj]⟩
    | some ep =>
      rw [hasAddr_of_object hobj]
      by_cases hhas : ep.Has side epIp
      · exact .inl ⟨hhas, hget, by simp [Server.get, hobj, hhas]⟩
      · exact .inr ⟨fun h => hhas h.1, by simp [Server.get, hobj, hhas]⟩
  · exact .inr ⟨fun h => hget h.2, by simp [hget]⟩

/-- The move, on an object that has the address on the source side. -/
theorem run_modifyEp (faults : Faults) (dst : Side) (epIp : String) {s : Server Endpoints}
    (hhas : HasAddr s dst.other epIp) :
    let r := run faults (modifyEp dst epIp) 1 s
    (faults.get 1 ≠ .success ∧ r.1 = false ∧ r.2.2 = s) ∨
      (faults.get 1 = .success ∧ faults.passes 2 5 = false ∧ r.1 = true ∧ r.2.2 = s) ∨
      (faults.get 1 = .success ∧ faults.passes 2 5 = true ∧ r.1 = true ∧
        ∀ ep ∈ s.object, ∃ stored, r.2.2.object = some stored ∧
          Resource.stamp 0 stored = Resource.stamp 0 (ep.moveTo dst epIp)) := by
  obtain ⟨ep, hobj, hip⟩ := hhas
  have hobj : s.object = some ep := hobj
  rw [modifyEp, run_fetch_bind]
  by_cases hget : faults.get 1 = .success
  · have hfound : s.get = .found ep := by simp [Server.get, hobj]
    rw [if_pos hget, hfound]
    simp only [hip, if_true]
    rw [run_bind]
    cases hpasses : faults.passes 2 5 with
    | false =>
      obtain ⟨reply, m, -, hrun⟩ : ∃ reply m, (∀ o, reply ≠ .accepted o) ∧
          run faults (retryUpdate (ep.moveTo dst epIp) 5) 2 s = (reply, m, s) :=
        run_retryUpdate_refused (.inr hpasses)
      rw [retryOnConflict, hrun]
      exact .inr (.inl ⟨hget, rfl, rfl, rfl⟩)
    | true =>
      have hversion : Resource.resourceVersion (ep.moveTo dst epIp) =
          Resource.resourceVersion ep := rfl
      obtain ⟨stored, t, hupdate, hstored, hcontent⟩ := Server.update_of_version hobj hversion
      obtain ⟨m, hrun⟩ := run_retryUpdate_accepted hupdate hpasses
      rw [retryOnConflict, hrun]
      refine .inr (.inr ⟨hget, rfl, rfl, fun ep' hep' => ?_⟩)
      rw [hobj] at hep'
      cases hep'
      exact ⟨stored, hstored, hcontent⟩
  · rw [if_neg hget]
    exact .inl ⟨hget, rfl, rfl⟩

/-- What one round does to an object: the address changes sides exactly when it is on the
source side and the requests get through, and every other address stays where it is. -/
theorem run_moveIfIn (faults : Faults) (dst : Side) (epIp : String) (s : Server Endpoints) :
    let r := run faults (moveIfIn dst epIp) 0 s
    (r.1 = false ↔ HasAddr s dst.other epIp ∧ ReadFails faults) ∧
      (∀ ip, HasAddr r.2.2 dst.other ip ↔
        HasAddr s dst.other ip ∧ ¬ (ip = epIp ∧ GetsThrough faults)) ∧
      (∀ ip, HasAddr r.2.2 dst ip ↔
        HasAddr s dst ip ∨ (HasAddr s dst.other ip ∧ ip = epIp ∧ GetsThrough faults)) := by
  rw [moveIfIn_eq]
  rcases run_epIn_bind faults dst.other epIp
      (fun isIn => if isIn = true then modifyEp dst epIp else pure true) s with
    ⟨hhas, hget, hrun⟩ | ⟨hnot, hrun⟩
  · rw [hrun, if_pos rfl]
    obtain ⟨ep, hobj, hep⟩ := hhas
    have hhas : HasAddr s dst.other epIp := ⟨ep, hobj, hep⟩
    rcases run_modifyEp faults dst epIp hhas with
      ⟨hread, hresult, hsame⟩ | ⟨hread, hpasses, hresult, hsame⟩ |
      ⟨hread, hpasses, hresult, hstored⟩
    · simp [hresult, hsame, hhas, ReadFails, GetsThrough, hget, hread]
    · simp [hresult, hsame, ReadFails, GetsThrough, hread, hpasses]
    · obtain ⟨stored, hstored, hcontent⟩ := hstored ep hobj
      have hthrough : GetsThrough faults := ⟨hget, hread, hpasses⟩
      refine ⟨by simp [hresult, ReadFails, hread], fun ip => ?_, fun ip => ?_⟩
      · rw [hasAddr_of_object hstored, hasAddr_of_object hobj,
          Endpoints.has_iff_of_stamp_eq hcontent, Endpoints.has_source_moveTo]
        simp [hthrough]
      · rw [hasAddr_of_object hstored, hasAddr_of_object hobj, hasAddr_of_object hobj,
          Endpoints.has_iff_of_stamp_eq hcontent, Endpoints.has_dst_moveTo]
        simp [hthrough, and_comm]
  · have hnone : ∀ ip, ¬ (HasAddr s dst.other ip ∧ ip = epIp ∧ GetsThrough faults) := by
      rintro ip ⟨hhas, rfl, hthrough⟩
      exact hnot ⟨hhas, hthrough.1⟩
    rw [hrun, if_neg (by simp), run_pure]
    refine ⟨?_, fun ip => ?_, fun ip => ?_⟩
    · simp only [Bool.true_eq_false, false_iff]
      exact fun h => hnot ⟨h.1, h.2.1⟩
    · exact ⟨fun h => ⟨h, fun hip => hnone ip ⟨h, hip⟩⟩, fun h => h.1⟩
    · exact ⟨.inl, fun h => h.elim id fun hip => absurd hip (hnone ip)⟩

/-- The store has the address of a target on the given side. -/
def EpStore.Has (store : EpStore) (side : Side) (t : String × String × String) : Prop :=
  HasAddr (store t.1 t.2.1) side t.2.2

theorem EpStore.has_set (store : EpStore) (name nameSpace : String) (s : Server Endpoints)
    (side : Side) (t : String × String × String) :
    (store.set name nameSpace s).Has side t ↔
      if t.1 = name ∧ t.2.1 = nameSpace then HasAddr s side t.2.2 else store.Has side t := by
  unfold EpStore.Has EpStore.set
  split <;> rfl

/-- Some entry of the loop is about the target and its requests get through. -/
def Moved (dst : Side) (faults : String → String → Faults)
    (entries : List (String × String × Bool)) (t : String × String × String) : Prop :=
  ∃ e ∈ entries, target dst.verdict e = some t ∧ GetsThrough (faults e.1 e.2.1)

/-- Some entry of the loop returns an error: the address of its target is where the loop
looks for it, no earlier entry has moved it, and only the second read fails. -/
def ReadLost (dst : Side) (faults : String → String → Faults)
    (entries : List (String × String × Bool)) (present : String × String × String → Prop) : Prop :=
  ∃ before e after t, entries = before ++ e :: after ∧ target dst.verdict e = some t ∧
    present t ∧ ReadFails (faults e.1 e.2.1) ∧ ¬ Moved dst faults before t

/-- One round of a loop. -/
theorem visitEntry_spec (dst : Side) (faults : String → String → Faults) (state : Bool × EpStore)
    (e : String × String × Bool) :
    ((visitEntry dst faults state e).1 = false ↔ state.1 = false ∨
      ∃ t, target dst.verdict e = some t ∧ state.2.Has dst.other t ∧
        ReadFails (faults e.1 e.2.1)) ∧
    (∀ t, (visitEntry dst faults state e).2.Has dst.other t ↔ state.2.Has dst.other t ∧
      ¬ (target dst.verdict e = some t ∧ GetsThrough (faults e.1 e.2.1))) ∧
    (∀ t, (visitEntry dst faults state e).2.Has dst t ↔ state.2.Has dst t ∨
      (state.2.Has dst.other t ∧ target dst.verdict e = some t ∧
        GetsThrough (faults e.1 e.2.1))) := by
  unfold visitEntry
  split
  · next name nameSpace ip htarget =>
    obtain ⟨herror, hsource, hdst⟩ :=
      run_moveIfIn (faults e.1 e.2.1) dst ip (state.2 name nameSpace)
    have hsame : ∀ t : String × String × String, t.1 = name → t.2.1 = nameSpace →
        (target dst.verdict e = some t ↔ t.2.2 = ip) := by
      rintro ⟨name', nameSpace', ip'⟩ rfl rfl
      simp [htarget, eq_comm]
    have hother : ∀ t : String × String × String, ¬ (t.1 = name ∧ t.2.1 = nameSpace) →
        target dst.verdict e ≠ some t := by
      rintro t hne ht
      rw [htarget, Option.some.injEq] at ht
      subst ht
      exact hne ⟨rfl, rfl⟩
    refine ⟨?_, fun t => ?_, fun t => ?_⟩
    · simp only [Bool.and_eq_false_iff, herror, htarget, Option.some.injEq, exists_eq_left',
        EpStore.Has]
    · rw [EpStore.has_set]
      split
      · next hkey => rw [hsource, hsame t hkey.1 hkey.2, ← hkey.1, ← hkey.2, EpStore.Has]
      · next hkey => simp [hother t hkey]
    · rw [EpStore.has_set]
      split
      · next hkey =>
        rw [hdst, hsame t hkey.1 hkey.2, ← hkey.1, ← hkey.2, EpStore.Has, EpStore.Has]
      · next hkey => simp [hother t hkey]
  · next htarget => simp [htarget]

theorem moved_cons {dst : Side} {faults : String → String → Faults} {e : String × String × Bool}
    {entries : List (String × String × Bool)} {t : String × String × String} :
    Moved dst faults (e :: entries) t ↔
      (target dst.verdict e = some t ∧ GetsThrough (faults e.1 e.2.1)) ∨
        Moved dst faults entries t := by
  simp [Moved]

/-- The service of an entry with a target is the target's. -/
theorem service_of_target {wanted : Bool} {e : String × String × Bool}
    {t : String × String × String} (he : target wanted e = some t) :
    e.1 = virtualServiceFullValue t.1 t.2.1 := by
  unfold target at he
  split at he
  · next name nameSpace hsplit =>
    split at he
    · split at he
      · cases he
        exact eq_virtualServiceFullValue hsplit
      · cases he
    · cases he
  · cases he

/-- Only entries with the wanted verdict have a target. -/
theorem verdict_of_target {wanted : Bool} {e : String × String × Bool}
    {t : String × String × String} (he : target wanted e = some t) : e.2.2 = wanted := by
  unfold target at he
  split at he
  · split at he
    · next hverdict => exact hverdict
    · cases he
  · cases he

/-- The entry that moved an address, as a verdict of the object. -/
theorem Moved.entry {lbhc : Lbhc} {order : RangeOrder lbhc.downEpList} {dst : Side}
    {faults : String → String → Faults} {t : String × String × String}
    (hmoved : Moved dst faults order.entries t) {wanted : Bool} {svc ep : String} {status : Bool}
    (htarget : target wanted (svc, ep, status) = some t) :
    ∃ ep', lbhc.downEpList.entry svc ep' = some dst.verdict ∧
      target dst.verdict (svc, ep', dst.verdict) = some t := by
  obtain ⟨⟨svc', ep', status'⟩, hmem, ht, -⟩ := hmoved
  have hsvc : svc' = svc := (service_of_target ht).trans (service_of_target htarget).symm
  have hstatus : status' = dst.verdict := verdict_of_target ht
  subst hsvc hstatus
  exact ⟨ep', order.mem_entries.mp hmem, ht⟩

/-- What a loop does to the store: exactly the addresses of targets whose requests get
through change sides. -/
theorem foldl_visitEntry_has (dst : Side) (faults : String → String → Faults)
    (entries : List (String × String × Bool)) (state : Bool × EpStore)
    (t : String × String × String) :
    ((entries.foldl (visitEntry dst faults) state).2.Has dst.other t ↔
      state.2.Has dst.other t ∧ ¬ Moved dst faults entries t) ∧
    ((entries.foldl (visitEntry dst faults) state).2.Has dst t ↔
      state.2.Has dst t ∨ (state.2.Has dst.other t ∧ Moved dst faults entries t)) := by
  induction entries generalizing state with
  | nil => simp [Moved]
  | cons e entries ih =>
    obtain ⟨-, hsource, hdst⟩ := visitEntry_spec dst faults state e
    obtain ⟨ihsource, ihdst⟩ := ih (visitEntry dst faults state e)
    rw [List.foldl_cons, ihsource, ihdst, hsource, hdst, moved_cons, not_or, and_assoc]
    refine ⟨Iff.rfl, ?_⟩
    by_cases he : target dst.verdict e = some t ∧ GetsThrough (faults e.1 e.2.1)
    · simp [he]
    · simp only [he, and_false, or_false, not_false_eq_true, and_true, false_or]

/-- When a loop returns an error. -/
theorem foldl_visitEntry_error (dst : Side) (faults : String → String → Faults)
    (entries : List (String × String × Bool)) (state : Bool × EpStore) :
    (entries.foldl (visitEntry dst faults) state).1 = false ↔
      state.1 = false ∨ ReadLost dst faults entries (state.2.Has dst.other) := by
  induction entries generalizing state with
  | nil => simp [ReadLost]
  | cons e entries ih =>
    obtain ⟨herror, hsource, -⟩ := visitEntry_spec dst faults state e
    rw [List.foldl_cons, ih, herror, or_assoc]
    refine or_congr_right ⟨?_, ?_⟩
    · rintro (⟨t, ht, hhas, hread⟩ | ⟨before, e', after, t, rfl, ht, hhas, hread, hmoved⟩)
      · exact ⟨[], e, entries, t, rfl, ht, hhas, hread, by simp [Moved]⟩
      · rw [hsource] at hhas
        refine ⟨e :: before, e', after, t, rfl, ht, hhas.1, hread, ?_⟩
        rw [moved_cons]
        exact fun h => h.elim hhas.2 hmoved
    · rintro ⟨before, e', after, t, hentries, ht, hhas, hread, hmoved⟩
      cases before with
      | nil =>
        cases hentries
        exact .inl ⟨t, ht, hhas, hread⟩
      | cons e'' before =>
        cases hentries
        rw [moved_cons, not_or] at hmoved
        exact .inr ⟨before, e', after, t, rfl, ht, (hsource t).mpr ⟨hhas, hmoved.1⟩, hread,
          hmoved.2⟩

/-- The address is ready when the second loop starts. -/
def ReadyAfterUps (lbhc : Lbhc) (ups : RangeOrder lbhc.downEpList) (faults : ReconcileFaults)
    (store : EpStore) (t : String × String × String) : Prop :=
  store.Has .ready t ∨ (store.Has .notReady t ∧ Moved .ready faults.up ups.entries t)

/-- Which addresses are on a not ready list after both loops. -/
theorem modifyEpBaseOnLbhc_notReady (lbhc : Lbhc) (ups downs : RangeOrder lbhc.downEpList)
    (faults : ReconcileFaults) (store : EpStore) (t : String × String × String) :
    (modifyEpBaseOnLbhc lbhc ups downs faults store).2.Has .notReady t ↔
      (store.Has .notReady t ∧ ¬ Moved .ready faults.up ups.entries t) ∨
        (ReadyAfterUps lbhc ups faults store t ∧ Moved .notReady faults.down downs.entries t) := by
  have hups := foldl_visitEntry_has .ready faults.up ups.entries (true, store) t
  rw [modifyEpBaseOnLbhc, (foldl_visitEntry_has .notReady faults.down downs.entries _ t).2]
  exact or_congr hups.1 (and_congr_left' hups.2)

/-- Which addresses are on a ready list after both loops. -/
theorem modifyEpBaseOnLbhc_ready (lbhc : Lbhc) (ups downs : RangeOrder lbhc.downEpList)
    (faults : ReconcileFaults) (store : EpStore) (t : String × String × String) :
    (modifyEpBaseOnLbhc lbhc ups downs faults store).2.Has .ready t ↔
      ReadyAfterUps lbhc ups faults store t ∧ ¬ Moved .notReady faults.down downs.entries t := by
  have hups := foldl_visitEntry_has .ready faults.up ups.entries (true, store) t
  have hdowns := (foldl_visitEntry_has .notReady faults.down downs.entries
    (ups.entries.foldl (visitEntry .ready faults.up) (true, store)) t).1
  rw [modifyEpBaseOnLbhc]
  exact hdowns.trans (and_congr_left' hups.2)

/-- The store after a reconcile is the one after both loops. -/
theorem reconcileLbhc_store (lbhc : Lbhc) (ups downs : RangeOrder lbhc.downEpList)
    (faults : ReconcileFaults) (server : Server Lbhc) (store : EpStore) :
    (reconcileLbhc lbhc ups downs faults server store).2 =
      (modifyEpBaseOnLbhc lbhc ups downs faults store).2 := by
  unfold reconcileLbhc
  dsimp only
  split <;> rfl

/-- The object after a reconcile: the verdicts are those before, or the up verdicts are
gone. -/
theorem reconcileLbhc_object {lbhc : Lbhc} {server : Server Lbhc}
    (hobj : server.object = some lbhc) (ups downs : RangeOrder lbhc.downEpList)
    (faults : ReconcileFaults) (store : EpStore) :
    ∃ stored, (reconcileLbhc lbhc ups downs faults server store).1.object = some stored ∧
      (stored = lbhc ∨ stored.downEpList = lbhc.downEpList.deleteUp) := by
  unfold reconcileLbhc
  dsimp only
  split
  · unfold cleanHcBaseEpUpStatus
    split
    · rw [run_bind]
      rcases run_retryOnConflict_lbhc faults.clean
          { lbhc with downEpList := lbhc.downEpList.deleteUp } 0 hobj with
        ⟨-, -, stored, m, t, hstored, hlist, -, hrun⟩ | ⟨-, reply, m, -, hrun⟩
      · rw [hrun]
        exact ⟨stored, hstored, .inr hlist⟩
      · rw [hrun]
        exact ⟨lbhc, hobj, .inl rfl⟩
    · exact ⟨lbhc, hobj, .inl rfl⟩
  · exact ⟨lbhc, hobj, .inl rfl⟩

/-- Objects read before a reconcile are still recognised by their version. -/
theorem seen_reconcileLbhc {lbhc obj : Lbhc} {server : Server Lbhc} (hseen : server.Seen obj)
    (ups downs : RangeOrder lbhc.downEpList) (faults : ReconcileFaults) (store : EpStore) :
    (reconcileLbhc lbhc ups downs faults server store).1.Seen obj := by
  unfold reconcileLbhc
  dsimp only
  split
  · exact seen_run _ _ hseen
  · exact hseen

end HealthCheck
