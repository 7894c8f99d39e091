import HealthCheck.Cluster
import HealthCheck.Runs

/-!
# Down addresses are not served once everything is handled

A ready address that is marked down must be about to be noticed: the marks are new and the
`Lbhc` object waits to be reconciled, or the address is new and the event that shows it
waits to be delivered to the Update predicate. Every operation keeps this except two
kinds of writes, those that create an object with such an address and those that put it on
an object without the label of the controller; for these no predicate looks at the marks.
-/

namespace HealthCheck

open Api Api.Client

/-- A node that owns a service answers for it. -/
theorem Ownership.answersFor_of_owns {o : Ownership} {svcName : String}
    (howns : o.owns svcName = true) : o.answersFor svcName = true := by
  unfold Ownership.owns at howns
  unfold Ownership.answersFor
  split at howns
  · simp only [Bool.and_eq_true, beq_iff_eq] at howns
    simp [howns.2]
  · simp [howns]

/-- The event shows that the address of the target has become ready, and the Update predicate
looks at it. -/
def EpEvent.Shows (e : EpEvent) (t : String × String × String) : Prop :=
  e.name = t.1 ∧ e.nameSpace = t.2.1 ∧ e.name ≠ "" ∧ e.nameSpace ≠ "" ∧
    ∃ old new, e.change = .updated old new ∧ new.managed = true ∧
      new.metadata.resourceVersion ≠ old.metadata.resourceVersion ∧
      new.Has .ready t.2.2 ∧ ¬ old.Has .ready t.2.2

namespace Cluster

/-- Some entry marks the address of the target down. -/
def MarkedDown (s : Cluster) (t : String × String × String) : Prop :=
  ∃ lbhc ∈ s.lbhc.object, ∃ svc ep, lbhc.downEpList.entry svc ep = some false ∧
    target false (svc, ep, false) = some t

/-- The `Lbhc` object is going to be reconciled. -/
def Pending (c : Controller) (s : Cluster) : Prop :=
  s.lbhcEvents ≠ [] ∨ (c.crd.crdName, c.crd.crdNamespace) ∈ s.requests

/-- An event that shows the address of the target waits. -/
def Noticed (s : Cluster) (t : String × String × String) : Prop := ∃ e ∈ s.epEvents, e.Shows t

/-- The invariant. -/
structure Covered (c : Controller) (s : Cluster) : Prop where
  passes : ∀ e ∈ s.lbhcEvents, e.passes = true
  covered : ∀ t, s.MarkedDown t → s.store.Has .ready t → s.Pending c ∨ s.Noticed t

/-- A write of another program, or an address added by this one, that makes an address ready
that is marked down goes to an object that exists and has the controller's label. -/
def StepOk (s : Cluster) : ClusterOp → Prop
  | .write key ep => ∀ ip, s.MarkedDown (key.name, key.nameSpace, ip) → ep.Has .ready ip →
      ¬ HasAddr (s.store key.name key.nameSpace) .ready ip →
      (s.store key.name key.nameSpace).object.isSome = true ∧ ep.managed = true
  | .createEp key _ pod => s.MarkedDown (key.name, key.nameSpace, pod.podIp) →
      ¬ HasAddr (s.store key.name key.nameSpace) .ready pod.podIp →
      ∃ old ∈ (s.store key.name key.nameSpace).object, old.managed = true
  | _ => True

variable {c : Controller} {s : Cluster}

/-! ### Writes -/

/-- A write of the `Lbhc` object that queues an event the predicates let pass. -/
theorem Covered.setLbhc_of_queued (h : s.Covered c) {server : Server Lbhc} {e : LbhcEvent}
    (hevents : (s.setLbhc server).lbhcEvents = s.lbhcEvents ++ [e]) (hpass : e.passes = true) :
    (s.setLbhc server).Covered c := by
  refine ⟨?_, fun t _ _ => .inl (.inl (by simp [hevents]))⟩
  intro e' he'
  rw [hevents, List.mem_append, List.mem_singleton] at he'
  rcases he' with he' | rfl
  · exact h.passes e' he'
  · exact hpass

/-- Writing the `Lbhc` object keeps the invariant, because every change is queued. -/
theorem Covered.setLbhc (h : s.Covered c) {server : Server Lbhc}
    (hlabelled : ∀ new ∈ server.object, s.lbhc.object = none →
      (new.metadata.labels.lookup vsDomain).isSome = true) :
    (s.setLbhc server).Covered c := by
  cases hnew : server.object with
  | none =>
    have hevents : lbhcChange s.lbhc.object server.object = [] := by
      rw [hnew]
      cases s.lbhc.object <;> rfl
    refine ⟨?_, ?_⟩
    · simpa [Cluster.setLbhc, hevents] using h.passes
    · rintro t ⟨lbhc, hlbhc, -⟩ -
      simp [Cluster.setLbhc, hnew] at hlbhc
  | some new =>
    cases hold : s.lbhc.object with
    | none =>
      have hevents :
          (s.setLbhc server).lbhcEvents = s.lbhcEvents ++ [.created new.metadata.labels] := by
        simp [Cluster.setLbhc, hold, hnew, lbhcChange]
      exact h.setLbhc_of_queued hevents (hlabelled new hnew hold)
    | some old =>
      by_cases hsame : old = new
      · have hevents : (s.setLbhc server).lbhcEvents = s.lbhcEvents := by
          simp [Cluster.setLbhc, hold, hnew, lbhcChange, hsame]
        refine ⟨hevents ▸ h.passes, ?_⟩
        rintro t ⟨lbhc, hlbhc, hmarked⟩ hready
        have hlbhc' : lbhc ∈ s.lbhc.object := by
          have : server.object = some lbhc := hlbhc
          rw [hold, hsame, ← hnew, this]
          rfl
        rcases h.covered t ⟨lbhc, hlbhc', hmarked⟩ hready with (hpending | hpending) | hnoticed
        · exact .inl (.inl (hevents ▸ hpending))
        · exact .inl (.inr hpending)
        · exact .inr hnoticed
      · have hevents : (s.setLbhc server).lbhcEvents = s.lbhcEvents ++ [.updated] := by
          simp [Cluster.setLbhc, hold, hnew, lbhcChange, hsame]
        exact h.setLbhc_of_queued hevents rfl

/-- Writing an `Endpoints` object keeps the invariant when a down address that becomes ready
is put on a labelled object that existed before. -/
theorem Covered.setEp (h : s.Covered c) {name nameSpace : String} {server : Server Endpoints}
    (hseen : ∀ obj, (s.store name nameSpace).Seen obj → server.Seen obj)
    (hnew : ∀ ip, s.MarkedDown (name, nameSpace, ip) → HasAddr server .ready ip →
      ¬ HasAddr (s.store name nameSpace) .ready ip → name ≠ "" ∧ nameSpace ≠ "" ∧
        ∃ old ∈ (s.store name nameSpace).object, ∃ new ∈ server.object, new.managed = true) :
    (s.setEp name nameSpace server).Covered c := by
  refine ⟨h.passes, ?_⟩
  intro t hmarked hready
  have hkept : s.store.Has .ready t →
      (s.setEp name nameSpace server).Pending c ∨ (s.setEp name nameSpace server).Noticed t := by
    intro hold
    rcases h.covered t hmarked hold with hpending | ⟨e, he, hshows⟩
    · exact .inl hpending
    · exact .inr ⟨e, List.mem_append_left _ he, hshows⟩
  by_cases hold : s.store.Has .ready t
  · exact hkept hold
  · obtain ⟨name', nameSpace', ip⟩ := t
    rw [Cluster.setEp, EpStore.has_set] at hready
    split at hready
    · next hkey =>
      obtain ⟨rfl, rfl⟩ : name' = name ∧ nameSpace' = nameSpace := hkey
      obtain ⟨hname, hspace, old, holdobj, new, hnewobj, hmanaged⟩ := hnew ip hmarked hready hold
      have holdobj : (s.store name' nameSpace').object = some old := holdobj
      have hnewobj : server.object = some new := hnewobj
      have hready : new.Has .ready ip := (hasAddr_of_object hnewobj _ _).mp hready
      have hbefore : ¬ old.Has .ready ip := fun hold' =>
        hold ((hasAddr_of_object holdobj _ _).mpr hold')
      have hne : new ≠ old := by
        rintro rfl
        exact hbefore hready
      have hversion := (hseen old (Server.seen_of_object holdobj)).version_ne hnewobj hne
      refine .inr ⟨⟨name', nameSpace', .updated old new⟩, List.mem_append_right _ ?_, rfl, rfl,
        hname, hspace, old, new, rfl, hmanaged, hversion, hready, hbefore⟩
      simp [holdobj, hnewobj, epChange, hne.symm]
    · exact absurd hready hold

/-- A program that makes no address ready keeps the invariant. -/
theorem Covered.runEp (h : s.Covered c) {name nameSpace : String} {p : Client Endpoints Bool}
    (hp : ∀ ip, HasAddr (alone p (s.store name nameSpace)).2 .ready ip →
      HasAddr (s.store name nameSpace) .ready ip) :
    (s.runEp name nameSpace p).Covered c :=
  h.setEp (fun _ hseen => seen_run .none p hseen)
    fun ip _ hready hbefore => absurd (hp ip hready) hbefore

/-- The invariant is about the node's own request only. -/
theorem Covered.of_requests (h : s.Covered c) {requests : List (String × String)}
    (hsub : (c.crd.crdName, c.crd.crdNamespace) ∈ s.requests →
      (c.crd.crdName, c.crd.crdNamespace) ∈ requests) :
    ({ s with requests := requests } : Cluster).Covered c where
  passes := h.passes
  covered t hmarked hready := (h.covered t hmarked hready).imp_left (Or.imp_right hsub)

theorem Covered.request (h : s.Covered c) (name nameSpace : String) :
    (s.request name nameSpace).Covered c :=
  h.of_requests fun hmem => List.mem_insert_of_mem hmem

/-! ### Moves -/

/-- What moves leave alone: the `Lbhc` object, its events and the requests. Events about
`Endpoints` objects are only added. -/
structure Frame (s t : Cluster) : Prop where
  lbhc : t.lbhc = s.lbhc
  lbhcEvents : t.lbhcEvents = s.lbhcEvents
  requests : t.requests = s.requests
  epEvents : ∀ e ∈ s.epEvents, e ∈ t.epEvents

theorem Frame.refl (s : Cluster) : Frame s s := ⟨rfl, rfl, rfl, fun _ he => he⟩

theorem Frame.trans {s t u : Cluster} (hst : Frame s t) (htu : Frame t u) : Frame s u where
  lbhc := htu.lbhc.trans hst.lbhc
  lbhcEvents := htu.lbhcEvents.trans hst.lbhcEvents
  requests := htu.requests.trans hst.requests
  epEvents e he := htu.epEvents e (hst.epEvents e he)

theorem frame_runEp (s : Cluster) (name nameSpace : String) (p : Client Endpoints Bool) :
    Frame s (s.runEp name nameSpace p) :=
  ⟨rfl, rfl, rfl, fun _ he => List.mem_append_left _ he⟩

theorem frame_visit (dst : Side) (s : Cluster) (entry : String × String × Bool) :
    Frame s (s.visit dst entry) := by
  unfold visit
  split
  · exact frame_runEp s _ _ _
  · exact .refl s

theorem frame_foldl {ι : Type} {f : Cluster → ι → Cluster} (hf : ∀ s i, Frame s (f s i))
    (is : List ι) (s : Cluster) : Frame s (is.foldl f s) := by
  induction is generalizing s with
  | nil => exact .refl s
  | cons i is ih => exact (hf s i).trans (ih (f s i))

/-- The loops of the cluster change the store as those of `modifyEpBaseOnLbhc` without faults. -/
theorem store_foldl_visit (dst : Side) (entries : List (String × String × Bool)) (s : Cluster)
    (ok : Bool) :
    (entries.foldl (visit dst) s).store =
      (entries.foldl (visitEntry dst fun _ _ => .none) (ok, s.store)).2 := by
  induction entries generalizing s ok with
  | nil => rfl
  | cons e entries ih =>
    have hstep : (s.visit dst e).store =
        (visitEntry dst (fun _ _ => .none) (ok, s.store) e).2 := by
      unfold visit visitEntry
      cases target dst.verdict e with
      | some t => rfl
      | none => rfl
    rw [List.foldl_cons, List.foldl_cons,
      ih _ (visitEntry dst (fun _ _ => .none) (ok, s.store) e).1, hstep]

/-- Both loops change the store as `modifyEpBaseOnLbhc` does. -/
theorem store_moved (lbhc : Lbhc) (ups downs : RangeOrder lbhc.downEpList) (s : Cluster) :
    (downs.entries.foldl (visit .notReady) (ups.entries.foldl (visit .ready) s)).store =
      (modifyEpBaseOnLbhc lbhc ups downs ⟨fun _ _ => .none, fun _ _ => .none, .none⟩
        s.store).2 := by
  rw [modifyEpBaseOnLbhc, store_foldl_visit .notReady downs.entries _
    (ups.entries.foldl (visitEntry .ready fun _ _ => .none) (true, s.store)).1,
    store_foldl_visit .ready ups.entries s true]

/-- After the loops no address that is marked down is ready. -/
theorem settled_moved {lbhc : Lbhc} (hobj : s.lbhc.object = some lbhc)
    (ups downs : RangeOrder lbhc.downEpList) {t : String × String × String}
    (hmarked : s.MarkedDown t) :
    ¬ (downs.entries.foldl (visit .notReady) (ups.entries.foldl (visit .ready) s)).store.Has
      .ready t := by
  obtain ⟨lbhc', hlbhc', svc, ep, hentry, htarget⟩ := hmarked
  have hsame : lbhc' = lbhc := by
    rw [hobj] at hlbhc'
    exact (Option.some.inj hlbhc').symm
  subst hsame
  rw [store_moved, modifyEpBaseOnLbhc_ready]
  rintro ⟨-, hnot⟩
  have hmem := downs.mem_entries.mpr hentry
  exact hnot ⟨(svc, ep, false), hmem, htarget, getsThrough_none⟩

/-- Reconciling the `Lbhc` object establishes the invariant. -/
theorem covered_reconcileLbhc {lbhc : Lbhc} (hobj : s.lbhc.object = some lbhc)
    (hpasses : ∀ e ∈ s.lbhcEvents, e.passes = true) (ups downs : RangeOrder lbhc.downEpList) :
    (s.reconcileLbhc lbhc ups downs).Covered c := by
  have hframe : Frame s (downs.entries.foldl (visit .notReady)
      (ups.entries.foldl (visit .ready) s)) :=
    (frame_foldl (frame_visit .ready) _ s).trans (frame_foldl (frame_visit .notReady) _ _)
  have hsettled : Covered c (downs.entries.foldl (visit .notReady)
      (ups.entries.foldl (visit .ready) s)) := by
    refine ⟨hframe.lbhcEvents ▸ hpasses, fun t hmarked hready => ?_⟩
    have hmarked' : s.MarkedDown t := by
      unfold MarkedDown at hmarked ⊢
      rwa [hframe.lbhc] at hmarked
    exact absurd hready (settled_moved hobj ups downs hmarked')
  refine hsettled.setLbhc fun new _ hnone => ?_
  rw [hframe.lbhc, hobj] at hnone
  cases hnone

/-- Moving addresses of one object leaves the other objects alone and makes nothing ready. -/
theorem ready_moveDowns (name nameSpace : String) (ips : List String) (s : Cluster)
    (t : String × String × String) :
    (s.moveDowns name nameSpace ips).store.Has .ready t ↔
      s.store.Has .ready t ∧ ¬ (t.1 = name ∧ t.2.1 = nameSpace ∧ t.2.2 ∈ ips) := by
  induction ips generalizing s with
  | nil => simp [moveDowns]
  | cons ip ips ih =>
    have hstep : (s.runEp name nameSpace (moveIfIn .notReady ip)).store.Has .ready t ↔
        s.store.Has .ready t ∧ ¬ (t.1 = name ∧ t.2.1 = nameSpace ∧ t.2.2 = ip) := by
      rw [runEp, setEp, EpStore.has_set]
      split
      · next hkey =>
        have hmove := (run_moveIfIn .none .notReady ip (s.store name nameSpace)).2.1 t.2.2
        simp only [getsThrough_none, and_true] at hmove
        rw [alone, EpStore.Has, hkey.1, hkey.2]
        simpa [Side.other] using hmove
      · next hkey =>
        have hother : ¬ (t.1 = name ∧ t.2.1 = nameSpace ∧ t.2.2 = ip) :=
          fun h => hkey ⟨h.1, h.2.1⟩
        simp [hother]
    rw [moveDowns, List.foldl_cons]
    change (moveDowns name nameSpace ips (s.runEp name nameSpace (moveIfIn .notReady ip))).store.Has
      .ready t ↔ _
    rw [ih, hstep, List.mem_cons]
    constructor
    · rintro ⟨⟨hready, hip⟩, hips⟩
      exact ⟨hready, fun h => h.2.2.elim (fun h' => hip ⟨h.1, h.2.1, h'⟩)
        fun h' => hips ⟨h.1, h.2.1, h'⟩⟩
    · rintro ⟨hready, hnot⟩
      exact ⟨⟨hready, fun h => hnot ⟨h.1, h.2.1, .inl h.2.2⟩⟩,
        fun h => hnot ⟨h.1, h.2.1, .inr h.2.2⟩⟩

/-- The entry that marks an address down is one that `syncLbhcWithEndpoints` acts on. -/
theorem syncTarget_of_target {name nameSpace ip svc ep : String}
    (htarget : target false (svc, ep, false) = some (name, nameSpace, ip)) :
    syncTarget name nameSpace (svc, ep, false) = some ip := by
  have hsvc := service_of_target htarget
  unfold target at htarget
  unfold syncTarget
  rw [if_pos ⟨hsvc, rfl⟩]
  split at htarget
  · simp only [if_true] at htarget
    split at htarget
    · next ip' port hsplit =>
      cases htarget
      simp [hsplit]
    · cases htarget
  · cases htarget

/-- A poll that creates the `Lbhc` object gives it the controller's label. -/
theorem labelled_poll (crd : Crd) (o : Ownership) (servers : ServersNgxList) (p : Poller)
    {server : Server Lbhc} (habsent : server.object = none) :
    ∀ new ∈ (alone (syncHealthCheck crd o servers p) server).2.object,
      (new.metadata.labels.lookup vsDomain).isSome = true := by
  intro new hnew
  unfold syncHealthCheck at hnew
  split at hnew
  · obtain ⟨lbhc, n, t, -, hbase, -, hstored, hlabels, -⟩ :=
      run_eventOpt crd o servers p (fun _ => .success) server
    have hcached : some new = some _ := hnew.symm.trans hstored
    rcases hbase with ⟨hpresent, -⟩ | ⟨-, -, hlabelled⟩
    · rw [habsent] at hpresent
      cases hpresent
    · rw [Option.some.inj hcached, hlabels, hlabelled]
      simp only [Crd.newLbhc, AList.lookup_insert, Option.isSome_some]
  · split at hnew
    · have hsame : (alone (noneEventOpt p) server).2 = server :=
        noneEventOpt_absent habsent
      rw [hsame, habsent] at hnew
      cases hnew
    · rw [alone_pure, habsent] at hnew
      cases hnew

/-! ### Operations -/

/-- The part of the invariant that does not need the first event of the queue. -/
theorem Covered.of_tail {e : EpEvent} {rest : List EpEvent} (h : s.Covered c)
    (hevents : s.epEvents = e :: rest) {t : String × String × String} (hmarked : s.MarkedDown t)
    (hready : s.store.Has .ready t) :
    s.Pending c ∨ e.Shows t ∨ ∃ e' ∈ rest, e'.Shows t := by
  rcases h.covered t hmarked hready with hpending | ⟨e', he', hshows⟩
  · exact .inl hpending
  · rw [hevents, List.mem_cons] at he'
    rcases he' with rfl | hrest
    · exact .inr (.inl hshows)
    · exact .inr (.inr ⟨e', hrest, hshows⟩)

/-- An event that shows nothing can be dropped. -/
theorem Covered.drop {e : EpEvent} {rest : List EpEvent} (h : s.Covered c)
    (hevents : s.epEvents = e :: rest) (hshows : ∀ t, ¬ e.Shows t) :
    ({ s with epEvents := rest } : Cluster).Covered c where
  passes := h.passes
  covered t hmarked hready := by
    rcases h.of_tail hevents hmarked hready with hpending | hhead | hrest
    · exact .inl hpending
    · exact absurd hhead (hshows t)
    · exact .inr hrest

/-- What `syncLbhcWithEndpoints` does to an object that can be named: it moves down
addresses, all that are marked down. -/
theorem exists_moveDowns (order : ∀ l, RangeOrder l) {name nameSpace : String}
    (hname : name ≠ "") (hspace : nameSpace ≠ "") (s : Cluster) :
    ∃ ips, s.syncLbhcWithEndpoints order name nameSpace = s.moveDowns name nameSpace ips ∧
      ∀ ip, s.MarkedDown (name, nameSpace, ip) → ip ∈ ips := by
  unfold syncLbhcWithEndpoints
  rw [if_neg (by simp [hname, hspace])]
  cases hobj : s.lbhc.object with
  | none =>
    refine ⟨[], rfl, ?_⟩
    rintro ip ⟨lbhc, hlbhc, -⟩
    rw [hobj] at hlbhc
    cases hlbhc
  | some lbhc =>
    refine ⟨_, rfl, ?_⟩
    rintro ip ⟨lbhc', hlbhc', svc, ep, hentry, htarget⟩
    rw [hobj] at hlbhc'
    cases hlbhc'
    have hmem := (order lbhc.downEpList).mem_entries.mpr hentry
    exact List.mem_filterMap.mpr ⟨_, hmem, syncTarget_of_target htarget⟩

/-- Only events about objects that can be named show something. -/
theorem covered_sync {e : EpEvent} {rest : List EpEvent} (h : s.Covered c)
    (hevents : s.epEvents = e :: rest) (order : ∀ l, RangeOrder l) :
    (({ s with epEvents := rest } : Cluster).syncLbhcWithEndpoints order e.name
      e.nameSpace).Covered c := by
  by_cases hnull : e.name = "" ∨ e.nameSpace = ""
  · rw [syncLbhcWithEndpoints, if_pos hnull]
    refine h.drop hevents fun t hshows => ?_
    exact hnull.elim hshows.2.2.1 hshows.2.2.2.1
  · obtain ⟨hname, hspace⟩ := not_or.mp hnull
    obtain ⟨ips, hsync, hips⟩ := exists_moveDowns order hname hspace { s with epEvents := rest }
    have hframe :=
      frame_foldl (fun s ip => frame_runEp s e.name e.nameSpace (moveIfIn .notReady ip))
      ips { s with epEvents := rest }
    rw [hsync]
    refine ⟨?_, fun t hmarked hready => ?_⟩
    · intro e' he'
      rw [moveDowns, hframe.lbhcEvents] at he'
      exact h.passes e' he'
    · obtain ⟨hbefore, hnot⟩ := (ready_moveDowns _ _ _ _ _).mp hready
      have hmarked' : s.MarkedDown t := by
        unfold MarkedDown at hmarked ⊢
        rwa [moveDowns, hframe.lbhc] at hmarked
      rcases h.of_tail hevents hmarked' hbefore with hpending | hhead | ⟨e', he', hshows⟩
      · refine .inl (hpending.imp (fun hlbhc => ?_) fun hrequest => ?_)
        · rwa [moveDowns, hframe.lbhcEvents]
        · rwa [moveDowns, hframe.requests]
      · -- an address that the event shows has just been moved
        obtain ⟨name, nameSpace, ip⟩ := t
        obtain ⟨rfl, rfl, -⟩ := hhead
        exact absurd ⟨rfl, rfl, hips ip hmarked'⟩ hnot
      · exact .inr ⟨e', hframe.epEvents e' he', hshows⟩

/-- Delivering an event to the predicates keeps the invariant. -/
theorem covered_handleEp {e : EpEvent} {rest : List EpEvent} (h : s.Covered c)
    (hevents : s.epEvents = e :: rest) (order : ∀ l, RangeOrder l) :
    (handleEp c order { s with epEvents := rest } e).Covered c := by
  have hother : (∀ old new, e.change ≠ .updated old new) →
      ({ s with epEvents := rest } : Cluster).Covered c := by
    refine fun hchange => h.drop hevents fun t hshows => ?_
    obtain ⟨-, -, -, -, old, new, hupdated, -⟩ := hshows
    exact hchange old new hupdated
  unfold handleEp
  cases hchange : e.change with
  | created new =>
    have hdropped := hother (by simp [hchange])
    dsimp only
    split
    · exact hdropped.request _ _
    · exact hdropped
  | deleted old =>
    have hdropped := hother (by simp [hchange])
    dsimp only
    split
    · refine Covered.request (hdropped.setLbhc fun new hnew habsent => ?_) _ _
      have habsent : s.lbhc.object = none := habsent
      rw [deleteLbhcEpElemByOne, alone_fetch_bind] at hnew
      simp [Server.get, habsent] at hnew
    · exact hdropped
  | updated old new =>
    -- what the event shows, unless the predicate returns before it looks at the marks
    have hshown : ∀ t, e.Shows t → new.managed = true ∧
        new.metadata.resourceVersion ≠ old.metadata.resourceVersion ∧
        compareEpSubsets new.subsets old.subsets = false := by
      rintro t ⟨-, -, -, -, old', new', hupdated, hmanaged, hversion, hready, hbefore⟩
      rw [hchange] at hupdated
      cases hupdated
      refine ⟨hmanaged, hversion, ?_⟩
      by_contra hsame
      exact hbefore (hasIp_of_compareEpSubsets (by simpa using hsame) hready)
    dsimp only
    rw [Ownership.answersFor_of_owns (c.owns_all _), if_pos rfl]
    split
    · split
      · exact (covered_sync h hevents order).request _ _
      · next hsame =>
        refine h.drop hevents fun t hshows => ?_
        simp [(hshown t hshows).2.2] at hsame
    · next hskip =>
      exact h.drop hevents fun t hshows => hskip ⟨(hshown t hshows).1, (hshown t hshows).2.1⟩

/-- A reconcile keeps the invariant. -/
theorem covered_reconcile (h : s.Covered c) (ups downs : ∀ l, RangeOrder l)
    (name nameSpace : String) : (s.reconcile c ups downs name nameSpace).Covered c := by
  have hsvc : ∀ {s : Cluster}, s.Covered c → (s.reconcileSvc c name nameSpace).Covered c := by
    intro s h
    unfold reconcileSvc
    split
    · exact h.runEp fun _ hready => of_hasAddr_syncSvcLabelToEp hready
    · exact h
  unfold reconcile
  apply hsvc
  by_cases hkey : (name, nameSpace) = (c.crd.crdName, c.crd.crdNamespace)
  · cases hobj : s.lbhc.object with
    | none =>
      refine ⟨h.passes, ?_⟩
      rintro t ⟨lbhc, hlbhc, -⟩
      have hlbhc : s.lbhc.object = some lbhc := hlbhc
      rw [hobj] at hlbhc
      cases hlbhc
    | some lbhc =>
      dsimp only
      rw [if_pos hkey]
      have hobj' : ({ s with requests := s.requests.filter (· ≠ (name, nameSpace)) } :
          Cluster).lbhc.object = some lbhc := hobj
      exact covered_reconcileLbhc hobj' h.passes _ _
  · -- another object's request: the node's own stays queued
    have hkept : ({ s with requests := s.requests.filter (· ≠ (name, nameSpace)) } :
        Cluster).Covered c :=
      h.of_requests fun hmem => List.mem_filter.mpr ⟨hmem, decide_eq_true (Ne.symm hkey)⟩
    cases s.lbhc.object with
    | none => exact hkept
    | some lbhc =>
      dsimp only
      rw [if_neg hkey]
      exact hkept

/-- A write of another program keeps the invariant. -/
theorem covered_write (h : s.Covered c) {key : ObjectKey} {ep : Endpoints}
    (hok : s.StepOk (.write key ep)) : (s.step c (.write key ep)).Covered c := by
  refine h.setEp (fun _ hseen => hseen.update _) fun ip hmarked hready hbefore => ?_
  have hsent : ep.Has .ready ip := by
    rcases of_hasAddr_update hready with hold | hnew
    · exact absurd hold hbefore
    · exact hnew
  obtain ⟨hexists, hmanaged⟩ := hok ip hmarked hsent hbefore
  obtain ⟨old, hold⟩ := Option.isSome_iff_exists.mp hexists
  refine ⟨key.name_ne, key.nameSpace_ne, old, hold, ?_⟩
  rcases (s.store key.name key.nameSpace).update_object (unversioned ep) with
    hsame | ⟨stored, hstored, hcontent⟩
  · rw [hsame] at hready
    exact absurd hready hbefore
  · have hlabels := congrArg Endpoints.managed hcontent
    exact ⟨stored, hstored, hlabels.trans hmanaged⟩

/-- So does an address that the controller adds. -/
theorem covered_createEp (h : s.Covered c) {key : ObjectKey} {svc : Service} {pod : PodAddress}
    (hok : s.StepOk (.createEp key svc pod)) : (s.step c (.createEp key svc pod)).Covered c := by
  refine h.setEp (fun _ hseen => seen_run .none _ hseen) fun ip hmarked hready hbefore => ?_
  rcases of_ready_createEp hready with hold | rfl
  · exact absurd hold hbefore
  · obtain ⟨old, hold, hmanaged⟩ := hok hmarked hbefore
    obtain ⟨new, hnew, hlabels⟩ := @labels_createEp svc pod _ _ hold
    refine ⟨key.name_ne, key.nameSpace_ne, old, hold, new, hnew, ?_⟩
    rw [Endpoints.managed, hlabels]
    exact hmanaged

/-- Delivering an event about the `Lbhc` object queues the request for it. -/
theorem covered_deliverLbhc (h : s.Covered c) : (s.step c .deliverLbhc).Covered c := by
  unfold step
  cases hevents : s.lbhcEvents with
  | nil => exact h
  | cons e rest =>
    have hpass : e.passes = true := h.passes e (by simp [hevents])
    simp only [hpass, if_true]
    refine ⟨fun e' he' => h.passes e' (hevents ▸ List.mem_cons_of_mem _ he'), fun t _ _ => ?_⟩
    exact .inl (.inr List.mem_insert_self)

/-- The invariant is kept by every operation that meets the condition. -/
theorem covered_step (h : s.Covered c) {op : ClusterOp} (hok : s.StepOk op) :
    (s.step c op).Covered c := by
  cases op with
  | poll servers =>
    have hset := h.setLbhc fun new hnew habsent =>
      labelled_poll c.crd c.ownership servers s.poller habsent new hnew
    exact ⟨hset.passes, hset.covered⟩
  | write key ep => exact covered_write h hok
  | remove key =>
    refine h.setEp (fun _ hseen => hseen.remove) ?_
    rintro ip - ⟨ep, hep, -⟩
    cases hep
  | createEp key svc pod => exact covered_createEp h hok
  | deleteEp key podIp => exact h.runEp fun _ hready => of_ready_deleteEp hready
  | deliverLbhc => exact covered_deliverLbhc h
  | deliverEp order =>
    unfold step
    cases hevents : s.epEvents with
    | nil => exact h
    | cons e rest => exact covered_handleEp h hevents order
  | reconcile name nameSpace ups downs =>
    unfold step
    dsimp only
    split
    · exact covered_reconcile h ups downs name nameSpace
    · exact h

/-- The invariant holds at the start when the `Lbhc` object, if there is one, is labelled. -/
theorem covered_start {lbhc : Server Lbhc} (store : EpStore) (listed : List EpEvent)
    (hlabelled : ∀ l ∈ lbhc.object, (l.metadata.labels.lookup vsDomain).isSome = true) :
    (start lbhc store listed).Covered c := by
  cases hobj : lbhc.object with
  | none =>
    refine ⟨by simp [start, hobj, lbhcChange], ?_⟩
    rintro t ⟨l, hl, -⟩
    have hl : lbhc.object = some l := hl
    rw [hobj] at hl
    cases hl
  | some l =>
    refine ⟨?_, fun t _ _ => .inl (.inl (by simp [start, hobj, lbhcChange]))⟩
    simpa [start, hobj, lbhcChange, LbhcEvent.passes] using hlabelled l hobj

/-- When nothing is pending, no address that is marked down is ready. -/
theorem downNotServed_of_covered (h : s.Covered c) (hquiet : s.Quiescent) : s.DownNotServed := by
  intro lbhc hlbhc name nameSpace ip port hname hspace hip hport hentry hready
  obtain ⟨hlbhcEvents, hepEvents, hrequests⟩ := hquiet
  have htarget : target false (virtualServiceFullValue name nameSpace,
      ip ++ String.singleton ':' ++ port, false) = some (name, nameSpace, ip) := by
    simp only [target, split_virtualServiceFullValue hname hspace, Go.split_join hip hport, if_true]
  rcases h.covered (name, nameSpace, ip) ⟨lbhc, hlbhc, _, _, hentry, htarget⟩ hready with
    (hpending | hpending) | ⟨e, he, -⟩
  · exact hpending hlbhcEvents
  · rw [hrequests] at hpending
    cases hpending
  · rw [hepEvents] at he
    cases he

/-- In every run in which addresses that are marked down become ready only on labelled
objects that exist already, no such address is served when nothing is pending. -/
theorem down_not_served_at_quiescence (c : Controller) (lbhc : Server Lbhc) (store : EpStore)
    (listed : List EpEvent) (ops : List ClusterOp)
    (hlabelled : ∀ l ∈ lbhc.object, (l.metadata.labels.lookup vsDomain).isSome = true)
    (hok : Runs.Along (step c) StepOk (start lbhc store listed) ops) :
    Runs.Throughout (step c) (fun s => s.Quiescent → s.DownNotServed)
      (start lbhc store listed) ops :=
  Runs.throughout_of_along (fun _ _ h hop => covered_step h hop)
    (fun _ h hquiet => downNotServed_of_covered h hquiet) (covered_start store listed hlabelled) hok

/-- The elected leader of a cluster without load balancer services. -/
def leader : Controller where
  crd := ⟨"node1", "default"⟩
  ownership := { isLeader := true }
  owns_all := by simp [Ownership.owns]
  services _ _ := none

/-- The object of a service with one ready address. -/
def served : Endpoints where
  metadata :=
    { name := "web"
      nameSpace := "default"
      labels := (∅ : Go.Map String String).insert vsDomain vsDomainName }
  subsets := [{ addresses := [{ ip := "10.0.0.1" }] }]

/-- nginx reports the peer with this address. -/
def reported : ServersNgxList where
  total := 1
  http := [⟨"web_default", "10.0.0.1:80", 0⟩]
  stream := []

/-- The key of the object. -/
def servedKey : ObjectKey := ⟨"web", "default", by decide, by decide⟩

/-- Another program makes the address ready again; the Update predicate moves it back. -/
theorem down_not_served_rewritten :
    Runs.Throughout (step leader) (fun s => s.Quiescent → s.DownNotServed)
      (start .absent (fun _ _ => .holding 1 served) [])
      [.poll reported, .deliverLbhc, .reconcile "node1" "default" .listed .listed,
        .write servedKey served, .deliverEp .listed, .deliverEp .listed,
        .reconcile "web" "default" .listed .listed, .deliverEp .listed] := by
  refine down_not_served_at_quiescence leader .absent _ [] _ (by rintro l ⟨⟩) ?_
  refine ⟨trivial, trivial, trivial, fun ip _ _ _ => ⟨?_, ?_⟩, trivial, trivial, trivial, trivial,
    trivial⟩
  · decide +kernel
  · decide +kernel

/-- The object is deleted and, after a poll in which nginx still reports the peer, created
again: everything is handled, and the address that is marked down is ready. -/
theorem down_served_after_create :
    ¬ Runs.Throughout (step leader) (fun s => s.Quiescent → s.DownNotServed)
      (start .absent (fun _ _ => .holding 1 served) [])
      [.remove servedKey, .deliverEp .listed, .reconcile "web" "default" .listed .listed,
        .poll reported, .deliverLbhc, .reconcile "node1" "default" .listed .listed,
        .write servedKey served, .deliverEp .listed,
        .reconcile "web" "default" .listed .listed] := by
  rintro ⟨-, -, -, -, -, -, -, -, -, hserved⟩
  refine hserved ⟨by decide +kernel, by decide +kernel, by decide +kernel⟩ _
    (Option.get_mem (by decide +kernel)) "web" "default" "10.0.0.1" "80" (by decide) (by decide)
    (by decide) (by decide) (by decide +kernel) (by decide +kernel)

end Cluster

end HealthCheck
