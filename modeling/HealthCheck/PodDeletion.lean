import HealthCheck.Api.Tracks
import HealthCheck.Endpoints.Deletion
import HealthCheck.Reconcile
import HealthCheck.Runs
import Mathlib.Logic.Function.Basic

/-!
# The address of a deleted pod

The reconcile worker fetches a pod and then makes sure that its address is in the
`Endpoints` object of its service. When the pod is deleted, the informer calls `deleteEp`
once and logs its error. The two run concurrently, together with the moves of a reconcile
of the `Lbhc` object. The address is gone for good when from the read of the handler on the
worker's updates come too late, and the moves' updates do until the handler has finished.
-/

namespace HealthCheck

open Api Api.Client

/-- The pod and the namespace of its service. -/
structure PodSite where
  nameSpace : String
  pod : PodAddress

/-- A call that edits the `Endpoints` object: a reconcile of the pod, with the service that it
fetches if there is one, or a move. -/
inductive PodCall where
  | reconcile (svc : Option Service)
  | move (dst : Side) (epIp : String)

/-- How far a call is: a reconcile waits to fetch the pod, or it goes on as the worker's
program; a move is a program from the beginning. -/
inductive PodThread where
  | waiting (svc : Option Service)
  | worker (rest : Client Endpoints Bool)
  | mover (rest : Client Endpoints Bool)

namespace PodThread

/-- What the call has left to do with the object. -/
def rest : PodThread → Client Endpoints Bool
  | .waiting _ => .done true
  | .worker rest => rest
  | .mover rest => rest

/-- The call is a move. -/
def isMover : PodThread → Bool
  | .mover _ => true
  | _ => false

end PodThread

/-- The pod, the object, the calls and the handler of the pod's deletion. -/
structure PodRace (ι : Type) where
  alive : Bool
  server : Server Endpoints
  threads : ι → PodThread
  handler : Client Endpoints Bool

/-- The pod is deleted, the handler makes a request, or a call goes on. -/
inductive PodOp (ι : Type) where
  | deletePod
  | handler
  | thread (i : ι)

namespace PodRace

variable {ι : Type} [DecidableEq ι]

/-- A call makes its next request. -/
def goOn (s : PodRace ι) (i : ι) (stage : Client Endpoints Bool → PodThread)
    (p : Client Endpoints Bool) : PodRace ι :=
  { s with
    threads := Function.update s.threads i (stage (p.stepOn s.server).1)
    server := (p.stepOn s.server).2 }

/-- One operation. The handler waits for the deletion; a reconcile that does not find the pod
does nothing. -/
def step (site : PodSite) (s : PodRace ι) : PodOp ι → PodRace ι
  | .deletePod => { s with alive := false }
  | .handler =>
    if s.alive then s
    else
      let r := s.handler.stepOn s.server
      { s with handler := r.1, server := r.2 }
  | .thread i =>
    match s.threads i with
    | .waiting svc =>
      let rest := if s.alive then updateEpInfo site.nameSpace svc site.pod else .done true
      { s with threads := Function.update s.threads i (.worker rest) }
    | .worker p => s.goOn i .worker p
    | .mover p => s.goOn i .mover p

omit [DecidableEq ι] in
/-- The pod exists and no call has begun. -/
def start (site : PodSite) (calls : ι → PodCall) (server : Server Endpoints) : PodRace ι where
  alive := true
  server := server
  threads i :=
    match calls i with
    | .reconcile svc => .waiting svc
    | .move dst epIp => .mover (moveIfIn dst epIp)
  handler := deleteEp site.pod.podIp

omit [DecidableEq ι] in
/-- The deletion is handled and no call is in flight. -/
def Settled (s : PodRace ι) : Prop := s.handler.idle = true ∧ ∀ i, (s.threads i).rest.idle = true

omit [DecidableEq ι] in
/-- Once everything is settled, the address of the pod is on neither side. -/
def AddressGone (site : PodSite) (s : PodRace ι) : Prop :=
  s.Settled → ∀ side, ¬ HasAddr s.server side site.pod.podIp

omit [DecidableEq ι] in
/-- The handler reads an object that has the IP in at most one list and no vacant subset.
After that the updates of reconciles are stale, and so are those of moves until the handler
has finished. -/
def StepOk (site : PodSite) (s : PodRace ι) : PodOp ι → Prop
  | .deletePod => True
  | .handler => s.alive = false → s.handler.reading = true →
      ∀ ep ∈ s.server.object, Removable site.pod.podIp ep
  | .thread i => s.handler.reading = false → ∀ sent ∈ (s.threads i).rest.sends,
      Stale s.server sent ∨ ((s.threads i).isMover = true ∧ s.handler.idle = true)

instance (site : PodSite) (s : PodRace ι) : ∀ op, Decidable (s.StepOk site op)
  | .deletePod => .isTrue trivial
  | .handler => inferInstanceAs (Decidable (_ → _ → ∀ ep ∈ s.server.object, _))
  | .thread i => inferInstanceAs (Decidable (_ → ∀ sent ∈ (s.threads i).rest.sends, _))

end PodRace

/-- The edit of a move adds no IP. -/
def NoNewIp (ep sent : Endpoints) : Prop :=
  ∀ ip, (∃ side, sent.Has side ip) → ∃ side, ep.Has side ip

theorem noNewIp_moveTo (dst : Side) (epIp : String) (ep : Endpoints) :
    NoNewIp ep (ep.moveTo dst epIp) := by
  rintro ip ⟨side, hip⟩
  by_cases hside : side = dst
  · subst hside
    rcases (Endpoints.has_dst_moveTo side epIp ep ip).mp hip with hold | ⟨-, hmoved⟩
    · exact ⟨side, hold⟩
    · exact ⟨side.other, hmoved⟩
  · have hother : side = dst.other := by
      cases side <;> cases dst <;> first | rfl | exact absurd rfl hside
    rw [hother] at hip
    exact ⟨dst.other, ((Endpoints.has_source_moveTo dst epIp ep ip).mp hip).1⟩

/-- A move sends what it has read with an address moved. -/
theorem tracks_moveIfIn (dst : Side) (epIp : String) (o : Option Endpoints) :
    Tracks NoNewIp (moveIfIn dst epIp) o := by
  have hmodify : ∀ o, Tracks NoNewIp (modifyEp dst epIp) o := by
    intro o a
    cases a with
    | notFound => trivial
    | failed => trivial
    | found ep =>
      dsimp only [Client.bind]
      split
      · exact (tracks_retryUpdate (noNewIp_moveTo dst epIp ep) rfl 5).bind fun _ _ => trivial
      · trivial
  have htest : Tracks NoNewIp (epIn dst.other epIp) o := by
    intro a
    cases a <;> trivial
  rw [moveIfIn_eq]
  refine htest.bind fun isIn o => ?_
  cases isIn with
  | true => exact hmodify o
  | false => trivial

namespace PodRace

variable {ι : Type} [DecidableEq ι] {site : PodSite} {s : PodRace ι}

omit [DecidableEq ι] in
/-- Where the handler can be: before its read, before its update with the object still as it
was read, or finished with the address gone. -/
inductive HandlerInv (site : PodSite) (s : PodRace ι) : Prop
  | before (hhandler : s.handler = deleteEp site.pod.podIp)
  | sending {ep sent : Endpoints} (hhandler : s.handler = send sent)
      (hobj : s.server.object = some ep)
      (hversion : sent.metadata.resourceVersion = ep.metadata.resourceVersion)
      (hgone : ∀ side, ¬ sent.Has side site.pod.podIp)
  | after (hhandler : s.handler.idle = true)
      (hgone : ∀ side, ¬ HasAddr s.server side site.pod.podIp)

omit [DecidableEq ι] in
/-- The invariant. -/
structure Inv (site : PodSite) (s : PodRace ι) : Prop where
  movers : ∀ i p, s.threads i = .mover p → Tracking NoNewIp p s.server
  handler : HandlerInv site s

omit [DecidableEq ι] in
/-- The read of the handler. -/
theorem handlerInv_fetch (hhandler : s.handler = deleteEp site.pod.podIp)
    (hremovable : ∀ ep ∈ s.server.object, Removable site.pod.podIp ep) :
    HandlerInv site { s with
      handler := (s.handler.stepOn s.server).1, server := (s.handler.stepOn s.server).2 } := by
  rw [hhandler]
  unfold deleteEp
  dsimp only [Bind.bind, Client.bind, fetch, Client.stepOn]
  cases hobj : s.server.object with
  | none =>
    refine .after ?_ ?_
    · simp only [Server.get, hobj]
      rfl
    · rintro side ⟨ep, hep, -⟩
      have hep : s.server.object = some ep := hep
      rw [hobj] at hep
      cases hep
  | some ep =>
    obtain ⟨subs, hdrop, hgone, hnotFound⟩ := deleteEp_removable (hremovable ep hobj)
    simp only [Server.get, hobj, hdrop]
    cases hfound : (deleteAddresses site.pod.podIp [] [] false ep.subsets).2 with
    | true =>
      have hsend : (if true = true then send { ep with subsets := subs } else pure true) =
          send ({ ep with subsets := subs } : Endpoints) := if_pos rfl
      exact .sending hsend hobj rfl hgone
    | false =>
      refine .after (by rw [if_neg (by simp)]; rfl) fun side hip => ?_
      exact hnotFound hfound side ((hasAddr_of_object hobj _ _).mp hip)

omit [DecidableEq ι] in
/-- The update of the handler is accepted. -/
theorem handlerInv_send {ep sent : Endpoints} (hhandler : s.handler = send sent)
    (hobj : s.server.object = some ep)
    (hversion : sent.metadata.resourceVersion = ep.metadata.resourceVersion)
    (hgone : ∀ side, ¬ sent.Has side site.pod.podIp) :
    HandlerInv site { s with
      handler := (s.handler.stepOn s.server).1, server := (s.handler.stepOn s.server).2 } := by
  obtain ⟨stored, t, hupdate, hstored, hcontent⟩ := Server.update_of_version hobj hversion
  have hstep : s.handler.stepOn s.server = (.done true, t) := by
    rw [hhandler]
    change (Client.done (s.server.update sent).1.ok, (s.server.update sent).2) = _
    rw [hupdate]
    rfl
  rw [hstep]
  refine .after rfl fun side hip => ?_
  rw [hasAddr_of_object hstored, Endpoints.has_iff_of_stamp_eq hcontent] at hip
  exact hgone side hip

omit [DecidableEq ι] in
/-- The handler's part of the invariant depends on the object only. -/
theorem HandlerInv.of_object (h : HandlerInv site s) {t : PodRace ι}
    (hhandler : t.handler = s.handler) (hserver : t.server = s.server) : HandlerInv site t := by
  cases h with
  | before hbefore => exact .before (hhandler.trans hbefore)
  | sending hsend hobj hversion hgone =>
    exact .sending (hhandler.trans hsend) (hserver ▸ hobj) hversion hgone
  | after hidle hgone => exact .after (hhandler ▸ hidle) (hserver ▸ hgone)

/-- A request of a call keeps the moves tracking. -/
theorem movers_goOn (h : s.Inv site) (i : ι) {stage : Client Endpoints Bool → PodThread}
    {p : Client Endpoints Bool}
    (hself : ∀ q, stage (p.stepOn s.server).1 = .mover q →
      Tracking NoNewIp q (p.stepOn s.server).2) :
    ∀ j q, (s.goOn i stage p).threads j = .mover q →
      Tracking NoNewIp q (s.goOn i stage p).server := by
  intro j q hq
  by_cases hj : j = i
  · subst hj
    simp only [goOn, Function.update_self] at hq
    exact hself q hq
  · simp only [goOn, Function.update_of_ne hj] at hq
    exact (h.movers j q hq).mono (stepOn_object_ne_none p) (seen_stepOn p)

/-- A request of a call keeps the handler's part when, after the handler's read, it changes
nothing or comes after the end of the handler and does not bring the address back. -/
theorem handlerInv_goOn (h : HandlerInv site s) {i : ι} {stage : Client Endpoints Bool → PodThread}
    {p : Client Endpoints Bool}
    (hstep : s.handler.reading = false → (p.stepOn s.server).2 = s.server ∨
      (s.handler.idle = true ∧ ∀ side, ¬ HasAddr (p.stepOn s.server).2 side site.pod.podIp)) :
    HandlerInv site (s.goOn i stage p) := by
  by_cases hreading : s.handler.reading = true
  · cases h with
    | before hhandler => exact .before hhandler
    | sending hhandler _ _ _ =>
      rw [hhandler] at hreading
      cases hreading
    | after hhandler _ =>
      cases hp : s.handler with
      | get next =>
        rw [hp] at hhandler
        cases hhandler
      | done _ => rw [hp] at hreading; cases hreading
      | create _ _ => rw [hp] at hreading; cases hreading
      | update _ _ => rw [hp] at hreading; cases hreading
  · rcases hstep (by simpa using hreading) with hsame | ⟨hidle, hgone⟩
    · exact h.of_object rfl hsame
    · exact .after hidle hgone

/-- A request of a worker. -/
theorem inv_worker (h : s.Inv site) {i : ι} {p : Client Endpoints Bool}
    (hthread : s.threads i = .worker p) (hok : s.StepOk site (.thread i)) :
    Inv site (s.goOn i .worker p) := by
  refine ⟨movers_goOn h i nofun, handlerInv_goOn h.handler fun hreading => .inl ?_⟩
  refine stepOn_of_stale fun sent hsent => ?_
  have hsent' : sent ∈ (s.threads i).rest.sends := by rwa [hthread]
  rcases hok hreading sent hsent' with hstale | ⟨hmover, -⟩
  · exact hstale
  · rw [hthread] at hmover
    cases hmover

/-- A request of a move. -/
theorem inv_mover (h : s.Inv site) {i : ι} {p : Client Endpoints Bool}
    (hthread : s.threads i = .mover p) (hok : s.StepOk site (.thread i)) :
    Inv site (s.goOn i .mover p) := by
  obtain ⟨htracking, heffect⟩ := (h.movers i p hthread).stepOn
  refine ⟨movers_goOn h i ?_, handlerInv_goOn h.handler fun hreading => ?_⟩
  · rintro q ⟨rfl⟩
    exact htracking
  · rcases heffect with hsame | ⟨ep, sent, stored, hobj, hedit, hstored, hcontent⟩
    · exact .inl hsame
    · by_cases hidle : s.handler.idle = true
      · -- the handler has finished, so the object read is without the address
        refine .inr ⟨hidle, fun side hip => ?_⟩
        rw [hasAddr_of_object hstored, Endpoints.has_iff_of_stamp_eq hcontent] at hip
        obtain ⟨side', hep⟩ := hedit _ ⟨side, hip⟩
        cases h.handler with
        | before hhandler =>
          rw [hhandler] at hidle
          cases hidle
        | sending hhandler _ _ _ =>
          rw [hhandler] at hidle
          cases hidle
        | after _ hgone => exact hgone side' ((hasAddr_of_object hobj _ _).mpr hep)
      · refine .inl (stepOn_of_stale fun sent hsent => ?_)
        have hsent' : sent ∈ (s.threads i).rest.sends := by rwa [hthread]
        exact (hok hreading sent hsent').resolve_right fun hboth => hidle hboth.2

/-- Every operation that meets the condition keeps the invariant. -/
theorem inv_step (h : s.Inv site) {op : PodOp ι} (hok : s.StepOk site op) :
    (s.step site op).Inv site := by
  cases op with
  | deletePod => exact ⟨h.movers, h.handler.of_object rfl rfl⟩
  | handler =>
    by_cases halive : s.alive = true
    · rw [step, if_pos halive]
      exact h
    · rw [step, if_neg halive]
      refine ⟨fun i p hp => ?_, ?_⟩
      · exact (h.movers i p hp).mono (stepOn_object_ne_none s.handler) (seen_stepOn s.handler)
      · cases h.handler with
        | before hhandler =>
          refine handlerInv_fetch hhandler (hok (by simpa using halive) ?_)
          rw [hhandler]
          rfl
        | sending hhandler hobj hversion hgone =>
          exact handlerInv_send hhandler hobj hversion hgone
        | after hhandler hgone =>
          cases hp : s.handler with
          | done ok => exact .after rfl hgone
          | get next => rw [hp] at hhandler; cases hhandler
          | create _ _ => rw [hp] at hhandler; cases hhandler
          | update _ _ => rw [hp] at hhandler; cases hhandler
  | thread i =>
    dsimp only [step]
    cases hthread : s.threads i with
    | waiting svc =>
      refine ⟨fun j q hq => ?_, h.handler.of_object rfl rfl⟩
      by_cases hj : j = i
      · subst hj
        simp at hq
      · simp only [Function.update_of_ne hj] at hq
        exact h.movers j q hq
    | worker p => exact inv_worker h hthread hok
    | mover p => exact inv_mover h hthread hok

omit [DecidableEq ι] in
theorem inv_start (site : PodSite) (calls : ι → PodCall) (server : Server Endpoints) :
    (start site calls server).Inv site := by
  refine ⟨fun i p hp => ?_, .before rfl⟩
  cases hcall : calls i with
  | reconcile svc => simp [start, hcall] at hp
  | move dst epIp =>
    simp only [start, hcall, PodThread.mover.injEq] at hp
    subst hp
    exact ⟨none, tracks_moveIfIn dst epIp none, fun h => absurd rfl h, nofun⟩

omit [DecidableEq ι] in
theorem addressGone_of_inv (h : s.Inv site) : s.AddressGone site := by
  rintro ⟨hidle, -⟩
  cases h.handler with
  | before hhandler =>
    rw [hhandler] at hidle
    cases hidle
  | sending hhandler _ _ _ =>
    rw [hhandler] at hidle
    cases hidle
  | after _ hgone => exact hgone

/-- In every run in which the handler finds the address in one list, the updates of reconciles
are stale once the handler has read, and those of moves are stale until it has finished, the
address is gone whenever the deletion is handled and all calls have finished. -/
theorem deleted_address_gone (site : PodSite) (calls : ι → PodCall) (server : Server Endpoints)
    (ops : List (PodOp ι))
    (hok : Runs.Along (step site) (StepOk site) (start site calls server) ops) :
    Runs.Throughout (step site) (AddressGone site) (start site calls server) ops :=
  Runs.throughout_of_along (fun _ _ h hop => inv_step h hop) (fun _ h => addressGone_of_inv h)
    (inv_start site calls server) hok

/-- A pod of a service. -/
def webPod : PodSite := ⟨"default", ⟨"web-1", "10.0.0.1", "node1"⟩⟩

/-- The object of the service, with the addresses of this pod and of another one. -/
def webEndpoints : Server Endpoints :=
  .holding 1
    { metadata := { name := "web", nameSpace := "default" }
      subsets := [{ addresses := [{ ip := "10.0.0.1" }, { ip := "10.0.0.2" }] }] }

/-- A reconcile of the pod, or a move of its address. -/
def webCalls (move : Bool) : PodCall :=
  if move then .move .notReady "10.0.0.1"
  else .reconcile (some { metadata := { name := "web", nameSpace := "default" } })

/-- The move has read the object before the handler deletes the address; its updates come too
late. -/
theorem deleted_address_gone_web :
    Runs.Throughout (step webPod) (AddressGone webPod) (start webPod webCalls webEndpoints)
      [.thread false, .thread false, .thread false, .thread false, .thread true, .thread true,
        .deletePod, .handler, .handler, .thread true, .thread true, .thread true, .thread true,
        .thread true] :=
  deleted_address_gone webPod webCalls webEndpoints _ (by decide +kernel)

/-- The worker has fetched the pod before it was deleted, and reads the object after the
handler has deleted the address: it adds the address again. -/
theorem deleted_address_returns :
    ¬ Runs.Throughout (step webPod) (AddressGone webPod)
      (start webPod (fun _ : Unit => webCalls false) webEndpoints)
      [.thread (), .deletePod, .handler, .handler, .thread (), .thread (), .thread (),
        .thread ()] := by
  rintro ⟨-, -, -, -, -, -, -, -, hgone⟩
  refine hgone ⟨by decide +kernel, fun i => ?_⟩ .ready (by decide +kernel)
  cases i
  decide +kernel

end PodRace

end HealthCheck
