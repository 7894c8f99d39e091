import HealthCheck.Poll
import Mathlib.Data.List.Induction

/-!
# Checked peers

nginx keeps two counters and a flag for every peer it checks. `statusUpdate` is the rule
by which a probe changes them, the same in the http and in the stream module. The flag
follows the probes with the configured hysteresis: it changes only at the end of a row
of equal outcomes that is as long as the threshold.
-/

namespace HealthCheck.Nginx

/-- The shared memory of a peer. -/
structure PeerShm where
  riseCount : ℕ := 0
  fallCount : ℕ := 0
  down : Bool := false
  deriving DecidableEq, Repr

/-- A checked peer with the thresholds of its `check` directive. -/
structure Peer where
  upstreamName : String
  name : String
  rise : ℕ
  fall : ℕ
  shm : PeerShm := {}
  deriving DecidableEq, Repr

/-- `ngx_http_upstream_check_status_update` and `ngx_stream_upstream_check_status_update`. -/
def Peer.statusUpdate (result : Bool) (peer : Peer) : Peer :=
  if result then
    let riseCount := peer.shm.riseCount + 1
    { peer with shm :=
        { riseCount := riseCount
          fallCount := 0
          down := if peer.shm.down && peer.rise ≤ riseCount then false else peer.shm.down } }
  else
    let fallCount := peer.shm.fallCount + 1
    { peer with shm :=
        { riseCount := 0
          fallCount := fallCount
          down := if !peer.shm.down && peer.fall ≤ fallCount then true else peer.shm.down } }

/-- The peer after a row of probes. -/
def Peer.after (peer : Peer) (results : List Bool) : Peer :=
  results.foldl (fun p result => p.statusUpdate result) peer

@[simp] theorem Peer.after_nil (peer : Peer) : peer.after [] = peer := rfl

theorem Peer.after_append (peer : Peer) (first second : List Bool) :
    peer.after (first ++ second) = (peer.after first).after second := List.foldl_append

@[simp] theorem Peer.after_concat (peer : Peer) (results : List Bool) (result : Bool) :
    peer.after (results ++ [result]) = (peer.after results).statusUpdate result := by
  rw [Peer.after_append]
  rfl

/-- Probes change nothing but the shared memory. -/
theorem Peer.after_config (peer : Peer) (results : List Bool) :
    (peer.after results).upstreamName = peer.upstreamName ∧
      (peer.after results).name = peer.name ∧
      (peer.after results).rise = peer.rise ∧ (peer.after results).fall = peer.fall := by
  induction results using List.reverseRecOn with
  | nil => simp
  | append_singleton results result ih =>
    rw [Peer.after_concat, Peer.statusUpdate]
    split <;> exact ih

/-- Of a peer whose counters started at zero, the counters are lengths of rows of equal
outcomes at the end of its history. -/
theorem Peer.counts_suffix {peer : Peer} (hrise : peer.shm.riseCount = 0)
    (hfall : peer.shm.fallCount = 0) (results : List Bool) :
    List.replicate (peer.after results).shm.riseCount true <:+ results ∧
      List.replicate (peer.after results).shm.fallCount false <:+ results := by
  induction results using List.reverseRecOn with
  | nil => simp [hrise, hfall]
  | append_singleton results result ih =>
    rw [Peer.after_concat, Peer.statusUpdate]
    cases result with
    | true =>
      refine ⟨?_, by simp⟩
      obtain ⟨front, hfront⟩ := ih.1
      exact ⟨front, by simp [List.replicate_succ', ← List.append_assoc, hfront]⟩
    | false =>
      refine ⟨by simp, ?_⟩
      obtain ⟨front, hfront⟩ := ih.2
      exact ⟨front, by simp [List.replicate_succ', ← List.append_assoc, hfront]⟩

/-- A shorter row of equal outcomes ends where a longer one ends. -/
theorem replicate_suffix_of_le {n m : ℕ} {result : Bool} {results : List Bool} (hle : n ≤ m)
    (hsuffix : List.replicate m result <:+ results) : List.replicate n result <:+ results := by
  refine List.IsSuffix.trans ⟨List.replicate (m - n) result, ?_⟩ hsuffix
  rw [List.replicate_append_replicate, Nat.sub_add_cancel hle]

/-- The threshold for leaving the given state of the flag. -/
def Peer.threshold (peer : Peer) (down : Bool) : ℕ := if down then peer.rise else peer.fall

/-- Hysteresis: when the flag differs before and after some further probes, a row of equal
outcomes as long as the threshold ends among them, successes if the flag was set and
failures if it was not. -/
theorem Peer.row_of_down_ne {peer : Peer} (hrise : peer.shm.riseCount = 0)
    (hfall : peer.shm.fallCount = 0) {first second : List Bool} {down : Bool}
    (hfirst : (peer.after first).shm.down = down)
    (hsecond : (peer.after (first ++ second)).shm.down ≠ down) :
    ∃ results, results ≠ [] ∧ results <+: second ∧
      List.replicate (peer.threshold down) down <:+ first ++ results := by
  induction second using List.reverseRecOn with
  | nil => simp [hfirst] at hsecond
  | append_singleton second result ih =>
    by_cases hbefore : (peer.after (first ++ second)).shm.down = down
    · -- the flag changes with this very probe
      refine ⟨second ++ [result], by simp, List.prefix_refl _, ?_⟩
      obtain ⟨-, -, hriseConf, hfallConf⟩ := peer.after_config (first ++ second)
      have hcounts := Peer.counts_suffix hrise hfall (first ++ (second ++ [result]))
      rw [← List.append_assoc, Peer.after_concat] at hsecond hcounts
      rw [← List.append_assoc]
      unfold Peer.statusUpdate at hsecond hcounts
      cases result with
      | true =>
        cases down with
        | true =>
          refine replicate_suffix_of_le ?_ hcounts.1
          simpa [hbefore, Peer.threshold, hriseConf] using hsecond
        | false => simp [hbefore] at hsecond
      | false =>
        cases down with
        | true => simp [hbefore] at hsecond
        | false =>
          refine replicate_suffix_of_le ?_ hcounts.2
          simpa [hbefore, Peer.threshold, hfallConf] using hsecond
    · obtain ⟨results, hne, hinitial, hrow⟩ := ih hbefore
      exact ⟨results, hne, hinitial.trans (List.prefix_append _ _), hrow⟩

/-- The two modules, each with peers of its own. -/
inductive Zone where
  | http
  | stream
  deriving DecidableEq, Repr

/-- The peers that nginx checks. -/
structure Peers where
  zone : Zone → List Peer

namespace Peers

/-- A probe of one peer comes back. -/
def probe (peers : Peers) (zone : Zone) (index : ℕ) (result : Bool) : Peers where
  zone z :=
    if z = zone then (peers.zone z).modify index (Peer.statusUpdate result) else peers.zone z

/-- The listing of one module, restricted to the peers that are down. -/
def downs (peers : Peers) (z : Zone) : List HcNgxDetail :=
  ((peers.zone z).filter fun peer => peer.shm.down).map fun peer =>
    { upstream := peer.upstreamName, name := peer.name, rise := peer.shm.riseCount }

/-- `ngx_upstream_check_status_json_format` for the query `status=down`. -/
def listing (peers : Peers) : ServersNgxList where
  total := (peers.downs .stream).length + (peers.downs .http).length
  http := peers.downs .http
  stream := peers.downs .stream

/-- The peer at a place. -/
def at? (peers : Peers) (zone : Zone) (index : ℕ) : Option Peer := (peers.zone zone)[index]?

theorem at?_probe (peers : Peers) (zone zone' : Zone) (index index' : ℕ) (result : Bool) :
    (peers.probe zone index result).at? zone' index' =
      if zone' = zone ∧ index' = index then
        (peers.at? zone' index').map (Peer.statusUpdate result)
      else peers.at? zone' index' := by
  unfold probe at?
  by_cases hzone : zone' = zone
  · by_cases hindex : index' = index
    · simp [hzone, hindex]
    · have hne : index ≠ index' := fun h => hindex h.symm
      simp [hzone, hindex, hne]
  · simp [hzone]

/-- What is listed are the peers that are down. -/
theorem mem_listing {peers : Peers} {d : HcNgxDetail} :
    d ∈ peers.listing.http ++ peers.listing.stream ↔
      ∃ zone index peer, peers.at? zone index = some peer ∧ peer.shm.down = true ∧
        d = { upstream := peer.upstreamName, name := peer.name, rise := peer.shm.riseCount } := by
  have hzone : ∀ z, d ∈ peers.downs z ↔ ∃ index peer, peers.at? z index = some peer ∧
      peer.shm.down = true ∧
        d = { upstream := peer.upstreamName, name := peer.name, rise := peer.shm.riseCount } := by
    intro z
    simp only [downs, List.mem_map, List.mem_filter, at?]
    constructor
    · rintro ⟨peer, ⟨hmem, hdown⟩, rfl⟩
      obtain ⟨index, hpeer⟩ := List.mem_iff_getElem?.mp hmem
      exact ⟨index, peer, hpeer, hdown, rfl⟩
    · rintro ⟨index, peer, hpeer, hdown, rfl⟩
      exact ⟨peer, ⟨List.mem_iff_getElem?.mpr ⟨index, hpeer⟩, hdown⟩, rfl⟩
  rw [List.mem_append]
  change d ∈ peers.downs .http ∨ d ∈ peers.downs .stream ↔ _
  rw [hzone, hzone]
  constructor
  · rintro (h | h)
    · exact ⟨.http, h⟩
    · exact ⟨.stream, h⟩
  · rintro ⟨z, h⟩
    cases z with
    | http => exact .inl h
    | stream => exact .inr h

/-- The total is zero exactly when nothing is listed. -/
theorem total_eq_zero_iff (peers : Peers) :
    peers.listing.total = 0 ↔ peers.listing.http ++ peers.listing.stream = [] := by
  rw [List.append_eq_nil_iff, ← List.length_eq_zero_iff, ← List.length_eq_zero_iff]
  simp only [listing]
  omega

theorem total_nonneg (peers : Peers) : 0 ≤ peers.listing.total := by
  simp only [listing]
  omega

end Peers

end HealthCheck.Nginx
