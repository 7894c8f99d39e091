import HealthCheck.Go.Numerals
import HealthCheck.Nginx.StatusJson

/-!
# The listing on the way to the controller

`SyncHealthCheck` decodes the body of the answer into a `ReqNgxDownList`. When that fails, the poll
is over. It does not fail while nothing changes in nginx, and then the poll is the one on the peers
that are down.
-/

namespace HealthCheck

open Api Go Nginx

/-! ### Unmarshal -/

/-- An `int` field: a literal that `strconv` takes for one; nothing is stored for `null`, or if
there is no such member. -/
def decodeInt : Option Json.Value → Option ℤ
  | none | some .null => some 0
  | some (.num literal) =>
    if (atoi (String.ofList literal)).2 then some (atoi (String.ofList literal)).1 else none
  | some _ => none

/-- A `string` field. An escape stays as it is written, where Go replaces it: a plain text has
none. -/
def decodeString : Option Json.Value → Option String
  | none | some .null => some ""
  | some (.str literal) => some (String.ofList literal)
  | some _ => none

/-- The members of a `struct`. -/
def decodeStruct : Option Json.Value → Option (List (List Char × Json.Value))
  | none | some .null => some []
  | some (.obj members) => some members
  | some _ => none

/-- The elements of a slice. -/
def decodeSlice : Option Json.Value → Option (List Json.Value)
  | none | some .null => some []
  | some (.arr elems) => some elems
  | some _ => none

/-- The member with a name; the last one counts. Go also takes a name in another case, and it
decodes two objects or lists of one name into the same place: nginx writes the names as they are in
the tags of the fields, and every name once. -/
def member (name : String) (members : List (List Char × Json.Value)) : Option Json.Value :=
  (members.reverse.find? fun m => m.1 = name.toList).map Prod.snd

/-- `HcNgxDetail`. -/
def decodeDetail (v : Json.Value) : Option HcNgxDetail := do
  let members ← decodeStruct (some v)
  let _index ← decodeInt (member "index" members)
  let upstream ← decodeString (member "upstream" members)
  let name ← decodeString (member "name" members)
  let _status ← decodeString (member "status" members)
  let rise ← decodeInt (member "rise" members)
  let _fall ← decodeInt (member "fall" members)
  let _type ← decodeString (member "type" members)
  let _port ← decodeInt (member "port" members)
  pure { upstream, name, rise }

/-- `ServersNgxList`. -/
def decodeServers (v : Option Json.Value) : Option ServersNgxList := do
  let members ← decodeStruct v
  let total ← decodeInt (member "total" members)
  let _generation ← decodeInt (member "generation" members)
  let http ← (← decodeSlice (member "http" members)).mapM decodeDetail
  let stream ← (← decodeSlice (member "stream" members)).mapM decodeDetail
  pure { total, http, stream }

/-- `json.Unmarshal` into a `ReqNgxDownList`, for names and texts as nginx writes them; nothing if
there is an error. -/
def unmarshal (body : List Char) : Option ServersNgxList := do
  let v ← Json.parse body
  decodeServers (member "servers" (← decodeStruct (some v)))

/-- `SyncHealthCheck`, once nginx has answered. -/
def syncBody (crd : Crd) (o : Ownership) (body : List Char) (p : Poller) : Api.Client Lbhc Poller :=
  match unmarshal body with
  | some servers => syncHealthCheck crd o servers p
  | none => pure p

/-! ### What nginx has written is decoded -/

theorem decodeInt_ui {n : ℕ} (h : n ≤ maxInt) : decodeInt (some (.num (ui n))) = some (n : ℤ) := by
  have hdigits : IsDigits (ui n) :=
    ⟨Nat.toDigits_ne_nil, fun c hc => Nat.isDigit_of_mem_toDigits (by decide) (by decide) hc⟩
  have hvalue : Nat.ofDigitChars 10 (ui n) 0 = n :=
    Nat.ofDigitChars_toDigits (by decide) (by decide)
  have hnumeral : Numeral (String.ofList (ui n)).toList n := by
    rw [String.toList_ofList]
    have hunsigned := Numeral.unsigned hdigits
    rwa [hvalue] at hunsigned
  have hatoi : atoi (String.ofList (ui n)) = ((n : ℤ), true) := by
    rw [atoi_of_numeral hnumeral, if_pos ⟨by omega, by omega⟩]
  rw [decodeInt, hatoi]
  rfl

/-- What the controller keeps of a peer that is listed. -/
def Nginx.PeerReads.detail (r : PeerReads) : HcNgxDetail where
  upstream := r.peer.upstreamName
  name := r.peer.name
  rise := r.peer.shm.riseCount

theorem decodeDetail_value {pagesize : ℕ} {r : PeerReads} (h : r.Writable pagesize) {index : ℕ}
    (hindex : index ≤ maxInt) :
    decodeDetail (r.value index) = some r.detail := by
  have hstr : ∀ s : String, decodeString (some (.str s.toList)) = some s := by
    intro s
    rw [decodeString, String.ofList_toList]
  have hmembers : ∃ members, decodeStruct (some (r.value index)) = some members ∧
      member "index" members = some (.num (ui index)) ∧
      member "upstream" members = some (.str r.peer.upstreamName.toList) ∧
      member "name" members = some (.str r.peer.name.toList) ∧
      member "status" members = some (.str (statusText r.peer.shm.down)) ∧
      member "rise" members = some (.num (ui r.peer.shm.riseCount)) ∧
      member "fall" members = some (.num (ui r.peer.shm.fallCount)) ∧
      member "type" members = some (.str r.checkType.toList) ∧
      member "port" members = some (.num (ui r.port)) :=
    ⟨_, rfl, rfl, rfl, rfl, rfl, rfl, rfl, rfl, rfl⟩
  obtain ⟨members, hstruct, hindex', hupstream, hname, hstatus, hrise, hfall, htype, hport⟩ :=
    hmembers
  rw [decodeDetail, hstruct]
  simp only [Option.bind_eq_bind, Option.bind_some, hindex', hupstream, hname, hstatus, hrise,
    hfall, htype, hport, decodeInt_ui hindex, decodeInt_ui h.rise, decodeInt_ui h.fall,
    decodeInt_ui h.port, hstr]
  rfl

theorem mapM_listedValues {pagesize : ℕ} (flag : StatusFlag) {reads : List PeerReads}
    (h : ∀ r ∈ reads, r.Writable pagesize) {index : ℕ} (hindex : index + reads.length ≤ maxInt) :
    (listedValues flag index reads).mapM decodeDetail =
      some ((listed flag reads).map PeerReads.detail) := by
  induction reads generalizing index with
  | nil => rfl
  | cons r reads ih =>
    obtain ⟨hr, hreads⟩ := List.forall_mem_cons.mp h
    rw [List.length_cons] at hindex
    have hrest := ih hreads (by omega : index + 1 + reads.length ≤ maxInt)
    rw [listedValues, listed, List.filter_cons]
    split_ifs
    · rw [List.mapM_cons, decodeDetail_value hr (by omega), hrest]
      rfl
    · exact hrest

/-- The payload that the controller decodes, when it can. -/
def payload (flag : StatusFlag) (reads : Zone → List PeerReads) : ServersNgxList where
  total := (counted flag (reads .stream) + counted flag (reads .http) : ℕ)
  http := (listed flag (reads .http)).map PeerReads.detail
  stream := (listed flag (reads .stream)).map PeerReads.detail

theorem decodeServers_jsonValue {pagesize generation : ℕ} {reads : Zone → List PeerReads}
    (h : Writable pagesize generation reads) (flag : StatusFlag) :
    (decodeStruct (some (jsonValue flag generation reads))).bind
        (fun members => decodeServers (member "servers" members)) = some (payload flag reads) := by
  have hpeers := h.peers
  have hstream := counted_le flag (reads .stream)
  have hhttp := counted_le flag (reads .http)
  obtain ⟨v, members, hservers, hstruct, htotal, hgeneration, hhttpArray, hstreamArray⟩ :
      ∃ v members, (decodeStruct (some (jsonValue flag generation reads))).bind
          (fun members => decodeServers (member "servers" members)) = decodeServers (some v) ∧
        decodeStruct (some v) = some members ∧
        member "total" members =
          some (.num (ui (counted flag (reads .stream) + counted flag (reads .http)))) ∧
        member "generation" members = some (.num (ui generation)) ∧
        member "http" members = some (.arr (listedValues flag 0 (reads .http))) ∧
        member "stream" members = some (.arr (listedValues flag 0 (reads .stream))) :=
    ⟨_, _, rfl, rfl, rfl, rfl, rfl, rfl⟩
  rw [hservers, decodeServers, hstruct]
  simp only [Option.bind_eq_bind, Option.bind_some, htotal, hgeneration, hhttpArray, hstreamArray,
    decodeSlice, decodeInt_ui h.generation, decodeInt_ui
      (by omega : counted flag (reads .stream) + counted flag (reads .http) ≤ maxInt),
    mapM_listedValues flag (h.peer .http) (by omega : 0 + (reads .http).length ≤ maxInt),
    mapM_listedValues flag (h.peer .stream) (by omega : 0 + (reads .stream).length ≤ maxInt)]
  rfl

theorem unmarshal_statusBody {pagesize generation : ℕ} {reads : Zone → List PeerReads}
    (h : Writable pagesize generation reads) (flag : StatusFlag) :
    unmarshal (statusBody pagesize flag generation reads) =
      if inOrder flag (reads .http) && inOrder flag (reads .stream) then some (payload flag reads)
      else none := by
  have hprintable : ∀ z, ∀ r ∈ reads z, r.Printable := fun z r hr => (h.peer z r hr).printable
  rw [h.statusBody_eq, unmarshal, parse_jsonFormat flag generation hprintable]
  split_ifs
  · exact decodeServers_jsonValue h flag
  · rfl

/-- Whatever changes in nginx while the listing is made: the poll goes by what has been written if
each module has written as many peers as it had counted, or none, and otherwise it does nothing. -/
theorem syncBody_statusBody {pagesize generation : ℕ} {reads : Zone → List PeerReads}
    (h : Writable pagesize generation reads) (flag : StatusFlag) (crd : Crd) (o : Ownership)
    (p : Poller) :
    syncBody crd o (statusBody pagesize flag generation reads) p =
      if inOrder flag (reads .http) && inOrder flag (reads .stream) then
        syncHealthCheck crd o (payload flag reads) p
      else pure p := by
  rw [syncBody, unmarshal_statusBody h]
  split_ifs <;> rfl

/-- A peer that is down when it is counted, and perhaps not when it is written. -/
def webRead (name : String) (tested : Bool) : PeerReads :=
  ⟨⟨"web", name, 2, 3, ⟨0, 3, tested⟩⟩, "http", 80, true, tested⟩

theorem webRead_writable {name : String} (hplain : Json.Plain name.toList)
    (hlength : name.toList.length ≤ 15) (tested : Bool) : (webRead name tested).Writable 4096 where
  printable :=
    have hfixed : Json.Plain "web".toList ∧ Json.Plain "http".toList := ⟨rfl, rfl⟩
    ⟨hfixed.1, hplain, hfixed.2⟩
  names := by
    have hfixed : "web".toList.length = 3 ∧ "http".toList.length = 4 := by decide
    change "web".toList.length + name.toList.length + "http".toList.length + 181 ≤ 1024
    omega
  rise := Nat.zero_le _
  fall := (by decide : 3 ≤ maxInt)
  port := (by decide : 80 ≤ maxInt)

/-- Two peers that are down; the second one may come up before it is written. -/
def twoReads (tested : Bool) : Zone → List PeerReads
  | .http => [webRead "10.0.0.1:80" true, webRead "10.0.0.2:80" tested]
  | .stream => []

theorem twoReads_writable (tested : Bool) : Writable 4096 1 (twoReads tested) where
  page := by decide
  peer z r hr := by
    have hplain : Json.Plain "10.0.0.1:80".toList ∧ Json.Plain "10.0.0.2:80".toList := ⟨rfl, rfl⟩
    cases z with
    | http =>
      rcases List.mem_pair.mp hr with rfl | rfl
      · exact webRead_writable hplain.1 (by decide) true
      · exact webRead_writable hplain.2 (by decide) tested
    | stream => cases hr
  generation := by decide
  peers := (by decide : 2 ≤ maxInt)

/-- One of the peers has come up: a line is missing. -/
theorem syncBody_twoReads :
    syncBody ⟨"node1", "default"⟩ {} (statusBody 4096 { down := true } 1 (twoReads false)) {} =
      pure {} :=
  syncBody_statusBody (twoReads_writable false) { down := true } ⟨"node1", "default"⟩ {} {}

/-- The peers as they are read. -/
def listedPeers (reads : Zone → List PeerReads) : Peers where
  zone z := (reads z).map PeerReads.peer

/-- The flag of the peer is the same whenever it is read. -/
def Nginx.PeerReads.Quiet (r : PeerReads) : Prop :=
  r.counted = r.peer.shm.down ∧ r.tested = r.peer.shm.down

theorem counted_of_unchanged {reads : List PeerReads} (h : ∀ r ∈ reads, r.counted = r.tested)
    (flag : StatusFlag) : counted flag reads = (listed flag reads).length := by
  refine congrArg List.length (List.filter_congr fun r hr => ?_)
  rw [h r hr]

theorem inOrder_of_unchanged {reads : List PeerReads} (h : ∀ r ∈ reads, r.counted = r.tested)
    (flag : StatusFlag) : inOrder flag reads = true := by
  rw [inOrder, decide_eq_true (counted_of_unchanged h flag).symm, Bool.or_true]

theorem payload_of_quiet {reads : Zone → List PeerReads} (h : ∀ z, ∀ r ∈ reads z, r.Quiet) :
    payload { down := true } reads = (listedPeers reads).listing := by
  have hdowns : ∀ z, (listed { down := true } (reads z)).map PeerReads.detail =
      (listedPeers reads).downs z := by
    intro z
    have hfilter : listed { down := true } (reads z) =
        (reads z).filter fun r => r.peer.shm.down := List.filter_congr fun r hr => (h z r hr).2
    rw [hfilter, Peers.downs, listedPeers, List.filter_map, List.map_map]
    rfl
  have hcounted : ∀ z,
      counted { down := true } (reads z) = ((listedPeers reads).downs z).length := by
    intro z
    rw [counted_of_unchanged fun r hr => (h z r hr).1.trans (h z r hr).2.symm, ← hdowns,
      List.length_map]
  rw [payload, Peers.listing, hdowns, hdowns, hcounted, hcounted]
  rfl

/-- As long as nothing changes while the listing is made, the poll is the one on the peers that are
down. -/
theorem poll_of_quiet {pagesize generation : ℕ} {reads : Zone → List PeerReads}
    (h : Writable pagesize generation reads) (hquiet : ∀ z, ∀ r ∈ reads z, r.Quiet) (crd : Crd)
    (o : Ownership) (p : Poller) :
    syncBody crd o (statusBody pagesize { down := true } generation reads) p =
      syncHealthCheck crd o (listedPeers reads).listing p := by
  have hinOrder : ∀ z, inOrder { down := true } (reads z) = true := fun z =>
    inOrder_of_unchanged (fun r hr => (hquiet z r hr).1.trans (hquiet z r hr).2.symm) _
  rw [syncBody, unmarshal_statusBody h, hinOrder, hinOrder, payload_of_quiet hquiet]
  rfl

theorem poll_twoReads :
    syncBody ⟨"node1", "default"⟩ {} (statusBody 4096 { down := true } 1 (twoReads true)) {} =
      syncHealthCheck ⟨"node1", "default"⟩ {} (listedPeers (twoReads true)).listing {} :=
  have hquiet : ∀ z, ∀ r ∈ twoReads true z, r.Quiet := by
    intro z r hr
    cases z with
    | http => rcases List.mem_pair.mp hr with rfl | rfl <;> exact ⟨rfl, rfl⟩
    | stream => cases hr
  poll_of_quiet (twoReads_writable true) hquiet ⟨"node1", "default"⟩ {} {}

/-- One flag that changes between the two loops puts the counts out of step. -/
theorem inOrder_of_change {before after : List PeerReads} {r : PeerReads}
    (hunchanged : ∀ r' ∈ before ++ after, r'.counted = r'.tested)
    (hchanged : r.counted ≠ r.tested) :
    inOrder { down := true } (before ++ r :: after) =
      (listed { down := true } (before ++ r :: after)).isEmpty := by
  have hbefore := counted_of_unchanged
    (fun r' hr' => hunchanged r' (List.mem_append_left _ hr')) { down := true }
  have hafter := counted_of_unchanged
    (fun r' hr' => hunchanged r' (List.mem_append_right _ hr')) { down := true }
  have hne : (listed { down := true } (before ++ r :: after)).length ≠
      counted { down := true } (before ++ r :: after) := by
    unfold listed counted at *
    rw [List.filter_append, List.filter_append, List.filter_cons, List.filter_cons,
      List.length_append, List.length_append, hbefore]
    change _ + (if r.tested then _ else _ : List PeerReads).length ≠
      _ + (if r.counted then _ else _ : List PeerReads).length
    cases hcounted : r.counted with
    | true =>
      cases htested : r.tested with
      | true => exact absurd (hcounted.trans htested.symm) hchanged
      | false => simp [hafter]
    | false =>
      cases htested : r.tested with
      | true => simp [hafter]
      | false => exact absurd (hcounted.trans htested.symm) hchanged
  rw [inOrder, decide_eq_false hne, Bool.or_false]

/-- When a check changes the flag of one peer between the two loops, the poll does nothing, unless
no peer of that module is written any more. -/
theorem poll_of_change {pagesize generation : ℕ} {reads : Zone → List PeerReads}
    (h : Writable pagesize generation reads) {z : Zone} {before after : List PeerReads}
    {r : PeerReads} (hreads : reads z = before ++ r :: after)
    (hunchanged : ∀ r' ∈ before ++ after, r'.counted = r'.tested) (hchanged : r.counted ≠ r.tested)
    (hothers : ∀ z' ≠ z, ∀ r' ∈ reads z', r'.counted = r'.tested) (crd : Crd) (o : Ownership)
    (p : Poller) :
    syncBody crd o (statusBody pagesize { down := true } generation reads) p =
      if (listed { down := true } (reads z)).isEmpty then
        syncHealthCheck crd o (payload { down := true } reads) p
      else pure p := by
  have hzone : inOrder { down := true } (reads z) =
      (listed { down := true } (reads z)).isEmpty := by
    rw [hreads]
    exact inOrder_of_change hunchanged hchanged
  have hboth :
      (inOrder { down := true } (reads .http) && inOrder { down := true } (reads .stream)) =
        (listed { down := true } (reads z)).isEmpty := by
    cases z with
    | http =>
      rw [hzone, inOrder_of_unchanged (hothers .stream Zone.noConfusion), Bool.and_true]
    | stream =>
      rw [hzone, inOrder_of_unchanged (hothers .http Zone.noConfusion), Bool.true_and]
  rw [syncBody, unmarshal_statusBody h, hboth]
  split_ifs <;> rfl

theorem poll_of_recovery :
    syncBody ⟨"node1", "default"⟩ {} (statusBody 4096 { down := true } 1 (twoReads false)) {} =
      pure {} :=
  have hhttp : twoReads false .http =
      [webRead "10.0.0.1:80" true] ++ webRead "10.0.0.2:80" false :: [] := rfl
  have hunchanged : ∀ r ∈ [webRead "10.0.0.1:80" true] ++ [], r.counted = r.tested := by
    intro r hr
    obtain rfl := List.mem_singleton.mp hr
    rfl
  have hstream : ∀ z ≠ Zone.http, ∀ r ∈ twoReads false z, r.counted = r.tested := by
    intro z hz r hr
    cases z with
    | http => exact absurd rfl hz
    | stream => cases hr
  poll_of_change (twoReads_writable false) hhttp hunchanged Bool.noConfusion hstream
    ⟨"node1", "default"⟩ {} {}

end HealthCheck
