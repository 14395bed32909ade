import HexaOS.RingBuffers
import HexaOS.StepRuns

/-!
# The loopback ring

net_loopback_send and net_loopback_recv move bytes through a ring of 4096 cells, one of
which stays unused. A send drops the oldest bytes when there is no cell for a new one, so
that the ring holds the last bytes sent, as many as fit, behind those that were received. A
send of 4096 bytes is accepted and drops its own first byte.
-/

namespace HexaOS.Net

open RingBuffers StepRuns

/-- loopback_ring, loopback_head and loopback_tail. -/
abbrev LoopbackRing : Type := Ring 4096 UInt8

/-- net_loopback_send. The buffer holds `len` bytes. -/
def netLoopbackSend (data : List UInt8) (ring : LoopbackRing) : ℤ × LoopbackRing :=
  if 4096 < data.length then (-1, ring) else (data.length, ring.overwriteAll data)

/-- net_loopback_recv, with the bytes that it stores into the buffer. -/
def netLoopbackRecv : ℕ → LoopbackRing → List UInt8 × LoopbackRing
  | 0, ring => ([], ring)
  | left + 1, ring =>
    if ring.Empty then ([], ring)
    else
      let rest := netLoopbackRecv left ring.pop
      (ring.front :: rest.1, rest.2)

/-- A call on the ring. -/
inductive LoopbackCall where
  | send (data : List UInt8)
  | recv (maxlen : ℕ)

/-- The ring with the bytes that were accepted and those that were received, oldest first. No
code reads the two lists. -/
structure LoopbackState where
  /-- The ring. -/
  ring : LoopbackRing
  /-- The bytes that were sent. -/
  sent : List UInt8
  /-- The bytes that were received. -/
  received : List UInt8

/-- One call. -/
def loopbackStep : LoopbackCall → LoopbackState → LoopbackState
  | .send data, state =>
    let result := netLoopbackSend data state.ring
    ⟨result.2, if result.1 = -1 then state.sent else state.sent ++ data, state.received⟩
  | .recv maxlen, state =>
    let result := netLoopbackRecv maxlen state.ring
    ⟨result.2, state.sent, state.received ++ result.1⟩

/-- The place behind the last of some positions. -/
def behind (positions : List ℕ) : ℕ := (positions.getLast?.map (· + 1)).getD 0

/-- What was received are bytes of increasing positions in what was sent, and the ring holds
the longest suffix that fits of what was sent behind them. -/
def Delivered (state : LoopbackState) : Prop :=
  ∃ positions : List ℕ, positions.Pairwise (· < ·) ∧
    positions.map (fun i => state.sent[i]?) = state.received.map some ∧
    state.ring.contents = (state.sent.drop (behind positions)).rtake (4096 - 1)

/-- A send that returns its length leaves its bytes in the ring, and they can be received. -/
def AcceptedStays : LoopbackCall → LoopbackState → Prop
  | .send data, state =>
    let result := netLoopbackSend data state.ring
    result.1 = data.length → data <:+ result.2.contents ∧
      ∀ maxlen, 4096 ≤ maxlen → data <:+ (netLoopbackRecv maxlen result.2).1
  | .recv _, _ => True

/-- A call that is not a send of as many bytes as the ring has cells. -/
def LoopbackCall.LeavesCell : LoopbackCall → Prop
  | .send data => data.length ≠ 4096
  | .recv _ => True

variable {state : LoopbackState} {ring : LoopbackRing} {data : List UInt8}

section Calls

/-- A receive takes the oldest bytes. -/
theorem netLoopbackRecv_contents (left : ℕ) (ring : LoopbackRing) :
    (netLoopbackRecv left ring).1 = ring.contents.take left ∧
      (netLoopbackRecv left ring).2.contents = ring.contents.drop left := by
  induction left generalizing ring with
  | zero => exact ⟨rfl, rfl⟩
  | succ left ih =>
    by_cases hempty : ring.Empty
    · rw [netLoopbackRecv, if_pos hempty, Ring.contents_eq_nil_iff.mpr hempty]
      exact ⟨rfl, rfl⟩
    · obtain ⟨htake, hdrop⟩ := ih ring.pop
      rw [netLoopbackRecv, if_neg hempty, Ring.contents_pop hempty, List.take_succ_cons,
        List.drop_succ_cons]
      dsimp only
      rw [htake, hdrop]
      exact ⟨rfl, rfl⟩

/-- A send that is accepted leaves the last bytes. -/
theorem netLoopbackSend_accepted (hlength : data.length ≤ 4096) (ring : LoopbackRing) :
    (netLoopbackSend data ring).1 = data.length ∧
      (netLoopbackSend data ring).2.contents = (ring.contents ++ data).rtake (4096 - 1) := by
  rw [netLoopbackSend, if_neg (not_lt.mpr hlength)]
  exact ⟨rfl, Ring.contents_overwriteAll (by decide) data ring⟩

/-- A send of too many bytes is refused. -/
theorem netLoopbackSend_refused (hlength : 4096 < data.length) (ring : LoopbackRing) :
    netLoopbackSend data ring = (-1, ring) := if_pos hlength

/-- The last part of a list ends in what was put behind it, when that fits. -/
theorem suffix_rtake_append {k : ℕ} (xs : List UInt8) (h : data.length ≤ k) :
    data <:+ (xs ++ data).rtake k := by
  have hwhole : (xs ++ data).rtake k <:+ xs ++ data := List.drop_suffix _ _
  refine List.suffix_of_suffix_length_le (List.suffix_append xs data) hwhole ?_
  rw [List.rtake, List.length_drop, List.length_append]
  omega

/-- The bytes of an accepted send are there exactly if one cell is left. -/
theorem acceptedStays_iff (call : LoopbackCall) (state : LoopbackState) :
    AcceptedStays call state ↔ call.LeavesCell := by
  cases call with
  | recv maxlen => exact Iff.rfl
  | send data =>
    rcases Nat.lt_or_ge 4096 data.length with hlong | hfits
    · have hrefused := netLoopbackSend_refused hlong state.ring
      refine iff_of_true ?_ hlong.ne'
      intro hreturned
      rw [hrefused] at hreturned
      have hneg : (-1 : ℤ) = data.length := hreturned
      omega
    · obtain ⟨hreturned, hcontents⟩ := netLoopbackSend_accepted hfits state.ring
      constructor
      · intro hstays hmax
        obtain ⟨hsuffix, -⟩ := hstays hreturned
        have hlength := hsuffix.length_le
        have hsize := (netLoopbackSend data state.ring).2.size_lt
        rw [Ring.length_contents] at hlength
        omega
      · intro hcell _
        have hless : data.length ≤ 4096 - 1 := by
          have hne : data.length ≠ 4096 := hcell
          omega
        have hsuffix : data <:+ (netLoopbackSend data state.ring).2.contents := by
          rw [hcontents]
          exact suffix_rtake_append _ hless
        refine ⟨hsuffix, ?_⟩
        intro maxlen hmax
        have hsize := (netLoopbackSend data state.ring).2.size_lt
        have hall : (netLoopbackSend data state.ring).2.contents.length ≤ maxlen := by
          rw [Ring.length_contents]
          omega
        rw [(netLoopbackRecv_contents maxlen _).1, List.take_of_length_le hall]
        exact hsuffix

end Calls

section Runs

/-- Positions of bytes lie in the list, and so does the place behind them. -/
theorem behind_le {positions : List ℕ} {sent received : List UInt8}
    (h : positions.map (fun i => sent[i]?) = received.map some) :
    (∀ i ∈ positions, i < sent.length) ∧ behind positions ≤ sent.length := by
  have hall : ∀ i ∈ positions, i < sent.length := by
    intro i hi
    have hbyte : sent[i]? ∈ received.map some := h ▸ List.mem_map_of_mem hi
    obtain ⟨byte, -, hsome⟩ := List.mem_map.mp hbyte
    exact (List.getElem?_eq_some_iff.mp hsome.symm).1
  refine ⟨hall, ?_⟩
  rw [behind]
  cases hlast : positions.getLast? with
  | none => exact Nat.zero_le _
  | some i => exact hall i (List.mem_of_getLast? hlast)

/-- Positions in increasing order lie before the place behind them. -/
theorem lt_behind {positions : List ℕ} (h : positions.Pairwise (· < ·)) :
    ∀ i ∈ positions, i < behind positions := by
  intro i hi
  obtain ⟨front, last, rfl⟩ := List.eq_nil_or_concat positions |>.resolve_left
    (List.ne_nil_of_mem hi)
  rw [behind, List.concat_eq_append, List.getLast?_concat]
  rw [List.concat_eq_append] at h hi
  obtain ⟨-, -, hbefore⟩ := List.pairwise_append.mp h
  rcases List.mem_append.mp hi with hfront | hlast
  · exact Nat.lt_succ_of_lt (hbefore i hfront last (List.mem_singleton_self last))
  · rw [List.mem_singleton.mp hlast]
    exact Nat.lt_succ_self last

/-- The bytes of a stretch of positions. -/
theorem map_range'_getElem? (bytes : List UInt8) (start count : ℕ) :
    (List.range' start ((bytes.drop start).take count).length).map (fun i => bytes[i]?) =
      ((bytes.drop start).take count).map some := by
  apply List.ext_getElem
  · rw [List.length_map, List.length_map, List.length_range']
  · intro i hi hi'
    rw [List.length_map] at hi'
    rw [List.getElem_map, List.getElem_map, List.getElem_range', List.getElem_take,
      List.getElem_drop, Nat.one_mul, List.getElem?_eq_getElem]

/-- A send keeps what is delivered. -/
theorem Delivered.send (h : Delivered state) (data : List UInt8) :
    Delivered (loopbackStep (.send data) state) := by
  rcases Nat.lt_or_ge 4096 data.length with hlong | hfits
  · rw [loopbackStep, netLoopbackSend_refused hlong]
    exact h
  · obtain ⟨positions, hordered, hbytes, hcontents⟩ := h
    obtain ⟨hreturned, hring⟩ := netLoopbackSend_accepted hfits state.ring
    obtain ⟨hinside, hbehind⟩ := behind_le hbytes
    have hnot : ¬(netLoopbackSend data state.ring).1 = -1 := by
      rw [hreturned]
      omega
    rw [loopbackStep, if_neg hnot]
    refine ⟨positions, hordered, ?_, ?_⟩
    · dsimp only
      rw [← hbytes]
      refine List.map_congr_left fun i hi => ?_
      exact List.getElem?_append_left (hinside i hi)
    · dsimp only
      rw [hring, hcontents, rtake_append_rtake, List.drop_append_of_le_length hbehind]

/-- A receive keeps what is delivered. -/
theorem Delivered.recv (h : Delivered state) (maxlen : ℕ) :
    Delivered (loopbackStep (.recv maxlen) state) := by
  obtain ⟨positions, hordered, hbytes, hcontents⟩ := h
  obtain ⟨hout, hring⟩ := netLoopbackRecv_contents maxlen state.ring
  obtain ⟨hinside, hbehind⟩ := behind_le hbytes
  have hsize := state.ring.size_lt
  -- the ring is the end of what was sent, from `start` on
  obtain ⟨start, hstart, htail⟩ : ∃ start, behind positions ≤ start ∧
      state.ring.contents = state.sent.drop start := by
    refine ⟨behind positions + ((state.sent.drop (behind positions)).length - (4096 - 1)),
      Nat.le_add_right _ _, ?_⟩
    rw [hcontents, List.rtake, List.drop_drop]
  rw [loopbackStep]
  rcases hnone : state.ring.contents.take maxlen with _ | ⟨first, others⟩
  · have hsame : (netLoopbackRecv maxlen state.ring).2.contents = state.ring.contents := by
      have hsplit := List.take_append_drop maxlen state.ring.contents
      rw [hnone, List.nil_append] at hsplit
      rw [hring, hsplit]
    refine ⟨positions, hordered, ?_, ?_⟩
    · dsimp only
      rw [hout, hnone, List.append_nil, hbytes]
    · dsimp only
      rw [hsame, hcontents]
  · have hcount : (netLoopbackRecv maxlen state.ring).1.length = others.length + 1 := by
      rw [hout, hnone, List.length_cons]
    have htaken : (netLoopbackRecv maxlen state.ring).1 = (state.sent.drop start).take maxlen := by
      rw [hout, htail]
    refine ⟨positions ++ List.range' start (others.length + 1), ?_, ?_, ?_⟩
    · refine List.pairwise_append.mpr ⟨hordered, List.pairwise_lt_range', ?_⟩
      intro i hi j hj
      have hbefore := lt_behind hordered i hi
      have hfrom : start ≤ j := (List.mem_range'_1.mp hj).1
      omega
    · dsimp only
      have hnew := map_range'_getElem? state.sent start maxlen
      rw [← htaken, hcount] at hnew
      rw [List.map_append, List.map_append, hbytes, hnew]
    · have hlast : behind (positions ++ List.range' start (others.length + 1)) =
          start + (others.length + 1) := by
        rw [List.range'_concat, ← List.append_assoc, behind, List.getLast?_concat]
        show start + 1 * others.length + 1 = _
        omega
      have hrest : state.ring.contents.drop maxlen =
          state.sent.drop (start + (others.length + 1)) := by
        have hlength : (state.ring.contents.take maxlen).length = others.length + 1 := by
          rw [hnone, List.length_cons]
        rw [List.length_take] at hlength
        rw [htail] at hlength ⊢
        rw [List.drop_drop]
        rcases Nat.le_total maxlen (state.sent.drop start).length with hle | hge
        · rw [show maxlen = others.length + 1 by omega]
        · rw [List.length_drop] at hge hlength
          rw [List.drop_of_length_le (by omega), List.drop_of_length_le (by omega)]
      have hfew : (state.sent.drop (start + (others.length + 1))).length ≤ 4096 - 1 := by
        rw [← hrest, List.length_drop, Ring.length_contents]
        omega
      dsimp only
      rw [hring, hlast, hrest, rtake_of_length_le hfew]

/-- A call keeps what is delivered. -/
theorem delivered_step (call : LoopbackCall) (state : LoopbackState) (h : Delivered state) :
    Delivered (loopbackStep call state) := by
  cases call with
  | send data => exact h.send data
  | recv maxlen => exact h.recv maxlen

/-- Nothing has been sent through an empty ring. -/
theorem delivered_empty (h : ring.Empty) : Delivered ⟨ring, [], []⟩ := by
  refine ⟨[], List.Pairwise.nil, rfl, ?_⟩
  rw [List.drop_nil, List.rtake_nil]
  exact Ring.contents_eq_nil_iff.mpr h

end Runs

section Delivery

/-- Over any sequence of calls on an empty ring, the ring holds the longest suffix that fits of
the bytes sent and not yet received, the bytes come out in sending order, and every accepted
send leaves all of its bytes, exactly if no send has as many bytes as the ring has cells. -/
theorem loopback_delivers_iff (ring : LoopbackRing) (hempty : ring.Empty)
    (calls : List LoopbackCall) :
    EveryStep loopbackStep
        (fun call state => Delivered (loopbackStep call state) ∧ AcceptedStays call state) calls
        ⟨ring, [], []⟩ ↔
      ∀ data, .send data ∈ calls → data.length ≠ 4096 := by
  have hcells : EveryStep loopbackStep
      (fun call state => Delivered (loopbackStep call state) ∧ AcceptedStays call state) calls
      ⟨ring, [], []⟩ ↔
        EveryStep loopbackStep (fun call _ => call.LeavesCell) calls ⟨ring, [], []⟩ := by
    refine everyStep_congr delivered_step ?_ (delivered_empty hempty)
    intro call state hdelivered
    rw [and_iff_right (delivered_step call state hdelivered), acceptedStays_iff]
  rw [hcells, everyStep_iff_forall]
  constructor
  · intro hall data hmem
    exact hall _ hmem
  · intro hall call hmem
    cases call with
    | send data => exact hall data hmem
    | recv maxlen => trivial

/-- A ring of zeros. -/
def emptyRing : LoopbackRing := ⟨fun _ => 0, 0, 0⟩

/-- Three bytes that are sent and received. -/
theorem loopback_delivers_iff_three : EveryStep loopbackStep
    (fun call state => Delivered (loopbackStep call state) ∧ AcceptedStays call state)
    [.send [1, 2, 3], .recv 2, .recv 5] ⟨emptyRing, [], []⟩ := by
  refine (loopback_delivers_iff emptyRing rfl _).mpr ?_
  intro data hmem
  have hdata : data = [1, 2, 3] := by simpa using hmem
  rw [hdata]
  decide

/-- A send of 4096 bytes loses its first byte. -/
theorem loopback_maximalSend : ¬EveryStep loopbackStep
    (fun call state => Delivered (loopbackStep call state) ∧ AcceptedStays call state)
    [.send (List.replicate 4096 7)] ⟨emptyRing, [], []⟩ := by
  intro hall
  have hstays := (acceptedStays_iff _ _).mp (everyStep_singleton.mp hall).2
  exact hstays List.length_replicate

end Delivery

end HexaOS.Net
