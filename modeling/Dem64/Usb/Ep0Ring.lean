import Dem64.Usb.Ep0

/-!
# The controller follows the driver through the ring of endpoint 0

One step of the invariant `InStep`: driver and controller are at the same place, what is in front of it
was written in this traversal and what is behind it was not.  `execute_publish` says what the controller
does after the doorbell of a call, and `ep0_ring_iff` puts the calls together.
-/

set_option autoImplicit false

namespace Dem64

open CycleRing

/-! ## The words of a transfer -/

/-- The fourth words that TRBs of a transfer can have, without cycle bit. -/
def transferWords : List (BitVec 32) :=
  [(setupTrb ⟨0, 0, 0, 0, 0⟩ true).d3, (setupTrb ⟨0, 0, 0, 0, 0⟩ false).d3, (dataTrb 0 0).d3,
    (statusTrb true).d3, (statusTrb false).d3]

theorem d3_mem_transferWords {call : Ep0Call} {t : XhciTrb} (h : t ∈ call.trbs) :
    t.d3 ∈ transferWords := by
  rw [Ep0Call.trbs] at h
  split at h
  · simp only [List.mem_cons, List.not_mem_nil, or_false] at h
    obtain rfl | rfl | rfl := h <;> simp [transferWords, setupTrb, dataTrb]
  · simp only [List.mem_cons, List.not_mem_nil, or_false] at h
    obtain rfl | rfl := h <;> simp [transferWords, setupTrb]

/-- What the controller sees of such a word. -/
theorem transferWords_spec : transferWords.all (fun d => [0#32, 1#32].all fun cy => decide
    ((d ||| cy) &&& 1 = cy ∧ ((d ||| cy) >>> 10 &&& 0x3f) ≠ trbLink ∧
      ((d ||| cy) >>> 10 &&& 0x3f) ≠ trbNoop ∧ (d ||| cy) &&& ~~~1 = d)) = true := by
  decide +kernel

theorem link_eq_none {t : XhciTrb} (h : t.type ≠ trbLink) : trbFormat.link t = none := if_neg h

/-- A TRB of a transfer after it got its cycle bit. -/
theorem orCycle_spec {call : Ep0Call} {t : XhciTrb} (h : t ∈ call.trbs) {cy : BitVec 32}
    (hcy : IsCycle cy) : (t.orCycle cy).cycle = cy ∧ trbFormat.link (t.orCycle cy) = none ∧
      (t.orCycle cy).isTransfer = true ∧ (t.orCycle cy).clearCycle = t := by
  have hall := List.all_eq_true.mp transferWords_spec _ (d3_mem_transferWords h)
  obtain ⟨h1, h2, h3, h4⟩ := of_decide_eq_true (List.all_eq_true.mp hall cy hcy)
  refine ⟨h1, link_eq_none h2, ?_, ?_⟩
  · rw [XhciTrb.isTransfer, Bool.and_eq_true, bne_iff_ne, bne_iff_ne]
    exact ⟨h2, h3⟩
  · rw [XhciTrb.clearCycle, XhciTrb.orCycle, h4]

/-! ## What is in the ring after the stores -/

theorem fillNoops_apply (i : Nat) (cy : BitVec 32) : ∀ (k : Nat) (ring : Nat → XhciTrb) (j : Nat),
    fillNoops i cy k ring j =
      if i ≤ j ∧ j < i + k then ⟨0, 0, 0, trbType trbNoop ||| cy⟩ else ring j
  | 0, ring, j => by rw [fillNoops, if_neg (by omega)]
  | k + 1, ring, j => by
    rw [fillNoops, fillNoops_apply i cy k]
    by_cases h1 : i ≤ j ∧ j < i + k
    · rw [if_pos h1, if_pos (by omega)]
    · rw [if_neg h1]
      by_cases h2 : j = i + k
      · rw [h2, write_self, if_pos (by omega)]
      · rw [write_of_ne h2, if_neg (by omega)]

theorem count_cases (call : Ep0Call) : (call.hasData = true ∧ call.count = 3) ∨
    (call.hasData = false ∧ call.count = 2) := by
  rw [Ep0Call.count]
  cases call.hasData <;> simp

section

variable {slot : UsbSlot} {call : Ep0Call}

/-- The TRBs of the call, with the cycle they get. -/
def UsbSlot.block (slot : UsbSlot) (call : Ep0Call) : List XhciTrb :=
  call.trbs.map fun t => t.orCycle (slot.cycleFor call.count)

/-- The No-ops that fill up the ring. -/
def noopTrb (cy : BitVec 32) : XhciTrb := ⟨0, 0, 0, trbType trbNoop ||| cy⟩

/-- The fourth word of the Link TRB. -/
def linkWord (cy : BitVec 32) : BitVec 32 := trbType trbLink ||| 1#32 <<< 1 ||| cy

/-- What `publish` makes of the ring. -/
structure Published (slot : UsbSlot) (call : Ep0Call) (ring : Nat → XhciTrb) : Prop where
  /-- The TRBs of the call. -/
  block : (List.range' (slot.first call.count) call.count).map ring = slot.block call
  /-- What is kept. -/
  kept : ∀ j, ¬ (slot.first call.count ≤ j ∧ j < slot.first call.count + call.count) →
    slot.wraps call.count = false ∨ j < slot.ep0Index → ring j = slot.ring j
  /-- The rest of the ring when the transfer does not fit. -/
  noops : slot.wraps call.count = true → ∀ j, slot.ep0Index ≤ j → j < ep0Link →
    ring j = noopTrb slot.ep0Cycle
  /-- The Link TRB when the transfer does not fit. -/
  link : slot.wraps call.count = true → (ring ep0Link).d3 = linkWord slot.ep0Cycle

/-- The ring with the TRBs of the call only. -/
def stored (slot : UsbSlot) (call : Ep0Call) : Nat → XhciTrb :=
  let count := call.count
  let first := slot.first count
  let cycle := slot.cycleFor count
  let ring := write slot.ring (first + count - 1) ((statusTrb call.hasData).orCycle cycle)
  let ring := if call.hasData then
      write ring (first + 1) ((dataTrb (call.dataDma.getD 0) call.length).orCycle cycle)
    else ring
  write ring first ((setupTrb call.packet call.hasData).orCycle cycle)

theorem stored_block (slot : UsbSlot) (call : Ep0Call) :
    (List.range' (slot.first call.count) call.count).map (stored slot call) = slot.block call := by
  rcases count_cases call with ⟨hd, hc⟩ | ⟨hd, hc⟩
  · simp only [UsbSlot.block, Ep0Call.trbs, stored, hd, hc, List.range'_succ, List.range'_zero, if_true,
      List.map_cons, List.map_nil, write, Nat.reduceSubDiff]
    simp
    omega
  · simp [UsbSlot.block, Ep0Call.trbs, stored, hd, hc, List.range'_succ, write]

theorem stored_kept (slot : UsbSlot) (call : Ep0Call) {j : Nat}
    (h : ¬ (slot.first call.count ≤ j ∧ j < slot.first call.count + call.count)) :
    stored slot call j = slot.ring j := by
  rcases count_cases call with ⟨hd, hc⟩ | ⟨hd, hc⟩
  · rw [hc] at h
    simp only [stored, hd, hc, if_true]
    rw [write_of_ne (by omega), write_of_ne (by omega), write_of_ne (by omega)]
  · rw [hc] at h
    simp only [stored, hd, hc, Bool.false_eq_true, if_false]
    rw [write_of_ne (by omega), write_of_ne (by omega)]

theorem published_publish (hindex : slot.ep0Index < ep0Link) :
    Published slot call (publish slot call) := by
  have hcount : call.count ≤ 3 := by rcases count_cases call with ⟨-, h⟩ | ⟨-, h⟩ <;> omega
  rw [ep0Link] at hindex
  cases hw : slot.wraps call.count with
  | false =>
    have hp : publish slot call = stored slot call := by
      simp only [publish, hw, Bool.false_eq_true, if_false]
      rfl
    rw [hp]
    exact ⟨stored_block slot call, fun j hj _ => stored_kept slot call hj, by simp [hw], by simp [hw]⟩
  | true =>
    have hp : publish slot call = write
        (fillNoops slot.ep0Index slot.ep0Cycle (ep0Link - slot.ep0Index) (stored slot call)) ep0Link
        { fillNoops slot.ep0Index slot.ep0Cycle (ep0Link - slot.ep0Index) (stored slot call) ep0Link
          with d3 := linkWord slot.ep0Cycle } := by
      simp only [publish, hw, if_true]
      rfl
    have hfirst : slot.first call.count = 0 := by rw [UsbSlot.first, hw, if_pos rfl]
    have hlow : ∀ j, j < slot.ep0Index → publish slot call j = stored slot call j := by
      intro j hj
      rw [hp, write_of_ne (by rw [ep0Link]; omega), fillNoops_apply, if_neg (by omega)]
    have hwraps : slot.ep0Index + call.count > 255 := by simpa [UsbSlot.wraps, ep0Link] using hw
    refine ⟨?_, fun j hj h => ?_, fun _ j h1 h2 => ?_, fun _ => ?_⟩
    · rw [← stored_block slot call]
      refine List.map_congr_left fun j hj => hlow j ?_
      rw [hfirst] at hj
      have := (List.mem_range'_1.mp hj).2
      omega
    · rw [hlow j (by simpa [hw] using h), stored_kept slot call hj]
    · rw [ep0Link] at h2
      rw [hp, write_of_ne (by rw [ep0Link]; omega), fillNoops_apply, if_pos (by rw [ep0Link]; omega)]
      rfl
    · rw [hp, write_self]

end

/-! ## What the controller does after the doorbell -/

/-- A TRB that does nothing and asks for no event. -/
def Quiet (t : XhciTrb) : Prop :=
  t.isTransfer = false ∧ t.d3 &&& trbIoc = 0 ∧ t.d3 &&& trbIsp = 0

theorem noopTrb_spec {cy : BitVec 32} (h : IsCycle cy) : Quiet (noopTrb cy) ∧
    (noopTrb cy).cycle = cy ∧ trbFormat.link (noopTrb cy) = none := by
  simp only [IsCycle, List.mem_cons, List.not_mem_nil, or_false] at h
  obtain rfl | rfl := h
  · exact ⟨⟨by decide, by decide, by decide⟩, by decide, link_eq_none (by decide)⟩
  · exact ⟨⟨by decide, by decide, by decide⟩, by decide, link_eq_none (by decide)⟩

theorem linkWord_spec {t : XhciTrb} {cy : BitVec 32} (h : IsCycle cy) (ht : t.d3 = linkWord cy) :
    Quiet t ∧ t.cycle = cy ∧ trbFormat.link t = some fun c => c ^^^ 1 := by
  have htoggle : t.d3 &&& (1#32 <<< 1) ≠ 0 ∧ t.type = trbLink ∧ t.cycle = cy ∧
      t.d3 &&& trbIoc = 0 ∧ t.d3 &&& trbIsp = 0 := by
    rw [XhciTrb.type, XhciTrb.cycle, ht]
    simp only [IsCycle, List.mem_cons, List.not_mem_nil, or_false] at h
    obtain rfl | rfl := h <;> decide
  obtain ⟨h1, h2, h3, h4, h5⟩ := htoggle
  refine ⟨⟨?_, h4, h5⟩, h3, ?_⟩
  · rw [XhciTrb.isTransfer, h2]
    decide
  · simp only [trbFormat, h2, if_true, ne_eq, h1, not_false_eq_true]

/-! ## The events of a transfer -/

/-- The fourth word of a Transfer Event. -/
theorem transferEvent_word : ∀ slotId : BitVec 8,
    let d3 := trbType 32 ||| 1#32 <<< 16 ||| slotId.setWidth 32 <<< 24
    (d3 >>> 10) &&& 0x3f = 32 ∧ ((d3 >>> 24) &&& 0xff).setWidth 8 = slotId ∧
      ((d3 >>> 16) &&& 0x1f).setWidth 8 = 1#8 ∧ d3 &&& (1#32 <<< 2) = 0 := by
  decide +kernel

section

variable {s : EventState} {slotId : BitVec 8} {physical statusPhys : BitVec 64}

theorem processEvent_transfer (code : BitVec 32) (j : Nat) :
    processEvent s (transferEvent slotId physical code j) =
      if transferMatches s (transferEvent slotId physical code j) then
        { s with transferCompletion := transferEvent slotId physical code j, transferCompleted := true }
      else s := by
  have htype : (transferEvent slotId physical code j).type = 32 := (transferEvent_word slotId).1
  rw [processEvent, htype, if_neg (by decide), if_neg (by decide), if_pos rfl]

theorem transferMatches_arm (code : BitVec 32) (j : Nat) :
    transferMatches (arm s slotId statusPhys) (transferEvent slotId physical code j) =
      (physical + BitVec.ofNat 64 (16 * j) == statusPhys ||
        ((code <<< 24 >>> 24).setWidth 8 != 1#8 && (code <<< 24 >>> 24).setWidth 8 != 13#8)) := by
  obtain ⟨-, h1, h2, h3⟩ := transferEvent_word slotId
  have hp : (transferEvent slotId physical code j).pointer = physical + BitVec.ofNat 64 (16 * j) :=
    pointer_words _ _ _
  rw [transferMatches, hp]
  simp only [transferEvent, h1, h2, h3, arm, XhciTrb.completionCode]
  simp

/-- The event of a data stage in which less than announced arrived is not the end of the transfer. -/
theorem processEvent_short (s : EventState) (slotId : BitVec 8) (physical : BitVec 64) {i j : Nat}
    (h : i < j) (hj : j ≤ 256) :
    processEvent (arm s slotId (physical + BitVec.ofNat 64 (16 * j)))
      (transferEvent slotId physical 13 i) = arm s slotId (physical + BitVec.ofNat 64 (16 * j)) := by
  have hne : physical + BitVec.ofNat 64 (16 * i) ≠ physical + BitVec.ofNat 64 (16 * j) := by
    intro heq
    have := congrArg BitVec.toNat (add_left_cancel heq)
    simp only [BitVec.toNat_ofNat] at this
    omega
  rw [processEvent_transfer, transferMatches_arm, if_neg]
  rw [Bool.or_eq_true, beq_iff_eq, not_or]
  exact ⟨hne, by decide⟩

/-- The event of the status stage is. -/
theorem processEvent_status {j : Nat} :
    processEvent (arm s slotId (physical + BitVec.ofNat 64 (16 * j)))
      (transferEvent slotId physical 1 j) =
    { arm s slotId (physical + BitVec.ofNat 64 (16 * j)) with
      transferCompletion := transferEvent slotId physical 1 j, transferCompleted := true } := by
  rw [processEvent_transfer, transferMatches_arm, if_pos]
  rw [Bool.or_eq_true, beq_iff_eq]
  exact Or.inl rfl

/-- The waiting loop finds the events when they arrive. -/
theorem awaitTransfer_delay {arrived : List XhciTrb} {d : Nat} (hs : s.transferCompleted = false)
    (hdone : (arrived.foldl processEvent s).transferCompleted = true) : ∀ n, n ≤ 500 → 500 ≤ n + d →
    d < 500 → awaitTransfer (fun i => if i = d then arrived else []) n s =
      (true, arrived.foldl processEvent s)
  | 0, _, h1, h2 => absurd h2 (by omega)
  | n + 1, hn, h1, h2 => by
    by_cases hd : 500 - (n + 1) = d
    · simp only [awaitTransfer, hd, if_true, hdone]
    · simp only [awaitTransfer, hd, if_false, List.foldl_nil, hs, Bool.false_eq_true]
      exact awaitTransfer_delay hs hdone n (by omega) (by omega) h2

end

/-! ## Driver and controller in step -/

/-- Driver and controller are at the same place of the ring; what is in front of it was written in this
traversal, and what is behind it was not. -/
structure InStep (x : Ep0System) : Prop where
  isCycle : IsCycle x.driver.slot.ep0Cycle
  index_lt : x.driver.slot.ep0Index < ep0Link
  controller : x.controller = ⟨x.driver.slot.ep0Index, x.driver.slot.ep0Cycle⟩
  written : ∀ j, j < x.driver.slot.ep0Index →
    (x.driver.slot.ring j).cycle = x.driver.slot.ep0Cycle
  stale : ∀ j, x.driver.slot.ep0Index ≤ j → j < ep0Link →
    (x.driver.slot.ring j).cycle ≠ x.driver.slot.ep0Cycle
  link : ∃ cy, IsCycle cy ∧ (x.driver.slot.ring ep0Link).d3 = linkWord cy

section

variable {x : Ep0System} {call : Ep0Call} {ring : Nat → XhciTrb}

theorem InStep.cycleFor (hx : InStep x) (count : Nat) : IsCycle (x.driver.slot.cycleFor count) := by
  rw [UsbSlot.cycleFor]
  split
  · exact hx.isCycle.xor.1
  · exact hx.isCycle

/-- The TRBs of the call have the cycle for which the controller will wait. -/
theorem Published.cycles (h : Published x.driver.slot call ring) (hx : InStep x) {j : Nat}
    (h1 : x.driver.slot.first call.count ≤ j)
    (h2 : j < x.driver.slot.first call.count + call.count) :
    (ring j).cycle = x.driver.slot.cycleFor call.count ∧ trbFormat.link (ring j) = none := by
  have hmem : ring j ∈ x.driver.slot.block call := by
    rw [← h.block]
    exact List.mem_map_of_mem (List.mem_range'_1.mpr ⟨h1, h2⟩)
  obtain ⟨t, ht, heq⟩ := List.mem_map.mp hmem
  obtain ⟨hc, hl, -⟩ := orCycle_spec ht (hx.cycleFor call.count)
  rw [← heq]
  exact ⟨hc, hl⟩

/-- The transfer fits and there is room behind it. -/
theorem execute_fits (h : Published x.driver.slot call ring) (hx : InStep x)
    (hfit : x.driver.slot.ep0Index + call.count < ep0Link) :
    execute ring x.controller = (CycleRing.segment ring x.driver.slot.ep0Index call.count,
      ⟨x.driver.slot.ep0Index + call.count, x.driver.slot.ep0Cycle⟩) ∧
    Stopped trbFormat ring ⟨x.driver.slot.ep0Index + call.count, x.driver.slot.ep0Cycle⟩ := by
  have hw : x.driver.slot.wraps call.count = false := by
    simp only [UsbSlot.wraps, decide_eq_false_iff_not]
    omega
  have hfirst : x.driver.slot.first call.count = x.driver.slot.ep0Index := by
    rw [UsbSlot.first, hw, if_neg (by simp)]
  have hcycle : x.driver.slot.cycleFor call.count = x.driver.slot.ep0Cycle := by
    rw [UsbSlot.cycleFor, hw, if_neg (by simp)]
  have hstop : Stopped trbFormat ring
      ⟨x.driver.slot.ep0Index + call.count, x.driver.slot.ep0Cycle⟩ := by
    show (ring (x.driver.slot.ep0Index + call.count)).cycle ≠ x.driver.slot.ep0Cycle
    rw [h.kept _ (by omega) (Or.inl hw)]
    exact hx.stale _ (by omega) hfit
  refine ⟨?_, hstop⟩
  obtain ⟨n, hn⟩ : ∃ n, 512 = n + call.count := ⟨512 - call.count, by rw [ep0Link] at hfit; omega⟩
  rw [execute, hx.controller, hn, drain_segment fun j h1 h2 => by
    have hc := h.cycles hx (j := j) (by omega) (by omega)
    rwa [hcycle] at hc]
  rw [drain_stopped hstop, List.append_nil]

/-- The transfer fits exactly: the controller comes to the Link TRB, which has not changed. -/
theorem execute_exact (h : Published x.driver.slot call ring) (hx : InStep x)
    (hfit : x.driver.slot.ep0Index + call.count = ep0Link) :
    ring ep0Link = x.driver.slot.ring ep0Link ∧
    ((ring ep0Link).cycle = x.driver.slot.ep0Cycle →
      execute ring x.controller = (CycleRing.segment ring x.driver.slot.ep0Index call.count ++
        [(ep0Link, ring ep0Link)], ⟨0, x.driver.slot.ep0Cycle ^^^ 1⟩) ∧
      Stopped trbFormat ring ⟨0, x.driver.slot.ep0Cycle ^^^ 1⟩) ∧
    ((ring ep0Link).cycle ≠ x.driver.slot.ep0Cycle →
      execute ring x.controller = (CycleRing.segment ring x.driver.slot.ep0Index call.count,
        ⟨ep0Link, x.driver.slot.ep0Cycle⟩) ∧
      Stopped trbFormat ring ⟨ep0Link, x.driver.slot.ep0Cycle⟩) := by
  have hw : x.driver.slot.wraps call.count = false := by
    simp only [UsbSlot.wraps, decide_eq_false_iff_not]
    omega
  have hfirst : x.driver.slot.first call.count = x.driver.slot.ep0Index := by
    rw [UsbSlot.first, hw, if_neg (by simp)]
  have hcycle : x.driver.slot.cycleFor call.count = x.driver.slot.ep0Cycle := by
    rw [UsbSlot.cycleFor, hw, if_neg (by simp)]
  have hlink : ring ep0Link = x.driver.slot.ring ep0Link := h.kept _ (by omega) (Or.inl hw)
  obtain ⟨n, hn⟩ : ∃ n, 512 = n + 1 + call.count :=
    ⟨511 - call.count, by rw [ep0Link] at hfit; omega⟩
  have hdrain : execute ring x.controller = (CycleRing.segment ring x.driver.slot.ep0Index call.count ++
      (drain trbFormat ring (n + 1) ⟨ep0Link, x.driver.slot.ep0Cycle⟩).1,
      (drain trbFormat ring (n + 1) ⟨ep0Link, x.driver.slot.ep0Cycle⟩).2) := by
    rw [execute, hx.controller, hn, drain_segment fun j h1 h2 => by
      have hc := h.cycles hx (j := j) (by omega) (by omega)
      rwa [hcycle] at hc]
    rw [hfit]
  refine ⟨hlink, fun hcy => ?_, fun hcy => ?_⟩
  · obtain ⟨cy, hiscy, hword⟩ := hx.link
    obtain ⟨-, -, hl⟩ := linkWord_spec hiscy (show (ring ep0Link).d3 = _ by rw [hlink]; exact hword)
    -- the first TRB of the ring is of this traversal
    have hstop : Stopped trbFormat ring ⟨0, x.driver.slot.ep0Cycle ^^^ 1⟩ := by
      show (ring 0).cycle ≠ x.driver.slot.ep0Cycle ^^^ 1
      have hcount : call.count < ep0Link := by
        rw [ep0Link]
        rcases count_cases call with ⟨-, hc⟩ | ⟨-, hc⟩ <;> omega
      rw [h.kept 0 (by omega) (Or.inl hw), hx.written 0 (by omega)]
      exact hx.isCycle.xor.2
    refine ⟨?_, hstop⟩
    have hstep := drain_link (n := n) (c := ⟨ep0Link, x.driver.slot.ep0Cycle⟩) hcy hl
    rw [drain_stopped hstop] at hstep
    rw [hdrain, hstep]
  · refine ⟨?_, hcy⟩
    have hstop : Stopped trbFormat ring ⟨ep0Link, x.driver.slot.ep0Cycle⟩ := hcy
    rw [hdrain, drain_stopped hstop, List.append_nil]

/-- The transfer does not fit: the controller goes through the No-ops and over the Link TRB to the start
of the ring. -/
theorem execute_wraps (h : Published x.driver.slot call ring) (hx : InStep x)
    (hw : x.driver.slot.wraps call.count = true) :
    execute ring x.controller =
      (CycleRing.segment ring x.driver.slot.ep0Index (ep0Link - x.driver.slot.ep0Index) ++
        (ep0Link, ring ep0Link) :: CycleRing.segment ring 0 call.count,
        ⟨call.count, x.driver.slot.ep0Cycle ^^^ 1⟩) ∧
    Stopped trbFormat ring ⟨call.count, x.driver.slot.ep0Cycle ^^^ 1⟩ := by
  have hindex := hx.index_lt
  have hlt : ep0Link < x.driver.slot.ep0Index + call.count := by simpa [UsbSlot.wraps] using hw
  have hcount : call.count ≤ 3 := by rcases count_cases call with ⟨-, hc⟩ | ⟨-, hc⟩ <;> omega
  have hfirst : x.driver.slot.first call.count = 0 := by rw [UsbSlot.first, hw, if_pos rfl]
  have hcycle : x.driver.slot.cycleFor call.count = x.driver.slot.ep0Cycle ^^^ 1 := by
    rw [UsbSlot.cycleFor, hw, if_pos rfl]
  have hlarge : call.count < x.driver.slot.ep0Index := by rw [ep0Link] at hlt; omega
  have hstop : Stopped trbFormat ring ⟨call.count, x.driver.slot.ep0Cycle ^^^ 1⟩ := by
    show (ring call.count).cycle ≠ x.driver.slot.ep0Cycle ^^^ 1
    rw [h.kept _ (by omega) (Or.inr hlarge), hx.written _ hlarge]
    exact hx.isCycle.xor.2
  refine ⟨?_, hstop⟩
  obtain ⟨-, hlc, hll⟩ := linkWord_spec hx.isCycle (h.link hw)
  obtain ⟨n, hn⟩ : ∃ n, 512 = n + call.count + 1 + (ep0Link - x.driver.slot.ep0Index) :=
    ⟨511 - call.count - (ep0Link - x.driver.slot.ep0Index), by rw [ep0Link]; omega⟩
  -- the No-ops
  have hnoops : ∀ j, x.driver.slot.ep0Index ≤ j →
      j < x.driver.slot.ep0Index + (ep0Link - x.driver.slot.ep0Index) →
      trbFormat.cycle (ring j) = x.driver.slot.ep0Cycle ∧ trbFormat.link (ring j) = none := by
    intro j h1 h2
    rw [h.noops hw j h1 (by omega)]
    exact (noopTrb_spec hx.isCycle).2
  -- the TRBs of the call
  have hblock : ∀ j, 0 ≤ j → j < 0 + call.count →
      trbFormat.cycle (ring j) = x.driver.slot.ep0Cycle ^^^ 1 ∧ trbFormat.link (ring j) = none := by
    intro j h1 h2
    have hc := h.cycles hx (j := j) (by omega) (by omega)
    rwa [hcycle] at hc
  have hstep := drain_link (n := n + call.count) (c := ⟨ep0Link, x.driver.slot.ep0Cycle⟩) hlc hll
  rw [drain_segment hblock, Nat.zero_add, drain_stopped hstop, List.append_nil] at hstep
  rw [execute, hx.controller, hn, drain_segment hnoops,
    show x.driver.slot.ep0Index + (ep0Link - x.driver.slot.ep0Index) = ep0Link by omega, hstep]

/-- **What the controller does after the doorbell**: it executes the TRBs of the call and, around them,
some that do nothing.  It stops where the next transfer starts, or at the Link TRB if it cannot follow
it. -/
theorem execute_publish (hx : InStep x) (call : Ep0Call) : ∃ pre post,
    (∀ p ∈ pre ++ post, Quiet p.2) ∧
    (execute (publish x.driver.slot call) x.controller).1 = pre ++
      CycleRing.segment (publish x.driver.slot call) (x.driver.slot.first call.count) call.count ++ post ∧
    Stopped trbFormat (publish x.driver.slot call)
      (execute (publish x.driver.slot call) x.controller).2 ∧
    (LinkReady x.driver.slot call → (execute (publish x.driver.slot call) x.controller).2 =
      ⟨(nextPosition x.driver.slot call.count).1, (nextPosition x.driver.slot call.count).2⟩) ∧
    (¬ LinkReady x.driver.slot call →
      (execute (publish x.driver.slot call) x.controller).2.index = ep0Link ∧
      (nextPosition x.driver.slot call.count).1 = 0) := by
  have h : Published x.driver.slot call _ := published_publish hx.index_lt
  generalize publish x.driver.slot call = ring at h
  have hcount : call.count ≤ 3 := by rcases count_cases call with ⟨-, hc⟩ | ⟨-, hc⟩ <;> omega
  cases hw : x.driver.slot.wraps call.count with
  | true =>
    obtain ⟨heq, hstop⟩ := execute_wraps h hx hw
    have hlt : ep0Link < x.driver.slot.ep0Index + call.count := by simpa [UsbSlot.wraps] using hw
    have hfirst : x.driver.slot.first call.count = 0 := by rw [UsbSlot.first, hw, if_pos rfl]
    have hcycle : x.driver.slot.cycleFor call.count = x.driver.slot.ep0Cycle ^^^ 1 := by
      rw [UsbSlot.cycleFor, hw, if_pos rfl]
    refine ⟨CycleRing.segment ring x.driver.slot.ep0Index (ep0Link - x.driver.slot.ep0Index) ++
      [(ep0Link, ring ep0Link)], [], fun p hp => ?_, ?_, ?_, fun _ => ?_, fun hn => ?_⟩
    · rw [List.append_nil, List.mem_append, List.mem_singleton] at hp
      rcases hp with hp | rfl
      · obtain ⟨j, h1, h2, rfl⟩ := mem_segment hp
        have hindex := hx.index_lt
        show Quiet (ring j)
        rw [h.noops hw j h1 (by omega)]
        exact (noopTrb_spec hx.isCycle).1
      · exact (linkWord_spec hx.isCycle (h.link hw)).1
    · rw [heq, hfirst, List.append_nil, List.append_assoc, List.singleton_append]
    · rwa [heq]
    · rw [heq, nextPosition, hfirst, hcycle, Nat.zero_add, if_neg (by rw [ep0Link]; omega)]
    · exact absurd (fun heq' => absurd heq' (by omega)) hn
  | false =>
    have hle : x.driver.slot.ep0Index + call.count ≤ ep0Link := by simpa [UsbSlot.wraps] using hw
    have hfirst : x.driver.slot.first call.count = x.driver.slot.ep0Index := by
      rw [UsbSlot.first, hw, if_neg (by simp)]
    have hcycle : x.driver.slot.cycleFor call.count = x.driver.slot.ep0Cycle := by
      rw [UsbSlot.cycleFor, hw, if_neg (by simp)]
    rw [nextPosition, hfirst, hcycle]
    rcases Nat.lt_or_eq_of_le hle with hlt | hexact
    · obtain ⟨heq, hstop⟩ := execute_fits h hx hlt
      refine ⟨[], [], by simp, by simp [heq], by rwa [heq], fun _ => ?_, fun hn => ?_⟩
      · rw [heq, if_neg (by omega)]
      · exact absurd (fun heq' => absurd heq' (by omega)) hn
    · obtain ⟨hlink, hready, hnot⟩ := execute_exact h hx hexact
      rw [if_pos hexact]
      by_cases hcy : (ring ep0Link).cycle = x.driver.slot.ep0Cycle
      · obtain ⟨heq, hstop⟩ := hready hcy
        refine ⟨[], [(ep0Link, ring ep0Link)], fun p hp => ?_, by simp [heq], by rwa [heq],
          fun _ => by rw [heq], fun hn => ?_⟩
        · rw [List.nil_append, List.mem_singleton] at hp
          obtain ⟨cy, hiscy, hword⟩ := hx.link
          rw [← hlink] at hword
          rw [hp]
          exact (linkWord_spec hiscy hword).1
        · exact absurd (fun _ => hlink ▸ hcy) hn
      · obtain ⟨heq, hstop⟩ := hnot hcy
        refine ⟨[], [], by simp, by simp [heq], by rwa [heq], fun hr => ?_, fun _ => by rw [heq]; simp⟩
        exact absurd (hr hexact) (hlink ▸ hcy)

theorem transferEvents_quiet (slotId : BitVec 8) (physical : BitVec 64) (short : Bool) :
    ∀ {l : List (Nat × XhciTrb)}, (∀ p ∈ l, Quiet p.2) → transferEvents slotId physical short l = []
  | [], _ => rfl
  | p :: l, h => by
    obtain ⟨-, h1, h2⟩ := h p (List.mem_cons_self ..)
    have ih := transferEvents_quiet slotId physical short fun q hq => h q (List.mem_cons_of_mem _ hq)
    rw [transferEvents, List.filterMap_cons_none (by simp [h1, h2])]
    exact ih

/-- Which TRBs ask for an event. -/
theorem flags_spec {cy : BitVec 32} (hcy : IsCycle cy) (packet : UsbSetupPacket) (hasData : Bool)
    (physical length : BitVec 64) :
    ((setupTrb packet hasData).orCycle cy).d3 &&& trbIoc = 0 ∧
    ((setupTrb packet hasData).orCycle cy).d3 &&& trbIsp = 0 ∧
    ((dataTrb physical length).orCycle cy).d3 &&& trbIoc = 0 ∧
    ((dataTrb physical length).orCycle cy).d3 &&& trbIsp ≠ 0#32 ∧
    ((statusTrb hasData).orCycle cy).d3 &&& trbIoc ≠ 0#32 := by
  simp only [IsCycle, List.mem_cons, List.not_mem_nil, or_false] at hcy
  simp only [XhciTrb.orCycle, setupTrb, dataTrb, statusTrb]
  obtain rfl | rfl := hcy <;> cases hasData <;> decide


/-- The TRBs of the call ask for one event at the end, and for one in between if the device sends less
than announced. -/
theorem transferEvents_segment (h : Published x.driver.slot call ring) (hx : InStep x)
    (slotId : BitVec 8) (physical : BitVec 64) :
    transferEvents slotId physical call.short
      (CycleRing.segment ring (x.driver.slot.first call.count) call.count) =
    (if call.short && call.hasData then
        [transferEvent slotId physical 13 (x.driver.slot.first call.count + 1)] else []) ++
      [transferEvent slotId physical 1 (x.driver.slot.first call.count + call.count - 1)] := by
  have hblock := h.block
  have hcy := hx.cycleFor call.count
  rw [UsbSlot.block, Ep0Call.trbs] at hblock
  generalize x.driver.slot.cycleFor call.count = cy at hblock hcy
  generalize x.driver.slot.first call.count = first at hblock
  obtain ⟨h1, h2, h3, h4, h5⟩ :=
    flags_spec hcy call.packet call.hasData (call.dataDma.getD 0) call.length
  rcases count_cases call with ⟨hd, hc⟩ | ⟨hd, hc⟩
  · rw [hd] at h1 h2 h5
    simp only [hd, hc, List.range'_succ, List.range'_zero, List.map_cons, List.map_nil, if_true,
      List.cons.injEq, and_true] at hblock
    obtain ⟨ha, hb, hs⟩ := hblock
    rw [← ha] at h1 h2
    rw [← hb] at h3 h4
    rw [← hs] at h5
    cases hshort : call.short <;> simp [transferEvents, CycleRing.segment, hc, hd, List.range'_succ,
      h1, h2, h3, h4, h5]
  · rw [hd] at h1 h2 h5
    simp only [hd, hc, List.range'_succ, List.range'_zero, List.map_cons, List.map_nil,
      Bool.false_eq_true, if_false, List.cons.injEq, and_true] at hblock
    obtain ⟨ha, hs⟩ := hblock
    rw [← ha] at h1 h2
    rw [← hs] at h5
    simp [transferEvents, CycleRing.segment, hc, hd, List.range'_succ, h1, h2, h5]

/-- The transfer completes, and the driver moves on. -/
theorem usbSendPacket_spec (hx : InStep x) (ha : accepts x.driver call = true) :
    let slot := x.driver.slot
    let sent := usbSendPacket x.driver x.controller call
    sent.executed = (execute (publish slot call) x.controller).1 ∧
    sent.controller = (execute (publish slot call) x.controller).2 ∧
    sent.driver = { x.driver with slot := { slot with ring := publish slot call,
                                                      ep0Index := (nextPosition slot call.count).1,
                                                      ep0Cycle := (nextPosition slot call.count).2 },
                                  events := sent.driver.events } ∧
    sent.driver.events.transferWaiting = false := by
  obtain ⟨pre, post, hquiet, hexec, -⟩ := execute_publish hx call
  have hp : Published x.driver.slot call _ := published_publish hx.index_lt
  have hseg := transferEvents_segment hp hx x.driver.slot.slotId x.driver.slot.ep0Physical
  generalize hphys : x.driver.slot.ep0Physical = physical at hseg
  generalize hid : x.driver.slot.slotId = slotId at hseg
  generalize hfirst : x.driver.slot.first call.count = first at hseg hexec
  -- all events of the transfer come from its own TRBs
  have hevents : transferEvents slotId physical call.short
      (execute (publish x.driver.slot call) x.controller).1 =
      (if call.short && call.hasData then [transferEvent slotId physical 13 (first + 1)] else []) ++
        [transferEvent slotId physical 1 (first + call.count - 1)] := by
    have hpre := transferEvents_quiet slotId physical call.short
      fun p hp => hquiet p (List.mem_append_left post hp)
    have hpost := transferEvents_quiet slotId physical call.short
      fun p hp => hquiet p (List.mem_append_right pre hp)
    rw [hexec]
    simp only [transferEvents, List.filterMap_append] at hpre hpost hseg ⊢
    rw [hpre, hpost, hseg, List.nil_append, List.append_nil]
  have hlast : first + call.count - 1 ≤ 256 := by
    have hindex := hx.index_lt
    rw [ep0Link] at hindex
    rw [← hfirst, UsbSlot.first]
    rcases count_cases call with ⟨-, hc⟩ | ⟨-, hc⟩ <;> split <;> omega
  generalize hstatus : physical + BitVec.ofNat 64 (16 * (first + call.count - 1)) = statusPhys
  have hfold : (transferEvents slotId physical call.short
      (execute (publish x.driver.slot call) x.controller).1).foldl processEvent
        (arm x.driver.events slotId statusPhys) =
      { arm x.driver.events slotId statusPhys with
        transferCompletion := transferEvent slotId physical 1 (first + call.count - 1)
        transferCompleted := true } := by
    rw [hevents, ← hstatus, List.foldl_append]
    split
    · rename_i hshort
      have hcount : call.count = 3 := by
        rcases count_cases call with ⟨-, hc⟩ | ⟨hd, -⟩
        · exact hc
        · rw [hd] at hshort
          exact absurd hshort (by simp)
      have hskip := processEvent_short x.driver.events slotId physical (i := first + 1)
        (j := first + call.count - 1) (by omega) hlast
      simp only [List.foldl_cons, List.foldl_nil]
      rw [hskip]
      exact processEvent_status
    · exact processEvent_status
  have hawait := awaitTransfer_delay (d := call.delay) (s := arm x.driver.events slotId statusPhys)
    rfl (by rw [hfold]) 500 (le_refl 500) (by omega) call.delay.isLt
  rw [hfold] at hawait
  have hcode : (transferEvent slotId physical 1 (first + call.count - 1)).completionCode = 1 := by
    show (1#32 <<< 24 >>> 24).setWidth 8 = 1#8
    decide
  simp only [usbSendPacket, ha, if_true, hfirst, hid, hphys, hstatus, hawait, hcode]
  simp

/-- Whatever the controller stops at, it executes the TRBs of the call and nothing else that does
something. -/
theorem executed_trbs (hx : InStep x) (call : Ep0Call) :
    (((execute (publish x.driver.slot call) x.controller).1.map Prod.snd).filter
      XhciTrb.isTransfer).map XhciTrb.clearCycle = call.trbs := by
  obtain ⟨pre, post, hquiet, hexec, -⟩ := execute_publish hx call
  have hp : Published x.driver.slot call _ := published_publish hx.index_lt
  have hquiet' : ∀ l : List (Nat × XhciTrb), (∀ p ∈ l, p ∈ pre ++ post) →
      (l.map Prod.snd).filter XhciTrb.isTransfer = [] := by
    intro l hl
    rw [List.filter_eq_nil_iff]
    intro t ht
    obtain ⟨p, hpl, rfl⟩ := List.mem_map.mp ht
    rw [(hquiet p (hl p hpl)).1]
    simp
  have hsegment : (CycleRing.segment (publish x.driver.slot call) (x.driver.slot.first call.count)
      call.count).map Prod.snd = x.driver.slot.block call := by
    rw [← hp.block, CycleRing.segment, List.map_map]
    rfl
  rw [hexec, List.map_append, List.map_append, List.filter_append, List.filter_append,
    hquiet' pre fun p hp => List.mem_append_left post hp,
    hquiet' post fun p hp => List.mem_append_right pre hp, List.nil_append, List.append_nil,
    hsegment, List.filter_eq_self.mpr, UsbSlot.block, List.map_map]
  · conv_rhs => rw [← List.map_id call.trbs]
    exact List.map_congr_left fun t ht => (orCycle_spec ht (hx.cycleFor call.count)).2.2.2
  · intro t ht
    obtain ⟨t', ht', rfl⟩ := List.mem_map.mp ht
    exact (orCycle_spec ht' (hx.cycleFor call.count)).2.2.1

/-- **A call is executed as it should if and only if the Link TRB is ready for it.** -/
theorem executes_iff (hx : InStep x) (ha : accepts x.driver call = true) :
    Executes x call ↔ LinkReady x.driver.slot call := by
  obtain ⟨hexec, hcontroller, hdriver, -⟩ := usbSendPacket_spec hx ha
  have hslot := congrArg Xhci.slot hdriver
  obtain ⟨-, -, -, -, hstop, hready, hnot⟩ := execute_publish hx call
  have hring : (x.send call).driver.slot.ring = publish x.driver.slot call := by
    rw [Ep0System.send, hslot]
  constructor
  · rintro ⟨-, -, hplace⟩
    by_contra hn
    obtain ⟨h1, h2⟩ := hnot hn
    rw [hring] at hplace
    simp only [Ep0System.send, hslot, hcontroller] at hplace
    rcases hplace with heq | ⟨hgo, -⟩
    · rw [heq] at h1
      rw [h2] at h1
      exact absurd h1 (show ¬ 0 = ep0Link by decide)
    · exact hgo hstop
  · intro hr
    refine ⟨?_, ?_, Or.inl ?_⟩
    · rw [hexec]
      exact executed_trbs hx call
    · rw [hring]
      simpa only [Ep0System.send, hcontroller] using hstop
    · simp only [Ep0System.send, hslot, hcontroller]
      exact hready hr

/-- What a transfer leaves in the ring: a traversal that ends where the next transfer starts. -/
theorem Published.traversal (h : Published x.driver.slot call ring) (hx : InStep x) :
    let p := nextPosition x.driver.slot call.count
    p.1 < ep0Link ∧ IsCycle p.2 ∧ (∀ j, j < p.1 → (ring j).cycle = p.2) ∧
      (∀ j, p.1 ≤ j → j < ep0Link → (ring j).cycle ≠ p.2) ∧
      ∃ cy, IsCycle cy ∧ (ring ep0Link).d3 = linkWord cy := by
  have hindex := hx.index_lt
  have hcount : call.count ≤ 3 := by rcases count_cases call with ⟨-, hc⟩ | ⟨-, hc⟩ <;> omega
  have hblock := fun j => h.cycles hx (j := j)
  have hne := hx.isCycle.xor.2
  cases hw : x.driver.slot.wraps call.count with
  | true =>
    have hlt : ep0Link < x.driver.slot.ep0Index + call.count := by simpa [UsbSlot.wraps] using hw
    have hfirst : x.driver.slot.first call.count = 0 := by rw [UsbSlot.first, hw, if_pos rfl]
    have hcycle : x.driver.slot.cycleFor call.count = x.driver.slot.ep0Cycle ^^^ 1 := by
      rw [UsbSlot.cycleFor, hw, if_pos rfl]
    have hnext : nextPosition x.driver.slot call.count =
        (call.count, x.driver.slot.ep0Cycle ^^^ 1) := by
      rw [nextPosition, hfirst, hcycle, Nat.zero_add, if_neg (by rw [ep0Link]; omega)]
    rw [hfirst, hcycle] at hblock
    rw [hnext]
    refine ⟨by rw [ep0Link]; omega, hx.isCycle.xor.1, fun j hj => (hblock j (by omega) (by omega)).1,
      fun j h1 h2 => ?_, x.driver.slot.ep0Cycle, hx.isCycle, h.link hw⟩
    dsimp only at h1
    by_cases hj : j < x.driver.slot.ep0Index
    · rw [h.kept j (by omega) (Or.inr hj), hx.written j hj]
      exact hne
    · rw [h.noops hw j (by omega) h2, (noopTrb_spec hx.isCycle).2.1]
      exact hne
  | false =>
    have hle : x.driver.slot.ep0Index + call.count ≤ ep0Link := by simpa [UsbSlot.wraps] using hw
    have hfirst : x.driver.slot.first call.count = x.driver.slot.ep0Index := by
      rw [UsbSlot.first, hw, if_neg (by simp)]
    have hcycle : x.driver.slot.cycleFor call.count = x.driver.slot.ep0Cycle := by
      rw [UsbSlot.cycleFor, hw, if_neg (by simp)]
    rw [hfirst, hcycle] at hblock
    obtain ⟨cy, hiscy, hword⟩ := hx.link
    rw [← h.kept ep0Link (by omega) (Or.inl hw)] at hword
    have hwritten : ∀ j, j < x.driver.slot.ep0Index + call.count →
        (ring j).cycle = x.driver.slot.ep0Cycle := by
      intro j hj
      by_cases hj' : j < x.driver.slot.ep0Index
      · rw [h.kept j (by omega) (Or.inl hw), hx.written j hj']
      · exact (hblock j (by omega) hj).1
    rcases Nat.lt_or_eq_of_le hle with hlt | hexact
    · have hnext : nextPosition x.driver.slot call.count =
          (x.driver.slot.ep0Index + call.count, x.driver.slot.ep0Cycle) := by
        rw [nextPosition, hfirst, hcycle, if_neg (by omega)]
      rw [hnext]
      refine ⟨hlt, hx.isCycle, hwritten, fun j h1 h2 => ?_, cy, hiscy, hword⟩
      dsimp only at h1
      rw [h.kept j (by omega) (Or.inl hw)]
      exact hx.stale j (by omega) h2
    · have hnext : nextPosition x.driver.slot call.count = (0, x.driver.slot.ep0Cycle ^^^ 1) := by
        rw [nextPosition, hfirst, hcycle, if_pos hexact]
      rw [hnext]
      refine ⟨by rw [ep0Link]; omega, hx.isCycle.xor.1, fun j hj => absurd hj (Nat.not_lt_zero j),
        fun j h1 h2 => ?_, cy, hiscy, hword⟩
      rw [hwritten j (by omega)]
      exact hne

/-- **One step**: driver and controller stay in step. -/
theorem InStep.send (hx : InStep x) (hr : accepts x.driver call = true → LinkReady x.driver.slot call) :
    InStep (x.send call) := by
  cases ha : accepts x.driver call with
  | false =>
    have hsame : x.send call = x := by
      simp only [Ep0System.send, usbSendPacket, ha, Bool.false_eq_true, if_false]
    rwa [hsame]
  | true =>
    obtain ⟨-, hcontroller, hdriver, -⟩ := usbSendPacket_spec hx ha
    have hslot := congrArg Xhci.slot hdriver
    obtain ⟨-, -, -, -, -, hready, -⟩ := execute_publish hx call
    have hp : Published x.driver.slot call _ := published_publish hx.index_lt
    obtain ⟨hlt, hcy, hwritten, hstale, hlink⟩ := hp.traversal hx
    constructor
    all_goals simp only [Ep0System.send, hslot, hcontroller]
    · exact hcy
    · exact hlt
    · exact hready (hr ha)
    · exact hwritten
    · exact hstale
    · exact hlink

end

/-! ## Sequences of calls -/

/-- The ring after `identify_device`: three TRBs, cleared entries and the Link TRB. -/
theorem identifyRing_spec (ringPhys bufferPhys : BitVec 64) :
    (∀ j, j < 3 → (identifyRing ringPhys bufferPhys j).cycle = 1 ∧
      trbFormat.link (identifyRing ringPhys bufferPhys j) = none) ∧
    (∀ j, 3 ≤ j → j < ep0Link → (identifyRing ringPhys bufferPhys j).cycle ≠ 1) ∧
    (identifyRing ringPhys bufferPhys ep0Link).d3 = linkWord 1 := by
  have hword : ∀ {t : XhciTrb} (d : BitVec 32), t.d3 = d →
      d &&& 1 = 1 ∧ (d >>> 10) &&& 0x3f ≠ trbLink → t.cycle = 1 ∧ trbFormat.link t = none := by
    rintro t d rfl ⟨h1, h2⟩
    exact ⟨h1, link_eq_none h2⟩
  refine ⟨fun j hj => ?_, fun j h1 h2 => ?_, rfl⟩
  · obtain rfl | rfl | rfl : j = 0 ∨ j = 1 ∨ j = 2 := by omega
    · exact hword (2#32 <<< 10 ||| 1#32 <<< 6 ||| 3#32 <<< 16 ||| 1) rfl (by decide)
    · exact hword (3#32 <<< 10 ||| 1#32 <<< 16 ||| 1) rfl (by decide)
    · exact hword (4#32 <<< 10 ||| 1#32 <<< 5 ||| 1) rfl (by decide)
  · have hzero : identifyRing ringPhys bufferPhys j = ⟨0, 0, 0, 0⟩ := by
      simp only [identifyRing]
      rw [write_of_ne (by omega), write_of_ne (by omega), write_of_ne (by omega),
        write_of_ne (by omega)]
    rw [hzero]
    decide

theorem inStep_identified (s : Xhci) (bufferPhys : BitVec 64) : InStep (identified s bufferPhys) := by
  obtain ⟨hfirst, hzero, hlink⟩ := identifyRing_spec s.slot.ep0Physical bufferPhys
  have hexec : (execute (identifyRing s.slot.ep0Physical bufferPhys) ⟨0, 1⟩).2 = ⟨3, 1⟩ := by
    have hstop : Stopped trbFormat (identifyRing s.slot.ep0Physical bufferPhys) ⟨0 + 3, 1⟩ :=
      hzero 3 (le_refl 3) (by decide)
    rw [execute, show 512 = 509 + 3 from rfl, drain_segment fun j _ hj => hfirst j (by omega),
      drain_stopped hstop]
  exact ⟨by simp [identified, IsCycle], by simp [identified, ep0Link], hexec,
    fun j hj => (hfirst j hj).1, hzero, 1, by simp [IsCycle], hlink⟩

variable {x : Ep0System}

theorem after_append (x : Ep0System) (calls calls' : List Ep0Call) :
    x.after (calls ++ calls') = (x.after calls).after calls' := List.foldl_append ..

theorem after_singleton (x : Ep0System) (call : Ep0Call) : x.after [call] = x.send call := rfl

theorem inStep_after (hx : InStep x) (pre : List Ep0Call)
    (h : ∀ calls call, calls ++ [call] <+: pre → accepts (x.after calls).driver call = true →
      LinkReady (x.after calls).driver.slot call) : InStep (x.after pre) := by
  induction pre using List.reverseRecOn with
  | nil => exact hx
  | append_singleton calls call ih =>
    have hstep := (ih fun calls' call' hp => h calls' call' (hp.trans (List.prefix_append _ _))).send
      (h calls call List.prefix_rfl)
    rwa [after_append]

/-- **The transfer ring of endpoint 0.**  Whatever calls are made on a slot that `identify_device` has set
up: the controller executes after the doorbell of every call exactly the TRBs of that call, and stops
where the driver thinks it does, if and only if no call ends exactly at the Link TRB while that has the
cycle of an earlier traversal. -/
theorem ep0_ring_iff (s : Xhci) (bufferPhys : BitVec 64) (calls : List Ep0Call) :
    (∀ pre call, pre ++ [call] <+: calls →
      accepts ((identified s bufferPhys).after pre).driver call = true →
      Executes ((identified s bufferPhys).after pre) call) ↔
    (∀ pre call, pre ++ [call] <+: calls →
      accepts ((identified s bufferPhys).after pre).driver call = true →
      LinkReady ((identified s bufferPhys).after pre).driver.slot call) := by
  have h0 := inStep_identified s bufferPhys
  constructor
  · intro h pre call hp ha
    -- the shorter sequences first
    induction hlen : pre.length using Nat.strong_induction_on generalizing pre call with
    | _ n ih =>
      have hin : InStep ((identified s bufferPhys).after pre) := by
        refine inStep_after h0 pre fun calls' call' hp' ha' => ?_
        have hle := hp'.length_le
        rw [List.length_append, List.length_singleton] at hle
        exact ih calls'.length (by omega) calls' call'
          (hp'.trans ((List.prefix_append pre [call]).trans hp)) ha' rfl
      exact (executes_iff hin ha).mp (h pre call hp ha)
  · intro h pre call hp ha
    have hin : InStep ((identified s bufferPhys).after pre) :=
      inStep_after h0 pre fun calls' call' hp' ha' =>
        h calls' call' (hp'.trans ((List.prefix_append pre [call]).trans hp)) ha'
    exact (executes_iff hin ha).mpr (h pre call hp ha)

/-! ## A ring that gets stuck -/

theorem accepts_send (hx : InStep x) {call : Ep0Call} (ha : accepts x.driver call = true) :
    accepts (x.send call).driver call = true := by
  obtain ⟨-, -, hdriver, hwaiting⟩ := usbSendPacket_spec hx ha
  have hp : Published x.driver.slot call _ := published_publish hx.index_lt
  have hlt := (hp.traversal hx).1
  simp only [accepts, Bool.and_eq_true] at ha ⊢
  rw [Ep0System.send, hdriver]
  refine ⟨⟨ha.1.1, by simpa using hlt.le⟩, ?_⟩
  show (!(usbSendPacket x.driver x.controller call).driver.events.transferWaiting) = true
  rw [hwaiting]
  rfl

/-- A call that does not wrap leaves the Link TRB as it is. -/
theorem send_fits (hx : InStep x) {call : Ep0Call} (ha : accepts x.driver call = true)
    (hle : x.driver.slot.ep0Index + call.count ≤ ep0Link) :
    (x.send call).driver.slot.ring ep0Link = x.driver.slot.ring ep0Link ∧
    ((x.send call).driver.slot.ep0Index, (x.send call).driver.slot.ep0Cycle) =
      if x.driver.slot.ep0Index + call.count = ep0Link then (0, x.driver.slot.ep0Cycle ^^^ 1)
      else (x.driver.slot.ep0Index + call.count, x.driver.slot.ep0Cycle) := by
  obtain ⟨-, -, hdriver, -⟩ := usbSendPacket_spec hx ha
  have hslot := congrArg Xhci.slot hdriver
  have hp : Published x.driver.slot call _ := published_publish hx.index_lt
  have hw : x.driver.slot.wraps call.count = false := by
    simp only [UsbSlot.wraps, decide_eq_false_iff_not]
    omega
  have hfirst : x.driver.slot.first call.count = x.driver.slot.ep0Index := by
    rw [UsbSlot.first, hw, if_neg (by simp)]
  have hcycle : x.driver.slot.cycleFor call.count = x.driver.slot.ep0Cycle := by
    rw [UsbSlot.cycleFor, hw, if_neg (by simp)]
  simp only [Ep0System.send, hslot]
  refine ⟨hp.kept ep0Link (by omega) (Or.inl hw), ?_⟩
  rw [nextPosition, hfirst, hcycle]

/-- Calls that all fit in front of the Link TRB. -/
theorem after_replicate (hx : InStep x) {call : Ep0Call} (ha : accepts x.driver call = true) : ∀ k : Nat,
    x.driver.slot.ep0Index + k * call.count < ep0Link →
    let y := x.after (List.replicate k call)
    InStep y ∧ accepts y.driver call = true ∧
      y.driver.slot.ep0Index = x.driver.slot.ep0Index + k * call.count ∧
      y.driver.slot.ep0Cycle = x.driver.slot.ep0Cycle ∧
      y.driver.slot.ring ep0Link = x.driver.slot.ring ep0Link := by
  intro k
  induction k with
  | zero => exact fun _ => ⟨hx, ha, by simp [Ep0System.after], rfl, rfl⟩
  | succ k ih =>
    intro hlt
    rw [Nat.succ_mul] at hlt ⊢
    obtain ⟨hy, hay, hindex, hcycle, hlink⟩ := ih (by omega)
    obtain ⟨hlink', hplace⟩ := send_fits hy hay (by omega)
    rw [if_neg (by omega)] at hplace
    obtain ⟨hindex', hcycle'⟩ := Prod.mk.inj hplace
    rw [List.replicate_succ', after_append]
    refine ⟨hy.send fun _ heq => absurd heq (by omega), accepts_send hy hay, ?_, ?_, ?_⟩
    · exact hindex'.trans (by omega)
    · exact hcycle'.trans hcycle
    · exact hlink'.trans hlink

/-- A controller with a device in slot 1. -/
def stuckXhci : Xhci where
  needsReinit := false
  ready := true
  portsCount := 1
  dcbaa _ := 0x2000
  port := 1
  slot := { slotId := 1, address := 1, ep0Mps := 64, ep0Index := 0, ep0Cycle := 0, ep0Virtual := 0x1000
            ep0Physical := 0x1000, outputContextVirtual := 0x2000, outputContextPhysical := 0x2000
            ring := fun _ => ⟨0, 0, 0, 0⟩ }
  events := {}

/-- GET_DESCRIPTOR for the 18 bytes of a device descriptor. -/
def getDescriptor : Ep0Call := ⟨⟨0x80, 6, 0x100, 0, 18⟩, 64, 18, 1, some 0x3000, false, 0, 0x4000⟩

theorem count_getDescriptor : getDescriptor.count = 3 := by decide

/-- In front of the Link TRB at the end of the second traversal. -/
theorem stuck_before : let y := (identified stuckXhci 0x3000).after (List.replicate 168 getDescriptor)
    InStep y ∧ accepts y.driver getDescriptor = true ∧ y.driver.slot.ep0Index = 252 ∧
      y.driver.slot.ep0Cycle = 0 ∧ (y.driver.slot.ring ep0Link).cycle = 1 := by
  have hx := inStep_identified stuckXhci 0x3000
  have ha : accepts (identified stuckXhci 0x3000).driver getDescriptor = true := by decide +kernel
  have hlink0 : ((identified stuckXhci 0x3000).driver.slot.ring ep0Link).cycle = 1 := by decide +kernel
  -- the first traversal, up to its last transfer
  obtain ⟨h1, ha1, hindex1, hcycle1, hlink1⟩ := after_replicate hx ha 83 (by
    rw [count_getDescriptor]; decide)
  rw [count_getDescriptor] at hindex1
  have hi1 : ((identified stuckXhci 0x3000).after
      (List.replicate 83 getDescriptor)).driver.slot.ep0Index = 252 := hindex1
  -- its last transfer fits exactly, and the Link TRB still has its first cycle
  obtain ⟨hlink2, hplace2⟩ := send_fits h1 ha1 (by rw [hi1, count_getDescriptor]; decide)
  rw [hi1, count_getDescriptor, if_pos (by decide), hcycle1] at hplace2
  obtain ⟨hindex2, hcycle2⟩ := Prod.mk.inj hplace2
  have h2 := @InStep.send _ getDescriptor h1 fun _ _ => by
    rw [hlink1, hcycle1, hlink0]
    rfl
  have ha2 := accepts_send h1 ha1
  -- the second traversal
  obtain ⟨h3, ha3, hindex3, hcycle3, hlink3⟩ := after_replicate h2 ha2 84 (by
    rw [hindex2, count_getDescriptor]; decide)
  have hsplit : (identified stuckXhci 0x3000).after (List.replicate 168 getDescriptor) =
      (((identified stuckXhci 0x3000).after (List.replicate 83 getDescriptor)).send
        getDescriptor).after (List.replicate 84 getDescriptor) := by
    have hlist : List.replicate 168 getDescriptor =
        List.replicate 83 getDescriptor ++ [getDescriptor] ++ List.replicate 84 getDescriptor := by
      rw [← List.replicate_succ', List.replicate_append_replicate]
    rw [hlist, after_append, after_append, after_singleton]
  rw [hsplit]
  refine ⟨h3, ha3, ?_, ?_, ?_⟩
  · rw [hindex3, hindex2, count_getDescriptor]
  · rw [hcycle3, hcycle2]
    rfl
  · rw [hlink3, hlink2, hlink1, hlink0]

theorem executed_eq {s : Xhci} {c : Consumer (BitVec 32)} {call : Ep0Call}
    (ha : accepts s call = true) :
    (usbSendPacket s c call).executed = (execute (publish s.slot call) c).1 := by
  simp only [usbSendPacket, ha, if_true]
  split
  · split <;> rfl
  · rfl

/-- Behind a call that fits exactly while the Link TRB is not ready, nothing is executed. -/
theorem executed_after_stuck (hx : InStep x) {call : Ep0Call} (ha : accepts x.driver call = true)
    (hexact : x.driver.slot.ep0Index + call.count = ep0Link)
    (hlink : (x.driver.slot.ring ep0Link).cycle ≠ x.driver.slot.ep0Cycle) :
    (usbSendPacket (x.send call).driver (x.send call).controller call).executed = [] := by
  obtain ⟨-, hcontroller, -⟩ := usbSendPacket_spec hx ha
  obtain ⟨hlink', hplace⟩ := send_fits hx ha hexact.le
  rw [if_pos hexact] at hplace
  obtain ⟨hindex', -⟩ := Prod.mk.inj hplace
  have hp : Published x.driver.slot call _ := published_publish hx.index_lt
  obtain ⟨heq, -, hstuck⟩ := execute_exact hp hx hexact
  have hc : (x.send call).controller = ⟨ep0Link, x.driver.slot.ep0Cycle⟩ := by
    rw [Ep0System.send, hcontroller, (hstuck (heq ▸ hlink)).1]
  have hp' : Published (x.send call).driver.slot call _ :=
    published_publish (by rw [hindex']; decide)
  have hcount : call.count ≤ 3 := by rcases count_cases call with ⟨-, hc⟩ | ⟨-, hc⟩ <;> omega
  have hw : (x.send call).driver.slot.wraps call.count = false := by
    simp only [UsbSlot.wraps, hindex', decide_eq_false_iff_not]
    rw [ep0Link]
    omega
  have hfirst : (x.send call).driver.slot.first call.count = 0 := by
    rw [UsbSlot.first, hw, if_neg (by simp), hindex']
  rw [executed_eq (accepts_send hx ha), hc, execute, drain_stopped]
  show ((publish (x.send call).driver.slot call) ep0Link).cycle ≠ x.driver.slot.ep0Cycle
  rw [hp'.kept ep0Link (by rw [hfirst, ep0Link]; omega) (Or.inl hw), hlink']
  exact hlink

/-- **The Link TRB of an earlier traversal.**  After 168 requests for the device descriptor the next one
fits exactly in the second traversal of the ring.  The controller executes it and then stands in front of
a Link TRB that it does not follow, and executes nothing of the request after that. -/
theorem ep0_ring_stuck :
    (¬ ∀ (s : Xhci) (bufferPhys : BitVec 64) (calls pre : List Ep0Call) (call : Ep0Call),
      pre ++ [call] <+: calls → accepts ((identified s bufferPhys).after pre).driver call = true →
      Executes ((identified s bufferPhys).after pre) call) ∧
    let x := (identified stuckXhci 0x3000).after (List.replicate 169 getDescriptor)
    accepts x.driver getDescriptor = true ∧
      (usbSendPacket x.driver x.controller getDescriptor).executed = [] := by
  obtain ⟨hy, hay, hindex, hcycle, hlink⟩ := stuck_before
  refine ⟨fun h => ?_, ?_⟩
  · have hready := (executes_iff hy hay).mp (h stuckXhci 0x3000 _ _ getDescriptor List.prefix_rfl hay)
    have hlink' := hready (by rw [hindex, count_getDescriptor]; rfl)
    rw [hlink, hcycle] at hlink'
    exact absurd hlink' (by decide)
  · rw [show (169 : Nat) = 168 + 1 from rfl, List.replicate_succ', after_append, after_singleton]
    exact ⟨accepts_send hy hay, executed_after_stuck hy hay (by rw [hindex, count_getDescriptor]; rfl)
      (by rw [hlink, hcycle]; decide)⟩

end Dem64
