import Dem64.Usb.Command
import Mathlib.Logic.Relation

/-!
# The event ring

`xhci_process_events` takes events from a ring that the controller fills at the same time, 256 of them
in a call at most, and tells the controller how far it got by writing ERDP.  The controller posts events
as long as it does not overtake the last ERDP that was written.  The steps of a run are those of the
controller, the iterations of the loop, and everything that can happen in between: nested calls, which
the flag `processing_events` turns away, and calls of `xhci_take_port_change`.

`event_ring` says that the driver takes every event once, in order, and never an entry that is left over
from an earlier traversal; that between calls ERDP is the address of the next entry that is not read; and
which port-change bits are set.
-/

set_option autoImplicit false

namespace Dem64

open CycleRing

/-- The value that `write_pointer_register` writes. -/
def writePointerRegister (value : BitVec 64) (ac64 : Bool) : BitVec 64 :=
  if ac64 then value else (value.setWidth 32).setWidth 64

/-- Driver and controller, with what they have done so far. -/
structure EventLoop where
  /-- `rings.event`. -/
  ring : Nat → XhciTrb
  /-- `rings.event_index`. -/
  eventIndex : Nat
  /-- `rings.event_cycle`. -/
  eventCycle : BitVec 32
  /-- `rings.event_dma.physical_address`. -/
  base : BitVec 64
  /-- `rings.ac64`. -/
  ac64 : Bool
  /-- `processing_events`. -/
  processing : Bool
  /-- The local variable `processed`. -/
  processed : Nat
  /-- The local variable `pending`, as far as it is used. -/
  pending : Bool
  /-- IMAN.IP. -/
  interruptPending : Bool
  /-- ERDP.EHB. -/
  handlerBusy : Bool
  /-- What was written to ERDP last. -/
  erdp : BitVec 64
  /-- What is shared with the rest of the driver. -/
  events : EventState
  /-- The index at which the controller posts the next event. -/
  producerIndex : Nat
  /-- The cycle which that event gets. -/
  producerCycle : BitVec 32
  /-- The events that were posted. -/
  posted : List XhciTrb
  /-- The events that `poll_event` has returned. -/
  delivered : List XhciTrb
  /-- How many of them the last ERDP has given back to the controller. -/
  released : Nat
  /-- The events that were taken and the ports that were asked for, the last one first. -/
  history : List (XhciTrb ⊕ Nat)

namespace EventLoop

/-- The controller posts an event. -/
def post (s : EventLoop) (event : XhciTrb) : EventLoop :=
  { s with ring := write s.ring s.producerIndex event
           producerIndex := (advanceEvent s.producerIndex s.producerCycle).1
           producerCycle := (advanceEvent s.producerIndex s.producerCycle).2
           posted := s.posted ++ [event] }

/-- `poll_event` finds an event. -/
def hasEvent (s : EventLoop) : Bool := (s.ring s.eventIndex).d3 &&& 1 == s.eventCycle

/-- `xhci_process_events` up to its loop. -/
def enter (s : EventLoop) : EventLoop :=
  { s with processing := true, processed := 0, pending := s.interruptPending, interruptPending := false }

/-- An iteration of the loop: the event that `poll_event` returns is processed. -/
def poll (s : EventLoop) : EventLoop :=
  let event := s.ring s.eventIndex
  { s with eventIndex := (advanceEvent s.eventIndex s.eventCycle).1
           eventCycle := (advanceEvent s.eventIndex s.eventCycle).2
           processed := s.processed + 1
           events := processEvent s.events event
           delivered := s.delivered ++ [event]
           history := .inl event :: s.history }

/-- The address of the entry at `event_index`. -/
def next (s : EventLoop) : BitVec 64 := s.base + BitVec.ofNat 64 (16 * s.eventIndex)

/-- `xhci_process_events` after its loop.  A write to ERDP with bit 3 clears EHB. -/
def leave (s : EventLoop) : EventLoop :=
  if s.processed ≠ 0 ∨ s.pending ∨ s.handlerBusy then
    { s with processing := false, handlerBusy := false, released := s.delivered.length
             erdp := writePointerRegister (s.next ||| 1#64 <<< 3) s.ac64 }
  else { s with processing := false }

/-- `xhci_take_port_change`, for a port number other than 0. -/
def takePortChange (s : EventLoop) (port : Nat) : Bool × EventLoop :=
  let mask := 1#32 <<< (port &&& 31)
  let changes := s.events.pendingPortChanges
  (changes (port >>> 5) &&& mask != 0,
    { s with events := { s.events with
               pendingPortChanges := fun i => if i = port >>> 5 then changes i &&& ~~~mask else changes i }
             history := .inr port :: s.history })

end EventLoop

/-- One step. -/
inductive EventLoopStep : EventLoop → EventLoop → Prop
  /-- The controller posts an event, with its cycle, if it does not overtake ERDP. -/
  | post {s : EventLoop} (event : XhciTrb) (hcycle : event.cycle = s.producerCycle)
      (hroom : s.posted.length < s.released + 256) : EventLoopStep s (s.post event)
  /-- The controller requests an interrupt. -/
  | interrupt {s : EventLoop} :
      EventLoopStep s { s with interruptPending := true, handlerBusy := true }
  /-- `xhci_process_events` is called. -/
  | enter {s : EventLoop} (h : s.processing = false) : EventLoopStep s s.enter
  /-- `xhci_process_events` is called while it is running: the call returns at once. -/
  | nested {s : EventLoop} (h : s.processing = true) : EventLoopStep s s
  /-- An iteration of its loop. -/
  | poll {s : EventLoop} (h : s.processing = true) (hlt : s.processed < 256) (hevent : s.hasEvent = true) :
      EventLoopStep s s.poll
  /-- The loop ends, and the call. -/
  | leave {s : EventLoop} (h : s.processing = true) (hend : 256 ≤ s.processed ∨ s.hasEvent = false) :
      EventLoopStep s s.leave
  /-- `xhci_take_port_change` is called. -/
  | takePortChange {s : EventLoop} (port : Nat) (h0 : port ≠ 0) (hlt : port < 256) :
      EventLoopStep s (s.takePortChange port).2
  /-- The rest of the driver changes what is not about ports. -/
  | driver {s : EventLoop} (events : EventState)
      (h : events.pendingPortChanges = s.events.pendingPortChanges) :
      EventLoopStep s { s with events := events }

/-- The event ring after `setup_rings`; no port has changed. -/
def eventLoopStart (base : BitVec 64) (ac64 : Bool) (events : EventState) : EventLoop where
  ring _ := ⟨0, 0, 0, 0⟩
  eventIndex := 0
  eventCycle := 1
  base := base
  ac64 := ac64
  processing := false
  processed := 0
  pending := false
  interruptPending := false
  handlerBusy := false
  erdp := writePointerRegister base ac64
  events := { events with pendingPortChanges := fun _ => 0 }
  producerIndex := 0
  producerCycle := 1
  posted := []
  delivered := []
  released := 0
  history := []

/-! ## What has to hold -/

/-- A Port Status Change Event for the port. -/
def IsPortChange (port : Nat) (event : XhciTrb) : Prop :=
  event.type = 34 ∧ (event.d0 >>> 24).toNat = port

instance (port : Nat) (event : XhciTrb) : Decidable (IsPortChange port event) :=
  inferInstanceAs (Decidable (_ ∧ _))

/-- An event for the port was taken since the port was asked for the last time. -/
def Changed (port : Nat) : List (XhciTrb ⊕ Nat) → Prop
  | [] => False
  | .inl event :: l => IsPortChange port event ∨ Changed port l
  | .inr p :: l => p ≠ port ∧ Changed port l

/-- The bit of a port in `pending_port_changes`. -/
def EventState.portBit (s : EventState) (port : Nat) : Bool :=
  (s.pendingPortChanges (port >>> 5)).getLsbD (port &&& 31)

/-- What holds at any time. -/
structure EventLoopInv (s : EventLoop) : Prop where
  /-- The events are taken in order. -/
  delivered : s.delivered = s.posted.take s.delivered.length
  /-- No more than were posted. -/
  delivered_le : s.delivered.length ≤ s.posted.length
  /-- No more are given back than were taken. -/
  released_le : s.released ≤ s.delivered.length
  /-- The controller does not overtake ERDP. -/
  room : s.posted.length ≤ s.released + 256
  /-- What is posted and not yet taken is in the ring. -/
  queue : IsQueue XhciTrb.cycle eventPhase 256 s.ring s.delivered.length
    (s.posted.drop s.delivered.length)
  /-- The driver's place. -/
  consumer : s.eventIndex = s.delivered.length % 256 ∧
    s.eventCycle = eventPhase (s.delivered.length / 256)
  /-- The controller's place. -/
  producer : s.producerIndex = s.posted.length % 256 ∧
    s.producerCycle = eventPhase (s.posted.length / 256)
  /-- ERDP, before anything is taken in a call and between two calls. -/
  erdp : s.processing = false ∨ s.processed = 0 → s.released = s.delivered.length ∧
    s.erdp ||| 1#64 <<< 3 = writePointerRegister s.next s.ac64 ||| 1#64 <<< 3
  /-- The port-change bits. -/
  ports : ∀ port, port ≠ 0 → port < 256 → (s.events.portBit port = true ↔ Changed port s.history)

/-! ## The ports -/

section

variable {s : EventLoop}

theorem port_split {p q : Nat} : p = q ↔ p >>> 5 = q >>> 5 ∧ p &&& 31 = q &&& 31 := by
  have hand : ∀ n : Nat, n &&& 31 = n % 32 := fun n => Nat.and_two_pow_sub_one_eq_mod n 5
  rw [Nat.shiftRight_eq_div_pow, Nat.shiftRight_eq_div_pow, hand, hand]
  omega

/-- The bit of a mask. -/
theorem getLsbD_mask (p q : Nat) : (1#32 <<< (p &&& 31)).getLsbD (q &&& 31) = decide (p &&& 31 = q &&& 31) := by
  have hand : ∀ n : Nat, n &&& 31 < 32 := fun n => by
    rw [Nat.and_two_pow_sub_one_eq_mod n 5]
    exact Nat.mod_lt _ (by decide)
  have hp := hand p
  have hq := hand q
  rw [BitVec.getLsbD_shiftLeft, BitVec.getLsbD_one]
  by_cases h : p &&& 31 = q &&& 31
  · simp [h, hq]
  · simp only [h, decide_false, Bool.and_eq_false_imp]
    simp
    omega

/-- An event for a port sets the bit of this port, and no other event changes a bit. -/
theorem portBit_processEvent (e : EventState) (event : XhciTrb) {port : Nat} (h0 : port ≠ 0)
    (hlt : port < 256) : (processEvent e event).portBit port = true ↔
      IsPortChange port event ∨ e.portBit port = true := by
  have hother : ∀ e' : EventState, e'.pendingPortChanges = e.pendingPortChanges → event.type ≠ 34 →
      (e'.portBit port = true ↔ IsPortChange port event ∨ e.portBit port = true) := by
    intro e' he htype
    rw [EventState.portBit, he, EventState.portBit]
    exact (or_iff_right fun hc => htype hc.1).symm
  rw [processEvent]
  split
  · rename_i htype
    refine hother _ ?_ (by rw [htype]; decide)
    split <;> rfl
  · split
    · rename_i htype
      dsimp only
      split
      · rename_i hp
        rw [EventState.portBit, EventState.portBit]
        dsimp only
        rw [IsPortChange, and_iff_right htype, port_split (p := (event.d0 >>> 24).toNat)]
        split
        · rename_i hword
          rw [BitVec.getLsbD_or, getLsbD_mask, Bool.or_eq_true, decide_eq_true_eq, hword]
          tauto
        · rename_i hword
          exact (or_iff_right fun hc => hword hc.1.symm).symm
      · rename_i hp
        refine (or_iff_right fun hc => hp ?_).symm
        rw [hc.2]
        exact ⟨h0, hlt⟩
    · rename_i htype
      refine hother _ ?_ htype
      split
      · split <;> rfl
      · rfl

/-- Asking for a port clears its bit, and no other. -/
theorem portBit_takePortChange (s : EventLoop) (p port : Nat) :
    (s.takePortChange p).2.events.portBit port = true ↔ p ≠ port ∧ s.events.portBit port = true := by
  rw [EventState.portBit, EventLoop.takePortChange]
  dsimp only
  rw [Ne, port_split (p := p) (q := port)]
  split
  · rename_i hword
    rw [BitVec.getLsbD_and, BitVec.getLsbD_not, getLsbD_mask, Bool.and_eq_true, EventState.portBit, hword]
    have hlt : port &&& 31 < 32 := Nat.and_lt_two_pow port (n := 5) (by decide)
    by_cases hbit : p &&& 31 = port &&& 31
    · simp [hbit]
    · simp [hbit, hlt]
  · rename_i hword
    rw [EventState.portBit]
    exact (and_iff_right fun hc => hword hc.1.symm).symm

/-- The result of `xhci_take_port_change` is the bit of the port. -/
theorem takePortChange_fst (s : EventLoop) (port : Nat) :
    (s.takePortChange port).1 = s.events.portBit port := by
  have hlt : port &&& 31 < 32 := Nat.and_lt_two_pow port (n := 5) (by decide)
  rw [EventLoop.takePortChange, EventState.portBit]
  dsimp only
  generalize s.events.pendingPortChanges (port >>> 5) = x
  cases hx : x.getLsbD (port &&& 31) with
  | false =>
    rw [bne_eq_false_iff_eq]
    apply BitVec.eq_of_getLsbD_eq
    intro i hi
    rw [BitVec.getLsbD_and, BitVec.getLsbD_shiftLeft, BitVec.getLsbD_one]
    by_cases h : i = port &&& 31
    · subst h
      rw [hx, Bool.false_and]
      simp
    · simp
      omega
  | true =>
    rw [bne_iff_ne]
    intro hc
    have hbit := congrArg (fun y => y.getLsbD (port &&& 31)) hc
    simp only [BitVec.getLsbD_and, getLsbD_mask, hx, Bool.true_and] at hbit
    simp at hbit

/-! ## The steps -/

theorem writePointerRegister_or (x : BitVec 64) (ac64 : Bool) :
    writePointerRegister (x ||| 1#64 <<< 3) ac64 = writePointerRegister x ac64 ||| 1#64 <<< 3 := by
  rw [writePointerRegister, writePointerRegister]
  split
  · rfl
  · rw [BitVec.setWidth_or, BitVec.setWidth_or]
    rfl

theorem EventLoopInv.post (hs : EventLoopInv s) {event : XhciTrb} (hcycle : event.cycle = s.producerCycle)
    (hroom : s.posted.length < s.released + 256) : EventLoopInv (s.post event) := by
  have hle := hs.delivered_le
  have hrel := hs.released_le
  obtain ⟨hi, hc⟩ := hs.producer
  have hlen : s.delivered.length + (s.posted.drop s.delivered.length).length = s.posted.length := by
    rw [List.length_drop]
    omega
  exact
    { delivered := by
        show _ = (s.posted ++ [event]).take s.delivered.length
        rw [List.take_append_of_le_length hle]
        exact hs.delivered
      delivered_le := by
        show _ ≤ (s.posted ++ [event]).length
        rw [List.length_append]
        exact hle.trans (Nat.le_add_right _ _)
      released_le := hrel
      room := by
        show (s.posted ++ [event]).length ≤ _
        rw [List.length_append, List.length_singleton]
        exact hroom
      queue := by
        have hpush := hs.queue.push (x := event) (by omega) (by rw [hlen, ← hc]; exact hcycle)
        rw [hlen, ← hi] at hpush
        show IsQueue _ _ _ _ _ ((s.posted ++ [event]).drop s.delivered.length)
        rw [List.drop_append_of_le_length hle]
        exact hpush
      consumer := hs.consumer
      producer := by
        show (advanceEvent s.producerIndex s.producerCycle).1 = (s.posted ++ [event]).length % 256 ∧
          (advanceEvent s.producerIndex s.producerCycle).2 = eventPhase ((s.posted ++ [event]).length / 256)
        rw [hi, hc, advanceEvent_eq, List.length_append, List.length_singleton]
        exact ⟨rfl, rfl⟩
      erdp := hs.erdp
      ports := hs.ports }

/-- There is an event exactly if one was posted and not yet taken. -/
theorem EventLoopInv.hasEvent_iff (hs : EventLoopInv s) :
    s.hasEvent = true ↔ s.delivered.length < s.posted.length := by
  have hle := hs.delivered_le
  have hiff := hs.queue.cycle_eq_iff (by decide)
  rw [← hs.consumer.1, ← hs.consumer.2] at hiff
  rw [EventLoop.hasEvent, beq_iff_eq]
  refine Iff.trans hiff ?_
  rw [← List.length_pos_iff, List.length_drop]
  omega

/-- **The event that is taken is the oldest one.** -/
theorem EventLoopInv.head (hs : EventLoopInv s) (h : s.delivered.length < s.posted.length) :
    s.ring s.eventIndex = s.posted[s.delivered.length] := by
  have hq := hs.queue
  rw [List.drop_eq_getElem_cons h] at hq
  rw [hs.consumer.1]
  exact hq.head

theorem EventLoopInv.poll (hs : EventLoopInv s) (hprocessing : s.processing = true)
    (hevent : s.hasEvent = true) : EventLoopInv s.poll := by
  have hlt := hs.hasEvent_iff.mp hevent
  have hhead := hs.head hlt
  obtain ⟨hi, hc⟩ := hs.consumer
  have hlen : s.poll.delivered.length = s.delivered.length + 1 := List.length_append
  exact
    { delivered := by
        rw [hlen]
        show s.delivered ++ [s.ring s.eventIndex] = s.posted.take (s.delivered.length + 1)
        rw [List.take_succ_eq_append_getElem hlt, hhead]
        exact congrArg (· ++ _) hs.delivered
      delivered_le := by
        rw [hlen]
        exact hlt
      released_le := by
        rw [hlen]
        exact hs.released_le.trans (Nat.le_succ _)
      room := hs.room
      queue := by
        rw [hlen]
        have hq := hs.queue
        rw [List.drop_eq_getElem_cons hlt] at hq
        exact hq.pop eventPhase_ne
      consumer := by
        rw [hlen]
        show (advanceEvent s.eventIndex s.eventCycle).1 = _ ∧
          (advanceEvent s.eventIndex s.eventCycle).2 = _
        rw [hi, hc, advanceEvent_eq]
        exact ⟨rfl, rfl⟩
      producer := hs.producer
      erdp := by
        rintro (h | h)
        · exact absurd (hprocessing.symm.trans h) (by simp)
        · exact absurd h (Nat.succ_ne_zero _)
      ports := fun port h0 hlt => (portBit_processEvent _ _ h0 hlt).trans
        (or_congr Iff.rfl (hs.ports port h0 hlt)) }

theorem EventLoopInv.leave (hs : EventLoopInv s) : EventLoopInv s.leave := by
  rw [EventLoop.leave]
  split
  · exact
      { delivered := hs.delivered
        delivered_le := hs.delivered_le
        released_le := Nat.le_refl _
        room := by
          have h1 := hs.room
          have h2 := hs.released_le
          show s.posted.length ≤ s.delivered.length + 256
          omega
        queue := hs.queue
        consumer := hs.consumer
        producer := hs.producer
        erdp := fun _ => by
          refine ⟨rfl, ?_⟩
          show writePointerRegister (s.next ||| 1#64 <<< 3) s.ac64 ||| _ = writePointerRegister s.next s.ac64 ||| _
          rw [writePointerRegister_or, BitVec.or_assoc, BitVec.or_self]
        ports := hs.ports }
  · rename_i hno
    have h0 : s.processed = 0 := by
      by_contra hne
      exact hno (Or.inl hne)
    exact { hs with erdp := fun _ => hs.erdp (Or.inr h0) }

theorem EventLoopInv.step {s' : EventLoop} (hs : EventLoopInv s) (h : EventLoopStep s s') :
    EventLoopInv s' := by
  cases h with
  | post event hcycle hroom => exact hs.post hcycle hroom
  | interrupt => exact { hs with }
  | enter h => exact { hs with erdp := fun _ => hs.erdp (Or.inl h) }
  | nested h => exact hs
  | poll h hlt hevent => exact hs.poll h hevent
  | leave h hend => exact hs.leave
  | takePortChange port h0 hlt =>
    have hports : ∀ q, q ≠ 0 → q < 256 → ((s.takePortChange port).2.events.portBit q = true ↔
        Changed q (s.takePortChange port).2.history) := fun q hq hq' =>
      (portBit_takePortChange s port q).trans (and_congr Iff.rfl (hs.ports q hq hq'))
    exact { hs with ports := hports }
  | driver events h =>
    have hports : ∀ q, q ≠ 0 → q < 256 → (events.portBit q = true ↔ Changed q s.history) := by
      intro q hq hq'
      rw [EventState.portBit, h]
      exact hs.ports q hq hq'
    exact { hs with ports := hports }

theorem eventLoopInv_start (base : BitVec 64) (ac64 : Bool) (events : EventState) :
    EventLoopInv (eventLoopStart base ac64 events) where
  delivered := rfl
  delivered_le := Nat.le_refl 0
  released_le := Nat.le_refl 0
  room := Nat.zero_le _
  queue := by
    refine ⟨Nat.zero_le _, fun k h => absurd h (Nat.not_lt_zero k), fun k _ hk => ?_⟩
    show (XhciTrb.mk 0 0 0 0).cycle ≠ eventPhase ((0 + k) / 256)
    rw [Nat.zero_add, Nat.div_eq_of_lt hk]
    decide
  consumer := ⟨rfl, by simp [eventLoopStart, eventPhase]⟩
  producer := ⟨rfl, by simp [eventLoopStart, eventPhase]⟩
  erdp _ := by
    refine ⟨rfl, ?_⟩
    show writePointerRegister base ac64 ||| _ = writePointerRegister (base + BitVec.ofNat 64 0) ac64 ||| _
    rw [show base + BitVec.ofNat 64 0 = base from BitVec.add_zero base]
  ports port _ _ := by simp [eventLoopStart, EventState.portBit, Changed]

/-! ## Runs -/

/-- The driver has taken every event that was posted so far or will take it next, in order; ERDP is the
address of the next entry, except during a call; and the port-change bits are those of the events that
were taken. -/
structure EventRingCorrect (s : EventLoop) : Prop where
  /-- Every event is taken once, in order. -/
  delivered : s.delivered <+: s.posted
  /-- `poll_event` finds an event if and only if there is one that was not taken. -/
  found : s.hasEvent = true ↔ s.delivered ≠ s.posted
  /-- It is the next one. -/
  head : ∀ h : s.delivered.length < s.posted.length, s.ring s.eventIndex = s.posted[s.delivered.length]
  /-- Between two calls ERDP is the address of the next entry; bit 3 is EHB. -/
  erdp : s.processing = false → s.erdp ||| 1#64 <<< 3 =
    (s.base + BitVec.ofNat 64 (16 * (s.delivered.length % 256))) ||| 1#64 <<< 3
  /-- `xhci_take_port_change` answers for the events since it was asked for the port before. -/
  ports : ∀ port, port ≠ 0 → port < 256 →
    ((s.takePortChange port).1 = true ↔ Changed port s.history)

/-- Without 64-bit addresses, `xhci_dma_alloc` has taken care that the ring lies below 4 GiB. -/
def RingBelow4G (base : BitVec 64) (ac64 : Bool) : Prop := ac64 = false → base.toNat + 4096 ≤ 2 ^ 32

theorem writePointerRegister_eq {base : BitVec 64} {ac64 : Bool} (h : RingBelow4G base ac64) {i : Nat}
    (hi : i < 256) : writePointerRegister (base + BitVec.ofNat 64 (16 * i)) ac64 =
      base + BitVec.ofNat 64 (16 * i) := by
  rw [writePointerRegister]
  split
  · rfl
  · rename_i hac
    have hlt := h (by simpa using hac)
    apply BitVec.eq_of_toNat_eq
    simp only [BitVec.toNat_setWidth, BitVec.toNat_add, BitVec.toNat_ofNat]
    omega

theorem constants_step {s s' : EventLoop} (h : EventLoopStep s s') : s'.base = s.base ∧ s'.ac64 = s.ac64 := by
  cases h with
  | leave h hend =>
    rw [EventLoop.leave]
    split <;> exact ⟨rfl, rfl⟩
  | _ => exact ⟨rfl, rfl⟩

/-- **The event ring.**  In every state of every run, for all events that a controller posts by the rules
of the ring and all interleavings with calls of `xhci_process_events`. -/
theorem event_ring (base : BitVec 64) (ac64 : Bool) (hbase : RingBelow4G base ac64) (events : EventState)
    (s : EventLoop) (hrun : Relation.ReflTransGen EventLoopStep (eventLoopStart base ac64 events) s) :
    EventRingCorrect s := by
  have hinv : EventLoopInv s ∧ s.base = base ∧ s.ac64 = ac64 := by
    induction hrun with
    | refl => exact ⟨eventLoopInv_start base ac64 events, rfl, rfl⟩
    | tail _ hstep ih =>
      obtain ⟨h1, h2⟩ := constants_step hstep
      exact ⟨ih.1.step hstep, h1.trans ih.2.1, h2.trans ih.2.2⟩
  obtain ⟨hs, rfl, rfl⟩ := hinv
  exact
    { delivered := by
        rw [hs.delivered]
        exact List.take_prefix _ _
      found := by
        have hle := hs.delivered_le
        rw [hs.hasEvent_iff]
        constructor
        · intro hlt heq
          rw [heq] at hlt
          exact Nat.lt_irrefl _ hlt
        · intro hne
          by_contra hlt
          refine hne ?_
          rw [hs.delivered, List.take_of_length_le (by omega)]
      head := hs.head
      erdp := fun h => by
        have herdp := (hs.erdp (Or.inl h)).2
        rw [EventLoop.next, hs.consumer.1] at herdp
        rw [herdp, writePointerRegister_eq hbase (Nat.mod_lt _ (by decide))]
      ports := fun port h0 hlt => by
        rw [takePortChange_fst]
        exact hs.ports port h0 hlt }

end

/-- A Port Status Change Event for port 5. -/
def portEvent : XhciTrb := ⟨5#32 <<< 24, 0, 0, trbType 34 ||| 1⟩

/-- The event was posted, and taken by a call of `xhci_process_events`. -/
def portTaken : EventLoop := ((eventLoopStart 0x1000 false {}).post portEvent).enter.poll.leave

/-- The driver has taken the event. -/
theorem event_ring_port : EventRingCorrect portTaken := by
  refine event_ring 0x1000 false (fun _ => by decide) {} portTaken ?_
  have hpost : EventLoopStep (eventLoopStart 0x1000 false {}) _ :=
    EventLoopStep.post portEvent (by decide +kernel) (by decide)
  have henter : EventLoopStep ((eventLoopStart 0x1000 false {}).post portEvent) _ :=
    EventLoopStep.enter rfl
  have hpoll : EventLoopStep ((eventLoopStart 0x1000 false {}).post portEvent).enter _ :=
    EventLoopStep.poll rfl (by decide) (by decide +kernel)
  have hleave : EventLoopStep ((eventLoopStart 0x1000 false {}).post portEvent).enter.poll portTaken :=
    EventLoopStep.leave rfl (Or.inr (by decide +kernel))
  exact (((Relation.ReflTransGen.single hpost).tail henter).tail hpoll).tail hleave

example : portTaken.delivered = [portEvent] ∧ portTaken.events.portBit 5 = true := by decide +kernel

end Dem64
