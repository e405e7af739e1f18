import Dem64.Usb.Event
import Mathlib.Logic.Relation

/-!
# Transfers and their events

`usb_send_packet` and `identify_device` announce a transfer to the event handler, one store after the
other, then wait until the handler has found its event.  The handler may run in interrupt context between
any two of these steps, and it may find any events.  `transfer_matching` says that only the event of the
status TRB ends a transfer successfully, and that no transfer is announced while another one is.

The stores to the transfer ring are left out: they do not touch what is shared with the handler, and when
the controller sees which TRB makes no difference if it may post any event at any time.
-/

set_option autoImplicit false

namespace Dem64

/-- Who waits for an event. -/
inductive Waiter
  /-- `usb_send_packet`. -/
  | send
  /-- `identify_device`, which waits in `wait_transfer_event`. -/
  | identify
deriving DecidableEq

/-- What the driver does next. -/
inductive TransferPhase
  /-- It waits for nothing. -/
  | idle
  /-- `usb_send_packet` tests `transfer_waiting`. -/
  | check
  /-- The stores that announce the transfer: `transfer_slot` … -/
  | storeSlot
  /-- … `transfer_endpoint` … -/
  | storeEndpoint
  /-- … `transfer_trb_pointer` … -/
  | storePointer
  /-- … `transfer_completed` … -/
  | storeCompleted
  /-- … and `transfer_waiting`. -/
  | storeWaiting
  /-- The TRBs are stored, and the doorbell is rung. -/
  | publish
  /-- `wait_transfer_event` starts. -/
  | enter
  /-- `xhci_process_events` is called in the loop. -/
  | process
  /-- `transfer_completed` is tested. -/
  | test
  /-- `wait_transfer_event` tests whether the time is over. -/
  | expire
  /-- `transfer_completion` is read. -/
  | read
  /-- `transfer_waiting` is cleared, and the event looked at. -/
  | disarm
  /-- `transfer_waiting` is cleared, and nothing was found. -/
  | giveUp
deriving DecidableEq

/-- The place of a phase in the order of the steps. -/
def TransferPhase.rank : TransferPhase → Nat
  | .idle => 0
  | .check => 1
  | .storeSlot => 2
  | .storeEndpoint => 3
  | .storePointer => 4
  | .storeCompleted => 5
  | .storeWaiting => 6
  | .publish => 7
  | .enter => 8
  | .process => 9
  | .test => 10
  | .expire => 11
  | .read => 12
  | .disarm => 13
  | .giveUp => 14

/-- The driver, and what it shares with the event handler. -/
structure TransferRun where
  /-- Who waits. -/
  waiter : Waiter
  /-- What it does next. -/
  phase : TransferPhase
  /-- The slot of the device. -/
  slotId : BitVec 8
  /-- The address of the status TRB. -/
  statusPhys : BitVec 64
  /-- How often the loop has waited. -/
  elapsed : Nat
  /-- The local variable `completion`, or `transfer_event`. -/
  completion : XhciTrb
  /-- What is shared. -/
  events : EventState
  /-- The events that the handler has taken since the transfer was announced. -/
  consumed : List XhciTrb
  /-- Has the last call accepted the transfer? -/
  returned : Option Bool

namespace TransferRun

/-- A call of `usb_send_packet`, up to its test of `transfer_waiting`, or of `identify_device`, up to
the first store. -/
def call (s : TransferRun) (waiter : Waiter) (slotId : BitVec 8) (statusPhys : BitVec 64) : TransferRun :=
  { s with waiter := waiter, slotId := slotId, statusPhys := statusPhys, elapsed := 0, returned := none
           phase := if waiter = .send then .check else .storeSlot }

/-- The call returns. -/
def finish (s : TransferRun) (accepted : Bool) : TransferRun :=
  { s with phase := .idle, returned := some accepted }

/-- `xhci_process_events`, with the events that it finds. -/
def handle (s : TransferRun) (l : List XhciTrb) : TransferRun :=
  { s with events := l.foldl processEvent s.events, consumed := s.consumed ++ l }

/-- The end of the loop is after 500 rounds. -/
def timeout : Nat := 500

/-- The next step of the driver; `response` is what `kmalloc` returns for the response. -/
def step (s : TransferRun) (response : Bool) : TransferRun :=
  match s.phase with
  | .idle => s
  | .check => if s.events.transferWaiting then s.finish false else { s with phase := .storeSlot }
  | .storeSlot => { s with phase := .storeEndpoint, events := { s.events with transferSlot := s.slotId } }
  | .storeEndpoint => { s with phase := .storePointer, events := { s.events with transferEndpoint := 1 } }
  | .storePointer =>
    { s with phase := .storeCompleted, events := { s.events with transferTrbPointer := s.statusPhys } }
  | .storeCompleted =>
    { s with phase := .storeWaiting, events := { s.events with transferCompleted := false } }
  | .storeWaiting =>
    { s with phase := .publish, events := { s.events with transferWaiting := true }, consumed := [] }
  | .publish => { s with phase := if s.waiter = .send then .process else .enter }
  | .enter =>
    if s.events.transferWaiting then
      if s.events.transferSlot ≠ s.slotId ∨ s.events.transferEndpoint ≠ 1 ∨
          s.events.transferTrbPointer ≠ s.statusPhys then s.finish false
      else { s with phase := .test }
    else { s with phase := .storeSlot }
  -- the handler runs here
  | .process => { s with phase := if s.waiter = .send then .test else .expire }
  | .test =>
    if s.events.transferCompleted then { s with phase := .read }
    else if s.waiter = .send then
      if s.elapsed + 1 < timeout then { s with phase := .process, elapsed := s.elapsed + 1 }
      else { s with phase := .giveUp }
    else { s with phase := .process }
  | .expire =>
    if s.elapsed ≥ timeout then { s with phase := .giveUp }
    else { s with phase := .test, elapsed := s.elapsed + 1 }
  | .read => { s with phase := .disarm, completion := s.events.transferCompletion }
  | .disarm =>
    let s := { s with events := { s.events with transferWaiting := false } }
    let code := s.completion.completionCode
    if s.waiter = .send then s.finish ((code == 1 || code == 13) && response) else s.finish (code == 1)
  | .giveUp => { s with events := { s.events with transferWaiting := false } }.finish false

end TransferRun

/-- One step of the driver or of the event handler. -/
inductive TransferStep : TransferRun → TransferRun → Prop
  /-- The driver starts a transfer. -/
  | call {s : TransferRun} (h : s.phase = .idle) (waiter : Waiter) (slotId : BitVec 8)
      (statusPhys : BitVec 64) : TransferStep s (s.call waiter slotId statusPhys)
  /-- The driver goes on; in its loop it calls the event handler. -/
  | driver {s : TransferRun} (l : List XhciTrb) (response : Bool) (h : s.phase = .process ∨ l = []) :
      TransferStep s ((s.handle l).step response)
  /-- The event handler runs in interrupt context. -/
  | interrupt {s : TransferRun} (l : List XhciTrb) : TransferStep s (s.handle l)

/-- No transfer was announced so far. -/
def transferStart (events : EventState) : TransferRun where
  waiter := .send
  phase := .idle
  slotId := 0
  statusPhys := 0
  elapsed := 0
  completion := ⟨0, 0, 0, 0⟩
  events := { events with transferWaiting := false }
  consumed := []
  returned := none

/-! ## What has to hold -/

/-- A Transfer Event for the default endpoint of the slot that is no event-data event. -/
def ForSlot (slotId : BitVec 8) (event : XhciTrb) : Prop :=
  event.type = 32 ∧ ((event.d3 >>> 24) &&& 0xff).setWidth 8 = slotId ∧
    ((event.d3 >>> 16) &&& 0x1f).setWidth 8 = (1 : BitVec 8) ∧ event.d3 &&& (1#32 <<< 2) = 0

/-- A completion code that means success: Success or Short Packet. -/
def Succeeded (event : XhciTrb) : Prop := event.completionCode = 1 ∨ event.completionCode = 13

/-- In every state: -/
structure TransferCorrect (s : TransferRun) : Prop where
  /-- A call that accepts a transfer has got the event of its status TRB since it announced it. -/
  accepted : s.returned = some true →
    ∃ event ∈ s.consumed, ForSlot s.slotId event ∧ event.pointer = s.statusPhys ∧ Succeeded event
  /-- While a call waits, it is the event of the status TRB or an error that has ended the transfer; a
  Short Packet event of another TRB has not. -/
  completed : 7 ≤ s.phase.rank → s.events.transferCompleted = true →
    ∃ event ∈ s.consumed, ForSlot s.slotId event ∧ (event.pointer = s.statusPhys ∨ ¬ Succeeded event)
  /-- A transfer is announced only if no other one is. -/
  single : s.phase = .storeWaiting → s.events.transferWaiting = false

/-- What holds at any time. -/
structure TransferInv (s : TransferRun) : Prop where
  /-- Before a transfer is announced nothing waits. -/
  quiet : s.phase.rank ≤ 6 → s.events.transferWaiting = false
  /-- Afterwards this transfer does. -/
  armed : 7 ≤ s.phase.rank → s.events.transferWaiting = true
  /-- The slot is stored. -/
  slot : 3 ≤ s.phase.rank → s.events.transferSlot = s.slotId
  /-- The endpoint is stored. -/
  endpoint : 4 ≤ s.phase.rank → s.events.transferEndpoint = 1
  /-- The address is stored. -/
  pointer : 5 ≤ s.phase.rank → s.events.transferTrbPointer = s.statusPhys
  /-- `transfer_completed` was cleared. -/
  cleared : s.phase = .storeWaiting → s.events.transferCompleted = false
  /-- The event that has ended the transfer. -/
  found : 7 ≤ s.phase.rank → s.events.transferCompleted = true →
    s.events.transferCompletion ∈ s.consumed ∧ ForSlot s.slotId s.events.transferCompletion ∧
      (s.events.transferCompletion.pointer = s.statusPhys ∨ ¬ Succeeded s.events.transferCompletion)
  /-- It is still there when it is read. -/
  ended : s.phase = .read ∨ s.phase = .disarm → s.events.transferCompleted = true
  /-- The local copy. -/
  copy : s.phase = .disarm → s.completion = s.events.transferCompletion
  /-- What was accepted. -/
  accepted : s.returned = some true →
    ∃ event ∈ s.consumed, ForSlot s.slotId event ∧ event.pointer = s.statusPhys ∧ Succeeded event
  /-- A call that has not returned has no result. -/
  running : 1 ≤ s.phase.rank → s.returned = none

/-! ## The event handler -/

section

variable {s : TransferRun}

/-- What one event does to what is shared. -/
theorem processEvent_waiter (e : EventState) (event : XhciTrb) :
    (processEvent e event).transferWaiting = e.transferWaiting ∧
    (processEvent e event).transferSlot = e.transferSlot ∧
    (processEvent e event).transferEndpoint = e.transferEndpoint ∧
    (processEvent e event).transferTrbPointer = e.transferTrbPointer ∧
    ((processEvent e event).transferCompleted = e.transferCompleted ∧
        (processEvent e event).transferCompletion = e.transferCompletion ∨
      (event.type = 32 ∧ transferMatches e event = true) ∧
        (processEvent e event).transferCompletion = event) := by
  rw [processEvent]
  split
  · split <;> exact ⟨rfl, rfl, rfl, rfl, Or.inl ⟨rfl, rfl⟩⟩
  · split
    · dsimp only
      split <;> exact ⟨rfl, rfl, rfl, rfl, Or.inl ⟨rfl, rfl⟩⟩
    · split
      · rename_i htype
        split
        · rename_i hm
          exact ⟨rfl, rfl, rfl, rfl, Or.inr ⟨⟨htype, hm⟩, rfl⟩⟩
        · exact ⟨rfl, rfl, rfl, rfl, Or.inl ⟨rfl, rfl⟩⟩
      · exact ⟨rfl, rfl, rfl, rfl, Or.inl ⟨rfl, rfl⟩⟩

/-- The event that ends a transfer. -/
theorem transferMatches_spec {e : EventState} {event : XhciTrb} (htype : event.type = 32)
    (h : transferMatches e event = true) (hendpoint : e.transferEndpoint = 1) :
    e.transferWaiting = true ∧ e.transferCompleted = false ∧ ForSlot e.transferSlot event ∧
      (event.pointer = e.transferTrbPointer ∨ ¬ Succeeded event) := by
  simp only [transferMatches, Bool.and_eq_true, Bool.or_eq_true, Bool.not_eq_true', beq_iff_eq, bne_iff_ne,
    bne_eq_false_iff_eq] at h
  obtain ⟨⟨⟨⟨⟨hw, hc⟩, hdata⟩, hslot⟩, hep⟩, hpointer⟩ := h
  refine ⟨hw, hc, ⟨htype, hslot, hep.trans hendpoint, hdata⟩, hpointer.imp_right ?_⟩
  rintro ⟨h1, h13⟩ (h | h)
  · exact h1 h
  · exact h13 h

theorem TransferInv.handle_one (hs : TransferInv s) (event : XhciTrb) : TransferInv (s.handle [event]) := by
  obtain ⟨hwaiting, hslot, hendpoint, hpointer, hcompleted⟩ := processEvent_waiter s.events event
  have hmem : ∀ e, e ∈ s.consumed → e ∈ s.consumed ++ [event] := fun e he => List.mem_append_left _ he
  have hsame : s.events.transferWaiting = false ∨ s.events.transferCompleted = true →
      (processEvent s.events event).transferCompleted = s.events.transferCompleted ∧
        (processEvent s.events event).transferCompletion = s.events.transferCompletion := by
    intro h
    refine hcompleted.resolve_right fun hc => ?_
    have hm := hc.1.2
    simp only [transferMatches, Bool.and_eq_true, Bool.not_eq_true'] at hm
    rcases h with h | h
    · exact absurd (h.symm.trans hm.1.1.1.1.1) (by simp)
    · exact absurd (h.symm.trans hm.1.1.1.1.2) (by simp)
  exact
    { quiet := fun h => hwaiting.trans (hs.quiet h)
      armed := fun h => hwaiting.trans (hs.armed h)
      slot := fun h => hslot.trans (hs.slot h)
      endpoint := fun h => hendpoint.trans (hs.endpoint h)
      pointer := fun h => hpointer.trans (hs.pointer h)
      cleared := fun h => by
        have hrank : s.phase.rank ≤ 6 := by rw [show s.phase = _ from h]; decide
        exact (hsame (Or.inl (hs.quiet hrank))).1.trans (hs.cleared h)
      found := fun h hc => by
        have h7 : 7 ≤ s.phase.rank := h
        rcases hcompleted with ⟨h1, h2⟩ | ⟨⟨htype, hm⟩, h2⟩
        · obtain ⟨hmem', hfor, hend⟩ := hs.found h7 (h1.symm.trans hc)
          show (processEvent s.events event).transferCompletion ∈ s.consumed ++ [event] ∧ _
          dsimp only [TransferRun.handle, List.foldl_cons, List.foldl_nil]
          rw [h2]
          exact ⟨hmem _ hmem', hfor, hend⟩
        · obtain ⟨-, -, hfor, hend⟩ := transferMatches_spec htype hm (hs.endpoint (by omega))
          dsimp only [TransferRun.handle, List.foldl_cons, List.foldl_nil]
          rw [h2, ← hs.slot (by omega), ← hs.pointer (by omega)]
          exact ⟨List.mem_append_right _ List.mem_cons_self, hfor, hend⟩
      ended := fun h => (hsame (Or.inr (hs.ended h))).1.trans (hs.ended h)
      copy := fun h => (hs.copy h).trans (hsame (Or.inr (hs.ended (Or.inr h)))).2.symm
      accepted := fun h => by
        obtain ⟨e, he, hrest⟩ := hs.accepted h
        exact ⟨e, hmem e he, hrest⟩
      running := hs.running }

theorem TransferInv.handle (hs : TransferInv s) (l : List XhciTrb) : TransferInv (s.handle l) := by
  induction l generalizing s with
  | nil =>
    have hnil : s.handle [] = s := by rw [TransferRun.handle, List.foldl_nil, List.append_nil]
    rw [hnil]
    exact hs
  | cons event l ih =>
    have hcons : s.handle (event :: l) = (s.handle [event]).handle l := by
      simp [TransferRun.handle]
    rw [hcons]
    exact ih (hs.handle_one event)

/-! ## The driver -/

theorem TransferInv.call (hs : TransferInv s) (h : s.phase = .idle) (waiter : Waiter) (slotId : BitVec 8)
    (statusPhys : BitVec 64) : TransferInv (s.call waiter slotId statusPhys) := by
  have hrank : (s.call waiter slotId statusPhys).phase.rank ≤ 2 := by
    show (if waiter = .send then TransferPhase.check else .storeSlot).rank ≤ 2
    split <;> decide
  have hno : ∀ k, 3 ≤ k → ¬ k ≤ (s.call waiter slotId statusPhys).phase.rank := fun k hk => by omega
  have hne : ∀ p : TransferPhase, 3 ≤ p.rank → (s.call waiter slotId statusPhys).phase ≠ p := by
    rintro p hp rfl
    omega
  exact
    { quiet := fun _ => hs.quiet (by rw [h]; decide)
      armed := fun h7 => absurd h7 (hno 7 (by decide))
      slot := fun h3 => absurd h3 (hno 3 (by decide))
      endpoint := fun h4 => absurd h4 (hno 4 (by decide))
      pointer := fun h5 => absurd h5 (hno 5 (by decide))
      cleared := fun hp => absurd hp (hne _ (by decide))
      found := fun h7 => absurd h7 (hno 7 (by decide))
      ended := fun hp => hp.elim (fun hp => absurd hp (hne _ (by decide)))
        fun hp => absurd hp (hne _ (by decide))
      copy := fun hp => absurd hp (hne _ (by decide))
      accepted := fun hr => absurd hr (by simp [TransferRun.call])
      running := fun _ => rfl }

/-- A call returns while nothing waits. -/
theorem transferInv_finish (e : EventState) (he : e.transferWaiting = false)
    {accepted : Bool} (h : accepted = true →
      ∃ event ∈ s.consumed, ForSlot s.slotId event ∧ event.pointer = s.statusPhys ∧ Succeeded event) :
    TransferInv ({ s with events := e }.finish accepted) where
  quiet _ := he
  armed h7 := absurd (show 7 ≤ TransferPhase.idle.rank from h7) (by decide)
  slot h3 := absurd (show 3 ≤ TransferPhase.idle.rank from h3) (by decide)
  endpoint h4 := absurd (show 4 ≤ TransferPhase.idle.rank from h4) (by decide)
  pointer h5 := absurd (show 5 ≤ TransferPhase.idle.rank from h5) (by decide)
  cleared hp := absurd (show TransferPhase.idle = .storeWaiting from hp) (by decide)
  found h7 := absurd (show 7 ≤ TransferPhase.idle.rank from h7) (by decide)
  ended hp := absurd (show TransferPhase.idle = .read ∨ TransferPhase.idle = .disarm from hp) (by decide)
  copy hp := absurd (show TransferPhase.idle = .disarm from hp) (by decide)
  accepted hr := h (Option.some_inj.mp hr)
  running h1 := absurd (show 1 ≤ TransferPhase.idle.rank from h1) (by decide)

/-- The driver waits for its event, and goes on to another step of waiting. -/
theorem TransferInv.wait (hs : TransferInv s) (h7 : 7 ≤ s.phase.rank) {p : TransferPhase} (hp : 7 ≤ p.rank)
    (n : Nat) (hread : p = .read → s.events.transferCompleted = true) (hdisarm : p ≠ .disarm) :
    TransferInv { s with phase := p, elapsed := n } where
  quiet h6 := absurd (show p.rank ≤ 6 from h6) (by omega)
  armed _ := hs.armed h7
  slot _ := hs.slot (by omega)
  endpoint _ := hs.endpoint (by omega)
  pointer _ := hs.pointer (by omega)
  cleared hq := by
    have hrank : p.rank = 6 := by rw [show p = _ from hq]; rfl
    omega
  found _ := hs.found h7
  ended hq := hq.elim hread fun hq => absurd hq hdisarm
  copy hq := absurd hq hdisarm
  accepted := hs.accepted
  running _ := hs.running (by omega)

/-- A store in front of the last one. -/
theorem TransferInv.store (hs : TransferInv s) (h2 : 1 ≤ s.phase.rank) (h5 : s.phase.rank ≤ 6)
    {p : TransferPhase} (hp : p.rank ≤ 6) (e : EventState) (he : e.transferWaiting = s.events.transferWaiting)
    (hslot : 3 ≤ p.rank → e.transferSlot = s.slotId) (hendpoint : 4 ≤ p.rank → e.transferEndpoint = 1)
    (hpointer : 5 ≤ p.rank → e.transferTrbPointer = s.statusPhys)
    (hcleared : p = .storeWaiting → e.transferCompleted = false) :
    TransferInv { s with phase := p, events := e } where
  quiet _ := he.trans (hs.quiet h5)
  armed h7 := absurd (show 7 ≤ p.rank from h7) (by omega)
  slot := hslot
  endpoint := hendpoint
  pointer := hpointer
  cleared := hcleared
  found h7 := absurd (show 7 ≤ p.rank from h7) (by omega)
  ended hq := by
    have hrank : 7 ≤ p.rank := by
      rcases hq with hq | hq <;> rw [show p = _ from hq] <;> decide
    omega
  copy hq := by
    have hrank : 7 ≤ p.rank := by rw [show p = _ from hq]; decide
    omega
  accepted := hs.accepted
  running _ := hs.running h2

theorem TransferInv.step (hs : TransferInv s) (response : Bool) : TransferInv (s.step response) := by
  cases hp : s.phase <;> simp only [TransferRun.step, hp]
  case idle => exact hs
  case check =>
    have hno := hs.quiet (by rw [hp]; decide)
    rw [if_neg (by rw [hno]; simp)]
    exact hs.store (by rw [hp]; decide) (by rw [hp]; decide) (by decide) s.events rfl
      (fun h => absurd h (by decide)) (fun h => absurd h (by decide)) (fun h => absurd h (by decide))
      (fun h => absurd h (by decide))
  case storeSlot =>
    exact hs.store (by rw [hp]; decide) (by rw [hp]; decide) (by decide) _ rfl (fun _ => rfl)
      (fun h => absurd h (by decide)) (fun h => absurd h (by decide)) (fun h => absurd h (by decide))
  case storeEndpoint =>
    exact hs.store (by rw [hp]; decide) (by rw [hp]; decide) (by decide) _ rfl
      (fun _ => hs.slot (by rw [hp]; decide)) (fun _ => rfl) (fun h => absurd h (by decide))
      (fun h => absurd h (by decide))
  case storePointer =>
    exact hs.store (by rw [hp]; decide) (by rw [hp]; decide) (by decide) _ rfl
      (fun _ => hs.slot (by rw [hp]; decide)) (fun _ => hs.endpoint (by rw [hp]; decide)) (fun _ => rfl)
      (fun h => absurd h (by decide))
  case storeCompleted =>
    exact hs.store (by rw [hp]; decide) (by rw [hp]; decide) (by decide) _ rfl
      (fun _ => hs.slot (by rw [hp]; decide)) (fun _ => hs.endpoint (by rw [hp]; decide))
      (fun _ => hs.pointer (by rw [hp]; decide)) (fun _ => rfl)
  case storeWaiting =>
    have hcleared := hs.cleared hp
    exact
      { quiet := fun h6 => absurd (show TransferPhase.publish.rank ≤ 6 from h6) (by decide)
        armed := fun _ => rfl
        slot := fun _ => hs.slot (by rw [hp]; decide)
        endpoint := fun _ => hs.endpoint (by rw [hp]; decide)
        pointer := fun _ => hs.pointer (by rw [hp]; decide)
        cleared := fun hq => absurd (show TransferPhase.publish = .storeWaiting from hq) (by decide)
        found := fun _ hc => absurd (hcleared.symm.trans hc) (by simp)
        ended := fun hq => absurd (show TransferPhase.publish = .read ∨ TransferPhase.publish = .disarm from hq)
          (by decide)
        copy := fun hq => absurd (show TransferPhase.publish = .disarm from hq) (by decide)
        accepted := fun hr => absurd ((hs.running (by rw [hp]; decide)).symm.trans hr) (by simp)
        running := fun _ => hs.running (by rw [hp]; decide) }
  case publish =>
    split
    · exact hs.wait (by rw [hp]; decide) (by decide) s.elapsed (fun h => absurd h (by decide)) (by decide)
    · exact hs.wait (by rw [hp]; decide) (by decide) s.elapsed (fun h => absurd h (by decide)) (by decide)
  case enter =>
    rw [if_pos (hs.armed (by rw [hp]; decide)), if_neg]
    · exact hs.wait (by rw [hp]; decide) (by decide) s.elapsed (fun h => absurd h (by decide)) (by decide)
    · rintro (h | h | h)
      · exact h (hs.slot (by rw [hp]; decide))
      · exact h (hs.endpoint (by rw [hp]; decide))
      · exact h (hs.pointer (by rw [hp]; decide))
  case process =>
    split
    · exact hs.wait (by rw [hp]; decide) (by decide) s.elapsed (fun h => absurd h (by decide)) (by decide)
    · exact hs.wait (by rw [hp]; decide) (by decide) s.elapsed (fun h => absurd h (by decide)) (by decide)
  case test =>
    split
    · rename_i hc
      exact hs.wait (by rw [hp]; decide) (by decide) s.elapsed (fun _ => hc) (by decide)
    · split
      · split
        · exact hs.wait (by rw [hp]; decide) (by decide) _ (fun h => absurd h (by decide)) (by decide)
        · exact hs.wait (by rw [hp]; decide) (by decide) s.elapsed (fun h => absurd h (by decide)) (by decide)
      · exact hs.wait (by rw [hp]; decide) (by decide) s.elapsed (fun h => absurd h (by decide)) (by decide)
  case expire =>
    split
    · exact hs.wait (by rw [hp]; decide) (by decide) s.elapsed (fun h => absurd h (by decide)) (by decide)
    · exact hs.wait (by rw [hp]; decide) (by decide) _ (fun h => absurd h (by decide)) (by decide)
  case read =>
    have hc := hs.ended (Or.inl hp)
    exact
      { quiet := fun h6 => absurd (show TransferPhase.disarm.rank ≤ 6 from h6) (by decide)
        armed := fun _ => hs.armed (by rw [hp]; decide)
        slot := fun _ => hs.slot (by rw [hp]; decide)
        endpoint := fun _ => hs.endpoint (by rw [hp]; decide)
        pointer := fun _ => hs.pointer (by rw [hp]; decide)
        cleared := fun hq => absurd (show TransferPhase.disarm = .storeWaiting from hq) (by decide)
        found := fun _ => hs.found (by rw [hp]; decide)
        ended := fun _ => hc
        copy := fun _ => rfl
        accepted := hs.accepted
        running := fun _ => hs.running (by rw [hp]; decide) }
  case disarm =>
    -- the event that is looked at is the one that has ended the transfer
    obtain ⟨hmem, hfor, hend⟩ := hs.found (by rw [hp]; decide) (hs.ended (Or.inr hp))
    rw [← hs.copy hp] at hmem hfor hend
    have hok : Succeeded s.completion → ∃ event ∈ s.consumed,
        ForSlot s.slotId event ∧ event.pointer = s.statusPhys ∧ Succeeded event :=
      fun hsucc => ⟨_, hmem, hfor, hend.resolve_right fun hc => hc hsucc, hsucc⟩
    split
    · refine transferInv_finish _ rfl fun h => hok ?_
      simp only [Bool.and_eq_true, Bool.or_eq_true, beq_iff_eq] at h
      exact h.1
    · refine transferInv_finish _ rfl fun h => hok (Or.inl ?_)
      simpa using h
  case giveUp => exact transferInv_finish _ rfl fun h => absurd h (by simp)

/-! ## Runs -/

theorem transferInv_start (events : EventState) : TransferInv (transferStart events) where
  quiet _ := rfl
  armed h := absurd (show 7 ≤ TransferPhase.idle.rank from h) (by decide)
  slot h := absurd (show 3 ≤ TransferPhase.idle.rank from h) (by decide)
  endpoint h := absurd (show 4 ≤ TransferPhase.idle.rank from h) (by decide)
  pointer h := absurd (show 5 ≤ TransferPhase.idle.rank from h) (by decide)
  cleared h := absurd (show TransferPhase.idle = .storeWaiting from h) (by decide)
  found h := absurd (show 7 ≤ TransferPhase.idle.rank from h) (by decide)
  ended h := absurd (show TransferPhase.idle = .read ∨ TransferPhase.idle = .disarm from h) (by decide)
  copy h := absurd (show TransferPhase.idle = .disarm from h) (by decide)
  accepted h := absurd h (by simp [transferStart])
  running h := absurd (show 1 ≤ TransferPhase.idle.rank from h) (by decide)

/-- **Transfers and their events.**  In every run, whatever events the handler finds and whenever it
runs. -/
theorem transfer_matching (events : EventState) (s : TransferRun)
    (hrun : Relation.ReflTransGen TransferStep (transferStart events) s) : TransferCorrect s := by
  have hinv : TransferInv s := by
    induction hrun with
    | refl => exact transferInv_start events
    | tail _ hstep ih =>
      cases hstep with
      | call h waiter slotId statusPhys => exact ih.call h waiter slotId statusPhys
      | driver l response h => exact (ih.handle l).step response
      | interrupt l => exact ih.handle l
  exact
    { accepted := hinv.accepted
      completed := fun h7 hc => ⟨_, hinv.found h7 hc⟩
      single := fun h => hinv.quiet (by rw [h]; decide) }

end

/-- The status TRB of a transfer at 0x5020, executed without an error. -/
def statusEvent : XhciTrb := ⟨0x5020, 0, 1#32 <<< 24, trbType 32 ||| 1#32 <<< 16 ||| 3#32 <<< 24⟩

/-- A transfer is announced, its event is taken in interrupt context, and the call returns. -/
def acceptedTransfer : TransferRun :=
  ((fun s => s.step true)^[6] ((((fun s => s.step true)^[6]
    ((transferStart {}).call .send 3 0x5020)).handle [statusEvent])))

/-- The transfer is accepted. -/
theorem transfer_matching_accepted : acceptedTransfer.returned = some true ∧
    TransferCorrect acceptedTransfer := by
  have hstep : ∀ s : TransferRun, TransferStep s (s.step true) := by
    intro s
    have h := TransferStep.driver (s := s) [] true (Or.inr rfl)
    rwa [show s.handle [] = s by rw [TransferRun.handle, List.foldl_nil, List.append_nil]] at h
  have hsteps : ∀ (n : Nat) (s : TransferRun),
      Relation.ReflTransGen TransferStep s ((fun s => s.step true)^[n] s) := by
    intro n
    induction n with
    | zero => exact fun _ => Relation.ReflTransGen.refl
    | succ n ih => exact fun s => (Relation.ReflTransGen.single (hstep s)).trans (ih _)
  refine ⟨by decide +kernel, transfer_matching {} _ ?_⟩
  have hcall : TransferStep (transferStart {}) _ := TransferStep.call rfl .send 3 0x5020
  exact (((Relation.ReflTransGen.single hcall).trans (hsteps 6 _)).tail
    (TransferStep.interrupt [statusEvent])).trans (hsteps 6 _)

end Dem64
