import Dem64.Usb.Event

/-!
# Commands of the xHCI driver

`submit_command` puts a command into the command ring and announces it to the event handler, and
`wait_command` polls for its completion.  The controller executes a command as soon as it sees it, and
the event handler runs in interrupt context as well, so that all of this is interleaved: the model has
one step for every store of `submit_command` and every round of `wait_command`, for every call of
`xhci_process_events` in between, and for everything the controller does.

The numbers of commands (`current`, `owner`, and the number in an `Announced` event) are not in memory.
They say whose completion an event is, which the addresses do not: they come back after 255 commands.
-/

set_option autoImplicit false

namespace Dem64

open CycleRing

/-! ## The event ring -/

/-- An event, with the number of the command whose completion it is. -/
structure Announced where
  /-- What is in the event ring. -/
  event : XhciTrb
  /-- The command. -/
  command : Option Nat
  /-- Command Completion Events, and no others, belong to a command. -/
  isSome_iff : command.isSome = true ↔ event.type = 33

/-- The cycle of the events of a traversal. -/
def eventPhase (t : Nat) : BitVec 32 := if t % 2 = 0 then 1 else 0

theorem eventPhase_ne (t : Nat) : eventPhase t ≠ eventPhase (t + 1) := by
  rw [eventPhase, eventPhase]
  split
  · rw [if_neg (by omega)]
    decide
  · rw [if_pos (by omega)]
    decide

theorem eventPhase_xor (t : Nat) : eventPhase (t + 1) = eventPhase t ^^^ 1 := by
  rw [eventPhase, eventPhase]
  split
  · rw [if_neg (by omega)]
    decide
  · rw [if_pos (by omega)]
    decide

/-- The event ring with the driver's place in it (`event_index`, `event_cycle`) and the controller's.
`unread` is what was posted and not yet taken. -/
structure EventRing where
  /-- `rings.event`. -/
  ring : Nat → XhciTrb
  /-- `rings.event_index`. -/
  eventIndex : Nat
  /-- `rings.event_cycle`. -/
  eventCycle : BitVec 32
  /-- The index at which the controller posts the next event. -/
  producerIndex : Nat
  /-- The cycle which that event gets. -/
  producerCycle : BitVec 32
  /-- The events between the two. -/
  unread : List Announced
  /-- They are where the driver will look for them, and nothing else is. -/
  isQueue : ∃ r, IsQueue XhciTrb.cycle eventPhase 256 ring r (unread.map Announced.event) ∧
    eventIndex = r % 256 ∧ eventCycle = eventPhase (r / 256) ∧
    producerIndex = (r + unread.length) % 256 ∧ producerCycle = eventPhase ((r + unread.length) / 256)

/-- One place further in the event ring. -/
def advanceEvent (index : Nat) (cycle : BitVec 32) : Nat × BitVec 32 :=
  if index + 1 = 256 then (0, cycle ^^^ 1) else (index + 1, cycle)

theorem advanceEvent_eq (r : Nat) :
    advanceEvent (r % 256) (eventPhase (r / 256)) = ((r + 1) % 256, eventPhase ((r + 1) / 256)) := by
  obtain ⟨h1, h2⟩ := next_index (N := 256) (r := r) (by decide)
  rw [advanceEvent, h1, h2]
  split
  · rw [eventPhase_xor]
  · rfl

namespace EventRing

/-- The ring after `poll_event` has taken the first of the unread events. -/
def pop (s : EventRing) (a : Announced) (rest : List Announced) (h : s.unread = a :: rest) : EventRing where
  ring := s.ring
  eventIndex := (advanceEvent s.eventIndex s.eventCycle).1
  eventCycle := (advanceEvent s.eventIndex s.eventCycle).2
  producerIndex := s.producerIndex
  producerCycle := s.producerCycle
  unread := rest
  isQueue := by
    obtain ⟨r, hq, hi, hc, hp, hpc⟩ := s.isQueue
    rw [h, List.map_cons] at hq
    rw [h, List.length_cons] at hp hpc
    refine ⟨r + 1, hq.pop eventPhase_ne, ?_, ?_, ?_, ?_⟩
    · rw [hi, hc, advanceEvent_eq]
    · rw [hi, hc, advanceEvent_eq]
    · rw [hp, Nat.add_assoc, Nat.add_comm 1]
    · rw [hpc, Nat.add_assoc, Nat.add_comm 1]

/-- `poll_event`: looks at the entry at `event_index`, and takes it if it has the right cycle. -/
def pollEvent (s : EventRing) : Option (Announced × EventRing) :=
  if (s.ring s.eventIndex).d3 &&& 1 ≠ s.eventCycle then none
  else
    match h : s.unread with
    | [] => none
    | a :: rest => some (a, s.pop a rest h)

/-- There is nothing to take if and only if the cycle is wrong. -/
theorem pollEvent_eq_none_iff (s : EventRing) :
    s.pollEvent = none ↔ (s.ring s.eventIndex).d3 &&& 1 ≠ s.eventCycle := by
  obtain ⟨r, hq, hi, hc, -⟩ := s.isQueue
  have hiff := hq.cycle_eq_iff (by decide)
  rw [← hi, ← hc] at hiff
  by_cases hcy : (s.ring s.eventIndex).d3 &&& 1 = s.eventCycle
  · have hne := hiff.mp hcy
    rw [pollEvent, if_neg (by simpa using hcy)]
    split
    · rename_i hnil
      exact absurd (by rw [hnil]; rfl) hne
    · exact iff_of_false (by simp) fun hn => hn hcy
  · rw [pollEvent, if_pos hcy]
    exact iff_of_true rfl hcy

/-- What is taken is the entry at `event_index`, and it is the oldest event. -/
theorem pollEvent_some {s s' : EventRing} {a : Announced} (h : s.pollEvent = some (a, s')) :
    s.ring s.eventIndex = a.event ∧ s.unread = a :: s'.unread := by
  rw [pollEvent] at h
  split at h
  · exact absurd h (by simp)
  · split at h
    · exact absurd h (by simp)
    · rename_i b rest hun
      obtain ⟨rfl, rfl⟩ := Prod.mk.inj (Option.some_inj.mp h)
      obtain ⟨r, hq, hi, -⟩ := s.isQueue
      rw [hun, List.map_cons] at hq
      exact ⟨by rw [hi]; exact hq.head, hun⟩

/-- The controller posts an event, if there is room. -/
def post (s : EventRing) (a : Announced) (hroom : s.unread.length < 256)
    (hcycle : a.event.cycle = s.producerCycle) : EventRing where
  ring := write s.ring s.producerIndex a.event
  eventIndex := s.eventIndex
  eventCycle := s.eventCycle
  producerIndex := (advanceEvent s.producerIndex s.producerCycle).1
  producerCycle := (advanceEvent s.producerIndex s.producerCycle).2
  unread := s.unread ++ [a]
  isQueue := by
    obtain ⟨r, hq, hi, hc, hp, hpc⟩ := s.isQueue
    refine ⟨r, ?_, hi, hc, ?_, ?_⟩
    · rw [List.map_append, hp]
      have hpush := hq.push (x := a.event) (by simpa using hroom) (by simpa [← hpc] using hcycle)
      simpa using hpush
    · rw [hp, hpc, advanceEvent_eq, List.length_append, List.length_singleton, Nat.add_assoc]
    · rw [hp, hpc, advanceEvent_eq, List.length_append, List.length_singleton, Nat.add_assoc]

end EventRing

/-! ## Driver and controller -/

/-- Where the driver is: outside, before one of the steps of `submit_command`, or in the loop of
`wait_command`. -/
inductive Phase
  | idle
  | storeD0
  | storeD1
  | storeD2
  | storeD3
  | storePending
  | storeDone
  | advance
  | doorbell
  | waiting
deriving DecidableEq

/-- The place of a phase in the order of the steps. -/
def Phase.rank : Phase → Nat
  | .idle => 0
  | .storeD0 => 1
  | .storeD1 => 2
  | .storeD2 => 3
  | .storeD3 => 4
  | .storePending => 5
  | .storeDone => 6
  | .advance => 7
  | .doorbell => 8
  | .waiting => 9

/-- What `wait_command` returns. -/
inductive WaitResult
  /-- `true`, with an event; the number says whose completion it is. -/
  | completed (event : XhciTrb) (command : Option Nat)
  /-- `false`. -/
  | timedOut

/-- The driver, the memory it shares with the controller, and the controller. -/
structure CommandState where
  /-- Where the driver is. -/
  phase : Phase
  /-- The argument `command` of `submit_command`. -/
  command : XhciTrb
  /-- Its local variable `index`. -/
  index : Nat
  /-- Its local variable `physical`. -/
  physical : BitVec 64
  /-- The local variable `limit` of `wait_command`. -/
  limit : Nat
  /-- Its local variable `elapsed`. -/
  elapsed : Nat
  /-- Its local variable `previous`. -/
  previous : BitVec 32
  /-- `rings.command_dma.physical_address`. -/
  base : BitVec 64
  /-- `rings.command`. -/
  ring : Nat → XhciTrb
  /-- `rings.command_index`. -/
  commandIndex : Nat
  /-- `rings.command_cycle`. -/
  commandCycle : BitVec 32
  /-- What is shared with the event handler. -/
  events : EventState
  /-- The event ring. -/
  eventRing : EventRing
  /-- The controller's place in the command ring. -/
  dequeue : Consumer (BitVec 32)
  /-- The command ring is running. -/
  running : Bool
  /-- The command that the controller executes: address and number. -/
  executing : Option (BitVec 64 × Nat)
  /-- The number of the command that was submitted last. -/
  current : Nat
  /-- The numbers of the commands in the ring. -/
  owner : Nat → Nat
  /-- The number that belongs to `pending_command_completion`. -/
  completionOf : Option Nat
  /-- A completion event of the current command was taken from the event ring before the time limit. -/
  consumed : Bool
  /-- What the last `wait_command` has returned. -/
  returned : Option WaitResult

/-- `limit` in `wait_command`; without a frequency there is no round at all. -/
def waitLimit (frequency timeoutMs : Nat) : Nat :=
  if frequency = 0 then 0 else (frequency * timeoutMs + 999) % 2 ^ 64 / 1000

namespace CommandState

/-- The address of an entry of the command ring. -/
def address (s : CommandState) (j : Nat) : BitVec 64 := s.base + BitVec.ofNat 64 (16 * j)

/-- `submit_command` is called, and `wait_command` will be. -/
def submit (s : CommandState) (command : XhciTrb) (frequency timeoutMs : Nat) : CommandState :=
  { s with phase := .storeD0, command := command, index := s.commandIndex
           physical := s.address s.commandIndex, limit := waitLimit frequency timeoutMs, elapsed := 0
           current := s.current + 1, consumed := false, returned := none }

/-- The next store of `submit_command`. -/
def store (s : CommandState) : CommandState :=
  match s.phase with
  | .storeD0 => { s with phase := .storeD1
                         ring := write s.ring s.index { s.ring s.index with d0 := s.command.d0 } }
  | .storeD1 => { s with phase := .storeD2
                         ring := write s.ring s.index { s.ring s.index with d1 := s.command.d1 } }
  | .storeD2 => { s with phase := .storeD3
                         ring := write s.ring s.index { s.ring s.index with d2 := s.command.d2 } }
  -- from here on the controller can see the command
  | .storeD3 => { s with phase := .storePending
                         ring := write s.ring s.index { s.ring s.index with
                           d3 := s.command.d3 &&& ~~~1 ||| s.commandCycle }
                         owner := fun j => if j = s.index then s.current else s.owner j }
  | .storePending => { s with phase := .storeDone
                              events := { s.events with pendingCommandPhysical := s.physical } }
  | .storeDone => { s with phase := .advance
                           events := { s.events with pendingCommandDone := false } }
  | .advance =>
    if s.commandIndex + 1 = 255 then
      { s with phase := .doorbell, commandIndex := 0, commandCycle := s.commandCycle ^^^ 1
               ring := write s.ring 255 { s.ring 255 with
                 d3 := 6#32 <<< 10 ||| 1#32 <<< 1 ||| s.commandCycle } }
    else { s with phase := .doorbell, commandIndex := s.commandIndex + 1 }
  | _ => s

/-- The doorbell, and the first reading of the timer in `wait_command`. -/
def ringDoorbell (s : CommandState) (now : BitVec 32) : CommandState :=
  { s with phase := .waiting, running := true, previous := now &&& 0x00ffffff }

/-- The body of the loop of `xhci_process_events`, for the event that `poll_event` has returned. -/
def take (s : CommandState) (a : Announced) (r : EventRing) : CommandState :=
  { s with eventRing := r, events := processEvent s.events a.event
           completionOf := if a.event.type = 33 ∧ a.event.pointer = s.events.pendingCommandPhysical then
             a.command else s.completionOf
           consumed := s.consumed ||
             (s.phase != .idle && a.command == some s.current && decide (s.elapsed < s.limit)) }

/-- The loop of `xhci_process_events`. -/
def processLoop : Nat → CommandState → CommandState
  | 0, s => s
  | n + 1, s =>
    match s.eventRing.pollEvent with
    | none => s
    | some (a, r) => processLoop n (s.take a r)

/-- `xhci_process_events`.  It is one step, so that `processing_events` is always 0 when it starts; the
interrupt registers are left out. -/
def processEvents (s : CommandState) : CommandState := processLoop 256 s

/-- One round of the loop of `wait_command`. -/
def waitRound (s : CommandState) (now : BitVec 32) : CommandState :=
  let s := s.processEvents
  if s.events.pendingCommandDone ∧ s.events.pendingCommandPhysical = s.physical then
    { s with phase := .idle, events := { s.events with pendingCommandDone := false }
             returned := some (.completed s.events.pendingCommandCompletion s.completionOf) }
  else
    let now := now &&& 0x00ffffff
    { s with elapsed := (s.elapsed + ((now - s.previous) &&& 0x00ffffff).toNat) % 2 ^ 64, previous := now }

/-- The completions that are not yet taken, the oldest first: addresses and numbers. -/
def outstanding (s : CommandState) : List (BitVec 64 × Nat) :=
  s.eventRing.unread.filterMap (fun a => a.command.map fun n => (a.event.pointer, n)) ++
    s.executing.toList

end CommandState

/-- One step of driver, interrupt or controller.  `quiet` restricts the states in which the event handler
runs in interrupt context, and `fresh` those in which a command is published. -/
inductive CommandStep (quiet fresh : CommandState → Prop) : CommandState → CommandState → Prop
  /-- The driver submits its next command. -/
  | submit {s : CommandState} (h : s.phase = .idle) (command : XhciTrb) (frequency timeoutMs : Nat) :
      CommandStep quiet fresh s (s.submit command frequency timeoutMs)
  /-- A store of `submit_command`. -/
  | store {s : CommandState} (h : 1 ≤ s.phase.rank ∧ s.phase.rank ≤ 7)
      (hfresh : s.phase = .storeD3 → fresh s) : CommandStep quiet fresh s s.store
  /-- The doorbell. -/
  | doorbell {s : CommandState} (h : s.phase = .doorbell) (now : BitVec 32) :
      CommandStep quiet fresh s (s.ringDoorbell now)
  /-- A round of `wait_command`. -/
  | round {s : CommandState} (h : s.phase = .waiting) (hlt : s.elapsed < s.limit) (now : BitVec 32) :
      CommandStep quiet fresh s (s.waitRound now)
  /-- `wait_command` gives up. -/
  | expire {s : CommandState} (h : s.phase = .waiting) (hle : s.limit ≤ s.elapsed) :
      CommandStep quiet fresh s { s with phase := .idle, returned := some .timedOut }
  /-- `xhci_process_events` in interrupt context. -/
  | interrupt {s : CommandState} (hquiet : quiet s) : CommandStep quiet fresh s s.processEvents
  /-- The controller sees a command and starts to execute it. -/
  | fetch {s : CommandState} (hrun : s.running = true) (hfree : s.executing = none)
      (hcycle : (s.ring s.dequeue.index).cycle = s.dequeue.cycle)
      (hlink : (s.ring s.dequeue.index).type ≠ trbLink) :
      CommandStep quiet fresh s { s with dequeue := next trbFormat s.ring s.dequeue
                                         executing := some (s.address s.dequeue.index,
                                           s.owner s.dequeue.index) }
  /-- The controller follows the Link TRB. -/
  | link {s : CommandState} (hrun : s.running = true) (hfree : s.executing = none)
      (hcycle : (s.ring s.dequeue.index).cycle = s.dequeue.cycle)
      (hlink : (s.ring s.dequeue.index).type = trbLink) :
      CommandStep quiet fresh s { s with dequeue := next trbFormat s.ring s.dequeue }
  /-- The controller has executed a command and posts its completion event. -/
  | complete {s : CommandState} {p : BitVec 64} {n : Nat} (h : s.executing = some (p, n)) (a : Announced)
      (hcommand : a.command = some n) (hpointer : a.event.pointer = p)
      (hroom : s.eventRing.unread.length < 256) (hcycle : a.event.cycle = s.eventRing.producerCycle) :
      CommandStep quiet fresh s { s with executing := none, eventRing := s.eventRing.post a hroom hcycle }
  /-- The controller posts an event of another kind. -/
  | other {s : CommandState} (a : Announced) (hcommand : a.command = none)
      (hroom : s.eventRing.unread.length < 256) (hcycle : a.event.cycle = s.eventRing.producerCycle) :
      CommandStep quiet fresh s { s with eventRing := s.eventRing.post a hroom hcycle }

end Dem64
