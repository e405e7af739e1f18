import Dem64.Usb.Event

/-!
# The transfer ring of endpoint 0

`usb_send_packet` puts the two or three TRBs of a control transfer into the ring of the slot, behind those
of the transfer before, and rings the doorbell.  The controller is a consumer of this ring (`CycleRing`).

The driver's idea of where the controller stands is `ep0_index` and `ep0_cycle`.  If a transfer does not
fit in front of the Link TRB, the rest of the ring is filled with No-ops and the Link TRB gets the cycle
of the traversal that ends.  If a transfer fits exactly, the Link TRB is not touched, and whether the
controller follows it depends on the cycle it has.  `ep0_ring_iff` says that this is the only thing that
can go wrong, and when it does.
-/

set_option autoImplicit false

namespace Dem64

open CycleRing

/-- `EP0_LINK`: the index of the Link TRB. -/
def ep0Link : Nat := 255

/-! ## The controller -/

/-- The controller looks at its ring after a doorbell.  It stops at the latest when it meets its own
traces, after two traversals. -/
def execute (ring : Nat → XhciTrb) (c : Consumer (BitVec 32)) :
    List (Nat × XhciTrb) × Consumer (BitVec 32) :=
  drain trbFormat ring 512 c

/-- A Transfer Event for the TRB `j` of a ring. -/
def transferEvent (slotId : BitVec 8) (physical : BitVec 64) (code : BitVec 32) (j : Nat) : XhciTrb :=
  let p := physical + BitVec.ofNat 64 (16 * j)
  ⟨lowWord p, highWord p, code <<< 24, trbType 32 ||| 1#32 <<< 16 ||| slotId.setWidth 32 <<< 24⟩

/-- The events of the TRBs that were executed without an error: one for every TRB that asks for it, and
one for a TRB that asks for it when fewer bytes than announced arrive. -/
def transferEvents (slotId : BitVec 8) (physical : BitVec 64) (short : Bool)
    (executed : List (Nat × XhciTrb)) : List XhciTrb :=
  executed.filterMap fun (j, t) =>
    if t.d3 &&& trbIoc ≠ 0 then some (transferEvent slotId physical 1 j)
    else if short ∧ t.d3 &&& trbIsp ≠ 0 then some (transferEvent slotId physical 13 j)
    else none

/-! ## The driver -/

/-- `usb_setup_packet`. -/
structure UsbSetupPacket where
  /-- `BmRequestType`. -/
  bmRequestType : BitVec 8
  /-- `bRequest`. -/
  bRequest : BitVec 8
  /-- `wValue`. -/
  wValue : BitVec 16
  /-- `wIndex`. -/
  wIndex : BitVec 16
  /-- `wLength`. -/
  wLength : BitVec 16

/-- The fields of `usb_slot` that `usb_send_packet` uses, and the TRBs at `EP0_virtual`. -/
structure UsbSlot where
  /-- `slot_id`. -/
  slotId : BitVec 8
  /-- `address`. -/
  address : BitVec 8
  /-- `ep0_mps`. -/
  ep0Mps : BitVec 16
  /-- `ep0_index`. -/
  ep0Index : Nat
  /-- `ep0_cycle`. -/
  ep0Cycle : BitVec 32
  /-- `EP0_virtual`. -/
  ep0Virtual : BitVec 64
  /-- `EP0_physical`. -/
  ep0Physical : BitVec 64
  /-- `output_context_virtual`. -/
  outputContextVirtual : BitVec 64
  /-- `output_context_physical`. -/
  outputContextPhysical : BitVec 64
  /-- The ring. -/
  ring : Nat → XhciTrb

/-- The fields of `xhci_controller` that `usb_send_packet` uses, with the slot of one port. -/
structure Xhci where
  /-- `controller.needs_reinit`. -/
  needsReinit : Bool
  /-- `slots`, `doorbells` and `dcbaa` are set. -/
  ready : Bool
  /-- `ports_count`. -/
  portsCount : BitVec 8
  /-- `dcbaa`. -/
  dcbaa : BitVec 8 → BitVec 64
  /-- The number of the port. -/
  port : BitVec 8
  /-- `slots[port - 1]`. -/
  slot : UsbSlot
  /-- What is shared with the event handler. -/
  events : EventState

/-- The arguments of a call of `usb_send_packet` on the port, and what it meets: the buffer that
`xhci_dma_alloc` gives it, whether the device sends less than it is asked for, after how many
milliseconds the controller is done, and what `kmalloc` returns. -/
structure Ep0Call where
  /-- `packet`. -/
  packet : UsbSetupPacket
  /-- `maxpacketsize`. -/
  maxpacketsize : BitVec 32
  /-- `length`. -/
  length : BitVec 64
  /-- `address`. -/
  address : BitVec 8
  /-- `data_dma.physical_address`, if there is memory for a buffer. -/
  dataDma : Option (BitVec 64)
  /-- The device sends less than `length`. -/
  short : Bool
  /-- The time until the events of the transfer are in the event ring. -/
  delay : Fin 500
  /-- What `kmalloc(length)` returns. -/
  response : BitVec 64

/-- `has_data`. -/
def Ep0Call.hasData (call : Ep0Call) : Bool := call.length != 0

/-- `count`: the number of TRBs of the transfer. -/
def Ep0Call.count (call : Ep0Call) : Nat := if call.hasData then 3 else 2

/-- `setup`. -/
def setupTrb (packet : UsbSetupPacket) (hasData : Bool) : XhciTrb where
  d0 := packet.bmRequestType.setWidth 32 ||| packet.bRequest.setWidth 32 <<< 8 |||
    packet.wValue.setWidth 32 <<< 16
  d1 := packet.wIndex.setWidth 32 ||| packet.wLength.setWidth 32 <<< 16
  d2 := 8
  d3 := trbType trbSetup ||| trbIdt ||| (if hasData then trtIn else trtNoData) <<< 16

/-- `data`. -/
def dataTrb (physical length : BitVec 64) : XhciTrb where
  d0 := lowWord physical
  d1 := highWord physical
  d2 := length.setWidth 32
  d3 := trbType trbData ||| trbDirIn ||| trbIsp

/-- `status`. -/
def statusTrb (hasData : Bool) : XhciTrb where
  d0 := 0
  d1 := 0
  d2 := 0
  d3 := trbType trbStatus ||| trbIoc ||| if hasData then 0 else trbDirIn

/-- `t.d3 |= cycle`. -/
def XhciTrb.orCycle (t : XhciTrb) (cycle : BitVec 32) : XhciTrb := { t with d3 := t.d3 ||| cycle }

/-- The TRBs of the call, in the order in which they have to be executed. -/
def Ep0Call.trbs (call : Ep0Call) : List XhciTrb :=
  if call.hasData then
    [setupTrb call.packet true, dataTrb (call.dataDma.getD 0) call.length, statusTrb true]
  else [setupTrb call.packet false, statusTrb false]

/-- The entries `oldIndex + k - 1`, …, `oldIndex` become No-ops. -/
def fillNoops (oldIndex : Nat) (oldCycle : BitVec 32) : Nat → (Nat → XhciTrb) → Nat → XhciTrb
  | 0, ring => ring
  | k + 1, ring =>
    fillNoops oldIndex oldCycle k (write ring (oldIndex + k) ⟨0, 0, 0, trbType trbNoop ||| oldCycle⟩)

/-- The transfer does not fit in front of the Link TRB. -/
def UsbSlot.wraps (slot : UsbSlot) (count : Nat) : Bool := slot.ep0Index + count > ep0Link

/-- `first`. -/
def UsbSlot.first (slot : UsbSlot) (count : Nat) : Nat := if slot.wraps count then 0 else slot.ep0Index

/-- `cycle`. -/
def UsbSlot.cycleFor (slot : UsbSlot) (count : Nat) : BitVec 32 :=
  if slot.wraps count then slot.ep0Cycle ^^^ 1 else slot.ep0Cycle

/-- The stores of `usb_send_packet` to the ring. -/
def publish (slot : UsbSlot) (call : Ep0Call) : Nat → XhciTrb :=
  let count := call.count
  let first := slot.first count
  let cycle := slot.cycleFor count
  let ring := write slot.ring (first + count - 1) ((statusTrb call.hasData).orCycle cycle)
  let ring := if call.hasData then
      write ring (first + 1) ((dataTrb (call.dataDma.getD 0) call.length).orCycle cycle)
    else ring
  let ring := write ring first ((setupTrb call.packet call.hasData).orCycle cycle)
  if slot.wraps count then
    let ring := fillNoops slot.ep0Index slot.ep0Cycle (ep0Link - slot.ep0Index) ring
    write ring ep0Link { ring ep0Link with d3 := trbType trbLink ||| 1#32 <<< 1 ||| slot.ep0Cycle }
  else ring

/-- The tests before the transfer: `usb_send_packet` returns a null pointer and changes nothing if one of
them fails. -/
def accepts (s : Xhci) (call : Ep0Call) : Bool :=
  !s.needsReinit && s.ready && s.port != 0 && s.port ≤ s.portsCount &&
    call.length == call.packet.wLength.setWidth 64 && call.length ≤ 4096 &&
    s.slot.slotId != 0 && s.slot.address == call.address && s.slot.ep0Virtual != 0 &&
    s.slot.outputContextVirtual != 0 && s.dcbaa s.slot.slotId == s.slot.outputContextPhysical &&
    call.maxpacketsize == s.slot.ep0Mps.setWidth 32 &&
    !(call.hasData && call.packet.bmRequestType &&& 0x80 == 0) &&
    !(call.hasData && call.dataDma.isNone) && s.slot.ep0Index ≤ ep0Link && !s.events.transferWaiting

/-- The transfer is announced to the event handler. -/
def arm (s : EventState) (slotId : BitVec 8) (statusPhys : BitVec 64) : EventState :=
  { s with transferSlot := slotId, transferEndpoint := 1, transferTrbPointer := statusPhys,
           transferCompleted := false, transferWaiting := true }

/-- The waiting loop, `n` rounds before its end; `arrive` says which events it finds in which round. -/
def awaitTransfer (arrive : Nat → List XhciTrb) : Nat → EventState → Bool × EventState
  | 0, s => (false, s)
  | n + 1, s =>
    let s := (arrive (500 - (n + 1))).foldl processEvent s
    if s.transferCompleted then (true, s) else awaitTransfer arrive n s

/-- Where the next transfer starts: `next_index` and `next_cycle`. -/
def nextPosition (slot : UsbSlot) (count : Nat) : Nat × BitVec 32 :=
  let nextIndex := slot.first count + count
  let nextCycle := slot.cycleFor count
  if nextIndex = ep0Link then (0, nextCycle ^^^ 1) else (nextIndex, nextCycle)

/-- What a call leaves behind. -/
structure Sent where
  /-- The driver. -/
  driver : Xhci
  /-- The controller. -/
  controller : Consumer (BitVec 32)
  /-- The TRBs it has executed in this call. -/
  executed : List (Nat × XhciTrb)
  /-- The pointer that the call returns. -/
  returned : BitVec 64

/-- `usb_send_packet` on the port, with the controller as its consumer. -/
def usbSendPacket (s : Xhci) (c : Consumer (BitVec 32)) (call : Ep0Call) : Sent :=
  if accepts s call then
    let slot := s.slot
    let count := call.count
    let statusPhys := slot.ep0Physical + BitVec.ofNat 64 (16 * (slot.first count + count - 1))
    let armed := arm s.events slot.slotId statusPhys
    let ring := publish slot call
    -- the doorbell: the controller executes what is there, and its events arrive after a while
    let (executed, c) := execute ring c
    let arrived := transferEvents slot.slotId slot.ep0Physical call.short executed
    let (completed, events) :=
      awaitTransfer (fun i => if i = call.delay then arrived else []) 500 armed
    let events := { events with transferWaiting := false }
    if completed then
      let (nextIndex, nextCycle) := nextPosition slot count
      let slot := { slot with ring := ring, ep0Index := nextIndex, ep0Cycle := nextCycle }
      let code := events.transferCompletion.completionCode
      if code ≠ 1 ∧ code ≠ 13 then
        ⟨{ s with slot := slot, events := events, needsReinit := true }, c, executed, 0⟩
      else
        ⟨{ s with slot := slot, events := events }, c, executed, if call.hasData then call.response else 1⟩
    else
      ⟨{ s with slot := { slot with ring := ring }, events := events, needsReinit := true }, c, executed, 0⟩
  else ⟨s, c, [], 0⟩

/-! ## The slot after `identify_device` -/

/-- The ring that `identify_device` sets up: cleared memory, the Link TRB, and the request for the first
eight bytes of the device descriptor. -/
def identifyRing (ringPhys bufferPhys : BitVec 64) : Nat → XhciTrb :=
  let ring := write (fun _ => ⟨0, 0, 0, 0⟩) ep0Link
    ⟨lowWord ringPhys, highWord ringPhys, 0, 6#32 <<< 10 ||| 1#32 <<< 1 ||| 1⟩
  let setup : XhciTrb := ⟨0x01000680, 0x00080000, 8, 2#32 <<< 10 ||| 1#32 <<< 6 ||| 3#32 <<< 16⟩
  let data : XhciTrb := ⟨lowWord bufferPhys, highWord bufferPhys, 8, 3#32 <<< 10 ||| 1#32 <<< 16⟩
  let status : XhciTrb := ⟨0, 0, 0, 4#32 <<< 10 ||| 1#32 <<< 5⟩
  write (write (write ring 0 (setup.orCycle 1)) 1 (data.orCycle 1)) 2 (status.orCycle 1)

/-- Driver and controller. -/
structure Ep0System where
  /-- The driver. -/
  driver : Xhci
  /-- The controller. -/
  controller : Consumer (BitVec 32)

/-- A slot that `identify_device` has set up; the dequeue pointer it gave to the controller was the start
of the ring, with cycle 1, and `wait_transfer_event` has taken the event of its own request. -/
def identified (s : Xhci) (bufferPhys : BitVec 64) : Ep0System :=
  let ring := identifyRing s.slot.ep0Physical bufferPhys
  { driver := { s with slot := { s.slot with ring := ring, ep0Index := 3, ep0Cycle := 1 },
                       events := { s.events with transferWaiting := false } }
    controller := (execute ring ⟨0, 1⟩).2 }

/-- Driver and controller after a call. -/
def Ep0System.send (x : Ep0System) (call : Ep0Call) : Ep0System :=
  let sent := usbSendPacket x.driver x.controller call
  ⟨sent.driver, sent.controller⟩

/-- Driver and controller after a sequence of calls. -/
def Ep0System.after (x : Ep0System) (calls : List Ep0Call) : Ep0System := calls.foldl Ep0System.send x

/-! ## What has to happen -/

/-- A TRB that does something. -/
def XhciTrb.isTransfer (t : XhciTrb) : Bool := t.type != trbLink && t.type != trbNoop

/-- The TRB as it was before it got its cycle bit. -/
def XhciTrb.clearCycle (t : XhciTrb) : XhciTrb := { t with d3 := t.d3 &&& ~~~1 }

/-- `c` and `d` are the same place in the ring: they are equal, or `c` is at a Link TRB that the
controller follows to `d`. -/
def SamePlace (ring : Nat → XhciTrb) (c d : Consumer (BitVec 32)) : Prop :=
  c = d ∨ (¬ Stopped trbFormat ring c ∧ (ring c.index).type = trbLink ∧ next trbFormat ring c = d)

/-- After the doorbell of the call the controller executes the TRBs of the call in order and, No-op and
Link TRBs apart, nothing else; and it stops where the driver thinks it stops. -/
structure Executes (x : Ep0System) (call : Ep0Call) : Prop where
  /-- Setup, data and status. -/
  trbs : (((usbSendPacket x.driver x.controller call).executed.map Prod.snd).filter
    XhciTrb.isTransfer).map XhciTrb.clearCycle = call.trbs
  /-- The controller has stopped. -/
  stopped : Stopped trbFormat (x.send call).driver.slot.ring (x.send call).controller
  /-- It is where `ep0_index` and `ep0_cycle` say. -/
  place : SamePlace (x.send call).driver.slot.ring (x.send call).controller
    ⟨(x.send call).driver.slot.ep0Index, (x.send call).driver.slot.ep0Cycle⟩

/-- If the transfer ends right in front of the Link TRB, then the Link TRB has the cycle of the
traversal. -/
def LinkReady (slot : UsbSlot) (call : Ep0Call) : Prop :=
  slot.ep0Index + call.count = ep0Link → (slot.ring ep0Link).cycle = slot.ep0Cycle

end Dem64
