import Dem64.Usb.DmaLog
import Dem64.Usb.Event

/-!
# `identify_device` of the xHCI driver

The driver enables a slot, gives the controller two contexts and a ring, and reads the first eight bytes of the
device descriptor.  What a call does is a trace of events in order: the calls of the DMA allocator, what the
controller is given and takes back, and what is stored in `controller.cached` and `slots`.

What the hardware says is an input (`IdentifyOutcomes`), and so is whether `new` and `krealloc` return a null
pointer; a store through a null pointer is an error (`none`).  Where the controller gets the physical address of a
buffer, the event names the buffer.
-/

set_option autoImplicit false

namespace Dem64

namespace Xhci

/-! ## Data -/

/-- `dma_cache`. -/
structure DmaCache where
  dma : List DmaRet
  errorCode : List (BitVec 16)

/-- What `identify_device` stores in `usb_slot`. -/
structure SlotRecord where
  port : BitVec 8
  slotId : BitVec 8
  address : BitVec 8
  speedId : BitVec 8
  superspeed : Bool
  ep0Mps : BitVec 16
  ep0Index : Nat
  ep0Cycle : BitVec 32
  outputContext : DmaRet
  ep0 : DmaRet

/-- What happens during a call. -/
inductive SlotEvent
  /-- A call of the DMA allocator. -/
  | dma (event : DmaEvent)
  /-- `enable_device_slot` returns a slot. -/
  | enabled (slotId : BitVec 8)
  /-- `dcbaa[slot_id]` gets the address of an output context, or 0. -/
  | dcbaa (slotId : BitVec 8) (output : Option DmaRet)
  /-- Address Device is submitted, with an input context whose EP0 context points to a ring, and the last TRB of the
  ring. -/
  | addressDevice (command : XhciTrb) (context : Nat → BitVec 32) (link : XhciTrb) (input ring : DmaRet)
  /-- Its completion is there. -/
  | addressed
  /-- The doorbell is rung for three TRBs, the second of which points to a buffer. -/
  | transfer (trbs : List XhciTrb) (buffer : DmaRet)
  /-- The event of the transfer is there. -/
  | transferred
  /-- Disable Slot is submitted. -/
  | disableSlot (slotId : BitVec 8)
  /-- Disable Slot succeeds. -/
  | disabled (slotId : BitVec 8)
  /-- An entry is added to `controller.cached`. -/
  | cached (entry : DmaCache)
  /-- `slots[index]` is assigned. -/
  | recorded (index : Nat) (slot : SlotRecord)

/-- What a call meets. -/
structure IdentifyOutcomes where
  /-- What `read_protocol_slot_type` returns; `0xff` is none. -/
  slotType : BitVec 8
  protocolMajor : BitVec 8
  /-- The completion of Enable Slot; `none` is a time-out, here and below. -/
  enableSlot : Option XhciTrb
  hccparams1 : BitVec 32
  /-- The port register when `get_initial_mps` reads it, and later. -/
  portsc : BitVec 32
  portscLater : BitVec 32
  addressDevice : Option XhciTrb
  /-- `output_slot_context[3]`. -/
  outputSlotContext : BitVec 32
  transfer : Option XhciTrb
  disableSlot : Option XhciTrb
  /-- The bytes of the descriptor buffer. -/
  descriptor : Nat → BitVec 8
  /-- `new dma_ret[…]` is not null. -/
  newDma : Bool
  /-- `new u16[…]` is not null. -/
  newErrorCode : Bool
  /-- `krealloc` is not null. -/
  newCache : Bool

/-- The calls of `allocate_dma` so far, and the trace. -/
structure IdentifyState where
  calls : Nat := 0
  trace : List SlotEvent := []

/-- The trace grows. -/
def IdentifyState.add (s : IdentifyState) (event : SlotEvent) : IdentifyState :=
  { s with trace := s.trace ++ [event] }

/-- The calls of the DMA allocator go to the trace. -/
def IdentifyState.log (s : IdentifyState) (log : DmaLog) : IdentifyState :=
  ⟨log.calls, s.trace ++ log.events.map .dma⟩

/-- `allocate_dma`. -/
def IdentifyState.allocateDma (s : IdentifyState) (dma : DmaOracle) : DmaRet × IdentifyState :=
  let (ret, log) := DmaLog.alloc dma ⟨s.calls, []⟩
  (ret, s.log log)

/-- `xhci_dma_alloc`. -/
def IdentifyState.xhciDmaAlloc (s : IdentifyState) (dma : DmaOracle) (bytes : Nat) (ac64 : Bool) :
    Bool × DmaRet × IdentifyState :=
  let (ok, out, log) := Dem64.xhciDmaAlloc dma bytes ac64 ⟨s.calls, []⟩
  (ok, out, s.log log)

/-- `free_dma`. -/
def IdentifyState.freeDma (s : IdentifyState) (virtualAddress : Nat) : IdentifyState :=
  s.add (.dma (.free virtualAddress))

@[simp] theorem IdentifyState.trace_add (s : IdentifyState) (event : SlotEvent) :
    (s.add event).trace = s.trace ++ [event] := rfl

@[simp] theorem IdentifyState.trace_freeDma (s : IdentifyState) (virtualAddress : Nat) :
    (s.freeDma virtualAddress).trace = s.trace ++ [.dma (.free virtualAddress)] := rfl

/-! ## Slots -/

/-- The completion code of a TRB. -/
def completionCode (trb : XhciTrb) : BitVec 8 := (trb.d2 >>> 24).setWidth 8

/-- `enable_device_slot`; 0 is a failure. -/
def enableDeviceSlot (o : IdentifyOutcomes) : BitVec 8 :=
  if o.slotType = 0xff then 0
  else
    match o.enableSlot with
    | none => 0
    | some completion => if completionCode completion ≠ 1 then 0 else (completion.d3 >>> 24).setWidth 8

/-- `disable_device_slot`. -/
def disableDeviceSlot (o : IdentifyOutcomes) (slotId : BitVec 8) (s : IdentifyState) : Bool × IdentifyState :=
  let s := s.add (.disableSlot slotId)
  match o.disableSlot with
  | none => (false, s)
  | some completion => if completionCode completion ≠ 1 then (false, s) else (true, s.add (.disabled slotId))

/-- `get_initial_mps`; `none` is `false`. -/
def getInitialMps (status : BitVec 32) (protocolMajor : BitVec 8) : Option (BitVec 16) :=
  let speedId : BitVec 8 := (status >>> 10).setWidth 8 &&& 0xf
  if 3 ≤ protocolMajor.toNat ∧ speedId ≠ 0 then some 512
  else if speedId = 1 ∨ speedId = 2 then some 8
  else if speedId = 3 then some 64
  else if speedId = 4 ∧ protocolMajor = 0 then some 512
  else none

/-- `get_port_speed_id`. -/
def getPortSpeedId (status : BitVec 32) : BitVec 8 := ((status >>> 10) &&& 0xf).setWidth 8

/-! ## `controller.cached` -/

/-- `ADDRESS_DEVICE_TIMEOUT`. -/
def addressDeviceTimeout : BitVec 16 := 2

/-- `DISABLE_SLOT_ERROR`. -/
def disableSlotError : BitVec 16 := 3

/-- `GET_DESC_TIMEOUT`. -/
def getDescTimeout : BitVec 16 := 4

/-- `(xHCI << 8) | error`. -/
def xhciError (error : BitVec 16) : BitVec 16 := (4#16 <<< 8) ||| error

/-- Buffers are added to `controller.cached` with an error. -/
def cacheBuffers (o : IdentifyOutcomes) (buffers : List DmaRet) (error : BitVec 16) (s : IdentifyState) :
    Option IdentifyState :=
  if o.newDma = true ∧ o.newErrorCode = true ∧ o.newCache = true then
    some (s.add (.cached ⟨buffers, buffers.map fun _ => xhciError error⟩))
  else none

/-- The slot of a device that was addressed is disabled, and the contexts are freed or cached: the end of three
exits. -/
def dropSlot (o : IdentifyOutcomes) (slotId : BitVec 8) (output ring : DmaRet) (s : IdentifyState) :
    Option IdentifyState :=
  let (ok, s) := disableDeviceSlot o slotId s
  if ok = false then cacheBuffers o [output, ring] disableSlotError s
  else some (((s.add (.dcbaa slotId none)).freeDma output.virtualAddress).freeDma ring.virtualAddress)

/-! ## What the controller is given -/

/-- The words of the input context. -/
def identifyInput (words : Nat) (port speedId : BitVec 8) (initialMps : BitVec 16) (ringPhys : BitVec 64) (w : Nat) :
    BitVec 32 :=
  let dequeue := ringPhys ||| 1
  if w = 1 then (1#32 <<< 0) ||| (1#32 <<< 1)
  else if w = words then (speedId.setWidth 32 <<< 20) ||| (1#32 <<< 27)
  else if w = words + 1 then port.setWidth 32 <<< 16
  else if w = 2 * words + 1 then (3#32 <<< 1) ||| (4#32 <<< 3) ||| (initialMps.setWidth 32 <<< 16)
  else if w = 2 * words + 2 then lowWord dequeue
  else if w = 2 * words + 3 then highWord dequeue
  else if w = 2 * words + 4 then 8
  else 0

/-- The Setup, Data and Status stage, with their Cycle bits. -/
def descriptorTrbs (bufferPhys : BitVec 64) : List XhciTrb :=
  [⟨0x01000680, 0x00080000, 8, (2#32 <<< 10) ||| (1#32 <<< 6) ||| (3#32 <<< 16) ||| 1⟩,
    ⟨lowWord bufferPhys, highWord bufferPhys, 8, (3#32 <<< 10) ||| (1#32 <<< 16) ||| 1⟩,
    ⟨0, 0, 0, (4#32 <<< 10) ||| (1#32 <<< 5) ||| 1⟩]

/-! ## The call -/

/-- A descriptor with its first bytes. -/
def descriptorOf (bytes : List (BitVec 8)) : List (BitVec 8) := bytes ++ List.replicate (18 - bytes.length) 0

/-- `identify_device` from a completed Address Device on. -/
def readDescriptor (dma : DmaOracle) (o : IdentifyOutcomes) (port slotId speedId : BitVec 8) (initialMps : BitVec 16)
    (input output ring : DmaRet) (s : IdentifyState) : Option (List (BitVec 8) × IdentifyState) := do
  let usbAddress : BitVec 8 := o.outputSlotContext.setWidth 8
  let ac64 := o.hccparams1 &&& 1 != 0
  let (ok, desc, s) := s.xhciDmaAlloc dma 8 ac64
  if ok = false then
    let s ← dropSlot o slotId output ring (s.freeDma input.virtualAddress)
    return (descriptorOf [], s)
  else
    let s := s.add (.transfer (descriptorTrbs (BitVec.ofNat 64 desc.physicalAddress)) desc)
    match o.transfer with
    | none =>
      let s ← cacheBuffers o [output, ring, desc] getDescTimeout (s.freeDma input.virtualAddress)
      return (descriptorOf [], s)
    | some event =>
      let s := s.add .transferred
      if completionCode event ≠ 1 then
        let s ← dropSlot o slotId output ring ((s.freeDma desc.virtualAddress).freeDma input.virtualAddress)
        return (descriptorOf [], s)
      else if o.descriptor 1 ≠ 1 ∨ o.descriptor 0 ≠ 18 then return (descriptorOf [], s)
      else
        let s := (s.freeDma desc.virtualAddress).freeDma input.virtualAddress
        let slot : SlotRecord :=
          { port := port
            slotId := slotId
            address := usbAddress
            speedId := speedId
            superspeed := 3 ≤ o.protocolMajor.toNat || (o.protocolMajor == 0 && speedId == 4)
            ep0Mps := initialMps
            ep0Index := 3
            ep0Cycle := 1
            outputContext := output
            ep0 := ring }
        return (descriptorOf ((List.range 8).map o.descriptor), s.add (.recorded (port.toNat - 1) slot))

/-- `identify_device` from the two contexts on. -/
def addressSlot (dma : DmaOracle) (o : IdentifyOutcomes) (port slotId : BitVec 8) (initialMps : BitVec 16)
    (input output : DmaRet) (s : IdentifyState) : Option (List (BitVec 8) × IdentifyState) := do
  let ac64 := o.hccparams1 &&& 1 != 0
  let words := if o.hccparams1 &&& 4 ≠ 0 then 16 else 8
  let (ok, ring, s) := s.xhciDmaAlloc dma 4096 ac64
  if ok = false then
    return (descriptorOf [], (disableDeviceSlot o slotId
      ((s.freeDma input.virtualAddress).freeDma output.virtualAddress)).2)
  else
    let speedId := getPortSpeedId o.portscLater
    let inputPhys := BitVec.ofNat 64 input.physicalAddress
    let command : XhciTrb := ⟨lowWord inputPhys, highWord inputPhys, 0, (11#32 <<< 10) ||| (slotId.setWidth 32 <<< 24)⟩
    let ringPhys := BitVec.ofNat 64 ring.physicalAddress
    let link : XhciTrb := ⟨lowWord ringPhys, highWord ringPhys, 0, (6#32 <<< 10) ||| (1#32 <<< 1) ||| 1⟩
    let context := identifyInput words port speedId initialMps ringPhys
    let s := (s.add (.dcbaa slotId (some output))).add (.addressDevice command context link input ring)
    match o.addressDevice with
    | none =>
      let s ← cacheBuffers o [input, output, ring] addressDeviceTimeout s
      return (descriptorOf [], s)
    | some completion =>
      let s := s.add .addressed
      if completionCode completion ≠ 1 then
        let s ← dropSlot o slotId output ring (s.freeDma input.virtualAddress)
        return (descriptorOf [], s)
      else readDescriptor dma o port slotId speedId initialMps input output ring s

/-- `identify_device`: the descriptor and the trace. -/
def identifyDevice (dma : DmaOracle) (o : IdentifyOutcomes) (port : BitVec 8) :
    Option (List (BitVec 8) × IdentifyState) :=
  let slotId := enableDeviceSlot o
  if slotId = 0 then some (descriptorOf [], {})
  else
    let s := IdentifyState.add {} (.enabled slotId)
    let ac64 := o.hccparams1 &&& 1 != 0
    match getInitialMps o.portsc o.protocolMajor with
    | none => some (descriptorOf [], (disableDeviceSlot o slotId s).2)
    | some initialMps =>
      let (input, s) := s.allocateDma dma
      let (output, s) := s.allocateDma dma
      if input.status ≠ 0 then some (descriptorOf [], (disableDeviceSlot o slotId s).2)
      else if ac64 = false ∧ 0xFFFFFFFF < input.physicalAddress then
        some (descriptorOf [], (disableDeviceSlot o slotId (s.freeDma input.virtualAddress)).2)
      else if output.status ≠ 0 then
        some (descriptorOf [], (disableDeviceSlot o slotId (s.freeDma input.virtualAddress)).2)
      else if ac64 = false ∧ 0xFFFFFFFF < output.physicalAddress then
        some (descriptorOf [], (disableDeviceSlot o slotId
          ((s.freeDma output.virtualAddress).freeDma input.virtualAddress)).2)
      else addressSlot dma o port slotId initialMps input output s

end Xhci

end Dem64
