import Dem64.Usb.ConfigTree
import Dem64.Usb.DmaLog
import Dem64.Usb.Event

/-!
# `configure_endpoints` of the xHCI driver

The driver builds an input context and one ring for each endpoint of alternate setting 0, and gives them to the
controller with a Configure Endpoint command.  Each exit that fails leaves through `discard_pending`.

The input context is a memory of 32-bit words, and a write behind its 33 contexts is an error (`none`), as is an
index of 32 or more in the tables of the rings.  The outcome of the command is an input: its completion code, or
`none` for a time-out.  An entry that an array of endpoints does not have is read as zero.
-/

set_option autoImplicit false

namespace Dem64

namespace Xhci

open Usb

/-! ## Data -/

/-- `xhci_endpoint_ring`. -/
structure EndpointRing where
  dma : DmaRet
  endpointAddress : BitVec 8
  endpointType : BitVec 8
  configured : Bool
  enqueueIndex : Nat
  cycle : BitVec 32

/-- The fields of `usb_slot` that `configure_endpoints` uses. -/
structure DeviceSlot where
  slotId : BitVec 8
  address : BitVec 8
  ep0Mps : BitVec 16
  outputContextVirtual : Nat
  outputContextPhysical : Nat
  superspeed : Bool
  speedId : BitVec 8
  endpointRings : Nat → EndpointRing

/-- The part of `xhci_controller`; `none` is a null pointer. -/
structure Controller where
  needsReinit : Bool
  slots : Option (Nat → DeviceSlot)
  dcbaa : Option (BitVec 8 → Nat)
  portsCount : Int
  addr64 : Bool
  /-- `CSZ` of `hccparams1`. -/
  csz : Bool
  /-- The words at `output_context_virtual` of a slot. -/
  outputContext : Nat → Nat → BitVec 32

/-- The part of `usb_device`. -/
structure UsbDevice where
  portNumber : BitVec 8
  address : BitVec 8
  /-- `config.bConfigurationValue`. -/
  configurationValue : BitVec 8
  interfaces : Option (List UsbInterface)

/-- The endpoints of an interface. -/
def endpointsOf (interface : UsbInterface) : List UsbEndpoint :=
  (List.range interface.endpointCount.toNat).map fun j => (interface.endpoints.getD []).getD j {}

/-! ## One endpoint -/

/-- The endpoint is unsupported. -/
def unsupported (endpoint : UsbEndpoint) : Bool :=
  endpoint.address &&& 0x0f == 0 || endpoint.address &&& 0x70 != 0 || endpoint.transferType == 1 ||
    endpoint.maxPacketSize == 0 || 1024 < endpoint.maxPacketSize.toNat

/-- `in`. -/
def isIn (endpoint : UsbEndpoint) : Bool := endpoint.address &&& 0x80 != 0

/-- The DCI of an endpoint. -/
def dciOf (endpoint : UsbEndpoint) : Nat :=
  2 * (endpoint.address &&& 0x0f).toNat + (isIn endpoint || endpoint.transferType == 0).toNat

/-- `ep_type`. -/
def epTypeOf (endpoint : UsbEndpoint) : BitVec 32 :=
  if endpoint.transferType = 3 then if isIn endpoint then 7 else 3
  else if endpoint.transferType = 2 then if isIn endpoint then 6 else 2
  else 4

/-- `while (microframes >>= 1) ++interval;` -/
def microframesLoop : Nat → BitVec 32 → BitVec 32 → BitVec 32
  | 0, _, interval => interval
  | n + 1, microframes, interval =>
    let microframes := microframes >>> 1
    if microframes ≠ 0 then microframesLoop n microframes (interval + 1) else interval

/-- `interval`; `none` is an exit. -/
def intervalOf (slot : DeviceSlot) (endpoint : UsbEndpoint) : Option (BitVec 32) :=
  if endpoint.transferType = 3 then
    if endpoint.interval = 0 then none
    else if slot.superspeed = true ∨ slot.speedId = 3 then
      if 16 < endpoint.interval.toNat then none else some (endpoint.interval.setWidth 32 - 1)
    else some (microframesLoop 32 (endpoint.interval.setWidth 32 * 8) 0)
  else some 0

/-- `max_burst` and `max_esit_payload`; `none` is an exit. -/
def burstOf (slot : DeviceSlot) (endpoint : UsbEndpoint) : Option (BitVec 32 × BitVec 32) :=
  if slot.superspeed = true then
    if endpoint.hasSsCompanion = false ∨
        (endpoint.transferType = 2 ∧ endpoint.ssCompanion.bmAttributes &&& 0x1f ≠ 0) then none
    else some (endpoint.ssCompanion.bMaxBurst.setWidth 32,
      if endpoint.transferType = 3 then endpoint.ssCompanion.wBytesPerInterval.setWidth 32 else 0)
  else if endpoint.transferType = 3 then
    let maxBurst : BitVec 32 :=
      if slot.speedId = 3 then (endpoint.descriptor.wMaxPacketSize.setWidth 32 >>> 11) &&& 3 else 0
    some (maxBurst, endpoint.maxPacketSize.setWidth 32 * (maxBurst + 1))
  else some (0, 0)

/-- The words of an endpoint context. -/
def epWords (endpoint : UsbEndpoint) (interval maxBurst maxEsitPayload : BitVec 32) (ringPhys : BitVec 64) :
    List (BitVec 32) :=
  [interval <<< 16,
    (3#32 <<< 1) ||| (epTypeOf endpoint <<< 3) ||| (maxBurst <<< 8) ||| (endpoint.maxPacketSize.setWidth 32 <<< 16),
    lowWord ringPhys ||| 1, highWord ringPhys, endpoint.maxPacketSize.setWidth 32 ||| (maxEsitPayload <<< 16)]

/-! ## The run -/

/-- The variables of a call, from the allocation of the input context on. -/
structure Pending where
  log : DmaLog
  inputContext : DmaRet
  /-- The words of the input context; words 0 and 1 are `control[0]` and `control[1]`. -/
  input : Nat → BitVec 32
  pendingRings : Nat → DmaRet
  /-- The last TRB of each ring. -/
  links : Nat → XhciTrb
  highestDci : Nat

/-- The rings of a call that have a buffer. -/
def Pending.held (s : Pending) : List Nat :=
  ((List.range' 2 30).filter fun dci => (s.pendingRings dci).virtualAddress ≠ 0).map
    fun dci => (s.pendingRings dci).virtualAddress

/-- `discard_pending`. -/
def Pending.discard (s : Pending) : DmaLog := (s.held.foldl DmaLog.free s.log).free s.inputContext.virtualAddress

/-- Words are written to the input context, which has `33 * words` of them. -/
def storeWords (words : Nat) : Nat → List (BitVec 32) → (Nat → BitVec 32) → Option (Nat → BitVec 32)
  | _, [], input => some input
  | w, v :: l, input => if w < 33 * words then storeWords words (w + 1) l (Function.update input w v) else none

section

variable (dma : DmaOracle) (c : Controller) (slot : DeviceSlot)

/-- The 32-bit words of a context: `context_bytes / 4`. -/
def Controller.words : Nat := if c.csz then 16 else 8

/-- The body of the loop over the endpoints.  `false` is an exit through `discard_pending`. -/
def addEndpoint (endpoint : UsbEndpoint) (s : Pending) : Option (Bool × Pending) :=
  if unsupported endpoint then some (false, s)
  else
    let dci := dciOf endpoint
    if 32 ≤ dci then none
    else if s.input 1 &&& (1#32 <<< dci) ≠ 0 ∨ (slot.endpointRings dci).configured = true then some (false, s)
    else
      match intervalOf slot endpoint with
      | none => some (false, s)
      | some interval =>
        match burstOf slot endpoint with
        | none => some (false, s)
        | some (maxBurst, maxEsitPayload) => do
          let (ok, ring, log) := xhciDmaAlloc dma 4096 c.addr64 s.log
          let s := { s with log := log, pendingRings := Function.update s.pendingRings dci ring }
          if ok = false then return (false, s)
          else
            let ringPhys := BitVec.ofNat 64 ring.physicalAddress
            let link : XhciTrb :=
              ⟨lowWord ringPhys, highWord ringPhys, 0, trbType trbLink ||| (1#32 <<< 1) ||| 1⟩
            let input ← storeWords c.words ((dci + 1) * c.words)
              (epWords endpoint interval maxBurst maxEsitPayload ringPhys) s.input
            let input ← storeWords c.words 1 [input 1 ||| (1#32 <<< dci)] input
            return (true, { s with
              input := input
              links := Function.update s.links dci link
              highestDci := if s.highestDci < dci then dci else s.highestDci })

/-- The loop over the endpoints. -/
def addEndpoints : List UsbEndpoint → Pending → Option (Bool × Pending)
  | [], s => some (true, s)
  | endpoint :: l, s => do
    let (ok, s) ← addEndpoint dma c slot endpoint s
    if ok = false then return (false, s) else addEndpoints l s

/-- The loop over the interfaces. -/
def addInterfaces : List UsbInterface → Pending → Option (Bool × Pending)
  | [], s => some (true, s)
  | interface :: l, s =>
    if interface.descriptor.bAlternateSetting ≠ 0 then addInterfaces l s
    else if interface.endpointCount ≠ 0 ∧ interface.endpoints = none then some (false, s)
    else do
      let (ok, s) ← addEndpoints dma c slot (endpointsOf interface) s
      if ok = false then return (false, s) else addInterfaces l s

/-- The input context before the loops: the flags, and a copy of the slot context without its state. -/
def initialInput (outputContext : Nat → BitVec 32) : Nat → BitVec 32 := fun w =>
  if w = 1 then 1
  else if c.words ≤ w ∧ w < 2 * c.words then
    if w = c.words + 3 then outputContext 3 &&& ~~~((0x1f : BitVec 32) <<< 27) else outputContext (w - c.words)
  else 0

/-- What the slot gets for a DCI. -/
def Pending.newRing (s : Pending) (dci : Nat) : EndpointRing where
  dma := s.pendingRings dci
  endpointAddress := BitVec.ofNat 8 (dci >>> 1 ||| if dci &&& 1 ≠ 0 then 0x80 else 0)
  endpointType := ((s.input ((dci + 1) * c.words + 1) >>> 3) &&& 7).setWidth 8
  enqueueIndex := 0
  cycle := 1
  configured := true

/-- The body of the loop over the DCIs. -/
def commitRing (s : Pending) (rings : Nat → EndpointRing) (dci : Nat) : Nat → EndpointRing :=
  if (s.pendingRings dci).virtualAddress ≠ 0 then Function.update rings dci (s.newRing c dci) else rings

/-- What a call leaves behind. -/
structure Configured where
  ret : Nat
  log : DmaLog
  needsReinit : Bool
  endpointRings : Nat → EndpointRing
  /-- The input context, if there was one. -/
  input : Nat → BitVec 32 := fun _ => 0
  /-- The command, if there was one. -/
  command : Option XhciTrb := none

/-- The loops are done, and the command is submitted. -/
def submitConfigure (outcome : Option (BitVec 8)) (s : Pending) : Option Configured :=
  if s.highestDci = 1 then some ⟨0, s.discard, c.needsReinit, slot.endpointRings, s.input, none⟩
  else do
    let entries := (s.input c.words &&& ~~~((0x1f : BitVec 32) <<< 27)) ||| (BitVec.ofNat 32 s.highestDci <<< 27)
    let input ← storeWords c.words c.words [entries] s.input
    let s := { s with input := input }
    let phys := BitVec.ofNat 64 s.inputContext.physicalAddress
    let command : XhciTrb := ⟨lowWord phys, highWord phys, 0, trbType 12 ||| (slot.slotId.setWidth 32 <<< 24)⟩
    match outcome with
    | none => return ⟨1, s.log, true, slot.endpointRings, s.input, some command⟩
    | some code =>
      if code ≠ 1 then return ⟨1, s.discard, c.needsReinit, slot.endpointRings, s.input, some command⟩
      else
        return ⟨0, s.log.free s.inputContext.virtualAddress, c.needsReinit,
          (List.range' 2 30).foldl (commitRing c s) slot.endpointRings, s.input, some command⟩

/-- The part behind the checks of the arguments. -/
def configureSlot (outcome : Option (BitVec 8)) (interfaces : List UsbInterface) : Option Configured :=
  let (ok, inputContext, log) := xhciDmaAlloc dma (4 * c.words * 33) c.addr64 {}
  if ok = false then some { ret := 1, log := log, needsReinit := c.needsReinit, endpointRings := slot.endpointRings }
  else do
    let s : Pending :=
      { log := log
        inputContext := inputContext
        input := initialInput c (c.outputContext slot.outputContextVirtual)
        pendingRings := fun _ => {}
        links := fun _ => ⟨0, 0, 0, 0⟩
        highestDci := 1 }
    let (ok, s) ← addInterfaces dma c slot interfaces s
    if ok = false then return ⟨1, s.discard, c.needsReinit, slot.endpointRings, s.input, none⟩
    else submitConfigure c slot outcome s

end

/-- `configure_endpoints`: what it returns and, if the arguments pass the checks, what it leaves behind for the slot
of the device. -/
def configureEndpoints (dma : DmaOracle) (c : Controller) (outcome : Option (BitVec 8)) (device : UsbDevice)
    (bConfigurationValue : BitVec 16) (maxpacketsize : BitVec 32) (address : BitVec 8) :
    Option (Nat × Option Configured) :=
  match c.slots, c.dcbaa, device.interfaces with
  | some slots, some dcbaa, some interfaces =>
    if c.needsReinit = true ∨ device.portNumber = 0 ∨ c.portsCount < device.portNumber.toNat ∨
        bConfigurationValue = 0 ∨ bConfigurationValue ≠ device.configurationValue.setWidth 16 ∨
        address ≠ device.address then some (1, none)
    else
      let slot := slots (device.portNumber.toNat - 1)
      if slot.slotId = 0 ∨ slot.address ≠ address ∨ slot.ep0Mps.setWidth 32 ≠ maxpacketsize ∨
          slot.outputContextVirtual = 0 ∨ dcbaa slot.slotId ≠ slot.outputContextPhysical then some (1, none)
      else do
        let r ← configureSlot dma c slot outcome interfaces
        return (r.ret, some r)
  | _, _, _ => some (1, none)

end Xhci

end Dem64
