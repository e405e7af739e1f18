import Dem64.Host.Address
import Dem64.Host.Blocks
import Dem64.Lib.SharedMemory
import Dem64.Ohci.Chain

/-!
# The OHCI driver

For every transfer the driver stops the control list, lets it start at the endpoint descriptor of the
transfer, starts it and waits; then it stops the list again, waits until the descriptors have come back
through the done queue, and puts the old list back.  When it does not come to that, it gives up the block,
which is recorded in `controller.cached`.

What the hardware does is an argument, as in the drivers for UHCI and EHCI.  Here this includes whether the
list is stopped (`stop_control_schedule`) and whether the old one comes back (`restore_control_schedule`,
which `Dem64.Ohci.DoneQueue` is about).
-/

set_option autoImplicit false

namespace Dem64.Ohci

open ByteMemory SharedMemory

/-! ## Waiting for a transfer -/

/-- `OHCI_ED_HEAD_HALTED`. -/
def ohciEdHeadHalted : BitVec 32 := 1
/-- `OHCI_ED_HEAD_MASK`. -/
def ohciEdHeadMask : BitVec 32 := 0xFFFFFFF0
/-- `OHCI_ED_SKIP`. -/
def ohciEdSkip : BitVec 32 := 1#32 <<< 14

/-- The physical addresses of the descriptors, and what `wait_for_descriptor` compares with. -/
structure TransferTds where
  /-- `ed`. -/
  ed : Nat
  /-- `setup_td`. -/
  setupTd : Nat
  /-- `data_td`, if there is one. -/
  dataTd : Option Nat
  /-- `status_td`. -/
  statusTd : Nat
  /-- `dummy_phys`. -/
  dummyPhys : BitVec 32
  /-- `data_buffer_phys`. -/
  dataBufferPhys : BitVec 32
  /-- `data_length`. -/
  dataLength : BitVec 32

/-- `received_bytes`, from the `cbp` of the first data descriptor.  None is a transfer error. -/
def receivedBytes (t : TransferTds) (cbp : BitVec 32) : Option (BitVec 32) :=
  if cbp = 0 then some t.dataLength
  else if cbp ≥ t.dataBufferPhys ∧ cbp ≤ t.dataBufferPhys + t.dataLength - 1 then some (cbp - t.dataBufferPhys)
  else none

/-- What `wait_for_descriptor` does when the queue has come to its end. -/
def finishedTransfer (writes : Nat → List (Nat × BitVec 8)) (t : TransferTds) (w : Shared) :
    TransferResult × BitVec 32 × Shared :=
  let (setupControl, w) := w.read32 writes t.setupTd
  match t.dataTd with
  | none =>
    let (statusControl, w) := w.read32 writes t.statusTd
    if setupControl >>> 28 ≠ 0 ∨ statusControl >>> 28 ≠ 0 then (.transferError, 0, w)
    else (.success, 0, w)
  | some dataTd =>
    let (dataControl, w) := w.read32 writes dataTd
    let (statusControl, w) := w.read32 writes t.statusTd
    if setupControl >>> 28 ≠ 0 ∨ dataControl >>> 28 ≠ 0 ∨ statusControl >>> 28 ≠ 0 then (.transferError, 0, w)
    else
      let (cbp, w) := w.read32 writes (dataTd + 4)
      match receivedBytes t cbp with
      | none => (.transferError, 0, w)
      | some received => (.success, received, w)

/-- `k` rounds of `wait_for_descriptor`, with the result, `received_bytes` and memory.  `process_done_queue`,
which it calls, writes no memory of the transfer, and what it returns is ignored. -/
def waitRounds (writes : Nat → List (Nat × BitVec 8)) (t : TransferTds) :
    (k : Nat) → Shared → TransferResult × BitVec 32 × Shared
  | 0, w => (.timeout, 0, w)
  | k + 1, w =>
    let (headp, w) := w.read32 writes (t.ed + 8)
    if headp &&& ohciEdHeadHalted ≠ 0 then (.transferError, 0, w)
    else if headp &&& ohciEdHeadMask = t.dummyPhys then finishedTransfer writes t w
    else waitRounds writes t k w

/-- `wait_for_descriptor`. -/
def waitForDescriptor (writes : Nat → List (Nat × BitVec 8)) (t : TransferTds) (w : Shared) :
    TransferResult × BitVec 32 × Shared :=
  waitRounds writes t 100 w

/-! ## The driver -/

/-- What the driver keeps, with the DMA blocks that are allocated. -/
structure OhciState where
  /-- `next_usb_address`. -/
  nextUsbAddress : BitVec 8
  /-- `controller.needs_reinit`. -/
  needsReinit : Bool
  /-- The blocks that were allocated and have not been passed to `free_dma`. -/
  live : List DmaRet
  /-- The blocks in `controller.cached`. -/
  cached : List DmaRet
  /-- The USB address that the device on a port has. -/
  devices : BitVec 8 → BitVec 8

/-- `allocate_dma` returns `alloc`. -/
def OhciState.allocateDma (s : OhciState) (alloc : DmaRet) : OhciState :=
  { s with live := allocateBlock s.live alloc }

/-- `free_dma`. -/
def OhciState.freeDma (s : OhciState) (alloc : DmaRet) : OhciState :=
  { s with live := freeBlock s.live alloc }

/-- What the driver does with a block of which the controller may still know. -/
def OhciState.quarantine (s : OhciState) (alloc : DmaRet) : OhciState :=
  { s with cached := s.cached ++ [alloc], needsReinit := true }

/-- What `usb_send_packet` meets. -/
structure SendPacket where
  /-- What `allocate_dma` returns. -/
  alloc : DmaRet
  /-- What is read from the register of the port. -/
  portStatus : BitVec 32
  /-- What `stop_control_schedule` returns. -/
  stopped : Bool
  /-- What the controller writes to memory. -/
  writes : Nat → List (Nat × BitVec 8)
  /-- What `restore_control_schedule` returns. -/
  restored : Bool
  /-- `kmalloc` has room. -/
  kmalloc : Bool

/-- `OHCI_RHPS_LSDA`. -/
def ohciRhpsLsda : BitVec 32 := 1#32 <<< 9

/-- The descriptors of `usb_send_packet`. -/
def transferTds (alloc : DmaRet) (dataTdCount length : Nat) : TransferTds :=
  let l := transferLayout alloc dataTdCount
  { ed := alloc.physicalOf l.ed
    setupTd := alloc.physicalOf l.setupTd
    dataTd := if dataTdCount ≠ 0 then some (alloc.physicalOf l.dataTd) else none
    statusTd := alloc.physicalOf l.statusTd
    dummyPhys := l.dummyPhys
    dataBufferPhys := l.dataPhys
    dataLength := BitVec.ofNat 32 length }

/-- `usb_send_packet`, with the former contents of memory.  None is a null pointer. -/
def usbSendPacket (r : SendPacket) (packet : UsbSetupPacket) (maxpacketsize length : Nat)
    (address : BitVec 8) (former : Nat → BitVec 8) (s : OhciState) : Option Response × OhciState :=
  if rejects packet maxpacketsize length then (none, s)
  else
    let dataTdCount := packetCount length maxpacketsize
    let alloc := r.alloc
    let s := s.allocateDma alloc
    if alloc.status ≠ 0 then (none, s)
    else if alloc.tooBig then (none, s.freeDma alloc)
    else
      let lowSpeed := r.portStatus &&& ohciRhpsLsda != 0
      let l := transferLayout alloc dataTdCount
      let memory := writeTransfer alloc packet maxpacketsize length address lowSpeed former
      if !r.stopped then (none, { s with needsReinit := true }.freeDma alloc)
      else
        let tds := transferTds alloc dataTdCount length
        let (result, _, w) := waitForDescriptor r.writes tds ⟨memory, 0⟩
        -- the first thing `restore_control_schedule` does
        let (control, w) := w.read32 r.writes tds.ed
        let w := w.write tds.ed [control ||| ohciEdSkip]
        if !r.restored then (none, s.quarantine alloc)
        else if result ≠ .success then (none, s.freeDma alloc)
        else if length ≠ 0 then
          if !r.kmalloc then (none, s.freeDma alloc)
          else
            let w := w.look r.writes
            (some (.buffer (getBytes w.memory (alloc.physicalOf (l.setup + 8)) length)), s.freeDma alloc)
        else (some .done, s.freeDma alloc)

/-! ## Addresses -/

/-- `CCS`. -/
def ccs : BitVec 32 := 1
/-- `PES`. -/
def pes : BitVec 32 := 1#32 <<< 1
/-- `PRS`. -/
def prs : BitVec 32 := 1#32 <<< 4
/-- `PRSC`. -/
def prsc : BitVec 32 := 1#32 <<< 20

/-- The rounds in which `reset_port` waits for the end of a reset that is going on, from the `i`-th read on:
what it returns, if it returns, and the number of the next read. -/
def waitIdle (read : Nat → BitVec 32) : (k i : Nat) → Option Nat × Nat
  | 0, i => (some 2, i)
  | k + 1, i =>
    if read i = 0xFFFFFFFF then (some 10, i + 1)
    else if read i &&& ccs = 0 then (some 1, i + 1)
    else if read i &&& prs = 0 then (none, i + 1)
    else waitIdle read k (i + 1)

/-- The rounds in which it waits for the end of a pulse. -/
def waitPulse (read : Nat → BitVec 32) : (k i : Nat) → Option Nat × Nat
  | 0, i => (some 3, i)
  | k + 1, i =>
    if read i = 0xFFFFFFFF then (some 10, i + 1)
    else if read i &&& ccs = 0 then (some 1, i + 1)
    else if read i &&& prs = 0 ∧ read i &&& prsc ≠ 0 then (none, i + 1)
    else waitPulse read k (i + 1)

/-- The pulses of a reset, with the values that are written to the register of the port. -/
def resetPulses (read : Nat → BitVec 32) : (k i : Nat) → Option Nat × Nat × List (BitVec 32)
  | 0, i => (none, i, [])
  | k + 1, i =>
    if read i = 0xFFFFFFFF then (some 10, i + 1, [])
    else
      let written := if read i &&& prsc ≠ 0 then [prsc, prs] else [prs]
      match waitPulse read 20 (i + 1) with
      | (some code, i) => (some code, i, written)
      | (none, i) =>
        let (code, i, later) := resetPulses read k i
        (code, i, written ++ later)

/-- What `reset_port` meets. -/
structure PortReset where
  /-- `ports_count`. -/
  portsCount : BitVec 8
  /-- What is read from the register of the port. -/
  read : Nat → BitVec 32

/-- `reset_port`: what it returns, and the values that it writes to the register of the port. -/
def resetPort (port : BitVec 8) (r : PortReset) : Nat × List (BitVec 32) :=
  if port < 1 ∨ port > r.portsCount then (4, [])
  else if r.read 0 = 0xFFFFFFFF then (10, [])
  else if r.read 0 &&& ccs = 0 then (1, [])
  else
    match waitIdle r.read 20 1 with
    | (some code, _) => (code, [])
    | (none, i) =>
      match resetPulses r.read 5 i with
      | (some code, _, written) => (code, written)
      | (none, i, written) =>
        let status := r.read i
        if status = 0xFFFFFFFF then (10, written)
        else if status &&& ccs = 0 then (1, written)
        else if status &&& prs ≠ 0 then (2, written)
        else if status &&& pes = 0 then (3, written)
        else (0, written)

/-- A device loses its address when its port is reset. -/
def portReset (written : List (BitVec 32)) : Bool := written.any fun v => v &&& prs != 0

/-- The devices on some ports take the address of a SET_ADDRESS request. -/
def OhciState.take (s : OhciState) (takes : BitVec 8 → Bool) (address : BitVec 8) : OhciState :=
  { s with devices := takeAddress s.devices takes address }

/-- `reset_port` as `set_address` calls it. -/
def OhciState.reset (s : OhciState) (port : BitVec 8) (r : PortReset) : Nat × OhciState :=
  let (code, written) := resetPort port r
  (code, if portReset written then { s with devices := Function.update s.devices port 0 } else s)

/-- What `set_address` meets. -/
structure SetAddress where
  /-- What `allocate_dma` returns for the SET_ADDRESS request. -/
  alloc : DmaRet
  /-- What is read from the register of the port. -/
  portStatus : BitVec 32
  /-- What `stop_control_schedule` returns. -/
  stopped : Bool
  /-- What `wait_for_descriptor` returns. -/
  result : TransferResult
  /-- What `restore_control_schedule` returns. -/
  restored : Bool
  /-- The ports whose devices take the address, whatever the driver sees of it. -/
  takes : BitVec 8 → Bool
  /-- What `allocate_dma` returns for the GET_DESCRIPTOR request. -/
  descriptorAlloc : DmaRet
  /-- What `stop_control_schedule` returns. -/
  descriptorStopped : Bool
  /-- What comes of it. -/
  descriptor : Transfer
  /-- What `restore_control_schedule` returns. -/
  descriptorRestored : Bool
  /-- What `reset_port` meets, if it is called. -/
  portReset : PortReset

/-- The two tests of the packet size that both requests make. -/
def badPacketSize (lowSpeed : Bool) (maxPacketSize : BitVec 8) : Bool :=
  lowSpeed && maxPacketSize != 8 ||
    !lowSpeed && maxPacketSize != 8 && maxPacketSize != 16 && maxPacketSize != 32 && maxPacketSize != 64

/-- `set_address`, the GET_DESCRIPTOR part.  A block above 4 GiB is not freed. -/
def getDescriptor (r : SetAddress) (desc : Nat → BitVec 8) (port address : BitVec 8) (device : UsbDevice)
    (s : OhciState) : UsbDevice × OhciState :=
  let alloc := r.descriptorAlloc
  let s := s.allocateDma alloc
  if alloc.status ≠ 0 then (device, s)
  else if alloc.tooBig then (device, s)
  else
    let lowSpeed := r.portStatus &&& ohciRhpsLsda != 0
    if badPacketSize lowSpeed (desc 7) then (device, s.freeDma alloc)
    else if !r.descriptorStopped then (device, { s with needsReinit := true }.freeDma alloc)
    else if !r.descriptorRestored then (device, s.quarantine alloc)
    else if r.descriptor.result ≠ .success then
      let (rests, s) := s.reset port r.portReset
      let s := if rests ≠ 0 then s else { s with nextUsbAddress := address }
      ({ device with address := 0 }, s.freeDma alloc)
    else
      let valid := r.descriptor.validDescriptor
      let desc := if valid then fun i => if i < 18 then r.descriptor.buffer i else desc i else desc
      ({ device with discovered := valid, descriptor := desc }, s.freeDma alloc)

/-- `set_address`.  A block above 4 GiB is not freed. -/
def setAddress (r : SetAddress) (desc : Nat → BitVec 8) (port : BitVec 8) (s : OhciState) :
    UsbDevice × OhciState :=
  if !fullSpeedDescriptor desc then ({}, s)
  else
    let device : UsbDevice := {}
    let alloc := r.alloc
    let s := s.allocateDma alloc
    if alloc.status ≠ 0 then (device, s)
    else if alloc.tooBig then (device, s)
    else
      let (address, next) := allocateUsbAddress s.nextUsbAddress
      let s := { s with nextUsbAddress := next }
      if address = 0 then (device, s.freeDma alloc)
      else
        let lowSpeed := r.portStatus &&& ohciRhpsLsda != 0
        if badPacketSize lowSpeed (desc 7) then (device, s.freeDma alloc)
        else if !r.stopped then (device, { s with needsReinit := true }.freeDma alloc)
        else
          -- the list starts at the request, and the devices may find it
          let s := s.take r.takes address
          if !r.restored then (device, s.quarantine alloc)
          else if r.result ≠ .success then (device, { s with nextUsbAddress := address }.freeDma alloc)
          else getDescriptor r desc port address { device with address } (s.freeDma alloc)

end Dem64.Ohci
