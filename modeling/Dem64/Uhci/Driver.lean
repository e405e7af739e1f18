import Dem64.Host.Address
import Dem64.Host.Blocks
import Dem64.Lib.SharedMemory
import Dem64.Uhci.Chain

/-!
# The UHCI driver

The driver has one schedule: for every transfer it halts the controller, saves the frame list, lets all
1024 entries point to the queue head of the transfer, starts the controller, waits, halts it again, writes
the saved entries back and starts it.  `identify_device` does this once, `set_address` twice and
`usb_send_packet` once.

What the hardware does is an argument: the values that are read from USBSTS and the port registers, and,
for `usb_send_packet`, what the controller writes to memory between two looks of the driver.  For the
transfers of `identify_device` and `set_address`, whose descriptors are not modelled, it is the result of
`wait_for_control_transfer` and what is found in the buffer.  So is what `allocate_dma` returns; the kernel
heap has room.
-/

set_option autoImplicit false

namespace Dem64.Uhci

open ByteMemory SharedMemory

/-! ## Waiting for the controller -/

/-- `UHCI_STS_HCH`. -/
def uhciStsHch : BitVec 16 := 0x20

/-- `wait_for_halted`, for the values that are read from USBSTS. -/
def waitForHalted (status : Nat → BitVec 16) : Bool :=
  (List.range 100).any (fun elapsed => status elapsed &&& uhciStsHch != 0) || status 100 &&& uhciStsHch != 0

/-- `wait_for_start`, for the values that are read from USBSTS. -/
def waitForStart (status : Nat → BitVec 16) : Bool :=
  (List.range 100).any (fun elapsed => status elapsed &&& uhciStsHch == 0) || status 100 &&& uhciStsHch == 0

/-! ## Waiting for a transfer -/

/-- `uhci_td_failed`. -/
def uhciTdFailed (status : BitVec 32) : Bool :=
  status &&& uhciTdActive == 0 && status &&& 0x007E0000 != 0

/-- `uhci_actual_length`. -/
def uhciActualLength (status : BitVec 32) : BitVec 32 := ((status &&& 0x7FF) + 1) &&& 0x7FF

/-- How the loop over the data descriptors ends. -/
inductive DataPoll where
  /-- A descriptor has failed. -/
  | failed
  /-- A descriptor is active. -/
  | unfinished (total : BitVec 32)
  /-- A packet was short. -/
  | short (total : BitVec 32)
  /-- All data descriptors are done. -/
  | done (total : BitVec 32)

/-- The loop over the data descriptors from `i` on, `k` of them. -/
def pollData (writes : Nat → List (Nat × BitVec 8)) (dataTds : Nat) :
    (k i : Nat) → (total : BitVec 32) → Shared → DataPoll × Shared
  | 0, _, total, w => (.done total, w)
  | k + 1, i, total, w =>
    let (status, w) := w.read32 writes (dataTds + sizeofTd * i + 4)
    if uhciTdFailed status then (.failed, w)
    else if status &&& uhciTdActive ≠ 0 then (.unfinished total, w)
    else
      let actual := uhciActualLength status
      let (token, w) := w.read32 writes (dataTds + sizeofTd * i + 8)
      let total := total + actual
      if status &&& uhciTdSpd ≠ 0 ∧ actual < maxLength token then (.short total, w)
      else pollData writes dataTds k (i + 1) total w

/-- The physical addresses of the descriptors, and `status_td_phys`. -/
structure TransferTds where
  /-- `qh`. -/
  qh : Nat
  /-- `setup_td`. -/
  setupTd : Nat
  /-- `data_tds`. -/
  dataTds : Nat
  /-- `data_td_count`. -/
  dataTdCount : Nat
  /-- `status_td`. -/
  statusTd : Nat
  /-- `status_td_phys`. -/
  statusTdPhys : BitVec 32

/-- How a round of `wait_for_control_transfer` goes on after the data stage. -/
inductive DataStage where
  /-- A descriptor has failed. -/
  | failed
  /-- The data stage is not over. -/
  | again (received : BitVec 32)
  /-- The data stage is over, with a short packet or not. -/
  | ended (short : Bool) (received : BitVec 32)

/-- The data stage in a round of `wait_for_control_transfer`.  After a short packet the queue is restarted
at the status descriptor. -/
def dataStage (writes : Nat → List (Nat × BitVec 8)) (t : TransferTds) (short : Bool)
    (received : BitVec 32) (w : Shared) : DataStage × Shared :=
  if short then (.ended true received, w)
  else
    match pollData writes t.dataTds t.dataTdCount 0 0 w with
    | (.failed, w) => (.failed, w)
    | (.unfinished total, w) => (.again total, w)
    | (.short total, w) => (.ended true total, w.write (t.qh + 4) [t.statusTdPhys])
    | (.done total, w) => (.ended false total, w)

/-- `k` rounds of `wait_for_control_transfer`, with the result, `received_bytes` and memory. -/
def waitRounds (writes : Nat → List (Nat × BitVec 8)) (t : TransferTds) :
    (k : Nat) → (short : Bool) → (received : BitVec 32) → Shared → TransferResult × BitVec 32 × Shared
  | 0, _, received, w => (.timeout, received, w)
  | k + 1, short, received, w =>
    let (setupStatus, w) := w.read32 writes (t.setupTd + 4)
    if uhciTdFailed setupStatus then (.transferError, received, w)
    else if setupStatus &&& uhciTdActive ≠ 0 then waitRounds writes t k short received w
    else
      match dataStage writes t short received w with
      | (.failed, w) => (.transferError, received, w)
      | (.again received, w) => waitRounds writes t k false received w
      | (.ended short received, w) =>
        let (statusStatus, w) := w.read32 writes (t.statusTd + 4)
        if uhciTdFailed statusStatus then (.transferError, received, w)
        else if statusStatus &&& uhciTdActive = 0 then (.success, received, w)
        else waitRounds writes t k short received w

/-- `wait_for_control_transfer`. -/
def waitForControlTransfer (writes : Nat → List (Nat × BitVec 8)) (t : TransferTds) (w : Shared) :
    TransferResult × BitVec 32 × Shared :=
  waitRounds writes t 100 false 0 w

/-! ## The driver -/

/-- What the driver keeps, with the DMA blocks that are allocated. -/
structure UhciState where
  /-- `frame_list`. -/
  frameList : Fin 1024 → BitVec 32
  /-- `next_usb_address`. -/
  nextUsbAddress : BitVec 8
  /-- The blocks that were allocated and have not been passed to `free_dma`. -/
  live : List DmaRet
  /-- The USB address that the device on a port has. -/
  devices : BitVec 8 → BitVec 8

/-- `allocate_dma` returns `alloc`. -/
def UhciState.allocateDma (s : UhciState) (alloc : DmaRet) : UhciState :=
  { s with live := allocateBlock s.live alloc }

/-- `free_dma`. -/
def UhciState.freeDma (s : UhciState) (alloc : DmaRet) : UhciState :=
  { s with live := freeBlock s.live alloc }

/-- All entries of the frame list point to the queue head. -/
def UhciState.schedule (s : UhciState) (qhPhys : BitVec 32) : UhciState :=
  { s with frameList := fun _ => qhPhys ||| 2 }

/-- The saved entries are written back. -/
def UhciState.restore (s : UhciState) (backup : Fin 1024 → BitVec 32) : UhciState :=
  { s with frameList := backup }

/-- What is read from USBSTS in the four waits around a transfer.  Of the second and the third there is one
each on every path. -/
structure Visit where
  /-- Until the controller has halted, for the first time. -/
  halted : Nat → BitVec 16
  /-- Until it has started, for the first time. -/
  started : Nat → BitVec 16
  /-- Until it has halted after the transfer. -/
  haltedAgain : Nat → BitVec 16
  /-- Until it has started after the transfer. -/
  startedAgain : Nat → BitVec 16

/-- `identify_device` on what it meets.  The descriptor that it returns has 18 bytes; the first 8 are read
from the device. -/
def identifyDevice (alloc : DmaRet) (visit : Visit) (transfer : Transfer) (s : UhciState) :
    (Nat → BitVec 8) × UhciState :=
  let deviceDescriptor : Nat → BitVec 8 := fun _ => 0
  let s := s.allocateDma alloc
  if alloc.status ≠ 0 then (deviceDescriptor, s)
  else if alloc.tooBig then (deviceDescriptor, s.freeDma alloc)
  else
    let qhPhys := BitVec.ofNat 32 alloc.physicalAddress
    if !waitForHalted visit.halted then (deviceDescriptor, s.freeDma alloc)
    else
      let backup := s.frameList
      let s := s.schedule qhPhys
      if !waitForStart visit.started then (deviceDescriptor, s.freeDma alloc)
      else if transfer.result ≠ .success then
        if !waitForHalted visit.haltedAgain then (deviceDescriptor, s.freeDma alloc)
        -- that the controller does not start is only reported
        else (deviceDescriptor, (s.restore backup).freeDma alloc)
      else
        let desc := transfer.buffer
        let deviceDescriptor := if desc 0 = 0x12 ∧ desc 1 = 1 then fun i => if i < 8 then desc i else 0
          else deviceDescriptor
        if !waitForHalted visit.haltedAgain then (deviceDescriptor, s.freeDma alloc)
        else (deviceDescriptor, (s.restore backup).freeDma alloc)

/-- The descriptors of `usb_send_packet`. -/
def transferTds (alloc : DmaRet) (dataTdCount : Nat) : TransferTds :=
  let l := transferLayout alloc dataTdCount
  { qh := alloc.physicalOf l.qh
    setupTd := alloc.physicalOf l.setupTd
    dataTds := alloc.physicalOf l.dataTd
    dataTdCount
    statusTd := alloc.physicalOf l.statusTd
    statusTdPhys := l.statusTdPhys }

/-- What `usb_send_packet` meets. -/
structure SendPacket where
  /-- What is read from the register of the port. -/
  portStatus : BitVec 16
  /-- What `allocate_dma` returns. -/
  alloc : DmaRet
  /-- The waits. -/
  visit : Visit
  /-- What the controller writes to memory. -/
  writes : Nat → List (Nat × BitVec 8)
  /-- `kmalloc` has room. -/
  kmalloc : Bool

/-- `low_speed_status`. -/
def lowSpeedStatus (portStatus : BitVec 16) : BitVec 32 :=
  if portStatus &&& (1#16 <<< 8) ≠ 0 then 1#32 <<< 26 else 0

/-- `usb_send_packet`, with the former contents of memory.  None is a null pointer. -/
def usbSendPacket (r : SendPacket) (packet : UsbSetupPacket) (maxpacketsize length : Nat)
    (address : BitVec 8) (former : Nat → BitVec 8) (s : UhciState) : Option Response × UhciState :=
  if rejects packet maxpacketsize length then (none, s)
  else
    let dataTdCount := packetCount length maxpacketsize
    let s := s.allocateDma r.alloc
    if r.alloc.status ≠ 0 then (none, s)
    else if r.alloc.tooBig then (none, s.freeDma r.alloc)
    else
      let l := transferLayout r.alloc dataTdCount
      let memory := writeTransfer r.alloc packet maxpacketsize length address
        (lowSpeedStatus r.portStatus) former
      if !waitForHalted r.visit.halted then (none, s.freeDma r.alloc)
      else
        let backup := s.frameList
        let s := s.schedule l.qhPhys
        if !waitForStart r.visit.started then (none, s.freeDma r.alloc)
        else
          let (result, _, w) :=
            waitForControlTransfer r.writes (transferTds r.alloc dataTdCount) ⟨memory, 0⟩
          if result ≠ .success then
            if !waitForHalted r.visit.haltedAgain then (none, s.freeDma r.alloc)
            else (none, (s.restore backup).freeDma r.alloc)
          else if !waitForHalted r.visit.haltedAgain then (none, s.freeDma r.alloc)
          else
            let s := s.restore backup
            if !waitForStart r.visit.startedAgain then (none, s.freeDma r.alloc)
            else if length ≠ 0 then
              if !r.kmalloc then (none, s.freeDma r.alloc)
              else
                let w := w.look r.writes
                (some (.buffer (getBytes w.memory (r.alloc.physicalOf (l.setup + 8)) length)),
                  s.freeDma r.alloc)
            else (some .done, s.freeDma r.alloc)

/-! ## Addresses -/

/-- `PR`: port reset. -/
def uhciPr : BitVec 16 := 1#16 <<< 9
/-- `PE`: port enable. -/
def uhciPe : BitVec 16 := 1#16 <<< 2
/-- `UHCI_CCS`. -/
def uhciCcs : BitVec 16 := 1
/-- `UHCI_W1C_MASK`. -/
def uhciW1cMask : BitVec 16 := 0x0A0A
/-- `UHCI_WZ_MASK`. -/
def uhciWzMask : BitVec 16 := 0xE000

/-- `reset_port`, for the values that are read from the register of the port: what it returns, and the
values that it writes to the register. -/
def resetPort (port : BitVec 8) (read : Nat → BitVec 16) : Nat × List (BitVec 16) :=
  if port < 1 ∨ port > 2 then (4, [])
  else
    let status := read 0
    if status &&& uhciCcs = 0 then (1, [])
    else
      let assert := status &&& 0x1FF &&& ~~~uhciW1cMask ||| uhciPr
      let status := read 1
      let deassert := status &&& ~~~(uhciPr ||| uhciW1cMask ||| uhciWzMask) &&& ~~~uhciPr
      let status := read 2
      if status &&& uhciPr ≠ 0 then (2, [assert, deassert])
      else
        let enable := status &&& ~~~(uhciW1cMask ||| uhciWzMask) ||| uhciPe
        let written := if status &&& uhciPe = 0 then [assert, deassert, enable] else [assert, deassert]
        let status := if status &&& uhciPe = 0 then read 3 else status
        if status &&& uhciCcs ≠ 0 ∧ status &&& uhciPe ≠ 0 ∧ status &&& uhciPr = 0 then (0, written)
        else (3, written)

/-- A device loses its address when its port is reset. -/
def portReset (written : List (BitVec 16)) : Bool := written.any fun v => v &&& uhciPr != 0

/-- The devices on some ports take the address of a SET_ADDRESS request. -/
def UhciState.take (s : UhciState) (takes : BitVec 8 → Bool) (address : BitVec 8) : UhciState :=
  { s with devices := takeAddress s.devices takes address }

/-- `reset_port` as `set_address` calls it. -/
def UhciState.reset (s : UhciState) (port : BitVec 8) (read : Nat → BitVec 16) : Nat × UhciState :=
  let (code, written) := resetPort port read
  (code, if portReset written then { s with devices := Function.update s.devices port 0 } else s)

/-- What `set_address` meets. -/
structure SetAddress where
  /-- What is read from the register of the port for the speed. -/
  portStatus : BitVec 16
  /-- What `allocate_dma` returns for the SET_ADDRESS request. -/
  alloc : DmaRet
  /-- The waits around it. -/
  visit : Visit
  /-- What `wait_for_control_transfer` returns. -/
  result : TransferResult
  /-- The ports whose devices take the address, whatever the driver sees of it. -/
  takes : BitVec 8 → Bool
  /-- What `allocate_dma` returns for the GET_DESCRIPTOR request. -/
  descriptorAlloc : DmaRet
  /-- The waits around it. -/
  descriptorVisit : Visit
  /-- What comes of it. -/
  descriptor : Transfer
  /-- What `reset_port` reads, if it is called. -/
  resetStatus : Nat → BitVec 16

/-- `set_address`, the GET_DESCRIPTOR part.  The entries that are restored are those that were saved for
the SET_ADDRESS request. -/
def getDescriptor (r : SetAddress) (desc : Nat → BitVec 8) (port address : BitVec 8)
    (backup : Fin 1024 → BitVec 32) (device : UsbDevice) (s : UhciState) : UsbDevice × UhciState :=
  let alloc := r.descriptorAlloc
  let s := s.allocateDma alloc
  if alloc.status ≠ 0 then (device, s)
  else if alloc.tooBig then (device, s.freeDma alloc)
  else if !waitForHalted r.descriptorVisit.halted then (device, s.freeDma alloc)
  else
    let s := s.schedule (BitVec.ofNat 32 alloc.physicalAddress)
    if !waitForStart r.descriptorVisit.started then (device, s.freeDma alloc)
    else if r.descriptor.result ≠ .success then
      if !waitForHalted r.descriptorVisit.haltedAgain then (device, s.freeDma alloc)
      else
        let s := s.restore backup
        let (rests, s) := s.reset port r.resetStatus
        let s := if rests ≠ 0 then s else { s with nextUsbAddress := address }
        ({ device with address := 0 }, s.freeDma alloc)
    else
      let valid := r.descriptor.validDescriptor
      let desc := if valid then fun i => if i < 18 then r.descriptor.buffer i else desc i else desc
      if !waitForHalted r.descriptorVisit.haltedAgain then (device, s.freeDma alloc)
      else ({ device with discovered := valid, descriptor := desc }, (s.restore backup).freeDma alloc)

/-- `set_address`. -/
def setAddress (r : SetAddress) (desc : Nat → BitVec 8) (port : BitVec 8) (s : UhciState) :
    UsbDevice × UhciState :=
  if !fullSpeedDescriptor desc then ({}, s)
  else
    let low := r.portStatus &&& (1#16 <<< 8) ≠ 0
    let device : UsbDevice := { speed := if low then 1 else 2 }
    let alloc := r.alloc
    let s := s.allocateDma alloc
    if alloc.status ≠ 0 then (device, s)
    else if alloc.tooBig then (device, s.freeDma alloc)
    else
      let (address, next) := allocateUsbAddress s.nextUsbAddress
      let s := { s with nextUsbAddress := next }
      if address = 0 then (device, s.freeDma alloc)
      else if !waitForHalted r.visit.halted then (device, s.freeDma alloc)
      else
        let backup := s.frameList
        let s := s.schedule (BitVec.ofNat 32 alloc.physicalAddress)
        -- from here on the devices may find the request
        let s := s.take r.takes address
        if !waitForStart r.visit.started then (device, s.freeDma alloc)
        else if r.result ≠ .success then
          if !waitForHalted r.visit.haltedAgain then (device, s.freeDma alloc)
          else (device, ({ s.restore backup with nextUsbAddress := address }).freeDma alloc)
        else
          let device := { device with address }
          if !waitForHalted r.visit.haltedAgain then (device, s.freeDma alloc)
          else
            let s := s.restore backup
            if !waitForStart r.visit.startedAgain then (device, s.freeDma alloc)
            else getDescriptor r desc port address backup device (s.freeDma alloc)

end Dem64.Uhci
