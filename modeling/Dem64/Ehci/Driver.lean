import Dem64.Ehci.Chain
import Dem64.Host.Address
import Dem64.Host.Blocks
import Dem64.Lib.SharedMemory

/-!
# The EHCI driver

The controller goes around the asynchronous schedule, a ring of queue heads that starts at `async_head`.
For every transfer the driver puts a queue head behind `async_head`, waits, and takes it out again; then it
rings the doorbell and waits until the controller has acknowledged that it has no pointer to the queue head
any more.  When it does not come to that, it gives up the block, which is recorded in `controller.cached`.

The links of the queue heads are kept apart from the other bytes of memory, since the driver alone writes
them; so are the blocks.  `history` has every value that they have had, after every single store.

What the hardware does is an argument, as in the driver for UHCI: what is read from the registers, what the
controller writes to memory, and, for the two transfers of `set_address`, whose descriptors are not
modelled, what they come to.  So is what `allocate_dma` returns; the kernel heap has room.
-/

set_option autoImplicit false

namespace Dem64.Ehci

open ByteMemory SharedMemory

/-! ## The asynchronous schedule -/

/-- The schedule and the blocks, at one moment. -/
structure Schedule where
  /-- `horizontal_link` of the queue head at an address. -/
  links : Nat → BitVec 32
  /-- The blocks that were allocated and have not been passed to `free_dma`. -/
  live : List DmaRet
  /-- The blocks in `controller.cached`. -/
  cached : List DmaRet
  /-- The queue heads that were inserted, and of which the controller has not acknowledged since that it
  does without them. -/
  unacknowledged : List Nat

/-- What the driver keeps. -/
structure EhciState where
  /-- The schedule. -/
  schedule : Schedule
  /-- What the schedule has been so far, the latest first. -/
  history : List Schedule
  /-- `async_head_phys`. -/
  asyncHeadPhys : BitVec 32
  /-- `next_usb_address`. -/
  nextUsbAddress : BitVec 8
  /-- `controller.needs_reinit`. -/
  needsReinit : Bool
  /-- The USB address that the device on a port has. -/
  devices : BitVec 8 → BitVec 8

/-- A change that is to be seen. -/
def EhciState.change (s : EhciState) (r : Schedule) : EhciState :=
  { s with schedule := r, history := r :: s.history }

/-- `allocate_dma` returns `alloc`. -/
def EhciState.allocateDma (s : EhciState) (alloc : DmaRet) : EhciState :=
  s.change { s.schedule with live := allocateBlock s.schedule.live alloc }

/-- `free_dma`. -/
def EhciState.freeDma (s : EhciState) (alloc : DmaRet) : EhciState :=
  s.change { s.schedule with live := freeBlock s.schedule.live alloc }

/-- The link of a queue head is written. -/
def EhciState.storeLink (s : EhciState) (qh : Nat) (link : BitVec 32) : EhciState :=
  s.change { s.schedule with links := Function.update s.schedule.links qh link }

/-- `ehci_async_link_state`. -/
structure LinkState where
  /-- `previous`. -/
  previous : Nat
  /-- `old_next`. -/
  oldNext : BitVec 32
  /-- `linked`. -/
  linked : Bool

/-- `insert_async_qh`.  With the second store, the controller may find the queue head. -/
def EhciState.insertAsyncQh (s : EhciState) (qh : Nat) (qhPhys : BitVec 32) : LinkState × EhciState :=
  let head := s.asyncHeadPhys.toNat
  let oldNext := s.schedule.links head
  let s := s.storeLink qh oldNext
  let s := s.change
    { s.schedule with
      links := Function.update s.schedule.links head (qhPhys ||| 2)
      unacknowledged := qh :: s.schedule.unacknowledged }
  ({ previous := head, oldNext, linked := true }, s)

/-- `EHCI_USBCMD_IAAD`. -/
def ehciUsbcmdIaad : BitVec 32 := 1#32 <<< 6
/-- `EHCI_USBSTS_IAA`. -/
def ehciUsbstsIaa : BitVec 32 := 1#32 <<< 5

/-- What `unlink_async_qh` reads from the registers. -/
structure Unlink where
  /-- USBCMD, before the doorbell is rung. -/
  command : BitVec 32
  /-- USBSTS, afterwards. -/
  status : Nat → BitVec 32

/-- The controller acknowledges in time that it has advanced. -/
def Unlink.acknowledged (u : Unlink) : Bool :=
  (List.range 100).any fun elapsed => u.status elapsed &&& ehciUsbstsIaa != 0

/-- `unlink_async_qh`, if `active` says whether the queue head or a descriptor of it is still active. -/
def EhciState.unlinkAsyncQh (s : EhciState) (u : Unlink) (state : LinkState) (qh : Nat) (active : Bool) :
    Bool × EhciState :=
  if !state.linked then (true, s)
  else if active then (false, s)
  else if u.command &&& ehciUsbcmdIaad ≠ 0 then (false, s)
  else
    let s := s.storeLink state.previous state.oldNext
    let s := s.storeLink qh state.oldNext
    if u.acknowledged then
      (true, s.change
        { s.schedule with unacknowledged := s.schedule.unacknowledged.filter fun a => a ≠ qh })
    else (false, s)

/-- What the driver does with a block whose queue head it could not unlink. -/
def EhciState.quarantine (s : EhciState) (alloc : DmaRet) : EhciState :=
  { s.change { s.schedule with cached := s.schedule.cached ++ [alloc] } with needsReinit := true }

/-- The part of `controller_init` that sets up `async_head`, from what `allocate_dma` returns for it.  None
is a failure.  The controller learns of `async_head` afterwards, and the history begins there. -/
def EhciState.initAsyncHead (s : EhciState) (alloc : DmaRet) : Option EhciState :=
  let s := s.allocateDma alloc
  if alloc.status ≠ 0 ∨ alloc.tooBig ∨ alloc.physicalAddress &&& 0x1F ≠ 0 then none
  else
    let asyncHeadPhys := BitVec.ofNat 32 alloc.physicalAddress
    let s := s.storeLink asyncHeadPhys.toNat 0
    let s := s.storeLink asyncHeadPhys.toNat (asyncHeadPhys ||| 2)
    some { s with asyncHeadPhys, history := [s.schedule] }

/-! ## Waiting for a transfer -/

/-- `QTD_STATUS_ERROR_MASK`. -/
def qtdStatusErrorMask : BitVec 32 := 0x7C

/-- The physical addresses of the descriptors. -/
structure TransferQtds where
  /-- `setup_qtd`. -/
  setupQtd : Nat
  /-- `data_qtd`, if there is one. -/
  dataQtd : Option Nat
  /-- `status_qtd`. -/
  statusQtd : Nat

/-- The token of the data descriptor, or 0. -/
def dataToken (writes : Nat → List (Nat × BitVec 8)) (t : TransferQtds) (w : Shared) : BitVec 32 × Shared :=
  match t.dataQtd with
  | none => (0, w)
  | some dataQtd => w.read32 writes (dataQtd + 8)

/-- The number of bytes that a token still asks for. -/
def tokenRemaining (token : BitVec 32) : BitVec 32 := token >>> 16 &&& 0x7FFF

/-- What `wait_for_descriptor` makes of the three tokens, with `received_bytes`; none if it goes on. -/
def examineTokens (hasData : Bool) (requested setupToken dataToken statusToken : BitVec 32) :
    Option (TransferResult × BitVec 32) :=
  let setupActive := setupToken &&& ehciQtdActive != 0
  let dataActive := dataToken &&& ehciQtdActive != 0
  let statusActive := statusToken &&& ehciQtdActive != 0
  if !setupActive && setupToken &&& qtdStatusErrorMask != 0 ||
      !dataActive && dataToken &&& qtdStatusErrorMask != 0 ||
      !statusActive && statusToken &&& qtdStatusErrorMask != 0 then
    some (.transferError, 0)
  else if !setupActive && !dataActive && !statusActive then
    if hasData then
      if tokenRemaining setupToken ≠ 0 then some (.transferError, 0)
      else if tokenRemaining statusToken ≠ 0 then some (.transferError, 0)
      else if tokenRemaining dataToken > requested then some (.transferError, 0)
      else some (.success, requested - tokenRemaining dataToken)
    else some (.success, 0)
  else none

/-- `k` rounds of `wait_for_descriptor`, with the result, `received_bytes` and memory. -/
def waitRounds (writes : Nat → List (Nat × BitVec 8)) (t : TransferQtds) (requested : BitVec 32) :
    (k : Nat) → Shared → TransferResult × BitVec 32 × Shared
  | 0, w => (.timeout, 0, w)
  | k + 1, w =>
    let (setupToken, w) := w.read32 writes (t.setupQtd + 8)
    let (statusToken, w) := w.read32 writes (t.statusQtd + 8)
    let (dataToken, w) := dataToken writes t w
    match examineTokens t.dataQtd.isSome requested setupToken dataToken statusToken with
    | some (result, received) => (result, received, w)
    | none => waitRounds writes t requested k w

/-- `wait_for_descriptor`, with `REQUESTED_BYTES`. -/
def waitForDescriptor (writes : Nat → List (Nat × BitVec 8)) (t : TransferQtds) (requested : BitVec 32)
    (w : Shared) : TransferResult × BitVec 32 × Shared :=
  waitRounds writes t requested 500 w

/-- The first test of `unlink_async_qh`: the queue head or a descriptor is still active.  A token is read
only if those before it are not active; that of the data descriptor is read first. -/
def stillActive (writes : Nat → List (Nat × BitVec 8)) (qh : Nat) (t : TransferQtds) (w : Shared) :
    Bool × Shared :=
  let (dataToken, w) := dataToken writes t w
  let (qhToken, w) := w.read32 writes (qh + 24)
  if qhToken &&& ehciQtdActive ≠ 0 then (true, w)
  else
    let (setupToken, w) := w.read32 writes (t.setupQtd + 8)
    if setupToken &&& ehciQtdActive ≠ 0 then (true, w)
    else if dataToken &&& ehciQtdActive ≠ 0 then (true, w)
    else
      let (statusToken, w) := w.read32 writes (t.statusQtd + 8)
      (statusToken &&& ehciQtdActive != 0, w)

/-! ## Requests -/

/-- What `usb_send_packet` meets. -/
structure SendPacket where
  /-- What `allocate_dma` returns. -/
  alloc : DmaRet
  /-- The registers in `unlink_async_qh`. -/
  unlink : Unlink
  /-- What the controller writes to memory. -/
  writes : Nat → List (Nat × BitVec 8)
  /-- `kmalloc` has room. -/
  kmalloc : Bool

/-- The descriptors of `usb_send_packet`. -/
def transferQtds (alloc : DmaRet) (length : Nat) : TransferQtds :=
  let l := transferLayout alloc length
  { setupQtd := alloc.physicalOf l.setupQtd
    dataQtd := if length > 0 then some (alloc.physicalOf l.dataQtd) else none
    statusQtd := alloc.physicalOf l.statusQtd }

/-- `usb_send_packet`, with the former contents of memory.  None is a null pointer. -/
def usbSendPacket (r : SendPacket) (packet : UsbSetupPacket) (maxpacketsize length : Nat)
    (address : BitVec 8) (former : Nat → BitVec 8) (s : EhciState) : Option Response × EhciState :=
  if rejects packet maxpacketsize length then (none, s)
  else
    let alloc := r.alloc
    let s := s.allocateDma alloc
    if alloc.status ≠ 0 then (none, s)
    else if alloc.tooBig then (none, s.freeDma alloc)
    else
      let l := transferLayout alloc length
      let qh := alloc.physicalOf l.qh
      let qtds := transferQtds alloc length
      let memory := writeTransfer alloc packet maxpacketsize length address former
      -- `*qh = {}`
      let s := s.storeLink qh 0
      let (linkState, s) := s.insertAsyncQh qh l.qhPhys
      let (result, _, w) := waitForDescriptor r.writes qtds (BitVec.ofNat 32 length) ⟨memory, 0⟩
      let (active, w) := stillActive r.writes qh qtds w
      let (unlinked, s) := s.unlinkAsyncQh r.unlink linkState qh active
      if !unlinked then (none, s.quarantine alloc)
      else if result ≠ .success then (none, s.freeDma alloc)
      else if length ≠ 0 then
        if !r.kmalloc then (none, s.freeDma alloc)
        else
          let w := w.look r.writes
          (some (.buffer (getBytes w.memory (alloc.physicalOf (l.setup + 8)) length)), s.freeDma alloc)
      else (some .done, s.freeDma alloc)

/-! ## Addresses -/

/-- `CCS`. -/
def ccs : BitVec 32 := 1
/-- `PE`. -/
def pe : BitVec 32 := 1#32 <<< 2
/-- `FPR`. -/
def fpr : BitVec 32 := 1#32 <<< 6
/-- `PR`. -/
def pr : BitVec 32 := 1#32 <<< 8
/-- `LINE_MASK`. -/
def lineMask : BitVec 32 := 3#32 <<< 10
/-- `LINE_K`. -/
def lineK : BitVec 32 := 1#32 <<< 10
/-- `OWNER`. -/
def owner : BitVec 32 := 1#32 <<< 13
/-- `W1C_MASK`. -/
def w1cMask : BitVec 32 := 0x2A
/-- `HCHalted`. -/
def hcHalted : BitVec 32 := 1#32 <<< 12

/-- The rounds in which `reset_port` waits for the end of the reset, from the `i`-th read on: what it
returns, if it returns, and the number of the next read. -/
def waitForReset (read : Nat → BitVec 32) : (k i : Nat) → Option Nat × Nat
  | 0, i => (some 2, i)
  | k + 1, i =>
    if read i = 0xFFFFFFFF then (some 10, i + 1)
    else if read i &&& ccs = 0 then (some 1, i + 1)
    else if read i &&& pr = 0 then (none, i + 1)
    else waitForReset read k (i + 1)

/-- What `reset_port` meets. -/
structure PortReset where
  /-- `ports_count`. -/
  portsCount : BitVec 8
  /-- USBSTS. -/
  usbsts : BitVec 32
  /-- What is read from the register of the port. -/
  read : Nat → BitVec 32

/-- `reset_port`: what it returns, and the values that it writes to the register of the port.  Every write
is followed by a read that only flushes it. -/
def resetPort (port : BitVec 8) (r : PortReset) : Nat × List (BitVec 32) :=
  if port < 1 ∨ port > r.portsCount then (4, [])
  else if r.usbsts &&& hcHalted ≠ 0 then (5, [])
  else
    let status := r.read 0
    if status = 0xFFFFFFFF then (10, [])
    else if status &&& owner ≠ 0 then (6, [])
    else if status &&& ccs = 0 then (1, [])
    else if status &&& fpr ≠ 0 then (7, [])
    else if status &&& pe = 0 ∧ status &&& lineMask = lineK then
      (6, [status &&& ~~~w1cMask &&& ~~~pe ||| owner])
    else
      let assert := status &&& ~~~w1cMask &&& ~~~pe ||| pr
      let status := r.read 2
      if status = 0xFFFFFFFF then (10, [assert])
      else if status &&& ccs = 0 then (1, [assert])
      else
        let deassert := status &&& ~~~w1cMask &&& ~~~(pe ||| pr)
        match waitForReset r.read 10 4 with
        | (some code, _) => (code, [assert, deassert])
        | (none, i) =>
          let status := r.read i
          if status = 0xFFFFFFFF then (10, [assert, deassert])
          else if status &&& ccs = 0 then (1, [assert, deassert])
          else if status &&& pr ≠ 0 then (2, [assert, deassert])
          else if status &&& pe ≠ 0 then (0, [assert, deassert])
          else (6, [assert, deassert, status &&& ~~~w1cMask &&& ~~~pe ||| owner])

/-- A device loses its address when its port is reset. -/
def portReset (written : List (BitVec 32)) : Bool := written.any fun v => v &&& pr != 0

/-- The devices on some ports take the address of a SET_ADDRESS request. -/
def EhciState.take (s : EhciState) (takes : BitVec 8 → Bool) (address : BitVec 8) : EhciState :=
  { s with devices := takeAddress s.devices takes address }

/-- `reset_port` as `set_address` calls it. -/
def EhciState.reset (s : EhciState) (port : BitVec 8) (r : PortReset) : Nat × EhciState :=
  let (code, written) := resetPort port r
  (code, if portReset written then { s with devices := Function.update s.devices port 0 } else s)

/-- A device descriptor of a high-speed device, the test at the start of `set_address`. -/
def highSpeedDescriptor (desc : Nat → BitVec 8) : Bool := desc 0 == 18 && desc 1 == 1 && desc 7 == 64

/-- What `set_address` meets. -/
structure SetAddress where
  /-- What `allocate_dma` returns for the SET_ADDRESS request. -/
  alloc : DmaRet
  /-- What `wait_for_descriptor` returns. -/
  result : TransferResult
  /-- The queue head or a descriptor is still active. -/
  active : Bool
  /-- The registers in `unlink_async_qh`. -/
  unlink : Unlink
  /-- The ports whose devices take the address, whatever the driver sees of it. -/
  takes : BitVec 8 → Bool
  /-- What `allocate_dma` returns for the GET_DESCRIPTOR request. -/
  descriptorAlloc : DmaRet
  /-- What comes of it. -/
  descriptor : Transfer
  /-- The queue head or a descriptor is still active. -/
  descriptorActive : Bool
  /-- The registers in `unlink_async_qh`. -/
  descriptorUnlink : Unlink
  /-- What `reset_port` meets, if it is called. -/
  portReset : PortReset

/-- `set_address`, the GET_DESCRIPTOR part. -/
def getDescriptor (r : SetAddress) (desc : Nat → BitVec 8) (port address : BitVec 8) (device : UsbDevice)
    (s : EhciState) : UsbDevice × EhciState :=
  let alloc := r.descriptorAlloc
  let s := s.allocateDma alloc
  if alloc.status ≠ 0 then (device, s)
  else if alloc.tooBig then (device, s.freeDma alloc)
  else
    let qhPhys := BitVec.ofNat 32 alloc.physicalAddress
    let qh := alloc.physicalAddress
    let s := s.storeLink qh 0
    let (linkState, s) := s.insertAsyncQh qh qhPhys
    let (unlinked, s) := s.unlinkAsyncQh r.descriptorUnlink linkState qh r.descriptorActive
    if !unlinked then (device, s.quarantine alloc)
    else if r.descriptor.result ≠ .success then
      let (rests, s) := s.reset port r.portReset
      let s := if rests ≠ 0 then s else { s with nextUsbAddress := address }
      ({ device with address := 0 }, s.freeDma alloc)
    else
      let valid := r.descriptor.validDescriptor
      let desc := if valid then fun i => if i < 18 then r.descriptor.buffer i else desc i else desc
      ({ device with discovered := valid, descriptor := desc }, s.freeDma alloc)

/-- `set_address`. -/
def setAddress (r : SetAddress) (desc : Nat → BitVec 8) (port : BitVec 8) (s : EhciState) :
    UsbDevice × EhciState :=
  if !highSpeedDescriptor desc then ({}, s)
  else
    let device : UsbDevice := {}
    let alloc := r.alloc
    let s := s.allocateDma alloc
    if alloc.status ≠ 0 then (device, s)
    else if alloc.tooBig then (device, s.freeDma alloc)
    else
      let qhPhys := BitVec.ofNat 32 alloc.physicalAddress
      let qh := alloc.physicalAddress
      let (address, next) := allocateUsbAddress s.nextUsbAddress
      let s := { s with nextUsbAddress := next }
      if address = 0 then (device, s.freeDma alloc)
      else
        let s := s.storeLink qh 0
        let (linkState, s) := s.insertAsyncQh qh qhPhys
        -- from here on the devices may find the request
        let s := s.take r.takes address
        let (unlinked, s) := s.unlinkAsyncQh r.unlink linkState qh r.active
        if !unlinked then (device, s.quarantine alloc)
        else if r.result ≠ .success then (device, { s with nextUsbAddress := address }.freeDma alloc)
        else getDescriptor r desc port address { device with address } (s.freeDma alloc)

end Dem64.Ehci
