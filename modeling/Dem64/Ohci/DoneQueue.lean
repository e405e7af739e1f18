import Dem64.Lib.Lseg
import Dem64.Ohci.Driver

/-!
# The done queue of OHCI

The controller puts the descriptors that it has retired on a queue of its own, `HcDoneHead`, which goes
through their `next_td`.  From time to time it hands the whole queue over in `HccaDoneHead` and sets WDH, and
does not do so again until the driver has cleared WDH.

The driver may free the block of a transfer only if none of its descriptors is in either queue.
`restore_control_schedule` stops the control list and waits until every descriptor that it watches has come
back; it watches the SETUP, the status and the first data descriptor.

The controller acts by itself whenever the driver looks at memory or at a register: what it does there is
an argument, so that every interleaving is a run.  The list that it works on is the endpoint descriptor of
the transfer, until the driver puts the old one back.  That the driver sets `OHCI_ED_SKIP` only keeps the
controller from going on, which it may do anyway, and is left out.  Memory is seen as descriptors, by their
addresses, which are multiples of 16.
-/

set_option autoImplicit false

namespace Dem64.Ohci.DoneQueue

/-! ## The controller -/

/-- What the controller does by itself. -/
inductive HcAction where
  /-- It retires the descriptor at the head of the endpoint with a condition code, leaves `cbp` there, and
  carries a toggle on. -/
  | retire (code : BitVec 4) (cbp : BitVec 32) (carry : Bool)
  /-- It hands its queue over.  The lowest bit of `HccaDoneHead` says whether there is another interrupt. -/
  | publish (other : Bool)
  /-- A frame begins. -/
  | frame
deriving DecidableEq, Repr

/-- Memory, the registers and the controller. -/
structure World where
  /-- The descriptors. -/
  tds : Nat → OhciTd
  /-- `ed->headp`. -/
  headp : BitVec 32
  /-- `ed->tailp`. -/
  tailp : BitVec 32
  /-- The queue of the controller, `HcDoneHead`. -/
  doneHead : BitVec 32
  /-- `hcca->done_head`. -/
  hccaDoneHead : BitVec 32
  /-- `OHCI_INTR_WDH` in `interrupt_status`. -/
  wdh : Bool
  /-- `OHCI_CLE` in `control`. -/
  cle : Bool
  /-- What the controller has made of it at the last frame. -/
  running : Bool
  /-- `hcca->frame_number`. -/
  frameNumber : BitVec 16
  /-- The control list is the endpoint descriptor of the transfer. -/
  scheduled : Bool
  /-- How often the driver has looked. -/
  clock : Nat

/-- The address in a word that links descriptors. -/
def pointer (word : BitVec 32) : Option Nat :=
  if word &&& ohciEdHeadMask = 0 then none else some (word &&& ohciEdHeadMask).toNat

/-- `next_td`, as an address. -/
def World.next (w : World) (a : Nat) : Option Nat := pointer (w.tds a).nextTd

/-- The condition code of a descriptor. -/
def conditionCode (control : BitVec 32) : BitVec 32 := control >>> 28

/-- `OHCI_TD_CC_NOT_ACCESSED`. -/
def ohciTdCcNotAccessed : BitVec 32 := 0xF

/-- The controller retires a descriptor.  After an error, the endpoint is halted.  Codes from 14 on are no
results. -/
def World.retire (w : World) (code : BitVec 4) (cbp : BitVec 32) (carry : Bool) : World :=
  let head := w.headp &&& ohciEdHeadMask
  if w.running ∧ w.scheduled ∧ w.headp &&& ohciEdHeadHalted = 0 ∧ head ≠ w.tailp &&& ohciEdHeadMask ∧
      code < 14 then
    let td := w.tds head.toNat
    { w with
      tds := Function.update w.tds head.toNat
        { td with
          control := code.setWidth 32 <<< 28 ||| td.control &&& 0x0FFFFFFF
          cbp
          nextTd := w.doneHead }
      headp := td.nextTd &&& ohciEdHeadMask ||| (BitVec.ofBool carry).setWidth 32 <<< 1 |||
        if code = 0 then 0 else ohciEdHeadHalted
      doneHead := head }
  else w

/-- The controller hands its queue over. -/
def World.publish (w : World) (other : Bool) : World :=
  if w.wdh = false ∧ w.doneHead ≠ 0 then
    { w with hccaDoneHead := w.doneHead ||| (BitVec.ofBool other).setWidth 32, wdh := true, doneHead := 0 }
  else w

/-- One action. -/
def World.act (w : World) : HcAction → World
  | .retire code cbp carry => w.retire code cbp carry
  | .publish other => w.publish other
  | .frame => { w with frameNumber := w.frameNumber + 1, running := w.cle }

/-- The driver looks, and finds what the controller has done in the meantime. -/
def World.look (hc : Nat → List HcAction) (w : World) : World :=
  { (hc w.clock).foldl World.act w with clock := w.clock + 1 }

/-! ## The driver -/

/-- `ohci_transfer_watch`. -/
structure Watch where
  /-- `setup_phys`. -/
  setupPhys : BitVec 32
  /-- `data_phys`. -/
  dataPhys : BitVec 32
  /-- `status_phys`. -/
  statusPhys : BitVec 32
  /-- `retired_mask`. -/
  retiredMask : BitVec 8

/-- `OHCI_TD_SETUP_DONE`. -/
def ohciTdSetupDone : BitVec 8 := 1
/-- `OHCI_TD_DATA_DONE`. -/
def ohciTdDataDone : BitVec 8 := 2
/-- `OHCI_TD_STATUS_DONE`. -/
def ohciTdStatusDone : BitVec 8 := 4

/-- What `process_done_queue` notes for a descriptor. -/
def Watch.mark (watch : Watch) (phys : BitVec 32) : Watch :=
  if phys = watch.setupPhys then { watch with retiredMask := watch.retiredMask ||| ohciTdSetupDone }
  else if phys = watch.dataPhys then { watch with retiredMask := watch.retiredMask ||| ohciTdDataDone }
  else if phys = watch.statusPhys then { watch with retiredMask := watch.retiredMask ||| ohciTdStatusDone }
  else watch

/-- The watch of `usb_send_packet`. -/
def transferWatch (alloc : DmaRet) (dataTdCount : Nat) : Watch :=
  let l := transferLayout alloc dataTdCount
  { setupPhys := l.setupTdPhys
    dataPhys := if dataTdCount ≠ 0 then l.dataTdPhys else 0
    statusPhys := l.statusTdPhys
    retiredMask := 0 }

section

variable (hc : Nat → List HcAction) (valid : BitVec 32 → Bool)

/-- The first pass of `process_done_queue`, with room for `k` more entries.  `valid` says whether
`dma_phys_to_virt` finds a virtual address. -/
def collect : (k : Nat) → (tdPhys : BitVec 32) → World → Option (List (BitVec 32)) × World
  | 0, tdPhys, w => if tdPhys = 0 then (some [], w) else (none, w)
  | k + 1, tdPhys, w =>
    if tdPhys = 0 then (some [], w)
    else if !valid tdPhys then (none, w)
    else
      let w := w.look hc
      let (entries, w) := collect k ((w.tds tdPhys.toNat).nextTd &&& ohciEdHeadMask) w
      (entries.map (tdPhys :: ·), w)

/-- `process_done_queue`. -/
def processDoneQueue (watch : Watch) (w : World) : Bool × Watch × World :=
  let w := w.look hc
  if !w.wdh then (true, watch, w)
  else
    let w := w.look hc
    match collect hc valid 128 (w.hccaDoneHead &&& ohciEdHeadMask) w with
    | (none, w) => (false, watch, w)
    | (some entries, w) =>
      let w := { w.look hc with hccaDoneHead := 0 }
      let w := { w.look hc with wdh := false }
      (true, entries.foldl Watch.mark watch, w)

/-- What `wait_for_descriptor` does when the queue of the endpoint has come to its end. -/
def finishedTransfer (t : TransferTds) (w : World) : TransferResult × BitVec 32 × World :=
  let w := w.look hc
  let setupCc := conditionCode (w.tds t.setupTd).control
  match t.dataTd with
  | none =>
    let w := w.look hc
    let statusCc := conditionCode (w.tds t.statusTd).control
    if setupCc ≠ 0 ∨ statusCc ≠ 0 then (.transferError, 0, w) else (.success, 0, w)
  | some dataTd =>
    let w := w.look hc
    let dataCc := conditionCode (w.tds dataTd).control
    let w := w.look hc
    let statusCc := conditionCode (w.tds t.statusTd).control
    if setupCc ≠ 0 ∨ dataCc ≠ 0 ∨ statusCc ≠ 0 then (.transferError, 0, w)
    else
      let w := w.look hc
      match receivedBytes t (w.tds dataTd).cbp with
      | none => (.transferError, 0, w)
      | some received => (.success, received, w)

/-- `k` rounds of `wait_for_descriptor`, with the result and `received_bytes`. -/
def waitRounds (t : TransferTds) : (k : Nat) → Watch → World → (TransferResult × BitVec 32) × Watch × World
  | 0, watch, w => ((.timeout, 0), watch, w)
  | k + 1, watch, w =>
    let w := w.look hc
    -- what `process_done_queue` returns is ignored here
    let (watch, w) := if w.wdh then (processDoneQueue hc valid watch w).2 else (watch, w)
    let w := w.look hc
    if w.headp &&& ohciEdHeadHalted ≠ 0 then ((.transferError, 0), watch, w)
    else if w.headp &&& ohciEdHeadMask = t.dummyPhys then
      let (result, received, w) := finishedTransfer hc t w
      ((result, received), watch, w)
    else waitRounds t k watch w

/-- `wait_for_descriptor`. -/
def waitForDescriptor (t : TransferTds) (watch : Watch) (w : World) :
    (TransferResult × BitVec 32) × Watch × World :=
  waitRounds hc valid t 100 watch w

/-- `k` rounds of `wait_for_next_frame`. -/
def waitForNextFrame (previousFrame : BitVec 16) : (k : Nat) → World → Bool × World
  | 0, w => (false, w)
  | k + 1, w =>
    let w := w.look hc
    if w.frameNumber ≠ previousFrame then (true, w) else waitForNextFrame previousFrame k w

/-- `stop_control_schedule`. -/
def stopControlSchedule (w : World) : Bool × World :=
  let w := w.look hc
  if !w.cle then (true, w)
  else
    let w := w.look hc
    let previousFrame := w.frameNumber
    let w := { w.look hc with cle := false }
    waitForNextFrame hc previousFrame 20 w

/-- A descriptor was never retired, or has come back. -/
def reaped (code : BitVec 32) (watch : Watch) (done : BitVec 8) : Bool :=
  code == ohciTdCcNotAccessed || watch.retiredMask &&& done != 0

/-- `data_cc` in `wait_for_transfer_reap`. -/
def dataCode (t : TransferTds) (w : World) : BitVec 32 × World :=
  match t.dataTd with
  | none => (ohciTdCcNotAccessed, w)
  | some dataTd =>
    let w := w.look hc
    (conditionCode (w.tds dataTd).control, w)

/-- `k` rounds of `wait_for_transfer_reap`, and the attempt behind them. -/
def reapRounds (t : TransferTds) : (k : Nat) → Watch → World → Bool × Watch × World
  | 0, watch, w =>
    let (_, watch, w) := processDoneQueue hc valid watch w
    (false, watch, w)
  | k + 1, watch, w =>
    let (processed, watch, w) := processDoneQueue hc valid watch w
    if !processed then (false, watch, w)
    else
      let w := w.look hc
      let setupCc := conditionCode (w.tds t.setupTd).control
      let (dataCc, w) := dataCode hc t w
      let w := w.look hc
      let statusCc := conditionCode (w.tds t.statusTd).control
      if reaped setupCc watch ohciTdSetupDone && reaped dataCc watch ohciTdDataDone &&
          reaped statusCc watch ohciTdStatusDone then (true, watch, w)
      else reapRounds t k watch w

/-- `wait_for_transfer_reap`. -/
def waitForTransferReap (t : TransferTds) (watch : Watch) (w : World) : Bool × Watch × World :=
  reapRounds hc valid t 20 watch w

/-- `restore_control_schedule`, if `oldCle` is `OHCI_CLE` in `old_control`. -/
def restoreControlSchedule (t : TransferTds) (watch : Watch) (oldCle : Bool) (w : World) : Bool × World :=
  let (stopped, w) := stopControlSchedule hc w
  if !stopped then (false, w)
  else
    let (reaped, _, w) := waitForTransferReap hc valid t watch w
    if !reaped then (false, w)
    else
      -- `control_head_ed` and `control_current_ed` are written first, and then `control`
      let w := { w.look hc with scheduled := false }
      let w := { w.look hc with cle := oldCle }
      (true, w.look hc)

end

end Dem64.Ohci.DoneQueue
