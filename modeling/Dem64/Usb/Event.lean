import Mathlib.Data.BitVec
import Dem64.Lib.CycleRing

/-!
# TRBs and events of the xHCI driver

The words that driver and controller exchange (`XhciTrb`), the state that the event handler shares with
the rest of `xhci.cpp`, and what `xhci_process_events` does with one event of the event ring.
-/

set_option autoImplicit false

namespace Dem64

/-! ## TRBs -/

/-- `XhciTrb`. -/
structure XhciTrb where
  /-- First word, for most types the lower half of an address. -/
  d0 : BitVec 32
  /-- Second word, for most types the upper half of an address. -/
  d1 : BitVec 32
  /-- Third word: lengths and completion codes. -/
  d2 : BitVec 32
  /-- Fourth word: cycle bit, flags and type. -/
  d3 : BitVec 32
deriving DecidableEq, Repr

/-- `TRB_TYPE(n)`. -/
def trbType (n : BitVec 32) : BitVec 32 := n <<< 10

/-- `TRB_ISP`: interrupt on a short packet. -/
def trbIsp : BitVec 32 := 1#32 <<< 2

/-- `TRB_IOC`: interrupt on completion. -/
def trbIoc : BitVec 32 := 1#32 <<< 5

/-- `TRB_IDT`: the data are in the TRB itself. -/
def trbIdt : BitVec 32 := 1#32 <<< 6

/-- `TRB_DIR_IN`. -/
def trbDirIn : BitVec 32 := 1#32 <<< 16

/-- `TRB_SETUP`. -/
def trbSetup : BitVec 32 := 2

/-- `TRB_DATA`. -/
def trbData : BitVec 32 := 3

/-- `TRB_STATUS`. -/
def trbStatus : BitVec 32 := 4

/-- The type of a Link TRB. -/
def trbLink : BitVec 32 := 6

/-- The type of a No-op Transfer TRB. -/
def trbNoop : BitVec 32 := 8

/-- `TRT_NO_DATA`. -/
def trtNoData : BitVec 32 := 0

/-- `TRT_IN`. -/
def trtIn : BitVec 32 := 3

namespace XhciTrb

/-- The cycle bit. -/
def cycle (t : XhciTrb) : BitVec 32 := t.d3 &&& 1

/-- The type of the TRB. -/
def type (t : XhciTrb) : BitVec 32 := (t.d3 >>> 10) &&& 0x3f

/-- The address in the first two words. -/
def pointer (t : XhciTrb) : BitVec 64 := t.d1.setWidth 64 <<< 32 ||| t.d0.setWidth 64

/-- The completion code of an event. -/
def completionCode (t : XhciTrb) : BitVec 8 := (t.d2 >>> 24).setWidth 8

end XhciTrb

/-- The lower half of an address. -/
def lowWord (a : BitVec 64) : BitVec 32 := a.setWidth 32

/-- The upper half of an address. -/
def highWord (a : BitVec 64) : BitVec 32 := (a >>> 32).setWidth 32

/-- An address can be split into two words and put together again. -/
theorem pointer_words (a : BitVec 64) (d2 d3 : BitVec 32) :
    (XhciTrb.mk (lowWord a) (highWord a) d2 d3).pointer = a := by
  apply BitVec.eq_of_getLsbD_eq
  intro i hi
  simp only [XhciTrb.pointer, lowWord, highWord, BitVec.getLsbD_or, BitVec.getLsbD_shiftLeft,
    BitVec.getLsbD_setWidth, BitVec.getLsbD_ushiftRight, hi, decide_true, Bool.true_and]
  by_cases h : i < 32
  · simp [h]
  · simp [h, show i - 32 < 64 by omega, show i - 32 < 32 by omega, show 32 + (i - 32) = i by omega]

/-- A cycle is a bit. -/
def IsCycle (cy : BitVec 32) : Prop := cy ∈ [0#32, 1#32]

theorem IsCycle.xor {cy : BitVec 32} (h : IsCycle cy) : IsCycle (cy ^^^ 1) ∧ cy ≠ cy ^^^ 1 := by
  simp only [IsCycle, List.mem_cons, List.not_mem_nil, or_false] at h ⊢
  obtain rfl | rfl := h <;> decide

/-- How the controller reads a TRB: a Link TRB leads to the start of the ring, and toggles the cycle if its
Toggle Cycle bit is set. -/
def trbFormat : CycleRing.Format XhciTrb (BitVec 32) where
  cycle := XhciTrb.cycle
  link t := if t.type = trbLink then some fun c => if t.d3 &&& (1#32 <<< 1) ≠ 0 then c ^^^ 1 else c
    else none

/-! ## Events -/

/-- What the event handler shares with the rest of the driver. -/
structure EventState where
  /-- `pending_command_physical`. -/
  pendingCommandPhysical : BitVec 64 := 0
  /-- `pending_command_completion`. -/
  pendingCommandCompletion : XhciTrb := ⟨0, 0, 0, 0⟩
  /-- `pending_command_done`, which is 0 or 1. -/
  pendingCommandDone : Bool := false
  /-- `pending_port_changes`: one bit for each port. -/
  pendingPortChanges : Nat → BitVec 32 := fun _ => 0
  /-- `transfer_waiting`. -/
  transferWaiting : Bool := false
  /-- `transfer_completed`. -/
  transferCompleted : Bool := false
  /-- `transfer_slot`. -/
  transferSlot : BitVec 8 := 0
  /-- `transfer_endpoint`. -/
  transferEndpoint : BitVec 8 := 0
  /-- `transfer_trb_pointer`. -/
  transferTrbPointer : BitVec 64 := 0
  /-- `transfer_completion`. -/
  transferCompletion : XhciTrb := ⟨0, 0, 0, 0⟩

/-- Does `xhci_process_events` take this Transfer Event for the end of the transfer it waits for? -/
def transferMatches (s : EventState) (event : XhciTrb) : Bool :=
  let slotId : BitVec 8 := ((event.d3 >>> 24) &&& 0xff).setWidth 8
  let endpointId : BitVec 8 := ((event.d3 >>> 16) &&& 0x1f).setWidth 8
  let eventData := event.d3 &&& (1#32 <<< 2) != 0
  s.transferWaiting && !s.transferCompleted && !eventData && slotId == s.transferSlot &&
    endpointId == s.transferEndpoint && (event.pointer == s.transferTrbPointer ||
      (event.completionCode != 1 && event.completionCode != 13))

/-- What `xhci_process_events` does with one event: types 33 (Command Completion), 34 (Port Status
Change) and 32 (Transfer) change the state, and all other types are ignored. -/
def processEvent (s : EventState) (event : XhciTrb) : EventState :=
  if event.type = 33 then
    if event.pointer = s.pendingCommandPhysical then
      { s with pendingCommandCompletion := event, pendingCommandDone := true }
    else s
  else if event.type = 34 then
    let port := (event.d0 >>> 24).toNat
    if port ≠ 0 ∧ port < 256 then
      { s with pendingPortChanges := fun i =>
          if i = port >>> 5 then s.pendingPortChanges i ||| 1#32 <<< (port &&& 31)
          else s.pendingPortChanges i }
    else s
  else if event.type = 32 then
    if transferMatches s event then { s with transferCompletion := event, transferCompleted := true }
    else s
  else s

end Dem64
