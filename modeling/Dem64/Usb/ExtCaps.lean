import Dem64.Ehci.Ownership
import Dem64.Usb.Portsc

/-!
# The extended capabilities of an xHCI controller

`xhci_find_extended_capability` and `read_protocol_slot_type` (`xhci.cpp`) follow the extended capabilities from the
pointer in HCCPARAMS1 on; each header has the distance to the next one.  The first of them counts nothing, the second
one gives up after 256 headers, and neither of them compares an offset with the size of the BAR.

So both are right as far as the list is: it must not leave the BAR before the walk is over (`find_right_iff`,
`slotType_right_iff`).
-/

set_option autoImplicit false

namespace Dem64.Xhci

open Interaction Interaction.Prog

/-! ## `xhci.cpp` -/

/-- A program that reads registers of 32 bits, at offsets from the base of the controller. -/
abbrev MmioM := Prog (BitVec 64) fun _ => BitVec 32

def readRegister (offset : BitVec 64) : MmioM (BitVec 32) := .call offset

/-- `hccparams1`, among the capability registers. -/
def HCCPARAMS1 : BitVec 64 := 0x10

/-- Where `entry` points for an offset in dwords. -/
def findEntry (offset : BitVec 32) : BitVec 64 := (offset <<< 2).setWidth 64

/-- The loop of `xhci_find_extended_capability`; without a result the fuel was not enough. -/
def findLoop (wantedId : BitVec 8) : Nat → BitVec 32 → MmioM (Option (Option (BitVec 64)))
  | 0, offset => if offset = 0 then pure (some none) else pure none
  | fuel + 1, offset =>
    if offset = 0 then pure (some none)
    else do
      let header ← readRegister (findEntry offset)
      let next : BitVec 8 := (header >>> 8).setWidth 8
      if header.setWidth 8 = wantedId then pure (some (some (findEntry offset)))
      else if next = 0 then pure (some none)
      else findLoop wantedId fuel (offset + next.setWidth 32)

/-- `xhci_find_extended_capability`: the pointer as an offset, or null. -/
def findExtendedCapability (wantedId : BitVec 8) (fuel : Nat) : MmioM (Option (Option (BitVec 64))) := do
  let hccparams1 ← readRegister HCCPARAMS1
  findLoop wantedId fuel ((hccparams1 >>> 16) &&& 0xffff)

/-- Where `cap[i]` is. -/
def capIndex (i : BitVec 32) : BitVec 64 := i.setWidth 64 * 4

/-- The ports of a protocol, from its fields. -/
def HasPort (portInfo : BitVec 32) (port : BitVec 8) : Prop :=
  let portOffset : BitVec 8 := portInfo.setWidth 8
  let portCount : BitVec 8 := (portInfo >>> 8).setWidth 8
  portOffset ≤ port ∧ port.toNat < portOffset.toNat + portCount.toNat

instance (portInfo : BitVec 32) (port : BitVec 8) : Decidable (HasPort portInfo port) :=
  inferInstanceAs (Decidable (_ ∧ _))

/-- What `read_protocol_slot_type` returns, and what it stores through `major`, which may be null. -/
def slotTypeOf (header slotInfo : BitVec 32) (majorGiven : Bool) : BitVec 8 × Option (BitVec 8) :=
  (slotInfo.setWidth 8 &&& 0x1f, if majorGiven = true then some ((header >>> 24).setWidth 8) else none)

/-- The loop of `read_protocol_slot_type`, with the rounds that remain. -/
def slotTypeLoop (port : BitVec 8) (majorGiven : Bool) : Nat → BitVec 32 → MmioM (BitVec 8 × Option (BitVec 8))
  | 0, _ => pure (0xff, none)
  | remaining + 1, offset =>
    if offset = 0 then pure (0xff, none)
    else do
      let header ← readRegister (capIndex (offset / 4))
      let next : BitVec 8 := (header >>> 8).setWidth 8
      let goOn : MmioM (BitVec 8 × Option (BitVec 8)) :=
        if next = 0 then pure (0xff, none) else slotTypeLoop port majorGiven remaining (offset + next.setWidth 32 * 4)
      if header.setWidth 8 = (2 : BitVec 8) then do
        let portInfo ← readRegister (capIndex ((offset + 0x08) / 4))
        let slotInfo ← readRegister (capIndex ((offset + 0x0c) / 4))
        if HasPort portInfo port then pure (slotTypeOf header slotInfo majorGiven) else goOn
      else goOn

/-- `read_protocol_slot_type`. -/
def readProtocolSlotTypeM (port : BitVec 8) (majorGiven : Bool) : MmioM (BitVec 8 × Option (BitVec 8)) := do
  let hccparams1 ← readRegister HCCPARAMS1
  slotTypeLoop port majorGiven 256 (((hccparams1 >>> 16) &&& 0xffff) * 4)

/-! ## The lists -/

section

variable (mmio : BitVec 64 → BitVec 32)

/-- The registers, which reading does not change. -/
def registers : Handler (BitVec 64) (fun _ => BitVec 32) Unit := fun offset s => (mmio offset, s)

/-- An offset of 0 leads to no node. -/
def offsetNode (offset : BitVec 32) : Option (BitVec 32) := if offset = 0 then none else some offset

/-- The distance in a header. -/
def nextField (header : BitVec 32) : BitVec 8 := (header >>> 8).setWidth 8

/-- The node behind a node, with offsets in dwords. -/
def findLink (offset : BitVec 32) : Option (BitVec 32) :=
  let next := nextField (mmio (findEntry offset))
  if next = 0 then none else offsetNode (offset + next.setWidth 32)

/-- The first node. -/
def findStart : Option (BitVec 32) := offsetNode ((mmio HCCPARAMS1 >>> 16) &&& 0xffff)

/-- The node has the id. -/
def HasCapId (wantedId : BitVec 8) (offset : BitVec 32) : Prop := (mmio (findEntry offset)).setWidth 8 = wantedId

/-- The node behind a node, with offsets in bytes. -/
def slotLink (offset : BitVec 32) : Option (BitVec 32) :=
  let next := nextField (mmio (capIndex (offset / 4)))
  if next = 0 then none else offsetNode (offset + next.setWidth 32 * 4)

/-- The first node. -/
def slotStart : Option (BitVec 32) := offsetNode (((mmio HCCPARAMS1 >>> 16) &&& 0xffff) * 4)

/-- The node is a supported protocol. -/
def IsProtocol (offset : BitVec 32) : Prop := (mmio (capIndex (offset / 4))).setWidth 8 = (2 : BitVec 8)

/-- The node is the protocol of the port. -/
def HasProtocol (port : BitVec 8) (offset : BitVec 32) : Prop :=
  IsProtocol mmio offset ∧ HasPort (mmio (capIndex ((offset + 0x08) / 4))) port

instance (wantedId : BitVec 8) : DecidablePred (HasCapId mmio wantedId) := fun _ => inferInstanceAs (Decidable (_ = _))

instance : DecidablePred (IsProtocol mmio) := fun _ => inferInstanceAs (Decidable (_ = _))

instance (port : BitVec 8) : DecidablePred (HasProtocol mmio port) := fun _ => inferInstanceAs (Decidable (_ ∧ _))

end

/-! ## The walks -/

section

variable {mmio : BitVec 64 → BitVec 32} {wantedId port : BitVec 8} {majorGiven : Bool} {fuel remaining : Nat}
  {offset : BitVec 32} {P : BitVec 64 → Prop}

theorem run_findLoop : (run (registers mmio) (findLoop wantedId fuel offset) ()).1 =
    (Chain.search (findLink mmio) (HasCapId mmio wantedId) fuel (offsetNode offset)).map (·.map findEntry) := by
  induction fuel generalizing offset with
  | zero =>
    rw [findLoop, offsetNode]
    split
    next => rfl
    next => rfl
  | succ fuel ih =>
    rw [findLoop, offsetNode]
    split
    next => rfl
    next =>
      rw [Chain.search, findLink, run_bind]
      show (run (registers mmio) (if HasCapId mmio wantedId offset then _ else
        if nextField (mmio (findEntry offset)) = 0 then _ else _) ()).1 = _
      split
      next => rfl
      next =>
        split
        next =>
          rw [Chain.search_none]
          rfl
        next => exact ih

theorem allAsked_findLoop : AllAsked (registers mmio) P (findLoop wantedId fuel offset) () ↔
    ∀ a ∈ Chain.visited (findLink mmio) (HasCapId mmio wantedId) fuel (offsetNode offset), P (findEntry a) := by
  induction fuel generalizing offset with
  | zero =>
    rw [findLoop, offsetNode]
    split
    next => simp [Chain.visited]
    next => simp [Chain.visited]
  | succ fuel ih =>
    rw [findLoop, offsetNode]
    split
    next => simp [Chain.visited]
    next =>
      rw [Chain.visited, List.forall_mem_cons, findLink]
      refine (allAsked_call_bind _).trans (and_congr_right fun _ => ?_)
      show AllAsked (registers mmio) P (if HasCapId mmio wantedId offset then _ else
        if nextField (mmio (findEntry offset)) = 0 then _ else _) () ↔ _
      split
      next => simp
      next =>
        split
        next => simp [Chain.visited]
        next => exact ih

/-- What the loop over the protocols has found. -/
def slotTypeAt (mmio : BitVec 64 → BitVec 32) (majorGiven : Bool) (offset : BitVec 32) : BitVec 8 × Option (BitVec 8) :=
  slotTypeOf (mmio (capIndex (offset / 4))) (mmio (capIndex ((offset + 0x0c) / 4))) majorGiven

/-- One round: the protocol of the port is found, or the header has the distance to the next one. -/
theorem run_slotTypeLoop_succ (hoffset : offset ≠ 0) :
    run (registers mmio) (slotTypeLoop port majorGiven (remaining + 1) offset) () =
      if HasProtocol mmio port offset then (slotTypeAt mmio majorGiven offset, ())
      else run (registers mmio) (if nextField (mmio (capIndex (offset / 4))) = 0 then pure (0xff, none)
        else slotTypeLoop port majorGiven remaining
          (offset + (nextField (mmio (capIndex (offset / 4)))).setWidth 32 * 4)) () := by
  rw [slotTypeLoop, if_neg hoffset, run_bind]
  show run (registers mmio) (if IsProtocol mmio offset then _ else _) () = _
  by_cases hprotocol : IsProtocol mmio offset
  · rw [if_pos hprotocol, run_bind, run_bind]
    show run (registers mmio) (if HasPort (mmio (capIndex ((offset + 0x08) / 4))) port then _ else _) () = _
    by_cases hport : HasPort (mmio (capIndex ((offset + 0x08) / 4))) port
    · rw [if_pos hport, if_pos (show HasProtocol mmio port offset from ⟨hprotocol, hport⟩)]
      rfl
    · rw [if_neg hport, if_neg (show ¬ HasProtocol mmio port offset from fun h => hport h.2)]
      rfl
  · rw [if_neg hprotocol, if_neg (show ¬ HasProtocol mmio port offset from fun h => hprotocol h.1)]
    rfl

theorem run_slotTypeLoop : (run (registers mmio) (slotTypeLoop port majorGiven remaining offset) ()).1 =
    ((Chain.search (slotLink mmio) (HasProtocol mmio port) remaining (offsetNode offset)).join.map
      (slotTypeAt mmio majorGiven)).getD (0xff, none) := by
  induction remaining generalizing offset with
  | zero =>
    rw [slotTypeLoop, offsetNode]
    split
    next => rfl
    next => rfl
  | succ remaining ih =>
    rw [offsetNode]
    by_cases hoffset : offset = 0
    · rw [slotTypeLoop, if_pos hoffset, if_pos hoffset]
      rfl
    · rw [run_slotTypeLoop_succ hoffset, if_neg hoffset, Chain.search]
      split
      next => rfl
      next =>
        rw [slotLink]
        split
        next =>
          rw [Chain.search_none]
          rfl
        next => exact ih

/-- The registers that are read at a node have `P`. -/
def NodeReads (mmio : BitVec 64 → BitVec 32) (P : BitVec 64 → Prop) (offset : BitVec 32) : Prop :=
  P (capIndex (offset / 4)) ∧ (IsProtocol mmio offset →
    P (capIndex ((offset + 0x08) / 4)) ∧ P (capIndex ((offset + 0x0c) / 4)))

theorem allAsked_slotTypeLoop : AllAsked (registers mmio) P (slotTypeLoop port majorGiven remaining offset) () ↔
    ∀ a ∈ Chain.visited (slotLink mmio) (HasProtocol mmio port) remaining (offsetNode offset), NodeReads mmio P a := by
  induction remaining generalizing offset with
  | zero =>
    rw [slotTypeLoop, offsetNode]
    split
    next => simp [Chain.visited]
    next => simp [Chain.visited]
  | succ remaining ih =>
    rw [slotTypeLoop, offsetNode]
    split
    next => simp [Chain.visited]
    next =>
      have hgoOn : AllAsked (registers mmio) P (if nextField (mmio (capIndex (offset / 4))) = 0 then pure (0xff, none)
          else slotTypeLoop port majorGiven remaining
            (offset + (nextField (mmio (capIndex (offset / 4)))).setWidth 32 * 4)) () ↔
          ∀ a ∈ Chain.visited (slotLink mmio) (HasProtocol mmio port) remaining (slotLink mmio offset),
            NodeReads mmio P a := by
        rw [slotLink]
        split
        next => simp [Chain.visited]
        next => exact ih
      rw [Chain.visited, List.forall_mem_cons, NodeReads, and_assoc]
      refine (allAsked_call_bind _).trans (and_congr_right fun _ => ?_)
      show AllAsked (registers mmio) P (if IsProtocol mmio offset then _ else _) () ↔ _
      by_cases hprotocol : IsProtocol mmio offset
      · rw [if_pos hprotocol, imp_iff_right hprotocol, and_assoc]
        refine (allAsked_call_bind _).trans (and_congr_right fun _ => ?_)
        refine (allAsked_call_bind _).trans (and_congr_right fun _ => ?_)
        show AllAsked (registers mmio) P (if HasPort (mmio (capIndex ((offset + 0x08) / 4))) port then _ else _) () ↔ _
        by_cases hport : HasPort (mmio (capIndex ((offset + 0x08) / 4))) port
        · rw [if_pos hport, if_pos (show HasProtocol mmio port offset from ⟨hprotocol, hport⟩)]
          simp
        · rw [if_neg hport, if_neg (show ¬ HasProtocol mmio port offset from fun h => hport h.2)]
          exact hgoOn
      · rw [if_neg hprotocol, if_neg (show ¬ HasProtocol mmio port offset from fun h => hprotocol h.1)]
        exact hgoOn.trans (by simp [hprotocol])

end

/-! ## The pure reading

`readProtocolSlotType` has the registers as numbers and no log; it returns the same. -/

section

variable {mmio : BitVec 64 → BitVec 32} {port : BitVec 8} {remaining : Nat} {offset : BitVec 32}

/-- The dwords of the registers. -/
def capWords (mmio : BitVec 64 → BitVec 32) (i : Nat) : Nat := (mmio (BitVec.ofNat 64 (4 * i))).toNat

theorem capWords_toNat (i : BitVec 32) : capWords mmio i.toNat = (mmio (capIndex i)).toNat := by
  have hindex : capIndex i = BitVec.ofNat 64 (4 * i.toNat) := by
    apply BitVec.eq_of_toNat_eq
    have hfour : (4 : BitVec 64).toNat = 4 := rfl
    rw [capIndex, BitVec.toNat_mul, BitVec.toNat_setWidth, BitVec.toNat_ofNat, hfour]
    omega
  rw [capWords, hindex]

theorem capWords_div (offset : BitVec 32) :
    capWords mmio (offset.toNat / 4) = (mmio (capIndex (offset / 4))).toNat := capWords_toNat (offset / 4)

theorem capWords_add_div (offset d : BitVec 32) :
    capWords mmio ((offset.toNat + d.toNat) % 2 ^ 32 / 4) = (mmio (capIndex ((offset + d) / 4))).toNat :=
  capWords_toNat ((offset + d) / 4)

theorem toNat_byte (x : BitVec 32) (k : Nat) : x.toNat >>> k &&& 0xFF = ((x >>> k).setWidth 8 : BitVec 8).toNat := by
  rw [BitVec.toNat_setWidth, BitVec.toNat_ushiftRight]
  exact Nat.and_two_pow_sub_one_eq_mod _ 8

theorem toNat_low_byte (x : BitVec 32) : x.toNat &&& 0xFF = (x.setWidth 8 : BitVec 8).toNat := by
  rw [BitVec.toNat_setWidth]
  exact Nat.and_two_pow_sub_one_eq_mod _ 8

/-- A result as numbers. -/
def natResult (r : BitVec 8 × Option (BitVec 8)) : Nat × Option Nat := (r.1.toNat, r.2.map BitVec.toNat)

/-- The test of the two readings. -/
theorem hasProtocol_iff : HasProtocol mmio port offset ↔
    capWords mmio (offset.toNat / 4) &&& 0xFF = 2 ∧
      port.toNat ≥ capWords mmio ((offset.toNat + 0x08) % 2 ^ 32 / 4) &&& 0xFF ∧
      port.toNat < (capWords mmio ((offset.toNat + 0x08) % 2 ^ 32 / 4) &&& 0xFF) +
        (capWords mmio ((offset.toNat + 0x08) % 2 ^ 32 / 4) >>> 8 &&& 0xFF) := by
  have hport : capWords mmio ((offset.toNat + 0x08) % 2 ^ 32 / 4) = (mmio (capIndex ((offset + 0x08) / 4))).toNat :=
    capWords_add_div offset 0x08
  rw [capWords_div, hport, toNat_low_byte, toNat_low_byte, toNat_byte]
  exact and_congr BitVec.toNat_inj.symm Iff.rfl

theorem natResult_slotTypeLoop :
    natResult (run (registers mmio) (slotTypeLoop port true remaining offset) ()).1 =
      protocolLoop (capWords mmio) port.toNat remaining offset.toNat := by
  induction remaining generalizing offset with
  | zero => rfl
  | succ remaining ih =>
    rw [protocolLoop]
    by_cases hoffset : offset = 0
    · subst hoffset
      rfl
    · have hoffset' : offset.toNat ≠ 0 := fun h => hoffset (BitVec.eq_of_toNat_eq h)
      rw [run_slotTypeLoop_succ hoffset, if_neg hoffset']
      by_cases hprotocol : HasProtocol mmio port offset
      · have hslot : capWords mmio ((offset.toNat + 0x0C) % 2 ^ 32 / 4) =
            (mmio (capIndex ((offset + 0x0c) / 4))).toNat := capWords_add_div offset 0x0c
        rw [if_pos hprotocol, if_pos (hasProtocol_iff.mp hprotocol), hslot, capWords_div, toNat_byte]
        have htype : (mmio (capIndex ((offset + 0x0c) / 4))).toNat &&& 0x1F =
            ((mmio (capIndex ((offset + 0x0c) / 4))).setWidth 8 &&& 0x1f : BitVec 8).toNat := by
          rw [BitVec.toNat_and, ← toNat_low_byte, Nat.and_assoc]
          rfl
        rw [htype]
        rfl
      · have hnext : capWords mmio (offset.toNat / 4) >>> 8 &&& 0xFF =
            (nextField (mmio (capIndex (offset / 4)))).toNat := by
          rw [capWords_div, toNat_byte]
          rfl
        rw [if_neg hprotocol, if_neg (fun h => hprotocol (hasProtocol_iff.mpr h)), hnext]
        by_cases hzero : nextField (mmio (capIndex (offset / 4))) = 0
        · rw [if_pos hzero, if_pos (by rw [hzero]; rfl)]
          rfl
        · have hne : (nextField (mmio (capIndex (offset / 4)))).toNat ≠ 0 :=
            fun h => hzero (BitVec.eq_of_toNat_eq h)
          rw [if_neg hzero, if_neg hne, ih]
          congr 1
          have hfour : (4 : BitVec 32).toNat = 4 := rfl
          rw [BitVec.toNat_add, BitVec.toNat_mul, BitVec.toNat_setWidth, hfour]
          omega

/-- **The pure reading returns what the watched one does.** -/
theorem natResult_readProtocolSlotTypeM :
    natResult (run (registers mmio) (readProtocolSlotTypeM port true) ()).1 =
      readProtocolSlotType (capWords mmio) port.toNat := by
  rw [readProtocolSlotTypeM, run_bind, readProtocolSlotType]
  refine natResult_slotTypeLoop.trans ?_
  congr 1
  have hparams : capWords mmio 4 = (mmio HCCPARAMS1).toNat := rfl
  have hfour : (4 : BitVec 32).toNat = 4 := rfl
  have hmask : ((mmio HCCPARAMS1 >>> 16) &&& 0xffff).toNat = (mmio HCCPARAMS1).toNat >>> 16 &&& 0xFFFF := by
    rw [BitVec.toNat_and, BitVec.toNat_ushiftRight]
    rfl
  have hle : (mmio HCCPARAMS1).toNat >>> 16 &&& 0xFFFF ≤ 0xFFFF := Nat.and_le_right
  rw [hparams]
  show (((mmio HCCPARAMS1 >>> 16) &&& 0xffff) * 4 : BitVec 32).toNat = _
  rw [BitVec.toNat_mul, hmask, hfour, Nat.mod_eq_of_lt (by omega)]

end

/-! ## When the walks are right -/

section

variable (mmio : BitVec 64 → BitVec 32) (barSize : Nat) (wantedId port : BitVec 8)

/-- The register lies in the BAR. -/
def InsideBar (offset : BitVec 64) : Prop := offset.toNat + 4 ≤ barSize

instance (offset : BitVec 64) : Decidable (InsideBar barSize offset) := inferInstanceAs (Decidable (_ ≤ _))

/-- Up to the first capability with the id the list stays in the BAR, and it has such a capability or a last one. -/
structure FindListEnds : Prop where
  parameters : InsideBar barSize HCCPARAMS1
  inside : ∀ n a, Chain.ReachedAt (findLink mmio) (HasCapId mmio wantedId) (findStart mmio) n a →
    InsideBar barSize (findEntry a)
  ends : (∃ a, Chain.First (findLink mmio) (HasCapId mmio wantedId) (findStart mmio) a) ∨
    Chain.Stops (findLink mmio) (findStart mmio)

/-- `xhci_find_extended_capability` ends, reads the BAR only, and finds the first capability of a list with an end. -/
structure FindRight : Prop where
  terminates : ∃ fuel, (run (registers mmio) (findExtendedCapability wantedId fuel) ()).1 ≠ none
  inside : ∀ fuel, AllAsked (registers mmio) (InsideBar barSize) (findExtendedCapability wantedId fuel) ()
  first : ∀ a, Chain.First (findLink mmio) (HasCapId mmio wantedId) (findStart mmio) a →
    ∃ fuel, (run (registers mmio) (findExtendedCapability wantedId fuel) ()).1 = some (some (findEntry a))
  absent : Chain.Stops (findLink mmio) (findStart mmio) →
    (∀ a, ¬ Chain.First (findLink mmio) (HasCapId mmio wantedId) (findStart mmio) a) →
    ∃ fuel, (run (registers mmio) (findExtendedCapability wantedId fuel) ()).1 = some none

/-- A list with an end, all of it in the BAR. -/
def SlotListOk : Prop :=
  (∀ n a, Chain.node (slotLink mmio) (slotStart mmio) n = some a → NodeReads mmio (InsideBar barSize) a) ∧
    Chain.Stops (slotLink mmio) (slotStart mmio)

/-- Up to the protocol of the port, 256 headers at most, the list stays in the BAR; and no good list has the protocol
behind 256 others. -/
structure SlotListShort : Prop where
  parameters : InsideBar barSize HCCPARAMS1
  inside : ∀ n < 256, ∀ a, Chain.ReachedAt (slotLink mmio) (HasProtocol mmio port) (slotStart mmio) n a →
    NodeReads mmio (InsideBar barSize) a
  short : SlotListOk mmio barSize → ∀ n a,
    Chain.FirstAt (slotLink mmio) (HasProtocol mmio port) (slotStart mmio) n a → n < 256

/-- `read_protocol_slot_type` ends, reads the BAR only, and finds the first protocol of the port in a good list. -/
structure SlotTypeRight (majorGiven : Bool) : Prop where
  terminates : (readProtocolSlotTypeM port majorGiven).Within 769
  inside : AllAsked (registers mmio) (InsideBar barSize) (readProtocolSlotTypeM port majorGiven) ()
  first : SlotListOk mmio barSize → ∀ a,
    Chain.First (slotLink mmio) (HasProtocol mmio port) (slotStart mmio) a →
    (run (registers mmio) (readProtocolSlotTypeM port majorGiven) ()).1 = slotTypeAt mmio majorGiven a
  absent : SlotListOk mmio barSize →
    (∀ a, ¬ Chain.First (slotLink mmio) (HasProtocol mmio port) (slotStart mmio) a) →
    (run (registers mmio) (readProtocolSlotTypeM port majorGiven) ()).1 = (0xff, none)

variable {mmio barSize wantedId port} {majorGiven : Bool} {fuel remaining : Nat}

theorem run_findExtendedCapability : (run (registers mmio) (findExtendedCapability wantedId fuel) ()).1 =
    (Chain.search (findLink mmio) (HasCapId mmio wantedId) fuel (findStart mmio)).map (·.map findEntry) :=
  run_findLoop

theorem allAsked_findExtendedCapability {P : BitVec 64 → Prop} :
    AllAsked (registers mmio) P (findExtendedCapability wantedId fuel) () ↔ P HCCPARAMS1 ∧
      ∀ a ∈ Chain.visited (findLink mmio) (HasCapId mmio wantedId) fuel (findStart mmio), P (findEntry a) :=
  (allAsked_call_bind _).trans (and_congr_right fun _ => allAsked_findLoop)

/-- **`xhci_find_extended_capability` is right exactly when the list ends in the BAR.** -/
theorem find_right_iff : FindRight mmio barSize wantedId ↔ FindListEnds mmio barSize wantedId := by
  constructor
  · intro h
    refine ⟨(allAsked_findExtendedCapability.mp (h.inside 0)).1, fun n a hn => ?_, ?_⟩
    · exact (allAsked_findExtendedCapability.mp (h.inside (n + 1))).2 a
        (Chain.mem_visited_iff.mpr ⟨n, Nat.lt_succ_self n, hn⟩)
    · obtain ⟨fuel, hfuel⟩ := h.terminates
      refine Chain.exists_search_iff.mp ⟨fuel, fun hnone => hfuel ?_⟩
      rw [run_findExtendedCapability, hnone]
      rfl
  · intro h
    refine ⟨?_, fun fuel => ?_, fun a ha => ?_, fun hstops hnone => ?_⟩
    · obtain ⟨fuel, hfuel⟩ := Chain.exists_search_iff.mpr h.ends
      refine ⟨fuel, fun hnone => hfuel ?_⟩
      rw [run_findExtendedCapability] at hnone
      exact Option.map_eq_none_iff.mp hnone
    · refine allAsked_findExtendedCapability.mpr ⟨h.parameters, fun a ha => ?_⟩
      obtain ⟨n, -, hn⟩ := Chain.mem_visited_iff.mp ha
      exact h.inside n a hn
    · obtain ⟨fuel, hfuel⟩ := Chain.exists_search_eq_iff.mpr ha
      refine ⟨fuel, ?_⟩
      rw [run_findExtendedCapability, hfuel]
      rfl
    · obtain ⟨fuel, hfuel⟩ := Chain.exists_search_iff (p := HasCapId mmio wantedId).mpr (.inr hstops)
      obtain ⟨r, hr⟩ := Option.ne_none_iff_exists'.mp hfuel
      cases r with
      | none =>
        refine ⟨fuel, ?_⟩
        rw [run_findExtendedCapability, hr]
        rfl
      | some a => exact absurd (Chain.exists_search_eq_iff.mp ⟨fuel, hr⟩) (hnone a)

theorem within_slotTypeLoop {offset : BitVec 32} :
    (slotTypeLoop port majorGiven remaining offset).Within (3 * remaining) := by
  induction remaining generalizing offset with
  | zero => exact within_pure _
  | succ remaining ih =>
    rw [slotTypeLoop]
    split
    next => exact within_pure _
    next =>
      have hgoOn : ∀ c : Prop, [Decidable c] → ∀ o, (if c then (pure (0xff, none) : MmioM _) else
          slotTypeLoop port majorGiven remaining o).Within (3 * remaining) := by
        intro c _ o
        split
        next => exact within_pure _
        next => exact ih
      rw [Nat.mul_succ]
      refine within_call_bind fun header => ?_
      split
      next =>
        refine within_call_bind fun portInfo => within_call_bind fun slotInfo => ?_
        split
        next => exact within_pure _
        next => exact hgoOn _ _
      next => exact (hgoOn _ _).mono (by omega)

theorem run_readProtocolSlotTypeM : (run (registers mmio) (readProtocolSlotTypeM port majorGiven) ()).1 =
    ((Chain.search (slotLink mmio) (HasProtocol mmio port) 256 (slotStart mmio)).join.map
      (slotTypeAt mmio majorGiven)).getD (0xff, none) := run_slotTypeLoop

theorem allAsked_readProtocolSlotTypeM {P : BitVec 64 → Prop} :
    AllAsked (registers mmio) P (readProtocolSlotTypeM port majorGiven) () ↔ P HCCPARAMS1 ∧
      ∀ a ∈ Chain.visited (slotLink mmio) (HasProtocol mmio port) 256 (slotStart mmio), NodeReads mmio P a :=
  (allAsked_call_bind _).trans (and_congr_right fun _ => allAsked_slotTypeLoop)

/-- A slot type is never the value for none. -/
theorem slotTypeAt_ne {offset : BitVec 32} : slotTypeAt mmio majorGiven offset ≠ (0xff, none) := by
  intro h
  have hfst := (Prod.mk.inj h).1
  have hand : ∀ x : BitVec 8, x &&& 0x1f ≠ 0xff := by decide
  exact hand _ hfst

/-- **`read_protocol_slot_type` is right exactly when the list is short and in the BAR.** -/
theorem slotType_right_iff : SlotTypeRight mmio barSize port majorGiven ↔ SlotListShort mmio barSize port := by
  have hfound : ∀ n a, n < 256 → Chain.FirstAt (slotLink mmio) (HasProtocol mmio port) (slotStart mmio) n a →
      (run (registers mmio) (readProtocolSlotTypeM port majorGiven) ()).1 = slotTypeAt mmio majorGiven a := by
    intro n a hn ha
    rw [run_readProtocolSlotTypeM, Chain.search_eq_some_some_iff.mpr ⟨n, hn, ha⟩]
    rfl
  constructor
  · intro h
    obtain ⟨hparameters, hinside⟩ := allAsked_readProtocolSlotTypeM.mp h.inside
    refine ⟨hparameters, fun n hn a ha => hinside a (Chain.mem_visited_iff.mpr ⟨n, hn, ha⟩), fun hok n a ha => ?_⟩
    -- a protocol behind the bound would not be found
    have hrun := h.first hok a ⟨n, ha⟩
    rw [run_readProtocolSlotTypeM] at hrun
    cases hsearch : (Chain.search (slotLink mmio) (HasProtocol mmio port) 256 (slotStart mmio)).join with
    | none =>
      rw [hsearch] at hrun
      exact absurd hrun.symm slotTypeAt_ne
    | some b =>
      obtain ⟨m, hm, hb⟩ := Chain.search_eq_some_some_iff.mp (Option.join_eq_some_iff.mp hsearch)
      by_contra hge
      exact ha.2.2 m (by omega) b hb.1 hb.2.1
  · intro h
    refine ⟨?_, ?_, fun hok a ⟨n, ha⟩ => hfound n a (h.short hok n a ha) ha, fun _ hnone => ?_⟩
    · exact within_call_bind (n := 3 * 256) fun hccparams1 => within_slotTypeLoop
    · refine allAsked_readProtocolSlotTypeM.mpr ⟨h.parameters, fun a ha => ?_⟩
      obtain ⟨n, hn, ha⟩ := Chain.mem_visited_iff.mp ha
      exact h.inside n hn a ha
    · rw [run_readProtocolSlotTypeM]
      cases hsearch : (Chain.search (slotLink mmio) (HasProtocol mmio port) 256 (slotStart mmio)).join with
      | none => rfl
      | some b =>
        obtain ⟨m, -, hb⟩ := Chain.search_eq_some_some_iff.mp (Option.join_eq_some_iff.mp hsearch)
        exact absurd ⟨m, hb⟩ (hnone b)

end

/-! ## The three walks -/

section

open Ehci Pci

/-- **The three walks are right exactly as far as their lists are.** -/
theorem extCaps_right_iff (regions : List PciEcamRegion) (address : PciAddress) (fallback : PciEcamRegion)
    (layouts : Place → Layout) (h : Host) (hccParams : BitVec 32) (mmio : BitVec 64 → BitVec 32) (barSize : Nat)
    (wantedId port : BitVec 8) (majorGiven : Bool) :
    (OwnershipRight regions address fallback layouts h hccParams ∧ FindRight mmio barSize wantedId ∧
      SlotTypeRight mmio barSize port majorGiven) ↔
    (EecpListEnds regions address h hccParams ∧ FindListEnds mmio barSize wantedId ∧
      SlotListShort mmio barSize port) :=
  and_congr ownership_right_iff (and_congr find_right_iff slotType_right_iff)

/-- A capability with id 2 that links to itself. -/
def selfLinked : Space := fun x => if x = 0x40 then 2 else if x = 0x41 then 0x40 else 0

/-- HCCPARAMS1 points far behind a BAR of 64 KiB. -/
def farList : BitVec 64 → BitVec 32 := fun offset => if offset = 0x10 then 0xffff0000 else 0

/-- The EHCI walk does not end at a self link, and the xHCI walks follow a pointer out of the BAR. -/
theorem not_extCaps_right :
    ¬ OwnershipRight [] ⟨0, 0, 0, 0⟩ ⟨0, 0, 0, 0⟩ (fun _ => readOnly) ⟨fun _ => selfLinked, 0⟩ 0x4000 ∧
    ¬ FindRight farList 0x10000 1 ∧ ¬ SlotTypeRight farList 0x10000 1 true := by
  refine ⟨fun hright => ?_, fun hright => ?_, fun hright => ?_⟩
  · have hnode : ∀ n, Chain.node (eecpLink selfLinked) (eecpStart 0x4000) n = some 0x40 :=
      fun n => Chain.node_self (by decide)
    rcases ownership_right_iff.mp hright with ⟨a, n, ha, hstop, -⟩ | ⟨n, hn⟩
    · cases ha.symm.trans (hnode n)
      exact absurd hstop (by decide)
    · cases hn.symm.trans (hnode n)
  · have hinside := (find_right_iff.mp hright).inside 0 0xffff (Chain.reachedAt_zero.mpr (by decide))
    exact absurd hinside (by decide)
  · have hinside := ((slotType_right_iff.mp hright).inside 0 (by decide) 0x3fffc
      (Chain.reachedAt_zero.mpr (by decide))).1
    exact absurd hinside (by decide)

end

end Dem64.Xhci
