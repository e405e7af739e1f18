import Dem64.Lib.Interaction
import Mathlib.Logic.Function.Basic

/-!
# PCI configuration accesses

`pci_config_read` and `pci_config_write` (`pci.c`) as programs over the two mechanisms: the ports 0xCF8 and
0xCFC, and the memory of an ECAM region.

Behind both of them is the same hardware (`Host`): configuration spaces whose bits are read-write, read-only
or cleared by writing a one, an address register for the ports, and a window of memory for the region.
-/

set_option autoImplicit false

namespace Dem64

namespace Pci

open Interaction

/-! ## What the accesses ask -/

/-- An operation of the driver. -/
inductive PciOp
  | outl (port : BitVec 16) (value : BitVec 32)
  | inl (port : BitVec 16)
  /-- A load of `size` bytes through a volatile pointer. -/
  | load (a : BitVec 64) (size : Nat)
  /-- A store of the low `size` bytes of `value`. -/
  | store (a : BitVec 64) (size : Nat) (value : BitVec 32)
  /-- `spin_lock(&legacy_config_lock)` has returned. -/
  | lock
  | unlock

/-- What an operation is answered with; a load gives its bytes zero-extended. -/
@[reducible] def PciAns : PciOp → Type
  | .inl _ => BitVec 32
  | .load _ _ => BitVec 32
  | _ => Unit

/-- A program of the driver. -/
abbrev PciM := Prog PciOp PciAns

def outl (port : BitVec 16) (value : BitVec 32) : PciM Unit := .call (PciOp.outl port value)

def inl (port : BitVec 16) : PciM (BitVec 32) := .call (PciOp.inl port)

def load (a : BitVec 64) (size : Nat) : PciM (BitVec 32) := .call (PciOp.load a size)

def store (a : BitVec 64) (size : Nat) (value : BitVec 32) : PciM Unit := .call (PciOp.store a size value)

def spinLock : PciM Unit := .call PciOp.lock

def spinUnlock : PciM Unit := .call PciOp.unlock

/-! ## `pci.c` -/

def PCI_STATUS_SUCCESS : Nat := 0
def PCI_STATUS_INVALID_ADDRESS : Nat := 3

def PCI_CONFIG_LEGACY_SIZE : Nat := 256
def PCI_CONFIG_PCIE_SIZE : Nat := 4096

/-- `pci_address_t`. -/
structure PciAddress where
  segment : BitVec 16
  bus : BitVec 8
  device : BitVec 8
  function : BitVec 8
  deriving DecidableEq

/-- `pci_ecam_region_t`. -/
structure PciEcamRegion where
  virtualBase : BitVec 64
  segment : BitVec 16
  startBus : BitVec 8
  endBus : BitVec 8

/-- `valid_access`. -/
def ValidAccess (address : PciAddress) (offset : BitVec 16) (size : BitVec 8) (configSize : Nat) : Prop :=
  address.device < 32 ∧ address.function < 8 ∧ (size = 1 ∨ size = 2 ∨ size = 4) ∧
  offset.toNat + size.toNat ≤ configSize ∧
  ¬ (size = 2 ∧ offset &&& 1 ≠ 0) ∧ ¬ (size = 4 ∧ offset &&& 3 ≠ 0)

instance (address : PciAddress) (offset : BitVec 16) (size : BitVec 8) (configSize : Nat) :
    Decidable (ValidAccess address offset size configSize) :=
  inferInstanceAs (Decidable (_ ∧ _ ∧ _ ∧ _ ∧ _ ∧ _))

/-- `find_ecam_region`: the first region of the table that has the bus. -/
def findEcamRegion (regions : List PciEcamRegion) (segment : BitVec 16) (bus : BitVec 8) :
    Option PciEcamRegion :=
  regions.find? fun region => region.segment = segment ∧ region.startBus ≤ bus ∧ bus ≤ region.endBus

/-- `ecam_pointer`. -/
def ecamPointer (region : PciEcamRegion) (address : PciAddress) (offset : BitVec 16) : BitVec 64 :=
  region.virtualBase + ((address.bus.setWidth 64 - region.startBus.setWidth 64) <<< 20) +
    (address.device.setWidth 64 <<< 15) + (address.function.setWidth 64 <<< 12) + offset.setWidth 64

/-- What is written to 0xCF8. -/
def configAddress (address : PciAddress) (offset : BitVec 16) : BitVec 32 :=
  (1 : BitVec 32) <<< 31 ||| address.bus.setWidth 32 <<< 16 ||| address.device.setWidth 32 <<< 11 |||
    address.function.setWidth 32 <<< 8 ||| (offset &&& 0xfc).setWidth 32

/-- `pci_config_read`: the status, and what is stored through the pointer, which may be null. -/
def pciConfigRead (regions : List PciEcamRegion) (address : PciAddress) (offset : BitVec 16) (size : BitVec 8)
    (valueGiven : Bool) : PciM (Nat × Option (BitVec 32)) :=
  if valueGiven = false then pure (PCI_STATUS_INVALID_ADDRESS, none)
  else
    match findEcamRegion regions address.segment address.bus with
    | some region =>
      if ¬ ValidAccess address offset size PCI_CONFIG_PCIE_SIZE then pure (PCI_STATUS_INVALID_ADDRESS, none)
      else do
        let value ← load (ecamPointer region address offset) size.toNat
        pure (PCI_STATUS_SUCCESS, some value)
    | none =>
      if address.segment ≠ 0 ∨ ¬ ValidAccess address offset size PCI_CONFIG_LEGACY_SIZE then
        pure (PCI_STATUS_INVALID_ADDRESS, none)
      else do
        spinLock
        outl 0xcf8 (configAddress address offset)
        let data ← inl 0xcfc
        spinUnlock
        if size = 1 then
          pure (PCI_STATUS_SUCCESS, some ((data >>> ((offset &&& 3).toNat * 8)) &&& 0xff))
        else if size = 2 then
          pure (PCI_STATUS_SUCCESS, some ((data >>> ((offset &&& 2).toNat * 8)) &&& 0xffff))
        else pure (PCI_STATUS_SUCCESS, some data)

/-- The dword that the ports write for an access of one or two bytes. -/
def mergedDword (old : BitVec 32) (offset : BitVec 16) (size : BitVec 8) (value : BitVec 32) : BitVec 32 :=
  let shift := (offset &&& 3).toNat * 8
  let mask := (if size = 1 then 0xff else 0xffff : BitVec 32) <<< shift
  (old &&& ~~~mask) ||| ((value <<< shift) &&& mask)

/-- `pci_config_write`. -/
def pciConfigWrite (regions : List PciEcamRegion) (address : PciAddress) (offset : BitVec 16) (size : BitVec 8)
    (value : BitVec 32) : PciM Nat :=
  match findEcamRegion regions address.segment address.bus with
  | some region =>
    if ¬ ValidAccess address offset size PCI_CONFIG_PCIE_SIZE then pure PCI_STATUS_INVALID_ADDRESS
    else do
      store (ecamPointer region address offset) size.toNat value
      pure PCI_STATUS_SUCCESS
  | none =>
    if address.segment ≠ 0 ∨ ¬ ValidAccess address offset size PCI_CONFIG_LEGACY_SIZE then
      pure PCI_STATUS_INVALID_ADDRESS
    else do
      spinLock
      outl 0xcf8 (configAddress address offset)
      if size = 4 then outl 0xcfc value
      else do
        let old ← inl 0xcfc
        outl 0xcfc (mergedDword old offset size value)
      spinUnlock
      pure PCI_STATUS_SUCCESS

/-! ## The hardware -/

/-- The kinds of the bits of a configuration space: a bit with neither mark is read-only. -/
structure Layout where
  /-- The read-write bits of each byte. -/
  writable : Nat → BitVec 8
  /-- The bits that a one clears. -/
  cleared : Nat → BitVec 8
  disjoint : ∀ x, writable x &&& cleared x = 0

/-- The bytes of a configuration space. -/
abbrev Space := Nat → BitVec 8

/-- A byte behind a write of it. -/
def Layout.merge (layout : Layout) (x : Nat) (old new : BitVec 8) : BitVec 8 :=
  (old &&& ~~~layout.writable x &&& ~~~(layout.cleared x &&& new)) ||| (new &&& layout.writable x)

/-- The space behind a write of the low `n` bytes of `value`, the lowest one first. -/
def Layout.write (layout : Layout) (space : Space) (offset n : Nat) (value : BitVec 32) : Space := fun x =>
  if offset ≤ x ∧ x < offset + n then
    layout.merge x (space x) (value.extractLsb' (8 * (x - offset)) 8)
  else space x

/-- The four bytes from `offset` on. -/
def dwordAt (space : Space) (offset : Nat) : BitVec 32 :=
  space (offset + 3) ++ space (offset + 2) ++ space (offset + 1) ++ space offset

/-- The bytes of an access of `n` bytes, zero-extended. -/
def readAt (space : Space) (offset n : Nat) : BitVec 32 :=
  if n = 1 then (space offset).setWidth 32
  else if n = 2 then (space (offset + 1) ++ space offset).setWidth 32
  else dwordAt space offset

/-- A place: a function on its bus. -/
structure Place where
  bus : Nat
  device : Nat
  function : Nat
  deriving DecidableEq

/-- The hardware behind both mechanisms. -/
structure Host where
  spaces : Place → Space
  /-- The register behind port 0xCF8. -/
  addressRegister : BitVec 32

/-- The hardware with another space of one function. -/
def Host.withSpace (h : Host) (place : Place) (space : Space) : Host :=
  { h with spaces := Function.update h.spaces place space }

/-- The place that the address register selects. -/
def selectedPlace (v : BitVec 32) : Place where
  bus := (v.extractLsb' 16 8).toNat
  device := (v.extractLsb' 11 5).toNat
  function := (v.extractLsb' 8 3).toNat

/-- The dword that the address register selects. -/
def selectedOffset (v : BitVec 32) : Nat := 4 * (v.extractLsb' 2 6).toNat

/-- The place and the offset behind an address in the window of a region. -/
def windowPlace (region : PciEcamRegion) (a : BitVec 64) : Place × Nat :=
  let offset := (a - region.virtualBase).toNat
  (⟨region.startBus.toNat + offset / 2 ^ 20, offset / 2 ^ 15 % 32, offset / 2 ^ 12 % 8⟩, offset % 2 ^ 12)

/-- The hardware with the window of a region, whose functions have the layouts. -/
def host (region : PciEcamRegion) (layouts : Place → Layout) : Handler PciOp PciAns Host
  | .outl port value, h =>
    if port = 0xcf8 then ((), { h with addressRegister := value })
    else if port = 0xcfc ∧ h.addressRegister.msb = true then
      let place := selectedPlace h.addressRegister
      ((), h.withSpace place
        ((layouts place).write (h.spaces place) (selectedOffset h.addressRegister) 4 value))
    else ((), h)
  | .inl port, h =>
    if port = 0xcfc ∧ h.addressRegister.msb = true then
      (dwordAt (h.spaces (selectedPlace h.addressRegister)) (selectedOffset h.addressRegister), h)
    else (BitVec.allOnes 32, h)
  | .load a size, h =>
    let p := windowPlace region a
    (readAt (h.spaces p.1) p.2 size, h)
  | .store a size value, h =>
    let p := windowPlace region a
    ((), h.withSpace p.1 ((layouts p.1).write (h.spaces p.1) p.2 size value))
  | .lock, h => ((), h)
  | .unlock, h => ((), h)

end Pci

end Dem64
