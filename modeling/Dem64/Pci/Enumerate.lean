import Dem64.Pci.Config
import Mathlib.Data.List.Basic

/-!
# Enumeration

`pci_get_info` and `pci_enumerate` (`pci.c`) over configuration spaces that do not change meanwhile.  The
enumeration calls the callback for one function after the other (`pciEnumerate_eq`), in an order that depends on
the spaces and on the table of the ECAM regions only.
-/

set_option autoImplicit false

namespace Dem64

namespace Pci

def PCI_STATUS_NOT_PRESENT : Nat := 1
def PCI_STATUS_UNSUPPORTED_HEADER : Nat := 2

/-- The configuration spaces, as `pci_read8` reads them. -/
abbrev Topology := PciAddress → Nat → BitVec 8

/-- `pci_read16`. -/
def pciRead16 (t : Topology) (address : PciAddress) (offset : Nat) : BitVec 16 :=
  t address (offset + 1) ++ t address offset

/-- `PCICommonHeader`. -/
structure PciCommonHeader where
  command : BitVec 16 := 0
  status : BitVec 16 := 0
  revisionId : BitVec 8 := 0
  progIf : BitVec 8 := 0
  subclass : BitVec 8 := 0
  classCode : BitVec 8 := 0
  cacheLineSize : BitVec 8 := 0
  latencyTimer : BitVec 8 := 0
  headerType : BitVec 8 := 0
  bist : BitVec 8 := 0

/-- `PCI_ret`, without the part of the header that depends on its type. -/
structure PciRet where
  status : Nat := PCI_STATUS_SUCCESS
  type : BitVec 8 := 0
  segment : BitVec 16
  bus : BitVec 8
  device : BitVec 8
  function : BitVec 8
  vendorId : BitVec 16 := 0
  deviceId : BitVec 16 := 0
  common : PciCommonHeader := {}

/-- The bytes 4 to 15 of a space. -/
def readCommon (t : Topology) (address : PciAddress) : PciCommonHeader where
  command := pciRead16 t address 0x04
  status := pciRead16 t address 0x06
  revisionId := t address 0x08
  progIf := t address 0x09
  subclass := t address 0x0a
  classCode := t address 0x0b
  cacheLineSize := t address 0x0c
  latencyTimer := t address 0x0d
  headerType := t address 0x0e
  bist := t address 0x0f

/-- `pci_get_info`. -/
def pciGetInfo (t : Topology) (address : PciAddress) : PciRet :=
  let ret : PciRet :=
    { segment := address.segment, bus := address.bus, device := address.device, function := address.function }
  if 32 ≤ address.device.toNat ∨ 8 ≤ address.function.toNat then
    { ret with status := PCI_STATUS_INVALID_ADDRESS }
  else
    let ret := { ret with vendorId := pciRead16 t address 0x00 }
    if ret.vendorId = 0xffff then { ret with status := PCI_STATUS_NOT_PRESENT }
    else
      let common := readCommon t address
      let ret := { ret with
        deviceId := pciRead16 t address 0x02, common := common, type := common.headerType &&& 0x7f }
      if ret.type = 0 ∨ ret.type = 1 ∨ ret.type = 2 then { ret with status := PCI_STATUS_SUCCESS }
      else { ret with status := PCI_STATUS_UNSUPPORTED_HEADER }

/-- The address in a `PCI_ret`. -/
def PciRet.address (ret : PciRet) : PciAddress := ⟨ret.segment, ret.bus, ret.device, ret.function⟩

@[simp] theorem pciGetInfo_address (t : Topology) (address : PciAddress) :
    (pciGetInfo t address).address = address := by
  rw [pciGetInfo]
  dsimp only
  split
  · rfl
  · split
    · rfl
    · split
      · rfl
      · rfl

/-! ## The loops -/

section

variable {σ : Type} (t : Topology) (callback : PciRet → σ → σ) (segment : BitVec 16)

/-- The body of the loop over the functions of a device. -/
def enumerateFunction (bus device : Nat) (s : Nat × σ) (function : Nat) : Nat × σ :=
  let address : PciAddress := ⟨segment, .ofNat 8 bus, .ofNat 8 device, .ofNat 8 function⟩
  if pciRead16 t address 0 = 0xffff then s else (s.1 + 1, callback (pciGetInfo t address) s.2)

/-- The number of functions that are tried, from what function 0 says. -/
def functionsOf (bus device : Nat) : Nat :=
  if t ⟨segment, .ofNat 8 bus, .ofNat 8 device, 0⟩ 0x0e &&& 0x80 ≠ 0 then 8 else 1

/-- The body of the loop over the devices. -/
def enumerateDevice (bus : Nat) (s : Nat × σ) (device : Nat) : Nat × σ :=
  if pciRead16 t ⟨segment, .ofNat 8 bus, .ofNat 8 device, 0⟩ 0 = 0xffff then s
  else (List.range (functionsOf t segment bus device)).foldl (enumerateFunction t callback segment bus device) s

/-- `enumerate_bus`, which adds to the count. -/
def enumerateBus (s : Nat × σ) (bus : Nat) : Nat × σ :=
  (List.range 32).foldl (enumerateDevice t callback segment bus) s

/-- The buses of a region. -/
def PciEcamRegion.buses (region : PciEcamRegion) : List Nat :=
  List.range' region.startBus.toNat (region.endBus.toNat + 1 - region.startBus.toNat)

/-- `pci_enumerate`: the count, and the context behind the calls of the callback. -/
def pciEnumerate (regions : List PciEcamRegion) (context : σ) : Nat × σ :=
  if regions ≠ [] then
    regions.foldl (fun s region => region.buses.foldl (enumerateBus t callback region.segment) s) (0, context)
  else (List.range 256).foldl (enumerateBus t callback 0) (0, context)

end

/-! ## The functions in their order -/

section

variable (t : Topology) (segment : BitVec 16)

/-- The functions of a device that are there. -/
def deviceFunctions (bus device : Nat) : List PciAddress :=
  if pciRead16 t ⟨segment, .ofNat 8 bus, .ofNat 8 device, 0⟩ 0 = 0xffff then []
  else (List.range (functionsOf t segment bus device)).flatMap fun function =>
    let address : PciAddress := ⟨segment, .ofNat 8 bus, .ofNat 8 device, .ofNat 8 function⟩
    if pciRead16 t address 0 = 0xffff then [] else [address]

/-- Those of a bus. -/
def busFunctions (bus : Nat) : List PciAddress := (List.range 32).flatMap (deviceFunctions t segment bus)

/-- All of them. -/
def enumerated (regions : List PciEcamRegion) : List PciAddress :=
  if regions ≠ [] then regions.flatMap fun region => region.buses.flatMap (busFunctions t region.segment)
  else (List.range 256).flatMap (busFunctions t 0)

variable {σ : Type} (callback : PciRet → σ → σ)

/-- A function is found. -/
def visit (s : Nat × σ) (address : PciAddress) : Nat × σ := (s.1 + 1, callback (pciGetInfo t address) s.2)

theorem enumerateDevice_eq (bus : Nat) (s : Nat × σ) (device : Nat) :
    enumerateDevice t callback segment bus s device =
      (deviceFunctions t segment bus device).foldl (visit t callback) s := by
  rw [enumerateDevice, deviceFunctions]
  split
  · rfl
  · rw [List.foldl_flatMap]
    congr 1
    funext s function
    rw [enumerateFunction]
    dsimp only
    split
    · rfl
    · rfl

theorem enumerateBus_eq (s : Nat × σ) (bus : Nat) :
    enumerateBus t callback segment s bus = (busFunctions t segment bus).foldl (visit t callback) s := by
  rw [enumerateBus, busFunctions, List.foldl_flatMap]
  congr 1
  funext s device
  exact enumerateDevice_eq t segment callback bus s device

theorem foldl_visit (l : List PciAddress) (s : Nat × σ) : l.foldl (visit t callback) s =
    (s.1 + l.length, l.foldl (fun context address => callback (pciGetInfo t address) context) s.2) := by
  induction l generalizing s with
  | nil => rfl
  | cons a l ih =>
    rw [List.foldl_cons, ih, visit, List.length_cons, List.foldl_cons, Nat.add_assoc, Nat.add_comm 1]

/-- The callback sees the functions that are there, one after the other. -/
theorem pciEnumerate_eq (regions : List PciEcamRegion) (context : σ) :
    pciEnumerate t callback regions context = ((enumerated t regions).length,
      (enumerated t regions).foldl (fun context address => callback (pciGetInfo t address) context) context) := by
  have hbus : ∀ segment, enumerateBus t callback segment =
      fun s bus => (busFunctions t segment bus).foldl (visit t callback) s := fun segment => by
    funext s bus
    exact enumerateBus_eq t segment callback s bus
  have hall : pciEnumerate t callback regions context =
      (enumerated t regions).foldl (visit t callback) (0, context) := by
    rw [pciEnumerate, enumerated]
    split
    · simp only [hbus, List.foldl_flatMap]
    · simp only [hbus, List.foldl_flatMap]
  rw [hall, foldl_visit, Nat.zero_add]

end

end Pci

end Dem64
