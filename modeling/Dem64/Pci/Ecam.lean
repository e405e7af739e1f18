import Dem64.Lib.ByteMemory
import Dem64.Pci.Paths
import Mathlib.Data.List.Forall2
import Mathlib.Data.List.Pairwise

/-!
# The ECAM windows

`pci_init` makes a region of each entry of the MCFG table whose bus range is not inverted, up to 32 of them, and gives the
regions one window of virtual memory after the other, from `PCI_BASE` on.  The windows are disjoint and end before
`DMA_BASE` (`EcamInit.Windows`), for any table, and an access through a region stays in the 4 KiB of its function
(`asks_pciConfigRead`, `asks_pciConfigWrite`).

The table is a memory of bytes from its header on.
-/

set_option autoImplicit false

namespace Dem64

namespace Pci

open ByteMemory Interaction Interaction.Prog

/-! ## `pci.c` -/

def PCI_MAX_ECAM_REGIONS : Nat := 32

def PCI_BASE : BitVec 64 := 0xffffa010e0000000
def DMA_BASE : BitVec 64 := 0xffffa0ffc0000000

/-- `MCFGEntry`. -/
structure McfgEntry where
  baseAddress : BitVec 64
  segmentGroup : BitVec 16
  startBus : BitVec 8
  endBus : BitVec 8

/-- `entries[i]`, behind the 44 bytes of `MCFG`. -/
def mcfgEntry (mcfg : Nat → BitVec 8) (i : Nat) : McfgEntry where
  baseAddress := load32 mcfg (44 + 16 * i + 4) ++ load32 mcfg (44 + 16 * i)
  segmentGroup := mcfg (44 + 16 * i + 9) ++ mcfg (44 + 16 * i + 8)
  startBus := mcfg (44 + 16 * i + 10)
  endBus := mcfg (44 + 16 * i + 11)

/-- `mcfg->header.length`. -/
def mcfgLength (mcfg : Nat → BitVec 8) : Nat := (load32 mcfg 4).toNat

/-- A call of `create_mapping`. -/
structure EcamMapping where
  virtualBase : BitVec 64
  physicalBase : BitVec 64
  pages : BitVec 64

/-- The variables of `pci_init`, and the entries it has read. -/
structure EcamInit where
  /-- `ecam_regions`, of which there are `ecam_region_count`. -/
  regions : List PciEcamRegion := []
  virtualBase : BitVec 64 := PCI_BASE
  busCount : Nat := 0
  mappings : List EcamMapping := []
  read : List Nat := []

/-- The body of the loop. -/
def initEntry (s : EcamInit) (i : Nat) (entry : McfgEntry) : EcamInit :=
  let s := { s with read := s.read ++ [i] }
  if entry.endBus < entry.startBus then s
  else
    let buses := entry.endBus.setWidth 64 - entry.startBus.setWidth 64 + 1
    let pages := buses <<< 8
    { s with
      regions := s.regions ++ [⟨s.virtualBase, entry.segmentGroup, entry.startBus, entry.endBus⟩]
      mappings := s.mappings ++ [⟨s.virtualBase, entry.baseAddress, pages⟩]
      virtualBase := s.virtualBase + (pages <<< 12)
      busCount := s.busCount + buses.toNat }

/-- The loop over `n` entries, from `i` on. -/
def initLoop (mcfg : Nat → BitVec 8) : (n i : Nat) → EcamInit → EcamInit
  | 0, _, s => s
  | n + 1, i, s =>
    if s.regions.length < PCI_MAX_ECAM_REGIONS then initLoop mcfg n (i + 1) (initEntry s i (mcfgEntry mcfg i)) else s

/-- `pci_init`, for the table that `ACPI_discovery` finds; without any region there are 256 buses. -/
def pciInit (mcfg : Option (Nat → BitVec 8)) : EcamInit :=
  let s : EcamInit :=
    match mcfg with
    | some mcfg =>
      if 44 ≤ mcfgLength mcfg then initLoop mcfg ((mcfgLength mcfg - 44) / 16) 0 {} else {}
    | none => {}
  if s.regions.length = 0 then { s with busCount := 256 } else s

/-! ## Windows -/

/-- The size of the window of a region: a MiB for each bus. -/
def PciEcamRegion.size (region : PciEcamRegion) : Nat := (region.endBus.toNat + 1 - region.startBus.toNat) * 2 ^ 20

/-- Where a region with the bus has the 4 KiB of a function. -/
def PciEcamRegion.functionBase (region : PciEcamRegion) (address : PciAddress) : Nat :=
  region.virtualBase.toNat + (address.bus.toNat - region.startBus.toNat) * 2 ^ 20 + address.device.toNat * 2 ^ 15 +
    address.function.toNat * 2 ^ 12

/-- The windows: one behind the other from `PCI_BASE` on, and mapped each with the pages of its buses. -/
structure EcamInit.Windows (s : EcamInit) : Prop where
  length_le : s.regions.length ≤ PCI_MAX_ECAM_REGIONS
  bounded : ∀ r ∈ s.regions, r.startBus ≤ r.endBus ∧ PCI_BASE.toNat ≤ r.virtualBase.toNat ∧
    r.virtualBase.toNat + r.size ≤ s.virtualBase.toNat
  disjoint : s.regions.Pairwise fun r r' => r.virtualBase.toNat + r.size ≤ r'.virtualBase.toNat
  mapped : List.Forall₂ (fun r m => m.virtualBase = r.virtualBase ∧ m.pages.toNat * 4096 = r.size) s.regions s.mappings
  /-- The windows need 256 MiB each at most. -/
  next : PCI_BASE.toNat ≤ s.virtualBase.toNat ∧
    s.virtualBase.toNat ≤ PCI_BASE.toNat + s.regions.length * 2 ^ 28

section

variable {mcfg : Nat → BitVec 8} {s : EcamInit} {n i : Nat} {entry : McfgEntry}

theorem toNat_buses {first last : BitVec 8} (h : first ≤ last) :
    (last.setWidth 64 - first.setWidth 64 + 1 : BitVec 64).toNat = last.toNat + 1 - first.toNat := by
  have hle := BitVec.le_def.mp h
  have hlast := last.isLt
  have hsub : first.setWidth 64 ≤ last.setWidth 64 := by
    rw [BitVec.le_def, BitVec.toNat_setWidth, BitVec.toNat_setWidth]
    omega
  rw [BitVec.toNat_add, BitVec.toNat_sub_of_le hsub, BitVec.toNat_setWidth, BitVec.toNat_setWidth]
  show (last.toNat % 2 ^ 64 - first.toNat % 2 ^ 64 + 1) % 2 ^ 64 = _
  omega

/-- **An entry keeps the windows apart.** -/
theorem EcamInit.Windows.initEntry (hs : s.Windows) (hlt : s.regions.length < PCI_MAX_ECAM_REGIONS) :
    (initEntry s i entry).Windows := by
  rw [Dem64.Pci.initEntry]
  by_cases hinv : entry.endBus < entry.startBus
  · dsimp only
    rw [if_pos hinv]
    exact ⟨hs.length_le, hs.bounded, hs.disjoint, hs.mapped, hs.next⟩
  · have hle : entry.startBus ≤ entry.endBus := by
      rw [BitVec.lt_def] at hinv
      rw [BitVec.le_def]
      omega
    have hbuses := toNat_buses hle
    have hend := entry.endBus.isLt
    have hbase : PCI_BASE.toNat = 0xffffa010e0000000 := rfl
    have hmax : PCI_MAX_ECAM_REGIONS = 32 := rfl
    have hnext := hs.next
    have hpages : ((entry.endBus.setWidth 64 - entry.startBus.setWidth 64 + 1 : BitVec 64) <<< 8).toNat =
        (entry.endBus.toNat + 1 - entry.startBus.toNat) * 2 ^ 8 := by
      rw [BitVec.toNat_shiftLeft, hbuses, Nat.shiftLeft_eq]
      omega
    have hvirtual : (s.virtualBase +
        (((entry.endBus.setWidth 64 - entry.startBus.setWidth 64 + 1 : BitVec 64) <<< 8) <<< 12)).toNat =
        s.virtualBase.toNat + (entry.endBus.toNat + 1 - entry.startBus.toNat) * 2 ^ 20 := by
      rw [BitVec.toNat_add, BitVec.toNat_shiftLeft, hpages, Nat.shiftLeft_eq]
      omega
    dsimp only
    rw [if_neg hinv]
    refine ⟨?_, fun r hr => ?_, ?_, ?_, ?_⟩
    · rw [List.length_append, List.length_singleton]
      exact hlt
    · dsimp only
      rw [hvirtual]
      rcases List.mem_append.mp hr with hr | hr
      · obtain ⟨h1, h2, h3⟩ := hs.bounded r hr
        exact ⟨h1, h2, by omega⟩
      · obtain rfl := List.mem_singleton.mp hr
        exact ⟨hle, hnext.1, Nat.le_refl _⟩
    · refine List.pairwise_append.mpr ⟨hs.disjoint, List.pairwise_singleton _ _, fun r hr r' hr' => ?_⟩
      obtain rfl := List.mem_singleton.mp hr'
      exact (hs.bounded r hr).2.2
    · refine List.rel_append hs.mapped (.cons ⟨rfl, ?_⟩ .nil)
      rw [hpages]
      show _ = (entry.endBus.toNat + 1 - entry.startBus.toNat) * 2 ^ 20
      omega
    · dsimp only
      rw [hvirtual, List.length_append, List.length_singleton]
      omega

/-- **The loop keeps the windows apart.** -/
theorem EcamInit.Windows.initLoop (hs : s.Windows) : (initLoop mcfg n i s).Windows := by
  induction n generalizing i s with
  | zero => exact hs
  | succ n ih =>
    rw [Dem64.Pci.initLoop]
    split
    next hlt => exact ih (hs.initEntry hlt)
    next => exact hs

theorem EcamInit.Windows.empty : EcamInit.Windows {} := by
  refine ⟨Nat.zero_le _, fun r hr => absurd hr List.not_mem_nil, .nil, .nil, Nat.le_refl _, Nat.le_refl _⟩

/-- The loop reads the entries in its range only. -/
theorem mem_read_initLoop {j : Nat} (h : j ∈ (initLoop mcfg n i s).read) : j ∈ s.read ∨ i ≤ j ∧ j < i + n := by
  induction n generalizing i s with
  | zero => exact .inl h
  | succ n ih =>
    rw [initLoop] at h
    split at h
    · have hentry : (Dem64.Pci.initEntry s i (mcfgEntry mcfg i)).read = s.read ++ [i] := by
        rw [initEntry]
        dsimp only
        split <;> rfl
      rcases ih h with h | h
      · rw [hentry, List.mem_append, List.mem_singleton] at h
        rcases h with h | rfl
        · exact .inl h
        · exact .inr ⟨Nat.le_refl j, by omega⟩
      · exact .inr ⟨by omega, by omega⟩
    · exact .inl h

end

/-! ## Accesses -/

section

variable {regions : List PciEcamRegion} {region region' : PciEcamRegion} {address address' : PciAddress}
  {offset : BitVec 16} {size : BitVec 8} {s : EcamInit}

/-- `n` bytes at `a` are in the 4 KiB of the function, in the window of a region that has the bus. -/
structure InFunction (regions : List PciEcamRegion) (address : PciAddress) (a : BitVec 64) (n : Nat)
    (region : PciEcamRegion) : Prop where
  device : address.device.toNat < 32
  function : address.function.toNat < 8
  mem : region ∈ regions
  found : findEcamRegion regions address.segment address.bus = some region
  segment : region.segment = address.segment
  bus : region.startBus ≤ address.bus ∧ address.bus ≤ region.endBus
  inside : region.functionBase address ≤ a.toNat ∧ a.toNat + n ≤ region.functionBase address + 4096
  window : region.virtualBase.toNat ≤ region.functionBase address ∧
    region.functionBase address + 4096 ≤ region.virtualBase.toNat + region.size

/-- What an access of a function asks of memory. -/
def AsksInFunction (regions : List PciEcamRegion) (address : PciAddress) : PciOp → Prop
  | .load a n => ∃ region, InFunction regions address a n region
  | .store a n _ => ∃ region, InFunction regions address a n region
  | _ => True

/-- **The pointer of a valid access is in the function.** -/
theorem EcamInit.Windows.inFunction (hs : s.Windows)
    (hfind : findEcamRegion s.regions address.segment address.bus = some region)
    (hv : ValidAccess address offset size PCI_CONFIG_PCIE_SIZE) :
    InFunction s.regions address (ecamPointer region address offset) size.toNat region := by
  have hmem := List.mem_of_find?_eq_some hfind
  have htest := List.find?_some hfind
  simp only [decide_eq_true_eq] at htest
  obtain ⟨hsegment, hstart, hend⟩ := htest
  obtain ⟨hd, hf⟩ := hv.toNat
  have hconfig : offset.toNat + size.toNat ≤ 4096 := hv.2.2.2.1
  obtain ⟨-, -, hbound⟩ := hs.bounded region hmem
  have hnext := hs.next
  have hlt := s.virtualBase.isLt
  have hstart' := BitVec.le_def.mp hstart
  have hend' := BitVec.le_def.mp hend
  have hsub := @sub_ecamPointer _ offset _ hstart
  have hbase := region.virtualBase.isLt
  have hptr := (ecamPointer region address offset).isLt
  have hvalue : (ecamPointer region address offset).toNat = region.functionBase address + offset.toNat := by
    rw [BitVec.toNat_sub] at hsub
    rw [PciEcamRegion.size] at hbound
    rw [PciEcamRegion.functionBase]
    omega
  rw [PciEcamRegion.size] at hbound
  refine ⟨hd, hf, hmem, hfind, hsegment, ⟨hstart, hend⟩, ⟨by omega, by omega⟩, ?_⟩
  rw [PciEcamRegion.functionBase, PciEcamRegion.size]
  omega

theorem asks_pciConfigRead (hs : s.Windows) (valueGiven : Bool) :
    (pciConfigRead s.regions address offset size valueGiven).Asks (AsksInFunction s.regions address) := by
  rw [pciConfigRead]
  split
  · trivial
  · split
    next region hfind =>
      split
      · trivial
      next hv => exact ⟨⟨region, hs.inFunction hfind (not_not.mp hv)⟩, fun _ => trivial⟩
    next =>
      split
      · trivial
      · refine ⟨trivial, fun _ => ⟨trivial, fun _ => ⟨trivial, fun _ => ⟨trivial, fun _ => ?_⟩⟩⟩⟩
        split
        · trivial
        · split <;> trivial

theorem asks_pciConfigWrite (hs : s.Windows) (value : BitVec 32) :
    (pciConfigWrite s.regions address offset size value).Asks (AsksInFunction s.regions address) := by
  rw [pciConfigWrite]
  split
  next region hfind =>
    split
    · trivial
    next hv => exact ⟨⟨region, hs.inFunction hfind (not_not.mp hv)⟩, fun _ => trivial⟩
  next =>
    split
    · trivial
    · refine ⟨trivial, fun _ => ⟨trivial, fun _ => ?_⟩⟩
      dsimp only
      split
      · exact ⟨trivial, fun _ => ⟨trivial, fun _ => trivial⟩⟩
      · exact ⟨trivial, fun _ => ⟨trivial, fun _ => ⟨trivial, fun _ => trivial⟩⟩⟩

/-- Two windows have no byte in common. -/
def Apart (r r' : PciEcamRegion) : Prop :=
  r.virtualBase.toNat + r.size ≤ r'.virtualBase.toNat ∨ r'.virtualBase.toNat + r'.size ≤ r.virtualBase.toNat

instance : Std.Symm Apart := ⟨fun _ _ h => h.symm⟩

theorem EcamInit.Windows.apart (hs : s.Windows) (hr : region ∈ s.regions) (hr' : region' ∈ s.regions)
    (hne : region ≠ region') : Apart region region' :=
  (hs.disjoint.imp (S := Apart) Or.inl).forall hr hr' hne

/-- **Two functions share no byte.** -/
theorem EcamInit.Windows.functions_apart (hs : s.Windows) {a a' : BitVec 64} {n n' : Nat} (hne : address ≠ address')
    (h : InFunction s.regions address a n region) (h' : InFunction s.regions address' a' n' region') :
    a.toNat + n ≤ a'.toNat ∨ a'.toNat + n' ≤ a.toNat := by
  have hin := h.inside
  have hin' := h'.inside
  by_cases hregion : region = region'
  · subst hregion
    have hb := BitVec.le_def.mp h.bus.1
    have hb' := BitVec.le_def.mp h'.bus.1
    have hd := h.device
    have hd' := h'.device
    have hf := h.function
    have hf' := h'.function
    have hplace : address.bus.toNat ≠ address'.bus.toNat ∨ address.device.toNat ≠ address'.device.toNat ∨
        address.function.toNat ≠ address'.function.toNat := by
      by_contra hall
      obtain ⟨h1, h2, h3⟩ : address.bus.toNat = address'.bus.toNat ∧
          address.device.toNat = address'.device.toNat ∧ address.function.toNat = address'.function.toNat := by
        omega
      apply hne
      have hsegment := h.segment.symm.trans h'.segment
      cases address
      cases address'
      simp only [PciAddress.mk.injEq]
      exact ⟨hsegment, BitVec.eq_of_toNat_eq h1, BitVec.eq_of_toNat_eq h2, BitVec.eq_of_toNat_eq h3⟩
    rw [PciEcamRegion.functionBase] at hin hin'
    omega
  · have hw := h.window
    have hw' := h'.window
    rcases hs.apart h.mem h'.mem hregion with hapart | hapart
    · exact .inl (by omega)
    · exact .inr (by omega)

/-! ## All tables -/

theorem windows_pciInit (mcfg : Option (Nat → BitVec 8)) : (pciInit mcfg).Windows := by
  have hloop : ∀ s : EcamInit, s.Windows →
      (if s.regions.length = 0 then { s with busCount := 256 } else s).Windows := by
    intro s hs
    split
    · exact ⟨hs.length_le, hs.bounded, hs.disjoint, hs.mapped, hs.next⟩
    · exact hs
  apply hloop
  cases mcfg with
  | none => exact .empty
  | some mcfg =>
    dsimp only
    split
    · exact EcamInit.Windows.empty.initLoop
    · exact .empty

/-- What `pci_init` leaves, and what the accesses make of it. -/
structure EcamRight (mcfg : Option (Nat → BitVec 8)) (s : EcamInit) : Prop where
  inside : ∀ bytes, mcfg = some bytes → ∀ i ∈ s.read, 44 + 16 * i + 16 ≤ mcfgLength bytes
  count : s.regions.length ≤ 32
  between : ∀ r ∈ s.regions,
    PCI_BASE.toNat ≤ r.virtualBase.toNat ∧ r.virtualBase.toNat + r.size ≤ DMA_BASE.toNat
  disjoint : s.regions.Pairwise Apart
  mapped : List.Forall₂ (fun r m => m.virtualBase = r.virtualBase ∧ m.pages.toNat * 4096 = r.size) s.regions s.mappings
  reads : ∀ address offset size valueGiven,
    (pciConfigRead s.regions address offset size valueGiven).Asks (AsksInFunction s.regions address)
  writes : ∀ address offset size value,
    (pciConfigWrite s.regions address offset size value).Asks (AsksInFunction s.regions address)
  apart : ∀ address address' region region' a a' n n', address ≠ address' →
    InFunction s.regions address a n region → InFunction s.regions address' a' n' region' →
      a.toNat + n ≤ a'.toNat ∨ a'.toNat + n' ≤ a.toNat

/-- **ECAM windows**: whatever the MCFG table says. -/
theorem pciInit_ecam (mcfg : Option (Nat → BitVec 8)) : EcamRight mcfg (pciInit mcfg) := by
  have hs := windows_pciInit mcfg
  refine ⟨?_, hs.length_le, fun r hr => ?_, hs.disjoint.imp Or.inl, hs.mapped,
    fun _ _ _ valueGiven => asks_pciConfigRead hs valueGiven, fun _ _ _ value => asks_pciConfigWrite hs value,
    fun _ _ _ _ _ _ _ _ hne h h' => hs.functions_apart hne h h'⟩
  · rintro bytes rfl i hi
    rw [pciInit] at hi
    split at hi
    next hlength =>
      have hread : i ∈ (initLoop bytes ((mcfgLength bytes - 44) / 16) 0 {}).read := by
        split at hi
        · exact hi
        · exact hi
      rcases mem_read_initLoop hread with h | h
      · exact absurd h List.not_mem_nil
      · omega
    next =>
      split at hi
      · exact absurd hi List.not_mem_nil
      · exact absurd hi List.not_mem_nil
  · obtain ⟨-, h1, h2⟩ := hs.bounded r hr
    have hnext := hs.next
    have hle := hs.length_le
    have hbase : PCI_BASE.toNat = 0xffffa010e0000000 := rfl
    have hdma : DMA_BASE.toNat = 0xffffa0ffc0000000 := rfl
    rw [PCI_MAX_ECAM_REGIONS] at hle
    exact ⟨h1, by omega⟩

end

end Pci

end Dem64
