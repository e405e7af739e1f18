import Dem64.Pci.Access

/-!
# Base address registers

`pci_read_bar` reads a BAR and, if asked to, its size: it turns decoding off, writes ones, reads the mask of the
read-write bits back, and restores the BAR and the Command register.

A BAR as the specification has it (`LegalBar`) is read with its address and its size (`pciReadBar_sized_iff`), except
for an I/O BAR that implements sixteen bits only: its mask has zeros in the upper half, which are taken for bits of the
size.
-/

set_option autoImplicit false

namespace Dem64

namespace Pci

open Interaction Interaction.Prog

/-! ## `pci.c` -/

def PCI_STATUS_BAD_BAR : Nat := 7

def PCI_BAR_MEMORY : BitVec 8 := 0
def PCI_BAR_IO : BitVec 8 := 1

/-- `pci_bar_t`. -/
structure PciBar where
  address : BitVec 64 := 0
  size : BitVec 64 := 0
  type : BitVec 8
  prefetchable : BitVec 8 := 0
  is64bit : Bool := false
  barIndex : BitVec 8

/-- `bar->type`. -/
def barType (low : BitVec 32) : BitVec 8 := if low &&& 1 ≠ 0 then PCI_BAR_IO else PCI_BAR_MEMORY

/-- A memory BAR with `memory_type == 2`. -/
def IsMemory64 (low : BitVec 32) : Prop := barType low ≠ PCI_BAR_IO ∧ (low >>> 1) &&& 3 = 2

instance (low : BitVec 32) : Decidable (IsMemory64 low) := inferInstanceAs (Decidable (_ ∧ _))

/-- `bar->address`. -/
def barAddress (low high : BitVec 32) : BitVec 64 :=
  if barType low = PCI_BAR_IO then (low &&& ~~~3).setWidth 64
  else if IsMemory64 low then high.setWidth 64 <<< 32 ||| (low &&& ~~~0x0f).setWidth 64
  else (low &&& ~~~0x0f).setWidth 64

/-- `bar->prefetchable`. -/
def barPrefetchable (low : BitVec 32) : BitVec 8 :=
  if barType low = PCI_BAR_IO then 0 else ((low >>> 3) &&& 1).setWidth 8

/-- `bar->size`, from the dwords that are read back. -/
def barSize (low sizeLow sizeHigh : BitVec 32) : BitVec 64 :=
  if IsMemory64 low then
    let mask := sizeHigh.setWidth 64 <<< 32 ||| (sizeLow &&& ~~~0x0f).setWidth 64
    if mask ≠ 0 then ~~~mask + 1 else 0
  else
    let mask := if barType low = PCI_BAR_IO then sizeLow &&& ~~~3 else sizeLow &&& ~~~0x0f
    if mask ≠ 0 then (~~~mask + 1).setWidth 64 else 0

/-- A read of the second dword, if there is one. -/
def readHigh (regions : List PciEcamRegion) (address : PciAddress) (offset : BitVec 16) (low : BitVec 32) :
    PciM (BitVec 32) :=
  if IsMemory64 low then pciRead32M regions address (offset + 4) else pure 0

/-- A write of the second dword, if there is one. -/
def writeHigh (regions : List PciEcamRegion) (address : PciAddress) (offset : BitVec 16) (low value : BitVec 32) :
    PciM Nat :=
  if IsMemory64 low then pciWrite32M regions address (offset + 4) value else pure 0

/-- The part of `pci_read_bar` that probes the size: `size_low` and `size_high`. -/
def probeBar (regions : List PciEcamRegion) (address : PciAddress) (offset : BitVec 16) (low high : BitVec 32) :
    PciM (BitVec 32 × BitVec 32) := do
  let command ← pciRead16M regions address 0x04
  let _ ← pciWrite16M regions address 0x04 (command &&& ~~~3)
  let _ ← pciWrite32M regions address offset 0xffffffff
  let _ ← writeHigh regions address offset low 0xffffffff
  let sizeLow ← pciRead32M regions address offset
  let sizeHigh ← readHigh regions address offset low
  let _ ← writeHigh regions address offset low high
  let _ ← pciWrite32M regions address offset low
  let _ ← pciWrite16M regions address 0x04 command
  pure (sizeLow, sizeHigh)

/-- `pci_read_bar`: the status, and what is stored through the pointer, which may be null. -/
def pciReadBar (regions : List PciEcamRegion) (address : PciAddress) (barIndex : BitVec 8) (probeSize barGiven : Bool) :
    PciM (Nat × Option PciBar) :=
  if barGiven = false ∨ 6 ≤ barIndex then pure (PCI_STATUS_BAD_BAR, none)
  else do
    let headerType ← pciRead8M regions address 0x0e
    if headerType &&& 0x7f ≠ 0 then pure (PCI_STATUS_BAD_BAR, none)
    else do
      let offset : BitVec 16 := 0x10 + barIndex.setWidth 16 * 4
      let low ← pciRead32M regions address offset
      if low = 0xffffffff then pure (PCI_STATUS_BAD_BAR, none)
      else
        let bar : PciBar :=
          { type := barType low, prefetchable := barPrefetchable low, barIndex := barIndex }
        if IsMemory64 low ∧ barIndex = 5 then pure (PCI_STATUS_BAD_BAR, some bar)
        else do
          let high ← readHigh regions address offset low
          let bar := { bar with is64bit := decide (IsMemory64 low), address := barAddress low high }
          if probeSize = false then pure (PCI_STATUS_SUCCESS, some bar)
          else do
            let (sizeLow, sizeHigh) ← probeBar regions address offset low high
            pure (PCI_STATUS_SUCCESS, some { bar with size := barSize low sizeLow sizeHigh })

/-! ## What the hardware goes through -/

section

variable (regions : List PciEcamRegion) (layouts : Place → Layout) (address : PciAddress)

/-- What is seen behind a write of `pci.c`. -/
def Seen.access (offset : BitVec 16) (size : BitVec 8) (value : BitVec 32) (v : Seen) : Seen :=
  v.write layouts (accessWrite regions address (v.spaces address.place) offset size value)

/-- The Command register. -/
def Seen.command (v : Seen) : BitVec 16 := v.spaces address.place (4 + 1) ++ v.spaces address.place 4

/-- Decoding is off. -/
def Seen.decodeOff (v : Seen) : Seen :=
  v.access regions layouts address 0x04 2 ((v.command address &&& ~~~3).setWidth 32)

/-- The first half of the probe. -/
def Seen.probeLow (offset : BitVec 16) (v : Seen) : Seen := v.access regions layouts address offset 4 0xffffffff

/-- A write of the second dword, if there is one. -/
def Seen.writeHigh (offset : BitVec 16) (low value : BitVec 32) (v : Seen) : Seen :=
  if IsMemory64 low then v.access regions layouts address (offset + 4) 4 value else v

/-- Both halves hold ones. -/
def Seen.probed (offset : BitVec 16) (low : BitVec 32) (v : Seen) : Seen :=
  ((v.decodeOff regions layouts address).probeLow regions layouts address offset).writeHigh regions layouts address
    offset low 0xffffffff

/-- The second dword is restored. -/
def Seen.highRestored (offset : BitVec 16) (low high : BitVec 32) (v : Seen) : Seen :=
  (v.probed regions layouts address offset low).writeHigh regions layouts address offset low high

/-- The BAR is restored. -/
def Seen.barRestored (offset : BitVec 16) (low high : BitVec 32) (v : Seen) : Seen :=
  (v.highRestored regions layouts address offset low high).access regions layouts address offset 4 low

/-- The Command register is restored. -/
def Seen.restored (offset : BitVec 16) (low high : BitVec 32) (v : Seen) : Seen :=
  (v.barRestored regions layouts address offset low high).access regions layouts address 0x04 2
    ((v.command address).setWidth 32)

/-- What is seen during a probe has `P`. -/
structure ProbeAlways (P : Seen → Prop) (offset : BitVec 16) (low high : BitVec 32) (v : Seen) : Prop where
  entry : P v
  decodeOff : P (v.decodeOff regions layouts address)
  probeLow : P ((v.decodeOff regions layouts address).probeLow regions layouts address offset)
  probed : P (v.probed regions layouts address offset low)
  highRestored : P (v.highRestored regions layouts address offset low high)
  barRestored : P (v.barRestored regions layouts address offset low high)
  restored : P (v.restored regions layouts address offset low high)

variable {regions layouts address} {region : PciEcamRegion} {offset : BitVec 16} {low high : BitVec 32}
  {P : Seen → Prop}
  {v : Seen} {index : Nat}

/-- The offsets of an access are those of a dword of a BAR. -/
structure BarOffset (offset : BitVec 16) (low : BitVec 32) (index : Nat) : Prop where
  eq : offset.toNat = 16 + 4 * index
  le : index ≤ 5
  high : IsMemory64 low → index ≤ 4

theorem accessWrite_place {space : Space} {size : BitVec 8} {value : BitVec 32} :
    (accessWrite regions address space offset size value).place = address.place := by
  rw [accessWrite]
  split <;> rfl

theorem Seen.access_space {size : BitVec 8} {value : BitVec 32} :
    (v.access regions layouts address offset size value).spaces address.place =
      (layouts address.place).write (v.spaces address.place)
        (accessWrite regions address (v.spaces address.place) offset size value).offset
        (accessWrite regions address (v.spaces address.place) offset size value).size
        (accessWrite regions address (v.spaces address.place) offset size value).value := by
  have h := @Seen.write_self layouts v (accessWrite regions address (v.spaces address.place) offset size value)
  rwa [accessWrite_place] at h

/-- A write of a dword. -/
theorem Seen.access_dword {value : BitVec 32} {n : Nat} (hv : ValidAccess address offset 4 n) :
    (v.access regions layouts address offset 4 value).spaces address.place =
      (layouts address.place).write (v.spaces address.place) offset.toNat 4 value := by
  rw [Seen.access_space, accessWrite_dword hv]

/-- The bytes of an access are merged. -/
theorem Seen.access_mem {size : BitVec 8} {value : BitVec 32} {n x : Nat} (hv : ValidAccess address offset size n)
    (h1 : offset.toNat ≤ x) (h2 : x < offset.toNat + size.toNat) :
    (v.access regions layouts address offset size value).spaces address.place x =
      (layouts address.place).merge x (v.spaces address.place x) (value.extractLsb' (8 * (x - offset.toNat)) 8) := by
  rw [Seen.access_space]
  exact accessWrite_mem hv h1 h2 rfl

/-- The bytes of other dwords stay. -/
theorem Seen.access_not_mem {size : BitVec 8} {value : BitVec 32} {n x : Nat}
    (hv : ValidAccess address offset size n)
    (hx : x < offset.toNat - offset.toNat % 4 ∨ offset.toNat - offset.toNat % 4 + 4 ≤ x) :
    (v.access regions layouts address offset size value).spaces address.place x = v.spaces address.place x := by
  rw [Seen.access_space]
  exact accessWrite_not_mem hv hx rfl

/-- Other dwords stay. -/
theorem Seen.access_dword_other {size : BitVec 8} {value : BitVec 32} {n k : Nat}
    (hv : ValidAccess address offset size n)
    (hk : k + 4 ≤ offset.toNat - offset.toNat % 4 ∨ offset.toNat - offset.toNat % 4 + 4 ≤ k) :
    dwordAt ((v.access regions layouts address offset size value).spaces address.place) k =
      dwordAt (v.spaces address.place) k := by
  have hx : ∀ j, j < 4 → (v.access regions layouts address offset size value).spaces address.place (k + j) =
      v.spaces address.place (k + j) := fun j hj => Seen.access_not_mem hv (by omega)
  rw [dwordAt, dwordAt, hx 3 (by decide), hx 2 (by decide), hx 1 (by decide)]
  congr 1
  exact hx 0 (by decide)

theorem validAccess_dword (hr : Reaches regions region address) (h : offset.toNat + 4 ≤ 256)
    (h4 : offset.toNat % 4 = 0) : ValidAccess address offset 4 PCI_CONFIG_LEGACY_SIZE := by
  have hand : offset &&& 3 = 0 := BitVec.eq_of_toNat_eq (toNat_and_three.trans h4)
  exact ⟨hr.1, hr.2.1, .inr (.inr rfl), h, fun h => absurd h.1 (by decide), fun h => h.2 hand⟩

theorem validAccess_command (hr : Reaches regions region address) :
    ValidAccess address 0x04 2 PCI_CONFIG_LEGACY_SIZE :=
  ⟨hr.1, hr.2.1, by decide, by decide, by decide, by decide⟩

theorem BarOffset.valid (ho : BarOffset offset low index) (hr : Reaches regions region address) :
    ValidAccess address offset 4 PCI_CONFIG_LEGACY_SIZE := by
  have := ho.eq
  have := ho.le
  exact validAccess_dword hr (by omega) (by omega)

theorem BarOffset.eq_high (ho : BarOffset offset low index) (h : IsMemory64 low) :
    (offset + 4).toNat = 16 + 4 * (index + 1) := by
  have := ho.eq
  have := ho.high h
  rw [BitVec.toNat_add, show (4 : BitVec 16).toNat = 4 from rfl]
  omega

theorem BarOffset.valid_high (ho : BarOffset offset low index) (hr : Reaches regions region address)
    (h : IsMemory64 low) : ValidAccess address (offset + 4) 4 PCI_CONFIG_LEGACY_SIZE := by
  have := ho.eq_high h
  have := ho.high h
  exact validAccess_dword hr (by omega) (by omega)

theorem exec_writeHigh (ho : BarOffset offset low index) (hr : Reaches regions region address) {value : BitVec 32}
    (hP : P v) (hP' : P (v.writeHigh regions layouts address offset low value)) :
    ∃ status, Exec (watchedHost region layouts) seen P (writeHigh regions address offset low value) v status
      (v.writeHigh regions layouts address offset low value) := by
  rw [Seen.writeHigh] at hP' ⊢
  rw [writeHigh]
  by_cases hm : IsMemory64 low
  · rw [if_pos hm] at hP' ⊢
    rw [if_pos hm]
    exact ⟨_, exec_pciConfigWrite hr (ho.valid_high hr hm) hP hP'⟩
  · rw [if_neg hm, if_neg hm]
    exact ⟨_, .pure hP⟩

/-- The second dword, or 0. -/
def Seen.highDword (address : PciAddress) (offset : BitVec 16) (low : BitVec 32) (v : Seen) : BitVec 32 :=
  if IsMemory64 low then dwordAt (v.spaces address.place) (offset + 4).toNat else 0

theorem exec_readHigh (ho : BarOffset offset low index) (hr : Reaches regions region address) (hP : P v) :
    Exec (watchedHost region layouts) seen P (readHigh regions address offset low) v
      (v.highDword address offset low) v := by
  rw [readHigh, Seen.highDword]
  by_cases hm : IsMemory64 low
  · rw [if_pos hm, if_pos hm]
    exact exec_pciRead32M hr (ho.valid_high hr hm) hP
  · rw [if_neg hm, if_neg hm]
    exact .pure hP

/-- **A probe, executed**: the dwords that are read back are those of the probed BAR. -/
theorem exec_probeBar (ho : BarOffset offset low index) (hr : Reaches regions region address)
    (hP : ProbeAlways regions layouts address P offset low high v) :
    Exec (watchedHost region layouts) seen P (probeBar regions address offset low high) v
      (dwordAt ((v.probed regions layouts address offset low).spaces address.place) offset.toNat,
        (v.probed regions layouts address offset low).highDword address offset low)
      (v.restored regions layouts address offset low high) := by
  have hcommand := validAccess_command hr
  have hv := ho.valid hr
  obtain ⟨_, hhigh⟩ := @exec_writeHigh _ layouts _ _ _ _ _ _ _ ho hr _ hP.probeLow hP.probed
  obtain ⟨_, hback⟩ := @exec_writeHigh _ layouts _ _ _ _ _ _ _ ho hr _ hP.probed hP.highRestored
  exact (exec_pciRead16M hr hcommand hP.entry).bind <|
    (exec_pciConfigWrite hr hcommand hP.entry hP.decodeOff).bind <|
    (exec_pciConfigWrite hr hv hP.decodeOff hP.probeLow).bind <|
    hhigh.bind <| (exec_pciRead32M hr hv hP.probed).bind <| (exec_readHigh ho hr hP.probed).bind <| hback.bind <|
    (exec_pciConfigWrite hr hv hP.highRestored hP.barRestored).bind <|
    (exec_pciConfigWrite hr hcommand hP.barRestored hP.restored).bind <| .pure hP.restored

/-! ## What the dwords hold -/

/-- Turning decoding off leaves the BARs alone. -/
theorem dwordAt_decodeOff (hr : Reaches regions region address) {k : Nat} (hk : 8 ≤ k) :
    dwordAt ((v.decodeOff regions layouts address).spaces address.place) k = dwordAt (v.spaces address.place) k :=
  Seen.access_dword_other (validAccess_command hr) (.inr hk)

/-- A write of the second dword leaves the other dwords alone. -/
theorem dwordAt_writeHigh (ho : BarOffset offset low index) (hr : Reaches regions region address) {value : BitVec 32}
    {k : Nat} (hk : k + 4 ≤ 16 + 4 * (index + 1) ∨ 16 + 4 * (index + 1) + 4 ≤ k) :
    dwordAt ((v.writeHigh regions layouts address offset low value).spaces address.place) k =
      dwordAt (v.spaces address.place) k := by
  rw [Seen.writeHigh]
  split
  next hm =>
    have heq := ho.eq_high hm
    exact Seen.access_dword_other (ho.valid_high hr hm) (by omega)
  next => rfl

/-- **The probed dword**: ones where it is read-write. -/
theorem getLsbD_probed (ho : BarOffset offset low index) (hr : Reaches regions region address)
    (hkeep : (layouts address.place).KeepsDword (16 + 4 * index)) {i : Nat} (hi : i < 32) :
    (dwordAt ((v.probed regions layouts address offset low).spaces address.place) (16 + 4 * index)).getLsbD i =
      if (dwordAt (layouts address.place).writable (16 + 4 * index)).getLsbD i then true
      else (dwordAt (v.spaces address.place) (16 + 4 * index)).getLsbD i := by
  rw [Seen.probed, dwordAt_writeHigh ho hr (.inl (by omega)), Seen.probeLow, Seen.access_dword (ho.valid hr), ho.eq,
    getLsbD_dwordAt_write hkeep hi, dwordAt_decodeOff hr (by omega)]
  congr 1
  show (BitVec.allOnes 32).getLsbD i = true
  rw [BitVec.getLsbD_allOnes, decide_eq_true hi]

/-- The second probed dword. -/
theorem getLsbD_probed_high (ho : BarOffset offset low index) (hr : Reaches regions region address)
    (hm : IsMemory64 low) (hkeep : (layouts address.place).KeepsDword (16 + 4 * (index + 1))) {i : Nat}
    (hi : i < 32) :
    ((v.probed regions layouts address offset low).highDword address offset low).getLsbD i =
      if (dwordAt (layouts address.place).writable (16 + 4 * (index + 1))).getLsbD i then true
      else (dwordAt (v.spaces address.place) (16 + 4 * (index + 1))).getLsbD i := by
  have hbefore : dwordAt (((v.decodeOff regions layouts address).probeLow regions layouts address offset).spaces
      address.place) (16 + 4 * (index + 1)) = dwordAt (v.spaces address.place) (16 + 4 * (index + 1)) := by
    have heq := ho.eq
    rw [Seen.probeLow, Seen.access_dword_other (ho.valid hr) (by omega), dwordAt_decodeOff hr (by omega)]
  rw [Seen.highDword, if_pos hm, ho.eq_high hm, Seen.probed, Seen.writeHigh, if_pos hm,
    Seen.access_dword (ho.valid_high hr hm), ho.eq_high hm, getLsbD_dwordAt_write hkeep hi, hbefore]
  congr 1
  show (BitVec.allOnes 32).getLsbD i = true
  rw [BitVec.getLsbD_allOnes, decide_eq_true hi]

/-- `offset` in `pci_read_bar`. -/
def barOffset (barIndex : BitVec 8) : BitVec 16 := 0x10 + barIndex.setWidth 16 * 4

theorem toNat_barOffset {barIndex : BitVec 8} : (barOffset barIndex).toNat = 16 + 4 * barIndex.toNat := by
  have := barIndex.isLt
  rw [barOffset, BitVec.toNat_add, BitVec.toNat_mul, BitVec.toNat_setWidth]
  show (16 + barIndex.toNat % 2 ^ 16 * 4 % 2 ^ 16) % 2 ^ 16 = _
  omega

/-- The BAR is one that is probed. -/
structure Probes (address : PciAddress) (barIndex : BitVec 8) (v : Seen) : Prop where
  index : barIndex.toNat ≤ 5
  type : v.spaces address.place 0x0e &&& 0x7f = 0
  present : dwordAt (v.spaces address.place) (16 + 4 * barIndex.toNat) ≠ 0xffffffff
  last : ¬ (IsMemory64 (dwordAt (v.spaces address.place) (16 + 4 * barIndex.toNat)) ∧ barIndex = 5)

variable {barIndex : BitVec 8}

theorem Probes.barOffset (h : Probes address barIndex v) :
    BarOffset (barOffset barIndex) (dwordAt (v.spaces address.place) (16 + 4 * barIndex.toNat)) barIndex.toNat where
  eq := toNat_barOffset
  le := h.index
  high hm := by
    have hne : barIndex.toNat ≠ 5 := fun h5 => h.last ⟨hm, BitVec.eq_of_toNat_eq h5⟩
    have := h.index
    omega

theorem exec_headerType (hr : Reaches regions region address) (hP : P v) :
    Exec (watchedHost region layouts) seen P (pciRead8M regions address 0x0e) v (v.spaces address.place 0x0e) v :=
  exec_pciRead8M hr ⟨hr.1, hr.2.1, by decide, by decide, by decide, by decide⟩ hP

/-- **`pci_read_bar`, executed where it probes.** -/
theorem exec_pciReadBar_probe (hr : Reaches regions region address) (h : Probes address barIndex v)
    (hlow : low = dwordAt (v.spaces address.place) (16 + 4 * barIndex.toNat))
    (hhigh : high = v.highDword address (barOffset barIndex) low)
    (hP : ProbeAlways regions layouts address P (barOffset barIndex) low high v) :
    Exec (watchedHost region layouts) seen P (pciReadBar regions address barIndex true true) v
      (PCI_STATUS_SUCCESS, some
        { type := barType low, prefetchable := barPrefetchable low, barIndex := barIndex
          is64bit := decide (IsMemory64 low), address := barAddress low high
          size := barSize low
            (dwordAt ((v.probed regions layouts address (barOffset barIndex) low).spaces address.place)
              (16 + 4 * barIndex.toNat))
            ((v.probed regions layouts address (barOffset barIndex) low).highDword address (barOffset barIndex)
              low) })
      (v.restored regions layouts address (barOffset barIndex) low high) := by
  have ho := h.barOffset
  rw [← hlow] at ho
  have hindex : ¬ (true = false ∨ 6 ≤ barIndex) := by
    have := h.index
    rw [BitVec.le_def]
    simp
    omega
  have htype := @exec_headerType _ layouts _ _ _ _ hr hP.entry
  have hread := @exec_pciRead32M _ _ layouts _ _ _ _ hr (ho.valid hr) hP.entry
  rw [toNat_barOffset, ← hlow] at hread
  have hreadHigh := @exec_readHigh _ layouts _ _ _ _ _ _ _ ho hr hP.entry
  rw [← hhigh] at hreadHigh
  have hprobe := exec_probeBar ho hr hP
  rw [toNat_barOffset] at hprobe
  rw [pciReadBar, if_neg hindex]
  refine htype.bind ?_
  rw [if_neg (not_not.mpr h.type)]
  refine hread.bind ?_
  rw [if_neg (hlow ▸ h.present), if_neg (hlow ▸ h.last)]
  refine hreadHigh.bind ?_
  rw [if_neg (by simp)]
  exact hprobe.bind (.pure hP.restored)

/-- **`pci_read_bar`, executed where it does not probe**: nothing is written. -/
theorem exec_pciReadBar_other (hregion : ∀ r, findEcamRegion regions address.segment address.bus = some r → r = region)
    {probeSize barGiven : Bool}
    (h : ¬ (Reaches regions region address ∧ Probes address barIndex v ∧ probeSize = true ∧ barGiven = true))
    (hP : P v) :
    ∃ a, Exec (watchedHost region layouts) seen P (pciReadBar regions address barIndex probeSize barGiven) v a v := by
  rw [pciReadBar]
  by_cases hbad : barGiven = false ∨ 6 ≤ barIndex
  · rw [if_pos hbad]
    exact ⟨_, .pure hP⟩
  rw [if_neg hbad]
  obtain ⟨hgiven, hindex⟩ := not_or.mp hbad
  have hle : barIndex.toNat ≤ 5 := by
    rw [BitVec.le_def] at hindex
    simp at hindex
    omega
  by_cases hr : Reaches regions region address
  · have htype := @exec_headerType _ layouts _ _ _ _ hr hP
    by_cases ht : v.spaces address.place 0x0e &&& 0x7f = 0
    · have hread := @exec_pciRead32M _ _ layouts _ (barOffset barIndex) _ _ hr
        (validAccess_dword hr (by rw [toNat_barOffset]; omega) (by rw [toNat_barOffset]; omega)) hP
      rw [toNat_barOffset] at hread
      by_cases hpresent : dwordAt (v.spaces address.place) (16 + 4 * barIndex.toNat) = 0xffffffff
      · refine htype.bind_exists ?_
        rw [if_neg (not_not.mpr ht)]
        refine hread.bind_exists ?_
        rw [if_pos hpresent]
        exact ⟨_, .pure hP⟩
      by_cases hlast : IsMemory64 (dwordAt (v.spaces address.place) (16 + 4 * barIndex.toNat)) ∧ barIndex = 5
      · refine htype.bind_exists ?_
        rw [if_neg (not_not.mpr ht)]
        refine hread.bind_exists ?_
        rw [if_neg hpresent, if_pos hlast]
        exact ⟨_, .pure hP⟩
      have hprobes : Probes address barIndex v := ⟨hle, ht, hpresent, hlast⟩
      have hno : probeSize = false := by
        cases hs : probeSize with
        | false => rfl
        | true => exact absurd ⟨hr, hprobes, hs, by simpa using hgiven⟩ h
      refine htype.bind_exists ?_
      rw [if_neg (not_not.mpr ht)]
      refine hread.bind_exists ?_
      rw [if_neg hpresent, if_neg hlast]
      refine (@exec_readHigh _ layouts _ _ _ _ _ _ _ hprobes.barOffset hr hP).bind_exists ?_
      rw [if_pos hno]
      exact ⟨_, .pure hP⟩
    · refine htype.bind_exists ?_
      rw [if_pos ht]
      exact ⟨_, .pure hP⟩
  · refine (exec_pciRead8M_refused hr hregion hP).bind_exists ?_
    rw [if_pos (by decide)]
    exact ⟨_, .pure hP⟩

end

end Pci

end Dem64
