import Dem64.Lib.ByteMemory
import Dem64.Lib.Watched
import Dem64.Pci.Paths

/-!
# Configuration accesses, watched

`pci_read8` to `pci_write32` for a function that one of the two mechanisms reaches.  A watcher of the hardware sees the
configuration spaces and the writes that reach them (`Seen`); an access is one step on what is seen, by either mechanism
(`exec_pciConfigRead`, `exec_pciConfigWrite`).  A function that is not reached reads as ones (`exec_pciRead8_refused`).
-/

set_option autoImplicit false

namespace Dem64

namespace Pci

open Interaction Interaction.Prog

/-! ## `pci.c` -/

section

variable (regions : List PciEcamRegion) (address : PciAddress) (offset : BitVec 16)

/-- `pci_config_read` into a variable that has been initialised. -/
def pciReadOr (size : BitVec 8) (value : BitVec 32) : PciM (BitVec 32) := do
  let (_, stored) ← pciConfigRead regions address offset size true
  pure (stored.getD value)

/-- `pci_read8`. -/
def pciRead8M : PciM (BitVec 8) := do
  let value ← pciReadOr regions address offset 1 0xff
  pure (value.setWidth 8)

/-- `pci_read16`. -/
def pciRead16M : PciM (BitVec 16) := do
  let value ← pciReadOr regions address offset 2 0xffff
  pure (value.setWidth 16)

/-- `pci_read32`. -/
def pciRead32M : PciM (BitVec 32) := pciReadOr regions address offset 4 0xffffffff

/-- `pci_write8`. -/
def pciWrite8M (value : BitVec 8) : PciM Nat := pciConfigWrite regions address offset 1 (value.setWidth 32)

/-- `pci_write16`. -/
def pciWrite16M (value : BitVec 16) : PciM Nat := pciConfigWrite regions address offset 2 (value.setWidth 32)

/-- `pci_write32`. -/
def pciWrite32M (value : BitVec 32) : PciM Nat := pciConfigWrite regions address offset 4 value

end

/-! ## The watched hardware -/

/-- A write of a configuration space. -/
structure ConfigWrite where
  place : Place
  offset : Nat
  size : Nat
  value : BitVec 32
deriving DecidableEq

/-- The writes of an operation. -/
def configWrites (region : PciEcamRegion) : PciOp → Host → List ConfigWrite
  | .outl port value, h =>
    if port = 0xcfc ∧ h.addressRegister.msb = true then
      [⟨selectedPlace h.addressRegister, selectedOffset h.addressRegister, 4, value⟩]
    else []
  | .store a size value, _ => [⟨(windowPlace region a).1, (windowPlace region a).2, size, value⟩]
  | _, _ => []

/-- The hardware, with the writes so far. -/
def watchedHost (region : PciEcamRegion) (layouts : Place → Layout) : Handler PciOp PciAns (Host × List ConfigWrite) :=
  (host region layouts).logging (configWrites region)

/-- What is seen of it. -/
structure Seen where
  spaces : Place → Space
  writes : List ConfigWrite

def seen (s : Host × List ConfigWrite) : Seen := ⟨s.1.spaces, s.2⟩

/-- What is seen behind a write. -/
def Seen.write (layouts : Place → Layout) (v : Seen) (w : ConfigWrite) : Seen where
  spaces := Function.update v.spaces w.place
    ((layouts w.place).write (v.spaces w.place) w.offset w.size w.value)
  writes := v.writes ++ [w]

/-- One of the two mechanisms reaches the function. -/
def Reaches (regions : List PciEcamRegion) (region : PciEcamRegion) (address : PciAddress) : Prop :=
  address.device < 32 ∧ address.function < 8 ∧
    (findEcamRegion regions address.segment address.bus = some region ∨
      findEcamRegion regions address.segment address.bus = none ∧ address.segment = 0)

/-- The write that an access makes: the ports write whole dwords. -/
def accessWrite (regions : List PciEcamRegion) (address : PciAddress) (space : Space) (offset : BitVec 16)
    (size : BitVec 8) (value : BitVec 32) : ConfigWrite :=
  if (findEcamRegion regions address.segment address.bus).isSome then
    ⟨address.place, offset.toNat, size.toNat, value⟩
  else ⟨address.place, offset.toNat - offset.toNat % 4, 4, portDword space offset size value⟩

section

variable {regions : List PciEcamRegion} {region : PciEcamRegion} {layouts : Place → Layout} {address : PciAddress}
  {offset : BitVec 16} {size : BitVec 8} {value : BitVec 32} {P : Seen → Prop} {v : Seen}

/-- A read of the memory of the region is seen by nobody. -/
theorem exec_pciConfigRead_ecam (hfind : findEcamRegion regions address.segment address.bus = some region)
    (hv : ValidAccess address offset size PCI_CONFIG_PCIE_SIZE) (hP : P v) :
    Exec (watchedHost region layouts) seen P (pciConfigRead regions address offset size true) v
      (PCI_STATUS_SUCCESS, some (readAt (v.spaces address.place) offset.toNat size.toNat)) v := by
  rintro ⟨h, l⟩ rfl
  have hlog := run_logging (host region layouts) (configWrites region)
    (pciConfigRead regions address offset size true) h l
  rw [run_read_ecam hfind hv] at hlog
  refine ⟨hlog.1, ?_⟩
  rw [pciConfigRead, if_neg (by decide), hfind]
  dsimp only
  rw [if_neg (not_not.mpr hv), run_bind, load, run_call, always_call_bind, always_pure]
  simp only [watchedHost, Handler.logging, host, configWrites, run_pure, List.append_nil, true_and]
  exact ⟨hP, hP⟩

/-- A read is seen by nobody, whatever the mechanism. -/
theorem exec_pciConfigRead (hr : Reaches regions region address)
    (hv : ValidAccess address offset size PCI_CONFIG_LEGACY_SIZE) (hP : P v) :
    Exec (watchedHost region layouts) seen P (pciConfigRead regions address offset size true) v
      (PCI_STATUS_SUCCESS, some (readAt (v.spaces address.place) offset.toNat size.toNat)) v := by
  obtain ⟨hd, hf, hfind | ⟨hfind, hsegment⟩⟩ := hr
  · exact exec_pciConfigRead_ecam hfind (hv.mono (m := PCI_CONFIG_PCIE_SIZE) (by decide)) hP
  · rintro ⟨h, l⟩ rfl
    have hlog := run_logging (host region layouts) (configWrites region)
      (pciConfigRead regions address offset size true) h l
    rw [run_read_ports hfind hsegment hv] at hlog
    refine ⟨hlog.1, ?_⟩
    have hport : ¬ ((0xcf8 : BitVec 16) = 0xcfc) := by decide
    rw [pciConfigRead, if_neg (by decide), hfind]
    dsimp only
    rw [if_neg (not_or.mpr ⟨not_not.mpr hsegment, not_not.mpr hv⟩)]
    simp only [spinLock, outl, inl, spinUnlock, run_bind, run_call, always_call_bind, watchedHost, Handler.logging,
      host, configWrites, if_true, hport, false_and, if_false, configAddress_msb, and_self, List.append_nil]
    split
    · exact ⟨rfl, hP, hP, hP, hP, hP⟩
    · split
      · exact ⟨rfl, hP, hP, hP, hP, hP⟩
      · exact ⟨rfl, hP, hP, hP, hP, hP⟩

/-- A write is one write of the mechanism. -/
theorem exec_pciConfigWrite (hr : Reaches regions region address)
    (hv : ValidAccess address offset size PCI_CONFIG_LEGACY_SIZE) (hP : P v)
    (hP' : P (v.write layouts (accessWrite regions address (v.spaces address.place) offset size value))) :
    Exec (watchedHost region layouts) seen P (pciConfigWrite regions address offset size value) v PCI_STATUS_SUCCESS
      (v.write layouts (accessWrite regions address (v.spaces address.place) offset size value)) := by
  rintro ⟨h, l⟩ rfl
  have hlog := run_logging (host region layouts) (configWrites region)
    (pciConfigWrite regions address offset size value) h l
  obtain ⟨hd, hf, hfind | ⟨hfind, hsegment⟩⟩ := hr
  · have hve := hv.mono (m := PCI_CONFIG_PCIE_SIZE) (by decide)
    rw [run_write_ecam hfind hve] at hlog
    refine ⟨hlog.1, ?_⟩
    have hwindow := windowPlace_ecamPointer hv.toNat.1 hv.toNat.2 hve.offset_lt (findEcamRegion_some hfind)
    rw [accessWrite, hfind, Option.isSome_some, if_pos rfl] at hP' ⊢
    rw [pciConfigWrite, hfind]
    dsimp only
    rw [if_neg (not_not.mpr hve), run_bind, store, run_call, always_call_bind, always_pure]
    simp only [watchedHost, Handler.logging, host, configWrites, run_pure, hwindow]
    exact ⟨rfl, hP, hP'⟩
  · rw [run_write_ports hfind hsegment hv] at hlog
    refine ⟨hlog.1, ?_⟩
    have hport : ¬ ((0xcf8 : BitVec 16) = 0xcfc) := by decide
    have hport' : ¬ ((0xcfc : BitVec 16) = 0xcf8) := by decide
    rw [accessWrite, hfind, Option.isSome_none, if_neg Bool.false_ne_true, portDword] at hP' ⊢
    rw [pciConfigWrite, hfind]
    dsimp only
    rw [if_neg (not_or.mpr ⟨not_not.mpr hsegment, not_not.mpr hv⟩)]
    by_cases h4 : size = 4
    · simp only [if_pos h4] at hP' ⊢
      simp only [spinLock, outl, spinUnlock, run_bind, run_call, always_call_bind, always_pure, watchedHost,
        Handler.logging, host, configWrites, if_true, hport, hport', false_and, if_false, List.append_nil,
        configAddress_msb, and_self, selectedPlace_configAddress hv.toNat.1 hv.toNat.2,
        selectedOffset_configAddress hv.offset_lt, run_pure]
      exact ⟨rfl, hP, hP, hP, hP'⟩
    · simp only [if_neg h4] at hP' ⊢
      simp only [spinLock, outl, inl, spinUnlock, run_bind, run_call, always_call_bind, always_pure, watchedHost,
        Handler.logging, host, configWrites, if_true, hport, hport', false_and, if_false, List.append_nil,
        configAddress_msb, and_self, selectedPlace_configAddress hv.toNat.1 hv.toNat.2,
        selectedOffset_configAddress hv.offset_lt, run_pure]
      exact ⟨rfl, hP, hP, hP, hP, hP'⟩

/-! ## The accesses of `pci.c` -/

theorem exec_pciReadOr (hr : Reaches regions region address)
    (hv : ValidAccess address offset size PCI_CONFIG_LEGACY_SIZE) (hP : P v) :
    Exec (watchedHost region layouts) seen P (pciReadOr regions address offset size value) v
      (readAt (v.spaces address.place) offset.toNat size.toNat) v :=
  (exec_pciConfigRead hr hv hP).bind (.pure hP)

theorem exec_pciRead8M (hr : Reaches regions region address)
    (hv : ValidAccess address offset 1 PCI_CONFIG_LEGACY_SIZE) (hP : P v) :
    Exec (watchedHost region layouts) seen P (pciRead8M regions address offset) v
      (v.spaces address.place offset.toNat) v := by
  have hbyte : (readAt (v.spaces address.place) offset.toNat 1).setWidth 8 =
      v.spaces address.place offset.toNat := by
    rw [readAt, if_pos rfl, BitVec.setWidth_setWidth_of_le _ (by decide), BitVec.setWidth_eq]
  rw [← hbyte]
  exact (exec_pciReadOr hr hv hP).bind (.pure hP)

theorem exec_pciRead16M (hr : Reaches regions region address)
    (hv : ValidAccess address offset 2 PCI_CONFIG_LEGACY_SIZE) (hP : P v) :
    Exec (watchedHost region layouts) seen P (pciRead16M regions address offset) v
      (v.spaces address.place (offset.toNat + 1) ++ v.spaces address.place offset.toNat) v := by
  have hword : (readAt (v.spaces address.place) offset.toNat 2).setWidth 16 =
      v.spaces address.place (offset.toNat + 1) ++ v.spaces address.place offset.toNat := by
    rw [readAt, if_neg (by decide), if_pos rfl, BitVec.setWidth_setWidth_of_le _ (by decide), BitVec.setWidth_eq]
  rw [← hword]
  exact (exec_pciReadOr hr hv hP).bind (.pure hP)

theorem exec_pciRead32M (hr : Reaches regions region address)
    (hv : ValidAccess address offset 4 PCI_CONFIG_LEGACY_SIZE) (hP : P v) :
    Exec (watchedHost region layouts) seen P (pciRead32M regions address offset) v
      (dwordAt (v.spaces address.place) offset.toNat) v :=
  exec_pciReadOr hr hv hP

/-- A function that is not reached is not asked. -/
theorem pciConfigRead_refused (hr : ¬ Reaches regions region address)
    (hregion : ∀ r, findEcamRegion regions address.segment address.bus = some r → r = region) :
    pciConfigRead regions address offset size true = pure (PCI_STATUS_INVALID_ADDRESS, none) := by
  rw [pciConfigRead, if_neg (by decide)]
  cases hfind : findEcamRegion regions address.segment address.bus with
  | some r =>
    obtain rfl := hregion r hfind
    exact if_pos fun hv => hr ⟨hv.1, hv.2.1, .inl hfind⟩
  | none =>
    refine if_pos ?_
    by_cases hs : address.segment = 0
    · exact .inr fun hv => hr ⟨hv.1, hv.2.1, .inr ⟨hfind, hs⟩⟩
    · exact .inl hs

/-- Its variable keeps the value it has been initialised with. -/
theorem exec_pciReadOr_refused (hr : ¬ Reaches regions region address)
    (hregion : ∀ r, findEcamRegion regions address.segment address.bus = some r → r = region) (hP : P v) :
    Exec (watchedHost region layouts) seen P (pciReadOr regions address offset size value) v value v := by
  rw [pciReadOr, pciConfigRead_refused hr hregion]
  exact .pure hP

/-- A function that is not reached reads as ones. -/
theorem exec_pciRead8M_refused (hr : ¬ Reaches regions region address)
    (hregion : ∀ r, findEcamRegion regions address.segment address.bus = some r → r = region) (hP : P v) :
    Exec (watchedHost region layouts) seen P (pciRead8M regions address offset) v 0xff v :=
  (exec_pciReadOr_refused hr hregion hP).bind (.pure hP)

/-! ## What a write does to the spaces -/

/-- A write of a dword is the same by both mechanisms. -/
theorem accessWrite_dword {space : Space} {n : Nat} (hv : ValidAccess address offset 4 n) :
    accessWrite regions address space offset 4 value = ⟨address.place, offset.toNat, 4, value⟩ := by
  have haligned := hv.aligned.2.2 rfl
  rw [accessWrite, portDword, if_pos rfl, haligned]
  split <;> rfl

theorem Seen.write_self {w : ConfigWrite} :
    (v.write layouts w).spaces w.place =
      (layouts w.place).write (v.spaces w.place) w.offset w.size w.value := Function.update_self _ _ _

/-- The bytes of an access are merged with the value, by both mechanisms. -/
theorem accessWrite_mem {layout : Layout} {space : Space} {n x : Nat} (hv : ValidAccess address offset size n)
    (h1 : offset.toNat ≤ x) (h2 : x < offset.toNat + size.toNat) {w : ConfigWrite}
    (hw : accessWrite regions address space offset size value = w) :
    layout.write space w.offset w.size w.value x =
      layout.merge x (space x) (value.extractLsb' (8 * (x - offset.toNat)) 8) := by
  subst hw
  have hle := hv.aligned.1
  rw [accessWrite]
  split
  · exact if_pos ⟨h1, h2⟩
  · rw [Layout.write, if_pos (by dsimp only; omega), portDword]
    dsimp only
    congr 1
    split
    next h4 =>
      subst h4
      rw [hv.aligned.2.2 rfl]
      rfl
    next h4 =>
      rw [byte_mergedDword hv h4 (by omega), if_pos (by omega)]
      congr 1
      omega

/-- Nothing outside the dword changes. -/
theorem accessWrite_not_mem {layout : Layout} {space : Space} {n x : Nat} (hv : ValidAccess address offset size n)
    (hx : x < offset.toNat - offset.toNat % 4 ∨ offset.toNat - offset.toNat % 4 + 4 ≤ x) {w : ConfigWrite}
    (hw : accessWrite regions address space offset size value = w) :
    layout.write space w.offset w.size w.value x = space x := by
  subst hw
  have hle := hv.aligned.1
  rw [accessWrite]
  split
  · exact if_neg (by dsimp only; omega)
  · exact if_neg (by dsimp only; omega)

end

/-! ## Dwords -/

section

variable {layout : Layout} {space : Space} {offset k n i : Nat} {value : BitVec 32}

theorem getLsbD_dwordAt (hi : i < 32) :
    (dwordAt space offset).getLsbD i = (space (offset + i / 8)).getLsbD (i % 8) :=
  ByteMemory.getLsbD_load32 hi

/-- The dword has no bits that a one clears. -/
def Layout.KeepsDword (layout : Layout) (offset : Nat) : Prop :=
  ∀ j, j < 4 → layout.cleared (offset + j) = 0

/-- **A write of a dword sets its read-write bits.** -/
theorem getLsbD_dwordAt_write (hkeep : layout.KeepsDword offset) (hi : i < 32) :
    (dwordAt (layout.write space offset 4 value) offset).getLsbD i =
      if (dwordAt layout.writable offset).getLsbD i then value.getLsbD i
      else (dwordAt space offset).getLsbD i := by
  rw [getLsbD_dwordAt hi, getLsbD_dwordAt hi, getLsbD_dwordAt hi, Layout.write, if_pos (by omega), Layout.merge,
    hkeep (i / 8) (by omega), Nat.add_sub_cancel_left]
  have hbit : (value.extractLsb' (8 * (i / 8)) 8).getLsbD (i % 8) = value.getLsbD i := by
    rw [BitVec.getLsbD_extractLsb', decide_eq_true (Nat.mod_lt i (by decide)), Bool.true_and, Nat.div_add_mod]
  have hlt : i % 8 < 8 := Nat.mod_lt i (by decide)
  simp only [BitVec.getLsbD_or, BitVec.getLsbD_and, BitVec.getLsbD_not, hbit, hlt, decide_true, Bool.true_and]
  cases (layout.writable (offset + i / 8)).getLsbD (i % 8) <;> simp

end

end Pci

end Dem64
