import Dem64.Acpi.Tables

/-!
# The I/O APIC that the kernel uses

`kernel_main` looks for the I/O APIC through the RSDP of the boot information, and through the one that
`find_rsdp_legacy` finds when the first is not one or leads to no I/O APIC.  When everything fails it is to use the
usual address.

Where both RSDPs are there and neither leads to an I/O APIC, the usual address goes to the local variable, and `IO_APIC`
keeps its initial 0.  `ioApic_right_iff` says that this is the only case.
-/

set_option autoImplicit false

namespace Dem64.Acpi

open Interaction Interaction.Prog

/-! ## `kernel.cpp` -/

/-- The usual address of the I/O APIC, behind `BASE`. -/
def fallbackIoApic : BitVec 64 := 0xFFFF9000FEC00000

/-- The globals `IO_APIC` and `rsdp_address`. -/
structure KernelAcpi where
  ioApic : BitVec 64 := 0
  rsdpAddress : Nat := 0
deriving DecidableEq

section

variable (memory : Nat → BitVec 8) (fuel : Nat)

/-- `memcmp(sign, "RSD PTR ", 8) == 0` -/
def signed (rsdp : Nat) : Bool := loadBytes memory rsdp 8 = rsdpWord

/-- `rsdp_init(rsdp)` and then `ACPI_discovery("APIC")`. -/
def initAndDiscover (k : KernelAcpi) (rsdp : Nat) : Option (AcpiRet × KernelAcpi) := do
  let ioapic ← (run (tables memory) (acpiDiscovery rsdp MADT_sig fuel) ()).1
  pure (ioapic, { k with rsdpAddress := rsdp })

/-- The branch of the legacy RSDP behind a discovery that failed. -/
def legacyAgain (k : KernelAcpi) : Option KernelAcpi :=
  let legacyRsdp := findRsdpLegacy memory
  if signed memory legacyRsdp then do
    let (ioapic, k) ← initAndDiscover memory fuel k legacyRsdp
    -- here the usual address goes to `ioapic.Address`
    if ioapic.status = 1 then pure k
    else pure { k with ioApic := ioapic.address }
  else pure { k with ioApic := fallbackIoApic }

/-- The branch of the legacy RSDP where the boot information has none. -/
def legacyOnly (k : KernelAcpi) : Option KernelAcpi :=
  let legacyRsdp := findRsdpLegacy memory
  if signed memory legacyRsdp then do
    let (ioapic, k) ← initAndDiscover memory fuel k legacyRsdp
    if ioapic.status = 1 then pure { k with ioApic := fallbackIoApic }
    else pure { k with ioApic := ioapic.address }
  else pure { k with ioApic := fallbackIoApic }

/-- `kernel_main` from the validation of the RSDP up to `create_mapping(IO_APIC, ...)`; `rsdp` is `info64->rsdp`. -/
def kernelIoApic (rsdp : BitVec 64) : Option KernelAcpi :=
  let bootRsdp := (rsdp + baseWord).toNat
  if signed memory bootRsdp then do
    let (ioapic, k) ← initAndDiscover memory fuel {} bootRsdp
    if ioapic.status = 1 then legacyAgain memory fuel k
    else pure { k with ioApic := ioapic.address }
  else legacyOnly memory fuel {}

end

/-! ## What the walks find -/

section

variable (memory : Nat → BitVec 8)

/-- The first MADT that the RSDP leads to has an I/O APIC record. -/
def LeadsToIoApic (rsdp : Nat) : Prop :=
  ∃ madt offset, findTable memory MADT_sig (walkedTables memory rsdp) = some madt ∧ FirstIoApic memory madt offset

variable {memory} {rsdp fuel : Nat} {k : KernelAcpi}

/-- `ACPI_discovery` with the fuel that it needs. -/
theorem initAndDiscover_eq (hfuel : 2 ^ 32 ≤ fuel) : initAndDiscover memory fuel k rsdp =
    some (discovered memory MADT_sig (walkedTables memory rsdp), { k with rsdpAddress := rsdp }) := by
  rw [initAndDiscover, run_acpiDiscovery hfuel, entriesRun_eq hfuel]
  rfl

theorem status_discovered :
    (discovered memory MADT_sig (walkedTables memory rsdp)).status = 1 ↔ ¬ LeadsToIoApic memory rsdp := by
  rw [(discovered_madt _).2]
  constructor
  · rintro hnone ⟨madt, offset, hmadt, hfirst⟩
    exact hnone madt hmadt offset hfirst
  · intro hnone madt hmadt offset hfirst
    exact hnone ⟨madt, offset, hmadt, hfirst⟩

/-- An address of an I/O APIC lies behind `BASE`. -/
theorem ioApicAddress_ne_zero (madt offset : Nat) : ioApicAddress memory madt offset ≠ 0 := by
  intro h
  have hlt := @bytesValue_lt memory (madt + (offset + 4)) 4
  have hzero := congrArg BitVec.toNat h
  have hbase : baseWord.toNat = 0xffff900000000000 := rfl
  have hnat : (0 : BitVec 64).toNat = 0 := rfl
  rw [ioApicAddress, loadBytes, BitVec.toNat_add, BitVec.toNat_ofNat, hbase, hnat] at hzero
  omega

/-- A walk that leads to an I/O APIC. -/
theorem discovered_ioApic (h : LeadsToIoApic memory rsdp) :
    (discovered memory MADT_sig (walkedTables memory rsdp)).status = 0 ∧
      (discovered memory MADT_sig (walkedTables memory rsdp)).address ≠ 0 := by
  obtain ⟨madt, offset, hmadt, hfirst⟩ := h
  obtain ⟨hstatus, haddress⟩ := (discovered_madt _).1 madt offset hmadt hfirst
  refine ⟨hstatus, ?_⟩
  rw [haddress]
  exact ioApicAddress_ne_zero madt offset

end

/-! ## When `IO_APIC` is right -/

section

variable (memory : Nat → BitVec 8)

/-- `IO_APIC` is what the discovery found from the RSDP in use, or the usual address, and not 0. -/
def KernelAcpi.Right (k : KernelAcpi) : Prop :=
  ((∃ r, Returns memory k.rsdpAddress MADT_sig r ∧ r.status = 0 ∧ k.ioApic = r.address) ∨
    k.ioApic = fallbackIoApic) ∧ k.ioApic ≠ 0

/-- The kernel comes to `create_mapping`, with the right `IO_APIC`. -/
def IoApicRight (rsdp : BitVec 64) : Prop :=
  ∃ k, (∃ N, ∀ fuel, N ≤ fuel → kernelIoApic memory fuel rsdp = some k) ∧ k.Right memory

/-- Both RSDPs are there, and neither leads to an I/O APIC. -/
def BothFail (rsdp : BitVec 64) : Prop :=
  (signed memory (rsdp + baseWord).toNat = true ∧ ¬ LeadsToIoApic memory (rsdp + baseWord).toNat) ∧
    signed memory (findRsdpLegacy memory) = true ∧ ¬ LeadsToIoApic memory (findRsdpLegacy memory)

variable {memory} {rsdp : BitVec 64} {k : KernelAcpi}

theorem right_fallback (a : Nat) : KernelAcpi.Right memory ⟨fallbackIoApic, a⟩ := by
  have hne : fallbackIoApic ≠ 0 := by decide
  exact ⟨.inr rfl, hne⟩

theorem right_discovered {a : Nat} (h : LeadsToIoApic memory a) : KernelAcpi.Right memory
    ⟨(discovered memory MADT_sig (walkedTables memory a)).address, a⟩ := by
  obtain ⟨hstatus, hne⟩ := discovered_ioApic h
  exact ⟨.inl ⟨_, (returns_iff_walked _).mpr rfl, hstatus, rfl⟩, hne⟩

/-- Where the boot information has no RSDP, each branch sets `IO_APIC`. -/
theorem legacyOnly_right : ∃ k', (∀ fuel, 2 ^ 32 ≤ fuel → legacyOnly memory fuel k = some k') ∧ k'.Right memory := by
  by_cases hsigned : signed memory (findRsdpLegacy memory) = true
  · by_cases hleads : LeadsToIoApic memory (findRsdpLegacy memory)
    · refine ⟨_, fun fuel hfuel => ?_, right_discovered hleads⟩
      rw [legacyOnly, initAndDiscover_eq hfuel]
      simp [hsigned, status_discovered, hleads]
    · refine ⟨_, fun fuel hfuel => ?_, right_fallback (findRsdpLegacy memory)⟩
      rw [legacyOnly, initAndDiscover_eq hfuel]
      simp [hsigned, status_discovered, hleads]
  · refine ⟨_, fun fuel hfuel => ?_, right_fallback k.rsdpAddress⟩
    simp [legacyOnly, hsigned]

/-- Behind a discovery that failed, the branch of a second failure leaves it as it is. -/
theorem legacyAgain_fails (hsigned : signed memory (findRsdpLegacy memory) = true)
    (hleads : ¬ LeadsToIoApic memory (findRsdpLegacy memory)) {fuel : Nat} (hfuel : 2 ^ 32 ≤ fuel) :
    legacyAgain memory fuel k = some { k with rsdpAddress := findRsdpLegacy memory } := by
  rw [legacyAgain, initAndDiscover_eq hfuel]
  simp [hsigned, status_discovered, hleads]

/-- The other branches set it. -/
theorem legacyAgain_right
    (h : ¬ (signed memory (findRsdpLegacy memory) = true ∧ ¬ LeadsToIoApic memory (findRsdpLegacy memory))) :
    ∃ k', (∀ fuel, 2 ^ 32 ≤ fuel → legacyAgain memory fuel k = some k') ∧ k'.Right memory := by
  by_cases hsigned : signed memory (findRsdpLegacy memory) = true
  · have hleads : LeadsToIoApic memory (findRsdpLegacy memory) := by
      by_contra hleads
      exact h ⟨hsigned, hleads⟩
    refine ⟨_, fun fuel hfuel => ?_, right_discovered hleads⟩
    rw [legacyAgain, initAndDiscover_eq hfuel]
    simp [hsigned, status_discovered, hleads]
  · refine ⟨_, fun fuel hfuel => ?_, right_fallback k.rsdpAddress⟩
    simp [legacyAgain, hsigned]

/-- The kernel with the fuel that it needs. -/
theorem ioApicRight_iff_of_run {k : KernelAcpi} (hrun : ∀ fuel, 2 ^ 32 ≤ fuel → kernelIoApic memory fuel rsdp = some k) :
    IoApicRight memory rsdp ↔ k.Right memory := by
  constructor
  · rintro ⟨k', ⟨N, hN⟩, hright⟩
    have heq := hN (max N (2 ^ 32)) (Nat.le_max_left _ _)
    rw [hrun _ (Nat.le_max_right _ _)] at heq
    exact Option.some.inj heq ▸ hright
  · exact fun hright => ⟨k, ⟨2 ^ 32, hrun⟩, hright⟩

/-- The boot RSDP has the signature and leads nowhere. -/
theorem kernelIoApic_again {fuel : Nat} (hfuel : 2 ^ 32 ≤ fuel)
    (hsigned : signed memory (rsdp + baseWord).toNat = true) (hleads : ¬ LeadsToIoApic memory (rsdp + baseWord).toNat) :
    kernelIoApic memory fuel rsdp = legacyAgain memory fuel ⟨0, (rsdp + baseWord).toNat⟩ := by
  rw [kernelIoApic, if_pos hsigned, initAndDiscover_eq hfuel, Option.bind_eq_bind, Option.bind_some]
  exact if_pos (status_discovered.mpr hleads)

/-- Where both fail, the kernel goes on with 0. -/
theorem not_ioApicRight_of_bothFail (h : BothFail memory rsdp) : ¬ IoApicRight memory rsdp := by
  obtain ⟨⟨hsigned, hleads⟩, hsigned', hleads'⟩ := h
  rw [ioApicRight_iff_of_run fun fuel hfuel =>
    (kernelIoApic_again hfuel hsigned hleads).trans (legacyAgain_fails hsigned' hleads' hfuel)]
  exact fun hright => hright.2 rfl

/-- **`IO_APIC` is right exactly when one of the two trees is missing or leads to an I/O APIC.** -/
theorem ioApic_right_iff (memory : Nat → BitVec 8) (rsdp : BitVec 64) :
    IoApicRight memory rsdp ↔ ¬ BothFail memory rsdp := by
  refine ⟨fun hright hboth => not_ioApicRight_of_bothFail hboth hright, fun hboth => ?_⟩
  by_cases hsigned : signed memory (rsdp + baseWord).toNat = true
  · by_cases hleads : LeadsToIoApic memory (rsdp + baseWord).toNat
    · refine (ioApicRight_iff_of_run fun fuel hfuel => ?_).mpr (right_discovered hleads)
      rw [kernelIoApic, if_pos hsigned, initAndDiscover_eq hfuel, Option.bind_eq_bind, Option.bind_some]
      exact if_neg (status_discovered.not.mpr (not_not.mpr hleads))
    · obtain ⟨k, hk, hright⟩ := @legacyAgain_right memory ⟨0, (rsdp + baseWord).toNat⟩
        fun h => hboth ⟨⟨hsigned, hleads⟩, h⟩
      exact (ioApicRight_iff_of_run fun fuel hfuel =>
        (kernelIoApic_again hfuel hsigned hleads).trans (hk fuel hfuel)).mpr hright
  · obtain ⟨k, hk, hright⟩ := @legacyOnly_right memory {}
    exact (ioApicRight_iff_of_run fun fuel hfuel => (if_neg hsigned).trans (hk fuel hfuel)).mpr hright

end

/-- Low memory with an RSDP of ACPI 1.0 in the EBDA, whose RSDT lists nothing. -/
def noMadtMemory : Nat → BitVec 8 := fun a =>
  if a = 0x40E then 0xC0 else if a = 0x40F then 0x9F
  else if 0x9FC10 ≤ a ∧ a < 0x9FC18 then rsdpWord.extractLsb' (8 * (a - 0x9FC10)) 8
  else if a = 0x9FC21 then 0x20
  else if a = 0x2004 then 36
  else 0

/-- Without a MADT the kernel maps the I/O APIC at 0, with the RSDP that `stage4` found. -/
theorem not_ioApicRight : ¬ IoApicRight (lowMapped noMadtMemory) 0x9FC10 := by
  have hlegacy : findRsdpLegacy (lowMapped noMadtMemory) = 0xFFFF90000009FC10 := by decide +kernel
  have hnone : ¬ LeadsToIoApic (lowMapped noMadtMemory) 0xFFFF90000009FC10 := by
    rintro ⟨madt, offset, hmadt, -⟩
    have hwalked : walkedTables (lowMapped noMadtMemory) 0xFFFF90000009FC10 = [] := by decide +kernel
    rw [hwalked] at hmadt
    cases hmadt
  refine not_ioApicRight_of_bothFail ⟨⟨by decide +kernel, hnone⟩, ?_⟩
  rw [hlegacy]
  exact ⟨by decide +kernel, hnone⟩

end Dem64.Acpi
