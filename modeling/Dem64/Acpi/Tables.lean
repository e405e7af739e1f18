import Dem64.Acpi.Rsdp
import Dem64.Lib.Chain
import Dem64.Lib.Interaction
import Mathlib.Tactic.IntervalCases

/-!
# The tables of the firmware

`ACPI_discovery` (`acpi.c`) goes from the RSDP to the RSDT or the XSDT, takes the first table there with the signature
that is asked for, and reads what the kernel needs of it: the address of an I/O APIC, a timer, or the table itself.

Every table has its length in its header.  The walk of the XSDT and that of the MADT compare with it; the walk of the
RSDT subtracts the header from it first, and the FADT and the HPET are read without a look at it.

The memory is what the kernel has mapped; tables do not go round its end.
-/

set_option autoImplicit false

namespace Dem64.Acpi

open Interaction Interaction.Prog

/-! ## `acpi.c` -/

/-- A load of bytes: of a header, which every table has, or of what is behind it. -/
inductive AcpiOp
  | header (table offset size : Nat)
  | field (table offset size : Nat)

/-- A program that loads, zero-extended. -/
abbrev AcpiM := Prog AcpiOp fun _ => BitVec 64

def header (table offset size : Nat) : AcpiM (BitVec 64) := .call (AcpiOp.header table offset size)

def field (table offset size : Nat) : AcpiM (BitVec 64) := .call (AcpiOp.field table offset size)

def MADT_sig : BitVec 32 := 0x43495041
def FACP_sig : BitVec 32 := 0x50434146
def HPET_sig : BitVec 32 := 0x54455048
def MCFG_sig : BitVec 32 := 0x4746434D

/-- `"RSD PTR "` and `"XSDT"`, as they are in memory. -/
def rsdpWord : BitVec 64 := 0x2052545020445352
def xsdtWord : BitVec 32 := 0x54445358

/-- `sizeof(ACPISDTHeader)` -/
def sizeofHeader : Nat := 36

/-- `sizeof(MADTIOAPIC)` -/
def sizeofIoApic : Nat := 12

/-- `BASE` -/
def baseWord : BitVec 64 := 0xffff900000000000

/-- `ACPI_ret`; `table` is the member of the union that has been set. -/
structure AcpiRet where
  address : BitVec 64 := 0
  ioBase : BitVec 64 := 0
  code : Nat := 0
  table : Nat := 0
  status : Nat := 0
deriving DecidableEq

/-- `acpi_signature`; a `char` has a sign. -/
def acpiSignature (sig : BitVec 32) : BitVec 32 :=
  (sig.extractLsb' 0 8).signExtend 32 ||| (sig.extractLsb' 8 8).signExtend 32 <<< 8 |||
    (sig.extractLsb' 16 8).signExtend 32 <<< 16 ||| (sig.extractLsb' 24 8).signExtend 32 <<< 24

/-- The loop of `handle_APICIO`, with offsets from the table; without a result the fuel was not enough. -/
def ioApicLoop (madt length : Nat) (ret : AcpiRet) : Nat → Nat → AcpiM (Option AcpiRet)
  | 0, offset => if offset + 2 ≤ length then pure none else pure (some { ret with status := 1 })
  | fuel + 1, offset =>
    if offset + 2 ≤ length then do
      let entryLength ← field madt (offset + 1) 1
      if entryLength.toNat < 2 then pure (some { ret with status := 1 })
      else if length < offset + entryLength.toNat then pure (some { ret with status := 1 })
      else do
        let type ← field madt offset 1
        if type = 1 ∧ sizeofIoApic ≤ entryLength.toNat then do
          let address ← field madt (offset + 4) 4
          pure (some { ret with address := address + baseWord, status := 0 })
        else ioApicLoop madt length ret fuel (offset + entryLength.toNat)
    else pure (some { ret with status := 1 })

/-- `handle_APICIO` -/
def handleApicIo (madt fuel : Nat) (ret : AcpiRet) : AcpiM (Option AcpiRet) := do
  let length ← header madt 4 4
  ioApicLoop madt length.toNat ret fuel 44

/-- The low 16 bits. -/
def toU16 (x : BitVec 64) : BitVec 64 := (x.setWidth 16).setWidth 64

/-- `handle_PM_timer` -/
def handlePmTimer (fadt : Nat) (ret : AcpiRet) : AcpiM AcpiRet := do
  let address ← field fadt 212 8
  if address ≠ 0 then do
    let addressSpaceId ← field fadt 208 1
    if addressSpaceId = 0 then pure { ret with ioBase := address, code := 0, status := 0 }
    else if addressSpaceId = 1 then pure { ret with ioBase := toU16 address, code := 1, status := 0 }
    else pure { ret with status := 1 }
  else do
    let pmTimerBlock ← field fadt 76 4
    pure { ret with ioBase := toU16 pmTimerBlock, code := 1, status := 0 }

/-- `handle_HPET` -/
def handleHpet (hpet : Nat) (ret : AcpiRet) : AcpiM AcpiRet := do
  let addressSpaceId ← field hpet 40 1
  if addressSpaceId ≠ 0 then pure { ret with status := 1 }
  else do
    let address ← field hpet 44 8
    pure { ret with ioBase := address, code := 0, status := 0 }

/-- The `switch` for a table that has the signature, the same in both loops. -/
def handleTable (table fuel : Nat) (signature : BitVec 32) (ret : AcpiRet) : AcpiM (Option AcpiRet) :=
  if acpiSignature signature = MADT_sig then do
    let ret ← handleApicIo table fuel ret
    pure (ret.map fun ret => { ret with table := table })
  else if acpiSignature signature = FACP_sig then do
    let ret ← handlePmTimer table ret
    pure (some { ret with table := table })
  else if acpiSignature signature = HPET_sig then do
    let ret ← handleHpet table ret
    pure (some { ret with table := table })
  else if acpiSignature signature = MCFG_sig then pure (some { ret with status := 0, address := .ofNat 64 table })
  else pure (some { ret with status := 1 })

/-- The loop over the RSDT, with the entries that are left. -/
def rsdtLoop (rsdt fuel : Nat) (signature : BitVec 32) (ret : AcpiRet) : Nat → Nat → AcpiM (Option AcpiRet)
  | 0, _ => pure (some { ret with status := 1 })
  | left + 1, i => do
    let entry ← field rsdt (sizeofHeader + 4 * i) 4
    let table := (entry + baseWord).toNat
    let sig ← header table 0 4
    if sig.setWidth 32 = signature then handleTable table fuel signature ret
    else rsdtLoop rsdt fuel signature ret left (i + 1)

/-- `entries`, with the subtraction of 64 bits. -/
def rsdtCount (length : BitVec 64) : Nat := ((length - .ofNat 64 sizeofHeader) / 4 : BitVec 64).setWidth 32 |>.toNat

/-- The branch of the RSDT. -/
def walkRsdt (rsdp : Nat) (signature : BitVec 32) (fuel : Nat) : AcpiM (Option AcpiRet) := do
  let rsdtAddress ← header rsdp 16 4
  let rsdt := (rsdtAddress + baseWord).toNat
  let length ← header rsdt 4 4
  rsdtLoop rsdt fuel signature {} (rsdtCount length) 0

/-- The loop over the XSDT, with offsets from the table. -/
def xsdtLoop (xsdt length fuel : Nat) (signature : BitVec 32) (ret : AcpiRet) : Nat → Nat → AcpiM (Option AcpiRet)
  | 0, offset => if offset + 8 ≤ length then pure none else pure (some { ret with status := 1 })
  | left + 1, offset =>
    if offset + 8 ≤ length then do
      let entry ← field xsdt offset 8
      let table := (entry + baseWord).toNat
      let sig ← header table 0 4
      if sig.setWidth 32 = signature then handleTable table fuel signature ret
      else xsdtLoop xsdt length fuel signature ret left (offset + 8)
    else pure (some { ret with status := 1 })

/-- The branch of the XSDT. -/
def walkXsdt (xsdtAddress : BitVec 64) (signature : BitVec 32) (fuel : Nat) : AcpiM (Option AcpiRet) := do
  let xsdt := (xsdtAddress + baseWord).toNat
  let sig ← header xsdt 0 4
  if sig.setWidth 32 ≠ xsdtWord then pure (some { status := 1 })
  else do
    let length ← header xsdt 4 4
    if length.toNat < sizeofHeader then pure (some { status := 1 })
    else xsdtLoop xsdt length.toNat fuel signature {} fuel sizeofHeader

/-- `ACPI_discovery` for the four bytes that it compares with. -/
def acpiDiscovery (rsdp : Nat) (signature : BitVec 32) (fuel : Nat) : AcpiM (Option AcpiRet) :=
  if rsdp = 0 then pure (some { status := 1 })
  else do
    let sig ← header rsdp 0 8
    if sig ≠ rsdpWord then pure (some { status := 1 })
    else do
      let revision ← header rsdp 15 1
      if revision.toNat < 2 then walkRsdt rsdp signature fuel
      else do
        let xsdtAddress ← header rsdp 24 8
        if xsdtAddress = 0 then walkRsdt rsdp signature fuel else walkXsdt xsdtAddress signature fuel

/-! ## The memory -/

/-- The bytes from `a` on as a number. -/
def bytesValue (memory : Nat → BitVec 8) (a : Nat) : Nat → Nat
  | 0 => 0
  | n + 1 => (memory a).toNat + 2 ^ 8 * bytesValue memory (a + 1) n

/-- A load of `n` bytes. -/
def loadBytes (memory : Nat → BitVec 8) (a n : Nat) : BitVec 64 := .ofNat 64 (bytesValue memory a n)

/-- Memory that does not change meanwhile. -/
def tables (memory : Nat → BitVec 8) : Handler AcpiOp (fun _ => BitVec 64) Unit
  | .header table offset size, s => (loadBytes memory (table + offset) size, s)
  | .field table offset size, s => (loadBytes memory (table + offset) size, s)

section

variable (memory : Nat → BitVec 8)

@[simp] theorem run_header (table offset size : Nat) :
    run (tables memory) (header table offset size) () = (loadBytes memory (table + offset) size, ()) := rfl

@[simp] theorem run_field (table offset size : Nat) :
    run (tables memory) (field table offset size) () = (loadBytes memory (table + offset) size, ()) := rfl

/-- The length in the header of a table. -/
def declaredLength (table : Nat) : Nat := (loadBytes memory (table + 4) 4).toNat

/-- What is behind the header of a table is read as far as the table goes. -/
def InDeclared : AcpiOp → Prop
  | .header .. => True
  | .field table offset size => offset + size ≤ declaredLength memory table

variable {memory} in
theorem allAsked_header_bind {α : Type} {table offset size : Nat} {f : BitVec 64 → AcpiM α} :
    AllAsked (tables memory) (InDeclared memory) (header table offset size >>= f) () ↔
      AllAsked (tables memory) (InDeclared memory) (f (loadBytes memory (table + offset) size)) () :=
  (allAsked_call_bind _).trans (and_iff_right trivial)

variable {memory} in
theorem allAsked_field_bind {α : Type} {table offset size : Nat} {f : BitVec 64 → AcpiM α} :
    AllAsked (tables memory) (InDeclared memory) (field table offset size >>= f) () ↔
      offset + size ≤ declaredLength memory table ∧
        AllAsked (tables memory) (InDeclared memory) (f (loadBytes memory (table + offset) size)) () :=
  allAsked_call_bind _

/-- There is an RSDP. -/
def IsRsdp (rsdp : Nat) : Prop := rsdp ≠ 0 ∧ loadBytes memory rsdp 8 = rsdpWord

/-- The RSDP has an RSDT only. -/
def UsesRsdt (rsdp : Nat) : Prop :=
  (loadBytes memory (rsdp + 15) 1).toNat < 2 ∨ loadBytes memory (rsdp + 24) 8 = 0

def rsdtOf (rsdp : Nat) : Nat := (loadBytes memory (rsdp + 16) 4 + baseWord).toNat

def xsdtOf (rsdp : Nat) : Nat := (loadBytes memory (rsdp + 24) 8 + baseWord).toNat

/-- There is an XSDT. -/
def IsXsdt (xsdt : Nat) : Prop :=
  (loadBytes memory xsdt 4).setWidth 32 = xsdtWord ∧ sizeofHeader ≤ declaredLength memory xsdt

instance (rsdp : Nat) : Decidable (IsRsdp memory rsdp) := inferInstanceAs (Decidable (_ ∧ _))

instance (rsdp : Nat) : Decidable (UsesRsdt memory rsdp) := inferInstanceAs (Decidable (_ ∨ _))

instance (xsdt : Nat) : Decidable (IsXsdt memory xsdt) := inferInstanceAs (Decidable (_ ∧ _))

/-- The table behind an entry. -/
def entryTable (root size i : Nat) : Nat := (loadBytes memory (root + (sizeofHeader + size * i)) size + baseWord).toNat

/-- The tables that a root table lists in its length, in entries of `size` bytes. -/
def rootTables (root size : Nat) : List Nat :=
  (List.range ((declaredLength memory root - sizeofHeader) / size)).map (entryTable memory root size)

/-- The tables that the firmware lists. -/
def listedTables (rsdp : Nat) : List Nat :=
  if IsRsdp memory rsdp then
    if UsesRsdt memory rsdp then rootTables memory (rsdtOf memory rsdp) 4
    else if IsXsdt memory (xsdtOf memory rsdp) then rootTables memory (xsdtOf memory rsdp) 8 else []
  else []

/-- The first of them with a signature. -/
def findTable (signature : BitVec 32) (l : List Nat) : Option Nat :=
  l.find? fun table => (loadBytes memory table 4).setWidth 32 = signature

end

/-! ## The records of the MADT -/

section

variable (memory : Nat → BitVec 8) (madt : Nat)

/-- The length of a record. -/
def recordLength (offset : Nat) : Nat := (loadBytes memory (madt + (offset + 1)) 1).toNat

/-- The two bytes of a record and all of it lie in the table. -/
def IsRecord (offset : Nat) : Prop :=
  offset + 2 ≤ declaredLength memory madt ∧ 2 ≤ recordLength memory madt offset ∧
    offset + recordLength memory madt offset ≤ declaredLength memory madt

instance (offset : Nat) : Decidable (IsRecord memory madt offset) := inferInstanceAs (Decidable (_ ∧ _ ∧ _))

/-- There is a record at the offset, or the table has no more. -/
def recordNode (offset : Nat) : Option Nat := if IsRecord memory madt offset then some offset else none

/-- The record behind a record. -/
def recordLink (offset : Nat) : Option Nat := recordNode memory madt (offset + recordLength memory madt offset)

/-- The record is a well-formed I/O APIC record. -/
def IsIoApic (offset : Nat) : Prop :=
  loadBytes memory (madt + offset) 1 = 1 ∧ sizeofIoApic ≤ recordLength memory madt offset

instance : DecidablePred (IsIoApic memory madt) := fun _ => inferInstanceAs (Decidable (_ ∧ _))

/-- The first I/O APIC record of the table. -/
def FirstIoApic (offset : Nat) : Prop :=
  Chain.First (recordLink memory madt) (IsIoApic memory madt) (recordNode memory madt 44) offset

/-- The address in it. -/
def ioApicAddress (offset : Nat) : BitVec 64 := loadBytes memory (madt + (offset + 4)) 4 + baseWord

/-- What `handle_APICIO` returns. -/
def ioApicRet (ret : AcpiRet) : Option Nat → AcpiRet
  | none => { ret with status := 1 }
  | some offset => { ret with address := ioApicAddress memory madt offset, status := 0 }

variable {memory madt} {offset offset' fuel : Nat} {ret : AcpiRet} {found : Option Nat}

theorem recordNode_some (h : recordNode memory madt offset = some offset') :
    offset' = offset ∧ IsRecord memory madt offset := by
  rw [recordNode] at h
  split at h
  next hnode => exact ⟨(Option.some.inj h).symm, hnode⟩
  next => cases h

/-- The walk of the records ends. -/
theorem search_records_ne_none (hfuel : declaredLength memory madt ≤ fuel) :
    Chain.search (recordLink memory madt) (IsIoApic memory madt) fuel (recordNode memory madt 44) ≠ none := by
  refine Chain.search_ne_none_of_measure (q := IsRecord memory madt) (declaredLength memory madt - ·)
    (fun a b ha hab => ?_) fun a ha => ?_
  · obtain ⟨rfl, hb⟩ := recordNode_some hab
    refine ⟨hb, ?_⟩
    have h1 := ha.2.1
    have h2 := hb.1
    omega
  · obtain ⟨rfl, hrecord⟩ := recordNode_some ha
    have h1 := hrecord.1
    exact ⟨hrecord, by omega⟩

/-- One round of the loop. -/
theorem run_ioApicLoop_succ :
    (run (tables memory) (ioApicLoop madt (declaredLength memory madt) ret (fuel + 1) offset) ()).1 =
      if IsRecord memory madt offset then
        if IsIoApic memory madt offset then some (ioApicRet memory madt ret (some offset))
        else (run (tables memory) (ioApicLoop madt (declaredLength memory madt) ret fuel
          (offset + recordLength memory madt offset)) ()).1
      else some (ioApicRet memory madt ret none) := by
  rw [ioApicLoop]
  by_cases hroom : offset + 2 ≤ declaredLength memory madt
  · rw [if_pos hroom, run_bind]
    show (run (tables memory) (if recordLength memory madt offset < 2 then _ else
      if declaredLength memory madt < offset + recordLength memory madt offset then _ else _) ()).1 = _
    by_cases hshort : recordLength memory madt offset < 2
    · have hnot : ¬ IsRecord memory madt offset := fun h => absurd h.2.1 (by omega)
      rw [if_pos hshort, if_neg hnot]
      rfl
    · rw [if_neg hshort]
      by_cases hlong : declaredLength memory madt < offset + recordLength memory madt offset
      · have hnot : ¬ IsRecord memory madt offset := fun h => absurd h.2.2 (by omega)
        rw [if_pos hlong, if_neg hnot]
        rfl
      · have hrecord : IsRecord memory madt offset := ⟨hroom, by omega, by omega⟩
        rw [if_neg hlong, if_pos hrecord, run_bind]
        show (run (tables memory) (if IsIoApic memory madt offset then _ else _) ()).1 = _
        split
        next => rfl
        next => rfl
  · have hnot : ¬ IsRecord memory madt offset := fun h => hroom h.1
    rw [if_neg hroom, if_neg hnot]
    rfl

/-- The loop walks the records. -/
theorem run_ioApicLoop (h : Chain.search (recordLink memory madt) (IsIoApic memory madt) fuel
    (recordNode memory madt offset) = some found) :
    (run (tables memory) (ioApicLoop madt (declaredLength memory madt) ret (fuel + 1) offset) ()).1 =
      some (ioApicRet memory madt ret found) := by
  induction fuel generalizing offset with
  | zero =>
    rw [run_ioApicLoop_succ]
    rw [recordNode] at h
    split at h
    next => cases h
    next hnot =>
      cases h
      rw [if_neg hnot]
  | succ fuel ih =>
    rw [run_ioApicLoop_succ]
    rw [recordNode] at h
    split at h
    next hrecord =>
      rw [if_pos hrecord]
      rw [Chain.search] at h
      split at h
      next hfound =>
        cases h
        rw [if_pos hfound]
      next hother =>
        rw [if_neg hother]
        exact ih h
    next hnot =>
      rw [Chain.search_none] at h
      cases h
      rw [if_neg hnot]

/-- The first I/O APIC record, as the walk finds it. -/
def ioApicRecord (memory : Nat → BitVec 8) (madt : Nat) : Option Nat :=
  (Chain.search (recordLink memory madt) (IsIoApic memory madt) (declaredLength memory madt)
    (recordNode memory madt 44)).join

theorem search_records (hfuel : declaredLength memory madt ≤ fuel) :
    Chain.search (recordLink memory madt) (IsIoApic memory madt) fuel (recordNode memory madt 44) =
      some (ioApicRecord memory madt) := by
  refine Chain.search_mono ?_ hfuel
  obtain ⟨r, hr⟩ := Option.ne_none_iff_exists'.mp (@search_records_ne_none memory madt _ (le_refl _))
  rw [ioApicRecord, hr]
  rfl

theorem ioApicRecord_eq_some_iff : ioApicRecord memory madt = some offset ↔ FirstIoApic memory madt offset := by
  rw [FirstIoApic, ← Chain.exists_search_eq_iff]
  constructor
  · intro h
    refine ⟨declaredLength memory madt, ?_⟩
    rw [search_records (le_refl _), h]
  · rintro ⟨n, hn⟩
    have hmore := Chain.search_mono hn (Nat.le_max_left n (declaredLength memory madt))
    rw [search_records (Nat.le_max_right _ _)] at hmore
    exact Option.some.inj hmore

/-- **`handle_APICIO` finds the first I/O APIC record.** -/
theorem run_handleApicIo (hfuel : declaredLength memory madt < fuel) :
    (run (tables memory) (handleApicIo madt fuel ret) ()).1 =
      some (ioApicRet memory madt ret (ioApicRecord memory madt)) := by
  obtain ⟨fuel, rfl⟩ : ∃ n, fuel = n + 1 := ⟨fuel - 1, by omega⟩
  exact run_ioApicLoop (search_records (by omega))

/-- The records that it reads lie in the table. -/
theorem allAsked_ioApicLoop :
    AllAsked (tables memory) (InDeclared memory) (ioApicLoop madt (declaredLength memory madt) ret fuel offset) () := by
  induction fuel generalizing offset with
  | zero =>
    rw [ioApicLoop]
    split
    · exact allAsked_pure _ _ _
    · exact allAsked_pure _ _ _
  | succ fuel ih =>
    rw [ioApicLoop]
    split
    next hroom =>
      refine (allAsked_call_bind _).mpr ⟨show offset + 1 + 1 ≤ _ from hroom, ?_⟩
      split
      next => exact allAsked_pure _ _ _
      next =>
        split
        next => exact allAsked_pure _ _ _
        next hlong =>
          refine (allAsked_call_bind _).mpr ⟨show offset + 1 ≤ _ by omega, ?_⟩
          split
          next hfound =>
            have hsize := hfound.2
            rw [sizeofIoApic] at hsize
            exact (allAsked_call_bind _).mpr ⟨show offset + 4 + 4 ≤ _ by omega, allAsked_pure _ _ _⟩
          next => exact ih
    next => exact allAsked_pure _ _ _

end

/-! ## The handlers -/

/-- A byte whose sign bit is clear is extended with zeros. -/
theorem signExtend_byte {x : BitVec 8} (h : x.msb = false) : x.signExtend 32 = x.setWidth 32 :=
  BitVec.signExtend_eq_setWidth_of_msb_false h

/-- The four characters have no sign bit. -/
def Ascii (sig : BitVec 32) : Prop :=
  (sig.extractLsb' 0 8).msb = false ∧ (sig.extractLsb' 8 8).msb = false ∧ (sig.extractLsb' 16 8).msb = false ∧
    (sig.extractLsb' 24 8).msb = false

instance (sig : BitVec 32) : Decidable (Ascii sig) := inferInstanceAs (Decidable (_ ∧ _ ∧ _ ∧ _))

theorem acpiSignature_of_ascii {sig : BitVec 32} (h : Ascii sig) : acpiSignature sig = sig := by
  obtain ⟨h0, h1, h2, h3⟩ := h
  rw [acpiSignature, signExtend_byte h0, signExtend_byte h1, signExtend_byte h2, signExtend_byte h3]
  ext i hi
  interval_cases i <;> simp

/-- A sign bit reaches the top of the word. -/
theorem msb_acpiSignature (sig : BitVec 32) (h : ¬ Ascii sig) : (acpiSignature sig).msb = true := by
  have hshift : ∀ (x : BitVec 8) (k : Nat), k ≤ 24 → x.msb = true → (x.signExtend 32 <<< k).msb = true := by
    intro x k hk hx
    rw [BitVec.msb_eq_getLsbD_last, BitVec.getLsbD_shiftLeft, BitVec.getLsbD_signExtend, hx]
    by_cases h8 : 31 - k < 8
    · have : k = 24 := by omega
      subst this
      rw [BitVec.msb_eq_getLsbD_last] at hx
      simp [hx]
    · simp [h8]
      omega
  rw [acpiSignature, BitVec.msb_or, BitVec.msb_or, BitVec.msb_or, Bool.or_eq_true, Bool.or_eq_true, Bool.or_eq_true]
  by_contra hnone
  refine h ⟨Bool.eq_false_iff.mpr fun hx => hnone (.inl (.inl (.inl ?_))),
    Bool.eq_false_iff.mpr fun hx => hnone (.inl (.inl (.inr (hshift _ 8 (by decide) hx)))),
    Bool.eq_false_iff.mpr fun hx => hnone (.inl (.inr (hshift _ 16 (by decide) hx))),
    Bool.eq_false_iff.mpr fun hx => hnone (.inr (hshift _ 24 (by decide) hx))⟩
  have h0 := hshift _ 0 (by decide) hx
  rwa [BitVec.shiftLeft_zero] at h0

theorem acpiSignature_eq_iff {sig c : BitVec 32} (hc : Ascii c) (hmsb : c.msb = false) :
    acpiSignature sig = c ↔ sig = c := by
  constructor
  · intro h
    by_cases ha : Ascii sig
    · rw [← h, acpiSignature_of_ascii ha]
    · rw [← h, msb_acpiSignature sig ha] at hmsb
      cases hmsb
  · rintro rfl
    exact acpiSignature_of_ascii hc
section

variable {memory : Nat → BitVec 8} {table fuel : Nat} {signature : BitVec 32} {ret : AcpiRet}

theorem acpiSignature_eq_madt : acpiSignature signature = MADT_sig ↔ signature = MADT_sig :=
  acpiSignature_eq_iff (by decide) (by decide)

theorem acpiSignature_eq_facp : acpiSignature signature = FACP_sig ↔ signature = FACP_sig :=
  acpiSignature_eq_iff (by decide) (by decide)

theorem acpiSignature_eq_hpet : acpiSignature signature = HPET_sig ↔ signature = HPET_sig :=
  acpiSignature_eq_iff (by decide) (by decide)

/-- The address blocks that the handlers read lie in the table. -/
def FieldsInside (memory : Nat → BitVec 8) (signature : BitVec 32) (table : Nat) : Prop :=
  (signature = FACP_sig → 220 ≤ declaredLength memory table) ∧
  (signature = HPET_sig → 41 ≤ declaredLength memory table ∧
    (loadBytes memory (table + 40) 1 = 0 → 52 ≤ declaredLength memory table))

theorem allAsked_handlePmTimer : AllAsked (tables memory) (InDeclared memory) (handlePmTimer table ret) () ↔
    220 ≤ declaredLength memory table := by
  refine (allAsked_call_bind _).trans ⟨fun h => h.1, fun h => ⟨h, ?_⟩⟩
  split
  next =>
    refine (allAsked_call_bind _).mpr ⟨show 208 + 1 ≤ declaredLength memory table by omega, ?_⟩
    split
    next => exact allAsked_pure _ _ _
    next =>
      split
      next => exact allAsked_pure _ _ _
      next => exact allAsked_pure _ _ _
  next =>
    exact (allAsked_call_bind _).mpr ⟨show 76 + 4 ≤ declaredLength memory table by omega, allAsked_pure _ _ _⟩

theorem allAsked_handleHpet : AllAsked (tables memory) (InDeclared memory) (handleHpet table ret) () ↔
    41 ≤ declaredLength memory table ∧
      (loadBytes memory (table + 40) 1 = 0 → 52 ≤ declaredLength memory table) := by
  refine (allAsked_call_bind _).trans (and_congr_right fun _ => ?_)
  show AllAsked (tables memory) (InDeclared memory) (if loadBytes memory (table + 40) 1 ≠ 0 then _ else _) () ↔ _
  by_cases hid : loadBytes memory (table + 40) 1 = 0
  · rw [if_neg (not_not.mpr hid), imp_iff_right hid]
    exact (allAsked_call_bind _).trans (and_iff_left (allAsked_pure _ _ _))
  · rw [if_pos hid]
    exact ⟨fun _ h => absurd h hid, fun _ => allAsked_pure _ _ _⟩

theorem allAsked_handleTable :
    AllAsked (tables memory) (InDeclared memory) (handleTable table fuel signature ret) () ↔
      FieldsInside memory signature table := by
  have hne : MADT_sig ≠ FACP_sig ∧ MADT_sig ≠ HPET_sig ∧ FACP_sig ≠ HPET_sig := by decide
  rw [handleTable, FieldsInside]
  simp only [acpiSignature_eq_madt, acpiSignature_eq_facp, acpiSignature_eq_hpet]
  split
  next hmadt =>
    subst hmadt
    refine iff_of_true ?_ ⟨fun h => absurd h hne.1, fun h => absurd h hne.2.1⟩
    refine (allAsked_bind _).mpr ⟨(allAsked_call_bind _).mpr ⟨trivial, allAsked_ioApicLoop⟩, allAsked_pure _ _ _⟩
  next =>
    split
    next hfacp =>
      subst hfacp
      refine (allAsked_bind _).trans ((and_iff_left (allAsked_pure _ _ _)).trans (allAsked_handlePmTimer.trans ?_))
      exact ⟨fun h => ⟨fun _ => h, fun heq => absurd heq hne.2.2⟩, fun h => h.1 rfl⟩
    next hfacp =>
      split
      next hhpet =>
        subst hhpet
        refine (allAsked_bind _).trans ((and_iff_left (allAsked_pure _ _ _)).trans (allAsked_handleHpet.trans ?_))
        exact ⟨fun h => ⟨fun heq => absurd heq hfacp, fun _ => h⟩, fun h => h.2 rfl⟩
      next hhpet =>
        refine iff_of_true ?_ ⟨fun h => absurd h hfacp, fun h => absurd h hhpet⟩
        split
        next => exact allAsked_pure _ _ _
        next => exact allAsked_pure _ _ _

/-- What a table with the signature comes to. -/
def tableResult (memory : Nat → BitVec 8) (signature : BitVec 32) (table : Nat) : AcpiRet :=
  (run (tables memory) (handleTable table (declaredLength memory table + 1) signature {}) ()).1.getD {}

theorem run_handleTable (hfuel : declaredLength memory table < fuel) :
    (run (tables memory) (handleTable table fuel signature {}) ()).1 = some (tableResult memory signature table) := by
  have hmadt : ∀ fuel, declaredLength memory table < fuel →
      (run (tables memory) (handleApicIo table fuel {}) ()).1 =
        some (ioApicRet memory table {} (ioApicRecord memory table)) := fun fuel h => run_handleApicIo h
  rw [tableResult, handleTable, handleTable]
  split
  next =>
    rw [run_bind, run_bind, hmadt fuel hfuel, hmadt _ (Nat.lt_succ_self _)]
    rfl
  next =>
    split
    next =>
      rw [run_bind]
      rfl
    next =>
      split
      next =>
        rw [run_bind]
        rfl
      next =>
        split
        next => rfl
        next => rfl

theorem tableResult_madt : tableResult memory MADT_sig table =
    { ioApicRet memory table {} (ioApicRecord memory table) with table := table } := by
  have hrun := @run_handleApicIo memory table _ {} (Nat.lt_succ_self _)
  rw [tableResult, handleTable, if_pos (acpiSignature_eq_madt.mpr rfl), run_bind, hrun]
  rfl

end

/-! ## The root tables -/

section

variable {memory : Nat → BitVec 8} {root fuel left i : Nat} {signature : BitVec 32}

theorem bytesValue_lt (a n : Nat) : bytesValue memory a n < 2 ^ (8 * n) := by
  induction n generalizing a with
  | zero => exact Nat.one_pos
  | succ n ih =>
    have hrest := ih (a + 1)
    have hbyte := (memory a).isLt
    rw [bytesValue, Nat.mul_succ, Nat.pow_add, Nat.mul_comm (2 ^ (8 * n))]
    omega

theorem declaredLength_lt (table : Nat) : declaredLength memory table < 2 ^ 32 := by
  have hvalue := @bytesValue_lt memory (table + 4) 4
  rw [declaredLength, loadBytes, BitVec.toNat_ofNat]
  omega

theorem toNat_rsdt_difference (length : BitVec 64) :
    rsdtCount length = (length.toNat + (2 ^ 64 - 36)) % 2 ^ 64 / 4 % 2 ^ 32 := by
  have h36 : (BitVec.ofNat 64 sizeofHeader).toNat = 36 := rfl
  have hfour : (4 : BitVec 64).toNat = 4 := rfl
  rw [rsdtCount, BitVec.toNat_setWidth, BitVec.toNat_udiv, BitVec.toNat_sub, h36, hfour, Nat.add_comm]

/-- The entries of an RSDT that has its header. -/
theorem rsdtCount_eq (h : sizeofHeader ≤ declaredLength memory root) :
    rsdtCount (loadBytes memory (root + 4) 4) = (declaredLength memory root - sizeofHeader) / 4 := by
  have hlt := @declaredLength_lt memory root
  rw [toNat_rsdt_difference, sizeofHeader] at *
  rw [declaredLength] at *
  omega

/-- Without a header there are some all the same. -/
theorem rsdtCount_pos (h : declaredLength memory root < sizeofHeader) :
    0 < rsdtCount (loadBytes memory (root + 4) 4) := by
  rw [toNat_rsdt_difference]
  rw [sizeofHeader, declaredLength] at h
  omega

/-- A walk of the entries comes to this. -/
def entriesRun (memory : Nat → BitVec 8) (fuel : Nat) (signature : BitVec 32) (l : List Nat) : Option AcpiRet :=
  match findTable memory signature l with
  | none => some { status := 1 }
  | some table => (run (tables memory) (handleTable table fuel signature {}) ()).1

theorem entriesRun_cons (table : Nat) (l : List Nat) : entriesRun memory fuel signature (table :: l) =
    if (loadBytes memory table 4).setWidth 32 = signature then
      (run (tables memory) (handleTable table fuel signature {}) ()).1
    else entriesRun memory fuel signature l := by
  rw [entriesRun, findTable, List.find?_cons]
  by_cases h : (loadBytes memory table 4).setWidth 32 = signature
  · rw [decide_eq_true h, if_pos h]
  · rw [decide_eq_false h, if_neg h]
    rfl

theorem run_rsdtLoop : (run (tables memory) (rsdtLoop root fuel signature {} left i) ()).1 =
    entriesRun memory fuel signature ((List.range' i left).map (entryTable memory root 4)) := by
  induction left generalizing i with
  | zero => rfl
  | succ left ih =>
    rw [List.range'_succ, List.map_cons, entriesRun_cons, rsdtLoop, run_bind, run_field, run_bind, run_header,
      Nat.add_zero, ← entryTable]
    split
    next => rfl
    next => exact ih

/-- The loop over the XSDT gets through the entries of its length. -/
theorem run_xsdtLoop (hleft : (declaredLength memory root - sizeofHeader) / 8 - i ≤ left) :
    (run (tables memory)
        (xsdtLoop root (declaredLength memory root) fuel signature {} left (sizeofHeader + 8 * i)) ()).1 =
      entriesRun memory fuel signature ((List.range' i ((declaredLength memory root - sizeofHeader) / 8 - i)).map
        (entryTable memory root 8)) := by
  induction left generalizing i with
  | zero =>
    have hnone : (declaredLength memory root - sizeofHeader) / 8 - i = 0 := by omega
    have hend : ¬ sizeofHeader + 8 * i + 8 ≤ declaredLength memory root := by omega
    rw [hnone, xsdtLoop, if_neg hend]
    rfl
  | succ left ih =>
    rw [xsdtLoop]
    by_cases hroom : sizeofHeader + 8 * i + 8 ≤ declaredLength memory root
    · have hsome : (declaredLength memory root - sizeofHeader) / 8 - i =
          (declaredLength memory root - sizeofHeader) / 8 - (i + 1) + 1 := by omega
      rw [if_pos hroom, hsome, List.range'_succ, List.map_cons, entriesRun_cons, run_bind, run_field, run_bind,
        run_header, Nat.add_zero, ← entryTable]
      split
      next => rfl
      next =>
        rw [Nat.add_assoc, ← Nat.mul_succ]
        exact ih (by omega)
    · have hnone : (declaredLength memory root - sizeofHeader) / 8 - i = 0 := by omega
      rw [if_neg hroom, hnone]
      rfl

/-- The tables that a walk reads are the one that it finds. -/
def EntriesInside (memory : Nat → BitVec 8) (signature : BitVec 32) (l : List Nat) : Prop :=
  ∀ table, findTable memory signature l = some table → FieldsInside memory signature table

theorem entriesInside_nil : EntriesInside memory signature [] := fun _ h => absurd h (by simp [findTable])

theorem entriesInside_cons (table : Nat) (l : List Nat) : EntriesInside memory signature (table :: l) ↔
    if (loadBytes memory table 4).setWidth 32 = signature then FieldsInside memory signature table
    else EntriesInside memory signature l := by
  rw [EntriesInside, findTable, List.find?_cons]
  by_cases h : (loadBytes memory table 4).setWidth 32 = signature
  · rw [decide_eq_true h, if_pos h]
    exact ⟨fun hall => hall table rfl, fun hin table' heq => Option.some.inj heq ▸ hin⟩
  · rw [decide_eq_false h, if_neg h]
    rfl

theorem allAsked_rsdtLoop (hin : sizeofHeader + 4 * (i + left) ≤ declaredLength memory root) :
    AllAsked (tables memory) (InDeclared memory) (rsdtLoop root fuel signature {} left i) () ↔
      EntriesInside memory signature ((List.range' i left).map (entryTable memory root 4)) := by
  induction left generalizing i with
  | zero => exact iff_of_true (allAsked_pure _ _ _) entriesInside_nil
  | succ left ih =>
    have hfield : sizeofHeader + 4 * i + 4 ≤ declaredLength memory root := by omega
    rw [List.range'_succ, List.map_cons, entriesInside_cons, rsdtLoop, allAsked_field_bind, and_iff_right hfield,
      allAsked_header_bind, Nat.add_zero, ← entryTable]
    split
    next => exact allAsked_handleTable
    next => exact ih (by omega)

theorem allAsked_xsdtLoop (hleft : (declaredLength memory root - sizeofHeader) / 8 - i ≤ left) :
    AllAsked (tables memory) (InDeclared memory)
      (xsdtLoop root (declaredLength memory root) fuel signature {} left (sizeofHeader + 8 * i)) () ↔
      EntriesInside memory signature ((List.range' i ((declaredLength memory root - sizeofHeader) / 8 - i)).map
        (entryTable memory root 8)) := by
  induction left generalizing i with
  | zero =>
    have hnone : (declaredLength memory root - sizeofHeader) / 8 - i = 0 := by omega
    have hend : ¬ sizeofHeader + 8 * i + 8 ≤ declaredLength memory root := by omega
    rw [hnone, xsdtLoop, if_neg hend]
    exact iff_of_true (allAsked_pure _ _ _) entriesInside_nil
  | succ left ih =>
    rw [xsdtLoop]
    by_cases hroom : sizeofHeader + 8 * i + 8 ≤ declaredLength memory root
    · have hsome : (declaredLength memory root - sizeofHeader) / 8 - i =
          (declaredLength memory root - sizeofHeader) / 8 - (i + 1) + 1 := by omega
      rw [if_pos hroom, hsome, List.range'_succ, List.map_cons, entriesInside_cons, allAsked_field_bind,
        and_iff_right hroom, allAsked_header_bind, Nat.add_zero, ← entryTable]
      split
      next => exact allAsked_handleTable
      next =>
        rw [Nat.add_assoc, ← Nat.mul_succ]
        exact ih (by omega)
    · have hnone : (declaredLength memory root - sizeofHeader) / 8 - i = 0 := by omega
      rw [if_neg hroom, hnone]
      exact iff_of_true (allAsked_pure _ _ _) entriesInside_nil

end

/-! ## The discovery -/

section

variable {memory : Nat → BitVec 8} {rsdp fuel : Nat} {signature : BitVec 32}

/-- An RSDT has its header. -/
def RsdtOk (memory : Nat → BitVec 8) (rsdp : Nat) : Prop :=
  IsRsdp memory rsdp → UsesRsdt memory rsdp → sizeofHeader ≤ declaredLength memory (rsdtOf memory rsdp)

/-- The tables that the discovery walks: the listed ones, if an RSDT has its header. -/
def walkedTables (memory : Nat → BitVec 8) (rsdp : Nat) : List Nat :=
  if IsRsdp memory rsdp then
    if UsesRsdt memory rsdp then
      (List.range (rsdtCount (loadBytes memory (rsdtOf memory rsdp + 4) 4))).map
        (entryTable memory (rsdtOf memory rsdp) 4)
    else if IsXsdt memory (xsdtOf memory rsdp) then rootTables memory (xsdtOf memory rsdp) 8 else []
  else []

theorem walkedTables_eq (hok : RsdtOk memory rsdp) : walkedTables memory rsdp = listedTables memory rsdp := by
  rw [walkedTables, listedTables]
  split
  next hrsdp =>
    split
    next huses => rw [rsdtCount_eq (hok hrsdp huses), rootTables]
    next => rfl
  next => rfl

theorem run_walkRsdt : (run (tables memory) (walkRsdt rsdp signature fuel) ()).1 =
    entriesRun memory fuel signature ((List.range (rsdtCount (loadBytes memory (rsdtOf memory rsdp + 4) 4))).map
      (entryTable memory (rsdtOf memory rsdp) 4)) := by
  rw [walkRsdt, run_bind, run_header, run_bind, run_header, ← rsdtOf, run_rsdtLoop, List.range_eq_range']

theorem allAsked_walkRsdt (h : sizeofHeader ≤ declaredLength memory (rsdtOf memory rsdp)) :
    AllAsked (tables memory) (InDeclared memory) (walkRsdt rsdp signature fuel) () ↔
      EntriesInside memory signature (rootTables memory (rsdtOf memory rsdp) 4) := by
  rw [walkRsdt, allAsked_header_bind, allAsked_header_bind, ← rsdtOf, rsdtCount_eq h,
    allAsked_rsdtLoop (by rw [sizeofHeader] at *; omega), rootTables, List.range_eq_range']

/-- An RSDT without a header is left at once. -/
theorem not_allAsked_walkRsdt (h : declaredLength memory (rsdtOf memory rsdp) < sizeofHeader) :
    ¬ AllAsked (tables memory) (InDeclared memory) (walkRsdt rsdp signature fuel) () := by
  rw [walkRsdt, allAsked_header_bind, allAsked_header_bind, ← rsdtOf]
  obtain ⟨n, hn⟩ : ∃ n, rsdtCount (loadBytes memory (rsdtOf memory rsdp + 4) 4) = n + 1 :=
    Nat.exists_eq_succ_of_ne_zero (Nat.pos_iff_ne_zero.mp (rsdtCount_pos h))
  rw [hn, rsdtLoop, allAsked_field_bind]
  intro hall
  have hfield := hall.1
  omega

theorem run_walkXsdt (hfuel : 2 ^ 32 ≤ fuel) :
    (run (tables memory) (walkXsdt (loadBytes memory (rsdp + 24) 8) signature fuel) ()).1 =
      entriesRun memory fuel signature (if IsXsdt memory (xsdtOf memory rsdp) then
        rootTables memory (xsdtOf memory rsdp) 8 else []) := by
  have hlt := @declaredLength_lt memory (xsdtOf memory rsdp)
  rw [walkXsdt, run_bind, run_header, Nat.add_zero, ← xsdtOf]
  by_cases hsig : (loadBytes memory (xsdtOf memory rsdp) 4).setWidth 32 = xsdtWord
  · rw [if_neg (not_not.mpr hsig), run_bind, run_header, ← declaredLength]
    by_cases hlength : declaredLength memory (xsdtOf memory rsdp) < sizeofHeader
    · have hnot : ¬ IsXsdt memory (xsdtOf memory rsdp) := fun h => absurd h.2 (by omega)
      rw [if_pos hlength, if_neg hnot]
      rfl
    · have hxsdt : IsXsdt memory (xsdtOf memory rsdp) := ⟨hsig, by omega⟩
      have hloop := @run_xsdtLoop memory (xsdtOf memory rsdp) fuel fuel 0 signature (by omega)
      rw [if_neg hlength, if_pos hxsdt, rootTables, List.range_eq_range']
      exact hloop
  · have hnot : ¬ IsXsdt memory (xsdtOf memory rsdp) := fun h => hsig h.1
    rw [if_pos hsig, if_neg hnot]
    rfl

theorem allAsked_walkXsdt (hfuel : 2 ^ 32 ≤ fuel) :
    AllAsked (tables memory) (InDeclared memory) (walkXsdt (loadBytes memory (rsdp + 24) 8) signature fuel) () ↔
      EntriesInside memory signature (if IsXsdt memory (xsdtOf memory rsdp) then
        rootTables memory (xsdtOf memory rsdp) 8 else []) := by
  have hlt := @declaredLength_lt memory (xsdtOf memory rsdp)
  rw [walkXsdt, allAsked_header_bind, Nat.add_zero, ← xsdtOf]
  by_cases hsig : (loadBytes memory (xsdtOf memory rsdp) 4).setWidth 32 = xsdtWord
  · rw [if_neg (not_not.mpr hsig), allAsked_header_bind, ← declaredLength]
    by_cases hlength : declaredLength memory (xsdtOf memory rsdp) < sizeofHeader
    · have hnot : ¬ IsXsdt memory (xsdtOf memory rsdp) := fun h => absurd h.2 (by omega)
      rw [if_pos hlength, if_neg hnot]
      exact iff_of_true (allAsked_pure _ _ _) entriesInside_nil
    · have hxsdt : IsXsdt memory (xsdtOf memory rsdp) := ⟨hsig, by omega⟩
      rw [if_neg hlength, if_pos hxsdt, rootTables, List.range_eq_range']
      exact allAsked_xsdtLoop (i := 0) (by omega)
  · have hnot : ¬ IsXsdt memory (xsdtOf memory rsdp) := fun h => hsig h.1
    rw [if_pos hsig, if_neg hnot]
    exact iff_of_true (allAsked_pure _ _ _) entriesInside_nil

/-- The result of the walk. -/
theorem run_acpiDiscovery (hfuel : 2 ^ 32 ≤ fuel) :
    (run (tables memory) (acpiDiscovery rsdp signature fuel) ()).1 =
      entriesRun memory fuel signature (walkedTables memory rsdp) := by
  rw [acpiDiscovery, walkedTables]
  by_cases hzero : rsdp = 0
  · have hnot : ¬ IsRsdp memory rsdp := fun h => h.1 hzero
    rw [if_pos hzero, if_neg hnot]
    rfl
  · rw [if_neg hzero, run_bind, run_header, Nat.add_zero]
    by_cases hsig : loadBytes memory rsdp 8 = rsdpWord
    · have hrsdp : IsRsdp memory rsdp := ⟨hzero, hsig⟩
      rw [if_neg (not_not.mpr hsig), if_pos hrsdp, run_bind, run_header]
      by_cases hrevision : (loadBytes memory (rsdp + 15) 1).toNat < 2
      · rw [if_pos hrevision, if_pos (show UsesRsdt memory rsdp from .inl hrevision)]
        exact run_walkRsdt
      · rw [if_neg hrevision, run_bind, run_header]
        by_cases hxsdt : loadBytes memory (rsdp + 24) 8 = 0
        · rw [if_pos hxsdt, if_pos (show UsesRsdt memory rsdp from .inr hxsdt)]
          exact run_walkRsdt
        · rw [if_neg hxsdt, if_neg (show ¬ UsesRsdt memory rsdp from fun h => h.elim hrevision hxsdt)]
          exact run_walkXsdt hfuel
    · have hnot : ¬ IsRsdp memory rsdp := fun h => hsig h.2
      rw [if_pos hsig, if_neg hnot]
      rfl

/-- The fields of the tables lie in them when the RSDT has its header and the table that is found its fields. -/
theorem allAsked_acpiDiscovery (hfuel : 2 ^ 32 ≤ fuel) :
    AllAsked (tables memory) (InDeclared memory) (acpiDiscovery rsdp signature fuel) () ↔
      RsdtOk memory rsdp ∧ EntriesInside memory signature (listedTables memory rsdp) := by
  have hrsdt : IsRsdp memory rsdp → UsesRsdt memory rsdp →
      (AllAsked (tables memory) (InDeclared memory) (walkRsdt rsdp signature fuel) () ↔ RsdtOk memory rsdp ∧
        EntriesInside memory signature (rootTables memory (rsdtOf memory rsdp) 4)) := by
    intro hrsdp huses
    by_cases hlength : sizeofHeader ≤ declaredLength memory (rsdtOf memory rsdp)
    · have hok : RsdtOk memory rsdp := fun _ _ => hlength
      rw [allAsked_walkRsdt hlength, and_iff_right hok]
    · have hnot : ¬ RsdtOk memory rsdp := fun h => hlength (h hrsdp huses)
      exact iff_of_false (not_allAsked_walkRsdt (by omega)) fun h => hnot h.1
  rw [acpiDiscovery, listedTables]
  by_cases hzero : rsdp = 0
  · have hnot : ¬ IsRsdp memory rsdp := fun h => h.1 hzero
    rw [if_pos hzero, if_neg hnot]
    exact iff_of_true (allAsked_pure _ _ _) ⟨fun h => absurd h hnot, entriesInside_nil⟩
  · rw [if_neg hzero, allAsked_header_bind, Nat.add_zero]
    by_cases hsig : loadBytes memory rsdp 8 = rsdpWord
    · have hrsdp : IsRsdp memory rsdp := ⟨hzero, hsig⟩
      rw [if_neg (not_not.mpr hsig), if_pos hrsdp, allAsked_header_bind]
      by_cases hrevision : (loadBytes memory (rsdp + 15) 1).toNat < 2
      · rw [if_pos hrevision, if_pos (show UsesRsdt memory rsdp from .inl hrevision)]
        exact hrsdt hrsdp (.inl hrevision)
      · rw [if_neg hrevision, allAsked_header_bind]
        by_cases hxsdt : loadBytes memory (rsdp + 24) 8 = 0
        · rw [if_pos hxsdt, if_pos (show UsesRsdt memory rsdp from .inr hxsdt)]
          exact hrsdt hrsdp (.inr hxsdt)
        · have hnot : ¬ UsesRsdt memory rsdp := fun h => h.elim hrevision hxsdt
          rw [if_neg hxsdt, if_neg hnot, allAsked_walkXsdt hfuel]
          exact (and_iff_right fun _ h => absurd h hnot).symm
    · have hnot : ¬ IsRsdp memory rsdp := fun h => hsig h.2
      rw [if_pos hsig, if_neg hnot]
      exact iff_of_true (allAsked_pure _ _ _) ⟨fun h => absurd h hnot, entriesInside_nil⟩

/-- What the listed tables come to. -/
def discovered (memory : Nat → BitVec 8) (signature : BitVec 32) (l : List Nat) : AcpiRet :=
  match findTable memory signature l with
  | none => { status := 1 }
  | some table => tableResult memory signature table

theorem entriesRun_eq (hfuel : 2 ^ 32 ≤ fuel) (l : List Nat) :
    entriesRun memory fuel signature l = some (discovered memory signature l) := by
  rw [entriesRun, discovered]
  cases findTable memory signature l with
  | none => rfl
  | some table => exact run_handleTable (Nat.lt_of_lt_of_le (declaredLength_lt table) hfuel)

end

/-! ## When the discovery is right -/

section

variable (memory : Nat → BitVec 8) (rsdp : Nat) (signature : BitVec 32)

/-- With all the fuel it needs the discovery returns this. -/
def Returns (r : AcpiRet) : Prop :=
  ∃ N, ∀ fuel, N ≤ fuel → (run (tables memory) (acpiDiscovery rsdp signature fuel) ()).1 = some r

/-- It ends, it reads the fields of a table inside the table, an RSDT is as good as an XSDT, and what it says of the
I/O APIC is what the MADT says. -/
structure DiscoveryRight : Prop where
  terminates : ∃ r, Returns memory rsdp signature r
  inside : ∃ N, ∀ fuel, N ≤ fuel →
    AllAsked (tables memory) (InDeclared memory) (acpiDiscovery rsdp signature fuel) ()
  sameTables : IsRsdp memory rsdp → UsesRsdt memory rsdp → ∀ rsdp', IsRsdp memory rsdp' → ¬ UsesRsdt memory rsdp' →
    IsXsdt memory (xsdtOf memory rsdp') → listedTables memory rsdp' = listedTables memory rsdp →
    ∀ r, Returns memory rsdp signature r ↔ Returns memory rsdp' signature r
  ioApic : signature = MADT_sig → ∀ r, Returns memory rsdp signature r →
    (∀ madt offset, findTable memory signature (listedTables memory rsdp) = some madt →
      FirstIoApic memory madt offset → r.status = 0 ∧ r.address = ioApicAddress memory madt offset) ∧
    (r.status = 1 ↔ ∀ madt, findTable memory signature (listedTables memory rsdp) = some madt →
      ∀ offset, ¬ FirstIoApic memory madt offset)

/-- The RSDT has its header, and the table that is found its fields. -/
def TablesLongEnough : Prop :=
  RsdtOk memory rsdp ∧ EntriesInside memory signature (listedTables memory rsdp)

variable {memory rsdp signature}

/-- The discovery ends, whatever the memory holds. -/
theorem returns_iff_walked (r : AcpiRet) :
    Returns memory rsdp signature r ↔ r = discovered memory signature (walkedTables memory rsdp) := by
  have hrun : ∀ fuel, 2 ^ 32 ≤ fuel → (run (tables memory) (acpiDiscovery rsdp signature fuel) ()).1 =
      some (discovered memory signature (walkedTables memory rsdp)) := by
    intro fuel hfuel
    rw [run_acpiDiscovery hfuel, entriesRun_eq hfuel]
  constructor
  · rintro ⟨N, hN⟩
    have h := hN (max N (2 ^ 32)) (Nat.le_max_left _ _)
    rw [hrun _ (Nat.le_max_right _ _)] at h
    exact (Option.some.inj h).symm
  · rintro rfl
    exact ⟨2 ^ 32, hrun⟩

theorem returns_iff (hok : RsdtOk memory rsdp) (r : AcpiRet) :
    Returns memory rsdp signature r ↔ r = discovered memory signature (listedTables memory rsdp) := by
  rw [returns_iff_walked, walkedTables_eq hok]

/-- A MADT that lists an I/O APIC, and one that does not. -/
theorem discovered_madt (l : List Nat) :
    (∀ madt offset, findTable memory MADT_sig l = some madt → FirstIoApic memory madt offset →
      (discovered memory MADT_sig l).status = 0 ∧
        (discovered memory MADT_sig l).address = ioApicAddress memory madt offset) ∧
    ((discovered memory MADT_sig l).status = 1 ↔ ∀ madt, findTable memory MADT_sig l = some madt →
      ∀ offset, ¬ FirstIoApic memory madt offset) := by
  rw [discovered]
  cases hfind : findTable memory MADT_sig l with
  | none => exact ⟨fun _ _ h => absurd h (by simp), iff_of_true rfl fun _ h => absurd h (by simp)⟩
  | some madt =>
    dsimp only
    rw [tableResult_madt]
    constructor
    · rintro madt' offset heq hfirst
      cases heq
      rw [ioApicRecord_eq_some_iff.mpr hfirst]
      exact ⟨rfl, rfl⟩
    · cases hrecord : ioApicRecord memory madt with
      | none =>
        refine iff_of_true rfl fun madt' heq offset hfirst => ?_
        cases heq
        rw [ioApicRecord_eq_some_iff.mpr hfirst] at hrecord
        cases hrecord
      | some offset =>
        refine iff_of_false Nat.zero_ne_one fun h => ?_
        exact h madt rfl offset (ioApicRecord_eq_some_iff.mp hrecord)

theorem DiscoveryRight.longEnough (h : DiscoveryRight memory rsdp signature) :
    TablesLongEnough memory rsdp signature := by
  obtain ⟨N, hN⟩ := h.inside
  exact (allAsked_acpiDiscovery (Nat.le_max_right N (2 ^ 32))).mp (hN _ (Nat.le_max_left _ _))

/-- **The discovery is right exactly when the tables are long enough.** -/
theorem discovery_right_iff (memory : Nat → BitVec 8) (rsdp : Nat) (signature : BitVec 32) :
    DiscoveryRight memory rsdp signature ↔ TablesLongEnough memory rsdp signature := by
  constructor
  · exact fun h => h.longEnough
  · intro h
    refine ⟨⟨_, (returns_iff h.1 _).mpr rfl⟩, ⟨2 ^ 32, fun fuel hfuel => (allAsked_acpiDiscovery hfuel).mpr h⟩,
      fun _ _ rsdp' hrsdp' huses' _ hlisted r => ?_, ?_⟩
    · have hok' : RsdtOk memory rsdp' := fun _ hr => absurd hr huses'
      rw [returns_iff h.1, returns_iff hok', hlisted]
    · rintro rfl r hr
      rw [(returns_iff h.1 r).mp hr]
      exact discovered_madt _

end

/-- An RSDP of ACPI 1.0 with an RSDT of the length `rsdtLength`, whose first entry is a FADT of 116 bytes. -/
def acpi1Memory (rsdtLength : BitVec 8) : Nat → BitVec 8 := fun a =>
  if 0x1000 ≤ a ∧ a < 0x1008 then rsdpWord.extractLsb' (8 * (a - 0x1000)) 8
  else if a = 0x1011 then 0x20
  else if a = 0xffff900000002004 then rsdtLength
  else if a = 0xffff900000002025 then 0x30
  else if 0xffff900000003000 ≤ a ∧ a < 0xffff900000003004 then FACP_sig.extractLsb' (8 * (a - 0xffff900000003000)) 8
  else if a = 0xffff900000003004 then 116
  else 0

/-- The FADT of ACPI 1.0 ends before the extended address block, and an RSDT without a header has no entries. -/
theorem not_discoveryRight :
    ¬ DiscoveryRight (acpi1Memory 40) 0x1000 FACP_sig ∧ ¬ DiscoveryRight (acpi1Memory 0) 0x1000 MADT_sig := by
  constructor
  · intro h
    have hfind : findTable (acpi1Memory 40) FACP_sig (listedTables (acpi1Memory 40) 0x1000) =
        some 0xffff900000003000 := by decide
    have hfields := h.longEnough.2 _ hfind
    exact absurd (hfields.1 rfl) (by decide)
  · intro h
    have hheader := h.longEnough.1 (by decide) (by decide)
    exact absurd hheader (by decide)

end Dem64.Acpi
