import Dem64.Lib.ByteMemory
import Dem64.Lib.Scan

/-!
# The search for the RSDP

`stage4.c` and the kernel's `acpi.c` search the same two areas for `"RSD PTR "`: the first kilobyte of the extended
BIOS data area and the BIOS area below the first MiB.  `stage4` returns the physical address, the kernel `BASE` plus
it.  The kernel searches the first area at its physical address and the second one behind `BASE`, and it adds `BASE`
to both: what it finds in the second area has `BASE` twice.

* `findRsdpLegacy_of_ebda`, `findRsdpLegacy_of_bios`, `findRsdpLegacy_of_none` say what both searches return.
* `legacyAgree_iff` is when they agree.

No address of the loops comes near the end of its type; `addr + BASE` does, and wraps.
-/

set_option autoImplicit false

namespace Dem64

open ByteMemory Scan

/-- `"RSD PTR "`. -/
def rsdpSignature : List (BitVec 8) := [0x52, 0x53, 0x44, 0x20, 0x50, 0x54, 0x52, 0x20]

/-- `"RSD PTR "` is at `addr`. -/
def rsdpAt (bytes : Nat → BitVec 8) (addr : Nat) : Bool := decide (HasBytes bytes addr rsdpSignature)

/-- `*(u16 *)a`. -/
def load16 (bytes : Nat → BitVec 8) (a : Nat) : BitVec 16 := bytes (a + 1) ++ bytes a

/-- `ebda_address`. -/
def ebdaAddress (bytes : Nat → BitVec 8) : Nat := (load16 bytes 0x40E).toNat <<< 4

/-- The search of the EBDA, the same in both programs. -/
def searchEbda (bytes : Nat → BitVec 8) : Option Nat :=
  scan (rsdpAt bytes) 16 (ebdaAddress bytes + 1024) 64 (ebdaAddress bytes)

namespace Stage4

/-- `find_rsdp_legacy` of `stage4.c`, in physical memory. -/
def findRsdpLegacy (phys : Nat → BitVec 8) : Nat :=
  match searchEbda phys with
  | some addr => addr
  | none =>
    match scan (rsdpAt phys) 16 0x100000 0x2000 0xE0000 with
    | some addr => addr
    | none => 0

end Stage4

namespace Acpi

/-- `BASE`. -/
def base : Nat := 0xFFFF900000000000

/-- `find_rsdp_legacy` of `acpi.c`, in the memory the kernel has mapped. -/
def findRsdpLegacy (memory : Nat → BitVec 8) : Nat :=
  match searchEbda memory with
  | some addr => (addr + base) % 2 ^ 64
  | none =>
    match scan (rsdpAt memory) 16 0xFFFF900000100000 0x2000 0xFFFF9000000E0000 with
    | some addr => (addr + base) % 2 ^ 64
    | none => 0

/-! ## Low memory -/

/-- The first MiB, and the kilobyte of the EBDA where it reaches beyond it, are mapped twice. -/
def LowMapped (phys memory : Nat → BitVec 8) : Prop :=
  ∀ a, a < 0x100000 ∨ ebdaAddress phys ≤ a ∧ a < ebdaAddress phys + 1024 →
    memory a = phys a ∧ memory (base + a) = phys a

/-- A step of the search of the EBDA. -/
def InEbda (phys : Nat → BitVec 8) (a : Nat) : Prop := ∃ i, i < 64 ∧ a = ebdaAddress phys + i * 16

/-- A step of the search of the BIOS area. -/
def InBios (a : Nat) : Prop := ∃ i, i < 0x2000 ∧ a = 0xE0000 + i * 16

variable {phys memory : Nat → BitVec 8} {a : Nat}

theorem ebdaAddress_eq : ebdaAddress phys = (load16 phys 0x40E).toNat * 16 := Nat.shiftLeft_eq _ 4

theorem ebdaAddress_lt : ebdaAddress phys < 0x100000 := by
  have h := (load16 phys 0x40E).isLt
  rw [ebdaAddress_eq]
  omega

/-- Equal bytes spell the same. -/
theorem hasBytes_shift {bytes bytes' : Nat → BitVec 8} {d : Nat} {l : List (BitVec 8)}
    (h : ∀ x, a ≤ x → x < a + l.length → bytes' (d + x) = bytes x) :
    HasBytes bytes' (d + a) l ↔ HasBytes bytes a l := by
  induction l generalizing a with
  | nil => exact Iff.rfl
  | cons b l ih =>
    rw [List.length_cons] at h
    rw [HasBytes, HasBytes, h a (Nat.le_refl a) (by omega), Nat.add_assoc,
      ih fun x h1 h2 => h x (by omega) (by omega)]

theorem rsdpAt_eq {bytes bytes' : Nat → BitVec 8} {d : Nat}
    (h : ∀ x, a ≤ x → x < a + 8 → bytes' (d + x) = bytes x) : rsdpAt bytes' (d + a) = rsdpAt bytes a := by
  rw [rsdpAt, rsdpAt, decide_eq_decide]
  exact hasBytes_shift h

theorem rsdpAt_iff {bytes : Nat → BitVec 8} : rsdpAt bytes a = true ↔ HasBytes bytes a rsdpSignature :=
  decide_eq_true_iff

/-! ## The two areas -/

theorem of_searchEbda_eq_some (h : searchEbda phys = some a) :
    InEbda phys a ∧ HasBytes phys a rsdpSignature := by
  obtain ⟨hin, hp⟩ := of_scan_eq_some (n := 64) (by decide) (by omega) (Nat.le_refl 64) h
  exact ⟨hin, rsdpAt_iff.mp hp⟩

theorem searchEbda_eq_none_iff :
    searchEbda phys = none ↔ ∀ a, InEbda phys a → ¬ HasBytes phys a rsdpSignature := by
  rw [searchEbda, scan_eq_none_iff (n := 64) (by decide) (by omega) (Nat.le_refl 64)]
  constructor
  · rintro h _ ⟨i, hi, rfl⟩
    exact of_decide_eq_false (h i hi)
  · exact fun h i hi => decide_eq_false (h _ ⟨i, hi, rfl⟩)

/-- The search of the BIOS area, in physical memory. -/
theorem searchBios_eq_none_iff :
    scan (rsdpAt phys) 16 0x100000 0x2000 0xE0000 = none ↔
      ∀ a, InBios a → ¬ HasBytes phys a rsdpSignature := by
  rw [scan_eq_none_iff (n := 0x2000) (by decide) (by decide) (Nat.le_refl _)]
  constructor
  · rintro h _ ⟨i, hi, rfl⟩
    exact of_decide_eq_false (h i hi)
  · exact fun h i hi => decide_eq_false (h _ ⟨i, hi, rfl⟩)

theorem InEbda.mapped (hmap : LowMapped phys memory) (ha : InEbda phys a) {x : Nat} (h1 : a ≤ x) (h2 : x < a + 8) :
    memory x = phys x ∧ memory (base + x) = phys x := by
  obtain ⟨i, hi, rfl⟩ := ha
  exact hmap x (.inr ⟨by omega, by omega⟩)

theorem InBios.mapped (hmap : LowMapped phys memory) (ha : InBios a) {x : Nat} (h1 : a ≤ x) (h2 : x < a + 8) :
    memory x = phys x ∧ memory (base + x) = phys x := by
  obtain ⟨i, hi, rfl⟩ := ha
  exact hmap x (.inl (by omega))

/-- The kernel finds the EBDA where it is. -/
theorem ebdaAddress_memory (hmap : LowMapped phys memory) : ebdaAddress memory = ebdaAddress phys := by
  rw [ebdaAddress, ebdaAddress, load16, load16, (hmap 0x40E (.inl (by decide))).1,
    (hmap (0x40E + 1) (.inl (by decide))).1]

/-- In the EBDA both programs find the same. -/
theorem searchEbda_memory (hmap : LowMapped phys memory) : searchEbda memory = searchEbda phys := by
  have hpq : ∀ i, i < 64 →
      rsdpAt memory (ebdaAddress phys + i * 16) = rsdpAt phys (ebdaAddress phys + i * 16) := by
    intro i hi
    have h := @rsdpAt_eq (ebdaAddress phys + i * 16) phys memory 0
      fun x h1 h2 => by rw [Nat.zero_add]; exact (InEbda.mapped hmap ⟨i, hi, rfl⟩ h1 h2).1
    rwa [Nat.zero_add] at h
  have hshift := @scan_eq_shift _ _ _ (ebdaAddress phys + 1024) _ _ _ _ (ebdaAddress phys + 1024) (by decide)
    (by omega) (by omega) (Nat.le_refl 64) hpq
  rw [searchEbda, ebdaAddress_memory hmap, hshift, searchEbda]
  cases hs : scan (rsdpAt phys) 16 (ebdaAddress phys + 1024) 64 (ebdaAddress phys) with
  | none => rfl
  | some a =>
    obtain ⟨⟨i, -, rfl⟩, -⟩ := of_scan_eq_some (n := 64) (by decide) (by omega) (Nat.le_refl 64) hs
    rw [Option.map_some, Nat.add_sub_cancel_left]

/-- In the BIOS area the kernel finds `BASE` plus what `stage4` finds. -/
theorem searchBios_memory (hmap : LowMapped phys memory) :
    scan (rsdpAt memory) 16 0xFFFF900000100000 0x2000 0xFFFF9000000E0000 =
      (scan (rsdpAt phys) 16 0x100000 0x2000 0xE0000).map fun a => base + a := by
  have hpq : ∀ i, i < 0x2000 →
      rsdpAt memory (0xFFFF9000000E0000 + i * 16) = rsdpAt phys (0xE0000 + i * 16) := by
    intro i hi
    have h := @rsdpAt_eq (0xE0000 + i * 16) phys memory base
      fun x h1 h2 => (InBios.mapped hmap ⟨i, hi, rfl⟩ h1 h2).2
    rwa [← Nat.add_assoc] at h
  have hshift := @scan_eq_shift _ _ _ 0x100000 _ _ _ _ 0xFFFF900000100000 (by decide) (by omega) (by omega)
    (Nat.le_refl 0x2000) hpq
  rw [hshift]
  cases hs : scan (rsdpAt phys) 16 0x100000 0x2000 0xE0000 with
  | none => rw [Option.map_none, Option.map_none]
  | some a =>
    obtain ⟨⟨i, -, rfl⟩, -⟩ := of_scan_eq_some (n := 0x2000) (by decide) (by decide) (Nat.le_refl _) hs
    rw [Option.map_some, Option.map_some, Nat.add_sub_cancel_left, base]
    congr 1
    omega

/-! ## What the searches return -/

/-- A hit in the EBDA. -/
theorem findRsdpLegacy_of_ebda (hmap : LowMapped phys memory) (h : searchEbda phys = some a) :
    Stage4.findRsdpLegacy phys = a ∧ findRsdpLegacy memory = base + a := by
  obtain ⟨⟨i, hi, ha⟩, -⟩ := of_searchEbda_eq_some h
  have hlt := @ebdaAddress_lt phys
  rw [Stage4.findRsdpLegacy, findRsdpLegacy, searchEbda_memory hmap, h]
  refine ⟨rfl, ?_⟩
  show (a + base) % 2 ^ 64 = _
  rw [base]
  omega

/-- A hit in the BIOS area, where the kernel adds `BASE` twice. -/
theorem findRsdpLegacy_of_bios (hmap : LowMapped phys memory) (h : searchEbda phys = none)
    (hb : scan (rsdpAt phys) 16 0x100000 0x2000 0xE0000 = some a) :
    Stage4.findRsdpLegacy phys = a ∧ findRsdpLegacy memory = 0xFFFF200000000000 + a := by
  obtain ⟨⟨i, hi, ha⟩, -⟩ := of_scan_eq_some (n := 0x2000) (by decide) (by decide) (Nat.le_refl _) hb
  rw [Stage4.findRsdpLegacy, findRsdpLegacy, searchEbda_memory hmap, h, searchBios_memory hmap, hb]
  refine ⟨rfl, ?_⟩
  show (base + a + base) % 2 ^ 64 = _
  rw [base]
  omega

/-- No hit. -/
theorem findRsdpLegacy_of_none (hmap : LowMapped phys memory) (h : searchEbda phys = none)
    (hb : scan (rsdpAt phys) 16 0x100000 0x2000 0xE0000 = none) :
    Stage4.findRsdpLegacy phys = 0 ∧ findRsdpLegacy memory = 0 := by
  rw [Stage4.findRsdpLegacy, findRsdpLegacy, searchEbda_memory hmap, h, searchBios_memory hmap, hb]
  exact ⟨rfl, rfl⟩

/-! ## Agreement -/

/-- The two searches agree, and the kernel's ends at the signature. -/
structure LegacyAgree (phys memory : Nat → BitVec 8) : Prop where
  hit : ∀ a, a ≠ 0 → (findRsdpLegacy memory = base + a ↔ Stage4.findRsdpLegacy phys = a)
  miss : findRsdpLegacy memory = 0 ↔ Stage4.findRsdpLegacy phys = 0
  signed : findRsdpLegacy memory ≠ 0 → HasBytes memory (findRsdpLegacy memory) rsdpSignature

/-- **The searches agree when the signature is not at address 0 of an EBDA that starts there, and is in the BIOS area
only if it is in the EBDA as well.** -/
theorem legacyAgree_iff (hmap : LowMapped phys memory) :
    LegacyAgree phys memory ↔
      ¬ (ebdaAddress phys = 0 ∧ HasBytes phys 0 rsdpSignature) ∧
        ((∃ a, InEbda phys a ∧ HasBytes phys a rsdpSignature) ∨
          ∀ a, InBios a → ¬ HasBytes phys a rsdpSignature) := by
  cases he : searchEbda phys with
  | some a =>
    obtain ⟨hin, hsig⟩ := of_searchEbda_eq_some he
    obtain ⟨hstage, hkernel⟩ := findRsdpLegacy_of_ebda hmap he
    by_cases ha : a = 0
    · -- `stage4` returns 0, which means nothing is found
      subst ha
      obtain ⟨i, -, hi⟩ := hin
      constructor
      · intro h
        have h0 := h.miss.mpr hstage
        rw [hkernel, base] at h0
        omega
      · rintro ⟨h, -⟩
        exact absurd ⟨by omega, hsig⟩ h
    · constructor
      · intro _
        refine ⟨?_, .inl ⟨a, hin, hsig⟩⟩
        rintro ⟨h0, hsig0⟩
        have hfirst : searchEbda phys = some 0 := by
          rw [searchEbda, h0]
          exact scan_eq_start (rsdpAt_iff.mpr hsig0) (by decide)
        rw [he] at hfirst
        exact ha (Option.some.inj hfirst)
      · intro _
        refine ⟨fun b _ => ?_, ?_, fun _ => ?_⟩
        · rw [hstage, hkernel]
          omega
        · rw [hstage, hkernel, base]
          omega
        · rw [hkernel]
          exact (hasBytes_shift (l := rsdpSignature) fun x h1 h2 => (hin.mapped hmap h1 h2).2).mpr hsig
  | none =>
    have hnone := searchEbda_eq_none_iff.mp he
    cases hb : scan (rsdpAt phys) 16 0x100000 0x2000 0xE0000 with
    | some a =>
      obtain ⟨⟨i, hi, ha⟩, hp⟩ := of_scan_eq_some (n := 0x2000) (by decide) (by decide) (Nat.le_refl _) hb
      obtain ⟨hstage, hkernel⟩ := findRsdpLegacy_of_bios hmap he hb
      constructor
      · intro h
        have hwrong := (h.hit a (by omega)).mpr hstage
        rw [hkernel, base] at hwrong
        omega
      · rintro ⟨-, ⟨b, hin, hsig⟩ | hbios⟩
        · exact absurd hsig (hnone b hin)
        · exact absurd (rsdpAt_iff.mp hp) (hbios a ⟨i, hi, ha⟩)
    | none =>
      have hbios := searchBios_eq_none_iff.mp hb
      obtain ⟨hstage, hkernel⟩ := findRsdpLegacy_of_none hmap he hb
      refine ⟨fun _ => ⟨?_, .inr hbios⟩, fun _ => ⟨fun b hb0 => ?_, ?_, fun h => absurd hkernel h⟩⟩
      · rintro ⟨h0, hsig⟩
        exact hnone 0 ⟨0, by decide, by omega⟩ hsig
      · rw [hstage, hkernel, base]
        omega
      · rw [hstage, hkernel]

/-! ## Two memories -/

/-- Physical memory with the signature at `a` and the EBDA at `0x9FC00`. -/
def signedAt (a : Nat) : Nat → BitVec 8 := putBytes (putBytes (fun _ => 0) 0x40E [0xC0, 0x9F]) a rsdpSignature

/-- The kernel's memory: low memory at its address and behind `BASE`. -/
def lowMapped (phys : Nat → BitVec 8) (a : Nat) : BitVec 8 := if a < base then phys a else phys (a - base)

theorem lowMapped_spec : LowMapped phys (lowMapped phys) := by
  intro a ha
  have hlt := @ebdaAddress_lt phys
  constructor
  · exact if_pos (by rw [base]; omega)
  · rw [lowMapped, if_neg (by omega), Nat.add_sub_cancel_left]

/-- With the signature in the EBDA the searches agree. -/
theorem legacyAgree_signedAt : LegacyAgree (signedAt 0x9FC10) (lowMapped (signedAt 0x9FC10)) :=
  (legacyAgree_iff lowMapped_spec).mpr
    ⟨by decide +kernel, .inl ⟨0x9FC10, ⟨1, by decide, by decide +kernel⟩, by decide +kernel⟩⟩

/-- With the signature at the start of the BIOS area `stage4` finds it, and the kernel returns an address with `BASE`
twice. -/
theorem not_legacyAgree : ¬ ∀ phys memory, LowMapped phys memory → LegacyAgree phys memory := by
  intro h
  have hagree := h _ _ (@lowMapped_spec (signedAt 0xE0000))
  have hstage : Stage4.findRsdpLegacy (signedAt 0xE0000) = 0xE0000 := by decide +kernel
  have hkernel : findRsdpLegacy (lowMapped (signedAt 0xE0000)) = 0xFFFF2000000E0000 := by decide +kernel
  have hwrong := (hagree.hit 0xE0000 (by decide)).mpr hstage
  rw [hkernel, base] at hwrong
  omega

end Acpi

end Dem64
