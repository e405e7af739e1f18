import Dem64.Pci.Bar

/-!
# The size of a BAR

A BAR implements the address bits from `k` up to the width of its kind, and these bits are read-write; the bits below
them are zero or say the kind.  Reading the BAR back with ones in it gives a mask of these bits, and `~mask + 1` is
`2 ^ k` if the mask reaches the end of the register.  That of an I/O BAR with sixteen bits does not.
-/

set_option autoImplicit false

namespace Dem64

namespace Pci

open Interaction Interaction.Prog

/-! ## BARs -/

/-- The kinds of a BAR in a header of type 0. -/
inductive BarKind
  | unimplemented
  /-- An I/O BAR with all address bits, or with the low sixteen. -/
  | io (allBits : Bool)
  | memory32 (below1M prefetchable : Bool)
  | memory64 (prefetchable : Bool)
deriving DecidableEq

namespace BarKind

/-- The first bit of the address. -/
def low : BarKind → Nat
  | unimplemented => 0
  | io _ => 2
  | memory32 _ _ => 4
  | memory64 _ => 4

/-- The end of the address. -/
def top : BarKind → Nat
  | unimplemented => 0
  | io allBits => if allBits then 32 else 16
  | memory32 _ _ => 32
  | memory64 _ => 64

/-- The hardwired bits that say the kind. -/
def typeBits : BarKind → BitVec 32
  | unimplemented => 0
  | io _ => 1
  | memory32 below1M prefetchable => (if below1M then 2 else 0) ||| (if prefetchable then 8 else 0)
  | memory64 prefetchable => 4 ||| (if prefetchable then 8 else 0)

end BarKind

/-- A BAR of size `2 ^ k` that is programmed with an address. -/
structure LegalBar where
  kind : BarKind
  k : Nat
  address : BitVec 64
  range : kind ≠ .unimplemented → kind.low ≤ k ∧ k < kind.top
  aligned : 2 ^ k ∣ address.toNat
  fits : address.toNat < 2 ^ kind.top

/-- The size of a BAR. -/
def LegalBar.size (bar : LegalBar) : Nat := if bar.kind = .unimplemented then 0 else 2 ^ bar.k

/-- The bits of a dword from `first` on are those of the address, and the implemented ones are read-write. -/
structure HasDword (layout : Layout) (space : Space) (offset : Nat) (bar : LegalBar) (first : Nat) : Prop where
  keeps : layout.KeepsDword offset
  writable : ∀ i, i < 32 →
    (dwordAt layout.writable offset).getLsbD i = decide (bar.k ≤ first + i ∧ first + i < bar.kind.top)

/-- The BAR is the one with the index. -/
structure HasBar (layout : Layout) (space : Space) (index : Nat) (bar : LegalBar) : Prop where
  low : HasDword layout space (16 + 4 * index) bar 0
  value : dwordAt space (16 + 4 * index) = bar.address.setWidth 32 ||| bar.kind.typeBits
  high : ∀ prefetchable, bar.kind = .memory64 prefetchable → index ≤ 4 ∧
    HasDword layout space (16 + 4 * (index + 1)) bar 32 ∧
    dwordAt space (16 + 4 * (index + 1)) = bar.address.extractLsb' 32 32

/-! ## Bits -/

/-- The complement of a mask of the high bits, plus one, is the lowest of them. -/
theorem not_add_one_of_mask {w k : Nat} (mask : BitVec w)
    (h : ∀ i, i < w → mask.getLsbD i = decide (k ≤ i)) : ~~~mask + 1 = BitVec.ofNat w (2 ^ k) := by
  have hnot : ~~~mask = BitVec.ofNat w (2 ^ k - 1) := by
    apply BitVec.eq_of_getLsbD_eq
    intro i hi
    rw [BitVec.getLsbD_not, h i hi, BitVec.getLsbD_ofNat, Nat.testBit_two_pow_sub_one, decide_eq_true hi]
    by_cases hik : i < k
    · simp [hik]
    · simp [hik, Nat.le_of_not_lt hik]
  have hpos : 0 < 2 ^ k := Nat.two_pow_pos k
  rw [hnot, show (1 : BitVec w) = BitVec.ofNat w 1 from rfl, ← BitVec.ofNat_add, Nat.sub_add_cancel hpos]

/-- The bits of an aligned address. -/
theorem LegalBar.getLsbD_address (bar : LegalBar) {i : Nat} (h : i < bar.k ∨ bar.kind.top ≤ i) :
    bar.address.getLsbD i = false := by
  rw [← BitVec.testBit_toNat]
  rcases h with h | h
  · obtain ⟨c, hc⟩ := bar.aligned
    rw [hc, Nat.testBit_two_pow_mul, decide_eq_false (by omega), Bool.false_and]
  · exact Nat.testBit_lt_two_pow (Nat.lt_of_lt_of_le bar.fits (Nat.pow_le_pow_right (by decide) h))

/-- The type bits are below the address. -/
theorem BarKind.getLsbD_typeBits (kind : BarKind) {i : Nat} (h : kind.low ≤ i) : kind.typeBits.getLsbD i = false := by
  have hlt : kind.typeBits.toNat < 2 ^ kind.low := by
    cases kind with
    | unimplemented => decide
    | io allBits => exact (by decide : (1 : BitVec 32).toNat < 2 ^ 2)
    | memory32 below1M prefetchable => cases below1M <;> cases prefetchable <;> decide
    | memory64 prefetchable => cases prefetchable <;> decide
  rw [← BitVec.testBit_toNat]
  exact Nat.testBit_lt_two_pow (Nat.lt_of_lt_of_le hlt (Nat.pow_le_pow_right (by decide) h))

/-- A mask that leaves out the low bits. -/
theorem getLsbD_and_not {l i : Nat} (x : BitVec 32) (hi : i < 32) :
    (x &&& ~~~(BitVec.ofNat 32 (2 ^ l - 1))).getLsbD i = (x.getLsbD i && decide (l ≤ i)) := by
  rw [BitVec.getLsbD_and, BitVec.getLsbD_not, BitVec.getLsbD_ofNat, Nat.testBit_two_pow_sub_one, decide_eq_true hi]
  by_cases h : l ≤ i
  · simp [h, Nat.not_lt.mpr h]
  · simp [h, Nat.lt_of_not_le h]

namespace LegalBar

variable (bar : LegalBar)

/-- The first dword. -/
def lowDword : BitVec 32 := bar.address.setWidth 32 ||| bar.kind.typeBits

/-- The address starts at `l`, and the type bits end before it. -/
def StartsAt (l : Nat) : Prop := bar.kind.low ≤ l ∧ ∀ i, i < l → i < bar.k ∨ bar.kind.top ≤ i

variable {bar} {l : Nat}

theorem startsAt_of_le (h : bar.kind.low = l) : bar.StartsAt l := by
  refine ⟨Nat.le_of_eq h, fun i hi => ?_⟩
  by_cases hu : bar.kind = .unimplemented
  · rw [hu] at h
    exact absurd hi (by rw [← h]; exact Nat.not_lt_zero i)
  · have := bar.range hu
    omega

theorem startsAt_of_unimplemented (h : bar.kind = .unimplemented) : bar.StartsAt l := by
  refine ⟨?_, fun i _ => .inr ?_⟩
  · rw [h]
    exact Nat.zero_le l
  · rw [h]
    exact Nat.zero_le i

/-- Without the type bits the first dword is the low half of the address. -/
theorem lowDword_and (h : bar.StartsAt l) :
    bar.lowDword &&& ~~~(BitVec.ofNat 32 (2 ^ l - 1)) = bar.address.setWidth 32 := by
  apply BitVec.eq_of_getLsbD_eq
  intro i hi
  rw [getLsbD_and_not _ hi, lowDword, BitVec.getLsbD_or, BitVec.getLsbD_setWidth, decide_eq_true hi, Bool.true_and]
  by_cases hl : l ≤ i
  · rw [bar.kind.getLsbD_typeBits (Nat.le_trans h.1 hl), Bool.or_false, decide_eq_true hl, Bool.and_true]
  · rw [decide_eq_false hl, Bool.and_false, bar.getLsbD_address (h.2 i (Nat.lt_of_not_le hl))]

/-- The mask of a dword that has been read back has the implemented bits. -/
theorem mask_low (h : bar.StartsAt l) {size : BitVec 32}
    (hsize : ∀ i, i < 32 → size.getLsbD i =
      if decide (bar.k ≤ i ∧ i < bar.kind.top) = true then true else bar.lowDword.getLsbD i) {i : Nat} (hi : i < 32) :
    (size &&& ~~~(BitVec.ofNat 32 (2 ^ l - 1))).getLsbD i = decide (bar.k ≤ i ∧ i < bar.kind.top) := by
  rw [getLsbD_and_not _ hi, hsize i hi]
  by_cases hin : bar.k ≤ i ∧ i < bar.kind.top
  · have hl : l ≤ i := by
      rcases Nat.lt_or_ge i l with hlt | hge
      · have := h.2 i hlt
        omega
      · exact hge
    rw [decide_eq_true hin, if_pos rfl, decide_eq_true hl]
    rfl
  · rw [decide_eq_false hin, if_neg Bool.false_ne_true, ← getLsbD_and_not _ hi, lowDword_and h,
      BitVec.getLsbD_setWidth, bar.getLsbD_address (by omega), Bool.and_false]

/-- The low bits of the first dword are the type bits. -/
theorem lowDword_mod (h : bar.StartsAt l) :
    bar.lowDword.toNat % 2 ^ l = bar.kind.typeBits.toNat % 2 ^ l := by
  apply Nat.eq_of_testBit_eq
  intro i
  rw [Nat.testBit_mod_two_pow, Nat.testBit_mod_two_pow]
  by_cases hi : i < l
  · rw [BitVec.testBit_toNat, BitVec.testBit_toNat, lowDword, BitVec.getLsbD_or, BitVec.getLsbD_setWidth,
      bar.getLsbD_address (h.2 i hi), Bool.and_false, Bool.false_or]
  · rw [decide_eq_false hi, Bool.false_and, Bool.false_and]

end LegalBar

/-- What the code asks about the kind. -/
theorem barType_eq_io_iff {x : BitVec 32} : barType x = PCI_BAR_IO ↔ x.toNat % 2 = 1 := by
  have hand : (x &&& 1).toNat = x.toNat % 2 := by
    rw [BitVec.toNat_and]
    exact Nat.and_two_pow_sub_one_eq_mod x.toNat 1
  have hzero : x &&& 1 = 0 ↔ x.toNat % 2 = 0 := by
    rw [← hand]
    exact ⟨fun h => congrArg BitVec.toNat h, fun h => BitVec.eq_of_toNat_eq h⟩
  rw [barType]
  split
  next h =>
    have := mt hzero.mpr h
    exact iff_of_true rfl (by omega)
  next h =>
    have := hzero.mp (not_not.mp h)
    exact iff_of_false (by decide) (by omega)

theorem isMemory64_iff {x : BitVec 32} : IsMemory64 x ↔ x.toNat % 2 = 0 ∧ x.toNat / 2 % 4 = 2 := by
  have hand : (x >>> 1 &&& 3).toNat = x.toNat / 2 % 4 := by
    rw [BitVec.toNat_and, BitVec.toNat_ushiftRight, Nat.shiftRight_eq_div_pow]
    exact Nat.and_two_pow_sub_one_eq_mod _ 2
  have htwo : x >>> 1 &&& 3 = 2 ↔ x.toNat / 2 % 4 = 2 := by
    rw [← hand]
    exact ⟨fun h => congrArg BitVec.toNat h, fun h => BitVec.eq_of_toNat_eq h⟩
  rw [IsMemory64, Ne, barType_eq_io_iff, htwo]
  omega

namespace LegalBar

variable {bar : LegalBar}

/-- The code takes an I/O BAR for one. -/
theorem decode_io {allBits : Bool} (h : bar.kind = .io allBits) :
    barType bar.lowDword = PCI_BAR_IO ∧ ¬ IsMemory64 bar.lowDword := by
  have hstart : bar.StartsAt 2 := startsAt_of_le (by rw [h]; rfl)
  have hmod := lowDword_mod hstart
  rw [h, show (BarKind.io allBits).typeBits.toNat % 2 ^ 2 = 1 from rfl] at hmod
  rw [barType_eq_io_iff, isMemory64_iff]
  omega

/-- The code takes a 32-bit memory BAR for one, and one that is not there. -/
theorem decode_memory32
    (h : bar.kind = .unimplemented ∨ ∃ below1M prefetchable, bar.kind = .memory32 below1M prefetchable) :
    bar.StartsAt 4 ∧ barType bar.lowDword ≠ PCI_BAR_IO ∧ ¬ IsMemory64 bar.lowDword := by
  rcases h with h | ⟨below1M, prefetchable, h⟩
  · have hstart : bar.StartsAt 4 := startsAt_of_unimplemented h
    have hmod := lowDword_mod hstart
    rw [h, show BarKind.unimplemented.typeBits.toNat % 2 ^ 4 = 0 from rfl] at hmod
    rw [Ne, barType_eq_io_iff, isMemory64_iff]
    exact ⟨hstart, by omega, by omega⟩
  · have hstart : bar.StartsAt 4 := startsAt_of_le (by rw [h]; rfl)
    have hmod := lowDword_mod hstart
    have htype : (BarKind.memory32 below1M prefetchable).typeBits.toNat % 2 ^ 4 % 2 = 0 ∧
        (BarKind.memory32 below1M prefetchable).typeBits.toNat % 2 ^ 4 / 2 % 4 ≤ 1 := by
      cases below1M <;> cases prefetchable <;> decide
    rw [h] at hmod
    rw [Ne, barType_eq_io_iff, isMemory64_iff]
    exact ⟨hstart, by omega, by omega⟩

/-- The code takes a 64-bit memory BAR for one. -/
theorem decode_memory64 {prefetchable : Bool} (h : bar.kind = .memory64 prefetchable) :
    bar.StartsAt 4 ∧ barType bar.lowDword ≠ PCI_BAR_IO ∧ IsMemory64 bar.lowDword := by
  have hstart : bar.StartsAt 4 := startsAt_of_le (by rw [h]; rfl)
  have hmod := lowDword_mod hstart
  have htype : (BarKind.memory64 prefetchable).typeBits.toNat % 2 ^ 4 % 2 = 0 ∧
      (BarKind.memory64 prefetchable).typeBits.toNat % 2 ^ 4 / 2 % 4 = 2 := by
    cases prefetchable <;> decide
  rw [h] at hmod
  rw [Ne, barType_eq_io_iff, isMemory64_iff]
  exact ⟨hstart, by omega, by omega⟩

/-- An address below `2 ^ 32` is its low half. -/
theorem setWidth_address (h : bar.kind.top ≤ 32) : (bar.address.setWidth 32).setWidth 64 = bar.address := by
  apply BitVec.eq_of_getLsbD_eq
  intro i hi
  rw [BitVec.getLsbD_setWidth, BitVec.getLsbD_setWidth, decide_eq_true hi, Bool.true_and]
  by_cases h32 : i < 32
  · rw [decide_eq_true h32, Bool.true_and]
  · rw [decide_eq_false h32, Bool.false_and, bar.getLsbD_address (.inr (by omega))]

/-- **The address is read right.** -/
theorem barAddress_eq {high : BitVec 32}
    (hhigh : ∀ prefetchable, bar.kind = .memory64 prefetchable → high = bar.address.extractLsb' 32 32) :
    barAddress bar.lowDword high = bar.address := by
  have h32 : bar.kind = .unimplemented ∨ (∃ below1M prefetchable, bar.kind = .memory32 below1M prefetchable) →
      barAddress bar.lowDword high = bar.address := by
    intro h
    obtain ⟨hstart, hio, hm⟩ := decode_memory32 h
    have htop : bar.kind.top ≤ 32 := by
      rcases h with h | ⟨_, _, h⟩
      · rw [h]
        exact Nat.zero_le 32
      · rw [h]
        exact Nat.le_refl 32
    rw [barAddress, if_neg hio, if_neg hm]
    exact (congrArg (BitVec.setWidth 64) (lowDword_and hstart)).trans (setWidth_address htop)
  cases hk : bar.kind with
  | unimplemented => exact h32 (.inl hk)
  | memory32 below1M prefetchable => exact h32 (.inr ⟨below1M, prefetchable, hk⟩)
  | io allBits =>
    have hstart : bar.StartsAt 2 := startsAt_of_le (by rw [hk]; rfl)
    have htop : bar.kind.top ≤ 32 := by
      rw [hk]
      cases allBits <;> decide
    rw [barAddress, if_pos (decode_io hk).1]
    exact (congrArg (BitVec.setWidth 64) (lowDword_and hstart)).trans (setWidth_address htop)
  | memory64 prefetchable =>
    obtain ⟨hstart, hio, hm⟩ := decode_memory64 hk
    have hlow : bar.lowDword &&& ~~~0x0f = bar.address.setWidth 32 := lowDword_and hstart
    rw [barAddress, if_neg hio, if_pos hm, hhigh prefetchable hk, hlow]
    apply BitVec.eq_of_getLsbD_eq
    intro i hi
    rw [BitVec.getLsbD_or, BitVec.getLsbD_shiftLeft, BitVec.getLsbD_setWidth, BitVec.getLsbD_setWidth,
      BitVec.getLsbD_setWidth, BitVec.getLsbD_extractLsb']
    by_cases hlt : i < 32
    · simp [hlt, hi]
    · simp [hlt, hi, show i - 32 < 64 by omega, show i - 32 < 32 by omega, show 32 + (i - 32) = i by omega]

/-! ## The size -/

/-- A 32-bit mask that reaches the end of the dword. -/
theorem size_of_mask {mask : BitVec 32} (hu : bar.kind ≠ .unimplemented) (htop : bar.kind.top = 32)
    (hmask : ∀ i, i < 32 → mask.getLsbD i = decide (bar.k ≤ i ∧ i < bar.kind.top)) :
    (if mask ≠ 0 then (~~~mask + 1).setWidth 64 else (0 : BitVec 64)).toNat = 2 ^ bar.k := by
  have hk := (bar.range hu).2
  rw [htop] at hmask hk
  have hne : mask ≠ 0 := by
    intro h0
    have hbit := hmask bar.k hk
    rw [h0, decide_eq_true ⟨Nat.le_refl _, hk⟩] at hbit
    simp at hbit
  have hlt : 2 ^ bar.k < 2 ^ 32 := Nat.pow_lt_pow_right (by decide) hk
  have hsize : ~~~mask + 1 = BitVec.ofNat 32 (2 ^ bar.k) := by
    refine not_add_one_of_mask mask fun i hi => ?_
    rw [hmask i hi, decide_eq_decide]
    omega
  rw [if_pos hne, hsize, BitVec.toNat_setWidth, BitVec.toNat_ofNat, Nat.mod_eq_of_lt hlt]
  exact Nat.mod_eq_of_lt (by omega)

/-- A mask that ends before the dword does: the size is another one. -/
theorem size_of_short_mask {mask : BitVec 32} (htop : bar.kind.top ≤ 31) (hk : bar.k < 32)
    (hmask : ∀ i, i < 32 → mask.getLsbD i = decide (bar.k ≤ i ∧ i < bar.kind.top)) :
    (if mask ≠ 0 then (~~~mask + 1).setWidth 64 else (0 : BitVec 64)).toNat ≠ 2 ^ bar.k := by
  have hpos : 0 < 2 ^ bar.k := Nat.two_pow_pos _
  have hlt : 2 ^ bar.k < 2 ^ 32 := Nat.pow_lt_pow_right (by decide) hk
  split
  next =>
    intro heq
    have hfull : ~~~(BitVec.allOnes 32 <<< bar.k) + 1 = BitVec.ofNat 32 (2 ^ bar.k) := by
      refine not_add_one_of_mask _ fun i hi => ?_
      have hlt : i - bar.k < 32 := by omega
      rw [BitVec.getLsbD_shiftLeft, BitVec.getLsbD_allOnes, decide_eq_true hi, decide_eq_true hlt, Bool.true_and,
        Bool.and_true]
      by_cases h : bar.k ≤ i
      · simp [h]
      · simp only [h, decide_false, Bool.not_eq_false', decide_eq_true_eq]
        omega
    have hsame : ~~~mask + 1 = ~~~(BitVec.allOnes 32 <<< bar.k) + 1 := by
      rw [hfull]
      apply BitVec.eq_of_toNat_eq
      have hmod := (~~~mask + 1).isLt
      rw [BitVec.toNat_setWidth] at heq
      rw [BitVec.toNat_ofNat, Nat.mod_eq_of_lt hlt]
      omega
    have hmaskeq : mask = BitVec.allOnes 32 <<< bar.k := by
      have := (BitVec.add_left_inj 1).mp hsame
      rwa [BitVec.not_inj] at this
    have hbit := hmask 31 (by decide)
    rw [hmaskeq, decide_eq_false (by omega), BitVec.getLsbD_shiftLeft, BitVec.getLsbD_allOnes] at hbit
    simp [show ¬ 31 < bar.k by omega, show 31 - bar.k < 32 by omega] at hbit
  next =>
    intro heq
    exact absurd heq (by simp only [BitVec.ofNat_eq_ofNat, BitVec.toNat_ofNat, Nat.zero_mod]; omega)

/-- A dword as it is read back: ones where it is implemented. -/
def ReadBack (bar : LegalBar) (first : Nat) (before size : BitVec 32) : Prop :=
  ∀ i, i < 32 → size.getLsbD i =
    if decide (bar.k ≤ first + i ∧ first + i < bar.kind.top) = true then true else before.getLsbD i

/-- The mask of a 64-bit BAR. -/
theorem mask_memory64 {prefetchable : Bool} (h : bar.kind = .memory64 prefetchable) {sizeLow sizeHigh : BitVec 32}
    (hlow : bar.ReadBack 0 bar.lowDword sizeLow)
    (hhigh : bar.ReadBack 32 (bar.address.extractLsb' 32 32) sizeHigh) {i : Nat} (hi : i < 64) :
    (sizeHigh.setWidth 64 <<< 32 ||| (sizeLow &&& ~~~0x0f).setWidth 64).getLsbD i = decide (bar.k ≤ i) := by
  have htop : bar.kind.top = 64 := by rw [h]; rfl
  have hmask : ∀ j, j < 32 → (sizeLow &&& ~~~0x0f).getLsbD j = decide (bar.k ≤ j ∧ j < bar.kind.top) := by
    intro j hj
    refine mask_low (decode_memory64 h).1 (fun j hj => ?_) hj
    have := hlow j hj
    rwa [Nat.zero_add] at this
  rw [BitVec.getLsbD_or, BitVec.getLsbD_shiftLeft, BitVec.getLsbD_setWidth, BitVec.getLsbD_setWidth,
    decide_eq_true hi, Bool.true_and, Bool.true_and]
  by_cases h32 : i < 32
  · rw [hmask i h32, decide_eq_true h32, Bool.not_true, Bool.false_and, Bool.false_or, decide_eq_decide]
    omega
  · have hj : i - 32 < 32 := by omega
    rw [decide_eq_false h32, Bool.not_false, Bool.true_and, BitVec.getLsbD_of_ge _ i (by omega), Bool.or_false,
      hhigh (i - 32) hj, decide_eq_true (show i - 32 < 64 by omega), Bool.true_and,
      show 32 + (i - 32) = i by omega]
    by_cases hk : bar.k ≤ i
    · rw [if_pos (by simp [hk, htop]; omega), decide_eq_true hk]
    · rw [if_neg (by simp [hk]), decide_eq_false hk, BitVec.getLsbD_extractLsb', show 32 + (i - 32) = i by omega,
        bar.getLsbD_address (.inl (by omega)), Bool.and_false]

/-- **The size is read right, except that of an I/O BAR with sixteen bits.** -/
theorem barSize_eq_iff {sizeLow sizeHigh : BitVec 32} (hlow : bar.ReadBack 0 bar.lowDword sizeLow)
    (hhigh : ∀ prefetchable, bar.kind = .memory64 prefetchable →
      bar.ReadBack 32 (bar.address.extractLsb' 32 32) sizeHigh) :
    (barSize bar.lowDword sizeLow sizeHigh).toNat = bar.size ↔ bar.kind ≠ .io false := by
  have hread : ∀ i, i < 32 → sizeLow.getLsbD i =
      if decide (bar.k ≤ i ∧ i < bar.kind.top) = true then true else bar.lowDword.getLsbD i := by
    intro i hi
    have := hlow i hi
    rwa [Nat.zero_add] at this
  cases hk : bar.kind with
  | unimplemented =>
    obtain ⟨hstart, hio, hm⟩ := decode_memory32 (.inl hk)
    have hmask : sizeLow &&& ~~~0x0f = 0 := by
      apply BitVec.eq_of_getLsbD_eq
      intro i hi
      have := mask_low hstart hread hi
      rw [hk, show BarKind.unimplemented.top = 0 from rfl, decide_eq_false (by omega)] at this
      rw [show sizeLow &&& ~~~0x0f = sizeLow &&& ~~~(BitVec.ofNat 32 (2 ^ 4 - 1)) from rfl, this]
      simp
    rw [barSize, if_neg hm, if_neg hio, hmask, size, if_pos hk]
    exact iff_of_true rfl (by simp)
  | memory32 below1M prefetchable =>
    obtain ⟨hstart, hio, hm⟩ := decode_memory32 (.inr ⟨below1M, prefetchable, hk⟩)
    have hne : bar.kind ≠ .unimplemented := by rw [hk]; simp
    have hsize := size_of_mask hne (by rw [hk]; rfl) fun i hi => mask_low hstart hread hi
    rw [barSize, if_neg hm, if_neg hio, size, if_neg hne]
    exact iff_of_true hsize (by simp)
  | io allBits =>
    have hstart : bar.StartsAt 2 := startsAt_of_le (by rw [hk]; rfl)
    obtain ⟨hio, hm⟩ := decode_io hk
    have hne : bar.kind ≠ .unimplemented := by rw [hk]; simp
    have hmask : ∀ i, i < 32 → (sizeLow &&& ~~~(BitVec.ofNat 32 (2 ^ 2 - 1))).getLsbD i =
      decide (bar.k ≤ i ∧ i < bar.kind.top) := fun i hi => mask_low hstart hread hi
    rw [barSize, if_neg hm, if_pos hio, size, if_neg hne]
    cases allBits with
    | true => exact iff_of_true (size_of_mask hne (by rw [hk]; rfl) hmask) (by simp)
    | false =>
      have htop : bar.kind.top = 16 := by rw [hk]; rfl
      have hrange := (bar.range hne).2
      exact iff_of_false (size_of_short_mask (by omega) (by omega) hmask) (by simp)
  | memory64 prefetchable =>
    obtain ⟨hstart, hio, hm⟩ := decode_memory64 hk
    have hne : bar.kind ≠ .unimplemented := by rw [hk]; simp
    have hrange := (bar.range hne).2
    rw [hk, show (BarKind.memory64 prefetchable).top = 64 from rfl] at hrange
    have hmask := fun i hi => mask_memory64 (i := i) hk hlow (hhigh prefetchable hk) hi
    have hlt : 2 ^ bar.k < 2 ^ 64 := Nat.pow_lt_pow_right (by decide) hrange
    have hnonzero : sizeHigh.setWidth 64 <<< 32 ||| (sizeLow &&& ~~~0x0f).setWidth 64 ≠ 0 := by
      intro h0
      have hbit := hmask bar.k hrange
      rw [h0, decide_eq_true (Nat.le_refl _)] at hbit
      simp at hbit
    rw [barSize, if_pos hm, size, if_neg hne]
    dsimp only
    rw [if_pos hnonzero, not_add_one_of_mask _ hmask, BitVec.toNat_ofNat, Nat.mod_eq_of_lt hlt]
    exact iff_of_true rfl (by simp)

end LegalBar

/-! ## `pci_read_bar` -/

section

variable {regions : List PciEcamRegion} {region : PciEcamRegion} {layouts : Place → Layout} {address : PciAddress}
  {barIndex : BitVec 8} {bar : LegalBar} {h : Host}

/-- A BAR is not all ones. -/
theorem LegalBar.lowDword_ne : bar.lowDword ≠ 0xffffffff := by
  intro hones
  have hmod : bar.lowDword.toNat % 4 = 3 := by rw [hones]; decide
  have heven : barType bar.lowDword ≠ PCI_BAR_IO → False := by
    rw [Ne, barType_eq_io_iff]
    omega
  cases hk : bar.kind with
  | unimplemented => exact heven (decode_memory32 (.inl hk)).2.1
  | memory32 below1M prefetchable => exact heven (decode_memory32 (.inr ⟨_, _, hk⟩)).2.1
  | memory64 prefetchable => exact heven (decode_memory64 hk).2.1
  | io allBits =>
    have hstart : bar.StartsAt 2 := startsAt_of_le (by rw [hk]; rfl)
    have hlow := lowDword_mod hstart
    rw [hk, show (BarKind.io allBits).typeBits.toNat % 2 ^ 2 = 1 from rfl] at hlow
    omega

/-- Only a 64-bit BAR is taken for one. -/
theorem LegalBar.kind_of_isMemory64 (hm : IsMemory64 bar.lowDword) :
    ∃ prefetchable, bar.kind = .memory64 prefetchable := by
  cases hk : bar.kind with
  | unimplemented => exact absurd hm (decode_memory32 (.inl hk)).2.2
  | memory32 below1M prefetchable => exact absurd hm (decode_memory32 (.inr ⟨_, _, hk⟩)).2.2
  | io allBits => exact absurd hm (decode_io hk).2
  | memory64 prefetchable => exact ⟨prefetchable, rfl⟩

/-- The call succeeds with the address and the size of the BAR. -/
def ReadsBar (regions : List PciEcamRegion) (region : PciEcamRegion) (layouts : Place → Layout) (address : PciAddress)
    (barIndex : BitVec 8) (bar : LegalBar) (h : Host) : Prop :=
  ∃ b : PciBar, (run (host region layouts) (pciReadBar regions address barIndex true true) h).1 =
    (PCI_STATUS_SUCCESS, some b) ∧ b.address = bar.address ∧ b.size.toNat = bar.size

/-- **BAR sizing**: the address and the size of a BAR are read right, exactly if it is not an I/O BAR that implements
sixteen bits only. -/
theorem pciReadBar_sized_iff (hr : Reaches regions region address) (hindex : barIndex.toNat ≤ 5)
    (htype : h.spaces address.place 0x0e &&& 0x7f = 0)
    (hbar : HasBar (layouts address.place) (h.spaces address.place) barIndex.toNat bar) :
    ReadsBar regions region layouts address barIndex bar h ↔ bar.kind ≠ .io false := by
  have hlow : dwordAt (h.spaces address.place) (16 + 4 * barIndex.toNat) = bar.lowDword := hbar.value
  have hprobes : Probes address barIndex (seen (h, [])) := by
    refine ⟨hindex, htype, ?_, ?_⟩
    · exact hlow.symm ▸ bar.lowDword_ne
    · rintro ⟨hm, h5⟩
      obtain ⟨prefetchable, hk⟩ := @LegalBar.kind_of_isMemory64 bar (hlow ▸ hm)
      have := (hbar.high prefetchable hk).1
      rw [h5] at this
      exact absurd this (by decide)
  have hspaces : (seen (h, [])).spaces = h.spaces := rfl
  have ho := hprobes.barOffset
  have hexec := @exec_pciReadBar_probe regions layouts address region _ _ (fun _ => True) _ _ hr hprobes rfl rfl
    ⟨trivial, trivial, trivial, trivial, trivial, trivial, trivial⟩
  rw [hspaces, hlow] at ho hexec
  have hrun := (hexec (h, []) rfl).1
  rw [watchedHost, (run_logging (host region layouts) (configWrites region) _ h []).1] at hrun
  -- what is read back
  have hback : bar.ReadBack 0 bar.lowDword
      (dwordAt (((seen (h, [])).probed regions layouts address (barOffset barIndex) bar.lowDword).spaces address.place)
        (16 + 4 * barIndex.toNat)) := by
    intro i hi
    rw [getLsbD_probed ho hr hbar.low.keeps hi, hbar.low.writable i hi, hspaces, hlow]
  have haddress : barAddress bar.lowDword ((seen (h, [])).highDword address (barOffset barIndex) bar.lowDword) =
      bar.address := by
    refine LegalBar.barAddress_eq fun prefetchable hk => ?_
    have hm := (LegalBar.decode_memory64 hk).2.2
    rw [Seen.highDword, if_pos hm, ho.eq_high hm]
    exact (hbar.high prefetchable hk).2.2
  have hsize := @LegalBar.barSize_eq_iff bar _ (((seen (h, [])).probed regions layouts address (barOffset barIndex)
    bar.lowDword).highDword address (barOffset barIndex) bar.lowDword) hback fun prefetchable hk => by
      intro i hi
      obtain ⟨-, hdword, hvalue⟩ := hbar.high prefetchable hk
      rw [getLsbD_probed_high ho hr (LegalBar.decode_memory64 hk).2.2 hdword.keeps hi, hdword.writable i hi, hspaces,
        hvalue]
  rw [ReadsBar, hrun, ← hsize]
  constructor
  · rintro ⟨b, hb, -, hright⟩
    rw [Prod.mk.injEq, Option.some_inj] at hb
    rw [← hright, ← hb.2]
  · exact fun hright => ⟨_, rfl, haddress, hright⟩

end

/-! ## Two BARs -/

/-- A function whose first BAR has the read-write bits of `mask`; nothing else of it can be written. -/
def barLayout (mask : BitVec 32) : Layout where
  writable x := if 0x10 ≤ x ∧ x < 0x14 then mask.extractLsb' (8 * (x - 0x10)) 8 else 0
  cleared _ := 0
  disjoint _ := BitVec.and_zero

/-- Its BAR holds `value`. -/
def barHost (value : BitVec 32) : Host where
  spaces _ x := if 0x10 ≤ x ∧ x < 0x14 then value.extractLsb' (8 * (x - 0x10)) 8 else 0
  addressRegister := 0

/-- Four KiB of memory. -/
def memoryBar : LegalBar where
  kind := .memory32 false false
  k := 12
  address := 0xfebf1000
  range _ := by decide
  aligned := by decide
  fits := by decide

/-- 32 I/O ports, with sixteen address bits. -/
def shortIoBar : LegalBar where
  kind := .io false
  k := 5
  address := 0xc000
  range _ := by decide
  aligned := by decide
  fits := by decide

theorem reaches_ports : Reaches [] allBuses ⟨0, 0, 1, 0⟩ := ⟨by decide, by decide, .inr ⟨rfl, rfl⟩⟩

/-- The memory BAR is read right, by the ports. -/
theorem pciReadBar_memoryBar : ReadsBar [] allBuses (fun _ => barLayout 0xfffff000) ⟨0, 0, 1, 0⟩ 0 memoryBar
    (barHost 0xfebf1000) :=
  (pciReadBar_sized_iff reaches_ports (by decide) (by decide)
    ⟨⟨fun _ _ => rfl, by decide +kernel⟩, by decide +kernel, fun _ h => by cases h⟩).mpr (by decide)

/-- The size of the I/O BAR with sixteen bits is read as `0xffff0020`. -/
theorem not_pciReadBar_sized :
    ¬ ∀ (regions : List PciEcamRegion) (region : PciEcamRegion) (layouts : Place → Layout) (address : PciAddress)
      (barIndex : BitVec 8) (bar : LegalBar) (h : Host), Reaches regions region address → barIndex.toNat ≤ 5 →
      h.spaces address.place 0x0e &&& 0x7f = 0 →
      HasBar (layouts address.place) (h.spaces address.place) barIndex.toNat bar →
        ReadsBar regions region layouts address barIndex bar h := by
  intro hall
  obtain ⟨b, hb, -, hsize⟩ := hall [] allBuses (fun _ => barLayout 0xffe0) ⟨0, 0, 1, 0⟩ 0 shortIoBar (barHost 0xc001)
    reaches_ports (by decide) (by decide)
    ⟨⟨fun _ _ => rfl, by decide +kernel⟩, by decide +kernel, fun _ h => by cases h⟩
  have hrun : ((run (host allBuses fun _ => barLayout 0xffe0)
      (pciReadBar [] ⟨0, 0, 1, 0⟩ 0 true true) (barHost 0xc001)).1.2.map fun b => b.size.toNat) = some 0xffff0020 := by
    decide +kernel
  rw [hb, Option.map_some, hsize] at hrun
  exact absurd hrun (by decide)

end Pci

end Dem64
