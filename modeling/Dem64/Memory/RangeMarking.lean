import Dem64.Memory.Hint

/-!
# The routine that marks a range, on its own types

`Dem64.Memory.Bitmap` models the range writer over natural numbers.  The source has it on `u64` counts that
wrap and on bytes that go through `int`: a mask is shifted as an `int` and cut down to a byte before it is
stored.  It also has it five times over: once in `fill_bitmap`, once in `alloc_frame`, twice in
`allocator_init`, which has a clearing twin for the usable memory, and once in `free_frame`, which clears.

This file reads the copies on those types.  They differ in how a mask goes into a byte, in the byte stored
for eight pages at once and in the value handed to `set_bit`; these three make a `Kind`, and each copy is a
`Kind` run on the count and the length its function takes.

`Kind.run_eq` is the result: whatever the alignment and the length, a copy does what setting the pages one
by one with `set_bit` does.  Inside a byte that is a fact about masks, `setPages_byte`: pages `k` up to `b` of
a byte are the mask of that span.  `marking_agrees` collects the copies, and says exactly when clearing a
range after marking it gives the bitmap back.
-/

set_option autoImplicit false

namespace Dem64.RangeMarking

open ByteBits

/-! ## The code -/

/-- `set_bit`.  The mask is shifted as an `int`; it and the result are cut down to a byte. -/
def setBit (byte bit value dir : BitVec 8) : BitVec 8 :=
  let mask := (if dir = 1 then 1#32 <<< (7#32 - bit.setWidth 32) else 1#32 <<< bit.setWidth 32).setWidth 8
  if value ≠ 0 then (byte.setWidth 32 ||| mask.setWidth 32).setWidth 8
  else (byte.setWidth 32 &&& ~~~(mask.setWidth 32)).setWidth 8

/-- `for (i = 0; i < n; i++) { bitmap[count>>3] = set_bit(bitmap[count>>3], (u8)count & 7, value, 1); count++; }` -/
def setPages (value : BitVec 8) : Nat → BitVec 64 → Bitmap → Bitmap
  | 0, _, bitmap => bitmap
  | n + 1, count, bitmap =>
    setPages value n (count + 1#64) (Function.update bitmap (count >>> 3).toNat
      (setBit (bitmap (count >>> 3).toNat) (count.setWidth 8 &&& 7) value 1))

/-- `for (j = 0; j < n; j++) { bitmap[count>>3] = whole; count += 8; }` -/
def storeBytes (whole : BitVec 8) : Nat → BitVec 64 → Bitmap → Bitmap
  | 0, _, bitmap => bitmap
  | n + 1, count, bitmap =>
    storeBytes whole n (count + 8#64) (Function.update bitmap (count >>> 3).toNat whole)

/-- What tells a copy that marks from one that clears. -/
structure Kind where
  /-- The byte after `byte |= (u8)mask` or `byte &= (u8)~mask`. -/
  store : BitVec 8 → BitVec 32 → BitVec 8
  /-- The byte stored for eight pages at once. -/
  whole : BitVec 8
  /-- The value handed to `set_bit`. -/
  value : BitVec 8

/-- The copies that mark. -/
def marks : Kind where
  store byte mask := (byte.setWidth 32 ||| (mask.setWidth 8).setWidth 32).setWidth 8
  whole := 0xff
  value := 1

/-- The copies that clear. -/
def clears : Kind where
  store byte mask := (byte.setWidth 32 &&& ((~~~mask).setWidth 8).setWidth 32).setWidth 8
  whole := 0
  value := 0

/-- The unaligned head of a range.  Returns `count`, `PageCount` and the bitmap. -/
def Kind.head (k : Kind) (count pageCount : BitVec 64) (bitmap : Bitmap) : BitVec 64 × BitVec 64 × Bitmap :=
  if count &&& 7 > 0 then
    let bitsLeft := 8#64 - (count &&& 7)
    if bitsLeft ≤ pageCount then
      (count + bitsLeft, pageCount - bitsLeft, Function.update bitmap (count >>> 3).toNat
        (k.store (bitmap (count >>> 3).toNat) (0xff#32 >>> (count &&& 7))))
    else (count + pageCount, 0, setPages k.value pageCount.toNat count bitmap)
  else (count, pageCount, bitmap)

/-- A whole copy: the head, the whole bytes and the tail. -/
def Kind.run (k : Kind) (count pageCount : BitVec 64) (bitmap : Bitmap) : Bitmap :=
  let (count, pageCount, bitmap) := k.head count pageCount bitmap
  let eightPageCount := pageCount >>> 3
  let onePageCount := pageCount &&& 7
  let bitmap := storeBytes k.whole eightPageCount.toNat count bitmap
  let count := count + 8#64 * eightPageCount
  Function.update bitmap (count >>> 3).toNat
    (k.store (bitmap (count >>> 3).toNat) (0xff#32 <<< (8#64 - onePageCount)))

/-- `fill_bitmap`. -/
def fillBitmap (count pageCount : BitVec 64) (bitmap : Bitmap) : Bitmap := marks.run count pageCount bitmap

/-- What `alloc_frame` does to the bitmap once its scan has found a range at `count_tar`. -/
def allocFrame (countTar pageCount : BitVec 64) (bitmap : Bitmap) : Bitmap :=
  let count := countTar
  marks.run count pageCount bitmap

/-- The fields of an `EFI_MEMORY_DESCRIPTOR` that the copies read. -/
structure Descriptor where
  /-- `Type`. -/
  type : BitVec 32
  /-- `PhysicalStart`. -/
  physicalStart : BitVec 64
  /-- `NumberOfPages`. -/
  numberOfPages : BitVec 64
deriving DecidableEq, Repr

/-- `allocator_init`, for one descriptor of the memory map: conventional memory from 1 MiB on is cleared,
everything else is marked. -/
def initEntry (desc : Descriptor) (bitmap : Bitmap) : Bitmap :=
  let count := desc.physicalStart >>> 12
  let pageCount := desc.numberOfPages
  if desc.type = 7 ∧ desc.physicalStart ≥ 0x100000 then clears.run count pageCount bitmap
  else marks.run count pageCount bitmap

/-- `allocator_init`, for the kernel. -/
def initKernel (kernelStart kernelEnd : BitVec 64) (bitmap : Bitmap) : Bitmap :=
  let pageCount := (kernelEnd - kernelStart + 4095) >>> 12
  let count := kernelStart >>> 12
  marks.run count pageCount bitmap

/-- What `free_frame` does to the bitmap. -/
def freeFrame (frame : Descriptor) (bitmap : Bitmap) : Bitmap :=
  let count := frame.physicalStart >>> 12
  let pageCount := frame.numberOfPages
  clears.run count pageCount bitmap

/-! ## Pages of one byte -/

theorem index_toNat (count : BitVec 64) : (count >>> 3).toNat = count.toNat / 8 := by
  rw [BitVec.toNat_ushiftRight, Nat.shiftRight_eq_div_pow]

theorem offset_toNat (count : BitVec 64) : (count &&& 7).toNat = count.toNat % 8 := by
  rw [BitVec.toNat_and]
  exact Nat.and_two_pow_sub_one_eq_mod count.toNat 3

theorem bit_toNat (count : BitVec 64) : (count.setWidth 8 &&& 7).toNat = count.toNat % 8 := by
  rw [BitVec.toNat_and, BitVec.toNat_setWidth]
  refine (Nat.and_two_pow_sub_one_eq_mod _ 3).trans ?_
  omega

/-- A count `r` pages further on in the same byte. -/
theorem toNat_add_ofNat {count : BitVec 64} {r : Nat} (h : count.toNat % 8 + r < 8) :
    (count + BitVec.ofNat 64 r).toNat = count.toNat + r := by
  have := count.isLt
  rw [BitVec.toNat_add, BitVec.toNat_ofNat]
  omega

theorem putMask_zero (byte : BitVec 8) (value : Bool) : putMask byte 0#8 value = byte := by
  cases value
  · exact BitVec.and_allOnes
  · exact BitVec.or_zero

/-- Rewriting the bits of two masks is rewriting those of both. -/
theorem putMask_putMask (byte mask mask' : BitVec 8) (value : Bool) :
    putMask (putMask byte mask value) mask' value = putMask byte (mask ||| mask') value := by
  cases value
  · simp only [putMask, Bool.false_eq_true, if_false, BitVec.not_or, BitVec.and_assoc]
  · simp only [putMask, if_true, BitVec.or_assoc]

/-- On a byte, going through `int` changes nothing. -/
theorem setBit_eq (byte value : BitVec 8) {bit : BitVec 8} (hbit : bit.toNat < 8) :
    setBit byte bit value 1 = putMask byte (spanMask bit.toNat (bit.toNat + 1)) (value ≠ 0) := by
  have hmask : ∀ bit : BitVec 8, bit.toNat < 8 →
      (1#32 <<< (7#32 - bit.setWidth 32)).setWidth 8 = 1#8 <<< (7 - bit.toNat) := by decide
  have hor : ∀ a b : BitVec 8, (a.setWidth 32 ||| b.setWidth 32).setWidth 8 = a ||| b := fun a b => by
    rw [BitVec.setWidth_or, BitVec.setWidth_setWidth_of_le _ (by decide),
      BitVec.setWidth_setWidth_of_le _ (by decide), BitVec.setWidth_eq, BitVec.setWidth_eq]
  have hand : ∀ a b : BitVec 8, (a.setWidth 32 &&& ~~~(b.setWidth 32)).setWidth 8 = a &&& ~~~b :=
    fun a b => by
      rw [BitVec.setWidth_and, BitVec.setWidth_not (by decide),
        BitVec.setWidth_setWidth_of_le _ (by decide), BitVec.setWidth_setWidth_of_le _ (by decide),
        BitVec.setWidth_eq, BitVec.setWidth_eq]
  rw [setBit, spanMask_single hbit]
  simp only [if_true, hmask bit hbit, hor, hand, putMask, decide_eq_true_eq]

/-- **Setting the pages of a span of one byte one by one stores the mask of that span.** -/
theorem setPages_byte (value : BitVec 8) : ∀ {r : Nat} {count : BitVec 64} (bm : Bitmap),
    count.toNat % 8 + r ≤ 8 → setPages value r count bm =
      Function.update bm (count.toNat / 8) (putMask (bm (count.toNat / 8))
        (spanMask (count.toNat % 8) (count.toNat % 8 + r)) (value ≠ 0))
  | 0, count, bm, h => by
    rw [Nat.add_zero] at h ⊢
    rw [setPages, spanMask_empty h (Nat.le_refl _), putMask_zero, Function.update_eq_self]
  | r + 1, count, bm, h => by
    have hbit : (count.setWidth 8 &&& 7).toNat < 8 := by rw [bit_toNat]; omega
    rw [setPages, index_toNat, setBit_eq _ _ hbit, bit_toNat]
    cases r with
    | zero => rfl
    | succ r =>
      have hnext : (count + 1#64).toNat = count.toNat + 1 := toNat_add_ofNat (r := 1) (by omega)
      have hdiv : (count.toNat + 1) / 8 = count.toNat / 8 := by omega
      have hmod : (count.toNat + 1) % 8 = count.toNat % 8 + 1 := by omega
      rw [setPages_byte value _ (by omega), hnext, hdiv, hmod, Function.update_self,
        Function.update_idem, putMask_putMask, spanMask_or (by omega) (by omega) (by omega),
        show count.toNat % 8 + 1 + (r + 1) = count.toNat % 8 + (r + 1 + 1) by omega]

/-! ## A copy is setting pages one by one -/

/-- Setting `a + b` pages is setting `a` of them and then the `b` behind those. -/
theorem setPages_add (value : BitVec 8) (b : Nat) : ∀ (a : Nat) (count : BitVec 64) (bm : Bitmap),
    setPages value (a + b) count bm = setPages value b (count + BitVec.ofNat 64 a) (setPages value a count bm)
  | 0, count, bm => by rw [Nat.zero_add, BitVec.add_zero, setPages]
  | a + 1, count, bm => by
    rw [Nat.succ_add, setPages, setPages_add value b a, setPages, BitVec.add_assoc, Nat.add_comm a 1,
      BitVec.ofNat_add]

/-- What makes a kind store `value`: a mask rewrites its bits, and a whole byte is a full mask. -/
structure Kind.Stores (k : Kind) (value : Bool) : Prop where
  /-- Storing a mask rewrites its low byte. -/
  store : ∀ byte mask, k.store byte mask = putMask byte (mask.setWidth 8) value
  /-- The whole byte has the value in every bit. -/
  whole : ∀ byte, k.whole = putMask byte 0xff#8 value
  /-- `set_bit` is given the value. -/
  value : decide (k.value ≠ 0) = value

theorem marks_stores : marks.Stores true where
  store byte mask := by
    change ((byte.setWidth 32 ||| (mask.setWidth 8).setWidth 32).setWidth 8) = byte ||| mask.setWidth 8
    rw [BitVec.setWidth_or, BitVec.setWidth_setWidth_of_le _ (by decide),
      BitVec.setWidth_setWidth_of_le _ (by decide), BitVec.setWidth_eq, BitVec.setWidth_eq]
  whole _ := BitVec.or_allOnes.symm
  value := rfl

theorem clears_stores : clears.Stores false where
  store byte mask := by
    change ((byte.setWidth 32 &&& ((~~~mask).setWidth 8).setWidth 32).setWidth 8) =
      byte &&& ~~~(mask.setWidth 8)
    rw [BitVec.setWidth_and, BitVec.setWidth_setWidth_of_le _ (by decide),
      BitVec.setWidth_setWidth_of_le _ (by decide), BitVec.setWidth_eq, BitVec.setWidth_eq,
      BitVec.setWidth_not (by decide)]
  whole _ := BitVec.and_zero.symm
  value := rfl

/-- The head mask, cut down to a byte. -/
theorem headMask_eq (count : BitVec 64) :
    (0xff#32 >>> (count &&& 7)).setWidth 8 = spanMask (count.toNat % 8) 8 := by
  have hmask : ∀ k < 8, (0xff#32 >>> k).setWidth 8 = 0xff#8 >>> k := by decide
  rw [BitVec.ushiftRight_eq', offset_toNat, hmask _ (Nat.mod_lt _ (by decide)), spanMask_head]

/-- The tail mask, cut down to a byte. -/
theorem tailMask_eq (count : BitVec 64) :
    (0xff#32 <<< (8#64 - (count &&& 7))).setWidth 8 = spanMask 0 (count.toNat % 8) := by
  have hmask : ∀ k < 8, (0xff#32 <<< (8 - k)).setWidth 8 = 0xff#8 <<< (8 - k) := by decide
  have hsub : (8#64 - (count &&& 7)).toNat = 8 - count.toNat % 8 := by
    rw [BitVec.toNat_sub, offset_toNat, BitVec.toNat_ofNat]
    omega
  rw [BitVec.shiftLeft_eq', hsub, hmask _ (Nat.mod_lt _ (by decide)), spanMask_tail]

variable {k : Kind} {value : Bool}

/-- Storing a span's mask is setting its pages one by one. -/
theorem Kind.Stores.store_eq (hk : k.Stores value) {count : BitVec 64} {mask : BitVec 32} {r : Nat}
    (hr : count.toNat % 8 + r ≤ 8)
    (hmask : mask.setWidth 8 = spanMask (count.toNat % 8) (count.toNat % 8 + r)) (bm : Bitmap) :
    Function.update bm (count >>> 3).toNat (k.store (bm (count >>> 3).toNat) mask) =
      setPages k.value r count bm := by
  rw [setPages_byte _ _ hr, hk.store, hmask, index_toNat, hk.value]

/-- The whole bytes are eight pages each. -/
theorem Kind.Stores.storeBytes_eq (hk : k.Stores value) : ∀ (n : Nat) {count : BitVec 64} (bm : Bitmap),
    count.toNat % 8 = 0 → storeBytes k.whole n count bm = setPages k.value (8 * n) count bm
  | 0, _, _, _ => rfl
  | n + 1, count, bm, h => by
    have hbyte : setPages k.value 8 count bm = Function.update bm (count.toNat / 8) k.whole := by
      rw [setPages_byte _ _ (by omega), h, hk.value, hk.whole (bm (count.toNat / 8))]
      rfl
    have hnext : (count + 8#64).toNat % 8 = 0 := by
      rw [BitVec.toNat_add, BitVec.toNat_ofNat]
      omega
    rw [storeBytes, index_toNat, hk.storeBytes_eq n _ hnext, Nat.mul_succ, Nat.add_comm _ 8,
      setPages_add, hbyte]

/-- The head sets the pages up to the next byte boundary, or all of them. -/
theorem Kind.Stores.head_eq (hk : k.Stores value) (count pageCount : BitVec 64) (bm : Bitmap) :
    ∃ m : Nat, ∃ rest : BitVec 64, m + rest.toNat = pageCount.toNat ∧
      ((count + BitVec.ofNat 64 m).toNat % 8 = 0 ∨ rest = 0#64) ∧
      k.head count pageCount bm = (count + BitVec.ofNat 64 m, rest, setPages k.value m count bm) := by
  have hoff : (count &&& 7).toNat = count.toNat % 8 := offset_toNat count
  rw [Kind.head]
  by_cases h0 : count &&& 7 > 0
  · have h0' : 0 < count.toNat % 8 := by rwa [gt_iff_lt, BitVec.lt_def, hoff] at h0
    have hleft : (8#64 - (count &&& 7)).toNat = 8 - count.toNat % 8 := by
      rw [BitVec.toNat_sub, hoff, BitVec.toNat_ofNat]
      omega
    rw [if_pos h0]
    by_cases h1 : 8#64 - (count &&& 7) ≤ pageCount
    · have h1' : 8 - count.toNat % 8 ≤ pageCount.toNat := by rwa [BitVec.le_def, hleft] at h1
      have hofNat : BitVec.ofNat 64 (8 - count.toNat % 8) = 8#64 - (count &&& 7) := by
        rw [← hleft, BitVec.ofNat_toNat, BitVec.setWidth_eq]
      refine ⟨8 - count.toNat % 8, pageCount - (8#64 - (count &&& 7)), ?_, Or.inl ?_, ?_⟩
      · rw [BitVec.toNat_sub_of_le h1, hleft]
        omega
      · rw [hofNat, BitVec.toNat_add, hleft]
        omega
      · rw [if_pos h1, hofNat, hk.store_eq (r := 8 - count.toNat % 8) (by omega)]
        rw [headMask_eq, Nat.add_sub_cancel' (by omega)]
    · refine ⟨pageCount.toNat, 0, rfl, Or.inr rfl, ?_⟩
      rw [if_neg h1, BitVec.ofNat_toNat, BitVec.setWidth_eq]
  · have h0' : count.toNat % 8 = 0 := by
      rw [gt_iff_lt, BitVec.lt_def, hoff] at h0
      exact Nat.eq_zero_of_not_pos h0
    refine ⟨0, pageCount, Nat.zero_add _, Or.inl (by rwa [BitVec.add_zero]), ?_⟩
    rw [if_neg h0, BitVec.add_zero, setPages]

/-- **A copy does what setting the pages of its range one by one with `set_bit` does**, for every count and
every length. -/
theorem Kind.Stores.run_eq (hk : k.Stores value) (count pageCount : BitVec 64) (bm : Bitmap) :
    k.run count pageCount bm = setPages k.value pageCount.toNat count bm := by
  obtain ⟨m, rest, hsum, hal, hhead⟩ := hk.head_eq count pageCount bm
  rw [Kind.run, hhead, ← hsum, setPages_add]
  generalize count + BitVec.ofNat 64 m = c at hal ⊢
  generalize setPages k.value m count bm = bm'
  dsimp only
  rcases hal with hal | rfl
  · have height : (rest >>> 3).toNat = rest.toNat / 8 := index_toNat rest
    have hnext : c + 8#64 * rest >>> 3 = c + BitVec.ofNat 64 (8 * (rest.toNat / 8)) := by
      rw [BitVec.ofNat_mul, ← height, BitVec.ofNat_toNat, BitVec.setWidth_eq]
    have hal' : (c + BitVec.ofNat 64 (8 * (rest.toNat / 8))).toNat % 8 = 0 := by
      rw [BitVec.toNat_add, BitVec.toNat_ofNat]
      omega
    rw [hk.storeBytes_eq _ _ hal, height, hnext, hk.store_eq (r := rest.toNat % 8) (by omega),
      ← setPages_add, Nat.div_add_mod]
    rw [tailMask_eq, hal', Nat.zero_add]
  · -- nothing is left: the store behind the range has an empty mask
    have htail : (0xff#32 <<< (8#64 - (0#64 &&& 7))).setWidth 8 = 0#8 := by
      rw [tailMask_eq]
      exact spanMask_empty (by decide) (Nat.le_refl 0)
    rw [show (0#64 >>> 3).toNat = 0 from rfl, storeBytes, hk.store, htail, putMask_zero,
      Function.update_eq_self]
    rfl

/-! ## Marking and clearing again -/

/-- Page `p` is one of the `n` pages from `count` on. -/
def InRange (count : BitVec 64) (n p : Nat) : Prop := ∃ i < n, p = (count + BitVec.ofNat 64 i).toNat

/-- The pages of a range take the value, all others keep theirs. -/
theorem used_setPages (value : BitVec 8) (count : BitVec 64) (bm : Bitmap) (p : Nat) : ∀ n,
    (InRange count n p → used (setPages value n count bm) p = decide (value ≠ 0)) ∧
      (¬ InRange count n p → used (setPages value n count bm) p = used bm p)
  | 0 => ⟨fun ⟨_, hi, _⟩ => absurd hi (Nat.not_lt_zero _), fun _ => rfl⟩
  | n + 1 => by
    obtain ⟨hin, hout⟩ := used_setPages value count bm p n
    have hlast : used (setPages value (n + 1) count bm) p =
        if p = (count + BitVec.ofNat 64 n).toNat then decide (value ≠ 0)
        else used (setPages value n count bm) p := by
      rw [setPages_add value 1, setPages_byte _ _ (by omega), used_update_putMask _ _ _
        fun j hj => getMsbD_spanMask _ (by omega) hj]
      exact if_congr (by omega) rfl rfl
    rw [hlast]
    constructor
    · rintro ⟨i, hi, hp⟩
      split
      · rfl
      · rename_i hne
        refine hin ⟨i, Nat.lt_of_le_of_ne (Nat.le_of_lt_succ hi) ?_, hp⟩
        rintro rfl
        exact hne hp
    · intro hno
      rw [if_neg fun hp => hno ⟨n, Nat.lt_succ_self n, hp⟩]
      exact hout fun ⟨i, hi, hp⟩ => hno ⟨i, Nat.lt_succ_of_lt hi, hp⟩

/-- Clearing a range after marking it gives the bitmap back exactly if the range was free. -/
theorem clear_mark_iff (count : BitVec 64) (n : Nat) (bm : Bitmap) :
    setPages 0 n count (setPages 1 n count bm) = bm ↔ ∀ p, InRange count n p → used bm p = false := by
  constructor
  · intro h p hp
    rw [← h]
    exact (used_setPages 0 count _ p n).1 hp
  · intro hfree
    refine ext_bitAt fun p => ?_
    rw [← used_eq_bitAt, ← used_eq_bitAt]
    by_cases hp : InRange count n p
    · rw [hfree p hp]
      exact (used_setPages 0 count _ p n).1 hp
    · rw [(used_setPages 0 count _ p n).2 hp, (used_setPages 1 count _ p n).2 hp]

/-! ## The model over natural numbers -/

/-- On a range that does not wrap, a copy is the range writer of `Dem64.Memory.Bitmap`. -/
theorem Kind.Stores.run_eq_writeRange (hk : k.Stores value) {count pageCount : BitVec 64}
    (h : count.toNat + pageCount.toNat ≤ 2 ^ 64) (bm : Bitmap) :
    k.run count pageCount bm = writeRange value bm count.toNat pageCount.toNat := by
  have hrange : ∀ p, InRange count pageCount.toNat p ↔
      count.toNat ≤ p ∧ p < count.toNat + pageCount.toNat := by
    intro p
    have hadd : ∀ i, i < pageCount.toNat → (count + BitVec.ofNat 64 i).toNat = count.toNat + i := by
      intro i hi
      rw [BitVec.toNat_add, BitVec.toNat_ofNat]
      omega
    constructor
    · rintro ⟨i, hi, rfl⟩
      rw [hadd i hi]
      omega
    · rintro ⟨h1, h2⟩
      refine ⟨p - count.toNat, by omega, ?_⟩
      rw [hadd _ (by omega)]
      omega
  refine ext_bitAt fun p => ?_
  rw [← used_eq_bitAt, ← used_eq_bitAt, hk.run_eq, used_writeRange]
  obtain ⟨hin, hout⟩ := used_setPages k.value count bm p pageCount.toNat
  split
  · rename_i hp
    rw [hin ((hrange p).mpr hp), hk.value]
  · rename_i hp
    exact hout fun hin => hp ((hrange p).mp hin)

theorem pageOf_toNat (start : BitVec 64) : (start >>> 12).toNat = start.toNat >>> 12 :=
  BitVec.toNat_ushiftRight _ _

/-- `alloc_frame` marks the range its scan has found. -/
theorem allocFrame_eq (s : FrameState) (n countTar : BitVec 64) {count : Nat} (hn : n ≠ 0)
    (hscan : scan s n.toNat (8 * s.bitmapSize + 1) s.formerCount s.formerCount 0 =
      some (countTar.toNat, count)) :
    (Dem64.allocFrame s n.toNat).2.bitmap = allocFrame countTar n s.bitmap := by
  have hpos : 0 < n.toNat := Nat.pos_of_ne_zero fun h => hn (BitVec.eq_of_toNat_eq h)
  obtain ⟨hcount, hend, -⟩ := scan_spec (Nat.add_zero _) (Nat.zero_le _) (by omega) (by omega) hscan
  have hle : countTar.toNat + n.toNat ≤ 2 ^ 64 := by
    have := s.bitmapSize_le
    have := hend hpos
    omega
  rw [allocFrame, marks_stores.run_eq_writeRange hle, Dem64.allocFrame, if_neg hpos.ne', hscan]

/-- `allocator_init` on a descriptor whose pages have 64-bit numbers. -/
theorem initEntry_eq {desc : Descriptor} (bm : Bitmap)
    (h : desc.physicalStart.toNat >>> 12 + desc.numberOfPages.toNat ≤ 2 ^ 64) :
    initEntry desc bm = markEntry bm
      ⟨desc.type.toNat, desc.physicalStart.toNat, desc.numberOfPages.toNat⟩ := by
  have hle : (desc.physicalStart >>> 12).toNat + desc.numberOfPages.toNat ≤ 2 ^ 64 := by
    rwa [pageOf_toNat]
  have husable : (desc.type.toNat == efiConventionalMemory && desc.physicalStart.toNat ≥ 0x100000) =
      decide (desc.type = 7 ∧ desc.physicalStart ≥ 0x100000) := by
    have htype : desc.type = 7 ↔ desc.type.toNat = efiConventionalMemory := BitVec.toNat_inj.symm
    have hstart : desc.physicalStart ≥ 0x100000 ↔ desc.physicalStart.toNat ≥ 0x100000 := Iff.rfl
    rw [Bool.eq_iff_iff, Bool.and_eq_true, beq_iff_eq, decide_eq_true_iff, decide_eq_true_iff, htype,
      hstart]
  rw [initEntry, markEntry, husable]
  split
  · rename_i hu
    rw [clears_stores.run_eq_writeRange hle, pageOf_toNat, decide_eq_true hu, Bool.not_true]
  · rename_i hu
    rw [marks_stores.run_eq_writeRange hle, pageOf_toNat, decide_eq_false hu, Bool.not_false]

/-- `free_frame` on a descriptor whose pages have 64-bit numbers. -/
theorem freeFrame_eq (s : FrameState) {frame : Descriptor}
    (h : frame.physicalStart.toNat >>> 12 + frame.numberOfPages.toNat ≤ 2 ^ 64) :
    freeFrame frame s.bitmap = (Dem64.freeFrame s
      { physicalStart := frame.physicalStart.toNat
        numberOfPages := frame.numberOfPages.toNat }).bitmap := by
  have hle : (frame.physicalStart >>> 12).toNat + frame.numberOfPages.toNat ≤ 2 ^ 64 := by
    rwa [pageOf_toNat]
  rw [freeFrame, clears_stores.run_eq_writeRange hle, pageOf_toNat]
  rfl

/-! ## The five copies -/

/-- **Bit-range marking.**  For every bitmap and every range, `fill_bitmap`, the copy in `alloc_frame` and
the copies in `allocator_init` do what setting the pages of the range one by one with `set_bit` does, the
clearing copies of `allocator_init` and `free_frame` what clearing them one by one does, and `free_frame`
after any of the marking copies on its range gives the bitmap back exactly if the range was free. -/
theorem marking_agrees (count pageCount kernelStart kernelEnd : BitVec 64) (desc frame : Descriptor)
    (bm : Bitmap) :
    fillBitmap count pageCount bm = setPages 1 pageCount.toNat count bm ∧
      allocFrame count pageCount bm = setPages 1 pageCount.toNat count bm ∧
      initEntry desc bm = setPages (if desc.type = 7 ∧ desc.physicalStart ≥ 0x100000 then 0 else 1)
        desc.numberOfPages.toNat (desc.physicalStart >>> 12) bm ∧
      initKernel kernelStart kernelEnd bm =
        setPages 1 ((kernelEnd - kernelStart + 4095) >>> 12).toNat (kernelStart >>> 12) bm ∧
      freeFrame frame bm = setPages 0 frame.numberOfPages.toNat (frame.physicalStart >>> 12) bm ∧
      (freeFrame frame (fillBitmap (frame.physicalStart >>> 12) frame.numberOfPages bm) = bm ↔
        ∀ p, InRange (frame.physicalStart >>> 12) frame.numberOfPages.toNat p → used bm p = false) := by
  have hmark := marks_stores.run_eq
  have hclear := clears_stores.run_eq
  refine ⟨hmark _ _ _, hmark _ _ _, ?_, hmark _ _ _, hclear _ _ _, ?_⟩
  · rw [initEntry]
    split
    · exact hclear _ _ _
    · exact hmark _ _ _
  · rw [freeFrame, fillBitmap, hclear, hmark]
    exact clear_mark_iff _ _ _

end Dem64.RangeMarking
