import Dem64.Lib.ByteBits

/-!
# The frame bitmap

`memhlp.c` reads and writes single bits of a byte, and three functions of the allocator write whole
runs of bits with the same hand-written routine: an unaligned head, whole bytes, then a tail.
`fill_bitmap` (`maphlp.c`) has it as a function of its own; `alloc_frame` has a copy that sets the
run and `free_frame` one that clears it.

`writeRange` is that routine, with the value written as a parameter, and `used_writeRange` is its
specification: the bits of the run take the value, every other bit keeps its own.  The routine
always ends with a store to the byte after the last whole one, even when no bit of it is written;
there the mask is empty and the store changes nothing, which is why a run ending at the last byte
of the bitmap is no special case below.
-/

set_option autoImplicit false

namespace Dem64

open ByteBits

/-- The bytes at `bitmap_base`, those behind the last byte of the bitmap included. -/
abbrev Bitmap := Nat → BitVec 8

/-- `check_byte`: bit `bit` of `byte`, counted from the left when `dir` is 1. -/
def checkByte (byte : BitVec 8) (bit dir : Nat) : BitVec 8 :=
  let byte := if dir = 1 then byte >>> (7 - bit) else byte >>> bit
  byte &&& 0x01#8

/-- Set or clear the bits of `mask`. -/
def putMask (byte mask : BitVec 8) (value : Bool) : BitVec 8 :=
  if value then byte ||| mask else byte &&& ~~~mask

/-- `set_bit`: write `value` to bit `bit` of `byte`, counted from the left when `dir` is 1. -/
def setBit (byte : BitVec 8) (bit : Nat) (value : Bool) (dir : Nat) : BitVec 8 :=
  let mask := if dir = 1 then 1#8 <<< (7 - bit) else 1#8 <<< bit
  putMask byte mask value

/-- Page `p` is marked used: the test every scan of the bitmap makes. -/
def used (bm : Bitmap) (p : Nat) : Bool := checkByte (bm (p >>> 3)) (p &&& 7) 1 == 1#8

theorem and_seven (p : Nat) : p &&& 7 = p % 8 := Nat.and_two_pow_sub_one_eq_mod p 3

theorem shiftRight_three (p : Nat) : p >>> 3 = p / 8 := Nat.shiftRight_eq_div_pow p 3

theorem checkByte_left (b : BitVec 8) (k : Nat) (hk : k < 8) :
    (checkByte b k 1 == 1#8) = b.getMsbD k := by
  have hone : ∀ c : BitVec 8, (c &&& 0x01#8 == 1#8) = c.getLsbD 0 := by decide
  simp only [checkByte, if_true, hone, BitVec.getLsbD_ushiftRight, Nat.add_zero]
  rw [BitVec.getMsbD_eq_getLsbD]
  simp [hk]

theorem used_eq_bitAt (bm : Bitmap) (p : Nat) : used bm p = bitAt bm p := by
  rw [used, and_seven, shiftRight_three, checkByte_left _ _ (Nat.mod_lt _ (by decide)), bitAt]

/-- A scan reads either a 0 or a 1, so a bit that is not free is used. -/
theorem checkByte_eq_zero_iff (bm : Bitmap) (p : Nat) :
    checkByte (bm (p >>> 3)) (p &&& 7) 1 = 0#8 ↔ used bm p = false := by
  have hbit : ∀ c : BitVec 8, c &&& 0x01#8 = 0#8 ↔ (c &&& 0x01#8 == 1#8) = false := by decide
  simp only [used, checkByte, if_true]
  exact hbit _

/-! ## Writing a run of bits -/

/-- `for (i = 0; i < n; i++) { bitmap[count>>3] = set_bit(.., count & 7, value, 1); count++; }` -/
def writeBits (value : Bool) : Nat → Nat → Bitmap → Bitmap
  | 0, _, bm => bm
  | n + 1, count, bm =>
    writeBits value n (count + 1)
      (Function.update bm (count >>> 3) (setBit (bm (count >>> 3)) (count &&& 7) value 1))

/-- `for (j = 0; j < n; j++) { bitmap[count>>3] = 0xff or 0; count += 8; }` -/
def writeBytes (value : Bool) : Nat → Nat → Bitmap → Bitmap
  | 0, _, bm => bm
  | n + 1, count, bm =>
    writeBytes value n (count + 8)
      (Function.update bm (count >>> 3) (if value then 0xff#8 else 0#8))

/-- The unaligned head of a run.  Returns the bitmap, the next page and how many are left. -/
def writeHead (value : Bool) (bm : Bitmap) (count pageCount : Nat) : Bitmap × Nat × Nat :=
  if count &&& 7 > 0 then
    let bitsLeft := 8 - (count &&& 7)
    if bitsLeft ≤ pageCount then
      (Function.update bm (count >>> 3)
        (putMask (bm (count >>> 3)) (0xff#8 >>> (count &&& 7)) value),
        count + bitsLeft, pageCount - bitsLeft)
    else (writeBits value pageCount count bm, count + pageCount, 0)
  else (bm, count, pageCount)

/-- Write `value` to the bits of the pages `count, …, count + pageCount - 1`. -/
def writeRange (value : Bool) (bm : Bitmap) (count pageCount : Nat) : Bitmap :=
  let (bm, count, pageCount) := writeHead value bm count pageCount
  let eightPageCount := pageCount >>> 3
  let onePageCount := pageCount &&& 7
  let bm := writeBytes value eightPageCount count bm
  let count := count + 8 * eightPageCount
  Function.update bm (count >>> 3)
    (putMask (bm (count >>> 3)) (0xff#8 <<< (8 - onePageCount)) value)

/-- `fill_bitmap`: mark a run of pages used. -/
def fillBitmap (count pageCount : Nat) (bm : Bitmap) : Bitmap := writeRange true bm count pageCount

/-! ## What the routine writes -/

theorem getMsbD_putMask (b mask : BitVec 8) (value : Bool) (j : Nat) (hj : j < 8) :
    (putMask b mask value).getMsbD j = if mask.getMsbD j then value else b.getMsbD j := by
  cases value <;> cases h : mask.getMsbD j <;> simp [putMask, h, hj]

theorem used_update (bm : Bitmap) (i : Nat) (b : BitVec 8) (p : Nat) :
    used (Function.update bm i b) p = if p / 8 = i then b.getMsbD (p % 8) else used bm p := by
  rw [used_eq_bitAt, used_eq_bitAt, bitAt_update]

/-- Storing a byte with the bits of a mask rewritten, for a mask that holds the bits in `P`. -/
theorem used_update_putMask (value : Bool) (bm : Bitmap) (i : Nat) {mask : BitVec 8}
    {P : Nat → Prop} [DecidablePred P] (hmask : ∀ j, j < 8 → mask.getMsbD j = decide (P j))
    (p : Nat) : used (Function.update bm i (putMask (bm i) mask value)) p =
      if p / 8 = i ∧ P (p % 8) then value else used bm p := by
  have hp : p % 8 < 8 := Nat.mod_lt _ (by decide)
  rw [used_update, getMsbD_putMask _ _ _ _ hp, hmask _ hp]
  by_cases hi : p / 8 = i
  · subst hi
    by_cases hP : P (p % 8)
    · simp [hP]
    · simp [hP, used_eq_bitAt, bitAt]
  · simp [hi]

theorem used_writeBits (value : Bool) : ∀ (n count : Nat) (bm : Bitmap) (p : Nat),
    used (writeBits value n count bm) p =
      if count ≤ p ∧ p < count + n then value else used bm p
  | 0, count, bm, p => by
    rw [writeBits, if_neg (by omega)]
  | n + 1, count, bm, p => by
    have hmask : ∀ j, j < 8 → (1#8 <<< (7 - count % 8)).getMsbD j = decide (j = count % 8) :=
      fun j hj => getMsbD_single _ j (Nat.mod_lt _ (by decide)) hj
    rw [writeBits, used_writeBits value n, setBit, and_seven, shiftRight_three, if_pos rfl,
      used_update_putMask value bm _ hmask]
    by_cases h1 : count + 1 ≤ p ∧ p < count + 1 + n
    · rw [if_pos h1, if_pos (by omega)]
    · rw [if_neg h1]
      by_cases h2 : p = count
      · subst h2
        rw [if_pos ⟨rfl, rfl⟩, if_pos (by omega)]
      · rw [if_neg (by omega), if_neg (by omega)]

theorem used_writeBytes (value : Bool) : ∀ (n count : Nat) (bm : Bitmap) (p : Nat),
    count % 8 = 0 → used (writeBytes value n count bm) p =
      if count ≤ p ∧ p < count + 8 * n then value else used bm p
  | 0, count, bm, p, _ => by
    rw [writeBytes, if_neg (by omega)]
  | n + 1, count, bm, p, hc => by
    have hbyte : (if value then 0xff#8 else 0#8).getMsbD (p % 8) = value := by
      cases value
      · simp
      · simp [getMsbD_ones, Nat.mod_lt p (show 8 > 0 by decide)]
    rw [writeBytes, used_writeBytes value n _ _ _ (by omega), used_update, shiftRight_three, hbyte]
    by_cases h1 : count + 8 ≤ p ∧ p < count + 8 + 8 * n
    · rw [if_pos h1, if_pos (by omega)]
    · rw [if_neg h1]
      by_cases h2 : p / 8 = count / 8
      · rw [if_pos h2, if_pos (by omega)]
      · rw [if_neg h2, if_neg (by omega)]

/-- The head writes the pages up to the next byte boundary, or all of them, and leaves `count` on
the boundary unless there is nothing left to write. -/
theorem writeHead_spec (value : Bool) (bm : Bitmap) (count pageCount : Nat) :
    let r := writeHead value bm count pageCount
    (∀ p, used r.1 p = if count ≤ p ∧ p < r.2.1 then value else used bm p) ∧
      count ≤ r.2.1 ∧ r.2.1 + r.2.2 = count + pageCount ∧ (r.2.1 % 8 = 0 ∨ r.2.2 = 0) := by
  simp only [writeHead, and_seven, shiftRight_three]
  by_cases h0 : count % 8 > 0
  · rw [if_pos h0]
    by_cases h1 : 8 - count % 8 ≤ pageCount
    · rw [if_pos h1]
      refine ⟨fun p => ?_, by simp only; omega, by simp only; omega, by simp only; omega⟩
      rw [used_update_putMask value bm _ fun j hj => getMsbD_head (count % 8) j hj]
      exact if_congr (by simp only; omega) rfl rfl
    · rw [if_neg h1]
      exact ⟨fun p => used_writeBits value pageCount count bm p, by simp only; omega, rfl,
        Or.inr rfl⟩
  · rw [if_neg h0]
    refine ⟨fun p => ?_, Nat.le_refl _, rfl, by simp only; omega⟩
    rw [if_neg (by simp only; omega)]

/-- **The run writer writes its run.** -/
theorem used_writeRange (value : Bool) (bm : Bitmap) (count pageCount p : Nat) :
    used (writeRange value bm count pageCount) p =
      if count ≤ p ∧ p < count + pageCount then value else used bm p := by
  obtain ⟨hhead, hle, hsum, hal⟩ := writeHead_spec value bm count pageCount
  simp only [writeRange]
  rcases hw : writeHead value bm count pageCount with ⟨bm', c, n⟩
  simp only [hw] at hhead hle hsum hal
  simp only [and_seven, shiftRight_three]
  rw [used_update_putMask value _ _ fun j _ => getMsbD_tail (n % 8) j (by omega)]
  rcases hal with hal | hn
  · rw [used_writeBytes value _ _ _ _ hal, hhead]
    by_cases h1 : p / 8 = (c + 8 * (n / 8)) / 8 ∧ p % 8 < n % 8
    · rw [if_pos h1, if_pos (by omega)]
    · rw [if_neg h1]
      by_cases h2 : c ≤ p ∧ p < c + 8 * (n / 8)
      · rw [if_pos h2, if_pos (by omega)]
      · rw [if_neg h2]
        exact if_congr (by omega) rfl rfl
  · subst hn
    rw [if_neg (by omega), Nat.zero_div, writeBytes, hhead]
    exact if_congr (by omega) rfl rfl

end Dem64
