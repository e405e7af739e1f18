import Mathlib.Algebra.Group.Nat.Defs
import Mathlib.Logic.Function.Basic
import Mathlib.Data.Nat.Init

/-!
# Bits numbered through an array of bytes

A byte array read as one long row of bits: bit `p` is in byte `p / 8`, and inside the byte the
bits are counted from the most significant one down.  This is the numbering of an allocation
bitmap whose page `0` is the top bit of byte `0`.

`bitAt` reads a bit, and `bitAt_update` says what a store of one byte does to the row.  The masks
a range writer needs — the head of a byte, its tail, a single bit, all of it — are described by
which bits they contain, so that no caller has to look inside a byte.
-/

set_option autoImplicit false

namespace ByteBits

/-- Bit `p` of the row: bit `p % 8`, from the top, of byte `p / 8`. -/
def bitAt (m : Nat → BitVec 8) (p : Nat) : Bool := (m (p / 8)).getMsbD (p % 8)

theorem bitAt_update (m : Nat → BitVec 8) (i : Nat) (b : BitVec 8) (p : Nat) :
    bitAt (Function.update m i b) p = if p / 8 = i then b.getMsbD (p % 8) else bitAt m p := by
  rw [bitAt, Function.update_apply]
  split
  · rfl
  · rfl

/-! ## Masks -/

theorem getMsbD_ones (j : Nat) : (0xff#8).getMsbD j = decide (j < 8) := by
  by_cases h : j < 8
  · have hall : ∀ i, i < 8 → (0xff#8).getMsbD i = true := by decide
    simp [h, hall j h]
  · simp [h, BitVec.getMsbD_of_ge _ _ (Nat.le_of_not_lt h)]

/-- The mask `0xff >> k` holds the bits from `k` on. -/
theorem getMsbD_head (k j : Nat) (hj : j < 8) :
    (0xff#8 >>> k).getMsbD j = decide (k ≤ j) := by
  rw [BitVec.getMsbD_ushiftRight, getMsbD_ones]
  by_cases h : k ≤ j
  · simp [h, hj, show j - k < 8 by omega]
  · simp [h]

/-- The mask `0xff << (8 - k)` holds the first `k` bits. -/
theorem getMsbD_tail (k j : Nat) (hk : k ≤ 8) : (0xff#8 <<< (8 - k)).getMsbD j = decide (j < k) := by
  rw [BitVec.getMsbD_shiftLeft, getMsbD_ones, decide_eq_decide]
  omega

/-- The mask `1 << (7 - k)` holds bit `k` alone. -/
theorem getMsbD_single (k j : Nat) (hk : k < 8) (hj : j < 8) :
    (1#8 <<< (7 - k)).getMsbD j = decide (j = k) := by
  have hall : ∀ k, k < 8 → ∀ j, j < 8 → (1#8 <<< (7 - k)).getMsbD j = decide (j = k) := by
    decide
  exact hall k hk j hj

/-- The mask of the bits from `a` up to `b`. -/
def spanMask (a b : Nat) : BitVec 8 := (0xff#8 >>> a) &&& (0xff#8 <<< (8 - b))

theorem getMsbD_spanMask (a : Nat) {b j : Nat} (hb : b ≤ 8) (hj : j < 8) :
    (spanMask a b).getMsbD j = decide (a ≤ j ∧ j < b) := by
  rw [spanMask, BitVec.getMsbD_and, getMsbD_head a j hj, getMsbD_tail b j hb, Bool.decide_and]

theorem spanMask_empty {a b : Nat} (hb : b ≤ 8) (hba : b ≤ a) : spanMask a b = 0#8 := by
  refine BitVec.eq_of_getMsbD_eq fun j hj => ?_
  rw [getMsbD_spanMask a hb hj, BitVec.getMsbD_zero, decide_eq_false_iff_not]
  omega

theorem spanMask_head (a : Nat) : spanMask a 8 = 0xff#8 >>> a := by
  rw [spanMask, Nat.sub_self, BitVec.shiftLeft_zero, show 0xff#8 = BitVec.allOnes 8 from rfl,
    BitVec.and_allOnes]

theorem spanMask_tail (b : Nat) : spanMask 0 b = 0xff#8 <<< (8 - b) := by
  rw [spanMask, BitVec.ushiftRight_zero, show 0xff#8 = BitVec.allOnes 8 from rfl,
    BitVec.allOnes_and]

theorem spanMask_single {k : Nat} (hk : k < 8) : spanMask k (k + 1) = 1#8 <<< (7 - k) := by
  refine BitVec.eq_of_getMsbD_eq fun j hj => ?_
  rw [getMsbD_spanMask k hk hj, getMsbD_single k j hk hj, decide_eq_decide]
  omega

/-- Two spans that meet make one. -/
theorem spanMask_or {a b c : Nat} (hab : a ≤ b) (hbc : b ≤ c) (hc : c ≤ 8) :
    spanMask a b ||| spanMask b c = spanMask a c := by
  refine BitVec.eq_of_getMsbD_eq fun j hj => ?_
  rw [BitVec.getMsbD_or, getMsbD_spanMask a (Nat.le_trans hbc hc) hj, getMsbD_spanMask b hc hj,
    getMsbD_spanMask a hc hj, ← Bool.decide_or, decide_eq_decide]
  omega

/-- Two rows with the same bits are the same bytes. -/
theorem ext_bitAt {m m' : Nat → BitVec 8} (h : ∀ p, bitAt m p = bitAt m' p) : m = m' := by
  funext i
  refine BitVec.eq_of_getMsbD_eq fun j hj => ?_
  have hp := h (8 * i + j)
  rwa [bitAt, bitAt, show (8 * i + j) / 8 = i by omega, show (8 * i + j) % 8 = j by omega] at hp

end ByteBits
