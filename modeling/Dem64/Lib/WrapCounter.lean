import Mathlib.Algebra.Group.Nat.Defs
import Mathlib.Order.Monotone.Basic
import Mathlib.Tactic.Common

/-!
# Counters that wrap

A clock counts ticks without end, and a register shows the low bits of their number.  Two readings that are not
further apart than the register can tell give the number of ticks between them (`elapsed_eq`), and it is what a
masked subtraction of machine words computes (`toNat_sub_and`).  Sums of such differences are exact over any number
of wraps.
-/

set_option autoImplicit false

namespace WrapCounter

/-- Readings of a register of `w` bits; before the reading `k` the clock has made `ticks k` ticks.  One reading and
the next are less than a wrap apart. -/
structure Counts (w : Nat) (reading ticks : Nat → Nat) : Prop where
  low : ∀ k, reading k = ticks k % 2 ^ w
  mono : ∀ k, ticks k ≤ ticks (k + 1)
  near : ∀ k, ticks (k + 1) - ticks k ≤ 2 ^ w - 1

/-- **The difference modulo the size of the register is the number of ticks.** -/
theorem elapsed_eq {m a b : Nat} (hab : a ≤ b) (hnear : b - a < m) : (b % m + m - a % m) % m = b - a := by
  obtain ⟨d, rfl⟩ := Nat.exists_eq_add_of_le hab
  rw [Nat.add_sub_cancel_left] at hnear ⊢
  have ha : a % m < m := Nat.mod_lt a (by omega)
  have hsum : (a + d) % m = (a % m + d) % m := by rw [Nat.add_mod, Nat.mod_eq_of_lt hnear]
  rw [hsum]
  rcases Nat.lt_or_ge (a % m + d) m with h | h
  · rw [Nat.mod_eq_of_lt h, show a % m + d + m - a % m = d + m by omega, Nat.add_mod_right, Nat.mod_eq_of_lt hnear]
  · rw [Nat.mod_eq_sub_mod h, Nat.mod_eq_of_lt (a := a % m + d - m) (by omega),
      show a % m + d - m + m - a % m = d by omega, Nat.mod_eq_of_lt hnear]

/-- A masked difference of words is the difference modulo the mask. -/
theorem toNat_sub_and {n w : Nat} (hw : w ≤ n) (x y : BitVec n) (hy : y.toNat < 2 ^ w) :
    ((x - y) &&& BitVec.ofNat n (2 ^ w - 1)).toNat = (x.toNat + 2 ^ w - y.toNat) % 2 ^ w := by
  have hpow : 2 ^ w ≤ 2 ^ n := Nat.pow_le_pow_right (by omega) hw
  have hpos : 0 < 2 ^ w := Nat.two_pow_pos w
  have hdvd : 2 ^ w ∣ 2 ^ n := Nat.pow_dvd_pow 2 hw
  rw [BitVec.toNat_and, BitVec.toNat_ofNat, Nat.mod_eq_of_lt (by omega), Nat.and_two_pow_sub_one_eq_mod,
    BitVec.toNat_sub, Nat.mod_mod_of_dvd _ hdvd]
  obtain ⟨c, hc⟩ := hdvd
  have hc1 : 0 < c := by
    rcases Nat.eq_zero_or_pos c with rfl | h
    · omega
    · exact h
  obtain ⟨e, rfl⟩ : ∃ e, c = e + 1 := ⟨c - 1, by omega⟩
  rw [show 2 ^ n - y.toNat + x.toNat = x.toNat + 2 ^ w - y.toNat + 2 ^ w * e by rw [hc, Nat.mul_succ]; omega,
    Nat.add_mul_mod_self_left]

section

variable {w : Nat} {reading ticks : Nat → Nat} (h : Counts w reading ticks)

include h

theorem Counts.le_of_le {j k : Nat} (hjk : j ≤ k) : ticks j ≤ ticks k :=
  monotone_nat_of_le_succ h.mono hjk

/-- Two readings in a row give the ticks between them. -/
theorem Counts.step (k : Nat) :
    (reading (k + 1) + 2 ^ w - reading k) % 2 ^ w = ticks (k + 1) - ticks k := by
  have hpos : 0 < 2 ^ w := Nat.two_pow_pos w
  have hnear := h.near k
  rw [h.low, h.low]
  exact elapsed_eq (h.mono k) (by omega)

end

end WrapCounter
