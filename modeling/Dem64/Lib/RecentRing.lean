import Mathlib.Logic.Function.Basic
import Mathlib.Tactic.Common

/-!
# A ring of recent items

A buffer of `N` cells into which items are written one after another; behind the last cell comes the first one
again.  It holds the last `N` items, each at its place.
-/

set_option autoImplicit false

namespace RecentRing

variable {α : Type} {N top : Nat} {init buf : Nat → α} {items : List α} {x : α}

/-- The buffer that was `init` holds the last `N` of the items, and the next one goes to `top`. -/
structure Holds (N : Nat) (init buf : Nat → α) (top : Nat) (items : List α) : Prop where
  top : top = items.length % N
  recent : ∀ j (h : j < items.length), items.length ≤ j + N → buf (j % N) = items[j]
  /-- A cell that was not reached is as it was, and so is everything outside. -/
  kept : ∀ i, items.length ≤ i ∨ N ≤ i → buf i = init i

theorem Holds.empty : Holds N init init 0 [] where
  top := (Nat.zero_mod N).symm
  recent j h := absurd h (Nat.not_lt_zero j)
  kept _ _ := rfl

theorem Holds.top_lt (h : Holds N init buf top items) (hN : 0 < N) : top < N := h.top ▸ Nat.mod_lt _ hN

/-- Two items fewer than `N` apart have different cells. -/
theorem mod_ne_of_lt {j n : Nat} (h₁ : j < n) (h₂ : n < j + N) : j % N ≠ n % N := by
  intro h
  have hzero := Nat.sub_mod_eq_zero_of_mod_eq h.symm
  rw [Nat.mod_eq_of_lt (by omega)] at hzero
  omega

/-- **The next item** goes to the top and takes the place of the oldest one. -/
theorem Holds.push (h : Holds N init buf top items) (hN : 0 < N) (x : α) :
    Holds N init (Function.update buf top x) (if top + 1 = N then 0 else top + 1) (items ++ [x]) where
  top := by
    have hlt := h.top_lt hN
    rw [List.length_append, List.length_singleton, Nat.add_mod, ← h.top]
    split
    · next heq =>
      rcases Nat.lt_or_ge 1 N with h1 | h1
      · rw [Nat.mod_eq_of_lt h1, heq, Nat.mod_self]
      · obtain rfl : N = 1 := by omega
        omega
    · rw [Nat.mod_eq_of_lt (show 1 < N by omega), Nat.mod_eq_of_lt (by omega)]
  recent j hj hle := by
    rw [List.length_append, List.length_singleton] at hj hle
    rcases Nat.lt_or_ge j items.length with hlt | hge
    · have hne : j % N ≠ top := h.top ▸ mod_ne_of_lt hlt (by omega)
      rw [Function.update_of_ne hne, List.getElem_append_left hlt]
      exact h.recent j hlt (by omega)
    · obtain rfl : j = items.length := by omega
      rw [← h.top, Function.update_self, List.getElem_append_right (Nat.le_refl _)]
      simp
  kept i hi := by
    rw [List.length_append, List.length_singleton] at hi
    have hlt := h.top_lt hN
    have hne : i ≠ top := by
      rintro rfl
      have hle : items.length % N ≤ items.length := Nat.mod_le _ _
      have htop := h.top
      omega
    rw [Function.update_of_ne hne]
    exact h.kept i (by omega)

end RecentRing
