import Mathlib.Data.Multiset.Filter
import Mathlib.Data.Set.Lattice
import Mathlib.Order.BourbakiWitt
import Mathlib.Order.CompletePartialOrder

/-!
# Tilings

A tiling of a set by a multiset of pieces: every point of the set lies in exactly one piece, and no
piece has a point outside the set.  Pieces may be empty, and an empty piece may occur many times.

The moves are cutting a piece in two and gluing (`Tiling.cut`), and dropping or adding an empty piece
(`Tiling.empty`).  What a tiling is good for is `Tiling.disjoint` and `Tiling.mem_iff`.
-/

set_option autoImplicit false

universe u

variable {α : Type u}

open Classical in
/-- How many of the pieces a point lies in. -/
noncomputable def hits (pieces : Multiset (Set α)) (x : α) : Nat := pieces.countP (x ∈ ·)

open Classical in
/-- The pieces tile the set `W`. -/
def Tiling (W : Set α) (pieces : Multiset (Set α)) : Prop :=
  ∀ x, hits pieces x = if x ∈ W then 1 else 0

namespace Tiling

variable {W : Set α} {P : Multiset (Set α)} {A B C : Set α}

open Classical in
theorem hits_cons (A : Set α) (P : Multiset (Set α)) (x : α) :
    hits (A ::ₘ P) x = hits P x + if x ∈ A then 1 else 0 := by
  rw [hits, Multiset.countP_cons, hits]

/-- **A piece may be cut in two**, and two disjoint pieces may be glued. -/
theorem cut (hA : A = B ∪ C) (hBC : Disjoint B C) : Tiling W (A ::ₘ P) ↔ Tiling W (B ::ₘ C ::ₘ P) := by
  classical
  refine forall_congr' fun x => ?_
  have hx : (if x ∈ A then 1 else 0) = (if x ∈ C then 1 else 0) + if x ∈ B then 1 else 0 := by
    have hdis : x ∈ B → x ∉ C := fun hB hC => Set.disjoint_left.mp hBC hB hC
    subst hA
    by_cases hB : x ∈ B
    · simp [hB, hdis hB]
    · simp [hB]
  rw [hits_cons, hits_cons, hits_cons, hx, Nat.add_assoc]

/-- **An empty piece does not count.** -/
theorem empty : Tiling W (∅ ::ₘ P) ↔ Tiling W P := by
  classical
  refine forall_congr' fun x => ?_
  rw [hits_cons, if_neg (Set.notMem_empty x), Nat.add_zero]

/-- Two of the pieces have no point in common. -/
theorem disjoint (h : Tiling W (A ::ₘ B ::ₘ P)) : Disjoint A B := by
  classical
  rw [Set.disjoint_left]
  intro x hA hB
  have hx := h x
  rw [hits_cons, hits_cons, if_pos hA, if_pos hB] at hx
  split at hx <;> omega

/-- The pieces cover the set and nothing else. -/
theorem mem_iff (h : Tiling W P) (x : α) : x ∈ W ↔ ∃ A ∈ P, x ∈ A := by
  classical
  have hx := h x
  constructor
  · intro hW
    rw [if_pos hW] at hx
    have hpos : 0 < P.countP (x ∈ ·) := by
      rw [hits] at hx
      omega
    exact Multiset.countP_pos.mp hpos
  · intro hA
    by_contra hW
    rw [if_neg hW] at hx
    have hpos : 0 < P.countP (x ∈ ·) := Multiset.countP_pos.mpr hA
    rw [hits] at hx
    omega

/-- A set is tiled by itself. -/
theorem single (W : Set α) : Tiling W {W} := by
  intro x
  rw [← Multiset.cons_zero, hits_cons, hits, Multiset.countP_zero, Nat.zero_add]

end Tiling
