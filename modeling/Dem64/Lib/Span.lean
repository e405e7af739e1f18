import Mathlib.Algebra.BigOperators.Group.List.Basic
import Mathlib.Algebra.GroupWithZero.Nat
import Mathlib.Tactic.Common

/-!
# Spans in a row

A span is a run of addresses.  Spans that are laid out one behind the other (`Span.row`) are apart from
each other and fill the space from the first to the last, so a layout is checked by writing it as a row.
-/

set_option autoImplicit false

/-- A run of addresses. -/
@[ext] structure Span where
  /-- The first. -/
  start : Nat
  /-- How many. -/
  length : Nat
deriving DecidableEq

namespace Span

/-- No address is in both. -/
def Apart (a b : Span) : Prop := a.start + a.length ≤ b.start ∨ b.start + b.length ≤ a.start

/-- Every address of the first is in the second. -/
def Inside (a b : Span) : Prop := b.start ≤ a.start ∧ a.start + a.length ≤ b.start + b.length

/-- Spans of these lengths, one behind the other. -/
def row : Nat → List Nat → List Span
  | _, [] => []
  | start, n :: l => ⟨start, n⟩ :: row (start + n) l

variable {start : Nat} {l r : List Nat} {s : Span}

theorem inside_of_mem_row (h : s ∈ row start l) : s.Inside ⟨start, l.sum⟩ := by
  induction l generalizing start with
  | nil => simp [row] at h
  | cons n l ih =>
    rw [row, List.mem_cons] at h
    rw [List.sum_cons, Inside]
    rcases h with rfl | h
    · simp only
      omega
    · obtain ⟨h1, h2⟩ := ih h
      simp only at h1 h2 ⊢
      omega

/-- **The spans of a row are apart.** -/
theorem pairwise_row (start : Nat) (l : List Nat) : (row start l).Pairwise Apart := by
  induction l generalizing start with
  | nil => exact List.Pairwise.nil
  | cons n l ih => exact .cons (fun s hs => .inl (inside_of_mem_row hs).1) (ih (start + n))

theorem row_append : row start (l ++ r) = row start l ++ row (start + l.sum) r := by
  induction l generalizing start with
  | nil => rfl
  | cons n l ih => rw [List.cons_append, row, ih, row, List.cons_append, List.sum_cons, Nat.add_assoc]

theorem row_replicate (start k n : Nat) :
    row start (List.replicate n k) = (List.range n).map fun i => ⟨start + k * i, k⟩ := by
  induction n generalizing start with
  | zero => rfl
  | succ n ih =>
    rw [List.replicate_succ, row, ih, List.range_succ_eq_map, List.map_cons, List.map_map,
      Nat.mul_zero, Nat.add_zero]
    congr 1
    apply List.map_congr_left
    intro i _
    simp only [Function.comp_apply, Span.mk.injEq, and_true]
    rw [Nat.mul_succ]
    omega

end Span
