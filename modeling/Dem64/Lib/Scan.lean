import Mathlib.Data.List.Find
import Mathlib.Tactic.Common

/-!
# The first hit of a scan

A scan tries the addresses `lo`, `lo + stride`, … below a limit and stops at the first one that passes a test.
It is the search for the first number of a step that passes (`scan_eq`), so two scans whose tests agree step by
step end at the same step, wherever they start (`scan_eq_shift`).
-/

set_option autoImplicit false

namespace Scan

/-- `for (a = lo; a < hi; a += stride) if (p(a)) return a;`, of `fuel` iterations at most. -/
def scan (p : Nat → Bool) (stride hi : Nat) : Nat → Nat → Option Nat
  | 0, _ => none
  | fuel + 1, a => if a < hi then if p a then some a else scan p stride hi fuel (a + stride) else none

variable {p q : Nat → Bool} {stride hi lo n fuel a : Nat}

/-- **A scan of `n` steps searches the first one that passes.** -/
theorem scan_eq (hs : 0 < stride) (hhi : lo + n * stride = hi) (hn : n ≤ fuel) :
    scan p stride hi fuel lo =
      ((List.range n).find? fun i => p (lo + i * stride)).map fun i => lo + i * stride := by
  induction n generalizing lo fuel with
  | zero =>
    have hend : ¬ lo < hi := by omega
    cases fuel with
    | zero => rfl
    | succ fuel => rw [scan, if_neg hend]; rfl
  | succ n ih =>
    obtain ⟨fuel, rfl⟩ : ∃ m, fuel = m + 1 := ⟨fuel - 1, by omega⟩
    have hlt : lo < hi := by rw [Nat.succ_mul] at hhi; omega
    have hrest := @ih (lo + stride) fuel (by rw [Nat.succ_mul] at hhi; omega) (by omega)
    have hshift : ∀ i, lo + stride + i * stride = lo + (i + 1) * stride := by
      intro i
      rw [Nat.succ_mul]
      omega
    rw [scan, if_pos hlt, List.range_succ_eq_map, List.find?_cons, Nat.zero_mul, Nat.add_zero]
    cases hp : p lo with
    | true => simp
    | false =>
      rw [if_neg (by simp), hrest, List.find?_map, Option.map_map]
      simp only [hshift]
      rfl

/-- Where a scan ends, the test passes, and the address is one of the `n` steps. -/
theorem of_scan_eq_some (hs : 0 < stride) (hhi : lo + n * stride = hi) (hn : n ≤ fuel)
    (h : scan p stride hi fuel lo = some a) : (∃ i, i < n ∧ a = lo + i * stride) ∧ p a = true := by
  rw [scan_eq hs hhi hn, Option.map_eq_some_iff] at h
  obtain ⟨i, hi, rfl⟩ := h
  have hp : p (lo + i * stride) = true := List.find?_some (p := fun i => p (lo + i * stride)) hi
  exact ⟨⟨i, List.mem_range.mp (List.mem_of_find?_eq_some hi), rfl⟩, hp⟩

/-- A scan without a result has tried every step. -/
theorem scan_eq_none_iff (hs : 0 < stride) (hhi : lo + n * stride = hi) (hn : n ≤ fuel) :
    scan p stride hi fuel lo = none ↔ ∀ i, i < n → p (lo + i * stride) = false := by
  rw [scan_eq hs hhi hn, Option.map_eq_none_iff, List.find?_eq_none]
  simp

/-- A scan whose first step passes ends there. -/
theorem scan_eq_start (hp : p lo = true) (hhi : lo < hi) : scan p stride hi (fuel + 1) lo = some lo := by
  rw [scan, if_pos hhi, if_pos hp]

/-- **Two scans with the same answers end at the same step.** -/
theorem scan_eq_shift {lo' hi' : Nat} (hs : 0 < stride) (hhi : lo + n * stride = hi)
    (hhi' : lo' + n * stride = hi') (hn : n ≤ fuel)
    (hpq : ∀ i, i < n → q (lo' + i * stride) = p (lo + i * stride)) :
    scan q stride hi' fuel lo' = (scan p stride hi fuel lo).map fun a => lo' + (a - lo) := by
  have hfind : ((List.range n).find? fun i => q (lo' + i * stride)) =
      (List.range n).find? fun i => p (lo + i * stride) := by
    refine List.find?_congr fun i hi => hpq i (List.mem_range.mp hi)
  rw [scan_eq hs hhi' hn, scan_eq hs hhi hn, hfind, Option.map_map]
  congr 1
  funext i
  simp

end Scan
