import Dem64.Lib.BitRow

/-!
# Looking for free objects

A slab is a page of 128 objects of 32 bytes, with a map of 128 bits, two words of 64.  The search of
`find_objs` works on a copy of the two words that it destroys as it goes: it finds the first clear bit,
clears everything below it, finds the first set bit behind it, and if the gap is too short it sets
everything below that bit and starts again.

A shift of a 64-bit word by 64 has no value here, as it has none in C.  The counts of the search never
come to that (`mask128_eq`, `or128_eq`), it ends for every map within 129 rounds, and what it returns is
the first run of the length asked for (`searchLoop_spec`).
-/

set_option autoImplicit false

namespace Dem64

open BitRow

/-- `Bsf` of lowlevel.asm: the lowest bit that is set, or 64. -/
def bsf (w : BitVec 64) : Nat := ((List.range 64).find? fun i => w.getLsbD i).getD 64

/-- `Bsf128` -/
def bsf128 (low high : BitVec 64) : Nat :=
  let ind := bsf low
  if ind = 64 then ind + bsf high else ind

/-- `Used2048` -/
def used2048 : BitVec 64 := 0xFFFFFFFFFFFFFFFF

/-- A shift to the left of a 64-bit word. -/
def shl64 (w : BitVec 64) (count : Nat) : Option (BitVec 64) :=
  if count < 64 then some (w <<< count) else none

/-- A shift to the right of a 64-bit word. -/
def shr64 (w : BitVec 64) (count : Nat) : Option (BitVec 64) :=
  if count < 64 then some (w >>> count) else none

/-- `mask128` -/
def mask128 (low high : BitVec 64) (ind : Nat) : Option (BitVec 64 × BitVec 64) :=
  if ind = 128 then some (low &&& ~~~used2048, high &&& ~~~used2048)
  else do
    let lowMask ← (if ind >>> 6 ≠ 0 then some (~~~used2048) else shl64 used2048 (ind &&& 63))
    let highMask ← shl64 used2048 (if ind >>> 6 ≠ 0 then ind - 64 else 0)
    return (low &&& lowMask, high &&& highMask)

/-- `Or128` -/
def or128 (low high : BitVec 64) (ind : Nat) : Option (BitVec 64 × BitVec 64) :=
  if ind = 128 then some (used2048, used2048)
  else do
    let lowMask ← (if ind >>> 6 ≠ 0 then some used2048 else shr64 used2048 (64 - (ind &&& 63)))
    let highMask ←
      (if ind >>> 6 ≠ 0 then if ind &&& 63 ≠ 0 then shr64 used2048 (64 - (ind - 64)) else some 0#64
      else some 0#64)
    return (low ||| lowMask, high ||| highMask)

/-- The search of `find_objs` with at most `n` rounds: the place where it stops, if it finds one. -/
def searchLoop (req : Nat) : Nat → BitVec 64 → BitVec 64 → Option (Option Nat)
  | 0, _, _ => none
  | n + 1, low, high =>
    let ind := bsf128 (~~~low) (~~~high)
    if ind < 128 then do
      let (low, high) ← mask128 low high ind
      let ind2 := bsf128 low high
      if (req : Int) ≤ (ind2 : Int) - ind then return some ind
      let (low, high) ← or128 low high ind2
      searchLoop req n low high
    else some none

/-- Bit `i` of the map. -/
def mapBit (low high : BitVec 64) (i : Nat) : Bool := (high ++ low).getLsbD i

section

variable {low high w : BitVec 64} {ind i k n p req : Nat}

/-! ## The first bit -/

theorem bsf_spec (w : BitVec 64) : FirstAt (fun i => w.getLsbD i = true) 64 (bsf w) := by
  rw [bsf]
  cases h : (List.range 64).find? fun i => w.getLsbD i with
  | none =>
    rw [List.find?_eq_none] at h
    exact ⟨Nat.le_refl 64, fun i hi => h i (List.mem_range.mpr hi), fun h => absurd h (by decide)⟩
  | some k =>
    obtain ⟨hk, l, r, hsplit, hl⟩ := List.find?_eq_some_iff_append.mp h
    have hlt : k < 64 := List.mem_range.mp (List.mem_of_find?_eq_some h)
    rw [Option.getD_some]
    refine ⟨hlt.le, fun i hi htrue => ?_, fun _ => hk⟩
    have hmem : i ∈ l := by
      have hsorted := List.pairwise_lt_range (n := 64)
      have hin : i ∈ l ++ k :: r := hsplit ▸ List.mem_range.mpr (show i < 64 by omega)
      rw [hsplit, List.pairwise_append, List.pairwise_cons] at hsorted
      rcases List.mem_append.mp hin with hm | hm
      · exact hm
      · rcases List.mem_cons.mp hm with rfl | hm
        · exact absurd hi (Nat.lt_irrefl i)
        · exact absurd (hsorted.2.1.1 i hm) (by omega)
    have hfalse := hl i hmem
    rw [htrue] at hfalse
    exact absurd hfalse (by decide)

theorem mapBit_eq : mapBit low high i = if i < 64 then low.getLsbD i else high.getLsbD (i - 64) :=
  BitVec.getLsbD_append

theorem bsf128_spec (low high : BitVec 64) :
    FirstAt (fun i => mapBit low high i = true) 128 (bsf128 low high) := by
  have hl := bsf_spec low
  have hh := bsf_spec high
  rw [bsf128]
  split
  · rename_i h
    rw [h] at hl ⊢
    refine ⟨by have := hh.le; omega, fun i hi => ?_, fun hlt => ?_⟩
    · rw [mapBit_eq]
      split
      · exact hl.before i (by assumption)
      · exact hh.before (i - 64) (by omega)
    · rw [mapBit_eq, if_neg (by omega), Nat.add_sub_cancel_left]
      exact hh.here (by omega)
  · rename_i h
    have hlt : bsf low < 64 := Nat.lt_of_le_of_ne hl.le h
    refine ⟨by omega, fun i hi => ?_, fun _ => ?_⟩
    · rw [mapBit_eq, if_pos (by omega)]
      exact hl.before i hi
    · rw [mapBit_eq, if_pos hlt]
      exact hl.here hlt

theorem mapBit_not (hi : i < 128) : mapBit (~~~low) (~~~high) i = !mapBit low high i := by
  rw [mapBit_eq, mapBit_eq]
  split
  · rw [BitVec.getLsbD_not, decide_eq_true (by assumption), Bool.true_and]
  · rw [BitVec.getLsbD_not, decide_eq_true (by omega), Bool.true_and]

/-! ## The masks -/

theorem getLsbD_used2048 : used2048.getLsbD i = decide (i < 64) := by
  by_cases h : i < 64
  · have hall : ∀ i, i < 64 → used2048.getLsbD i = true := by decide
    rw [hall i h, decide_eq_true h]
  · rw [BitVec.getLsbD_of_ge _ _ (by omega), decide_eq_false h]

theorem getLsbD_used2048_shl : (used2048 <<< k).getLsbD i = decide (k ≤ i ∧ i < 64) := by
  rw [BitVec.getLsbD_shiftLeft, getLsbD_used2048, Bool.eq_iff_iff]
  simp
  omega

theorem getLsbD_used2048_shr : (used2048 >>> k).getLsbD i = decide (k + i < 64) := by
  rw [BitVec.getLsbD_ushiftRight, getLsbD_used2048]

theorem shiftRight_six_eq_zero : ind >>> 6 = 0 ↔ ind < 64 := by
  rw [Nat.shiftRight_eq_div_pow]
  omega

theorem and_63 : ind &&& 63 = ind % 64 := Nat.and_two_pow_sub_one_eq_mod ind 6

/-- `mask128` clears the bits below `ind`. -/
theorem mask128_eq (hind : ind < 128) : ∃ l h, mask128 low high ind = some (l, h) ∧
    ∀ i, i < 128 → mapBit l h i = (mapBit low high i && decide (ind ≤ i)) := by
  rw [mask128, if_neg (by omega)]
  by_cases h : ind < 64
  · rw [if_neg (by rwa [not_not, shiftRight_six_eq_zero]), if_neg (by rwa [not_not, shiftRight_six_eq_zero]),
      and_63, Nat.mod_eq_of_lt h, shl64, if_pos h, shl64, if_pos (by decide)]
    refine ⟨_, _, rfl, fun i hi => ?_⟩
    rw [mapBit_eq, mapBit_eq]
    split
    · rw [BitVec.getLsbD_and, getLsbD_used2048_shl]
      congr 2
      exact propext (by omega)
    · rw [BitVec.getLsbD_and, getLsbD_used2048_shl]
      congr 2
      exact propext (by omega)
  · rw [if_pos (by rwa [ne_eq, shiftRight_six_eq_zero]), if_pos (by rwa [ne_eq, shiftRight_six_eq_zero]),
      shl64, if_pos (by omega)]
    refine ⟨_, _, rfl, fun i hi => ?_⟩
    rw [mapBit_eq, mapBit_eq]
    split
    · rw [BitVec.getLsbD_and, BitVec.getLsbD_not, getLsbD_used2048]
      congr 1
      rw [decide_eq_false (p := ind ≤ i) (by omega), decide_eq_true (by assumption), Bool.not_true,
        Bool.and_false]
    · rw [BitVec.getLsbD_and, getLsbD_used2048_shl]
      congr 2
      exact propext (by omega)

/-- `Or128` sets the bits below `ind`. -/
theorem or128_eq (hpos : 0 < ind) (hind : ind ≤ 128) : ∃ l h, or128 low high ind = some (l, h) ∧
    ∀ i, i < 128 → mapBit l h i = (mapBit low high i || decide (i < ind)) := by
  rw [or128]
  rcases Nat.eq_or_lt_of_le hind with rfl | hlt
  · rw [if_pos rfl]
    refine ⟨_, _, rfl, fun i hi => ?_⟩
    rw [decide_eq_true hi, Bool.or_true, mapBit_eq]
    split
    · rw [getLsbD_used2048, decide_eq_true (by assumption)]
    · rw [getLsbD_used2048, decide_eq_true (by omega)]
  · rw [if_neg (by omega)]
    by_cases h : ind < 64
    · rw [if_neg (by rwa [not_not, shiftRight_six_eq_zero]),
        if_neg (by rwa [not_not, shiftRight_six_eq_zero]), and_63, Nat.mod_eq_of_lt h, shr64,
        if_pos (by omega)]
      refine ⟨_, _, rfl, fun i hi => ?_⟩
      rw [mapBit_eq, mapBit_eq]
      split
      · rw [BitVec.getLsbD_or, getLsbD_used2048_shr]
        congr 2
        exact propext (by omega)
      · rw [BitVec.getLsbD_or, BitVec.getLsbD_zero, decide_eq_false (by omega)]
    · rw [if_pos (by rwa [ne_eq, shiftRight_six_eq_zero]), if_pos (by rwa [ne_eq, shiftRight_six_eq_zero]),
        and_63]
      have hlow : ∀ i, i < 64 → (low ||| used2048).getLsbD i = (low.getLsbD i || decide (i < ind)) := by
        intro i hi
        rw [BitVec.getLsbD_or, getLsbD_used2048, decide_eq_true hi, decide_eq_true (by omega)]
      by_cases hmod : ind % 64 = 0
      · obtain rfl : ind = 64 := by omega
        rw [if_neg (not_not.mpr hmod)]
        refine ⟨_, _, rfl, fun i hi => ?_⟩
        rw [mapBit_eq, mapBit_eq]
        split
        · exact hlow i (by assumption)
        · rw [BitVec.getLsbD_or, BitVec.getLsbD_zero, decide_eq_false (by omega)]
      · rw [if_pos hmod, shr64, if_pos (by omega)]
        refine ⟨_, _, rfl, fun i hi => ?_⟩
        rw [mapBit_eq, mapBit_eq]
        split
        · exact hlow i (by assumption)
        · rw [BitVec.getLsbD_or, getLsbD_used2048_shr]
          congr 2
          exact propext (by omega)

/-! ## The loop -/

/-- The map as the search has left it when it has ruled out all places before `p`. -/
structure Searched (f : Nat → Bool) (req p : Nat) (low high : BitVec 64) : Prop where
  le : p ≤ 128
  bits : ∀ i, i < 128 → mapBit low high i = (f i || decide (i < p))
  none : ∀ s, s < p → ¬ Run f 128 req s

/-- **The search ends, and finds the first run of `req` clear bits if there is one.** -/
theorem searchLoop_spec {f : Nat → Bool} (hreq : 0 < req) (hs : Searched f req p low high)
    (hn : 128 < n + p) : ∃ r, searchLoop req n low high = some r ∧
      (∀ s, r = some s → IsLeast { s | Run f 128 req s } s) ∧ (r = none → ∀ s, ¬ Run f 128 req s) := by
  induction n generalizing low high p with
  | zero =>
    have := hs.le
    omega
  | succ n ih =>
    have hz := bsf128_spec (~~~low) (~~~high)
    rw [searchLoop]
    simp only []
    generalize bsf128 (~~~low) (~~~high) = z at hz
    have hset : ∀ i, p ≤ i → i < z → f i = true := by
      intro i h1 h2
      have hbit := hz.before i h2
      have hle := hz.le
      rw [mapBit_not (by omega), hs.bits i (by omega), decide_eq_false (by omega), Bool.or_false] at hbit
      simpa using hbit
    have hnone := not_run_of_lt hreq hs.none hset
    by_cases hlt : z < 128
    · rw [if_pos hlt]
      have hclear := hz.here hlt
      rw [mapBit_not hlt, hs.bits z hlt, Bool.not_eq_true', Bool.or_eq_false_iff, decide_eq_false_iff_not]
        at hclear
      obtain ⟨l, h, hmask, hbits⟩ := @mask128_eq low high z hlt
      rw [hmask]
      have he := bsf128_spec l h
      simp only [Option.bind_eq_bind, Option.bind_some]
      generalize bsf128 l h = e at he
      have hvalue : ∀ i, z ≤ i → i < 128 → mapBit l h i = f i := by
        intro i h1 h2
        rw [hbits i h2, hs.bits i h2, decide_eq_true h1, decide_eq_false (by omega), Bool.and_true,
          Bool.or_false]
      -- the bits below `z` are masked, and bit `z` is clear
      have hgt : z < e := by
        by_contra hle
        have htrue := he.here (by omega)
        rw [hbits e (by omega), Bool.and_eq_true, decide_eq_true_eq] at htrue
        obtain rfl : e = z := by omega
        rw [hs.bits e hlt, hclear.1, decide_eq_false hclear.2] at htrue
        exact absurd htrue.1 (by decide)
      have hgap : ∀ i, z ≤ i → i < e → f i = false := by
        intro i h1 h2
        have hle := he.le
        have hbit := he.before i h2
        rw [hvalue i h1 (by omega)] at hbit
        exact Bool.not_eq_true _ ▸ hbit
      by_cases hlen : (req : Int) ≤ (e : Int) - z
      · rw [if_pos hlen]
        refine ⟨some z, rfl, fun s hs' => ?_, fun h => absurd h (by simp)⟩
        cases hs'
        exact isLeast_of_gap hnone hgap he.le (by omega)
      · rw [if_neg hlen]
        obtain ⟨l', h', hor, hbits'⟩ := @or128_eq l h e (Nat.zero_lt_of_lt hgt) he.le
        rw [hor]
        refine ih ⟨he.le, fun i hi => ?_, ?_⟩ (by omega)
        · rw [hbits' i hi]
          by_cases hie : i < e
          · rw [decide_eq_true hie, Bool.or_true, Bool.or_true]
          · rw [hvalue i (by omega) hi]
        · refine not_run_of_gap hnone (fun h => ?_) he.le (by omega)
          rw [← hvalue e hgt.le h]
          exact he.here h
    · rw [if_neg hlt]
      refine ⟨none, rfl, fun s h => absurd h (by simp), fun _ s hrun => ?_⟩
      have hle := hrun.1
      exact hnone s (by omega) hrun

end

end Dem64
