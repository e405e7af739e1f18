import Dem64.Lib.ByteMemory
import Mathlib.Order.Bounds.Basic
import Mathlib.Order.Interval.Finset.Nat

/-!
# A memory as one row of bits

Bit `p` of a memory is bit `p % 8`, counted from the least significant one, of byte `p / 8`: the
numbering of a map whose words are little-endian, so that a store of one, two, four or eight bytes is
a change of adjacent bits (`bit_store`).

`Filled` says that a range of the row was given one value and that nothing else changed; it composes
(`Filled.trans`) and can be undone (`Filled.undo`).  The second half is about looking for a run of
clear bits: what one gap of the row says about where the first run of a given length may start.
-/

set_option autoImplicit false

namespace BitRow

open ByteMemory

/-- Bit `p` of the row. -/
def bit (m : Nat → BitVec 8) (p : Nat) : Bool := (m (p / 8)).getLsbD (p % 8)

/-- The `n` bits from `s` on have the value `v`, and all other bits are as they were. -/
def Filled (m m' : Nat → BitVec 8) (s n : Nat) (v : Bool) : Prop :=
  ∀ p, bit m' p = if s ≤ p ∧ p < s + n then v else bit m p

/-- The lowest `n` bytes of a word, the lowest first. -/
def leBytes (n : Nat) {k : Nat} (w : BitVec k) : List (BitVec 8) :=
  (List.range n).map fun i => w.extractLsb' (8 * i) 8

/-- A store of `n` bytes at `a`. -/
def store (n : Nat) {k : Nat} (m : Nat → BitVec 8) (a : Nat) (w : BitVec k) : Nat → BitVec 8 :=
  putBytes m a (leBytes n w)

/-- The eight bytes at `a`. -/
def load64 (m : Nat → BitVec 8) (a : Nat) : BitVec 64 := load32 m (a + 4) ++ load32 m a

section

variable {m m' m'' : Nat → BitVec 8} {a s n k p : Nat} {v : Bool}

theorem ext_of_bit (h : ∀ p, bit m p = bit m' p) : m = m' := by
  funext a
  apply BitVec.eq_of_getLsbD_eq
  intro j hj
  have hbit := h (8 * a + j)
  rwa [bit, bit, Nat.mul_add_div (by decide), Nat.mul_add_mod, Nat.div_eq_of_lt hj, Nat.mod_eq_of_lt hj,
    Nat.add_zero] at hbit

theorem Filled.refl (m : Nat → BitVec 8) (s : Nat) (v : Bool) : Filled m m s 0 v := by
  intro p
  rw [if_neg (by omega)]

/-- Two ranges, one behind the other, are one range. -/
theorem Filled.trans (h : Filled m m' s n v) (h' : Filled m' m'' (s + n) k v) :
    Filled m m'' s (n + k) v := by
  intro p
  rw [h' p, h p]
  by_cases h1 : s + n ≤ p ∧ p < s + n + k
  · rw [if_pos h1, if_pos (by omega)]
  · rw [if_neg h1]
    by_cases h2 : s ≤ p ∧ p < s + n
    · rw [if_pos h2, if_pos (by omega)]
    · rw [if_neg h2, if_neg (by omega)]

/-- The range had the other value: it gets it back, and the memory is the one before. -/
theorem Filled.undo (h : Filled m m' s n v) (h' : Filled m' m'' s n (!v))
    (hv : ∀ p, s ≤ p → p < s + n → bit m p = !v) : m'' = m := by
  apply ext_of_bit
  intro p
  rw [h' p, h p]
  by_cases hp : s ≤ p ∧ p < s + n
  · rw [if_pos hp, hv p hp.1 hp.2]
  · rw [if_neg hp, if_neg hp]

/-! ## Stores -/

theorem putBytes_eq_getD {l : List (BitVec 8)} {x : Nat} (h1 : a ≤ x) (h2 : x < a + l.length) :
    putBytes m a l x = l.getD (x - a) 0 := by
  induction l generalizing a m with
  | nil =>
    rw [List.length_nil] at h2
    omega
  | cons b l ih =>
    rw [List.length_cons] at h2
    rw [putBytes]
    rcases Nat.eq_or_lt_of_le h1 with rfl | hlt
    · rw [putBytes_of_lt (Nat.lt_succ_self a), Function.update_self, Nat.sub_self]
      rfl
    · rw [ih hlt (by omega), show x - a = x - (a + 1) + 1 by omega, List.getD_cons_succ]

@[simp] theorem length_leBytes {w : BitVec k} : (leBytes n w).length = n := by
  rw [leBytes, List.length_map, List.length_range]

/-- A store changes the bits of its bytes, to those of the word. -/
theorem bit_store {w : BitVec k} :
    bit (store n m a w) p = if 8 * a ≤ p ∧ p < 8 * a + 8 * n then w.getLsbD (p - 8 * a) else bit m p := by
  rw [bit, store]
  by_cases hp : 8 * a ≤ p ∧ p < 8 * a + 8 * n
  · have hlt : p / 8 - a < n := by omega
    rw [if_pos hp, putBytes_eq_getD (by omega) (by rw [length_leBytes]; omega), leBytes,
      List.getD_eq_getElem?_getD, List.getElem?_map, List.getElem?_range hlt, Option.map_some,
      Option.getD_some, BitVec.getLsbD_extractLsb', decide_eq_true (Nat.mod_lt _ (by decide)),
      Bool.true_and, show 8 * (p / 8 - a) + p % 8 = p - 8 * a by omega]
  · rw [if_neg hp, bit]
    rcases Nat.lt_or_ge (p / 8) a with hlt | hge
    · rw [putBytes_of_lt hlt]
    · rw [putBytes_of_ge (by rw [length_leBytes]; omega)]

/-- A word whose bits are all the same fills its bytes. -/
theorem filled_store {w : BitVec k} (hw : ∀ j, j < 8 * n → w.getLsbD j = v) :
    Filled m (store n m a w) (8 * a) (8 * n) v := by
  intro p
  rw [bit_store]
  split
  · exact hw _ (by omega)
  · rfl

theorem getLsbD_load64 {i : Nat} (hi : i < 64) : (load64 m a).getLsbD i = bit m (8 * a + i) := by
  have hlow : ∀ b j, j < 32 → (load32 m b).getLsbD j = bit m (8 * b + j) := by
    intro b j hj
    rw [getLsbD_load32 hj, bit, Nat.mul_add_div (by decide), Nat.mul_add_mod]
  rw [load64, BitVec.getLsbD_append]
  split
  · exact hlow a i (by assumption)
  · rw [hlow _ _ (by omega), show 8 * (a + 4) + (i - 32) = 8 * a + i by omega]

/-- A word that is read and written with one bit changed. -/
theorem filled_store_load64 {i : Nat} {w : BitVec 64} (hi : i < 64)
    (hw : ∀ j, j < 64 → w.getLsbD j = if j = i then v else (load64 m a).getLsbD j) :
    Filled m (store 8 m a w) (8 * a + i) 1 v := by
  intro p
  rw [bit_store]
  by_cases hp : 8 * a ≤ p ∧ p < 8 * a + 8 * 8
  · rw [if_pos hp, hw _ (by omega), getLsbD_load64 (by omega), Nat.add_sub_of_le hp.1]
    by_cases h : p - 8 * a = i
    · rw [if_pos h, if_pos (by omega)]
    · rw [if_neg h, if_neg (by omega)]
  · rw [if_neg hp, if_neg (by omega)]

/-- A word that is written as it was read. -/
theorem store_load64 : store 8 m a (load64 m a) = m := by
  apply ext_of_bit
  intro p
  rw [bit_store]
  split
  · rw [getLsbD_load64 (by omega), Nat.add_sub_of_le (by omega)]
  · rfl

end

/-! ## Runs of clear bits -/

/-- `k` is the first place below `n` with `P`, or `n` if there is none. -/
structure FirstAt (P : Nat → Prop) (n k : Nat) : Prop where
  le : k ≤ n
  before : ∀ i, i < k → ¬ P i
  here : k < n → P k

/-- The `k` bits from `s` on are clear and lie below `n`. -/
def Run (f : Nat → Bool) (n k s : Nat) : Prop := s + k ≤ n ∧ ∀ i, s ≤ i → i < s + k → f i = false

section

variable {f : Nat → Bool} {n k p z e : Nat}

/-- No run starts before `p`, and from there the first clear bit is at `z`.  No run starts before `z`. -/
theorem not_run_of_lt (hk : 0 < k) (hp : ∀ s, s < p → ¬ Run f n k s)
    (hz : ∀ i, p ≤ i → i < z → f i = true) : ∀ s, s < z → ¬ Run f n k s := by
  intro s hs hrun
  rcases Nat.lt_or_ge s p with hlt | hge
  · exact hp s hlt hrun
  · have hclear := hrun.2 s (Nat.le_refl s) (by omega)
    rw [hz s hge hs] at hclear
    exact absurd hclear (by decide)

/-- A gap that is long enough is the first run. -/
theorem isLeast_of_gap (hz : ∀ s, s < z → ¬ Run f n k s) (hgap : ∀ i, z ≤ i → i < e → f i = false)
    (he : e ≤ n) (hlen : z + k ≤ e) : IsLeast { s | Run f n k s } z := by
  refine ⟨⟨by omega, fun i h1 h2 => hgap i h1 (by omega)⟩, fun s hs => ?_⟩
  by_contra hlt
  exact hz s (by omega) hs

/-- In a gap that is too short no run starts. -/
theorem not_run_of_gap (hz : ∀ s, s < z → ¬ Run f n k s) (hend : e < n → f e = true) (hle : e ≤ n)
    (hlen : e < z + k) : ∀ s, s < e → ¬ Run f n k s := by
  intro s hs hrun
  rcases Nat.lt_or_ge s z with hlt | hge
  · exact hz s hlt hrun
  · have h1 := hrun.1
    have hclear := hrun.2 e (by omega) (by omega)
    rw [hend (by omega)] at hclear
    exact absurd hclear (by decide)

end

/-! ## Counting -/

/-- How many of the first `n` bits are set. -/
def ones (m : Nat → BitVec 8) (n : Nat) : Nat := ((Finset.range n).filter fun i => bit m i = true).card

section

variable {m m' : Nat → BitVec 8} {n k s : Nat}

theorem ones_eq_zero : ones m n = 0 ↔ ∀ i, i < n → bit m i = false := by
  simp only [ones, Finset.card_eq_zero, Finset.filter_eq_empty_iff, Finset.mem_range, Bool.not_eq_true]

/-- Setting clear bits adds to the count. -/
theorem Filled.ones_add (h : Filled m m' s k true) (hrun : Run (bit m) n k s) :
    ones m' n = ones m n + k := by
  have hunion : ((Finset.range n).filter fun i => bit m' i = true) =
      ((Finset.range n).filter fun i => bit m i = true) ∪ Finset.Ico s (s + k) := by
    ext i
    have hle := hrun.1
    simp only [Finset.mem_union, Finset.mem_filter, Finset.mem_range, Finset.mem_Ico, h i]
    split
    · rename_i hi
      exact ⟨fun _ => .inr hi, fun _ => ⟨by omega, rfl⟩⟩
    · rename_i hi
      exact ⟨.inl, fun hc => hc.resolve_right hi⟩
  rw [ones, ones, hunion, Finset.card_union_of_disjoint, Nat.card_Ico, Nat.add_sub_cancel_left]
  rw [Finset.disjoint_left]
  intro i hi hmem
  have hclear := hrun.2 i (Finset.mem_Ico.mp hmem).1 (Finset.mem_Ico.mp hmem).2
  rw [(Finset.mem_filter.mp hi).2] at hclear
  exact absurd hclear (by decide)

/-- Clearing set bits takes from the count. -/
theorem Filled.ones_sub (h : Filled m m' s k false) (hle : s + k ≤ n)
    (hset : ∀ i, s ≤ i → i < s + k → bit m i = true) : ones m' n + k = ones m n := by
  have hback : Filled m' m s k true := by
    intro i
    split
    · rename_i hi
      exact hset i hi.1 hi.2
    · rename_i hi
      rw [h i, if_neg hi]
  refine (hback.ones_add ⟨hle, fun i h1 h2 => ?_⟩).symm
  rw [h i, if_pos ⟨h1, h2⟩]

/-- Words of clear bits are zero. -/
theorem load64_eq_zero {a : Nat} (h : ∀ i, i < 64 → bit m (8 * a + i) = false) : load64 m a = 0 := by
  apply BitVec.eq_of_getLsbD_eq
  intro i hi
  rw [getLsbD_load64 hi, h i hi]
  exact BitVec.getLsbD_zero.symm

end

end BitRow
