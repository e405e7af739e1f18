import Mathlib.Algebra.Order.Group.Nat
import Mathlib.Data.Nat.Init

/-!
# Radix trees laid out in frames

A page table is a radix tree: depth `k` of it is indexed by the first `k + 1` digits of the key,
base 512.  The tree is stored in frames of 512 entries, and an entry that is a *table* holds the
number of the frame of the next level.  This file is about such trees in general: what an entry
looks like is left to the predicate `isTable k e` and the frame it points to is `next e`.

`tableAt k p` is the frame of the table at depth `k` whose keys start with the digits `p`, found by
walking down from the root, and `entryAt k q` the entry of the slot `(k, q)`, digit `q % 512` of
the table `q / 512`.  A slot `(k', q')` lies *below* `(k, q)` when `q` is an initial part of `q'`.

The one fact everything else needs is `tableAt_eq_of_edit`: when different tables sit in different
frames (`Separated`), a change confined to one slot and to the tables below it (`Edit`) does not
move any other table.  For the keys that means: outside the slot every key keeps its leaf
(`leaf_iff_of_edit`), and inside it the first entry that is not a table decides
(`leaf_iff_of_end`).
-/

set_option autoImplicit false

namespace Radix

variable (isTable : Nat → Nat → Bool) (next : Nat → Nat)

/-- The frame of the table at depth `k` for the keys that start with the digits `p`. -/
def tableAt (mem : Nat → Nat → Nat) (root : Nat) : Nat → Nat → Option Nat
  | 0, p => if p = 0 then some root else none
  | k + 1, p => (tableAt mem root k (p / 512)).bind fun f =>
      if isTable k (mem f (p % 512)) then some (next (mem f (p % 512))) else none

/-- The entry in the slot `(k, q)`. -/
def entryAt (mem : Nat → Nat → Nat) (root k q : Nat) : Option Nat :=
  (tableAt isTable next mem root k (q / 512)).map fun f => mem f (q % 512)

/-- The slot `(k', q')` is `(k, q)` or lies below it. -/
def Below (k q k' q' : Nat) : Prop := k ≤ k' ∧ q' / 512 ^ (k' - k) = q

/-- Different tables sit in different frames, down to depth `d`. -/
def Separated (mem : Nat → Nat → Nat) (root d : Nat) : Prop :=
  ∀ k p k' p' f, k ≤ d → k' ≤ d → tableAt isTable next mem root k p = some f →
    tableAt isTable next mem root k' p' = some f → k = k' ∧ p = p'

/-- `mem'` differs from `mem` only in the slot `(k, q)`, which is entry `q % 512` of the frame `f`,
in the frames of tables below it and in frames that hold no table. -/
structure Edit (mem mem' : Nat → Nat → Nat) (root d k q f : Nat) : Prop where
  /-- The table of the slot. -/
  table : tableAt isTable next mem root k (q / 512) = some f
  /-- Nothing else changes. -/
  confined : ∀ g j, mem' g j ≠ mem g j → (g = f ∧ j = q % 512) ∨
    (∃ k' p, k' < d ∧ Below k q k' p ∧ tableAt isTable next mem root (k' + 1) p = some g) ∨
    ∀ k' p, k' ≤ d → tableAt isTable next mem root k' p ≠ some g

theorem below_self (k q : Nat) : Below k q k q := ⟨le_refl _, by simp⟩

theorem below_succ_iff {k q k' q' : Nat} (h : k ≤ k') :
    Below k q (k' + 1) q' ↔ Below k q k' (q' / 512) := by
  rw [Below, Below, Nat.succ_sub h, Nat.pow_succ, Nat.mul_comm, Nat.div_div_eq_div_mul]
  constructor
  · exact fun hb => ⟨h, hb.2⟩
  · exact fun hb => ⟨by omega, hb.2⟩

theorem below_eq {k q q' : Nat} (h : Below k q k q') : q' = q := by simpa [Below] using h.2

variable {isTable next}

theorem tableAt_succ_eq_some {mem : Nat → Nat → Nat} {root k p g : Nat} :
    tableAt isTable next mem root (k + 1) p = some g ↔
      ∃ f, tableAt isTable next mem root k (p / 512) = some f ∧
        isTable k (mem f (p % 512)) = true ∧ next (mem f (p % 512)) = g := by
  rw [tableAt, Option.bind_eq_some_iff]
  refine exists_congr fun f => and_congr_right fun _ => ?_
  split
  · simp [*]
  · simp [*]

/-- A table sits below the entry that points to it. -/
theorem tableAt_of_entryAt {mem : Nat → Nat → Nat} {root k q e : Nat}
    (he : entryAt isTable next mem root k q = some e) :
    tableAt isTable next mem root (k + 1) q = if isTable k e then some (next e) else none := by
  obtain ⟨f, hf, rfl⟩ := Option.map_eq_some_iff.mp he
  rw [tableAt, hf, Option.bind_some]

theorem entryAt_eq_some {mem : Nat → Nat → Nat} {root k q f : Nat}
    (h : tableAt isTable next mem root k (q / 512) = some f) :
    entryAt isTable next mem root k q = some (mem f (q % 512)) := by
  rw [entryAt, h, Option.map_some]

theorem entryAt_eq_none {mem : Nat → Nat → Nat} {root k q : Nat}
    (h : tableAt isTable next mem root k (q / 512) = none) :
    entryAt isTable next mem root k q = none := by
  rw [entryAt, h, Option.map_none]

/-- Above a table there are tables. -/
theorem exists_tableAt_prefix {mem : Nat → Nat → Nat} {root k : Nat} :
    ∀ (i : Nat) {p f : Nat}, tableAt isTable next mem root (k + i) p = some f →
      ∃ g, tableAt isTable next mem root k (p / 512 ^ i) = some g
  | 0, p, f, h => ⟨f, by simpa using h⟩
  | i + 1, p, f, h => by
    obtain ⟨g, hg, -⟩ := tableAt_succ_eq_some.mp h
    obtain ⟨g', hg'⟩ := exists_tableAt_prefix i hg
    exact ⟨g', by rwa [Nat.div_div_eq_div_mul, Nat.mul_comm, ← Nat.pow_succ] at hg'⟩

/-! ## Editing one slot -/

variable {mem mem' : Nat → Nat → Nat} {root d k q f : Nat}

/-- An edit changes no entry of a table that is neither below the slot nor holds it. -/
theorem mem_eq_of_edit (hsep : Separated isTable next mem root d) (hk : k ≤ d)
    (h : Edit isTable next mem mem' root d k q f) {k' p g : Nat} (hk' : k' ≤ d)
    (hg : tableAt isTable next mem root k' (p / 512) = some g) (hb : ¬ Below k q k' p) :
    mem' g (p % 512) = mem g (p % 512) := by
  by_contra hne
  rcases h.confined g _ hne with ⟨rfl, hj⟩ | ⟨j, r, hj, hjb, hjt⟩ | hout
  · -- the entry is the edited slot itself, which is below itself
    obtain ⟨rfl, hp⟩ := hsep _ _ _ _ _ hk' hk hg h.table
    obtain rfl : p = q := by omega
    exact hb (below_self _ _)
  · obtain ⟨rfl, rfl⟩ := hsep _ _ _ _ _ hk' (by omega) hg hjt
    exact hb ((below_succ_iff hjb.1).mpr hjb)
  · exact hout _ _ hk' hg

/-- **An edit moves no table outside its slot.** -/
theorem tableAt_eq_of_edit (hsep : Separated isTable next mem root d) (hk : k ≤ d)
    (h : Edit isTable next mem mem' root d k q f) :
    ∀ k' p, k' ≤ d → (∀ j, k' = j + 1 → ¬ Below k q j p) →
      tableAt isTable next mem' root k' p = tableAt isTable next mem root k' p := by
  intro k'
  induction k' with
  | zero => exact fun _ _ _ => rfl
  | succ k' ih =>
    intro p hk' hb
    have hbelow := hb k' rfl
    have hup : ∀ j, k' = j + 1 → ¬ Below k q j (p / 512) := by
      rintro j rfl hj
      exact hbelow ((below_succ_iff hj.1).mpr hj)
    rw [tableAt, tableAt, ih (p / 512) (by omega) hup]
    cases hg : tableAt isTable next mem root k' (p / 512) with
    | none => rfl
    | some g =>
      have hsame := mem_eq_of_edit hsep hk h (by omega) hg hbelow
      simp only [Option.bind_some, hsame]

theorem entryAt_eq_of_edit (hsep : Separated isTable next mem root d) (hk : k ≤ d)
    (h : Edit isTable next mem mem' root d k q f) {k' p : Nat} (hk' : k' ≤ d)
    (hb : ¬ Below k q k' p) :
    entryAt isTable next mem' root k' p = entryAt isTable next mem root k' p := by
  have hup : ∀ j, k' = j + 1 → ¬ Below k q j (p / 512) := by
    rintro j rfl hj
    exact hb ((below_succ_iff hj.1).mpr hj)
  rw [entryAt, entryAt, tableAt_eq_of_edit hsep hk h _ _ hk' hup]
  cases hg : tableAt isTable next mem root k' (p / 512) with
  | none => rfl
  | some g => rw [Option.map_some, Option.map_some, mem_eq_of_edit hsep hk h hk' hg hb]

/-- The table that holds the edited slot stays where it is. -/
theorem Edit.table_after (hsep : Separated isTable next mem root d) (hk : k ≤ d)
    (h : Edit isTable next mem mem' root d k q f) :
    tableAt isTable next mem' root k (q / 512) = some f := by
  rw [tableAt_eq_of_edit hsep hk h _ _ hk fun j hj hb => ?_, h.table]
  have := hb.1
  omega

/-- Below a slot that no longer holds a table there is nothing. -/
theorem tableAt_eq_none_of_not_table (htab : tableAt isTable next mem' root k (q / 512) = some f)
    (hnt : isTable k (mem' f (q % 512)) = false) :
    ∀ j p, Below k q j p → tableAt isTable next mem' root (j + 1) p = none := by
  intro j
  induction j with
  | zero =>
    intro p hb
    obtain rfl : k = 0 := Nat.le_zero.mp hb.1
    obtain rfl := below_eq hb
    rw [tableAt, htab, Option.bind_some, hnt]
    rfl
  | succ j ih =>
    intro p hb
    rcases Nat.lt_or_ge j k with hjk | hjk
    · obtain rfl : k = j + 1 := Nat.le_antisymm hb.1 hjk
      obtain rfl := below_eq hb
      rw [tableAt, htab, Option.bind_some, hnt]
      rfl
    · rw [tableAt, ih _ ((below_succ_iff hjk).mp hb), Option.bind_none]

/-- Below a slot that holds an empty table there is only that table. -/
theorem tableAt_below_of_empty (htab : tableAt isTable next mem' root k (q / 512) = some f)
    (ht : isTable k (mem' f (q % 512)) = true)
    (hempty : ∀ i j, isTable j (mem' (next (mem' f (q % 512))) i) = false) :
    tableAt isTable next mem' root (k + 1) q = some (next (mem' f (q % 512))) ∧
      ∀ j p, Below k q j p → j ≠ k → tableAt isTable next mem' root (j + 1) p = none := by
  have hnew : tableAt isTable next mem' root (k + 1) q = some (next (mem' f (q % 512))) :=
    tableAt_succ_eq_some.mpr ⟨f, htab, ht, rfl⟩
  refine ⟨hnew, ?_⟩
  intro j p hb hne
  obtain ⟨j, rfl⟩ : ∃ i, j = i + 1 := ⟨j - 1, by have := hb.1; omega⟩
  have hjk : k ≤ j := by have := hb.1; omega
  -- one level down the entries are those of the new table, further down there is no table at all
  have hdown : ∀ i r, Below k q (k + 1 + i) r →
      tableAt isTable next mem' root (k + 1 + i + 1) r = none := by
    intro i
    induction i with
    | zero =>
      intro r hr
      have hr' := below_eq ((below_succ_iff (le_refl k)).mp hr)
      rw [Nat.add_zero, tableAt, hr', hnew, Option.bind_some, hempty]
      rfl
    | succ i ih =>
      intro r hr
      have hr' := (below_succ_iff (show k ≤ k + 1 + i by omega)).mp hr
      rw [← Nat.add_assoc, tableAt, ih _ hr', Option.bind_none]
  obtain ⟨i, rfl⟩ : ∃ i, j = k + i := ⟨j - k, by omega⟩
  rw [show k + i + 1 = k + 1 + i by omega] at hb ⊢
  exact hdown i p hb

/-! ## Leaves

The key `v` of a tree of depth `d` runs through the slots `(k, v / 512 ^ (d - k))`.  It ends in a
leaf at the first of them whose entry is one. -/

/-- The key `v` ends at depth `k` in the leaf `e`. -/
def Leaf (isTable isLeaf : Nat → Nat → Bool) (next : Nat → Nat) (mem : Nat → Nat → Nat)
    (root d v k e : Nat) : Prop :=
  k ≤ d ∧ entryAt isTable next mem root k (v / 512 ^ (d - k)) = some e ∧ isLeaf k e = true

theorem key_div {d k k' v : Nat} (h : k ≤ k') (h' : k' ≤ d) :
    v / 512 ^ (d - k') / 512 ^ (k' - k) = v / 512 ^ (d - k) := by
  rw [Nat.div_div_eq_div_mul, ← Nat.pow_add]
  congr 2
  omega

theorem below_key_iff {d k k' q v : Nat} (h' : k' ≤ d) :
    Below k q k' (v / 512 ^ (d - k')) ↔ k ≤ k' ∧ v / 512 ^ (d - k) = q := by
  rw [Below]
  constructor
  · rintro ⟨h, he⟩
    exact ⟨h, by rwa [key_div h h'] at he⟩
  · rintro ⟨h, he⟩
    exact ⟨h, by rwa [key_div h h']⟩

variable {isLeaf : Nat → Nat → Bool}

theorem leaf_iff_of_edit (hsep : Separated isTable next mem root d) (hk : k ≤ d)
    (h : Edit isTable next mem mem' root d k q f) {v : Nat} (hv : v / 512 ^ (d - k) ≠ q)
    (k' e : Nat) :
    Leaf isTable isLeaf next mem' root d v k' e ↔ Leaf isTable isLeaf next mem root d v k' e := by
  refine and_congr_right fun hk' => ?_
  rw [entryAt_eq_of_edit hsep hk h hk' fun hb => hv ((below_key_iff hk').mp hb).2]

/-- The key `v` passes the entry `e` of depth `k`: so does every table further down. -/
theorem exists_tableAt_key {v j : Nat} (hj : j < d) (hkj : k ≤ j) {f : Nat}
    (h : tableAt isTable next mem root (j + 1) (v / 512 ^ (d - j)) = some f) :
    ∃ g, tableAt isTable next mem root (k + 1) (v / 512 ^ (d - k)) = some g := by
  obtain ⟨i, rfl⟩ : ∃ i, j = k + i := ⟨j - k, by omega⟩
  rw [show k + i + 1 = k + 1 + i by omega] at h
  obtain ⟨g, hg⟩ := exists_tableAt_prefix i h
  rw [Nat.div_div_eq_div_mul, ← Nat.pow_add, show d - (k + i) + i = d - k by omega] at hg
  exact ⟨g, hg⟩

/-- **A key ends at the first entry that is not a table.** -/
theorem leaf_iff_of_end (hdisj : ∀ k e, isLeaf k e = true → isTable k e = false) (hk : k ≤ d)
    {v e : Nat} (he : entryAt isTable next mem root k (v / 512 ^ (d - k)) = some e)
    (hnt : isTable k e = false) (k' e' : Nat) :
    Leaf isTable isLeaf next mem root d v k' e' ↔ k' = k ∧ e' = e ∧ isLeaf k e = true := by
  constructor
  · rintro ⟨hk', he', hl⟩
    have hup : ∀ {i j x y : Nat}, i < j → j ≤ d →
        entryAt isTable next mem root j (v / 512 ^ (d - j)) = some y →
        entryAt isTable next mem root i (v / 512 ^ (d - i)) = some x → isTable i x = true := by
      intro i j x y hij hjd hy hx
      obtain ⟨f, hf, -⟩ := Option.map_eq_some_iff.mp hy
      obtain ⟨j, rfl⟩ : ∃ r, j = r + 1 := ⟨j - 1, by omega⟩
      rw [Nat.div_div_eq_div_mul, ← Nat.pow_succ,
        show (d - (j + 1)).succ = d - j by omega] at hf
      obtain ⟨g, hg⟩ := exists_tableAt_key (by omega) (Nat.le_of_lt_succ hij) hf
      rw [tableAt_of_entryAt hx] at hg
      by_contra hne
      rw [if_neg hne] at hg
      exact absurd hg (by simp)
    rcases Nat.lt_trichotomy k' k with hlt | rfl | hgt
    · have := hup hlt hk he he'
      rw [hdisj _ _ hl] at this
      exact absurd this (by simp)
    · rw [he, Option.some_inj] at he'
      subst he'
      exact ⟨rfl, rfl, hl⟩
    · have := hup hgt hk' he' he
      rw [hnt] at this
      exact absurd this (by simp)
  · rintro ⟨rfl, rfl, hl⟩
    exact ⟨hk, he, hl⟩

end Radix
