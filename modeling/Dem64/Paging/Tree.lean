import Dem64.Paging.Entry

/-!
# The page tables as a tree

`walk` is the hardware's walk: it follows the present bit and the large-page bit from the PML4
down and returns the leaf entry that maps a page, with its depth.  Pages are numbered by bits 12 to
47 of their address, so a page number is below `2^36`.

`WellFormed` says that the tables form a tree: different tables in different frames, every entry
zero or valid, every table frame marked used.  `LeafEdit` and `TableEdit` are the two ways in which
a slot of the tree is ever rewritten, and for each of them this file says that the tree stays
well formed and what happens to the walks.
-/

set_option autoImplicit false

namespace Dem64

/-- The hardware's walk of page `v`: the depth of the leaf that maps it, and the leaf. -/
def walk (mem : Nat → Nat → Nat) (root v : Nat) : Option (Nat × Nat) :=
  let e := mem root (v / 2 ^ 27 % 512)
  if present e then
    let e := mem (e >>> 12) (v / 2 ^ 18 % 512)
    if present e then
      if large e then some (1, e)
      else
        let e := mem (e >>> 12) (v / 512 % 512)
        if present e then
          if large e then some (2, e)
          else
            let e := mem (e >>> 12) (v % 512)
            if present e then some (3, e) else none
        else none
    else none
  else none

/-- The physical page and the attributes a leaf of depth `k` gives to page `v`. -/
def leafPage (v : Nat) (leaf : Nat × Nat) : Nat × Nat :=
  (leaf.2 / 4096 + v % span leaf.1, leafAttributes leaf.2)

/-- The translation of page `v`: physical page and attributes. -/
def translate (mem : Nat → Nat → Nat) (root v : Nat) : Option (Nat × Nat) :=
  (walk mem root v).map (leafPage v)

/-- The frame of the table at depth `k` for the pages that start with `p`. -/
abbrev tableAt (mem : Nat → Nat → Nat) (root k p : Nat) : Option Nat :=
  Radix.tableAt isTable (· >>> 12) mem root k p

/-- The entry in slot `(k, q)`. -/
abbrev entryAt (mem : Nat → Nat → Nat) (root k q : Nat) : Option Nat :=
  Radix.entryAt isTable (· >>> 12) mem root k q

/-- An entry of a well-formed table at depth `k`. -/
def EntryOk (k e : Nat) : Prop :=
  e = 0 ∨ (present e = true ∧ e < 2 ^ 64 ∧ (k = 0 → large e = false) ∧
    (isLeaf k e = true → e / 4096 % span k = 0))

/-- The tables below `root` form a tree. -/
structure WellFormed (m : Machine) (root : Nat) : Prop where
  /-- Different tables sit in different frames. -/
  separated : Radix.Separated isTable (· >>> 12) m.mem root 3
  /-- Every entry is zero, or points to a table, or maps an aligned page. -/
  entries : ∀ k q e, k ≤ 3 → entryAt m.mem root k q = some e → EntryOk k e
  /-- Every table frame is marked used. -/
  marked : ∀ k p f, k ≤ 3 → tableAt m.mem root k p = some f → used m.frames.bitmap f = true

/-! ## The walk and the tree -/

theorem entryAt_zero {mem : Nat → Nat → Nat} {root v : Nat} (hv : v < 2 ^ 36) :
    entryAt mem root 0 (v / 2 ^ 27) = some (mem root (v / 2 ^ 27 % 512)) :=
  Radix.entryAt_eq_some (by rw [Radix.tableAt, if_pos (by omega)])

/-- The entry one level down, for a page whose entry at depth `k` is known. -/
theorem entryAt_succ {mem : Nat → Nat → Nat} {root k q e : Nat}
    (h : entryAt mem root k (q / 512) = some e) :
    entryAt mem root (k + 1) q =
      if isTable k e then some (mem (e >>> 12) (q % 512)) else none := by
  rw [entryAt, Radix.entryAt, Radix.tableAt_of_entryAt h]
  split
  · rfl
  · rfl

/-- Where a walk ends that meets the entry `e` at depth `k`, when `e` is no table. -/
def leafWalk (k e : Nat) : Option (Nat × Nat) := if isLeaf k e then some (k, e) else none

theorem leafWalk_eq_some_iff {k e k' e' : Nat} :
    leafWalk k e = some (k', e') ↔ k' = k ∧ e' = e ∧ isLeaf k e = true := by
  rw [leafWalk]
  by_cases hl : isLeaf k e = true
  · simp only [hl, if_true, Option.some_inj, Prod.mk.injEq, and_true]
    exact and_congr eq_comm eq_comm
  · simp [hl]

/-- The tests the walk makes at the two middle levels. -/
theorem middle_if {k : Nat} (h1 : 1 ≤ k) (h2 : k ≤ 2) (e : Nat) (x y : Option (Nat × Nat)) :
    (if present e then if large e then x else y else none) =
      if isTable k e then y else if isLeaf k e then x else none := by
  have ht := isTable_middle (e := e) h1 h2
  have hl := isLeaf_middle (e := e) h1 h2
  cases hp : present e <;> cases hg : large e <;> simp [hp, hg] at ht hl <;> simp [ht, hl]

/-- The walk ends in a leaf exactly where the tree has one. -/
theorem walk_eq_some_iff {mem : Nat → Nat → Nat} {root v : Nat} (hv : v < 2 ^ 36) (k e : Nat) :
    walk mem root v = some (k, e) ↔ Radix.Leaf isTable isLeaf (· >>> 12) mem root 3 v k e := by
  have hd1 : v / 2 ^ 18 / 512 = v / 2 ^ 27 := by omega
  have hd2 : v / 512 / 512 = v / 2 ^ 18 := by omega
  -- the tree gives the entries the walk reads; the first one that is no table ends both
  have h0 : entryAt mem root 0 (v / 2 ^ 27) = some (mem root (v / 2 ^ 27 % 512)) := entryAt_zero hv
  have hend : ∀ {j x : Nat}, j ≤ 3 → entryAt mem root j (v / 512 ^ (3 - j)) = some x →
      isTable j x = false → ((if isLeaf j x then some (j, x) else none) = some (k, e) ↔
        Radix.Leaf isTable isLeaf (· >>> 12) mem root 3 v k e) := by
    intro j x hj hx hnt
    rw [Radix.leaf_iff_of_end isTable_of_isLeaf hj hx hnt]
    exact leafWalk_eq_some_iff
  simp only [walk]
  generalize mem root (v / 2 ^ 27 % 512) = e0 at h0 ⊢
  by_cases p0 : present e0 = true
  · have h1 := entryAt_succ (q := v / 2 ^ 18) (by rw [hd1]; exact h0)
    rw [if_pos (by simp [isTable, p0])] at h1
    rw [if_pos p0]
    generalize mem (e0 >>> 12) (v / 2 ^ 18 % 512) = e1 at h1 ⊢
    rw [middle_if (le_refl 1) (by decide)]
    by_cases t1 : isTable 1 e1 = true
    · have h2 := entryAt_succ (q := v / 512) (by rw [hd2]; exact h1)
      rw [if_pos t1] at h2 ⊢
      generalize mem (e1 >>> 12) (v / 512 % 512) = e2 at h2 ⊢
      rw [middle_if (by decide) (le_refl 2)]
      by_cases t2 : isTable 2 e2 = true
      · have h3 := entryAt_succ h2
        rw [if_pos t2] at h3 ⊢
        have h := hend (le_refl 3) (by simpa using h3) (by simp [isTable])
        simpa [isLeaf] using h
      · rw [if_neg t2]
        exact hend (by decide) h2 (by simpa using t2)
    · rw [if_neg t1]
      exact hend (by decide) h1 (by simpa using t1)
  · have h := hend (by decide) h0 (by simp [isTable, p0])
    rw [if_neg p0]
    simpa [isLeaf, p0] using h

/-! ## Editing a slot

An edit leaves a leaf, or nothing, or an empty table in its slot.  Either way the rest of the tree
stays. -/

theorem mem_usedPages {s : FrameState} {p : Nat} :
    p ∈ s.usedPages ↔ used s.bitmap p = true := Iff.rfl

/-- The table `(k', p)` hangs below the slot `(k, q)`. -/
def Under (k q k' p : Nat) : Prop := ∃ j, k' = j + 1 ∧ Radix.Below k q j p

/-- `m'` is `m` with `e`, which is no table, in the slot `(k, q)`. -/
structure LeafEdit (root k q e : Nat) (m m' : Machine) : Prop where
  /-- The slot is not one of the PML4. -/
  depth_pos : 1 ≤ k
  /-- There are four levels. -/
  depth_le : k ≤ 3
  /-- The memory is edited in the slot. -/
  edit : ∃ f, Radix.Edit isTable (· >>> 12) m.mem m'.mem root 3 k q f ∧ m'.mem f (q % 512) = e
  /-- The new entry is well formed. -/
  ok : EntryOk k e
  /-- The new entry is no table. -/
  notTable : isTable k e = false
  /-- The frames of the other tables stay marked. -/
  kept : ∀ k' p f, k' ≤ 3 → tableAt m.mem root k' p = some f → ¬ Under k q k' p →
    f ∈ m.frames.usedPages → f ∈ m'.frames.usedPages

/-- `m'` is `m` with a new, empty table in the slot `(k, q)`. -/
structure TableEdit (root k q g : Nat) (m m' : Machine) : Prop where
  /-- The slot is not one of a page table. -/
  depth_le : k ≤ 2
  /-- The memory is edited in the slot. -/
  edit : ∃ f, Radix.Edit isTable (· >>> 12) m.mem m'.mem root 3 k q f ∧
    EntryOk k (m'.mem f (q % 512)) ∧ isTable k (m'.mem f (q % 512)) = true ∧
    m'.mem f (q % 512) >>> 12 = g
  /-- The slot held no table. -/
  vacant : ∀ f, tableAt m.mem root (k + 1) q ≠ some f
  /-- The frame of the new table was free. -/
  fresh : g ∉ m.frames.usedPages
  /-- The new table is empty. -/
  empty : ∀ i, m'.mem g i = 0
  /-- The new table is marked, and nothing else. -/
  marks : ∀ p, p ∈ m'.frames.usedPages ↔ p = g ∨ p ∈ m.frames.usedPages

section

variable {root k q e g : Nat} {m m' : Machine}

theorem LeafEdit.tableAt_eq (hwf : WellFormed m root) (h : LeafEdit root k q e m m') {k' p : Nat}
    (hk' : k' ≤ 3) (hu : ¬ Under k q k' p) : tableAt m'.mem root k' p = tableAt m.mem root k' p := by
  obtain ⟨f, hedit, -⟩ := h.edit
  exact Radix.tableAt_eq_of_edit hwf.separated h.depth_le hedit k' p hk' fun j hj hb => hu ⟨j, hj, hb⟩

theorem LeafEdit.tableAt_eq_none (hwf : WellFormed m root) (h : LeafEdit root k q e m m')
    {k' p : Nat} (hu : Under k q k' p) : tableAt m'.mem root k' p = none := by
  obtain ⟨f, hedit, he⟩ := h.edit
  obtain ⟨j, rfl, hb⟩ := hu
  exact Radix.tableAt_eq_none_of_not_table (hedit.table_after hwf.separated h.depth_le)
    (by rw [he]; exact h.notTable) j p hb

/-- The tables after such an edit are tables from before, outside the slot. -/
theorem LeafEdit.tableAt_eq_some (hwf : WellFormed m root) (h : LeafEdit root k q e m m')
    {k' p f : Nat} (hk' : k' ≤ 3) (hf : tableAt m'.mem root k' p = some f) :
    tableAt m.mem root k' p = some f ∧ ¬ Under k q k' p := by
  by_cases hu : Under k q k' p
  · rw [h.tableAt_eq_none hwf hu] at hf
    exact absurd hf (by simp)
  · exact ⟨by rw [← h.tableAt_eq hwf hk' hu, hf], hu⟩

theorem LeafEdit.entryAt_slot (hwf : WellFormed m root) (h : LeafEdit root k q e m m') :
    entryAt m'.mem root k q = some e := by
  obtain ⟨f, hedit, he⟩ := h.edit
  rw [← he]
  exact Radix.entryAt_eq_some (hedit.table_after hwf.separated h.depth_le)

theorem LeafEdit.wellFormed (hwf : WellFormed m root) (h : LeafEdit root k q e m m') :
    WellFormed m' root where
  separated := by
    intro k1 p1 k2 p2 f h1 h2 hf1 hf2
    exact hwf.separated k1 p1 k2 p2 f h1 h2 (h.tableAt_eq_some hwf h1 hf1).1
      (h.tableAt_eq_some hwf h2 hf2).1
  entries := by
    intro k' p e' hk' he'
    obtain ⟨f, hedit, -⟩ := h.edit
    by_cases hb : Radix.Below k q k' p
    · rcases Nat.eq_or_lt_of_le hb.1 with rfl | hlt
      · obtain rfl := Radix.below_eq hb
        rw [h.entryAt_slot hwf, Option.some_inj] at he'
        exact he' ▸ h.ok
      · -- further down there is no table left
        obtain ⟨j, rfl⟩ : ∃ j, k' = j + 1 := ⟨k' - 1, by omega⟩
        have hu : Under k q (j + 1) (p / 512) := ⟨j, rfl, (Radix.below_succ_iff (by omega)).mp hb⟩
        rw [entryAt, Radix.entryAt_eq_none (h.tableAt_eq_none hwf hu)] at he'
        exact absurd he' (by simp)
    · rw [entryAt, Radix.entryAt_eq_of_edit hwf.separated h.depth_le hedit hk' hb] at he'
      exact hwf.entries k' p e' hk' he'
  marked := by
    intro k' p f hk' hf
    obtain ⟨hold, hu⟩ := h.tableAt_eq_some hwf hk' hf
    exact h.kept k' p f hk' hold hu (hwf.marked k' p f hk' hold)

/-- The walks inside the slot end in the new entry, the others stay. -/
theorem LeafEdit.walk (hwf : WellFormed m root) (h : LeafEdit root k q e m m') {v : Nat}
    (hv : v < 2 ^ 36) : walk m'.mem root v =
      if v / span k = q then leafWalk k e else walk m.mem root v := by
  obtain ⟨f, hedit, -⟩ := h.edit
  apply Option.ext
  rintro ⟨k', e'⟩
  split
  · rename_i hq
    have hs : entryAt m'.mem root k (v / 512 ^ (3 - k)) = some e := by
      rw [show v / 512 ^ (3 - k) = q from hq]
      exact h.entryAt_slot hwf
    rw [walk_eq_some_iff hv, Radix.leaf_iff_of_end isTable_of_isLeaf h.depth_le hs h.notTable,
      leafWalk_eq_some_iff]
  · rename_i hq
    rw [walk_eq_some_iff hv, walk_eq_some_iff hv]
    exact Radix.leaf_iff_of_edit hwf.separated h.depth_le hedit hq k' e'

/-! The same for an empty table. -/

theorem TableEdit.tableAt_eq (hwf : WellFormed m root) (h : TableEdit root k q g m m') {k' p : Nat}
    (hk' : k' ≤ 3) (hu : ¬ Under k q k' p) : tableAt m'.mem root k' p = tableAt m.mem root k' p := by
  obtain ⟨f, hedit, -⟩ := h.edit
  exact Radix.tableAt_eq_of_edit hwf.separated (by have := h.depth_le; omega) hedit k' p hk'
    fun j hj hb => hu ⟨j, hj, hb⟩

/-- The new table is in place and there is nothing below it. -/
theorem TableEdit.tableAt_under (hwf : WellFormed m root) (h : TableEdit root k q g m m') :
    tableAt m'.mem root (k + 1) q = some g ∧
      ∀ j p, Radix.Below k q j p → j ≠ k → tableAt m'.mem root (j + 1) p = none := by
  obtain ⟨f, hedit, -, ht, hg⟩ := h.edit
  have htab := hedit.table_after hwf.separated (by have := h.depth_le; omega)
  have hd := Radix.tableAt_below_of_empty htab ht (by
    intro i j
    rw [hg, h.empty]
    exact isTable_zero j)
  rw [hg] at hd
  exact hd

/-- The tables after such an edit are the new one and those from before. -/
theorem TableEdit.tableAt_eq_some (hwf : WellFormed m root) (h : TableEdit root k q g m m')
    {k' p f : Nat} (hk' : k' ≤ 3) (hf : tableAt m'.mem root k' p = some f) :
    (k' = k + 1 ∧ p = q ∧ f = g) ∨ (tableAt m.mem root k' p = some f ∧ ¬ Under k q k' p) := by
  by_cases hu : Under k q k' p
  · obtain ⟨j, rfl, hb⟩ := hu
    obtain ⟨hnew, hnone⟩ := h.tableAt_under hwf
    by_cases hjk : j = k
    · subst hjk
      obtain rfl := Radix.below_eq hb
      rw [hnew, Option.some_inj] at hf
      exact Or.inl ⟨rfl, rfl, hf.symm⟩
    · rw [hnone j p hb hjk] at hf
      exact absurd hf (by simp)
  · exact Or.inr ⟨by rw [← h.tableAt_eq hwf hk' hu, hf], hu⟩

/-- No table is lost. -/
theorem TableEdit.tableAt_mono (hwf : WellFormed m root) (h : TableEdit root k q g m m')
    {k' p f : Nat} (hk' : k' ≤ 3) (hf : tableAt m.mem root k' p = some f) :
    tableAt m'.mem root k' p = some f := by
  rw [h.tableAt_eq hwf hk', hf]
  rintro ⟨j, rfl, hkj, hq⟩
  obtain ⟨i, rfl⟩ : ∃ i, j = k + i := ⟨j - k, by omega⟩
  rw [show k + i + 1 = k + 1 + i by omega] at hf
  obtain ⟨f', hf'⟩ := Radix.exists_tableAt_prefix i hf
  rw [Nat.add_sub_cancel_left] at hq
  exact h.vacant f' (hq ▸ hf')

/-- The frame of the new table held no table before. -/
theorem TableEdit.tableAt_ne (hwf : WellFormed m root) (h : TableEdit root k q g m m') {k' p : Nat}
    (hk' : k' ≤ 3) : tableAt m.mem root k' p ≠ some g :=
  fun hg => h.fresh (hwf.marked k' p g hk' hg)

theorem TableEdit.wellFormed (hwf : WellFormed m root) (h : TableEdit root k q g m m') :
    WellFormed m' root where
  separated := by
    intro k1 p1 k2 p2 f h1 h2 hf1 hf2
    rcases h.tableAt_eq_some hwf h1 hf1 with ⟨rfl, rfl, rfl⟩ | ⟨ho1, -⟩ <;>
      rcases h.tableAt_eq_some hwf h2 hf2 with ⟨rfl, rfl, he⟩ | ⟨ho2, -⟩
    · exact ⟨rfl, rfl⟩
    · exact absurd ho2 (h.tableAt_ne hwf h2)
    · exact absurd (he ▸ ho1) (h.tableAt_ne hwf h1)
    · exact hwf.separated k1 p1 k2 p2 f h1 h2 ho1 ho2
  entries := by
    intro k' p e' hk' he'
    obtain ⟨f, hedit, hok, -⟩ := h.edit
    have hk3 : k ≤ 3 := by have := h.depth_le; omega
    by_cases hb : Radix.Below k q k' p
    · rcases Nat.eq_or_lt_of_le hb.1 with rfl | hlt
      · obtain rfl := Radix.below_eq hb
        rw [entryAt, Radix.entryAt_eq_some (hedit.table_after hwf.separated hk3),
          Option.some_inj] at he'
        exact he' ▸ hok
      · -- one level down the entries are those of the new table, and there is nothing below
        obtain ⟨j, rfl⟩ : ∃ j, k' = j + 1 := ⟨k' - 1, by omega⟩
        have hb' : Radix.Below k q j (p / 512) := (Radix.below_succ_iff (by omega)).mp hb
        obtain ⟨hnew, hnone⟩ := h.tableAt_under hwf
        by_cases hjk : j = k
        · subst hjk
          have hp := Radix.below_eq hb'
          rw [entryAt, Radix.entryAt_eq_some (by rw [hp]; exact hnew), h.empty,
            Option.some_inj] at he'
          exact Or.inl he'.symm
        · rw [entryAt, Radix.entryAt_eq_none (hnone j _ hb' hjk)] at he'
          exact absurd he' (by simp)
    · rw [entryAt, Radix.entryAt_eq_of_edit hwf.separated hk3 hedit hk' hb] at he'
      exact hwf.entries k' p e' hk' he'
  marked := by
    intro k' p f hk' hf
    rw [← mem_usedPages, h.marks]
    rcases h.tableAt_eq_some hwf hk' hf with ⟨-, -, rfl⟩ | ⟨hold, -⟩
    · exact Or.inl rfl
    · exact Or.inr (hwf.marked k' p f hk' hold)

/-- No walk ends below a new table. -/
theorem TableEdit.walk (hwf : WellFormed m root) (h : TableEdit root k q g m m') {v : Nat}
    (hv : v < 2 ^ 36) :
    walk m'.mem root v = if v / span k = q then none else walk m.mem root v := by
  have hk2 := h.depth_le
  obtain ⟨f, hedit, -⟩ := h.edit
  apply Option.ext
  rintro ⟨k', e'⟩
  split
  · rename_i hq
    -- the walk reads a zero entry of the new table
    have hdiv : v / 512 ^ (3 - (k + 1)) / 512 = q := by
      rw [← hq, span, Nat.div_div_eq_div_mul, ← Nat.pow_succ]
      congr 2
      omega
    have hs : entryAt m'.mem root (k + 1) (v / 512 ^ (3 - (k + 1))) = some 0 := by
      rw [entryAt, Radix.entryAt_eq_some (by rw [hdiv]; exact (h.tableAt_under hwf).1), h.empty]
    rw [walk_eq_some_iff hv, Radix.leaf_iff_of_end isTable_of_isLeaf (by omega) hs
      (isTable_zero _)]
    simp [isLeaf_zero]
  · rename_i hq
    rw [walk_eq_some_iff hv, walk_eq_some_iff hv]
    exact Radix.leaf_iff_of_edit hwf.separated (by omega) hedit hq k' e'

end

end Dem64
