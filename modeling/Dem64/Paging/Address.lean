import Dem64.Paging.Tree

/-!
# Virtual addresses

The tables are indexed by page numbers of 36 bits.  This file is about the addresses the code works
with: `hardwareWalk` is the processor's translation of an address, which faults on addresses that
are not canonical before it looks at any table, and `CanonicalRange` a range of addresses on which
there is no difference between counting addresses and counting page numbers.

It also ties the two places where the code itself goes between addresses and tables to that:
`find_address`, which rebuilds the address of a slot from its indices, and `paging_lookup`.
-/

set_option autoImplicit false

namespace Dem64

/-- Bits 47 to 63 of the address are equal. -/
def Canonical (va : Nat) : Prop := va < 2 ^ 47 ∨ 2 ^ 64 - 2 ^ 47 ≤ va ∧ va < 2 ^ 64

instance (va : Nat) : Decidable (Canonical va) := inferInstanceAs (Decidable (_ ∨ _))

/-- The page number of an address: bits 12 to 47. -/
def pageOf (va : Nat) : Nat := va / 4096 % 2 ^ 36

/-- The leaf the processor finds for an address, with its depth. -/
def hardwareLeaf (mem : Nat → Nat → Nat) (root va : Nat) : Option (Nat × Nat) :=
  if Canonical va then walk mem root (pageOf va) else none

/-- The physical page and the attributes the processor finds for the page at an address. -/
def hardwareWalk (mem : Nat → Nat → Nat) (root va : Nat) : Option (Nat × Nat) :=
  (hardwareLeaf mem root va).map (leafPage (pageOf va))

theorem hardwareLeaf_eq_some {mem : Nat → Nat → Nat} {root x : Nat} {leaf : Nat × Nat} :
    hardwareLeaf mem root x = some leaf ↔ Canonical x ∧ walk mem root (pageOf x) = some leaf := by
  rw [hardwareLeaf]
  split
  · simp [*]
  · simp [*]

/-- One large page maps the pages at `x` and at `y`. -/
def SameLeaf (mem : Nat → Nat → Nat) (root x y : Nat) : Prop :=
  ∃ k e, hardwareLeaf mem root x = some (k, e) ∧ pageOf x / span k = pageOf y / span k

/-- A range of pages with canonical addresses. -/
structure CanonicalRange (va pages : Nat) : Prop where
  /-- The range starts at a page. -/
  aligned : va % 4096 = 0
  /-- There is something in it. -/
  pos : 1 ≤ pages
  /-- It does not wrap. -/
  le : va + 4096 * pages ≤ 2 ^ 64
  /-- All its pages have canonical addresses. -/
  canonical : ∀ i, i < pages → Canonical (va + 4096 * i)

section

variable {va pages x : Nat}

/-- Such a range lies in one half of the address space. -/
theorem CanonicalRange.half (h : CanonicalRange va pages) :
    va + 4096 * pages ≤ 2 ^ 47 ∨ 2 ^ 64 - 2 ^ 47 ≤ va := by
  have hpos := h.pos
  have hal := h.aligned
  rcases h.canonical 0 hpos with h0 | h0
  · left
    by_contra hgt
    have hmid := h.canonical ((2 ^ 47 - va) / 4096) (by omega)
    rw [Canonical] at hmid
    omega
  · right
    omega

theorem CanonicalRange.canonical_of_mem (h : CanonicalRange va pages) {y : Nat} (h1 : va ≤ y)
    (h2 : y < va + 4096 * pages) : Canonical y := by
  have hle := h.le
  rw [Canonical]
  rcases h.half with h3 | h3 <;> omega

theorem CanonicalRange.fits (h : CanonicalRange va pages) : pageOf va + pages ≤ 2 ^ 36 := by
  have hpos := h.pos
  have hal := h.aligned
  have hle := h.le
  rw [pageOf]
  rcases h.half with h1 | h1 <;> omega

/-- In such a range addresses and page numbers run in parallel. -/
theorem CanonicalRange.mem_iff (h : CanonicalRange va pages) (hx : Canonical x) :
    (va ≤ x ∧ x < va + 4096 * pages) ↔ pageOf va ≤ pageOf x ∧ pageOf x < pageOf va + pages := by
  have hpos := h.pos
  have hal := h.aligned
  have hle := h.le
  rw [pageOf, pageOf]
  rcases h.half with h1 | h1 <;> rcases hx with hx | hx <;> omega

theorem CanonicalRange.pageOf_add (h : CanonicalRange va pages) {i : Nat} (hi : i < pages) :
    pageOf (va + 4096 * i) = pageOf va + i := by
  have hal := h.aligned
  have hle := h.le
  rw [pageOf, pageOf]
  rcases h.half with h1 | h1 <;> omega

end

theorem pageOf_eq (va : Nat) : va / 4096 % 2 ^ 36 = pageOf va := rfl

theorem pageOf_lt (va : Nat) : pageOf va < 2 ^ 36 := Nat.mod_lt _ (by decide)

/-! ## Indices

The code cuts the slot numbers out of the address. -/

theorem and_mask_eq (n x : Nat) : x &&& (2 ^ n - 1) = x % 2 ^ n := Nat.and_two_pow_sub_one_eq_mod x n

theorem index_mod (va n : Nat) : (va >>> n) &&& 511 = va / 2 ^ n % 512 := by
  rw [Nat.shiftRight_eq_div_pow]
  exact and_mask_eq 9 _

theorem index_eq {va v k : Nat} (hk : k ≤ 3) (hv : va / 4096 % 2 ^ 36 = v) :
    (va >>> (39 - 9 * k)) &&& 511 = v / span k % 512 := by
  rw [index_mod, ← hv]
  obtain rfl | rfl | rfl | rfl : k = 0 ∨ k = 1 ∨ k = 2 ∨ k = 3 := by omega
  all_goals
    simp only [span, Nat.reducePow, Nat.reduceSub, Nat.reduceMul]
    omega

theorem pml4Index_eq {va v : Nat} (hv : va / 4096 % 2 ^ 36 = v) : pml4Index va = v / span 0 % 512 :=
  index_eq (Nat.zero_le 3) hv

theorem pdptIndex_eq {va v : Nat} (hv : va / 4096 % 2 ^ 36 = v) : pdptIndex va = v / span 1 % 512 :=
  index_eq (k := 1) (by decide) hv

theorem pdIndex_eq {va v : Nat} (hv : va / 4096 % 2 ^ 36 = v) : pdIndex va = v / span 2 % 512 :=
  index_eq (k := 2) (by decide) hv

theorem ptIndex_eq {va v : Nat} (hv : va / 4096 % 2 ^ 36 = v) : ptIndex va = v / span 3 % 512 :=
  index_eq (le_refl 3) hv

/-! ## `find_address` -/

theorem shiftLeft_or {x y n k : Nat} (hy : y < 2 ^ k) :
    x <<< (n + k) ||| y <<< n = (x * 2 ^ k + y) <<< n := by
  have hlt : y <<< n < 2 ^ (n + k) := by
    rw [Nat.shiftLeft_eq, Nat.pow_add, Nat.mul_comm]
    exact Nat.mul_lt_mul_of_pos_left hy (Nat.two_pow_pos n)
  rw [← Nat.shiftLeft_add_eq_or_of_lt hlt, Nat.shiftLeft_eq, Nat.shiftLeft_eq, Nat.shiftLeft_eq,
    Nat.pow_add, Nat.add_mul, Nat.mul_comm (2 ^ n), Nat.mul_assoc]

/-- `find_address` joins the indices and extends the sign. -/
theorem findAddress_eq {a b c d : Nat} (ha : a < 512) (hb : b < 512) (hc : c < 512) (hd : d < 512) :
    findAddress d c b a = (((a * 512 + b) * 512 + c) * 512 + d) * 4096 +
      if 256 ≤ a then 2 ^ 64 - 2 ^ 48 else 0 := by
  have hmask : ∀ x, x < 512 → x &&& 0x1ff = x := fun x hx =>
    (and_mask_eq 9 x).trans (Nat.mod_eq_of_lt hx)
  have hjoin : a <<< 39 ||| b <<< 30 ||| c <<< 21 ||| d <<< 12 =
      (((a * 512 + b) * 512 + c) * 512 + d) <<< 12 := by
    rw [shiftLeft_or (n := 30) (k := 9) hb, shiftLeft_or (n := 21) (k := 9) hc,
      shiftLeft_or (n := 12) (k := 9) hd]
    rfl
  rw [findAddress, hmask a ha, hmask b hb, hmask c hc, hmask d hd, hjoin, Nat.shiftLeft_eq,
    Nat.one_shiftLeft, Nat.and_two_pow, Nat.testBit_eq_decide_div_mod_eq]
  by_cases h : 256 ≤ a
  · rw [if_pos h, decide_eq_true (by omega), if_pos (by decide), Nat.lor_comm,
      show (0xffff000000000000 : Nat) = 0xffff <<< 48 from rfl,
      ← Nat.shiftLeft_add_eq_or_of_lt (by omega), Nat.add_comm, Nat.shiftLeft_eq]
    rfl
  · rw [if_neg h, decide_eq_false (by omega), if_neg (by decide), Nat.add_zero]

/-- For a canonical address that is the start of its slot. -/
theorem findAddress_pd {va : Nat} (h : Canonical va) :
    findAddress 0 (pdIndex va) (pdptIndex va) (pml4Index va) = va - va % 0x200000 := by
  rw [pdIndex, pdptIndex, pml4Index, index_mod, index_mod, index_mod, findAddress_eq (Nat.mod_lt _ (by decide))
    (Nat.mod_lt _ (by decide)) (Nat.mod_lt _ (by decide)) (by decide)]
  rcases h with h | h
  · rw [if_neg (by omega)]
    omega
  · rw [if_pos (by omega)]
    omega

theorem findAddress_pdpt {va : Nat} (h : Canonical va) :
    findAddress 0 0 (pdptIndex va) (pml4Index va) = va - va % 0x40000000 := by
  rw [pdptIndex, pml4Index, index_mod, index_mod, findAddress_eq (Nat.mod_lt _ (by decide))
    (Nat.mod_lt _ (by decide)) (by decide) (by decide)]
  rcases h with h | h
  · rw [if_neg (by omega)]
    omega
  · rw [if_pos (by omega)]
    omega

/-! ## `paging_lookup` -/

/-- **`paging_lookup` finds the leaf the processor finds.** -/
theorem pagingLookup_of_walk {m : Machine} {va pml4 k e : Nat} (hpml4 : pml4 ≠ 0)
    (hw : walk m.mem (pml4 >>> 12) (pageOf va) = some (k, e)) :
    pagingLookup m va pml4 =
      { attributes := leafAttributes e, physicalAddress := addrOf e, pageType := 3 - k } := by
  have hne : ∀ {x : Nat}, present x = true → x ≠ 0 := by
    rintro x hx rfl
    exact absurd hx (by decide)
  have hi0 : pml4Index va = pageOf va / 2 ^ 27 % 512 := pml4Index_eq rfl
  have hi1 : pdptIndex va = pageOf va / 2 ^ 18 % 512 := pdptIndex_eq rfl
  have hi2 : pdIndex va = pageOf va / 512 % 512 := pdIndex_eq rfl
  have hi3 : ptIndex va = pageOf va % 512 := by rw [ptIndex_eq rfl, span, pow_zero, Nat.div_one]; rfl
  -- both read the same entries; a present entry is not zero
  rw [pagingLookup, if_neg hpml4]
  simp only [Machine.read, addrOf_shiftRight, hi0, hi1, hi2, hi3]
  simp only [walk] at hw
  generalize m.mem (pml4 >>> 12) (pageOf va / 2 ^ 27 % 512) = e0 at hw ⊢
  split at hw
  · rename_i h0
    rw [if_neg (hne h0)]
    generalize m.mem (e0 >>> 12) (pageOf va / 2 ^ 18 % 512) = e1 at hw ⊢
    split at hw
    · rename_i h1
      rw [if_neg (hne h1)]
      split at hw
      · rename_i hl
        obtain ⟨rfl, rfl⟩ := Prod.mk.inj (Option.some_inj.mp hw)
        rw [if_pos hl]
      · rename_i hl
        rw [if_neg hl]
        generalize m.mem (e1 >>> 12) (pageOf va / 512 % 512) = e2 at hw ⊢
        split at hw
        · rename_i h2
          rw [if_neg (hne h2)]
          split at hw
          · rename_i hl
            obtain ⟨rfl, rfl⟩ := Prod.mk.inj (Option.some_inj.mp hw)
            rw [if_pos hl]
          · rename_i hl
            rw [if_neg hl]
            split at hw
            · rename_i h3
              obtain ⟨rfl, rfl⟩ := Prod.mk.inj (Option.some_inj.mp hw)
              rw [if_neg (hne h3)]
            · exact absurd hw (by simp)
        · exact absurd hw (by simp)
    · exact absurd hw (by simp)
  · exact absurd hw (by simp)

/-- **`paging_lookup` reports the faults of the processor.**  In a tree an entry that is not present is zero. -/
theorem pagingLookup_of_none {m : Machine} {va pml4 : Nat} (hwf : WellFormed m (pml4 >>> 12))
    (hw : walk m.mem (pml4 >>> 12) (pageOf va) = none) : (pagingLookup m va pml4).status ≠ 0 := by
  have hi0 : pml4Index va = pageOf va / 2 ^ 27 % 512 := pml4Index_eq rfl
  have hi1 : pdptIndex va = pageOf va / 2 ^ 18 % 512 := pdptIndex_eq rfl
  have hi2 : pdIndex va = pageOf va / 512 % 512 := pdIndex_eq rfl
  have hi3 : ptIndex va = pageOf va % 512 := by rw [ptIndex_eq rfl, span, pow_zero, Nat.div_one]; rfl
  have hv : pageOf va < 2 ^ 36 := Nat.mod_lt _ (by decide)
  have hpresent : ∀ {k q e : Nat}, k ≤ 3 → entryAt m.mem (pml4 >>> 12) k q = some e → e ≠ 0 → present e = true :=
    fun hk he hne => ((hwf.entries _ _ _ hk he).resolve_left hne).1
  have h0 : entryAt m.mem (pml4 >>> 12) 0 (pageOf va / 2 ^ 27) =
      some (m.mem (pml4 >>> 12) (pageOf va / 2 ^ 27 % 512)) := entryAt_zero hv
  rw [pagingLookup]
  simp only [Machine.read, addrOf_shiftRight, hi0, hi1, hi2, hi3]
  simp only [walk] at hw
  generalize m.mem (pml4 >>> 12) (pageOf va / 2 ^ 27 % 512) = e0 at h0 hw ⊢
  split
  · exact (by decide)
  split
  · exact (by decide)
  rename_i hne0
  -- an entry that is not zero is present, and leads to the next one
  have p0 := hpresent (by decide) h0 hne0
  have h1 := entryAt_succ (q := pageOf va / 2 ^ 18) (by rw [Nat.div_div_eq_div_mul]; exact h0)
  rw [if_pos (by simp [isTable, p0])] at h1
  rw [if_pos p0] at hw
  generalize m.mem (e0 >>> 12) (pageOf va / 2 ^ 18 % 512) = e1 at h1 hw ⊢
  split
  · exact (by decide)
  rename_i hne1
  have p1 := hpresent (by decide) h1 hne1
  rw [if_pos p1] at hw
  split at hw
  · cases hw
  rename_i l1
  rw [if_neg l1]
  have h2 := entryAt_succ (q := pageOf va / 512) (by rw [Nat.div_div_eq_div_mul]; exact h1)
  rw [if_pos (by simp [isTable_middle, p1, l1])] at h2
  generalize m.mem (e1 >>> 12) (pageOf va / 512 % 512) = e2 at h2 hw ⊢
  split
  · exact (by decide)
  rename_i hne2
  have p2 := hpresent (by decide) h2 hne2
  rw [if_pos p2] at hw
  split at hw
  · cases hw
  rename_i l2
  rw [if_neg l2]
  have h3 := entryAt_succ h2
  rw [if_pos (by simp [isTable_middle, p2, l2])] at h3
  generalize m.mem (e2 >>> 12) (pageOf va % 512) = e3 at h3 hw ⊢
  split
  · exact (by decide)
  rename_i hne3
  rw [if_pos (hpresent (by decide) h3 hne3)] at hw
  cases hw

end Dem64
