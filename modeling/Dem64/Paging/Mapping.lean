import Dem64.Paging.Create
import Dem64.Paging.Address

/-!
# What `create_mapping` promises

`Paging/Create.lean` counts pages by their 36-bit number.  Here the results are put in terms of
virtual addresses: `hardwareWalk` is the processor's translation of an address, which faults on
addresses that are not canonical before it looks at any table.

Two things are proved.  The range that was asked for is mapped
(`hardwareWalk_createMapping`).  Outside the range the translation is what it was
exactly when no large page reaches across an end of the range
(`createMapping_keeps_outside_iff`): unlike `destroy_mapping`, `create_mapping` replaces a large page
that is in its way by an empty table and does not map the rest of it again.
-/

set_option autoImplicit false

namespace Dem64

/-! ## An empty address space -/

/-- An empty PML4 is the only table. -/
theorem tableAt_of_empty {mem : Nat → Nat → Nat} {root : Nat} (hempty : ∀ i, mem root i = 0) {k p f : Nat} :
    tableAt mem root k p = some f ↔ k = 0 ∧ p = 0 ∧ f = root := by
  constructor
  · intro h
    induction k generalizing p f with
    | zero =>
      rw [tableAt, Radix.tableAt] at h
      split at h
      · exact ⟨rfl, ‹_›, (Option.some_inj.mp h).symm⟩
      · exact absurd h (by simp)
    | succ k ih =>
      obtain ⟨g, hg, ht, -⟩ := Radix.tableAt_succ_eq_some.mp h
      obtain ⟨-, -, rfl⟩ := ih hg
      rw [hempty, isTable_zero] at ht
      exact absurd ht (by simp)
  · rintro ⟨rfl, rfl, rfl⟩
    rfl

/-- A PML4 without entries is well formed. -/
theorem wellFormed_of_empty {m : Machine} {root : Nat} (hempty : ∀ i, m.mem root i = 0)
    (hused : used m.frames.bitmap root = true) : WellFormed m root := by
  constructor
  · intro k p k' p' f _ _ h h'
    obtain ⟨rfl, rfl, -⟩ := (tableAt_of_empty hempty).mp h
    obtain ⟨rfl, rfl, -⟩ := (tableAt_of_empty hempty).mp h'
    exact ⟨rfl, rfl⟩
  · intro k q e _ he
    obtain ⟨f, hf, rfl⟩ := Option.map_eq_some_iff.mp he
    obtain ⟨-, -, rfl⟩ := (tableAt_of_empty hempty).mp hf
    exact Or.inl (hempty _)
  · intro k p f _ hf
    obtain ⟨-, -, rfl⟩ := (tableAt_of_empty hempty).mp hf
    exact hused

/-- Nor does it map anything. -/
theorem walk_of_empty {m : Machine} {root : Nat} (hempty : ∀ i, m.mem root i = 0) (v : Nat) :
    walk m.mem root v = none := by
  simp [walk, hempty, present_zero]

theorem gbOk_of_empty {m : Machine} {root : Nat} (hempty : ∀ i, m.mem root i = 0) : GbOk m root := by
  intro v e _ hw
  rw [walk_of_empty hempty] at hw
  exact absurd hw (by simp)

/-- 64 frames of physical memory, the first of them reserved and the second the PML4. -/
def smallMachine : Machine where
  mem := fun _ _ => 0
  frames := smallFrames
  gbPageSupport := 0
  pagingAllocatedPages := 1
  log := []

theorem smallMachine_wellFormed : WellFormed smallMachine 1 :=
  wellFormed_of_empty (fun _ => rfl) (by decide)

/-! ## The range is mapped -/

section

variable {m : Machine} {va pa pages attributes pml4 : Nat}

/-- **`create_mapping` maps its whole range.**  The processor finds the page `va + 4096 * i` at
`pa + 4096 * i`, with the attributes that were asked for, whatever page sizes were chosen. -/
theorem hardwareWalk_createMapping (hwf : WellFormed m (pml4 >>> 12)) (hpml4 : pml4 ≠ 0)
    (hrange : CanonicalRange va pages) (hend : va + 4096 * pages < 2 ^ 64) (hpa : pa % 4096 = 0)
    (hpa' : pa < 2 ^ 64) (hattr : attributes < 4096) (hodd : attributes % 2 = 1)
    (hno : NoFail m (createMapping m va pa pages attributes pml4)) :
    ∀ i, i < pages → hardwareWalk (createMapping m va pa pages attributes pml4).mem (pml4 >>> 12)
      (va + 4096 * i) = some ((pa + 4096 * i) % 2 ^ 64 / 4096, leafAttributes attributes) := by
  intro i hi
  have hmap := createMapping_mapped ⟨hattr, hodd, hpa, hpa'⟩ hrange.aligned (pageOf_eq va) hrange.fits
    hend hpml4 hwf hno
  obtain ⟨k, e, hw, -, -, hpage, hattr'⟩ := hmap.inside (pageOf va + i) (by omega) (by omega)
  rw [hardwareWalk, hardwareLeaf, if_pos (hrange.canonical i hi), hrange.pageOf_add hi, hw,
    Option.map_some, leafPage, hpage, hattr']
  congr 2
  omega

/-- A 2 MiB page over an empty address space. -/
theorem hardwareWalk_createMapping_two_mib :
    hardwareWalk (createMapping smallMachine 0x200000 0x400000 512 3 0x1000).mem (0x1000 >>> 12)
      (0x200000 + 4096 * 5) = some (0x405, 3) := by
  refine (hardwareWalk_createMapping smallMachine_wellFormed (by decide)
    ⟨by decide, by decide, by decide, fun i hi => ?_⟩ (by decide) (by decide) (by decide) (by decide)
    (by decide) (by decide) 5 (by decide)).trans (by decide)
  exact Or.inl (by omega)

/-- The processor faults on an address that is not canonical, mapped or not. -/
theorem hardwareWalk_createMapping_not_canonical :
    WellFormed smallMachine (0x1000 >>> 12) ∧
    NoFail smallMachine (createMapping smallMachine 0x800000000000 0 1 3 0x1000) ∧
    hardwareWalk (createMapping smallMachine 0x800000000000 0 1 3 0x1000).mem (0x1000 >>> 12)
      (0x800000000000 + 4096 * 0) ≠ some ((0 + 4096 * 0) % 2 ^ 64 / 4096, leafAttributes 3) :=
  ⟨smallMachine_wellFormed, by decide, by decide⟩

/-! ## The pages outside -/

/-- A page outside the range is hit when a large page reaches across an end of the range. -/
theorem CanonicalRange.hit_iff (h : CanonicalRange va pages) {mem : Nat → Nat → Nat} {root x : Nat}
    (hx : Canonical x) : Hit mem root (pageOf va) (pageOf va + pages) (pageOf x) ↔
      ∃ y, va ≤ y ∧ y < va + 4096 * pages ∧ SameLeaf mem root x y := by
  constructor
  · rintro ⟨k, e, u, hw, h1, h2, hu⟩
    have hpage := h.pageOf_add (i := u - pageOf va) (by omega)
    refine ⟨va + 4096 * (u - pageOf va), by omega, by omega, k, e,
      hardwareLeaf_eq_some.mpr ⟨hx, hw⟩, ?_⟩
    rw [hpage, ← hu]
    congr 1
    omega
  · rintro ⟨y, h1, h2, k, e, hw, hy⟩
    have hmem := (h.mem_iff (h.canonical_of_mem h1 h2)).mp ⟨h1, h2⟩
    exact ⟨k, e, pageOf y, (hardwareLeaf_eq_some.mp hw).2, hmem.1, hmem.2, hy.symm⟩

/-- **`create_mapping` leaves the pages outside its range alone exactly when no large page reaches
across an end of the range.**  A range that ends with the address space is not mapped at all,
because `virtual_end` wraps to zero, and so it is left alone as well. -/
theorem createMapping_keeps_outside_iff (hwf : WellFormed m (pml4 >>> 12)) (hpml4 : pml4 ≠ 0)
    (hrange : CanonicalRange va pages) (hpa : pa % 4096 = 0) (hpa' : pa < 2 ^ 64)
    (hattr : attributes < 4096) (hodd : attributes % 2 = 1)
    (hno : NoFail m (createMapping m va pa pages attributes pml4)) :
    (∀ x, x % 4096 = 0 → x < va ∨ va + 4096 * pages ≤ x →
      hardwareWalk (createMapping m va pa pages attributes pml4).mem (pml4 >>> 12) x =
        hardwareWalk m.mem (pml4 >>> 12) x) ↔
    va + 4096 * pages = 2 ^ 64 ∨ ∀ x y, x % 4096 = 0 → x < va ∨ va + 4096 * pages ≤ x → va ≤ y →
      y < va + 4096 * pages → ¬ SameLeaf m.mem (pml4 >>> 12) x y := by
  by_cases hend : va + 4096 * pages = 2 ^ 64
  · have hsame : createMapping m va pa pages attributes pml4 = m :=
      createMapping_of_wrap (by omega)
    rw [hsame]
    exact ⟨fun _ => Or.inl hend, fun _ _ _ _ => rfl⟩
  · have hmap := createMapping_mapped ⟨hattr, hodd, hpa, hpa'⟩ hrange.aligned (pageOf_eq va)
      hrange.fits (lt_of_le_of_ne hrange.le hend) hpml4 hwf hno
    generalize createMapping m va pa pages attributes pml4 = m' at hmap ⊢
    have hout : ∀ {x}, Canonical x → x < va ∨ va + 4096 * pages ≤ x →
        pageOf x < pageOf va ∨ pageOf va + pages ≤ pageOf x := by
      intro x hx h
      have hmem := hrange.mem_iff hx
      omega
    constructor
    · intro hkeep
      refine Or.inr fun x y hx houtx h1 h2 hsame => ?_
      obtain ⟨k, e, hleaf, -⟩ := id hsame
      obtain ⟨hcx, hw⟩ := hardwareLeaf_eq_some.mp hleaf
      have hlost := hmap.lost _ (pageOf_lt x) (hout hcx houtx)
        ((hrange.hit_iff hcx).mpr ⟨y, h1, h2, hsame⟩)
      have h := hkeep x hx houtx
      rw [hardwareWalk, hardwareWalk, hardwareLeaf, if_pos hcx, hlost, hleaf] at h
      exact absurd h (by simp)
    · rintro (h | hno) x hx houtx
      · exact absurd h hend
      · by_cases hcx : Canonical x
        · have hkept := hmap.kept _ (pageOf_lt x) (hout hcx houtx) (by
            rw [hrange.hit_iff hcx]
            rintro ⟨y, h1, h2, hsame⟩
            exact hno x y hx houtx h1 h2 hsame)
          rw [hardwareWalk, hardwareWalk, hardwareLeaf, hardwareLeaf, hkept]
        · rw [hardwareWalk, hardwareWalk, hardwareLeaf, hardwareLeaf, if_neg hcx, if_neg hcx]

/-- Nothing is mapped in an empty address space, so nothing is lost. -/
theorem createMapping_keeps_outside_two_mib :
    ¬ ∃ x, x % 4096 = 0 ∧ (x < 0x200000 ∨ 0x200000 + 4096 * 512 ≤ x) ∧
      hardwareWalk (createMapping smallMachine 0x200000 0x400000 512 3 0x1000).mem (0x1000 >>> 12) x ≠
        hardwareWalk smallMachine.mem (0x1000 >>> 12) x := by
  rintro ⟨x, hx, hout, hne⟩
  refine hne ((createMapping_keeps_outside_iff smallMachine_wellFormed (by decide)
    ⟨by decide, by decide, by decide, fun i hi => Or.inl (by omega)⟩ (by decide) (by decide)
    (by decide) (by decide) (by decide)).mpr (Or.inr ?_) x hx hout)
  rintro x y - - - - ⟨k, e, hleaf, -⟩
  have hnone : walk smallMachine.mem (0x1000 >>> 12) (pageOf x) = none := walk_of_empty (fun _ => rfl) _
  rw [(hardwareLeaf_eq_some.mp hleaf).2] at hnone
  exact absurd hnone (by simp)

/-- Mapping the first 4 KiB of a 2 MiB page unmaps the rest of it. -/
theorem createMapping_loses_large_page :
    NoFail (createMapping smallMachine 0x200000 0x200000 512 3 0x1000)
      (createMapping (createMapping smallMachine 0x200000 0x200000 512 3 0x1000)
        0x200000 0x5000 1 3 0x1000) ∧
    hardwareWalk (createMapping smallMachine 0x200000 0x200000 512 3 0x1000).mem (0x1000 >>> 12)
      0x201000 = some (0x201, 3) ∧
    hardwareWalk (createMapping (createMapping smallMachine 0x200000 0x200000 512 3 0x1000)
      0x200000 0x5000 1 3 0x1000).mem (0x1000 >>> 12) 0x201000 = none :=
  ⟨by decide, by decide, by decide⟩

end

end Dem64
