import Dem64.Paging.Destroy
import Dem64.Paging.Mapping

/-!
# What `destroy_mapping` promises

A range whose pages are all mapped is cleared, and every page outside it keeps its translation,
also the rest of a large page that the range only partly covers.  There is one exception, and
`destroyMapping_exact_iff` says exactly when it shows: the addresses behind the last page of the
address space wrap to zero, so that a large page that ends there cannot be split, and a range that
ends there is not cleared.
-/

set_option autoImplicit false

namespace Dem64

section

variable {m : Machine} {va pages pml4 : Nat}

/-- The address of the last page. -/
def lastAddress : Nat := 2 ^ 64 - 4096

theorem pageOf_lastAddress : pageOf lastAddress = lastPage := rfl

theorem canonical_lastAddress : Canonical lastAddress := by decide

/-- A range that does not end with the address space is one the loop clears. -/
theorem CanonicalRange.clearing (h : CanonicalRange va pages) (hend : va + 4096 * pages ≠ 2 ^ 64) :
    ∃ base, Clearing base va pages (pageOf va) (pageOf va + pages) := by
  have hal := h.aligned
  have hpos := h.pos
  have hle := h.le
  have hlast : lastPage = 2 ^ 36 - 1 := rfl
  rcases h.half with hh | hh
  · refine ⟨0, Or.inl rfl, ?_, fun _ => ?_, fun h0 => absurd rfl h0, rfl, ?_⟩
    all_goals
      rw [pageOf]
      omega
  · refine ⟨2 ^ 64 - 2 ^ 48, Or.inr rfl, ?_, fun h0 => absurd h0 (by decide), fun _ => ?_, rfl, ?_⟩
    all_goals
      rw [pageOf]
      omega

/-- A range that does is not cleared: `virtual_end` wraps to zero. -/
theorem destroyMapping_of_wrap (h : va + 4096 * pages = 2 ^ 64) :
    destroyMapping m va pages pml4 = m := by
  rw [destroyMapping]
  split
  · rfl
  · obtain ⟨n, rfl⟩ : ∃ n, pages = n + 1 := ⟨pages - 1, by omega⟩
    rw [h, destroyLoop, if_neg (by omega)]

theorem hardwareWalk_ne_none {mem : Nat → Nat → Nat} {root x : Nat}
    (h : hardwareWalk mem root x ≠ none) : walk mem root (pageOf x) ≠ none := by
  intro hw
  refine h ?_
  rw [hardwareWalk, hardwareLeaf, hw]
  split <;> rfl

/-- A refined page has the same translation. -/
theorem Refined.hardwareWalk {root x : Nat} {m' : Machine} (h : Refined root m m' (pageOf x)) :
    hardwareWalk m'.mem root x = hardwareWalk m.mem root x := by
  obtain ⟨k, e, k', e', hw, hw', -, hp⟩ := h
  rw [Dem64.hardwareWalk, Dem64.hardwareWalk, hardwareLeaf, hardwareLeaf]
  split
  · rw [hw, hw', Option.map_some, Option.map_some, hp]
  · rfl

/-- **`destroy_mapping` unmaps exactly its range if and only if no page of the range shares its leaf
with the last page of the address space.** -/
theorem destroyMapping_exact_iff (hwf : WellFormed m (pml4 >>> 12)) (hgb : GbOk m (pml4 >>> 12))
    (hpml4 : pml4 ≠ 0) (hrange : CanonicalRange va pages)
    (hmap : ∀ i, i < pages → hardwareWalk m.mem (pml4 >>> 12) (va + 4096 * i) ≠ none)
    (hno : NoFail m (destroyMapping m va pages pml4)) :
    ((∀ i, i < pages →
        hardwareWalk (destroyMapping m va pages pml4).mem (pml4 >>> 12) (va + 4096 * i) = none) ∧
      ∀ x, x % 4096 = 0 → x < va ∨ va + 4096 * pages ≤ x →
        hardwareWalk (destroyMapping m va pages pml4).mem (pml4 >>> 12) x =
          hardwareWalk m.mem (pml4 >>> 12) x) ↔
    ∀ y, va ≤ y → y < va + 4096 * pages → ¬ SameLeaf m.mem (pml4 >>> 12) lastAddress y := by
  have hpos := hrange.pos
  have hal := hrange.aligned
  by_cases hend : va + 4096 * pages = 2 ^ 64
  · -- nothing is done, although the last page is in the range
    rw [destroyMapping_of_wrap hend]
    refine iff_of_false (fun h => hmap 0 hpos (h.1 0 hpos)) fun h => ?_
    have hlast := hmap (pages - 1) (by omega)
    rw [show va + 4096 * (pages - 1) = lastAddress by rw [lastAddress]; omega] at hlast
    obtain ⟨leaf, hleaf⟩ := Option.ne_none_iff_exists'.mp (hardwareWalk_ne_none hlast)
    exact h lastAddress (by rw [lastAddress]; omega) (by rw [lastAddress]; omega)
      ⟨leaf.1, leaf.2, hardwareLeaf_eq_some.mpr ⟨canonical_lastAddress, hleaf⟩, rfl⟩
  · obtain ⟨base, hclear⟩ := hrange.clearing hend
    have hle := hclear.fin_le
    have hun := destroyMapping_unmapped hclear hpml4 hwf hgb (fun v h1 h2 => by
      have hi := hardwareWalk_ne_none (hmap (v - pageOf va) (by omega))
      rwa [hrange.pageOf_add (by omega), Nat.add_sub_cancel' h1] at hi) hno
    generalize destroyMapping m va pages pml4 = m' at hun ⊢
    have hout : ∀ {x}, Canonical x → x < va ∨ va + 4096 * pages ≤ x →
        pageOf x < pageOf va ∨ pageOf va + pages ≤ pageOf x := by
      intro x hx h
      have hmem := hrange.mem_iff hx
      omega
    constructor
    · rintro ⟨-, hkeep⟩ y h1 h2 hsame
      obtain ⟨k, e, hleaf, -⟩ := id hsame
      have hlost := hun.top ((hrange.hit_iff canonical_lastAddress).mpr ⟨y, h1, h2, hsame⟩)
      have hle' := hrange.le
      have h := hkeep lastAddress rfl (Or.inr (by rw [lastAddress]; omega))
      rw [hardwareWalk, hardwareWalk, hleaf, hardwareLeaf, if_pos canonical_lastAddress,
        pageOf_lastAddress, hlost] at h
      exact absurd h (by simp)
    · intro hsep
      refine ⟨fun i hi => ?_, fun x hx houtx => ?_⟩
      · rw [hardwareWalk, hardwareLeaf, if_pos (hrange.canonical i hi), hrange.pageOf_add hi,
          hun.inside _ (by omega) (by omega)]
        rfl
      · by_cases hcx : Canonical x
        · by_cases hhit : Hit m.mem (pml4 >>> 12) (pageOf va) (pageOf va + pages) (pageOf x)
          · refine (hun.refined _ (pageOf_lt x) (hout hcx houtx) hhit fun k e hw => Or.inr ?_).hardwareWalk
            -- otherwise the leaf would also map the last page
            intro hq
            obtain ⟨y, h1, h2, k', e', hleaf, hy⟩ := (hrange.hit_iff hcx).mp hhit
            obtain ⟨rfl, rfl⟩ := Prod.mk.inj (Option.some_inj.mp
              (hw.symm.trans (hardwareLeaf_eq_some.mp hleaf).2))
            refine hsep y h1 h2 ⟨k, e, hardwareLeaf_eq_some.mpr ⟨canonical_lastAddress, ?_⟩, ?_⟩
            · exact walk_congr (by decide) (pageOf_lt x) hw hq
            · exact hq.trans hy
          · rw [hardwareWalk, hardwareWalk, hardwareLeaf, hardwareLeaf,
              hun.kept _ (pageOf_lt x) (hout hcx houtx) hhit]
        · rw [hardwareWalk, hardwareWalk, hardwareLeaf, hardwareLeaf, if_neg hcx, if_neg hcx]

end

/-! ## In the small machine -/

/-- Two 4 KiB pages at `0x200000`. -/
def twoPageMachine : Machine := createMapping smallMachine 0x200000 0x400000 2 3 0x1000

theorem smallMachine_gbOk : GbOk smallMachine 1 := gbOk_of_empty fun _ => rfl

theorem twoPageMachine_steps : Steps (0x1000 >>> 12) smallMachine twoPageMachine :=
  createMapping_steps ⟨by decide, by decide, by decide, by decide⟩ (by decide) (by decide)
    smallMachine_wellFormed (by decide)

/-- The second of the two pages is unmapped and nothing else. -/
theorem destroyMapping_exact_second_page :
    (∀ i, i < 1 → hardwareWalk (destroyMapping twoPageMachine 0x201000 1 0x1000).mem
      (0x1000 >>> 12) (0x201000 + 4096 * i) = none) ∧
    ∀ x, x % 4096 = 0 → x < 0x201000 ∨ 0x201000 + 4096 * 1 ≤ x →
      hardwareWalk (destroyMapping twoPageMachine 0x201000 1 0x1000).mem (0x1000 >>> 12) x =
        hardwareWalk twoPageMachine.mem (0x1000 >>> 12) x := by
  refine (destroyMapping_exact_iff (twoPageMachine_steps.wellFormed smallMachine_wellFormed)
    (twoPageMachine_steps.gbOk smallMachine_wellFormed smallMachine_gbOk) (by decide)
    ⟨by decide, by decide, by decide, fun i hi => Or.inl (by omega)⟩ (fun i hi => ?_)
    (by decide)).mpr ?_
  · obtain rfl : i = 0 := by omega
    decide
  · rintro y - - ⟨k, e, hleaf, -⟩
    have hnone : hardwareLeaf twoPageMachine.mem (0x1000 >>> 12) lastAddress = none := by decide
    rw [hnone] at hleaf
    exact absurd hleaf (by simp)

/-- A 2 MiB page at the end of the address space. -/
def topPageMachine : Machine :=
  (createMapping smallMachine 0xffffffffffc00000 0x200000 512 3 0x1000).store 0x3000 511 0x400083

theorem topPageMachine_wellFormed : WellFormed topPageMachine 1 := by
  have hsteps : Steps (0x1000 >>> 12) smallMachine
      (createMapping smallMachine 0xffffffffffc00000 0x200000 512 3 0x1000) :=
    createMapping_steps ⟨by decide, by decide, by decide, by decide⟩ (by decide) (by decide)
      smallMachine_wellFormed (by decide)
  exact (SlotStep.write (k := 2) (q := 0x7ffffff) (by decide) (by decide) (by decide) (by decide)
    (Or.inr (by decide)) (by decide) (fun h => absurd h (by decide))).wellFormed
    (hsteps.wellFormed smallMachine_wellFormed)

/-- Unmapping the first 4 KiB of the last large page unmaps the end of it as well. -/
theorem destroyMapping_loses_last_page :
    WellFormed topPageMachine (0x1000 >>> 12) ∧
    NoFail topPageMachine (destroyMapping topPageMachine 0xffffffffffe00000 1 0x1000) ∧
    hardwareWalk topPageMachine.mem (0x1000 >>> 12) 0xffffffffffe00000 = some (0x400, 3) ∧
    hardwareWalk topPageMachine.mem (0x1000 >>> 12) 0xfffffffffffff000 = some (0x5ff, 3) ∧
    hardwareWalk (destroyMapping topPageMachine 0xffffffffffe00000 1 0x1000).mem (0x1000 >>> 12)
      0xfffffffffffff000 = none :=
  ⟨topPageMachine_wellFormed, by decide, by decide, by decide, by decide⟩

end Dem64
