import Dem64.Paging.Whole
import Dem64.VaAlloc.Partition

/-!
# The top of the address space

`create_mapping`, `destroy_mapping` and `flush_pages` run from the first page of a range to `virtual_end`,
which is the address behind the last one.  For a range that ends with the address space this address is
zero, and the loops do not run at all.  The window for the kernel at the top of the address space ends
there, and `va_alloc` hands out all of it, so that there is such a range (`va_alloc_reaches_top`).

The three functions process every page of any other range (`loops_complete_iff`).
-/

set_option autoImplicit false

namespace Dem64

/-! ## The pages that the loops process -/

/-- The loop of `flush_pages`: the addresses that are given to `invlpg`. -/
def flushLoop (virtualEnd : Nat) : Nat → Nat → List Nat
  | 0, _ => []
  | n + 1, va => if va < virtualEnd then va :: flushLoop virtualEnd n ((va + 4096) % 2 ^ 64) else []

/-- `flush_pages`. -/
def flushPages (va pages : Nat) : List Nat := flushLoop ((va + 4096 * pages) % 2 ^ 64) pages va

/-- The addresses of `n` pages from `va` on. -/
def pagesFrom (va n : Nat) : List Nat := (List.range n).map fun i => va + 4096 * i

/-- The pages for which the loop of `create_mapping` writes an entry. -/
def createLoopPages (attributes pml4 virtualEnd : Nat) : Nat → Nat → Nat → Nat → Machine → List Nat
  | 0, _, _, _, _ => []
  | n + 1, va, pa, pages, m =>
    if va < virtualEnd then
      let c := createChunk attributes pml4 (virtualEnd - va) va pa pages m
      pagesFrom va c.1 ++ createLoopPages attributes pml4 virtualEnd n ((va + 4096 * c.1) % 2 ^ 64)
        ((pa + 4096 * c.1) % 2 ^ 64) (subU64 pages c.1) c.2
    else []

/-- The pages that `create_mapping` maps. -/
def createMappingPages (m : Machine) (va pa pages attributes pml4 : Nat) : List Nat :=
  if pml4 = 0 ∨ pages = 0 then []
  else createLoopPages attributes pml4 ((va + 4096 * pages) % 2 ^ 64) pages va pa pages m

/-- The pages whose entries the loop of `destroy_mapping` clears. -/
def destroyLoopPages (pml4 virtualEnd : Nat) : Nat → Nat → Nat → Machine → List Nat
  | 0, _, _, _ => []
  | n + 1, va, pages, m =>
    if va < virtualEnd then
      match destroyChunk pml4 (virtualEnd - va) va pages m with
      | (none, _) => []
      | (some c, m) =>
        pagesFrom va c ++ destroyLoopPages pml4 virtualEnd n ((va + 4096 * c) % 2 ^ 64) (subU64 pages c) m
    else []

/-- The pages that `destroy_mapping` unmaps. -/
def destroyMappingPages (m : Machine) (va pages pml4 : Nat) : List Nat :=
  if pml4 = 0 ∨ pages = 0 then []
  else destroyLoopPages pml4 ((va + 4096 * pages) % 2 ^ 64) pages va pages m

/-- Every page of the range is in the list. -/
def AllPages (va pages : Nat) (l : List Nat) : Prop := ∀ i, i < pages → va + 4096 * i ∈ l

/-! ## Ranges in front of the end -/

section

variable {attributes pml4 va pa pages virtualEnd : Nat} {m : Machine}

theorem AllPages.append {n : Nat} {l : List Nat} (hn : n ≤ pages)
    (h : AllPages (va + 4096 * n) (pages - n) l) : AllPages va pages (pagesFrom va n ++ l) := by
  intro i hi
  by_cases hin : i < n
  · exact List.mem_append_left l (List.mem_map.mpr ⟨i, List.mem_range.mpr hin, rfl⟩)
  · have hrest := h (i - n) (by omega)
    rw [show va + 4096 * n + 4096 * (i - n) = va + 4096 * i by omega] at hrest
    exact List.mem_append_right _ hrest

theorem flushLoop_complete : ∀ (fuel va pages : Nat), va + 4096 * pages < 2 ^ 64 → pages ≤ fuel →
    AllPages va pages (flushLoop (va + 4096 * pages) fuel va)
  | 0, va, pages, _, hfuel => fun i hi => absurd hi (by omega)
  | fuel + 1, va, pages, hend, hfuel => by
    intro i hi
    have hnext : (va + 4096) % 2 ^ 64 = va + 4096 := Nat.mod_eq_of_lt (by omega)
    have hsame : va + 4096 + 4096 * (pages - 1) = va + 4096 * pages := by omega
    have ih := flushLoop_complete fuel (va + 4096) (pages - 1) (by omega) (by omega)
    rw [hsame] at ih
    rw [flushLoop, if_pos (by omega), hnext]
    exact AllPages.append (n := 1) (by omega) ih i hi

/-- An iteration maps at least one page and no more than are left, whatever the tables hold. -/
theorem createChunk_count (attributes pml4 va pa : Nat) (m : Machine) (hpos : 0 < pages) :
    0 < (createChunk attributes pml4 (4096 * pages) va pa pages m).1 ∧
      (createChunk attributes pml4 (4096 * pages) va pa pages m).1 ≤ pages := by
  have hindex : ∀ x : Nat, x &&& 511 < 512 := fun x => Nat.and_lt_two_pow x (show 511 < 2 ^ 9 by decide)
  simp only [createChunk]
  split
  · rename_i hgb
    obtain ⟨hle, -, hn⟩ := clampCount_eq (4096 * pages / 0x40000000) (hindex (va >>> 30))
    have := hn hgb.2.2
    rw [pdptIndex]
    exact ⟨by omega, by omega⟩
  · simp only [createPd]
    split
    · rename_i hmb
      obtain ⟨hle, -, hn⟩ := clampCount_eq (4096 * pages / 0x200000) (hindex (va >>> 21))
      have := hn hmb.2
      rw [pdIndex]
      exact ⟨by omega, by omega⟩
    · obtain ⟨hle, -, hn⟩ := clampCount_eq pages (hindex (va >>> 12))
      exact ⟨hn hpos, hle⟩

theorem createLoop_complete : ∀ (fuel va pa pages : Nat) (m : Machine), va + 4096 * pages = virtualEnd →
    virtualEnd < 2 ^ 64 → pages ≤ fuel →
    AllPages va pages (createLoopPages attributes pml4 virtualEnd fuel va pa pages m)
  | 0, va, pa, pages, m, _, _, hfuel => fun i hi => absurd hi (by omega)
  | fuel + 1, va, pa, pages, m, hend, hlt, hfuel => by
    intro i hi
    have hsize : virtualEnd - va = 4096 * pages := by omega
    obtain ⟨hpos, hle⟩ := createChunk_count attributes pml4 va pa m (show 0 < pages by omega)
    rw [createLoopPages, if_pos (by omega), hsize]
    generalize createChunk attributes pml4 (4096 * pages) va pa pages m = c at hpos hle ⊢
    have hsub : subU64 pages c.1 = pages - c.1 := by
      rw [subU64]
      omega
    have hnext : (va + 4096 * c.1) % 2 ^ 64 = va + 4096 * c.1 := Nat.mod_eq_of_lt (by omega)
    simp only [hsub, hnext]
    exact AllPages.append hle (createLoop_complete fuel _ _ _ c.2 (by omega) hlt (by omega)) i hi

theorem destroyLoop_complete {base fin : Nat} (hpml4 : pml4 ≠ 0) : ∀ (fuel va pages v₀ : Nat) (m : Machine),
    Clearing base va pages v₀ fin → pages ≤ fuel → va + 4096 * pages = virtualEnd →
    WellFormed m (pml4 >>> 12) → GbOk m (pml4 >>> 12) → Covered (pml4 >>> 12) v₀ fin m →
    AllPages va pages (destroyLoopPages pml4 virtualEnd fuel va pages m)
  | 0, va, pages, v₀, m, _, hfuel, _, _, _, _ => fun i hi => absurd hi (by omega)
  | fuel + 1, va, pages, v₀, m, h, hfuel, hend, hwf, hgb, hcov => by
    intro i hi
    have hsize : virtualEnd - va = 4096 * pages := by omega
    have hpos : 0 < pages := by omega
    have hfin := h.fin_eq
    have hclear := destroyChunk_clears h hpos hwf hgb hcov
    have hout := destroyChunk_outcome h hpos hpml4 hwf hgb (le_of_eq hclear.1.failures)
    rw [destroyLoopPages, if_pos (by omega), hsize]
    generalize destroyChunk pml4 (4096 * pages) va pages m = c at hclear hout ⊢
    obtain ⟨count, m₁⟩ := c
    rcases hout with ⟨-, hnone, -⟩ | ⟨n, hn, hn0, hle, hun⟩
    · -- the first page is mapped
      obtain ⟨k, e, hw, -⟩ := hcov v₀ (le_refl _) (by omega)
      rw [hnone] at hw
      exact absurd hw (by simp)
    · obtain rfl : count = some n := hn
      have hva' := h.end_lt
      have hsub : subU64 pages n = pages - n := by
        rw [subU64]
        omega
      have hnext : (va + 4096 * n) % 2 ^ 64 = va + 4096 * n := Nat.mod_eq_of_lt (by omega)
      have hrest := hcov.rest hn0 (by omega) h.fin_le (hclear.2 n rfl) hun
      simp only [hsub, hnext]
      exact AllPages.append hle (destroyLoop_complete hpml4 fuel _ _ _ m₁ (h.advance hle) (by omega)
        (by omega) (hun.steps.wellFormed hwf) (hun.steps.gbOk hwf hgb) hrest) i hi

/-! ## Ranges that end with the address space -/

theorem flushPages_of_wrap (h : va + 4096 * pages = 2 ^ 64) : flushPages va pages = [] := by
  rw [flushPages, h]
  cases pages with
  | zero => rfl
  | succ n => exact if_neg (Nat.not_lt_zero va)

theorem createMappingPages_of_wrap (h : va + 4096 * pages = 2 ^ 64) :
    createMappingPages m va pa pages attributes pml4 = [] := by
  rw [createMappingPages]
  split
  · rfl
  · obtain ⟨n, rfl⟩ : ∃ n, pages = n + 1 := ⟨pages - 1, by omega⟩
    rw [h]
    exact if_neg (Nat.not_lt_zero va)

theorem destroyMappingPages_of_wrap (h : va + 4096 * pages = 2 ^ 64) :
    destroyMappingPages m va pages pml4 = [] := by
  rw [destroyMappingPages]
  split
  · rfl
  · obtain ⟨n, rfl⟩ : ∃ n, pages = n + 1 := ⟨pages - 1, by omega⟩
    rw [h]
    exact if_neg (Nat.not_lt_zero va)

/-- No page is in an empty list. -/
theorem allPages_iff {l : List Nat} (hpos : 0 < pages) (hnil : va + 4096 * pages = 2 ^ 64 → l = [])
    (hall : va + 4096 * pages ≠ 2 ^ 64 → AllPages va pages l) :
    AllPages va pages l ↔ va + 4096 * pages ≠ 2 ^ 64 := by
  refine ⟨fun h hend => ?_, hall⟩
  rw [hnil hend] at h
  exact absurd (h 0 hpos) List.not_mem_nil

/-- **The loops process every page of a range if and only if it does not end with the address space.**  The
tables that `create_mapping` finds make no difference; `destroy_mapping` finds the range mapped by whole
pages, as `vmalloc` has left it. -/
theorem loops_complete_iff (hrange : CanonicalRange va pages) :
    (AllPages va pages (flushPages va pages) ↔ va + 4096 * pages ≠ 2 ^ 64) ∧
    (∀ (m : Machine) (pa attributes pml4 : Nat), pml4 ≠ 0 →
      (AllPages va pages (createMappingPages m va pa pages attributes pml4) ↔ va + 4096 * pages ≠ 2 ^ 64)) ∧
    (∀ (m : Machine) (pml4 : Nat), pml4 ≠ 0 → WellFormed m (pml4 >>> 12) → GbOk m (pml4 >>> 12) →
      Covered (pml4 >>> 12) (pageOf va) (pageOf va + pages) m →
      (AllPages va pages (destroyMappingPages m va pages pml4) ↔ va + 4096 * pages ≠ 2 ^ 64)) := by
  have hpos := hrange.pos
  have hle := hrange.le
  refine ⟨allPages_iff hpos flushPages_of_wrap fun hend => ?_, fun m pa attributes pml4 hpml4 =>
    allPages_iff hpos createMappingPages_of_wrap fun hend => ?_, fun m pml4 hpml4 hwf hgb hcov =>
    allPages_iff hpos destroyMappingPages_of_wrap fun hend => ?_⟩
  · rw [flushPages, Nat.mod_eq_of_lt (by omega)]
    exact flushLoop_complete pages va pages (by omega) (le_refl _)
  · rw [createMappingPages, if_neg (by omega), Nat.mod_eq_of_lt (by omega)]
    exact createLoop_complete pages va pa pages m rfl (by omega) (le_refl _)
  · obtain ⟨base, hclear⟩ := hrange.clearing hend
    rw [destroyMappingPages, if_neg (by omega), Nat.mod_eq_of_lt (by omega)]
    exact destroyLoop_complete hpml4 pages va pages _ m hclear (le_refl _) rfl hwf hgb hcov

end

/-- Two pages at the bottom of the window at the top of the address space. -/
theorem loops_complete_two : AllPages 0xFFFFC00000000000 2 (flushPages 0xFFFFC00000000000 2) ∧
    ∀ m : Machine, AllPages 0xFFFFC00000000000 2 (createMappingPages m 0xFFFFC00000000000 0x400000 2 3 0x1000) := by
  have hrange : CanonicalRange 0xFFFFC00000000000 2 :=
    ⟨by decide, by decide, by decide, fun i hi => Or.inr (by omega)⟩
  exact ⟨(loops_complete_iff hrange).1.mpr (by decide),
    fun m => ((loops_complete_iff hrange).2.1 m 0x400000 3 0x1000 (by decide)).mpr (by decide)⟩

/-- **`va_alloc` hands out a range that ends with the address space**: the whole window, which is longer than
the rest of the kernel space. -/
theorem va_alloc_reaches_top : ¬ ∀ (kernelEnd : Nat) (s₀ s : VaState) (live : List VaRet),
    KernelEnds kernelEnd → Cold s₀ →
    Relation.ReflTransGen (fun x y => VaStep kernelEnd Limits.none x y ∧ RootsAlive y.1)
      (s₀, []) (s, live) →
    ∀ r ∈ live, 0xFFFFC00000000000 ≤ r.base →
      AllPages r.base r.pages (flushPages r.base r.pages) ∧
      (∀ (m : Machine) (pa attributes pml4 : Nat), pml4 ≠ 0 →
        AllPages r.base r.pages (createMappingPages m r.base pa r.pages attributes pml4)) ∧
      ∀ (m : Machine) (pml4 : Nat), pml4 ≠ 0 → WellFormed m (pml4 >>> 12) → GbOk m (pml4 >>> 12) →
        Covered (pml4 >>> 12) (pageOf r.base) (pageOf r.base + r.pages) m →
        AllPages r.base r.pages (destroyMappingPages m r.base r.pages pml4) := by
  intro hclaim
  obtain ⟨⟨s, live⟩, hplay, hend⟩ := exists_of_passes
    (p := fun x : VaState × List VaRet =>
      decide ((⟨0, 0xFFFFC00000000000, 2 ^ 34, 3⟩ : VaRet) ∈ x.2))
    (show passes _ (play 0xffff800000100000 { after := rootsAlive } [.alloc (2 ^ 34) 3] (coldState, [])) = true
      by decide +kernel)
  have hflush := (hclaim 0xffff800000100000 coldState s live ⟨by decide, by decide⟩ cold_coldState
    (play_run rootsAlive_spec (fun _ _ _ _ => trivial) (fun _ _ _ => trivial) hplay) _
    (of_decide_eq_true hend) (le_refl _)).1
  rw [flushPages_of_wrap (by decide)] at hflush
  exact absurd (hflush 0 (by decide)) List.not_mem_nil

end Dem64
