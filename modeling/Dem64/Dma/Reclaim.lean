import Dem64.Dma.World
import Dem64.Dma.Growth
import Dem64.Dma.Release
import Dem64.Paging.Region
import Dem64.Lib.Ends

/-!
# Metadata pages given back

At its end `free_dma` looks at all metadata pages but the first, from the last one down, and gives
back those whose counter is `dma_limit`.  A page in the middle is cut off together with all pages
behind it, which stay mapped but are lost; `reclaimLoop_spec` is about the case in which the pages
with that counter are the last ones.

The metadata pages are regions of one page in the arena of the DMA allocator, behind its window.
-/

set_option autoImplicit false

namespace Dem64

/-! ## The arena -/

/-- The first page of the window. -/
def dmaLo : Nat := pageOf dmaBase

/-- The arena: 1 GiB for the window, and as much for the metadata pages. -/
def dmaHi : Nat := dmaLo + 2 ^ 19

/-- The metadata page `k` and its frame. -/
def metaRegion (f : Nat → Nat) (k : Nat) : Region := ⟨dmaLo + 2 ^ 18 + k, 1, f k⟩

/-- The first `n` metadata pages. -/
def metaRegions (f : Nat → Nat) (n : Nat) : List Region := (List.range n).map (metaRegion f)

theorem metaRegions_succ (f : Nat → Nat) (n : Nat) :
    (metaRegion f n :: metaRegions f n).Perm (metaRegions f (n + 1)) := by
  rw [metaRegions, metaRegions, List.range_succ, List.map_append]
  exact (List.perm_append_singleton _ _).symm

/-- Pages of the arena have canonical addresses. -/
theorem dma_range {k n : Nat} (hpos : 1 ≤ n) (h : k + n ≤ 2 ^ 19) :
    CanonicalRange (dmaBase + 4096 * k) n ∧ pageOf (dmaBase + 4096 * k) = dmaLo + k ∧
      dmaBase + 4096 * k + 4096 * n < 2 ^ 64 := by
  rw [dmaLo, dmaBase]
  refine ⟨⟨by omega, hpos, by omega, fun i hi => Or.inr ⟨by omega, by omega⟩⟩, ?_, by omega⟩
  rw [pageOf, pageOf]
  omega

theorem addr_header (k : Nat) : (⟨k, 0⟩ : EntryPtr).addr = dmaBase + 4096 * (2 ^ 18 + k) := by
  rw [EntryPtr.addr, dmaPoolBase, dmaBase]
  simp only
  omega

/-! ## The loop -/

section

variable {base : Set Nat} {p : DmaPool} {ptrs : List EntryPtr} {m : Machine} {pml4 : Nat}
  {f : Nat → Nat} {as bs : List Region}

theorem DmaPool.nthHeader_spec (h : PoolInv p ptrs) : ∀ {j k : Nat}, k + j ≤ p.dmaMetadataPages →
    p.nthHeader j ⟨k, 0⟩ = some ⟨k + j, 0⟩
  | 0, _, _ => rfl
  | j + 1, k, hj => by
    have hnext := (h.headers k (by omega)).2
    rw [if_pos (by omega)] at hnext
    rw [DmaPool.nthHeader, DmaPool.get_eq (h.valid_header (by omega))]
    show (p.next ⟨k, 0⟩).bind _ = _
    rw [hnext, Option.bind_some, DmaPool.nthHeader_spec h (by omega)]
    congr 2
    omega

/-- The counter of page `j` says that the page is empty. -/
def DmaPool.Drops (p : DmaPool) (j : Nat) : Prop := (p.entry ⟨j, 0⟩).sizeInPages = 203

instance (p : DmaPool) (j : Nat) : Decidable (p.Drops j) := inferInstanceAs (Decidable (_ = _))

/-- What the loop leaves of the pool and of the arena. -/
structure Reclaimed (base : Set Nat) (pml4 : Nat) (p : DmaPool) (ptrs : List EntryPtr) (m : Machine)
    (f : Nat → Nat) (as bs : List Region) (r : DmaPool × Machine) : Prop where
  /-- The extents of the pages that are left. -/
  inv : PoolInv r.1 (ptrs.filter (·.page ≤ r.1.dmaMetadataPages))
  /-- Pages are given back, not taken. -/
  le : r.1.dmaMetadataPages ≤ p.dmaMetadataPages
  /-- Only pages with that counter are given back. -/
  dropped : ∀ i, r.1.dmaMetadataPages < i → i ≤ p.dmaMetadataPages → p.Drops i
  /-- Extents and counters are as they were. -/
  same : ∀ x, (r.1.entry x).status = (p.entry x).status ∧
    (r.1.entry x).sizeInPages = (p.entry x).sizeInPages
  /-- The pages are unmapped. -/
  withdrawn : Withdrawn (pml4 >>> 12)
    (Set.Ioc (dmaLo + 2 ^ 18 + r.1.dmaMetadataPages) (dmaLo + 2 ^ 18 + p.dmaMetadataPages)) m r.2
  /-- The arena has the pages that are left. -/
  arena : Arena (pml4 >>> 12) dmaLo dmaHi r.2 (metaRegions f (r.1.dmaMetadataPages + 1) ++ as)
  /-- Their frames are given back. -/
  stock : Stock base (pml4 >>> 12) r.2 (metaRegions f (r.1.dmaMetadataPages + 1) ++ bs)

/-- The last page is cut off and unmapped. -/
theorem dropPage_vfree (h : PoolInv p ptrs) (hpos : 0 < p.dmaMetadataPages) (hpml4 : pml4 ≠ 0)
    (hA : Arena (pml4 >>> 12) dmaLo dmaHi m (metaRegions f (p.dmaMetadataPages + 1) ++ as))
    (hS : Stock base (pml4 >>> 12) m (metaRegions f (p.dmaMetadataPages + 1) ++ bs)) :
    ∃ q m', Ends (fun n => p.dropPage n ⟨p.dmaMetadataPages, 0⟩) q ∧
      Ends (fun n => vfree n m (⟨p.dmaMetadataPages, 0⟩ : EntryPtr).addr 1 pml4) m' ∧
      q.dmaMetadataPages = p.dmaMetadataPages - 1 ∧
      PoolInv q (ptrs.filter (·.page < p.dmaMetadataPages)) ∧
      (∀ x, (q.entry x).status = (p.entry x).status ∧
        (q.entry x).sizeInPages = (p.entry x).sizeInPages) ∧
      Withdrawn (pml4 >>> 12) {dmaLo + 2 ^ 18 + p.dmaMetadataPages} m m' ∧
      Arena (pml4 >>> 12) dmaLo dmaHi m' (metaRegions f p.dmaMetadataPages ++ as) ∧
      Stock base (pml4 >>> 12) m' (metaRegions f p.dmaMetadataPages ++ bs) := by
  obtain ⟨q, N, hdrop, hinv, hM, hsame⟩ := DmaPool.dropPage_spec h hpos
  have hperm := (metaRegions_succ f p.dmaMetadataPages).symm
  have hA' := hA.perm (hperm.append_right as)
  have hS' := hS.perm (hperm.append_right bs)
  have hin := hA'.inside _ List.mem_cons_self
  have hlt : p.dmaMetadataPages < 2 ^ 18 := by
    have h2 : dmaLo + 2 ^ 18 + p.dmaMetadataPages + 1 ≤ dmaLo + 2 ^ 19 := hin.2
    omega
  obtain ⟨hrange, hpage, hend⟩ := dma_range (k := 2 ^ 18 + p.dmaMetadataPages) (le_refl 1) (by omega)
  rw [addr_header]
  obtain ⟨m', hv, hwith, hA₁, hS₁⟩ := vfree_one hA' hS' hpml4 rfl hrange
    (hpage.trans (Nat.add_assoc _ _ _).symm) (by omega)
  refine ⟨q, m', Ends.of_lt hdrop, Ends.of_lt (N := 1) hv, hM, hinv, hsame,
    hwith.mono fun v hv => ?_, hA₁, hS₁⟩
  obtain ⟨h1, h2⟩ := Set.mem_Ico.mp hv
  simp only [metaRegion] at h1 h2
  rw [Set.mem_singleton_iff]
  omega

/-- **The empty pages at the end are given back.** -/
theorem reclaimLoop_spec (hpml4 : pml4 ≠ 0) : ∀ {j : Nat} {p : DmaPool} {ptrs : List EntryPtr}
    {m : Machine}, PoolInv p ptrs → j ≤ p.dmaMetadataPages →
    (j < p.dmaMetadataPages → ∀ i, 1 ≤ i → i ≤ j → ¬ p.Drops i) →
    (∀ i, 1 ≤ i → i < j → p.Drops i → p.Drops (i + 1)) →
    Arena (pml4 >>> 12) dmaLo dmaHi m (metaRegions f (p.dmaMetadataPages + 1) ++ as) →
    Stock base (pml4 >>> 12) m (metaRegions f (p.dmaMetadataPages + 1) ++ bs) →
    ∃ r, Ends (fun n => reclaimLoop pml4 n j p m) r ∧ Reclaimed base pml4 p ptrs m f as bs r ∧
      ∀ i, 1 ≤ i → i ≤ j → i ≤ r.1.dmaMetadataPages → ¬ p.Drops i
  | 0, p, ptrs, m, h, _, _, _, hA, hS => by
    refine ⟨(p, m), Ends.const _, ⟨?_, Nat.le_refl _, fun i h1 h2 => absurd h1 (Nat.not_lt.mpr h2),
      fun _ => ⟨rfl, rfl⟩, Withdrawn.refl _ _ _, hA, hS⟩, fun i h1 h2 => by omega⟩
    rw [List.filter_eq_self.mpr fun x hx => by simpa using (h.slots x hx).2.2]
    exact h
  | j + 1, p, ptrs, m, h, hj, hstop, hsuf, hA, hS => by
    have hstep : ∀ n, reclaimLoop pml4 n (j + 1) p m =
        if p.Drops (j + 1) then (p.dropPage n ⟨j + 1, 0⟩).bind fun q =>
          (vfree n m (⟨j + 1, 0⟩ : EntryPtr).addr 1 pml4).bind fun m => reclaimLoop pml4 n j q m
        else reclaimLoop pml4 n j p m := by
      intro n
      rw [reclaimLoop, h.header]
      simp only [Option.bind_eq_bind, Option.bind_some]
      rw [DmaPool.nthHeader_spec h (by omega), Option.bind_some, Nat.zero_add,
        DmaPool.get_eq (h.valid_header hj), Option.bind_some, h.limit]
      exact if_congr Iff.rfl rfl rfl
    by_cases hd : p.Drops (j + 1)
    · -- pages are given back from the end only, so this is the last one
      have hlast : p.dmaMetadataPages = j + 1 := by
        by_contra hne
        exact hstop (by omega) (j + 1) (by omega) (Nat.le_refl _) hd
      obtain ⟨q, m', hq, hm', hM, hinv, hsame, hwith, hA', hS'⟩ :=
        dropPage_vfree h (by omega) hpml4 hA hS
      rw [hlast] at hq hm' hM hinv hA' hS'
      have hM' : q.dmaMetadataPages = j := hM
      have hdrops : ∀ i, q.Drops i ↔ p.Drops i := fun i => by
        rw [DmaPool.Drops, (hsame _).2, DmaPool.Drops]
      obtain ⟨r, hr, hrec, hnot⟩ := reclaimLoop_spec hpml4 (j := j) hinv (by omega)
        (fun hlt => absurd hlt (by omega))
        (fun i h1 h2 hdi => (hdrops _).mpr (hsuf i h1 (by omega) ((hdrops _).mp hdi)))
        (by rw [hM']; exact hA') (by rw [hM']; exact hS')
      refine ⟨r, (hq.bind (hm'.bind hr)).congr fun n => by rw [hstep, if_pos hd],
        ⟨?_, by have := hrec.le; omega, fun i h1 h2 => ?_, fun x => ?_, (hwith.trans hrec.withdrawn).mono ?_,
          hrec.arena, hrec.stock⟩, fun i h1 h2 h3 => ?_⟩
      · have hfilter : (ptrs.filter (·.page < j + 1)).filter (·.page ≤ r.1.dmaMetadataPages) =
            ptrs.filter (·.page ≤ r.1.dmaMetadataPages) := by
          rw [List.filter_filter]
          refine List.filter_congr fun x _ => ?_
          have := hrec.le
          simp only [Bool.and_eq_left_iff_imp, decide_eq_true_eq]
          omega
        rw [← hfilter]
        exact hrec.inv
      · rcases Nat.lt_or_eq_of_le h2 with hlt | rfl
        · exact (hdrops i).mp (hrec.dropped i h1 (by omega))
        · rw [hlast]
          exact hd
      · exact ⟨(hrec.same x).1.trans (hsame x).1, (hrec.same x).2.trans (hsame x).2⟩
      · intro v hv
        have := hrec.le
        rw [Set.mem_union, Set.mem_singleton_iff, Set.mem_Ioc] at hv
        rw [Set.mem_Ioc]
        omega
      · rcases Nat.lt_or_eq_of_le h2 with hlt | rfl
        · exact fun hdi => hnot i h1 (by omega) h3 ((hdrops i).mpr hdi)
        · have := hrec.le
          omega
    · -- no page further down is empty either
      have hnone : ∀ i, 1 ≤ i → i ≤ j → ¬ p.Drops i := by
        intro i h1 h2 hdi
        have hup : ∀ d, i + d ≤ j + 1 → p.Drops (i + d) := by
          intro d
          induction d with
          | zero => exact fun _ => hdi
          | succ d ih => exact fun hle => hsuf (i + d) (by omega) (by omega) (ih (by omega))
        have htop := hup (j + 1 - i) (by omega)
        rw [Nat.add_sub_cancel' (by omega)] at htop
        exact hd htop
      obtain ⟨r, hr, hrec, hnot⟩ := reclaimLoop_spec hpml4 (j := j) h (by omega)
        (fun _ => hnone) (fun i h1 h2 => hsuf i h1 (by omega)) hA hS
      refine ⟨r, hr.congr fun n => by rw [hstep, if_neg hd], hrec, fun i h1 h2 h3 => ?_⟩
      rcases Nat.lt_or_eq_of_le h2 with hlt | rfl
      · exact hnot i h1 (by omega) h3
      · exact hd

end

end Dem64
