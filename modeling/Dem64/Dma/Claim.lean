import Dem64.Dma.World
import Dem64.Dma.Growth

/-!
# What a call takes from the pool

The parts of `allocate_dma` put together, for a pool that has extents: the search is followed by the
reuse of what it has found, or by a new extent in a page with entries left, or by one in a new page.  When
frames are put behind the extents, the pool stays as it is.
-/

set_option autoImplicit false

namespace Dem64

open DmaPool

variable {pml4 n pages size : Nat} {fresh : EntryPtr → DmaEntry} {w w' : DmaWorld}
  {ptrs pre own rest : List EntryPtr} {s : Search}

/-- The first page is there already. -/
theorem ensureHeader_eq {x : EntryPtr} (h : w.pool.dmaHeader = some x) :
    ensureHeader pml4 n fresh w = some (true, w) := by
  rw [ensureHeader, if_neg (by rw [h]; exact Option.some_ne_none x)]
  rfl

/-- A store changes nothing but bytes. -/
theorem storeBytes_rest {l : List (BitVec 8)} {va : Nat} (h : DmaWorld.storeBytes pml4 l va w = some w') :
    w' = { w with bytes := w'.bytes } := by
  induction l generalizing va w with
  | nil =>
    cases h
    rfl
  | cons b l ih =>
    obtain ⟨a, -, h⟩ := Option.bind_eq_some_iff.mp h
    exact (ih h).trans rfl

/-- Frames are put behind the extents of a claim, at its address. -/
theorem backClaim_ret {c : Claim} {r : DmaRet × DmaWorld} (h : backClaim pml4 w pages c = some r) :
    r.2.pool = w.pool ∧ (r.1.status = 0 ↔ (allocFrame w.machine.frames pages).1.attr = 0) ∧
      (r.1.status = 0 → r.1.virtualAddress = c.base) := by
  rw [backClaim] at h
  dsimp only at h
  split at h
  · rename_i hattr
    cases h
    exact ⟨rfl, iff_of_false Nat.one_ne_zero hattr, fun hs => absurd hs Nat.one_ne_zero⟩
  · rename_i hattr
    obtain ⟨w₁, hw, h⟩ := Option.bind_eq_some_iff.mp h
    cases h
    exact ⟨(congrArg DmaWorld.pool (storeBytes_rest hw)).trans rfl, iff_of_true rfl (not_not.mp hattr), fun _ => rfl⟩

/-- The call is the choice of the extents, followed by that of the frames. -/
theorem allocateDma_eq {x : EntryPtr} (h : w.pool.dmaHeader = some x) : allocateDma pml4 n fresh w size =
    (claimExtents pml4 n fresh w (dmaPages size)).bind fun cw =>
      match cw.1 with
      | none => some ({ status := 1, sizeInPages := dmaPages size }, [], cw.2)
      | some c => (backClaim pml4 cw.2 (dmaPages size) c).map fun r => (r.1, c.extents, r.2) := by
  rw [allocateDma, ensureHeader_eq h]
  simp only [Option.bind_eq_bind, Option.bind_some, Bool.true_eq_false, if_false]
  congr 1
  funext cw
  rcases cw with ⟨c, w⟩
  cases c with
  | none => rfl
  | some c => exact Option.map_eq_bind.symm

/-- The choice starts with the search. -/
theorem claimExtents_eq (h : w.pool.dmaEntries ≠ 0) : claimExtents pml4 n fresh w pages =
    (w.pool.search n pages).bind fun s =>
      if s.freePages < pages then growExtents pml4 n fresh w pages s
      else (w.pool.reuseClaim n pages s).map fun r => (some r.1, { w with pool := r.2 }) := by
  rw [claimExtents, if_neg h]
  simp only [Option.bind_eq_bind]
  congr 1
  funext s
  split
  · rfl
  · exact Option.map_eq_bind.symm

/-- A new extent goes where the search for a page with entries left ends. -/
theorem growExtents_eq : growExtents pml4 n fresh w pages s =
    (w.pool.room n).bind fun room =>
      match room with
      | .page header =>
        (w.pool.growClaim n header pages s).map fun r => (some r.1, { w with pool := r.2 })
      | .full last => (vmalloc n w.machine w.pool.dmaTop 1 0x03 pml4).bind fun am =>
        if am.1.attr ≠ 0 then some (none, { w with machine := am.2 })
        else (w.pool.addPage last fresh).bind fun hp =>
          (hp.2.growClaim n hp.1 pages s).map fun r => (some r.1, { w with machine := am.2, pool := r.2 }) := by
  rw [growExtents]
  simp only [Option.bind_eq_bind]
  congr 1
  funext room
  cases room with
  | page header => exact Option.map_eq_bind.symm
  | full last =>
    dsimp only
    congr 1
    funext am
    split
    · rfl
    · congr 1
      funext hp
      exact Option.map_eq_bind.symm

/-- The extents that were found are taken. -/
theorem claimExtents_reuse (h : PoolInv w.pool ptrs) (hpos : 0 < pages)
    (hs : Ends (fun n => w.pool.search n pages) s) (hf : Found w.pool ptrs pages s pre own rest)
    (henough : ¬ s.freePages < pages) : Ends (fun n => claimExtents pml4 n fresh w pages)
      (some ⟨dmaBase + 4096 * w.pool.total pre, own.head?, own⟩,
        { w with pool := w.pool.mark own .used }) := by
  refine hs.andThen (fun n => claimExtents_eq h.entries) ?_
  simp only [if_neg henough]
  exact (reuseClaim_spec h hf hpos henough).1.map fun r => (some r.1, { w with pool := r.2 })

/-- A new extent is taken. -/
theorem claimExtents_grow {r : Option Claim × DmaWorld} (h : PoolShape w.pool ptrs)
    (hs : Ends (fun n => w.pool.search n pages) s) (hless : s.freePages < pages)
    (hgrow : Ends (fun n => growExtents pml4 n fresh w pages s) r) :
    Ends (fun n => claimExtents pml4 n fresh w pages) r := by
  refine hs.andThen (fun n => claimExtents_eq h.entries) ?_
  simp only [if_pos hless]
  exact hgrow

/-- A new metadata page is not to be had. -/
theorem growExtents_fails {last : EntryPtr} {d : MemoryDescriptor} {m : Machine}
    (hroom : Ends (fun n => w.pool.room n) (.full last))
    (hv : Ends (fun n => vmalloc n w.machine w.pool.dmaTop 1 0x03 pml4) (d, m)) (hd : d.attr ≠ 0) :
    Ends (fun n => growExtents pml4 n fresh w pages s) (none, { w with machine := m }) := by
  refine hroom.andThen (fun n => growExtents_eq) (hv.andThen (fun n => rfl) ?_)
  simp only [if_pos hd]
  exact Ends.const _

section

variable {p₁ q : DmaPool} {header y : EntryPtr} {j : Nat} (h : PoolShape w.pool ptrs)
  (hf : Found w.pool ptrs pages s pre own rest) (hless : s.freePages < pages)
  (hg : Grown w.pool ptrs y (pages - s.freePages) j q)

include h hf hless hg

/-- The new extent is in a page with entries left. -/
theorem growExtents_page (hroom : Ends (fun n => w.pool.room n) (.page header))
    (hcarve : w.pool.carve header (pages - s.freePages) = some (y, q)) :
    Ends (fun n => growExtents pml4 n fresh w pages s)
      (some ⟨dmaBase + 4096 * w.pool.total pre, (own ++ [y]).head?, own ++ [y]⟩,
        { w with pool := q.mark own .used }) := by
  refine hroom.andThen (fun n => growExtents_eq) ?_
  exact (growClaim_spec h hf hless hcarve hg).1.map fun r => (some r.1, { w with pool := r.2 })

/-- The new extent is in a new page. -/
theorem growExtents_full {last : EntryPtr} {d : MemoryDescriptor} {m : Machine}
    (hroom : Ends (fun n => w.pool.room n) (.full last))
    (hv : Ends (fun n => vmalloc n w.machine w.pool.dmaTop 1 0x03 pml4) (d, m)) (hd : d.attr = 0)
    (hadd : w.pool.addPage last fresh = some (header, p₁))
    (hcarve : p₁.carve header (pages - s.freePages) = some (y, q)) :
    Ends (fun n => growExtents pml4 n fresh w pages s)
      (some ⟨dmaBase + 4096 * w.pool.total pre, (own ++ [y]).head?, own ++ [y]⟩,
        { w with machine := m, pool := q.mark own .used }) := by
  refine hroom.andThen (fun n => growExtents_eq) (hv.andThen (fun n => rfl) ?_)
  simp only [hd, ne_eq, not_true_eq_false, if_false, hadd, Option.bind_some]
  exact (growClaim_spec h hf hless hcarve hg).1.map fun r => (some r.1, { w with machine := m, pool := r.2 })

end

end Dem64
