import Dem64.Memory.Bitmap
import Dem64.Lib.Ledger
import Dem64.Lib.Run
import Mathlib.Order.Interval.Set.Basic

/-!
# The frame allocator

`alloc.c` hands out runs of physical pages from the bitmap.  `alloc_frame` scans upwards from the
hint `former_count` for a run of free pages, marks it and moves the hint behind it; `free_frame`
clears a run and pulls the hint back if the run starts below it.

`scan_spec` says what the scan finds, `allocFrame_cases` and `freeFrame_used` what the two
functions do to the used bits, and `frame_ownership` what follows over a whole run: the live
allocations form a `Ledger` over the pages that were used to begin with.

The spin lock around both functions is not modelled: a run is a sequence of calls, each of which
holds the lock from its first access of the bitmap to its last.
-/

set_option autoImplicit false

namespace Dem64

/-- `EFI_MEMORY_DESCRIPTOR`, as the allocators fill it. -/
structure MemoryDescriptor where
  /-- Physical address of the first page. -/
  physicalStart : Nat := 0
  /-- Virtual address of the first page. -/
  virtualStart : Nat := 0
  /-- Length in pages. -/
  numberOfPages : Nat := 0
  /-- For an allocator: 0 is success, 1 not enough memory, 2 an invalid parameter. -/
  attr : Nat := 0
deriving DecidableEq, Repr

/-- The globals of `alloc.c`.  The bitmap is memory of the kernel and has one bit for each page of
physical memory, so that it is at most `2^49` bytes long: that is one bit for each page with a
64-bit physical address, and already more than the 48-bit virtual address space can hold. -/
structure FrameState where
  /-- The bytes at `bitmap_base`. -/
  bitmap : Bitmap
  /-- How many of them are the bitmap. -/
  bitmapSize : Nat
  /-- Every page of the bitmap has a 64-bit physical address. -/
  bitmapSize_le : bitmapSize ≤ 2 ^ 49
  /-- Where the next scan starts. -/
  formerCount : Nat

/-- `while (check_byte(..) == 1) { count++; if ((count>>3) >= bitmapSize) return error; }`.
The first argument bounds the iterations; `8 * bitmapSize` of them reach the end of the bitmap. -/
def skipUsed (s : FrameState) : Nat → Nat → Option Nat
  | 0, _ => none
  | n + 1, count =>
    if used s.bitmap count then
      if (count + 1) >>> 3 ≥ s.bitmapSize then none else skipUsed s n (count + 1)
    else some count

/-- The scanning loop of `alloc_frame`.  `none` is the return with `Attribute = 1`; otherwise the
result is `count_tar` and `count`.  The first argument bounds the iterations: each of them moves
`count` up, so `8 * bitmapSize + 1` are enough. -/
def scan (s : FrameState) (pageCount : Nat) : Nat → Nat → Nat → Nat → Option (Nat × Nat)
  | 0, _, _, _ => none
  | n + 1, count, countTar, matchCount =>
    if matchCount < pageCount then
      if count >>> 3 ≥ s.bitmapSize then none
      else if used s.bitmap count then
        match skipUsed s (8 * s.bitmapSize) count with
        | none => none
        | some c => scan s pageCount n c c 0
      else scan s pageCount n (count + 1) countTar (matchCount + 1)
    else some (countTar, count)

/-- `alloc_frame`. -/
def allocFrame (s : FrameState) (pageCount : Nat) : MemoryDescriptor × FrameState :=
  if pageCount = 0 then ({ attr := 2 }, s)
  else
    match scan s pageCount (8 * s.bitmapSize + 1) s.formerCount s.formerCount 0 with
    | none => ({ attr := 1 }, s)
    | some (countTar, count) =>
      ({ physicalStart := (countTar <<< 12) % 2 ^ 64, virtualStart := (countTar <<< 12) % 2 ^ 64,
         numberOfPages := pageCount, attr := 0 },
       { s with formerCount := count, bitmap := writeRange true s.bitmap countTar pageCount })

/-- `free_frame`. -/
def freeFrame (s : FrameState) (frame : MemoryDescriptor) : FrameState :=
  let count := frame.physicalStart >>> 12
  { s with
    formerCount := if count < s.formerCount then count else s.formerCount
    bitmap := writeRange false s.bitmap count frame.numberOfPages }

/-! ## The scan -/

theorem skipUsed_spec {s : FrameState} : ∀ {n count c : Nat}, skipUsed s n count = some c →
    used s.bitmap c = false ∧ count ≤ c ∧ (count / 8 < s.bitmapSize → c / 8 < s.bitmapSize)
  | 0, _, _, h => by simp [skipUsed] at h
  | n + 1, count, c, h => by
    rw [skipUsed, shiftRight_three] at h
    split at h
    · split at h
      · exact absurd h (by simp)
      · rename_i hlt
        obtain ⟨h1, h2, h3⟩ := skipUsed_spec h
        exact ⟨h1, by omega, fun _ => h3 (by omega)⟩
    · rename_i hfree
      rw [Option.some_inj] at h
      subst h
      exact ⟨by simpa using hfree, Nat.le_refl _, id⟩

/-- **What the scan finds**: a run of `pageCount` free pages inside the bitmap, with `count` on the
page behind it.  The loop keeps `[countTar, count)` free and `matchCount` pages long. -/
theorem scan_spec {s : FrameState} {pageCount : Nat} :
    ∀ {n count countTar matchCount tar c : Nat},
      countTar + matchCount = count → matchCount ≤ pageCount →
      (∀ p, countTar ≤ p → p < count → used s.bitmap p = false) →
      (0 < matchCount → count ≤ 8 * s.bitmapSize) →
      scan s pageCount n count countTar matchCount = some (tar, c) →
      c = tar + pageCount ∧ (0 < pageCount → c ≤ 8 * s.bitmapSize) ∧
        ∀ p, tar ≤ p → p < tar + pageCount → used s.bitmap p = false
  | 0, _, _, _, _, _, _, _, _, _, h => by simp [scan] at h
  | n + 1, count, countTar, matchCount, tar, c, hsum, hle, hfree, hin, h => by
    rw [scan, shiftRight_three] at h
    split at h
    · split at h
      · exact absurd h (by simp)
      · rename_i hlt hb
        split at h
        · split at h
          · exact absurd h (by simp)
          · exact scan_spec rfl (Nat.zero_le _) (by omega) (by omega) h
        · rename_i hnu
          refine scan_spec (by omega) (by omega) (fun p h1 h2 => ?_) (by omega) h
          rcases Nat.lt_succ_iff_lt_or_eq.mp h2 with h3 | h3
          · exact hfree p h1 h3
          · subst h3; simpa using hnu
    · simp only [Option.some_inj, Prod.mk.injEq] at h
      obtain ⟨rfl, rfl⟩ := h
      have hm : matchCount = pageCount := by omega
      subst hm
      exact ⟨hsum.symm, hin, fun p h1 h2 => hfree p h1 (by omega)⟩

/-! ## What the two functions do -/

/-- The pages of a descriptor. -/
def MemoryDescriptor.pages (d : MemoryDescriptor) : Set Nat :=
  Set.Ico (d.physicalStart / 4096) (d.physicalStart / 4096 + d.numberOfPages)

/-- The pages marked used. -/
def FrameState.usedPages (s : FrameState) : Set Nat := {p | used s.bitmap p = true}

theorem shiftLeft_twelve_div {p : Nat} (h : p < 2 ^ 52) : (p <<< 12) % 2 ^ 64 / 4096 = p := by
  rw [Nat.shiftLeft_eq, Nat.mod_eq_of_lt (by omega)]
  omega

/-- What a successful `alloc_frame(n)` does: the descriptor names `n` pages of the bitmap that were
all free, and they are marked used. -/
structure Allocated (s : FrameState) (n : Nat) (d : MemoryDescriptor) (s' : FrameState) : Prop where
  /-- The descriptor has the length asked for. -/
  length : d.numberOfPages = n
  /-- An empty run is never handed out. -/
  pos : 0 < n
  /-- The address is that of a page. -/
  aligned : d.physicalStart % 4096 = 0
  /-- The address fits 64 bits. -/
  lt : d.physicalStart < 2 ^ 64
  /-- The run lies inside the bitmap. -/
  inside : d.pages ⊆ Set.Iio (8 * s.bitmapSize)
  /-- The run was free. -/
  free : Disjoint d.pages s.usedPages
  /-- The run is marked and nothing else. -/
  marks : ∀ p, p ∈ s'.usedPages ↔ p ∈ d.pages ∨ p ∈ s.usedPages

/-- **`alloc_frame` either fails, with address 0, and changes nothing, or marks a run of pages of
the bitmap that were all free.** -/
theorem allocFrame_cases (s : FrameState) (n : Nat) :
    ((allocFrame s n).1.attr ≠ 0 ∧ (allocFrame s n).1.physicalStart = 0 ∧
      (allocFrame s n).2 = s) ∨
    ((allocFrame s n).1.attr = 0 ∧ Allocated s n (allocFrame s n).1 (allocFrame s n).2) := by
  rw [allocFrame]
  split
  · exact Or.inl ⟨by simp, rfl, rfl⟩
  · rename_i hn
    split
    · exact Or.inl ⟨by simp, rfl, rfl⟩
    · rename_i tar c hscan
      obtain ⟨hc, hin, hfree⟩ := scan_spec (Nat.add_zero _) (Nat.zero_le _) (by omega) (by omega)
        hscan
      have hpos : 0 < n := Nat.pos_of_ne_zero hn
      have hend : tar + n ≤ 8 * s.bitmapSize := hc ▸ hin hpos
      have htar : (tar <<< 12) % 2 ^ 64 / 4096 = tar :=
        shiftLeft_twelve_div (by have := s.bitmapSize_le; omega)
      refine Or.inr ⟨rfl, rfl, hpos, ?_, Nat.mod_lt _ (by decide), fun p hp => ?_, ?_, fun p => ?_⟩
      · simp only [Nat.shiftLeft_eq]
        omega
      · simp only [MemoryDescriptor.pages, htar, Set.mem_Ico, Set.mem_Iio] at hp ⊢
        omega
      · rw [Set.disjoint_left]
        intro p hp hu
        simp only [MemoryDescriptor.pages, htar, Set.mem_Ico] at hp
        rw [FrameState.usedPages, Set.mem_ofPred_eq, hfree p hp.1 hp.2] at hu
        exact Bool.noConfusion hu
      · simp only [FrameState.usedPages, MemoryDescriptor.pages, htar, Set.mem_ofPred_eq,
          Set.mem_Ico, used_writeRange]
        split <;> simp [*]

/-- **`free_frame` clears the pages of its descriptor and no other.** -/
theorem freeFrame_used (s : FrameState) (d : MemoryDescriptor) (p : Nat) :
    p ∈ (freeFrame s d).usedPages ↔ p ∈ s.usedPages ∧ p ∉ d.pages := by
  simp only [FrameState.usedPages, MemoryDescriptor.pages, freeFrame, Set.mem_ofPred_eq,
    Set.mem_Ico, used_writeRange, Nat.shiftRight_eq_div_pow, Nat.reducePow]
  split <;> simp [*]

/-! ## Runs -/

/-- One call of a run: the state of the allocator and the descriptors handed out and not yet given
back. -/
inductive FrameStep : FrameState × List MemoryDescriptor → FrameState × List MemoryDescriptor → Prop
  /-- A successful allocation. -/
  | alloc {s : FrameState} {live : List MemoryDescriptor} (n : Nat)
      (h : (allocFrame s n).1.attr = 0) :
      FrameStep (s, live) ((allocFrame s n).2, (allocFrame s n).1 :: live)
  /-- A refused allocation. -/
  | refuse {s : FrameState} {live : List MemoryDescriptor} (n : Nat)
      (h : (allocFrame s n).1.attr ≠ 0) :
      FrameStep (s, live) ((allocFrame s n).2, live)
  /-- A live descriptor is given back. -/
  | free {s : FrameState} {live : List MemoryDescriptor} (d : MemoryDescriptor) (h : d ∈ live) :
      FrameStep (s, live) (freeFrame s d, live.erase d)

/-- The states a run of calls can reach from `s₀`, with nothing handed out to begin with. -/
def FrameRun (s₀ s : FrameState) (live : List MemoryDescriptor) : Prop :=
  Relation.ReflTransGen FrameStep (s₀, []) (s, live)

/-- One call keeps the ledger. -/
theorem FrameStep.ledger {base : Set Nat} {x y : FrameState × List MemoryDescriptor}
    (h : FrameStep x y)
    (hx : Ledger MemoryDescriptor.pages base x.1.usedPages x.2) :
    Ledger MemoryDescriptor.pages base y.1.usedPages y.2 := by
  cases h with
  | @alloc s live n h =>
    rcases allocFrame_cases s n with ⟨h0, -⟩ | ⟨-, hok⟩
    · exact absurd h h0
    · exact hx.acquire hok.free hok.marks
  | @refuse s live n h =>
    rcases allocFrame_cases s n with ⟨-, -, hs⟩ | ⟨h0, -⟩
    · simpa only [hs] using hx
    · exact absurd h0 h
  | @free s live d h => exact hx.release h (freeFrame_used s d)

/-- **Frame ownership.**  However calls of `alloc_frame` and `free_frame` are interleaved, and
whatever the bitmap and the hint were to begin with, the pages of the live allocations are disjoint
from each other and from the pages used at the start, and the used bits are exactly those two. -/
theorem frame_ownership {s₀ s : FrameState} {live : List MemoryDescriptor}
    (h : FrameRun s₀ s live) :
    live.Pairwise (fun d e => Disjoint d.pages e.pages) ∧
      (∀ d ∈ live, Disjoint d.pages s₀.usedPages) ∧
      s.usedPages = s₀.usedPages ∪ ⋃ d ∈ live, d.pages := by
  have hl : Ledger MemoryDescriptor.pages s₀.usedPages s.usedPages live :=
    Relation.ReflTransGen.invariant
      (P := fun x => Ledger MemoryDescriptor.pages s₀.usedPages x.1.usedPages x.2)
      (fun _ _ hstep hx => hstep.ledger hx) h (Ledger.empty _ _)
  refine ⟨hl.pairwise, hl.fresh, Set.ext fun p => ?_⟩
  rw [hl.mem_used]
  simp

/-- 64 pages, the first two of them used. -/
def smallFrames : FrameState where
  bitmap := fun i => if i = 0 then 0xC0 else 0
  bitmapSize := 8
  bitmapSize_le := by decide
  formerCount := 2

/-- Nine pages are handed out, then two, and the nine are given back. -/
theorem frame_ownership_nine_two :
    (freeFrame (allocFrame (allocFrame smallFrames 9).2 2).2 (allocFrame smallFrames 9).1).usedPages =
      smallFrames.usedPages ∪
        ⋃ d ∈ [(allocFrame (allocFrame smallFrames 9).2 2).1], d.pages := by
  have hrun : FrameRun smallFrames
      (freeFrame (allocFrame (allocFrame smallFrames 9).2 2).2 (allocFrame smallFrames 9).1)
      [(allocFrame (allocFrame smallFrames 9).2 2).1] :=
    ((Relation.ReflTransGen.single (FrameStep.alloc 9 (by decide))).tail
      (FrameStep.alloc 2 (by decide))).tail (FrameStep.free (allocFrame smallFrames 9).1 (by simp))
  exact (frame_ownership hrun).2.2

end Dem64
