import Dem64.Memory.E820
import Mathlib.Order.Interval.Finset.Nat
import Mathlib.Data.Nat.Count

/-!
# What `allocator_init` leaves, and which bytes it touches

The descriptors of the memory map come in any order, but no two of them have a page in common, so the last
word about a page is the only one: a page is free if and only if its descriptor is usable memory and it is no
page of the kernel, and `allocator_usable_pages` is the number of pages of the usable descriptors
(`allocator_init_classifies`).

The routine that writes a run of bits ends with a store to the byte behind the last whole one.  The store
changes nothing there, but for a run that ends with the bitmap it is a store to the byte behind the bitmap
(`bitmap_bounds_iff`).
-/

set_option autoImplicit false

namespace Dem64

open ByteBits

/-! ## The pages that are counted -/

/-- The bits of a byte that are clear, as the last loop of `allocator_init` counts them. -/
def freeBits (value : BitVec 8) : Nat :=
  (List.range 8).countP fun bit => value &&& (1#8 <<< bit) == 0#8

/-- The bitmap when all descriptors are marked. -/
def mapBitmap (memory : Bitmap) (memoryMap : List MapEntry) (bitmapSize : Nat) : Bitmap :=
  memoryMap.foldl markEntry fun i => if i < bitmapSize then 0xff#8 else memory i

/-- `allocator_usable_pages`. -/
def allocatorUsablePages (memory : Bitmap) (memoryMap : List MapEntry) (bitmapSize : Nat) : Nat :=
  ((List.range bitmapSize).map fun i => freeBits (mapBitmap memory memoryMap bitmapSize i)).sum

/-- The pages of a descriptor. -/
def MapEntry.pages (d : MapEntry) : Set Nat := { p | d.covers p }

/-- Usable memory that does not start below 1 MiB. -/
def MapEntry.Usable (d : MapEntry) : Prop := d.type = efiConventionalMemory ∧ 0x100000 ≤ d.physicalStart

instance (d : MapEntry) : Decidable d.Usable := inferInstanceAs (Decidable (_ ∧ _))

theorem MapEntry.marks_eq_false_iff {d : MapEntry} : d.marks = false ↔ d.Usable := by
  rw [MapEntry.marks, MapEntry.Usable]
  simp

theorem freeBits_eq (b : BitVec 8) : freeBits b = Nat.count (fun k => b.getMsbD k = false) 8 := by
  revert b
  decide +kernel

/-- The loop counts the free pages of the bitmap. -/
theorem sum_freeBits (bm : Bitmap) (n : Nat) :
    ((List.range n).map fun i => freeBits (bm i)).sum = Nat.count (fun p => used bm p = false) (8 * n) := by
  induction n with
  | zero => rfl
  | succ n ih =>
    have hbyte : ∀ k, k < 8 → used bm (8 * n + k) = (bm n).getMsbD k := by
      intro k hk
      rw [used_eq_bitAt, bitAt, Nat.mul_add_div (by decide), Nat.div_eq_of_lt hk, Nat.add_zero,
        Nat.mul_add_mod, Nat.mod_eq_of_lt hk]
    rw [List.range_succ, List.map_append, List.sum_append, ih, Nat.mul_succ, Nat.count_add, List.map_singleton,
      List.sum_singleton, freeBits_eq, Nat.count_eq_card_filter_range _ 8, Nat.count_eq_card_filter_range _ 8]
    congr 2
    apply Finset.filter_congr
    intro k hk
    rw [hbyte k (Finset.mem_range.mp hk)]

section

variable {memory : Bitmap} {memoryMap : List MapEntry} {kernelStart kernelEnd bitmapSize p : Nat}

/-- Before the kernel is marked, exactly the pages of the usable descriptors are free. -/
theorem used_mapBitmap (hdisj : memoryMap.Pairwise fun a b => Disjoint a.pages b.pages)
    (hp : p < 8 * bitmapSize) :
    used (mapBitmap memory memoryMap bitmapSize) p = false ↔ ∃ d ∈ memoryMap, d.Usable ∧ p ∈ d.pages := by
  have hinit : used (fun i => if i < bitmapSize then 0xff#8 else memory i) p = true := by
    have hff : ∀ j, j < 8 → (0xff#8).getMsbD j = true := by decide
    rw [used_eq_bitAt, bitAt, if_pos (by omega)]
    exact hff _ (Nat.mod_lt _ (by decide))
  by_cases hex : ∃ d ∈ memoryMap, d.covers p
  · -- the descriptor of the page decides, because it is the only one
    obtain ⟨d, hd, hc⟩ := hex
    have hsymm : Std.Symm fun a b : MapEntry => Disjoint a.pages b.pages := ⟨fun _ _ h => h.symm⟩
    have honly : ∀ d' ∈ memoryMap, d'.covers p → d' = d := by
      intro d' hd' hc'
      by_contra hne
      exact Set.disjoint_left.mp (hdisj.forall hd' hd hne) hc' hc
    have hmarks := (@used_foldl_markEntry p d.marks memoryMap
      (fun i => if i < bitmapSize then 0xff#8 else memory i)
      fun d' hd' hc' => by rw [honly d' hd' hc']).1 ⟨d, hd, hc⟩
    rw [mapBitmap, hmarks, MapEntry.marks_eq_false_iff]
    constructor
    · exact fun hu => ⟨d, hd, hu, hc⟩
    · rintro ⟨d', hd', hu, hc'⟩
      rwa [← honly d' hd' hc']
  · have hkeep := (@used_foldl_markEntry p true memoryMap
      (fun i => if i < bitmapSize then 0xff#8 else memory i)
      fun d hd hc => absurd ⟨d, hd, hc⟩ hex).2 fun d hd hc => hex ⟨d, hd, hc⟩
    rw [mapBitmap, hkeep, hinit]
    refine iff_of_false (by simp) ?_
    rintro ⟨d, hd, -, hc⟩
    exact hex ⟨d, hd, hc⟩

/-- The pages of disjoint descriptors, counted. -/
theorem card_pages {l : List MapEntry} {n : Nat} (hdisj : l.Pairwise fun a b => Disjoint a.pages b.pages)
    (hin : ∀ d ∈ l, (d.physicalStart >>> 12) + d.numberOfPages ≤ n) :
    ((Finset.range n).filter fun p => ∃ d ∈ l, d.Usable ∧ d.covers p).card =
      ((l.filter fun d => d.Usable).map MapEntry.numberOfPages).sum := by
  induction l with
  | nil => simp
  | cons d l ih =>
    obtain ⟨hd, hl⟩ := List.pairwise_cons.mp hdisj
    have ih := ih hl fun d' hd' => hin d' (List.mem_cons_of_mem d hd')
    have hle := hin d List.mem_cons_self
    by_cases hu : d.Usable
    · have hown : (Finset.range n).filter (fun p => d.covers p) =
          Finset.Ico (d.physicalStart >>> 12) ((d.physicalStart >>> 12) + d.numberOfPages) := by
        ext p
        rw [Finset.mem_filter, Finset.mem_range, Finset.mem_Ico]
        constructor
        · exact fun h => h.2
        · exact fun h => ⟨h.2.trans_le hle, h⟩
      have hsplit : (Finset.range n).filter (fun p => ∃ d' ∈ d :: l, d'.Usable ∧ d'.covers p) =
          (Finset.range n).filter (fun p => d.covers p) ∪
            (Finset.range n).filter fun p => ∃ d' ∈ l, d'.Usable ∧ d'.covers p := by
        ext p
        simp [hu, and_or_left]
      rw [hsplit, Finset.card_union_of_disjoint, ih, hown, Nat.card_Ico, Nat.add_sub_cancel_left,
        List.filter_cons_of_pos (by simpa using hu), List.map_cons, List.sum_cons]
      rw [Finset.disjoint_left]
      intro p hp hp'
      obtain ⟨-, d', hd', -, hc⟩ := Finset.mem_filter.mp hp'
      exact Set.disjoint_left.mp (hd d' hd') (Finset.mem_filter.mp hp).2 hc
    · rw [List.filter_cons_of_neg (by simpa using hu), ← ih]
      congr 1
      apply Finset.filter_congr
      intro p _
      simp [hu]

/-- **`allocator_init` classifies every page.**  If no two descriptors have a page in common and the
descriptors are inside the bitmap, a page of the bitmap is free if and only if it is a page of usable memory
that is not the kernel's, and `allocator_usable_pages` is the number of pages of usable memory. -/
theorem allocator_init_classifies (memory : Bitmap)
    (hdisj : memoryMap.Pairwise fun a b => Disjoint a.pages b.pages)
    (hin : ∀ d ∈ memoryMap, (d.physicalStart >>> 12) + d.numberOfPages ≤ 8 * bitmapSize)
    (hstart : kernelStart % 4096 = 0) (hle : kernelStart ≤ kernelEnd) (hlen : kernelEnd - kernelStart + 4095 < 2 ^ 64) :
    (∀ p, p < 8 * bitmapSize →
      (used (initBitmap memory memoryMap kernelStart kernelEnd bitmapSize) p = false ↔
        (∃ d ∈ memoryMap, d.Usable ∧ p ∈ d.pages) ∧
          ¬ (kernelStart / 4096 ≤ p ∧ p < (kernelEnd + 4095) / 4096))) ∧
    allocatorUsablePages memory memoryMap bitmapSize =
      ((memoryMap.filter fun d => d.Usable).map MapEntry.numberOfPages).sum := by
  have hkernel : ((subU64 kernelEnd kernelStart + 4095) % 2 ^ 64) >>> 12 =
      (kernelEnd + 4095) / 4096 - kernelStart / 4096 := by
    rw [shiftRight_twelve, subU64]
    omega
  constructor
  · intro p hp
    have hbm : used (initBitmap memory memoryMap kernelStart kernelEnd bitmapSize) p =
        if kernelStart / 4096 ≤ p ∧ p < (kernelEnd + 4095) / 4096 then true
        else used (mapBitmap memory memoryMap bitmapSize) p := by
      rw [initBitmap, used_writeRange, hkernel, shiftRight_twelve]
      exact if_congr (by omega) rfl rfl
    rw [hbm, ← @used_mapBitmap memory _ _ _ hdisj hp]
    by_cases hk : kernelStart / 4096 ≤ p ∧ p < (kernelEnd + 4095) / 4096
    · rw [if_pos hk]
      exact iff_of_false (by simp) fun h => h.2 hk
    · rw [if_neg hk, and_iff_left hk]
  · rw [allocatorUsablePages, sum_freeBits, Nat.count_eq_card_filter_range, ← card_pages hdisj hin]
    congr 1
    apply Finset.filter_congr
    intro p hp
    exact used_mapBitmap hdisj (Finset.mem_range.mp hp)

end

/-- Memory below 1 MiB, and 16 pages from 1 MiB on, in falling order. -/
def twoEntries : List MapEntry :=
  [{ type := 7, physicalStart := 0x100000, numberOfPages := 16 }, { type := 7, physicalStart := 0, numberOfPages := 160 }]

theorem twoEntries_disjoint : twoEntries.Pairwise fun a b => Disjoint a.pages b.pages := by
  refine List.pairwise_pair.mpr (Set.disjoint_left.mpr ?_)
  rintro p ⟨h, -⟩ ⟨-, h'⟩
  exact absurd (h.trans_lt h') (by decide)

theorem allocator_init_classifies_two :
    (∀ p, p < 512 →
      (used (initBitmap (fun _ => 0#8) twoEntries 0x102000 0x103001 64) p = false ↔
        (∃ d ∈ twoEntries, d.Usable ∧ p ∈ d.pages) ∧ ¬ (258 ≤ p ∧ p < 260))) ∧
    allocatorUsablePages (fun _ => 0#8) twoEntries 64 = 16 :=
  @allocator_init_classifies twoEntries 0x102000 0x103001 64 (fun _ => 0#8) twoEntries_disjoint (by decide)
    (by decide) (by decide) (by decide)

/-! ## The bytes that are touched -/

/-- The bytes that `writeBits` reads and writes. -/
def writeBitsAccesses : Nat → Nat → List Nat
  | 0, _ => []
  | n + 1, count => count >>> 3 :: writeBitsAccesses n (count + 1)

/-- The bytes that `writeBytes` writes. -/
def writeBytesAccesses : Nat → Nat → List Nat
  | 0, _ => []
  | n + 1, count => count >>> 3 :: writeBytesAccesses n (count + 8)

/-- The bytes that `writeHead` reads and writes, the next page and how many are left. -/
def writeHeadAccesses (count pageCount : Nat) : List Nat × Nat × Nat :=
  if count &&& 7 > 0 then
    let bitsLeft := 8 - (count &&& 7)
    if bitsLeft ≤ pageCount then ([count >>> 3], count + bitsLeft, pageCount - bitsLeft)
    else (writeBitsAccesses pageCount count, count + pageCount, 0)
  else ([], count, pageCount)

/-- The bytes that `writeRange` reads and writes.  The last one is touched whether it has a page of the run or
not. -/
def writeRangeAccesses (count pageCount : Nat) : List Nat :=
  let (head, count, pageCount) := writeHeadAccesses count pageCount
  let eightPageCount := pageCount >>> 3
  head ++ writeBytesAccesses eightPageCount count ++ [(count + 8 * eightPageCount) >>> 3]

/-- The bytes of `fill_bitmap`. -/
def fillBitmapAccesses (count pageCount : Nat) : List Nat := writeRangeAccesses count pageCount

/-- The bytes of the marking code of `alloc_frame`, which runs when the scan has found its frames. -/
def allocFrameAccesses (s : FrameState) (pageCount : Nat) : List Nat :=
  if pageCount = 0 then []
  else
    match scan s pageCount (8 * s.bitmapSize + 1) s.formerCount s.formerCount 0 with
    | none => []
    | some (countTar, _) => writeRangeAccesses countTar pageCount

/-- The bytes of `free_frame`. -/
def freeFrameAccesses (frame : MemoryDescriptor) : List Nat :=
  writeRangeAccesses (frame.physicalStart >>> 12) frame.numberOfPages

/-- The bytes of `allocator_init`: it sets all bytes, marks the descriptors, counts and marks the kernel. -/
def allocatorInitAccesses (memoryMap : List MapEntry) (kernelStart kernelEnd bitmapSize : Nat) : List Nat :=
  List.range bitmapSize ++
    memoryMap.flatMap (fun desc => writeRangeAccesses (desc.physicalStart >>> 12) desc.numberOfPages) ++
    List.range bitmapSize ++
    writeRangeAccesses (kernelStart >>> 12) (((subU64 kernelEnd kernelStart + 4095) % 2 ^ 64) >>> 12)

section

variable {value : Bool} {n count pageCount bitmapSize b : Nat} {bm : Bitmap}

theorem writeBits_of_notMem : ∀ {n count : Nat} {bm : Bitmap}, b ∉ writeBitsAccesses n count →
    writeBits value n count bm b = bm b
  | 0, _, _, _ => rfl
  | n + 1, count, bm, h => by
    obtain ⟨hne, hrest⟩ := not_or.mp (mt List.mem_cons.mpr h)
    rw [writeBits, writeBits_of_notMem hrest, Function.update_of_ne hne]

theorem writeBytes_of_notMem : ∀ {n count : Nat} {bm : Bitmap}, b ∉ writeBytesAccesses n count →
    writeBytes value n count bm b = bm b
  | 0, _, _, _ => rfl
  | n + 1, count, bm, h => by
    obtain ⟨hne, hrest⟩ := not_or.mp (mt List.mem_cons.mpr h)
    rw [writeBytes, writeBytes_of_notMem hrest, Function.update_of_ne hne]

/-- The two versions of the head take the same branches. -/
theorem writeHead_accesses : (writeHead value bm count pageCount).2 = (writeHeadAccesses count pageCount).2 ∧
    (b ∉ (writeHeadAccesses count pageCount).1 → (writeHead value bm count pageCount).1 b = bm b) := by
  rw [writeHead, writeHeadAccesses]
  split
  · simp only
    split
    · exact ⟨rfl, fun h => Function.update_of_ne (mt List.mem_singleton.mpr h) _ _⟩
    · exact ⟨rfl, writeBits_of_notMem⟩
  · exact ⟨rfl, fun _ => rfl⟩

theorem le_of_mem_writeBits : ∀ {n count : Nat}, b ∈ writeBitsAccesses n count → b ≤ (count + n) / 8
  | 0, _, h => absurd h List.not_mem_nil
  | n + 1, count, h => by
    rcases List.mem_cons.mp h with rfl | h
    · rw [shiftRight_three]
      omega
    · have := le_of_mem_writeBits h
      omega

theorem le_of_mem_writeBytes : ∀ {n count : Nat}, b ∈ writeBytesAccesses n count → b ≤ (count + 8 * n) / 8
  | 0, _, h => absurd h List.not_mem_nil
  | n + 1, count, h => by
    rcases List.mem_cons.mp h with rfl | h
    · rw [shiftRight_three]
      omega
    · have := le_of_mem_writeBytes h
      omega

theorem writeHeadAccesses_spec : let r := writeHeadAccesses count pageCount
    (∀ b ∈ r.1, b ≤ (count + pageCount) / 8) ∧ r.2.1 + r.2.2 = count + pageCount ∧
      (r.2.1 % 8 = 0 ∨ r.2.2 = 0) := by
  simp only [writeHeadAccesses, and_seven, shiftRight_three]
  by_cases h0 : count % 8 > 0
  · rw [if_pos h0]
    by_cases h1 : 8 - count % 8 ≤ pageCount
    · rw [if_pos h1]
      refine ⟨fun b hb => ?_, by simp only; omega, by simp only; omega⟩
      obtain rfl := List.mem_singleton.mp hb
      exact Nat.div_le_div_right (Nat.le_add_right _ _)
    · rw [if_neg h1]
      exact ⟨fun b hb => le_of_mem_writeBits hb, rfl, Or.inr rfl⟩
  · rw [if_neg h0]
    exact ⟨fun b hb => absurd hb List.not_mem_nil, rfl, Or.inl (by simp only; omega)⟩

/-- The last byte that is touched is that of the page behind the run. -/
theorem writeRangeAccesses_spec : (count + pageCount) / 8 ∈ writeRangeAccesses count pageCount ∧
    ∀ b ∈ writeRangeAccesses count pageCount, b ≤ (count + pageCount) / 8 := by
  obtain ⟨hhead, hsum, hal⟩ := @writeHeadAccesses_spec count pageCount
  simp only [writeRangeAccesses]
  rcases hw : writeHeadAccesses count pageCount with ⟨l, c, n⟩
  simp only [hw] at hhead hsum hal
  simp only [List.mem_append, List.mem_singleton, shiftRight_three]
  have hlast : (c + 8 * (n / 8)) / 8 = (count + pageCount) / 8 := by omega
  refine ⟨Or.inr hlast.symm, ?_⟩
  rintro b ((hb | hb) | hb)
  · exact hhead b hb
  · rw [← hlast]
    exact le_of_mem_writeBytes hb
  · exact (hb.trans hlast).le

/-- The routine stays inside the bitmap exactly if its run does not end with it. -/
theorem writeRange_inside_iff (h : count + pageCount ≤ 8 * bitmapSize) :
    (∀ b ∈ writeRangeAccesses count pageCount, b < bitmapSize) ↔ count + pageCount ≠ 8 * bitmapSize := by
  obtain ⟨hlast, hle⟩ := @writeRangeAccesses_spec count pageCount
  constructor
  · intro hall
    have := hall _ hlast
    omega
  · intro hne b hb
    have := hle b hb
    omega

end

/-- **Where the accesses stay inside the bitmap.**  Each of the four routines, given pages that the bitmap has,
touches only bytes of the bitmap exactly if no run that it writes ends with the last page of the bitmap. -/
theorem bitmap_bounds_iff (s : FrameState) :
    (∀ count pageCount, count + pageCount ≤ 8 * s.bitmapSize →
      ((∀ b ∈ fillBitmapAccesses count pageCount, b < s.bitmapSize) ↔ count + pageCount ≠ 8 * s.bitmapSize)) ∧
    (∀ pageCount, (allocFrame s pageCount).1.attr = 0 →
      ((∀ b ∈ allocFrameAccesses s pageCount, b < s.bitmapSize) ↔
        (allocFrame s pageCount).1.physicalStart / 4096 + pageCount ≠ 8 * s.bitmapSize)) ∧
    (∀ frame : MemoryDescriptor, frame.physicalStart / 4096 + frame.numberOfPages ≤ 8 * s.bitmapSize →
      ((∀ b ∈ freeFrameAccesses frame, b < s.bitmapSize) ↔
        frame.physicalStart / 4096 + frame.numberOfPages ≠ 8 * s.bitmapSize)) ∧
    (∀ (memoryMap : List MapEntry) (kernelStart kernelEnd : Nat),
      (∀ d ∈ memoryMap, d.physicalStart / 4096 + d.numberOfPages ≤ 8 * s.bitmapSize) →
      kernelStart % 4096 = 0 → kernelStart ≤ kernelEnd → kernelEnd - kernelStart + 4095 < 2 ^ 64 →
      (kernelEnd + 4095) / 4096 ≤ 8 * s.bitmapSize →
      ((∀ b ∈ allocatorInitAccesses memoryMap kernelStart kernelEnd s.bitmapSize, b < s.bitmapSize) ↔
        (∀ d ∈ memoryMap, d.physicalStart / 4096 + d.numberOfPages ≠ 8 * s.bitmapSize) ∧
          (kernelEnd + 4095) / 4096 ≠ 8 * s.bitmapSize)) := by
  refine ⟨fun _ _ h => writeRange_inside_iff h, fun pageCount h => ?_, fun frame h => ?_, ?_⟩
  · rw [allocFrame] at h ⊢
    rw [allocFrameAccesses]
    split at h
    · exact absurd h (by simp)
    rename_i hn
    rw [if_neg hn, if_neg hn]
    split at h
    · exact absurd h (by simp)
    rename_i tar c hscan
    obtain ⟨hc, hin, -⟩ := scan_spec (Nat.add_zero _) (Nat.zero_le _) (by omega) (by omega) hscan
    have hend : tar + pageCount ≤ 8 * s.bitmapSize := hc ▸ hin (Nat.pos_of_ne_zero hn)
    simp only [hscan, shiftLeft_twelve_div (show tar < 2 ^ 52 by have := s.bitmapSize_le; omega)]
    exact writeRange_inside_iff hend
  · rw [freeFrameAccesses, shiftRight_twelve]
    exact writeRange_inside_iff h
  · intro memoryMap kernelStart kernelEnd hmap hstart hle hlen hkernel
    have hpages : kernelStart / 4096 + ((subU64 kernelEnd kernelStart + 4095) % 2 ^ 64) >>> 12 =
        (kernelEnd + 4095) / 4096 := by
      rw [shiftRight_twelve, subU64]
      omega
    have hkiff := @writeRange_inside_iff (kernelStart / 4096)
      (((subU64 kernelEnd kernelStart + 4095) % 2 ^ 64) >>> 12) s.bitmapSize (hpages.le.trans hkernel)
    have hdiff : ∀ d ∈ memoryMap,
        ((∀ b ∈ writeRangeAccesses (d.physicalStart >>> 12) d.numberOfPages, b < s.bitmapSize) ↔
          d.physicalStart / 4096 + d.numberOfPages ≠ 8 * s.bitmapSize) := by
      intro d hd
      rw [shiftRight_twelve]
      exact writeRange_inside_iff (hmap d hd)
    rw [hpages] at hkiff
    rw [← hkiff, ← forall₂_congr hdiff]
    simp only [allocatorInitAccesses, shiftRight_twelve, List.mem_append, List.mem_range, List.mem_flatMap]
    constructor
    · exact fun h => ⟨fun d hd b hb => h b (Or.inl (Or.inl (Or.inr ⟨d, hd, hb⟩))), fun b hb => h b (Or.inr hb)⟩
    · rintro ⟨hd, hk⟩ b (((hb | ⟨d, hmem, hb⟩) | hb) | hb)
      · exact hb
      · exact hd d hmem b hb
      · exact hb
      · exact hk b hb

/-- The nine frames that are found in 64 do not reach the last page. -/
theorem bitmap_bounds_nine :
    (∀ b ∈ fillBitmapAccesses 55 8, b < smallFrames.bitmapSize) ∧
      ∀ b ∈ allocFrameAccesses smallFrames 9, b < smallFrames.bitmapSize :=
  ⟨((bitmap_bounds_iff smallFrames).1 55 8 (by decide)).mpr (by decide),
    ((bitmap_bounds_iff smallFrames).2.1 9 (by decide)).mpr (by decide)⟩

/-- The last eight pages of the bitmap are written with an access to the byte behind it. -/
theorem fill_bitmap_leaves_bitmap : ¬ ∀ bitmapSize count pageCount : Nat, count + pageCount ≤ 8 * bitmapSize →
    ∀ b ∈ fillBitmapAccesses count pageCount, b < bitmapSize := by
  intro h
  exact absurd (h 8 56 8 (by decide) 8 (by decide)) (by decide)

end Dem64
