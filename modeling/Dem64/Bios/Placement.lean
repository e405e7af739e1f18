import Dem64.Bios.Kernel
import Dem64.Memory.E820

/-!
# Where the kernel is placed

`main` of stage 4 adds up, in 32 bits, what the kernel needs, takes the first usable memory above 1 MiB
that has as many pages, and takes the lower half of its address.  Nothing is compared with 4 GiB, and the 1
that `find_free_region` returns when there is no such memory is not looked at.  So the kernel is placed
where it should be if the first memory that is large enough is also low enough (`mainLayout_placed_iff`).

The sizes are meant as natural numbers: `layoutSize` is what `total_size` stands for.
-/

set_option autoImplicit false

namespace Dem64.Bios

/-- An `EFI_MEMORY_DESCRIPTOR`. -/
structure Descriptor where
  type : BitVec 32
  physicalStart : BitVec 64
  numberOfPages : BitVec 64

/-- `calc_size`, with `n` program headers left. -/
def calcSize (memory : Nat → BitVec 8) (ephentsize : Nat) : Nat → Nat → BitVec 32 → BitVec 32
  | 0, _, size => size
  | n + 1, ptr, size =>
    let h := readHeader memory ptr
    let size := if h.type = 1 then (size + h.memsz.setWidth 32 + 4095) &&& ~~~4095 else size
    calcSize memory ephentsize n (ptr + ephentsize) size

/-- `find_free_region`. -/
def findFreeRegion : List Descriptor → BitVec 32 → BitVec 32
  | [], _ => 1
  | d :: map, pages =>
    if d.physicalStart ≥ 0x100000 ∧ d.type = 7 ∧ d.numberOfPages ≥ pages.setWidth 64 then
      d.physicalStart.setWidth 32
    else findFreeRegion map pages

/-- One iteration of `find_highest_page`. -/
def higherPage (highestPage : BitVec 64) (d : Descriptor) : BitVec 64 :=
  let endPage := (d.physicalStart >>> 12) + d.numberOfPages
  if endPage > highestPage then endPage else highestPage

/-- `find_highest_page`, in the 64 bits that it has. -/
def findHighestPage (map : List Descriptor) : BitVec 64 := map.foldl higherPage 0

/-- Where `main` puts the kernel and what it hands over. -/
structure Layout where
  kernelstart : BitVec 32
  stack : BitVec 32
  mmp : BitVec 32
  pBuff64 : BitVec 32
  pBuff : BitVec 32
  /-- What `main` writes before it loads the kernel: the addresses, and how many bytes. -/
  copies : List (BitVec 32 × Nat)

/-- `size`. -/
def kernelSize (memory : Nat → BitVec 8) (ephentsize ephnum ph : Nat) : BitVec 32 :=
  (calcSize memory ephentsize ephnum ph 0 + 4095) &&& ~~~0xFFF

/-- `bitmap_size`. -/
def bitmapSize (map : List Descriptor) : BitVec 64 :=
  (((findHighestPage map + 7) >>> 3) + 4095) &&& ~~~0xfff

/-- `mmsz`. -/
def mmsz (map : List Descriptor) : BitVec 32 := BitVec.ofNat 32 map.length * 40

/-- `buf_size64`. -/
def bufSize64 : BitVec 32 := 72

/-- `buf_size`. -/
def bufSize : BitVec 32 := 24

/-- `total_size`, before it is rounded up: the sum has 64 bits, for the bitmap's size has. -/
def totalSize (size : BitVec 32) (bitmapSize : BitVec 64) (mmsz : BitVec 32) : BitVec 32 :=
  ((size + 0x41000).setWidth 64 + bitmapSize + mmsz.setWidth 64 + bufSize64.setWidth 64 +
    bufSize.setWidth 64).setWidth 32

/-- The part of `main` that places the kernel.  Nothing in it stops. -/
def mainLayout (memory : Nat → BitVec 8) (map : List Descriptor) (ph ephentsize ephnum : Nat) : Layout :=
  let size := kernelSize memory ephentsize ephnum ph
  let total := (totalSize size (bitmapSize map) (mmsz map) + 4095) &&& ~~~0xFFF
  let kernelstart := findFreeRegion map (total >>> 12)
  let stack := kernelstart + size + 0x41000
  let mmp : BitVec 32 := (stack.setWidth 64 + bitmapSize map).setWidth 32
  let pBuff64 := mmp + mmsz map
  let pBuff := pBuff64 + bufSize64
  { kernelstart := kernelstart
    stack := stack
    mmp := mmp
    pBuff64 := pBuff64
    pBuff := pBuff
    copies := [(mmp, (mmsz map).toNat), (pBuff, 24), (pBuff64, 72)] }

/-! ## What is meant -/

/-- The bytes of the pages that hold `n` bytes. -/
def pageUp (n : Nat) : Nat := (n + 4095) / 4096 * 4096

/-- The size of the kernel in memory. -/
def imageSize : List Header → Nat
  | [] => 0
  | h :: headers => (if h.type = 1 then pageUp h.memsz.toNat else 0) + imageSize headers

/-- The descriptor with natural numbers. -/
def Descriptor.entry (d : Descriptor) : MapEntry where
  type := d.type.toNat
  physicalStart := d.physicalStart.toNat
  numberOfPages := d.numberOfPages.toNat

/-- A bit for every page, in whole pages. -/
def bitmapBytes (map : List Descriptor) : Nat :=
  pageUp ((Dem64.findHighestPage (map.map Descriptor.entry) + 7) / 8)

/-- The whole layout: the image, the stack, the bitmap, the memory map and the two buffers. -/
def layoutSize (headers : List Header) (map : List Descriptor) : Nat :=
  imageSize headers + 0x41000 + bitmapBytes map + 40 * map.length + 72 + 24

/-- Usable memory above 1 MiB, large enough. -/
def Descriptor.Roomy (d : Descriptor) (size : Nat) : Prop :=
  0x100000 ≤ d.physicalStart.toNat ∧ d.type = 7 ∧ size ≤ 4096 * d.numberOfPages.toNat

instance (d : Descriptor) (size : Nat) : Decidable (d.Roomy size) := inferInstanceAs (Decidable (_ ∧ _))

/-- The same, with the layout below 4 GiB. -/
def Descriptor.Takes (d : Descriptor) (size : Nat) : Prop :=
  d.Roomy size ∧ d.physicalStart.toNat + size ≤ 2 ^ 32

instance (d : Descriptor) (size : Nat) : Decidable (d.Takes size) := inferInstanceAs (Decidable (_ ∧ _))

/-- The layout is in place from `start` on, each part behind the one before. -/
structure Layout.At (l : Layout) (headers : List Header) (map : List Descriptor) (start : Nat) : Prop where
  kernelstart : l.kernelstart.toNat = start
  stack : l.stack.toNat = start + imageSize headers + 0x41000
  mmp : l.mmp.toNat = l.stack.toNat + bitmapBytes map
  pBuff64 : l.pBuff64.toNat = l.mmp.toNat + 40 * map.length
  pBuff : l.pBuff.toNat = l.pBuff64.toNat + 72

/-- The kernel is placed in memory that can take it, and without such memory nothing is copied. -/
structure Layout.Placed (l : Layout) (headers : List Header) (map : List Descriptor) : Prop where
  start : (∃ d ∈ map, d.Takes (layoutSize headers map)) →
    ∃ d ∈ map, d.Takes (layoutSize headers map) ∧ l.At headers map d.physicalStart.toNat
  stops : (¬ ∃ d ∈ map, d.Takes (layoutSize headers map)) → l.copies = []

/-- The first memory that is large enough starts, but for the upper half of its address, where there is memory
that can take the layout. -/
def FirstTakes (map : List Descriptor) (size : Nat) : Prop :=
  ∃ first, map.find? (fun d => decide (d.Roomy size)) = some first ∧
    ∃ d ∈ map, d.Takes size ∧ d.physicalStart.toNat = first.physicalStart.toNat % 2 ^ 32

section

variable {memory : Nat → BitVec 8} {map : List Descriptor} {headers : List Header} {d : Descriptor}
  {ptr ephentsize n size : Nat} {l : Layout}

/-! ## The sizes -/

/-- Clearing the low bits rounds down. -/
theorem toNat_and_not_low {w k : Nat} (x : BitVec w) :
    (x &&& ~~~(BitVec.ofNat w (2 ^ k - 1))).toNat = x.toNat / 2 ^ k * 2 ^ k := by
  have hshift : x &&& ~~~(BitVec.ofNat w (2 ^ k - 1)) = (x >>> k) <<< k := by
    apply BitVec.eq_of_getLsbD_eq
    intro i hi
    rw [BitVec.getLsbD_and, BitVec.getLsbD_not, BitVec.getLsbD_ofNat, Nat.testBit_two_pow_sub_one,
      BitVec.getLsbD_shiftLeft, BitVec.getLsbD_ushiftRight]
    by_cases hik : i < k
    · simp [hik]
    · simp [hik, hi, Nat.add_sub_of_le (Nat.le_of_not_lt hik)]
  have hle : x.toNat / 2 ^ k * 2 ^ k ≤ x.toNat := Nat.div_mul_le_self _ _
  rw [hshift, BitVec.toNat_shiftLeft, BitVec.toNat_ushiftRight, Nat.shiftRight_eq_div_pow, Nat.shiftLeft_eq,
    Nat.mod_eq_of_lt (hle.trans_lt x.isLt)]

/-- Rounding up to a page, if there is room for it. -/
theorem toNat_pageUp {w : Nat} {x : BitVec w} (h : x.toNat + 4095 < 2 ^ w) :
    ((x + 4095) &&& ~~~(BitVec.ofNat w (2 ^ 12 - 1))).toNat = pageUp x.toNat := by
  have h4095 : (4095 : BitVec w).toNat = 4095 :=
    Nat.mod_eq_of_lt (lt_of_le_of_lt (Nat.le_add_left _ _) h)
  rw [toNat_and_not_low, BitVec.toNat_add, h4095, Nat.mod_eq_of_lt h]
  rfl

theorem le_pageUp (k : Nat) : k ≤ pageUp k := by
  rw [pageUp]
  omega

theorem pageUp_add {k : Nat} (h : size % 4096 = 0) : pageUp (size + k) = size + pageUp k := by
  rw [pageUp, pageUp]
  omega

theorem pageUp_of_mod {k : Nat} (h : k % 4096 = 0) : pageUp k = k := by
  rw [pageUp]
  omega

theorem imageSize_mod : imageSize headers % 4096 = 0 := by
  induction headers with
  | nil => rfl
  | cons h headers ih =>
    rw [imageSize, pageUp]
    split <;> omega

/-- `calc_size` is the size of the kernel, if that has 32 bits. -/
theorem toNat_calcSize {x : BitVec 32} (hx : x.toNat % 4096 = 0)
    (hlt : x.toNat + imageSize (readHeaders memory ephentsize n ptr) < 2 ^ 32) :
    (calcSize memory ephentsize n ptr x).toNat =
      x.toNat + imageSize (readHeaders memory ephentsize n ptr) := by
  induction n generalizing ptr x with
  | zero => rfl
  | succ n ih =>
    rw [readHeaders, imageSize] at hlt ⊢
    rw [calcSize]
    by_cases htype : (readHeader memory ptr).type = 1
    · simp only [if_pos htype] at hlt ⊢
      set memsz := (readHeader memory ptr).memsz with hmemsz
      have hle := le_pageUp memsz.toNat
      have hmod := @imageSize_mod (readHeaders memory ephentsize n (ptr + ephentsize))
      have hup : pageUp memsz.toNat % 4096 = 0 := by rw [pageUp]; omega
      have hsum : (x + memsz.setWidth 32).toNat = x.toNat + memsz.toNat := by
        rw [BitVec.toNat_add, BitVec.toNat_setWidth]
        omega
      have hnext : ((x + memsz.setWidth 32 + 4095) &&& ~~~4095).toNat = x.toNat + pageUp memsz.toNat := by
        rw [← pageUp_add hx, ← hsum]
        exact toNat_pageUp (by rw [hsum]; omega)
      rw [ih (by rw [hnext]; omega) (by rw [hnext]; omega), hnext, Nat.add_assoc]
    · simp only [if_neg htype, Nat.zero_add] at hlt ⊢
      exact ih hx hlt

/-- One iteration on natural numbers. -/
def higherEntry (highestPage : Nat) (d : MapEntry) : Nat :=
  let endPage := (d.physicalStart >>> 12) + d.numberOfPages
  if endPage > highestPage then endPage else highestPage

theorem findHighestPage_eq {entries : List MapEntry} :
    Dem64.findHighestPage entries = entries.foldl higherEntry 0 :=
  rfl

theorem higherEntry_eq {e : Nat} {d : MapEntry} :
    higherEntry e d = max e ((d.physicalStart >>> 12) + d.numberOfPages) := by
  rw [higherEntry]
  split <;> omega

theorem le_foldl_higherEntry {e : Nat} {entries : List MapEntry} : e ≤ entries.foldl higherEntry e := by
  induction entries generalizing e with
  | nil => exact le_rfl
  | cons d entries ih => exact le_trans (higherEntry_eq ▸ le_max_left _ _) ih

/-- The step, if there is room for it. -/
theorem toNat_higherPage {e : BitVec 64} (h : higherEntry e.toNat d.entry < 2 ^ 64) :
    (higherPage e d).toNat = higherEntry e.toNat d.entry := by
  rw [higherEntry_eq] at h ⊢
  have hend : ((d.physicalStart >>> 12) + d.numberOfPages).toNat =
      (d.entry.physicalStart >>> 12) + d.entry.numberOfPages := by
    rw [BitVec.toNat_add, BitVec.toNat_ushiftRight]
    exact Nat.mod_eq_of_lt ((le_max_right _ _).trans_lt h)
  rw [← hend, higherPage]
  split
  · rename_i hlt
    exact (max_eq_right (BitVec.le_def.mp (BitVec.le_of_lt hlt))).symm
  · rename_i hnot
    exact (max_eq_left (Nat.le_of_not_lt fun hlt => hnot (BitVec.lt_def.mpr hlt))).symm

/-- `find_highest_page` finds it, if it has 64 bits. -/
theorem toNat_findHighestPage (h : Dem64.findHighestPage (map.map Descriptor.entry) < 2 ^ 64) :
    (findHighestPage map).toNat = Dem64.findHighestPage (map.map Descriptor.entry) := by
  suffices hfold : ∀ e : BitVec 64, (map.map Descriptor.entry).foldl higherEntry e.toNat < 2 ^ 64 →
      (map.foldl higherPage e).toNat = (map.map Descriptor.entry).foldl higherEntry e.toNat from hfold 0 h
  clear h
  induction map with
  | nil => exact fun _ _ => rfl
  | cons d map ih =>
    intro e hlt
    rw [List.map_cons, List.foldl_cons] at hlt ⊢
    have hstep := toNat_higherPage (lt_of_le_of_lt le_foldl_higherEntry hlt)
    rw [List.foldl_cons, ← hstep]
    exact ih _ (by rwa [hstep])

/-- The bitmap's size is right, if it has 32 bits. -/
theorem toNat_bitmapSize (h : bitmapBytes map < 2 ^ 32) :
    (bitmapSize map).toNat = bitmapBytes map := by
  rw [bitmapBytes] at h ⊢
  have hle := le_pageUp ((Dem64.findHighestPage (map.map Descriptor.entry) + 7) / 8)
  have hhighest := @toNat_findHighestPage map (by omega)
  have hbytes : ((findHighestPage map + 7) >>> 3).toNat =
      (Dem64.findHighestPage (map.map Descriptor.entry) + 7) / 8 := by
    rw [BitVec.toNat_ushiftRight, Nat.shiftRight_eq_div_pow, BitVec.toNat_add, hhighest,
      show (7 : BitVec 64).toNat = 7 from rfl, Nat.mod_eq_of_lt (by omega)]
  rw [← hbytes, bitmapSize]
  exact toNat_pageUp (by omega)

/-! ## The search -/

/-- `find_free_region` takes the first memory that is large enough, and the lower half of its address. -/
theorem findFreeRegion_eq {pages : BitVec 32} (hpages : ∀ k : Nat, pages.toNat ≤ k ↔ size ≤ 4096 * k) :
    findFreeRegion map pages = match map.find? (fun d => decide (d.Roomy size)) with
      | some first => first.physicalStart.setWidth 32
      | none => 1 := by
  induction map with
  | nil => rfl
  | cons d map ih =>
    have hiff : d.physicalStart ≥ 0x100000 ∧ d.type = 7 ∧ d.numberOfPages ≥ pages.setWidth 64 ↔ d.Roomy size := by
      rw [Descriptor.Roomy, ← hpages, ge_iff_le, ge_iff_le, BitVec.le_def, BitVec.le_def,
        BitVec.toNat_setWidth_of_le (by decide)]
      rfl
    rw [findFreeRegion, List.find?_cons]
    by_cases hroomy : d.Roomy size
    · rw [if_pos (hiff.mpr hroomy), decide_eq_true hroomy]
    · rw [if_neg (hiff.not.mpr hroomy), decide_eq_false hroomy, ih]

theorem toNat_kernelSize (h : imageSize (readHeaders memory ephentsize n ptr) < 2 ^ 32) :
    (kernelSize memory ephentsize n ptr).toNat = imageSize (readHeaders memory ephentsize n ptr) := by
  have hzero : (0 : BitVec 32).toNat = 0 := rfl
  have hcalc := @toNat_calcSize memory ptr ephentsize n 0 rfl (by rwa [hzero, Nat.zero_add])
  rw [hzero, Nat.zero_add] at hcalc
  have hmod := @imageSize_mod (readHeaders memory ephentsize n ptr)
  rw [kernelSize, ← pageUp_of_mod hmod, ← hcalc]
  exact toNat_pageUp (by rw [hcalc]; omega)

theorem toNat_mmsz (h : 40 * map.length < 2 ^ 32) : (mmsz map).toNat = 40 * map.length := by
  rw [mmsz, BitVec.toNat_mul, BitVec.toNat_ofNat, show (40 : BitVec 32).toNat = 40 from rfl]
  omega

/-- The sizes are added up without overflow, if there is room for that. -/
theorem toNat_totalSize {x y : BitVec 32} {z : BitVec 64} {total : Nat}
    (h : x.toNat + 0x41000 + z.toNat + y.toNat + 72 + 24 = total) (hlt : total < 2 ^ 32) :
    (totalSize x z y).toNat = total := by
  have hstack : (x + 0x41000).toNat = x.toNat + 0x41000 := by
    rw [BitVec.toNat_add, show (0x41000 : BitVec 32).toNat = 0x41000 from rfl, Nat.mod_eq_of_lt (by omega)]
  rw [totalSize, BitVec.toNat_setWidth, BitVec.toNat_add, BitVec.toNat_add, BitVec.toNat_add, BitVec.toNat_add,
    BitVec.toNat_setWidth, BitVec.toNat_setWidth, BitVec.toNat_setWidth, BitVec.toNat_setWidth, hstack,
    show bufSize64.toNat = 72 from rfl, show bufSize.toNat = 24 from rfl]
  omega

/-- Each part of a layout is smaller than the layout. -/
theorem parts_lt {k : Nat} (h : layoutSize headers map < k) :
    imageSize headers < k ∧ bitmapBytes map < k ∧ 40 * map.length < k := by
  rw [layoutSize] at h
  omega

theorem toNat_totalSize_layout (h : layoutSize (readHeaders memory ephentsize n ptr) map < 2 ^ 32) :
    (totalSize (kernelSize memory ephentsize n ptr) (bitmapSize map) (mmsz map)).toNat =
      layoutSize (readHeaders memory ephentsize n ptr) map := by
  obtain ⟨himage, hbitmap, hmap⟩ := parts_lt h
  apply toNat_totalSize _ h
  rw [toNat_kernelSize himage, toNat_bitmapSize hbitmap, toNat_mmsz hmap, layoutSize]

/-- The memory is searched for as many pages as the layout needs. -/
theorem kernelstart_eq (h : layoutSize (readHeaders memory ephentsize n ptr) map + 0x100000 ≤ 2 ^ 32) :
    (mainLayout memory map ptr ephentsize n).kernelstart =
      match map.find? (fun d => decide (d.Roomy (layoutSize (readHeaders memory ephentsize n ptr) map))) with
      | some first => first.physicalStart.setWidth 32
      | none => 1 := by
  have htotal := @toNat_totalSize_layout memory map ptr ephentsize n (by omega)
  rw [mainLayout]
  apply findFreeRegion_eq
  intro k
  have hup : ((totalSize (kernelSize memory ephentsize n ptr) (bitmapSize map) (mmsz map) + 4095) &&&
      ~~~0xFFF).toNat = pageUp (totalSize (kernelSize memory ephentsize n ptr) (bitmapSize map) (mmsz map)).toNat :=
    toNat_pageUp (by omega)
  rw [BitVec.toNat_ushiftRight, Nat.shiftRight_eq_div_pow, hup, htotal, pageUp]
  omega

/-- What is placed behind the kernel is in place, if it is below 4 GiB. -/
theorem mainLayout_at (h : (mainLayout memory map ptr ephentsize n).kernelstart.toNat +
      layoutSize (readHeaders memory ephentsize n ptr) map ≤ 2 ^ 32) :
    (mainLayout memory map ptr ephentsize n).At (readHeaders memory ephentsize n ptr) map
      (mainLayout memory map ptr ephentsize n).kernelstart.toNat := by
  rw [layoutSize] at h
  have hsize := @toNat_kernelSize memory ptr ephentsize n (by omega)
  have hbitmap := @toNat_bitmapSize map (by omega)
  have hmap := @toNat_mmsz map (by omega)
  have hstack : (mainLayout memory map ptr ephentsize n).stack.toNat =
      (mainLayout memory map ptr ephentsize n).kernelstart.toNat +
        imageSize (readHeaders memory ephentsize n ptr) + 0x41000 := by
    rw [show (mainLayout memory map ptr ephentsize n).stack =
      (mainLayout memory map ptr ephentsize n).kernelstart + kernelSize memory ephentsize n ptr + 0x41000 from rfl,
      BitVec.toNat_add, BitVec.toNat_add, hsize, show (0x41000 : BitVec 32).toNat = 0x41000 from rfl]
    omega
  have hmmp : (mainLayout memory map ptr ephentsize n).mmp.toNat =
      (mainLayout memory map ptr ephentsize n).stack.toNat + bitmapBytes map := by
    rw [show (mainLayout memory map ptr ephentsize n).mmp =
      ((mainLayout memory map ptr ephentsize n).stack.setWidth 64 + bitmapSize map).setWidth 32 from rfl,
      BitVec.toNat_setWidth, BitVec.toNat_add, BitVec.toNat_setWidth, hbitmap]
    omega
  have hpBuff64 : (mainLayout memory map ptr ephentsize n).pBuff64.toNat =
      (mainLayout memory map ptr ephentsize n).mmp.toNat + 40 * map.length := by
    rw [show (mainLayout memory map ptr ephentsize n).pBuff64 =
      (mainLayout memory map ptr ephentsize n).mmp + mmsz map from rfl, BitVec.toNat_add, hmap]
    omega
  refine ⟨rfl, hstack, hmmp, hpBuff64, ?_⟩
  rw [show (mainLayout memory map ptr ephentsize n).pBuff =
    (mainLayout memory map ptr ephentsize n).pBuff64 + bufSize64 from rfl, BitVec.toNat_add,
    show bufSize64.toNat = 72 from rfl]
  omega

end

/-- **Where the kernel is placed.**  For every memory map and every kernel, the kernel and what is handed over
to it are placed in memory that can take them, and nothing is copied if there is none, if and only if the
first memory that is large enough is, but for the upper half of its address, memory that can take them. -/
theorem mainLayout_placed_iff {memory : Nat → BitVec 8} {map : List Descriptor} {ptr ephentsize ephnum : Nat} :
    (mainLayout memory map ptr ephentsize ephnum).Placed (readHeaders memory ephentsize ephnum ptr) map ↔
    FirstTakes map (layoutSize (readHeaders memory ephentsize ephnum ptr) map) := by
  set size := layoutSize (readHeaders memory ephentsize ephnum ptr) map with hsize
  have hroom : ∀ d : Descriptor, d.Takes size → size + 0x100000 ≤ 2 ^ 32 := fun d hd => by
    have := hd.1.1
    have := hd.2
    omega
  constructor
  · intro h
    -- something is copied, so there is memory that can take the layout
    obtain ⟨d, hmem, htakes, hat⟩ := h.start (by_contra fun hnot => List.cons_ne_nil _ _ (h.stops hnot))
    have heq := kernelstart_eq (hroom d htakes)
    have hstart := hat.kernelstart
    rw [heq] at hstart
    cases hfind : map.find? (fun d => decide (d.Roomy size)) with
    | none =>
      rw [← hsize, hfind] at hstart
      have := htakes.1.1
      rw [← hstart] at this
      exact absurd this (by decide)
    | some first =>
      rw [← hsize, hfind] at hstart
      exact ⟨first, hfind, d, hmem, htakes, hstart.symm.trans (BitVec.toNat_setWidth _ _)⟩
  · rintro ⟨first, hfind, d, hmem, htakes, hstart⟩
    have heq := kernelstart_eq (hroom d htakes)
    rw [← hsize, hfind] at heq
    have hkernelstart : (mainLayout memory map ptr ephentsize ephnum).kernelstart.toNat = d.physicalStart.toNat := by
      rw [heq, hstart, BitVec.toNat_setWidth]
    refine ⟨fun _ => ⟨d, hmem, htakes, hkernelstart ▸ mainLayout_at ?_⟩, fun hnot => absurd ⟨d, hmem, htakes⟩ hnot⟩
    rw [hkernelstart]
    exact htakes.2

/-! ## The kernel in its place -/

/-- What is cleared behind a segment is in the segment. -/
theorem Header.cleared_le {h : Header} (hle : h.filesz ≤ h.memsz) (hlt : h.memsz.toNat < 2 ^ 32) :
    h.filesz.toNat + h.cleared ≤ h.memsz.toNat := by
  have hsub : (h.memsz - h.filesz).toNat = h.memsz.toNat - h.filesz.toNat := BitVec.toNat_sub_of_le hle
  have hle' := BitVec.le_def.mp hle
  have hint : ((h.memsz - h.filesz).setWidth 32).toInt ≤ ((h.memsz - h.filesz).setWidth 32).toNat := by
    rw [BitVec.toInt_eq_toNat_cond]
    split <;> omega
  rw [BitVec.toNat_setWidth, hsub] at hint
  rw [Header.cleared]
  omega

/-- A kernel that is placed below 4 GiB has its segments there. -/
theorem above_of_image {headers : List Header} {addr : BitVec 32}
    (hsizes : ∀ h ∈ headers, h.filesz ≤ h.memsz) (halign : addr.toNat % 4096 = 0)
    (haddr : 0x100000 ≤ addr.toNat) (hlt : addr.toNat + imageSize headers < 2 ^ 32) : Above headers addr := by
  induction headers generalizing addr with
  | nil => trivial
  | cons h headers ih =>
    rw [imageSize] at hlt
    rw [Above]
    have htail : ∀ h' ∈ headers, h'.filesz ≤ h'.memsz := fun h' hmem => hsizes h' (List.mem_cons_of_mem _ hmem)
    split
    · rename_i htype
      rw [if_pos htype] at hlt
      have hle := le_pageUp h.memsz.toNat
      have hfile := hsizes h (List.mem_cons_self ..)
      have hcleared := Header.cleared_le hfile (by omega)
      have hfile' := BitVec.le_def.mp hfile
      have hpages : 4096 * ((h.filesz.toNat + 4095) / 4096) ≤ pageUp h.memsz.toNat := by
        rw [pageUp]
        omega
      have hsum : (addr + h.filesz.setWidth 32 + (h.memsz - h.filesz).setWidth 32).toNat =
          addr.toNat + h.memsz.toNat := by
        rw [BitVec.toNat_add, BitVec.toNat_add, BitVec.toNat_setWidth, BitVec.toNat_setWidth,
          BitVec.toNat_sub_of_le hfile]
        omega
      have hup : pageUp h.memsz.toNat % 4096 = 0 := by
        rw [pageUp]
        omega
      have hnext : (h.next addr).toNat = addr.toNat + pageUp h.memsz.toNat := by
        rw [← pageUp_add halign, ← hsum]
        exact toNat_pageUp (by rw [hsum]; omega)
      exact ⟨haddr, by omega, by omega,
        ih htail (by rw [hnext]; omega) (by rw [hnext]; omega) (by rw [hnext]; omega)⟩
    · rename_i htype
      rw [if_neg htype, Nat.zero_add] at hlt
      exact ih htail halign haddr hlt

/-- Where `main` has placed the kernel, `load_kernel` loads it above 1 MiB and below 4 GiB. -/
theorem Layout.At.above {l : Layout} {headers : List Header} {map : List Descriptor} {d : Descriptor}
    (hat : l.At headers map d.physicalStart.toNat) (htakes : d.Takes (layoutSize headers map))
    (halign : d.physicalStart.toNat % 4096 = 0) (hsizes : ∀ h ∈ headers, h.filesz ≤ h.memsz) :
    Above headers l.kernelstart := by
  have hlt := htakes.2
  rw [layoutSize] at hlt
  exact above_of_image hsizes (hat.kernelstart ▸ halign) (hat.kernelstart ▸ htakes.1.1)
    (by rw [hat.kernelstart]; omega)

/-- Memory for no more than the stack. -/
def smallMap : List Descriptor := [{ type := 7, physicalStart := 0x100000, numberOfPages := 0x41 }]

/-- Memory at 4 GiB before memory at 1 MiB. -/
def highMap : List Descriptor :=
  [{ type := 7, physicalStart := 0x100000000, numberOfPages := 0x40000 },
   { type := 7, physicalStart := 0x100000, numberOfPages := 0x1000 }]

/-- Without memory the kernel is copied to address 1, and with memory above 4 GiB to address 0. -/
theorem not_mainLayout_placed :
    ¬ (mainLayout lateMemory smallMap 0x95040 56 1).Placed (readHeaders lateMemory 56 1 0x95040) smallMap ∧
    ¬ (mainLayout lateMemory highMap 0x95040 56 1).Placed (readHeaders lateMemory 56 1 0x95040) highMap := by
  rw [readHeaders_lateMemory]
  constructor
  · intro h
    exact List.cons_ne_nil _ _ (h.stops (by decide +kernel))
  · intro h
    obtain ⟨d, hmem, -, hat⟩ := h.start ⟨highMap[1], List.getElem_mem _, by decide +kernel⟩
    have hzero : (mainLayout lateMemory highMap 0x95040 56 1).kernelstart.toNat = 0 := by decide +kernel
    have hstart := hat.kernelstart
    rw [hzero] at hstart
    clear hat
    revert hstart d
    decide

end Dem64.Bios
