import Dem64.Memory.Hint

/-!
# From the E820 map to the bitmap

On a BIOS machine `stage4.c` turns the E820 map into EFI descriptors, from which `allocator_init` makes
the bitmap.  The map is in bytes and the bitmap in pages: `convert_e820_to_efi` rounds usable memory
inwards and everything else outwards, so that a page is free only if all of its bytes are usable, in
whatever order the entries come (`e820_bitmap`).

An entry that reaches the end of the 64-bit address space is skipped, like one that is empty.
-/

set_option autoImplicit false

namespace Dem64

/-- `E820Entry`. -/
structure E820Entry where
  /-- The first byte. -/
  base : Nat
  /-- The number of bytes. -/
  length : Nat
  /-- What the memory is for; 1 is usable. -/
  type : Nat
  /-- The extended attributes, which make no difference. -/
  attributes : Nat := 0
  /-- The base has 64 bits. -/
  base_lt : base < 2 ^ 64 := by decide

/-- `e820_to_efi_type`. -/
def e820ToEfiType (type : Nat) : Nat :=
  match type with
  | 1 => efiConventionalMemory
  | 3 => 9
  | 4 => 10
  | 5 => 8
  | 7 => 14
  | _ => 0

/-- One iteration of `convert_e820_to_efi`: the descriptor that is written, if any. -/
def convertEntry (e : E820Entry) : Option MapEntry :=
  if e.length = 0 ∨ e.length > 2 ^ 64 - 1 - e.base then none
  else
    let type := e820ToEfiType e.type
    let last := e.base + e.length
    let (firstPage, endPage) :=
      if type = efiConventionalMemory then
        ((e.base >>> 12) + (if e.base &&& 0xfff ≠ 0 then 1 else 0), last >>> 12)
      else (e.base >>> 12, (last >>> 12) + (if last &&& 0xfff ≠ 0 then 1 else 0))
    if endPage ≤ firstPage then none
    else some { type := type, physicalStart := firstPage <<< 12, numberOfPages := endPage - firstPage }

/-- `convert_e820_to_efi`, which looks at 1024 entries at most. -/
def convertE820ToEfi (entries : List E820Entry) : List MapEntry := (entries.take 1024).filterMap convertEntry

/-- `find_highest_page`: the page behind the last one of all descriptors. -/
def findHighestPage (memoryMap : List MapEntry) : Nat :=
  memoryMap.foldl (fun highestPage d =>
    let endPage := (d.physicalStart >>> 12) + d.numberOfPages
    if endPage > highestPage then endPage else highestPage) 0

/-! ## What is meant -/

/-- The bytes of an entry. -/
def E820Entry.bytes (e : E820Entry) : Set Nat := Set.Ico e.base (e.base + e.length)

/-- The bytes of a page. -/
def pageBytes (p : Nat) : Set Nat := Set.Ico (4096 * p) (4096 * (p + 1))

/-- The first page that starts in the entry or behind it. -/
def E820Entry.firstWholePage (e : E820Entry) : Nat := (e.base + 4095) / 4096

/-- The page is usable memory of this entry, and the entry has no pages below 1 MiB. -/
def E820Entry.Offers (e : E820Entry) (p : Nat) : Prop :=
  e.type = 1 ∧ pageBytes p ⊆ e.bytes ∧ 0x100000 ≤ 4096 * e.firstWholePage

/-- The pages of a descriptor. -/
def MapEntry.covers (d : MapEntry) (p : Nat) : Prop :=
  d.physicalStart >>> 12 ≤ p ∧ p < (d.physicalStart >>> 12) + d.numberOfPages

/-- What `allocator_init` writes for a descriptor. -/
def MapEntry.marks (d : MapEntry) : Bool :=
  !(d.type == efiConventionalMemory && d.physicalStart ≥ 0x100000)

/-! ## The conversion -/

section

variable {e e' : E820Entry} {d : MapEntry} {p : Nat}

theorem pageBytes_subset_iff : pageBytes p ⊆ e.bytes ↔
    e.base ≤ 4096 * p ∧ 4096 * (p + 1) ≤ e.base + e.length := by
  constructor
  · intro h
    have h1 := h (show 4096 * p ∈ pageBytes p from ⟨le_refl _, by omega⟩)
    have h2 := h (show 4096 * p + 4095 ∈ pageBytes p from ⟨by omega, by omega⟩)
    exact ⟨h1.1, by have := h2.2; omega⟩
  · rintro ⟨h1, h2⟩ x ⟨hx1, hx2⟩
    exact ⟨by omega, by omega⟩

/-- A page shares a byte with an entry. -/
theorem pageBytes_inter_iff : (pageBytes p ∩ e.bytes).Nonempty ↔
    e.base < 4096 * (p + 1) ∧ 4096 * p < e.base + e.length ∧ 0 < e.length := by
  constructor
  · rintro ⟨x, ⟨h1, h2⟩, h3, h4⟩
    exact ⟨by omega, by omega, by omega⟩
  · rintro ⟨h1, h2, h3⟩
    exact ⟨max (4096 * p) e.base, ⟨by omega, by omega⟩, ⟨by omega, by omega⟩⟩

theorem e820ToEfiType_eq_iff {type : Nat} : e820ToEfiType type = efiConventionalMemory ↔ type = 1 := by
  unfold e820ToEfiType
  split <;> simp_all [efiConventionalMemory]

theorem roundUp (n : Nat) :
    (n >>> 12) + (if n &&& 0xfff ≠ 0 then 1 else 0) = (n + 4095) / 4096 := by
  rw [shiftRight_twelve, show n &&& 0xfff = n % 4096 from and_mask_eq 12 n]
  split <;> omega

instance (d : MapEntry) (p : Nat) : Decidable (d.covers p) := inferInstanceAs (Decidable (_ ∧ _))

/-- **What a descriptor says about the pages.**  Usable memory is rounded inwards, everything else
outwards. -/
theorem convertEntry_some (h : convertEntry e = some d) :
    (∀ p, d.covers p ↔ if e.type = 1 then pageBytes p ⊆ e.bytes else (pageBytes p ∩ e.bytes).Nonempty) ∧
    (d.marks = false ↔ e.type = 1 ∧ 0x100000 ≤ 4096 * e.firstWholePage) := by
  rw [convertEntry] at h
  split at h
  · exact absurd h (by simp)
  rename_i hlen
  simp only [roundUp] at h
  simp only [shiftRight_twelve, e820ToEfiType_eq_iff] at h
  simp only [MapEntry.covers, MapEntry.marks, pageBytes_subset_iff, pageBytes_inter_iff,
    E820Entry.firstWholePage]
  by_cases htype : e.type = 1
  · simp only [htype, if_true] at h ⊢
    split at h
    · exact absurd h (by simp)
    rename_i hne
    obtain rfl := Option.some_inj.mp h
    have hef : e820ToEfiType 1 = efiConventionalMemory := e820ToEfiType_eq_iff.mpr rfl
    simp only [shiftRight_twelve, hef, beq_self_eq_true, Bool.true_and, Bool.not_eq_false',
      decide_eq_true_eq, true_and, ge_iff_le, Nat.shiftLeft_eq]
    exact ⟨fun p => by omega, by omega⟩
  · have hef : e820ToEfiType e.type ≠ efiConventionalMemory := fun hc => htype (e820ToEfiType_eq_iff.mp hc)
    simp only [htype, if_false] at h ⊢
    split at h
    · exact absurd h (by simp)
    rename_i hne
    obtain rfl := Option.some_inj.mp h
    simp only [shiftRight_twelve, Nat.shiftLeft_eq]
    exact ⟨fun p => by omega, by simp [hef]⟩

/-- Usable memory in front of the end of the address space is not skipped. -/
theorem exists_convertEntry (htype : e.type = 1) (hp : pageBytes p ⊆ e.bytes)
    (hlt : e.base + e.length < 2 ^ 64) : ∃ d, convertEntry e = some d := by
  obtain ⟨h1, h2⟩ := pageBytes_subset_iff.mp hp
  rw [convertEntry, if_neg (by omega)]
  simp only [roundUp]
  simp only [shiftRight_twelve, e820ToEfiType_eq_iff.mpr htype, if_true]
  rw [if_neg (by omega)]
  exact ⟨_, rfl⟩

/-- No entry that is converted reaches the end of the address space. -/
theorem lt_of_convertEntry (h : convertEntry e = some d) : e.base + e.length < 2 ^ 64 := by
  have hbase := e.base_lt
  rw [convertEntry] at h
  split at h
  · exact absurd h (by simp)
  · omega

end

/-! ## The bitmap -/

section

variable {entries : List E820Entry} {p : Nat}

/-- If all descriptors of a page agree, they decide about it. -/
theorem used_foldl_markEntry {v : Bool} : ∀ {l : List MapEntry} {bm : Bitmap},
    (∀ d ∈ l, d.covers p → d.marks = v) →
    ((∃ d ∈ l, d.covers p) → used (l.foldl markEntry bm) p = v) ∧
    ((∀ d ∈ l, ¬ d.covers p) → used (l.foldl markEntry bm) p = used bm p)
  | [], _, _ => ⟨fun ⟨_, hd, _⟩ => absurd hd (by simp), fun _ => rfl⟩
  | d :: l, bm, h => by
    have hstep : used (markEntry bm d) p = if d.covers p then d.marks else used bm p :=
      used_writeRange d.marks bm _ _ p
    obtain ⟨hcov, hnot⟩ := @used_foldl_markEntry v l (markEntry bm d)
      fun d' hd' => h d' (List.mem_cons_of_mem _ hd')
    refine ⟨fun hex => ?_, fun hno => ?_⟩
    · rw [List.foldl_cons]
      by_cases hl : ∃ d' ∈ l, d'.covers p
      · exact hcov hl
      · have hd : d.covers p := by
          obtain ⟨d', hd', hc⟩ := hex
          rcases List.mem_cons.mp hd' with rfl | hd'
          · exact hc
          · exact absurd ⟨d', hd', hc⟩ hl
        rw [hnot fun d' hd' hc => hl ⟨d', hd', hc⟩, hstep, if_pos hd]
        exact h d List.mem_cons_self hd
    · rw [List.foldl_cons, hnot fun d' hd' => hno d' (List.mem_cons_of_mem _ hd'), hstep,
        if_neg (hno d List.mem_cons_self)]

/-- Two entries that share a byte are the same. -/
theorem eq_of_mem_bytes (hdisj : entries.Pairwise fun a b => Disjoint a.bytes b.bytes) {a b : E820Entry}
    (ha : a ∈ entries) (hb : b ∈ entries) {x : Nat} (hxa : x ∈ a.bytes) (hxb : x ∈ b.bytes) : a = b := by
  have hsymm : Std.Symm fun a b : E820Entry => Disjoint a.bytes b.bytes := ⟨fun _ _ h => h.symm⟩
  by_contra hne
  exact Set.disjoint_left.mp (hdisj.forall ha hb hne) hxa hxb

/-- The descriptors of a page that an entry offers all say that it is free. -/
theorem marks_of_offers (hlen : entries.length ≤ 1024)
    (hdisj : entries.Pairwise fun a b => Disjoint a.bytes b.bytes) {e : E820Entry} (he : e ∈ entries)
    (hoff : e.Offers p) {d : MapEntry} (hd : d ∈ convertE820ToEfi entries) (hc : d.covers p) :
    d.marks = false := by
  rw [convertE820ToEfi, List.take_of_length_le hlen, List.mem_filterMap] at hd
  obtain ⟨e', he', hconv⟩ := hd
  obtain ⟨hcov, hmarks⟩ := convertEntry_some hconv
  obtain ⟨htype, hsub, hmib⟩ := hoff
  -- the entry of the descriptor has a byte of the page, and this byte is in `e`
  have hx : ∃ x ∈ pageBytes p, x ∈ e'.bytes := by
    have hc' := (hcov p).mp hc
    split at hc'
    · exact ⟨4096 * p, ⟨le_refl _, by omega⟩, hc' ⟨le_refl _, by omega⟩⟩
    · exact hc'
  obtain ⟨x, hxp, hxe⟩ := hx
  obtain rfl := eq_of_mem_bytes hdisj he' he hxe (hsub hxp)
  exact hmarks.mpr ⟨htype, hmib⟩

/-- A page that no entry offers has no descriptor that says that it is free. -/
theorem marks_of_not_offers (hno : ∀ e ∈ entries, e.base + e.length < 2 ^ 64 → ¬ e.Offers p)
    {d : MapEntry} (hd : d ∈ convertE820ToEfi entries) (hc : d.covers p) : d.marks = true := by
  rw [convertE820ToEfi, List.mem_filterMap] at hd
  obtain ⟨e, he, hconv⟩ := hd
  obtain ⟨hcov, hmarks⟩ := convertEntry_some hconv
  by_contra hne
  obtain ⟨htype, hmib⟩ := hmarks.mp (Bool.eq_false_iff.mpr hne)
  have hc' := (hcov p).mp hc
  rw [if_pos htype] at hc'
  exact hno e (List.mem_of_mem_take he) (lt_of_convertEntry hconv) ⟨htype, hc', hmib⟩

/-- **From E820 to the bitmap.**  For all lists of entries that do not overlap, a page is free after
`allocator_init` if and only if one usable entry, which has no pages below 1 MiB and ends in front of the
end of the address space, has all of its bytes, and it is no page of the kernel; a page with a byte that
is not usable is not free. -/
theorem e820_bitmap (hlen : entries.length ≤ 1024)
    (hdisj : entries.Pairwise fun a b => Disjoint a.bytes b.bytes) (memory : Bitmap)
    {kernelStart kernelEnd bitmapSize : Nat} (hstart : kernelStart % 4096 = 0)
    (hend : kernelEnd % 4096 = 0) (hle : kernelStart ≤ kernelEnd) (hlt : kernelEnd < 2 ^ 64)
    (hp : p < 8 * bitmapSize) :
    (used (initBitmap memory (convertE820ToEfi entries) kernelStart kernelEnd bitmapSize) p = false ↔
      (∃ e ∈ entries, e.base + e.length < 2 ^ 64 ∧ e.Offers p) ∧
        ¬ (kernelStart / 4096 ≤ p ∧ p < kernelEnd / 4096)) ∧
    ((∃ e ∈ entries, e.type ≠ 1 ∧ (pageBytes p ∩ e.bytes).Nonempty) →
      used (initBitmap memory (convertE820ToEfi entries) kernelStart kernelEnd bitmapSize) p = true) := by
  have hkernel : ((subU64 kernelEnd kernelStart + 4095) % 2 ^ 64) >>> 12 =
      kernelEnd / 4096 - kernelStart / 4096 := by
    rw [shiftRight_twelve, subU64]
    omega
  have hbm : used (initBitmap memory (convertE820ToEfi entries) kernelStart kernelEnd bitmapSize) p =
      if kernelStart / 4096 ≤ p ∧ p < kernelEnd / 4096 then true else
        used ((convertE820ToEfi entries).foldl markEntry
          fun i => if i < bitmapSize then 0xff#8 else memory i) p := by
    rw [initBitmap, used_writeRange, hkernel, shiftRight_twelve]
    exact if_congr (by omega) rfl rfl
  have hinit : used (fun i => if i < bitmapSize then 0xff#8 else memory i) p = true := by
    have hff : ∀ j, j < 8 → (0xff#8).getMsbD j = true := by decide
    rw [used_eq_bitAt, ByteBits.bitAt, if_pos (by omega)]
    exact hff _ (Nat.mod_lt _ (by decide))
  have hiff : used (initBitmap memory (convertE820ToEfi entries) kernelStart kernelEnd bitmapSize) p =
      false ↔ (∃ e ∈ entries, e.base + e.length < 2 ^ 64 ∧ e.Offers p) ∧
        ¬ (kernelStart / 4096 ≤ p ∧ p < kernelEnd / 4096) := by
    rw [hbm]
    split
    · rename_i hk
      exact iff_of_false (by simp) fun h => h.2 hk
    · rename_i hk
      by_cases hex : ∃ e ∈ entries, e.base + e.length < 2 ^ 64 ∧ e.Offers p
      · refine iff_of_true ?_ ⟨hex, hk⟩
        obtain ⟨e, he, hlt, hoff⟩ := hex
        obtain ⟨d, hconv⟩ := exists_convertEntry hoff.1 hoff.2.1 hlt
        refine (used_foldl_markEntry fun d hd hc => marks_of_offers hlen hdisj he hoff hd hc).1 ⟨d, ?_, ?_⟩
        · rw [convertE820ToEfi, List.take_of_length_le hlen]
          exact List.mem_filterMap.mpr ⟨e, he, hconv⟩
        · rw [(convertEntry_some hconv).1, if_pos hoff.1]
          exact hoff.2.1
      · -- whether a descriptor has the page or none has, it stays used
        refine iff_of_false ?_ fun h => hex h.1
        obtain ⟨hcov, hnot⟩ := @used_foldl_markEntry p true (convertE820ToEfi entries)
          (fun i => if i < bitmapSize then 0xff#8 else memory i)
          fun d hd hc => marks_of_not_offers (fun e he hlt hoff => hex ⟨e, he, hlt, hoff⟩) hd hc
        by_cases hd : ∃ d ∈ convertE820ToEfi entries, d.covers p
        · simp [hcov hd]
        · rw [hnot fun d hd' hc => hd ⟨d, hd', hc⟩, hinit]
          simp
  refine ⟨hiff, ?_⟩
  rintro ⟨e, he, htype, x, hxp, hxe⟩
  by_contra hused
  obtain ⟨⟨e', he', -, hoff⟩, -⟩ := hiff.mp (Bool.eq_false_iff.mpr hused)
  obtain rfl := eq_of_mem_bytes hdisj he' he (hoff.2.1 hxp) hxe
  exact htype hoff.1

end

/-! ## Two maps -/

/-- Reserved memory that starts in the middle of a usable page, in front of it in the list. -/
def unevenMap : List E820Entry := [{ base := 0x102800, length := 0x1000, type := 2 },
  { base := 0x100000, length := 0x2800, type := 1 }]

/-- Of the pages 256 to 259 the first is free; the second one is the kernel's, and the others contain
reserved bytes. -/
theorem e820_bitmap_uneven :
    (used (initBitmap (fun _ => 0) (convertE820ToEfi unevenMap) 0x101000 0x102000 33) 256 = false ↔
      (∃ e ∈ unevenMap, e.base + e.length < 2 ^ 64 ∧ e.Offers 256) ∧
        ¬ (0x101000 / 4096 ≤ 256 ∧ 256 < 0x102000 / 4096)) ∧
    ((∃ e ∈ unevenMap, e.type ≠ 1 ∧ (pageBytes 256 ∩ e.bytes).Nonempty) →
      used (initBitmap (fun _ => 0) (convertE820ToEfi unevenMap) 0x101000 0x102000 33) 256 = true) :=
  e820_bitmap (by decide) (by
    rw [unevenMap, List.pairwise_pair, E820Entry.bytes, E820Entry.bytes, Set.disjoint_left]
    rintro x ⟨h1, -⟩ ⟨-, h2⟩
    simp only at h1 h2
    omega) _ (by decide) (by decide) (by decide) (by decide) (by decide)

/-- The last four pages of the address space, the first of them reserved. -/
def topMap : List E820Entry := [{ base := 2 ^ 64 - 0x4000, length := 0x1000, type := 2 },
  { base := 2 ^ 64 - 0x3000, length := 0x3000, type := 1 }]

/-- **An entry that reaches the end of the address space is skipped**, so that its pages are not free
although they are usable. -/
theorem last_page_not_free : ¬ ∀ (entries : List E820Entry), entries.length ≤ 1024 →
    (entries.Pairwise fun a b => Disjoint a.bytes b.bytes) → ∀ (memory : Bitmap)
    (kernelStart kernelEnd bitmapSize : Nat), kernelStart % 4096 = 0 → kernelEnd % 4096 = 0 →
    kernelStart ≤ kernelEnd → kernelEnd ≤ 4096 * (8 * bitmapSize) → kernelEnd < 2 ^ 64 →
    findHighestPage (convertE820ToEfi entries) ≤ 8 * bitmapSize → ∀ p, p < 8 * bitmapSize →
    (used (initBitmap memory (convertE820ToEfi entries) kernelStart kernelEnd bitmapSize) p = false ↔
      (∃ e ∈ entries, e.Offers p) ∧ ¬ (kernelStart / 4096 ≤ p ∧ p < kernelEnd / 4096)) := by
  intro h
  have hused : used (initBitmap (fun _ => 0) (convertE820ToEfi topMap) 0x100000 0x101000 (2 ^ 49))
      (2 ^ 52 - 1) = true := by decide +kernel
  have hdisj : topMap.Pairwise fun a b => Disjoint a.bytes b.bytes := by
    rw [topMap, List.pairwise_pair, E820Entry.bytes, E820Entry.bytes, Set.disjoint_left]
    rintro x ⟨-, h1⟩ ⟨h2, -⟩
    simp only at h1 h2
    omega
  have hfree := (h topMap (by decide) hdisj (fun _ => 0) 0x100000 0x101000 (2 ^ 49) (by decide) (by decide)
    (by decide) (by decide) (by decide) (by decide +kernel) (2 ^ 52 - 1) (by decide)).mpr
    ⟨⟨_, List.mem_cons_of_mem _ List.mem_cons_self, rfl, pageBytes_subset_iff.mpr (by decide), by decide⟩,
      by decide⟩
  rw [hused] at hfree
  exact absurd hfree (by simp)

end Dem64
