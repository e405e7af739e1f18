import Dem64.Dma.Separate

/-!
# What `free_dma` gives back

`free_dma` gives back the frames, the extents and the pages of its own allocation when it finds its own
descriptor, and that is so exactly when there is no signature in front of it (`freeDma_own_iff`).  The owner may
have written one (`not_freeDma_own`), and so may the allocator itself, for an earlier buffer.
-/

set_option autoImplicit false

namespace Dem64

open ByteMemory

/-- The allocation is given back, and nothing else except metadata pages that have become empty, and page tables. -/
structure GivesBack (pml4 : Nat) (w : DmaWorld) (a : Allocation) (w' : DmaWorld) : Prop where
  /-- The descriptor that is found is the one at the end of the buffer. -/
  found : Ends (fun n => w.findDescriptorBase pml4 n a.ret.virtualAddress)
    (a.ret.virtualAddress + (4096 * a.ret.sizeInPages - 28))
  /-- The frames of the buffer are cleared. -/
  cleared : ∀ fr ∈ a.ret.frames, fr ∉ w'.machine.frames.usedPages
  /-- No frame is marked. -/
  unmarked : w'.machine.frames.usedPages ⊆ w.machine.frames.usedPages
  /-- What else is cleared was a page table, or a metadata page behind those that are left. -/
  only : ∀ fr ∈ w.machine.frames.usedPages, fr ∉ w'.machine.frames.usedPages → fr ∈ a.ret.frames ∨
    (∃ k p, k ≤ 3 ∧ tableAt w.machine.mem (pml4 >>> 12) k p = some fr) ∨
    ∃ k, w'.pool.dmaMetadataPages < k ∧ k ≤ w.pool.dmaMetadataPages ∧
      w.physical pml4 (⟨k, 0⟩ : EntryPtr).addr = some (4096 * fr)
  /-- The extents of the allocation are free. -/
  freed : ∀ x ∈ a.extents, (w'.pool.entry x).status = .free
  /-- The others are as they were. -/
  others : ∀ x, x ∉ a.extents → x.slot ≠ 0 → (w'.pool.entry x).status = (w.pool.entry x).status ∧
    (w'.pool.entry x).sizeInPages = (w.pool.entry x).sizeInPages
  /-- The pages of the buffer are not mapped. -/
  unmapped : ∀ v ∈ a.region.pages, walk w'.machine.mem (pml4 >>> 12) v = none
  /-- All others are mapped as before, except for metadata pages behind those that are left. -/
  kept : ∀ v, v < 2 ^ 36 → v ∉ a.region.pages →
    v ∉ Set.Ioc (dmaLo + 2 ^ 18 + w'.pool.dmaMetadataPages) (dmaLo + 2 ^ 18 + w.pool.dmaMetadataPages) →
      walk w'.machine.mem (pml4 >>> 12) v = walk w.machine.mem (pml4 >>> 12) v

section

variable {base : Set Nat} {pml4 : Nat} {w w' w₀ : DmaWorld} {live live' : List Allocation} {ptrs : List EntryPtr}
  {f : Nat → Nat} {a : Allocation}

/-- The first metadata page is never given back. -/
theorem DmaPool.LastPages.of_zero {p : DmaPool} {own : List EntryPtr} (h : p.dmaMetadataPages = 0) :
    p.LastPages own :=
  ⟨fun k h1 h2 => absurd (h1.trans_lt h2) (by rw [h]; omega),
    fun k h1 h2 => absurd (h1.trans h2) (by rw [h]; omega)⟩

/-- A metadata page is mapped to its frame. -/
theorem DmaInv.metaPage (h : DmaInv pml4 base live w ptrs f) {k : Nat} (hk : k ≤ w.pool.dmaMetadataPages) :
    w.physical pml4 (⟨k, 0⟩ : EntryPtr).addr = some (4096 * f k) := by
  have hmany := h.pool.pages_le
  have htotal := h.pool.total_le
  have hmem : metaRegion f k ∈ metaRegions f (w.pool.dmaMetadataPages + 1) :=
    List.mem_map_of_mem (List.mem_range.mpr (by omega))
  have hback := h.arena.backed _ (List.mem_append_left _ hmem)
  have hcont : Contiguous pml4 w (dmaBase + 4096 * (2 ^ 18 + k)) (4096 * f k) (4096 * 1) :=
    hback.contiguous (Nat.add_assoc _ _ _) (show 2 ^ 18 + k + 1 ≤ 2 ^ 19 by omega)
  have haddr : (⟨k, 0⟩ : EntryPtr).addr = dmaBase + 4096 * (2 ^ 18 + k) + 0 := by
    have hpool : dmaPoolBase = dmaBase + 4096 * 2 ^ 18 := rfl
    rw [EntryPtr.addr, hpool]
    simp only
    omega
  rw [haddr]
  exact hcont 0 (by decide)

/-- **An allocation is given back, and nothing else.** -/
theorem DmaInv.givesBack (h : DmaInv pml4 base (a :: live') w ptrs f) (hpml4 : pml4 ≠ 0) (hfirst : a.NoSignBefore w)
    (hlast : w.pool.LastPages a.extents) :
    ∃ w', Ends (fun n => freeDma pml4 n w a.ret.virtualAddress) w' ∧ GivesBack pml4 w a w' := by
  obtain ⟨w', s, q, r, hends, hg, -⟩ := h.free hpml4 hfirst hlast
  have hrest := hg.rest
  have hpool : w'.pool = r.1 := by rw [hrest]
  have hM : q.dmaMetadataPages = w.pool.dmaMetadataPages := by rw [hg.released.same]
  have hle : w'.pool.dmaMetadataPages ≤ w.pool.dmaMetadataPages := by
    rw [hpool, ← hM]
    exact hg.reclaimed.le
  -- the marks only go away, those of the buffer first
  have hused : w'.machine.frames.usedPages ⊆ s.usedPages :=
    hg.withdrawn.used.trans hg.reclaimed.withdrawn.used
  have hperm : (metaRegions f (w.pool.dmaMetadataPages + 1) ++ (a :: live').map Allocation.region).Perm
      (a.region :: (metaRegions f (w.pool.dmaMetadataPages + 1) ++ live'.map Allocation.region)) := by
    rw [List.map_cons]
    exact List.perm_middle
  refine ⟨w', hends, ⟨Ends.of_lt fun n => h.find List.mem_cons_self hfirst n, fun fr hfr hc => ?_, fun fr hfr => ?_,
    fun fr hfr hgone => ?_, fun x hx => ?_, fun x hx hslot => ?_, fun v hv => ?_, fun v hv hout hmeta => ?_⟩⟩
  · exact ((hg.frames fr).mp (hused hc)).2 hfr
  · exact ((hg.frames fr).mp (hused hfr)).1
  · -- what is in use belongs to a page, to a buffer or to a table
    rw [hg.backed.stock.mem_used] at hgone
    simp only [not_or, not_exists, not_and] at hgone
    obtain ⟨hbase, hregion, -⟩ := hgone
    rcases (h.stock.mem_used fr).mp hfr with hb | ⟨t, ht, hft⟩ | htable
    · exact absurd hb hbase
    · rcases List.mem_append.mp ht with ht | ht
      · obtain ⟨k, hk, rfl⟩ := List.mem_map.mp ht
        have hk' := List.mem_range.mp hk
        obtain rfl : fr = f k := by
          obtain ⟨h1, h2⟩ := hft
          simp only [metaRegion] at h1 h2
          omega
        refine .inr (.inr ⟨k, ?_, by omega, h.metaPage (by omega)⟩)
        by_contra hc
        exact hregion _ (List.mem_append_left _ (List.mem_map_of_mem (List.mem_range.mpr (by omega)))) hft
      · obtain ⟨b, hb, rfl⟩ := List.mem_map.mp ht
        rcases List.mem_cons.mp hb with rfl | hb
        · exact .inl hft
        · exact absurd hft (hregion _ (List.mem_append_right _ (List.mem_map_of_mem hb)))
    · exact .inr (.inl htable)
  · rw [hpool, (hg.reclaimed.same x).1, hg.released.freed x hx]
  · rw [hpool, (hg.reclaimed.same x).1, (hg.reclaimed.same x).2, hg.released.others x hx hslot]
    exact ⟨rfl, rfl⟩
  · -- no other region has these pages
    have hin := h.arena.inside a.region (List.mem_append_right _ List.mem_cons_self)
    obtain ⟨h1, h2⟩ := hv
    refine hg.backed.arena.vacant v (hin.1.trans h1) (h2.trans_le hin.2) fun t ht hvt => ?_
    have hmem : t ∈ metaRegions f (w.pool.dmaMetadataPages + 1) ++ live'.map Allocation.region := by
      rcases List.mem_append.mp ht with ht | ht
      · obtain ⟨k, hk, rfl⟩ := List.mem_map.mp ht
        have hk' := List.mem_range.mp hk
        exact List.mem_append_left _ (List.mem_map_of_mem (List.mem_range.mpr (by omega)))
      · exact List.mem_append_right _ ht
    have hdisj := (List.pairwise_cons.mp (h.arena.perm hperm).disjoint).1 t hmem
    exact Set.disjoint_left.mp hdisj ⟨h1, h2⟩ hvt
  · rw [hg.withdrawn.kept v hv hout]
    refine hg.reclaimed.withdrawn.kept v hv ?_
    rwa [hM, ← hpool]

/-- The first signature in the buffer is the one that is found. -/
theorem DmaInv.noSignBefore (h : DmaInv pml4 base live w ptrs f) (ha : a ∈ live)
    (hfound : Ends (fun n => w.findDescriptorBase pml4 n a.ret.virtualAddress)
      (a.ret.virtualAddress + (4096 * a.ret.sizeInPages - 28))) : a.NoSignBefore w := by
  intro i hi hsign
  have hex : ∃ i, HasBytes w.bytes (a.ret.physicalAddress + i) dmaSign := ⟨i, hsign⟩
  classical
  have hle : Nat.find hex ≤ i := Nat.find_min' hex hsign
  have hfind := DmaWorld.findDescriptorBase_spec (i := 0) (d := Nat.find hex) (h.contiguous ha)
    (by rw [Nat.zero_add]; exact Nat.find_spec hex) (by omega)
    (fun j hj => by rw [Nat.zero_add]; exact Nat.find_min hex hj) (Nat.find hex + 1)
  rw [if_pos (Nat.lt_succ_self _)] at hfind
  have heq := hfound.2 _ _ hfind
  omega

/-- **When `free_dma` gives back its own allocation.**  In any state that a regular run leads to, the metadata
pages that would be given back being the last ones, it is when there is no signature in front of its own. -/
theorem freeDma_own_iff (h₀ : DmaBoot pml4 base w₀) (h : DmaRun pml4 (Regular pml4) w₀ live w) (ha : a ∈ live)
    (hlast : w.pool.LastPages a.extents) :
    (∃ w', Ends (fun n => freeDma pml4 n w a.ret.virtualAddress) w' ∧ GivesBack pml4 w a w') ↔ a.NoSignBefore w := by
  cases h.state h₀ with
  | boot => cases ha
  | pool hinv =>
    refine ⟨fun ⟨_, _, hg⟩ => hinv.noSignBefore ha hg.found, fun hfirst => ?_⟩
    exact (hinv.perm (List.perm_cons_erase ha)).givesBack h₀.pml4_ne hfirst hlast

end

/-- The first buffer is given back. -/
theorem freeDma_own_first : ∃ a w w', DmaRun 0x2000 (Regular 0x2000) freshWorld [a] w ∧
    Ends (fun n => freeDma 0x2000 n w a.ret.virtualAddress) w' ∧ GivesBack 0x2000 w a w' := by
  obtain ⟨⟨ret, own, w⟩, hcall, hr, hM⟩ := freshWorld_call
  obtain ⟨l, hl, hb⟩ := hr.bytes hcall (by decide) (by decide)
  obtain rfl : ret = ⟨0, 1, dmaBase, 28672⟩ := hr.ret
  have hrun := DmaRun.allocate .boot (freshWorld_regular hcall hr) hcall rfl
  have hfirst : (⟨100, ⟨0, 1, dmaBase, 28672⟩, own⟩ : Allocation).NoSignBefore w := by
    intro i hi
    have hlt : i + 28 < 4096 * 1 := hi
    refine not_sign_of_zero ?_
    show w.bytes (28672 + i) = 0
    rw [hb, putBytes_of_lt (by omega)]
    rfl
  obtain ⟨w', hends, hg⟩ := (freeDma_own_iff freshWorld_boot hrun List.mem_cons_self
    (DmaPool.LastPages.of_zero hM)).mpr hfirst
  exact ⟨_, w, w', hrun, hends, hg⟩

/-- Steps that succeed; the owners write to the bytes they have asked for. -/
def OwnersWrite (pml4 : Nat) (live : List Allocation) (w : DmaWorld) : DmaStep → Prop
  | .write bytes => ∀ x, bytes x ≠ w.bytes x →
      ∃ a ∈ live, a.ret.physicalAddress ≤ x ∧ x < a.ret.physicalAddress + a.size
  | s => Unhindered pml4 live w s

/-- **A signature that the owner writes.**  It is found first. -/
theorem not_freeDma_own : ¬ ∀ (base : Set Nat) (pml4 : Nat) (w₀ w : DmaWorld) (live : List Allocation)
    (a : Allocation), DmaBoot pml4 base w₀ → DmaRun pml4 (OwnersWrite pml4) w₀ live w → a ∈ live →
      ∃ w', Ends (fun n => freeDma pml4 n w a.ret.virtualAddress) w' ∧ GivesBack pml4 w a w' := by
  intro hclaim
  obtain ⟨⟨ret, own, w⟩, hcall, hr, -⟩ := freshWorld_call
  obtain rfl : ret = ⟨0, 1, dmaBase, 28672⟩ := hr.ret
  have hcont := hr.contiguous (by decide)
  have hsign : dmaSign.length = 8 := rfl
  have hrun : DmaRun 0x2000 (OwnersWrite 0x2000) freshWorld [⟨100, ⟨0, 1, dmaBase, 28672⟩, own⟩] w := by
    refine .allocate .boot (fun ret' own' w' hcall' => ?_) hcall rfl
    cases hcall.symm.trans hcall'
    exact ⟨rfl, hr.noFail⟩
  have hwrite : DmaRun 0x2000 (OwnersWrite 0x2000) freshWorld [⟨100, ⟨0, 1, dmaBase, 28672⟩, own⟩]
      { w with bytes := putBytes w.bytes 28672 dmaSign } := by
    refine .write hrun (fun x hx => ⟨_, List.mem_cons_self, ?_⟩) fun a ha i h1 h2 => ?_
    · show 28672 ≤ x ∧ x < 28672 + 100
      by_contra hc
      refine hx ?_
      rcases Nat.lt_or_ge x 28672 with hlt | hge
      · exact putBytes_of_lt hlt
      · exact putBytes_of_ge (by omega)
    · obtain rfl := List.mem_singleton.mp ha
      exact putBytes_of_ge (by rw [hsign]; exact Nat.add_le_add_left ((by decide : 8 ≤ 100).trans h1) _)
  obtain ⟨w', -, hg⟩ := hclaim _ _ _ _ _ _ freshWorld_boot hwrite List.mem_cons_self
  have hfind := DmaWorld.findDescriptorBase_spec (w := { w with bytes := putBytes w.bytes 28672 dmaSign })
    (i := 0) (d := 0) (hcont.congr rfl) hasBytes_putBytes (by decide) (fun j hj => absurd hj (Nat.not_lt_zero j)) 1
  have heq : dmaBase + 0 = dmaBase + (4096 * 1 - 28) := hg.found.2 1 _ hfind
  exact absurd (Nat.add_left_cancel heq) (by decide)

end Dem64
