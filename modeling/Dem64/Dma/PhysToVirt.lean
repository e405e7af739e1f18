import Dem64.Dma.Separate

/-!
# `dma_phys_to_virt`

The search goes through the window from page to page, or from large page to large page, and looks at the first
frame of each.  It stops at the first page that is not mapped.  So a frame of a live buffer is found exactly when
no page in front of it is free, and when it is the first one of a leaf (`dmaPhysToVirt_iff`): the code misses
frames behind a buffer that was given back, and the inner frames of a large page.
-/

set_option autoImplicit false

namespace Dem64

/-! ## From leaf to leaf -/

/-- If the page is mapped, it is the first one of its leaf. -/
def LeafStart (root : Nat) (m : Machine) (v : Nat) : Prop :=
  ∀ k e, walk m.mem root v = some (k, e) → v % span k = 0

section

variable {root k e v : Nat} {m : Machine}

/-- Behind a leaf there is the start of another. -/
theorem LeafStart.next (h : LeafStart root m v) (hw : walk m.mem root v = some (k, e)) (hv : v + span k < 2 ^ 36) :
    LeafStart root m (v + span k) := by
  intro k' e' hw'
  have hmod := h k e hw
  have hlt : v < 2 ^ 36 := by omega
  obtain ⟨hk1, hk3⟩ := walk_depth hlt hw
  obtain ⟨hk1', hk3'⟩ := walk_depth hv hw'
  by_contra hne
  -- a leaf that begins further down would have the page `v`, too
  have hslot : v / span k' = (v + span k) / span k' := by
    have h1 : span 1 = 2 ^ 18 := rfl
    have h2 : span 2 = 512 := rfl
    have h3 : span 3 = 1 := rfl
    obtain rfl | rfl | rfl : k = 1 ∨ k = 2 ∨ k = 3 := by omega
    all_goals
      obtain rfl | rfl | rfl : k' = 1 ∨ k' = 2 ∨ k' = 3 := by omega
      all_goals simp only [h1, h2, h3] at hmod hne ⊢; omega
  have hsame := walk_congr hlt hv hw' hslot
  obtain ⟨rfl, rfl⟩ := Prod.mk.inj (Option.some.inj (hw.symm.trans hsame))
  exact hne (by rw [Nat.add_mod_right]; exact hmod)

end

/-- The window starts with a leaf: it is aligned to 1 GiB. -/
theorem leafStart_dmaLo {root : Nat} {m : Machine} : LeafStart root m dmaLo := by
  intro k e hw
  have hdvd : ∀ k < 4, 1 ≤ k → dmaLo % span k = 0 := by decide
  obtain ⟨hk1, hk3⟩ := walk_depth (by decide) hw
  exact hdvd k (by omega) hk1

/-! ## The loop -/

section

variable {pml4 offset frame n : Nat} {m : Machine}

/-- The search never goes back. -/
theorem physToVirtLoop_ge {pagePhys i r : Nat} (h : physToVirtLoop m pml4 pagePhys offset n i = some r) :
    r = 1 ∨ i + offset ≤ r := by
  induction n generalizing i with
  | zero => cases h
  | succ n ih =>
    rw [physToVirtLoop] at h
    split at h
    · dsimp only at h
      split at h
      · exact .inl (Option.some.inj h).symm
      · split at h
        · exact .inr (Option.some.inj h).le
        · split at h
          · exact (ih h).imp_right fun hle => by omega
          · split at h
            · exact (ih h).imp_right fun hle => by omega
            · exact (ih h).imp_right fun hle => by omega
    · exact .inl (Option.some.inj h).symm

/-- A step of the search, at a page that is mapped. -/
theorem physToVirtLoop_step {j k e : Nat} (hpml4 : pml4 ≠ 0) (hj : j < 2 ^ 16)
    (hw : walk m.mem (pml4 >>> 12) (dmaLo + j) = some (k, e)) :
    physToVirtLoop m pml4 (4096 * frame) offset (n + 1) (dmaBase + 4096 * j) =
      if e / 4096 = frame then some (dmaBase + 4096 * j + offset)
      else physToVirtLoop m pml4 (4096 * frame) offset n (dmaBase + 4096 * (j + span k)) := by
  have hpage := (dma_range (k := j) (le_refl 1) (by omega)).2.1
  have hlo : dmaLo + 2 ^ 19 ≤ 2 ^ 36 := by decide
  obtain ⟨hk1, hk3⟩ := walk_depth (by omega) hw
  have hin : dmaBase + 4096 * j < dmaBase + dmaWindow := by
    rw [dmaWindow]
    omega
  rw [physToVirtLoop, if_pos hin, pagingLookup_of_walk hpml4 (by rw [hpage]; exact hw)]
  dsimp only
  rw [if_neg (by decide), addrOf_eq]
  refine if_congr (by omega) rfl ?_
  have h1 : span 1 = 2 ^ 18 := rfl
  have h2 : span 2 = 512 := rfl
  have h3 : span 3 = 1 := rfl
  obtain rfl | rfl | rfl : k = 1 ∨ k = 2 ∨ k = 3 := by omega
  · rw [if_neg (by decide), if_neg (by decide), h1, Nat.mul_add, ← Nat.add_assoc]
    rfl
  · rw [if_neg (by decide), if_pos (by decide), h2, Nat.mul_add, ← Nat.add_assoc]
  · rw [if_pos (by decide), h3, Nat.mul_add, ← Nat.add_assoc]

/-- **Where the search finds a page.**  It does so when everything in front of the page is mapped, and the page is
the first one of its leaf; the frame must be in no other place. -/
theorem physToVirtLoop_iff {j t : Nat} (offset : Nat) (hpml4 : pml4 ≠ 0) (hwf : WellFormed m (pml4 >>> 12))
    (ht : t < 2 ^ 16) (hjt : j ≤ t) (hn : t - j < n) (hstart : LeafStart (pml4 >>> 12) m (dmaLo + j))
    (hframe : ∀ k e, walk m.mem (pml4 >>> 12) (dmaLo + t) = some (k, e) → (dmaLo + t) % span k = 0 → e / 4096 = frame)
    (huniq : ∀ u k e, u ≤ t → walk m.mem (pml4 >>> 12) (dmaLo + u) = some (k, e) → (dmaLo + u) % span k = 0 →
      e / 4096 = frame → u = t) :
    physToVirtLoop m pml4 (4096 * frame) offset n (dmaBase + 4096 * j) = some (dmaBase + 4096 * t + offset) ↔
      (∀ u, j ≤ u → u ≤ t → walk m.mem (pml4 >>> 12) (dmaLo + u) ≠ none) ∧
        LeafStart (pml4 >>> 12) m (dmaLo + t) := by
  have hlo : dmaLo + 2 ^ 19 ≤ 2 ^ 36 := by decide
  have hone : ∀ x, (1 : Nat) ≠ dmaBase + 4096 * t + x := fun x => by
    rw [dmaBase]
    omega
  induction n generalizing j with
  | zero => exact absurd hn (Nat.not_lt_zero _)
  | succ n ih =>
    cases hw : walk m.mem (pml4 >>> 12) (dmaLo + j) with
    | none =>
      refine iff_of_false ?_ fun h => h.1 j (le_refl j) hjt hw
      have hpage := (dma_range (k := j) (le_refl 1) (by omega)).2.1
      have hin : dmaBase + 4096 * j < dmaBase + dmaWindow := by
        rw [dmaWindow]
        omega
      rw [physToVirtLoop, if_pos hin, if_pos (pagingLookup_of_none hwf (by rw [hpage]; exact hw))]
      exact fun h => hone _ (Option.some.inj h)
    | some leaf =>
      obtain ⟨k, e⟩ := leaf
      have hmod := hstart k e hw
      rw [physToVirtLoop_step hpml4 (by omega) hw]
      split
      · -- it is this one
        rename_i he
        obtain rfl := huniq j k e hjt hw hmod he
        refine iff_of_true rfl ⟨fun u h1 h2 => ?_, hstart⟩
        obtain rfl := Nat.le_antisymm h2 h1
        rw [hw]
        exact Option.some_ne_none _
      · rename_i he
        have hne : j ≠ t := by
          rintro rfl
          exact he (hframe k e hw hmod)
        have hspan := span_pos k
        have hleaf : ∀ u, j ≤ u → u < j + span k → dmaLo + u < 2 ^ 36 →
            walk m.mem (pml4 >>> 12) (dmaLo + u) = some (k, e) := by
          intro u h1 h2 h3
          refine walk_congr h3 (by omega) hw ?_
          obtain ⟨q, hq⟩ := Nat.dvd_of_mod_eq_zero hmod
          rw [hq, Nat.mul_div_cancel_left _ hspan]
          refine Nat.div_eq_of_lt_le ?_ ?_
          · rw [Nat.mul_comm, ← hq]
            omega
          · rw [Nat.succ_mul, Nat.mul_comm, ← hq]
            omega
        by_cases hle : j + span k ≤ t
        · have hnext := hstart.next hw (by omega)
          rw [Nat.add_assoc] at hnext
          refine (ih hle (by omega) hnext).trans ?_
          refine and_congr_left fun _ => ⟨fun h u h1 h2 => ?_, fun h u h1 h2 => h u (by omega) h2⟩
          rcases Nat.lt_or_ge u (j + span k) with hlt | hge
          · rw [hleaf u h1 hlt (by omega)]
            exact Option.some_ne_none _
          · exact h u hge h2
        · -- the page is an inner one of a large page
          refine iff_of_false (fun h => ?_) fun h => ?_
          · rcases physToVirtLoop_ge h with h | h
            · exact hone _ h.symm
            · omega
          · have htmod := h.2 k e (hleaf t hjt (by omega) (by omega))
            obtain ⟨q, hq⟩ := Nat.dvd_of_mod_eq_zero hmod
            obtain ⟨q', hq'⟩ := Nat.dvd_of_mod_eq_zero htmod
            have hlt : span k * q < span k * q' := by omega
            have hle' := Nat.mul_le_mul_left (span k) (Nat.lt_of_mul_lt_mul_left hlt)
            rw [Nat.mul_succ] at hle'
            omega

end

/-! ## In a run -/

/-- The search comes to the page at `va`: everything from the start of the window up to it is mapped, and it is the
first page of its leaf. -/
structure InReach (pml4 : Nat) (m : Machine) (va : Nat) : Prop where
  /-- There is no hole in front of it. -/
  mapped : ∀ v, dmaLo ≤ v → v ≤ pageOf va → walk m.mem (pml4 >>> 12) v ≠ none
  /-- It is not an inner page of a large page. -/
  start : LeafStart (pml4 >>> 12) m (pageOf va)

section

variable {base : Set Nat} {pml4 i : Nat} {w w₀ : DmaWorld} {live : List Allocation} {ptrs : List EntryPtr}
  {f : Nat → Nat} {a : Allocation}

/-- The frame behind a page of the window, when the page is the first one of its leaf. -/
theorem Region.Backed.frame_eq {root v k e : Nat} {m : Machine} {r : Region} (h : r.Backed root m) (hv : v ∈ r.pages)
    (hw : walk m.mem root v = some (k, e)) (hstart : v % span k = 0) : e / 4096 = r.frame + (v - r.page) := by
  obtain ⟨k', e', hw', -, -, he⟩ := h v hv
  obtain ⟨rfl, rfl⟩ := Prod.mk.inj (Option.some.inj (hw.symm.trans hw'))
  rwa [hstart, Nat.add_zero] at he

theorem DmaInv.physToVirt (h : DmaInv pml4 base live w ptrs f) (hpml4 : pml4 ≠ 0) (ha : a ∈ live)
    (hwindow : a.ret.virtualAddress + 4096 * a.ret.sizeInPages ≤ dmaBase + dmaWindow)
    (hi : i < 4096 * a.ret.sizeInPages) :
    dmaPhysToVirt w.machine pml4 (a.ret.physicalAddress + i) = some (a.ret.virtualAddress + i) ↔
      InReach pml4 w.machine (a.ret.virtualAddress + i) := by
  obtain ⟨k, hbase, hk, hpage⟩ := h.region_inWindow ha
  have hmod := (h.sound a ha).2
  have hframe : a.region.frame = a.ret.physicalAddress / 4096 := rfl
  have hcount : a.region.count = a.ret.sizeInPages := rfl
  have hlo : dmaLo + 2 ^ 19 ≤ 2 ^ 36 := by decide
  have hregion : a.region ∈ metaRegions f (w.pool.dmaMetadataPages + 1) ++ live.map Allocation.region :=
    List.mem_append_right _ (List.mem_map_of_mem ha)
  have hback := h.arena.backed _ hregion
  -- the page and the frame that are asked for
  have hva : pageOf (a.ret.virtualAddress + i) = dmaLo + (k + i / 4096) := by
    rw [hbase, dmaLo, dmaBase, pageOf, pageOf]
    omega
  have hin : dmaLo + (k + i / 4096) ∈ a.region.pages := by
    rw [Region.pages, Set.mem_Ico]
    omega
  have hphys : addrOf (a.ret.physicalAddress + i) = 4096 * (a.ret.physicalAddress / 4096 + i / 4096) := by
    rw [addrOf_eq]
    omega
  have hoffset : (a.ret.physicalAddress + i) &&& 0xfff = i % 4096 := by
    rw [show (0xfff : Nat) = 2 ^ 12 - 1 from rfl, Nat.and_two_pow_sub_one_eq_mod]
    omega
  have hsmall : k + i / 4096 < 2 ^ 16 := by
    rw [hbase, dmaWindow] at hwindow
    omega
  have htarget : ∀ j e, walk w.machine.mem (pml4 >>> 12) (dmaLo + (k + i / 4096)) = some (j, e) →
      (dmaLo + (k + i / 4096)) % span j = 0 → e / 4096 = a.ret.physicalAddress / 4096 + i / 4096 := by
    intro j e hw hj
    rw [hback.frame_eq hin hw hj]
    omega
  -- no other page has the frame
  have huniq : ∀ u j e, u ≤ k + i / 4096 → walk w.machine.mem (pml4 >>> 12) (dmaLo + u) = some (j, e) →
      (dmaLo + u) % span j = 0 → e / 4096 = a.ret.physicalAddress / 4096 + i / 4096 → u = k + i / 4096 := by
    intro u j e hu hw hj he
    obtain ⟨r, hr, hur⟩ : ∃ r ∈ metaRegions f (w.pool.dmaMetadataPages + 1) ++ live.map Allocation.region,
        dmaLo + u ∈ r.pages := by
      by_contra hno
      have hhi : dmaLo + u < dmaHi := by
        have hdef : dmaHi = dmaLo + 2 ^ 19 := rfl
        omega
      have hnone := h.arena.vacant (dmaLo + u) (Nat.le_add_right _ _) hhi fun r hr hur => hno ⟨r, hr, hur⟩
      rw [hw] at hnone
      cases hnone
    have hfr := (h.arena.backed r hr).frame_eq hur hw hj
    have hmem : e / 4096 ∈ r.frames := by
      obtain ⟨h1, h2⟩ := hur
      rw [Region.frames, Set.mem_Ico]
      omega
    have hmem' : e / 4096 ∈ a.region.frames := by
      rw [Region.frames, Set.mem_Ico]
      omega
    have : Std.Symm fun r s : Region => Disjoint r.frames s.frames := ⟨fun _ _ hd => hd.symm⟩
    obtain rfl : r = a.region := by
      by_contra hne
      exact Set.disjoint_left.mp (h.stock.disjoint.forall hr hregion hne) hmem hmem'
    obtain ⟨h1, h2⟩ := hur
    omega
  have hloop := physToVirtLoop_iff (n := dmaWindow / 4096 + 1) (i % 4096) hpml4 h.arena.wellFormed hsmall
    (Nat.zero_le _) (by rw [dmaWindow]; omega) leafStart_dmaLo htarget huniq
  have hresult : dmaBase + 4096 * (k + i / 4096) + i % 4096 = a.ret.virtualAddress + i := by omega
  rw [hresult] at hloop
  rw [dmaPhysToVirt, hphys, hoffset]
  refine hloop.trans ⟨?_, fun hr => ⟨fun u _ hu => ?_, ?_⟩⟩
  · rintro ⟨hm, hs⟩
    refine ⟨fun v h1 h2 => ?_, by rw [hva]; exact hs⟩
    obtain ⟨u, rfl⟩ := Nat.exists_eq_add_of_le h1
    exact hm u (Nat.zero_le u) (by omega)
  · exact hr.mapped _ (Nat.le_add_right _ _) (by omega)
  · rw [← hva]
    exact hr.start

/-- **When `dma_phys_to_virt` finds a byte of a live buffer.**  In any state that a regular run leads to, as long as
the buffer lies in the window that is searched. -/
theorem dmaPhysToVirt_iff (h₀ : DmaBoot pml4 base w₀) (h : DmaRun pml4 (Regular pml4) w₀ live w) (ha : a ∈ live)
    (hwindow : a.ret.virtualAddress + 4096 * a.ret.sizeInPages ≤ dmaBase + dmaWindow)
    (hi : i < 4096 * a.ret.sizeInPages) :
    dmaPhysToVirt w.machine pml4 (a.ret.physicalAddress + i) = some (a.ret.virtualAddress + i) ↔
      InReach pml4 w.machine (a.ret.virtualAddress + i) := by
  cases h.state h₀ with
  | boot => cases ha
  | pool hinv => exact hinv.physToVirt h₀.pml4_ne ha hwindow hi

end

/-- The sixth byte of the first buffer is found. -/
theorem dmaPhysToVirt_first : ∃ a w, DmaRun 0x2000 (Regular 0x2000) freshWorld [a] w ∧
    dmaPhysToVirt w.machine 0x2000 (a.ret.physicalAddress + 5) = some (a.ret.virtualAddress + 5) := by
  obtain ⟨⟨ret, own, w⟩, hcall, hr, -⟩ := freshWorld_call
  obtain rfl : ret = ⟨0, 1, dmaBase, 28672⟩ := hr.ret
  have hrun := DmaRun.allocate .boot (freshWorld_regular hcall hr) hcall rfl
  have hall : ((allocateDma 0x2000 9000 blankPage freshWorld 100).any fun r =>
      decide (walk r.2.2.machine.mem (0x2000 >>> 12) dmaLo ≠ none)) = true := by
    decide +kernel
  rw [hcall, Option.any_some] at hall
  have hw : walk w.machine.mem (0x2000 >>> 12) dmaLo ≠ none := of_decide_eq_true hall
  have hpage : pageOf (dmaBase + 5) = dmaLo := by decide
  refine ⟨_, w, hrun, (dmaPhysToVirt_iff freshWorld_boot hrun List.mem_cons_self ?_ ?_).mpr ⟨fun v h1 h2 => ?_, ?_⟩⟩
  · show dmaBase + 4096 * 1 ≤ dmaBase + dmaWindow
    decide
  · show 5 < 4096 * 1
    decide
  · obtain rfl := Nat.le_antisymm h1 (h2.trans hpage.le)
    exact hw
  · rw [show pageOf (dmaBase + 5) = dmaLo from hpage]
    exact leafStart_dmaLo

end Dem64
