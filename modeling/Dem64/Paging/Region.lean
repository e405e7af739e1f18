import Dem64.Paging.Accounting
import Dem64.Paging.Whole
import Dem64.Memory.Valloc

/-!
# Regions: who may use which pages and frames

A *region* is a run of pages that is mapped to a run of frames of its own.  An allocator that hands
out mapped memory keeps a list of them in a part of the address space, its *arena*, in which nothing
else is mapped.

`Arena` is about the mappings and `Stock` about the frames, since an allocator may give back the
frames of a region before it unmaps the pages.  `Arena.create` and `Arena.destroy` say what
`create_mapping` and `destroy_mapping` do to an arena; a region is mapped by leaves of its own, so
that neither of them ever meets a large page that reaches across an end of the region.
`vmalloc_one` and `vfree_one` put both parts together for regions of a single page.
-/

set_option autoImplicit false

namespace Dem64

section

variable {root : Nat} {m m' : Machine}

/-- Marking and clearing frames that hold no tables leaves the tree well formed. -/
theorem WellFormed.of_frames (hwf : WellFormed m root) (hmem : m'.mem = m.mem)
    (hkept : ∀ k p f, k ≤ 3 → tableAt m.mem root k p = some f → f ∈ m.frames.usedPages →
      f ∈ m'.frames.usedPages) : WellFormed m' root where
  separated := by
    rw [hmem]
    exact hwf.separated
  entries k q e hk he := hwf.entries k q e hk (hmem ▸ he)
  marked k p f hk hf := by
    rw [hmem] at hf
    exact hkept k p f hk hf (hwf.marked k p f hk hf)

end

/-! ## Regions -/

/-- A run of pages and the run of frames behind it. -/
structure Region where
  /-- The first page. -/
  page : Nat
  /-- The number of pages. -/
  count : Nat
  /-- The first frame. -/
  frame : Nat
deriving DecidableEq, Repr

/-- The pages of a region. -/
def Region.pages (r : Region) : Set Nat := Set.Ico r.page (r.page + r.count)

/-- The frames of a region. -/
def Region.frames (r : Region) : Set Nat := Set.Ico r.frame (r.frame + r.count)

theorem Region.notMem_pages {r : Region} {v : Nat} :
    v ∉ r.pages ↔ v < r.page ∨ r.page + r.count ≤ v := by
  rw [Region.pages, Set.mem_Ico]
  omega

/-- The pages of the region are mapped to its frames, by leaves that lie inside the region. -/
def Region.Backed (root : Nat) (m : Machine) (r : Region) : Prop :=
  ∀ v ∈ r.pages, ∃ k e, walk m.mem root v = some (k, e) ∧ r.page ≤ v / span k * span k ∧
    (v / span k + 1) * span k ≤ r.page + r.count ∧ e / 4096 + v % span k = r.frame + (v - r.page)

/-- In the pages from `lo` to `hi`, the regions are mapped and nothing else. -/
structure Arena (root lo hi : Nat) (m : Machine) (rs : List Region) : Prop where
  /-- The tables form a tree. -/
  wellFormed : WellFormed m root
  /-- 1 GiB pages are there only where the processor has them. -/
  gbOk : GbOk m root
  /-- The arena does not reach the last page of the address space. -/
  hi_le : hi ≤ lastPage
  /-- The regions lie in the arena. -/
  inside : ∀ r ∈ rs, lo ≤ r.page ∧ r.page + r.count ≤ hi
  /-- No two regions share a page. -/
  disjoint : rs.Pairwise fun r s => Disjoint r.pages s.pages
  /-- The regions are mapped. -/
  backed : ∀ r ∈ rs, r.Backed root m
  /-- Nothing else is. -/
  vacant : ∀ v, lo ≤ v → v < hi → (∀ r ∈ rs, v ∉ r.pages) → walk m.mem root v = none

/-- Every region has its own frames; they are in use, and what else is in use are the frames of
`base` and those of the tables. -/
structure Stock (base : Set Nat) (root : Nat) (m : Machine) (rs : List Region) : Prop where
  /-- Frame 0 is not handed out. -/
  reserved : 0 ∈ base
  /-- The frames are accounted for. -/
  ledger : ∃ B L, Accounted B root L m ∧ Ledger Region.frames base B rs

section

variable {base : Set Nat} {root lo hi : Nat} {m m' : Machine} {rs : List Region} {r : Region}

theorem Stock.steps (h : Stock base root m rs) (hwf : WellFormed m root) (hs : Steps root m m') :
    Stock base root m' rs := by
  obtain ⟨h0, B, L, hacc, hled⟩ := h
  obtain ⟨L', hacc'⟩ := hs.accounted hwf ((hled.mem_used 0).mpr (Or.inl h0)) ⟨L, hacc⟩
  exact ⟨h0, B, L', hacc', hled⟩

theorem Stock.perm {rs' : List Region} (h : Stock base root m rs) (hp : rs.Perm rs') :
    Stock base root m rs' := by
  obtain ⟨h0, B, L, hacc, hled⟩ := h
  exact ⟨h0, B, L, hacc, hled.perm hp⟩

/-- The frames of a region are in use. -/
theorem Stock.marked (h : Stock base root m rs) (hr : r ∈ rs) : r.frames ⊆ m.frames.usedPages := by
  obtain ⟨-, B, L, hacc, hled⟩ := h
  exact fun f hf => (hacc.marks f).mpr (Or.inl (hled.cells_subset hr hf))

/-- They hold no tables. -/
theorem Stock.noTable (h : Stock base root m rs) (hr : r ∈ rs) {k p f : Nat} (hk : k ≤ 3)
    (hf : tableAt m.mem root k p = some f) : f ∉ r.frames := by
  obtain ⟨-, B, L, hacc, hled⟩ := h
  exact fun hc => hacc.fresh f ((hacc.tables f).mpr ⟨k, p, hk, hf⟩) (hled.cells_subset hr hc)

theorem Stock.disjoint (h : Stock base root m rs) :
    rs.Pairwise fun r s => Disjoint r.frames s.frames := by
  obtain ⟨-, B, L, hacc, hled⟩ := h
  exact hled.pairwise

/-- What is in use: the frames of `base`, of the regions and of the tables. -/
theorem Stock.mem_used (h : Stock base root m rs) (f : Nat) : f ∈ m.frames.usedPages ↔
    f ∈ base ∨ (∃ r ∈ rs, f ∈ r.frames) ∨ ∃ k p, k ≤ 3 ∧ tableAt m.mem root k p = some f := by
  obtain ⟨-, B, L, hacc, hled⟩ := h
  rw [hacc.marks, hled.mem_used, hacc.tables, or_assoc]

/-- The accounts are about the memory, the marks and the log. -/
theorem Stock.of_marks (h : Stock base root m rs) (hmem : m'.mem = m.mem)
    (hused : ∀ p, p ∈ m'.frames.usedPages ↔ p ∈ m.frames.usedPages) (hlog : m'.log = m.log)
    (hcount : m'.pagingAllocatedPages = m.pagingAllocatedPages) : Stock base root m' rs := by
  obtain ⟨h0, B, L, hacc, hled⟩ := h
  refine ⟨h0, B, L, ⟨⟨?_, ?_⟩, ?_, ?_, hacc.fresh⟩, hled⟩
  · rw [hlog]
    exact hacc.books.out
  · rw [hcount]
    exact hacc.books.count
  · rw [hmem]
    exact hacc.tables
  · exact fun p => (hused p).trans (hacc.marks p)

theorem Arena.perm {rs' : List Region} (h : Arena root lo hi m rs) (hp : rs.Perm rs') :
    Arena root lo hi m rs' where
  wellFormed := h.wellFormed
  gbOk := h.gbOk
  hi_le := h.hi_le
  inside r hr := h.inside r (hp.mem_iff.mpr hr)
  disjoint := hp.pairwise h.disjoint fun {_ _} hd => hd.symm
  backed r hr := h.backed r (hp.mem_iff.mpr hr)
  vacant v h1 h2 hno := h.vacant v h1 h2 fun r hr => hno r (hp.mem_iff.mp hr)

theorem lt_of_mem_pages (h : Arena root lo hi m rs) (hr : r ∈ rs) {v : Nat} (hv : v ∈ r.pages) :
    v < 2 ^ 36 := by
  have h1 := h.inside r hr
  have h2 := h.hi_le
  rw [lastPage] at h2
  rw [Region.pages, Set.mem_Ico] at hv
  omega

/-- The mappings do not depend on the bitmap. -/
theorem Arena.of_frames (h : Arena root lo hi m rs) (hmem : m'.mem = m.mem)
    (hgb : m'.gbPageSupport = m.gbPageSupport)
    (hkept : ∀ k p f, k ≤ 3 → tableAt m.mem root k p = some f → f ∈ m.frames.usedPages →
      f ∈ m'.frames.usedPages) : Arena root lo hi m' rs where
  wellFormed := h.wellFormed.of_frames hmem hkept
  gbOk v e hv hw := by
    rw [hgb]
    exact h.gbOk v e hv (hmem ▸ hw)
  hi_le := h.hi_le
  inside := h.inside
  disjoint := h.disjoint
  backed r hr v hv := by
    rw [hmem]
    exact h.backed r hr v hv
  vacant v h1 h2 hno := by
    rw [hmem]
    exact h.vacant v h1 h2 hno

theorem Region.Backed.covered (h : r.Backed root m) :
    Covered root r.page (r.page + r.count) m := by
  intro v h1 h2
  obtain ⟨k, e, hw, hk1, hk2, -⟩ := h v ⟨h1, h2⟩
  exact ⟨k, e, hw, hk1, hk2⟩

/-- A region starts with a leaf. -/
theorem Region.Backed.first (h : r.Backed root m) (hpos : 0 < r.count) :
    ∃ k e, walk m.mem root r.page = some (k, e) ∧ e / 4096 = r.frame := by
  obtain ⟨k, e, hw, h1, -, h3⟩ := h r.page ⟨le_refl _, by omega⟩
  refine ⟨k, e, hw, ?_⟩
  have hdiv := Nat.div_add_mod' r.page (span k)
  omega

/-- A single page is mapped by a page table. -/
theorem Region.Backed.single (h : r.Backed root m) (hone : r.count = 1) (hlt : r.page < 2 ^ 36) :
    ∃ e, walk m.mem root r.page = some (3, e) ∧ e / 4096 = r.frame := by
  obtain ⟨k, e, hw, h1, h2, h3⟩ := h r.page ⟨le_refl _, by omega⟩
  obtain ⟨hk1, hk3⟩ := walk_depth hlt hw
  have hspan : span k ≤ 1 := by
    rw [Nat.add_mul, one_mul] at h2
    omega
  have hk : k = 3 := by
    obtain rfl | rfl | rfl : k = 1 ∨ k = 2 ∨ k = 3 := by omega
    · exact absurd hspan (by decide)
    · exact absurd hspan (by decide)
    · rfl
  subst hk
  have hdiv := Nat.div_add_mod' r.page (span 3)
  exact ⟨e, hw, by omega⟩

/-- The processor finds the bytes of a region in its frames. -/
theorem Region.Backed.hardwareWalk (h : r.Backed root m) {va : Nat} (hc : Canonical va)
    (hpage : pageOf va ∈ r.pages) :
    ∃ attributes, hardwareWalk m.mem root va = some (r.frame + (pageOf va - r.page), attributes) := by
  obtain ⟨k, e, hw, -, -, hf⟩ := h _ hpage
  refine ⟨leafAttributes e, ?_⟩
  rw [Dem64.hardwareWalk, hardwareLeaf, if_pos hc, hw, Option.map_some, leafPage, hf]

end

/-- Pages are unmapped: no frame is taken for that, and the other pages stay as they are. -/
structure Withdrawn (root : Nat) (pages : Set Nat) (m m' : Machine) : Prop where
  /-- Nothing fails. -/
  failures : m'.failures = m.failures
  /-- No frame is marked. -/
  used : m'.frames.usedPages ⊆ m.frames.usedPages
  /-- The other pages are mapped as before. -/
  kept : ∀ v, v < 2 ^ 36 → v ∉ pages → walk m'.mem root v = walk m.mem root v

theorem Withdrawn.refl (root : Nat) (pages : Set Nat) (m : Machine) : Withdrawn root pages m m :=
  ⟨rfl, fun _ hf => hf, fun _ _ _ => rfl⟩

theorem Withdrawn.trans {root : Nat} {ps qs : Set Nat} {m m' m'' : Machine}
    (h : Withdrawn root ps m m') (h' : Withdrawn root qs m' m'') : Withdrawn root (ps ∪ qs) m m'' where
  failures := h'.failures.trans h.failures
  used := h'.used.trans h.used
  kept v hv hout :=
    (h'.kept v hv fun hc => hout (Or.inr hc)).trans (h.kept v hv fun hc => hout (Or.inl hc))

theorem Withdrawn.mono {root : Nat} {ps qs : Set Nat} {m m' : Machine} (h : Withdrawn root ps m m')
    (hpq : ps ⊆ qs) : Withdrawn root qs m m' :=
  ⟨h.failures, h.used, fun v hv hout => h.kept v hv fun hc => hout (hpq hc)⟩

/-! ## Taking and giving back frames -/

section

variable {base : Set Nat} {root lo hi : Nat} {m : Machine} {rs : List Region} {r : Region}
  {s : FrameState}

/-- Free frames are marked for a new region. -/
theorem Stock.take (h : Stock base root m rs) (hfree : Disjoint r.frames m.frames.usedPages)
    (hmarks : ∀ p, p ∈ s.usedPages ↔ p ∈ r.frames ∨ p ∈ m.frames.usedPages) :
    Stock base root { m with frames := s } (r :: rs) := by
  obtain ⟨h0, B, L, hacc, hled⟩ := h
  have hB : B ⊆ m.frames.usedPages := fun f hf => (hacc.marks f).mpr (Or.inl hf)
  refine ⟨h0, r.frames ∪ B, L, ⟨⟨hacc.books.out, hacc.books.count⟩, hacc.tables, fun p => ?_,
    fun f hf hc => ?_⟩, hled.acquire (hfree.mono_right hB) fun p => Iff.rfl⟩
  · rw [hmarks, hacc.marks, Set.mem_union, or_assoc]
  · rcases hc with hc | hc
    · exact Set.disjoint_left.mp hfree hc ((hacc.marks f).mpr (Or.inr hf))
    · exact hacc.fresh f hf hc

theorem Arena.take (h : Arena root lo hi m rs)
    (hmarks : ∀ p, p ∈ s.usedPages ↔ p ∈ r.frames ∨ p ∈ m.frames.usedPages) :
    Arena root lo hi { m with frames := s } rs :=
  h.of_frames rfl rfl fun _ _ f _ _ hf => (hmarks f).mpr (Or.inr hf)

/-- The frames of a region are given back. -/
theorem Stock.give (h : Stock base root m (r :: rs))
    (hmarks : ∀ p, p ∈ s.usedPages ↔ p ∈ m.frames.usedPages ∧ p ∉ r.frames) :
    Stock base root { m with frames := s } rs := by
  obtain ⟨h0, B, L, hacc, hled⟩ := h
  have hB := hled.cells_subset (List.mem_cons_self : r ∈ r :: rs)
  refine ⟨h0, B \ r.frames, L, ⟨⟨hacc.books.out, hacc.books.count⟩, hacc.tables, fun p => ?_,
    fun f hf hc => hacc.fresh f hf hc.1⟩, hled.release_head fun p => Iff.rfl⟩
  rw [hmarks, hacc.marks, Set.mem_sdiff]
  have hL : p ∈ L → p ∉ r.frames := fun hp hr => hacc.fresh p hp (hB hr)
  tauto

theorem Arena.give {rs' : List Region} (h : Arena root lo hi m rs')
    (hr : ∀ k p f, k ≤ 3 → tableAt m.mem root k p = some f → f ∉ r.frames)
    (hmarks : ∀ p, p ∈ s.usedPages ↔ p ∈ m.frames.usedPages ∧ p ∉ r.frames) :
    Arena root lo hi { m with frames := s } rs' :=
  h.of_frames rfl rfl fun k p f hk hf hu => (hmarks f).mpr ⟨hu, hr k p f hk hf⟩

end

/-! ## Mapping and unmapping -/

section

variable {pml4 lo hi va pa : Nat} {m : Machine} {rs : List Region} {r : Region}

/-- **A new region is mapped**, in pages of the arena that no region has. -/
theorem Arena.create (h : Arena (pml4 >>> 12) lo hi m rs) (hpml4 : pml4 ≠ 0) (hr : Request 3 pa)
    (hrange : CanonicalRange va r.count) (hpage : pageOf va = r.page) (hframe : pa / 4096 = r.frame)
    (hend : va + 4096 * r.count < 2 ^ 64) (hin : lo ≤ r.page ∧ r.page + r.count ≤ hi)
    (hframes : r.frame + r.count ≤ 2 ^ 52) (hfree : ∀ s ∈ rs, Disjoint r.pages s.pages)
    (hno : NoFail m (createMapping m va pa r.count 3 pml4)) :
    Steps (pml4 >>> 12) m (createMapping m va pa r.count 3 pml4) ∧
    Arena (pml4 >>> 12) lo hi (createMapping m va pa r.count 3 pml4) (r :: rs) := by
  have hmap := createMapping_mapped hr hrange.aligned ((pageOf_eq va).trans hpage)
    (hpage ▸ hrange.fits) hend hpml4 h.wellFormed hno
  have hlast : lastPage = 2 ^ 36 - 1 := rfl
  have hhi' := h.hi_le
  generalize createMapping m va pa r.count 3 pml4 = m' at hmap
  -- the pages of the range are vacant, so no leaf reaches into the range from outside
  have hnone : ∀ u, r.page ≤ u → u < r.page + r.count → walk m.mem (pml4 >>> 12) u = none := by
    intro u h1 h2
    exact h.vacant u (by omega) (by omega) fun s hs =>
      Set.disjoint_left.mp (hfree s hs) ⟨h1, h2⟩
  have hkept : ∀ v, v < 2 ^ 36 → v ∉ r.pages →
      walk m'.mem (pml4 >>> 12) v = walk m.mem (pml4 >>> 12) v := by
    refine fun v hv hout => hmap.kept v hv (Region.notMem_pages.mp hout) ?_
    rintro ⟨k, e, u, hw, h1, h2, hu⟩
    have hu' := walk_congr (by omega) hv hw hu
    rw [hnone u h1 h2] at hu'
    exact absurd hu' (by simp)
  refine ⟨hmap.steps, hmap.steps.wellFormed h.wellFormed, hmap.steps.gbOk h.wellFormed h.gbOk, hhi',
    ?_, List.pairwise_cons.mpr ⟨hfree, h.disjoint⟩, ?_, fun v h1 h2 hno => ?_⟩
  · intro s hs
    rcases List.mem_cons.mp hs with rfl | hs
    · exact hin
    · exact h.inside s hs
  · intro s hs v hv
    rcases List.mem_cons.mp hs with rfl | hs
    · obtain ⟨k, e, hw, hk1, hk2, hphys, -⟩ := hmap.inside v hv.1 hv.2
      obtain ⟨hv1, hv2⟩ := hv
      refine ⟨k, e, hw, hk1, hk2, ?_⟩
      rw [hphys, hframe, Nat.mod_eq_of_lt (by omega)]
    · rw [hkept v (lt_of_mem_pages h hs hv) fun hc => Set.disjoint_left.mp (hfree s hs) hc hv]
      exact h.backed s hs v hv
  · rw [hkept v (by omega) (hno r List.mem_cons_self)]
    exact h.vacant v h1 h2 fun s hs => hno s (List.mem_cons_of_mem _ hs)

/-- **A region is unmapped**, which takes no frames. -/
theorem Arena.destroy (h : Arena (pml4 >>> 12) lo hi m (r :: rs)) (hpml4 : pml4 ≠ 0)
    (hrange : CanonicalRange va r.count) (hpage : pageOf va = r.page)
    (hend : va + 4096 * r.count < 2 ^ 64) :
    Withdrawn (pml4 >>> 12) r.pages m (destroyMapping m va r.count pml4) ∧
    Steps (pml4 >>> 12) m (destroyMapping m va r.count pml4) ∧
    Arena (pml4 >>> 12) lo hi (destroyMapping m va r.count pml4) rs := by
  have hlast : lastPage = 2 ^ 36 - 1 := rfl
  have hhi' := h.hi_le
  have hin := h.inside r List.mem_cons_self
  have hback := h.backed r List.mem_cons_self
  obtain ⟨base, hclear⟩ := hrange.clearing (by omega)
  rw [hpage] at hclear
  have hfail := destroyMapping_noTable hpml4 hclear h.wellFormed h.gbOk hback.covered
  have hun := destroyMapping_unmapped hclear hpml4 h.wellFormed h.gbOk (fun v h1 h2 => by
    obtain ⟨k, e, hw, -⟩ := hback v ⟨h1, h2⟩
    rw [hw]
    simp) (le_of_eq hfail.failures)
  generalize destroyMapping m va r.count pml4 = m' at hfail hun
  have hkept : ∀ v, v < 2 ^ 36 → v ∉ r.pages →
      walk m'.mem (pml4 >>> 12) v = walk m.mem (pml4 >>> 12) v := by
    intro v hv hout
    rw [Region.notMem_pages] at hout
    refine hun.kept v hv hout ?_
    rintro ⟨k, e, u, hw, h1, h2, hu⟩
    -- the leaf maps `u` as well, so it lies inside the region, and `v` with it
    obtain ⟨k', e', hw', hk1, hk2, -⟩ := hback u ⟨h1, h2⟩
    rw [walk_congr (by omega) hv hw hu] at hw'
    obtain ⟨rfl, rfl⟩ := Prod.mk.inj (Option.some_inj.mp hw')
    rw [hu] at hk1 hk2
    have hv1 := Nat.div_mul_le_self v (span k)
    have hv2 := Nat.lt_div_mul_add (a := v) (span_pos k)
    rw [Nat.add_mul, one_mul] at hk2
    omega
  have hdisj := (List.pairwise_cons.mp h.disjoint).1
  refine ⟨⟨hfail.failures, hfail.used, hkept⟩, hun.steps, hun.steps.wellFormed h.wellFormed, hun.steps.gbOk h.wellFormed h.gbOk, hhi',
    fun s hs => h.inside s (List.mem_cons_of_mem _ hs), (List.pairwise_cons.mp h.disjoint).2, ?_,
    fun v h1 h2 hno => ?_⟩
  · intro s hs v hv
    rw [hkept v (lt_of_mem_pages h (List.mem_cons_of_mem _ hs) hv) fun hc =>
      Set.disjoint_left.mp (hdisj s hs) hc hv]
    exact h.backed s (List.mem_cons_of_mem _ hs) v hv
  · by_cases hv : v ∈ r.pages
    · exact hun.inside v hv.1 hv.2
    · rw [hkept v (by omega) hv]
      refine h.vacant v h1 h2 fun s hs => ?_
      rcases List.mem_cons.mp hs with rfl | hs
      · exact hv
      · exact hno s hs

end

/-! ## Regions of one page -/

section

variable {base : Set Nat} {pml4 lo hi va n : Nat} {m m' : Machine} {rs : List Region} {r : Region}

/-- Failures are not forgotten: what does not fail has no part that fails. -/
theorem NoFail.split {m₁ m₂ : Machine} (h : NoFail m m₂) (h1 : m.failures ≤ m₁.failures)
    (h2 : m₁.failures ≤ m₂.failures) : NoFail m m₁ ∧ NoFail m₁ m₂ := ⟨h2.trans h, h.trans h1⟩

theorem usedPages_fillBitmap (s : FrameState) (f n p : Nat) :
    p ∈ FrameState.usedPages { s with bitmap := fillBitmap f n s.bitmap } ↔
      p ∈ Set.Ico f (f + n) ∨ p ∈ s.usedPages := by
  simp only [FrameState.usedPages, fillBitmap, Set.mem_ofPred_eq, Set.mem_Ico, used_writeRange]
  split <;> simp [*]

/-- `run_simulation` finds a free frame inside the bitmap. -/
theorem simulate_one {s : FrameState} : ∀ {n count : Nat}, simulate s n count 1 = 0 →
    ∃ f, count ≤ f ∧ f < 8 * s.bitmapSize ∧ used s.bitmap f = false
  | 0, _, h => absurd h (by simp [simulate])
  | n + 1, count, h => by
    rw [simulate, if_pos (by decide), shiftRight_three] at h
    split at h
    · exact absurd h (by decide)
    · rename_i hlt
      by_cases hu : used s.bitmap count = true
      · rw [if_pos hu] at h
        obtain ⟨f, h1, h2⟩ := simulate_one h
        exact ⟨f, by omega, h2⟩
      · exact ⟨count, le_refl _, by omega, by simpa using hu⟩

/-- A simulation for one frame that succeeds has found one. -/
theorem runSimulation_one {s : FrameState} {count : Nat} (h : runSimulation s count 1 ≠ 1) :
    ∃ f, count ≤ f ∧ f < 8 * s.bitmapSize ∧ used s.bitmap f = false := by
  have hle : ∀ n count pages, simulate s n count pages = 0 ∨ simulate s n count pages = 1 := by
    intro n
    induction n with
    | zero => exact fun _ _ => Or.inr rfl
    | succ n ih =>
      intro count pages
      rw [simulate]
      split
      · split
        · exact Or.inr rfl
        · exact ih _ _
      · exact Or.inl rfl
  rw [runSimulation, if_neg (by decide)] at h
  exact simulate_one ((hle _ _ _).resolve_right h)

theorem skipTaken_le {bm : Bitmap} {n count c f : Nat} (h : skipTaken bm n count = some c) (hle : count ≤ f)
    (hf : used bm f = false) : c ≤ f := by
  by_contra hlt
  have hu := (skipTaken_some h).2.2 f hle (by omega)
  rw [hf] at hu
  exact absurd hu (by simp)

/-- The same machine, as far as pages and marked frames go. -/
structure SameMarks (m m' : Machine) : Prop where
  /-- The memory is the same. -/
  mem : m'.mem = m.mem
  /-- The same frames are marked. -/
  used : ∀ p, used m'.frames.bitmap p = used m.frames.bitmap p
  /-- So is `GbPageSupport`. -/
  gb : m'.gbPageSupport = m.gbPageSupport
  /-- The accounts are the same. -/
  log : m'.log = m.log
  /-- So is the number of tables. -/
  count : m'.pagingAllocatedPages = m.pagingAllocatedPages

/-- A run that is empty is neither marked nor mapped. -/
theorem mapRun_empty (attributes pml4 count va : Nat) (m : Machine) :
    SameMarks m (mapRun attributes pml4 ⟨count, count, va, 0⟩ m) := by
  rw [mapRun, createMapping, if_pos (Or.inr rfl)]
  refine ⟨rfl, fun p => ?_, rfl, rfl, rfl⟩
  simp only [fillBitmap, used_writeRange]
  rw [if_neg (by omega)]

/-- The scan of `vmalloc` for one frame stops at a free one, not behind the first in the bitmap. -/
theorem vmallocLoop_one {attributes f : Nat} : ∀ {n count : Nat} {m : Machine} {r : Scan × Machine},
    va < 2 ^ 64 → vmallocLoop attributes pml4 n 1 ⟨count, count, va, 0⟩ m = some r → count ≤ f →
    used m.frames.bitmap f = false →
    SameMarks m r.2 ∧ ∃ c, r.1 = ⟨c + 1, c, va, 1⟩ ∧ c ≤ f ∧ used m.frames.bitmap c = false
  | 0, _, _, _, _, h, _, _ => absurd h (by simp [vmallocLoop])
  | n + 1, count, m, r, hva, h, hle, hf => by
    rw [vmallocLoop, if_pos (by decide)] at h
    split at h
    · rename_i hu
      cases n with
      | zero => exact absurd h (by simp [vmallocLoop])
      | succ n =>
        rw [vmallocLoop, if_neg (by decide)] at h
        obtain rfl := Option.some_inj.mp h
        exact ⟨⟨rfl, fun _ => rfl, rfl, rfl, rfl⟩, count, rfl, hle, hu⟩
    · -- nothing was found so far
      have hempty := mapRun_empty attributes pml4 count va m
      simp only at h
      split at h
      · exact absurd h (by simp)
      · rename_i c hskip
        have hfree : ∀ p, used (mapRun attributes pml4 ⟨count, count, va, 0⟩ m).frames.bitmap p =
            used m.frames.bitmap p := hempty.used
        have hcf := skipTaken_le hskip hle ((hfree f).trans hf)
        have hva' : (va + 0 <<< 12) % 2 ^ 64 = va := by
          rw [Nat.zero_shiftLeft, Nat.add_zero, Nat.mod_eq_of_lt hva]
        rw [hva'] at h
        obtain ⟨hsame, c', hc', hle', hu'⟩ := vmallocLoop_one hva h hcf ((hfree f).trans hf)
        exact ⟨⟨hsame.mem.trans hempty.mem, fun p => (hsame.used p).trans (hfree p),
          hsame.gb.trans hempty.gb, hsame.log.trans hempty.log, hsame.count.trans hempty.count⟩, c', hc',
          hle', (hfree c').symm.trans hu'⟩

/-- **A successful `vmalloc` of one page** marks a free frame and maps the page to it. -/
theorem vmalloc_one (h : Arena (pml4 >>> 12) lo hi m rs) (hs : Stock base (pml4 >>> 12) m rs)
    (hpml4 : pml4 ≠ 0) (hrange : CanonicalRange va 1) (hend : va + 4096 < 2 ^ 64)
    (hin : lo ≤ pageOf va ∧ pageOf va + 1 ≤ hi) (hfree : ∀ s ∈ rs, pageOf va ∉ s.pages)
    {d : MemoryDescriptor} (hv : vmalloc n m va 1 3 pml4 = some (d, m')) (hd : d.attr = 0)
    (hno : NoFail m m') :
    ∃ f, Arena (pml4 >>> 12) lo hi m' (⟨pageOf va, 1, f⟩ :: rs) ∧
      Stock base (pml4 >>> 12) m' (⟨pageOf va, 1, f⟩ :: rs) := by
  rw [vmalloc, if_neg (by decide)] at hv
  simp only at hv
  split at hv
  · rw [Option.some_inj, Prod.mk.injEq] at hv
    rw [← hv.1] at hd
    exact absurd hd (by decide)
  · rename_i hsim
    split at hv
    · exact absurd hv (by simp)
    · rename_i c m₁ hloop
      rw [Option.some_inj, Prod.mk.injEq] at hv
      -- the first free frame
      obtain ⟨f₀, hf1, hf2, hf3⟩ := runSimulation_one hsim
      obtain ⟨hsame, f, hc, hff, hfu⟩ := vmallocLoop_one (by omega) hloop hf1 hf3
      have hsize := m.frames.bitmapSize_le
      simp only at hc hsame
      subst hc
      -- the frame is marked
      have hmarks : ∀ p, p ∈ FrameState.usedPages
          { m₁.frames with bitmap := fillBitmap f 1 m₁.frames.bitmap } ↔
            p ∈ (Region.mk (pageOf va) 1 f).frames ∨ p ∈ m₁.frames.usedPages :=
        fun p => usedPages_fillBitmap m₁.frames f 1 p
      have hfree₁ : Disjoint (Region.mk (pageOf va) 1 f).frames m₁.frames.usedPages := by
        rw [Set.disjoint_left]
        intro p hp hu
        obtain rfl : p = f := by
          rw [Region.frames, Set.mem_Ico] at hp
          simp only at hp
          omega
        rw [FrameState.usedPages, Set.mem_ofPred_eq, hsame.used, hfu] at hu
        exact absurd hu (by simp)
      have hA₁ : Arena (pml4 >>> 12) lo hi m₁ rs := h.of_frames hsame.mem hsame.gb
        fun _ _ f _ _ hf => (hsame.used f).trans hf
      have hS₁ : Stock base (pml4 >>> 12) m₁ rs := hs.of_marks hsame.mem
        (fun p => by simp only [FrameState.usedPages, Set.mem_ofPred_eq, hsame.used]) hsame.log
        hsame.count
      -- and mapped
      have hpa : (f <<< 12) % 2 ^ 64 / 4096 = f := shiftLeft_twelve_div (by omega)
      have hmod : (f <<< 12) % 2 ^ 64 % 4096 = 0 := by
        rw [Nat.shiftLeft_eq]
        omega
      obtain ⟨-, rfl⟩ := hv
      have hno' : NoFail m₁ (mapRun 3 pml4 ⟨f + 1, f, va, 1⟩ m₁) := by
        rw [NoFail, Machine.failures, Machine.failures, hsame.log]
        exact hno
      obtain ⟨hsteps, hA⟩ := Arena.create (r := ⟨pageOf va, 1, f⟩) (hA₁.take hmarks) hpml4
        ⟨by decide, by decide, hmod, Nat.mod_lt _ (by decide)⟩ hrange rfl hpa hend hin
        (by simp only; omega) (fun s hs' => by
          rw [Set.disjoint_left]
          intro v hv1 hv2
          obtain rfl : v = pageOf va := by
            rw [Region.pages, Set.mem_Ico] at hv1
            simp only at hv1
            omega
          exact hfree s hs' hv2) hno'
      have hS := (hS₁.take hfree₁ hmarks).steps (hA₁.take hmarks).wellFormed hsteps
      -- the last statement moves the hint only
      exact ⟨f, hA.of_frames rfl rfl fun _ _ _ _ _ hf => hf,
        hS.of_marks rfl (fun _ => Iff.rfl) rfl rfl⟩

/-- Giving back the frames of a region. -/
theorem freeFrame_region (s : FrameState) {d : MemoryDescriptor}
    (hstart : d.physicalStart / 4096 = r.frame) (hcount : d.numberOfPages = r.count) (p : Nat) :
    p ∈ (freeFrame s d).usedPages ↔ p ∈ s.usedPages ∧ p ∉ r.frames := by
  rw [freeFrame_used, MemoryDescriptor.pages, hstart, hcount]
  rfl

/-- **`vfree` of a region of one page** clears its frame and unmaps its page. -/
theorem vfree_one {ts : List Region} (h : Arena (pml4 >>> 12) lo hi m (r :: rs))
    (hs : Stock base (pml4 >>> 12) m (r :: ts)) (hpml4 : pml4 ≠ 0) (hone : r.count = 1)
    (hrange : CanonicalRange va 1) (hpage : pageOf va = r.page) (hend : va + 4096 < 2 ^ 64) :
    ∃ m', (∀ n, vfree n m va 1 pml4 = if 2 ≤ n then some m' else none) ∧
      Withdrawn (pml4 >>> 12) r.pages m m' ∧ Arena (pml4 >>> 12) lo hi m' rs ∧
      Stock base (pml4 >>> 12) m' ts := by
  have hback := h.backed r List.mem_cons_self
  obtain ⟨e, hw, he⟩ := hback.single hone (lt_of_mem_pages h List.mem_cons_self
    (show r.page ∈ r.pages from ⟨le_refl _, by omega⟩))
  rw [← hpage] at hw
  have hlook := pagingLookup_of_walk hpml4 hw
  let d : MemoryDescriptor :=
    { physicalStart := addrOf e, virtualStart := va, numberOfPages := 1 }
  have hmarks := freeFrame_region (r := r) (d := d) m.frames
    (by simp only [d, addrOf_eq, Nat.mul_div_cancel _ (show 0 < 4096 by decide), he]) hone.symm
  have hA := h.give (fun k p f hk hf => hs.noTable List.mem_cons_self hk hf) hmarks
  have hS := hs.give hmarks
  have hdestroy := hA.destroy hpml4 (hone ▸ hrange) hpage (by omega)
  rw [hone] at hdestroy
  obtain ⟨hfail, hsteps, hA'⟩ := hdestroy
  refine ⟨_, fun n => ?_, ⟨hfail.failures, fun f hf => ((hmarks f).mp (hfail.used hf)).1, hfail.kept⟩,
    hA', hS.steps hA.wellFormed hsteps⟩
  match n with
  | 0 => rfl
  | 1 => rw [vfree, vfreeLoop, if_pos (by decide)]; rfl
  | n + 2 =>
    rw [vfree, vfreeLoop, if_pos (by decide), hlook]
    show Option.map _ (vfreeLoop pml4 (n + 1) _ (subU64 1 1) _) = _
    rw [vfreeLoop, if_neg (by decide), if_pos (show 2 ≤ n + 2 by omega)]
    rfl

end

end Dem64
