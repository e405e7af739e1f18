import Dem64.Memory.Scan
import Dem64.Memory.Vfree
import Dem64.Paging.Marks
import Dem64.Paging.Region

/-!
# What `vmalloc` maps, and what `vfree` takes back

The scan of `vmalloc` marks a run of free frames, maps it, and goes on; mapping a run takes frames for
page tables from the bitmap that is being scanned, and gives some back.  The scan keeps its own
position meanwhile.

`Progress va pages fs` is the invariant of the scan: the pages mapped so far have the frames `fs`
behind them, by leaves that lie inside the part of the range that is mapped, and apart from frames
that hold tables the frames `fs` are the only ones whose bits have changed.  `Progress.mapRun` says
that a run keeps it, `vmalloc_spec` that the whole call does.  Since the leaves lie inside the range,
`vfree` meets whole leaves only and takes back what `vmalloc` took.
-/

set_option autoImplicit false

namespace Dem64

/-- The frames that the scanning loop of `vmalloc` claims, in order, each with the machine in which
its bit was read. -/
def scanClaims (attributes pml4 : Nat) : Nat → Nat → Scan → Machine → List (Nat × Machine)
  | 0, _, _, _ => []
  | n + 1, pageCount, c, m =>
    if pageCount > 0 then
      if used m.frames.bitmap c.count = false then
        (c.count, m) :: scanClaims attributes pml4 n (pageCount - 1) c.claim m
      else
        let m := mapRun attributes pml4 c m
        match skipTaken m.frames.bitmap n c.count with
        | none => []
        | some count => scanClaims attributes pml4 n pageCount (c.restart count) m
    else []

/-- The frames claimed by `vmalloc`. -/
def vmallocClaims (n : Nat) (m : Machine) (va pages attributes pml4 : Nat) : List (Nat × Machine) :=
  scanClaims attributes pml4 n pages (Scan.start m.frames.formerCount va) m

section

variable {attributes pml4 n pageCount : Nat} {c : Scan} {m : Machine}

theorem scanClaims_take (h : used m.frames.bitmap c.count = false) :
    scanClaims attributes pml4 (n + 1) (pageCount + 1) c m =
      (c.count, m) :: scanClaims attributes pml4 n pageCount c.claim m := by
  rw [scanClaims, if_pos (Nat.succ_pos _), if_pos h, Nat.add_sub_cancel]

theorem scanClaims_skip {next : Nat} (hpos : 0 < pageCount)
    (h : used m.frames.bitmap c.count = true)
    (hs : skipTaken (mapRun attributes pml4 c m).frames.bitmap n c.count = some next) :
    scanClaims attributes pml4 (n + 1) pageCount c m =
      scanClaims attributes pml4 n pageCount (c.restart next) (mapRun attributes pml4 c m) := by
  rw [scanClaims, if_pos hpos, if_neg (by simp [h])]
  simp only [hs]

/-- A frame is claimed when its bit was read as free. -/
theorem used_of_mem_scanClaims {x : Nat × Machine}
    (h : x ∈ scanClaims attributes pml4 n pageCount c m) : used x.2.frames.bitmap x.1 = false := by
  induction n generalizing pageCount c m with
  | zero => exact absurd h (by simp [scanClaims])
  | succ n ih =>
    rw [scanClaims] at h
    split at h
    · split at h
      · rename_i hu
        rcases List.mem_cons.mp h with rfl | h
        · exact hu
        · exact ih h
      · simp only at h
        split at h
        · exact absurd h (by simp)
        · exact ih h
    · exact absurd h (by simp)

end

/-! ## The invariant -/

/-- The first pages of the range have the frames `fs` behind them; `m₀` is the machine the call
started with. -/
structure Progress (va attributes root : Nat) (m₀ : Machine) (fs : List Nat) (m : Machine) :
    Prop where
  /-- The tables form a tree. -/
  wellFormed : WellFormed m root
  /-- 1 GiB pages are there only where the processor has them. -/
  gbOk : GbOk m root
  /-- The pages are mapped by leaves that lie among them. -/
  covered : Covered root (pageOf va) (pageOf va + fs.length) m
  /-- They are mapped to the frames. -/
  leaves : ∀ i f, fs[i]? = some f → ∃ k e, walk m.mem root (pageOf va + i) = some (k, e) ∧
    leafPage (pageOf va + i) (k, e) = (f, leafAttributes attributes)
  /-- Of the frames that hold no tables, these are the new ones. -/
  marks : ∀ f, f ∈ dataFrames m root ↔ f ∈ dataFrames m₀ root ∨ f ∈ fs
  /-- They were not in use. -/
  fresh : ∀ f ∈ fs, f ∉ dataFrames m₀ root
  /-- They are in order. -/
  sorted : fs.Pairwise (· < ·)

/-- The run in front of the scan: free frames behind those of `fs`, for the next pages of the
range. -/
structure Pending (va : Nat) (fs : List Nat) (c : Scan) (m : Machine) : Prop where
  /-- The run ends where the scan stands. -/
  run : c.Run
  /-- It lies in the bitmap. -/
  inside : c.count ≤ 8 * m.frames.bitmapSize
  /-- Its frames are free. -/
  free : ∀ p, c.countTar ≤ p → p < c.count → used m.frames.bitmap p = false
  /-- The frames claimed before lie in front of it. -/
  before : ∀ f ∈ fs, f < c.countTar
  /-- It is for the pages behind those that are mapped. -/
  virt : c.countVirt = va + 4096 * fs.length

/-- The frames of the run. -/
def Scan.frames (c : Scan) : List Nat := List.range' c.countTar c.matchCount

section

variable {va pages attributes pml4 : Nat} {m₀ m : Machine} {fs : List Nat} {c : Scan}

theorem Progress.start (hwf : WellFormed m (pml4 >>> 12)) (hgb : GbOk m (pml4 >>> 12)) :
    Progress va attributes (pml4 >>> 12) m [] m where
  wellFormed := hwf
  gbOk := hgb
  covered u h1 h2 := absurd h2 (by rw [List.length_nil]; omega)
  leaves i f h := absurd h (by simp)
  marks f := by simp
  fresh f hf := absurd hf (by simp)
  sorted := List.Pairwise.nil

theorem Pending.start (h : m.frames.formerCount ≤ 8 * m.frames.bitmapSize) :
    Pending va [] (Scan.start m.frames.formerCount va) m where
  run := Nat.add_zero _
  inside := h
  free p h1 h2 := absurd h1 (Nat.not_le_of_lt h2)
  before f hf := absurd hf (by simp)
  virt := rfl

theorem Pending.claim (h : Pending va fs c m) (hlt : c.count < 8 * m.frames.bitmapSize)
    (hfree : used m.frames.bitmap c.count = false) : Pending va fs c.claim m where
  run := h.run.claim
  inside := hlt
  free p h1 h2 := by
    rcases Nat.lt_succ_iff_lt_or_eq.mp h2 with h2 | rfl
    · exact h.free p h1 h2
    · exact hfree
  before := h.before
  virt := h.virt

theorem Pending.restart {m' : Machine} {next : Nat} (h : Pending va fs c m)
    (hend : va + 4096 * (fs.length + c.matchCount) < 2 ^ 64) (hle : c.count ≤ next)
    (hlt : next ≤ 8 * m'.frames.bitmapSize) : Pending va (fs ++ c.frames) (c.restart next) m' where
  run := Scan.run_restart c next
  inside := hlt
  free p h1 h2 := absurd h1 (Nat.not_le_of_lt h2)
  before f hf := by
    show f < next
    have hrun := h.run
    rw [Scan.Run] at hrun
    rcases List.mem_append.mp hf with hf | hf
    · have := h.before f hf
      omega
    · rw [Scan.frames, List.mem_range'_1] at hf
      omega
  virt := by
    show (c.countVirt + c.matchCount <<< 12) % 2 ^ 64 = _
    rw [h.virt, Nat.shiftLeft_eq, List.length_append, Scan.frames, List.length_range']
    omega

/-- The frames of a run are in order, behind those before. -/
theorem Pending.sorted (h : Pending va fs c m) (hs : fs.Pairwise (· < ·)) :
    (fs ++ c.frames).Pairwise (· < ·) := by
  refine List.pairwise_append.mpr ⟨hs, List.pairwise_lt_range', fun f hf g hg => ?_⟩
  have := h.before f hf
  rw [Scan.frames, List.mem_range'_1] at hg
  omega

/-- `fill_bitmap` marks the run. -/
def filled (c : Scan) (m : Machine) : Machine :=
  { m with frames := { m.frames with bitmap := fillBitmap c.countTar c.matchCount m.frames.bitmap } }

theorem mem_used_filled (c : Scan) (m : Machine) (f : Nat) :
    f ∈ (filled c m).frames.usedPages ↔ f ∈ c.frames ∨ f ∈ m.frames.usedPages := by
  rw [filled, usedPages_fillBitmap, Scan.frames, List.mem_range'_1, Set.mem_Ico]

/-- The frames of a run hold no tables, so they become data frames. -/
theorem mem_dataFrames_filled {root : Nat} (hwf : WellFormed m root) (h : Pending va fs c m) (f : Nat) :
    f ∈ dataFrames (filled c m) root ↔ f ∈ dataFrames m root ∨ f ∈ c.frames := by
  have hrun := h.run
  have htable : f ∈ c.frames → ¬ HoldsTable m root f := by
    rintro hf ⟨k, p, hk, ht⟩
    rw [Scan.frames, List.mem_range'_1, hrun] at hf
    have hused := hwf.marked k p f hk ht
    rw [h.free f hf.1 hf.2] at hused
    exact absurd hused (by decide)
  show f ∈ (filled c m).frames.usedPages ∧ ¬ HoldsTable m root f ↔
    (f ∈ m.frames.usedPages ∧ ¬ HoldsTable m root f) ∨ f ∈ c.frames
  rw [mem_used_filled]
  tauto

/-- **A run is mapped.**  The pages in front of it keep their leaves, since these end where the run
begins. -/
theorem Progress.mapRun (h : Progress va attributes (pml4 >>> 12) m₀ fs m) (hp : Pending va fs c m)
    (hpml4 : pml4 ≠ 0) (hattr : attributes < 4096) (hodd : attributes % 2 = 1)
    (hrange : CanonicalRange va pages) (hend : va + 4096 * pages < 2 ^ 64)
    (hle : fs.length + c.matchCount ≤ pages) (h0 : 0 ∈ dataFrames m₀ (pml4 >>> 12))
    (hno : NoFail m (mapRun attributes pml4 c m)) :
    Progress va attributes (pml4 >>> 12) m₀ (fs ++ c.frames) (mapRun attributes pml4 c m) := by
  have hrun := hp.run
  have hfits := hrange.fits
  have hal := hrange.aligned
  have hsize := m.frames.bitmapSize_le
  have hinside := hp.inside
  rw [Scan.Run] at hrun
  have hlen : (fs ++ c.frames).length = fs.length + c.matchCount := by
    rw [List.length_append, Scan.frames, List.length_range']
  have hpa : (c.countTar <<< 12) % 2 ^ 64 = c.countTar * 4096 % 2 ^ 64 := by rw [Nat.shiftLeft_eq]
  have hpage : c.countVirt / 4096 % 2 ^ 36 = pageOf va + fs.length := by
    rw [hp.virt, pageOf]
    rcases hrange.half with hh | hh
    · omega
    · omega
  have hwf₁ : WellFormed (filled c m) (pml4 >>> 12) := h.wellFormed.of_frames rfl
    fun _ _ f _ _ hf => (mem_used_filled c m f).mpr (Or.inr hf)
  have h0₁ : 0 ∈ dataFrames (filled c m) (pml4 >>> 12) :=
    (mem_dataFrames_filled h.wellFormed hp 0).mpr (Or.inl ((h.marks 0).mpr (Or.inl h0)))
  have hmap : Mapped (pml4 >>> 12) (pageOf va + fs.length) (pageOf va + fs.length + c.matchCount)
      ((c.countTar <<< 12) % 2 ^ 64) attributes (filled c m) (Dem64.mapRun attributes pml4 c m) :=
    createMapping_mapped ⟨hattr, hodd, by omega, Nat.mod_lt _ (by decide)⟩
      (by rw [hp.virt]; omega) hpage (by omega) (by rw [hp.virt]; omega) hpml4 hwf₁ hno
  generalize Dem64.mapRun attributes pml4 c m = m' at hmap
  -- the leaves in front of the run stay
  have hkept : ∀ {v k e}, walk m.mem (pml4 >>> 12) v = some (k, e) → v < 2 ^ 36 →
      (v / span k + 1) * span k ≤ pageOf va + fs.length →
      walk m'.mem (pml4 >>> 12) v = some (k, e) := fun hw hv hk => hmap.kept_before hv hw hk
  refine ⟨hmap.steps.wellFormed hwf₁, hmap.steps.gbOk hwf₁ h.gbOk, fun v h1 h2 => ?_,
    fun i f hi => ?_, fun f => ?_, fun f hf => ?_, hp.sorted h.sorted⟩
  · rw [hlen] at h2 ⊢
    by_cases hv : v < pageOf va + fs.length
    · obtain ⟨k, e, hw, hb1, hb2⟩ := h.covered v h1 hv
      exact ⟨k, e, hkept hw (by omega) hb2, hb1, by omega⟩
    · obtain ⟨k, e, hw, hb1, hb2, -⟩ := hmap.inside v (by omega) (by omega)
      exact ⟨k, e, hw, by omega, by omega⟩
  · by_cases hlt : i < fs.length
    · rw [List.getElem?_append_left hlt] at hi
      obtain ⟨k, e, hw, hleaf⟩ := h.leaves i f hi
      obtain ⟨k', e', hw', -, hb2⟩ := h.covered (pageOf va + i) (by omega) (by omega)
      obtain ⟨rfl, rfl⟩ := Prod.mk.inj (Option.some_inj.mp (hw'.symm.trans hw))
      exact ⟨k', e', hkept hw (by omega) hb2, hleaf⟩
    · rw [List.getElem?_append_right (by omega), Scan.frames, List.getElem?_eq_some_iff] at hi
      obtain ⟨hi, rfl⟩ := hi
      rw [List.length_range'] at hi
      obtain ⟨k, e, hw, -, -, hphys, hleaf⟩ := hmap.inside (pageOf va + i) (by omega) (by omega)
      refine ⟨k, e, hw, ?_⟩
      rw [leafPage, hleaf, hphys, List.getElem_range']
      congr 1
      omega
  · rw [hmap.steps.dataFrames_eq hwf₁ h0₁, mem_dataFrames_filled h.wellFormed hp, h.marks,
      List.mem_append, or_assoc]
  · rcases List.mem_append.mp hf with hf | hf
    · exact h.fresh f hf
    · -- a data frame from before would still be in use
      intro hdata
      have hused := ((h.marks f).mpr (Or.inl hdata)).1
      rw [Scan.frames, List.mem_range'_1, hrun] at hf
      rw [FrameState.usedPages, Set.mem_ofPred_eq, hp.free f hf.1 hf.2] at hused
      exact absurd hused (by decide)

/-! ## The scan -/

theorem Scan.frames_claim (h : c.Run) : c.claim.frames = c.frames ++ [c.count] := by
  rw [Scan.frames, Scan.frames, ← h]
  exact List.range'_1_concat

theorem Traced.failures_le {m' : Machine} (h : Traced attributes m m') : m.failures ≤ m'.failures := by
  obtain ⟨new, hlog, -⟩ := h
  rw [Machine.failures, Machine.failures, hlog, List.count_append]
  omega

/-- **The scan keeps the invariant**, and what it has mapped and marked at its end are the frames
that it claimed. -/
theorem vmallocLoop_progress (hpml4 : pml4 ≠ 0) (hattr : attributes < 4096)
    (hodd : attributes % 2 = 1) (hrange : CanonicalRange va pages) (hend : va + 4096 * pages < 2 ^ 64)
    (h0 : 0 ∈ dataFrames m₀ (pml4 >>> 12)) : ∀ (n left : Nat) (fs : List Nat) (c : Scan) (m : Machine)
    (r : Scan × Machine), Progress va attributes (pml4 >>> 12) m₀ fs m → Pending va fs c m →
    ScanInside attributes pml4 left c m → fs.length + c.matchCount + left = pages →
    vmallocLoop attributes pml4 n left c m = some r → NoFail m r.2 →
    ∃ gs, Progress va attributes (pml4 >>> 12) m₀ gs r.2 ∧ Pending va gs r.1 r.2 ∧
      gs ++ r.1.frames = fs ++ c.frames ++ (scanClaims attributes pml4 n left c m).map Prod.fst ∧
      gs.length + r.1.matchCount = pages
  | 0, _, _, _, _, _, _, _, _, _, hr, _ => absurd hr (by simp [vmallocLoop])
  | n + 1, 0, fs, c, m, r, h, hp, _, hsum, hr, _ => by
    rw [vmallocLoop, if_neg (by decide)] at hr
    obtain rfl := Option.some_inj.mp hr
    exact ⟨fs, h, hp, by rw [scanClaims, if_neg (by decide), List.map_nil, List.append_nil], hsum⟩
  | n + 1, left + 1, fs, c, m, r, h, hp, hin, hsum, hr, hno => by
    cases hu : used m.frames.bitmap c.count with
    | false =>
      rw [vmallocLoop_take hu] at hr
      obtain ⟨hlt, hin⟩ := (scanInside_take hu).mp hin
      obtain ⟨gs, hgs, hpend, heq, hlen⟩ := vmallocLoop_progress hpml4 hattr hodd hrange hend h0 n left
        fs c.claim m r h (hp.claim hlt hu) hin
        (by show fs.length + (c.matchCount + 1) + left = pages; omega) hr hno
      refine ⟨gs, hgs, hpend, ?_, hlen⟩
      rw [heq, scanClaims_take hu, Scan.frames_claim hp.run]
      simp only [List.map_cons, List.append_assoc, List.cons_append, List.nil_append]
    | true =>
      rw [vmallocLoop_skip (Nat.succ_pos _) hu] at hr
      obtain ⟨next, hs, hr⟩ := Option.bind_eq_some_iff.mp hr
      obtain ⟨hle, hfree, hused⟩ := skipTaken_some hs
      obtain ⟨hlt, hin⟩ := (scanInside_skip hp.run (Nat.succ_pos _) hu hle hused hfree).mp hin
      have hno₁ := hno.split (traced_mapRun c m).failures_le
        (traced_vmallocLoop n _ _ _ _ hr).failures_le
      have hsize := @mapRun_bitmapSize attributes pml4 c m
      have hlen₁ : (fs ++ c.frames).length = fs.length + c.matchCount := by
        rw [List.length_append, Scan.frames, List.length_range']
      obtain ⟨gs, hgs, hpend, heq, hlen⟩ := vmallocLoop_progress hpml4 hattr hodd hrange hend h0 n
        (left + 1) (fs ++ c.frames) (c.restart next) _ r
        (h.mapRun hp hpml4 hattr hodd hrange hend (by omega) h0 hno₁.1)
        (hp.restart (by omega) hle (by omega)) hin
        (by rw [hlen₁]; show _ + 0 + _ = pages; omega) hr hno₁.2
      refine ⟨gs, hgs, hpend, ?_, hlen⟩
      rw [heq, scanClaims_skip (Nat.succ_pos _) hu hs]
      show fs ++ c.frames ++ [] ++ _ = _
      rw [List.append_nil]

/-- What the results below assume of the machine and of the request. -/
structure VmallocOk (m : Machine) (va pages attributes pml4 : Nat) : Prop where
  /-- There is a PML4. -/
  pml4_ne : pml4 ≠ 0
  /-- The tables form a tree, and their frames are marked. -/
  wellFormed : WellFormed m (pml4 >>> 12)
  /-- 1 GiB pages are there only where the processor has them. -/
  gbOk : GbOk m (pml4 >>> 12)
  /-- Frame 0 is not handed out. -/
  reserved : 0 ∈ dataFrames m (pml4 >>> 12)
  /-- The pages have canonical addresses. -/
  range : CanonicalRange va pages
  /-- The range does not end with the address space. -/
  end_lt : va + 4096 * pages < 2 ^ 64
  /-- The attributes are the low bits of an entry. -/
  attr_lt : attributes < 4096
  /-- The present bit is one of them. -/
  attr_odd : attributes % 2 = 1
  /-- The scan stays inside the bitmap. -/
  inside : ScanInside attributes pml4 pages (Scan.start m.frames.formerCount va) m

/-- The data frames are a matter of the memory and of the marks. -/
theorem Progress.of_frames {root : Nat} {m' : Machine} (h : Progress va attributes root m₀ fs m)
    (hmem : m'.mem = m.mem) (hgb : m'.gbPageSupport = m.gbPageSupport)
    (hused : m'.frames.usedPages = m.frames.usedPages) : Progress va attributes root m₀ fs m' where
  wellFormed := h.wellFormed.of_frames hmem fun _ _ _ _ _ hf => hused ▸ hf
  gbOk v e hv hw := by
    rw [hgb]
    exact h.gbOk v e hv (hmem ▸ hw)
  covered v h1 h2 := by
    rw [hmem]
    exact h.covered v h1 h2
  leaves i f hf := by
    rw [hmem]
    exact h.leaves i f hf
  marks f := by
    rw [← h.marks, dataFrames, dataFrames, hused]
    simp only [Set.mem_ofPred_eq, HoldsTable, hmem]
  fresh := h.fresh
  sorted := h.sorted

/-- **A successful `vmalloc`** has mapped its pages to the frames that its scan claimed. -/
theorem vmalloc_progress {n : Nat} {d : MemoryDescriptor} {m' : Machine}
    (h : VmallocOk m va pages attributes pml4)
    (hv : vmalloc n m va pages attributes pml4 = some (d, m')) (hd : d.attr = 0) (hno : NoFail m m') :
    d.virtualStart = va ∧ d.numberOfPages = pages ∧
      ((vmallocClaims n m va pages attributes pml4).map Prod.fst).length = pages ∧
      Progress va attributes (pml4 >>> 12) m ((vmallocClaims n m va pages attributes pml4).map Prod.fst)
        m' := by
  have hpos := h.range.pos
  have hcount : m.frames.formerCount < 8 * m.frames.bitmapSize := h.inside.count_lt hpos
  rw [vmalloc, if_neg (by omega)] at hv
  simp only at hv
  split at hv
  · obtain rfl := (Prod.mk.inj (Option.some_inj.mp hv)).1
    exact absurd hd (by decide)
  · split at hv
    · exact absurd hv (by simp)
    · rename_i c m₁ hloop
      obtain ⟨rfl, rfl⟩ := Prod.mk.inj (Option.some_inj.mp hv)
      have hno₁ : NoFail m (mapRun attributes pml4 c m₁) := hno
      have hno₂ := hno₁.split (traced_vmallocLoop n _ _ _ _ hloop).failures_le
        (traced_mapRun c m₁).failures_le
      obtain ⟨gs, hgs, hpend, heq, hlen⟩ := vmallocLoop_progress h.pml4_ne h.attr_lt h.attr_odd h.range
        h.end_lt h.reserved n pages [] (Scan.start m.frames.formerCount va) m (c, m₁)
        (Progress.start h.wellFormed h.gbOk) (Pending.start (Nat.le_of_lt hcount)) h.inside
        (by show 0 + 0 + pages = pages; omega) hloop hno₂.1
      have hprog := hgs.mapRun hpend h.pml4_ne h.attr_lt h.attr_odd h.range h.end_lt (Nat.le_of_eq hlen)
        h.reserved hno₂.2
      have heq' : gs ++ c.frames = (vmallocClaims n m va pages attributes pml4).map Prod.fst := heq
      refine ⟨rfl, rfl, ?_, ?_⟩
      · rw [← heq', List.length_append, Scan.frames, List.length_range', hlen]
      · rw [← heq']
        exact hprog.of_frames rfl rfl rfl

/-! ## `vmalloc` -/

theorem Progress.length_le {i f : Nat} (hi : fs[i]? = some f) : i < fs.length :=
  (List.getElem?_eq_some_iff.mp hi).1

/-- The processor finds the frames behind the pages. -/
theorem Progress.hardwareWalk {root i f : Nat} (h : Progress va attributes root m₀ fs m)
    (hrange : CanonicalRange va pages) (hlen : fs.length = pages) (hi : fs[i]? = some f) :
    hardwareWalk m.mem root (va + 4096 * i) = some (f, leafAttributes attributes) := by
  have hlt : i < pages := hlen ▸ Progress.length_le hi
  obtain ⟨k, e, hw, hleaf⟩ := h.leaves i f hi
  rw [Dem64.hardwareWalk, hardwareLeaf, if_pos (hrange.canonical i hlt), hrange.pageOf_add hlt, hw,
    Option.map_some, hleaf]

/-- What `vmalloc` leaves behind: the pages from `va` on are backed by the frames of `claims`. -/
structure VmallocBacks (m : Machine) (va pages attributes pml4 : Nat) (claims : List (Nat × Machine))
    (m' : Machine) : Prop where
  /-- There is a frame for each page. -/
  length : claims.length = pages
  /-- The page is mapped to it. -/
  mapped : ∀ i c, claims[i]? = some c →
    hardwareWalk m'.mem (pml4 >>> 12) (va + 4096 * i) = some (c.1, leafAttributes attributes)
  /-- The frame was free when it was claimed. -/
  free : ∀ c ∈ claims, used c.2.frames.bitmap c.1 = false
  /-- It is marked used. -/
  marked : ∀ c ∈ claims, used m'.frames.bitmap c.1 = true
  /-- It holds no table. -/
  noTable : ∀ c ∈ claims, ¬ HoldsTable m' (pml4 >>> 12) c.1
  /-- The frames are in order. -/
  sorted : (claims.map Prod.fst).Pairwise (· < ·)
  /-- The bits of the other frames, those of tables aside, are what they were. -/
  others : ∀ f, f ∉ claims.map Prod.fst → ¬ HoldsTable m (pml4 >>> 12) f →
    ¬ HoldsTable m' (pml4 >>> 12) f → used m'.frames.bitmap f = used m.frames.bitmap f

theorem vmalloc_backs {n : Nat} {d : MemoryDescriptor} {m' : Machine}
    (h : VmallocOk m va pages attributes pml4)
    (hv : vmalloc n m va pages attributes pml4 = some (d, m')) (hd : d.attr = 0) (hno : NoFail m m') :
    VmallocBacks m va pages attributes pml4 (vmallocClaims n m va pages attributes pml4) m' := by
  obtain ⟨-, -, hlen, hprog⟩ := vmalloc_progress h hv hd hno
  have hmem : ∀ c ∈ vmallocClaims n m va pages attributes pml4, c.1 ∈ dataFrames m' (pml4 >>> 12) :=
    fun c hc => (hprog.marks c.1).mpr (Or.inr (List.mem_map_of_mem hc))
  refine ⟨by rwa [List.length_map] at hlen, fun i c hc => ?_,
    fun c hc => used_of_mem_scanClaims hc, fun c hc => (hmem c hc).1, fun c hc => (hmem c hc).2,
    hprog.sorted, fun f hf h1 h2 => ?_⟩
  · exact hprog.hardwareWalk h.range hlen (by rw [List.getElem?_map, hc, Option.map_some])
  · have hmarks := hprog.marks f
    simp only [dataFrames, Set.mem_ofPred_eq, h1, h2, not_false_eq_true, and_true, hf, or_false,
      FrameState.usedPages] at hmarks
    exact Bool.eq_iff_iff.mpr hmarks

/-- More iterations do not change the result. -/
theorem vmalloc_mono {n n' : Nat} {r : MemoryDescriptor × Machine} (hn : n ≤ n')
    (h : vmalloc n m va pages attributes pml4 = some r) :
    vmalloc n' m va pages attributes pml4 = some r := by
  rw [vmalloc] at h ⊢
  split at h
  · rw [if_pos (by assumption)]
    exact h
  · rw [if_neg (by assumption)]
    simp only at h ⊢
    split at h
    · rw [if_pos (by assumption)]
      exact h
    · rw [if_neg (by assumption)]
      split at h
      · exact absurd h (by simp)
      · rename_i hloop
        simp only [vmallocLoop_mono hn hloop]
        exact h

/-- With enough iterations `vmalloc` returns `Attribute` 0. -/
theorem exists_vmalloc (hpos : 0 < pages) (hsim : runSimulation m.frames m.frames.formerCount pages ≠ 1)
    (hin : ScanInside attributes pml4 pages (Scan.start m.frames.formerCount va) m) :
    ∃ n d m', vmalloc n m va pages attributes pml4 = some (d, m') ∧ d.attr = 0 := by
  obtain ⟨n, ⟨c, m₁⟩, hloop⟩ := hin.1
  rw [Scan.start] at hloop
  refine ⟨n, ?_⟩
  rw [vmalloc, if_neg (by omega)]
  simp only [if_neg hsim, hloop]
  exact ⟨_, _, rfl, rfl⟩

/-- **`vmalloc` backs its pages.**  Whatever the tables look like and however the free frames are
scattered: when the scan stays inside the bitmap and no frame for a page table is missing, `vmalloc`
returns `Attribute` 0, and each page is mapped to a frame of its own that was free when it was
claimed. -/
theorem vmalloc_maps (h : VmallocOk m va pages attributes pml4)
    (hsim : runSimulation m.frames m.frames.formerCount pages ≠ 1)
    (hno : ∀ n d m', vmalloc n m va pages attributes pml4 = some (d, m') → NoFail m m') :
    ∃ N d m', ∀ n, N ≤ n → vmalloc n m va pages attributes pml4 = some (d, m') ∧ d.attr = 0 ∧
      VmallocBacks m va pages attributes pml4 (vmallocClaims n m va pages attributes pml4) m' := by
  obtain ⟨N, d, m', hv, hd⟩ := exists_vmalloc h.range.pos hsim h.inside
  refine ⟨N, d, m', fun n hn => ?_⟩
  have hvn := vmalloc_mono hn hv
  exact ⟨hvn, hd, vmalloc_backs h hvn hd (hno _ _ _ hvn)⟩

end

/-! ## `vfree` after `vmalloc` -/

theorem filterMap_getElem? {α : Type} : ∀ l : List α,
    (List.range l.length).filterMap (fun i => l[i]?) = l
  | [] => rfl
  | a :: l => by
    rw [List.length_cons, List.range_succ_eq_map, List.filterMap_cons, List.filterMap_map]
    simp only [List.getElem?_cons_zero, Function.comp_def, Nat.succ_eq_add_one,
      List.getElem?_cons_succ, filterMap_getElem? l]

section

variable {va pages attributes pml4 : Nat} {m₀ m : Machine} {fs : List Nat}

/-- The frames behind the pages, as `vfree` finds them. -/
theorem Progress.pageBacking {root : Nat} (h : Progress va attributes root m₀ fs m) :
    pageBacking m.mem root (pageOf va) fs.length = fs := by
  rw [Dem64.pageBacking, List.range'_eq_map_range, List.filterMap_map]
  refine Eq.trans (List.filterMap_congr fun i hi => ?_) (filterMap_getElem? fs)
  rw [List.mem_range] at hi
  obtain ⟨k, e, hw, hleaf⟩ := h.leaves i fs[i] (List.getElem?_eq_getElem hi)
  rw [Function.comp, hw, Option.map_some, hleaf, List.getElem?_eq_getElem hi]

theorem vfreeCalls_mono {n n' va pages : Nat} {calls : List (Nat × MemoryDescriptor)} (hn : n ≤ n')
    (h : vfreeCalls pml4 m n va pages = some calls) : vfreeCalls pml4 m n' va pages = some calls := by
  induction n generalizing n' va pages calls with
  | zero => exact absurd h (by simp [vfreeCalls])
  | succ n ih =>
    obtain ⟨n', rfl⟩ : ∃ i, n' = i + 1 := ⟨n' - 1, by omega⟩
    rw [vfreeCalls] at h ⊢
    split at h
    · rw [if_pos (by assumption)]
      obtain ⟨rest, hrest, rfl⟩ := Option.map_eq_some_iff.mp h
      simp only [ih (show n ≤ n' by omega) hrest, Option.map_some]
    · rw [if_neg (by assumption)]
      exact h

/-- The same machine with other marks. -/
theorem vfree_eq {n n' : Nat} {calls : List (Nat × MemoryDescriptor)} (hn : n ≤ n')
    (h : vfreeCalls pml4 m n va pages = some calls) : vfree n' m va pages pml4 =
      some (destroyMapping
        { m with frames := calls.foldl (fun s c => freeFrame s c.2) m.frames } va pages pml4) := by
  rw [vfree, vfreeLoop_eq, vfreeCalls_mono hn h, Option.map_some, Option.map_some]

/-- More iterations do not change the result. -/
theorem vfree_mono {n n' : Nat} {m' : Machine} (hn : n ≤ n')
    (h : vfree n m va pages pml4 = some m') : vfree n' m va pages pml4 = some m' := by
  rw [vfree, vfreeLoop_eq, Option.map_map] at h
  obtain ⟨calls, hcalls, rfl⟩ := Option.map_eq_some_iff.mp h
  exact vfree_eq hn hcalls

/-- **`vfree` takes back what `vmalloc` took.**  The frames are free again, the pages are not mapped
any more, and the frames in use that hold no tables are those that were before. -/
theorem Progress.vfree (h : Progress va attributes (pml4 >>> 12) m₀ fs m) (hpml4 : pml4 ≠ 0)
    (hrange : CanonicalRange va pages) (hend : va + 4096 * pages < 2 ^ 64) (hlen : fs.length = pages)
    (h0 : 0 ∈ dataFrames m₀ (pml4 >>> 12)) :
    ∃ N m', (∀ n, N ≤ n → Dem64.vfree n m va pages pml4 = some m') ∧
      WellFormed m' (pml4 >>> 12) ∧ dataFrames m' (pml4 >>> 12) = dataFrames m₀ (pml4 >>> 12) ∧
      (∀ f ∈ fs, used m'.frames.bitmap f = false) ∧
      ∀ i, i < pages → Dem64.hardwareWalk m'.mem (pml4 >>> 12) (va + 4096 * i) = none := by
  subst hlen
  obtain ⟨n, calls, hcalls, -, hframes⟩ := (vfreeCalls_iff hpml4 fs.length va (pageOf va)
    (fun _ => ⟨hrange, rfl⟩) hrange.fits fun u h1 h2 => by
      obtain ⟨k, e, hw, -⟩ := h.covered u h1 h2
      simp [hw]).mpr h.covered
  rw [h.pageBacking] at hframes
  refine ⟨n, _, fun n' hn => vfree_eq hn hcalls, ?_⟩
  -- the frames are given back
  have hused : ∀ f, f ∈ (calls.foldl (fun s c => freeFrame s c.2) m.frames).usedPages ↔
      f ∈ m.frames.usedPages ∧ f ∉ fs := fun f => by rw [used_foldl_freeFrame, hframes]
  generalize calls.foldl (fun s c => freeFrame s c.2) m.frames = s at hused
  have hwf : WellFormed { m with frames := s } (pml4 >>> 12) :=
    h.wellFormed.of_frames rfl fun k p f hk ht hf => (hused f).mpr
      ⟨hf, fun hc => ((h.marks f).mpr (Or.inr hc)).2 ⟨k, p, hk, ht⟩⟩
  have hdata : dataFrames { m with frames := s } (pml4 >>> 12) = dataFrames m₀ (pml4 >>> 12) := by
    ext f
    have hm := h.marks f
    have hfresh := h.fresh f
    show f ∈ s.usedPages ∧ ¬ HoldsTable m _ f ↔ _
    rw [hused, and_right_comm, show (f ∈ m.frames.usedPages ∧ ¬ HoldsTable m (pml4 >>> 12) f) ↔
      f ∈ dataFrames m (pml4 >>> 12) from Iff.rfl, hm]
    tauto
  -- and the pages are unmapped, which takes no frames
  obtain ⟨base, hclear⟩ := hrange.clearing (by omega)
  have hno := destroyMapping_noTable (m := { m with frames := s }) hpml4 hclear hwf h.gbOk h.covered
  have hun := destroyMapping_unmapped (m := { m with frames := s }) hclear hpml4 hwf h.gbOk
    (fun v h1 h2 => by
      obtain ⟨k, e, hw, -⟩ := h.covered v h1 h2
      simp [hw]) (le_of_eq hno.failures)
  refine ⟨hun.steps.wellFormed hwf, (hun.steps.dataFrames_eq hwf (hdata ▸ h0)).trans hdata,
    fun f hf => ?_, fun i hi => ?_⟩
  · by_contra hc
    rw [Bool.not_eq_false] at hc
    exact ((hused f).mp (hno.used hc)).2 hf
  · rw [Dem64.hardwareWalk, hardwareLeaf, if_pos (hrange.canonical i hi), hrange.pageOf_add hi,
      hun.inside _ (by omega) (by omega), Option.map_none]

/-- **`vfree` undoes `vmalloc`**, whatever mix of page sizes was chosen.  Only frames that held tables
before, or hold tables afterwards, can have another bit than before `vmalloc`. -/
theorem vfree_undoes_vmalloc {n : Nat} {d : MemoryDescriptor} {m₁ : Machine}
    (h : VmallocOk m va pages attributes pml4)
    (hv : vmalloc n m va pages attributes pml4 = some (d, m₁)) (hd : d.attr = 0)
    (hno : NoFail m m₁) :
    ∃ N m₂, (∀ n', N ≤ n' → vfree n' m₁ d.virtualStart d.numberOfPages pml4 = some m₂) ∧
      (∀ c ∈ vmallocClaims n m va pages attributes pml4, used m₂.frames.bitmap c.1 = false) ∧
      (∀ f, ¬ HoldsTable m (pml4 >>> 12) f → ¬ HoldsTable m₂ (pml4 >>> 12) f →
        used m₂.frames.bitmap f = used m.frames.bitmap f) ∧
      ∀ i, i < pages → hardwareWalk m₂.mem (pml4 >>> 12) (va + 4096 * i) = none := by
  obtain ⟨rfl, rfl, hlen, hprog⟩ := vmalloc_progress h hv hd hno
  obtain ⟨N, m₂, hN, -, hdata, hfree, hnone⟩ :=
    hprog.vfree h.pml4_ne h.range h.end_lt hlen h.reserved
  refine ⟨N, m₂, hN, fun c hc => hfree c.1 (List.mem_map_of_mem hc), fun f h1 h2 => ?_, hnone⟩
  exact Bool.eq_iff_iff.mpr (used_iff_of_dataFrames_eq hdata h1 h2)

end

/-! In the small machine -/

theorem smallMachine_reserved : 0 ∈ dataFrames smallMachine 1 := by
  refine ⟨mem_usedPages.mpr (by decide), ?_⟩
  rintro ⟨k, p, -, hf⟩
  obtain ⟨-, -, h⟩ := (tableAt_of_empty fun _ => rfl).mp hf
  exact absurd h (by decide)

/-- Two pages at `0x200000`. -/
theorem smallMachine_vmallocOk : VmallocOk smallMachine 0x200000 2 3 0x1000 where
  pml4_ne := by decide
  wellFormed := smallMachine_wellFormed
  gbOk := smallMachine_gbOk
  reserved := smallMachine_reserved
  range := ⟨by decide, by decide, by decide, by decide⟩
  end_lt := by decide
  attr_lt := by decide
  attr_odd := by decide
  inside := (scanInside_take (by decide)).mpr
    ⟨by decide, (scanInside_take (by decide)).mpr ⟨by decide, scanInside_zero _ _⟩⟩

/-- The machine after `vmalloc(0x200000, 2, 0x03)`. -/
def smallResult : MemoryDescriptor × Machine :=
  (vmalloc 8 smallMachine 0x200000 2 3 0x1000).getD ({}, smallMachine)

theorem vmalloc_smallMachine : vmalloc 8 smallMachine 0x200000 2 3 0x1000 = some smallResult := rfl

theorem vmalloc_maps_small : ∃ N d m', ∀ n, N ≤ n →
    vmalloc n smallMachine 0x200000 2 3 0x1000 = some (d, m') ∧ d.attr = 0 ∧
      VmallocBacks smallMachine 0x200000 2 3 0x1000 (vmallocClaims n smallMachine 0x200000 2 3 0x1000)
        m' := by
  refine vmalloc_maps smallMachine_vmallocOk (by decide) fun n d m' hv => ?_
  have h := (vmalloc_mono (Nat.le_max_left n 8) hv).symm.trans
    (vmalloc_mono (Nat.le_max_right n 8) vmalloc_smallMachine)
  obtain ⟨-, rfl⟩ := Prod.mk.inj (Option.some_inj.mp h)
  decide

/-- A PML4 in frame 1, which is not marked used. -/
def strayMachine : Machine :=
  { smallMachine with
    frames := { smallFrames with bitmap := fun i => if i = 0 then 0x80 else 0, formerCount := 1 } }

/-- The frame of the PML4 is handed out when its bit is clear; and a page whose address is not
canonical cannot be reached, although `vmalloc` returns `Attribute` 0. -/
theorem vmalloc_hands_out_table :
    ScanInside 3 0x1000 1 (Scan.start strayMachine.frames.formerCount 0x200000) strayMachine ∧
    (vmalloc 8 strayMachine 0x200000 1 3 0x1000).map (fun r => (r.1.attr, r.2.failures)) =
      some (0, strayMachine.failures) ∧
    (vmallocClaims 8 strayMachine 0x200000 1 3 0x1000).map Prod.fst = [0x1000 >>> 12] ∧
    (∀ m', HoldsTable m' (0x1000 >>> 12) (0x1000 >>> 12)) ∧
    ScanInside 3 0x1000 1 (Scan.start smallMachine.frames.formerCount 0x800000000000) smallMachine ∧
    (vmalloc 8 smallMachine 0x800000000000 1 3 0x1000).map (fun r =>
      (r.1.attr, r.2.failures, hardwareWalk r.2.mem (0x1000 >>> 12) 0x800000000000)) =
        some (0, smallMachine.failures, none) :=
  ⟨(scanInside_take (by decide)).mpr ⟨by decide, scanInside_zero _ _⟩, by decide, by decide,
    fun m' => ⟨0, 0, by decide, rfl⟩,
    (scanInside_take (by decide)).mpr ⟨by decide, scanInside_zero _ _⟩, by decide⟩

/-- Two pages are mapped and unmapped again. -/
theorem vfree_undoes_vmalloc_small :
    ∃ N m₂, (∀ n', N ≤ n' →
        vfree n' smallResult.2 smallResult.1.virtualStart smallResult.1.numberOfPages 0x1000 = some m₂) ∧
      (∀ c ∈ vmallocClaims 8 smallMachine 0x200000 2 3 0x1000, used m₂.frames.bitmap c.1 = false) ∧
      (∀ f, ¬ HoldsTable smallMachine (0x1000 >>> 12) f → ¬ HoldsTable m₂ (0x1000 >>> 12) f →
        used m₂.frames.bitmap f = used smallMachine.frames.bitmap f) ∧
      ∀ i, i < 2 → hardwareWalk m₂.mem (0x1000 >>> 12) (0x200000 + 4096 * i) = none :=
  vfree_undoes_vmalloc smallMachine_vmallocOk vmalloc_smallMachine (by decide) (by decide)

/-- An empty PML4 in frame 1; of the first 512 frames three are free, of the next 512 all. -/
def wideMachine : Machine :=
  { smallMachine with
    frames :=
      { bitmap := fun i => if i = 0 then 0xC7 else if i < 64 then 0xFF else 0
        bitmapSize := 128
        bitmapSize_le := by decide
        formerCount := 2 } }

/-- A page at `0x200000` was mapped and unmapped again: its page table, in frame 4, is empty. -/
def mappedOnce : Machine :=
  destroyMapping (createMapping wideMachine 0x200000 0xF0000000 1 3 0x1000) 0x200000 1 0x1000

/-- The machine with another `former_count`. -/
def Machine.setHint (m : Machine) (count : Nat) : Machine :=
  { m with frames := { m.frames with formerCount := count } }

/-- The next scan starts at frame 512. -/
def spentMachine : Machine := mappedOnce.setHint 512

/-- The hint is about scans only. -/
theorem setHint_kept {root : Nat} {m : Machine} (hwf : WellFormed m root) (hgb : GbOk m root)
    (h0 : 0 ∈ dataFrames m root) (count : Nat) : WellFormed (m.setHint count) root ∧
      GbOk (m.setHint count) root ∧ 0 ∈ dataFrames (m.setHint count) root :=
  ⟨hwf.of_frames rfl fun _ _ _ _ _ hf => hf, hgb, h0⟩

theorem wideMachine_wellFormed : WellFormed wideMachine (0x1000 >>> 12) :=
  wellFormed_of_empty (fun _ => rfl) (by decide)

/-- Nothing is mapped in it. -/
theorem mappedOnce_steps : Steps (0x1000 >>> 12) wideMachine mappedOnce ∧
    ∀ v, v < 2 ^ 36 → walk mappedOnce.mem (0x1000 >>> 12) v = none := by
  have hempty : ∀ v, walk wideMachine.mem (0x1000 >>> 12) v = none := walk_of_empty fun _ => rfl
  have hno : NoFail wideMachine (createMapping wideMachine 0x200000 0xF0000000 1 3 0x1000) := by decide
  have hno' : NoFail (createMapping wideMachine 0x200000 0xF0000000 1 3 0x1000) mappedOnce := by decide
  have hmapped : walk (createMapping wideMachine 0x200000 0xF0000000 1 3 0x1000).mem (0x1000 >>> 12)
      0x200 ≠ none := by decide
  have hrange : CanonicalRange 0x200000 1 := ⟨by decide, by decide, by decide, by decide⟩
  obtain ⟨base, hclear⟩ := hrange.clearing (by decide)
  have hcreate := createMapping_mapped ⟨by decide, by decide, by decide, by decide⟩ (by decide)
    (show 0x200000 / 4096 % 2 ^ 36 = 0x200 by decide) (by decide) (by decide) (by decide)
    wideMachine_wellFormed hno
  have hun := destroyMapping_unmapped hclear (by decide)
    (hcreate.steps.wellFormed wideMachine_wellFormed)
    (hcreate.steps.gbOk wideMachine_wellFormed (gbOk_of_empty fun _ => rfl))
    (fun v h1 h2 => by
      obtain rfl : v = 0x200 := by
        rw [show pageOf 0x200000 = 0x200 from rfl] at h1 h2
        omega
      exact hmapped) hno'
  refine ⟨hcreate.steps.trans hun.steps, fun v hv => ?_⟩
  by_cases h : v = 0x200
  · subst h
    exact hun.inside _ (by decide) (by decide)
  · have hnone := (hcreate.kept v hv (by omega) (not_hit_of_none (hempty v))).trans (hempty v)
    refine (hun.kept v hv ?_ (not_hit_of_none hnone)).trans hnone
    rw [show pageOf 0x200000 = 0x200 from rfl]
    omega

theorem spentMachine_kept : WellFormed spentMachine (0x1000 >>> 12) ∧
    GbOk spentMachine (0x1000 >>> 12) ∧ 0 ∈ dataFrames spentMachine (0x1000 >>> 12) := by
  have h0 : 0 ∈ dataFrames wideMachine (0x1000 >>> 12) := by
    refine ⟨mem_usedPages.mpr (by decide), ?_⟩
    rintro ⟨k, p, -, hf⟩
    obtain ⟨-, -, h⟩ := (tableAt_of_empty fun _ => rfl).mp hf
    exact absurd h (by decide)
  have hsteps := mappedOnce_steps.1
  refine setHint_kept (hsteps.wellFormed wideMachine_wellFormed)
    (hsteps.gbOk wideMachine_wellFormed (gbOk_of_empty fun _ => rfl)) ?_ 512
  rw [hsteps.dataFrames_eq wideMachine_wellFormed h0]
  exact h0

theorem spentMachine_vmallocOk : VmallocOk spentMachine 0x200000 512 3 0x1000 where
  pml4_ne := by decide
  wellFormed := spentMachine_kept.1
  gbOk := spentMachine_kept.2.1
  reserved := spentMachine_kept.2.2
  range := by
    refine ⟨by decide, by decide, by decide, fun i hi => Or.inl ?_⟩
    omega
  end_lt := by decide
  attr_lt := by decide
  attr_odd := by decide
  inside := scanInside_of_free (by decide) (by
    have hfree : ∀ p, p < 1024 → 512 ≤ p → used spentMachine.frames.bitmap p = false := by
      decide +kernel
    exact fun p h1 h2 => hfree p h2 h1)

/-- The machine after `vmalloc(0x200000, 512, 0x03)`, which takes a 2 MiB page. -/
def spentResult : MemoryDescriptor × Machine :=
  (vmalloc 513 spentMachine 0x200000 512 3 0x1000).getD ({}, spentMachine)

/-- A page table that is left without entries is given back when a large page takes its slot: frame 4
was in use before, and is free after `vmalloc` and `vfree`, without holding a table. -/
theorem vfree_gives_back_table :
    VmallocOk spentMachine 0x200000 512 3 0x1000 ∧
    (∀ i, i < 512 → hardwareWalk spentMachine.mem (0x1000 >>> 12) (0x200000 + 4096 * i) = none) ∧
    vmalloc 513 spentMachine 0x200000 512 3 0x1000 = some spentResult ∧ spentResult.1.attr = 0 ∧
    NoFail spentMachine spentResult.2 ∧
    ∃ N m₂, (∀ n, N ≤ n → vfree n spentResult.2 spentResult.1.virtualStart
        spentResult.1.numberOfPages 0x1000 = some m₂) ∧
      used spentMachine.frames.bitmap 4 = true ∧ used m₂.frames.bitmap 4 = false ∧
      ¬ HoldsTable m₂ (0x1000 >>> 12) 4 := by
  have hv : vmalloc 513 spentMachine 0x200000 512 3 0x1000 = some spentResult := by
    have hsome : (vmalloc 513 spentMachine 0x200000 512 3 0x1000).isSome = true := by decide +kernel
    obtain ⟨r, hr⟩ := Option.isSome_iff_exists.mp hsome
    rw [spentResult, hr, Option.getD_some]
  have hd : spentResult.1.attr = 0 := by decide +kernel
  have hno : NoFail spentMachine spentResult.2 := by decide +kernel
  have hfour : ((vfree 8 spentResult.2 0x200000 512 0x1000).map fun m => used m.frames.bitmap 4) =
      some false := by decide +kernel
  refine ⟨spentMachine_vmallocOk, fun i hi => ?_, hv, hd, hno, ?_⟩
  · have hc : Canonical (0x200000 + 4096 * i) := Or.inl (by omega)
    rw [hardwareWalk, hardwareLeaf, if_pos hc]
    exact congrArg _ (mappedOnce_steps.2 _ (pageOf_lt _))
  generalize spentResult = r at hv hd hno hfour ⊢
  obtain ⟨hva, hpages, hlen, hprog⟩ := vmalloc_progress spentMachine_vmallocOk hv hd hno
  obtain ⟨N, m₂, hN, hwf, -⟩ := hprog.vfree spentMachine_vmallocOk.pml4_ne
    spentMachine_vmallocOk.range spentMachine_vmallocOk.end_lt hlen spentMachine_vmallocOk.reserved
  have hused : used m₂.frames.bitmap 4 = false := by
    obtain ⟨m₃, hm₃, hused⟩ := Option.map_eq_some_iff.mp hfour
    have h' := (hN _ (Nat.le_max_left N 8)).symm.trans (vfree_mono (Nat.le_max_right N 8) hm₃)
    obtain rfl := Option.some_inj.mp h'
    exact hused
  refine ⟨N, m₂, ?_, by decide +kernel, hused, ?_⟩
  · rw [hva, hpages]
    exact hN
  · rintro ⟨k, p, hk, hf⟩
    rw [hwf.marked k p 4 hk hf] at hused
    exact absurd hused (by decide)

end Dem64
