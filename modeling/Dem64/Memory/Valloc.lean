import Dem64.Paging.Mapping

/-!
# `vmalloc`, and what a failed table allocation does

`vmalloc` backs a virtual range with frames that need not be contiguous: it scans the bitmap from
`former_count` on and maps each run of free frames it meets with `create_mapping`.  Before the scan
`run_simulation` makes sure that the bitmap has enough free frames for the range; the frames that
`create_mapping` takes for page tables are not counted.

`alloc_pages` uses the address `alloc_frame` reports without looking at its `Attribute`.  After a
failure this address is 0, so that frame 0 is cleared and becomes a page table.
`table_allocation_failure` shows that this happens every time, and that `vmalloc` reports success
all the same.
-/

set_option autoImplicit false

namespace Dem64

/-- The loop of `run_simulation`.  The first argument bounds the iterations; `count` moves up in each
of them, so `8 * bitmapSize + 1` reach the end of the bitmap. -/
def simulate (s : FrameState) : Nat → Nat → Nat → Nat
  | 0, _, _ => 1
  | n + 1, count, pages =>
    if pages > 0 then
      if count >>> 3 ≥ s.bitmapSize then 1
      else simulate s n (count + 1) (if used s.bitmap count then pages else pages - 1)
    else 0

/-- `run_simulation`: 0 when the bitmap has enough free frames from `count` on, 1 when it has not, 2
for an empty request. -/
def runSimulation (s : FrameState) (count pages : Nat) : Nat :=
  if pages = 0 then 2 else simulate s (8 * s.bitmapSize + 1) count pages

/-- `while (check_byte(..) == 1) count++;`, for `n` iterations. -/
def skipTaken (bm : Bitmap) : Nat → Nat → Option Nat
  | 0, _ => none
  | n + 1, count => if used bm count then skipTaken bm n (count + 1) else some count

/-- What `while` finds is free, and what it passes is not. -/
theorem skipTaken_some {bm : Bitmap} {n count c : Nat} (h : skipTaken bm n count = some c) :
    count ≤ c ∧ used bm c = false ∧ ∀ p, count ≤ p → p < c → used bm p = true := by
  induction n generalizing count with
  | zero => exact absurd h (by simp [skipTaken])
  | succ n ih =>
    rw [skipTaken] at h
    split at h
    · rename_i hu
      obtain ⟨h1, h2, h3⟩ := ih h
      refine ⟨by omega, h2, fun p hp1 hp2 => ?_⟩
      rcases Nat.eq_or_lt_of_le hp1 with rfl | hp1
      · exact hu
      · exact h3 p hp1 hp2
    · rename_i hu
      obtain rfl := Option.some_inj.mp h
      exact ⟨le_refl _, by simpa using hu, fun p h1 h2 => absurd h1 (by omega)⟩

/-- The run that a scan is in: the locals of `vmalloc`. -/
structure Scan where
  /-- The frame the scan looks at. -/
  count : Nat
  /-- Where the current run of free frames starts. -/
  countTar : Nat
  /-- The address the run is mapped at. -/
  countVirt : Nat
  /-- The length of the run. -/
  matchCount : Nat

/-- `fill_bitmap` and `create_mapping` for the current run. -/
def mapRun (attributes pml4 : Nat) (c : Scan) (m : Machine) : Machine :=
  let bitmap := fillBitmap c.countTar c.matchCount m.frames.bitmap
  createMapping { m with frames := { m.frames with bitmap := bitmap } } c.countVirt
    ((c.countTar <<< 12) % 2 ^ 64) c.matchCount attributes pml4

/-- The scanning loop of `vmalloc`.  Nothing in it bounds `count`, so the model runs it for `n`
iterations and gives `none` when these are not enough. -/
def vmallocLoop (attributes pml4 : Nat) : Nat → Nat → Scan → Machine → Option (Scan × Machine)
  | 0, _, _, _ => none
  | n + 1, pageCount, c, m =>
    if pageCount > 0 then
      if used m.frames.bitmap c.count = false then
        vmallocLoop attributes pml4 n (pageCount - 1)
          { c with matchCount := c.matchCount + 1, count := c.count + 1 } m
      else
        let m := mapRun attributes pml4 c m
        match skipTaken m.frames.bitmap n c.count with
        | none => none
        | some count =>
          vmallocLoop attributes pml4 n pageCount
            { count := count, countTar := count, matchCount := 0
              countVirt := (c.countVirt + (c.matchCount <<< 12)) % 2 ^ 64 } m
    else some (c, m)

/-- `vmalloc`, with at most `n` iterations of its loops. -/
def vmalloc (n : Nat) (m : Machine) (va pages attributes pml4 : Nat) :
    Option (MemoryDescriptor × Machine) :=
  if pages = 0 then some ({ attr := 2 }, m)
  else
    let count := m.frames.formerCount
    if runSimulation m.frames count pages = 1 then some ({ attr := 1 }, m)
    else
      match vmallocLoop attributes pml4 n pages ⟨count, count, va, 0⟩ m with
      | none => none
      | some (c, m) =>
        let m := mapRun attributes pml4 c m
        some ({ physicalStart := (pagingLookup m va pml4).physicalAddress, virtualStart := va,
                numberOfPages := pages, attr := 0 },
          { m with frames := { m.frames with formerCount := c.count } })

/-- The loop of `vfree`: the frames of a range are given back leaf by leaf.  A lookup that fails has
the page type 0 and the address 0. -/
def vfreeLoop (pml4 : Nat) : Nat → Nat → Nat → Machine → Option Machine
  | 0, _, _, _ => none
  | n + 1, va, pages, m =>
    if pages > 0 then
      let lookup := pagingLookup m va pml4
      let count := if lookup.pageType = 0 then 1 else if lookup.pageType = 1 then 512 else 262144
      let frame : MemoryDescriptor :=
        { physicalStart := lookup.physicalAddress, virtualStart := va, numberOfPages := count }
      vfreeLoop pml4 n ((va + 4096 * count) % 2 ^ 64) (subU64 pages count)
        { m with frames := freeFrame m.frames frame }
    else some m

/-- `vfree`, with at most `n` iterations of its loop. -/
def vfree (n : Nat) (m : Machine) (va pages pml4 : Nat) : Option Machine :=
  (vfreeLoop pml4 n va pages m).map fun m => destroyMapping m va pages pml4

/-! ## What is written after a failure -/

/-- An event that writes to frame `f`. -/
def Event.Overwrites (f : Nat) : Event → Prop
  | zero frame pages => frame ≤ f ∧ f < frame + pages
  | store frame _ _ => frame = f
  | _ => False

/-- An event that makes an entry point to frame `f`. -/
def Event.Installs (f : Nat) : Event → Prop
  | store _ _ value => present value = true ∧ value >>> 12 = f
  | _ => False

/-- Between `m` and `m'` an allocation of a page-table frame failed. -/
def TableFailure (m m' : Machine) : Prop := m.failures < m'.failures

instance (m m' : Machine) : Decidable (TableFailure m m') := inferInstanceAs (Decidable (_ < _))

/-- Between `m` and `m'` there was an event with the property `P`. -/
def Happened (P : Event → Prop) (m m' : Machine) : Prop :=
  ∃ new, m'.log = new ++ m.log ∧ ∃ ev ∈ new, P ev

/-- What comes with a failure between `m` and `m'`: frame 0 is cleared, and an entry that has no
address is stored. -/
def Traced (attributes : Nat) (m m' : Machine) : Prop :=
  ∃ new, m'.log = new ++ m.log ∧ (Event.allocFail ∈ new → Event.zero 0 1 ∈ new ∧
    ∃ t i, Event.store t i (attributes &&& 7) ∈ new)

section

variable {attributes : Nat} {m m' m'' : Machine}

theorem Traced.of_log_eq (h : m'.log = m.log) : Traced attributes m m' :=
  ⟨[], h, fun hc => absurd hc (by simp)⟩

theorem Traced.trans (h : Traced attributes m m') (h' : Traced attributes m' m'') :
    Traced attributes m m'' := by
  obtain ⟨new, hlog, hnew⟩ := h
  obtain ⟨new', hlog', hnew'⟩ := h'
  refine ⟨new' ++ new, by rw [hlog', hlog, List.append_assoc], fun hfail => ?_⟩
  rcases List.mem_append.mp hfail with hf | hf
  · obtain ⟨hz, t, i, hs⟩ := hnew' hf
    exact ⟨List.mem_append_left _ hz, t, i, List.mem_append_left _ hs⟩
  · obtain ⟨hz, t, i, hs⟩ := hnew hf
    exact ⟨List.mem_append_right _ hz, t, i, List.mem_append_right _ hs⟩

/-- A failed allocation gives a table at address 0. -/
theorem traced_newTable (m : Machine) (t i : Nat) :
    Traced attributes m (newTable attributes t i m) := by
  obtain ⟨ev, hev, hlog⟩ := newTable_log m attributes t i
  rcases allocFrame_cases m.frames 1 with ⟨hattr, hstart, -⟩ | ⟨hattr, -⟩
  · rw [hstart] at hlog
    refine ⟨[Event.store (t >>> 12) i (0 ||| (attributes &&& 7)), Event.zero (0 >>> 12) 1, ev], hlog,
      fun _ => ⟨by simp, t >>> 12, i, ?_⟩⟩
    rw [Nat.zero_or]
    exact List.mem_cons_self
  · refine ⟨[_, _, ev], hlog, fun hfail => ?_⟩
    rw [if_pos hattr] at hev
    subst hev
    exact absurd hfail (by simp)

theorem closed_traced (m : Machine) : Closed (· = attributes) (Traced attributes m) where
  store m' t i e h := h.trans ⟨[Event.store (t >>> 12) i e], rfl, fun hc => absurd hc (by simp)⟩
  free m' a n h := h.trans ⟨[Event.free (a >>> 12) n], rfl, fun hc => absurd hc (by simp)⟩
  table m' a t i ha h := by
    subst ha
    exact h.trans (traced_newTable m' t i)

theorem traced_createMapping (m : Machine) (va pa pages pml4 : Nat) :
    Traced attributes m (createMapping m va pa pages attributes pml4) :=
  (closed_traced m).createMapping rfl (Traced.of_log_eq rfl) _ _ _ _

/-- A failure clears frame 0 and leaves an entry that points to it. -/
theorem Traced.of_failure (h : Traced attributes m m') (hf : TableFailure m m') :
    Happened (Event.Overwrites 0) m m' ∧
      (attributes % 2 = 1 → Happened (Event.Installs 0) m m') := by
  obtain ⟨new, hlog, hnew⟩ := h
  have hfail : Event.allocFail ∈ new := by
    rw [TableFailure, Machine.failures, Machine.failures, hlog, List.count_append] at hf
    exact List.count_pos_iff.mp (by omega)
  obtain ⟨hz, t, i, hs⟩ := hnew hfail
  refine ⟨⟨new, hlog, _, hz, by decide, by decide⟩, fun hodd => ⟨new, hlog, _, hs, ?_, ?_⟩⟩
  · rw [present_eq, beq_iff_eq, and_seven]
    omega
  · rw [and_seven, shiftRight_twelve]
    omega

end

section

variable {attributes pml4 : Nat}

theorem traced_mapRun (c : Scan) (m : Machine) : Traced attributes m (mapRun attributes pml4 c m) :=
  Traced.trans (Traced.of_log_eq rfl) (traced_createMapping _ _ _ _ _)

theorem traced_vmallocLoop : ∀ (n pageCount : Nat) (c : Scan) (m : Machine) (r : Scan × Machine),
    vmallocLoop attributes pml4 n pageCount c m = some r → Traced attributes m r.2
  | 0, _, _, _, _, h => absurd h (by simp [vmallocLoop])
  | n + 1, pageCount, c, m, r, h => by
    rw [vmallocLoop] at h
    split at h
    · split at h
      · exact traced_vmallocLoop n _ _ _ _ h
      · simp only at h
        split at h
        · exact absurd h (by simp)
        · exact (traced_mapRun c m).trans (traced_vmallocLoop n _ _ _ _ h)
    · obtain rfl := Option.some_inj.mp h
      exact Traced.of_log_eq rfl

/-- What `vmalloc` reports depends on the bitmap it starts with only. -/
theorem vmalloc_cases {n va pages : Nat} {m : Machine} {r : MemoryDescriptor × Machine}
    (h : vmalloc n m va pages attributes pml4 = some r) :
    (r.1.attr ≠ 0 ∧ r.2 = m) ∨ (r.1.attr = 0 ∧ Traced attributes m r.2) := by
  rw [vmalloc] at h
  split at h
  · obtain rfl := Option.some_inj.mp h
    exact Or.inl ⟨by simp, rfl⟩
  · simp only at h
    split at h
    · obtain rfl := Option.some_inj.mp h
      exact Or.inl ⟨by simp, rfl⟩
    · split at h
      · exact absurd h (by simp)
      · rename_i c m₁ hloop
        obtain rfl := Option.some_inj.mp h
        exact Or.inr ⟨rfl, (traced_vmallocLoop _ _ _ _ _ hloop).trans
          ((traced_mapRun c m₁).trans (Traced.of_log_eq rfl))⟩

/-- **A failed table allocation always hits frame 0.**  Whatever the tables, the bitmap and the
range: a call of `create_mapping` in which `alloc_frame` fails overwrites frame 0 and makes a
present entry point to it; and a call of `vmalloc` in which this happens returns `Attribute` 0. -/
theorem table_allocation_failure (m : Machine) (va pages attributes pml4 : Nat) :
    (∀ pa, TableFailure m (createMapping m va pa pages attributes pml4) →
      Happened (Event.Overwrites 0) m (createMapping m va pa pages attributes pml4) ∧
      (attributes % 2 = 1 →
        Happened (Event.Installs 0) m (createMapping m va pa pages attributes pml4))) ∧
    ∀ n r, vmalloc n m va pages attributes pml4 = some r → TableFailure m r.2 →
      r.1.attr = 0 ∧ Happened (Event.Overwrites 0) m r.2 ∧
      (attributes % 2 = 1 → Happened (Event.Installs 0) m r.2) := by
  refine ⟨fun pa hf => (traced_createMapping m va pa pages pml4).of_failure hf, fun n r h hf => ?_⟩
  rcases vmalloc_cases h with ⟨-, hsame⟩ | ⟨hattr, htr⟩
  · rw [hsame] at hf
    exact absurd hf (lt_irrefl _)
  · exact ⟨hattr, htr.of_failure hf⟩

end

/-- Eight frames, two of them free.  There is a page directory, but no page table. -/
def crowdedMachine : Machine where
  mem := fun f i =>
    if f = 0 then 7 else if f = 1 ∧ i = 0 then 0x2003 else if f = 2 ∧ i = 0 then 0x3003 else 0
  frames :=
    { bitmap := fun i => if i = 0 then 0xF3 else 0xFF
      bitmapSize := 1
      bitmapSize_le := by decide
      formerCount := 4 }
  gbPageSupport := 0
  pagingAllocatedPages := 3
  log := []

/-- The machine after `vmalloc(0x1ff000, 2, 0x03)`: the two free frames are taken for the range, and
none is left for the two page tables it needs. -/
def crowdedResult : MemoryDescriptor × Machine :=
  (vmalloc 8 crowdedMachine 0x1ff000 2 3 0x1000).getD ({}, crowdedMachine)

theorem vmalloc_crowdedMachine :
    vmalloc 8 crowdedMachine 0x1ff000 2 3 0x1000 = some crowdedResult := by
  rfl

/-- Frame 0 is overwritten, entries point to it, and `vmalloc` returns `Attribute` 0. -/
theorem table_allocation_failure_crowded :
    crowdedResult.1.attr = 0 ∧ Happened (Event.Overwrites 0) crowdedMachine crowdedResult.2 ∧
      (3 % 2 = 1 → Happened (Event.Installs 0) crowdedMachine crowdedResult.2) :=
  (table_allocation_failure crowdedMachine 0x1ff000 2 3 0x1000).2 8 _ vmalloc_crowdedMachine
    (by decide)

/-- Two table allocations fail, both tables are put into frame 0, whose contents are lost, and the
first page of the range is not mapped although `vmalloc` reports success. -/
theorem vmalloc_loses_page :
    vmalloc 8 crowdedMachine 0x1ff000 2 3 0x1000 = some crowdedResult ∧
    TableFailure crowdedMachine crowdedResult.2 ∧ crowdedMachine.mem 0 1 = 7 ∧
    crowdedResult.2.mem 0 1 = 0 ∧ crowdedResult.2.mem 3 0 = 3 ∧ crowdedResult.2.mem 3 1 = 3 ∧
    crowdedResult.1.attr = 0 ∧ crowdedResult.1.numberOfPages = 2 ∧
    hardwareWalk crowdedResult.2.mem (0x1000 >>> 12) 0x1ff000 = none :=
  ⟨vmalloc_crowdedMachine, by decide⟩

end Dem64
