import Dem64.Memory.Valloc

/-!
# The hint of `alloc_frame`

`alloc_frame` does not start its scan at the first page but at `former_count`.  The hint is moved behind
every run that is taken and pulled back by `free_frame`, so a free page that was skipped because the run
it belongs to was too short lies in front of the hint from then on and is not found any more.

`allocFrame_fails_iff` says exactly what the scan misses, and `alloc_frame_hint` draws the two
conclusions for runs from `allocator_init`: in every state a request is refused rightly if and only if
there is no long enough run of free pages at all or there is one behind the hint; and in a run that
never skips a free page and never gives page tables back behind the hint, no request is refused wrongly.
-/

set_option autoImplicit false

namespace Dem64

/-! ## `allocator_init` -/

/-- The fields of a descriptor of the memory map that `allocator_init` reads. -/
structure MapEntry where
  /-- `Type`. -/
  type : Nat
  /-- `PhysicalStart`. -/
  physicalStart : Nat
  /-- `NumberOfPages`. -/
  numberOfPages : Nat

/-- `EfiConventionalMemory`. -/
def efiConventionalMemory : Nat := 7

/-- One descriptor: conventional memory from 1 MiB on is free, and everything else is used. -/
def markEntry (bm : Bitmap) (desc : MapEntry) : Bitmap :=
  writeRange (!(desc.type == efiConventionalMemory && desc.physicalStart ≥ 0x100000)) bm
    (desc.physicalStart >>> 12) desc.numberOfPages

/-- The bitmap that `allocator_init` makes, given what was in memory before. -/
def initBitmap (memory : Bitmap) (memoryMap : List MapEntry) (kernelStart kernelEnd bitmapSize : Nat) :
    Bitmap :=
  let bm : Bitmap := fun i => if i < bitmapSize then 0xff#8 else memory i
  let bm := memoryMap.foldl markEntry bm
  writeRange true bm (kernelStart >>> 12) (((subU64 kernelEnd kernelStart + 4095) % 2 ^ 64) >>> 12)

/-- `allocator_init`.  `allocator_usable_pages`, which only the diagnostics read, is left out. -/
def allocatorInit (memory : Bitmap) (memoryMap : List MapEntry) (kernelStart kernelEnd bitmapSize : Nat)
    (h : bitmapSize ≤ 2 ^ 49) : FrameState where
  bitmap := initBitmap memory memoryMap kernelStart kernelEnd bitmapSize
  bitmapSize := bitmapSize
  bitmapSize_le := h
  formerCount := 0

/-! ## What the scan misses -/

/-- The `n` pages from `p` on are in the bitmap and free. -/
def FreeRun (s : FrameState) (n p : Nat) : Prop :=
  p + n ≤ 8 * s.bitmapSize ∧ ∀ q, p ≤ q → q < p + n → used s.bitmap q = false

theorem skipUsed_none {s : FrameState} : ∀ {k count : Nat}, 8 * s.bitmapSize ≤ count + k →
    skipUsed s k count = none → ∀ q, count ≤ q → q < 8 * s.bitmapSize → used s.bitmap q = true
  | 0, _, hk, _, q, h1, h2 => absurd h2 (by omega)
  | k + 1, count, hk, h, q, h1, h2 => by
    rw [skipUsed, shiftRight_three] at h
    split at h
    · rename_i hu
      rcases Nat.eq_or_lt_of_le h1 with rfl | hlt
      · exact hu
      · split at h
        · omega
        · exact skipUsed_none (by omega) h q hlt h2
    · exact absurd h (by simp)

theorem skipUsed_some {s : FrameState} : ∀ {k count c : Nat}, skipUsed s k count = some c →
    ∀ q, count ≤ q → q < c → used s.bitmap q = true
  | 0, _, _, h, _, _, _ => absurd h (by simp [skipUsed])
  | k + 1, count, c, h, q, h1, h2 => by
    rw [skipUsed] at h
    split at h
    · rename_i hu
      rcases Nat.eq_or_lt_of_le h1 with rfl | hlt
      · exact hu
      · split at h
        · exact absurd h (by simp)
        · exact skipUsed_some h q hlt h2
    · obtain rfl := Option.some_inj.mp h
      omega

/-- **The scan misses nothing**: no run of free pages starts between the page it starts with and what it
finds, or behind that page if it finds nothing. -/
theorem scan_skips {s : FrameState} {n : Nat} : ∀ {k count countTar matchCount : Nat},
    countTar + matchCount = count → 0 < k → 8 * s.bitmapSize < count + k → ∀ p, countTar ≤ p →
    (∀ x ∈ scan s n k count countTar matchCount, p < x.1) → ¬ FreeRun s n p
  | 0, _, _, _, _, h0, _, _, _, _ => absurd h0 (by omega)
  | k + 1, count, countTar, matchCount, hsum, _, hk, p, hp, h => by
    rw [scan, shiftRight_three] at h
    split at h
    · rename_i hlt
      split at h
      · rintro ⟨hin, -⟩
        omega
      · rename_i hb
        split at h
        · rename_i hu
          by_cases hpc : p ≤ count
          · -- a run that starts at or before `count` ends behind it
            rintro ⟨-, hfree⟩
            rw [hfree count hpc (by omega)] at hu
            exact absurd hu (by simp)
          split at h
          · rename_i hskip
            rintro ⟨hin, hfree⟩
            have hup := skipUsed_none (by omega) hskip p (by omega) (by omega)
            rw [hfree p (le_refl p) (by omega)] at hup
            exact absurd hup (by simp)
          · rename_i c hskip
            obtain ⟨hc, hle, hlast⟩ := skipUsed_spec hskip
            have hcount : count < c := by
              refine lt_of_le_of_ne hle fun heq => ?_
              rw [← heq, hu] at hc
              exact absurd hc (by simp)
            by_cases hpc' : p < c
            · rintro ⟨hin, hfree⟩
              have hup := skipUsed_some hskip p (by omega) hpc'
              rw [hfree p (le_refl p) (by omega)] at hup
              exact absurd hup (by simp)
            · have := hlast (by omega)
              exact scan_skips (Nat.add_zero c) (by omega) (by omega) p (by omega) h
        · exact scan_skips (by omega) (by omega) (by omega) p hp h
    · exact absurd (h _ rfl) (by simpa using hp)

/-- What the scan finds lies behind the page it starts with. -/
theorem scan_le {s : FrameState} {n : Nat} : ∀ {k count countTar matchCount tar c : Nat},
    countTar ≤ count → scan s n k count countTar matchCount = some (tar, c) → countTar ≤ tar
  | 0, _, _, _, _, _, _, h => absurd h (by simp [scan])
  | k + 1, count, countTar, matchCount, tar, c, hle, h => by
    rw [scan] at h
    split at h
    · split at h
      · exact absurd h (by simp)
      · split at h
        · split at h
          · exact absurd h (by simp)
          · rename_i c' hskip
            have h1 := (skipUsed_spec hskip).2.1
            have h2 := scan_le (le_refl c') h
            omega
        · exact scan_le (by omega) h
    · simp only [Option.some_inj, Prod.mk.injEq] at h
      exact h.1.le

/-- **When `alloc_frame` refuses a request**: there is no run of free pages behind the hint. -/
theorem allocFrame_fails_iff (s : FrameState) {n : Nat} (hn : n ≠ 0) :
    (allocFrame s n).1.attr = 1 ↔ ∀ p, s.formerCount ≤ p → ¬ FreeRun s n p := by
  rw [allocFrame, if_neg hn]
  cases hscan : scan s n (8 * s.bitmapSize + 1) s.formerCount s.formerCount 0 with
  | none =>
    refine ⟨fun _ p hp => ?_, fun _ => rfl⟩
    exact scan_skips (k := 8 * s.bitmapSize + 1) (Nat.add_zero _) (by omega) (by omega) p hp
      (by simp [hscan])
  | some r =>
    obtain ⟨tar, c⟩ := r
    refine ⟨fun h => absurd h (by simp), fun h => ?_⟩
    obtain ⟨hc, hin, hfree⟩ := scan_spec (Nat.add_zero _) (Nat.zero_le _) (by omega) (by omega) hscan
    have hin' := hin (Nat.pos_of_ne_zero hn)
    exact absurd ⟨by omega, hfree⟩ (h tar (scan_le (le_refl _) hscan))

/-! ## Runs that skip nothing -/

/-- There is no free page in front of the hint. -/
def NothingBelow (s : FrameState) : Prop := ∀ p, p < s.formerCount → used s.bitmap p = true

/-- The first free page behind the hint starts a run that is long enough. -/
def FirstFits (s : FrameState) (n : Nat) : Prop :=
  ∀ p, s.formerCount ≤ p → used s.bitmap p = false →
    (∀ q, s.formerCount ≤ q → q < p → used s.bitmap q = true) → FreeRun s n p

theorem NothingBelow.allocFrame {s : FrameState} {n : Nat} (h : NothingBelow s) (hfits : FirstFits s n) :
    NothingBelow (allocFrame s n).2 := by
  rw [Dem64.allocFrame]
  split
  · exact h
  · rename_i hn
    split
    · exact h
    · rename_i tar c hscan
      obtain ⟨hc, hin, hfree⟩ := scan_spec (Nat.add_zero _) (Nat.zero_le _) (by omega) (by omega) hscan
      have hle := scan_le (le_refl _) hscan
      -- the run that was found starts at the first free page
      have hbefore : ∀ q, s.formerCount ≤ q → q < tar → used s.bitmap q = true := by
        intro q
        induction q using Nat.strong_induction_on with
        | _ q ih =>
          intro h1 h2
          by_contra hq
          have hrun := hfits q h1 (by simpa using hq) fun q' h3 h4 => ih q' h4 h3 (by omega)
          exact scan_skips (k := 8 * s.bitmapSize + 1) (Nat.add_zero _) (by omega) (by omega) q h1
            (by simp [hscan, h2]) hrun
      intro p hp
      rw [show ({ s with formerCount := c, bitmap := writeRange true s.bitmap tar n } : FrameState).bitmap =
        writeRange true s.bitmap tar n from rfl, used_writeRange]
      split
      · rfl
      · rename_i hout
        have hp' : p < c := hp
        by_cases h1 : p < s.formerCount
        · exact h p h1
        · exact hbefore p (by omega) (by omega)

theorem NothingBelow.freeFrame {s : FrameState} (h : NothingBelow s) (d : MemoryDescriptor) :
    NothingBelow (freeFrame s d) := by
  intro p hp
  have hp' : p < if d.physicalStart >>> 12 < s.formerCount then d.physicalStart >>> 12
    else s.formerCount := hp
  rw [show (Dem64.freeFrame s d).bitmap =
    writeRange false s.bitmap (d.physicalStart >>> 12) d.numberOfPages from rfl, used_writeRange,
    if_neg (by split at hp' <;> omega)]
  exact h p (by split at hp' <;> omega)

/-- No request is refused wrongly when there is no free page in front of the hint. -/
theorem NothingBelow.right {s : FrameState} (h : NothingBelow s) {n : Nat} (hn : n ≠ 0)
    (hfail : (Dem64.allocFrame s n).1.attr = 1) (p : Nat) : ¬ FreeRun s n p := by
  intro hrun
  have hp : p < s.formerCount := by
    by_contra hp
    exact (allocFrame_fails_iff s hn).mp hfail p (by omega) hrun
  have hu := h p hp
  rw [hrun.2 p (le_refl p) (by omega)] at hu
  exact absurd hu (by simp)

/-! ## `vmalloc` -/

/-- How often frames were given back. -/
def Machine.frees (m : Machine) : Nat :=
  m.log.countP fun ev => match ev with
    | .free _ _ => true
    | _ => false

/-- Nothing was given back between `m` and `m'`. -/
def NoFree (m m' : Machine) : Prop := m'.frees = m.frees

/-- Frames are given back, or used pages stay used. -/
def KeepsUsed (m m' : Machine) : Prop :=
  m.frees ≤ m'.frees ∧
    (NoFree m m' → ∀ p, used m.frames.bitmap p = true → used m'.frames.bitmap p = true)

section

variable {m m' m'' : Machine}

theorem KeepsUsed.refl (m : Machine) : KeepsUsed m m := ⟨le_refl _, fun _ _ h => h⟩

theorem KeepsUsed.trans (h : KeepsUsed m m') (h' : KeepsUsed m' m'') : KeepsUsed m m'' := by
  refine ⟨h.1.trans h'.1, fun hno p hp => ?_⟩
  rw [NoFree] at hno
  have h1 := h.1
  have h2 := h'.1
  exact h'.2 (by rw [NoFree]; omega) p (h.2 (by rw [NoFree]; omega) p hp)

theorem keepsUsed_newTable (m : Machine) (a t i : Nat) : KeepsUsed m (newTable a t i m) := by
  obtain ⟨ev, hev, hlog⟩ := newTable_log m a t i
  have hfrees : (newTable a t i m).frees = m.frees := by
    rw [Machine.frees, hlog, hev]
    split <;> simp [Machine.frees]
  refine ⟨hfrees.ge, fun _ p hp => ?_⟩
  show used (allocFrame m.frames 1).2.bitmap p = true
  rcases allocFrame_cases m.frames 1 with ⟨-, -, hs⟩ | ⟨-, hok⟩
  · rw [hs]
    exact hp
  · exact (hok.marks p).mpr (Or.inr hp)

theorem closed_keepsUsed (m : Machine) : Closed (fun _ => True) (KeepsUsed m) where
  store m' t i e h := h.trans ⟨by simp [Machine.frees, Machine.store], fun _ _ hp => hp⟩
  free m' a n h := by
    refine h.trans ⟨by simp [Machine.frees, freePages], fun hno => ?_⟩
    simp [NoFree, Machine.frees, freePages] at hno
  table m' a t i _ h := h.trans (keepsUsed_newTable m' a t i)

variable {attributes pml4 : Nat}

/-- The pages of the run are used afterwards. -/
theorem keepsUsed_mapRun (attributes pml4 : Nat) (c : Scan) (m : Machine) :
    KeepsUsed m (mapRun attributes pml4 c m) ∧
    (NoFree m (mapRun attributes pml4 c m) → ∀ p, c.countTar ≤ p → p < c.countTar + c.matchCount →
      used (mapRun attributes pml4 c m).frames.bitmap p = true) := by
  obtain ⟨m₁, hm₁⟩ : ∃ m₁ : Machine, m₁ = { m with frames :=
      { m.frames with bitmap := fillBitmap c.countTar c.matchCount m.frames.bitmap } } := ⟨_, rfl⟩
  have hrun : KeepsUsed m₁ (mapRun attributes pml4 c m) := by
    rw [mapRun, ← hm₁]
    exact (closed_keepsUsed m₁).createMapping trivial (KeepsUsed.refl m₁) _ _ _ _
  have hfrees : m₁.frees = m.frees := by rw [hm₁]; rfl
  have hbm : ∀ p, used m₁.frames.bitmap p =
      if c.countTar ≤ p ∧ p < c.countTar + c.matchCount then true else used m.frames.bitmap p := by
    intro p
    rw [hm₁]
    exact used_writeRange true _ _ _ p
  have hfill : KeepsUsed m m₁ := by
    refine ⟨hfrees.ge, fun _ p hp => ?_⟩
    rw [hbm, hp]
    split <;> rfl
  refine ⟨hfill.trans hrun, fun hno p h1 h2 => hrun.2 (hno.trans hfrees.symm) p ?_⟩
  rw [hbm, if_pos ⟨h1, h2⟩]

/-- The loop of `vmalloc` leaves no free page behind the run it is in. -/
theorem vmallocLoop_below : ∀ {n pageCount : Nat} {c : Scan} {m : Machine} {r : Scan × Machine},
    vmallocLoop attributes pml4 n pageCount c m = some r → c.countTar + c.matchCount = c.count →
    KeepsUsed m r.2 ∧ r.1.countTar + r.1.matchCount = r.1.count ∧
      (NoFree m r.2 → (∀ p, p < c.countTar → used m.frames.bitmap p = true) →
        ∀ p, p < r.1.countTar → used r.2.frames.bitmap p = true)
  | 0, _, _, _, _, h, _ => absurd h (by simp [vmallocLoop])
  | n + 1, pageCount, c, m, r, h, hsum => by
    rw [vmallocLoop] at h
    split at h
    · split at h
      · obtain ⟨hkeep, hsum', hbelow⟩ := vmallocLoop_below h
          (show c.countTar + (c.matchCount + 1) = c.count + 1 by omega)
        exact ⟨hkeep, hsum', hbelow⟩
      · simp only at h
        split at h
        · exact absurd h (by simp)
        · rename_i count hskip
          obtain ⟨hle, -, hused⟩ := skipTaken_some hskip
          obtain ⟨hkeep, hmark⟩ := keepsUsed_mapRun attributes pml4 c m
          obtain ⟨hkeep', hsum', hbelow⟩ := vmallocLoop_below h (Nat.add_zero _)
          refine ⟨hkeep.trans hkeep', hsum', fun hno hm => ?_⟩
          have h1 := hkeep.1
          have h2 := hkeep'.1
          rw [NoFree] at hno
          have hno₁ : NoFree m (mapRun attributes pml4 c m) := by rw [NoFree]; omega
          refine hbelow (by rw [NoFree]; omega) fun p hp => ?_
          -- below the run, in the run, or behind it
          by_cases hp1 : p < c.countTar
          · exact hkeep.2 hno₁ p (hm p hp1)
          · by_cases hp2 : p < c.count
            · exact hmark hno₁ p (by omega) (by omega)
            · exact hused p (by omega) hp
    · obtain rfl := Option.some_inj.mp h
      exact ⟨KeepsUsed.refl m, hsum, fun _ hm => hm⟩

/-- **`vmalloc` takes every free page it passes**, so it keeps the hint right unless `create_mapping`
gives page tables back. -/
theorem NothingBelow.vmalloc {n va pages : Nat} {d : MemoryDescriptor} (h : NothingBelow m.frames)
    (hcall : vmalloc n m va pages attributes pml4 = some (d, m')) (hno : NoFree m m') :
    NothingBelow m'.frames := by
  rw [Dem64.vmalloc] at hcall
  split at hcall
  · obtain ⟨-, rfl⟩ := Prod.mk.inj (Option.some_inj.mp hcall)
    exact h
  · simp only at hcall
    split at hcall
    · obtain ⟨-, rfl⟩ := Prod.mk.inj (Option.some_inj.mp hcall)
      exact h
    · split at hcall
      · exact absurd hcall (by simp)
      · rename_i c m₁ hloop
        obtain ⟨-, rfl⟩ := Prod.mk.inj (Option.some_inj.mp hcall)
        obtain ⟨hkeep, hsum, hbelow⟩ := vmallocLoop_below hloop (Nat.add_zero _)
        dsimp only at hkeep hsum hbelow
        obtain ⟨hkeep', hmark⟩ := keepsUsed_mapRun attributes pml4 c m₁
        have h1 := hkeep.1
        have h2 := hkeep'.1
        have hno' : (mapRun attributes pml4 c m₁).frees = m.frees := hno
        have hno₁ : NoFree m₁ (mapRun attributes pml4 c m₁) := by rw [NoFree]; omega
        intro p hp
        have hp' : p < c.count := hp
        show used (mapRun attributes pml4 c m₁).frames.bitmap p = true
        by_cases hp1 : p < c.countTar
        · exact hkeep'.2 hno₁ p (hbelow (by rw [NoFree]; omega) h p hp1)
        · exact hmark hno₁ p (by omega) (by omega)

end

/-! ## Runs -/

/-- One call of a run: the machine, and the descriptors of `alloc_frame` not yet given back.  `fits` is a
condition on the calls of `alloc_frame` that succeed, in the state before the call, and `quiet` one on
the calls of `vmalloc`. -/
inductive MemStep (fits : FrameState → Nat → Prop) (quiet : Machine → Machine → Prop) :
    Machine × List MemoryDescriptor → Machine × List MemoryDescriptor → Prop
  /-- A successful `alloc_frame(n)`. -/
  | alloc {m : Machine} {live : List MemoryDescriptor} (n : Nat) (h : (allocFrame m.frames n).1.attr = 0)
      (hfits : fits m.frames n) :
      MemStep fits quiet (m, live)
        ({ m with frames := (allocFrame m.frames n).2 }, (allocFrame m.frames n).1 :: live)
  /-- An `alloc_frame(n)` that is refused. -/
  | refuse {m : Machine} {live : List MemoryDescriptor} (n : Nat)
      (h : (allocFrame m.frames n).1.attr ≠ 0) :
      MemStep fits quiet (m, live) ({ m with frames := (allocFrame m.frames n).2 }, live)
  /-- `free_frame` of a live descriptor. -/
  | free {m : Machine} {live : List MemoryDescriptor} (d : MemoryDescriptor) (h : d ∈ live) :
      MemStep fits quiet (m, live) ({ m with frames := freeFrame m.frames d }, live.erase d)
  /-- `vmalloc`. -/
  | vmalloc {m m' : Machine} {live : List MemoryDescriptor} {d : MemoryDescriptor}
      (n va pages attributes pml4 : Nat) (h : vmalloc n m va pages attributes pml4 = some (d, m'))
      (hquiet : quiet m m') : MemStep fits quiet (m, live) (m', live)

/-- The request `alloc_frame(n)` is refused only if there is no run of `n` free pages. -/
def RefusedRightly (s : FrameState) (n : Nat) : Prop :=
  (allocFrame s n).1.attr = 1 → ∀ p, ¬ FreeRun s n p

theorem MemStep.nothingBelow {x y : Machine × List MemoryDescriptor} (h : MemStep FirstFits NoFree x y)
    (hx : NothingBelow x.1.frames) : NothingBelow y.1.frames := by
  cases h with
  | alloc n _ hfits => exact hx.allocFrame hfits
  | @refuse m live n h =>
    rcases allocFrame_cases m.frames n with ⟨-, -, hs⟩ | ⟨h0, -⟩
    · simpa only [hs] using hx
    · exact absurd h0 h
  | free d _ => exact hx.freeFrame d
  | vmalloc n va pages attributes pml4 hcall hquiet => exact hx.vmalloc hcall hquiet

/-- **The hint of `alloc_frame`.**  In every state, a request is refused rightly exactly when there is no
long enough run of free pages or there is one behind the hint.  And in every state that a run from
`allocator_init` reaches, all requests are refused rightly, if in this run every successful `alloc_frame`
takes the first free page behind the hint and no `vmalloc` gives page tables back. -/
theorem alloc_frame_hint (s : FrameState) (k : Nat) :
    (1 ≤ k → (RefusedRightly s k ↔
      (∀ p, ¬ FreeRun s k p) ∨ ∃ p, s.formerCount ≤ p ∧ FreeRun s k p)) ∧
    ∀ (memory : Bitmap) (memoryMap : List MapEntry) (kernelStart kernelEnd bitmapSize : Nat)
      (hsize : bitmapSize ≤ 2 ^ 49) (m₀ m : Machine) (live : List MemoryDescriptor),
      m₀.frames = allocatorInit memory memoryMap kernelStart kernelEnd bitmapSize hsize →
      Relation.ReflTransGen (MemStep FirstFits NoFree) (m₀, []) (m, live) →
      ∀ n, 1 ≤ n → RefusedRightly m.frames n := by
  refine ⟨fun hk => ?_, fun memory memoryMap ks ke size hsize m₀ m live h0 hrun n hn => ?_⟩
  · rw [RefusedRightly, allocFrame_fails_iff s (by omega)]
    constructor
    · intro h
      by_cases hex : ∃ p, s.formerCount ≤ p ∧ FreeRun s k p
      · exact Or.inr hex
      · exact Or.inl (h fun p hp hrun => hex ⟨p, hp, hrun⟩)
    · rintro (hno | ⟨p, hp, hrun⟩)
      · exact fun _ => hno
      · exact fun h => absurd hrun (h p hp)
  · have hbelow : NothingBelow m.frames :=
      Relation.ReflTransGen.invariant (P := fun x => NothingBelow x.1.frames)
        (fun _ _ hstep hx => hstep.nothingBelow hx) hrun (by
          show NothingBelow m₀.frames
          rw [h0]
          exact fun p hp => absurd hp (by simp [allocatorInit]))
    exact fun hfail p => hbelow.right (by omega) hfail p

/-- One MiB that is not used, then eight pages; the kernel is in the second of them. -/
@[irreducible] def holeFrames : FrameState :=
  allocatorInit (fun _ => 0) [⟨7, 0x100000, 8⟩] 0x101000 0x102000 33 (by decide)

/-- A machine with these frames. -/
def holeMachine (s : FrameState) : Machine where
  mem := fun _ _ => 0
  frames := s
  gbPageSupport := 0
  pagingAllocatedPages := 0
  log := []

theorem holeMachine_frames : (holeMachine holeFrames).frames =
    allocatorInit (fun _ => 0) [⟨7, 0x100000, 8⟩] 0x101000 0x102000 33 (by decide) := by
  rw [holeMachine, holeFrames]

theorem holeMachine_step {fits : FrameState → Nat → Prop} {quiet : Machine → Machine → Prop}
    {s : FrameState} {n : Nat} (live : List MemoryDescriptor) (h : (allocFrame s n).1.attr = 0)
    (hfits : fits s n) : MemStep fits quiet (holeMachine s, live)
      (holeMachine (allocFrame s n).2, (allocFrame s n).1 :: live) :=
  MemStep.alloc (m := holeMachine s) n h hfits

/-- `alloc_frame(1)` right after the set-up takes the hole in front of the kernel, and everything that is
refused afterwards is refused rightly. -/
theorem alloc_frame_hint_hole :
    (allocFrame holeFrames 1).1.attr = 0 ∧ RefusedRightly (allocFrame holeFrames 1).2 7 := by
  have hfits : FirstFits holeFrames 1 := by
    intro p _ hp hbefore
    have h256 : used holeFrames.bitmap 256 = false := by decide +kernel
    have hp256 : p = 256 := by
      rcases Nat.lt_trichotomy p 256 with hlt | heq | hgt
      · have hall : ∀ q < 256, used holeFrames.bitmap q = true := by decide +kernel
        rw [hall p hlt] at hp
        exact absurd hp (by simp)
      · exact heq
      · rw [hbefore 256 (by decide +kernel) hgt] at h256
        exact absurd h256 (by simp)
    subst hp256
    refine ⟨by decide +kernel, fun q h1 h2 => ?_⟩
    obtain rfl : q = 256 := by omega
    exact h256
  have hattr : (allocFrame holeFrames 1).1.attr = 0 := by decide +kernel
  exact ⟨hattr, (alloc_frame_hint holeFrames 1).2 _ _ _ _ _ _ _ _ _ holeMachine_frames
    (Relation.ReflTransGen.single (holeMachine_step [] hattr hfits)) 7 (by decide)⟩

/-- **The hint hides free memory.**  After requests for two and for four pages the hint is at the end of
the memory, and a request for one page is refused although the hole in front of the kernel is free. -/
theorem hint_hides_page : ¬ ∀ (memory : Bitmap) (memoryMap : List MapEntry)
    (kernelStart kernelEnd bitmapSize : Nat) (hsize : bitmapSize ≤ 2 ^ 49) (m₀ m : Machine)
    (live : List MemoryDescriptor),
    m₀.frames = allocatorInit memory memoryMap kernelStart kernelEnd bitmapSize hsize →
    Relation.ReflTransGen (MemStep (fun _ _ => True) (fun _ _ => True)) (m₀, []) (m, live) →
    ∀ n, 1 ≤ n → RefusedRightly m.frames n := by
  intro h
  have h1 : (allocFrame holeFrames 2).1.attr = 0 := by decide +kernel
  have h2 : (allocFrame (allocFrame holeFrames 2).2 4).1.attr = 0 := by decide +kernel
  have h3 : (allocFrame (allocFrame (allocFrame holeFrames 2).2 4).2 1).1.attr = 1 := by decide +kernel
  have h256 : used (allocFrame (allocFrame holeFrames 2).2 4).2.bitmap 256 = false := by decide +kernel
  have hright := h _ _ _ _ _ _ _ _ _ holeMachine_frames
    ((Relation.ReflTransGen.single (holeMachine_step [] h1 trivial)).tail
      (holeMachine_step _ h2 trivial)) 1 (le_refl 1)
  refine hright h3 256 ⟨by decide +kernel, fun q hq1 hq2 => ?_⟩
  obtain rfl : q = 256 := by omega
  exact h256

end Dem64
