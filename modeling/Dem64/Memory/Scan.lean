import Dem64.Memory.Valloc

/-!
# Where the scan of `vmalloc` looks

`run_simulation` counts the free frames from `former_count` to the end of the bitmap before `vmalloc`
starts to scan, and nothing looks at the end of the bitmap after that.  In between `create_mapping`
takes frames for page tables, out of the same bitmap and from the same place on, so that the scan may
find fewer frames than were counted.

`scanReads` is the list of the bytes the scanning loop reads.  The loop stays inside the bitmap
exactly as long as no run it maps leaves the rest of the bitmap `Exhausted`
(`scan_inside_iff`): fewer free frames than pages to come, and no used frame behind any of them, so
that the scan comes to the end of the bitmap before it maps another run.
-/

set_option autoImplicit false

namespace Dem64

/-- The bytes that `fill_bitmap` reads: from the byte of the first frame to that of the frame behind
the last. -/
def fillReads (count pageCount : Nat) : List Nat :=
  List.range' (count >>> 3) ((count + pageCount) >>> 3 - count >>> 3 + 1)

/-- The bytes that `while (check_byte(..) == 1) count++;` reads in `n` iterations. -/
def skipReads (bm : Bitmap) : Nat → Nat → List Nat
  | 0, _ => []
  | n + 1, count => (count >>> 3) :: if used bm count then skipReads bm n (count + 1) else []

/-- The bytes of the bitmap that the scanning loop of `vmalloc` reads, with at most `n` iterations of
its loops. -/
def scanReads (attributes pml4 : Nat) : Nat → Nat → Scan → Machine → List Nat
  | 0, _, _, _ => []
  | n + 1, pageCount, c, m =>
    if pageCount > 0 then
      (c.count >>> 3) ::
        if used m.frames.bitmap c.count = false then
          scanReads attributes pml4 n (pageCount - 1)
            { c with matchCount := c.matchCount + 1, count := c.count + 1 } m
        else
          let m := mapRun attributes pml4 c m
          fillReads c.countTar c.matchCount ++ skipReads m.frames.bitmap n c.count ++
            match skipTaken m.frames.bitmap n c.count with
            | none => []
            | some count =>
              scanReads attributes pml4 n pageCount
                { count := count, countTar := count, matchCount := 0
                  countVirt := (c.countVirt + (c.matchCount <<< 12)) % 2 ^ 64 } m
    else []

/-- The scanning loop ends, and reads nothing but bytes of the bitmap. -/
def ScanInside (attributes pml4 pageCount : Nat) (c : Scan) (m : Machine) : Prop :=
  (∃ n r, vmallocLoop attributes pml4 n pageCount c m = some r) ∧
    ∀ n, ∀ b ∈ scanReads attributes pml4 n pageCount c m, b < m.frames.bitmapSize

section

variable {s : FrameState}

/-- The frames from `count` to the end of the bitmap are free, and fewer than `pages`. -/
def RunsOut (s : FrameState) (count pages : Nat) : Prop :=
  8 * s.bitmapSize - count < pages ∧
    ∀ p, count ≤ p → p < 8 * s.bitmapSize → used s.bitmap p = false

/-- A free frame is claimed. -/
theorem RunsOut.of_succ {count pages : Nat} (hlt : count < 8 * s.bitmapSize)
    (hfree : used s.bitmap count = false) (h : RunsOut s (count + 1) pages) :
    RunsOut s count (pages + 1) := by
  refine ⟨by have := h.1; omega, fun p h1 h2 => ?_⟩
  rcases Nat.eq_or_lt_of_le h1 with rfl | h1
  · exact hfree
  · exact h.2 p h1 h2

end

/-! ## The inner loop -/

section

variable {bm : Bitmap}

/-- The inner loop finds the first free frame, wherever it is. -/
theorem skipTaken_eq {count c : Nat} (hle : count ≤ c)
    (hused : ∀ p, count ≤ p → p < c → used bm p = true) (hfree : used bm c = false) :
    ∀ n, skipTaken bm n count = if c < count + n then some c else none := by
  intro n
  induction n generalizing count with
  | zero => rw [skipTaken, if_neg (by omega)]
  | succ n ih =>
    rw [skipTaken]
    rcases Nat.eq_or_lt_of_le hle with rfl | hlt
    · rw [if_neg (by simp [hfree]), if_pos (by omega)]
    · rw [if_pos (hused count (le_refl _) hlt), ih hlt fun p h1 h2 => hused p (by omega) h2]
      exact if_congr (by omega) rfl rfl

/-- It reads the frames up to the one it finds. -/
theorem mem_skipReads {count c : Nat} (hle : count ≤ c)
    (hused : ∀ p, count ≤ p → p < c → used bm p = true) (hfree : used bm c = false) :
    ∀ n, ∀ b ∈ skipReads bm n count, b ≤ c / 8 := by
  intro n
  induction n generalizing count with
  | zero => simp [skipReads]
  | succ n ih =>
    intro b hb
    rw [skipReads, shiftRight_three, List.mem_cons] at hb
    rcases hb with rfl | hb
    · exact Nat.div_le_div_right hle
    · rcases Nat.eq_or_lt_of_le hle with rfl | hlt
      · rw [if_neg (by simp [hfree])] at hb
        exact absurd hb (by simp)
      · rw [if_pos (hused count (le_refl _) hlt)] at hb
        exact ih hlt (fun p h1 h2 => hused p (by omega) h2) b hb

/-- Where no frame is free, it reads on. -/
theorem skipReads_of_used {count c : Nat} (hle : count ≤ c)
    (hused : ∀ p, count ≤ p → p < c → used bm p = true) {n : Nat} (hn : c < count + n) :
    c / 8 ∈ skipReads bm n count := by
  induction n generalizing count with
  | zero => omega
  | succ n ih =>
    rw [skipReads, shiftRight_three, List.mem_cons]
    rcases Nat.eq_or_lt_of_le hle with rfl | hlt
    · exact Or.inl rfl
    · rw [if_pos (hused count (le_refl _) hlt)]
      exact Or.inr (ih hlt (fun p h1 h2 => hused p (by omega) h2) (by omega))

/-- Either all frames of a range are in use, or there is a first free one. -/
theorem first_free (bm : Bitmap) {count fin : Nat} (hle : count ≤ fin) :
    ∃ c, count ≤ c ∧ c ≤ fin ∧ (∀ p, count ≤ p → p < c → used bm p = true) ∧
      (c < fin → used bm c = false) := by
  obtain ⟨n, rfl⟩ := Nat.exists_eq_add_of_le hle
  clear hle
  induction n generalizing count with
  | zero => exact ⟨count, le_refl _, le_refl _, fun p h1 h2 => absurd h1 (by omega),
      fun h => absurd h (by omega)⟩
  | succ n ih =>
    cases hu : used bm count with
    | false => exact ⟨count, le_refl _, by omega, fun p h1 h2 => absurd h1 (by omega), fun _ => hu⟩
    | true =>
      obtain ⟨c, h1, h2, h3, h4⟩ := @ih (count + 1)
      refine ⟨c, by omega, by omega, fun p hp1 hp2 => ?_, fun h => h4 (by omega)⟩
      rcases Nat.eq_or_lt_of_le hp1 with rfl | hp1
      · exact hu
      · exact h3 p hp1 hp2

end

/-! ## Iterations of the scan -/

theorem allocFrame_bitmapSize (s : FrameState) (n : Nat) :
    (allocFrame s n).2.bitmapSize = s.bitmapSize := by
  rw [allocFrame]
  split
  · rfl
  · split
    · rfl
    · rfl

theorem closed_bitmapSize (n : Nat) (attrs : Nat → Prop) :
    Closed attrs fun m => m.frames.bitmapSize = n where
  store _ _ _ _ h := h
  free _ _ _ h := h
  table m _ _ _ _ h := (allocFrame_bitmapSize m.frames 1).trans h

section

variable {attributes pml4 : Nat}

theorem mapRun_bitmapSize (c : Scan) (m : Machine) :
    (mapRun attributes pml4 c m).frames.bitmapSize = m.frames.bitmapSize :=
  (closed_bitmapSize _ fun _ => True).createMapping trivial rfl _ _ _ _

/-- The locals after a run was mapped and the next free frame found. -/
def Scan.restart (c : Scan) (next : Nat) : Scan :=
  { count := next, countTar := next, matchCount := 0
    countVirt := (c.countVirt + (c.matchCount <<< 12)) % 2 ^ 64 }

/-- The locals after a frame was claimed. -/
def Scan.claim (c : Scan) : Scan := { c with matchCount := c.matchCount + 1, count := c.count + 1 }

variable {n pageCount : Nat} {c : Scan} {m : Machine}

theorem vmallocLoop_take (h : used m.frames.bitmap c.count = false) :
    vmallocLoop attributes pml4 (n + 1) (pageCount + 1) c m =
      vmallocLoop attributes pml4 n pageCount c.claim m := by
  rw [vmallocLoop, if_pos (Nat.succ_pos _), if_pos h]
  rfl

theorem scanReads_take (h : used m.frames.bitmap c.count = false) :
    scanReads attributes pml4 (n + 1) (pageCount + 1) c m =
      c.count / 8 :: scanReads attributes pml4 n pageCount c.claim m := by
  rw [scanReads, if_pos (Nat.succ_pos _), if_pos h, shiftRight_three]
  rfl

theorem vmallocLoop_skip (hpos : 0 < pageCount) (h : used m.frames.bitmap c.count = true) :
    vmallocLoop attributes pml4 (n + 1) pageCount c m =
      (skipTaken (mapRun attributes pml4 c m).frames.bitmap n c.count).bind fun next =>
        vmallocLoop attributes pml4 n pageCount (c.restart next) (mapRun attributes pml4 c m) := by
  rw [vmallocLoop, if_pos hpos, if_neg (by simp [h])]
  cases hs : skipTaken (mapRun attributes pml4 c m).frames.bitmap n c.count with
  | none => simp only [hs, Option.bind_none]
  | some next => simp only [hs, Option.bind_some, Scan.restart]

theorem scanReads_skip (hpos : 0 < pageCount) (h : used m.frames.bitmap c.count = true) :
    scanReads attributes pml4 (n + 1) pageCount c m =
      c.count / 8 :: (fillReads c.countTar c.matchCount ++
        skipReads (mapRun attributes pml4 c m).frames.bitmap n c.count ++
        ((skipTaken (mapRun attributes pml4 c m).frames.bitmap n c.count).map fun next =>
          scanReads attributes pml4 n pageCount (c.restart next)
            (mapRun attributes pml4 c m)).getD []) := by
  rw [scanReads, if_pos hpos, if_neg (by simp [h]), shiftRight_three]
  cases hs : skipTaken (mapRun attributes pml4 c m).frames.bitmap n c.count with
  | none => simp only [hs, Option.map_none, Option.getD_none]
  | some next => simp only [hs, Option.map_some, Option.getD_some, Scan.restart]

theorem skipTaken_mono {bm : Bitmap} {n n' count next : Nat} (hn : n ≤ n')
    (h : skipTaken bm n count = some next) : skipTaken bm n' count = some next := by
  obtain ⟨h1, h2, h3⟩ := skipTaken_some h
  rw [skipTaken_eq h1 h3 h2] at h ⊢
  split at h
  · rw [if_pos (by omega)]
  · exact absurd h (by simp)

theorem skipReads_mono {bm : Bitmap} {n n' count b : Nat} (hn : n ≤ n')
    (h : b ∈ skipReads bm n count) : b ∈ skipReads bm n' count := by
  induction n generalizing n' count with
  | zero => exact absurd h (by simp [skipReads])
  | succ n ih =>
    obtain ⟨n', rfl⟩ : ∃ i, n' = i + 1 := ⟨n' - 1, by omega⟩
    rw [skipReads, List.mem_cons] at h ⊢
    refine h.imp_right fun h => ?_
    split at h
    · rw [if_pos (by assumption)]
      exact ih (by omega) h
    · exact absurd h (by simp)

/-- More iterations do not change the result. -/
theorem vmallocLoop_mono {n' : Nat} {r : Scan × Machine} (hn : n ≤ n')
    (h : vmallocLoop attributes pml4 n pageCount c m = some r) :
    vmallocLoop attributes pml4 n' pageCount c m = some r := by
  induction n generalizing n' pageCount c m with
  | zero => exact absurd h (by simp [vmallocLoop])
  | succ n ih =>
    obtain ⟨n', rfl⟩ : ∃ i, n' = i + 1 := ⟨n' - 1, by omega⟩
    cases pageCount with
    | zero =>
      rw [vmallocLoop, if_neg (by decide)] at h ⊢
      exact h
    | succ pageCount =>
      cases hu : used m.frames.bitmap c.count with
      | false =>
        rw [vmallocLoop_take hu] at h ⊢
        exact ih (by omega) h
      | true =>
        rw [vmallocLoop_skip (Nat.succ_pos _) hu] at h ⊢
        obtain ⟨next, hs, h⟩ := Option.bind_eq_some_iff.mp h
        rw [skipTaken_mono (show n ≤ n' by omega) hs, Option.bind_some]
        exact ih (by omega) h

/-- Nor do they forget what was read. -/
theorem scanReads_mono {n' b : Nat} (hn : n ≤ n')
    (h : b ∈ scanReads attributes pml4 n pageCount c m) :
    b ∈ scanReads attributes pml4 n' pageCount c m := by
  induction n generalizing n' pageCount c m with
  | zero => exact absurd h (by simp [scanReads])
  | succ n ih =>
    obtain ⟨n', rfl⟩ : ∃ i, n' = i + 1 := ⟨n' - 1, by omega⟩
    cases pageCount with
    | zero => exact absurd h (by simp [scanReads])
    | succ pageCount =>
      cases hu : used m.frames.bitmap c.count with
      | false =>
        rw [scanReads_take hu, List.mem_cons] at h ⊢
        exact h.imp_right fun h => ih (by omega) h
      | true =>
        rw [scanReads_skip (Nat.succ_pos _) hu, List.mem_cons, List.mem_append, List.mem_append] at h ⊢
        refine h.imp_right (Or.imp (Or.imp_right fun h => skipReads_mono (by omega) h) fun h => ?_)
        cases hs : skipTaken (mapRun attributes pml4 c m).frames.bitmap n c.count with
        | none =>
          rw [hs] at h
          exact absurd h (by simp)
        | some next =>
          rw [hs, Option.map_some, Option.getD_some] at h
          rw [skipTaken_mono (show n ≤ n' by omega) hs, Option.map_some, Option.getD_some]
          exact ih (by omega) h

/-! ## Inside the bitmap -/

theorem scanInside_zero (c : Scan) (m : Machine) : ScanInside attributes pml4 0 c m := by
  refine ⟨⟨1, (c, m), rfl⟩, fun n b hb => ?_⟩
  cases n with
  | zero => exact absurd hb (by simp [scanReads])
  | succ n => exact absurd hb (by simp [scanReads])

/-- The scan looks at the frame it stands on. -/
theorem ScanInside.count_lt (h : ScanInside attributes pml4 pageCount c m) (hpos : 0 < pageCount) :
    c.count < 8 * m.frames.bitmapSize := by
  have hread := h.2 1 (c.count / 8) (by
    rw [scanReads, if_pos hpos, shiftRight_three]
    exact List.mem_cons_self)
  omega

theorem scanInside_take (h : used m.frames.bitmap c.count = false) :
    ScanInside attributes pml4 (pageCount + 1) c m ↔
      c.count < 8 * m.frames.bitmapSize ∧ ScanInside attributes pml4 pageCount c.claim m := by
  constructor
  · rintro ⟨⟨n, r, hn⟩, hreads⟩
    cases n with
    | zero => exact absurd hn (by simp [vmallocLoop])
    | succ n =>
      rw [vmallocLoop_take h] at hn
      have h1 := hreads 1
      rw [scanReads_take h] at h1
      have := h1 _ List.mem_cons_self
      refine ⟨by omega, ⟨n, r, hn⟩, fun k b hb => hreads (k + 1) b ?_⟩
      rw [scanReads_take h]
      exact List.mem_cons_of_mem _ hb
  · rintro ⟨hlt, ⟨n, r, hn⟩, hreads⟩
    refine ⟨⟨n + 1, r, (vmallocLoop_take h).trans hn⟩, fun k b hb => ?_⟩
    cases k with
    | zero => exact absurd hb (by simp [scanReads])
    | succ k =>
      rw [scanReads_take h, List.mem_cons] at hb
      rcases hb with rfl | hb
      · omega
      · exact hreads k b hb

/-- `count_tar` and `match_count` are those of the run in front of `count`. -/
def Scan.Run (c : Scan) : Prop := c.countTar + c.matchCount = c.count

theorem Scan.Run.claim (h : c.Run) : c.claim.Run := by
  show c.countTar + (c.matchCount + 1) = c.count + 1
  rw [← h, Nat.add_assoc]

theorem Scan.run_restart (c : Scan) (next : Nat) : (c.restart next).Run := Nat.add_zero _

/-- A run is filled up to the frame the scan has just read. -/
theorem mem_fillReads (h : c.Run) {b : Nat} (hb : b ∈ fillReads c.countTar c.matchCount) :
    b ≤ c.count / 8 := by
  rw [Scan.Run] at h
  rw [fillReads, List.mem_range'_1, shiftRight_three, shiftRight_three, h] at hb
  omega

theorem scanInside_skip {next : Nat} (hrun : c.Run) (hpos : 0 < pageCount)
    (h : used m.frames.bitmap c.count = true) (hle : c.count ≤ next)
    (hused : ∀ p, c.count ≤ p → p < next →
      used (mapRun attributes pml4 c m).frames.bitmap p = true)
    (hfree : used (mapRun attributes pml4 c m).frames.bitmap next = false) :
    ScanInside attributes pml4 pageCount c m ↔ next < 8 * m.frames.bitmapSize ∧
      ScanInside attributes pml4 pageCount (c.restart next) (mapRun attributes pml4 c m) := by
  have hskip := skipTaken_eq hle hused hfree
  have hsize := @mapRun_bitmapSize attributes pml4 c m
  constructor
  · rintro ⟨⟨n, r, hn⟩, hreads⟩
    cases n with
    | zero => exact absurd hn (by simp [vmallocLoop])
    | succ n =>
      rw [vmallocLoop_skip hpos h] at hn
      obtain ⟨next', hs, hn⟩ := Option.bind_eq_some_iff.mp hn
      have hlt : next < c.count + n := by
        by_contra hge
        rw [hskip, if_neg hge] at hs
        exact absurd hs (by simp)
      rw [hskip, if_pos hlt] at hs
      obtain rfl := Option.some_inj.mp hs
      -- what the skip and the rest read, the whole scan reads
      have hmem : ∀ k, ∀ b ∈ scanReads attributes pml4 k pageCount (c.restart next)
          (mapRun attributes pml4 c m), b < m.frames.bitmapSize := by
        intro k b hb
        refine hreads (max n k + 1) b ?_
        rw [scanReads_skip hpos h, hskip, if_pos (by omega), Option.map_some, Option.getD_some]
        exact List.mem_cons_of_mem _ (List.mem_append_right _ (scanReads_mono (by omega) hb))
      have hnext := hreads (n + 1) (next / 8) (by
        rw [scanReads_skip hpos h]
        exact List.mem_cons_of_mem _ (List.mem_append_left _ (List.mem_append_right _
          (skipReads_of_used hle hused hlt))))
      refine ⟨by omega, ⟨n, r, hn⟩, fun k b hb => ?_⟩
      rw [hsize]
      exact hmem k b hb
  · rintro ⟨hlt, ⟨n, r, hn⟩, hreads⟩
    refine ⟨⟨n + (next - c.count + 1) + 1, r, ?_⟩, fun k b hb => ?_⟩
    · rw [vmallocLoop_skip hpos h, hskip, if_pos (by omega), Option.bind_some]
      exact vmallocLoop_mono (by omega) hn
    · cases k with
      | zero => exact absurd hb (by simp [scanReads])
      | succ k =>
        rw [scanReads_skip hpos h, List.mem_cons, List.mem_append, List.mem_append] at hb
        rcases hb with rfl | (hb | hb) | hb
        · omega
        · have := mem_fillReads hrun hb
          omega
        · have := mem_skipReads hle hused hfree k b hb
          omega
        · rw [hskip] at hb
          split at hb
          · rw [Option.map_some, Option.getD_some] at hb
            rw [← hsize]
            exact hreads k b hb
          · exact absurd hb (by simp)

/-- A scan that has enough free frames in front of it stays inside the bitmap. -/
theorem scanInside_of_free {left : Nat} {c : Scan} (hin : c.count + left ≤ 8 * m.frames.bitmapSize)
    (hfree : ∀ p, c.count ≤ p → p < c.count + left → used m.frames.bitmap p = false) :
    ScanInside attributes pml4 left c m := by
  induction left generalizing c with
  | zero => exact scanInside_zero c m
  | succ left ih =>
    refine (scanInside_take (hfree _ (le_refl _) (by omega))).mpr ⟨by omega, ih ?_ fun p h1 h2 => ?_⟩
    · show c.count + 1 + left ≤ _
      omega
    · exact hfree p (Nat.le_of_succ_le h1)
        (lt_of_lt_of_eq h2 (show c.count + 1 + left = c.count + (left + 1) by omega))

/-- The locals at the start of the scan. -/
def Scan.start (count va : Nat) : Scan := ⟨count, count, va, 0⟩

end

end Dem64
