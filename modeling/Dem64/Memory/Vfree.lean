import Dem64.Paging.Whole
import Dem64.Memory.Valloc
import Mathlib.Data.List.Basic

/-!
# The frames `vfree` gives back

`vfree` finds the frames of a range one leaf at a time: it looks up the page it stands on, gives back
as many frames as a leaf of that size has, from the first frame of the leaf on, and moves on by the
size of the leaf.  Nothing looks at where in the leaf the page is, or at how many pages of the range
are left.

So the loop does what it is for exactly when every leaf it meets lies inside the range
(`vfree_exact_iff`).  A range that starts inside a large page gives back the frames in front of it as
well, and one that ends inside a large page makes `NumberOfPages` wrap around.
-/

set_option autoImplicit false

namespace Dem64

/-- The descriptor that an iteration of `vfree` passes to `free_frame`. -/
def leafDescriptor (m : Machine) (va pml4 : Nat) : MemoryDescriptor :=
  let lookup := pagingLookup m va pml4
  let count := if lookup.pageType = 0 then 1 else if lookup.pageType = 1 then 512 else 262144
  { physicalStart := lookup.physicalAddress, virtualStart := va, numberOfPages := count }

/-- The calls of `free_frame` in the loop of `vfree`: each descriptor with what `NumberOfPages` is
before the pages of the descriptor are subtracted from it. -/
def vfreeCalls (pml4 : Nat) (m : Machine) : Nat → Nat → Nat → Option (List (Nat × MemoryDescriptor))
  | 0, _, _ => none
  | n + 1, va, pages =>
    if pages > 0 then
      let frame := leafDescriptor m va pml4
      (vfreeCalls pml4 m n ((va + 4096 * frame.numberOfPages) % 2 ^ 64)
        (subU64 pages frame.numberOfPages)).map ((pages, frame) :: ·)
    else some []

/-- The frames of a descriptor, in order. -/
def MemoryDescriptor.frames (d : MemoryDescriptor) : List Nat :=
  List.range' (d.physicalStart / 4096) d.numberOfPages

/-- The frames behind the pages from `va` on, page by page. -/
def backing (mem : Nat → Nat → Nat) (root va pages : Nat) : List Nat :=
  (List.range pages).filterMap fun i => (hardwareWalk mem root (va + 4096 * i)).map Prod.fst

/-- `vfree` does what it is for: its loop ends, with these calls of `free_frame`, in the machine
`m₁`. -/
structure VfreeExact (m : Machine) (va pages pml4 : Nat) (calls : List (Nat × MemoryDescriptor))
    (m₁ : Machine) : Prop where
  /-- The loop ends, and so does `vfree`. -/
  ends : ∃ n, vfreeCalls pml4 m n va pages = some calls ∧ vfreeLoop pml4 n va pages m = some m₁ ∧
    vfree n m va pages pml4 = some (destroyMapping m₁ va pages pml4)
  /-- `NumberOfPages` does not wrap. -/
  noWrap : ∀ c ∈ calls, c.2.numberOfPages ≤ c.1
  /-- The frames given back are those behind the pages, one after the other. -/
  frames : calls.flatMap (fun c => c.2.frames) = backing m.mem (pml4 >>> 12) va pages
  /-- Their bits are cleared, and no others. -/
  clears : ∀ p, p ∈ m₁.frames.usedPages ↔
    p ∈ m.frames.usedPages ∧ p ∉ backing m.mem (pml4 >>> 12) va pages

/-- No large page reaches across an end of the range. -/
def WholeLeaves (mem : Nat → Nat → Nat) (root va pages : Nat) : Prop :=
  ∀ x y, x % 4096 = 0 → x < va ∨ va + 4096 * pages ≤ x → va ≤ y → y < va + 4096 * pages →
    ¬ SameLeaf mem root x y

/-! ## The loop and its calls -/

section

variable {pml4 : Nat}

theorem vfreeLoop_succ (n va pages : Nat) (m : Machine) : vfreeLoop pml4 (n + 1) va pages m =
    if pages > 0 then
      vfreeLoop pml4 n ((va + 4096 * (leafDescriptor m va pml4).numberOfPages) % 2 ^ 64)
        (subU64 pages (leafDescriptor m va pml4).numberOfPages)
        { m with frames := freeFrame m.frames (leafDescriptor m va pml4) }
    else some m := rfl

/-- The lookups read the tables only. -/
theorem vfreeCalls_frames (m : Machine) (s : FrameState) : ∀ n va pages,
    vfreeCalls pml4 { m with frames := s } n va pages = vfreeCalls pml4 m n va pages
  | 0, _, _ => rfl
  | n + 1, va, pages => by
    have hd : leafDescriptor { m with frames := s } va pml4 = leafDescriptor m va pml4 := rfl
    simp only [vfreeCalls, hd, vfreeCalls_frames m s n]

/-- The loop carries out its calls one after the other. -/
theorem vfreeLoop_eq : ∀ (n va pages : Nat) (m : Machine), vfreeLoop pml4 n va pages m =
    (vfreeCalls pml4 m n va pages).map fun calls =>
      { m with frames := calls.foldl (fun s c => freeFrame s c.2) m.frames }
  | 0, _, _, _ => rfl
  | n + 1, va, pages, m => by
    rw [vfreeLoop_succ, vfreeCalls]
    split
    · rw [vfreeLoop_eq n, vfreeCalls_frames, Option.map_map]
      rfl
    · rfl

theorem mem_frames {d : MemoryDescriptor} {p : Nat} : p ∈ d.frames ↔ p ∈ d.pages := by
  rw [MemoryDescriptor.frames, MemoryDescriptor.pages, List.mem_range'_1, Set.mem_Ico]

/-- Exactly the frames of the calls are cleared. -/
theorem used_foldl_freeFrame (p : Nat) : ∀ (calls : List (Nat × MemoryDescriptor)) (s : FrameState),
    p ∈ (calls.foldl (fun s c => freeFrame s c.2) s).usedPages ↔
      p ∈ s.usedPages ∧ p ∉ calls.flatMap fun c => c.2.frames
  | [], s => by simp
  | c :: calls, s => by
    rw [List.foldl_cons, used_foldl_freeFrame p calls, freeFrame_used, List.flatMap_cons,
      List.mem_append, not_or, mem_frames, and_assoc]

/-- When the calls are right, so is what the loop does. -/
theorem VfreeExact.of_calls {m : Machine} {n va pages : Nat} {calls : List (Nat × MemoryDescriptor)}
    (hn : vfreeCalls pml4 m n va pages = some calls) (hwrap : ∀ c ∈ calls, c.2.numberOfPages ≤ c.1)
    (hframes : calls.flatMap (fun c => c.2.frames) = backing m.mem (pml4 >>> 12) va pages) :
    ∃ m₁, VfreeExact m va pages pml4 calls m₁ := by
  have hloop := @vfreeLoop_eq pml4 n va pages m
  rw [hn, Option.map_some] at hloop
  refine ⟨_, ⟨n, hn, hloop, by rw [vfree, hloop, Option.map_some]⟩, hwrap, hframes, fun p => ?_⟩
  rw [used_foldl_freeFrame, hframes]

end

/-! ## Leaf by leaf -/

section

variable {pml4 root : Nat} {m : Machine}

/-- The frame behind a page that a leaf `(k, e)` maps. -/
theorem leafDescriptor_of_walk {va k e : Nat} (hpml4 : pml4 ≠ 0)
    (hw : walk m.mem (pml4 >>> 12) (pageOf va) = some (k, e)) :
    (leafDescriptor m va pml4).physicalStart / 4096 = e / 4096 ∧
      (leafDescriptor m va pml4).numberOfPages = span k := by
  obtain ⟨hk1, hk3⟩ := walk_depth (pageOf_lt va) hw
  rw [leafDescriptor, pagingLookup_of_walk hpml4 hw]
  refine ⟨by simp only [addrOf_eq, Nat.mul_div_cancel _ (show 0 < 4096 by decide)], ?_⟩
  obtain rfl | rfl | rfl : k = 1 ∨ k = 2 ∨ k = 3 := by omega
  · rfl
  · rfl
  · rfl

/-- The frames behind the pages with the numbers `v, …, v + n - 1`. -/
def pageBacking (mem : Nat → Nat → Nat) (root v n : Nat) : List Nat :=
  (List.range' v n).filterMap fun u => (walk mem root u).map fun leaf => (leafPage u leaf).1

theorem backing_eq {va pages : Nat} (hrange : CanonicalRange va pages) :
    backing m.mem root va pages = pageBacking m.mem root (pageOf va) pages := by
  rw [backing, pageBacking, List.range'_eq_map_range, List.filterMap_map]
  refine List.filterMap_congr fun i hi => ?_
  rw [List.mem_range] at hi
  rw [hardwareWalk, hardwareLeaf, if_pos (hrange.canonical i hi), hrange.pageOf_add hi,
    Option.map_map]
  rfl

theorem pageBacking_append (mem : Nat → Nat → Nat) (root v a b : Nat) :
    pageBacking mem root v (a + b) = pageBacking mem root v a ++ pageBacking mem root (v + a) b := by
  rw [pageBacking, ← List.range'_append_1, List.filterMap_append]
  rfl

/-- A leaf that starts at `v` is backed by frames in a row. -/
theorem pageBacking_leaf {v k e : Nat} (hv : v + span k ≤ 2 ^ 36)
    (hw : walk m.mem root v = some (k, e)) (h0 : v % span k = 0) :
    pageBacking m.mem root v (span k) = List.range' (e / 4096) (span k) := by
  have hpos := span_pos k
  rw [pageBacking, List.range'_eq_map_range, List.filterMap_map, List.range'_eq_map_range,
    ← List.filterMap_eq_map]
  refine List.filterMap_congr fun i hi => ?_
  rw [List.mem_range] at hi
  obtain ⟨q, rfl⟩ := Nat.dvd_of_mod_eq_zero h0
  have hdiv : (span k * q + i) / span k = span k * q / span k := by
    rw [Nat.mul_add_div hpos, Nat.div_eq_of_lt hi, Nat.mul_div_cancel_left _ hpos, Nat.add_zero]
  have hwi := walk_congr (by omega) (by omega) hw hdiv
  simp only [Function.comp, hwi, Option.map_some, leafPage, Nat.mul_add_mod, Nat.mod_eq_of_lt hi]

theorem Covered.cons {v fin k e : Nat} (hfin : fin ≤ 2 ^ 36) (hw : walk m.mem root v = some (k, e))
    (h0 : v % span k = 0) (hle : v + span k ≤ fin) :
    Covered root v fin m ↔ Covered root (v + span k) fin m := by
  have hpos := span_pos k
  obtain ⟨q, rfl⟩ := Nat.dvd_of_mod_eq_zero h0
  -- the pages of the first leaf
  have hfirst : ∀ u, span k * q ≤ u → u < span k * q + span k →
      u / span k = q ∧ walk m.mem root u = some (k, e) := by
    intro u h1 h2
    have hdiv : u / span k = q :=
      Nat.div_eq_of_lt_le (by rwa [Nat.mul_comm]) (by rw [Nat.mul_comm, Nat.mul_add, Nat.mul_one]; omega)
    exact ⟨hdiv, walk_congr (by omega) (by omega) hw (by rw [hdiv, Nat.mul_div_cancel_left _ hpos])⟩
  constructor
  · intro h u h1 h2
    obtain ⟨k', e', hwu, hb1, hb2⟩ := h u (by omega) h2
    refine ⟨k', e', hwu, ?_, hb2⟩
    by_contra hlt
    -- a leaf that starts further to the front is the first one
    have hu1 := Nat.div_mul_le_self u (span k')
    have hws := walk_congr (u := u / span k' * span k') (by omega) (by omega) hwu
      (Nat.mul_div_cancel _ (span_pos k'))
    obtain ⟨hq, hws'⟩ := hfirst (u / span k' * span k') hb1 (by omega)
    obtain ⟨rfl, rfl⟩ := Prod.mk.inj (Option.some_inj.mp (hws.symm.trans hws'))
    rw [Nat.mul_div_cancel _ (span_pos k')] at hq
    have hu2 := Nat.lt_div_mul_add (a := u) (span_pos k')
    rw [hq, Nat.mul_comm] at hu2
    omega
  · intro h u h1 h2
    by_cases hu : u < span k * q + span k
    · obtain ⟨hq, hwu⟩ := hfirst u h1 hu
      refine ⟨k, e, hwu, ?_, ?_⟩
      · rw [hq, Nat.mul_comm]
      · rw [hq, Nat.mul_comm, Nat.mul_add, Nat.mul_one]
        exact hle
    · obtain ⟨k', e', hwu, hb1, hb2⟩ := h u (by omega) h2
      exact ⟨k', e', hwu, by omega, hb2⟩

/-- What is left of a range of canonical addresses. -/
theorem CanonicalRange.drop {va pages n : Nat} (h : CanonicalRange va pages) (hn : n < pages) :
    CanonicalRange ((va + 4096 * n) % 2 ^ 64) (pages - n) ∧
      pageOf ((va + 4096 * n) % 2 ^ 64) = pageOf va + n := by
  have hle := h.le
  have hal := h.aligned
  rw [Nat.mod_eq_of_lt (by omega)]
  refine ⟨⟨by omega, by omega, by omega, fun i hi => ?_⟩, h.pageOf_add hn⟩
  have hc := h.canonical (n + i) (by omega)
  rwa [Nat.mul_add, ← Nat.add_assoc] at hc

/-- **The loop gives back the frames of its range, page by page, exactly when the range consists of
whole leaves.**  By induction on the pages that are left: the first call is right when the leaf
starts at the page the loop stands on and ends inside the range. -/
theorem vfreeCalls_iff (hpml4 : pml4 ≠ 0) : ∀ (pages va v : Nat),
    (0 < pages → CanonicalRange va pages ∧ pageOf va = v) → v + pages ≤ 2 ^ 36 →
    (∀ u, v ≤ u → u < v + pages → walk m.mem (pml4 >>> 12) u ≠ none) →
    ((∃ n calls, vfreeCalls pml4 m n va pages = some calls ∧ (∀ c ∈ calls, c.2.numberOfPages ≤ c.1) ∧
        calls.flatMap (fun c => c.2.frames) = pageBacking m.mem (pml4 >>> 12) v pages) ↔
      Covered (pml4 >>> 12) v (v + pages) m) := by
  intro pages
  induction pages using Nat.strong_induction_on with
  | _ pages ih =>
    intro va v hrange hv hmapped
    rcases Nat.eq_zero_or_pos pages with rfl | hpos
    · refine iff_of_true ⟨1, [], rfl, by simp, rfl⟩ fun u h1 h2 => absurd h2 (by omega)
    obtain ⟨hr, rfl⟩ := hrange hpos
    obtain ⟨⟨k, e⟩, hw⟩ := Option.ne_none_iff_exists'.mp (hmapped _ (le_refl _) (by omega))
    obtain ⟨hstart, hcount⟩ := leafDescriptor_of_walk hpml4 hw
    have hspan := span_pos k
    -- the loop goes on behind the leaf
    have hnext : span k ≤ pages →
        ((∃ n calls, vfreeCalls pml4 m n ((va + 4096 * span k) % 2 ^ 64) (subU64 pages (span k)) =
            some calls ∧ (∀ c ∈ calls, c.2.numberOfPages ≤ c.1) ∧ calls.flatMap (fun c => c.2.frames) =
              pageBacking m.mem (pml4 >>> 12) (pageOf va + span k) (pages - span k)) ↔
          Covered (pml4 >>> 12) (pageOf va + span k) (pageOf va + pages) m) := by
      intro hle
      have hsub : subU64 pages (span k) = pages - span k := by
        have hend := hr.le
        rw [subU64]
        omega
      have h := ih (pages - span k) (by omega) ((va + 4096 * span k) % 2 ^ 64) (pageOf va + span k)
        (fun hlt => hr.drop (by omega)) (by omega) fun u h1 h2 => hmapped u (by omega) (by omega)
      rw [show pageOf va + span k + (pages - span k) = pageOf va + pages by omega] at h
      rwa [hsub]
    constructor
    · rintro ⟨n, calls, hn, hwrap, hframes⟩
      cases n with
      | zero => exact absurd hn (by simp [vfreeCalls])
      | succ n =>
        simp only [vfreeCalls, if_pos hpos, hcount] at hn
        obtain ⟨rest, hrest, rfl⟩ := Option.map_eq_some_iff.mp hn
        have hle : span k ≤ pages := hcount ▸ hwrap _ List.mem_cons_self
        -- the first frame given back is the one behind the first page
        have h0 : pageOf va % span k = 0 := by
          obtain ⟨p, rfl⟩ : ∃ p, pages = p + 1 := ⟨pages - 1, by omega⟩
          obtain ⟨c, hc⟩ : ∃ c, span k = c + 1 := ⟨span k - 1, by omega⟩
          rw [List.flatMap_cons, MemoryDescriptor.frames, hstart, hcount, pageBacking, List.range'_succ,
            hc, List.range'_succ] at hframes
          simp only [List.filterMap_cons, hw, Option.map_some, leafPage] at hframes
          have hhead := (List.cons.inj hframes).1
          omega
        rw [Covered.cons hv hw h0 (by omega)]
        refine (hnext hle).mp ⟨n, rest, hrest, fun c hc => hwrap c (List.mem_cons_of_mem _ hc), ?_⟩
        rw [List.flatMap_cons, MemoryDescriptor.frames, hstart, hcount,
          show pages = span k + (pages - span k) by omega, pageBacking_append,
          pageBacking_leaf (by omega) hw h0] at hframes
        exact List.append_cancel_left hframes
    · intro hcov
      obtain ⟨h0, hle⟩ := hcov.first (by omega) hw
      obtain ⟨n, rest, hrest, hwrap, hframes⟩ :=
        (hnext (by omega)).mpr ((Covered.cons hv hw h0 hle).mp hcov)
      refine ⟨n + 1, (pages, leafDescriptor m va pml4) :: rest, ?_, fun c hc => ?_, ?_⟩
      · simp only [vfreeCalls, if_pos hpos, hcount, hrest, Option.map_some]
      · rcases List.mem_cons.mp hc with rfl | hc
        · simp only [hcount]
          omega
        · exact hwrap c hc
      · rw [List.flatMap_cons, MemoryDescriptor.frames, hstart, hcount, hframes,
          ← pageBacking_leaf (by omega) hw h0, ← pageBacking_append]
        congr 1
        omega

/-! ## The range -/

/-- A range of mapped pages consists of whole leaves when no large page reaches across an end. -/
theorem covered_iff_wholeLeaves {va pages : Nat} (hrange : CanonicalRange va pages)
    (hmapped : ∀ i, i < pages → hardwareWalk m.mem root (va + 4096 * i) ≠ none) :
    Covered root (pageOf va) (pageOf va + pages) m ↔ WholeLeaves m.mem root va pages := by
  have hle := hrange.le
  have hal := hrange.aligned
  have hfits := hrange.fits
  constructor
  · rintro hcov x y hx hout h1 h2 ⟨k, e, hleaf, hsame⟩
    obtain ⟨hcx, hwx⟩ := hardwareLeaf_eq_some.mp hleaf
    have hy := (hrange.mem_iff (hrange.canonical_of_mem h1 h2)).mp ⟨h1, h2⟩
    have hx' := mt (hrange.mem_iff hcx).mpr (by omega)
    obtain ⟨k', e', hwy, hb1, hb2⟩ := hcov _ hy.1 hy.2
    have hwx' := walk_congr (pageOf_lt y) (pageOf_lt x) hwx hsame.symm
    obtain ⟨rfl, rfl⟩ := Prod.mk.inj (Option.some_inj.mp (hwx'.symm.trans hwy))
    have hx1 := Nat.div_mul_le_self (pageOf x) (span k)
    have hx2 := Nat.lt_div_mul_add (a := pageOf x) (span_pos k)
    rw [← hsame] at hb1 hb2
    rw [Nat.add_mul, one_mul] at hb2
    omega
  · intro hwhole u h1 h2
    have hu : u = pageOf va + (u - pageOf va) := by omega
    have hcu := hrange.canonical (u - pageOf va) (by omega)
    have hpu := hrange.pageOf_add (i := u - pageOf va) (by omega)
    have hmap := hmapped (u - pageOf va) (by omega)
    rw [hardwareWalk, hardwareLeaf, if_pos hcu, hpu, ← hu] at hmap
    have hne : walk m.mem root u ≠ none := fun hc => hmap (by rw [hc]; rfl)
    obtain ⟨⟨k, e⟩, hw⟩ := Option.ne_none_iff_exists'.mp hne
    refine ⟨k, e, hw, ?_⟩
    obtain ⟨hk1, hk3⟩ := walk_depth (by omega) hw
    -- the pages of the leaf, at their addresses
    have hblock : ∀ t, t / span k = u / span k → pageOf va ≤ t ∧ t < pageOf va + pages := by
      intro t ht
      have hgb : t / 262144 = u / 262144 := div_span_eq_of_le hk1 hk3 ht
      obtain ⟨x, hcx, hx, hpx⟩ : ∃ x, Canonical x ∧ x % 4096 = 0 ∧ pageOf x = t := by
        by_cases hhalf : u < 2 ^ 35
        · exact ⟨4096 * t, Or.inl (by omega), by omega, by rw [pageOf]; omega⟩
        · exact ⟨2 ^ 64 - 2 ^ 48 + 4096 * t, Or.inr (by omega), by omega, by rw [pageOf]; omega⟩
      rw [← hpx, ← hrange.mem_iff hcx]
      by_contra hout
      refine hwhole x (va + 4096 * (u - pageOf va)) hx (by omega) (by omega) (by omega) ⟨k, e, ?_, ?_⟩
      · exact hardwareLeaf_eq_some.mpr ⟨hcx, hpx ▸ walk_congr (by omega) (by omega) hw ht⟩
      · rw [hpu, ← hu, hpx, ht]
    have hspan := span_pos k
    have h1 := hblock (u / span k * span k) (Nat.mul_div_cancel _ hspan)
    have h2 := hblock (u / span k * span k + (span k - 1))
      (Nat.div_eq_of_lt_le (by omega) (by rw [Nat.add_mul, one_mul]; omega))
    rw [Nat.add_mul, one_mul]
    omega

/-- **`vfree` gives back exactly the frames of its range when, and only when, no large page reaches
across an end of the range.**  Then the loop ends and `NumberOfPages` never wraps; whether a page
table or a frame is shared does not matter. -/
theorem vfree_exact_iff {va pages : Nat} (hpml4 : pml4 ≠ 0) (hrange : CanonicalRange va pages)
    (hmapped : ∀ i, i < pages → hardwareWalk m.mem (pml4 >>> 12) (va + 4096 * i) ≠ none) :
    (∃ calls m₁, VfreeExact m va pages pml4 calls m₁) ↔ WholeLeaves m.mem (pml4 >>> 12) va pages := by
  have hfits := hrange.fits
  rw [← covered_iff_wholeLeaves hrange hmapped, ← vfreeCalls_iff hpml4 pages va (pageOf va)
    (fun _ => ⟨hrange, rfl⟩) hfits, ← backing_eq hrange]
  · constructor
    · rintro ⟨calls, m₁, ⟨n, hn, -⟩, hwrap, hframes, -⟩
      exact ⟨n, calls, hn, hwrap, hframes⟩
    · rintro ⟨n, calls, hn, hwrap, hframes⟩
      exact ⟨calls, VfreeExact.of_calls hn hwrap hframes⟩
  · intro u h1 h2 hc
    have hpu := hrange.pageOf_add (i := u - pageOf va) (by omega)
    refine hmapped (u - pageOf va) (by omega) ?_
    rw [hardwareWalk, hardwareLeaf, if_pos (hrange.canonical _ (by omega)), hpu,
      show pageOf va + (u - pageOf va) = u by omega, hc]
    rfl

/-- The second of two small pages. -/
theorem vfree_exact_second_page :
    ∃ calls m₁, VfreeExact twoPageMachine 0x201000 1 0x1000 calls m₁ := by
  have hrange : CanonicalRange 0x201000 1 := ⟨by decide, by decide, by decide, by decide⟩
  have hmapped : ∀ i, i < 1 →
      hardwareWalk twoPageMachine.mem (0x1000 >>> 12) (0x201000 + 4096 * i) ≠ none := by decide
  refine (vfree_exact_iff (by decide) hrange hmapped).mpr ?_
  refine (covered_iff_wholeLeaves hrange hmapped).mp fun u h1 h2 => ?_
  obtain rfl : u = 0x201 := by
    rw [show pageOf 0x201000 = 0x201 from rfl] at h1 h2
    omega
  exact ⟨3, 0x401003, by decide, by decide, by decide⟩

/-- A 2 MiB page at `0x200000`, on frames that are all marked used. -/
def largePageMachine : Machine :=
  createMapping
    { smallMachine with
      frames :=
        { bitmap := fun i => if i = 0 then 0xC0#8 else 0xff#8
          bitmapSize := 256
          bitmapSize_le := by decide
          formerCount := 2 } } 0x200000 0x200000 512 3 0x1000

/-- `vfree` of the second page of a large page: one page is to be given back, the first call gives
back 512 frames from the start of the large page on, and `NumberOfPages` is `2^64 - 511` then. -/
theorem vfree_inside_large_page :
    CanonicalRange 0x201000 1 ∧
    (∀ i, i < 1 → hardwareWalk largePageMachine.mem (0x1000 >>> 12) (0x201000 + 4096 * i) =
      some (0x201, 3)) ∧
    leafDescriptor largePageMachine 0x201000 0x1000 =
      { physicalStart := 0x200000, virtualStart := 0x201000, numberOfPages := 512 } ∧
    subU64 1 512 = 2 ^ 64 - 511 ∧
    ¬ ∃ calls m₁, VfreeExact largePageMachine 0x201000 1 0x1000 calls m₁ := by
  have hd : leafDescriptor largePageMachine 0x201000 0x1000 =
      { physicalStart := 0x200000, virtualStart := 0x201000, numberOfPages := 512 } := by decide
  refine ⟨⟨by decide, by decide, by decide, by decide⟩, by decide, hd, by decide, ?_⟩
  rintro ⟨calls, m₁, ⟨n, hn, -⟩, hwrap, -⟩
  cases n with
  | zero => exact absurd hn (by simp [vfreeCalls])
  | succ n =>
    simp only [vfreeCalls, if_pos (show 1 > 0 by decide), hd] at hn
    obtain ⟨rest, -, rfl⟩ := Option.map_eq_some_iff.mp hn
    exact absurd (hwrap _ List.mem_cons_self) (by decide)

end

end Dem64
