import Dem64.Dma.World
import Dem64.Kmalloc.Heap
import Dem64.Lib.Fuel

/-!
# Sizes close to 2^64

Before they look for memory `kmalloc` and `allocate_dma` add the size of what they keep beside a block,
and `allocate_dma` also rounds up.  Neither addition is checked.  A request that wraps around in `kmalloc`
is one for a few bytes, and succeeds (`kmalloc_wraps`); in `allocate_dma` it is one for no pages, which
`alloc_frame` refuses, or for one page, which succeeds.  `sizes_kept_iff` has the two bounds.
-/

set_option autoImplicit false

namespace Dem64

open Kmalloc

/-- A block has at least the size that was asked for and its header. -/
def KmallocKeeps (size : Nat) : Prop :=
  ∀ (env : HeapEnv) (n p : Nat) (s s' : Heap), (∀ calls pages, (env.va calls pages).base < 2 ^ 64) →
    kmalloc env n size s = .ok (p, s') → p ≠ 0 → size + 40 ≤ (s'.header (subU64 p 40)).size

/-- A buffer has at least the size that was asked for and its descriptor. -/
def DmaKeeps (size : Nat) : Prop :=
  ∀ (pml4 n : Nat) (fresh : EntryPtr → DmaEntry) (w w' : DmaWorld) (ret : DmaRet) (l : List EntryPtr),
    allocateDma pml4 n fresh w size = some (ret, l, w') → ret.status = 0 →
      size + 28 ≤ 4096 * ret.sizeInPages

section

variable {env : HeapEnv} {n size p req : Nat} {s s' : Heap}

/-! ## `kmalloc` -/

/-- What `find_objs` returns is an address. -/
theorem findObjs_addr_lt {buff base : Nat} {creq : Bool} {mem : Nat → BitVec 8}
    {r : SearchRet × (Nat → BitVec 8)} (h : findObjs n req buff base creq mem = some r) :
    r.1.addr < 2 ^ 64 := by
  rw [findObjs] at h
  split at h
  · cases h
    exact Nat.two_pow_pos 64
  · split at h
    · cases h
      exact Nat.two_pow_pos 64
    · split at h
      · cases h
      · cases h
        exact Nat.two_pow_pos 64
      · obtain ⟨mem', -, rfl⟩ := Option.map_eq_some_iff.mp h
        exact Nat.mod_lt _ (Nat.two_pow_pos 64)

theorem scanUsed_addr_lt {conreq : Bool} {c : SlabCache} {r : Nat × SearchRet × (Nat → BitVec 8)} :
    ∀ {k i : Nat}, scanUsed s n req conreq c k i = .ok (some r) → r.2.1.addr < 2 ^ 64
  | 0, _, h => by cases h
  | k + 1, i, h => by
    rw [scanUsed] at h
    dsimp only at h
    split at h
    · obtain ⟨⟨ret, map⟩, hfind, h⟩ := bind_eq_ok_iff.mp h
      have hlt := findObjs_addr_lt (bounded_eq_ok.mp hfind)
      dsimp only at h
      split at h
      · exact scanUsed_addr_lt h
      · cases h
        exact hlt
    · exact scanUsed_addr_lt h

theorem searchUsed_place_lt {conreq : Bool} {q : Pick} :
    ∀ {m hd : Nat}, searchUsed n req conreq s m hd = .ok (some q, s') → q.place < 2 ^ 64
  | 0, _, h => by cases h
  | m + 1, hd, h => by
    rw [searchUsed] at h
    split at h
    · cases h
    · obtain ⟨c, -, h⟩ := bind_eq_ok_iff.mp h
      obtain ⟨o, hscan, h⟩ := bind_eq_ok_iff.mp h
      rcases o with _ | ⟨i, ret, map⟩
      · exact searchUsed_place_lt h
      · cases h
        exact scanUsed_addr_lt hscan

theorem takeObjs_addr_lt {conreq : Bool} {slab : Nat} {ret : SearchRet}
    (h : takeObjs n req conreq slab s = .ok (ret, s')) : ret.addr < 2 ^ 64 := by
  obtain ⟨⟨ret', map⟩, hfind, h⟩ := bind_eq_ok_iff.mp h
  cases h
  exact findObjs_addr_lt (bounded_eq_ok.mp hfind)

theorem popUnused_place_lt {conreq : Bool} {q : Pick} (h : popUnused n req conreq s = .ok (some q, s')) :
    q.place < 2 ^ 64 := by
  obtain ⟨o, -, h⟩ := bind_eq_ok_iff.mp h
  cases o with
  | none => cases h
  | some hd =>
    obtain ⟨⟨ret, s₁⟩, htake, h⟩ := bind_eq_ok_iff.mp h
    obtain ⟨s₂, -, h⟩ := bind_eq_ok_iff.mp h
    cases h
    exact takeObjs_addr_lt htake

theorem carveSlab_place_lt {conreq : Bool} {q : Pick}
    (h : carveSlab env n req conreq s = .ok (some q, s')) : q.place < 2 ^ 64 := by
  obtain ⟨⟨o, s₁⟩, -, h⟩ := bind_eq_ok_iff.mp h
  cases o with
  | none => cases h
  | some slab =>
    obtain ⟨⟨ret, s₂⟩, htake, h⟩ := bind_eq_ok_iff.mp h
    obtain ⟨s₃, -, h⟩ := bind_eq_ok_iff.mp h
    cases h
    exact takeObjs_addr_lt htake

theorem pickObjs_place_lt {conreq : Bool} {q : Pick}
    (h : pickObjs env n req conreq s = .ok (some q, s')) : q.place < 2 ^ 64 := by
  obtain ⟨⟨o, s₁⟩, hsearch, h⟩ := bind_eq_ok_iff.mp h
  cases o with
  | some q' =>
    cases h
    cases conreq with
    | true => exact searchUsed_place_lt hsearch
    | false => cases hsearch
  | none =>
    obtain ⟨⟨o, s₂⟩, hpop, h⟩ := bind_eq_ok_iff.mp h
    cases o with
    | none => exact carveSlab_place_lt h
    | some q' =>
      dsimp only at h
      split at h
      · cases h
        exact popUnused_place_lt hpop
      · exact carveSlab_place_lt h

theorem findSlab_place_lt {conreq : Bool} {q : Pick}
    (h : findSlab env n size conreq s = .ok (some q, s')) : q.place < 2 ^ 64 := by
  obtain ⟨⟨ok, s₁⟩, -, h⟩ := bind_eq_ok_iff.mp h
  dsimp only at h
  split at h
  · cases h
  · obtain ⟨⟨o, s₂⟩, hpick, h⟩ := bind_eq_ok_iff.mp h
    cases o with
    | none => cases h
    | some q' =>
      have hlt := pickObjs_place_lt hpick
      have h : dataPage env n _ conreq q' s₂ = .ok (some q, s') := h
      rw [dataPage] at h
      split at h
      · dsimp only at h
        split at h
        · obtain ⟨s₃, -, h⟩ := bind_eq_ok_iff.mp h
          cases h
        · cases h
          exact Nat.mod_lt _ (Nat.two_pow_pos 64)
      · cases h
        exact hlt

theorem subU64_add {a b : Nat} (ha : a < 2 ^ 64) (hb : b < 2 ^ 64) :
    subU64 ((a + b) % 2 ^ 64) b = a := by
  rw [subU64]
  omega

theorem finish_header {place : Nat} {q : Pick} (hplace : place < 2 ^ 64)
    (h : finish place size q s = (p, s')) (hp : p ≠ 0) : (s'.header (subU64 p 40)).size = size := by
  rw [finish] at h
  split at h
  · cases h
    exact absurd rfl hp
  · cases h
    rw [subU64_add hplace (by decide)]
    show (if place = place then _ else s.header place : KHeader).size = size
    rw [if_pos rfl]

/-- A block keeps the size that was computed first. -/
theorem kmalloc_header (hva : ∀ calls pages, (env.va calls pages).base < 2 ^ 64)
    (h : kmalloc env n size s = .ok (p, s')) (hp : p ≠ 0) :
    (s'.header (subU64 p 40)).size = blockSize size := by
  have hbase : ∀ pages s, (Heap.vaAlloc env pages s).1.base < 2 ^ 64 := by
    intro pages s
    rw [Heap.vaAlloc]
    split <;> exact hva _ _
  rw [kmalloc] at h
  dsimp only at h
  split at h
  · cases h
    exact absurd rfl hp
  split at h
  · obtain ⟨⟨o, s₁⟩, hfind, h⟩ := bind_eq_ok_iff.mp h
    cases o with
    | none =>
      cases h
      exact absurd rfl hp
    | some q => exact finish_header (findSlab_place_lt hfind) (Except.ok.inj h) hp
  split at h
  · split at h
    · cases h
      exact absurd rfl hp
    · exact finish_header (hbase _ _) (Except.ok.inj h) hp
  · split at h
    · cases h
      exact absurd rfl hp
    · obtain ⟨⟨o, s₁⟩, -, h⟩ := bind_eq_ok_iff.mp h
      cases o with
      | none =>
        cases h
        exact absurd rfl hp
      | some q => exact finish_header (hbase _ _) (Except.ok.inj h) hp

end

/-- The heap before the first call. -/
def bootHeap : Heap where
  slab _ := zeroSlab
  hd _ := default
  cache _ := ⟨fun _ => 0, 0⟩
  header _ := default
  start := 0
  latest := 0
  shd := 0
  slabPages := 0
  kmax := 0
  calls := []

/-- Page by page from one MiB on. -/
def bootEnv : HeapEnv where
  va calls pages :=
    { status := 0
      base := 0x100000 + 4096 * (calls.length % 2 ^ 32)
      pages := pages
      attributes := 3 }
  slab _ := zeroSlab
  hd _ := default
  cache _ := ⟨fun _ => 0, 0⟩
  header _ := default
  slabPid := 0

/-- **A few bytes instead of 2^64.**  A size that wraps around succeeds, with what is left of it. -/
theorem kmalloc_wraps {size : Nat} (h : 2 ^ 64 ≤ size + 40) (hlt : size < 2 ^ 64) :
    ∃ p s', kmalloc bootEnv 5 size bootHeap = .ok (p, s') ∧ p ≠ 0 ∧
      (s'.header (subU64 p 40)).size + 2 ^ 64 = size + 40 := by
  have hall : ∀ w < 40, passes (fun x : Nat × Heap => x.1 != 0 && (x.2.header (subU64 x.1 40)).size == w)
      (kmalloc bootEnv 5 (2 ^ 64 - 40 + w) bootHeap) = true := by decide +kernel
  obtain ⟨⟨p, s'⟩, hcall, hend⟩ := exists_of_passes (hall (size + 40 - 2 ^ 64) (by omega))
  rw [show 2 ^ 64 - 40 + (size + 40 - 2 ^ 64) = size by omega] at hcall
  simp only [Bool.and_eq_true, bne_iff_ne, beq_iff_eq] at hend
  exact ⟨p, s', hcall, hend.1, by omega⟩

/-- What `kmalloc` adds does not wrap around. -/
theorem kmallocKeeps_iff {size : Nat} (hlt : size < 2 ^ 64) : KmallocKeeps size ↔ size + 40 < 2 ^ 64 := by
  constructor
  · intro hkeeps
    by_contra hwrap
    obtain ⟨p, s', hcall, hp, hsize⟩ := kmalloc_wraps (by omega) hlt
    have hva : ∀ calls pages, (bootEnv.va calls pages).base < 2 ^ 64 := by
      intro calls pages
      show 0x100000 + 4096 * (calls.length % 2 ^ 32) < 2 ^ 64
      omega
    have := hkeeps bootEnv 5 p bootHeap s' hva hcall hp
    omega
  · intro hfits env n p s s' hva hcall hp
    rw [kmalloc_header hva hcall hp, blockSize, Nat.mod_eq_of_lt hfits]

/-! ## `allocate_dma` -/

section

variable {pml4 n size : Nat} {fresh : EntryPtr → DmaEntry} {w w' : DmaWorld} {ret : DmaRet}
  {l : List EntryPtr}

/-- No pages are refused. -/
theorem backClaim_size {pages : Nat} {c : DmaPool.Claim} {r : DmaRet × DmaWorld}
    (h : backClaim pml4 w pages c = some r) :
    r.1.sizeInPages = pages ∧ (r.1.status = 0 → pages ≠ 0) := by
  rw [backClaim] at h
  dsimp only at h
  split at h
  · cases h
    exact ⟨rfl, fun hs => absurd hs (by simp)⟩
  · rename_i hattr
    obtain ⟨w₁, -, h⟩ := Option.bind_eq_some_iff.mp h
    cases h
    refine ⟨rfl, fun _ hpages => hattr ?_⟩
    rw [hpages, allocFrame, if_pos rfl]
    exact Nat.succ_ne_zero 1

theorem allocateDma_size (h : allocateDma pml4 n fresh w size = some (ret, l, w')) :
    ret.sizeInPages = dmaPages size ∧ (ret.status = 0 → dmaPages size ≠ 0) := by
  obtain ⟨⟨ok, w₁⟩, -, h⟩ := Option.bind_eq_some_iff.mp h
  dsimp only at h
  split at h
  · cases h
    exact ⟨rfl, fun hs => absurd hs (by simp)⟩
  · obtain ⟨⟨c, w₂⟩, -, h⟩ := Option.bind_eq_some_iff.mp h
    cases c with
    | none =>
      cases h
      exact ⟨rfl, fun hs => absurd hs (by simp)⟩
    | some c =>
      obtain ⟨⟨ret', w₃⟩, hback, h⟩ := Option.bind_eq_some_iff.mp h
      cases h
      exact backClaim_size hback

end

/-- The machine at boot: 64 frames, of which the first three are in use, and an empty address space. -/
def bootWorld : DmaWorld where
  machine :=
    { mem := fun _ _ => 0
      frames :=
        { bitmap := fun i => if i = 0 then 7 else 0
          bitmapSize := 8
          bitmapSize_le := smallFrames.bitmapSize_le
          formerCount := 0 }
      gbPageSupport := 0
      pagingAllocatedPages := 0
      log := [] }
  pool := DmaPool.init fun _ => ⟨.free, 0, none⟩
  bytes _ := 0

/-- **A page instead of 2^64 bytes.** -/
theorem allocateDma_wraps {size : Nat} (h : 2 ^ 64 ≤ size + 27) (hlt : size < 2 ^ 64) :
    ∃ ret l w', allocateDma 0x1000 20 (fun _ => ⟨.free, 0, none⟩) bootWorld size = some (ret, l, w') ∧
      ret.status = 0 ∧ ret.sizeInPages = 1 := by
  have hpages : ∀ size, 2 ^ 64 ≤ size + 27 → size < 2 ^ 64 → dmaPages size = 1 := by
    intro size h hlt
    rw [dmaPages, Nat.shiftRight_eq_div_pow]
    omega
  have hsame : allocateDma 0x1000 20 (fun _ => ⟨.free, 0, none⟩) bootWorld size =
      allocateDma 0x1000 20 (fun _ => ⟨.free, 0, none⟩) bootWorld (2 ^ 64 - 1) := by
    simp only [allocateDma, hpages size h hlt, hpages (2 ^ 64 - 1) (by decide) (by decide)]
  have hrun : (allocateDma 0x1000 20 (fun _ => ⟨.free, 0, none⟩) bootWorld (2 ^ 64 - 1)).any
      (fun x => x.1.status == 0) = true := by decide +kernel
  obtain ⟨⟨ret, l, w'⟩, hcall, hend⟩ := (Option.any_eq_true _ _).mp hrun
  refine ⟨ret, l, w', hsame.trans hcall, by simpa using hend, ?_⟩
  rw [(allocateDma_size hcall).1, hpages _ (by decide) (by decide)]

/-- What `allocate_dma` adds does not wrap around to a page. -/
theorem dmaKeeps_iff {size : Nat} (hlt : size < 2 ^ 64) : DmaKeeps size ↔ size + 27 < 2 ^ 64 := by
  constructor
  · intro hkeeps
    by_contra hwrap
    obtain ⟨ret, l, w', hcall, hstatus, hsize⟩ := allocateDma_wraps (show 2 ^ 64 ≤ size + 27 by omega) hlt
    have := hkeeps _ _ _ _ _ _ _ hcall hstatus
    omega
  · intro hfits pml4 n fresh w w' ret l hcall hstatus
    obtain ⟨hsize, hpos⟩ := allocateDma_size hcall
    have hpos := hpos hstatus
    rw [hsize]
    rw [dmaPages, Nat.shiftRight_eq_div_pow] at hpos ⊢
    omega

/-! ## Both -/

/-- **Sizes.**  `kmalloc` keeps the size of every request below 2^64 - 40, and `allocate_dma` that of every
request below 2^64 - 27; no other request is kept. -/
theorem sizes_kept_iff (size : Nat) (hlt : size < 2 ^ 64) :
    (KmallocKeeps size ↔ size + 40 < 2 ^ 64) ∧ (DmaKeeps size ↔ size + 27 < 2 ^ 64) :=
  ⟨kmallocKeeps_iff hlt, dmaKeeps_iff hlt⟩

/-- A request of 100 bytes. -/
theorem sizes_kept_hundred : KmallocKeeps 100 ∧ DmaKeeps 100 :=
  ⟨(sizes_kept_iff 100 (by decide)).1.mpr (by decide), (sizes_kept_iff 100 (by decide)).2.mpr (by decide)⟩

/-- The last request of all is satisfied with 39 bytes, and with one page. -/
theorem sizes_not_kept : ¬ ∀ size, size < 2 ^ 64 → KmallocKeeps size ∧ DmaKeeps size := by
  intro hclaim
  have h := (hclaim (2 ^ 64 - 1) (by decide)).1
  rw [kmallocKeeps_iff (by decide)] at h
  omega

end Dem64
