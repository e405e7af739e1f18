import Dem64.Dma.Runs

/-!
# The buffers of the live allocations

In a regular run no two live buffers share a page or a frame, and each is mapped to frames that lie side by side
(`dma_separate`).  Not so in every run.  A buffer is not cleared when it is given back, so that its descriptor
stays in the frames; when a larger buffer gets these frames, `free_dma` finds the old descriptor in front of the
new one, and frees extents that have been taken by others in the meantime (`not_dma_separate`).
-/

set_option autoImplicit false

namespace Dem64

open ByteMemory

/-- The addresses of a buffer. -/
def DmaRet.addresses (ret : DmaRet) : Set Nat :=
  Set.Ico ret.virtualAddress (ret.virtualAddress + 4096 * ret.sizeInPages)

/-- The live allocations have buffers of their own. -/
structure Separate (pml4 : Nat) (live : List Allocation) (w : DmaWorld) : Prop where
  /-- No two of them share an address. -/
  addresses : live.Pairwise fun a b => Disjoint a.ret.addresses b.ret.addresses
  /-- Each is mapped to frames that lie side by side. -/
  mapped : ∀ a ∈ live, Contiguous pml4 w a.ret.virtualAddress a.ret.physicalAddress (4096 * a.ret.sizeInPages)
  /-- No two of them share a frame. -/
  frames : live.Pairwise fun a b => Disjoint a.ret.frames b.ret.frames

section

variable {base : Set Nat} {pml4 : Nat} {w w₀ : DmaWorld} {live : List Allocation} {ptrs : List EntryPtr}
  {f : Nat → Nat}

theorem DmaInv.separate (h : DmaInv pml4 base live w ptrs f) : Separate pml4 live w where
  addresses := by
    refine List.Pairwise.imp_of_mem (fun {a b} ha hb hd => ?_) h.apart
    refine Set.disjoint_left.mpr fun x hx hx' => ?_
    obtain ⟨h1, h2⟩ := hx
    obtain ⟨h3, h4⟩ := hx'
    rcases (h.placed a ha).apart (h.placed b hb) hd with hle | hle <;> omega
  mapped _ ha := h.contiguous ha
  frames := by
    have hdisj := List.pairwise_map.mp (List.pairwise_append.mp h.stock.disjoint).2.1
    exact hdisj

end

/-! ## A descriptor that is left behind -/

section

variable {pml4 n size pages pa : Nat} {fresh : EntryPtr → DmaEntry} {w w' w₀ : DmaWorld} {live : List Allocation}
  {ret : DmaRet} {own : List EntryPtr} {bytes : Nat → BitVec 8}

/-- A store to a buffer, as the bytes behind it. -/
theorem bytes_of_store {va len i : Nat} {l : List (BitVec 8)} (hc : Contiguous pml4 w' va pa len)
    (hi : i + l.length ≤ len) (h : DmaWorld.storeBytes pml4 l (va + i) w = some w') :
    w'.bytes = putBytes w.bytes (pa + i) l := by
  have hm : w.machine = w'.machine := (congrArg DmaWorld.machine (storeBytes_rest h)).symm
  rw [DmaWorld.storeBytes_spec (hc.congr hm) hi] at h
  cases h
  rfl

/-- A call that succeeds writes a descriptor, and nothing else. -/
theorem allocateDma_bytes {r : DmaRet × List EntryPtr × DmaWorld} (h : allocateDma pml4 n fresh w size = some r)
    (hstatus : r.1.status = 0) (hpos : 0 < r.1.sizeInPages)
    (hc : Contiguous pml4 r.2.2 r.1.virtualAddress pa (4096 * r.1.sizeInPages)) : ∃ l, l.length = 28 ∧
      r.2.2.bytes = putBytes w.bytes (pa + (4096 * r.1.sizeInPages - 28)) l := by
  obtain ⟨ret, own, w'⟩ := r
  obtain ⟨ok, w₁, hens, ⟨-, -, hs⟩ | ⟨-, c, w₂, hclaim, ⟨-, -, hs⟩ | ⟨c', -, -, hback⟩⟩⟩ := allocateDma_parts h
  · exact absurd (hstatus.symm.trans hs) (by decide)
  · exact absurd (hstatus.symm.trans hs) (by decide)
  · have hbytes : w₁.bytes = w.bytes := by
      rw [ensureHeader] at hens
      split at hens
      · obtain ⟨⟨d, m⟩, -, hens⟩ := Option.bind_eq_some_iff.mp hens
        dsimp only at hens
        split at hens
        · cases hens
          rfl
        · obtain ⟨p, -, hens⟩ := Option.bind_eq_some_iff.mp hens
          cases hens
          rfl
      · cases hens
        rfl
    rw [← hbytes, ← (claimExtents_rest hclaim).2]
    rw [backClaim] at hback
    dsimp only at hback
    split at hback
    · cases hback
      exact absurd hstatus Nat.one_ne_zero
    · obtain ⟨u, hu, hback⟩ := Option.bind_eq_some_iff.mp hback
      cases hback
      dsimp only at hc hpos ⊢
      have haddr : c'.base + (dmaPages size <<< 12) - 28 = c'.base + (4096 * dmaPages size - 28) := by
        rw [Nat.shiftLeft_eq]
        omega
      rw [haddr] at hu
      have hput := bytes_of_store hc (by rw [length_descriptorBytes]; omega) hu
      exact ⟨_, length_descriptorBytes _ _ _, hput⟩

/-- There is no signature where there is a zero. -/
theorem not_sign_of_zero {a : Nat} (h : bytes a = 0) : ¬ HasBytes bytes a dmaSign :=
  fun hs => absurd (h.symm.trans hs.1) (by decide)

/-- A call is given a buffer of `pages` pages at `va`, which is mapped to the bytes from `pa` on. -/
structure BufferAt (w : DmaWorld) (va pa pages : Nat) (r : DmaRet × List EntryPtr × DmaWorld) : Prop where
  /-- What it returns. -/
  ret : r.1 = ⟨0, pages, va, pa⟩
  /-- There are page tables. -/
  noFail : NoFail w.machine r.2.2.machine
  /-- The pages. -/
  mapped : ∀ k, k < pages → r.2.2.physical 0x2000 (va + 4096 * k) = some (pa + 4096 * k)

instance (w : DmaWorld) (va pa pages : Nat) (r : DmaRet × List EntryPtr × DmaWorld) :
    Decidable (BufferAt w va pa pages r) :=
  decidable_of_iff (r.1 = ⟨0, pages, va, pa⟩ ∧ NoFail w.machine r.2.2.machine ∧
      ∀ k, k < pages → r.2.2.physical 0x2000 (va + 4096 * k) = some (pa + 4096 * k))
    ⟨fun h => ⟨h.1, h.2.1, h.2.2⟩, fun h => ⟨h.ret, h.noFail, h.mapped⟩⟩

end

/-- What the frame of a new metadata page holds. -/
def blankPage : EntryPtr → DmaEntry := fun _ => ⟨.free, 0, none⟩

section

variable {n size va pa pages : Nat} {w w₀ : DmaWorld} {live : List Allocation}
  {r : DmaRet × List EntryPtr × DmaWorld}

theorem BufferAt.contiguous (h : BufferAt w va pa pages r) (hva : va % 4096 = 0) :
    Contiguous 0x2000 r.2.2 va pa (4096 * pages) := .of_pages hva h.mapped

/-- The descriptor is all that such a call writes. -/
theorem BufferAt.bytes (h : BufferAt w va pa pages r) (hcall : allocateDma 0x2000 n blankPage w size = some r)
    (hva : va % 4096 = 0) (hpos : 0 < pages) :
    ∃ l, l.length = 28 ∧ r.2.2.bytes = putBytes w.bytes (pa + (4096 * pages - 28)) l := by
  obtain ⟨hret, hno, hmapped⟩ := h
  have hc : Contiguous 0x2000 r.2.2 r.1.virtualAddress pa (4096 * r.1.sizeInPages) := by
    rw [hret]
    exact .of_pages hva hmapped
  obtain ⟨l, hl, hb⟩ := allocateDma_bytes hcall (by rw [hret]) (by rw [hret]; exact hpos) hc
  rw [hret] at hb
  exact ⟨l, hl, hb⟩

/-- It is a step of a run. -/
theorem BufferAt.step (h : BufferAt w va pa pages r) (hcall : allocateDma 0x2000 n blankPage w size = some r)
    (hrun : DmaRun 0x2000 (Unhindered 0x2000) w₀ live w) :
    DmaRun 0x2000 (Unhindered 0x2000) w₀ (⟨size, ⟨0, pages, va, pa⟩, r.2.1⟩ :: live) r.2.2 := by
  obtain ⟨ret, own, w'⟩ := r
  obtain rfl : ret = ⟨0, pages, va, pa⟩ := h.ret
  refine .allocate hrun (fun ret' own' w'' hcall' => ?_) hcall rfl
  cases hcall.symm.trans hcall'
  exact ⟨rfl, h.noFail⟩

end

/-- The first call after boot. -/
theorem freshWorld_call : ∃ r, allocateDma 0x2000 9000 blankPage freshWorld 100 = some r ∧
    BufferAt freshWorld dmaBase 28672 1 r ∧ r.2.2.pool.dmaMetadataPages = 0 := by
  have hall : ((allocateDma 0x2000 9000 blankPage freshWorld 100).any fun r =>
      decide (BufferAt freshWorld dmaBase 28672 1 r ∧ r.2.2.pool.dmaMetadataPages = 0)) = true := by
    decide +kernel
  obtain ⟨r, hr, hb⟩ := (Option.any_eq_true _ _).mp hall
  exact ⟨r, hr, of_decide_eq_true hb⟩

/-- It is a regular step. -/
theorem freshWorld_regular {live : List Allocation} {r : DmaRet × List EntryPtr × DmaWorld}
    (hcall : allocateDma 0x2000 9000 blankPage freshWorld 100 = some r) (hr : BufferAt freshWorld dmaBase 28672 1 r) :
    Regular 0x2000 live freshWorld (.allocate blankPage 9000 100) := by
  refine ⟨by decide, ⟨fun _ => by decide, fun hne => absurd rfl hne⟩, fun ret own w hcall' => ?_⟩
  cases hcall.symm.trans hcall'
  exact hr.noFail

end Dem64
