import Dem64.Host.Control

/-!
# The blocks of the host controller drivers

What `allocate_dma` and `free_dma` mean to a driver: it has a list of blocks, `allocate_dma` adds one that
shares no memory with the others, and `free_dma` takes the one away that starts at an address.
-/

set_option autoImplicit false

namespace Dem64

/-- The physical address is in the block. -/
def DmaRet.Holds (b : DmaRet) (a : Nat) : Prop :=
  b.physicalAddress ≤ a ∧ a < b.physicalAddress + 4096 * b.sizeInPages

/-- What `allocate_dma` promises of a block: it has a page, starts at a page, and is apart from the blocks
that are allocated. -/
structure FreshBlock (live : List DmaRet) (alloc : DmaRet) : Prop where
  /-- It has a page. -/
  page : 0 < alloc.sizeInPages
  /-- It starts at a page. -/
  aligned : 4096 ∣ alloc.physicalAddress
  /-- No other block has an address of it. -/
  apart : ∀ b ∈ live, ∀ a, b.Holds a → ¬ alloc.Holds a
  /-- No other block has its virtual address. -/
  virtual : ∀ b ∈ live, b.virtualAddress ≠ alloc.virtualAddress

/-- The blocks after `allocate_dma` has returned `alloc`. -/
def allocateBlock (live : List DmaRet) (alloc : DmaRet) : List DmaRet :=
  if alloc.status = 0 then alloc :: live else live

/-- The blocks after `free_dma` of the virtual address of `alloc`. -/
def freeBlock (live : List DmaRet) (alloc : DmaRet) : List DmaRet :=
  live.filter fun b => b.virtualAddress ≠ alloc.virtualAddress

section

variable {live : List DmaRet} {alloc : DmaRet}

theorem allocateBlock_of_ne (h : alloc.status ≠ 0) : allocateBlock live alloc = live := if_neg h

theorem allocateBlock_of_eq (h : alloc.status = 0) : allocateBlock live alloc = alloc :: live := if_pos h

/-- A block that is allocated and freed leaves the others. -/
theorem FreshBlock.freeBlock_cons (h : FreshBlock live alloc) : freeBlock (alloc :: live) alloc = live := by
  rw [freeBlock, List.filter_cons_of_neg (by simp), List.filter_eq_self]
  exact fun b hb => decide_eq_true (h.virtual b hb)

theorem FreshBlock.holds (h : FreshBlock live alloc) : alloc.Holds alloc.physicalAddress :=
  ⟨le_refl _, by have := h.page; omega⟩

theorem DmaRet.lt_of_tooBig (h : alloc.tooBig = false) : alloc.physicalAddress < 2 ^ 32 := by
  rw [DmaRet.tooBig, decide_eq_false_iff_not] at h
  omega

/-- The address of a block, with flags in the bits that are free. -/
theorem DmaRet.toNat_or_flags {k : Nat} {flags : BitVec 32} (hk : 2 ^ k ∣ alloc.physicalAddress)
    (hbig : alloc.tooBig = false) (hflags : flags.toNat < 2 ^ k) :
    (BitVec.ofNat 32 alloc.physicalAddress ||| flags).toNat = alloc.physicalAddress + flags.toNat := by
  have hphys : (BitVec.ofNat 32 alloc.physicalAddress).toNat = alloc.physicalAddress := by
    rw [BitVec.toNat_ofNat, Nat.mod_eq_of_lt (DmaRet.lt_of_tooBig hbig)]
  rw [Dem64.toNat_or_flags k (by rwa [hphys]) hflags, hphys]

end

end Dem64
