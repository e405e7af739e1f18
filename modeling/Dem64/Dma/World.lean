import Dem64.Dma.Pool
import Dem64.Memory.Valloc

/-!
# `allocate_dma`, `free_dma` and `dma_phys_to_virt`

A DMA allocation is a run of frames, mapped to the extents it takes from the pool.  Its last 28
bytes are a descriptor, which starts with the signature `DMA_POOL`; `free_dma` is given the address
of the buffer only, and finds the descriptor by searching for the signature, byte by byte.

Bytes are bytes of physical memory: a frame keeps what was written to it when it is given back.
`fresh` is what the frame behind a new metadata page holds, which is not known.  The TLB is not
modelled, so that `flush_pages` does nothing; `free_dma` evaluates its argument `ptr->SizeInPages`
after it has unmapped the descriptor, which depends on the TLB still having the page.
-/

set_option autoImplicit false

namespace Dem64

/-- The kernel as the DMA allocator sees it. -/
structure DmaWorld where
  /-- Page tables and frames. -/
  machine : Machine
  /-- The pool. -/
  pool : DmaPool
  /-- The bytes of physical memory. -/
  bytes : Nat → BitVec 8

/-- `dma_ret`. -/
structure DmaRet where
  /-- 0 is success. -/
  status : Nat := 0
  /-- The size, with the descriptor. -/
  sizeInPages : Nat := 0
  /-- Where the processor finds the buffer. -/
  virtualAddress : Nat := 0
  /-- Where a device finds it. -/
  physicalAddress : Nat := 0
deriving DecidableEq, Repr

/-! ## Bytes -/

/-- The `n` bytes of a number, the lowest first. -/
def leBytes : Nat → Nat → List (BitVec 8)
  | 0, _ => []
  | n + 1, v => BitVec.ofNat 8 v :: leBytes n (v / 256)

/-- The number with these bytes. -/
def leValue : List (BitVec 8) → Nat
  | [] => 0
  | b :: l => b.toNat + 256 * leValue l

/-- The address of an entry. -/
def EntryPtr.addr (x : EntryPtr) : Nat := dmaPoolBase + 4096 * x.page + 20 * x.slot

/-- The entry at an address. -/
def entryPtrAt (a : Nat) : Option EntryPtr :=
  if dmaPoolBase ≤ a ∧ (a - dmaPoolBase) % 4096 % 20 = 0 then
    some ⟨(a - dmaPoolBase) / 4096, (a - dmaPoolBase) % 4096 / 20⟩
  else none

/-- `"DMA_POOL"`. -/
def dmaSign : List (BitVec 8) := [0x44#8, 0x4d#8, 0x41#8, 0x5f#8, 0x50#8, 0x4f#8, 0x4f#8, 0x4c#8]

/-- The bytes of a `dma_descriptor`. -/
def descriptorBytes (entriesUsed pages : Nat) (home : Option EntryPtr) : List (BitVec 8) :=
  dmaSign ++ leBytes 4 entriesUsed ++ leBytes 8 pages ++ leBytes 8 ((home.map EntryPtr.addr).getD 0)

namespace DmaWorld

variable (pml4 : Nat)

/-- The physical address of a byte, as the processor finds it. -/
def physical (w : DmaWorld) (va : Nat) : Option Nat :=
  (hardwareWalk w.machine.mem (pml4 >>> 12) va).map fun page => 4096 * page.1 + va % 4096

/-- A byte of virtual memory; `none` is a page fault. -/
def load (w : DmaWorld) (va : Nat) : Option (BitVec 8) := (w.physical pml4 va).map w.bytes

/-- `n` bytes of virtual memory. -/
def loadBytes (w : DmaWorld) : Nat → Nat → Option (List (BitVec 8))
  | 0, _ => some []
  | n + 1, va => do
    let b ← w.load pml4 va
    let l ← loadBytes w n (va + 1)
    return b :: l

/-- Bytes are written to virtual memory. -/
def storeBytes : List (BitVec 8) → Nat → DmaWorld → Option DmaWorld
  | [], _, w => some w
  | b :: l, va, w => do
    let a ← w.physical pml4 va
    storeBytes l (va + 1) { w with bytes := Function.update w.bytes a b }

/-- `memcmp(va, l, …) == 0`, which reads up to the first difference. -/
def sameBytes (w : DmaWorld) : List (BitVec 8) → Nat → Option Bool
  | [], _ => some true
  | b :: l, va => do
    let c ← w.load pml4 va
    if c = b then sameBytes w l (va + 1) else return false

/-- `find_descriptorBase`. -/
def findDescriptorBase (w : DmaWorld) : Nat → Nat → Option Nat
  | 0, _ => none
  | n + 1, base => do
    let found ← w.sameBytes pml4 dmaSign base
    if found then return base else findDescriptorBase w n (base + 1)

end DmaWorld

/-! ## `allocate_dma` -/

section

variable (pml4 n : Nat)

/-- The first metadata page is mapped, if it is not there yet.  The result is `false` when that
fails. -/
def ensureHeader (fresh : EntryPtr → DmaEntry) (w : DmaWorld) : Option (Bool × DmaWorld) :=
  if w.pool.dmaHeader = none then do
    let (allocation, m) ← vmalloc n w.machine dmaPoolBase 1 0x03 pml4
    if allocation.attr ≠ 0 then return (false, { w with machine := m })
    else
      let p ← w.pool.openPool fresh
      return (true, { w with machine := m, pool := p })
  else return (true, w)

/-- A new extent, in a new metadata page if there is no room in the others. -/
def growExtents (fresh : EntryPtr → DmaEntry) (w : DmaWorld) (pages : Nat) (s : DmaPool.Search) :
    Option (Option DmaPool.Claim × DmaWorld) := do
  match ← w.pool.room n with
  | .page header =>
    let (c, p) ← w.pool.growClaim n header pages s
    return (some c, { w with pool := p })
  | .full last =>
    let (allocation, m) ← vmalloc n w.machine w.pool.dmaTop 1 0x03 pml4
    if allocation.attr ≠ 0 then return (none, { w with machine := m })
    else
      let (header, p) ← w.pool.addPage last fresh
      let (c, p) ← p.growClaim n header pages s
      return (some c, { w with machine := m, pool := p })

/-- The extents of an allocation are taken; `none` in the result is the return with status 1. -/
def claimExtents (fresh : EntryPtr → DmaEntry) (w : DmaWorld) (pages : Nat) :
    Option (Option DmaPool.Claim × DmaWorld) :=
  if w.pool.dmaEntries = 0 then do
    let (start, p) ← w.pool.firstClaim pages
    return (some ⟨dmaBase, some start, [start]⟩, { w with pool := p })
  else do
    let s ← w.pool.search n pages
    if s.freePages < pages then growExtents pml4 n fresh w pages s
    else
      let (c, p) ← w.pool.reuseClaim n pages s
      return (some c, { w with pool := p })

/-- Frames are put behind the extents, and the descriptor at their end. -/
def backClaim (w : DmaWorld) (pages : Nat) (c : DmaPool.Claim) : Option (DmaRet × DmaWorld) :=
  let (frame, frames) := allocFrame w.machine.frames pages
  let m := { w.machine with frames := frames }
  if frame.attr ≠ 0 then some ({ status := 1, sizeInPages := pages }, { w with machine := m })
  else do
    let m := createMapping m c.base frame.physicalStart pages 0x03 pml4
    let w ← DmaWorld.storeBytes pml4 (descriptorBytes c.extents.length pages c.home)
      (c.base + (pages <<< 12) - 28) { w with machine := m }
    return ({ status := 0, sizeInPages := pages, virtualAddress := c.base,
              physicalAddress := frame.physicalStart }, w)

/-- The size of an allocation: `(size + sizeof(dma_descriptor) + 4095) >> 12`. -/
def dmaPages (size : Nat) : Nat := ((size + 28 + 4095) % 2 ^ 64) >>> 12

/-- `allocate_dma`.  The extents that were taken are part of the result. -/
def allocateDma (fresh : EntryPtr → DmaEntry) (w : DmaWorld) (size : Nat) :
    Option (DmaRet × List EntryPtr × DmaWorld) := do
  let pages := dmaPages size
  let (ok, w) ← ensureHeader pml4 n fresh w
  if ok = false then return ({ status := 1, sizeInPages := pages }, [], w)
  else
    let (c, w) ← claimExtents pml4 n fresh w pages
    match c with
    | none => return ({ status := 1, sizeInPages := pages }, [], w)
    | some c =>
      let (ret, w) ← backClaim pml4 w pages c
      return (ret, c.extents, w)

/-! ## `free_dma` -/

/-- The loop that gives back the metadata pages whose counter says that they are empty, from page
`j` down to the second. -/
def reclaimLoop : Nat → DmaPool → Machine → Option (DmaPool × Machine)
  | 0, p, m => some (p, m)
  | j + 1, p, m => do
    let header ← p.dmaHeader
    let page ← p.nthHeader (j + 1) header
    let e ← p.get page
    if e.sizeInPages = p.dmaLimit then
      let p ← p.dropPage n page
      let m ← vfree n m page.addr 1 pml4
      reclaimLoop j p m
    else reclaimLoop j p m

/-- `free_dma`. -/
def freeDma (w : DmaWorld) (base : Nat) : Option DmaWorld := do
  let ptr ← w.findDescriptorBase pml4 n base
  let status ← w.loadBytes pml4 4 (ptr + 8)
  let size ← w.loadBytes pml4 8 (ptr + 12)
  let home ← w.loadBytes pml4 8 (ptr + 20)
  -- the loop variable is an `int`, and so is the count
  let entriesUsed := if leValue status < 2 ^ 31 then leValue status else 0
  let frame : MemoryDescriptor :=
    { virtualStart := base, numberOfPages := leValue size
      physicalStart := (pagingLookup w.machine base pml4).physicalAddress }
  let m := { w.machine with frames := freeFrame w.machine.frames frame }
  let p ← DmaPool.releaseLoop entriesUsed (entryPtrAt (leValue home)) w.pool
  let (p, m) ← reclaimLoop pml4 n p.dmaMetadataPages p m
  return { w with pool := p, machine := destroyMapping m base (leValue size) pml4 }

end

/-! ## `dma_phys_to_virt` -/

/-- The size of the window that is searched. -/
def dmaWindow : Nat := 0x10000000

/-- The loop of `dma_phys_to_virt`.  It moves up by the size of the page it is at. -/
def physToVirtLoop (m : Machine) (pml4 pagePhys offset : Nat) : Nat → Nat → Option Nat
  | 0, _ => none
  | n + 1, i =>
    if i < dmaBase + dmaWindow then
      let lookup := pagingLookup m i pml4
      if lookup.status ≠ 0 then some 1
      else if lookup.physicalAddress = pagePhys then some (i + offset)
      else if lookup.pageType = 0 then physToVirtLoop m pml4 pagePhys offset n (i + 0x1000)
      else if lookup.pageType = 1 then physToVirtLoop m pml4 pagePhys offset n (i + 0x200000)
      else physToVirtLoop m pml4 pagePhys offset n (i + 0x40000000)
    else some 1

/-- `dma_phys_to_virt`.  Every iteration moves up by a page at least, so the window is searched
after as many iterations as it has pages. -/
def dmaPhysToVirt (m : Machine) (pml4 phys : Nat) : Option Nat :=
  physToVirtLoop m pml4 (addrOf phys) (phys &&& 0xfff) (dmaWindow / 4096 + 1) dmaBase

end Dem64
