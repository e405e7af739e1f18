import Dem64.Memory.Frame

/-!
# Page tables in physical memory

`paging.c` builds four-level page tables in physical memory, which the kernel reaches through the
identity mapping.  The model keeps the memory as it is: frames of 512 eight-byte entries, with the
frame bitmap beside it, so that a table is a frame like any other and nothing but the code keeps
two tables apart.

Addresses, page counts and entries are natural numbers below `2^64`; where the `u64` arithmetic of
the source can wrap, the model wraps too.

`Machine.log` is the one thing that is not in the source: the list of what was done to frames and
entries, newest first.  No modelled function reads it.  It is what the results about allocation
failures and about double frees are stated with.
-/

set_option autoImplicit false

namespace Dem64

/-- What the paging code does to physical memory and to the frame bitmap. -/
inductive Event where
  /-- `alloc_frame` handed out `pages` frames from `frame` on. -/
  | alloc (frame pages : Nat)
  /-- `alloc_frame` reported a failure. -/
  | allocFail
  /-- The bytes of `pages` frames from `frame` on were cleared. -/
  | zero (frame pages : Nat)
  /-- `pages` frames from `frame` on were given back. -/
  | free (frame pages : Nat)
  /-- Entry `index` of the table in `frame` was overwritten. -/
  | store (frame index value : Nat)
deriving DecidableEq, Repr

/-- The state `paging.c` works on. -/
structure Machine where
  /-- Entry `i` of frame `f`. -/
  mem : Nat → Nat → Nat
  /-- The frame allocator. -/
  frames : FrameState
  /-- `GbPageSupport`: 1 when the processor has 1 GiB pages. -/
  gbPageSupport : Nat
  /-- `paging_allocated_pages`. -/
  pagingAllocatedPages : Nat
  /-- What was done so far, newest first. -/
  log : List Event

/-- Subtraction of `u64` values. -/
def subU64 (a b : Nat) : Nat := (a + 2 ^ 64 - b) % 2 ^ 64

/-- The address bits of an entry: `(e >> 12) << 12`, also written `e & ~0xfff`. -/
def addrOf (e : Nat) : Nat := (e >>> 12) <<< 12

/-- Bit 7 of an entry: at the two middle levels it makes the entry a large page. -/
def large (e : Nat) : Bool := e &&& 0x80 != 0

/-- Bit 0 of an entry: the entry is valid. -/
def present (e : Nat) : Bool := e &&& 1 == 1

namespace Machine

/-- `table[i]`, for a table at the physical address `table`. -/
def read (m : Machine) (table i : Nat) : Nat := m.mem (table >>> 12) i

/-- `table[i] = e`. -/
def store (m : Machine) (table i e : Nat) : Machine :=
  { m with
    mem := fun f j => if f = table >>> 12 ∧ j = i then e else m.mem f j
    log := Event.store (table >>> 12) i e :: m.log }

/-- Clear `pages` frames from the one at the physical address `region` on. -/
def zero (m : Machine) (region pages : Nat) : Machine :=
  { m with
    mem := fun f j => if region >>> 12 ≤ f ∧ f < (region >>> 12) + pages then 0 else m.mem f j
    log := Event.zero (region >>> 12) pages :: m.log }

end Machine

/-- `alloc_pages`: the address `alloc_frame` reports, cleared.  The `Attribute` of the descriptor
is not looked at. -/
def allocPages (m : Machine) (pages : Nat) : Nat × Machine :=
  if pages = 0 then (0, m)
  else
    let (alloc, frames) := allocFrame m.frames pages
    let event := if alloc.attr = 0 then Event.alloc (alloc.physicalStart >>> 12) pages
      else Event.allocFail
    let m := { m with frames := frames, log := event :: m.log }
    let m := m.zero alloc.physicalStart pages
    (alloc.physicalStart, { m with pagingAllocatedPages := m.pagingAllocatedPages + pages })

/-- `free_pages`. -/
def freePages (m : Machine) (address pages : Nat) : Machine :=
  { m with
    frames := freeFrame m.frames
      { physicalStart := address, virtualStart := address, numberOfPages := pages }
    pagingAllocatedPages :=
      if m.pagingAllocatedPages ≥ pages then m.pagingAllocatedPages - pages
      else m.pagingAllocatedPages
    log := Event.free (address >>> 12) pages :: m.log }

/-- The loop of `free_pdpt` over the entries `i, i + 1, …` of a page directory. -/
def freePdLoop (pd : Nat) : Nat → Nat → Machine → Machine
  | 0, _, m => m
  | n + 1, i, m =>
    let e := m.read pd i
    if large e = false ∧ present e = true then freePdLoop pd n (i + 1) (freePages m (addrOf e) 1)
    else freePdLoop pd n (i + 1) (m.store pd i 0)

/-- `free_pdpt(&PDPT[i])`, for the table at `pdpt`. -/
def freePdpt (pdpt i : Nat) (m : Machine) : Machine :=
  if pdpt + 8 * i = 0 then m
  else
    let e := m.read pdpt i
    if large e = false ∧ present e = true then
      freePages (freePdLoop (addrOf e) 512 0 m) (addrOf e) 1
    else m

/-- Drop the page table a page-directory entry points to. -/
def freePt (pd i : Nat) (m : Machine) : Machine := freePages m (addrOf (m.read pd i)) 1

/-- The inner loops of `create_mapping` and `destroy_mapping`: overwrite the entries `i, …,
i + n - 1` of a table.  What an entry that points to a table needs is `drop`, the new entry for
the physical address `pa` is `leaf pa`, and the address moves up by `step` from entry to entry. -/
def fillEntries (drop : Nat → Nat → Machine → Machine) (leaf : Nat → Nat) (step table : Nat) :
    Nat → Nat → Nat → Machine → Machine
  | 0, _, _, m => m
  | n + 1, i, pa, m =>
    let e := m.read table i
    let m := if large e = false ∧ present e = true then drop table i m else m
    fillEntries drop leaf step table n (i + 1) ((pa + step) % 2 ^ 64) (m.store table i (leaf pa))

/-- A 4 KiB entry has nothing to drop. -/
def keepEntry (_ _ : Nat) (m : Machine) : Machine := m

/-- `if (count + index >= 512) count = 512 - index;` -/
def clampCount (count index : Nat) : Nat := if count + index ≥ 512 then 512 - index else count

/-- `table[i] = alloc_pages(1) | (attributes & 0x07);` -/
def newTable (attributes table i : Nat) (m : Machine) : Machine :=
  (allocPages m 1).2.store table i ((allocPages m 1).1 ||| (attributes &&& 0x07))

/-- The same, for an empty slot of the PML4. -/
def ensurePdpt (attributes pml4 i : Nat) (m : Machine) : Machine :=
  if m.read pml4 i = 0 then newTable attributes pml4 i m else m

/-- The same, for a slot that is empty or holds a large page. -/
def ensureTable (attributes table i : Nat) (m : Machine) : Machine :=
  if m.read table i = 0 ∨ large (m.read table i) = true then newTable attributes table i m else m

/-- `pt_index`. -/
def ptIndex (va : Nat) : Nat := (va >>> 12) &&& 511

/-- `pd_index`. -/
def pdIndex (va : Nat) : Nat := (va >>> 21) &&& 511

/-- `pdpt_index`. -/
def pdptIndex (va : Nat) : Nat := (va >>> 30) &&& 511

/-- `pml4_index`. -/
def pml4Index (va : Nat) : Nat := (va >>> 39) &&& 511

/-- `find_address`: the canonical address of four table indices. -/
def findAddress (ptIndex pdIndex pdptIndex pml4Index : Nat) : Nat :=
  let va := ((pml4Index &&& 0x1ff) <<< 39) ||| ((pdptIndex &&& 0x1ff) <<< 30) |||
    ((pdIndex &&& 0x1ff) <<< 21) ||| ((ptIndex &&& 0x1ff) <<< 12)
  if va &&& (1 <<< 47) ≠ 0 then va ||| 0xffff000000000000 else va

/-- `PAGING_LOOKUP_DESCRIPTOR`. -/
structure PagingLookup where
  /-- Address bits of the leaf. -/
  physicalAddress : Nat := 0
  /-- Attribute bits of the leaf, the large-page bit aside. -/
  attributes : Nat := 0
  /-- 2 for a 1 GiB page, 1 for a 2 MiB page, 0 for a 4 KiB page. -/
  pageType : Nat := 0
  /-- 0 on success, else the level at which the walk ended; 5 without a table. -/
  status : Nat := 0
deriving DecidableEq, Repr

/-- `(e & 0xfff) & ~0x80`. -/
def leafAttributes (e : Nat) : Nat := (e &&& 0xfff) &&& 0xffffffffffffff7f

/-- `paging_lookup`. -/
def pagingLookup (m : Machine) (va pml4 : Nat) : PagingLookup :=
  if pml4 = 0 then { status := 5 }
  else
    if m.read pml4 (pml4Index va) = 0 then { status := 1 }
    else
      let pdpt := addrOf (m.read pml4 (pml4Index va))
      let e := m.read pdpt (pdptIndex va)
      if e = 0 then { status := 2 }
      else if large e then
        { attributes := leafAttributes e, physicalAddress := addrOf e, pageType := 2 }
      else
        let pd := addrOf e
        let e := m.read pd (pdIndex va)
        if e = 0 then { status := 3 }
        else if large e then
          { attributes := leafAttributes e, physicalAddress := addrOf e, pageType := 1 }
        else
          let pt := addrOf e
          let e := m.read pt (ptIndex va)
          if e = 0 then { status := 4 }
          else { attributes := leafAttributes e, physicalAddress := addrOf e, pageType := 0 }

/-! ## `create_mapping`

An iteration of the loop is cut at the levels of the tables.  Each piece returns how many pages it
mapped, by which `va` and `pa` move up and `pages` goes down. -/

/-- The 4 KiB branch, for the page directory at `pd`. -/
def createPt (attributes va pa pages pd : Nat) (m : Machine) : Nat × Machine :=
  let m := ensureTable attributes pd (pdIndex va) m
  let pt := addrOf (m.read pd (pdIndex va))
  let kbCount := clampCount pages (ptIndex va)
  (kbCount, fillEntries keepEntry (fun pa => pa ||| attributes) 4096 pt kbCount (ptIndex va) pa m)

/-- The branches below the page-directory-pointer table at `pdpt`. -/
def createPd (attributes size va pa pages pdpt : Nat) (m : Machine) : Nat × Machine :=
  let m := ensureTable attributes pdpt (pdptIndex va) m
  let pd := addrOf (m.read pdpt (pdptIndex va))
  let mbEnable := (va &&& 0x1fffff) ||| (pa &&& 0x1fffff)
  let mbCount := size / 0x200000
  if mbEnable = 0 ∧ mbCount > 0 then
    let mbCount := clampCount mbCount (pdIndex va)
    (512 * mbCount, fillEntries freePt (fun pa => pa ||| (attributes ||| 0x80)) 0x200000 pd
      mbCount (pdIndex va) pa m)
  else createPt attributes va pa pages pd m

/-- One iteration of `create_mapping`. -/
def createChunk (attributes pml4 size va pa pages : Nat) (m : Machine) : Nat × Machine :=
  let m := ensurePdpt attributes pml4 (pml4Index va) m
  let pdpt := addrOf (m.read pml4 (pml4Index va))
  let gbEnable := (va &&& 0x3fffffff) ||| (pa &&& 0x3fffffff)
  let gbCount := size / 0x40000000
  if gbEnable = 0 ∧ m.gbPageSupport = 1 ∧ gbCount > 0 then
    let gbCount := clampCount gbCount (pdptIndex va)
    (262144 * gbCount, fillEntries freePdpt (fun pa => pa ||| (attributes ||| 0x80)) 0x40000000 pdpt
      gbCount (pdptIndex va) pa m)
  else createPd attributes size va pa pages pdpt m

/-- The loop of `create_mapping`.  The first argument bounds the iterations; each of them maps at
least one page, so the number of pages is enough. -/
def createLoop (attributes pml4 virtualEnd : Nat) : Nat → Nat → Nat → Nat → Machine → Machine
  | 0, _, _, _, m => m
  | n + 1, va, pa, pages, m =>
    if va < virtualEnd then
      let c := createChunk attributes pml4 (virtualEnd - va) va pa pages m
      createLoop attributes pml4 virtualEnd n ((va + 4096 * c.1) % 2 ^ 64)
        ((pa + 4096 * c.1) % 2 ^ 64) (subU64 pages c.1) c.2
    else m

/-- `create_mapping`. -/
def createMapping (m : Machine) (va pa pages attributes pml4 : Nat) : Machine :=
  if pml4 = 0 ∨ pages = 0 then m
  else createLoop attributes pml4 ((va + 4096 * pages) % 2 ^ 64) pages va pa pages m

/-! ## `destroy_mapping`

Cut in the same way; `none` is a `return` from inside the loop. -/

/-- The split of a large page of `block` pages at `hphys` that a range from `va` on only partly
covers: the pages before `va`, the pages of the range and the pages behind it are mapped again with
smaller pages. -/
def splitLarge (block hphys hvirt attributes va pages pml4 : Nat) (m : Machine) : Machine :=
  let offset := va &&& (4096 * block - 1)
  let pa := (hphys + offset) % 2 ^ 64
  let align := if hvirt < va then (va - hvirt) >>> 12 else 0
  let m := if hvirt < va then createMapping m hvirt hphys align attributes pml4 else m
  let available := subU64 block align
  let pagesHere := if pages < available then pages else available
  let suffix := available - pagesHere
  let m := createMapping m va pa pagesHere attributes pml4
  createMapping m ((va + (pagesHere <<< 12)) % 2 ^ 64) ((pa + (pagesHere <<< 12)) % 2 ^ 64) suffix
    attributes pml4

/-- The split of the large page in an entry `e`, where it is needed. -/
def splitIf (block e hvirt enable va pages pml4 : Nat) (m : Machine) : Machine :=
  if large e = true ∧ (enable ≠ 0 ∨ pages < block) then
    splitLarge block (addrOf e) hvirt (pagingLookup m hvirt pml4).attributes va pages pml4 m
  else m

/-- The 4 KiB branch, for the page directory at `pd`. -/
def destroyPt (pml4 va pages pd : Nat) (m : Machine) : Option Nat × Machine :=
  let e := m.read pd (pdIndex va)
  if e = 0 then (none, m)
  else
    let hvirt := findAddress 0 (pdIndex va) (pdptIndex va) (pml4Index va)
    let m := splitIf 512 e hvirt (va &&& 0x1fffff) va pages pml4 m
    let pt := addrOf (m.read pd (pdIndex va))
    let kbCount := clampCount pages (ptIndex va)
    (some kbCount, fillEntries keepEntry (fun _ => 0) 0 pt kbCount (ptIndex va) 0 m)

/-- The branches below the page-directory-pointer table at `pdpt`. -/
def destroyPd (pml4 size va pages pdpt : Nat) (m : Machine) : Option Nat × Machine :=
  let e := m.read pdpt (pdptIndex va)
  let hvirt := findAddress 0 0 (pdptIndex va) (pml4Index va)
  let m := splitIf 262144 e hvirt (va &&& 0x3fffffff) va pages pml4 m
  let pd := addrOf (m.read pdpt (pdptIndex va))
  let mbEnable := va &&& 0x1fffff
  let mbCount := size / 0x200000
  if mbEnable = 0 ∧ mbCount > 0 then
    let mbCount := clampCount mbCount (pdIndex va)
    (some (512 * mbCount), fillEntries freePt (fun _ => 0) 0 pd mbCount (pdIndex va) 0 m)
  else destroyPt pml4 va pages pd m

/-- One iteration of `destroy_mapping`. -/
def destroyChunk (pml4 size va pages : Nat) (m : Machine) : Option Nat × Machine :=
  if m.read pml4 (pml4Index va) = 0 then (none, m)
  else
    let pdpt := addrOf (m.read pml4 (pml4Index va))
    if m.read pdpt (pdptIndex va) = 0 then (none, m)
    else
      let gbEnable := va &&& 0x3fffffff
      let gbCount := size / 0x40000000
      if gbEnable = 0 ∧ m.gbPageSupport = 1 ∧ gbCount > 0 then
        let gbCount := clampCount gbCount (pdptIndex va)
        (some (262144 * gbCount), fillEntries freePdpt (fun _ => 0) 0 pdpt gbCount (pdptIndex va) 0 m)
      else destroyPd pml4 size va pages pdpt m

/-- The loop of `destroy_mapping`. -/
def destroyLoop (pml4 virtualEnd : Nat) : Nat → Nat → Nat → Machine → Machine
  | 0, _, _, m => m
  | n + 1, va, pages, m =>
    if va < virtualEnd then
      match destroyChunk pml4 (virtualEnd - va) va pages m with
      | (none, m) => m
      | (some c, m) => destroyLoop pml4 virtualEnd n ((va + 4096 * c) % 2 ^ 64) (subU64 pages c) m
    else m

/-- `destroy_mapping`. -/
def destroyMapping (m : Machine) (va pages pml4 : Nat) : Machine :=
  if pml4 = 0 ∨ pages = 0 then m
  else destroyLoop pml4 ((va + 4096 * pages) % 2 ^ 64) pages va pages m

end Dem64
