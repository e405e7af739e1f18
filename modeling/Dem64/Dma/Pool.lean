import Mathlib.Algebra.Group.Nat.Defs
import Mathlib.Logic.Function.Basic
import Mathlib.Data.List.Basic

/-!
# The extents of the DMA pool

`dma.c` cuts the window behind `DMA_BASE` into *extents*.  An extent is a `dma_entry` of 20 bytes
in one of the metadata pages behind `DMA_POOL`; it has a size and no address, since the extents lie
in the window in the order in which they are linked.  Entry 0 of a metadata page is its header,
whose `SizeInPages` counts how many entries of the page are left.

This file has what `allocate_dma` and `free_dma` do to the entries and to the globals of
`dmadef.c`.  The functions are cut where the source takes or gives back a metadata page, which is
put together with page tables and frames in `Dma/World.lean`.

An entry is named by its page and its slot, and `none` is the result of an access to an entry that
is not inside a mapped metadata page: there the processor faults, or what is behind the page is hit.
The loops over lists have a bound on their iterations, and end with `none` if it is too small.
-/

set_option autoImplicit false

namespace Dem64

/-- `DMA_BASE`: where the window starts. -/
def dmaBase : Nat := 0xffffa0ffc0000000

/-- `DMA_POOL`: where the metadata pages start, and the window ends. -/
def dmaPoolBase : Nat := 0xffffa10000000000

/-- `Free`, `Used` and `Header`. -/
inductive DmaStatus where
  /-- An extent that can be handed out. -/
  | free
  /-- An extent that belongs to an allocation. -/
  | used
  /-- No extent, but the header of a metadata page. -/
  | header
deriving DecidableEq, Repr

/-- A pointer to a `dma_entry`: the address is `DMA_POOL + 4096 * page + 20 * slot`. -/
structure EntryPtr where
  /-- The metadata page. -/
  page : Nat
  /-- The entry in the page. -/
  slot : Nat
deriving DecidableEq, Repr

/-- `(dma_entry *)((u8 *)x + sizeof(dma_entry))`. -/
def EntryPtr.succ (x : EntryPtr) : EntryPtr := ⟨x.page, x.slot + 1⟩

/-- `dma_entry`. -/
structure DmaEntry where
  /-- What the entry is. -/
  status : DmaStatus
  /-- The size of an extent; for a header, how many entries of the page are left. -/
  sizeInPages : Nat
  /-- The next extent, or the next header. -/
  nextEntry : Option EntryPtr
deriving DecidableEq, Repr

/-- The globals of `dmadef.c` and the metadata pages. -/
structure DmaPool where
  /-- The entries of the metadata pages. -/
  entry : EntryPtr → DmaEntry
  /-- Which metadata pages are mapped. -/
  mapped : Nat → Bool
  /-- `dma_entries`. -/
  dmaEntries : Nat
  /-- `dma_header`: the header of the first metadata page. -/
  dmaHeader : Option EntryPtr
  /-- `dma_start`: the first extent. -/
  dmaStart : Option EntryPtr
  /-- `dma_latest`: the last extent. -/
  dmaLatest : Option EntryPtr
  /-- `dma_limit`: how many extents a metadata page has room for. -/
  dmaLimit : Nat
  /-- `dma_metadata_pages`: how many metadata pages there are besides the first. -/
  dmaMetadataPages : Nat
  /-- `dma_top`: where the next metadata page goes. -/
  dmaTop : Nat

namespace DmaPool

/-- The pool at boot; what the metadata pages will hold when they are mapped is not known. -/
def init (entry : EntryPtr → DmaEntry) : DmaPool where
  entry := entry
  mapped := fun _ => false
  dmaEntries := 0
  dmaHeader := none
  dmaStart := none
  dmaLatest := none
  dmaLimit := 0
  dmaMetadataPages := 0
  dmaTop := dmaPoolBase

/-- The entry lies in a mapped metadata page: 204 entries of 20 bytes fit 4096 bytes. -/
def Valid (p : DmaPool) (x : EntryPtr) : Prop := p.mapped x.page = true ∧ x.slot < 204

instance (p : DmaPool) (x : EntryPtr) : Decidable (p.Valid x) := inferInstanceAs (Decidable (_ ∧ _))

/-- `*x`. -/
def get (p : DmaPool) (x : EntryPtr) : Option DmaEntry :=
  if p.Valid x then some (p.entry x) else none

/-- A store to `*x`. -/
def modify (p : DmaPool) (x : EntryPtr) (f : DmaEntry → DmaEntry) : Option DmaPool :=
  if p.Valid x then some { p with entry := Function.update p.entry x (f (p.entry x)) } else none

/-- The metadata page `k` is mapped to a frame with the contents `fresh`. -/
def mapPage (p : DmaPool) (k : Nat) (fresh : EntryPtr → DmaEntry) : DmaPool :=
  { p with
    mapped := Function.update p.mapped k true
    entry := fun x => if x.page = k then fresh x else p.entry x }

/-! ## `allocate_dma` -/

/-- The first metadata page, once it is mapped. -/
def openPool (p : DmaPool) (fresh : EntryPtr → DmaEntry) : Option DmaPool := do
  let header : EntryPtr := ⟨0, 0⟩
  let p := p.mapPage 0 fresh
  let p ← p.modify header fun _ => ⟨.header, 4096 / 20 - 1, none⟩
  return { p with dmaTop := p.dmaTop + 0x1000, dmaHeader := some header, dmaLimit := 4096 / 20 - 1 }

/-- The first extent. -/
def firstClaim (p : DmaPool) (pages : Nat) : Option (EntryPtr × DmaPool) := do
  let header ← p.dmaHeader
  let start := header.succ
  let p ← p.modify start fun _ => ⟨.used, pages, none⟩
  let p := { p with dmaStart := some start, dmaLatest := some start, dmaEntries := p.dmaEntries + 1 }
  let p ← p.modify header fun e => { e with sizeInPages := (e.sizeInPages + 2 ^ 64 - 1) % 2 ^ 64 }
  return (start, p)

/-- `free_pages`, `free_base` and `free_entry`. -/
structure Search where
  /-- The size of the current run of free extents. -/
  freePages : Nat
  /-- The address the run starts at. -/
  freeBase : Nat
  /-- The first extent of the run. -/
  freeEntry : Option EntryPtr
deriving DecidableEq, Repr

/-- The search for a run of free extents. -/
def searchLoop (p : DmaPool) (pages : Nat) :
    Nat → Option EntryPtr → Nat → Search → Option Search
  | 0, _, _, _ => none
  | _ + 1, none, _, s => some s
  | n + 1, some x, cursor, s => do
    let e ← p.get x
    let behind := (cursor + (e.sizeInPages <<< 12)) % 2 ^ 64
    if e.status = .free then
      let s := if s.freeEntry = none then { s with freeEntry := some x, freeBase := cursor } else s
      let s := { s with freePages := (s.freePages + e.sizeInPages) % 2 ^ 64 }
      if s.freePages ≥ pages then return s
      else searchLoop p pages n e.nextEntry behind s
    else
      searchLoop p pages n e.nextEntry behind { freePages := 0, freeBase := behind, freeEntry := none }

/-- The search from the first extent on. -/
def search (n : Nat) (p : DmaPool) (pages : Nat) : Option Search :=
  searchLoop p pages n p.dmaStart dmaBase ⟨0, dmaBase, none⟩

/-- Where a new extent goes. -/
inductive Room where
  /-- To the page with this header, which has entries left. -/
  | page (header : EntryPtr)
  /-- To a new page behind the one with this header, which is the last. -/
  | full (last : EntryPtr)
deriving DecidableEq, Repr

/-- The search for a metadata page whose counter is not `NoEntriesLeft`.  A new page always has
entries left, so the loop ends there. -/
def roomLoop (p : DmaPool) : Nat → EntryPtr → Option Room
  | 0, _ => none
  | n + 1, x => do
    let e ← p.get x
    if e.sizeInPages % 2 ^ 32 = 0 then
      match e.nextEntry with
      | none => return .full x
      | some y => roomLoop p n y
    else return .page x

/-- The search from the first page on. -/
def room (n : Nat) (p : DmaPool) : Option Room := p.dmaHeader.bind (roomLoop p n)

/-- A new metadata page behind the one with the header `last`, once it is mapped at `dma_top`. -/
def addPage (p : DmaPool) (last : EntryPtr) (fresh : EntryPtr → DmaEntry) :
    Option (EntryPtr × DmaPool) := do
  let page : EntryPtr := ⟨(p.dmaTop - dmaPoolBase) / 4096, 0⟩
  let p := p.mapPage page.page fresh
  let p := { p with dmaTop := p.dmaTop + 0x1000, dmaMetadataPages := p.dmaMetadataPages + 1 }
  let p ← p.modify page fun _ => ⟨.header, p.dmaLimit, none⟩
  let p ← p.modify last fun e => { e with nextEntry := some page }
  let latest ← p.dmaLatest
  let p ← p.modify latest fun e => { e with nextEntry := some page.succ }
  return (page, { p with dmaLatest := some page.succ })

/-- `dma_latest` moves on by one entry. -/
def advance (p : DmaPool) : Option DmaPool := do
  let latest ← p.dmaLatest
  let p ← p.modify latest fun e => { e with nextEntry := some latest.succ }
  return { p with dmaLatest := some latest.succ }

/-- A new extent of `size` pages, counted in the page with the header `page`. -/
def carve (p : DmaPool) (page : EntryPtr) (size : Nat) : Option (EntryPtr × DmaPool) := do
  let e ← p.get page
  let p ← if e.sizeInPages % 2 ^ 32 ≠ p.dmaLimit ∨ p.dmaMetadataPages = 0 then p.advance else some p
  let latest ← p.dmaLatest
  let p := { p with dmaEntries := p.dmaEntries + 1 }
  let p ← p.modify page fun e => { e with sizeInPages := (e.sizeInPages + 2 ^ 64 - 1) % 2 ^ 64 }
  let p ← p.modify latest fun _ => ⟨.used, size, none⟩
  return (latest, p)

/-- `while (entry != dma_latest)`: the free extents in front of a new one are taken as well.  The
result has the extents that were taken, whose number is `entries_used`. -/
def takeUntil (stop : EntryPtr) : Nat → Option EntryPtr → DmaPool → Option (List EntryPtr × DmaPool)
  | 0, _, _ => none
  | n + 1, x, p => do
    if x = some stop then return ([], p)
    let x ← x
    let p ← p.modify x fun e => { e with status := .used }
    let (xs, q) ← takeUntil stop n (p.entry x).nextEntry p
    return (x :: xs, q)

/-- `while (claimed_pages < pages)`: a run of free extents is taken. -/
def takeRun (pages : Nat) : Nat → Option EntryPtr → Nat → DmaPool → Option (List EntryPtr × DmaPool)
  | 0, _, _, _ => none
  | n + 1, x, claimed, p => do
    if claimed < pages then
      let x ← x
      let p ← p.modify x fun e => { e with status := .used }
      let (xs, q) ← takeRun pages n (p.entry x).nextEntry
        ((claimed + (p.entry x).sizeInPages) % 2 ^ 64) p
      return (x :: xs, q)
    else return ([], p)

/-- What `allocate_dma` takes from the pool. -/
structure Claim where
  /-- `free_base`: the address. -/
  base : Nat
  /-- `free_entry`: the first extent. -/
  home : Option EntryPtr
  /-- The extents taken; `entries_used` is their number. -/
  extents : List EntryPtr

/-- A new extent behind the last one, together with the free extents in front of it. -/
def growClaim (n : Nat) (p : DmaPool) (page : EntryPtr) (pages : Nat) (s : Search) :
    Option (Claim × DmaPool) := do
  let (latest, p) ← p.carve page (pages - s.freePages)
  if s.freePages > 0 then
    let (xs, p) ← takeUntil latest n s.freeEntry p
    return (⟨s.freeBase, s.freeEntry, xs ++ [latest]⟩, p)
  else return (⟨s.freeBase, some latest, [latest]⟩, p)

/-- The free extents that were found. -/
def reuseClaim (n : Nat) (p : DmaPool) (pages : Nat) (s : Search) : Option (Claim × DmaPool) := do
  let (xs, p) ← takeRun pages n s.freeEntry 0 p
  return (⟨s.freeBase, s.freeEntry, xs⟩, p)

/-! ## `free_dma` -/

/-- `find_header`, for the entry `slot` of the page `k`. -/
def findHeader (p : DmaPool) (k : Nat) : Nat → Option EntryPtr
  | 0 => do
    let e ← p.get ⟨k, 0⟩
    if e.status ≠ .header then none else return ⟨k, 0⟩
  | slot + 1 => do
    let e ← p.get ⟨k, slot + 1⟩
    if e.status ≠ .header then findHeader p k slot else return ⟨k, slot + 1⟩

/-- The loop that marks `n` extents free and counts them in their pages. -/
def releaseLoop : Nat → Option EntryPtr → DmaPool → Option DmaPool
  | 0, _, p => some p
  | n + 1, x, p => do
    let x ← x
    let e ← p.get x
    let p ← if e.status ≠ .header then do
        let p ← p.modify x fun e => { e with status := .free }
        let header ← p.findHeader x.page x.slot
        p.modify header fun e => { e with sizeInPages := (e.sizeInPages + 1) % 2 ^ 64 }
      else some p
    releaseLoop n (p.entry x).nextEntry p

/-- The header `j` links behind `x`. -/
def nthHeader (p : DmaPool) : Nat → EntryPtr → Option EntryPtr
  | 0, x => some x
  | j + 1, x => do
    let e ← p.get x
    let y ← e.nextEntry
    nthHeader p j y

/-- `while (previous_entry->next_entry != first_entry)`. -/
def findPrevious (p : DmaPool) (first : EntryPtr) : Nat → Option EntryPtr → Option EntryPtr
  | 0, _ => none
  | n + 1, x => do
    let x ← x
    let e ← p.get x
    if e.nextEntry = some first then return x else findPrevious p first n e.nextEntry

/-- The metadata page with the header `page` is cut off the lists; it is unmapped after that. -/
def dropPage (n : Nat) (p : DmaPool) (page : EntryPtr) : Option DmaPool := do
  let previous ← p.findPrevious page.succ n p.dmaStart
  let p ← p.modify previous fun e => { e with nextEntry := none }
  let p := { p with dmaLatest := some previous }
  if page.page = 0 then none
  let p ← p.modify ⟨page.page - 1, page.slot⟩ fun e => { e with nextEntry := none }
  let count := p.dmaMetadataPages - 1
  return { p with
    dmaMetadataPages := count, dmaTop := p.dmaTop - 0x1000, dmaEntries := (count + 1) * p.dmaLimit
    mapped := Function.update p.mapped page.page false }

end DmaPool

end Dem64
