import Dem64.Paging.Machine

/-!
# The allocator of virtual addresses

`va_alloc.c` keeps the free ranges of the address space in two binary trees, one for the kernel and
one for user space.  `va_alloc` takes a range from the front of a node that is long enough, and
`va_free` hangs the range under some node that has a free child slot as a new node.

The nodes live in metadata pages of their own: a header of 32 bytes, then slots of 51 bytes that
are carved one after the other.  A node whose range is used up and that has no children is taken
out of its tree; its slot is blank from then on and is recycled by a later `va_free`.  Pages in
which every slot is blank are unmapped, and their addresses are kept in `v_cache`.

Memory is modelled as one map from addresses to nodes and one from page addresses to headers, with
0 for `NULL`.  The loops of the source follow pointers and have no bound; in the model they
run for at most `n` iterations, and the result is `Fault.fuel` if these are not enough.  `vmalloc` is
a parameter: `Env.vmalloc` says which requests succeed, and `Env.junk` is what a page that was just
mapped holds.  The spin lock is not modelled.
-/

set_option autoImplicit false

namespace Dem64

/-- `va_node`. -/
structure VaNode where
  /-- The free range starts here. -/
  virtualBase : Nat
  /-- Its length in bytes. -/
  length : Nat
  /-- The length of the longest range in the subtree. -/
  maxLength : Nat
  /-- `0x03` for the kernel, `0x07` for user space. -/
  attributes : Nat
  /-- Bit 0 for a right child, bit 1 for a left child. -/
  usedNodes : Nat
  /-- The right child. -/
  vaRight : Nat
  /-- The left child. -/
  vaLeft : Nat
  /-- The parent. -/
  parent : Nat
deriving DecidableEq, Repr, Inhabited

/-- `va_hd`, the header of a metadata page. -/
structure VaHd where
  /-- The slots that hold no node of a tree. -/
  freeEntries : Nat
  /-- Those of them that did hold one. -/
  unusedEntries : Nat
  /-- The next metadata page. -/
  nextPage : Nat
  /-- The metadata page before. -/
  formerPage : Nat
deriving DecidableEq, Repr, Inhabited

/-- `va_ret`. -/
structure VaRet where
  /-- 0 is success. -/
  status : Nat := 0
  /-- The address of the range. -/
  base : Nat := 0
  /-- Its length in pages. -/
  pages : Nat := 0
  /-- The attributes it was asked for with. -/
  attributes : Nat := 0
deriving DecidableEq, Repr

/-- The metadata pages and the globals of `va_alloc.c`. -/
structure VaState where
  /-- The nodes. -/
  node : Nat → VaNode
  /-- The page headers. -/
  hd : Nat → VaHd
  /-- `va_entries`. -/
  vaEntries : Int
  /-- `max`, the number of slots of a page. -/
  max : Nat
  /-- `va_header`, the first page. -/
  vaHeader : Nat
  /-- `va_kstart`, the root of the kernel tree. -/
  vaKstart : Nat
  /-- `va_ustart`, the root of the user tree. -/
  vaUstart : Nat
  /-- `va_latest`, the slot that was carved last. -/
  vaLatest : Nat
  /-- `va_metadata_pages`: the pages besides the first. -/
  vaMetadataPages : Int
  /-- `va_top`, the end of the metadata pages. -/
  vaTop : Nat
  /-- `v_cache.base`. -/
  cacheBase : Nat → Nat
  /-- `v_cache.index`. -/
  cacheIndex : Nat
  /-- The ranges given to `vfree`, newest first.  No modelled function reads this. -/
  freed : List (Nat × Nat)

/-- What a call finds outside the allocator. -/
structure Env where
  /-- `vmalloc(address, pages, attributes)` succeeds. -/
  vmalloc : Nat → Nat → Nat → Bool
  /-- The bytes of a page after it was mapped, read as nodes. -/
  junk : Nat → VaNode

/-- Why a call does not return. -/
inductive Fault where
  /-- It is still running. -/
  | fuel
  /-- It accesses a null pointer. -/
  | null
deriving DecidableEq, Repr

/-- `va_labels`. -/
inductive VaLabel where
  /-- The left child of a node. -/
  | left
  /-- The right child. -/
  | right
  /-- No child. -/
  | noParent
deriving DecidableEq, Repr

/-- `VA_TREE`, where the first metadata page is. -/
def vaTree : Nat := 0xffffb00000000000

/-- `(4096 - sizeof(va_hd)) / sizeof(va_node)`. -/
def vaCapacity : Nat := (4096 - 32) / 51

/-- Slot `i` of a metadata page. -/
def nodeAt (page i : Nat) : Nat := page + 32 + 51 * i

/-- `find_hd`. -/
@[irreducible]
def findHd (entry : Nat) : Nat := addrOf entry

namespace VaState

/-- Change the node at `a`. -/
def setNode (s : VaState) (a : Nat) (f : VaNode → VaNode) : VaState :=
  { s with node := fun x => if x = a then f (s.node a) else s.node x }

/-- Change the header of the page `p`. -/
def setHd (s : VaState) (p : Nat) (f : VaHd → VaHd) : VaState :=
  { s with hd := fun x => if x = p then f (s.hd p) else s.hd x }

/-- A page was mapped at `p`. -/
def mapPage (s : VaState) (env : Env) (p : Nat) : VaState :=
  { s with node := fun x => if findHd x = p then env.junk x else s.node x }

/-- The slots of a page that were carved, `max + unused_entries - free_entries`. -/
def carved (s : VaState) (p : Nat) : Nat :=
  s.max + (s.hd p).unusedEntries - (s.hd p).freeEntries

end VaState

/-! ## `find_new_entry` -/

/-- The address of a new metadata page, mapped: the last one in `v_cache`, or `va_top`. -/
def takePage (env : Env) (s : VaState) : Option Nat × VaState :=
  if s.cacheIndex > 0 then
    let s := { s with cacheIndex := s.cacheIndex - 1 }
    let base := s.cacheBase s.cacheIndex
    let s := { s with vaTop := if base ≥ s.vaTop then (base + 0x1000) % 2 ^ 64 else s.vaTop }
    if env.vmalloc base 1 0x03 then (some base, s.mapPage env base) else (none, s)
  else
    if env.vmalloc s.vaTop 1 0x03 then
      (some s.vaTop, VaState.mapPage { s with vaTop := (s.vaTop + 0x1000) % 2 ^ 64 } env s.vaTop)
    else (none, s)

/-- Append the page `newHd` behind `hd`. -/
def linkPage (hd newHd : Nat) (s : VaState) : VaState :=
  let s := { s with vaMetadataPages := s.vaMetadataPages + 1 }
  let s := s.setHd newHd fun _ =>
    { freeEntries := vaCapacity, unusedEntries := 0, nextPage := 0, formerPage := hd }
  s.setHd hd fun h => { h with nextPage := newHd }

/-- The loop of `find_new_entry`: the first page from `hd` on with a free slot, and the slot.  A new
page has one, so the loop ends with it.  `none` is the return with `NULL`. -/
def findNewEntryLoop (env : Env) : Nat → Nat → VaState → Except Fault (Option (Nat × Nat) × VaState)
  | 0, _, _ => .error .fuel
  | n + 1, hd, s =>
    if (s.hd hd).freeEntries = 0 then
      if (s.hd hd).nextPage = 0 then
        match takePage env s with
        | (none, s) => .ok (none, s)
        | (some newHd, s) => .ok (some (nodeAt newHd 0, newHd), linkPage hd newHd s)
      else findNewEntryLoop env n (s.hd hd).nextPage s
    else .ok (some (s.vaLatest + 51, hd), s)

/-- `Parent->va_right = entry; Parent->UsedNodes |= RIGHT;`, or the same on the left. -/
def linkChild (pos : VaLabel) (parent entry : Nat) (s : VaState) : VaState :=
  match pos with
  | .right => s.setNode parent fun p => { p with vaRight := entry, usedNodes := p.usedNodes ||| 1 }
  | .left => s.setNode parent fun p => { p with vaLeft := entry, usedNodes := p.usedNodes ||| 2 }
  | .noParent => s

/-- The rest of `find_new_entry`: the slot `entry` of the page `hd` becomes a node. -/
def initEntry (pos : VaLabel) (parent entry hd : Nat) (s : VaState) : VaState :=
  let s := s.setNode entry fun e =>
    { e with vaRight := 0, vaLeft := 0, parent := parent, usedNodes := 0 }
  let s := linkChild pos parent entry s
  let s := { s with vaLatest := entry, vaEntries := s.vaEntries + 1 }
  s.setHd hd fun h => { h with freeEntries := subU64 h.freeEntries 1 }

/-- `find_new_entry`; `none` is `NULL`. -/
def findNewEntry (env : Env) (n : Nat) (pos : VaLabel) (parent : Nat) (s : VaState) :
    Except Fault (Option Nat × VaState) := do
  match ← findNewEntryLoop env n s.vaHeader s with
  | (none, s) => .ok (none, s)
  | (some (entry, hd), s) => .ok (some entry, initEntry pos parent entry hd s)

/-! ## The trees -/

/-- The longest range in the subtree of `entry`, given the `max_length` of the children. -/
def maxOf (s : VaState) (entry : Nat) : Nat :=
  let e := s.node entry
  let max := e.length
  let max := if e.vaLeft ≠ 0 ∧ (s.node e.vaLeft).maxLength > max then (s.node e.vaLeft).maxLength
    else max
  if e.vaRight ≠ 0 ∧ (s.node e.vaRight).maxLength > max then (s.node e.vaRight).maxLength else max

/-- `UpdateParents`. -/
def updateParents : Nat → Nat → VaState → Except Fault VaState
  | 0, _, _ => .error .fuel
  | n + 1, entry, s =>
    if entry = 0 then .ok s
    else updateParents n (s.node entry).parent
      (s.setNode entry fun e => { e with maxLength := maxOf s entry })

/-- `find_fit`; 0 is `NULL`. -/
def findFit (s : VaState) (size : Nat) : Nat → Nat → Except Fault Nat
  | 0, _ => .error .fuel
  | n + 1, entry =>
    if entry = 0 then .ok 0
    else
      let e := s.node entry
      if e.length ≥ size then .ok entry
      else if e.vaLeft ≠ 0 ∧ (s.node e.vaLeft).maxLength ≥ size then findFit s size n e.vaLeft
      else if e.vaRight ≠ 0 ∧ (s.node e.vaRight).maxLength ≥ size then findFit s size n e.vaRight
      else .ok 0

/-- `update_latest`. -/
def updateLatest (hd : Nat) (s : VaState) : VaState :=
  { s with vaLatest := nodeAt hd (s.carved hd) - 51 }

/-! ## `va_alloc` -/

/-- Take the page `last` out of the list of pages: the last one when `miss` is false, else one that
has pages behind it. -/
def unlinkPage (miss : Bool) (last : Nat) (s : VaState) : VaState :=
  let h := s.hd last
  let top := subU64 s.vaTop 0x1000
  let s := { s with vaTop := if last = top then top else s.vaTop }
  if miss then
    let s := s.setHd h.formerPage fun f => { f with nextPage := h.nextPage }
    let s := s.setHd h.nextPage fun x => { x with formerPage := h.formerPage }
    { s with
      cacheBase := fun i => if i = s.cacheIndex then last else s.cacheBase i
      cacheIndex := if s.cacheIndex < 511 then s.cacheIndex + 1 else s.cacheIndex }
  else updateLatest h.formerPage (s.setHd h.formerPage fun f => { f with nextPage := 0 })

/-- The loop of `va_alloc` that unmaps the pages without a node, from the last one to the one behind
the first. -/
def reclaim : Nat → Bool → Nat → VaState → Except Fault VaState
  | 0, _, _, _ => .error .fuel
  | n + 1, miss, last, s =>
    if last = s.vaHeader then .ok s
    else
      let former := (s.hd last).formerPage
      if (s.hd last).freeEntries = s.max then
        let s := unlinkPage miss last s
        reclaim n miss former
          { s with freed := (last, 1) :: s.freed, vaMetadataPages := s.vaMetadataPages - 1 }
      else reclaim n true former s

/-- `if (va_header == NULL) { .. }`; `none` when there is no memory for the first page. -/
def initHeader (env : Env) (s : VaState) : Option VaState :=
  if s.vaHeader = 0 then
    if env.vmalloc vaTree 1 0x03 then
      let s := s.mapPage env vaTree
      let s := { s with vaTop := (s.vaTop + 0x1000) % 2 ^ 64, vaHeader := vaTree, max := vaCapacity }
      some (s.setHd vaTree fun _ =>
        { freeEntries := vaCapacity, unusedEntries := 0, nextPage := 0, formerPage := 0 })
    else none
  else some s

/-- `(Kernel_end + 4095) & ~0xFFF`. -/
def kernelStart (kernelEnd : Nat) : Nat := addrOf ((kernelEnd + 4095) % 2 ^ 64)

/-- The root of the kernel tree, in the first slot. -/
def initKernelRoot (kernelEnd : Nat) (s : VaState) : VaState :=
  let kstart := nodeAt s.vaHeader 0
  let s := { s with vaKstart := kstart, vaEntries := s.vaEntries + 1 }
  let s := s.setHd s.vaHeader fun h => { h with freeEntries := subU64 h.freeEntries 1 }
  let s := s.setNode kstart fun e =>
    { e with vaLeft := 0, vaRight := 0, parent := 0, usedNodes := 0, attributes := 0x03
             virtualBase := kernelStart kernelEnd
             length := (subU64 0xFFFF8FFFFFFFFFFF (kernelStart kernelEnd) + 1) % 2 ^ 64 }
  { s with vaLatest := kstart }

/-- The upper part of the kernel space, below it. -/
def initKernelSpace (rightNode : Nat) (s : VaState) : VaState :=
  let s := s.setNode rightNode fun e =>
    { e with virtualBase := 0xFFFFC00000000000, attributes := 0x03
             length := (0xFFFFFFFFFFFFFFFF - 0xFFFFC00000000000) + 1
             maxLength := (0xFFFFFFFFFFFFFFFF - 0xFFFFC00000000000) + 1 }
  s.setNode s.vaKstart fun e => { e with maxLength := (s.node rightNode).maxLength }

/-- The root of the user tree. -/
def initUserRoot (ustart : Nat) (s : VaState) : VaState :=
  let s := { s with vaUstart := ustart }
  s.setNode ustart fun e =>
    { e with usedNodes := 0, attributes := 0x07, virtualBase := 0x40000000
             length := (0x7FFFFFFFFFFF - 0x40000000) + 1
             maxLength := (0x7FFFFFFFFFFF - 0x40000000) + 1 }

/-- `if (va_entries == 0) { .. }`: the two trees. -/
def initTrees (kernelEnd : Nat) (env : Env) (n : Nat) (s : VaState) : Except Fault VaState :=
  if s.vaEntries = 0 then do
    let s := initKernelRoot kernelEnd s
    match ← findNewEntry env n .right s.vaKstart s with
    | (none, _) => .error .null
    | (some rightNode, s) =>
      match ← findNewEntry env n .noParent 0 (initKernelSpace rightNode s) with
      | (none, _) => .error .null
      | (some ustart, s) => .ok (initUserRoot ustart s)
  else .ok s

/-- The root of the tree that `attributes` select. -/
def VaState.root (s : VaState) (attributes : Nat) : Nat :=
  if attributes &&& 0x04 ≠ 0 then s.vaUstart else s.vaKstart

/-- `entry->virtual_base += rsz; entry->length -= rsz;` -/
def shrink (entry rsz : Nat) (s : VaState) : VaState :=
  s.setNode entry fun e =>
    { e with virtualBase := (e.virtualBase + rsz) % 2 ^ 64, length := subU64 e.length rsz }

/-- Clear the link from its parent to `entry`. -/
def unlinkNode (entry : Nat) (s : VaState) : VaState :=
  let s := s.setNode (s.node entry).parent fun p =>
    if p.vaLeft = entry then { p with vaLeft := 0, usedNodes := p.usedNodes &&& 0xFD }
    else if p.vaRight = entry then { p with vaRight := 0, usedNodes := p.usedNodes &&& 0xFE }
    else p
  s.setNode entry fun e => { e with parent := 0 }

/-- `va_entries--; pg_hd->free_entries++;` -/
def uncount (entry : Nat) (s : VaState) : VaState :=
  let s := { s with vaEntries := s.vaEntries - 1 }
  s.setHd (findHd entry) fun h => { h with freeEntries := h.freeEntries + 1 }

/-- The slot of `entry` becomes a blank one. -/
def blankNode (entry : Nat) (s : VaState) : VaState :=
  let s := unlinkNode entry s
  s.setHd (findHd entry) fun h => { h with unusedEntries := h.unusedEntries + 1 }

/-- What `va_alloc` does with a node without children whose range is used up. -/
def dropNode (n entry : Nat) (s : VaState) : Except Fault VaState :=
  let s := uncount entry s
  if (s.node entry).parent ≠ 0 then
    let s := blankNode entry s
    reclaim n false (findHd s.vaLatest) s
  else .ok s

/-- The rest of `va_alloc`, once `vmalloc` has mapped the front of `entry`. -/
def consume (n entry rsz : Nat) (s : VaState) : Except Fault VaState := do
  let s' ← updateParents n entry (shrink entry rsz s)
  if (s.node entry).length = rsz ∧ (s'.node entry).usedNodes = 0 then dropNode n entry s' else .ok s'

/-- `va_alloc` after the initialisation. -/
def takeRange (env : Env) (n pages attributes : Nat) (s : VaState) :
    Except Fault (VaRet × VaState) := do
  let rsz := (pages <<< 12) % 2 ^ 64
  let entry ← findFit s rsz n (s.root attributes)
  if entry = 0 then .ok ({ status := 1 }, s)
  else
    let base := (s.node entry).virtualBase
    if env.vmalloc base pages attributes then
      let s ← consume n entry rsz s
      .ok ({ status := 0, base := base, pages := pages, attributes := attributes }, s)
    else .ok ({ status := 1 }, s)

/-- `va_alloc`. -/
def vaAlloc (kernelEnd : Nat) (env : Env) (n pages attributes : Nat) (s : VaState) :
    Except Fault (VaRet × VaState) :=
  if pages = 0 then .ok ({ status := 1 }, s)
  else
    match initHeader env s with
    | none => .ok ({ status := 1 }, s)
    | some s => do
      let s ← initTrees kernelEnd env n s
      takeRange env n pages attributes s

/-! ## `va_free` -/

/-- The first of the slots `i, …, i + k - 1` of `page` that passes `p`. -/
def scanSlots (p : VaNode → Bool) (s : VaState) (page : Nat) : Nat → Nat → Option Nat
  | 0, _ => none
  | k + 1, i =>
    if p (s.node (nodeAt page i)) then some (nodeAt page i) else scanSlots p s page k (i + 1)

/-- The two searches of `va_free`: the first carved slot that passes `p`, in the pages from `page`
on that pass `q`.  The result is the page and the slot. -/
def scanPages (q : VaHd → Bool) (p : VaNode → Bool) (s : VaState) :
    Nat → Nat → Except Fault (Option (Nat × Nat))
  | 0, _ => .error .fuel
  | n + 1, page =>
    if page = 0 then .ok none
    else
      match if q (s.hd page) then scanSlots p s page (s.carved page) 0 else none with
      | some a => .ok (some (page, a))
      | none => scanPages q p s n (s.hd page).nextPage

/-- A node `find_last` stops at. -/
def VaNode.hasRoom (attributes : Nat) (e : VaNode) : Bool :=
  e.attributes == attributes && e.usedNodes &&& 0x03 != 3 && e.length != 0

/-- `find_last`: a node of the right kind with a free child slot. -/
def findLast (s : VaState) (n attributes page : Nat) : Except Fault (Option (Nat × Nat)) :=
  scanPages (fun _ => true) (VaNode.hasRoom attributes) s n page

/-- A slot that `va_free` takes for a blank one. -/
def VaNode.reusable (e : VaNode) : Bool :=
  e.length == 0 && e.parent == 0 && e.usedNodes &&& 0x03 != 3

/-- The search of `va_free` for a blank slot. -/
def findUnused (s : VaState) (n page : Nat) : Except Fault (Option (Nat × Nat)) :=
  scanPages (fun h => h.unusedEntries != 0) VaNode.reusable s n page

/-- `attach_node`. -/
def attachNode (parent child : Nat) (s : VaState) : VaState :=
  if parent = 0 ∨ child = 0 then s
  else if (s.node parent).usedNodes &&& 0x03 = 3 then s
  else
    let s := s.setNode parent fun p =>
      if p.usedNodes &&& 1 = 0 then { p with vaRight := child, usedNodes := p.usedNodes ||| 1 }
      else if p.usedNodes &&& 2 = 0 then { p with vaLeft := child, usedNodes := p.usedNodes ||| 2 }
      else p
    s.setNode child fun c => { c with parent := parent }

/-- Give the slot `a` the range of `desc`. -/
def fillNode (desc : VaRet) (a : Nat) (s : VaState) : VaState :=
  s.setNode a fun e =>
    { e with virtualBase := desc.base, attributes := desc.attributes
             length := (desc.pages <<< 12) % 2 ^ 64 }

/-- `vfree(alloc)`. -/
def vfreeRange (desc : VaRet) (s : VaState) : VaState :=
  { s with freed := (desc.base, desc.pages) :: s.freed }

/-- The range goes into the blank slot `a` of `page`. -/
def reuseSlot (n : Nat) (desc : VaRet) (last page a : Nat) (s : VaState) : Except Fault VaState := do
  let s ← updateParents n a (attachNode last a (fillNode desc a s))
  let s := s.setHd page fun h =>
    { h with unusedEntries := subU64 h.unusedEntries 1, freeEntries := subU64 h.freeEntries 1 }
  .ok (vfreeRange desc { s with vaEntries := s.vaEntries + 1 })

/-- `other_route`: the range goes into a new slot. -/
def carveSlot (env : Env) (n : Nat) (desc : VaRet) (last : Nat) (s : VaState) :
    Except Fault VaState := do
  match ← findNewEntry env n .noParent 0 s with
  | (none, _) => .error .null
  | (some a, s) =>
    let s ← updateParents n a (attachNode last a (fillNode desc a s))
    .ok (vfreeRange desc s)

/-- `va_free`. -/
def vaFree (env : Env) (n : Nat) (desc : VaRet) (s : VaState) : Except Fault VaState :=
  if desc.status ≠ 0 ∨ desc.pages = 0 then .ok s
  else do
    match ← findLast s n desc.attributes s.vaHeader with
    | none => .ok s
    | some (_, last) =>
      if s.vaMetadataPages = 0 ∧ (s.hd s.vaHeader).unusedEntries = 0 then
        carveSlot env n desc last s
      else
        match ← findUnused s n s.vaHeader with
        | some (page, a) => reuseSlot n desc last page a s
        | none => carveSlot env n desc last s

end Dem64
