import Dem64.Kmalloc.Cache
import Dem64.VaAlloc.State

/-!
# `kmalloc` and `kfree`

A small block, of less than 4096 bytes with its header, is a run of the 128 objects of a slab, and a
large one has pages of its own.  When a large block does not fill its last page, this page becomes the
page of a slab, and what the block needs of it is the first run there.

The slabs live in pages of their own: a header of 48 bytes, then slots of 36 bytes that are carved one
after the other.  Each such page has two more, the caches: the one of the used slabs has the address of a
slab at the index of its slot, or `INVALID_BASE`, and the one of the unused slabs is a stack.  Slab pages
whose slabs are all unused are given back.

Memory is modelled as one map for each kind of record, by address.  The map of a slab is read and written
as bytes.  `va_alloc` is a parameter: `HeapEnv.va` is its answer, which may depend on all calls so far, and
the rest of `HeapEnv` is what pages hold after they were mapped.  `Heap.calls` is the list of these calls;
no modelled function reads it.  The spin lock is not modelled.  The loops run for at most `n` iterations.
-/

set_option autoImplicit false

namespace Dem64.Kmalloc

/-- `INVALID_BASE` -/
def invalidBase : Nat := 1

/-- `slabobj` -/
structure SlabObj where
  /-- The page of the slab, or `INVALID_BASE`. -/
  pageBase : Nat
  /-- `FreeObs`: how many objects are free. -/
  freeObs : Int
  /-- The 16 bytes of `Cache_2048`. -/
  cache2048 : Nat → BitVec 8
  /-- `next_object` -/
  nextObject : Nat

/-- `k_header`, in front of every block. -/
structure KHeader where
  base : Nat
  size : Nat
  attributes : Nat
  /-- The first object of the block in its slab. -/
  sc : Nat
  /-- The index of the slab in the cache of its page. -/
  index : Nat
  /-- `slabOrg`: the slab. -/
  slabOrg : Nat
deriving DecidableEq, Repr, Inhabited

/-- `slabhd`, the header of a slab page. -/
structure SlabHd where
  /-- The slots that were not carved. -/
  freeEntries : Nat
  /-- The slabs without objects in use. -/
  unusedEntries : Nat
  nextPage : Nat
  formerPage : Nat
  usedCache : Nat
  unusedCache : Nat
deriving DecidableEq, Repr, Inhabited

/-- `slab_cache` -/
structure SlabCache where
  addresses : Nat → Nat
  index : Nat

/-- `addresses[i] = slab;`, and the cache ends behind it at least. -/
def SlabCache.record (i slab : Nat) (c : SlabCache) : SlabCache where
  addresses := fun j => if j = i then slab else c.addresses j
  index := if i ≥ c.index then i + 1 else c.index

/-- `addresses[index] = slab; index++;` -/
def SlabCache.push (slab : Nat) (c : SlabCache) : SlabCache where
  addresses := fun j => if j = c.index then slab else c.addresses j
  index := c.index + 1

/-- `addresses[i] = INVALID_BASE;` -/
def SlabCache.void (i : Nat) (c : SlabCache) : SlabCache where
  addresses := fun j => if j = i then invalidBase else c.addresses j
  index := c.index

/-- A call of `va_alloc` that succeeded, or one of `va_free`. -/
inductive VaCall where
  | alloc (base pages : Nat)
  | free (base pages : Nat)
deriving DecidableEq, Repr

/-- The slab pages, the headers of the blocks and the globals of `kmalloc.c`. -/
structure Heap where
  slab : Nat → SlabObj
  hd : Nat → SlabHd
  cache : Nat → SlabCache
  header : Nat → KHeader
  /-- `start`, the first slab. -/
  start : Nat
  /-- `latest`, the slab that was carved last. -/
  latest : Nat
  /-- `shd`, the first slab page. -/
  shd : Nat
  /-- `slab_pages` -/
  slabPages : Nat
  /-- `kmax`, the slots of the first slab page. -/
  kmax : Nat
  /-- The calls of `va_alloc` and `va_free`, newest first. -/
  calls : List VaCall

/-- What a call finds outside the heap. -/
structure HeapEnv where
  /-- `va_alloc(pages, 0x03)` after these calls. -/
  va : List VaCall → Nat → VaRet
  /-- The bytes of pages after they were mapped, read as records. -/
  slab : Nat → SlabObj
  hd : Nat → SlabHd
  cache : Nat → SlabCache
  header : Nat → KHeader
  /-- What the local variable `slab_pid` holds before it is set. -/
  slabPid : Nat

/-- `(4096 - sizeof(slabhd)) / sizeof(slabobj)`, the slots of the first page. -/
def firstCapacity : Nat := (4096 - 48) / 36

/-- `max`.  It is the one of `va_alloc.c`, and that many slots the other pages have. -/
def pageCapacity : Nat := vaCapacity

/-- Slot `i` of a slab page. -/
def slabAt (page i : Nat) : Nat := page + 48 + 36 * i

/-- `get_index` -/
def getIndex (slab : Nat) : Nat := ((slab &&& 0xfff) - 48) / 36

namespace Heap

/-- Change the slab at `a`. -/
def setSlab (s : Heap) (a : Nat) (f : SlabObj → SlabObj) : Heap :=
  { s with slab := fun x => if x = a then f (s.slab a) else s.slab x }

/-- Change the header of the slab page `p`. -/
def setHd (s : Heap) (p : Nat) (f : SlabHd → SlabHd) : Heap :=
  { s with hd := fun x => if x = p then f (s.hd p) else s.hd x }

/-- Change the cache at `c`. -/
def setCache (s : Heap) (c : Nat) (f : SlabCache → SlabCache) : Heap :=
  { s with cache := fun x => if x = c then f (s.cache c) else s.cache x }

/-- Change the header of the block at `b`. -/
def setHeader (s : Heap) (b : Nat) (f : KHeader → KHeader) : Heap :=
  { s with header := fun x => if x = b then f (s.header b) else s.header x }

/-- The cache behind a pointer. -/
def readCache (s : Heap) (c : Nat) : Except Fault SlabCache :=
  if c = 0 then .error .null else .ok (s.cache c)

/-- Change the cache behind a pointer. -/
def modifyCache (s : Heap) (c : Nat) (f : SlabCache → SlabCache) : Except Fault Heap :=
  if c = 0 then .error .null else .ok (s.setCache c f)

/-- Pages were mapped. -/
def mapPages (s : Heap) (env : HeapEnv) (base pages : Nat) : Heap :=
  { s with
    slab := fun x => if base ≤ x ∧ x < base + 4096 * pages then env.slab x else s.slab x
    hd := fun x => if base ≤ x ∧ x < base + 4096 * pages then env.hd x else s.hd x
    cache := fun x => if base ≤ x ∧ x < base + 4096 * pages then env.cache x else s.cache x
    header := fun x => if base ≤ x ∧ x < base + 4096 * pages then env.header x else s.header x }

/-- `va_alloc(pages, 0x03)` -/
def vaAlloc (env : HeapEnv) (pages : Nat) (s : Heap) : VaRet × Heap :=
  let ret := env.va s.calls pages
  if ret.status = 0 then
    (ret, { s.mapPages env ret.base pages with calls := .alloc ret.base pages :: s.calls })
  else (ret, s)

/-- `va_free` of `pages` pages at `base`. -/
def vaFree (base pages : Nat) (s : Heap) : Heap := { s with calls := .free base pages :: s.calls }

end Heap

/-- A slab of zeros. -/
def zeroSlab : SlabObj := ⟨0, 0, fun _ => 0, 0⟩

/-- `memset(page, 0, 4096)` -/
def clearPage (page : Nat) (s : Heap) : Heap :=
  { s with
    slab := fun x => if page ≤ x ∧ x < page + 4096 then zeroSlab else s.slab x
    hd := fun x => if page ≤ x ∧ x < page + 4096 then default else s.hd x
    cache := fun x => if page ≤ x ∧ x < page + 4096 then ⟨fun _ => 0, 0⟩ else s.cache x
    header := fun x => if page ≤ x ∧ x < page + 4096 then default else s.header x }

/-- The result of a function that has a bound of its own. -/
def bounded {α : Type} : Option α → Except Fault α
  | none => .error .fuel
  | some a => .ok a

theorem bounded_eq_ok {α : Type} {o : Option α} {a : α} : bounded o = .ok a ↔ o = some a := by
  cases o with
  | none => exact ⟨nofun, nofun⟩
  | some b => rw [bounded, Except.ok.injEq, Option.some.injEq]

/-! ## Slabs -/

/-- `if (shd == NULL) { .. }`: the first slab page.  The result is `false` when a call of `va_alloc` has
failed. -/
def initShd (env : HeapEnv) (s : Heap) : Bool × Heap :=
  if s.shd = 0 then
    let (alloc, s) := s.vaAlloc env 1
    if alloc.status ≠ 0 then (false, s)
    else
      let s := clearPage alloc.base s
      let shd := alloc.base
      let s := { s with shd := shd, kmax := firstCapacity }
      let s := s.setHd shd fun h =>
        { h with unusedEntries := 0, freeEntries := firstCapacity, nextPage := 0, formerPage := 0 }
      let (alloc, s) := s.vaAlloc env 1
      if alloc.status ≠ 0 then (false, s)
      else
        let s := s.setHd shd fun h => { h with unusedCache := alloc.base }
        let s := s.setCache alloc.base fun c => { c with index := 0 }
        let (alloc, s) := s.vaAlloc env 1
        if alloc.status ≠ 0 then (false, s)
        else
          let s := s.setHd shd fun h => { h with usedCache := alloc.base }
          (true, s.setCache alloc.base fun c => { c with index := 0 })
  else (true, s)

/-- The first page from `hd` on with an unused slab. -/
def unusedPage (s : Heap) : Nat → Nat → Except Fault (Option Nat)
  | 0, _ => .error .fuel
  | n + 1, hd =>
    if hd = 0 then .ok none
    else do
      let c ← s.readCache (s.hd hd).unusedCache
      if c.index ≠ 0 then .ok (some hd) else unusedPage s n (s.hd hd).nextPage

/-- The part of `createSlab` that adds a slab page behind `hd`. -/
def createPage (env : HeapEnv) (hd : Nat) (s : Heap) : Option Nat × Heap :=
  let (alloc, s) := s.vaAlloc env 1
  if alloc.status ≠ 0 then (none, s)
  else
    let newHd := alloc.base
    let s := s.setHd newHd fun h =>
      { h with freeEntries := pageCapacity, unusedEntries := 0, nextPage := 0 }
    let s := s.setHd hd fun h => { h with nextPage := newHd }
    let s := s.setHd newHd fun h => { h with formerPage := hd }
    let (alloc, s) := s.vaAlloc env 1
    if alloc.status ≠ 0 then (none, s)
    else
      let s := s.setHd newHd fun h => { h with unusedCache := alloc.base }
      let s := s.setCache alloc.base fun c => { c with index := 0 }
      let (alloc, s) := s.vaAlloc env 1
      if alloc.status ≠ 0 then (none, s)
      else
        let s := s.setHd newHd fun h => { h with usedCache := alloc.base }
        let s := s.setCache alloc.base fun c => { c with index := 0 }
        (some newHd, { s with slabPages := s.slabPages + 1 })

/-- `latest` moves on to the slot `slab` of the page `hd`. -/
def moveLatest (slab hd : Nat) (s : Heap) : Heap :=
  let s := s.setSlab s.latest fun e => { e with nextObject := slab }
  let s := { s with latest := slab }
  let s := s.setSlab slab fun e => { e with pageBase := invalidBase, nextObject := 0 }
  s.setHd hd fun h => { h with freeEntries := subU64 h.freeEntries 1 }

/-- `createSlab`; `none` is `NULL`. -/
def createSlab (env : HeapEnv) (n : Nat) (s : Heap) : Except Fault (Option Nat × Heap) :=
  if s.start = 0 then
    let start := slabAt s.shd 0
    let s := { s with start := start }
    let s := s.setSlab start fun _ => zeroSlab
    let s := s.setHd s.shd fun h => { h with freeEntries := subU64 h.freeEntries 1 }
    .ok (some start, { s with latest := start })
  else
    let hd := findHd s.latest
    if (s.hd hd).freeEntries = 0 then
      match createPage env hd s with
      | (none, s) => .ok (none, s)
      | (some newHd, s) => .ok (some (slabAt newHd 0), moveLatest (slabAt newHd 0) newHd s)
    else do
      match ← unusedPage s n s.shd with
      | some hd =>
        let c := s.cache (s.hd hd).unusedCache
        .ok (some (c.addresses (c.index - 1)),
          s.setHd hd fun h => { h with unusedEntries := subU64 h.unusedEntries 1 })
      | none =>
        let slab := s.latest + 36
        .ok (some slab, moveLatest slab (findHd slab) s)

/-- `if (start == NULL) { .. }`: the first slab, which is unused. -/
def ensureStart (env : HeapEnv) (n : Nat) (s : Heap) : Except Fault (Bool × Heap) :=
  if s.start = 0 then do
    match ← createSlab env n s with
    | (none, s) => .ok (false, s)
    | (some slab, s) =>
      let s := s.setSlab slab fun _ => zeroSlab
      let s := s.setSlab slab fun e => { e with nextObject := 0, pageBase := invalidBase, freeObs := 128 }
      let s := s.setHd s.shd fun h => { h with unusedEntries := (h.unusedEntries + 1) % 2 ^ 64 }
      let s ← s.modifyCache (s.hd s.shd).unusedCache fun c =>
        { c.push slab with index := if c.index < pageCapacity then c.index + 1 else c.index }
      .ok (true, { s with start := slab })
  else .ok (true, s)

/-! ## Small blocks -/

/-- The variables of `kmalloc` that describe a run of objects. -/
structure Pick where
  place : Nat
  slab : Nat
  hd : Nat
  /-- `obj_ret.sc` -/
  sc : Nat
  /-- `slab_pid` -/
  slabPid : Nat
deriving DecidableEq, Repr

/-- The loop over the used slabs of a page: `k` entries of the cache from `i` on.  The result has the
index, the slab, what `find_objs` returns and the new map. -/
def scanUsed (s : Heap) (n req : Nat) (conreq : Bool) (c : SlabCache) :
    Nat → Nat → Except Fault (Option (Nat × SearchRet × (Nat → BitVec 8)))
  | 0, _ => .ok none
  | k + 1, i =>
    let slab := c.addresses i
    if slab ≠ invalidBase ∧ (s.slab slab).freeObs - req ≥ 0 then do
      let (ret, map) ← bounded
        (findObjs n req 0 (s.slab slab).pageBase conreq (s.slab slab).cache2048)
      -- `find_objs` writes the map only if it returns an address
      if ret.addr = 0 then scanUsed s n req conreq c k (i + 1) else .ok (some (i, ret, map))
    else scanUsed s n req conreq c k (i + 1)

/-- The search of the used slabs, in the pages from `hd` on. -/
def searchUsed (n req : Nat) (conreq : Bool) (s : Heap) : Nat → Nat → Except Fault (Option Pick × Heap)
  | 0, _ => .error .fuel
  | m + 1, hd =>
    if hd = 0 then .ok (none, s)
    else do
      let c ← s.readCache (s.hd hd).usedCache
      match ← scanUsed s n req conreq c c.index 0 with
      | some (i, ret, map) =>
        let slab := c.addresses i
        .ok (some ⟨ret.addr, slab, hd, ret.sc, i⟩,
          s.setSlab slab fun e => { e with cache2048 := map, freeObs := e.freeObs - req })
      | none => searchUsed n req conreq s m (s.hd hd).nextPage

/-- `find_objs` in `slab`, and `slab->FreeObs -= req;` whatever it returns. -/
def takeObjs (n req : Nat) (conreq : Bool) (slab : Nat) (s : Heap) : Except Fault (SearchRet × Heap) := do
  let (ret, map) ← bounded (findObjs n req 0 (s.slab slab).pageBase conreq (s.slab slab).cache2048)
  .ok (ret, s.setSlab slab fun e => { e with cache2048 := map, freeObs := e.freeObs - req })

/-- `slab` goes into the cache of the used slabs of its page `hd`. -/
def recordUsed (hd slab : Nat) (s : Heap) : Except Fault Heap :=
  s.modifyCache (s.hd hd).usedCache (SlabCache.record (getIndex slab) slab)

/-- An unused slab is taken, if there is one. -/
def popUnused (n req : Nat) (conreq : Bool) (s : Heap) : Except Fault (Option Pick × Heap) := do
  match ← unusedPage s n s.shd with
  | none => .ok (none, s)
  | some hd =>
    let c := (s.hd hd).unusedCache
    let s := s.setCache c fun c => { c with index := c.index - 1 }
    let slab := (s.cache c).addresses (s.cache c).index
    let s := s.setHd hd fun h => { h with unusedEntries := subU64 h.unusedEntries 1 }
    let (ret, s) ← takeObjs n req conreq slab s
    let s ← recordUsed hd slab s
    .ok (some ⟨ret.addr, slab, hd, ret.sc, getIndex slab⟩, s)

/-- A new slab is taken; `none` is the return with `NULL`. -/
def carveSlab (env : HeapEnv) (n req : Nat) (conreq : Bool) (s : Heap) :
    Except Fault (Option Pick × Heap) := do
  match ← createSlab env n s with
  | (none, s) => .ok (none, s)
  | (some slab, s) =>
    let s := s.setSlab slab fun e => { e with cache2048 := fun _ => 0, freeObs := 128 }
    let hd := findHd slab
    let s := s.setHd hd fun h => { h with unusedEntries := (h.unusedEntries + 1) % 2 ^ 64 }
    let (ret, s) ← takeObjs n req conreq slab s
    let s := s.setHd hd fun h => { h with unusedEntries := subU64 h.unusedEntries 1 }
    let s ← recordUsed hd slab s
    .ok (some ⟨ret.addr, slab, hd, ret.sc, getIndex slab⟩, s)

/-- A run of `req` objects: in a used slab, in an unused one or in a new one. -/
def pickObjs (env : HeapEnv) (n req : Nat) (conreq : Bool) (s : Heap) :
    Except Fault (Option Pick × Heap) := do
  match ← (if conreq = true then searchUsed n req conreq s n s.shd else .ok (none, s)) with
  | (some p, s) => .ok (some p, s)
  | (none, s) =>
    match ← popUnused n req conreq s with
    | (some p, s) => if p.place ≠ 0 then .ok (some p, s) else carveSlab env n req conreq s
    | (none, s) => carveSlab env n req conreq s

/-- What is undone when there is no page for the slab. -/
def undoPick (n req : Nat) (p : Pick) (s : Heap) : Except Fault Heap := do
  let map ← bounded (cleanCache n req 0 p.sc (s.slab p.slab).cache2048)
  let s := s.setSlab p.slab fun e => { e with cache2048 := map, freeObs := e.freeObs + req }
  if (s.slab p.slab).freeObs = 128 then
    let s ← s.modifyCache (s.hd p.hd).usedCache (SlabCache.void (getIndex p.slab))
    let s := s.setHd p.hd fun h => { h with unusedEntries := (h.unusedEntries + 1) % 2 ^ 64 }
    s.modifyCache (s.hd p.hd).unusedCache (SlabCache.push p.slab)
  else .ok s

/-- `if (slab->PageBase == INVALID_BASE && conreq) { .. }`: the page of the slab. -/
def dataPage (env : HeapEnv) (n req : Nat) (conreq : Bool) (p : Pick) (s : Heap) :
    Except Fault (Option Pick × Heap) :=
  if (s.slab p.slab).pageBase = invalidBase ∧ conreq = true then
    let (alloc, s) := s.vaAlloc env 1
    if alloc.status ≠ 0 then do
      let s ← undoPick n req p s
      .ok (none, s)
    else
      .ok (some { p with place := (subU64 p.place 1 + alloc.base) % 2 ^ 64 },
        s.setSlab p.slab fun e => { e with pageBase := alloc.base })
  else .ok (some p, s)

/-- The code of `kmalloc` from `find_slab` on; `none` is the return with `NULL`. -/
def findSlab (env : HeapEnv) (n size : Nat) (conreq : Bool) (s : Heap) :
    Except Fault (Option Pick × Heap) := do
  let (ok, s) ← ensureStart env n s
  if ok = false then .ok (none, s)
  else
    let req := (size + 31) >>> 5
    match ← pickObjs env n req conreq s with
    | (none, s) => .ok (none, s)
    | (some p, s) => dataPage env n req conreq p s

/-! ## `kmalloc` -/

/-- The header is written, and the block is the rest. -/
def finish (place size : Nat) (p : Pick) (s : Heap) : Nat × Heap :=
  if place = 0 then (0, s)
  else ((place + 40) % 2 ^ 64, s.setHeader place fun _ =>
    { base := place, size := size, attributes := 0x03, sc := p.sc, index := p.slabPid, slabOrg := p.slab })

/-- `Size = Size + sizeof(k_header);` -/
def blockSize (size : Nat) : Nat := (size + 40) % 2 ^ 64

/-- `kmalloc`; 0 is `NULL`. -/
def kmalloc (env : HeapEnv) (n size : Nat) (s : Heap) : Except Fault (Nat × Heap) :=
  let size := blockSize size
  let (ok, s) := initShd env s
  if ok = false then .ok (0, s)
  else if size < 4096 then do
    match ← findSlab env n size true s with
    | (none, s) => .ok (0, s)
    | (some p, s) => .ok (finish p.place size p s)
  else if size &&& 0xFFF = 0 then
    let (alloc, s) := s.vaAlloc env (size >>> 12)
    if alloc.status ≠ 0 then .ok (0, s)
    else .ok (finish alloc.base size ⟨alloc.base, 0, 0, 0, env.slabPid⟩ s)
  else
    let (alloc, s) := s.vaAlloc env (((size + 4095) % 2 ^ 64) >>> 12)
    if alloc.status ≠ 0 then .ok (0, s)
    else do
      match ← findSlab env n (size &&& 0xFFF) false s with
      | (none, s) => .ok (0, s)
      | (some p, s) =>
        let s := s.setSlab p.slab fun e => { e with pageBase := addrOf ((alloc.base + size) % 2 ^ 64) }
        .ok (finish alloc.base size p s)

/-! ## `kfree` -/

/-- `check_page` -/
def checkPage (hd : Nat) (s : Heap) : Bool :=
  subU64 (subU64 pageCapacity (s.hd hd).freeEntries) (s.hd hd).unusedEntries == 0

/-- `deallocate_slab`, without its result. -/
def deallocateSlab (hd : Nat) (s : Heap) : Heap :=
  let unusedCache := (s.hd hd).unusedCache
  let usedCache := (s.hd hd).usedCache
  ((s.vaFree hd 1).vaFree unusedCache 1).vaFree usedCache 1

/-- The slot that `reset_latest` and `link_pages` take for the last one that was carved. -/
def lastSlot (hd : Nat) (s : Heap) : Nat :=
  let place := subU64 s.kmax (s.hd hd).freeEntries
  (hd + 48 + 36 * subU64 place 1) % 2 ^ 64

/-- Take the page `hd` out of the list. -/
def unlinkSlabPage (miss : Bool) (hd : Nat) (s : Heap) : Heap :=
  let former := (s.hd hd).formerPage
  let next := (s.hd hd).nextPage
  if miss then
    let s := s.setHd former fun h => { h with nextPage := next }
    let s := s.setHd next fun h => { h with formerPage := former }
    s.setSlab (lastSlot former s) fun e => { e with nextObject := slabAt next 0 }
  else s.setHd former fun h => { h with nextPage := 0 }

/-- `latest = reset_latest(latest, hd);` -/
def resetLatest (hd : Nat) (s : Heap) : Heap :=
  let s := s.setSlab (lastSlot hd s) fun e => { e with nextObject := 0 }
  { s with latest := lastSlot hd s }

/-- The loop of `kfree` that gives back the slab pages without a used slab, from the last one to the one
behind the first. -/
def reclaimSlabs : Nat → Bool → Nat → Heap → Except Fault Heap
  | 0, _, _, _ => .error .fuel
  | n + 1, miss, hd, s =>
    if hd = s.shd then .ok s
    else
      let former := (s.hd hd).formerPage
      if checkPage hd s then
        let s := deallocateSlab hd (unlinkSlabPage miss hd s)
        let s := { s with slabPages := s.slabPages - 1 }
        reclaimSlabs n miss former (if miss then s else resetLatest former s)
      else reclaimSlabs n true former s

/-- A slab without objects in use becomes an unused one, and its page is given back. -/
def releaseSlab (slabPid slab : Nat) (s : Heap) : Except Fault Heap := do
  let hd := findHd slab
  let s ← s.modifyCache (s.hd hd).unusedCache (SlabCache.push slab)
  let s ← s.modifyCache (s.hd hd).usedCache (SlabCache.void slabPid)
  let s := s.setHd hd fun h => { h with unusedEntries := (h.unusedEntries + 1) % 2 ^ 64 }
  let s := s.vaFree (s.slab slab).pageBase 1
  .ok (s.setSlab slab fun e => { e with pageBase := invalidBase })

/-- The code of `kfree` from `free_slab` on, for the block with the header at `b`. -/
def freeSlab (n b : Nat) (s : Heap) : Except Fault Heap := do
  let h := s.header b
  let req := (h.size + 31) >>> 5
  let map ← bounded (cleanCache n req 0 h.sc (s.slab h.slabOrg).cache2048)
  let s := s.setSlab h.slabOrg fun e => { e with cache2048 := map, freeObs := e.freeObs + req }
  let s ← (if (s.slab h.slabOrg).freeObs = 128 then releaseSlab h.index h.slabOrg s else .ok s)
  reclaimSlabs n false (findHd s.latest) s

/-- The code of `kfree` from `free_aligned` on. -/
def freeAligned (b : Nat) (s : Heap) : Heap := s.vaFree (s.header b).base ((s.header b).size >>> 12)

/-- `kfree` -/
def kfree (n alloc : Nat) (s : Heap) : Except Fault Heap :=
  let b := subU64 alloc 40
  let size := (s.header b).size
  if size < 4096 then freeSlab n b s
  else if size &&& 0xFFF = 0 then .ok (freeAligned b s)
  else do
    let s ← freeSlab n b (s.setHeader b fun h => { h with size := size &&& 0xFFF })
    .ok (freeAligned b (s.setHeader b fun h => { h with size := size }))

end Dem64.Kmalloc
