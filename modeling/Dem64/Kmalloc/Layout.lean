import Dem64.Kmalloc.SlabPage
import Dem64.VaAlloc.Pages

/-!
# The heap and the pages it owns

The pages of the heap that are in use have owners: a slab page and its two caches, the page of a slab, the
pages of a large block.  A `Layout` is a record of who owns each byte, beside the state, together with the
list of the slab pages.  `HeapOk` says that the state fits the layout: the slab pages are the list that
starts at `shd`, each of them is in order (`PageOk`), and the bytes with an owner are those that `va_alloc`
gave and `va_free` did not take back.  That two owners never share a byte is then nothing that has to be
proved, and that a call of `va_alloc` changes no record in use is one lemma (`granted_same`).

A change of one slab page (`Edits`) keeps `HeapOk` if it keeps `PageOk` for that page (`HeapOk.edit`).
`Frame` is the frame of the steps of `kmalloc` and `kfree`: at most one slab and one block are concerned.
-/

set_option autoImplicit false

namespace Dem64.Kmalloc

open BitRow

/-- Who owns a byte of the pages in use. -/
inductive Owner where
  /-- A slab page. -/
  | page (p : Nat)
  /-- The cache of its used slabs. -/
  | used (p : Nat)
  /-- The cache of its unused slabs. -/
  | unused (p : Nat)
  /-- A slab, whose page it is. -/
  | data (slab : Nat)
  /-- A large block. -/
  | body (b : Nat)
deriving DecidableEq, Repr

/-- Who owns the bytes, and which slab pages there are. -/
structure Layout where
  own : Nat → Option Owner
  pages : List Nat

/-- A range gets an owner. -/
def Layout.assign (base pages : Nat) (o : Option Owner) (L : Layout) : Layout :=
  { L with own := fun x => if base ≤ x ∧ x < base + 4096 * pages then o else L.own x }

/-- An owner gives back what it has. -/
def Layout.disown (o : Owner) (L : Layout) : Layout :=
  { L with own := fun x => if L.own x = some o then none else L.own x }

/-- The bytes that were allocated and not freed again. -/
def held : List VaCall → Set Nat
  | [] => ∅
  | .alloc base pages :: l => held l ∪ Set.Ico base (base + 4096 * pages)
  | .free base pages :: l => held l \ Set.Ico base (base + 4096 * pages)

/-- `va_alloc` gives whole pages that are not in use. -/
def HeapEnv.Fresh (env : HeapEnv) : Prop :=
  ∀ calls pages, (env.va calls pages).status = 0 →
    (env.va calls pages).base % 4096 = 0 ∧ (env.va calls pages).base ≠ 0 ∧
    (env.va calls pages).base + 4096 * pages ≤ 2 ^ 64 ∧
    Disjoint (Set.Ico (env.va calls pages).base ((env.va calls pages).base + 4096 * pages)) (held calls)

/-- Some call of `va_alloc` fails. -/
def HeapEnv.Refuses (env : HeapEnv) : Prop := ∃ calls pages, (env.va calls pages).status ≠ 0

/-- A slab without its link. -/
def SlabObj.view (e : SlabObj) : SlabView := ⟨e.pageBase, e.freeObs, e.cache2048⟩

namespace Heap

/-- How many slots a slab page has. -/
def capacity (s : Heap) (p : Nat) : Nat := if p = s.shd then firstCapacity else pageCapacity

/-- How many of them were carved. -/
def carved (s : Heap) (p : Nat) : Nat := s.capacity p - (s.hd p).freeEntries

/-- A slab page. -/
def view (s : Heap) (p : Nat) : PageView where
  carved := s.carved p
  used := s.cache (s.hd p).usedCache
  unused := s.cache (s.hd p).unusedCache
  unusedEntries := (s.hd p).unusedEntries
  slab i := if i < firstCapacity then (s.slab (slabAt p i)).view else ⟨0, 0, fun _ => 0⟩

/-- `a` is a slab with objects in use. -/
def InUse (s : Heap) (L : Layout) (a : Nat) : Prop :=
  ∃ p ∈ L.pages, ∃ i, a = slabAt p i ∧ (s.view p).InUse i

/-- The heap after `va_alloc` gave it pages. -/
def granted (env : HeapEnv) (base pages : Nat) (s : Heap) : Heap :=
  { s.mapPages env base pages with calls := .alloc base pages :: s.calls }

end Heap

/-- The bytes with an owner are those in use. -/
def Titles (L : Layout) (s : Heap) : Prop := ∀ x, x ∈ held s.calls ↔ L.own x ≠ none

/-- The heap in order, apart from `latest`. -/
structure HeapOk (L : Layout) (s : Heap) : Prop where
  titles : Titles L s
  /-- The slab pages are linked. -/
  nodup : L.pages.Nodup
  list : Dll (fun p => (s.hd p).nextPage) (fun p => (s.hd p).formerPage) 0 L.pages 0
  head : L.pages.headD 0 = s.shd
  aligned : ∀ p ∈ L.pages, p % 4096 = 0 ∧ p ≠ 0 ∧ p + 4096 ≤ 2 ^ 64
  caches : ∀ p ∈ L.pages, (s.hd p).usedCache ≠ 0 ∧ (s.hd p).unusedCache ≠ 0
  /-- They own their three pages. -/
  page : ∀ p x, L.own x = some (.page p) ↔ p ∈ L.pages ∧ p ≤ x ∧ x < p + 4096
  used : ∀ p x, L.own x = some (.used p) ↔
    p ∈ L.pages ∧ (s.hd p).usedCache ≤ x ∧ x < (s.hd p).usedCache + 4096
  unused : ∀ p x, L.own x = some (.unused p) ↔
    p ∈ L.pages ∧ (s.hd p).unusedCache ≤ x ∧ x < (s.hd p).unusedCache + 4096
  capacity : ∀ p ∈ L.pages, (s.hd p).freeEntries ≤ s.capacity p
  ok : ∀ p ∈ L.pages, PageOk p (s.view p).InUse (s.view p)
  /-- Slots are carved in the last page. -/
  full : ∀ p ∈ L.pages.dropLast, (s.hd p).freeEntries = 0
  /-- Before the first slab nothing was carved. -/
  first : s.start = 0 → ∀ p ∈ L.pages, s.carved p = 0
  kmax : L.pages ≠ [] → s.kmax = firstCapacity

/-- `latest` is in the last page, and the next slot is behind it if there is one. -/
def LatestOk (L : Layout) (s : Heap) : Prop :=
  s.start ≠ 0 → L.pages ≠ [] ∧ findHd s.latest = L.pages.getLastD 0 ∧
    ((s.hd (L.pages.getLastD 0)).freeEntries ≠ 0 →
      s.latest + 36 = slabAt (L.pages.getLastD 0) (s.carved (L.pages.getLastD 0)))

/-- A change of the slab page `p`. -/
structure Edits (L : Layout) (p : Nat) (s s' : Heap) : Prop where
  slab : ∀ x, L.own x ≠ some (.page p) → (s'.slab x).view = (s.slab x).view
  hd : ∀ x, x ≠ p → s'.hd x = s.hd x
  /-- Its pointers stay. -/
  next : (s'.hd p).nextPage = (s.hd p).nextPage
  former : (s'.hd p).formerPage = (s.hd p).formerPage
  usedCache : (s'.hd p).usedCache = (s.hd p).usedCache
  unusedCache : (s'.hd p).unusedCache = (s.hd p).unusedCache
  cache : ∀ x, L.own x ≠ some (.used p) → L.own x ≠ some (.unused p) → s'.cache x = s.cache x
  header : s'.header = s.header
  calls : s'.calls = s.calls
  shd : s'.shd = s.shd
  kmax : s'.kmax = s.kmax

/-- Slabs other than `a` and blocks other than `b` are as they were. -/
structure Frame (a b : Nat) (L : Layout) (s : Heap) (L' : Layout) (s' : Heap) : Prop where
  inUse : ∀ x, x ≠ a → (s'.InUse L' x ↔ s.InUse L x)
  slab : ∀ x, x ≠ a → s.InUse L x → (s'.slab x).view = (s.slab x).view
  data : ∀ x, x ≠ a → ∀ y, L'.own y = some (.data x) ↔ L.own y = some (.data x)
  body : ∀ x, x ≠ b → ∀ y, L'.own y = some (.body x) ↔ L.own y = some (.body x)
  header : ∀ x, x ≠ b → L.own x ≠ none → s'.header x = s.header x

section

variable {L L' L'' : Layout} {s s' s'' : Heap} {p q i a b x base pages : Nat} {env : HeapEnv} {o : Owner}
  {u : Nat → Prop}

theorem firstCapacity_eq : firstCapacity = 112 := rfl

theorem pageCapacity_eq : pageCapacity = 79 := rfl

theorem capacity_le : s.capacity p ≤ 112 := by
  rw [Heap.capacity]
  split
  · exact Nat.le_refl 112
  · exact (by decide : (79 : Nat) ≤ 112)

/-! ## Addresses of slabs -/

theorem findHd_slabAt (hp : p % 4096 = 0) (hi : i < 112) : findHd (slabAt p i) = p := by
  rw [findHd, addrOf_eq, slabAt]
  omega

theorem getIndex_slabAt (hp : p % 4096 = 0) (hi : i < 112) : getIndex (slabAt p i) = i := by
  have hmod : (p + 48 + 36 * i) % 4096 = 48 + 36 * i := by omega
  rw [getIndex, Nat.and_two_pow_sub_one_eq_mod _ 12, slabAt, hmod]
  omega

theorem slabAt_succ : slabAt p (i + 1) = slabAt p i + 36 := by
  rw [slabAt, slabAt]
  omega

theorem view_slab (hi : i < 112) : (s.view p).slab i = (s.slab (slabAt p i)).view := if_pos hi

theorem HeapOk.own_slab (h : HeapOk L s) (hp : p ∈ L.pages) (hi : i < 112) :
    L.own (slabAt p i) = some (.page p) :=
  (h.page p _).mpr ⟨hp, by rw [slabAt]; omega, by rw [slabAt]; omega⟩

theorem HeapOk.own_page (h : HeapOk L s) (hp : p ∈ L.pages) : L.own p = some (.page p) :=
  (h.page p _).mpr ⟨hp, Nat.le_refl p, by omega⟩

theorem HeapOk.own_used (h : HeapOk L s) (hp : p ∈ L.pages) :
    L.own (s.hd p).usedCache = some (.used p) := (h.used p _).mpr ⟨hp, Nat.le_refl _, by omega⟩

theorem HeapOk.own_unused (h : HeapOk L s) (hp : p ∈ L.pages) :
    L.own (s.hd p).unusedCache = some (.unused p) := (h.unused p _).mpr ⟨hp, Nat.le_refl _, by omega⟩

theorem HeapOk.carved_le (h : HeapOk L s) (hp : p ∈ L.pages) : s.carved p ≤ 112 := (h.ok p hp).carved_le

/-- A slab in use by its page and index. -/
theorem HeapOk.inUse_slabAt (h : HeapOk L s) (hp : p ∈ L.pages) (hi : i < 112) :
    s.InUse L (slabAt p i) ↔ (s.view p).InUse i := by
  refine ⟨?_, fun hu => ⟨p, hp, i, rfl, hu⟩⟩
  rintro ⟨q, hq, j, heq, hu⟩
  have hj := Nat.lt_of_lt_of_le hu.1 (h.carved_le hq)
  have hown := h.own_slab hp hi
  rw [heq, h.own_slab hq hj] at hown
  obtain rfl : q = p := Owner.page.inj (Option.some.inj hown)
  obtain rfl := slabAt_inj.mp heq
  exact hu

theorem HeapOk.inUse_own (h : HeapOk L s) (ha : s.InUse L a) : ∃ p ∈ L.pages, ∃ i < 112,
    a = slabAt p i ∧ (s.view p).InUse i ∧ L.own a = some (.page p) := by
  obtain ⟨p, hp, i, rfl, hu⟩ := ha
  have hi := Nat.lt_of_lt_of_le hu.1 (h.carved_le hp)
  exact ⟨p, hp, i, hi, rfl, hu, h.own_slab hp hi⟩

/-! ## Pages that are granted -/

theorem assign_own : (L.assign base pages (some o)).own x =
    if base ≤ x ∧ x < base + 4096 * pages then some o else L.own x := rfl

/-- A range is granted. -/
theorem Titles.grant (h : Titles L s) (env : HeapEnv) : Titles (L.assign base pages (some o)) (s.granted env base pages) := by
  intro x
  show x ∈ held s.calls ∪ Set.Ico base (base + 4096 * pages) ↔ _
  rw [Set.mem_union, h x, Set.mem_Ico, assign_own]
  split
  · rename_i hx
    exact iff_of_true (.inr hx) (Option.some_ne_none o)
  · rename_i hx
    exact ⟨fun hor => hor.resolve_right hx, .inl⟩

theorem disown_iff {o' : Owner} : (L.disown o).own x = some o' ↔ L.own x = some o' ∧ o' ≠ o := by
  show (if L.own x = some o then none else L.own x) = some o' ↔ _
  split
  · rename_i hx
    rw [hx, Option.some.injEq]
    exact iff_of_false nofun fun hand => hand.2 hand.1.symm
  · rename_i hx
    exact ⟨fun heq => ⟨heq, fun ho => hx (ho ▸ heq)⟩, fun hand => hand.1⟩

/-- All that an owner has is given back. -/
theorem Titles.disown (h : Titles L s) (ho : ∀ x, L.own x = some o ↔ base ≤ x ∧ x < base + 4096 * pages) :
    Titles (L.disown o) (s.vaFree base pages) := by
  intro x
  show x ∈ held s.calls \ Set.Ico base (base + 4096 * pages) ↔ (if L.own x = some o then none else L.own x) ≠ none
  rw [Set.mem_sdiff, h x, Set.mem_Ico, ← ho x]
  split
  · rename_i hx
    exact iff_of_false (fun hand => hand.2 hx) fun hne => hne rfl
  · rename_i hx
    exact ⟨fun hand => hand.1, fun hne => ⟨hne, hx⟩⟩

theorem vaAlloc_eq (hstatus : (env.va s.calls pages).status = 0) :
    s.vaAlloc env pages = (env.va s.calls pages, s.granted env (env.va s.calls pages).base pages) :=
  if_pos hstatus

/-- A range that has no owner yet. -/
def Vacant (L : Layout) (base pages : Nat) : Prop :=
  base % 4096 = 0 ∧ base ≠ 0 ∧ base + 4096 * pages ≤ 2 ^ 64 ∧
    ∀ x, base ≤ x → x < base + 4096 * pages → L.own x = none

theorem HeapEnv.Fresh.vacant (henv : env.Fresh) (h : Titles L s)
    (hstatus : (env.va s.calls pages).status = 0) : Vacant L (env.va s.calls pages).base pages := by
  obtain ⟨h1, h2, h3, h4⟩ := henv _ _ hstatus
  refine ⟨h1, h2, h3, fun x hx hx' => ?_⟩
  by_contra hne
  exact Set.disjoint_left.mp h4 (Set.mem_Ico.mpr ⟨hx, hx'⟩) ((h x).mpr hne)

theorem Vacant.not_mem (h : Vacant L base pages) (hx : L.own x ≠ none) :
    ¬ (base ≤ x ∧ x < base + 4096 * pages) := fun hand => hx (h.2.2.2 x hand.1 hand.2)

theorem Vacant.assign_own (h : Vacant L base pages) (hx : L.own x ≠ none) :
    (L.assign base pages (some o)).own x = L.own x := if_neg (h.not_mem hx)

/-- The new owner has the range, and the others have what they had. -/
theorem Vacant.assign_iff (h : Vacant L base pages) {o' : Owner} :
    (L.assign base pages (some o)).own x = some o' ↔
      L.own x = some o' ∨ o' = o ∧ base ≤ x ∧ x < base + 4096 * pages := by
  show (if _ then some o else L.own x) = some o' ↔ _
  split
  · rename_i hx
    rw [h.2.2.2 x hx.1 hx.2, Option.some.injEq]
    exact ⟨fun heq => .inr ⟨heq.symm, hx⟩, fun hor => hor.elim nofun fun hand => hand.1.symm⟩
  · rename_i hx
    exact ⟨.inl, fun hor => hor.resolve_right fun hand => hx hand.2⟩

/-- **No record in use is changed when pages are granted.** -/
theorem granted_same (env : HeapEnv) (s : Heap) (h : Vacant L base pages) (hx : L.own x ≠ none) :
    (s.granted env base pages).slab x = s.slab x ∧ (s.granted env base pages).hd x = s.hd x ∧
      (s.granted env base pages).cache x = s.cache x ∧ (s.granted env base pages).header x = s.header x :=
  ⟨if_neg (h.not_mem hx), if_neg (h.not_mem hx), if_neg (h.not_mem hx), if_neg (h.not_mem hx)⟩

/-! ## Changes of one page -/

theorem Edits.trans (h : Edits L p s s') (h' : Edits L p s' s'') : Edits L p s s'' where
  slab x hx := (h'.slab x hx).trans (h.slab x hx)
  hd x hx := (h'.hd x hx).trans (h.hd x hx)
  next := h'.next.trans h.next
  former := h'.former.trans h.former
  usedCache := h'.usedCache.trans h.usedCache
  unusedCache := h'.unusedCache.trans h.unusedCache
  cache x hx hx' := (h'.cache x hx hx').trans (h.cache x hx hx')
  header := h'.header.trans h.header
  calls := h'.calls.trans h.calls
  shd := h'.shd.trans h.shd
  kmax := h'.kmax.trans h.kmax

/-- A slab of the page is changed, or only the link of some slab. -/
theorem Edits.setSlab {f : SlabObj → SlabObj}
    (ha : L.own a = some (.page p) ∨ ∀ e, (f e).view = e.view) : Edits L p s (s.setSlab a f) where
  slab x hx := by
    show SlabObj.view (if x = a then f (s.slab a) else s.slab x) = _
    split
    · rename_i hxa
      rcases ha with ha | hf
      · exact absurd (hxa ▸ ha) hx
      · rw [hf, hxa]
    · rfl
  hd _ _ := rfl
  next := rfl
  former := rfl
  usedCache := rfl
  unusedCache := rfl
  cache _ _ _ := rfl
  header := rfl
  calls := rfl
  shd := rfl
  kmax := rfl

theorem Edits.setLatest : Edits L p s { s with latest := x } :=
  ⟨fun _ _ => rfl, fun _ _ => rfl, rfl, rfl, rfl, rfl, fun _ _ _ => rfl, rfl, rfl, rfl, rfl⟩

theorem Edits.setStart : Edits L p s { s with start := x } :=
  ⟨fun _ _ => rfl, fun _ _ => rfl, rfl, rfl, rfl, rfl, fun _ _ _ => rfl, rfl, rfl, rfl, rfl⟩

/-- The counters of the page are changed. -/
theorem Edits.setHd {f : SlabHd → SlabHd} (hn : ∀ e, (f e).nextPage = e.nextPage)
    (hf : ∀ e, (f e).formerPage = e.formerPage) (hu : ∀ e, (f e).usedCache = e.usedCache)
    (hv : ∀ e, (f e).unusedCache = e.unusedCache) : Edits L p s (s.setHd p f) := by
  have hself : (s.setHd p f).hd p = f (s.hd p) := if_pos rfl
  refine ⟨fun _ _ => rfl, fun x hx => if_neg hx, ?_, ?_, ?_, ?_, fun _ _ _ => rfl, rfl, rfl, rfl, rfl⟩
  · rw [hself, hn]
  · rw [hself, hf]
  · rw [hself, hu]
  · rw [hself, hv]

/-- A cache of the page is changed. -/
theorem Edits.setCache {f : SlabCache → SlabCache}
    (ha : L.own a = some (.used p) ∨ L.own a = some (.unused p)) : Edits L p s (s.setCache a f) where
  slab _ _ := rfl
  hd _ _ := rfl
  next := rfl
  former := rfl
  usedCache := rfl
  unusedCache := rfl
  cache x hx hx' := by
    have hxa : x ≠ a := by
      rintro rfl
      exact ha.elim hx hx'
    exact if_neg hxa
  header := rfl
  calls := rfl
  shd := rfl
  kmax := rfl

/-- The other pages stay. -/
theorem view_congr (hcarved : s'.carved q = s.carved q) (hhd : s'.hd q = s.hd q)
    (hused : s'.cache (s.hd q).usedCache = s.cache (s.hd q).usedCache)
    (hunused : s'.cache (s.hd q).unusedCache = s.cache (s.hd q).unusedCache)
    (hslab : ∀ i, i < 112 → (s'.slab (slabAt q i)).view = (s.slab (slabAt q i)).view) :
    s'.view q = s.view q := by
  have hslabs : (s'.view q).slab = (s.view q).slab := by
    funext i
    show (if _ then _ else _) = (if _ then _ else _)
    split
    · exact hslab i (by assumption)
    · rfl
  show PageView.mk _ _ _ _ (s'.view q).slab = PageView.mk _ _ _ _ (s.view q).slab
  rw [hcarved, hhd, hused, hunused, hslabs]

/-- A page whose slab `i` is `e` now. -/
theorem view_eq {w : PageView} {e : SlabView} (hi : i < 112) (hcarved : s'.carved p = w.carved)
    (hused : s'.cache (s'.hd p).usedCache = w.used) (hunused : s'.cache (s'.hd p).unusedCache = w.unused)
    (hentries : (s'.hd p).unusedEntries = w.unusedEntries)
    (hw : ∀ j, w.slab j = if j = i then e else (s.view p).slab j)
    (hself : (s'.slab (slabAt p i)).view = e)
    (hother : ∀ j, j ≠ i → (s'.slab (slabAt p j)).view = (s.slab (slabAt p j)).view) :
    s'.view p = w := by
  have hslabs : (s'.view p).slab = w.slab := by
    funext j
    rw [hw]
    by_cases hji : j = i
    · rw [if_pos hji, hji, view_slab hi, hself]
    · rw [if_neg hji]
      show (if _ then _ else _) = (if _ then _ else _)
      rw [hother j hji]
  show PageView.mk _ _ _ _ (s'.view p).slab = w
  rw [hcarved, hused, hunused, hentries, hslabs]

/-- The view of a page when one of its slabs changes. -/
theorem view_setSlab {f : SlabObj → SlabObj} {g : SlabView → SlabView} (hi : i < 112)
    (hfg : ∀ e, (f e).view = g e.view) :
    (s.setSlab (slabAt p i) f).view p = (s.view p).update i g := by
  refine view_eq hi rfl rfl rfl rfl (fun j => rfl) ?_ fun j hji => ?_
  · show SlabObj.view (if slabAt p i = slabAt p i then _ else _) = _
    rw [if_pos rfl, hfg, view_slab hi]
  · show SlabObj.view (if slabAt p j = slabAt p i then _ else _) = _
    rw [if_neg fun heq => hji (slabAt_inj.mp heq)]

theorem HeapOk.edits_view (h : HeapOk L s) (he : Edits L p s s') (hq : q ∈ L.pages) (hne : q ≠ p) :
    s'.view q = s.view q := by
  have hhd := he.hd q hne
  refine view_congr ?_ hhd ?_ ?_ fun i hi => he.slab _ ?_
  · rw [Heap.carved, Heap.carved, Heap.capacity, Heap.capacity, he.shd, hhd]
  · refine he.cache _ ?_ ?_ <;> rw [h.own_used hq]
    · exact fun heq => hne (Owner.used.inj (Option.some.inj heq))
    · exact nofun
  · refine he.cache _ ?_ ?_ <;> rw [h.own_unused hq]
    · exact nofun
    · exact fun heq => hne (Owner.unused.inj (Option.some.inj heq))
  · rw [h.own_slab hq hi]
    exact fun heq => hne (Owner.page.inj (Option.some.inj heq))

/-- The pointers of all pages stay. -/
theorem Edits.links (he : Edits L p s s') (q : Nat) :
    (s'.hd q).nextPage = (s.hd q).nextPage ∧ (s'.hd q).formerPage = (s.hd q).formerPage ∧
      (s'.hd q).usedCache = (s.hd q).usedCache ∧ (s'.hd q).unusedCache = (s.hd q).unusedCache := by
  by_cases hq : q = p
  · rw [hq]
    exact ⟨he.next, he.former, he.usedCache, he.unusedCache⟩
  · rw [he.hd q hq]
    exact ⟨rfl, rfl, rfl, rfl⟩

/-- **A change of one page keeps the heap in order**, if the page is in order afterwards. -/
theorem HeapOk.edit (h : HeapOk L s) (he : Edits L p s s') (hv : PageOk p u (s'.view p))
    (hfree : (s'.hd p).freeEntries ≤ (s.hd p).freeEntries)
    (hfirst : s'.start = 0 → s.start = 0 ∧ s'.carved p = s.carved p) : HeapOk L s' := by
  have hcap : ∀ q, s'.capacity q = s.capacity q := fun q => by
    rw [Heap.capacity, Heap.capacity, he.shd]
  have hle : ∀ q, (s'.hd q).freeEntries ≤ (s.hd q).freeEntries := by
    intro q
    by_cases hq : q = p
    · rw [hq]
      exact hfree
    · rw [he.hd q hq]
  refine ⟨?_, h.nodup, ?_, ?_, h.aligned, ?_, h.page, ?_, ?_, ?_, ?_, ?_, ?_, ?_⟩
  · intro x
    rw [he.calls]
    exact h.titles x
  · exact h.list.congr (fun q _ => (he.links q).1) fun q _ => (he.links q).2.1
  · rw [he.shd, h.head]
  · intro q hq
    rw [(he.links q).2.2.1, (he.links q).2.2.2]
    exact h.caches q hq
  · intro q x
    rw [(he.links q).2.2.1]
    exact h.used q x
  · intro q x
    rw [(he.links q).2.2.2]
    exact h.unused q x
  · intro q hq
    rw [hcap]
    exact Nat.le_trans (hle q) (h.capacity q hq)
  · intro q hq
    by_cases hqp : q = p
    · rw [hqp]
      exact hv.settle
    · rw [h.edits_view he hq hqp]
      exact h.ok q hq
  · intro q hq
    exact Nat.le_zero.mp (h.full q hq ▸ hle q)
  · intro hstart q hq
    obtain ⟨hstart, hcarved⟩ := hfirst hstart
    by_cases hqp : q = p
    · rw [hqp, hcarved, ← hqp]
      exact h.first hstart q hq
    · have hold := h.first hstart q hq
      rw [Heap.carved, hcap, he.hd q hqp]
      exact hold
  · intro hne
    rw [he.kmax]
    exact h.kmax hne

theorem LatestOk.edit (hl : LatestOk L s) (he : Edits L p s s')
    (hfree : (s'.hd p).freeEntries = (s.hd p).freeEntries) (hlatest : s'.latest = s.latest)
    (hstart : s'.start = s.start) : LatestOk L s' := by
  have hsame : ∀ q, (s'.hd q).freeEntries = (s.hd q).freeEntries := by
    intro q
    by_cases hq : q = p
    · rw [hq, hfree]
    · rw [he.hd q hq]
  intro hne
  rw [hstart] at hne
  rw [hlatest, hsame, Heap.carved, Heap.capacity, hsame, he.shd]
  exact hl hne

/-! ## The frame -/

theorem Frame.refl : Frame a b L s L s :=
  ⟨fun _ _ => Iff.rfl, fun _ _ _ => rfl, fun _ _ _ => Iff.rfl, fun _ _ _ => Iff.rfl, fun _ _ _ => rfl⟩

/-- One step after the other; what has an owner keeps one, but for the slab `a`. -/
theorem Frame.trans (h : Frame a b L s L' s') (h' : Frame a b L' s' L'' s'')
    (hown : ∀ x, L.own x ≠ none → L'.own x ≠ none) : Frame a b L s L'' s'' where
  inUse x hx := (h'.inUse x hx).trans (h.inUse x hx)
  slab x hx hu := (h'.slab x hx ((h.inUse x hx).mpr hu)).trans (h.slab x hx hu)
  data x hx y := (h'.data x hx y).trans (h.data x hx y)
  body x hx y := (h'.body x hx y).trans (h.body x hx y)
  header x hx ho := (h'.header x hx (hown x ho)).trans (h.header x hx ho)

/-- A change of one page is in the frame, if at most the slab `a` of those in use is concerned. -/
theorem HeapOk.frame_edit (h : HeapOk L s) (h' : HeapOk L s') (he : Edits L p s s')
    (hother : ∀ j, j < 112 → slabAt p j ≠ a → ((s'.view p).InUse j ↔ (s.view p).InUse j) ∧
      ((s.view p).InUse j → (s'.slab (slabAt p j)).view = (s.slab (slabAt p j)).view)) :
    Frame a b L s L s' := by
  have hiff : ∀ x, x ≠ a → ∀ q ∈ L.pages, ∀ j < 112, x = slabAt q j →
      ((s'.view q).InUse j ↔ (s.view q).InUse j) ∧
        ((s.view q).InUse j → (s'.slab (slabAt q j)).view = (s.slab (slabAt q j)).view) := by
    rintro x hx q hq j hj rfl
    by_cases hqp : q = p
    · subst hqp
      exact hother j hj hx
    · rw [h.edits_view he hq hqp]
      refine ⟨Iff.rfl, fun _ => he.slab _ ?_⟩
      rw [h.own_slab hq hj]
      exact fun heq => hqp (Owner.page.inj (Option.some.inj heq))
  refine ⟨fun x hx => ⟨fun hu => ?_, fun hu => ?_⟩, fun x hx hu => ?_, fun _ _ _ => Iff.rfl,
    fun _ _ _ => Iff.rfl, fun x _ _ => by rw [he.header]⟩
  · obtain ⟨q, hq, j, hj, heq, hu, -⟩ := h'.inUse_own hu
    exact ⟨q, hq, j, heq, (hiff x hx q hq j hj heq).1.mp hu⟩
  · obtain ⟨q, hq, j, hj, heq, hu, -⟩ := h.inUse_own hu
    exact ⟨q, hq, j, heq, (hiff x hx q hq j hj heq).1.mpr hu⟩
  · obtain ⟨q, hq, j, hj, rfl, hin, -⟩ := h.inUse_own hu
    exact (hiff _ hx q hq j hj rfl).2 hin

end

end Dem64.Kmalloc
