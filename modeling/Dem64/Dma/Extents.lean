import Dem64.Dma.Pool
import Dem64.Lib.Lseg
import Dem64.Lib.Ends
import Mathlib.Algebra.BigOperators.Group.List.Basic
import Mathlib.Algebra.GroupWithZero.Nat
import Mathlib.Order.Basic

/-!
# The list of extents

`PoolShape p ptrs` says that the entries in use are those of the list `ptrs`: they are linked from
`dma_start` to `dma_latest`, they fill the metadata pages from the front, each page from slot 1 on,
and the headers of the pages are linked as well.  Nothing is said about the counters in the headers,
since the code does not keep them right.  `PoolInv p ptrs` adds that the extents fit the window.

The rest of the file says what the functions of `Dma/Pool.lean` do to such a list.  A search finds a
run of free extents, or the free extents at the end (`search_spec`); extents are taken
(`takeRun_spec`, `takeUntil_spec`), added at the end (`carve_spec`, `addPage_spec`), marked free
(`releaseLoop_spec`) and cut off together with the last page (`dropPage_spec`).
-/

set_option autoImplicit false

namespace Dem64

/-- The order of the entries in memory. -/
def EntryPtr.Before (x y : EntryPtr) : Prop :=
  x.page < y.page ∨ x.page = y.page ∧ x.slot < y.slot

theorem EntryPtr.Before.ne {x y : EntryPtr} (h : x.Before y) : x ≠ y := by
  rintro rfl
  rcases h with h | ⟨-, h⟩ <;> exact Nat.lt_irrefl _ h

namespace DmaPool

/-- The size of a list of extents. -/
def total (p : DmaPool) (l : List EntryPtr) : Nat := (l.map fun x => (p.entry x).sizeInPages).sum

section

variable {p q : DmaPool} {l r : List EntryPtr} {x : EntryPtr}

@[simp] theorem total_nil (p : DmaPool) : p.total [] = 0 := rfl

@[simp] theorem total_cons (p : DmaPool) (x : EntryPtr) (l : List EntryPtr) :
    p.total (x :: l) = (p.entry x).sizeInPages + p.total l := List.sum_cons

@[simp] theorem total_append (p : DmaPool) (l r : List EntryPtr) :
    p.total (l ++ r) = p.total l + p.total r := by
  rw [total, List.map_append, List.sum_append]
  rfl

theorem total_congr (h : ∀ x ∈ l, (q.entry x).sizeInPages = (p.entry x).sizeInPages) :
    q.total l = p.total l := by
  rw [total, total, List.map_congr_left h]

theorem total_pos (h : ∀ x ∈ l, 0 < (p.entry x).sizeInPages) (hne : l ≠ []) : 0 < p.total l := by
  obtain ⟨x, l, rfl⟩ := List.exists_cons_of_ne_nil hne
  have := h x List.mem_cons_self
  rw [total_cons]
  omega

/-- The link behind an entry. -/
def next (p : DmaPool) (x : EntryPtr) : Option EntryPtr := (p.entry x).nextEntry

theorem get_eq (h : p.Valid x) : p.get x = some (p.entry x) := if_pos h

theorem modify_eq (h : p.Valid x) (f : DmaEntry → DmaEntry) :
    p.modify x f = some { p with entry := Function.update p.entry x (f (p.entry x)) } := if_pos h

end

end DmaPool

/-- The extents of the pool are those of the list. -/
structure PoolShape (p : DmaPool) (ptrs : List EntryPtr) : Prop where
  /-- The first metadata page is there. -/
  header : p.dmaHeader = some ⟨0, 0⟩
  /-- A page has room for 203 extents. -/
  limit : p.dmaLimit = 203
  /-- There is an extent. -/
  entries : p.dmaEntries ≠ 0
  /-- The metadata pages lie side by side. -/
  top : p.dmaTop = dmaPoolBase + 4096 * (p.dmaMetadataPages + 1)
  /-- They are mapped, and no others. -/
  mapped : ∀ k, p.mapped k = true ↔ k ≤ p.dmaMetadataPages
  /-- Their headers are linked. -/
  headers : ∀ k, k ≤ p.dmaMetadataPages → (p.entry ⟨k, 0⟩).status = .header ∧
    p.next ⟨k, 0⟩ = if k < p.dmaMetadataPages then some ⟨k + 1, 0⟩ else none
  /-- Their counters are 64-bit numbers. -/
  counters : ∀ k, k ≤ p.dmaMetadataPages → (p.entry ⟨k, 0⟩).sizeInPages < 2 ^ 64
  /-- The extents are linked. -/
  linked : Lseg p.next p.dmaStart ptrs none
  /-- The last one is in the last page. -/
  latest : ∃ init x, ptrs = init ++ [x] ∧ p.dmaLatest = some x ∧ x.page = p.dmaMetadataPages
  /-- They are linked in the order of their addresses. -/
  sorted : ptrs.Pairwise EntryPtr.Before
  /-- They lie in the pages, behind the headers. -/
  slots : ∀ x ∈ ptrs, 1 ≤ x.slot ∧ x.slot ≤ 203 ∧ x.page ≤ p.dmaMetadataPages
  /-- A page is filled from the front. -/
  filled : ∀ x ∈ ptrs, ∀ s, 1 ≤ s → s < x.slot → (⟨x.page, s⟩ : EntryPtr) ∈ ptrs
  /-- No page is empty. -/
  first : ∀ k, k ≤ p.dmaMetadataPages → (⟨k, 1⟩ : EntryPtr) ∈ ptrs
  /-- Extents are no headers. -/
  status : ∀ x ∈ ptrs, (p.entry x).status ≠ .header
  /-- No extent is empty. -/
  size_pos : ∀ x ∈ ptrs, 0 < (p.entry x).sizeInPages

/-- The extents of the pool are those of the list, and they lie in the window. -/
structure PoolInv (p : DmaPool) (ptrs : List EntryPtr) : Prop extends PoolShape p ptrs where
  /-- The window is large enough. -/
  total_le : p.total ptrs ≤ 2 ^ 18

namespace PoolShape

variable {p q : DmaPool} {ptrs : List EntryPtr} {x : EntryPtr}

theorem valid (h : PoolShape p ptrs) (hx : x ∈ ptrs) : p.Valid x := by
  obtain ⟨-, h2, h3⟩ := h.slots x hx
  exact ⟨(h.mapped _).mpr h3, by omega⟩

theorem valid_header (h : PoolShape p ptrs) {k : Nat} (hk : k ≤ p.dmaMetadataPages) :
    p.Valid ⟨k, 0⟩ := ⟨(h.mapped k).mpr hk, show 0 < 204 by decide⟩

theorem nodup (h : PoolShape p ptrs) : ptrs.Nodup := h.sorted.imp fun hb => hb.ne

theorem ne_header (h : PoolShape p ptrs) (hx : x ∈ ptrs) (k : Nat) : x ≠ ⟨k, 0⟩ := by
  rintro rfl
  exact absurd (h.slots _ hx).1 (show ¬ 1 ≤ 0 by decide)

/-- Statuses of extents and counters of pages may change. -/
theorem of_status (h : PoolShape p ptrs) (hq : q = { p with entry := q.entry })
    (hheader : ∀ k, k ≤ p.dmaMetadataPages → (q.entry ⟨k, 0⟩).status = (p.entry ⟨k, 0⟩).status ∧
      q.next ⟨k, 0⟩ = p.next ⟨k, 0⟩ ∧ (q.entry ⟨k, 0⟩).sizeInPages < 2 ^ 64)
    (hextent : ∀ x ∈ ptrs, (q.entry x).status ≠ .header ∧
      (q.entry x).sizeInPages = (p.entry x).sizeInPages ∧ q.next x = p.next x) : PoolShape q ptrs := by
  have hM : q.dmaMetadataPages = p.dmaMetadataPages := by rw [hq]
  have hmapped : q.mapped = p.mapped := by rw [hq]
  have hlatest : q.dmaLatest = p.dmaLatest := by rw [hq]
  have hstart : q.dmaStart = p.dmaStart := by rw [hq]
  refine
    { header := by rw [hq]; exact h.header
      limit := by rw [hq]; exact h.limit
      entries := by rw [hq]; exact h.entries
      top := by rw [hM]; rw [hq]; exact h.top
      mapped := by rw [hmapped, hM]; exact h.mapped
      headers := fun k hk => ?_
      counters := fun k hk => (hheader k (hM ▸ hk)).2.2
      linked := by rw [hstart]; exact h.linked.congr fun x hx => (hextent x hx).2.2
      latest := by rw [hlatest, hM]; exact h.latest
      sorted := h.sorted
      slots := by rw [hM]; exact h.slots
      filled := h.filled
      first := by rw [hM]; exact h.first
      status := fun x hx => (hextent x hx).1
      size_pos := fun x hx => by rw [(hextent x hx).2.1]; exact h.size_pos x hx }
  rw [hM] at hk ⊢
  rw [(hheader k hk).1, (hheader k hk).2.1]
  exact h.headers k hk

end PoolShape

/-- Statuses of extents and counters of pages may change. -/
theorem PoolInv.of_status {p q : DmaPool} {ptrs : List EntryPtr} (h : PoolInv p ptrs)
    (hq : q = { p with entry := q.entry })
    (hheader : ∀ k, k ≤ p.dmaMetadataPages → (q.entry ⟨k, 0⟩).status = (p.entry ⟨k, 0⟩).status ∧
      q.next ⟨k, 0⟩ = p.next ⟨k, 0⟩ ∧ (q.entry ⟨k, 0⟩).sizeInPages < 2 ^ 64)
    (hextent : ∀ x ∈ ptrs, (q.entry x).status ≠ .header ∧
      (q.entry x).sizeInPages = (p.entry x).sizeInPages ∧ q.next x = p.next x) : PoolInv q ptrs where
  toPoolShape := h.toPoolShape.of_status hq hheader hextent
  total_le := by
    rw [DmaPool.total_congr fun x hx => (hextent x hx).2.1]
    exact h.total_le


/-! ## The search -/

namespace DmaPool

variable {p : DmaPool} {ptrs : List EntryPtr}

/-- What a search for `pages` pages finds: the run `own` of free extents, behind the extents
`pre`.  Either the run is large enough, and not without its last extent, or it is at the end. -/
structure Found (p : DmaPool) (ptrs : List EntryPtr) (pages : Nat) (s : Search)
    (pre own rest : List EntryPtr) : Prop where
  /-- Where the run is. -/
  split : ptrs = pre ++ own ++ rest
  /-- Its extents are free. -/
  free : ∀ x ∈ own, (p.entry x).status = .free
  /-- The extent in front of it is not. -/
  before : ∀ x ∈ pre.getLast?, (p.entry x).status ≠ .free
  /-- No run in front of it is large enough. -/
  small : ∀ l, l <:+: pre → (∀ x ∈ l, (p.entry x).status = .free) → p.total l < pages
  /-- The result of the search. -/
  result : s = ⟨p.total own, dmaBase + 4096 * p.total pre, own.head?⟩
  /-- How large it is. -/
  size : pages ≤ p.total own ∧ p.total own.dropLast < pages ∨ p.total own < pages ∧ rest = []

/-- A run of free extents does not reach an extent that is taken. -/
theorem infix_of_used {l r : List EntryPtr} {y : EntryPtr} (hy : (p.entry y).status ≠ .free)
    (hl : l <:+: r ++ [y]) (hfree : ∀ x ∈ l, (p.entry x).status = .free) : l <:+: r := by
  rcases List.infix_concat_iff.mp hl with hl | hl
  · rcases List.suffix_concat_iff.mp hl with rfl | ⟨t, rfl, -⟩
    · exact List.nil_infix
    · exact absurd (hfree y (by simp)) hy
  · exact hl

/-- A run of free extents in `pre ++ own` is small if those in `pre` are and `own` is, and no run goes
from one to the other. -/
theorem small_append {pre own : List EntryPtr} {pages : Nat}
    (hbefore : ∀ x ∈ pre.getLast?, (p.entry x).status ≠ .free)
    (hsmall : ∀ l, l <:+: pre → (∀ x ∈ l, (p.entry x).status = .free) → p.total l < pages)
    (hown : p.total own < pages) {l : List EntryPtr} (hl : l <:+: pre ++ own)
    (hfree : ∀ x ∈ l, (p.entry x).status = .free) : p.total l < pages := by
  have htail : ∀ {l}, l <:+: own → p.total l < pages := by
    rintro l ⟨a, b, rfl⟩
    rw [total_append, total_append] at hown
    omega
  rcases List.infix_append_iff.mp hl with hl | hl | ⟨a, b, rfl, ha, hb⟩
  · exact hsmall l hl hfree
  · exact htail hl
  · rcases List.eq_nil_or_concat pre with rfl | ⟨pre, z, rfl⟩
    · rw [List.suffix_nil.mp ha]
      exact htail hb.isInfix
    · rw [List.concat_eq_append] at hbefore ha
      rcases List.suffix_concat_iff.mp ha with rfl | ⟨t, rfl, -⟩
      · exact htail hb.isInfix
      · exact absurd (hfree z (by simp)) (hbefore z (by simp))

theorem searchLoop_spec (hvalid : ∀ x ∈ ptrs, p.Valid x) (htotal : p.total ptrs ≤ 2 ^ 18)
    {pages : Nat} :
    ∀ {rest pre own : List EntryPtr} {x : Option EntryPtr}, ptrs = pre ++ own ++ rest →
      Lseg p.next x rest none → (∀ x ∈ own, (p.entry x).status = .free) → p.total own < pages →
      (∀ x ∈ pre.getLast?, (p.entry x).status ≠ .free) →
      (∀ l, l <:+: pre → (∀ x ∈ l, (p.entry x).status = .free) → p.total l < pages) →
      ∃ r pre' own' rest', Ends (fun n => searchLoop p pages n x
        (dmaBase + 4096 * (p.total pre + p.total own))
        ⟨p.total own, dmaBase + 4096 * p.total pre, own.head?⟩) r ∧
        Found p ptrs pages r pre' own' rest'
  | [], pre, own, x, hsplit, hlink, hfree, hlt, hbefore, hsmall => by
    obtain rfl : x = none := hlink
    exact ⟨_, pre, own, [], Ends.step rfl (fun _ => rfl) (Ends.const _), hsplit, hfree, hbefore, hsmall, rfl,
      Or.inr ⟨hlt, rfl⟩⟩
  | y :: rest, pre, own, x, hsplit, hlink, hfree, hlt, hbefore, hsmall => by
    obtain ⟨rfl, hnext⟩ := hlink
    have hy : y ∈ ptrs := by
      rw [hsplit]
      simp
    have hsum : p.total pre + p.total own + ((p.entry y).sizeInPages + p.total rest) ≤ 2 ^ 18 := by
      rw [hsplit, total_append, total_append, total_cons] at htotal
      omega
    have hbase : dmaBase + 4096 * 2 ^ 18 < 2 ^ 64 := by decide
    have hbehind : (dmaBase + 4096 * (p.total pre + p.total own) + (p.entry y).sizeInPages <<< 12) %
        2 ^ 64 = dmaBase + 4096 * (p.total pre + p.total own + (p.entry y).sizeInPages) := by
      rw [Nat.shiftLeft_eq, Nat.mod_eq_of_lt (by omega)]
      omega
    by_cases hst : (p.entry y).status = .free
    · -- the run goes on with `y`
      have hbegin : (if own.head? = none then (⟨p.total own, dmaBase + 4096 * (p.total pre + p.total own),
            some y⟩ : Search) else ⟨p.total own, dmaBase + 4096 * p.total pre, own.head?⟩) =
          ⟨p.total own, dmaBase + 4096 * p.total pre, (own ++ [y]).head?⟩ := by
        cases own with
        | nil => simp
        | cons z own => simp
      have hmod : (p.total own + (p.entry y).sizeInPages) % 2 ^ 64 = p.total (own ++ [y]) := by
        rw [total_append, total_cons, total_nil, Nat.add_zero, Nat.mod_eq_of_lt (by omega)]
      have hfree' : ∀ x ∈ own ++ [y], (p.entry x).status = .free := by
        intro x hx
        rcases List.mem_append.mp hx with hx | hx
        · exact hfree x hx
        · rw [List.mem_singleton.mp hx]
          exact hst
      have hsplit' : ptrs = pre ++ (own ++ [y]) ++ rest := by
        rw [hsplit]
        simp
      have hloop : ∀ n, searchLoop p pages (n + 1) (some y) (dmaBase + 4096 * (p.total pre + p.total own))
          ⟨p.total own, dmaBase + 4096 * p.total pre, own.head?⟩ =
          if p.total (own ++ [y]) ≥ pages then
            some ⟨p.total (own ++ [y]), dmaBase + 4096 * p.total pre, (own ++ [y]).head?⟩
          else searchLoop p pages n (p.next y)
            (dmaBase + 4096 * (p.total pre + p.total (own ++ [y])))
            ⟨p.total (own ++ [y]), dmaBase + 4096 * p.total pre, (own ++ [y]).head?⟩ := by
        intro n
        rw [searchLoop, get_eq (hvalid y hy)]
        simp only [Option.bind_eq_bind, Option.bind_some, hbehind, if_pos hst]
        rw [hbegin]
        simp only [hmod]
        rw [Nat.add_assoc, show p.total own + (p.entry y).sizeInPages = p.total (own ++ [y]) by
          rw [total_append, total_cons, total_nil, Nat.add_zero]]
        rfl
      by_cases hge : p.total (own ++ [y]) ≥ pages
      · refine ⟨_, pre, own ++ [y], rest, Ends.step rfl (fun n => (hloop n).trans (if_pos hge)) (Ends.const _),
          hsplit', hfree', hbefore, hsmall, rfl, Or.inl ⟨hge, ?_⟩⟩
        rwa [List.dropLast_concat]
      · obtain ⟨r, pre', own', rest', hends, hfound⟩ := searchLoop_spec hvalid htotal hsplit' hnext hfree'
          (by omega) hbefore hsmall
        exact ⟨r, pre', own', rest', Ends.step rfl (fun n => (hloop n).trans (if_neg hge)) hends, hfound⟩
    · -- the run ends before `y`
      have hsplit' : ptrs = pre ++ own ++ [y] ++ [] ++ rest := by
        rw [hsplit]
        simp
      obtain ⟨r, pre', own', rest', hends, hfound⟩ := searchLoop_spec hvalid htotal hsplit' hnext (by simp)
        (Nat.zero_lt_of_lt hlt) (by simpa using hst) fun l hl hfree =>
          small_append hbefore hsmall hlt (infix_of_used hst hl hfree) hfree
      refine ⟨r, pre', own', rest', Ends.step rfl (fun n => ?_) hends, hfound⟩
      rw [searchLoop, get_eq (hvalid y hy)]
      simp only [Option.bind_eq_bind, Option.bind_some, hbehind, if_neg hst, total_append, total_cons,
        total_nil, Nat.add_zero, List.head?_nil]
      rfl

/-- **The search finds a run of free extents**, the first that is large enough. -/
theorem search_spec (h : PoolInv p ptrs) {pages : Nat} (hpos : 0 < pages) :
    ∃ s pre own rest, Ends (fun n => p.search n pages) s ∧ Found p ptrs pages s pre own rest :=
  @searchLoop_spec p ptrs (fun x hx => h.valid hx) h.total_le pages ptrs [] [] _ rfl h.linked (by simp)
    hpos (by simp) fun l hl _ => by
      rw [List.eq_nil_of_infix_nil hl]
      exact hpos

/-! ## Taking extents -/

/-- The extents of a list get a new status. -/
def mark (p : DmaPool) (l : List EntryPtr) (status : DmaStatus) : DmaPool :=
  { p with entry := fun x => if x ∈ l then { p.entry x with status := status } else p.entry x }

section

variable {l own : List EntryPtr} {st : DmaStatus} {x y : EntryPtr}

theorem mark_nil (p : DmaPool) (st : DmaStatus) : p.mark [] st = p := by
  simp [mark]

theorem mark_mark (p : DmaPool) (y : EntryPtr) (l : List EntryPtr) (st : DmaStatus) :
    (p.mark [y] st).mark l st = p.mark (y :: l) st := by
  simp only [mark, mk.injEq, and_true]
  funext x
  by_cases hx : x = y <;> by_cases hl : x ∈ l <;> simp [hx, hl]

theorem modify_status (h : p.Valid x) :
    (p.modify x fun e => { e with status := st }) = some (p.mark [x] st) := by
  rw [modify_eq h, mark]
  congr 2
  funext y
  by_cases hy : y = x
  · subst hy
    simp
  · simp [hy]

theorem mark_next (p : DmaPool) (l : List EntryPtr) (st : DmaStatus) : (p.mark l st).next = p.next := by
  funext x
  rw [next, mark]
  simp only
  split <;> rfl

theorem mark_size (p : DmaPool) (l : List EntryPtr) (st : DmaStatus) (x : EntryPtr) :
    ((p.mark l st).entry x).sizeInPages = (p.entry x).sizeInPages := by
  rw [mark]
  simp only
  split <;> rfl

theorem mark_valid : (p.mark l st).Valid x ↔ p.Valid x := Iff.rfl

theorem mark_entry_of_mem (h : x ∈ l) : (p.mark l st).entry x = { p.entry x with status := st } :=
  if_pos h

theorem mark_entry_of_notMem (h : x ∉ l) : (p.mark l st).entry x = p.entry x := if_neg h

theorem mark_total (p : DmaPool) (l : List EntryPtr) (st : DmaStatus) (l' : List EntryPtr) :
    (p.mark l st).total l' = p.total l' := total_congr fun x _ => mark_size p l st x

/-- A run that is large enough, but not without its last extent, is taken as a whole. -/
theorem takeRun_spec {pages : Nat} {b : Option EntryPtr} :
    ∀ {own : List EntryPtr} {claimed : Nat} {x : Option EntryPtr} {p : DmaPool},
      (∀ y ∈ own, p.Valid y) → Lseg p.next x own b →
      pages ≤ claimed + p.total own → (own ≠ [] → claimed + p.total own.dropLast < pages) →
      claimed + p.total own < 2 ^ 64 →
      Ends (fun n => takeRun pages n x claimed p) (own, p.mark own .used)
  | [], claimed, x, p, _, _, hge, _, _ => by
    rw [total_nil] at hge
    rw [mark_nil]
    refine Ends.step rfl (fun n => ?_) (Ends.const _)
    rw [takeRun, if_neg (by omega)]
    rfl
  | y :: own, claimed, x, p, hvalid, hlink, hge, hlt, hsum => by
    obtain ⟨rfl, hnext⟩ := hlink
    have hlt' := hlt (by simp)
    rw [total_cons] at hge hsum
    have hmod : (claimed + (p.entry y).sizeInPages) % 2 ^ 64 = claimed + (p.entry y).sizeInPages :=
      Nat.mod_eq_of_lt (by omega)
    have hlink : Lseg (p.mark [y] .used).next ((p.mark [y] .used).next y) own b := by
      rw [mark_next]
      exact hnext
    have hrest := @takeRun_spec pages b own (claimed + (p.entry y).sizeInPages) _ (p.mark [y] .used)
      (fun z hz => mark_valid.mpr (hvalid z (List.mem_cons_of_mem _ hz))) hlink
      (by rw [mark_total]; omega) (fun hne => by
        rw [mark_total]
        rw [List.dropLast_cons_of_ne_nil hne, total_cons] at hlt'
        omega) (by rw [mark_total]; omega)
    rw [← mark_mark]
    refine Ends.step rfl (fun n => ?_) (hrest.map fun t => (y :: t.1, t.2))
    rw [takeRun, if_pos (Nat.lt_of_le_of_lt (Nat.le_add_right _ _) hlt')]
    simp only [Option.bind_eq_bind, Option.bind_some, modify_status (hvalid y List.mem_cons_self),
      mark_size, hmod]
    exact Option.map_eq_bind.symm

/-- The extents in front of `stop` are taken. -/
theorem takeUntil_spec {stop : EntryPtr} :
    ∀ {own : List EntryPtr} {x : Option EntryPtr} {p : DmaPool},
      (∀ y ∈ own, p.Valid y) → Lseg p.next x own (some stop) → stop ∉ own →
      Ends (fun n => takeUntil stop n x p) (own, p.mark own .used)
  | [], x, p, _, hlink, _ => by
    obtain rfl : x = some stop := hlink
    rw [mark_nil]
    exact Ends.step rfl (fun n => by rw [takeUntil, if_pos rfl]; rfl) (Ends.const _)
  | y :: own, x, p, hvalid, hlink, hstop => by
    obtain ⟨rfl, hnext⟩ := hlink
    have hne : y ≠ stop := fun hc => hstop (hc ▸ List.mem_cons_self)
    have hlink : Lseg (p.mark [y] .used).next ((p.mark [y] .used).next y) own (some stop) := by
      rw [mark_next]
      exact hnext
    have hrest := takeUntil_spec (p := p.mark [y] .used)
      (fun z hz => mark_valid.mpr (hvalid z (List.mem_cons_of_mem _ hz))) hlink
      (fun hc => hstop (List.mem_cons_of_mem _ hc))
    rw [← mark_mark]
    refine Ends.step rfl (fun n => ?_) (hrest.map fun t => (y :: t.1, t.2))
    rw [takeUntil, if_neg (by simpa using hne)]
    simp only [Option.bind_eq_bind, Option.bind_some, modify_status (hvalid y List.mem_cons_self)]
    exact Option.map_eq_bind.symm

end

end DmaPool

/-- Taking or freeing extents keeps the list. -/
theorem PoolShape.mark {p : DmaPool} {ptrs own : List EntryPtr} (h : PoolShape p ptrs)
    (hown : ∀ x ∈ own, x ∈ ptrs) {st : DmaStatus} (hst : st ≠ .header) :
    PoolShape (p.mark own st) ptrs := by
  refine h.of_status rfl (fun k hk => ?_) fun x hx => ⟨?_, DmaPool.mark_size _ _ _ _, ?_⟩
  · rw [DmaPool.mark_entry_of_notMem fun hc => h.ne_header (hown _ hc) k rfl, DmaPool.mark_next]
    exact ⟨rfl, rfl, h.counters k hk⟩
  · by_cases hm : x ∈ own
    · rw [DmaPool.mark_entry_of_mem hm]
      exact hst
    · rw [DmaPool.mark_entry_of_notMem hm]
      exact h.status x hx
  · rw [DmaPool.mark_next]

theorem PoolInv.mark {p : DmaPool} {ptrs own : List EntryPtr} (h : PoolInv p ptrs)
    (hown : ∀ x ∈ own, x ∈ ptrs) {st : DmaStatus} (hst : st ≠ .header) :
    PoolInv (p.mark own st) ptrs where
  toPoolShape := h.toPoolShape.mark hown hst
  total_le := by
    rw [DmaPool.mark_total]
    exact h.total_le

end Dem64
