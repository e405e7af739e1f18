import Dem64.Dma.Backing
import Mathlib.Algebra.Order.BigOperators.Group.List

/-!
# Allocations without frees

When nothing is given back, no extent is ever free: `allocate_dma` adds one extent after the other, a metadata
page is full when its counter is zero, and the extent of call `k` is entry `k % 203 + 1` of page `k / 203`.
`Lined` says that of the pool, and `Growing` adds the metadata pages and the buffers as regions of the arena.
-/

set_option autoImplicit false

namespace Dem64

/-! ## The pool -/

/-- Where the extent of call `k` is. -/
def entryOf (k : Nat) : EntryPtr := ⟨k / 203, k % 203 + 1⟩

/-- The extents of the first `k` calls. -/
def entriesTo (k : Nat) : List EntryPtr := (List.range k).map entryOf

theorem entriesTo_succ (k : Nat) : entriesTo (k + 1) = entriesTo k ++ [entryOf k] := by
  rw [entriesTo, List.range_succ, List.map_append]
  rfl

/-- The next extent is behind the last one, or the first of the next page. -/
theorem entryOf_succ (k : Nat) : entryOf (k + 1) =
    if (entryOf k).slot < 203 then (entryOf k).succ else ⟨(entryOf k).page + 1, 1⟩ := by
  have hslot : (entryOf k).slot = k % 203 + 1 := rfl
  split
  · simp only [entryOf, EntryPtr.succ, EntryPtr.mk.injEq]
    omega
  · simp only [entryOf, EntryPtr.mk.injEq]
    omega

/-- An element of a list with one element more. -/
theorem getElem?_concat {α : Type} {l : List α} {a b : α} {k : Nat} (h : (l ++ [a])[k]? = some b) :
    l[k]? = some b ∨ k = l.length ∧ b = a := by
  rcases Nat.lt_or_ge k l.length with hlt | hge
  · rw [List.getElem?_append_left hlt] at h
    exact .inl h
  · rw [List.getElem?_append_right hge] at h
    obtain ⟨hk, hb⟩ := List.getElem?_eq_some_iff.mp h
    rw [List.length_singleton] at hk
    exact .inr ⟨by omega, by simpa using hb.symm⟩

/-- The extents of the pool are those of calls for `ns` pages, none of which was given back. -/
structure Lined (p : DmaPool) (ns : List Nat) : Prop where
  /-- The extents are in the order of the calls. -/
  inv : PoolInv p (entriesTo ns.length)
  /-- They are taken, and have the sizes of the calls. -/
  used : ∀ k n, ns[k]? = some n →
    (p.entry (entryOf k)).status = .used ∧ (p.entry (entryOf k)).sizeInPages = n
  /-- Together they are as large. -/
  total : p.total (entriesTo ns.length) = ns.sum
  /-- The pages but the last are full, and the last has the extents of the last calls. -/
  counters : ∀ j, j ≤ p.dmaMetadataPages → (p.entry ⟨j, 0⟩).sizeInPages =
    if j < p.dmaMetadataPages then 0 else 203 - (entryOf (ns.length - 1)).slot
  /-- There is a call. -/
  nonempty : 0 < ns.length

namespace Lined

open DmaPool

variable {p q : DmaPool} {ns : List Nat} {n j : Nat} {fresh : EntryPtr → DmaEntry}

/-- The extent of the last call is the last one. -/
theorem latest (h : Lined p ns) : p.dmaLatest = some (entryOf (ns.length - 1)) ∧
    p.dmaMetadataPages = (entryOf (ns.length - 1)).page := by
  obtain ⟨init, x, hsplit, hx, hpage⟩ := h.inv.latest
  have hlen : ns.length = ns.length - 1 + 1 := (Nat.sub_add_cancel h.nonempty).symm
  rw [hlen, entriesTo_succ] at hsplit
  obtain ⟨-, heq⟩ := List.append_inj' hsplit rfl
  obtain rfl : entryOf (ns.length - 1) = x := (List.cons.inj heq).1
  exact ⟨hx, hpage.symm⟩

theorem next_entry (h : Lined p ns) : entryOf ns.length =
    if (entryOf (ns.length - 1)).slot < 203 then (entryOf (ns.length - 1)).succ
    else ⟨p.dmaMetadataPages + 1, 1⟩ := by
  rw [h.latest.2, ← entryOf_succ, Nat.sub_add_cancel h.nonempty]

/-- All extents are taken. -/
theorem status_used (h : Lined p ns) {x : EntryPtr} (hx : x ∈ entriesTo ns.length) :
    (p.entry x).status = .used := by
  obtain ⟨k, hk, rfl⟩ := List.mem_map.mp hx
  rw [List.mem_range] at hk
  exact (h.used k ns[k] (List.getElem?_eq_getElem hk)).1

/-- The search finds nothing. -/
theorem search (h : Lined p ns) (hpos : 0 < n) :
    Ends (fun i => p.search i n) ⟨0, dmaBase + 4096 * ns.sum, none⟩ ∧
      Found p (entriesTo ns.length) n ⟨0, dmaBase + 4096 * ns.sum, none⟩ (entriesTo ns.length) [] [] := by
  obtain ⟨s, pre, own, rest, hs, hf⟩ := search_spec h.inv hpos
  have hnil : own = [] := by
    refine List.eq_nil_iff_forall_not_mem.mpr fun x hx => ?_
    have hused := h.status_used (x := x) (by rw [hf.split]; simp [hx])
    rw [hf.free x hx] at hused
    cases hused
  subst hnil
  have hrest : rest = [] := (hf.size.resolve_left fun hc => by
    have := total_nil p
    omega).2
  subst hrest
  have hpre : entriesTo ns.length = pre := by rw [hf.split, List.append_nil, List.append_nil]
  subst hpre
  have hres := hf.result
  rw [h.total, total_nil] at hres
  subst hres
  exact ⟨hs, hf⟩

/-- There are at most as many calls as pages. -/
theorem length_le (h : Lined p ns) : ns.length ≤ ns.sum := by
  refine List.length_le_sum_of_one_le ns fun n hn => ?_
  obtain ⟨k, hk, rfl⟩ := List.getElem_of_mem hn
  have hpos := h.inv.size_pos (entryOf k) (List.mem_map_of_mem (List.mem_range.mpr hk))
  rwa [(h.used k _ (List.getElem?_eq_getElem hk)).2] at hpos

/-- The pool with one extent more. -/
theorem grow (h : Lined p ns) (hg : Grown p (entriesTo ns.length) (entryOf ns.length) n j q)
    (hj : j = (entryOf ns.length).page) (hle : ns.sum + n ≤ 2 ^ 18) : Lined q (ns ++ [n]) := by
  have hlen : (ns ++ [n]).length = ns.length + 1 := by rw [List.length_append, List.length_singleton]
  have hmem : ∀ {k}, k < ns.length → entryOf k ∈ entriesTo ns.length := fun hk =>
    List.mem_map_of_mem (List.mem_range.mpr hk)
  have htotal : q.total (entriesTo (ns ++ [n]).length) = (ns ++ [n]).sum := by
    rw [hlen, entriesTo_succ, total_append, total_congr fun x hx => (hg.kept x hx).2, h.total, total_cons,
      total_nil, hg.new, List.sum_append, List.sum_singleton]
    rfl
  refine ⟨⟨by rw [hlen, entriesTo_succ]; exact hg.inv, by rw [htotal, List.sum_append, List.sum_singleton]; exact hle⟩,
    fun k m hk => ?_, htotal, fun i hi => ?_, by omega⟩
  · rcases getElem?_concat hk with hk | ⟨rfl, rfl⟩
    · obtain ⟨h1, h2⟩ := h.used k m hk
      obtain ⟨h3, h4⟩ := hg.kept _ (hmem (List.getElem?_eq_some_iff.mp hk).1)
      exact ⟨h3.trans h1, h4.trans h2⟩
    · rw [hg.new]
      exact ⟨rfl, rfl⟩
  · obtain ⟨-, hpage⟩ := h.latest
    have hnext := h.next_entry
    rw [hlen, Nat.add_sub_cancel]
    rcases hg.page with ⟨hM, hjM, hy⟩ | ⟨hM, hj', hy, hnew⟩
    · -- the last page has one extent more
      rw [hM] at hi ⊢
      have hslot : (entryOf (ns.length - 1)).slot < 203 := by
        by_contra hfull
        rw [hnext, if_neg hfull] at hy
        exact absurd hy (by simp)
      rw [if_pos hslot] at hnext
      rw [hg.counters i hi, h.counters i hi, hj, hy]
      split
      · rename_i heq
        subst heq
        rw [if_neg (lt_irrefl _), if_neg (lt_irrefl _), hnext, EntryPtr.succ]
        simp only
        have : 1 ≤ (entryOf (ns.length - 1)).slot := Nat.succ_pos _
        omega
      · rw [if_pos (by omega), if_pos (by omega)]
    · rw [hM] at hi ⊢
      have hslot : ¬ (entryOf (ns.length - 1)).slot < 203 := by
        intro hslot
        rw [hnext, if_pos hslot, EntryPtr.mk.injEq] at hy
        have : p.dmaMetadataPages = j := hpage.trans hy.1
        omega
      rcases Nat.lt_or_ge i (p.dmaMetadataPages + 1) with hlt | hge
      · rw [hg.counters i (by omega), if_neg (by omega), h.counters i (by omega), if_pos hlt]
        split
        · rfl
        · omega
      · obtain rfl : i = j := by omega
        rw [hnew, if_neg (by omega), hy]
        rfl

/-- There is room in the last page. -/
theorem carve (h : Lined p ns) (hroom : (entryOf (ns.length - 1)).slot < 203) (hpos : 0 < n)
    (hle : ns.sum + n ≤ 2 ^ 18) : Ends (fun i => p.room i) (.page ⟨p.dmaMetadataPages, 0⟩) ∧
    ∃ q, p.carve ⟨p.dmaMetadataPages, 0⟩ n = some (entryOf ns.length, q) ∧
      Grown p (entriesTo ns.length) (entryOf ns.length) n p.dmaMetadataPages q ∧ Lined q (ns ++ [n]) := by
  obtain ⟨hlatest, hpage⟩ := h.latest
  have hcounter := h.counters p.dmaMetadataPages (le_refl _)
  rw [if_neg (lt_irrefl _)] at hcounter
  have hslot : 1 ≤ (entryOf (ns.length - 1)).slot := Nat.succ_pos _
  have hnext := h.next_entry
  rw [if_pos hroom] at hnext
  constructor
  · obtain ⟨r, hends, hr⟩ := room_spec h.inv.toPoolShape
    rcases hr with ⟨i, rfl, hi, hne, -⟩ | ⟨-, hzero⟩
    · have hcount := h.counters i hi
      obtain rfl : i = p.dmaMetadataPages := by
        by_contra hc
        rw [if_pos (by omega)] at hcount
        rw [hcount] at hne
        exact hne rfl
      exact hends
    · have := hzero p.dmaMetadataPages (le_refl _)
      omega
  · obtain ⟨q, hcarve, hg⟩ := carve_spec h.inv.toPoolShape hlatest hroom (le_refl p.dmaMetadataPages)
      (.inl (by omega)) hpos
    rw [← hnext] at hcarve hg
    exact ⟨q, hcarve, hg, h.grow hg (by rw [hnext]; exact hpage) hle⟩

/-- The last page is full. -/
theorem addPage (h : Lined p ns) (hfull : ¬ (entryOf (ns.length - 1)).slot < 203) (hpos : 0 < n)
    (hle : ns.sum + n ≤ 2 ^ 18) (fresh : EntryPtr → DmaEntry) :
    Ends (fun i => p.room i) (.full ⟨p.dmaMetadataPages, 0⟩) ∧
    ∃ p₁ q, p.addPage ⟨p.dmaMetadataPages, 0⟩ fresh = some (⟨p.dmaMetadataPages + 1, 0⟩, p₁) ∧
      p₁.carve ⟨p.dmaMetadataPages + 1, 0⟩ n = some (entryOf ns.length, q) ∧
      Grown p (entriesTo ns.length) (entryOf ns.length) n (p.dmaMetadataPages + 1) q ∧ Lined q (ns ++ [n]) := by
  have hzero : ∀ i, i ≤ p.dmaMetadataPages → (p.entry ⟨i, 0⟩).sizeInPages = 0 := by
    intro i hi
    rw [h.counters i hi]
    split
    · rfl
    · omega
  have hnext := h.next_entry
  rw [if_neg hfull] at hnext
  constructor
  · obtain ⟨r, hends, hr⟩ := room_spec h.inv.toPoolShape
    rcases hr with ⟨i, rfl, hi, hne, -⟩ | ⟨rfl, -⟩
    · rw [hzero i hi] at hne
      exact absurd rfl hne
    · exact hends
  · obtain ⟨p₁, q, hadd, hcarve, hg⟩ := addPage_spec h.inv.toPoolShape fresh hpos
    rw [← hnext] at hcarve hg
    exact ⟨p₁, q, hadd, hcarve, hg, h.grow hg (by rw [hnext]) hle⟩

/-- The first extent. -/
theorem first (h : p.Empty) (fresh : EntryPtr → DmaEntry) (hpos : 0 < n) (hle : n ≤ 2 ^ 18) :
    ∃ p₁ q, p.openPool fresh = some p₁ ∧ p₁.dmaEntries = 0 ∧ p₁.firstClaim n = some (entryOf 0, q) ∧
      q.dmaMetadataPages = 0 ∧ Lined q [n] := by
  obtain ⟨p₁, q, hopen, hentries, hclaim, hc, hM, hnew, hcounter⟩ := firstClaim_spec h fresh hpos
  have htotal : q.total [entryOf 0] = n := by
    rw [total_cons, total_nil]
    show (q.entry ⟨0, 1⟩).sizeInPages + 0 = n
    rw [hnew, Nat.add_zero]
  refine ⟨p₁, q, hopen, hentries, hclaim, hM, ⟨hc.inv, by show q.total [entryOf 0] ≤ _; omega⟩, fun k m hk => ?_,
    htotal, fun j hj => ?_, Nat.one_pos⟩
  · obtain ⟨hk0, hm⟩ := List.getElem?_eq_some_iff.mp hk
    obtain rfl : k = 0 := by simpa using hk0
    show (q.entry ⟨0, 1⟩).status = .used ∧ (q.entry ⟨0, 1⟩).sizeInPages = m
    rw [hnew]
    exact ⟨rfl, hm⟩
  · obtain rfl : j = 0 := by omega
    rw [hcounter, if_neg (by omega)]
    rfl

end Lined

/-! ## The calls -/

section

variable (pml4 : Nat)

/-- There are frames for a buffer at `va`, and for the tables that map it. -/
def Backable (m : Machine) (va pages : Nat) : Prop :=
  (allocFrame m.frames pages).1.attr = 0 ∧
    NoFail m (createMapping { m with frames := (allocFrame m.frames pages).2 } va
      (allocFrame m.frames pages).1.physicalStart pages 0x03 pml4)

instance (m : Machine) (va pages : Nat) : Decidable (Backable pml4 m va pages) :=
  inferInstanceAs (Decidable (_ ∧ _))

/-- `vmalloc` and `alloc_frame` succeed in a call, also where a page table is needed. -/
structure Supplied (fresh : EntryPtr → DmaEntry) (w : DmaWorld) (size : Nat) : Prop where
  /-- The first metadata page is there, or can be had. -/
  header : ∀ n ok w₁, ensureHeader pml4 n fresh w = some (ok, w₁) → ok = true ∧ NoFail w.machine w₁.machine
  /-- So can another one, if it is needed. -/
  extents : ∀ n w₁ c w₂, ensureHeader pml4 n fresh w = some (true, w₁) →
    claimExtents pml4 n fresh w₁ (dmaPages size) = some (c, w₂) → c ≠ none ∧ NoFail w₁.machine w₂.machine
  /-- There are frames for the buffer, and for the tables that map it. -/
  frames : ∀ n w₁ c w₂, ensureHeader pml4 n fresh w = some (true, w₁) →
    claimExtents pml4 n fresh w₁ (dmaPages size) = some (some c, w₂) →
    Backable pml4 w₂.machine c.base (dmaPages size)

/-- Calls of `allocate_dma`, with what they return, and no calls of `free_dma`. -/
inductive DmaGrowth (w₀ : DmaWorld) : List (Nat × DmaRet) → DmaWorld → Prop
  /-- No call yet. -/
  | boot : DmaGrowth w₀ [] w₀
  /-- One call more. -/
  | call {calls : List (Nat × DmaRet)} {w w' : DmaWorld} {fresh : EntryPtr → DmaEntry} {n size : Nat} {ret : DmaRet}
      {own : List EntryPtr} (h : DmaGrowth w₀ calls w) (hs : Supplied pml4 fresh w size)
      (hcall : allocateDma pml4 n fresh w size = some (ret, own, w')) : DmaGrowth w₀ (calls ++ [(size, ret)]) w'

/-- At boot nothing is mapped in the arena of the allocator. -/
structure DmaBoot (base : Set Nat) (w : DmaWorld) : Prop where
  /-- There are no extents. -/
  pool : w.pool.Empty
  /-- Not even a first one. -/
  start : w.pool.dmaStart = none
  /-- The PML4. -/
  pml4_ne : pml4 ≠ 0
  /-- The pages. -/
  arena : Arena (pml4 >>> 12) dmaLo dmaHi w.machine []
  /-- The frames. -/
  stock : Stock base (pml4 >>> 12) w.machine []

/-- The frames of a buffer. -/
def DmaRet.frames (ret : DmaRet) : Set Nat :=
  Set.Ico (ret.physicalAddress / 4096) (ret.physicalAddress / 4096 + ret.sizeInPages)

/-- The pages of the calls. -/
def pagesOf (calls : List (Nat × DmaRet)) : List Nat := calls.map fun c => dmaPages c.1

/-- What is mapped after some calls: the metadata pages, and a buffer for each call. -/
structure Backings (base : Set Nat) (calls : List (Nat × DmaRet)) (w : DmaWorld) (f : Nat → Nat)
    (bs : List Region) : Prop where
  /-- The pages. -/
  arena : Arena (pml4 >>> 12) dmaLo dmaHi w.machine (metaRegions f (w.pool.dmaMetadataPages + 1) ++ bs)
  /-- The frames. -/
  stock : Stock base (pml4 >>> 12) w.machine (metaRegions f (w.pool.dmaMetadataPages + 1) ++ bs)
  /-- The buffers are in the window, in front of what the next call will return. -/
  below : ∀ r ∈ bs, r.page + r.count ≤ dmaLo + (pagesOf calls).sum
  /-- Each call has its own. -/
  buffers : ∀ c ∈ calls, ∃ r ∈ bs, r.frames = c.2.frames

/-- The addresses that the calls return lie one behind the other. -/
def InRow (calls : List (Nat × DmaRet)) : Prop :=
  ∀ (k : Nat) (c : Nat × DmaRet), calls[k]? = some c →
    c.2.status = 0 ∧ c.2.virtualAddress = dmaBase + 4096 * ((pagesOf calls).take k).sum

/-- The state after some calls. -/
inductive Growing (base : Set Nat) : List (Nat × DmaRet) → DmaWorld → Prop
  /-- There was none. -/
  | boot {w : DmaWorld} (h : DmaBoot pml4 base w) : Growing base [] w
  /-- There were some. -/
  | lined {calls : List (Nat × DmaRet)} {w : DmaWorld} {f : Nat → Nat} {bs : List Region} (hpml4 : pml4 ≠ 0)
      (hl : Lined w.pool (pagesOf calls)) (hb : Backings pml4 base calls w f bs) (hr : InRow calls) :
      Growing base calls w

end

section

open DmaPool

variable {base : Set Nat} {pml4 n size : Nat} {fresh : EntryPtr → DmaEntry} {w w' w₁ w₂ : DmaWorld}
  {calls : List (Nat × DmaRet)} {ret : DmaRet} {f : Nat → Nat} {bs : List Region} {c : Claim}

theorem pagesOf_concat (calls : List (Nat × DmaRet)) (size : Nat) (ret : DmaRet) :
    pagesOf (calls ++ [(size, ret)]) = pagesOf calls ++ [dmaPages size] := by
  rw [pagesOf, List.map_append]
  rfl

/-- The call is made of its three parts. -/
theorem allocateDma_ends {r : DmaRet × DmaWorld} (hh : Ends (fun n => ensureHeader pml4 n fresh w) (true, w₁))
    (hc : Ends (fun n => claimExtents pml4 n fresh w₁ (dmaPages size)) (some c, w₂))
    (hb : backClaim pml4 w₂ (dmaPages size) c = some r) :
    Ends (fun n => allocateDma pml4 n fresh w size) (r.1, c.extents, r.2) := by
  refine hh.andThen (fun n => rfl) (hc.andThen (fun n => rfl) ?_)
  refine (Ends.const _).congr fun n => ?_
  simp only [hb, Option.bind_eq_bind, Option.bind_some]
  rfl

/-- Another address in the row. -/
theorem InRow.concat (h : InRow calls) (hstatus : ret.status = 0)
    (hbase : ret.virtualAddress = dmaBase + 4096 * (pagesOf calls).sum) : InRow (calls ++ [(size, ret)]) := by
  intro k c hk
  have hlen : (pagesOf calls).length = calls.length := List.length_map _
  rw [pagesOf_concat]
  rcases getElem?_concat hk with hk | ⟨rfl, rfl⟩
  · rw [List.take_append_of_le_length (by rw [hlen]; exact (List.getElem?_eq_some_iff.mp hk).1.le)]
    exact h k c hk
  · rw [← hlen, List.take_left]
    exact ⟨hstatus, hbase⟩

/-- One metadata page more. -/
theorem metaRegions_push {k g : Nat} : ∃ f', (⟨dmaLo + 2 ^ 18 + k, 1, g⟩ :: metaRegions f k : List Region).Perm
    (metaRegions f' (k + 1)) := by
  let f' := Function.update f k g
  have hsame : metaRegions f k = metaRegions f' k := by
    refine List.map_congr_left fun i hi => ?_
    rw [metaRegion, metaRegion, show f' i = f i from Function.update_of_ne (List.mem_range.mp hi).ne g f]
  have hnew : (⟨dmaLo + 2 ^ 18 + k, 1, g⟩ : Region) = metaRegion f' k := by
    rw [metaRegion, show f' k = g from Function.update_self k g f]
  refine ⟨f', ?_⟩
  rw [hsame, hnew]
  exact metaRegions_succ f' k

/-- A metadata page is mapped behind the others. -/
theorem vmalloc_metaPage {m m' : Machine} {d : MemoryDescriptor} {k : Nat}
    (hA : Arena (pml4 >>> 12) dmaLo dmaHi m (metaRegions f k ++ bs))
    (hS : Stock base (pml4 >>> 12) m (metaRegions f k ++ bs)) (hpml4 : pml4 ≠ 0) (hk : k < 2 ^ 18)
    (hbelow : ∀ r ∈ bs, r.page + r.count ≤ dmaLo + 2 ^ 18)
    (hv : vmalloc n m (dmaPoolBase + 4096 * k) 1 0x03 pml4 = some (d, m')) (hd : d.attr = 0) (hno : NoFail m m') :
    ∃ f', Arena (pml4 >>> 12) dmaLo dmaHi m' (metaRegions f' (k + 1) ++ bs) ∧
      Stock base (pml4 >>> 12) m' (metaRegions f' (k + 1) ++ bs) := by
  obtain ⟨hrange, hpage, hend⟩ := dma_range (k := 2 ^ 18 + k) (n := 1) (le_refl 1) (by omega)
  have hbase : dmaPoolBase + 4096 * k = dmaBase + 4096 * (2 ^ 18 + k) := by
    rw [Nat.mul_add, ← Nat.add_assoc]
    rfl
  rw [← Nat.add_assoc] at hpage
  rw [← hbase] at hrange hpage hend
  have hin : dmaLo ≤ pageOf (dmaPoolBase + 4096 * k) ∧ pageOf (dmaPoolBase + 4096 * k) + 1 ≤ dmaHi := by
    have hle : 2 ^ 18 + (k + 1) ≤ 2 ^ 19 := by omega
    rw [hpage, Nat.add_assoc, Nat.add_assoc]
    exact ⟨Nat.le_add_right _ _, Nat.add_le_add_left hle dmaLo⟩
  have hvacant : ∀ r ∈ metaRegions f k ++ bs, pageOf (dmaPoolBase + 4096 * k) ∉ r.pages := by
    intro r hr
    rw [hpage, Region.notMem_pages]
    rcases List.mem_append.mp hr with hr | hr
    · obtain ⟨i, hi, rfl⟩ := List.mem_map.mp hr
      have := List.mem_range.mp hi
      simp only [metaRegion]
      omega
    · have := hbelow r hr
      omega
  obtain ⟨g, hA', hS'⟩ := vmalloc_one hA hS hpml4 hrange hend hin hvacant hv hd hno
  rw [hpage] at hA' hS'
  obtain ⟨f', hperm⟩ := @metaRegions_push f k g
  exact ⟨f', hA'.perm (hperm.append_right bs), hS'.perm (hperm.append_right bs)⟩

/-- Frames are put behind the extent of a new call. -/
theorem Growing.finish (hpml4 : pml4 ≠ 0) (hl : Lined w.pool (pagesOf calls ++ [dmaPages size]))
    (hb : Backings pml4 base calls w f bs) (hr : InRow calls) (hbase : c.base = dmaBase + 4096 * (pagesOf calls).sum)
    (hpos : 0 < dmaPages size) (hle : (pagesOf calls).sum + dmaPages size ≤ 2 ^ 18)
    (hframes : Backable pml4 w.machine c.base (dmaPages size)) :
    ∃ ret w', backClaim pml4 w (dmaPages size) c = some (ret, w') ∧
      Growing pml4 base (calls ++ [(size, ret)]) w' := by
  obtain ⟨g, w', hback, hpool, -, hA, hS⟩ := backClaim_spec hb.arena hb.stock hpml4 hpos hbase hle (fun r hr v hv => by
    obtain ⟨h1, h2⟩ := hv
    rcases List.mem_append.mp hr with hr | hr
    · obtain ⟨i, -, rfl⟩ := List.mem_map.mp hr
      simp only [metaRegion] at h1
      omega
    · have := hb.below r hr
      omega) hframes.1 hframes.2
  refine ⟨_, w', hback, @Growing.lined _ _ _ _ f (⟨dmaLo + (pagesOf calls).sum, dmaPages size, g⟩ :: bs) hpml4
    (by rw [pagesOf_concat, hpool]; exact hl) ⟨?_, ?_, fun r hr => ?_, fun c' hc' => ?_⟩ (hr.concat rfl hbase)⟩
  · rw [hpool]
    exact hA.perm List.perm_middle.symm
  · rw [hpool]
    exact hS.perm List.perm_middle.symm
  · rw [pagesOf_concat, List.sum_append, List.sum_singleton]
    rcases List.mem_cons.mp hr with rfl | hr
    · simp only
      omega
    · have := hb.below r hr
      omega
  · rcases List.mem_append.mp hc' with hc' | hc'
    · obtain ⟨r, hr, hframes⟩ := hb.buffers c' hc'
      exact ⟨r, List.mem_cons_of_mem _ hr, hframes⟩
    · rw [List.mem_singleton.mp hc']
      refine ⟨_, List.mem_cons_self, ?_⟩
      rw [Region.frames, DmaRet.frames]
      simp only
      rw [Nat.mul_div_cancel_left g (by decide)]

/-- The first metadata page. -/
theorem ensureHeader_ends (h : w.pool.dmaHeader = none) {d : MemoryDescriptor} {m : Machine} {p₁ : DmaPool}
    (hv : Ends (fun n => vmalloc n w.machine dmaPoolBase 1 0x03 pml4) (d, m))
    (hopen : w.pool.openPool fresh = some p₁) : Ends (fun n => ensureHeader pml4 n fresh w)
      (if d.attr ≠ 0 then (false, { w with machine := m }) else (true, { w with machine := m, pool := p₁ })) := by
  refine hv.andThen (fun n => if_pos h) ?_
  simp only [hopen]
  split
  · exact Ends.const _
  · exact Ends.const _

/-- The first extent needs no page of its own. -/
theorem claimExtents_first {q : DmaPool} {x : EntryPtr} {pages : Nat} (hentries : w.pool.dmaEntries = 0)
    (hclaim : w.pool.firstClaim pages = some (x, q)) :
    claimExtents pml4 n fresh w pages = some (some ⟨dmaBase, some x, [x]⟩, { w with pool := q }) := by
  rw [claimExtents, if_pos hentries]
  exact (congrArg (Option.bind · _) hclaim).trans rfl

/-- The first call. -/
theorem Growing.first (h : DmaBoot pml4 base w) (hs : Supplied pml4 fresh w size) (hpos : 0 < dmaPages size)
    (hle : dmaPages size ≤ 2 ^ 18) : ∃ ret own w', Ends (fun n => allocateDma pml4 n fresh w size) (ret, own, w') ∧
      Growing pml4 base [(size, ret)] w' := by
  obtain ⟨p₁, q, hopen, hentries, hclaim, hM, hl⟩ := Lined.first h.pool fresh hpos hle
  obtain ⟨⟨d, m⟩, hv⟩ := vmalloc_one_ends 0x03 pml4 dmaPoolBase w.machine
  have hh := ensureHeader_ends h.pool.header hv hopen
  have hd : d.attr = 0 := by
    by_contra hd
    rw [if_pos hd] at hh
    obtain ⟨N, hN⟩ := hh.1
    exact absurd (hs.header N _ _ (hN N (le_refl N))).1 (by decide)
  rw [if_neg (not_not.mpr hd)] at hh
  have hc : ∀ n, claimExtents pml4 n fresh { w with machine := m, pool := p₁ } (dmaPages size) =
      some (some ⟨dmaBase, some (entryOf 0), [entryOf 0]⟩, { w with machine := m, pool := q }) :=
    fun n => claimExtents_first hentries hclaim
  obtain ⟨N, hN⟩ := hh.1
  obtain ⟨n, hn⟩ := hv.1
  have hno := (hs.header N _ _ (hN N (le_refl N))).2
  have hframes := hs.frames N _ _ _ (hN N (le_refl N)) (hc N)
  have hempty : Arena (pml4 >>> 12) dmaLo dmaHi w.machine (metaRegions (fun _ => 0) 0 ++ []) := h.arena
  obtain ⟨f', hA, hS⟩ := vmalloc_metaPage hempty h.stock h.pml4_ne (by decide) (by simp) (hn n (le_refl n)) hd hno
  rw [← hM] at hA hS
  have hb : Backings pml4 base [] { w with machine := m, pool := q } f' [] := ⟨hA, hS, by simp, by simp⟩
  obtain ⟨ret, w', hback, hgrow⟩ := @Growing.finish base pml4 size { w with machine := m, pool := q } [] f' []
    ⟨dmaBase, some (entryOf 0), [entryOf 0]⟩ h.pml4_ne hl hb (fun k c hk => by cases hk) rfl hpos
    (by rw [pagesOf]; simpa using hle) hframes
  exact ⟨ret, _, w', allocateDma_ends hh ((Ends.const _).congr hc) hback, hgrow⟩

/-- A call after others. -/
theorem Growing.next (hpml4 : pml4 ≠ 0) (hl : Lined w.pool (pagesOf calls))
    (hb : Backings pml4 base calls w f bs) (hr : InRow calls) (hs : Supplied pml4 fresh w size)
    (hpos : 0 < dmaPages size) (hle : (pagesOf calls).sum + dmaPages size ≤ 2 ^ 18) :
    ∃ ret own w', Ends (fun n => allocateDma pml4 n fresh w size) (ret, own, w') ∧
      Growing pml4 base (calls ++ [(size, ret)]) w' := by
  have hshape := hl.inv.toPoolShape
  have hh : ∀ n, ensureHeader pml4 n fresh w = some (true, w) := fun n => ensureHeader_eq hshape.header
  obtain ⟨hsearch, hf⟩ := hl.search hpos
  have hclaim : ∀ {c : Claim} {w₂ : DmaWorld},
      Ends (fun n => claimExtents pml4 n fresh w (dmaPages size)) (some c, w₂) →
      c.base = dmaBase + 4096 * (pagesOf calls).sum → Lined w₂.pool (pagesOf calls ++ [dmaPages size]) →
      (∃ f', Backings pml4 base calls w₂ f' bs) → ∃ ret own w', Ends (fun n => allocateDma pml4 n fresh w size)
        (ret, own, w') ∧ Growing pml4 base (calls ++ [(size, ret)]) w' := by
    rintro c w₂ hc hbase hl₂ ⟨f', hb₂⟩
    obtain ⟨N, hN⟩ := hc.1
    obtain ⟨ret, w', hback, hgrow⟩ := Growing.finish hpml4 hl₂ hb₂ hr hbase hpos hle
      (hs.frames N _ _ _ (hh N) (hN N (le_refl N)))
    exact ⟨ret, _, w', allocateDma_ends ((Ends.const _).congr hh) hc hback, hgrow⟩
  have hbase : dmaBase + 4096 * w.pool.total (entriesTo (pagesOf calls).length) =
      dmaBase + 4096 * (pagesOf calls).sum := by rw [hl.total]
  by_cases hroom : (entryOf ((pagesOf calls).length - 1)).slot < 203
  · -- in the last metadata page
    obtain ⟨hends, q, hcarve, hg, hl₂⟩ := hl.carve hroom hpos hle
    have hM : q.dmaMetadataPages = w.pool.dmaMetadataPages := by
      rcases hg.page with ⟨hM, -⟩ | ⟨-, hj, -⟩
      · exact hM
      · omega
    have hc := claimExtents_grow hshape hsearch hpos (@growExtents_page pml4 _ fresh _ _ _ _ _ _ _ _ _ _
      hshape hf hpos hg hends hcarve)
    rw [mark_nil] at hc
    refine hclaim hc hbase hl₂ ⟨f, ⟨?_, ?_, hb.below, hb.buffers⟩⟩
    · show Arena _ _ _ w.machine (metaRegions f (q.dmaMetadataPages + 1) ++ bs)
      rw [hM]
      exact hb.arena
    · show Stock _ _ w.machine (metaRegions f (q.dmaMetadataPages + 1) ++ bs)
      rw [hM]
      exact hb.stock
  · -- in a new one
    obtain ⟨hends, p₁, q, hadd, hcarve, hg, hl₂⟩ := hl.addPage hroom hpos hle fresh
    have hM : q.dmaMetadataPages = w.pool.dmaMetadataPages + 1 := by
      rcases hg.page with ⟨-, hj, -⟩ | ⟨hM, -⟩
      · omega
      · exact hM
    obtain ⟨⟨d, m⟩, hv⟩ := vmalloc_one_ends 0x03 pml4 w.pool.dmaTop w.machine
    have hd : d.attr = 0 := by
      by_contra hd
      have hnone : Ends (fun n => claimExtents pml4 n fresh w (dmaPages size)) (none, { w with machine := m }) :=
        claimExtents_grow hshape hsearch hpos (growExtents_fails hends hv hd)
      obtain ⟨N, hN⟩ := hnone.1
      exact (hs.extents N _ _ _ (hh N) (hN N (le_refl N))).1 rfl
    have hc := claimExtents_grow hshape hsearch hpos
      (growExtents_full hshape hf hpos hg hends hv hd hadd hcarve)
    rw [mark_nil] at hc
    refine hclaim hc hbase hl₂ ?_
    obtain ⟨N, hN⟩ := hc.1
    have hno := (hs.extents N _ _ _ (hh N) (hN N (le_refl N))).2
    obtain ⟨n, hn⟩ := hv.1
    have hmany := hl.length_le
    obtain ⟨f', hA, hS⟩ := vmalloc_metaPage hb.arena hb.stock hpml4
      (by rw [hl.latest.2, entryOf]; simp only; omega)
      (fun r hr => (hb.below r hr).trans (by omega)) (by rw [← hl.inv.top]; exact hn n (le_refl n)) hd hno
    rw [← hM] at hA hS
    exact ⟨f', hA, hS, hb.below, hb.buffers⟩

/-! ## Runs -/

/-- What a call returns does not depend on the bound of its loops. -/
theorem Growing.of_call {own : List EntryPtr}
    (h : ∃ ret own w', Ends (fun n => allocateDma pml4 n fresh w size) (ret, own, w') ∧
      Growing pml4 base (calls ++ [(size, ret)]) w')
    (hcall : allocateDma pml4 n fresh w size = some (ret, own, w')) :
    Growing pml4 base (calls ++ [(size, ret)]) w' := by
  obtain ⟨ret', own', w'', hends, hgrow⟩ := h
  cases hends.2 n _ hcall
  exact hgrow

/-- A call that has its frames ends, and keeps the state. -/
theorem Growing.step (h : Growing pml4 base calls w) (hs : Supplied pml4 fresh w size) (hpos : 0 < dmaPages size)
    (hle : (pagesOf calls).sum + dmaPages size ≤ 2 ^ 18) :
    ∃ ret own w', Ends (fun n => allocateDma pml4 n fresh w size) (ret, own, w') ∧
      Growing pml4 base (calls ++ [(size, ret)]) w' := by
  cases h with
  | boot hboot => exact Growing.first hboot hs hpos (by rw [pagesOf] at hle; simpa using hle)
  | lined hpml4 hl hb hr => exact Growing.next hpml4 hl hb hr hs hpos hle

/-- So does a run. -/
theorem DmaGrowth.growing {w₀ : DmaWorld} (h₀ : DmaBoot pml4 base w₀) (h : DmaGrowth pml4 w₀ calls w)
    (hpos : ∀ c ∈ calls, 0 < dmaPages c.1) (hle : (pagesOf calls).sum ≤ 2 ^ 18) : Growing pml4 base calls w := by
  induction h with
  | boot => exact .boot h₀
  | @call calls w w' fresh n size ret own _ hs hcall ih =>
    rw [pagesOf_concat, List.sum_append, List.sum_singleton] at hle
    have hgrow := ih (fun c hc => hpos c (List.mem_append_left _ hc)) (by omega)
    exact Growing.of_call (hgrow.step hs (hpos (size, ret) (List.mem_append_right _ List.mem_cons_self)) hle) hcall

end

/-! ## In order -/

/-- The pages of a buffer of `size` bytes and its descriptor. -/
def pagesNeeded (size : Nat) : Nat := (size + 28 + 4095) / 4096

/-- The entry lies inside a page that is mapped to a frame of no buffer. -/
def InMetaPage (pml4 : Nat) (calls : List (Nat × DmaRet)) (w : DmaWorld) (x : EntryPtr) : Prop :=
  ∃ f, Contiguous pml4 w x.addr (4096 * f + 20 * x.slot) 20 ∧ 20 * x.slot + 20 ≤ 4096 ∧ ∀ c ∈ calls, f ∉ c.2.frames

/-- What is to hold after some calls: their addresses lie one behind the other, and there is one extent for each
of them, in their order. -/
structure GrowsInOrder (pml4 : Nat) (calls : List (Nat × DmaRet)) (w : DmaWorld) : Prop where
  /-- The addresses. -/
  addresses : ∀ (k : Nat) (c : Nat × DmaRet), calls[k]? = some c → c.2.status = 0 ∧
    c.2.virtualAddress = dmaBase + 4096 * ((calls.take k).map fun c => pagesNeeded c.1).sum
  /-- The extents. -/
  extents : ∃ ptrs, Lseg w.pool.next w.pool.dmaStart ptrs none ∧ ptrs.length = calls.length ∧
    ∀ (k : Nat) (c : Nat × DmaRet) (x : EntryPtr), calls[k]? = some c → ptrs[k]? = some x →
      (w.pool.entry x).status = .used ∧ (w.pool.entry x).sizeInPages = pagesNeeded c.1 ∧ InMetaPage pml4 calls w x

section

open DmaPool

variable {base : Set Nat} {pml4 n size : Nat} {fresh : EntryPtr → DmaEntry} {w w' w₀ : DmaWorld}
  {calls : List (Nat × DmaRet)} {ret : DmaRet} {f : Nat → Nat} {bs : List Region}

/-- What `allocate_dma` adds to a size wraps around for sizes beyond the window only. -/
theorem dmaPages_eq (h : pagesNeeded size ≤ 2 ^ 18) : dmaPages size = pagesNeeded size := by
  rw [pagesNeeded] at h ⊢
  rw [dmaPages, Nat.shiftRight_eq_div_pow, Nat.mod_eq_of_lt (by omega)]

theorem pagesNeeded_pos (size : Nat) : 0 < pagesNeeded size := by
  rw [pagesNeeded]
  omega

/-- The entries of the pool lie in its metadata pages. -/
theorem Backings.inMetaPage (hb : Backings pml4 base calls w f bs) {ptrs : List EntryPtr} (h : PoolInv w.pool ptrs)
    (hM : w.pool.dmaMetadataPages < 2 ^ 18) {x : EntryPtr} (hx : x ∈ ptrs) : InMetaPage pml4 calls w x := by
  obtain ⟨-, hslot, hpage⟩ := h.slots x hx
  have hmem : metaRegion f x.page ∈ metaRegions f (w.pool.dmaMetadataPages + 1) :=
    List.mem_map_of_mem (List.mem_range.mpr (by omega))
  have hback := hb.arena.backed _ (List.mem_append_left bs hmem)
  have hcont : Contiguous pml4 w (dmaBase + 4096 * (2 ^ 18 + x.page)) (4096 * f x.page) (4096 * 1) :=
    hback.contiguous (Nat.add_assoc _ _ _) (show 2 ^ 18 + x.page + 1 ≤ 2 ^ 19 by omega)
  refine ⟨f x.page, fun i hi => ?_, by omega, fun c hc hf => ?_⟩
  · have haddr : x.addr + i = dmaBase + 4096 * (2 ^ 18 + x.page) + (20 * x.slot + i) := by
      have hpool : dmaPoolBase = dmaBase + 4096 * 2 ^ 18 := rfl
      rw [EntryPtr.addr, hpool]
      omega
    rw [haddr, hcont _ (by omega), Nat.add_assoc]
  · obtain ⟨r, hr, hframes⟩ := hb.buffers c hc
    rw [← hframes] at hf
    have hdisj := (List.pairwise_append.mp hb.stock.disjoint).2.2 _ hmem r hr
    exact Set.disjoint_left.mp hdisj ⟨le_refl _, Nat.lt_succ_self _⟩ hf

theorem Growing.inOrder (h : Growing pml4 base calls w) (heq : ∀ c ∈ calls, dmaPages c.1 = pagesNeeded c.1) :
    GrowsInOrder pml4 calls w := by
  cases h with
  | boot hboot =>
    exact ⟨fun k c hk => (by cases hk), [], hboot.start, rfl, fun k c x hk => (by cases hk)⟩
  | lined hpml4 hl hb hr =>
    have hpages : pagesOf calls = calls.map fun c => pagesNeeded c.1 := List.map_congr_left heq
    have hlen : (pagesOf calls).length = calls.length := List.length_map _
    refine ⟨fun k c hk => ?_, entriesTo (pagesOf calls).length, hl.inv.linked,
      by rw [entriesTo, List.length_map, List.length_range, hlen], fun k c x hk hx => ?_⟩
    · rw [List.map_take, ← hpages]
      exact hr k c hk
    · obtain ⟨hk', hx'⟩ := List.getElem?_eq_some_iff.mp hx
      have hmem : x ∈ entriesTo (pagesOf calls).length := hx' ▸ List.getElem_mem hk'
      have hxk : x = entryOf k := by
        rw [← hx']
        simp [entriesTo]
      have hsize : (pagesOf calls)[k]? = some (pagesNeeded c.1) := by
        rw [hpages, List.getElem?_map, hk]
        rfl
      obtain ⟨h1, h2⟩ := hl.used k _ hsize
      rw [← hxk] at h1 h2
      refine ⟨h1, h2, hb.inMetaPage hl.inv ?_ hmem⟩
      have hmany := hl.length_le
      have htotal := hl.inv.total_le
      rw [hl.total] at htotal
      have hpos := hl.nonempty
      rw [hl.latest.2, entryOf]
      simp only
      omega

/-- **Allocations without frees.**  As long as the buffers fit the window, the calls return one address after the
other and there is one extent for each of them, however many metadata pages that takes; and the next call
returns. -/
theorem dma_growth (h₀ : DmaBoot pml4 base w₀) (h : DmaGrowth pml4 w₀ calls w)
    (hle : (calls.map fun c => pagesNeeded c.1).sum ≤ 2 ^ 18) : GrowsInOrder pml4 calls w ∧
    ∀ fresh size, (calls.map fun c => pagesNeeded c.1).sum + pagesNeeded size ≤ 2 ^ 18 →
      Supplied pml4 fresh w size → ∃ r, Ends (fun n => allocateDma pml4 n fresh w size) r := by
  have heq : ∀ c ∈ calls, dmaPages c.1 = pagesNeeded c.1 := fun c hc =>
    dmaPages_eq ((List.single_le_sum (fun _ _ => Nat.zero_le _) _ (List.mem_map_of_mem hc)).trans hle)
  have hpages : pagesOf calls = calls.map fun c => pagesNeeded c.1 := List.map_congr_left heq
  have hgrow := h.growing h₀ (fun c hc => by rw [heq c hc]; exact pagesNeeded_pos _) (by rw [hpages]; exact hle)
  refine ⟨hgrow.inOrder heq, fun fresh size hfit hs => ?_⟩
  have hsize : dmaPages size = pagesNeeded size := dmaPages_eq (by omega)
  obtain ⟨ret, own, w', hends, -⟩ := hgrow.step hs (by rw [hsize]; exact pagesNeeded_pos _)
    (by rw [hpages, hsize]; exact hfit)
  exact ⟨_, hends⟩

end

/-! ## Two runs -/

section

open DmaPool

variable {base : Set Nat} {pml4 n size : Nat} {fresh : EntryPtr → DmaEntry} {w : DmaWorld} {ns : List Nat}

/-- What the first call needs. -/
theorem supplied_boot (h : DmaBoot pml4 base w) {d : MemoryDescriptor} {m : Machine}
    (hv : Ends (fun n => vmalloc n w.machine dmaPoolBase 1 0x03 pml4) (d, m)) (hd : d.attr = 0)
    (hno : NoFail w.machine m) (hpos : 0 < dmaPages size) (hle : dmaPages size ≤ 2 ^ 18)
    (hframes : Backable pml4 m dmaBase (dmaPages size)) : Supplied pml4 fresh w size := by
  obtain ⟨p₁, q, hopen, hentries, hclaim, -, -⟩ := Lined.first h.pool fresh hpos hle
  have hh := ensureHeader_ends h.pool.header hv hopen
  rw [if_neg (not_not.mpr hd)] at hh
  have hc : ∀ n, claimExtents pml4 n fresh { w with machine := m, pool := p₁ } (dmaPages size) =
      some (some ⟨dmaBase, some (entryOf 0), [entryOf 0]⟩, { w with machine := m, pool := q }) :=
    fun n => claimExtents_first hentries hclaim
  refine ⟨fun n ok w₁ hcall => ?_, fun n w₁ c w₂ hcall hclaim => ?_, fun n w₁ c w₂ hcall hclaim => ?_⟩
  · cases hh.2 n _ hcall
    exact ⟨rfl, hno⟩
  · cases hh.2 n _ hcall
    rw [hc] at hclaim
    cases hclaim
    exact ⟨by simp, le_refl _⟩
  · cases hh.2 n _ hcall
    rw [hc] at hclaim
    cases hclaim
    exact hframes

/-- What a call needs whose extent fits the last metadata page. -/
theorem Lined.supplied (h : Lined w.pool ns) (hroom : (entryOf (ns.length - 1)).slot < 203)
    (hpos : 0 < dmaPages size) (hle : ns.sum + dmaPages size ≤ 2 ^ 18)
    (hframes : Backable pml4 w.machine (dmaBase + 4096 * ns.sum) (dmaPages size)) : Supplied pml4 fresh w size := by
  have hshape := h.inv.toPoolShape
  have hh : ∀ n, ensureHeader pml4 n fresh w = some (true, w) := fun n => ensureHeader_eq hshape.header
  obtain ⟨hsearch, hf⟩ := h.search hpos
  obtain ⟨hends, q, hcarve, hg, -⟩ := h.carve hroom hpos hle
  have hc := claimExtents_grow hshape hsearch hpos (@growExtents_page pml4 _ fresh _ _ _ _ _ _ _ _ _ _
    hshape hf hpos hg hends hcarve)
  refine ⟨fun n ok w₁ hcall => ?_, fun n w₁ c w₂ hcall hclaim => ?_, fun n w₁ c w₂ hcall hclaim => ?_⟩
  · rw [hh] at hcall
    cases hcall
    exact ⟨rfl, le_refl _⟩
  · rw [hh] at hcall
    cases hcall
    cases hc.2 n _ hclaim
    exact ⟨by simp, le_refl _⟩
  · rw [hh] at hcall
    cases hcall
    cases hc.2 n _ hclaim
    have hbase : dmaBase + 4096 * w.pool.total (entriesTo ns.length) = dmaBase + 4096 * ns.sum := by rw [h.total]
    simp only [hbase]
    exact hframes

/-- A machine that has just booted, and no extents. -/
def freshWorld : DmaWorld where
  machine := (allocPages coldMachine 1).2
  pool := DmaPool.init fun _ => ⟨.free, 0, none⟩
  bytes _ := 0

theorem freshWorld_boot : DmaBoot 0x2000 coldMachine.frames.usedPages freshWorld := by
  obtain ⟨hne, hwf, hgb, L, hacc⟩ := coldMachine_booted.inv
  have hnone : ∀ v, walk freshWorld.machine.mem (0x2000 >>> 12) v = none := walk_of_empty fun _ => rfl
  exact ⟨⟨fun k => rfl, rfl, rfl, rfl, rfl⟩, rfl, hne,
    ⟨hwf, hgb, by decide, by simp, List.Pairwise.nil, by simp, fun v _ _ _ => hnone v⟩,
    ⟨coldMachine_booted.reserved, _, L, hacc, Ledger.empty _ _⟩⟩

/-- The first page of it can be had, and frames for a page of a buffer. -/
theorem freshWorld_supplied (h : dmaPages size = 1) : Supplied 0x2000 fresh freshWorld size := by
  have hall : ((vmalloc 8 freshWorld.machine dmaPoolBase 1 0x03 0x2000).any fun r => decide (r.1.attr = 0 ∧
      NoFail freshWorld.machine r.2 ∧ Backable 0x2000 r.2 dmaBase 1)) = true := by
    decide +kernel
  obtain ⟨⟨d, m⟩, hcall, hr⟩ := (Option.any_eq_true _ _).mp hall
  obtain ⟨hd, hno, hframes⟩ := of_decide_eq_true hr
  exact supplied_boot freshWorld_boot (Ends.of_mono vmalloc_mono hcall) hd hno (by rw [h]; decide)
    (by rw [h]; decide) (by rw [h]; exact hframes)

/-- The first call after boot. -/
theorem dma_growth_one : ∃ ret w, DmaGrowth 0x2000 freshWorld [(100, ret)] w ∧
    GrowsInOrder 0x2000 [(100, ret)] w := by
  have hs : Supplied 0x2000 (fun _ => ⟨.free, 0, none⟩) freshWorld 100 := freshWorld_supplied rfl
  obtain ⟨ret, own, w, hends, -⟩ := (Growing.boot freshWorld_boot).step hs (by decide) (by decide)
  obtain ⟨n, hn⟩ := hends.1
  have hrun := DmaGrowth.call DmaGrowth.boot hs (hn n (le_refl n))
  exact ⟨ret, w, hrun, (dma_growth freshWorld_boot hrun (show pagesNeeded 100 + 0 ≤ 2 ^ 18 by decide)).1⟩

/-- **A size that wraps around.**  A buffer of `2 ^ 64 - 1` bytes gets one page, and the next buffer is behind
it. -/
theorem not_dma_growth_wraps : ¬ ∀ (base : Set Nat) (pml4 : Nat) (w₀ w : DmaWorld) (calls : List (Nat × DmaRet)),
    DmaBoot pml4 base w₀ → DmaGrowth pml4 w₀ calls w → GrowsInOrder pml4 calls w := by
  intro hclaim
  have hs : Supplied 0x2000 (fun _ => ⟨.free, 0, none⟩) freshWorld (2 ^ 64 - 1) := freshWorld_supplied rfl
  obtain ⟨ret, own, w, hends, hgrow⟩ := (Growing.boot freshWorld_boot).step hs (by decide) (by decide)
  obtain ⟨n, hn⟩ := hends.1
  have hrun := DmaGrowth.call DmaGrowth.boot hs (hn n (le_refl n))
  have hone : dmaPages (2 ^ 64 - 1) = 1 := by decide
  have hpages : pagesOf ([] ++ [(2 ^ 64 - 1, ret)]) = [1] := congrArg (fun n => [n]) hone
  cases hgrow with
  | lined hpml4 hl hb hr =>
    have hframes : Backable 0x2000 w.machine (dmaBase + 4096) 1 := by
      have hall : ((allocateDma 0x2000 8 (fun _ => ⟨.free, 0, none⟩) freshWorld (2 ^ 64 - 1)).any fun r =>
          decide (Backable 0x2000 r.2.2.machine (dmaBase + 4096) 1)) = true := by
        decide +kernel
      obtain ⟨r, hcall, hr⟩ := (Option.any_eq_true _ _).mp hall
      cases hends.2 8 _ hcall
      exact of_decide_eq_true hr
    have hs' : Supplied 0x2000 (fun _ => ⟨.free, 0, none⟩) w 1 :=
      hl.supplied (by rw [hpages]; decide) (by decide) (by rw [hpages]; decide) (by rw [hpages]; exact hframes)
    obtain ⟨ret', own', w', hends', hgrow'⟩ := (Growing.lined hpml4 hl hb hr).step hs' (by decide)
      (by rw [hpages]; decide)
    obtain ⟨n', hn'⟩ := hends'.1
    have h : ret'.virtualAddress = dmaBase + 4096 * (pagesNeeded (2 ^ 64 - 1) + 0) :=
      ((hclaim _ _ _ _ _ freshWorld_boot (hrun.call hs' (hn' n' (le_refl n')))).addresses 1 (1, ret') rfl).2
    cases hgrow' with
    | lined _ _ _ hr' =>
      have h' : ret'.virtualAddress = dmaBase + 4096 * (dmaPages (2 ^ 64 - 1) + 0) := (hr' 1 (1, ret') rfl).2
      rw [h, hone] at h'
      exact absurd h' (by decide)

end

end Dem64
