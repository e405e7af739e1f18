import Dem64.Dma.Failure
import Dem64.Dma.Reuse
import Mathlib.Data.List.Perm.Subperm

/-!
# The live allocations

Between two calls every live allocation has extents of its own, which lie side by side in the list, and its buffer
is mapped to frames of its own (`DmaInv`).  `DmaInv.claim` and `DmaInv.back` say what `allocate_dma` makes of such
a state, and `DmaInv.free` what `free_dma` does.

Neither is right in all states.  A new extent needs room behind `dma_latest`, which the counters of the metadata
pages do not show (`DmaPool.Places`).  `free_dma` takes the first signature that it finds for that of the
descriptor (`Allocation.NoSignBefore`), and gives back any metadata page whose counter has come to `dma_limit`,
whether or not its extents are free (`DmaPool.LastPages`).
-/

set_option autoImplicit false

namespace Dem64

open ByteMemory

/-! ## Extents in their place -/

/-- The extents lie side by side in the list, from the address `base` on, are taken, and have `pages` pages. -/
structure Placed (p : DmaPool) (ptrs : List EntryPtr) (base pages : Nat) (extents : List EntryPtr) : Prop where
  /-- Where they are. -/
  place : ∃ pre, pre ++ extents <+: ptrs ∧ base = dmaBase + 4096 * p.total pre
  /-- There is one at least. -/
  nonempty : extents ≠ []
  /-- They are large enough. -/
  enough : pages ≤ p.total extents
  /-- They are taken. -/
  taken : ∀ x ∈ extents, (p.entry x).status = .used

section

variable {p q : DmaPool} {ptrs ptrs' pre pre' l l' : List EntryPtr} {base base' pages pages' : Nat}

/-- Of two parts of a list that share nothing, one is in front of the other. -/
theorem prefix_of_disjoint {α : Type} {pre pre' l l' m : List α} (h : pre ++ l <+: m) (h' : pre' ++ l' <+: m)
    (hl : l ≠ []) (hl' : l' ≠ []) (hd : l.Disjoint l') : pre ++ l <+: pre' ∨ pre' ++ l' <+: pre := by
  have hlen : 0 < l.length := List.length_pos_of_ne_nil hl
  have hlen' : 0 < l'.length := List.length_pos_of_ne_nil hl'
  have hpre := (List.prefix_append pre l).trans h
  have hpre' := (List.prefix_append pre' l').trans h'
  rcases Nat.lt_or_ge pre'.length (pre ++ l).length with hlt | hge
  · rcases Nat.lt_or_ge pre.length (pre' ++ l').length with hlt' | hge'
    · -- the cell at the later start is in both
      rw [List.length_append] at hlt hlt'
      have hget : ∀ {pre l : List α} {i : Nat}, pre ++ l <+: m → pre.length ≤ i → i < pre.length + l.length →
          ∃ x, m[i]? = some x ∧ x ∈ l := by
        intro pre l i h h1 h2
        have hi : i - pre.length < l.length := by omega
        refine ⟨l[i - pre.length], ?_, List.getElem_mem hi⟩
        obtain ⟨t, rfl⟩ := h
        rw [List.append_assoc, List.getElem?_append_right h1, List.getElem?_append_left hi,
          List.getElem?_eq_getElem hi]
      obtain ⟨x, hx, hxl⟩ := @hget pre l (max pre.length pre'.length) h (by omega) (by omega)
      obtain ⟨y, hy, hyl⟩ := @hget pre' l' (max pre.length pre'.length) h' (by omega) (by omega)
      obtain rfl := Option.some_inj.mp (hx.symm.trans hy)
      exact absurd hyl (hd hxl)
    · exact .inr (List.prefix_of_prefix_length_le h' hpre hge')
  · exact .inl (List.prefix_of_prefix_length_le h hpre' hge)

namespace Placed

/-- Extents stay in their place while they keep their sizes and statuses. -/
theorem congr (h : Placed p ptrs base pages l) (hgrow : ∀ pre, pre ++ l <+: ptrs → pre ++ l <+: ptrs')
    (hsize : ∀ x ∈ ptrs, (q.entry x).sizeInPages = (p.entry x).sizeInPages)
    (hstatus : ∀ x ∈ l, (q.entry x).status = (p.entry x).status) : Placed q ptrs' base pages l := by
  obtain ⟨pre, hpre, hbase⟩ := h.place
  have hmem : ∀ x ∈ pre ++ l, x ∈ ptrs := fun x hx => hpre.subset hx
  refine ⟨⟨pre, hgrow pre hpre, ?_⟩, h.nonempty, ?_, fun x hx => (hstatus x hx).trans (h.taken x hx)⟩
  · rw [DmaPool.total_congr fun x hx => hsize x (hmem x (List.mem_append_left _ hx))]
    exact hbase
  · rw [DmaPool.total_congr fun x hx => hsize x (hmem x (List.mem_append_right _ hx))]
    exact h.enough

/-- They are extents of the list. -/
theorem mem (h : Placed p ptrs base pages l) : ∀ x ∈ l, x ∈ ptrs := by
  obtain ⟨pre, hpre, -⟩ := h.place
  exact fun x hx => hpre.subset (List.mem_append_right _ hx)

/-- The pages lie in the window. -/
theorem inWindow (h : Placed p ptrs base pages l) (hle : p.total ptrs ≤ 2 ^ 18) :
    ∃ k, base = dmaBase + 4096 * k ∧ k + pages ≤ 2 ^ 18 := by
  obtain ⟨pre, hpre, hbase⟩ := h.place
  have htotal := DmaPool.total_mono (p := p) hpre
  rw [DmaPool.total_append] at htotal
  have := h.enough
  exact ⟨_, hbase, by omega⟩

/-- Other extents have other pages. -/
theorem apart (h : Placed p ptrs base pages l) (h' : Placed p ptrs base' pages' l') (hd : l.Disjoint l') :
    base + 4096 * pages ≤ base' ∨ base' + 4096 * pages' ≤ base := by
  obtain ⟨pre, hpre, hbase⟩ := h.place
  obtain ⟨pre', hpre', hbase'⟩ := h'.place
  have := h.enough
  have := h'.enough
  rcases prefix_of_disjoint hpre hpre' h.nonempty h'.nonempty hd with hle | hle
  · have htotal := DmaPool.total_mono (p := p) hle
    rw [DmaPool.total_append] at htotal
    omega
  · have htotal := DmaPool.total_mono (p := p) hle
    rw [DmaPool.total_append] at htotal
    omega

end Placed

end

/-! ## The state of a run -/

/-- An allocation: what was asked for, what was returned, and the extents that were taken. -/
structure Allocation where
  /-- The size in bytes. -/
  size : Nat
  /-- What was returned. -/
  ret : DmaRet
  /-- The extents. -/
  extents : List EntryPtr
deriving DecidableEq

/-- The pages of the buffer, and the frames behind them. -/
def Allocation.region (a : Allocation) : Region :=
  ⟨pageOf a.ret.virtualAddress, a.ret.sizeInPages, a.ret.physicalAddress / 4096⟩

/-- The physical address of its descriptor. -/
def Allocation.descriptor (a : Allocation) : Nat := a.ret.physicalAddress + (4096 * a.ret.sizeInPages - 28)

section

variable (pml4 : Nat)

/-- What the arena has: the metadata pages, and the buffers of the live allocations. -/
structure DmaBacked (base : Set Nat) (live : List Allocation) (w : DmaWorld) (f : Nat → Nat) : Prop where
  /-- The pages. -/
  arena : Arena (pml4 >>> 12) dmaLo dmaHi w.machine
    (metaRegions f (w.pool.dmaMetadataPages + 1) ++ live.map Allocation.region)
  /-- The frames. -/
  stock : Stock base (pml4 >>> 12) w.machine
    (metaRegions f (w.pool.dmaMetadataPages + 1) ++ live.map Allocation.region)

/-- What holds between two calls once there is an extent. -/
structure DmaInv (base : Set Nat) (live : List Allocation) (w : DmaWorld) (ptrs : List EntryPtr) (f : Nat → Nat) :
    Prop extends DmaBacked pml4 base live w f where
  /-- The extents form a list. -/
  pool : PoolInv w.pool ptrs
  /-- Those of the live allocations are in their place. -/
  placed : ∀ a ∈ live, Placed w.pool ptrs a.ret.virtualAddress a.ret.sizeInPages a.extents
  /-- No two of them share one. -/
  apart : live.Pairwise fun a b => a.extents.Disjoint b.extents
  /-- The buffers have the size that was asked for, and room for the descriptor. -/
  sound : ∀ a ∈ live, a.size + 28 ≤ 4096 * a.ret.sizeInPages ∧ a.ret.physicalAddress % 4096 = 0
  /-- The descriptors are as they were written. -/
  descriptor : ∀ a ∈ live, HasBytes w.bytes a.descriptor
    (descriptorBytes a.extents.length a.ret.sizeInPages a.extents.head?)

end

/-! ## A place for an allocation -/

namespace DmaPool

/-- There is a place for `pages` pages: a group of free extents that is large enough, or else room for a new
extent in the metadata pages, and for the pages in the window behind the last extent that is taken. -/
structure Places (p : DmaPool) (pages : Nat) : Prop where
  /-- The first allocation has the window for itself. -/
  first : p.dmaEntries = 0 → pages ≤ 2 ^ 18
  /-- The others are placed behind each other. -/
  next : p.dmaEntries ≠ 0 → ∀ ptrs, Lseg p.next p.dmaStart ptrs none →
    (∃ pre g rest, FreeGroup p ptrs pre g rest ∧ pages ≤ p.total g) ∨
      p.HasRoom ∧ ∀ pre g, FreeGroup p ptrs pre g [] → p.total pre + pages ≤ 2 ^ 18

section

variable {p : DmaPool} {ptrs pre own rest : List EntryPtr} {pages : Nat} {s : Search}

/-- If the search finds too little, there is room for a new extent. -/
theorem Places.grow (h : p.Places pages) (hi : PoolInv p ptrs) (hf : Found p ptrs pages s pre own rest)
    (hless : s.freePages < pages) : p.HasRoom ∧ p.total pre + pages ≤ 2 ^ 18 ∧ p.total own = s.freePages ∧
      ptrs = pre ++ own := by
  have hfree : s.freePages = p.total own := by rw [hf.result]
  obtain ⟨hlt, rfl⟩ := hf.size.resolve_left fun hc => by omega
  have hsplit : ptrs = pre ++ own := by rw [hf.split, List.append_nil]
  have hno : ∀ pre' g rest', FreeGroup p ptrs pre' g rest' → p.total g < pages := by
    intro pre' g rest' hg
    exact small_append hf.before hf.small hlt ⟨pre', rest', by rw [← hg.split, hsplit]⟩ hg.free
  obtain ⟨hroom, hwindow⟩ := (h.next hi.entries ptrs hi.linked).resolve_left fun ⟨pre', g, rest', hg, hle⟩ => by
    have := hno pre' g rest' hg
    omega
  exact ⟨hroom, hwindow pre own (hf.trailing hno).2.2, hfree.symm, hsplit⟩

end

end DmaPool

section

variable {p : DmaPool} {ptrs : List EntryPtr}

/-- There are no more extents than pages in the window. -/
theorem PoolShape.length_le (h : PoolShape p ptrs) : ptrs.length ≤ p.total ptrs := by
  have hlen : (ptrs.map fun x => (p.entry x).sizeInPages).length = ptrs.length := List.length_map _
  rw [DmaPool.total, ← hlen]
  refine List.length_le_sum_of_one_le _ fun n hn => ?_
  obtain ⟨x, hx, rfl⟩ := List.mem_map.mp hn
  exact h.size_pos x hx

/-- There are at least as many pages in the window as metadata pages. -/
theorem PoolShape.pages_le (h : PoolShape p ptrs) : p.dmaMetadataPages + 1 ≤ p.total ptrs := by
  have hsub : ((List.range (p.dmaMetadataPages + 1)).map fun k => (⟨k, 1⟩ : EntryPtr)) ⊆ ptrs := by
    intro x hx
    obtain ⟨k, hk, rfl⟩ := List.mem_map.mp hx
    exact h.first k (Nat.le_of_lt_succ (List.mem_range.mp hk))
  have hnodup : ((List.range (p.dmaMetadataPages + 1)).map fun k => (⟨k, 1⟩ : EntryPtr)).Nodup :=
    List.nodup_range.map fun i j hij => congrArg EntryPtr.page hij
  have hlen := (hnodup.subperm hsub).length_le
  rw [List.length_map, List.length_range] at hlen
  exact hlen.trans h.length_le

end

/-! ## What a call does -/

section

variable {attributes pml4 va n pages : Nat} {m m' : Machine} {d : MemoryDescriptor}

/-- `vmalloc` that fails changes nothing. -/
theorem vmalloc_failed (h : vmalloc n m va pages attributes pml4 = some (d, m')) (hd : d.attr ≠ 0) : m' = m := by
  rw [vmalloc] at h
  split at h
  · cases h
    rfl
  · dsimp only at h
    split at h
    · cases h
      rfl
    · split at h
      · cases h
      · cases h
        exact absurd rfl hd

/-- Failures are not forgotten by `vmalloc`. -/
theorem vmalloc_failures_le (h : vmalloc n m va pages attributes pml4 = some (d, m')) :
    m.failures ≤ m'.failures := by
  rw [vmalloc] at h
  split at h
  · cases h
    exact le_refl _
  · dsimp only at h
    split at h
    · cases h
      exact le_refl _
    · split at h
      · cases h
      · rename_i c m₁ hloop
        cases h
        exact (traced_vmallocLoop _ _ _ _ _ hloop).failures_le.trans (traced_mapRun c m₁).failures_le

end

section

open DmaPool

variable {base : Set Nat} {pml4 n pages size : Nat} {fresh : EntryPtr → DmaEntry} {w w' w₂ : DmaWorld}
  {live : List Allocation} {ptrs ptrs' : List EntryPtr} {f f' : Nat → Nat} {c : Claim} {r : Option Claim}

theorem DmaInv.region_inWindow (h : DmaInv pml4 base live w ptrs f) {a : Allocation} (ha : a ∈ live) :
    ∃ k, a.ret.virtualAddress = dmaBase + 4096 * k ∧ k + a.ret.sizeInPages ≤ 2 ^ 18 ∧ a.region.page = dmaLo + k := by
  obtain ⟨k, hbase, hk⟩ := (h.placed a ha).inWindow h.pool.total_le
  refine ⟨k, hbase, hk, ?_⟩
  rw [Allocation.region, hbase]
  simp only [dmaLo, pageOf, dmaBase]
  omega

theorem DmaInv.region_below (h : DmaInv pml4 base live w ptrs f) :
    ∀ t ∈ live.map Allocation.region, t.page + t.count ≤ dmaLo + 2 ^ 18 := by
  intro t ht
  obtain ⟨a, ha, rfl⟩ := List.mem_map.mp ht
  obtain ⟨k, -, hk, hpage⟩ := h.region_inWindow ha
  have hcount : a.region.count = a.ret.sizeInPages := rfl
  omega

/-- **Extents are taken.**  Either the metadata page that is needed is not to be had, and nothing changes, or
the extents of the claim are side by side. -/
theorem DmaInv.claim (h : DmaInv pml4 base live w ptrs f) (hpml4 : pml4 ≠ 0) (hpos : 0 < pages)
    (hplaces : w.pool.Places pages) (hclaim : claimExtents pml4 n fresh w pages = some (r, w₂))
    (hno : NoFail w.machine w₂.machine) : r = none ∧ w₂ = w ∨
      ∃ c ptrs' f', r = some c ∧ Claimed w.pool ptrs pages c w₂.pool ptrs' ∧ w₂.pool.total ptrs' ≤ 2 ^ 18 ∧
        w₂.bytes = w.bytes ∧ DmaBacked pml4 base live w₂ f' := by
  have hshape := h.pool.toPoolShape
  obtain ⟨s, pre, own, rest, hs, hf⟩ := search_spec h.pool hpos
  by_cases henough : s.freePages < pages
  · -- a new extent
    obtain ⟨hroom, hwindow, hfree, hsplit⟩ := hplaces.grow h.pool hf henough
    have hnew : 0 < pages - s.freePages := by omega
    have htotal : ∀ {y : EntryPtr} {j : Nat} {q : DmaPool}, Grown w.pool ptrs y (pages - s.freePages) j q →
        (q.mark own .used).total (ptrs ++ [y]) ≤ 2 ^ 18 := by
      intro y j q hg
      rw [mark_total, total_append, total_congr fun x hx => (hg.kept x hx).2, total_cons, total_nil, hg.new, hsplit,
        total_append]
      simp only
      omega
    obtain ⟨k, hends, hk⟩ := room_spec hshape
    rcases hk with ⟨j, rfl, hj, hne, hzero⟩ | ⟨rfl, hzero⟩
    · -- in the last page
      obtain ⟨init, x, -, hlatest, -⟩ := h.pool.latest
      rcases hroom with hall | ⟨j', hj', hne', hzero', hadv, hslot⟩
      · exact absurd (hall j hj) hne
      · obtain rfl : j = j' := by
          by_contra hc
          rcases Nat.lt_or_gt_of_ne hc with hlt | hlt
          · exact hne (hzero' j hlt)
          · exact hne' (hzero j' hlt)
        rw [h.pool.limit] at hadv hslot
        obtain ⟨q, hcarve, hg⟩ := carve_spec hshape hlatest (hslot x hlatest) hj hadv hnew
        have hc := claimExtents_grow hshape hs henough
          (@growExtents_page pml4 _ fresh _ _ _ _ _ _ _ _ _ _ hshape hf henough hg hends hcarve)
        cases hc.2 n _ hclaim
        have hM : q.dmaMetadataPages = w.pool.dmaMetadataPages := by
          rcases hg.page with ⟨hM, -⟩ | ⟨-, hj', -⟩
          · exact hM
          · omega
        refine .inr ⟨_, _, f, rfl, (growClaim_spec hshape hf henough hcarve hg).2, htotal hg, rfl, ?_, ?_⟩
        · show Arena _ _ _ w.machine (metaRegions f (q.dmaMetadataPages + 1) ++ _)
          rw [hM]
          exact h.arena
        · show Stock _ _ w.machine (metaRegions f (q.dmaMetadataPages + 1) ++ _)
          rw [hM]
          exact h.stock
    · -- in a new page
      obtain ⟨⟨d, m⟩, hv⟩ := vmalloc_one_ends 0x03 pml4 w.pool.dmaTop w.machine
      obtain ⟨N, hN⟩ := hv.1
      by_cases hd : d.attr = 0
      · obtain ⟨p₁, q, hadd, hcarve, hg⟩ := addPage_spec hshape fresh hnew
        have hc := claimExtents_grow hshape hs henough (growExtents_full hshape hf henough hg hends hv hd hadd hcarve)
        cases hc.2 n _ hclaim
        have hM : q.dmaMetadataPages = w.pool.dmaMetadataPages + 1 := by
          rcases hg.page with ⟨-, hj, -⟩ | ⟨hM, -⟩
          · omega
          · exact hM
        have hmany := hshape.pages_le
        rw [hsplit, total_append] at hmany
        obtain ⟨f', hA, hS⟩ := vmalloc_metaPage h.arena h.stock hpml4 (by omega) h.region_below
          (by rw [← h.pool.top]; exact hN N (le_refl N)) hd hno
        rw [← hM] at hA hS
        exact .inr ⟨_, _, f', rfl, (growClaim_spec hshape hf henough hcarve hg).2, htotal hg, rfl, hA, hS⟩
      · have hc : Ends (fun n => claimExtents pml4 n fresh w pages) (none, { w with machine := m }) :=
          claimExtents_grow hshape hs henough (growExtents_fails hends hv hd)
        cases hc.2 n _ hclaim
        have hm := vmalloc_failed (hN N (le_refl N)) hd
        subst hm
        exact .inl ⟨rfl, rfl⟩
  · -- the extents that were found
    cases (claimExtents_reuse h.pool hpos hs hf henough).2 n _ hclaim
    refine .inr ⟨_, ptrs, f, rfl, (reuseClaim_spec h.pool hf hpos henough).2, ?_, rfl, h.arena, h.stock⟩
    rw [mark_total]
    exact h.pool.total_le

/-- The extents of a claim are in their place. -/
theorem Claimed.placed {p q : DmaPool} (h : Claimed p ptrs pages c q ptrs') :
    Placed q ptrs' c.base pages c.extents := ⟨h.place, h.nonempty, h.enough, h.taken⟩

/-- They are no extents of a live allocation. -/
theorem Claimed.disjoint {p q : DmaPool} {va count : Nat} {l : List EntryPtr} (h : Claimed p ptrs pages c q ptrs')
    (hl : Placed p ptrs va count l) : c.extents.Disjoint l := by
  intro x hx hxl
  have hfree := h.free x (hl.mem x hxl) hx
  rw [hl.taken x hxl] at hfree
  cases hfree

/-- The live allocations stay where they are when extents are taken. -/
theorem DmaInv.claimed (h : DmaInv pml4 base live w ptrs f) (hc : Claimed w.pool ptrs pages c w₂.pool ptrs')
    (htotal : w₂.pool.total ptrs' ≤ 2 ^ 18) (hbytes : w₂.bytes = w.bytes) (hb : DmaBacked pml4 base live w₂ f') :
    DmaInv pml4 base live w₂ ptrs' f' where
  toDmaBacked := hb
  pool := ⟨hc.inv, htotal⟩
  placed a ha := by
    have hp := h.placed a ha
    exact hp.congr (fun pre hpre => hpre.trans hc.grows) hc.sizes fun x hx =>
      hc.others x (hp.mem x hx) fun hxc => hc.disjoint hp hxc hx
  apart := h.apart
  sound := h.sound
  descriptor a ha := by
    rw [hbytes]
    exact h.descriptor a ha

/-- Frames are put behind a claim without a change of the extents; the tables are those of `create_mapping`. -/
theorem backClaim_machine {ret : DmaRet} (h : backClaim pml4 w pages c = some (ret, w')) :
    (allocFrame w.machine.frames pages).1.attr ≠ 0 ∧ w' = w ∧ ret.status = 1 ∨
      (allocFrame w.machine.frames pages).1.attr = 0 ∧ w'.machine =
        createMapping { w.machine with frames := (allocFrame w.machine.frames pages).2 } c.base
          (allocFrame w.machine.frames pages).1.physicalStart pages 0x03 pml4 := by
  rw [backClaim] at h
  dsimp only at h
  split at h
  · rename_i hattr
    cases h
    have hsame := ((allocFrame_cases w.machine.frames pages).resolve_right fun hc => hattr hc.1).2.2
    refine .inl ⟨hattr, ?_, rfl⟩
    rw [hsame]
  · rename_i hattr
    obtain ⟨w₁, hw, h⟩ := Option.bind_eq_some_iff.mp h
    cases h
    exact .inr ⟨not_not.mp hattr, (congrArg DmaWorld.machine (storeBytes_rest hw)).trans rfl⟩

/-- **Frames are put behind a claim.**  Either there are none, and nothing changes, or the allocation is one more
live allocation. -/
theorem DmaInv.back {ret : DmaRet} (h : DmaInv pml4 base live w ptrs f) (hpml4 : pml4 ≠ 0) (hpos : 0 < pages)
    (hc : Placed w.pool ptrs c.base pages c.extents) (hhome : c.home = c.extents.head?)
    (hapart : ∀ a ∈ live, c.extents.Disjoint a.extents) (hsize : size + 28 ≤ 4096 * pages)
    (hback : backClaim pml4 w pages c = some (ret, w')) (hno : NoFail w.machine w'.machine) :
    ret.status = 1 ∧ w' = w ∨
      ret.status = 0 ∧ DmaInv pml4 base (⟨size, ret, c.extents⟩ :: live) w' ptrs f ∧ w'.bytes = putBytes w.bytes
        (⟨size, ret, c.extents⟩ : Allocation).descriptor
        (descriptorBytes c.extents.length ret.sizeInPages c.extents.head?) := by
  rcases backClaim_machine hback with ⟨-, hw, hstatus⟩ | ⟨hattr, hm⟩
  · exact .inl ⟨hstatus, hw⟩
  · obtain ⟨k, hbase, hk⟩ := hc.inWindow h.pool.total_le
    rw [hm] at hno
    obtain ⟨g, w'', hback', hpool, hbytes, hA, hS⟩ := backClaim_spec h.arena h.stock hpml4 hpos hbase hk
      (fun t ht v hv => by
        obtain ⟨h1, h2⟩ := hv
        rcases List.mem_append.mp ht with ht | ht
        · obtain ⟨i, -, rfl⟩ := List.mem_map.mp ht
          simp only [metaRegion] at h1
          omega
        · obtain ⟨a, ha, rfl⟩ := List.mem_map.mp ht
          obtain ⟨ka, hka, -, hpage⟩ := h.region_inWindow ha
          have hcount : a.region.count = a.ret.sizeInPages := rfl
          have := hc.apart (h.placed a ha) (hapart a ha)
          omega) hattr hno
    rw [hback] at hback'
    cases hback'
    refine .inr ⟨rfl, ?_, by rw [hbytes, hhome]; rfl⟩
    have hregion : (⟨size, ⟨0, pages, c.base, 4096 * g⟩, c.extents⟩ : Allocation).region =
        ⟨dmaLo + k, pages, g⟩ := by
      rw [Allocation.region, hbase]
      simp only [Region.mk.injEq, dmaLo, pageOf, dmaBase, true_and]
      omega
    refine ⟨⟨?_, ?_⟩, ?_, fun a ha => ?_, List.pairwise_cons.mpr ⟨hapart, h.apart⟩, fun a ha => ?_, fun a ha => ?_⟩
    · rw [List.map_cons, hregion, hpool]
      exact hA.perm List.perm_middle.symm
    · rw [List.map_cons, hregion, hpool]
      exact hS.perm List.perm_middle.symm
    · rw [hpool]
      exact h.pool
    · rw [hpool]
      rcases List.mem_cons.mp ha with rfl | ha
      · exact hc
      · exact h.placed a ha
    · rcases List.mem_cons.mp ha with rfl | ha
      · exact ⟨hsize, Nat.mul_mod_right _ _⟩
      · exact h.sound a ha
    · rw [hbytes]
      rcases List.mem_cons.mp ha with rfl | ha
      · rw [hhome]
        exact hasBytes_putBytes
      · -- the frames of the new buffer are other frames
        have hdisj : Disjoint (⟨dmaLo + k, pages, g⟩ : Region).frames a.region.frames :=
          (List.pairwise_cons.mp hS.disjoint).1 _ (List.mem_append_right _ (List.mem_map_of_mem ha))
        have hmod := (h.sound a ha).2
        have hroom := (h.sound a ha).1
        refine (h.descriptor a ha).congr (sameOn_putBytes ?_)
        rw [length_descriptorBytes, length_descriptorBytes, Allocation.descriptor]
        by_contra hc'
        have hframe : (4096 * g + (4096 * pages - 28)) / 4096 = g + (pages - 1) := by omega
        have hframe' : (a.ret.physicalAddress + (4096 * a.ret.sizeInPages - 28)) / 4096 =
            a.ret.physicalAddress / 4096 + (a.ret.sizeInPages - 1) := by omega
        have hlast : g + (pages - 1) ∈ (⟨dmaLo + k, pages, g⟩ : Region).frames :=
          ⟨Nat.le_add_right _ _, by simp only; omega⟩
        refine Set.disjoint_left.mp hdisj hlast ?_
        rw [Allocation.region, Region.frames, Set.mem_Ico]
        simp only
        omega

end

/-! ## What is given back -/

namespace DmaPool

/-- The counter of page `k` says that the page is empty once the extents `own` are given back. -/
def Drains (p : DmaPool) (own : List EntryPtr) (k : Nat) : Prop :=
  ((p.entry ⟨k, 0⟩).sizeInPages + inPage own k) % 2 ^ 64 = p.dmaLimit

/-- The metadata pages that are given back with the extents `own` are the last ones, and no other extent in them
is taken. -/
structure LastPages (p : DmaPool) (own : List EntryPtr) : Prop where
  /-- Behind a page that is given back there are no others. -/
  last : ∀ k, 1 ≤ k → k < p.dmaMetadataPages → p.Drains own k → p.Drains own (k + 1)
  /-- No other extent in it is taken. -/
  empty : ∀ k, 1 ≤ k → k ≤ p.dmaMetadataPages → p.Drains own k → ∀ x, p.Extent x → x.page = k → x ∉ own →
    (p.entry x).status ≠ .used

end DmaPool

/-- No signature in the buffer, in front of that of its descriptor. -/
def Allocation.NoSignBefore (a : Allocation) (w : DmaWorld) : Prop :=
  ∀ i, i + 28 < 4096 * a.ret.sizeInPages → ¬ HasBytes w.bytes (a.ret.physicalAddress + i) dmaSign

section

open DmaPool

variable {base : Set Nat} {pml4 n : Nat} {w w' : DmaWorld} {live live' : List Allocation} {ptrs : List EntryPtr}
  {f : Nat → Nat} {a : Allocation}

theorem DmaInv.perm (h : DmaInv pml4 base live w ptrs f) (hp : live.Perm live') :
    DmaInv pml4 base live' w ptrs f where
  arena := h.arena.perm ((hp.map _).append_left _)
  stock := h.stock.perm ((hp.map _).append_left _)
  pool := h.pool
  placed a ha := h.placed a (hp.mem_iff.mpr ha)
  apart := hp.pairwise h.apart fun {_ _} hd => hd.symm
  sound a ha := h.sound a (hp.mem_iff.mpr ha)
  descriptor a ha := h.descriptor a (hp.mem_iff.mpr ha)

/-- A buffer is mapped to bytes that lie side by side. -/
theorem DmaInv.contiguous (h : DmaInv pml4 base live w ptrs f) (ha : a ∈ live) :
    Contiguous pml4 w a.ret.virtualAddress a.ret.physicalAddress (4096 * a.ret.sizeInPages) := by
  obtain ⟨k, hbase, hk, hpage⟩ := h.region_inWindow ha
  have hback := h.arena.backed _ (List.mem_append_right _ (List.mem_map_of_mem ha))
  have hcont := hback.contiguous (w := w) hpage (show k + a.ret.sizeInPages ≤ 2 ^ 19 by omega)
  have hphys : 4096 * a.region.frame = a.ret.physicalAddress :=
    Nat.mul_div_cancel' (Nat.dvd_of_mod_eq_zero (h.sound a ha).2)
  rw [← hbase, hphys] at hcont
  exact hcont

/-- The search for the signature ends at the descriptor of the allocation. -/
theorem DmaInv.find (h : DmaInv pml4 base live w ptrs f) (ha : a ∈ live) (hfirst : a.NoSignBefore w) (n : Nat) :
    w.findDescriptorBase pml4 n a.ret.virtualAddress = if 4096 * a.ret.sizeInPages - 28 < n then
      some (a.ret.virtualAddress + (4096 * a.ret.sizeInPages - 28)) else none := by
  have hsize := (h.sound a ha).1
  have hdesc := h.descriptor a ha
  rw [descriptorBytes, List.append_assoc, List.append_assoc, HasBytes.append_iff, Allocation.descriptor] at hdesc
  have hfind := DmaWorld.findDescriptorBase_spec (i := 0) (d := 4096 * a.ret.sizeInPages - 28) (h.contiguous ha)
    (by rw [Nat.zero_add]; exact hdesc.1) (by omega) (fun j hj => by rw [Nat.zero_add]; exact hfirst j (by omega)) n
  rwa [Nat.zero_add, Nat.add_zero] at hfind

/-- The descriptor is read as it was written. -/
theorem DmaInv.loads (h : DmaInv pml4 base live w ptrs f) (ha : a ∈ live) :
    w.loadBytes pml4 4 (a.ret.virtualAddress + (4096 * a.ret.sizeInPages - 28) + 8) =
        some (leBytes 4 a.extents.length) ∧
      w.loadBytes pml4 8 (a.ret.virtualAddress + (4096 * a.ret.sizeInPages - 28) + 12) =
        some (leBytes 8 a.ret.sizeInPages) ∧
      w.loadBytes pml4 8 (a.ret.virtualAddress + (4096 * a.ret.sizeInPages - 28) + 20) =
        some (leBytes 8 ((a.extents.head?.map EntryPtr.addr).getD 0)) := by
  have hsize := (h.sound a ha).1
  have hcont := h.contiguous ha
  have hdesc := h.descriptor a ha
  have hsign : dmaSign.length = 8 := rfl
  simp only [descriptorBytes, HasBytes.append_iff, List.length_append, length_leBytes, hsign,
    Allocation.descriptor] at hdesc
  obtain ⟨⟨⟨-, h1⟩, h2⟩, h3⟩ := hdesc
  have hload : ∀ {l : List (BitVec 8)} {j : Nat}, HasBytes w.bytes
      (a.ret.physicalAddress + (4096 * a.ret.sizeInPages - 28) + j) l → j + l.length ≤ 28 →
      w.loadBytes pml4 l.length (a.ret.virtualAddress + (4096 * a.ret.sizeInPages - 28) + j) = some l := by
    intro l j hl hj
    rw [Nat.add_assoc] at hl
    have := DmaWorld.loadBytes_spec (i := 4096 * a.ret.sizeInPages - 28 + j) hcont hl (by omega)
    rwa [← Nat.add_assoc] at this
  refine ⟨?_, ?_, ?_⟩
  · simpa only [length_leBytes] using hload h1 (by rw [length_leBytes]; omega)
  · simpa only [length_leBytes] using hload h2 (by rw [length_leBytes]; omega)
  · simpa only [length_leBytes] using hload h3 (by rw [length_leBytes])

/-- The extents of a live allocation are linked, from the first on. -/
theorem DmaInv.linked (h : DmaInv pml4 base live w ptrs f) (ha : a ∈ live) :
    ∃ b, Lseg w.pool.next a.extents.head? a.extents b := by
  obtain ⟨pre, ⟨rest, hsplit⟩, -⟩ := (h.placed a ha).place
  have hlink := h.pool.linked
  rw [← hsplit, List.append_assoc] at hlink
  obtain ⟨c, -, hlink⟩ := Lseg.append_iff.mp hlink
  obtain ⟨b, hlink, -⟩ := Lseg.append_iff.mp hlink
  obtain ⟨y, l, hl⟩ := List.exists_cons_of_ne_nil (h.placed a ha).nonempty
  rw [hl] at hlink ⊢
  obtain rfl := hlink.1
  exact ⟨b, hlink⟩

/-- The window bounds the extents of an allocation. -/
theorem DmaInv.length_le (h : DmaInv pml4 base live w ptrs f) (ha : a ∈ live) : a.extents.length ≤ 2 ^ 18 := by
  obtain ⟨pre, hpre, -⟩ := (h.placed a ha).place
  have hlen := hpre.length_le
  rw [List.length_append] at hlen
  have hmany := h.pool.length_le
  have hwindow := h.pool.total_le
  omega

/-- The frame that `free_dma` looks up is the first one of the buffer. -/
theorem DmaInv.lookup (h : DmaInv pml4 base live w ptrs f) (hpml4 : pml4 ≠ 0) (ha : a ∈ live) :
    (pagingLookup w.machine a.ret.virtualAddress pml4).physicalAddress / 4096 = a.region.frame := by
  have hback := h.arena.backed _ (List.mem_append_right _ (List.mem_map_of_mem ha))
  have hpos : 0 < a.region.count := by
    have := (h.sound a ha).1
    show 0 < a.ret.sizeInPages
    omega
  obtain ⟨k, e, hw, he⟩ := hback.first hpos
  rw [pagingLookup_of_walk hpml4 hw, addrOf_eq, Nat.mul_div_cancel _ (by decide)]
  exact he

/-- What `free_dma` comes to when it finds the descriptor of the allocation. -/
structure GivenBack (base : Set Nat) (pml4 : Nat) (live' : List Allocation) (a : Allocation) (w : DmaWorld)
    (ptrs : List EntryPtr) (f : Nat → Nat) (w' : DmaWorld) (s : FrameState) (q : DmaPool) (r : DmaPool × Machine) :
    Prop where
  /-- The frames of the buffer are cleared. -/
  frames : ∀ fr, fr ∈ s.usedPages ↔ fr ∈ w.machine.frames.usedPages ∧ fr ∉ a.region.frames
  /-- The extents are marked free. -/
  released : Released w.pool a.extents q
  /-- Metadata pages are given back. -/
  reclaimed : Reclaimed base pml4 q ptrs { w.machine with frames := s } f ((a :: live').map Allocation.region)
    (live'.map Allocation.region) r
  /-- The buffer is unmapped. -/
  withdrawn : Withdrawn (pml4 >>> 12) a.region.pages r.2 w'.machine
  /-- Nothing else is changed. -/
  rest : w' = { w with pool := r.1, machine := w'.machine }
  /-- What is left in the arena. -/
  backed : DmaBacked pml4 base live' w' f

/-- `free_dma`, once the descriptor is found. -/
def freeDmaAt (pml4 n : Nat) (w : DmaWorld) (base ptr : Nat) : Option DmaWorld := do
  let status ← w.loadBytes pml4 4 (ptr + 8)
  let size ← w.loadBytes pml4 8 (ptr + 12)
  let home ← w.loadBytes pml4 8 (ptr + 20)
  let entriesUsed := if leValue status < 2 ^ 31 then leValue status else 0
  let frame : MemoryDescriptor :=
    { virtualStart := base, numberOfPages := leValue size
      physicalStart := (pagingLookup w.machine base pml4).physicalAddress }
  let m := { w.machine with frames := freeFrame w.machine.frames frame }
  let p ← DmaPool.releaseLoop entriesUsed (entryPtrAt (leValue home)) w.pool
  let (p, m) ← reclaimLoop pml4 n p.dmaMetadataPages p m
  return { w with pool := p, machine := destroyMapping m base (leValue size) pml4 }

theorem freeDma_eq (pml4 n : Nat) (w : DmaWorld) (base : Nat) :
    freeDma pml4 n w base = (w.findDescriptorBase pml4 n base).bind (freeDmaAt pml4 n w base) := rfl

/-- What the rest of the call comes to. -/
theorem freeDma_ends {base : Nat} {ptr : Nat} {status size home : List (BitVec 8)} {own : List EntryPtr} {q : DmaPool}
    {r : DmaPool × Machine} (hfind : Ends (fun n => w.findDescriptorBase pml4 n base) ptr)
    (hstatus : w.loadBytes pml4 4 (ptr + 8) = some status) (hsize : w.loadBytes pml4 8 (ptr + 12) = some size)
    (hhome : w.loadBytes pml4 8 (ptr + 20) = some home) (hlen : leValue status = own.length)
    (hsmall : own.length < 2 ^ 31) (hrelease : releaseLoop own.length (entryPtrAt (leValue home)) w.pool = some q)
    (hreclaim : Ends (fun n => reclaimLoop pml4 n q.dmaMetadataPages q { w.machine with
      frames := freeFrame w.machine.frames
        { virtualStart := base, numberOfPages := leValue size
          physicalStart := (pagingLookup w.machine base pml4).physicalAddress } }) r) :
    Ends (fun n => freeDma pml4 n w base)
      { w with pool := r.1, machine := destroyMapping r.2 base (leValue size) pml4 } := by
  refine hfind.andThen (fun n => freeDma_eq pml4 n w base) ?_
  refine Ends.andThen (k := fun _ r => some
      { w with pool := r.1, machine := destroyMapping r.2 base (leValue size) pml4 })
    (fun n => ?_) hreclaim (Ends.const _)
  simp only [freeDmaAt, hstatus, hsize, hhome, Option.bind_eq_bind, Option.bind_some, hlen, if_pos hsmall, hrelease]
  rfl

/-- The extents of the other allocations are in pages that stay. -/
theorem DmaInv.page_le (h : DmaInv pml4 base (a :: live') w ptrs f) (hlast : w.pool.LastPages a.extents) {q : DmaPool}
    {r : DmaPool × Machine} {m : Machine} {as bs : List Region} (hr : Released w.pool a.extents q)
    (hrec : Reclaimed base pml4 q ptrs m f as bs r) {b : Allocation} (hb : b ∈ live') {pre : List EntryPtr}
    (hpre : pre ++ b.extents <+: ptrs) : ∀ x ∈ pre ++ b.extents, x.page ≤ r.1.dmaMetadataPages := by
  have hplaced := h.placed b (List.mem_cons_of_mem _ hb)
  have hM : q.dmaMetadataPages = w.pool.dmaMetadataPages := by rw [hr.same]
  have hown : ∀ x ∈ b.extents, x.page ≤ r.1.dmaMetadataPages := by
    intro x hx
    by_contra hpage
    have hle := (h.pool.slots x (hplaced.mem x hx)).2.2
    have hdrop := hrec.dropped x.page (Nat.not_le.mp hpage) (by rw [hM]; exact hle)
    have hdrain : w.pool.Drains a.extents x.page := by
      rw [Drops, hr.headers x.page hle] at hdrop
      rw [Drains, h.pool.limit]
      exact hdrop
    have hext : w.pool.Extent x := (h.pool.linked.reaches_iff).mpr (hplaced.mem x hx)
    have hnot : x ∉ a.extents := fun hxa => (List.pairwise_cons.mp h.apart).1 b hb hxa hx
    exact hlast.empty x.page (by omega) hle hdrain x hext rfl hnot (hplaced.taken x hx)
  intro x hx
  rcases List.mem_append.mp hx with hxp | hxb
  · obtain ⟨y, l, hl⟩ := List.exists_cons_of_ne_nil hplaced.nonempty
    have hy : y ∈ b.extents := by
      rw [hl]
      exact List.mem_cons_self
    have hbefore := (List.pairwise_append.mp (h.pool.sorted.sublist hpre.sublist)).2.2 x hxp y hy
    have hypage := hown y hy
    rcases hbefore with hlt | ⟨heq, -⟩ <;> omega
  · exact hown x hxb

/-- A number that was written is read as it was. -/
theorem leValue_leBytes_of_lt {k v : Nat} (h : v < 256 ^ k) : leValue (leBytes k v) = v := by
  rw [leValue_leBytes, Nat.mod_eq_of_lt h]

/-- **An allocation is given back.** -/
theorem DmaInv.free (h : DmaInv pml4 base (a :: live') w ptrs f) (hpml4 : pml4 ≠ 0) (hfirst : a.NoSignBefore w)
    (hlast : w.pool.LastPages a.extents) : ∃ w' s q r, Ends (fun n => freeDma pml4 n w a.ret.virtualAddress) w' ∧
      GivenBack base pml4 live' a w ptrs f w' s q r ∧
      DmaInv pml4 base live' w' (ptrs.filter (·.page ≤ r.1.dmaMetadataPages)) f := by
  have ha : a ∈ a :: live' := List.mem_cons_self
  have hplaced := h.placed a ha
  obtain ⟨hl4, hl8, hlh⟩ := h.loads ha
  obtain ⟨k, hbase, hk, hpage⟩ := h.region_inWindow ha
  have hcount : a.region.count = a.ret.sizeInPages := rfl
  have hpos := (h.sound a ha).1
  have hmany := h.length_le ha
  -- the numbers in the descriptor
  have hlen : leValue (leBytes 4 a.extents.length) = a.extents.length := leValue_leBytes_of_lt (by omega)
  have hsize : leValue (leBytes 8 a.ret.sizeInPages) = a.ret.sizeInPages := leValue_leBytes_of_lt (by omega)
  have hhome : entryPtrAt (leValue (leBytes 8 ((a.extents.head?.map EntryPtr.addr).getD 0))) = a.extents.head? := by
    obtain ⟨y, l, hl⟩ := List.exists_cons_of_ne_nil hplaced.nonempty
    rw [hl, List.head?_cons, Option.map_some, Option.getD_some]
    obtain ⟨-, hslot, hp⟩ := h.pool.slots y (hplaced.mem y (by rw [hl]; exact List.mem_cons_self))
    have hM := h.pool.pages_le
    have htotal := h.pool.total_le
    have haddr : y.addr < 256 ^ 8 := by
      rw [EntryPtr.addr, dmaPoolBase]
      omega
    rw [leValue_leBytes_of_lt haddr, entryPtrAt_addr (by omega)]
  -- the frames
  let d : MemoryDescriptor :=
    { virtualStart := a.ret.virtualAddress, numberOfPages := leValue (leBytes 8 a.ret.sizeInPages)
      physicalStart := (pagingLookup w.machine a.ret.virtualAddress pml4).physicalAddress }
  have hmarks := freeFrame_region (r := a.region) (d := d) w.machine.frames (h.lookup hpml4 ha) hsize
  have hperm : (metaRegions f (w.pool.dmaMetadataPages + 1) ++ (a :: live').map Allocation.region).Perm
      (a.region :: (metaRegions f (w.pool.dmaMetadataPages + 1) ++ live'.map Allocation.region)) := by
    rw [List.map_cons]
    exact List.perm_middle
  have hS := h.stock.perm hperm
  have hA₁ := h.arena.give (fun k p f hk hf => hS.noTable List.mem_cons_self hk hf) hmarks
  have hS₁ := hS.give hmarks
  -- the extents
  obtain ⟨b, hlink⟩ := h.linked ha
  have hnodup : a.extents.Nodup := by
    obtain ⟨pre, hpre, -⟩ := hplaced.place
    exact (List.nodup_append.mp (h.pool.nodup.sublist hpre.sublist)).2.1
  obtain ⟨q, hrelease, hr⟩ := releaseLoop_spec h.pool hplaced.mem hnodup hlink
  have hM : q.dmaMetadataPages = w.pool.dmaMetadataPages := by rw [hr.same]
  have hdrains : ∀ i, i ≤ w.pool.dmaMetadataPages → (q.Drops i ↔ w.pool.Drains a.extents i) := by
    intro i hi
    rw [Drops, Drains, hr.headers i hi, h.pool.limit]
  -- the metadata pages
  rw [← hM] at hA₁ hS₁
  obtain ⟨r, hreclaim, hrec, -⟩ := reclaimLoop_spec hpml4 (hr.inv h.pool) (le_refl _)
    (fun hlt => absurd hlt (lt_irrefl _)) (fun i h1 h2 hd =>
      (hdrains _ (by omega)).mpr (hlast.last i h1 (by omega) ((hdrains i (by omega)).mp hd))) hA₁ hS₁
  -- the pages of the buffer
  obtain ⟨hrange, hpageOf, hend⟩ := dma_range (k := k) (n := a.ret.sizeInPages) (by omega) (by omega)
  rw [← hbase] at hrange hpageOf hend
  have hperm' : (metaRegions f (r.1.dmaMetadataPages + 1) ++ (a :: live').map Allocation.region).Perm
      (a.region :: (metaRegions f (r.1.dmaMetadataPages + 1) ++ live'.map Allocation.region)) := by
    rw [List.map_cons]
    exact List.perm_middle
  obtain ⟨hwith, hsteps, hA₂⟩ := (hrec.arena.perm hperm').destroy hpml4 hrange (hpageOf.trans hpage.symm) hend
  have hS₂ := hrec.stock.steps hrec.arena.wellFormed hsteps
  have hfind : Ends (fun n => w.findDescriptorBase pml4 n a.ret.virtualAddress)
      (a.ret.virtualAddress + (4096 * a.ret.sizeInPages - 28)) := Ends.of_lt fun n => h.find ha hfirst n
  have hends := freeDma_ends hfind hl4 hl8 hlh hlen (by omega) (by rw [hhome]; exact hrelease) hreclaim
  rw [hsize] at hends
  refine ⟨_, _, q, r, hends, ⟨hmarks, hr, hrec, hwith, rfl, hA₂, hS₂⟩, ⟨hA₂, hS₂⟩, hrec.inv, fun b hb => ?_,
    (List.pairwise_cons.mp h.apart).2, fun b hb => h.sound b (List.mem_cons_of_mem _ hb),
    fun b hb => h.descriptor b (List.mem_cons_of_mem _ hb)⟩
  -- the extents of the others
  have hpb := h.placed b (List.mem_cons_of_mem _ hb)
  have hother : ∀ x ∈ b.extents, q.entry x = w.pool.entry x := by
    intro x hx
    refine hr.others x (fun hxa => (List.pairwise_cons.mp h.apart).1 b hb hxa hx) ?_
    have := (h.pool.slots x (hpb.mem x hx)).1
    omega
  refine hpb.congr (fun pre hpre => ?_) (fun x hx => ?_) fun x hx => ?_
  · have hfilter : (pre ++ b.extents).filter (·.page ≤ r.1.dmaMetadataPages) = pre ++ b.extents :=
      List.filter_eq_self.mpr fun x hx => by simpa using h.page_le hlast hr hrec hb hpre x hx
    rw [← hfilter]
    exact hpre.filter _
  · rw [(hrec.same x).2]
    by_cases hxa : x ∈ a.extents
    · rw [hr.freed x hxa]
    · rw [hr.others x hxa (by have := (h.pool.slots x hx).1; omega)]
  · rw [(hrec.same x).1, hother x hx]

end

end Dem64
