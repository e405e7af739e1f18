import Dem64.Kmalloc.Alloc

/-!
# `kfree`

`kfree` gives the objects of a block back to their slab.  A slab without objects in use is put on the
stack, and its page is given back; then the slab pages behind the first one that have no slab in use are
given back, from the last one on (`reclaimSlabs_spec`).  A large block gives back its own pages too.
-/

set_option autoImplicit false

namespace Dem64.Kmalloc

open BitRow

/-- Slab pages were given back. -/
structure Reclaims (L : Layout) (s : Heap) (L' : Layout) (s' : Heap) : Prop where
  ok : HeapOk L' s'
  latest : LatestOk L' s'
  inUse : ∀ x, s'.InUse L' x ↔ s.InUse L x
  slab : ∀ x, (s'.slab x).view = (s.slab x).view
  data : ∀ x y, L'.own y = some (.data x) ↔ L.own y = some (.data x)
  body : ∀ x y, L'.own y = some (.body x) ↔ L.own y = some (.body x)
  header : s'.header = s.header
  start : s'.start = s.start

/-- The layout without the slab page `p`. -/
def Layout.without (p : Nat) (l : List Nat) (L : Layout) : Layout :=
  { ((L.disown (.page p)).disown (.unused p)).disown (.used p) with pages := l }

/-- The slab page between `l` and `r` is taken out of the list, and its pages are given back. -/
structure Removes (L : Layout) (l : List Nat) (p : Nat) (r : List Nat) (s s' : Heap) : Prop where
  pages : L.pages = l ++ p :: r
  ne : l ≠ []
  titles : Titles (L.without p (l ++ r)) s'
  list : Dll (fun p => (s'.hd p).nextPage) (fun p => (s'.hd p).formerPage) 0 (l ++ r) 0
  hd : ∀ q, (s'.hd q).freeEntries = (s.hd q).freeEntries ∧ (s'.hd q).unusedEntries = (s.hd q).unusedEntries ∧
    (s'.hd q).usedCache = (s.hd q).usedCache ∧ (s'.hd q).unusedCache = (s.hd q).unusedCache
  slab : ∀ x, (s'.slab x).view = (s.slab x).view
  cache : s'.cache = s.cache
  header : s'.header = s.header
  shd : s'.shd = s.shd
  start : s'.start = s.start
  kmax : s'.kmax = s.kmax

/-- The slab `a` got objects back, and its map is `map` now. -/
structure Gives (a : Nat) (map : Nat → BitVec 8) (L : Layout) (s : Heap) (L' : Layout) (s' : Heap) : Prop where
  ok : HeapOk L' s'
  latest : LatestOk L' s'
  frame : ∀ b, Frame a b L s L' s'
  inUse : s'.InUse L' a ↔ ones map 128 ≠ 0
  map : (s'.slab a).cache2048 = map
  base : s'.InUse L' a → (s'.slab a).pageBase = (s.slab a).pageBase
  /-- It has its page as long as it is in use. -/
  data : ∀ y, L'.own y = some (.data a) ↔ s'.InUse L' a ∧ L.own y = some (.data a)
  pages : L'.pages = L.pages
  shd : s'.shd = s.shd
  header : s'.header = s.header
  start : s'.start = s.start

/-- Slab `i` of the page `p` is back on the stack. -/
def released (p i req : Nat) (map : Nat → BitVec 8) (s : Heap) : Heap :=
  ((((s.setSlab (slabAt p i) fun e => { e with cache2048 := map, freeObs := e.freeObs + req }).setCache
      (s.hd p).unusedCache (SlabCache.push (slabAt p i))).setCache (s.hd p).usedCache (SlabCache.void i)).setHd p
      fun h => { h with unusedEntries := (h.unusedEntries + 1) % 2 ^ 64 }).setSlab (slabAt p i)
    fun e => { e with pageBase := invalidBase }

section

variable {L L' L'' : Layout} {live : Set Nat} {s s' s'' : Heap} {a b p q i x n req sc base pages : Nat} {miss : Bool}
  {l r : List Nat} {map : Nat → BitVec 8} {o : Owner}

theorem Reclaims.trans (h : Reclaims L s L' s') (h' : Reclaims L' s' L'' s'') : Reclaims L s L'' s'' where
  ok := h'.ok
  latest := h'.latest
  inUse x := (h'.inUse x).trans (h.inUse x)
  slab x := (h'.slab x).trans (h.slab x)
  data x y := (h'.data x y).trans (h.data x y)
  body x y := (h'.body x y).trans (h.body x y)
  header := h'.header.trans h.header
  start := h'.start.trans h.start

/-! ## `check_page` -/

/-- **`check_page` tells whether a slab page behind the first one has no slab in use.** -/
theorem HeapOk.checkPage_iff (h : HeapOk L s) (hp : p ∈ L.pages) (hne : p ≠ s.shd) :
    checkPage p s = true ↔ ∀ i, i < s.carved p → ¬ (s.view p).InUse i := by
  have hok := h.ok p hp
  have hcap := h.capacity p hp
  have hentries : (s.hd p).unusedEntries = (s.view p).unused.index := hok.entries
  have hle : (s.view p).unused.index ≤ s.carved p := hok.unused_le
  have hiff := hok.unused_eq_iff
  have hcarved : s.carved p = 79 - (s.hd p).freeEntries := by
    rw [Heap.carved, Heap.capacity, if_neg hne, pageCapacity_eq]
  rw [Heap.capacity, if_neg hne, pageCapacity_eq] at hcap
  have hview : (s.view p).carved = s.carved p := rfl
  rw [hview] at hiff
  rw [checkPage, beq_iff_eq, pageCapacity_eq, subU64_eq hcap (by decide), subU64_eq (by omega) (by omega), ← hiff]
  omega

/-! ## Giving a slab page back -/

theorem without_iff {o : Owner} {l : List Nat} : (L.without p l).own x = some o ↔
    L.own x = some o ∧ o ≠ .page p ∧ o ≠ .unused p ∧ o ≠ .used p := by
  have h : (L.without p l).own x = some o ↔ _ := disown_iff
  rw [h, disown_iff, disown_iff, and_assoc, and_assoc]

section

variable (h : HeapOk L s) (hr : Removes L l p r s s')
include hr

theorem Removes.view (q : Nat) : s'.view q = s.view q := by
  obtain ⟨hfree, hentries, hused, hunused⟩ := hr.hd q
  have hslabs : (s'.view q).slab = (s.view q).slab := by
    funext i
    show (if _ then _ else _) = (if _ then _ else _)
    rw [hr.slab]
  show PageView.mk ((if q = s'.shd then _ else _) - (s'.hd q).freeEntries) (s'.cache (s'.hd q).usedCache)
    (s'.cache (s'.hd q).unusedCache) (s'.hd q).unusedEntries (s'.view q).slab = s.view q
  rw [hslabs, hfree, hentries, hused, hunused, hr.cache, hr.shd]
  rfl

include h

theorem Removes.mem_iff : q ∈ l ++ r ↔ q ∈ L.pages ∧ q ≠ p := by
  have hnd := h.nodup
  rw [hr.pages] at hnd ⊢
  have hpl : p ∉ l ++ r := (List.nodup_middle.mp hnd).notMem
  simp only [List.mem_append, List.mem_cons]
  constructor
  · intro hq
    refine ⟨hq.imp_right .inr, ?_⟩
    rintro rfl
    exact hpl (List.mem_append.mpr hq)
  · rintro ⟨hq | rfl | hq, hne⟩
    · exact .inl hq
    · exact absurd rfl hne
    · exact .inr hq

/-- **The heap without the page is in order**, if no slab of the page is in use. -/
theorem HeapOk.remove (hidle : ∀ i, i < s.carved p → ¬ (s.view p).InUse i) :
    HeapOk (L.without p (l ++ r)) s' ∧ (∀ x, s'.InUse (L.without p (l ++ r)) x ↔ s.InUse L x) := by
  have hmem : ∀ {q}, q ∈ l ++ r ↔ q ∈ L.pages ∧ q ≠ p := hr.mem_iff h
  have hcap : ∀ q, s'.capacity q = s.capacity q := fun q => by
    rw [Heap.capacity, Heap.capacity, hr.shd]
  have hdrop : ∀ q ∈ (l ++ r).dropLast, q ∈ L.pages.dropLast := by
    intro q hq
    rw [hr.pages]
    rcases List.eq_nil_or_concat' r with rfl | ⟨r, f, rfl⟩
    · rw [List.append_nil] at hq
      rw [List.dropLast_concat]
      exact List.mem_of_mem_dropLast hq
    · rw [← List.append_assoc, List.dropLast_concat] at hq
      rw [← List.cons_append, ← List.append_assoc, List.dropLast_concat]
      exact (List.mem_append.mp hq).elim (List.mem_append_left _) fun hq =>
        List.mem_append_right _ (List.mem_cons_of_mem _ hq)
  refine ⟨⟨hr.titles, ?_, hr.list, ?_, ?_, ?_, ?_, ?_, ?_, ?_, ?_, ?_, ?_, ?_⟩, fun x => ⟨?_, ?_⟩⟩
  · have hnd := h.nodup
    rw [hr.pages] at hnd
    exact (List.nodup_middle.mp hnd).of_cons
  · show (l ++ r).headD 0 = _
    rw [hr.shd, ← h.head, hr.pages]
    cases hl : l with
    | nil => exact absurd hl hr.ne
    | cons q l => rfl
  · exact fun q hq => h.aligned q (hmem.mp hq).1
  · intro q hq
    obtain ⟨-, -, hused, hunused⟩ := hr.hd q
    rw [hused, hunused]
    exact h.caches q (hmem.mp hq).1
  · intro q x
    rw [without_iff, h.page]
    show _ ↔ q ∈ l ++ r ∧ _
    rw [hmem]
    constructor
    · rintro ⟨⟨hq, hx⟩, hne, -⟩
      exact ⟨⟨hq, fun heq => hne (heq ▸ rfl)⟩, hx⟩
    · rintro ⟨⟨hq, hne⟩, hx⟩
      exact ⟨⟨hq, hx⟩, fun heq => hne (Owner.page.inj heq), by simp, by simp⟩
  · intro q x
    obtain ⟨-, -, hused, hunused⟩ := hr.hd q
    rw [without_iff, h.used, hused]
    show _ ↔ q ∈ l ++ r ∧ _
    rw [hmem]
    constructor
    · rintro ⟨⟨hq, hx⟩, -, -, hne⟩
      exact ⟨⟨hq, fun heq => hne (heq ▸ rfl)⟩, hx⟩
    · rintro ⟨⟨hq, hne⟩, hx⟩
      exact ⟨⟨hq, hx⟩, by simp, by simp, fun heq => hne (Owner.used.inj heq)⟩
  · intro q x
    obtain ⟨-, -, hused, hunused⟩ := hr.hd q
    rw [without_iff, h.unused, hunused]
    show _ ↔ q ∈ l ++ r ∧ _
    rw [hmem]
    constructor
    · rintro ⟨⟨hq, hx⟩, -, hne, -⟩
      exact ⟨⟨hq, fun heq => hne (heq ▸ rfl)⟩, hx⟩
    · rintro ⟨⟨hq, hne⟩, hx⟩
      exact ⟨⟨hq, hx⟩, by simp, fun heq => hne (Owner.unused.inj heq), by simp⟩
  · intro q hq
    rw [(hr.hd q).1, hcap]
    exact h.capacity q (hmem.mp hq).1
  · intro q hq
    rw [hr.view]
    exact h.ok q (hmem.mp hq).1
  · intro q hq
    rw [(hr.hd q).1]
    exact h.full q (hdrop q hq)
  · intro h0 q hq
    rw [Heap.carved, hcap, (hr.hd q).1]
    exact h.first (hr.start ▸ h0) q (hmem.mp hq).1
  · intro _
    rw [hr.kmax]
    refine h.kmax ?_
    rw [hr.pages]
    exact List.append_ne_nil_of_left_ne_nil hr.ne _
  · rintro ⟨q, hq, i, heq, hu⟩
    rw [hr.view] at hu
    exact ⟨q, (hmem.mp hq).1, i, heq, hu⟩
  · rintro ⟨q, hq, i, heq, hu⟩
    have hne : q ≠ p := by
      rintro rfl
      exact hidle i hu.1 hu
    rw [← hr.view] at hu
    exact ⟨q, hmem.mpr ⟨hq, hne⟩, i, heq, hu⟩

end

/-! ## Taking a page out of the list -/

/-- The fields that the search for a slab does not read, after a page was taken out. -/
theorem unlinkSlabPage_same : (∀ x, ((unlinkSlabPage miss p s).slab x).view = (s.slab x).view) ∧
    (unlinkSlabPage miss p s).cache = s.cache ∧ (unlinkSlabPage miss p s).header = s.header ∧
    (unlinkSlabPage miss p s).shd = s.shd ∧ (unlinkSlabPage miss p s).start = s.start ∧
    (unlinkSlabPage miss p s).kmax = s.kmax ∧ (unlinkSlabPage miss p s).calls = s.calls ∧
    (unlinkSlabPage miss p s).latest = s.latest := by
  rw [unlinkSlabPage]
  split
  · refine ⟨fun x => ?_, rfl, rfl, rfl, rfl, rfl, rfl, rfl⟩
    show SlabObj.view (if _ then _ else _) = _
    split
    · rename_i hx
      rw [hx]
      rfl
    · rfl
  · exact ⟨fun _ => rfl, rfl, rfl, rfl, rfl, rfl, rfl, rfl⟩

/-- The links after the page behind `f` was taken out. -/
theorem HeapOk.unlink_hd (h : HeapOk L s) {f : Nat} (hl : L.pages = l ++ [f] ++ p :: r)
    (hmiss : miss = true ↔ r ≠ []) (q : Nat) : (unlinkSlabPage miss p s).hd q = { s.hd q with
      nextPage := if q = f then r.headD 0 else (s.hd q).nextPage
      formerPage := if q ∈ r.head? then f else (s.hd q).formerPage } := by
  have hlist := h.list
  rw [hl] at hlist
  obtain ⟨hformer, hnext⟩ := hlist.links
  have hformer : (s.hd p).formerPage = f := hformer.trans (by simp)
  have hnext : (s.hd p).nextPage = r.headD 0 := hnext
  rw [unlinkSlabPage]
  dsimp only
  rw [hformer, hnext]
  cases r with
  | nil =>
    rw [if_neg fun heq => hmiss.mp heq rfl]
    show (if q = f then _ else _) = _
    split
    · rename_i hq
      subst hq
      rfl
    · rfl
  | cons y r =>
    have hnd := h.nodup
    rw [hl] at hnd
    have hyf : y ≠ f := by
      rintro rfl
      exact (List.nodup_append.mp hnd).2.2 y (by simp) y (by simp) rfl
    rw [if_pos (hmiss.mpr (List.cons_ne_nil y r))]
    show (if q = y then { (if y = f then _ else s.hd y : SlabHd) with formerPage := f }
      else if q = f then _ else s.hd q) = _
    by_cases hqy : q = y
    · subst hqy
      have hhead : q ∈ (q :: r).head? := rfl
      rw [if_pos rfl, if_neg hyf, if_neg hyf, if_pos hhead]
    · have hhead : q ∉ (y :: r).head? := fun heq => hqy (Option.some.inj heq).symm
      rw [if_neg hqy, if_neg hhead]
      by_cases hqf : q = f
      · subst hqf
        rw [if_pos rfl, if_pos rfl]
      · rw [if_neg hqf, if_neg hqf]

/-- **A slab page behind the first one is taken out of the list, and its three pages are given back.** -/
theorem HeapOk.removes (h : HeapOk L s) {f : Nat} (hl : L.pages = l ++ [f] ++ p :: r)
    (hmiss : miss = true ↔ r ≠ []) :
    Removes L (l ++ [f]) p r s (deallocateSlab p (unlinkSlabPage miss p s)) := by
  have hp : p ∈ L.pages := by rw [hl]; simp
  have hhd := h.unlink_hd hl hmiss
  obtain ⟨hslab, hcache, hheader, hshd, hstart, hkmax, hcalls, -⟩ := @unlinkSlabPage_same s p miss
  have hlist := h.list
  have hnd := h.nodup
  rw [hl] at hlist hnd
  obtain ⟨hnd, hndr, hdisj⟩ := List.nodup_append.mp hnd
  have hfl : f ∉ l := fun hf => (List.nodup_append.mp hnd).2.2 f hf f List.mem_cons_self rfl
  refine ⟨hl, List.append_ne_nil_of_right_ne_nil l (List.cons_ne_nil f []), ?_, ?_, fun q => ?_, hslab, hcache,
    hheader, hshd, hstart, hkmax⟩
  · have htitles : Titles L (unlinkSlabPage miss p s) := fun x => by
      rw [hcalls]
      exact h.titles x
    have h1 := @Titles.disown _ _ p 1 (.page p) htitles fun x => by
      rw [h.page]
      exact and_iff_right hp
    have h2 := @Titles.disown _ _ (s.hd p).unusedCache 1 (.unused p) h1 fun x => by
      rw [disown_iff, h.unused]
      exact ⟨fun hand => hand.1.2, fun hx => ⟨⟨hp, hx⟩, nofun⟩⟩
    have h3 := @Titles.disown _ _ (s.hd p).usedCache 1 (.used p) h2 fun x => by
      rw [disown_iff, disown_iff, h.used]
      exact ⟨fun hand => hand.1.1.2, fun hx => ⟨⟨⟨hp, hx⟩, nofun⟩, nofun⟩⟩
    intro x
    have hx := h3 x
    rw [deallocateSlab, hhd]
    exact hx
  · have hshow : ∀ q, (deallocateSlab p (unlinkSlabPage miss p s)).hd q = _ := hhd
    refine Dll.remove hlist (fun y hy => ?_) (fun y hy => ?_) ?_ (fun y hy => ?_) (fun y hy => ?_) fun y hy => ?_
    · rw [hshow]
      refine if_neg ?_
      rintro rfl
      exact hfl hy
    · rw [hshow]
      refine if_neg fun hyr => hdisj y hy y ?_ rfl
      exact List.mem_cons_of_mem _ (List.mem_of_mem_head? hyr)
    · rw [hshow]
      exact if_pos rfl
    · rw [hshow]
      refine if_neg ?_
      rintro rfl
      exact hdisj y (by simp) y (List.mem_cons_of_mem _ hy) rfl
    · rw [hshow]
      exact if_pos hy
    · rw [hshow]
      refine if_neg fun hyr => ?_
      cases r with
      | nil => exact absurd hyr nofun
      | cons z r =>
        obtain rfl : z = y := Option.some.inj hyr
        exact (List.nodup_cons.mp (List.nodup_cons.mp hndr).2).1 hy
  · rw [show (deallocateSlab p (unlinkSlabPage miss p s)).hd q = _ from hhd q]
    exact ⟨rfl, rfl, rfl, rfl⟩

theorem Removes.reclaims (hr : Removes L l p r s s') (h : HeapOk L s)
    (hidle : ∀ i, i < s.carved p → ¬ (s.view p).InUse i) (hlatest : LatestOk (L.without p (l ++ r)) s') :
    Reclaims L s (L.without p (l ++ r)) s' := by
  obtain ⟨hok, hinUse⟩ := h.remove hr hidle
  refine ⟨hok, hlatest, hinUse, hr.slab, fun x y => ?_, fun x y => ?_, hr.header, hr.start⟩
  · rw [without_iff]
    exact and_iff_left ⟨nofun, nofun, nofun⟩
  · rw [without_iff]
    exact and_iff_left ⟨nofun, nofun, nofun⟩

/-- `latest` stays when a page before the last one is taken out. -/
theorem Removes.latest_of_ne (hr : Removes L l p r s s') (hlatest : LatestOk L s) (hne : r ≠ [])
    (hsame : s'.latest = s.latest) : LatestOk (L.without p (l ++ r)) s' := by
  intro hstart
  obtain ⟨-, h2, h3⟩ := hlatest (hr.start ▸ hstart)
  have hlast : (l ++ r).getLastD 0 = L.pages.getLastD 0 := by
    obtain ⟨r, y, rfl⟩ := (List.eq_nil_or_concat' r).resolve_left hne
    rw [hr.pages, ← List.append_assoc, List.getLastD_concat, ← List.cons_append, ← List.append_assoc,
      List.getLastD_concat]
  refine ⟨List.append_ne_nil_of_left_ne_nil hr.ne r, ?_⟩
  show findHd s'.latest = (l ++ r).getLastD 0 ∧ ((s'.hd ((l ++ r).getLastD 0)).freeEntries ≠ 0 →
    s'.latest + 36 = slabAt ((l ++ r).getLastD 0) (s'.carved ((l ++ r).getLastD 0)))
  rw [hlast, hsame, Heap.carved, Heap.capacity, hr.shd, (hr.hd _).1]
  exact ⟨h2, h3⟩

/-- The slot that becomes `latest` when the last page is given back: the last one of the page before it,
in which nothing is left to carve. -/
theorem lastSlot_eq {f : Nat} (hfull : (s.hd f).freeEntries = 0) (hkmax : s.kmax = firstCapacity)
    (hf : f + 4096 ≤ 2 ^ 64) : lastSlot f s = slabAt f 111 := by
  rw [lastSlot, hfull, hkmax, firstCapacity_eq]
  show (f + 48 + 36 * subU64 (subU64 112 0) 1) % 2 ^ 64 = f + 48 + 36 * 111
  rw [show subU64 (subU64 112 0) 1 = 111 by decide]
  omega

theorem lastSlot_congr {f : Nat} (hkmax : s'.kmax = s.kmax) (hhd : s'.hd f = s.hd f) :
    lastSlot f s' = lastSlot f s := by
  rw [lastSlot, lastSlot, hkmax, hhd]

theorem Removes.latest_of_last {f : Nat} (hr : Removes L (l ++ [f]) p [] s s') (h : HeapOk L s)
    (hnew : s'.latest = lastSlot f s') : LatestOk (L.without p (l ++ [f] ++ [])) s' := by
  have hf : f ∈ L.pages := by rw [hr.pages]; simp
  obtain ⟨h1, -, h3⟩ := h.aligned f hf
  have hfull : (s'.hd f).freeEntries = 0 := by
    rw [(hr.hd f).1]
    refine h.full f ?_
    rw [hr.pages, List.dropLast_concat]
    exact List.mem_append_right _ List.mem_cons_self
  have hkmax : s'.kmax = firstCapacity := hr.kmax.trans (h.kmax (List.ne_nil_of_mem hf))
  intro _
  refine ⟨by simp [Layout.without], ?_⟩
  show findHd s'.latest = (l ++ [f] ++ []).getLastD 0 ∧ ((s'.hd ((l ++ [f] ++ []).getLastD 0)).freeEntries ≠ 0 → _)
  rw [List.append_nil, List.getLastD_concat, hnew, lastSlot_eq hfull hkmax h3]
  exact ⟨findHd_slabAt h1 (by decide), fun hne => absurd hfull hne⟩

/-- **A slab page without slabs in use is given back.** -/
theorem HeapOk.reclaim (h : HeapOk L s) (hlatest : LatestOk L s) {f : Nat}
    (hl : L.pages = l ++ [f] ++ p :: r) (hmiss : miss = true ↔ r ≠ [])
    (hidle : ∀ i, i < s.carved p → ¬ (s.view p).InUse i) (k : Nat) :
    Reclaims L s (L.without p (l ++ [f] ++ r))
      (if miss then { deallocateSlab p (unlinkSlabPage miss p s) with slabPages := k }
        else resetLatest f { deallocateSlab p (unlinkSlabPage miss p s) with slabPages := k }) := by
  have hr := h.removes hl hmiss
  split
  · have hr' : Removes L (l ++ [f]) p r s
        { deallocateSlab p (unlinkSlabPage miss p s) with slabPages := k } :=
      ⟨hr.pages, hr.ne, hr.titles, hr.list, hr.hd, hr.slab, hr.cache, hr.header, hr.shd, hr.start, hr.kmax⟩
    exact hr'.reclaims h hidle (hr'.latest_of_ne hlatest (hmiss.mp (by assumption))
      unlinkSlabPage_same.2.2.2.2.2.2.2)
  · obtain rfl : r = [] := by
      by_contra hne
      exact absurd (hmiss.mpr hne) (by assumption)
    have hr' : Removes L (l ++ [f]) p [] s
        (resetLatest f { deallocateSlab p (unlinkSlabPage miss p s) with slabPages := k }) := by
      refine ⟨hr.pages, hr.ne, hr.titles, hr.list, hr.hd, fun x => ?_, hr.cache, hr.header, hr.shd, hr.start,
        hr.kmax⟩
      show SlabObj.view (if x = _ then _ else _) = _
      rw [← hr.slab]
      split
      · rename_i hx
        rw [← hx]
        rfl
      · rfl
    refine hr'.reclaims h hidle (hr'.latest_of_last h ?_)
    rw [resetLatest]
    exact lastSlot_congr rfl rfl

theorem Reclaims.refl (h : HeapOk L s) (hlatest : LatestOk L s) : Reclaims L s L s :=
  ⟨h, hlatest, fun _ => Iff.rfl, fun _ => rfl, fun _ _ => Iff.rfl, fun _ _ => Iff.rfl, rfl, rfl⟩

/-- **The loop gives back the pages behind the first one that have no slab in use**, from `p` on backwards,
if the pages behind `p` have some. -/
theorem reclaimSlabs_spec : ∀ {n : Nat} {miss : Bool} {p : Nat} {L : Layout} {s : Heap} {l r : List Nat},
    HeapOk L s → LatestOk L s → L.pages = l ++ p :: r → (miss = true ↔ r ≠ []) →
    (∀ q ∈ r, ∃ i < 112, s.InUse L (slabAt q i)) → reclaimSlabs n miss p s = .ok s' →
    ∃ L', Reclaims L s L' s' ∧ Busy L' s'
  | 0, _, _, _, _, _, _, _, _, _, _, _, hc => by cases hc
  | n + 1, miss, p, L, s, l, r, h, hlatest, hl, hmiss, hbusy, hc => by
    have hp : p ∈ L.pages := by rw [hl]; simp
    have hhead := h.head
    rw [reclaimSlabs] at hc
    by_cases hshd : p = s.shd
    · rw [if_pos hshd] at hc
      cases hc
      refine ⟨L, Reclaims.refl h hlatest, fun q hq hne => hbusy q ?_⟩
      cases l with
      | nil =>
        rw [hl] at hq
        exact (List.mem_cons.mp hq).resolve_left (hshd ▸ hne)
      | cons x l =>
        rw [hl] at hhead
        have hx : x = p := hhead.trans hshd.symm
        have hnd := h.nodup
        rw [hl, hx] at hnd
        exact absurd (List.mem_append_right l List.mem_cons_self) (List.nodup_cons.mp hnd).1
    · rw [if_neg hshd] at hc
      obtain ⟨l, f, rfl⟩ := (List.eq_nil_or_concat' l).resolve_left fun hnil => by
        rw [hl, hnil] at hhead
        exact hshd hhead
      have hlist := h.list
      rw [hl] at hlist
      have hformer : (s.hd p).formerPage = f := hlist.links.1.trans (by simp)
      dsimp only at hc
      rw [hformer] at hc
      split at hc
      · rename_i hcheck
        have hr := h.reclaim hlatest hl hmiss ((h.checkPage_iff hp hshd).mp hcheck)
          ((deallocateSlab p (unlinkSlabPage miss p s)).slabPages - 1)
        obtain ⟨L', hr', hbusy'⟩ := reclaimSlabs_spec hr.ok hr.latest
          (show l ++ [f] ++ r = l ++ f :: r by rw [List.append_assoc, List.singleton_append]) hmiss
          (fun q hq => (hbusy q hq).imp fun i hi => ⟨hi.1, (hr.inUse _).mpr hi.2⟩) hc
        exact ⟨L', hr.trans hr', hbusy'⟩
      · rename_i hcheck
        refine reclaimSlabs_spec (l := l) (r := p :: r) h hlatest ?_ (iff_of_true rfl (List.cons_ne_nil p r))
          (fun q hq => ?_) hc
        · rw [hl, List.append_assoc, List.singleton_append]
        · rcases List.mem_cons.mp hq with rfl | hq
          · rw [h.checkPage_iff hp hshd] at hcheck
            push Not at hcheck
            obtain ⟨i, hi, hu⟩ := hcheck
            have hi : i < 112 := Nat.lt_of_lt_of_le hi (h.carved_le hp)
            exact ⟨i, hi, (h.inUse_slabAt hp hi).mpr hu⟩
          · exact hbusy q hq

/-! ## Giving objects back -/

/-- **The heap is in order after a slab or a block gave its pages back.** -/
theorem HeapOk.freed (h : HeapOk L s) (ho : o.Outside)
    (hown : ∀ x, L.own x = some o ↔ base ≤ x ∧ x < base + 4096 * pages) :
    HeapOk (L.disown o) (s.vaFree base pages) := by
  refine ⟨h.titles.disown hown, h.nodup, h.list, h.head, h.aligned, h.caches, fun p x => ?_, fun p x => ?_,
    fun p x => ?_, h.capacity, h.ok, h.full, h.first, h.kmax⟩
  · rw [disown_iff, and_iff_left (ho p).1.symm]
    exact h.page p x
  · rw [disown_iff, and_iff_left (ho p).2.1.symm]
    exact h.used p x
  · rw [disown_iff, and_iff_left (ho p).2.2.symm]
    exact h.unused p x

theorem frame_freed (ho : o = .data a ∨ o = .body b) :
    Frame a b L s (L.disown o) (s.vaFree base pages) := by
  refine ⟨fun _ _ => Iff.rfl, fun _ _ _ => rfl, fun x hx y => ?_, fun x hx y => ?_, fun _ _ _ => rfl⟩
  · rw [disown_iff]
    refine and_iff_left ?_
    rcases ho with rfl | rfl
    · exact fun heq => hx (Owner.data.inj heq)
    · exact nofun
  · rw [disown_iff]
    refine and_iff_left ?_
    rcases ho with rfl | rfl
    · exact nofun
    · exact fun heq => hx (Owner.body.inj heq)

theorem released_hd : (released p i req map s).hd p =
    { s.hd p with unusedEntries := ((s.hd p).unusedEntries + 1) % 2 ^ 64 } := if_pos rfl

theorem released_slab : ((released p i req map s).slab (slabAt p i)).view =
    ⟨invalidBase, (s.slab (slabAt p i)).freeObs + req, map⟩ := by
  simp only [released, Heap.setSlab, Heap.setHd, Heap.setCache, if_true, SlabObj.view]

theorem released_other {j : Nat} (hji : j ≠ i) :
    (released p i req map s).slab (slabAt p j) = s.slab (slabAt p j) := by
  have hne : slabAt p j ≠ slabAt p i := fun heq => hji (slabAt_inj.mp heq)
  simp only [released, Heap.setSlab, Heap.setHd, Heap.setCache, if_neg hne]

theorem HeapOk.edits_released (h : HeapOk L s) (hp : p ∈ L.pages) (hi : i < 112) :
    Edits L p s (released p i req map s) := by
  have hslab := h.own_slab hp hi
  refine Edits.trans ?_ (Edits.setSlab (.inl hslab))
  refine Edits.trans ?_ (Edits.setHd (fun _ => rfl) (fun _ => rfl) (fun _ => rfl) fun _ => rfl)
  refine Edits.trans ?_ (Edits.setCache (.inl (h.own_used hp)))
  refine Edits.trans ?_ (Edits.setCache (.inr (h.own_unused hp)))
  exact Edits.setSlab (.inl hslab)

theorem HeapOk.view_released (h : HeapOk L s) (hp : p ∈ L.pages) (hi : i < 112) :
    (released p i req map s).view p =
      (s.view p).leave p i ⟨invalidBase, (s.slab (slabAt p i)).freeObs + req, map⟩ := by
  have hok := h.ok p hp
  have hle := hok.unused_le
  have hcarved := hok.carved_le
  have hentries : (s.hd p).unusedEntries = (s.view p).unused.index := hok.entries
  have hne := h.caches_ne hp
  refine view_eq hi ?_ ?_ ?_ ?_ (fun j => rfl) released_slab fun j hji => ?_
  · show s.capacity p - ((released p i req map s).hd p).freeEntries = s.carved p
    rw [released_hd]
    rfl
  · rw [released_hd]
    show (if (s.hd p).usedCache = (s.hd p).usedCache then SlabCache.void i
      (if (s.hd p).usedCache = (s.hd p).unusedCache then _ else _) else _) = _
    rw [if_pos rfl, if_neg hne]
    rfl
  · rw [released_hd]
    show (if (s.hd p).unusedCache = (s.hd p).usedCache then _ else
      if (s.hd p).unusedCache = (s.hd p).unusedCache then _ else _) = _
    rw [if_neg hne.symm, if_pos rfl]
    rfl
  · rw [released_hd]
    show ((s.hd p).unusedEntries + 1) % 2 ^ 64 = (s.hd p).unusedEntries + 1
    rw [hentries]
    omega
  · rw [released_other hji]

/-- **A slab gets objects back.**  If it has no others, its page is given back. -/
theorem HeapOk.gives (h : HeapOk L s) (hlatest : LatestOk L s) (hu : s.InUse L a) (hle : sc + req ≤ 128)
    (hset : ∀ j, sc ≤ j → j < sc + req → bit (s.slab a).cache2048 j = true)
    (hfill : Filled (s.slab a).cache2048 map sc req false)
    (hdata : ∀ y, L.own y = some (.data a) ↔ (s.slab a).pageBase ≤ y ∧ y < (s.slab a).pageBase + 4096 * 1)
    (hc : (if (s.slab a).freeObs + req = 128 then
        releaseSlab (getIndex a) a (s.setSlab a fun e => { e with cache2048 := map, freeObs := e.freeObs + req })
      else .ok (s.setSlab a fun e => { e with cache2048 := map, freeObs := e.freeObs + req })) = .ok s') :
    ∃ L', Gives a map L s L' s' := by
  obtain ⟨p, hp, i, hi, rfl, hin, hown⟩ := h.inUse_own hu
  have hok := h.ok p hp
  have hcarved : i < (s.view p).carved := hin.1
  have hslab : (s.view p).slab i = (s.slab (slabAt p i)).view := view_slab hi
  have hfree : (s.slab (slabAt p i)).freeObs = 128 - ones (s.slab (slabAt p i)).cache2048 128 := by
    have hfree := hok.free i hcarved
    rwa [hslab] at hfree
  have hfree' : (s.slab (slabAt p i)).freeObs + req = 128 - ones map 128 :=
    give_free (e := (s.slab (slabAt p i)).view) hfree hle hset hfill
  by_cases hones : ones map 128 = 0
  · -- nothing is left: the slab goes back on the stack
    rw [if_pos (by omega), releaseSlab, findHd_slabAt (h.aligned p hp).1 hi,
      getIndex_slabAt (h.aligned p hp).1 hi] at hc
    obtain ⟨s₁, h1, hc⟩ := bind_eq_ok_iff.mp hc
    obtain ⟨-, rfl⟩ := modifyCache_eq_ok.mp h1
    obtain ⟨s₂, h2, hc⟩ := bind_eq_ok_iff.mp hc
    obtain ⟨-, rfl⟩ := modifyCache_eq_ok.mp h2
    have hbase : (s.setSlab (slabAt p i) fun e => { e with cache2048 := map, freeObs := e.freeObs + req }).slab
        (slabAt p i) = { s.slab (slabAt p i) with
          cache2048 := map, freeObs := (s.slab (slabAt p i)).freeObs + req } := setSlab_self
    have hs' : s' = (released p i req map s).vaFree (s.slab (slabAt p i)).pageBase 1 := by
      cases hc
      have hpage := congrArg SlabObj.pageBase hbase
      show Heap.setSlab (Heap.vaFree (SlabObj.pageBase ((s.setSlab (slabAt p i) fun e =>
        { e with cache2048 := map, freeObs := e.freeObs + req }).slab (slabAt p i))) 1 _) _ _ = _
      rw [hpage]
      rfl
    have he : Edits L p s (released p i req map s) := h.edits_released hp hi
    have hv := hok.release hin (e := ⟨invalidBase, (s.slab (slabAt p i)).freeObs + req, map⟩) rfl
      (show (s.slab (slabAt p i)).freeObs + req = 128 by omega) hones
    rw [← h.view_released hp hi] at hv
    have h' : HeapOk L (released p i req map s) := by
      refine h.edit he hv (by rw [released_hd]) fun h0 => ⟨h0, ?_⟩
      rw [Heap.carved, released_hd]
      rfl
    have hlatest' : LatestOk L (released p i req map s) := hlatest.edit he (by rw [released_hd]) rfl rfl
    have hframe : ∀ b, Frame (slabAt p i) b L s L (released p i req map s) := fun b =>
      h.frame_edit h' he fun j hj hne => by
        have hji : j ≠ i := fun hji => hne (hji ▸ rfl)
        exact ⟨hv.inUse_iff.trans (and_iff_left hji), fun _ => by rw [released_other hji]⟩
    have hout : ¬ (released p i req map s).InUse L (slabAt p i) := fun hin =>
      (hv.inUse_iff.mp ((h'.inUse_slabAt hp hi).mp hin)).2 rfl
    rw [hs']
    refine ⟨L.disown (.data (slabAt p i)), h'.freed (Owner.outside_data _) hdata, hlatest',
      fun b => (hframe b).trans (frame_freed (.inl rfl)) fun x hx => hx, iff_of_false hout (not_not.mpr hones),
      congrArg SlabView.map released_slab, fun hin => absurd hin hout, fun y => ?_, rfl, rfl, rfl, rfl⟩
    rw [disown_iff]
    exact iff_of_false (fun hand => hand.2 rfl) fun hand => hout hand.1
  · rw [if_neg (by omega)] at hc
    cases hc
    have he : Edits L p s (s.setSlab (slabAt p i) fun e => { e with cache2048 := map, freeObs := e.freeObs + req }) :=
      Edits.setSlab (.inl hown)
    have hview := @view_setSlab s p i (fun e => { e with cache2048 := map, freeObs := e.freeObs + req })
      (SlabView.give map req) hi fun _ => rfl
    have hv := hok.give (m := map) hin hle (fun j hj hj' => ?_) ?_ hones
    · rw [← hview] at hv
      have h' := h.edit he hv (Nat.le_refl _) fun h0 => ⟨h0, rfl⟩
      have hself : (s.setSlab (slabAt p i) fun e =>
          { e with cache2048 := map, freeObs := e.freeObs + req }).slab (slabAt p i) = { s.slab (slabAt p i) with
            cache2048 := map, freeObs := (s.slab (slabAt p i)).freeObs + req } := setSlab_self
      have hin' := (h'.inUse_slabAt hp hi).mpr (hv.inUse_iff.mpr hin)
      refine ⟨L, h', hlatest.edit he rfl rfl rfl, fun b => h.frame_edit h' he fun j hj hne => ⟨hv.inUse_iff, fun _ => ?_⟩,
        iff_of_true hin' hones, by rw [hself], fun _ => by rw [hself], fun y => (and_iff_right hin').symm, rfl, rfl,
        rfl, rfl⟩
      rw [setSlab_ne hne]
    · rw [hslab]
      exact hset j hj hj'
    · rw [hslab]
      exact hfill

theorem HeapOk.start_ne_zero (h : HeapOk L s) (hu : s.InUse L a) : s.start ≠ 0 := by
  intro h0
  obtain ⟨p, hp, i, -, hin⟩ := hu
  have hcarved : i < s.carved p := hin.1
  rw [h.first h0 p hp] at hcarved
  exact absurd hcarved (Nat.not_lt_zero i)

/-- **The objects of a block are given back**, and then the slab pages without slabs in use. -/
theorem freeSlab_spec (h : HeapOk L s) (hlatest : LatestOk L s) (hn : 128 < n) (hlt : (s.header b).size < 4096)
    (hu : s.InUse L (s.header b).slabOrg) (hindex : (s.header b).index = getIndex (s.header b).slabOrg)
    (hle : (s.header b).sc + (s.header b).req ≤ 128)
    (hset : ∀ j, (s.header b).Has j → bit (s.slab (s.header b).slabOrg).cache2048 j = true)
    (hdata : ∀ y, L.own y = some (.data (s.header b).slabOrg) ↔ (s.slab (s.header b).slabOrg).pageBase ≤ y ∧
      y < (s.slab (s.header b).slabOrg).pageBase + 4096)
    (hc : freeSlab n b s = .ok s') : ∃ map L₁ s₁ L',
      Filled (s.slab (s.header b).slabOrg).cache2048 map (s.header b).sc (s.header b).req false ∧
      Gives (s.header b).slabOrg map L s L₁ s₁ ∧ Reclaims L₁ s₁ L' s' ∧ Busy L' s' := by
  have hreq : ((s.header b).size + 31) >>> 5 = (s.header b).req := by
    rw [Nat.shiftRight_eq_div_pow, KHeader.req, Nat.mod_eq_of_lt hlt]
  rw [freeSlab] at hc
  dsimp only at hc
  rw [hreq, hindex] at hc
  obtain ⟨map, hclean, hrest⟩ := bind_eq_ok_iff.mp hc
  obtain ⟨s₁, hgive, hloop⟩ := bind_eq_ok_iff.mp hrest
  obtain ⟨map', hmark, hfill⟩ := @mark_spec (s.slab (s.header b).slabOrg).cache2048 0 _ _ _ false _
    Marking.free_writes hle (Nat.lt_of_le_of_lt (KHeader.req_le _) hn)
  obtain rfl : map' = map := by
    rw [bounded_eq_ok, cleanCache, hmark] at hclean
    exact Option.some.inj hclean
  rw [Nat.mul_zero, Nat.zero_add] at hfill
  rw [setSlab_self] at hgive
  obtain ⟨L₁, hg⟩ := h.gives hlatest hu hle (fun j h1 h2 => hset j ⟨h1, h2⟩) hfill hdata hgive
  have hstart : s₁.start ≠ 0 := hg.start ▸ h.start_ne_zero hu
  obtain ⟨hne, hfind, -⟩ := hg.latest hstart
  obtain ⟨l, p, hl⟩ := (List.eq_nil_or_concat' L₁.pages).resolve_left hne
  rw [hfind, hl, List.getLastD_concat] at hloop
  obtain ⟨L', hr, hbusy⟩ := reclaimSlabs_spec (l := l) (r := []) hg.ok hg.latest hl
    (iff_of_false Bool.false_ne_true fun hnil => hnil rfl) (fun q hq => absurd hq List.not_mem_nil) hloop
  exact ⟨map', L₁, s₁, L', hfill, hg, hr, hbusy⟩

theorem Reclaims.frame (hr : Reclaims L s L' s') : Frame a b L s L' s' :=
  ⟨fun x _ => hr.inUse x, fun x _ _ => hr.slab x, fun x _ y => hr.data x y, fun x _ y => hr.body x y,
    fun x _ _ => by rw [hr.header]⟩

/-- One step after the other, if the second one writes no header but that of `b`. -/
theorem Frame.trans_header (h : Frame a b L s L' s') (h' : Frame a b L' s' L'' s'')
    (hheader : ∀ x, x ≠ b → s''.header x = s'.header x) : Frame a b L s L'' s'' where
  inUse x hx := (h'.inUse x hx).trans (h.inUse x hx)
  slab x hx hu := (h'.slab x hx ((h.inUse x hx).mpr hu)).trans (h.slab x hx hu)
  data x hx y := (h'.data x hx y).trans (h.data x hx y)
  body x hx y := (h'.body x hx y).trans (h.body x hx y)
  header x hx ho := (hheader x hx).trans (h.header x hx ho)

/-- What the slab has after the objects were given back. -/
theorem Gives.slab (hg : Gives a map L s L' s') (hr : Reclaims L' s' L'' s'')
    (hfill : Filled (s.slab a).cache2048 map sc req false)
    (hdata : ∀ y, L.own y = some (.data a) ↔ (s.slab a).pageBase ≤ y ∧ y < (s.slab a).pageBase + 4096) :
    (∀ y, L''.own y = some (.data a) ↔
      s''.InUse L'' a ∧ (s''.slab a).pageBase ≤ y ∧ y < (s''.slab a).pageBase + 4096) ∧
    (s''.InUse L'' a → (s''.slab a).pageBase = (s.slab a).pageBase) ∧
    (∀ j < 128, bit (s''.slab a).cache2048 j = true → s''.InUse L'' a) ∧
    ∀ j, bit (s''.slab a).cache2048 j = true ↔
      bit (s.slab a).cache2048 j = true ∧ ¬ (sc ≤ j ∧ j < sc + req) := by
  have hbase : s''.InUse L'' a → (s''.slab a).pageBase = (s.slab a).pageBase := fun hu =>
    (congrArg SlabView.base (hr.slab a)).trans (hg.base ((hr.inUse a).mp hu))
  have hmap : (s''.slab a).cache2048 = map := (congrArg SlabView.map (hr.slab a)).trans hg.map
  refine ⟨fun y => ?_, hbase, fun j hj hbit => ?_, fun j => ?_⟩
  · rw [hr.data, hg.data, ← hr.inUse, hdata]
    exact and_congr_right fun hu => by rw [hbase hu]
  · rw [hmap] at hbit
    refine (hr.inUse a).mpr (hg.inUse.mpr fun hones => ?_)
    rw [bit_of_ones hones hj] at hbit
    exact Bool.false_ne_true hbit
  · rw [hmap, hfill j]
    split
    · rename_i hrun
      exact iff_of_false Bool.false_ne_true fun hand => hand.2 hrun
    · rename_i hrun
      exact (and_iff_left hrun).symm

/-! ## The call -/

theorem setHeader_self {f : KHeader → KHeader} : (s.setHeader b f).header b = f (s.header b) := if_pos rfl

/-- The objects of a block that has some. -/
theorem Inv.objects (h : Inv L live s) (hb : b ∈ live) (hsize : (s.header b).size % 4096 ≠ 0) :
    s.InUse L (s.header b).slabOrg ∧ (s.header b).index = getIndex (s.header b).slabOrg ∧
      (s.header b).sc + (s.header b).req ≤ 128 ∧
      (∀ j, (s.header b).Has j → bit (s.slab (s.header b).slabOrg).cache2048 j = true) ∧
      ∀ y, L.own y = some (.data (s.header b).slabOrg) ↔ (s.slab (s.header b).slabOrg).pageBase ≤ y ∧
        y < (s.slab (s.header b).slabOrg).pageBase + 4096 := by
  have hblock := h.block b hb
  have hin : (s.header b).InSlab (s.header b).slabOrg := ⟨hsize, rfl⟩
  obtain ⟨hu, hset⟩ := hblock.inUse _ hin
  refine ⟨hu, hblock.index _ hin, hblock.le hsize, hset, fun y => ?_⟩
  rw [h.data]
  exact and_iff_right hu

theorem freeAligned_eq (h : Inv L live s) (hb : b ∈ live) :
    freeAligned b s = s.vaFree b ((s.header b).size / 4096) := by
  rw [freeAligned, (h.block b hb).base, Nat.shiftRight_eq_div_pow]

/-- **`kfree` takes the block away.** -/
theorem kfree_spec (h : Inv L live s) (hn : 128 < n) (hb : b ∈ live) (hc : kfree n (b + 40) s = .ok s') :
    (∀ x ∈ live, x ≠ b → s'.header x = s.header x) ∧ ∃ L', Inv L' (live \ {b}) s' := by
  have hblock := h.block b hb
  have hsize := hblock.size
  have hfits := hblock.fits
  have hpos : subU64 (b + 40) 40 = b := by
    rw [subU64]
    omega
  have hmask : (s.header b).size &&& 0xFFF = (s.header b).size % 4096 := Nat.and_two_pow_sub_one_eq_mod _ 12
  rw [kfree, hpos, hmask] at hc
  by_cases hsmall : (s.header b).size < 4096
  · -- a small block
    rw [if_pos hsmall] at hc
    have hmod : (s.header b).size % 4096 ≠ 0 := by omega
    obtain ⟨hu, hindex, hle, hset, hdata⟩ := h.objects hb hmod
    obtain ⟨map, L₁, s₁, L', hfill, hg, hr, hbusy⟩ :=
      freeSlab_spec h.ok h.latest hn hsmall hu hindex hle hset hdata hc
    obtain ⟨hdata', hbase', hstays, hbits⟩ := hg.slab hr hfill hdata
    refine ⟨fun x _ _ => by rw [hr.header, hg.header], L', h.dropBlock (a := (s.header b).slabOrg) hr.ok hr.latest
      ((hg.frame b).trans_header hr.frame fun x _ => by rw [hr.header])
      ⟨hdata', fun y => ?_, fun hu' => ⟨hu, hbase' hu'⟩, fun _ => hstays, fun _ j _ => (hbits j).trans ?_,
        fun x hx => hx.2.symm⟩ hb hbusy⟩
    · rw [ne_eq, hr.body, (hg.frame (b + 1)).body b (by omega), h.body]
      omega
    · rw [KHeader.Has, KHeader.InSlab]
      exact and_congr_right fun _ => not_congr (and_iff_right ⟨hmod, rfl⟩).symm
  rw [if_neg hsmall] at hc
  have hbody : ∀ y, L.own y = some (.body b) ↔ b ≤ y ∧ y < b + 4096 * ((s.header b).size / 4096) := fun y => by
    rw [h.body]
    exact and_iff_right hb
  have hout : ∀ y, (L.disown (.body b)).own y ≠ some (.body b) := fun y heq => (disown_iff.mp heq).2 rfl
  by_cases hmod : (s.header b).size % 4096 = 0
  · -- a large block with pages of its own only
    rw [if_pos hmod, freeAligned_eq h hb] at hc
    cases hc
    have hzero : ∀ x, ¬ (s.header b).InSlab x := fun x hx => hx.1 hmod
    refine ⟨fun _ _ _ => rfl, L.disown (.body b), h.dropBlock (a := 0) (h.ok.freed (Owner.outside_body _) hbody) h.latest
      (frame_freed (.inr rfl)) ⟨fun y => ?_, hout, fun hu => absurd hu not_inUse_zero,
        fun hu => absurd hu not_inUse_zero, fun hu => absurd hu not_inUse_zero,
        fun x hx => absurd hx (hzero x)⟩ hb h.busy⟩
    rw [disown_iff, h.data]
    exact iff_of_false (fun hand => not_inUse_zero hand.1.1) fun hand => not_inUse_zero hand.1
  · rw [if_neg hmod] at hc
    obtain ⟨s₂, hfree, hc⟩ := bind_eq_ok_iff.mp hc
    obtain ⟨hu, hindex, hle, hset, hdata⟩ := h.objects hb hmod
    have hk : (s.setHeader b fun h => { h with size := (s.header b).size % 4096 }).header b =
        { s.header b with size := (s.header b).size % 4096 } := if_pos rfl
    have hreq : KHeader.req { s.header b with size := (s.header b).size % 4096 } = (s.header b).req := by
      rw [KHeader.req, KHeader.req, Nat.mod_mod]
    have hspec := @freeSlab_spec L _ s₂ b n (h.ok.setHeader (b := b)
      (f := fun h => { h with size := (s.header b).size % 4096 })) h.latest.setHeader hn
    rw [hk, hreq] at hspec
    obtain ⟨map, L₁, s₁, L', hfill, hg, hr, hbusy⟩ :=
      hspec (Nat.mod_lt _ (by decide)) hu hindex hle (fun j hj => hset j ⟨hj.1, hreq ▸ hj.2⟩) hdata hfree
    have hheader : s₂.header b = { s.header b with size := (s.header b).size % 4096 } := by
      rw [hr.header, hg.header, hk]
    have hback : (s₂.setHeader b fun h => { h with size := (s.header b).size }).header b = s.header b := by
      rw [setHeader_self, hheader]
    have hs' : s' = ((s₂.setHeader b fun h => { h with size := (s.header b).size }).vaFree b
        ((s.header b).size / 4096)) := by
      cases hc
      rw [freeAligned, hback, hblock.base, Nat.shiftRight_eq_div_pow]
    obtain ⟨hdata', hbase', hstays, hbits⟩ := hg.slab hr hfill hdata
    have hbody' : ∀ y, L'.own y = some (.body b) ↔ b ≤ y ∧ y < b + 4096 * ((s.header b).size / 4096) := fun y => by
      rw [hr.body, (hg.frame (b + 1)).body b (by omega)]
      exact hbody y
    rw [hs']
    have hframe : Frame (s.header b).slabOrg b L s L' (s₂.setHeader b fun h => { h with size := (s.header b).size }) :=
      ((Frame.refl.setHeader.trans_header (hg.frame b) fun x _ => by rw [hg.header]).trans_header hr.frame
        fun x _ => by rw [hr.header]).setHeader
    refine ⟨fun x hx hne => hframe.header x hne (h.own_block hx), L'.disown (.body b), h.dropBlock (a := (s.header b).slabOrg)
      (hr.ok.setHeader.freed (Owner.outside_body _) hbody') hr.latest
      (hframe.trans_header (frame_freed (.inr rfl)) fun _ _ => rfl)
      ⟨fun y => ?_, fun y heq => (disown_iff.mp heq).2 rfl, fun hu' => ⟨hu, hbase' hu'⟩, fun _ => hstays,
        fun _ j _ => (hbits j).trans ?_, fun x hx => hx.2.symm⟩ hb hbusy⟩
    · rw [disown_iff, and_iff_left (by simp : Owner.data _ ≠ Owner.body b)]
      exact hdata' y
    · rw [KHeader.Has, KHeader.InSlab]
      exact and_congr_right fun _ => not_congr (and_iff_right ⟨hmod, rfl⟩).symm

end

end Dem64.Kmalloc
