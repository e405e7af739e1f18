import Dem64.Dma.Claim
import Dem64.Memory.Vmalloc
import Mathlib.Data.List.TakeWhile

/-!
# Which extents an allocation takes

`allocate_dma` is to take the first group of adjacent free extents that is large enough, as few of them as
will do, and a new extent at the end of the list if there is no such group.  The first is what it does.  The
second goes wrong in two ways, since a page of entries counts an extent again when it is freed but not when
it is taken again: a counter that is not zero does not mean that there is room behind `dma_latest`, and a
counter of `dma_limit` does not mean that the page is new.  `reuses_iff` says when it goes right.
-/

set_option autoImplicit false

namespace Dem64

namespace DmaPool

/-- A group of adjacent free extents that cannot be made longer: `g`, behind `pre` and in front of `rest`. -/
structure FreeGroup (p : DmaPool) (ptrs pre g rest : List EntryPtr) : Prop where
  /-- Where the group is. -/
  split : ptrs = pre ++ g ++ rest
  /-- Its extents are free. -/
  free : ∀ x ∈ g, (p.entry x).status = .free
  /-- The extent in front of it is not. -/
  before : ∀ x ∈ pre.getLast?, (p.entry x).status ≠ .free
  /-- Nor is the extent behind it. -/
  behind : ∀ x ∈ rest.head?, (p.entry x).status ≠ .free

/-- The first group with at least `pages` pages. -/
structure FirstFit (p : DmaPool) (ptrs : List EntryPtr) (pages : Nat) (pre g rest : List EntryPtr) : Prop
    extends FreeGroup p ptrs pre g rest where
  /-- It is large enough. -/
  fits : pages ≤ p.total g
  /-- No group in front of it is. -/
  first : ∀ pre' g' rest', FreeGroup p ptrs pre' g' rest' → pages ≤ p.total g' → pre.length ≤ pre'.length

/-- The shortest prefix of a group that has at least `pages` pages. -/
structure ShortestFit (p : DmaPool) (pages : Nat) (g own : List EntryPtr) : Prop where
  /-- It is a prefix. -/
  isPrefix : own <+: g
  /-- It is large enough. -/
  fits : pages ≤ p.total own
  /-- Shorter ones are not. -/
  shortest : ∀ own', own' <+: g → pages ≤ p.total own' → own.length ≤ own'.length

variable {p : DmaPool} {ptrs pre pre' own g rest rest' l : List EntryPtr} {pages : Nat} {s : Search}

theorem total_mono (h : l <+: g) : p.total l ≤ p.total g := by
  obtain ⟨t, rfl⟩ := h
  rw [total_append]
  omega

/-! ## The groups and the search -/

/-- Free extents at the start of a list go on to a taken one. -/
theorem exists_group (p : DmaPool) (rest : List EntryPtr) : ∃ t rest', rest = t ++ rest' ∧
    (∀ x ∈ t, (p.entry x).status = .free) ∧ ∀ x ∈ rest'.head?, (p.entry x).status ≠ .free := by
  refine ⟨rest.takeWhile fun x => (p.entry x).status = .free, rest.dropWhile fun x => (p.entry x).status = .free,
    List.takeWhile_append_dropWhile.symm, fun x hx => by simpa using List.mem_takeWhile_imp hx, fun x hx => ?_⟩
  have hne : rest.dropWhile (fun x => (p.entry x).status = .free) ≠ [] := by
    intro hc
    rw [hc] at hx
    cases hx
  have hnot := List.head_dropWhile_not _ hne
  rw [List.head?_eq_some_head hne, Option.mem_some_iff] at hx
  rw [hx] at hnot
  simpa using hnot

/-- What the search finds is the start of a group. -/
theorem Found.group (h : Found p ptrs pages s pre own rest) : ∃ t rest', rest = t ++ rest' ∧
    FreeGroup p ptrs pre (own ++ t) rest' := by
  obtain ⟨t, rest', rfl, ht, hrest⟩ := exists_group p rest
  refine ⟨t, rest', rfl, by rw [h.split]; simp only [List.append_assoc], fun x hx => ?_, h.before, hrest⟩
  rcases List.mem_append.mp hx with hx | hx
  · exact h.free x hx
  · exact ht x hx

/-- Of two runs of free extents behind a taken one, one is the other if they end together. -/
theorem eq_of_suffix (hsplit : pre ++ g = pre' ++ own) (hg : ∀ x ∈ g, (p.entry x).status = .free)
    (hown : ∀ x ∈ own, (p.entry x).status = .free) (hpre : ∀ x ∈ pre.getLast?, (p.entry x).status ≠ .free)
    (hpre' : ∀ x ∈ pre'.getLast?, (p.entry x).status ≠ .free) : pre = pre' ∧ g = own := by
  have hnil : ∀ {pre a l : List EntryPtr}, (∀ x ∈ a ++ l, (p.entry x).status = .free) →
      (∀ x ∈ (pre ++ a).getLast?, (p.entry x).status ≠ .free) → a = [] := by
    intro pre a l hfree hlast
    rcases List.eq_nil_or_concat a with rfl | ⟨a, z, rfl⟩
    · rfl
    · rw [List.concat_eq_append] at hfree hlast
      exact absurd (hfree z (by simp)) (hlast z (by simp [← List.append_assoc]))
  rcases List.append_eq_append_iff.mp hsplit with ⟨a, rfl, rfl⟩ | ⟨a, rfl, rfl⟩
  · rw [hnil hg hpre', List.append_nil, List.nil_append]
    exact ⟨rfl, rfl⟩
  · rw [hnil hown hpre, List.append_nil, List.nil_append]
    exact ⟨rfl, rfl⟩

/-- Of two runs of free extents that start together, one is part of the other if the other goes as far as
it can. -/
theorem prefix_of_group (hsplit : g ++ rest = own ++ rest') (hown : ∀ x ∈ own, (p.entry x).status = .free)
    (hrest : ∀ x ∈ rest.head?, (p.entry x).status ≠ .free) : own <+: g := by
  rcases List.append_eq_append_iff.mp hsplit with ⟨a, rfl, rfl⟩ | ⟨a, rfl, rfl⟩
  · cases a with
    | nil =>
      rw [List.append_nil]
    | cons z a => exact absurd (hown z (by simp)) (hrest z rfl)
  · exact List.prefix_append _ _

/-- A run of free extents that starts in `pre` ends in it, if the last extent of `pre` is taken. -/
theorem infix_of_lt (hsplit : ptrs = pre ++ g ++ rest) (hsplit' : ptrs = pre' ++ rest')
    (hlt : pre.length < pre'.length) (hfree : ∀ x ∈ g, (p.entry x).status = .free)
    (hbefore : ∀ x ∈ pre'.getLast?, (p.entry x).status ≠ .free) : g <:+: pre' := by
  rw [hsplit'] at hsplit
  rcases List.append_eq_append_iff.mp hsplit with ⟨a, ha, -⟩ | ⟨a, rfl, -⟩
  · rcases List.append_eq_append_iff.mp ha with ⟨b, rfl, rfl⟩ | ⟨b, rfl, -⟩
    · rcases List.eq_nil_or_concat b with rfl | ⟨b, z, rfl⟩
      · rw [List.append_nil] at hlt
        omega
      · rw [List.concat_eq_append] at hfree hbefore
        exact absurd (hfree z (by simp)) (hbefore z (by simp [← List.append_assoc]))
    · rw [List.length_append] at hlt
      omega
  · exact ⟨pre, a, rfl⟩

/-- **The search finds the first group that is large enough**, and of that the shortest prefix. -/
theorem Found.shortest (h : Found p ptrs pages s pre' own rest') (hf : FirstFit p ptrs pages pre g rest) :
    pre' = pre ∧ ShortestFit p pages g own ∧ ¬ s.freePages < pages := by
  have hsmall : ¬ g <:+: pre' := fun hc => by
    have := h.small g hc hf.free
    have := hf.fits
    omega
  rcases h.size with ⟨hge, hlt⟩ | ⟨hlt, rfl⟩
  · obtain ⟨t, rest'', rfl, hgroup⟩ := h.group
    have hle := hf.first _ _ _ hgroup (hge.trans (total_mono (List.prefix_append _ _)))
    have hlen : pre.length = pre'.length := by
      by_contra hne
      exact hsmall (infix_of_lt hf.split (h.split.trans (List.append_assoc _ _ _)) (by omega) hf.free h.before)
    have hsplit := hf.split.symm.trans h.split
    rw [List.append_assoc, List.append_assoc pre'] at hsplit
    obtain ⟨rfl, hrun⟩ := List.append_inj hsplit hlen
    refine ⟨rfl, ⟨prefix_of_group hrun h.free hf.behind, hge, fun own' hown' hfits => ?_⟩, ?_⟩
    · by_contra hshort
      have hpre := List.prefix_of_prefix_length_le hown' (prefix_of_group hrun h.free hf.behind) (by omega)
      have hdrop : own' <+: own.dropLast := by
        obtain ⟨t, rfl⟩ := hpre
        rcases List.eq_nil_or_concat t with rfl | ⟨t, z, rfl⟩
        · rw [List.append_nil] at hshort
          omega
        · rw [List.concat_eq_append, ← List.append_assoc, List.dropLast_concat]
          exact List.prefix_append _ _
      have := @total_mono p _ _ hdrop
      omega
    · rw [h.result]
      exact not_lt.mpr hge
  · have hin : g <:+: pre' ++ own := by
      exact ⟨pre, rest, by rw [← hf.split, h.split, List.append_nil]⟩
    have := small_append h.before h.small hlt hin hf.free
    have := hf.fits
    omega

/-- **The search finds the free extents at the end** if no group is large enough. -/
theorem Found.trailing (h : Found p ptrs pages s pre' own rest')
    (hno : ∀ pre g rest, FreeGroup p ptrs pre g rest → p.total g < pages) :
    rest' = [] ∧ s.freePages < pages ∧ FreeGroup p ptrs pre' own [] := by
  obtain ⟨t, rest'', rfl, hgroup⟩ := h.group
  have hlt := hno _ _ _ hgroup
  rw [total_append] at hlt
  obtain ⟨hlt, hnil⟩ := h.size.resolve_left fun hc => by omega
  obtain ⟨rfl, rfl⟩ := List.append_eq_nil_iff.mp hnil
  rw [List.append_nil] at hgroup
  exact ⟨rfl, by rw [h.result]; exact hlt, hgroup⟩

/-! ## Room for another extent -/

/-- The page that is found has room: no page has entries left by its counter, so that there will be a new
one, or the first with entries left is not taken for a new one and there is room behind `dma_latest`. -/
def HasRoom (p : DmaPool) : Prop :=
  (∀ i, i ≤ p.dmaMetadataPages → (p.entry ⟨i, 0⟩).sizeInPages % 2 ^ 32 = 0) ∨
    ∃ j, j ≤ p.dmaMetadataPages ∧ (p.entry ⟨j, 0⟩).sizeInPages % 2 ^ 32 ≠ 0 ∧
      (∀ i, i < j → (p.entry ⟨i, 0⟩).sizeInPages % 2 ^ 32 = 0) ∧
      ((p.entry ⟨j, 0⟩).sizeInPages % 2 ^ 32 ≠ p.dmaLimit ∨ p.dmaMetadataPages = 0) ∧
      ∀ x ∈ p.dmaLatest, x.slot < p.dmaLimit

/-- Where `carve` puts the extent. -/
theorem carve_cases {x y : EntryPtr} {j size : Nat} {q : DmaPool} (hx : p.dmaLatest = some x)
    (h : p.carve ⟨j, 0⟩ size = some (y, q)) :
    ((p.entry ⟨j, 0⟩).sizeInPages % 2 ^ 32 ≠ p.dmaLimit ∨ p.dmaMetadataPages = 0) ∧ y = x.succ ∧ y.slot < 204 ∨
      y = x := by
  obtain ⟨e, he, h⟩ := Option.bind_eq_some_iff.mp h
  obtain rfl : p.entry ⟨j, 0⟩ = e := by
    rw [get] at he
    split at he
    · exact Option.some_inj.mp he
    · cases he
  dsimp only at h
  split at h
  · rename_i hcond
    obtain ⟨p₁, hadv, h⟩ := Option.bind_eq_some_iff.mp h
    rw [advance, hx] at hadv
    obtain ⟨p₂, -, hadv⟩ := Option.bind_eq_some_iff.mp ((Option.bind_some x _).symm.trans hadv)
    cases hadv
    obtain ⟨p₃, -, h⟩ := Option.bind_eq_some_iff.mp ((Option.bind_some x.succ _).symm.trans h)
    obtain ⟨p₄, hput, h⟩ := Option.bind_eq_some_iff.mp h
    cases h
    rw [modify] at hput
    split at hput
    · rename_i hvalid
      exact .inl ⟨hcond, rfl, hvalid.2⟩
    · cases hput
  · obtain ⟨p₁, hp, h⟩ := Option.bind_eq_some_iff.mp h
    cases hp
    obtain ⟨latest, hlatest, h⟩ := Option.bind_eq_some_iff.mp h
    obtain ⟨p₃, -, h⟩ := Option.bind_eq_some_iff.mp h
    obtain ⟨p₄, -, h⟩ := Option.bind_eq_some_iff.mp h
    cases h
    exact .inr (Option.some_inj.mp (hlatest.symm.trans hx))

/-- A claim that grows ends with the extent that was carved. -/
theorem growClaim_cases {n : Nat} {header : EntryPtr} {r : Claim × DmaPool}
    (h : p.growClaim n header pages s = some r) : ∃ xs y q,
      p.carve header (pages - s.freePages) = some (y, q) ∧ r.1.extents = xs ++ [y] := by
  obtain ⟨⟨y, q⟩, hcarve, h⟩ := Option.bind_eq_some_iff.mp h
  dsimp only at h
  split at h
  · obtain ⟨⟨xs, q'⟩, -, h⟩ := Option.bind_eq_some_iff.mp h
    cases h
    exact ⟨xs, y, q, hcarve, rfl⟩
  · cases h
    exact ⟨[], y, q, hcarve, rfl⟩

end DmaPool

/-! ## What a call takes -/

section

open DmaPool

variable (pml4 : Nat) (fresh : EntryPtr → DmaEntry) (w : DmaWorld) (ptrs : List EntryPtr) (size : Nat)

/-- `allocate_dma` takes the extents `own` at the address `base`, which leaves the pool `q`; if there are
frames for it, that is the address that it returns. -/
def Takes (base : Nat) (own : List EntryPtr) (q : DmaPool) : Prop :=
  ∃ m home, Ends (fun n => claimExtents pml4 n fresh w (dmaPages size))
      (some ⟨base, home, own⟩, { w with machine := m, pool := q }) ∧
    ∀ n ret l w', allocateDma pml4 n fresh w size = some (ret, l, w') → l = own ∧ w'.pool = q ∧
      (ret.status = 0 ↔ (allocFrame m.frames (dmaPages size)).1.attr = 0) ∧
      (ret.status = 0 → ret.virtualAddress = base)

/-- `allocate_dma` takes the extents that it is to take. -/
structure Reuses : Prop where
  /-- The first group that is large enough is reused: the shortest prefix that will do is taken, and nothing
  else is changed. -/
  reuse : ∀ pre g rest, FirstFit w.pool ptrs (dmaPages size) pre g rest →
    ∃ own, ShortestFit w.pool (dmaPages size) g own ∧
      Takes pml4 fresh w size (dmaBase + 4096 * w.pool.total pre) own (w.pool.mark own .used)
  /-- If no group is, the free extents at the end are taken, with a new one that has the pages that are
  missing. -/
  grow : (∀ pre g rest, FreeGroup w.pool ptrs pre g rest → w.pool.total g < dmaPages size) →
    ∀ pre g, FreeGroup w.pool ptrs pre g [] → ∃ y q,
      Takes pml4 fresh w size (dmaBase + 4096 * w.pool.total pre) (g ++ [y]) q ∧
      y ∉ ptrs ∧ PoolShape q (ptrs ++ [y]) ∧
      q.entry y = ⟨.used, dmaPages size - w.pool.total g, none⟩ ∧
      ∀ x ∈ ptrs, (q.entry x).sizeInPages = (w.pool.entry x).sizeInPages ∧
        (q.entry x).status = if x ∈ g then .used else (w.pool.entry x).status

end

section

open DmaPool

variable {pml4 size : Nat} {fresh : EntryPtr → DmaEntry} {w : DmaWorld} {ptrs pre own rest : List EntryPtr}
  {s : Search}

/-- What the choice of the extents ends with is what the call takes. -/
theorem takes_of_ends {base : Nat} {home : Option EntryPtr} {m : Machine} {q : DmaPool} {x : EntryPtr}
    (h : w.pool.dmaHeader = some x) (hends : Ends (fun n => claimExtents pml4 n fresh w (dmaPages size))
      (some ⟨base, home, own⟩, { w with machine := m, pool := q })) : Takes pml4 fresh w size base own q := by
  refine ⟨m, home, hends, fun n ret l w' hcall => ?_⟩
  rw [allocateDma_eq h] at hcall
  obtain ⟨cw, hclaim, hcall⟩ := Option.bind_eq_some_iff.mp hcall
  obtain rfl := hends.2 n cw hclaim
  obtain ⟨r, hback, hr⟩ := Option.map_eq_some_iff.mp hcall
  cases hr
  obtain ⟨hpool, hstatus, hbase⟩ := backClaim_ret hback
  exact ⟨rfl, hpool, hstatus, hbase⟩

/-- A new extent is added if there is room. -/
theorem grow_of_hasRoom (h : PoolInv w.pool ptrs) (hs : Ends (fun n => w.pool.search n (dmaPages size)) s)
    (hf : Found w.pool ptrs (dmaPages size) s pre own rest) (hless : s.freePages < dmaPages size)
    (hroom : w.pool.HasRoom)
    (hv : ∃ n d m, vmalloc n w.machine w.pool.dmaTop 1 0x03 pml4 = some (d, m) ∧ d.attr = 0) :
    ∃ y j q, Grown w.pool ptrs y (dmaPages size - s.freePages) j q ∧
      Takes pml4 fresh w size (dmaBase + 4096 * w.pool.total pre) (own ++ [y]) (q.mark own .used) := by
  have hpos : 0 < dmaPages size - s.freePages := by omega
  obtain ⟨r, hends, hr⟩ := room_spec h.toPoolShape
  obtain ⟨init, x, -, hlatest, -⟩ := h.latest
  rcases hr with ⟨j, rfl, hj, hne, hzero⟩ | ⟨rfl, hzero⟩
  · -- the counter of page `j` is the first that is not zero
    rcases hroom with hall | ⟨j', hj', hne', hzero', hadv, hslot⟩
    · exact absurd (hall j hj) hne
    · obtain rfl : j = j' := by
        by_contra hc
        rcases Nat.lt_or_gt_of_ne hc with hlt | hlt
        · exact hne (hzero' j hlt)
        · exact hne' (hzero j' hlt)
      rw [h.limit] at hadv hslot
      obtain ⟨q, hcarve, hg⟩ := carve_spec h.toPoolShape hlatest (hslot x hlatest) hj hadv hpos
      exact ⟨x.succ, j, q, hg, takes_of_ends h.header
        (claimExtents_grow h.toPoolShape hs hless (growExtents_page h.toPoolShape hf hless hg hends hcarve))⟩
  · obtain ⟨n, d, m, hv, hd⟩ := hv
    have hv : Ends (fun n => vmalloc n w.machine w.pool.dmaTop 1 0x03 pml4) (d, m) :=
      Ends.of_mono vmalloc_mono hv
    obtain ⟨p₁, q, hadd, hcarve, hg⟩ := addPage_spec h.toPoolShape fresh hpos
    exact ⟨_, _, q, hg, takes_of_ends h.header
      (claimExtents_grow h.toPoolShape hs hless (growExtents_full h.toPoolShape hf hless hg hends hv hd hadd hcarve))⟩

/-- The extent that is added is new only if there is room. -/
theorem hasRoom_of_takes (h : PoolInv w.pool ptrs) (hs : Ends (fun n => w.pool.search n (dmaPages size)) s)
    (hless : s.freePages < dmaPages size) {base : Nat} {g : List EntryPtr} {y : EntryPtr} {q : DmaPool}
    (ht : Takes pml4 fresh w size base (g ++ [y]) q) (hy : y ∉ ptrs) : w.pool.HasRoom := by
  obtain ⟨m, home, ⟨⟨N, hN⟩, -⟩, -⟩ := ht
  obtain ⟨r, ⟨-, hroom⟩, hr⟩ := room_spec h.toPoolShape
  obtain ⟨init, x, rfl, hlatest, -⟩ := h.latest
  have hcall := hN N (Nat.le_refl N)
  dsimp only at hcall
  rw [claimExtents_eq h.entries] at hcall
  obtain ⟨s', hs', hcall⟩ := Option.bind_eq_some_iff.mp hcall
  obtain rfl := hs.2 N s' hs'
  rw [if_pos hless, growExtents_eq] at hcall
  obtain ⟨r', hr', hcall⟩ := Option.bind_eq_some_iff.mp hcall
  obtain rfl := hroom N r' hr'
  rcases hr with ⟨j, rfl, hj, hne, hzero⟩ | ⟨rfl, hzero⟩
  · obtain ⟨c, hclaim, hc⟩ := Option.map_eq_some_iff.mp hcall
    obtain ⟨xs, z, q', hcarve, hxs⟩ := growClaim_cases hclaim
    have hz : z = y := by
      have hext := congrArg (fun r : Option Claim × DmaWorld => r.1.map Claim.extents) hc
      simp only [Option.map_some, Option.some_inj, hxs] at hext
      exact (List.cons.inj (List.append_inj' hext rfl).2).1
    rcases carve_cases hlatest hcarve with ⟨hadv, rfl, hslot⟩ | rfl
    · refine .inr ⟨j, hj, hne, hzero, hadv, fun x' hx' => ?_⟩
      obtain rfl : x = x' := Option.some_inj.mp (hlatest.symm.trans hx')
      rw [h.limit]
      exact Nat.lt_of_succ_lt_succ hslot
    · exact absurd (by rw [hz]; simp) hy
  · exact .inl hzero

/-- If the right extents are taken, there is a group that is large enough, or room. -/
theorem hasRoom_of_reuses (h : PoolInv w.pool ptrs) (hpos : 0 < dmaPages size)
    (hreuses : Reuses pml4 fresh w ptrs size) :
    (∃ pre g rest, FreeGroup w.pool ptrs pre g rest ∧ dmaPages size ≤ w.pool.total g) ∨ w.pool.HasRoom := by
  obtain ⟨s, pre', own, rest', hs, hf⟩ := search_spec h hpos
  rw [or_iff_not_imp_left]
  intro hno
  have hno : ∀ pre g rest, FreeGroup w.pool ptrs pre g rest → w.pool.total g < dmaPages size :=
    fun pre g rest hg => not_le.mp fun hle => hno ⟨pre, g, rest, hg, hle⟩
  obtain ⟨-, hless, hgroup⟩ := hf.trailing hno
  obtain ⟨y, q, ht, hy, -⟩ := hreuses.grow hno _ _ hgroup
  exact hasRoom_of_takes h hs hless ht hy

/-- **What `allocate_dma` takes** is right if a group of free extents is large enough, and otherwise exactly if
there is room for a new one. -/
theorem reuses_iff (h : PoolInv w.pool ptrs) (hpos : 0 < dmaPages size)
    (hv : ∃ n d m, vmalloc n w.machine w.pool.dmaTop 1 0x03 pml4 = some (d, m) ∧ d.attr = 0) :
    Reuses pml4 fresh w ptrs size ↔
      (∃ pre g rest, FreeGroup w.pool ptrs pre g rest ∧ dmaPages size ≤ w.pool.total g) ∨ w.pool.HasRoom := by
  refine ⟨hasRoom_of_reuses h hpos, fun hcond => ?_⟩
  obtain ⟨s, pre', own, rest', hs, hf⟩ := search_spec h hpos
  constructor
  · intro pre g rest hfirst
    obtain ⟨rfl, hshort, henough⟩ := hf.shortest hfirst
    exact ⟨own, hshort, takes_of_ends h.header (claimExtents_reuse h hpos hs hf henough)⟩
  · intro hno pre g hg
    have hroom := hcond.resolve_left fun ⟨pre, g, rest, hg, hle⟩ => Nat.not_lt.mpr hle (hno pre g rest hg)
    obtain ⟨rfl, hless, hgroup⟩ := hf.trailing hno
    obtain ⟨rfl, rfl⟩ : pre = pre' ∧ g = own := by
      have hsplit := hg.split.symm.trans hgroup.split
      rw [List.append_nil, List.append_nil] at hsplit
      exact eq_of_suffix hsplit hg.free hgroup.free hg.before hgroup.before
    obtain ⟨y, j, q, hgrown, ht⟩ := @grow_of_hasRoom _ _ fresh _ _ _ _ _ _ h hs hf hless hroom hv
    have hfresh : ∀ x ∈ ptrs, x ≠ y := fun x hx =>
      ((List.pairwise_append.mp hgrown.inv.sorted).2.2 x hx y (by simp)).ne
    have hmem : ∀ x ∈ g, x ∈ ptrs := fun x hx => by
      rw [hg.split]
      simp [hx]
    have hfree : s.freePages = w.pool.total g := by rw [hf.result]
    refine ⟨y, q.mark g .used, ht, fun hc => hfresh y hc rfl,
      hgrown.inv.mark (fun x hx => List.mem_append_left _ (hmem x hx)) (by decide), ?_, fun x hx => ⟨?_, ?_⟩⟩
    · rw [mark_entry_of_notMem fun hc => hfresh y (hmem y hc) rfl, hgrown.new, hfree]
    · rw [mark_size, (hgrown.kept x hx).2]
    · split
      · rename_i hxg
        rw [mark_entry_of_mem hxg]
      · rename_i hxg
        rw [mark_entry_of_notMem hxg, (hgrown.kept x hx).1]

end

/-! ## Two pools -/

section

open DmaPool

/-- A pool with `n` extents of one page in its first metadata page, whose counter is `counter`. -/
def evenPool (n counter : Nat) (status : DmaStatus) : DmaPool where
  entry x := if x.slot = 0 then ⟨.header, counter, none⟩
    else ⟨status, 1, if x.slot < n then some x.succ else none⟩
  mapped k := k = 0
  dmaEntries := n
  dmaHeader := some ⟨0, 0⟩
  dmaStart := some ⟨0, 1⟩
  dmaLatest := some ⟨0, n⟩
  dmaLimit := 203
  dmaMetadataPages := 0
  dmaTop := dmaPoolBase + 4096

/-- Its extents. -/
def evenExtents (n : Nat) : List EntryPtr := (List.range' 1 n).map (EntryPtr.mk 0)

variable {n counter : Nat} {status : DmaStatus}

theorem mem_evenExtents {x : EntryPtr} : x ∈ evenExtents n ↔ x.page = 0 ∧ 1 ≤ x.slot ∧ x.slot ≤ n := by
  obtain ⟨k, s⟩ := x
  simp only [evenExtents, List.mem_map, List.mem_range'_1, EntryPtr.mk.injEq]
  constructor
  · rintro ⟨i, hi, rfl, rfl⟩
    omega
  · rintro ⟨rfl, h⟩
    exact ⟨s, by omega, rfl, rfl⟩

theorem evenPool_entry {x : EntryPtr} (hx : x ∈ evenExtents n) : (evenPool n counter status).entry x =
    ⟨status, 1, if x.slot < n then some x.succ else none⟩ := by
  have := (mem_evenExtents.mp hx).2.1
  rw [evenPool]
  exact if_neg (by omega)

theorem evenPool_total {l : List EntryPtr} (hl : ∀ x ∈ l, x ∈ evenExtents n) :
    (evenPool n counter status).total l = l.length := by
  rw [total, List.map_congr_left fun x hx => by rw [evenPool_entry (hl x hx)], List.map_const', List.sum_replicate_nat,
    Nat.mul_one]

theorem evenPool_linked (a d : Nat) (ha : 1 ≤ a) (hd : a + d = n + 1) : Lseg (evenPool n counter status).next
    (if a ≤ n then some ⟨0, a⟩ else none) ((List.range' a d).map (EntryPtr.mk 0)) none := by
  induction d generalizing a with
  | zero => exact if_neg (by omega)
  | succ d ih =>
    refine ⟨if_pos (by omega), ?_⟩
    have hrest := ih (a + 1) (by omega) (by omega)
    rw [next, evenPool_entry (mem_evenExtents.mpr ⟨rfl, ha, show a ≤ n by omega⟩)]
    exact hrest

theorem evenPool_inv (hpos : 1 ≤ n) (hle : n ≤ 203) (hcounter : counter < 2 ^ 64) (hstatus : status ≠ .header) :
    PoolInv (evenPool n counter status) (evenExtents n) where
  header := rfl
  limit := rfl
  entries := by
    show n ≠ 0
    omega
  top := rfl
  mapped k := by simp [evenPool]
  headers k hk := by
    obtain rfl : k = 0 := Nat.le_zero.mp hk
    exact ⟨rfl, rfl⟩
  counters k hk := hcounter
  linked := by
    have h := @evenPool_linked n counter status 1 n (le_refl 1) (Nat.add_comm 1 n)
    rwa [if_pos hpos] at h
  latest := by
    refine ⟨(List.range' 1 (n - 1)).map (EntryPtr.mk 0), ⟨0, n⟩, ?_, rfl, rfl⟩
    obtain ⟨n, rfl⟩ := Nat.exists_eq_add_of_le' hpos
    rw [evenExtents, List.range'_concat, List.map_append]
    simp [Nat.add_comm]
  sorted := by
    rw [evenExtents, List.pairwise_map]
    exact (List.pairwise_lt_range' (s := 1) (n := n)).imp fun h => .inr ⟨rfl, h⟩
  slots x hx := by
    obtain ⟨h1, h2, h3⟩ := mem_evenExtents.mp hx
    exact ⟨h2, h3.trans hle, Nat.le_of_eq h1⟩
  filled x hx s h1 h2 := by
    have h := mem_evenExtents.mp hx
    exact mem_evenExtents.mpr ⟨h.1, h1, show s ≤ n by omega⟩
  first k hk := mem_evenExtents.mpr ⟨Nat.le_zero.mp hk, le_refl 1, hpos⟩
  status x hx := by rwa [evenPool_entry hx]
  size_pos x hx := by
    rw [evenPool_entry hx]
    exact Nat.one_pos
  total_le := by
    rw [evenPool_total fun x hx => hx, evenExtents, List.length_map, List.length_range']
    omega

/-- A world with such a pool. -/
def evenWorld (n counter : Nat) (status : DmaStatus) : DmaWorld where
  machine := smallMachine
  pool := evenPool n counter status
  bytes _ := 0

theorem evenWorld_vmalloc : ∃ k d m,
    vmalloc k (evenWorld n counter status).machine (evenWorld n counter status).pool.dmaTop 1 0x03 0x1000 =
      some (d, m) ∧ d.attr = 0 := by
  have h : ((vmalloc 8 smallMachine (dmaPoolBase + 4096) 1 0x03 0x1000).any fun r => r.1.attr == 0) = true := by
    decide +kernel
  obtain ⟨⟨d, m⟩, hcall, hattr⟩ := (Option.any_eq_true _ _).mp h
  exact ⟨8, d, m, hcall, by simpa using hattr⟩

/-- Two free extents of one page are reused for 5000 bytes. -/
theorem reuses_two : Reuses 0x1000 (fun _ => ⟨.free, 0, none⟩) (evenWorld 2 201 .free) (evenExtents 2) 5000 := by
  refine (reuses_iff (evenPool_inv (by decide) (by decide) (by decide) (by decide)) (by decide)
    evenWorld_vmalloc).mpr (.inl ⟨[], evenExtents 2, [], ⟨by simp, fun x hx => ?_, by simp, by simp⟩, by decide⟩)
  rw [show (evenWorld 2 201 .free).pool.entry x = _ from evenPool_entry hx]

/-- **An extent outside its page.**  The first page is full, and its counter is 1, since one of its extents was
freed and taken again; then the next extent goes behind the page. -/
theorem not_reuses_full : ¬ ∀ (pml4 : Nat) (fresh : EntryPtr → DmaEntry) (w : DmaWorld) (ptrs : List EntryPtr)
    (size : Nat), PoolInv w.pool ptrs → 0 < dmaPages size →
    (∃ n d m, vmalloc n w.machine w.pool.dmaTop 1 0x03 pml4 = some (d, m) ∧ d.attr = 0) →
    Reuses pml4 fresh w ptrs size := by
  intro hclaim
  have hinv : PoolInv (evenWorld 203 1 .used).pool (evenExtents 203) :=
    evenPool_inv (by decide) (by decide) (by decide) (by decide)
  have h := hasRoom_of_reuses hinv (by decide)
    (hclaim 0x1000 (fun _ => ⟨.free, 0, none⟩) (evenWorld 203 1 .used) (evenExtents 203) 5000 hinv (by decide)
      evenWorld_vmalloc)
  rcases h with ⟨pre, g, rest, hg, hle⟩ | hall | ⟨j, hj, -, -, -, hslot⟩
  · -- no extent is free
    have hnil : g = [] := by
      refine List.eq_nil_iff_forall_not_mem.mpr fun x hx => ?_
      have hfree := hg.free x hx
      rw [show (evenWorld 203 1 .used).pool.entry x = _ from evenPool_entry (by rw [hg.split]; simp [hx])] at hfree
      cases hfree
    rw [hnil, total_nil] at hle
    exact absurd hle (by decide)
  · exact absurd (hall 0 (le_refl 0)) (by decide)
  · exact absurd (hslot ⟨0, 203⟩ rfl) (by decide)

end

end Dem64
