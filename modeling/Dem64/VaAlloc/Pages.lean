import Dem64.VaAlloc.State
import Dem64.Paging.Entry
import Dem64.Lib.Dll
import Dem64.Lib.Fuel
import Mathlib.Data.Finset.Card
import Mathlib.Data.List.Nodup

/-!
# The metadata pages

The pages form a doubly linked list from `va_header` on (`PageList`).  Slots are carved from the last
page only, so that every page but the last is full (`Slots`); of the carved slots those in `S` hold the
nodes of the trees, and the others are blank.  The header of a page counts both: `free_entries` is what
the nodes leave of the 79 slots, and `unused_entries` is the number of blank slots.

Four operations touch this: carving a slot (`findNewEntry_spec`), recycling a blank one
(`Slots.reuse`), taking a node out (`Slots.drop`) and unmapping the pages without nodes
(`reclaim_spec`).
-/

set_option autoImplicit false

namespace Dem64

/-! ## Addresses -/

theorem subU64_eq {a b : Nat} (h : b ≤ a) (ha : a < 2 ^ 64) : subU64 a b = a - b := by
  rw [subU64]
  omega

theorem vaCapacity_eq : vaCapacity = 79 := rfl

section

variable {p q i j : Nat}

theorem findHd_nodeAt (hp : p % 4096 = 0) (hi : i < 79) : findHd (nodeAt p i) = p := by
  rw [findHd, addrOf_eq, nodeAt]
  omega

theorem nodeAt_inj (hp : p % 4096 = 0) (hq : q % 4096 = 0) (hi : i < 79) (hj : j < 79)
    (h : nodeAt p i = nodeAt q j) : p = q ∧ i = j := by
  rw [nodeAt, nodeAt] at h
  omega

theorem nodeAt_ne_zero : nodeAt p i ≠ 0 := by
  rw [nodeAt]
  omega

theorem nodeAt_succ : nodeAt p (i + 1) = nodeAt p i + 51 := by
  rw [nodeAt, nodeAt]
  omega

end

/-! ## The invariant -/

/-- The metadata pages. -/
structure PageList (pg : List Nat) (s : VaState) : Prop where
  /-- They are linked. -/
  linked : Dll (fun p => (s.hd p).nextPage) (fun p => (s.hd p).formerPage) 0 pg 0
  /-- `va_header` is the first of them. -/
  head : pg.head? = some s.vaHeader
  /-- They are different. -/
  nodup : pg.Nodup
  /-- They are aligned and lie below `va_top`. -/
  page : ∀ p ∈ pg, 0 < p ∧ p % 4096 = 0 ∧ p + 4096 ≤ s.vaTop
  /-- `va_top` is an aligned address. -/
  top : s.vaTop % 4096 = 0 ∧ s.vaTop < 2 ^ 64
  /-- `v_cache` holds aligned addresses of other pages. -/
  cache : ∀ i, i < s.cacheIndex → 0 < s.cacheBase i ∧ s.cacheBase i % 4096 = 0 ∧
    s.cacheBase i + 4096 < 2 ^ 64 ∧ s.cacheBase i ∉ pg
  /-- They are different too. -/
  cache_inj : ∀ i j, i < j → j < s.cacheIndex → s.cacheBase i ≠ s.cacheBase j
  /-- `va_metadata_pages` counts the pages behind the first. -/
  count : s.vaMetadataPages + 1 = pg.length

/-- A slot that holds no node. -/
structure Blank (e : VaNode) : Prop where
  /-- Its range is empty. -/
  length : e.length = 0
  /-- It has no links. -/
  parent : e.parent = 0
  left : e.vaLeft = 0
  right : e.vaRight = 0
  used : e.usedNodes = 0

/-- The slots of the pages, `S` being the nodes of the trees. -/
structure Slots (S : Finset Nat) (pg : List Nat) (s : VaState) : Prop where
  /-- `max` is the number of slots of a page. -/
  max_eq : s.max = 79
  /-- The counters. -/
  free_le : ∀ p ∈ pg, (s.hd p).freeEntries ≤ 79
  unused_le : ∀ p ∈ pg, (s.hd p).unusedEntries ≤ (s.hd p).freeEntries
  /-- Every page but the last is full. -/
  full : ∀ p ∈ pg, p ≠ pg.getLastD 0 → s.carved p = 79
  /-- `va_latest` is the slot that was carved last. -/
  latest : s.vaLatest + 51 = nodeAt (pg.getLastD 0) (s.carved (pg.getLastD 0))
  /-- No page is empty. -/
  pos : 0 < s.carved (pg.getLastD 0)
  /-- The nodes sit in carved slots. -/
  mem : ∀ a ∈ S, ∃ p ∈ pg, ∃ i, i < s.carved p ∧ a = nodeAt p i
  /-- The other carved slots are blank. -/
  blank : ∀ p ∈ pg, ∀ i, i < s.carved p → nodeAt p i ∉ S → Blank (s.node (nodeAt p i))
  /-- `free_entries` is what the nodes leave. -/
  count : ∀ p ∈ pg, (S.filter fun a => findHd a = p).card + (s.hd p).freeEntries = 79

/-- What the trees are made of is the same in both states. -/
structure SameTrees (s s' : VaState) : Prop where
  /-- The nodes. -/
  node : s'.node = s.node
  /-- The globals. -/
  header : s'.vaHeader = s.vaHeader
  kstart : s'.vaKstart = s.vaKstart
  ustart : s'.vaUstart = s.vaUstart
  entries : s'.vaEntries = s.vaEntries

theorem SameTrees.trans {s s' s'' : VaState} (h : SameTrees s s') (h' : SameTrees s' s'') :
    SameTrees s s'' :=
  ⟨h'.node.trans h.node, h'.header.trans h.header, h'.kstart.trans h.kstart,
    h'.ustart.trans h.ustart, h'.entries.trans h.entries⟩

section

variable {S : Finset Nat} {pg : List Nat} {s s' : VaState}

theorem Slots.carved_le (h : Slots S pg s) {p : Nat} (hp : p ∈ pg) : s.carved p ≤ 79 := by
  have h1 := h.unused_le p hp
  rw [VaState.carved, h.max_eq]
  omega

theorem Slots.carved_add (h : Slots S pg s) {p : Nat} (hp : p ∈ pg) :
    s.carved p + (s.hd p).freeEntries = 79 + (s.hd p).unusedEntries := by
  have h1 := h.free_le p hp
  rw [VaState.carved, h.max_eq]
  omega

/-- The page of a node. -/
theorem Slots.findHd_mem (h : Slots S pg s) (hl : PageList pg s) {a : Nat} (ha : a ∈ S) :
    findHd a ∈ pg ∧ ∃ i, i < s.carved (findHd a) ∧ a = nodeAt (findHd a) i := by
  obtain ⟨p, hp, i, hi, rfl⟩ := h.mem a ha
  have hle := h.carved_le hp
  rw [findHd_nodeAt (hl.page p hp).2.1 (by omega)]
  exact ⟨hp, i, hi, rfl⟩

theorem Slots.ne_zero (h : Slots S pg s) {a : Nat} (ha : a ∈ S) : a ≠ 0 := by
  obtain ⟨p, -, i, -, rfl⟩ := h.mem a ha
  exact nodeAt_ne_zero

/-- A page with unused slots has a blank one. -/
theorem Slots.exists_blank (h : Slots S pg s) (hl : PageList pg s) {p : Nat} (hp : p ∈ pg)
    (hu : (s.hd p).unusedEntries ≠ 0) : ∃ i, i < s.carved p ∧ nodeAt p i ∉ S := by
  by_contra hno
  push Not at hno
  have hal := (hl.page p hp).2.1
  have hle := h.carved_le hp
  have hsub : (Finset.range (s.carved p)).image (nodeAt p) ⊆ S.filter fun a => findHd a = p := by
    intro a ha
    obtain ⟨i, hi, rfl⟩ := Finset.mem_image.mp ha
    have hi' := Finset.mem_range.mp hi
    exact Finset.mem_filter.mpr ⟨hno i hi', findHd_nodeAt hal (by omega)⟩
  have hcard := Finset.card_le_card hsub
  rw [Finset.card_image_of_injOn, Finset.card_range] at hcard
  · have h1 := h.count p hp
    have h2 := h.carved_add hp
    omega
  · intro i hi j hj hij
    have hi' : i < s.carved p := Finset.mem_range.mp (Finset.mem_coe.mp hi)
    have hj' : j < s.carved p := Finset.mem_range.mp (Finset.mem_coe.mp hj)
    exact (nodeAt_inj hal hal (by omega) (by omega) hij).2

/-- A slot that is neither blank nor a node was never carved. -/
theorem Slots.notMem_of_not_carved (h : Slots S pg s) (hl : PageList pg s) {p i : Nat}
    (hp : p % 4096 = 0) (hi : i < 79) (hc : p ∈ pg → s.carved p ≤ i) : nodeAt p i ∉ S := by
  intro ha
  obtain ⟨hmem, j, hj, hij⟩ := h.findHd_mem hl ha
  rw [findHd_nodeAt hp hi] at hmem hj hij
  have hle := h.carved_le hmem
  have := (nodeAt_inj hp hp hi (by omega) hij).2
  have := hc hmem
  omega

end

/-! ## Unmapping pages -/

section

variable {S : Finset Nat} {l r : List Nat} {f x : Nat} {s s' : VaState}

theorem VaState.carved_congr (hmax : s'.max = s.max) {p : Nat}
    (hfree : (s'.hd p).freeEntries = (s.hd p).freeEntries)
    (hunused : (s'.hd p).unusedEntries = (s.hd p).unusedEntries) : s'.carved p = s.carved p := by
  rw [VaState.carved, VaState.carved, hmax, hfree, hunused]

/-- The last page, when a page behind `f` is taken out. -/
theorem getLastD_remove (hnd : (l ++ [f] ++ x :: r).Nodup) :
    (r = [] → (l ++ [f] ++ x :: r).getLastD 0 = x ∧ (l ++ [f] ++ r).getLastD 0 = f) ∧
      (r ≠ [] → (l ++ [f] ++ r).getLastD 0 = (l ++ [f] ++ x :: r).getLastD 0 ∧
        (l ++ [f] ++ x :: r).getLastD 0 ≠ x) := by
  constructor
  · rintro rfl
    simp
  · intro hr
    obtain ⟨r', y, rfl⟩ := (List.eq_nil_or_concat' r).resolve_left hr
    have hlast : ∀ l₀ : List Nat, (l₀ ++ (r' ++ [y])).getLastD 0 = y := fun l₀ => by simp
    rw [show l ++ [f] ++ x :: (r' ++ [y]) = (l ++ [f] ++ [x]) ++ (r' ++ [y]) by simp, hlast, hlast]
    refine ⟨rfl, ?_⟩
    rintro rfl
    simp [List.nodup_append] at hnd

/-- A page without nodes is taken out. -/
theorem Slots.remove (h : Slots S (l ++ [f] ++ x :: r) s) (hl : PageList (l ++ [f] ++ x :: r) s)
    (hx : (s.hd x).freeEntries = 79) (hnode : s'.node = s.node) (hmax : s'.max = s.max)
    (hfree : ∀ p, (s'.hd p).freeEntries = (s.hd p).freeEntries)
    (hunused : ∀ p, (s'.hd p).unusedEntries = (s.hd p).unusedEntries)
    (hlatest : s'.vaLatest = if r = [] then nodeAt f (s.carved f) - 51 else s.vaLatest) :
    Slots S (l ++ [f] ++ r) s' := by
  have hsub : ∀ p ∈ l ++ [f] ++ r, p ∈ l ++ [f] ++ x :: r := by simp; tauto
  have hcarved : ∀ p, s'.carved p = s.carved p := fun p => VaState.carved_congr hmax (hfree p) (hunused p)
  have hxl : x ∉ l ++ [f] := fun hxl =>
    List.disjoint_of_nodup_append hl.nodup hxl List.mem_cons_self
  obtain ⟨hlast, hlast'⟩ := getLastD_remove hl.nodup
  have hfull : f ∈ l ++ [f] ++ x :: r → f ≠ x := fun _ hfx => hxl (by simp [hfx])
  constructor
  · exact hmax.trans h.max_eq
  · intro p hp
    rw [hfree]
    exact h.free_le p (hsub p hp)
  · intro p hp
    rw [hfree, hunused]
    exact h.unused_le p (hsub p hp)
  · intro p hp hne
    rw [hcarved]
    refine h.full p (hsub p hp) ?_
    by_cases hr : r = []
    · subst hr
      rw [(hlast rfl).1]
      exact fun hpx => hxl (by simpa [hpx] using hp)
    · rwa [← (hlast' hr).1]
  · rw [hcarved, hlatest]
    by_cases hr : r = []
    · rw [if_pos hr, (hlast hr).2, nodeAt]
      have hf := h.full f (by simp) (by rw [(hlast hr).1]; exact hfull (by simp))
      omega
    · rw [if_neg hr, (hlast' hr).1]
      exact h.latest
  · rw [hcarved]
    by_cases hr : r = []
    · rw [(hlast hr).2, h.full f (by simp) (by rw [(hlast hr).1]; exact hfull (by simp))]
      decide
    · rw [(hlast' hr).1]
      exact h.pos
  · intro a ha
    obtain ⟨hp, i, hi, hai⟩ := h.findHd_mem hl ha
    refine ⟨findHd a, ?_, i, by rwa [hcarved], hai⟩
    -- the page taken out has no node
    have hax : findHd a ≠ x := by
      intro hax
      have hcount := h.count x (by simp)
      have hpos : 0 < (S.filter fun a => findHd a = x).card :=
        Finset.card_pos.mpr ⟨a, Finset.mem_filter.mpr ⟨ha, hax⟩⟩
      omega
    rcases List.mem_append.mp hp with hp | hp
    · exact List.mem_append_left _ hp
    · exact List.mem_append_right _ ((List.mem_cons.mp hp).resolve_left hax)
  · intro p hp i hi hnot
    rw [hnode]
    exact h.blank p (hsub p hp) i (by rwa [← hcarved]) hnot
  · intro p hp
    rw [hfree]
    exact h.count p (hsub p hp)

/-- The address of a page that is taken out may go to `va_top` and to `v_cache`. -/
theorem PageList.remove (h : PageList (l ++ [f] ++ x :: r) s)
    (hdll : Dll (fun p => (s'.hd p).nextPage) (fun p => (s'.hd p).formerPage) 0 (l ++ [f] ++ r) 0)
    (hheader : s'.vaHeader = s.vaHeader)
    (htop : s'.vaTop = if x = subU64 s.vaTop 0x1000 then subU64 s.vaTop 0x1000 else s.vaTop)
    (hcache : ∀ i, i < s'.cacheIndex → s'.cacheBase i = x ∨
      i < s.cacheIndex ∧ s'.cacheBase i = s.cacheBase i)
    (hinj : ∀ i j, i < j → j < s'.cacheIndex → i < s.cacheIndex ∧ s'.cacheBase i = s.cacheBase i)
    (hcount : s'.vaMetadataPages = s.vaMetadataPages - 1) : PageList (l ++ [f] ++ r) s' := by
  have hsub : ∀ p ∈ l ++ [f] ++ r, p ∈ l ++ [f] ++ x :: r := by simp; tauto
  have hx : x ∉ l ++ [f] ++ r := by
    have hnd := h.nodup
    simp only [List.nodup_append, List.nodup_cons, List.mem_append, List.mem_cons] at hnd ⊢
    grind
  have hxp := h.page x (by simp)
  have htop' := h.top
  have hsubU : subU64 s.vaTop 0x1000 = s.vaTop - 4096 := subU64_eq (by omega) (by omega)
  rw [hsubU] at htop
  refine ⟨hdll, ?_, ?_, ?_, ?_, ?_, ?_, ?_⟩
  · rw [hheader, ← h.head]
    cases l <;> rfl
  · have hnd := h.nodup
    simp only [List.nodup_append, List.nodup_cons, List.mem_cons] at hnd ⊢
    grind
  · intro p hp
    have hpage := h.page p (hsub p hp)
    have hpx : p ≠ x := fun hpx => hx (hpx ▸ hp)
    rw [htop]
    split
    · exact ⟨hpage.1, hpage.2.1, by omega⟩
    · exact hpage
  · rw [htop]
    split
    · omega
    · exact htop'
  · intro i hi
    rcases hcache i hi with hix | ⟨hi', heq⟩
    · rw [hix]
      exact ⟨hxp.1, hxp.2.1, by omega, hx⟩
    · rw [heq]
      obtain ⟨h1, h2, h3, h4⟩ := h.cache i hi'
      exact ⟨h1, h2, h3, fun hmem => h4 (hsub _ hmem)⟩
  · intro i j hij hj
    obtain ⟨hi', heq⟩ := hinj i j hij hj
    rw [heq]
    rcases hcache j hj with hjx | ⟨hj', heq'⟩
    · rw [hjx]
      exact fun hc => (h.cache i hi').2.2.2 (by rw [hc]; simp)
    · rw [heq']
      exact h.cache_inj i j hij hj'
  · have := h.count
    rw [hcount]
    simp only [List.length_append, List.length_cons, List.length_nil] at this ⊢
    omega

/-- What `reclaim` does with a page without nodes. -/
def reclaimPage (miss : Bool) (last : Nat) (s : VaState) : VaState :=
  let s := unlinkPage miss last s
  { s with freed := (last, 1) :: s.freed, vaMetadataPages := s.vaMetadataPages - 1 }

theorem reclaim_succ (n : Nat) (miss : Bool) (last : Nat) (s : VaState) :
    reclaim (n + 1) miss last s = if last = s.vaHeader then .ok s
      else if (s.hd last).freeEntries = s.max then
        reclaim n miss (s.hd last).formerPage (reclaimPage miss last s)
      else reclaim n true (s.hd last).formerPage s := rfl

/-- The links and counters after a page is taken out. -/
theorem reclaimPage_hd (miss : Bool) (p : Nat) (hne : (s.hd x).nextPage ≠ (s.hd x).formerPage) :
    ((reclaimPage miss x s).hd p).nextPage = (if p = (s.hd x).formerPage then
        if miss then (s.hd x).nextPage else 0 else (s.hd p).nextPage) ∧
    ((reclaimPage miss x s).hd p).formerPage = (if miss = true ∧ p = (s.hd x).nextPage then
        (s.hd x).formerPage else (s.hd p).formerPage) ∧
    ((reclaimPage miss x s).hd p).freeEntries = (s.hd p).freeEntries ∧
    ((reclaimPage miss x s).hd p).unusedEntries = (s.hd p).unusedEntries := by
  cases miss with
  | false =>
    have hhd : (reclaimPage false x s).hd p = if p = (s.hd x).formerPage then
        { s.hd (s.hd x).formerPage with nextPage := 0 } else s.hd p := rfl
    rw [hhd]
    split <;> simp [*]
  | true =>
    have hhd : (reclaimPage true x s).hd p = if p = (s.hd x).nextPage then
        { (if (s.hd x).nextPage = (s.hd x).formerPage then
            { s.hd (s.hd x).formerPage with nextPage := (s.hd x).nextPage }
          else s.hd (s.hd x).nextPage) with formerPage := (s.hd x).formerPage }
        else if p = (s.hd x).formerPage then
          { s.hd (s.hd x).formerPage with nextPage := (s.hd x).nextPage }
        else s.hd p := rfl
    rw [hhd, if_neg hne]
    by_cases h1 : p = (s.hd x).nextPage
    · have h2 : p ≠ (s.hd x).formerPage := fun h2 => hne (h1.symm.trans h2)
      rw [if_pos h1, if_neg h2, ← h1]
      simp
    · rw [if_neg h1]
      split <;> simp [*, Ne.symm hne]

/-- The page is taken out. -/
theorem reclaimPage_spec (h : Slots S (l ++ [f] ++ x :: r) s) (hl : PageList (l ++ [f] ++ x :: r) s)
    (hx : (s.hd x).freeEntries = 79) :
    Slots S (l ++ [f] ++ r) (reclaimPage (!r.isEmpty) x s) ∧
      PageList (l ++ [f] ++ r) (reclaimPage (!r.isEmpty) x s) ∧
      SameTrees s (reclaimPage (!r.isEmpty) x s) := by
  obtain ⟨hformer, hnext⟩ := hl.linked.links
  have hformer : (s.hd x).formerPage = f := by simpa using hformer
  have hnext : (s.hd x).nextPage = r.headD 0 := hnext
  have hnd := hl.nodup
  have hfl : f ∉ l := by
    simp only [List.nodup_append, List.mem_singleton] at hnd
    grind
  have hfr : f ∉ r := by
    simp only [List.nodup_append, List.mem_append, List.mem_cons] at hnd
    grind
  have hhead : ∀ y ∈ r.head?, y ∉ l ++ [f] ∧ y ∉ r.tail := by
    intro y hy
    cases r with
    | nil => exact absurd hy (by simp)
    | cons z r =>
      obtain rfl : z = y := by simpa using hy
      simp only [List.nodup_append, List.nodup_cons, List.mem_append, List.mem_cons] at hnd ⊢
      grind
  have hf0 := (hl.page f (by simp)).1
  have hne : (s.hd x).nextPage ≠ (s.hd x).formerPage := by
    rw [hformer, hnext]
    cases r with
    | nil => exact fun h0 => absurd h0 (by simp; omega)
    | cons y r => exact fun h0 => hfr (by simp [← h0])
  have hhd := fun p => reclaimPage_hd (!r.isEmpty) p hne
  rw [hformer, hnext] at hhd
  refine ⟨h.remove hl hx ?_ ?_ (fun p => (hhd p).2.2.1) (fun p => (hhd p).2.2.2) ?_,
    hl.remove (hl.linked.remove ?_ ?_ ?_ ?_ ?_ ?_) ?_ ?_ ?_ ?_ ?_, ?_⟩
  · cases r <;> rfl
  · cases r <;> rfl
  · cases r with
    | nil =>
      have hcarved : (reclaimPage false x s).carved f = s.carved f :=
        VaState.carved_congr (show (reclaimPage false x s).max = s.max from rfl) (hhd f).2.2.1
          (hhd f).2.2.2
      rw [if_pos rfl, ← hcarved, ← hformer]
      rfl
    | cons y r => rfl
  · intro y hy
    rw [(hhd y).1, if_neg (show ¬ y = f from fun hyf => hfl (hyf ▸ hy))]
  · intro y hy
    rw [(hhd y).2.1, if_neg]
    rintro ⟨hr, hyr⟩
    cases r with
    | nil => exact absurd hr (by simp)
    | cons z r => exact (hhead z rfl).1 (by rwa [← show y = z from hyr])
  · rw [(hhd f).1, if_pos rfl]
    cases r <;> rfl
  · intro y hy
    rw [(hhd y).1, if_neg (show ¬ y = f from fun hyf => hfr (hyf ▸ hy))]
  · intro y hy
    cases r with
    | nil => exact absurd hy (by simp)
    | cons z r =>
      obtain rfl : z = y := by simpa using hy
      rw [(hhd z).2.1, if_pos ⟨rfl, rfl⟩]
  · intro y hy
    rw [(hhd y).2.1, if_neg]
    rintro ⟨hr, hyr⟩
    cases r with
    | nil => exact absurd hr (by simp)
    | cons z r => exact (hhead z rfl).2 (by rwa [← show y = z from hyr])
  · cases r <;> rfl
  · cases r <;> rfl
  · -- a page from the middle goes to the cache
    intro i hi
    cases r with
    | nil => exact Or.inr ⟨hi, rfl⟩
    | cons z r =>
      by_cases hi' : i = s.cacheIndex
      · exact Or.inl (if_pos hi')
      · refine Or.inr ⟨?_, if_neg hi'⟩
        have hi : i < if s.cacheIndex < 511 then s.cacheIndex + 1 else s.cacheIndex := hi
        split at hi <;> omega
  · intro i j hij hj
    cases r with
    | nil => exact ⟨lt_trans hij hj, rfl⟩
    | cons z r =>
      have hj : j < if s.cacheIndex < 511 then s.cacheIndex + 1 else s.cacheIndex := hj
      have hi : i < s.cacheIndex := by split at hj <;> omega
      exact ⟨hi, if_neg (show ¬ i = s.cacheIndex by omega)⟩
  · cases r <;> rfl
  · cases r <;> exact ⟨rfl, rfl, rfl, rfl, rfl⟩

/-- Pages were taken out of the list and given to `vfree`; the slots of the others stay. -/
structure PagesGone (pg pg' : List Nat) (s s' : VaState) : Prop where
  /-- The pages that are gone. -/
  gone : ∃ gone : List Nat, s'.freed = gone.map (fun y => (y, 1)) ++ s.freed ∧
    ∀ y, y ∈ pg' ↔ y ∈ pg ∧ y ∉ gone
  /-- Nothing is carved. -/
  carved : ∀ p, s'.carved p = s.carved p

/-- No page is gone. -/
theorem PagesGone.of_eq {pg : List Nat} (hfreed : s'.freed = s.freed) (hc : ∀ p, s'.carved p = s.carved p) :
    PagesGone pg pg s s' :=
  ⟨⟨[], hfreed, fun y => by simp⟩, hc⟩

theorem PagesGone.trans {pg pg' pg'' : List Nat} {s'' : VaState} (h : PagesGone pg pg' s s')
    (h' : PagesGone pg' pg'' s' s'') : PagesGone pg pg'' s s'' := by
  obtain ⟨gone, hfreed, hgone⟩ := h.gone
  obtain ⟨gone', hfreed', hgone'⟩ := h'.gone
  refine ⟨⟨gone' ++ gone, ?_, fun y => ?_⟩, fun p => (h'.carved p).trans (h.carved p)⟩
  · rw [hfreed', hfreed, List.map_append, List.append_assoc]
  · rw [hgone', hgone, List.mem_append, not_or]
    tauto

/-- One page is gone. -/
theorem reclaimPage_pagesGone (hl : PageList (l ++ [f] ++ x :: r) s)
    (h' : Slots S (l ++ [f] ++ r) (reclaimPage (!r.isEmpty) x s))
    (h : Slots S (l ++ [f] ++ x :: r) s) :
    PagesGone (l ++ [f] ++ x :: r) (l ++ [f] ++ r) s (reclaimPage (!r.isEmpty) x s) := by
  have hnd := hl.nodup
  refine ⟨⟨[x], ?_, fun y => ?_⟩, fun p => ?_⟩
  · cases r <;> rfl
  · have hx : x ∉ l ++ [f] ++ r := by
      simp only [List.nodup_append, List.nodup_cons, List.mem_append, List.mem_cons] at hnd ⊢
      grind
    rw [List.mem_singleton]
    constructor
    · intro hy
      refine ⟨?_, fun hyx => hx (hyx ▸ hy)⟩
      simp only [List.mem_append, List.mem_cons] at hy ⊢
      tauto
    · rintro ⟨hy, hyx⟩
      simp only [List.mem_append, List.mem_cons] at hy ⊢
      tauto
  · have hne : (s.hd x).nextPage ≠ (s.hd x).formerPage := by
      obtain ⟨hformer, hnext⟩ := hl.linked.links
      have hformer : (s.hd x).formerPage = f := by simpa using hformer
      have hnext : (s.hd x).nextPage = r.headD 0 := hnext
      have hf0 := (hl.page f (by simp)).1
      rw [hformer, hnext]
      cases r with
      | nil => exact fun h0 => absurd h0 (by simp; omega)
      | cons y r =>
        intro h0
        simp only [List.nodup_append, List.mem_append, List.mem_cons] at hnd
        exact hnd.2.2 f (by simp) f (by simp [← h0]) rfl
    exact VaState.carved_congr (h'.max_eq.trans h.max_eq.symm) (reclaimPage_hd _ p hne).2.2.1
      (reclaimPage_hd _ p hne).2.2.2

/-- **Unmapping the pages without nodes** leaves the trees as they are. -/
theorem reclaim_spec (h : Slots S (l ++ x :: r) s) (hl : PageList (l ++ x :: r) s) :
    ∃ s' pg, Settles (fun n => reclaim n (!r.isEmpty) x s) s' ∧ Slots S pg s' ∧ PageList pg s' ∧
      SameTrees s s' ∧ PagesGone (l ++ x :: r) pg s s' := by
  -- by induction on the pages before the one the loop looks at
  induction l using List.reverseRecOn generalizing x r s with
  | nil =>
    have hx : x = s.vaHeader := by simpa using hl.head
    refine ⟨s, _, Settles.of_succ fun n => ?_, h, hl, ⟨rfl, rfl, rfl, rfl, rfl⟩,
      PagesGone.of_eq rfl fun _ => rfl⟩
    rw [reclaim_succ, if_pos hx]
  | append_singleton l f ih =>
    have hx : x ≠ s.vaHeader := by
      intro hx
      have hhead := hl.head
      have hnd := hl.nodup
      cases l with
      | nil =>
        simp only [List.nil_append, List.cons_append, List.head?_cons, Option.some_inj] at hhead
        simp [hhead, hx] at hnd
      | cons y l =>
        simp only [List.cons_append, List.head?_cons, Option.some_inj] at hhead
        simp [hhead, hx] at hnd
    have hformer : (s.hd x).formerPage = f := by simpa using hl.linked.links.1
    by_cases hfree : (s.hd x).freeEntries = 79
    · obtain ⟨h', hl', hsame⟩ := reclaimPage_spec h hl hfree
      have hone := reclaimPage_pagesGone hl h' h
      rw [List.append_assoc] at h' hl'
      obtain ⟨s', pg, hset, hs', hl'', hsame', hgone⟩ := ih h' hl'
      refine ⟨s', pg, hset.succ fun n => ?_, hs', hl'', hsame.trans hsame', hone.trans ?_⟩
      · rw [reclaim_succ, if_neg hx, if_pos (hfree.trans h.max_eq.symm), hformer]
        rfl
      · rw [List.append_assoc]
        exact hgone
    · rw [List.append_assoc] at h hl ⊢
      obtain ⟨s', pg, hset, hs', hl'', hsame', hgone⟩ := ih h hl
      refine ⟨s', pg, hset.succ fun n => ?_, hs', hl'', hsame', hgone⟩
      rw [reclaim_succ, if_neg hx, if_neg fun hf => hfree (hf.trans h.max_eq), hformer]
      rfl

end

/-! ## Searching the slots -/

section

variable {p : VaNode → Bool} {s : VaState}

theorem scanSlots_none {page : Nat} : ∀ {k i : Nat}, scanSlots p s page k i = none →
    ∀ j, i ≤ j → j < i + k → p (s.node (nodeAt page j)) = false
  | 0, i, _, j, h1, h2 => absurd h2 (by omega)
  | k + 1, i, h, j, h1, h2 => by
    rw [scanSlots] at h
    split at h
    · exact absurd h (by simp)
    · rename_i hp
      rcases Nat.eq_or_lt_of_le h1 with rfl | hlt
      · simpa using hp
      · exact scanSlots_none h j hlt (by omega)

theorem scanSlots_some {page a : Nat} : ∀ {k i : Nat}, scanSlots p s page k i = some a →
    ∃ j, i ≤ j ∧ j < i + k ∧ a = nodeAt page j ∧ p (s.node a) = true ∧
      ∀ j', i ≤ j' → j' < j → p (s.node (nodeAt page j')) = false
  | 0, i, h => absurd h (by simp [scanSlots])
  | k + 1, i, h => by
    rw [scanSlots] at h
    split at h
    · rename_i hp
      obtain rfl := Option.some_inj.mp h
      exact ⟨i, le_refl i, by omega, rfl, hp, fun j' h1 h2 => absurd h2 (by omega)⟩
    · rename_i hp
      obtain ⟨j, h1, h2, h3, h4, h5⟩ := scanSlots_some h
      refine ⟨j, by omega, by omega, h3, h4, fun j' h6 h7 => ?_⟩
      rcases Nat.eq_or_lt_of_le h6 with rfl | hlt
      · simpa using hp
      · exact h5 j' hlt h7

/-- What a search of the pages `l` may find: a slot that passes, with none before it that does. -/
inductive Found (q : VaHd → Bool) (p : VaNode → Bool) (s : VaState) (l : List Nat) :
    Option (Nat × Nat) → Prop
  /-- No slot passes. -/
  | none (h : ∀ x ∈ l, q (s.hd x) = true → ∀ i, i < s.carved x → p (s.node (nodeAt x i)) = false) :
      Found q p s l none
  /-- The first slot that does. -/
  | some (l₁ l₂ : List Nat) {x i : Nat} (hl : l = l₁ ++ x :: l₂) (hq : q (s.hd x) = true)
      (hi : i < s.carved x) (hp : p (s.node (nodeAt x i)) = true)
      (hpages : ∀ y ∈ l₁, q (s.hd y) = true → ∀ j, j < s.carved y → p (s.node (nodeAt y j)) = false)
      (hslots : ∀ j, j < i → p (s.node (nodeAt x j)) = false) :
      Found q p s l (some (x, nodeAt x i))

/-- **The searches end**, with the first slot that passes. -/
theorem scanPages_settles (q : VaHd → Bool) {b : Nat} {l : List Nat}
    (hl : Dll (fun p => (s.hd p).nextPage) (fun p => (s.hd p).formerPage) b l 0)
    (hpos : ∀ x ∈ l, 0 < x) :
    ∃ r, Settles (fun n => scanPages q p s n (l.headD 0)) r ∧ Found q p s l r := by
  induction l generalizing b with
  | nil => exact ⟨none, Settles.of_succ fun n => rfl, Found.none fun x hx => absurd hx (by simp)⟩
  | cons x l ih =>
    have hx : x ≠ 0 := Nat.pos_iff_ne_zero.mp (hpos x List.mem_cons_self)
    obtain ⟨-, hnext, hrest⟩ := hl
    have hnext : (s.hd x).nextPage = l.headD 0 := hnext
    have hunfold : ∀ n, scanPages q p s (n + 1) x =
        (if q (s.hd x) then scanSlots p s x (s.carved x) 0 else none).elim (scanPages q p s n (l.headD 0))
          fun a => .ok (some (x, a)) := by
      intro n
      rw [← hnext, scanPages, if_neg hx]
      cases if q (s.hd x) then scanSlots p s x (s.carved x) 0 else none
      · rfl
      · rfl
    cases hscan : if q (s.hd x) then scanSlots p s x (s.carved x) 0 else none with
    | none =>
      have hnone : q (s.hd x) = true → ∀ i, i < s.carved x → p (s.node (nodeAt x i)) = false := by
        intro hq i hi
        rw [if_pos hq] at hscan
        exact scanSlots_none hscan i (Nat.zero_le i) (by omega)
      obtain ⟨r, hset, hfound⟩ := ih hrest fun y hy => hpos y (List.mem_cons_of_mem _ hy)
      refine ⟨r, hset.succ fun n => ?_, ?_⟩
      · simp only [List.headD_cons, hunfold, hscan, Option.elim]
      · cases hfound with
        | none h =>
          refine Found.none fun y hy => ?_
          rcases List.mem_cons.mp hy with rfl | hy
          · exact hnone
          · exact h y hy
        | some l₁ l₂ hl hq hi hp hpages hslots =>
          refine Found.some (x :: l₁) l₂ (by rw [hl]; rfl) hq hi hp (fun y hy => ?_) hslots
          rcases List.mem_cons.mp hy with rfl | hy
          · exact hnone
          · exact hpages y hy
    | some a =>
      have hq : q (s.hd x) = true := by
        by_contra hq
        rw [if_neg hq] at hscan
        exact absurd hscan (by simp)
      rw [if_pos hq] at hscan
      obtain ⟨j, -, hj, rfl, hp, hfirst⟩ := scanSlots_some hscan
      refine ⟨some (x, nodeAt x j), Settles.of_succ fun n => ?_, Found.some [] l rfl hq (by omega)
        hp (fun y hy => absurd hy (by simp)) fun j' hj' => hfirst j' (Nat.zero_le _) hj'⟩
      simp only [List.headD_cons, hunfold, if_pos hq, hscan, Option.elim]

end

/-! ## Carving a slot -/

section

variable {S : Finset Nat} {pg pg' : List Nat} {s s' : VaState} {env : Env}

theorem filter_insert_card {a p : Nat} (ha : a ∉ S) :
    ((insert a S).filter fun b => findHd b = p).card =
      (S.filter fun b => findHd b = p).card + if findHd a = p then 1 else 0 := by
  rw [Finset.filter_insert]
  split
  · rw [Finset.card_insert_of_notMem fun h => ha (Finset.mem_filter.mp h).1]
  · rfl

/-- Slot `c` of the last page `x`, which may be a new one, becomes a node. -/
theorem Slots.carve (h : Slots S pg s) (hl : PageList pg s) (hl' : PageList pg' s') {x c : Nat}
    (hx : pg'.getLastD 0 = x) (hx' : x ∈ pg') (hsub : ∀ p ∈ pg', p ≠ x → p ∈ pg)
    (hsup : ∀ p ∈ pg, p ∈ pg') (hc : c < 79) (hold : x ∈ pg → s.carved x = c)
    (hcard : (S.filter fun a => findHd a = x).card = c)
    (hfull : ∀ p ∈ pg, p ≠ x → s.carved p = 79) (hmax : s'.max = s.max)
    (hfree : (s'.hd x).freeEntries = 78 - c) (hunused : (s'.hd x).unusedEntries = 0)
    (hother : ∀ p, p ≠ x → (s'.hd p).freeEntries = (s.hd p).freeEntries ∧
      (s'.hd p).unusedEntries = (s.hd p).unusedEntries)
    (hlatest : s'.vaLatest = nodeAt x c)
    (hnode : ∀ p ∈ pg, ∀ i, i < s.carved p → s'.node (nodeAt p i) = s.node (nodeAt p i)) :
    nodeAt x c ∉ S ∧ Slots (insert (nodeAt x c) S) pg' s' := by
  have hal := (hl'.page x hx').2.1
  have hcx : s'.carved x = c + 1 := by
    rw [VaState.carved, hmax, h.max_eq, hfree, hunused]
    omega
  have hco : ∀ p, p ≠ x → s'.carved p = s.carved p :=
    fun p hp => VaState.carved_congr hmax (hother p hp).1 (hother p hp).2
  have hmono : ∀ p ∈ pg, s.carved p ≤ s'.carved p := by
    intro p hp
    by_cases hpx : p = x
    · subst hpx
      rw [hcx, hold hp]
      omega
    · rw [hco p hpx]
  have hnot : nodeAt x c ∉ S := h.notMem_of_not_carved hl hal hc fun hmem => by rw [hold hmem]
  have hpage : findHd (nodeAt x c) = x := findHd_nodeAt hal hc
  -- the first slot of a new page
  have hnew : x ∉ pg → c = 0 := by
    intro hmem
    rw [← hcard, Finset.card_eq_zero, Finset.filter_eq_empty_iff]
    exact fun a ha hax => hmem (hax ▸ (h.findHd_mem hl ha).1)
  refine ⟨hnot, hmax.trans h.max_eq, ?_, ?_, ?_, ?_, ?_, ?_, ?_, ?_⟩
  · intro p hp
    by_cases hpx : p = x
    · rw [hpx, hfree]
      omega
    · rw [(hother p hpx).1]
      exact h.free_le p (hsub p hp hpx)
  · intro p hp
    by_cases hpx : p = x
    · rw [hpx, hunused]
      exact Nat.zero_le _
    · rw [(hother p hpx).1, (hother p hpx).2]
      exact h.unused_le p (hsub p hp hpx)
  · intro p hp hne
    rw [hx] at hne
    rw [hco p hne]
    exact hfull p (hsub p hp hne) hne
  · rw [hx, hcx, hlatest, nodeAt_succ]
  · rw [hx, hcx]
    omega
  · intro a ha
    rcases Finset.mem_insert.mp ha with rfl | ha
    · exact ⟨x, hx', c, by omega, rfl⟩
    · obtain ⟨p, hp, i, hi, hai⟩ := h.mem a ha
      exact ⟨p, hsup p hp, i, lt_of_lt_of_le hi (hmono p hp), hai⟩
  · intro p hp i hi hni
    rw [Finset.mem_insert, not_or] at hni
    have hcarved : p ∈ pg ∧ i < s.carved p := by
      by_cases hpx : p = x
      · subst hpx
        have hic : i < c := by
          have : i ≠ c := fun hic => hni.1 (by rw [hic])
          omega
        by_cases hmem : p ∈ pg
        · exact ⟨hmem, by rwa [hold hmem]⟩
        · rw [hnew hmem] at hic
          exact absurd hic (Nat.not_lt_zero i)
      · exact ⟨hsub p hp hpx, by rwa [← hco p hpx]⟩
    rw [hnode p hcarved.1 i hcarved.2]
    exact h.blank p hcarved.1 i hcarved.2 hni.2
  · intro p hp
    rw [filter_insert_card hnot, hpage]
    by_cases hpx : p = x
    · rw [if_pos hpx.symm, hpx, hcard, hfree]
      omega
    · rw [if_neg fun hc => hpx hc.symm, (hother p hpx).1]
      exact h.count p (hsub p hp hpx)

/-- The address of the next new page. -/
def VaState.nextPageAddr (s : VaState) : Nat :=
  if s.cacheIndex > 0 then s.cacheBase (s.cacheIndex - 1) else s.vaTop

/-- `find_new_entry` has a free slot to carve, or memory for a new page. -/
def CanCarve (env : Env) (pg : List Nat) (s : VaState) : Prop :=
  (s.hd (pg.getLastD 0)).freeEntries = 0 → s.vaTop + 4096 < 2 ^ 64 ∧
    env.vmalloc s.nextPageAddr 1 0x03 = true

/-- The same, with what is needed of the page that is taken. -/
def PageReady (env : Env) (pg : List Nat) (s : VaState) : Prop :=
  (s.hd (pg.getLastD 0)).freeEntries = 0 → s.nextPageAddr + 4096 < 2 ^ 64 ∧
    env.vmalloc s.nextPageAddr 1 0x03 = true

theorem PageList.nextPageAddr_lt (hl : PageList pg s) (htop : s.vaTop + 4096 < 2 ^ 64) :
    s.nextPageAddr + 4096 < 2 ^ 64 := by
  rw [VaState.nextPageAddr]
  split
  · exact (hl.cache _ (by omega)).2.2.1
  · exact htop

theorem CanCarve.ready (h : CanCarve env pg s) (hl : PageList pg s) : PageReady env pg s :=
  fun hfree => ⟨hl.nextPageAddr_lt (h hfree).1, (h hfree).2⟩

/-- The new page, mapped but not yet linked. -/
structure Taken (env : Env) (pg : List Nat) (x : Nat) (s s' : VaState) : Prop where
  /-- It is no page of the list. -/
  notMem : x ∉ pg
  /-- It is an aligned page below the new `va_top`. -/
  page : 0 < x ∧ x % 4096 = 0 ∧ x + 4096 ≤ s'.vaTop
  /-- `va_top` only moves up. -/
  le_top : s.vaTop ≤ s'.vaTop
  top : s'.vaTop % 4096 = 0 ∧ s'.vaTop < 2 ^ 64
  /-- What is left in `v_cache`. -/
  index : s'.cacheIndex ≤ s.cacheIndex
  base : s'.cacheBase = s.cacheBase
  cache : ∀ i, i < s'.cacheIndex → s.cacheBase i ≠ x
  /-- Only the nodes of the page are overwritten. -/
  node : ∀ a, findHd a ≠ x → s'.node a = s.node a
  /-- The rest is as before. -/
  rest : s' = { s with node := s'.node, vaTop := s'.vaTop, cacheIndex := s'.cacheIndex }

theorem takePage_spec (hl : PageList pg s) (htop : s.nextPageAddr + 4096 < 2 ^ 64)
    (hvm : env.vmalloc s.nextPageAddr 1 0x03 = true) :
    ∃ s', takePage env s = (some s.nextPageAddr, s') ∧ Taken env pg s.nextPageAddr s s' := by
  have hpages := hl.page
  have htop' := hl.top
  rw [VaState.nextPageAddr] at htop hvm ⊢
  by_cases hidx : s.cacheIndex > 0
  · rw [if_pos hidx] at hvm ⊢
    obtain ⟨h1, h2, h3, h4⟩ := hl.cache (s.cacheIndex - 1) (by omega)
    have hinj := fun i hi => hl.cache_inj i (s.cacheIndex - 1) hi (by omega)
    generalize hbase : s.cacheBase (s.cacheIndex - 1) = base at hvm h1 h2 h3 h4 hinj ⊢
    obtain ⟨top, hdef⟩ : ∃ top, top = if base ≥ s.vaTop then (base + 0x1000) % 2 ^ 64 else s.vaTop :=
      ⟨_, rfl⟩
    have hle : s.vaTop ≤ top ∧ base + 4096 ≤ top ∧ top % 4096 = 0 ∧ top < 2 ^ 64 := by
      rw [hdef]
      split <;> omega
    refine ⟨VaState.mapPage { s with cacheIndex := s.cacheIndex - 1, vaTop := top } env base, ?_, h4,
      ⟨h1, h2, hle.2.1⟩, hle.1, hle.2.2, Nat.sub_le _ _, rfl, hinj, ?_, ?_⟩
    · rw [takePage, if_pos hidx, hdef]
      simp only [hbase, hvm, if_true]
    · intro a ha
      rw [VaState.mapPage]
      exact if_neg ha
    · rw [VaState.mapPage]
  · rw [if_neg hidx] at htop hvm ⊢
    obtain ⟨top, hdef⟩ : ∃ top, top = (s.vaTop + 0x1000) % 2 ^ 64 := ⟨_, rfl⟩
    have hle : s.vaTop + 4096 ≤ top ∧ top % 4096 = 0 ∧ top < 2 ^ 64 := by omega
    have hpos : 0 < s.vaTop := by
      have hhead := hl.head
      cases pg with
      | nil => exact absurd hhead (by simp)
      | cons y l =>
        have := (hpages y List.mem_cons_self).2.2
        omega
    refine ⟨VaState.mapPage { s with vaTop := top } env s.vaTop, ?_, fun hmem => ?_, ⟨hpos, htop'.1, hle.1⟩, ?_,
      hle.2, ?_, ?_, fun i hi => ?_, ?_, ?_⟩
    · rw [takePage, if_neg hidx, hdef]
      simp only [hvm, if_true]
    · have := (hpages _ hmem).2.2
      omega
    · show s.vaTop ≤ top
      omega
    · rw [VaState.mapPage]
    · rw [VaState.mapPage]
    · rw [VaState.mapPage] at hi
      exact absurd (Nat.zero_lt_of_lt hi) hidx
    · intro a ha
      rw [VaState.mapPage]
      exact if_neg ha
    · rw [VaState.mapPage]

theorem linkPage_hd {f x : Nat} (hfx : x ≠ f) (p : Nat) : (linkPage f x s).hd p =
    if p = f then { s.hd f with nextPage := x } else
      if p = x then ⟨vaCapacity, 0, 0, f⟩ else s.hd p := by
  show (if p = f then _ else _) = _
  split
  · show ({ (if f = x then _ else s.hd f : VaHd) with nextPage := x } : VaHd) = _
    rw [if_neg fun h => hfx h.symm]
  · rfl

/-- The new page is linked behind the last one. -/
theorem Taken.link {l : List Nat} {f x : Nat} (hl : PageList (l ++ [f]) s)
    (ht : Taken env (l ++ [f]) x s s') : PageList (l ++ [f] ++ [x]) (linkPage f x s') := by
  have hrest := ht.rest
  have hfx : x ≠ f := fun hfx => ht.notMem (by simp [hfx])
  have hhd : ∀ p, (linkPage f x s').hd p = if p = f then { s.hd f with nextPage := x } else
      if p = x then ⟨vaCapacity, 0, 0, f⟩ else s.hd p := by
    intro p
    have hs' : s'.hd = s.hd := by rw [hrest]
    rw [linkPage_hd hfx, hs']
  have hnd := hl.nodup
  have hfl : f ∉ l := by
    simp only [List.nodup_append, List.mem_singleton] at hnd
    grind
  have hcacheidx := ht.index
  refine ⟨hl.linked.snoc (fun y hy => ?_) (fun y hy => ?_) ?_ ?_ ?_, ?_, ?_, ?_, ht.top, ?_, ?_, ?_⟩
  · have hyf : y ≠ f := fun hyf => hfl (hyf ▸ hy)
    have hyx : y ≠ x := fun hyx => ht.notMem (by simp [← hyx, hy])
    rw [hhd, if_neg hyf, if_neg hyx]
  · have hyx : y ≠ x := fun hyx => ht.notMem (hyx ▸ hy)
    rw [hhd, if_neg hyx]
    split
    · rename_i hyf
      rw [hyf]
    · rfl
  · rw [hhd, if_pos rfl]
  · rw [hhd, if_neg hfx, if_pos rfl]
  · rw [hhd, if_neg hfx, if_pos rfl]
  · show _ = some s'.vaHeader
    rw [hrest, List.head?_append, hl.head]
    rfl
  · rw [List.nodup_append]
    refine ⟨hnd, by simp, fun a ha b hb hab => ?_⟩
    rw [List.mem_singleton.mp hb] at hab
    exact ht.notMem (hab ▸ ha)
  · intro p hp
    rcases List.mem_append.mp hp with hp | hp
    · have h1 := hl.page p hp
      exact ⟨h1.1, h1.2.1, h1.2.2.trans ht.le_top⟩
    · rw [List.mem_singleton.mp hp]
      exact ht.page
  · intro i hi
    have hi : i < s'.cacheIndex := hi
    have hbase : (linkPage f x s').cacheBase i = s.cacheBase i := congrFun ht.base i
    rw [hbase]
    obtain ⟨h1, h2, h3, h4⟩ := hl.cache i (by omega)
    refine ⟨h1, h2, h3, fun hmem => ?_⟩
    rcases List.mem_append.mp hmem with hmem | hmem
    · exact h4 hmem
    · exact ht.cache i hi (List.mem_singleton.mp hmem)
  · intro i j hij hj
    have hj : j < s'.cacheIndex := hj
    show s'.cacheBase i ≠ s'.cacheBase j
    rw [ht.base]
    exact hl.cache_inj i j hij (by omega)
  · have hcount := hl.count
    show s'.vaMetadataPages + 1 + 1 = _
    rw [hrest]
    simp only [List.length_append, List.length_cons, List.length_nil] at hcount ⊢
    omega

/-- What `find_new_entry` finds, `last` being the last page. -/
def newSlot (env : Env) (last : Nat) (s : VaState) : Option (Nat × Nat) × VaState :=
  if (s.hd last).freeEntries = 0 then
    match takePage env s with
    | (none, s) => (none, s)
    | (some x, s) => (some (nodeAt x 0, x), linkPage last x s)
  else (some (s.vaLatest + 51, last), s)

/-- The loop goes to the last page when all the others are full of nodes. -/
theorem findNewEntryLoop_settles {b : Nat} : ∀ {l : List Nat}, l ≠ [] →
    Dll (fun p => (s.hd p).nextPage) (fun p => (s.hd p).formerPage) b l 0 → (∀ p ∈ l, 0 < p) →
    (∀ p ∈ l.dropLast, (s.hd p).freeEntries = 0) →
    Settles (fun n => findNewEntryLoop env n (l.headD 0) s) (newSlot env (l.getLastD 0) s)
  | [], hne, _, _, _ => absurd rfl hne
  | [y], _, hl, _, _ => by
    have hnext : (s.hd y).nextPage = 0 := hl.2.1
    refine Settles.of_succ fun n => ?_
    rw [newSlot]
    simp only [List.headD_cons, List.getLastD_cons, List.getLastD_nil, findNewEntryLoop, hnext,
      if_true]
    split
    · cases takePage env s with
      | mk o s' => cases o <;> rfl
    · rfl
  | y :: z :: l, _, hl, hpos, hfree => by
    have hnext : (s.hd y).nextPage = z := hl.2.1
    have hz : z ≠ 0 := Nat.pos_iff_ne_zero.mp (hpos z (by simp))
    have ih := findNewEntryLoop_settles (l := z :: l) (by simp) hl.2.2
      (fun p hp => hpos p (List.mem_cons_of_mem _ hp))
      (fun p hp => hfree p (by simp only [List.dropLast_cons_cons, List.mem_cons]; exact Or.inr hp))
    refine ih.succ fun n => ?_
    simp only [List.headD_cons, findNewEntryLoop, hfree y (by simp), if_true, hnext, if_neg hz]

/-- Where the slot `c` of the page `x` comes from that is carved. -/
structure NewSlot (pg pg' : List Nat) (x c : Nat) (s s' : VaState) : Prop where
  /-- It is the next one of the last page, or the first one of a new page. -/
  pages : (pg' = pg ∧ x = pg.getLastD 0 ∧ s.carved x = c) ∨
    (pg' = pg ++ [x] ∧ x = s.nextPageAddr ∧ x ∉ pg ∧ c = 0)
  /-- It lies inside the page. -/
  lt : c < 79
  /-- It is counted. -/
  carved : ∀ p, s'.carved p = if p = x then c + 1 else s.carved p
  /-- It is the slot that was carved last. -/
  latest : s'.vaLatest = nodeAt x c
  /-- The pages, counted. -/
  metadata : s'.vaMetadataPages + pg.length = s.vaMetadataPages + pg'.length

/-- What a new node looks like before it gets its range. -/
structure Carved (S : Finset Nat) (pg : List Nat) (a : Nat) (s s' : VaState) : Prop where
  /-- The slot was not in use. -/
  notMem : a ∉ S
  /-- The pages are in order. -/
  slots : Slots (insert a S) pg s'
  pages : PageList pg s'
  /-- The nodes of the trees are as they were. -/
  node : ∀ x ∈ S, s'.node x = s.node x
  /-- The new one has no links. -/
  links : (s'.node a).parent = 0 ∧ (s'.node a).vaLeft = 0 ∧ (s'.node a).vaRight = 0 ∧
    (s'.node a).usedNodes = 0
  /-- It is counted. -/
  entries : s'.vaEntries = s.vaEntries + 1
  /-- The roots are where they were. -/
  header : s'.vaHeader = s.vaHeader
  kstart : s'.vaKstart = s.vaKstart
  ustart : s'.vaUstart = s.vaUstart
  /-- Nothing was given to `vfree`. -/
  freed : s'.freed = s.freed

/-- The slot that was found becomes a node. -/
theorem carved_initEntry (h : Slots S pg s) (hl : PageList pg s) (hl' : PageList pg' s')
    {x c : Nat} (hx : pg'.getLastD 0 = x) (hx' : x ∈ pg') (hsub : ∀ p ∈ pg', p ≠ x → p ∈ pg)
    (hsup : ∀ p ∈ pg, p ∈ pg') (hc : c < 79) (hold : x ∈ pg → s.carved x = c)
    (hcard : (S.filter fun a => findHd a = x).card = c)
    (hfull : ∀ p ∈ pg, p ≠ x → s.carved p = 79)
    (hfree : (s'.hd x).freeEntries = 79 - c) (hunused : (s'.hd x).unusedEntries = 0)
    (hother : ∀ p, p ≠ x → (s'.hd p).freeEntries = (s.hd p).freeEntries ∧
      (s'.hd p).unusedEntries = (s.hd p).unusedEntries)
    (hnode : ∀ p ∈ pg, ∀ i, i < s.carved p → s'.node (nodeAt p i) = s.node (nodeAt p i))
    (hmax : s'.max = s.max) (hentries : s'.vaEntries = s.vaEntries)
    (hheader : s'.vaHeader = s.vaHeader) (hkstart : s'.vaKstart = s.vaKstart)
    (hustart : s'.vaUstart = s.vaUstart) (hfreed : s'.freed = s.freed) :
    Carved S pg' (nodeAt x c) s (initEntry .noParent 0 (nodeAt x c) x s') := by
  have hal := (hl'.page x hx').2.1
  have hnew : ∀ p ∈ pg, ∀ i, i < s.carved p → nodeAt p i ≠ nodeAt x c := by
    intro p hp i hi heq
    have hle := h.carved_le hp
    obtain ⟨rfl, rfl⟩ := nodeAt_inj (hl.page p hp).2.1 hal (by omega) hc heq
    rw [hold hp] at hi
    exact lt_irrefl _ hi
  have hhd : ∀ p, (initEntry .noParent 0 (nodeAt x c) x s').hd p = if p = x then
      { s'.hd x with freeEntries := subU64 (s'.hd x).freeEntries 1 } else s'.hd p := fun p => rfl
  have hnd : ∀ y, (initEntry .noParent 0 (nodeAt x c) x s').node y = if y = nodeAt x c then
      { s'.node (nodeAt x c) with vaRight := 0, vaLeft := 0, parent := 0, usedNodes := 0 }
      else s'.node y := fun y => rfl
  have hlinks : PageList pg' (initEntry .noParent 0 (nodeAt x c) x s') := by
    refine ⟨hl'.linked.congr (fun y _ => ?_) (fun y _ => ?_), hl'.head, hl'.nodup, hl'.page, hl'.top,
      hl'.cache, hl'.cache_inj, hl'.count⟩
    · rw [hhd]
      split <;> simp [*]
    · rw [hhd]
      split <;> simp [*]
  obtain ⟨hnot, hslots⟩ := h.carve hl hlinks hx hx' hsub hsup hc hold hcard hfull hmax
    (by rw [hhd, if_pos rfl]; show subU64 _ 1 = _; rw [hfree, subU64_eq (by omega) (by omega)]; omega)
    (by rw [hhd, if_pos rfl]; exact hunused) (fun p hp => by rw [hhd, if_neg hp]; exact hother p hp)
    rfl (fun p hp i hi => by rw [hnd, if_neg (hnew p hp i hi)]; exact hnode p hp i hi)
  refine ⟨hnot, hslots, hlinks, fun y hy => ?_, ?_, ?_, hheader, hkstart, hustart, hfreed⟩
  · obtain ⟨p, hp, i, hi, rfl⟩ := h.mem y hy
    rw [hnd, if_neg (hnew p hp i hi)]
    exact hnode p hp i hi
  · rw [hnd, if_pos rfl]
    exact ⟨rfl, rfl, rfl, rfl⟩
  · show s'.vaEntries + 1 = _
    rw [hentries]

/-- The slot is counted in its page. -/
theorem carved_initEntry_self {x a p : Nat} (hfree : 0 < (s.hd x).freeEntries)
    (hle : (s.hd x).freeEntries ≤ s.max) (hlt : s.max < 2 ^ 64) :
    (initEntry .noParent 0 a x s).carved p = if p = x then s.carved x + 1 else s.carved p := by
  have hhd : (initEntry .noParent 0 a x s).hd p = if p = x then
      { s.hd x with freeEntries := subU64 (s.hd x).freeEntries 1 } else s.hd p := rfl
  have hmax : (initEntry .noParent 0 a x s).max = s.max := rfl
  rw [VaState.carved, hhd, hmax]
  split
  · show s.max + (s.hd x).unusedEntries - subU64 (s.hd x).freeEntries 1 = _
    rw [subU64_eq (by omega) (by omega), VaState.carved]
    omega
  · rfl

theorem PageList.exists_last (hl : PageList pg s) : ∃ l x, pg = l ++ [x] := by
  rcases List.eq_nil_or_concat' pg with rfl | ⟨l, x, rfl⟩
  · exact absurd hl.head (by simp)
  · exact ⟨l, x, rfl⟩

theorem PageList.headD (hl : PageList pg s) : pg.headD 0 = s.vaHeader := by
  have hhead := hl.head
  cases pg with
  | nil => exact absurd hhead (by simp)
  | cons y l => simpa using hhead

/-- Without blank slots every page but the last is full of nodes. -/
theorem Slots.free_eq_zero (h : Slots S pg s) {p : Nat} (hp : p ∈ pg)
    (hu : (s.hd p).unusedEntries = 0) (hne : p ≠ pg.getLastD 0) : (s.hd p).freeEntries = 0 := by
  have h1 := h.full p hp hne
  have h2 := h.carved_add hp
  omega

/-- Without blank slots `find_new_entry` ends up at the last page. -/
theorem findNewEntryLoop_last (h : Slots S pg s) (hl : PageList pg s)
    (hu : ∀ p ∈ pg, (s.hd p).unusedEntries = 0) :
    Settles (fun n => findNewEntryLoop env n s.vaHeader s) (newSlot env (pg.getLastD 0) s) := by
  obtain ⟨l, x, rfl⟩ := hl.exists_last
  have hxl : x ∉ l := by
    have hnd := hl.nodup
    simp only [List.nodup_append, List.mem_singleton] at hnd
    grind
  rw [← hl.headD]
  refine findNewEntryLoop_settles (by simp) hl.linked (fun p hp => (hl.page p hp).1) fun p hp => ?_
  rw [List.dropLast_concat] at hp
  refine h.free_eq_zero (by simp [hp]) (hu p (by simp [hp])) ?_
  rw [List.getLastD_concat]
  exact fun hpx => hxl (hpx ▸ hp)

/-- **Carving.**  When there is no blank slot, `find_new_entry` carves one, if there is memory for a
new page when it needs one. -/
theorem findNewEntry_spec (h : Slots S pg s) (hl : PageList pg s)
    (hu : ∀ p ∈ pg, (s.hd p).unusedEntries = 0) (hcan : PageReady env pg s) :
    ∃ x c pg' s', Settles (fun n => findNewEntry env n .noParent 0 s) (some (nodeAt x c), s') ∧
      Carved S pg' (nodeAt x c) s s' ∧ NewSlot pg pg' x c s s' := by
  have hloop : Settles (fun n => findNewEntryLoop env n s.vaHeader s) (newSlot env (pg.getLastD 0) s) :=
    findNewEntryLoop_last h hl hu
  obtain ⟨l, x, rfl⟩ := hl.exists_last
  have hlast : (l ++ [x]).getLastD 0 = x := by simp
  have hxl : x ∉ l := by
    have hnd := hl.nodup
    simp only [List.nodup_append, List.mem_singleton] at hnd
    grind
  rw [hlast] at hloop
  have hcx := h.carved_add (p := x) (by simp)
  have hux := hu x (by simp)
  have hcount := h.count x (by simp)
  have hle := h.carved_le (p := x) (by simp)
  by_cases hfree : (s.hd x).freeEntries = 0
  · -- a new page
    obtain ⟨htop, hvm⟩ := hcan (by rwa [hlast])
    obtain ⟨s₁, htake, ht⟩ := takePage_spec hl htop hvm
    obtain ⟨y, hy⟩ : ∃ y, y = s.nextPageAddr := ⟨_, rfl⟩
    rw [← hy] at htake ht
    have hyx : y ≠ x := fun hyx => ht.notMem (by simp [hyx])
    have hrest := ht.rest
    have hs₁ : s₁.hd = s.hd := by rw [hrest]
    have hhd := linkPage_hd (s := s₁) hyx
    rw [hs₁] at hhd
    refine ⟨y, 0, l ++ [x] ++ [y], _, hloop.bind ?_,
      carved_initEntry h hl (Taken.link hl ht) (by simp) (by simp)
        (fun p hp hpy => ?_) (fun p hp => List.mem_append_left _ hp) (by decide)
        (fun hy => absurd hy ht.notMem) ?_ (fun p hp _ => ?_) ?_ ?_ (fun p hp => ?_)
        (fun p hp i hi => ?_) ?_ ?_ ?_ ?_ ?_ ?_,
      ⟨.inr ⟨rfl, hy, ht.notMem, rfl⟩, by decide, fun p => ?_, rfl, ?_⟩⟩
    · rw [newSlot, if_pos hfree, htake]
      exact Settles.const _
    · rcases List.mem_append.mp hp with hp | hp
      · exact hp
      · exact absurd (List.mem_singleton.mp hp) hpy
    · rw [Finset.card_eq_zero, Finset.filter_eq_empty_iff]
      exact fun a ha hay => ht.notMem (hay ▸ (h.findHd_mem hl ha).1)
    · rcases List.mem_append.mp hp with hpl | hpx
      · exact h.full p hp (by rw [hlast]; exact fun hpx => hxl (hpx ▸ hpl))
      · rw [List.mem_singleton.mp hpx]
        omega
    · rw [hhd, if_neg hyx, if_pos rfl, vaCapacity_eq]
    · rw [hhd, if_neg hyx, if_pos rfl]
    · rw [hhd, if_neg hp]
      split
      · rename_i hpx
        rw [hpx]
        exact ⟨rfl, rfl⟩
      · exact ⟨rfl, rfl⟩
    · have hle := h.carved_le hp
      refine ht.node _ ?_
      rw [findHd_nodeAt (hl.page p hp).2.1 (by omega)]
      exact fun hpy => ht.notMem (hpy ▸ hp)
    · show s₁.max = s.max
      rw [hrest]
    · show s₁.vaEntries = s.vaEntries
      rw [hrest]
    · show s₁.vaHeader = s.vaHeader
      rw [hrest]
    · show s₁.vaKstart = s.vaKstart
      rw [hrest]
    · show s₁.vaUstart = s.vaUstart
      rw [hrest]
    · show s₁.freed = s.freed
      rw [hrest]
    · have hmax : (linkPage x y s₁).max = 79 := by
        show s₁.max = 79
        rw [hrest]
        exact h.max_eq
      have hy₁ : (linkPage x y s₁).hd y = ⟨vaCapacity, 0, 0, x⟩ := by rw [hhd, if_neg hyx, if_pos rfl]
      have hfree₁ : ((linkPage x y s₁).hd y).freeEntries = 79 := by rw [hy₁, vaCapacity_eq]
      have hunused₁ : ((linkPage x y s₁).hd y).unusedEntries = 0 := by rw [hy₁]
      rw [carved_initEntry_self (by omega) (by omega) (by omega)]
      split
      · rw [VaState.carved]
        omega
      · rename_i hpy
        refine VaState.carved_congr (hmax.trans h.max_eq.symm) ?_ ?_
        all_goals
          rw [hhd, if_neg hpy]
          split <;> simp [*]
    · show s₁.vaMetadataPages + 1 + _ = _
      rw [hrest]
      simp only [List.length_append, List.length_cons, List.length_nil]
      omega
  · -- the last page has room
    have hnode : nodeAt x (s.carved x) = s.vaLatest + 51 := by
      have := h.latest
      rw [hlast] at this
      exact this.symm
    refine ⟨x, s.carved x, l ++ [x], _, hloop.bind ?_,
      carved_initEntry h hl hl hlast (by simp) (fun p hp _ => hp) (fun p hp => hp) (by omega)
        (fun _ => rfl) (by omega) (fun p hp hpx => h.full p hp (by rwa [hlast])) (by omega) hux
        (fun _ _ => ⟨rfl, rfl⟩) (fun _ _ _ _ => rfl) rfl rfl rfl rfl rfl rfl,
      ⟨.inl ⟨rfl, hlast.symm, rfl⟩, by omega, fun p => ?_, rfl, rfl⟩⟩
    · rw [newSlot, if_neg hfree, ← hnode]
      exact Settles.const _
    · have hmax := h.max_eq
      exact carved_initEntry_self (by omega) (by omega) (by omega)

end

/-! ## Blank slots -/

section

variable {S : Finset Nat} {pg : List Nat} {s s' : VaState}

/-- **Recycling.**  A blank slot becomes a node. -/
theorem Slots.reuse (h : Slots S pg s) (hl : PageList pg s) {x i : Nat} (hx : x ∈ pg)
    (hi : i < s.carved x) (hnot : nodeAt x i ∉ S) (hu : (s.hd x).unusedEntries ≠ 0)
    (hmax : s'.max = s.max) (hlatest : s'.vaLatest = s.vaLatest)
    (hfree : (s'.hd x).freeEntries + 1 = (s.hd x).freeEntries)
    (hunused : (s'.hd x).unusedEntries + 1 = (s.hd x).unusedEntries)
    (hother : ∀ p, p ≠ x → (s'.hd p).freeEntries = (s.hd p).freeEntries ∧
      (s'.hd p).unusedEntries = (s.hd p).unusedEntries)
    (hnode : ∀ p ∈ pg, ∀ j, j < s.carved p → nodeAt p j ∉ insert (nodeAt x i) S →
      s'.node (nodeAt p j) = s.node (nodeAt p j)) :
    Slots (insert (nodeAt x i) S) pg s' := by
  have hle := h.carved_le hx
  have hpage : findHd (nodeAt x i) = x := findHd_nodeAt (hl.page x hx).2.1 (by omega)
  have hcarved : ∀ p, s'.carved p = s.carved p := by
    intro p
    by_cases hpx : p = x
    · subst hpx
      rw [VaState.carved, VaState.carved, hmax, ← hfree, ← hunused]
      omega
    · exact VaState.carved_congr hmax (hother p hpx).1 (hother p hpx).2
  have hfx := h.free_le x hx
  have hux := h.unused_le x hx
  refine ⟨hmax.trans h.max_eq, ?_, ?_, ?_, ?_, ?_, ?_, ?_, ?_⟩
  · intro p hp
    by_cases hpx : p = x
    · rw [hpx]
      omega
    · rw [(hother p hpx).1]
      exact h.free_le p hp
  · intro p hp
    by_cases hpx : p = x
    · rw [hpx]
      omega
    · rw [(hother p hpx).1, (hother p hpx).2]
      exact h.unused_le p hp
  · intro p hp hne
    rw [hcarved]
    exact h.full p hp hne
  · rw [hcarved, hlatest]
    exact h.latest
  · rw [hcarved]
    exact h.pos
  · intro a ha
    rcases Finset.mem_insert.mp ha with rfl | ha
    · exact ⟨x, hx, i, by rwa [hcarved], rfl⟩
    · obtain ⟨p, hp, j, hj, haj⟩ := h.mem a ha
      exact ⟨p, hp, j, by rwa [hcarved], haj⟩
  · intro p hp j hj hnj
    rw [hcarved] at hj
    rw [hnode p hp j hj hnj]
    exact h.blank p hp j hj fun hmem => hnj (Finset.mem_insert_of_mem hmem)
  · intro p hp
    have hcount := h.count p hp
    rw [filter_insert_card hnot, hpage]
    by_cases hpx : p = x
    · subst hpx
      rw [if_pos rfl]
      omega
    · rw [if_neg fun hc => hpx hc.symm, (hother p hpx).1]
      exact hcount

theorem filter_erase_card {a p : Nat} (ha : a ∈ S) :
    ((S.erase a).filter fun b => findHd b = p).card + (if findHd a = p then 1 else 0) =
      (S.filter fun b => findHd b = p).card := by
  have := filter_insert_card (S := S.erase a) (a := a) (p := p) (Finset.notMem_erase a S)
  rw [Finset.insert_erase ha] at this
  exact this.symm

/-- **Dropping.**  A node becomes a blank slot. -/
theorem Slots.drop (h : Slots S pg s) (hl : PageList pg s) {a : Nat} (ha : a ∈ S)
    (hmax : s'.max = s.max) (hlatest : s'.vaLatest = s.vaLatest)
    (hfree : (s'.hd (findHd a)).freeEntries = (s.hd (findHd a)).freeEntries + 1)
    (hunused : (s'.hd (findHd a)).unusedEntries = (s.hd (findHd a)).unusedEntries + 1)
    (hother : ∀ p, p ≠ findHd a → (s'.hd p).freeEntries = (s.hd p).freeEntries ∧
      (s'.hd p).unusedEntries = (s.hd p).unusedEntries)
    (hblank : Blank (s'.node a))
    (hnode : ∀ p ∈ pg, ∀ j, j < s.carved p → nodeAt p j ∉ S →
      s'.node (nodeAt p j) = s.node (nodeAt p j)) :
    Slots (S.erase a) pg s' := by
  obtain ⟨hx, i, hi, hai⟩ := h.findHd_mem hl ha
  have hcard := fun p => filter_erase_card (p := p) ha
  have hcx := h.count _ hx
  have hcardx := hcard (findHd a)
  rw [if_pos rfl] at hcardx
  have hcarved : ∀ p, s'.carved p = s.carved p := by
    intro p
    by_cases hpx : p = findHd a
    · subst hpx
      rw [VaState.carved, VaState.carved, hmax, hfree, hunused]
      omega
    · exact VaState.carved_congr hmax (hother p hpx).1 (hother p hpx).2
  have hux := h.unused_le _ hx
  refine ⟨hmax.trans h.max_eq, ?_, ?_, ?_, ?_, ?_, ?_, ?_, ?_⟩
  · intro p hp
    by_cases hpx : p = findHd a
    · rw [hpx, hfree]
      omega
    · rw [(hother p hpx).1]
      exact h.free_le p hp
  · intro p hp
    by_cases hpx : p = findHd a
    · rw [hpx, hfree, hunused]
      omega
    · rw [(hother p hpx).1, (hother p hpx).2]
      exact h.unused_le p hp
  · intro p hp hne
    rw [hcarved]
    exact h.full p hp hne
  · rw [hcarved, hlatest]
    exact h.latest
  · rw [hcarved]
    exact h.pos
  · intro b hb
    obtain ⟨p, hp, j, hj, hbj⟩ := h.mem b (Finset.mem_erase.mp hb).2
    exact ⟨p, hp, j, by rwa [hcarved], hbj⟩
  · intro p hp j hj hnj
    rw [hcarved] at hj
    by_cases hja : nodeAt p j = a
    · rw [hja]
      exact hblank
    · have hnot : nodeAt p j ∉ S := fun hmem => hnj (Finset.mem_erase.mpr ⟨hja, hmem⟩)
      rw [hnode p hp j hj hnot]
      exact h.blank p hp j hj hnot
  · intro p hp
    have hcount := h.count p hp
    by_cases hpx : p = findHd a
    · rw [hpx, hfree]
      omega
    · have hp' := hcard p
      rw [if_neg fun hc => hpx hc.symm] at hp'
      rw [(hother p hpx).1]
      omega

/-- Only the pages, their counters and the blank slots matter. -/
theorem Slots.congr (h : Slots S pg s) (hhd : s'.hd = s.hd) (hmax : s'.max = s.max)
    (hlatest : s'.vaLatest = s.vaLatest)
    (hnode : ∀ p ∈ pg, ∀ j, j < s.carved p → nodeAt p j ∉ S →
      s'.node (nodeAt p j) = s.node (nodeAt p j)) : Slots S pg s' := by
  have hcarved : ∀ p, s'.carved p = s.carved p := fun p => by
    rw [VaState.carved, VaState.carved, hhd, hmax]
  refine ⟨hmax.trans h.max_eq, by rw [hhd]; exact h.free_le, by rw [hhd]; exact h.unused_le, ?_, ?_, ?_,
    ?_, ?_, by rw [hhd]; exact h.count⟩
  · intro p hp hne
    rw [hcarved]
    exact h.full p hp hne
  · rw [hcarved, hlatest]
    exact h.latest
  · rw [hcarved]
    exact h.pos
  · intro a ha
    obtain ⟨p, hp, j, hj, haj⟩ := h.mem a ha
    exact ⟨p, hp, j, by rwa [hcarved], haj⟩
  · intro p hp j hj hnj
    rw [hcarved] at hj
    rw [hnode p hp j hj hnj]
    exact h.blank p hp j hj hnj

theorem PageList.congr (h : PageList pg s)
    (hnext : ∀ p, (s'.hd p).nextPage = (s.hd p).nextPage)
    (hformer : ∀ p, (s'.hd p).formerPage = (s.hd p).formerPage)
    (hheader : s'.vaHeader = s.vaHeader) (htop : s'.vaTop = s.vaTop)
    (hbase : s'.cacheBase = s.cacheBase) (hindex : s'.cacheIndex = s.cacheIndex)
    (hcount : s'.vaMetadataPages = s.vaMetadataPages) : PageList pg s' := by
  refine ⟨h.linked.congr (fun y _ => hnext y) (fun y _ => hformer y), hheader ▸ h.head, h.nodup, ?_, ?_,
    ?_, ?_, hcount ▸ h.count⟩
  · rw [htop]
    exact h.page
  · rw [htop]
    exact h.top
  · rw [hbase, hindex]
    exact h.cache
  · rw [hbase, hindex]
    exact h.cache_inj

end

end Dem64
