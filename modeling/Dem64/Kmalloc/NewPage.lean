import Dem64.Kmalloc.Layout

/-!
# A new slab page

A slab page is added with three calls of `va_alloc`, one for the page and one for each of its caches, both
when there is none yet (`initShd`) and behind the last one (`createPage`).  `Adds` says what the two have
in common, and the heap is in order afterwards (`HeapOk.add`).
-/

set_option autoImplicit false

namespace Dem64.Kmalloc

open BitRow

/-- The layout after the first call of `va_alloc` for the slab page `p`. -/
def Layout.withPage (p : Nat) (L : Layout) : Layout := L.assign p 1 (some (.page p))

/-- The layout after the second one. -/
def Layout.withUnused (p unused : Nat) (L : Layout) : Layout :=
  (L.withPage p).assign unused 1 (some (.unused p))

/-- The layout with the new slab page `p`. -/
def Layout.add (p unused used : Nat) (L : Layout) : Layout :=
  { (L.withUnused p unused).assign used 1 (some (.used p)) with pages := L.pages ++ [p] }

/-- The three pages are not in use. -/
structure Room (p unused used : Nat) (L : Layout) : Prop where
  first : Vacant L p 1
  second : Vacant (L.withPage p) unused 1
  third : Vacant (L.withUnused p unused) used 1

/-- The slab page `p` is added. -/
structure Adds (L : Layout) (p unused used : Nat) (s s' : Heap) : Prop where
  room : Room p unused used L
  titles : Titles (L.add p unused used) s'
  /-- Records in use stay, but for the link of the last page. -/
  slab : ∀ x, L.own x ≠ none → s'.slab x = s.slab x
  cache : ∀ x, L.own x ≠ none → s'.cache x = s.cache x
  header : ∀ x, L.own x ≠ none → s'.header x = s.header x
  hd : ∀ q ∈ L.pages, s'.hd q = { s.hd q with
    nextPage := if L.pages.getLast? = some q then p else (s.hd q).nextPage }
  shd : s'.shd = (L.pages ++ [p]).headD 0
  start : s'.start = s.start
  kmax : s'.kmax = firstCapacity
  /-- The page is empty. -/
  page : s'.hd p = ⟨s'.capacity p, 0, 0, L.pages.getLastD 0, used, unused⟩
  usedIndex : (s'.cache used).index = 0
  unusedIndex : (s'.cache unused).index = 0

/-- The heap got a page or a slab that is not in use. -/
structure Grows (L : Layout) (s : Heap) (L' : Layout) (s' : Heap) : Prop where
  ok : HeapOk L' s'
  latest : LatestOk L' s'
  own : ∀ x, L.own x ≠ none → L'.own x = L.own x
  frame : ∀ a b, Frame a b L s L' s'
  pages : ∀ p ∈ L'.pages, p ∈ L.pages ∨ p = s'.shd
  shd : s.shd ≠ 0 → s'.shd = s.shd

section

variable {L : Layout} {s s' : Heap} {p q x b unused used pages : Nat} {env : HeapEnv}

theorem Room.own (h : Room p unused used L) (hx : L.own x ≠ none) :
    (L.add p unused used).own x = L.own x := by
  have h1 := h.first.assign_own (o := .page p) hx
  have h2 := h.second.assign_own (o := .unused p) (h1 ▸ hx)
  have h3 := h.third.assign_own (o := .used p) (h2 ▸ h1 ▸ hx)
  exact h3.trans (h2.trans h1)

/-- What the new pages are: those of `p`. -/
theorem Room.own_iff (h : Room p unused used L) {o : Owner} :
    (L.add p unused used).own x = some o ↔ L.own x = some o ∨
      o = .page p ∧ p ≤ x ∧ x < p + 4096 ∨ o = .unused p ∧ unused ≤ x ∧ x < unused + 4096 ∨
      o = .used p ∧ used ≤ x ∧ x < used + 4096 := by
  have h1 : (L.withPage p).own x = some o ↔ _ := h.first.assign_iff
  have h2 : (L.withUnused p unused).own x = some o ↔ _ := h.second.assign_iff
  have h3 : (L.add p unused used).own x = some o ↔ _ := h.third.assign_iff
  rw [h3, h2, h1, or_assoc, or_assoc]

theorem HeapOk.shd_eq_zero (h : HeapOk L s) : s.shd = 0 ↔ L.pages = [] := by
  have hhead := h.head
  cases hl : L.pages with
  | nil =>
    rw [hl] at hhead
    exact iff_of_true hhead.symm rfl
  | cons q r =>
    rw [hl, List.headD_cons] at hhead
    have hq := (h.aligned q (hl ▸ List.mem_cons_self)).2.1
    exact iff_of_false (hhead ▸ hq) (List.cons_ne_nil q r)

section

variable (h : HeapOk L s) (ha : Adds L p unused used s s')
include h ha

theorem HeapOk.add_not_mem : p ∉ L.pages := by
  intro hp
  have hown := ha.room.first.2.2.2 p (Nat.le_refl p) (by omega)
  rw [h.own_page hp] at hown
  cases hown

theorem HeapOk.add_capacity (hq : q ∈ L.pages) : s'.capacity q = s.capacity q := by
  rw [Heap.capacity, Heap.capacity, ha.shd, ← h.head]
  cases hl : L.pages with
  | nil =>
    rw [hl] at hq
    exact absurd hq List.not_mem_nil
  | cons r l => rfl

/-- The pages that were there look as before. -/
theorem HeapOk.add_view (hq : q ∈ L.pages) : s'.view q = s.view q := by
  have hhd := ha.hd q hq
  have hown : ∀ {x : Nat} {o : Owner}, L.own x = some o → L.own x ≠ none := fun heq => by
    rw [heq]
    exact Option.some_ne_none _
  have hslabs : (s'.view q).slab = (s.view q).slab := by
    funext i
    show (if _ then _ else _) = (if _ then _ else _)
    split
    · rw [ha.slab _ (hown (h.own_slab hq (by assumption)))]
    · rfl
  show PageView.mk (s'.capacity q - (s'.hd q).freeEntries) (s'.cache (s'.hd q).usedCache)
    (s'.cache (s'.hd q).unusedCache) (s'.hd q).unusedEntries (s'.view q).slab = s.view q
  rw [hslabs, hhd, h.add_capacity ha hq, ha.cache _ (hown (h.own_used hq)),
    ha.cache _ (hown (h.own_unused hq))]
  rfl

/-- **The heap with the new page is in order.** -/
theorem HeapOk.add (hfull : ∀ q ∈ L.pages, (s.hd q).freeEntries = 0) (hstart : L.pages = [] ∨ s.start ≠ 0) :
    HeapOk (L.add p unused used) s' := by
  have hmem : ∀ q, q ∈ (L.add p unused used).pages ↔ q ∈ L.pages ∨ q = p := fun q => by
    show q ∈ L.pages ++ [p] ↔ _
    rw [List.mem_append, List.mem_singleton]
  have hnot := h.add_not_mem ha
  have hpage := ha.page
  have hold : ∀ q ∈ L.pages, (s'.hd q).usedCache = (s.hd q).usedCache ∧
      (s'.hd q).unusedCache = (s.hd q).unusedCache ∧ (s'.hd q).freeEntries = (s.hd q).freeEntries := by
    intro q hq
    rw [ha.hd q hq]
    exact ⟨rfl, rfl, rfl⟩
  -- an owner of one kind has what such owners had, or it is the new one
  have hiff : ∀ {q x c : Nat} {o : Nat → Owner} {f f' : Nat → Nat}, (∀ q r, o q = o r ↔ q = r) →
      ((L.add p unused used).own x = some (o q) ↔ L.own x = some (o q) ∨ o q = o p ∧ c ≤ x ∧ x < c + 4096) →
      (L.own x = some (o q) ↔ q ∈ L.pages ∧ f q ≤ x ∧ x < f q + 4096) → (∀ q ∈ L.pages, f' q = f q) →
      f' p = c → ((L.add p unused used).own x = some (o q) ↔
        q ∈ (L.add p unused used).pages ∧ f' q ≤ x ∧ x < f' q + 4096) := by
    intro q x c o f f' hinj hnew hown hsame hp
    rw [hnew, hown, hmem, hinj]
    constructor
    · rintro (⟨hq, hx⟩ | ⟨rfl, hx⟩)
      · rw [hsame q hq]
        exact ⟨.inl hq, hx⟩
      · rw [hp]
        exact ⟨.inr rfl, hx⟩
    · rintro ⟨hq | rfl, hx⟩
      · rw [hsame q hq] at hx
        exact .inl ⟨hq, hx⟩
      · rw [hp] at hx
        exact .inr ⟨rfl, hx⟩
  refine ⟨ha.titles, ?_, ?_, ha.shd.symm, ?_, ?_, ?_, ?_, ?_, ?_, ?_, ?_, ?_, fun _ => ha.kmax⟩
  · refine List.nodup_append.mpr ⟨h.nodup, List.nodup_singleton p, fun q hq r hr => ?_⟩
    rw [List.mem_singleton.mp hr]
    exact fun heq => hnot (heq ▸ hq)
  · show Dll _ _ 0 (L.pages ++ [p]) 0
    have hlist := h.list
    have hnd := h.nodup
    rcases List.eq_nil_or_concat' L.pages with hl | ⟨l, f, hl⟩
    · rw [hl, List.getLastD_nil] at hpage
      rw [hl]
      exact ⟨congrArg SlabHd.formerPage hpage, congrArg SlabHd.nextPage hpage, trivial⟩
    · rw [hl] at hlist hnd hpage
      have hhd : ∀ q ∈ l ++ [f], s'.hd q = { s.hd q with nextPage := if q = f then p else (s.hd q).nextPage } := by
        intro q hq
        rw [ha.hd q (hl ▸ hq), hl, List.getLast?_concat]
        simp only [Option.some.injEq, eq_comm]
      rw [hl]
      refine hlist.snoc (fun q hq => ?_) (fun q hq => ?_) ?_ ?_ ?_
      · have hne : q ≠ f := fun heq => (List.nodup_append.mp hnd).2.2 q hq f List.mem_cons_self heq
        rw [hhd q (List.mem_append_left _ hq)]
        exact if_neg hne
      · rw [hhd q hq]
      · rw [hhd f (List.mem_append_right _ List.mem_cons_self)]
        exact if_pos rfl
      · rw [List.getLastD_concat] at hpage
        exact congrArg SlabHd.formerPage hpage
      · exact congrArg SlabHd.nextPage hpage
  · intro q hq
    rcases (hmem q).mp hq with hq | rfl
    · exact h.aligned q hq
    · exact ⟨ha.room.first.1, ha.room.first.2.1, ha.room.first.2.2.1⟩
  · intro q hq
    rcases (hmem q).mp hq with hq | rfl
    · rw [(hold q hq).1, (hold q hq).2.1]
      exact h.caches q hq
    · rw [hpage]
      exact ⟨ha.room.third.2.1, ha.room.second.2.1⟩
  · intro q x
    exact hiff (f := fun q => q) (fun _ _ => by rw [Owner.page.injEq])
      (by rw [ha.room.own_iff]; simp only [reduceCtorEq, false_and, or_false]) (h.page q x)
      (fun _ _ => rfl) rfl
  · intro q x
    exact hiff (c := used) (fun _ _ => by rw [Owner.used.injEq])
      (by rw [ha.room.own_iff]; simp only [reduceCtorEq, false_and, false_or]) (h.used q x)
      (fun q hq => (hold q hq).1) (by rw [hpage])
  · intro q x
    exact hiff (c := unused) (fun _ _ => by rw [Owner.unused.injEq])
      (by rw [ha.room.own_iff]; simp only [reduceCtorEq, false_and, false_or, or_false]) (h.unused q x)
      (fun q hq => (hold q hq).2.1) (by rw [hpage])
  · intro q hq
    rcases (hmem q).mp hq with hq | rfl
    · rw [(hold q hq).2.2, h.add_capacity ha hq]
      exact h.capacity q hq
    · rw [hpage]
  · intro q hq
    rcases (hmem q).mp hq with hq | rfl
    · rw [h.add_view ha hq]
      exact h.ok q hq
    · have hcarved : (s'.view q).carved = 0 := by
        show s'.capacity q - (s'.hd q).freeEntries = 0
        rw [hpage]
        exact Nat.sub_self _
      refine PageOk.empty (fun i hi => ?_) hcarved ?_ ?_ ?_
      · have hlt := hi.1
        omega
      · show (s'.cache (s'.hd q).usedCache).index = 0
        rw [hpage]
        exact ha.usedIndex
      · show (s'.cache (s'.hd q).unusedCache).index = 0
        rw [hpage]
        exact ha.unusedIndex
      · show (s'.hd q).unusedEntries = 0
        rw [hpage]
  · intro q hq
    have hdrop : (L.add p unused used).pages.dropLast = L.pages := List.dropLast_concat
    rw [hdrop] at hq
    rw [(hold q hq).2.2]
    exact hfull q hq
  · intro h0 q hq
    rw [ha.start] at h0
    have hnil := hstart.resolve_right fun hne => hne h0
    rcases (hmem q).mp hq with hq | rfl
    · rw [hnil] at hq
      exact absurd hq List.not_mem_nil
    · show s'.capacity q - (s'.hd q).freeEntries = 0
      rw [hpage]
      exact Nat.sub_self _

omit h in
theorem Adds.carved : s'.carved p = 0 := by
  rw [Heap.carved, ha.page]
  exact Nat.sub_self _

/-- No slab and no block is concerned. -/
theorem HeapOk.frame_add (a b : Nat) : Frame a b L s (L.add p unused used) s' := by
  have hown : ∀ {x : Nat} {o : Owner}, L.own x = some o → L.own x ≠ none := fun heq => by
    rw [heq]
    exact Option.some_ne_none _
  refine ⟨fun x _ => ⟨?_, ?_⟩, fun x _ hu => ?_, fun x _ y => ?_, fun x _ y => ?_, fun x _ hx => ha.header x hx⟩
  · rintro ⟨q, hq, i, heq, hu⟩
    rcases List.mem_append.mp hq with hq | hq
    · rw [h.add_view ha hq] at hu
      exact ⟨q, hq, i, heq, hu⟩
    · rw [List.mem_singleton.mp hq] at hu
      have hlt : i < s'.carved p := hu.1
      rw [ha.carved] at hlt
      exact absurd hlt (Nat.not_lt_zero i)
  · rintro ⟨q, hq, i, heq, hu⟩
    rw [← h.add_view ha hq] at hu
    exact ⟨q, List.mem_append_left _ hq, i, heq, hu⟩
  · obtain ⟨q, hq, i, hi, heq, hin, hx⟩ := h.inUse_own hu
    rw [ha.slab x (hown hx)]
  · rw [ha.room.own_iff]
    simp only [reduceCtorEq, false_and, or_false]
  · rw [ha.room.own_iff]
    simp only [reduceCtorEq, false_and, or_false]

end

/-! ## The three calls -/

/-- A call of `va_alloc` fails, or it gives pages that were not in use. -/
theorem vaAlloc_cases (pages : Nat) (henv : env.Fresh) (ht : Titles L s) :
    ((s.vaAlloc env pages).1.status ≠ 0 ∧ env.Refuses) ∨
      ((s.vaAlloc env pages).1.status = 0 ∧ ∃ b, Vacant L b pages ∧ (s.vaAlloc env pages).1.base = b ∧
        (s.vaAlloc env pages).2 = s.granted env b pages) := by
  by_cases h0 : (env.va s.calls pages).status = 0
  · rw [vaAlloc_eq h0]
    exact .inr ⟨h0, _, henv.vacant ht h0, rfl, rfl⟩
  · refine .inl ⟨?_, _, _, h0⟩
    rw [Heap.vaAlloc]
    dsimp only
    rw [if_neg h0]
    exact h0

/-- The cache of the unused slabs is set up. -/
def withUnused (p c : Nat) (s : Heap) : Heap :=
  (s.setHd p fun h => { h with unusedCache := c }).setCache c fun c => { c with index := 0 }

/-- The cache of the used slabs is set up. -/
def withUsed (p c : Nat) (s : Heap) : Heap :=
  (s.setHd p fun h => { h with usedCache := c }).setCache c fun c => { c with index := 0 }

/-- The page `p` is there, without its caches. -/
structure Places (L : Layout) (p : Nat) (s s' : Heap) : Prop where
  vacant : Vacant L p 1
  titles : Titles (L.withPage p) s'
  slab : ∀ x, L.own x ≠ none → s'.slab x = s.slab x
  cache : ∀ x, L.own x ≠ none → s'.cache x = s.cache x
  header : ∀ x, L.own x ≠ none → s'.header x = s.header x
  hd : ∀ q ∈ L.pages, s'.hd q = { s.hd q with
    nextPage := if L.pages.getLast? = some q then p else (s.hd q).nextPage }
  shd : s'.shd = (L.pages ++ [p]).headD 0
  start : s'.start = s.start
  kmax : s'.kmax = firstCapacity
  freeEntries : (s'.hd p).freeEntries = s'.capacity p
  unusedEntries : (s'.hd p).unusedEntries = 0
  next : (s'.hd p).nextPage = 0
  former : (s'.hd p).formerPage = L.pages.getLastD 0

/-- The caches of the page `p`. -/
theorem Places.adds {s₁ : Heap} (env : HeapEnv) (h : HeapOk L s) (hp : Places L p s s₁)
    (hunused : Vacant (L.withPage p) unused 1) (hused : Vacant (L.withUnused p unused) used 1) :
    Adds L p unused used s
      (withUsed p used ((withUnused p unused (s₁.granted env unused 1)).granted env used 1)) := by
  have h1 : ∀ {x}, L.own x ≠ none → (L.withPage p).own x ≠ none := fun hx => by
    have heq : (L.withPage p).own _ = _ := hp.vacant.assign_own hx
    rwa [heq]
  have h2 : ∀ {x}, (L.withPage p).own x ≠ none → (L.withUnused p unused).own x ≠ none := fun hx => by
    have heq : (L.withUnused p unused).own _ = _ := hunused.assign_own hx
    rwa [heq]
  have hpage : (L.withPage p).own p ≠ none := by
    have heq : (L.withPage p).own p = some (.page p) := hp.vacant.assign_iff.mpr (.inr ⟨rfl, by omega, by omega⟩)
    rw [heq]
    exact Option.some_ne_none _
  have hcache : (L.withUnused p unused).own unused ≠ none := by
    have heq : (L.withUnused p unused).own unused = some (.unused p) :=
      hunused.assign_iff.mpr (.inr ⟨rfl, by omega, by omega⟩)
    rw [heq]
    exact Option.some_ne_none _
  have hne : ∀ {x}, L.own x ≠ none → x ≠ unused ∧ x ≠ used := by
    intro x hx
    refine ⟨fun heq => ?_, fun heq => ?_⟩
    · exact h1 hx (hunused.2.2.2 x (by omega) (by omega))
    · exact h2 (h1 hx) (hused.2.2.2 x (by omega) (by omega))
  have hneq : used ≠ unused := fun heq => hcache (hused.2.2.2 unused (by omega) (by omega))
  have hpq : ∀ q ∈ L.pages, q ≠ p := by
    rintro q hq rfl
    have hown := hp.vacant.2.2.2 q (Nat.le_refl q) (by omega)
    rw [h.own_page hq] at hown
    cases hown
  -- what the second and the third call leave
  have h₂ : ∀ {x}, (L.withPage p).own x ≠ none → _ := fun hx => granted_same env s₁ hunused hx
  have h₃ : ∀ {x}, (L.withUnused p unused).own x ≠ none → _ := fun hx =>
    granted_same env (withUnused p unused (s₁.granted env unused 1)) hused hx
  have ht : Titles (L.withUnused p unused) (withUnused p unused (s₁.granted env unused 1)) :=
    hp.titles.grant env
  have hhd₃ : (withUnused p unused (s₁.granted env unused 1)).hd p =
      { s₁.hd p with unusedCache := unused } := by
    show (if p = p then _ else _) = _
    rw [if_pos rfl, (h₂ hpage).2.1]
  have hhd : (withUsed p used ((withUnused p unused (s₁.granted env unused 1)).granted env used 1)).hd p =
      { s₁.hd p with unusedCache := unused, usedCache := used } := by
    show (if p = p then _ else _) = _
    rw [if_pos rfl, (h₃ (h2 hpage)).2.1, hhd₃]
  refine ⟨⟨hp.vacant, hunused, hused⟩, ht.grant env, fun x hx => ?_, fun x hx => ?_, fun x hx => ?_,
    fun q hq => ?_, hp.shd, hp.start, hp.kmax, ?_, ?_, ?_⟩
  · exact (h₃ (h2 (h1 hx))).1.trans ((h₂ (h1 hx)).1.trans (hp.slab x hx))
  · show (if x = used then _ else _) = _
    rw [if_neg (hne hx).2]
    refine (h₃ (h2 (h1 hx))).2.2.1.trans ?_
    show (if x = unused then _ else _) = _
    rw [if_neg (hne hx).1]
    exact (h₂ (h1 hx)).2.2.1.trans (hp.cache x hx)
  · exact (h₃ (h2 (h1 hx))).2.2.2.trans ((h₂ (h1 hx)).2.2.2.trans (hp.header x hx))
  · have hx : L.own q ≠ none := by
      rw [h.own_page hq]
      exact Option.some_ne_none _
    show (if q = p then _ else _) = _
    rw [if_neg (hpq q hq)]
    refine (h₃ (h2 (h1 hx))).2.1.trans ?_
    show (if q = p then _ else _) = _
    rw [if_neg (hpq q hq)]
    exact (h₂ (h1 hx)).2.1.trans (hp.hd q hq)
  · rw [hhd]
    show SlabHd.mk (s₁.hd p).freeEntries (s₁.hd p).unusedEntries (s₁.hd p).nextPage (s₁.hd p).formerPage _ _ = _
    rw [hp.freeEntries, hp.unusedEntries, hp.next, hp.former]
    rfl
  · exact congrArg SlabCache.index (if_pos rfl)
  · show SlabCache.index (if unused = used then _ else _) = _
    rw [if_neg hneq.symm]
    exact congrArg SlabCache.index ((h₃ hcache).2.2.1.trans (if_pos rfl))

theorem Adds.setSlabPages {k : Nat} (h : Adds L p unused used s s') :
    Adds L p unused used s { s' with slabPages := k } :=
  ⟨h.room, h.titles, h.slab, h.cache, h.header, h.hd, h.shd, h.start, h.kmax, h.page, h.usedIndex,
    h.unusedIndex⟩

/-- The page `p` behind the page `hd`. -/
def linkedPage (p hd : Nat) (s : Heap) : Heap :=
  ((s.setHd p fun h => { h with freeEntries := pageCapacity, unusedEntries := 0, nextPage := 0 }).setHd hd
    fun h => { h with nextPage := p }).setHd p fun h => { h with formerPage := hd }

theorem HeapOk.places_linkedPage (h : HeapOk L s) (hp : Vacant L p 1) {hd : Nat}
    (hlast : L.pages.getLast? = some hd) (env : HeapEnv) :
    Places L p s (linkedPage p hd (s.granted env p 1)) := by
  have hmem := List.mem_of_getLast? hlast
  have hne : ∀ q ∈ L.pages, q ≠ p := by
    rintro q hq rfl
    have hown := hp.2.2.2 q (Nat.le_refl q) (by omega)
    rw [h.own_page hq] at hown
    cases hown
  have hown : ∀ q ∈ L.pages, L.own q ≠ none := fun q hq => by
    rw [h.own_page hq]
    exact Option.some_ne_none _
  have hshd : s.shd = (L.pages ++ [p]).headD 0 := by
    rw [← h.head]
    cases hl : L.pages with
    | nil => exact absurd (hl ▸ hmem) List.not_mem_nil
    | cons q r => rfl
  have hp0 : p ≠ s.shd := by
    rw [← h.head]
    cases hl : L.pages with
    | nil => exact hp.2.1
    | cons q r => exact (hne q (hl ▸ List.mem_cons_self)).symm
  have hphd : p ≠ hd := (hne hd hmem).symm
  have hlastD : L.pages.getLastD 0 = hd := by rw [List.getLastD_eq_getLast?, hlast]; rfl
  have hself : (linkedPage p hd (s.granted env p 1)).hd p = { (s.granted env p 1).hd p with
      freeEntries := pageCapacity, unusedEntries := 0, nextPage := 0, formerPage := hd } := by
    simp only [linkedPage, Heap.setHd, if_true, if_neg hphd]
  refine ⟨hp, h.titles.grant env, fun x hx => (granted_same env s hp hx).1,
    fun x hx => (granted_same env s hp hx).2.2.1, fun x hx => (granted_same env s hp hx).2.2.2,
    fun q hq => ?_, hshd, rfl, h.kmax (List.ne_nil_of_mem hmem), ?_, ?_, ?_, ?_⟩
  · have hsame := (granted_same env s hp (hown q hq)).2.1
    rw [hlast]
    simp only [linkedPage, Heap.setHd, if_neg (hne q hq), Option.some.injEq]
    by_cases hqd : q = hd
    · rw [if_pos hqd, if_pos hqd.symm, ← hqd]
      simp only [if_neg (hne q hq), hsame]
    · rw [if_neg hqd, if_neg (fun heq => hqd heq.symm), hsame]
  · rw [hself]
    show pageCapacity = if p = s.shd then _ else _
    rw [if_neg hp0]
  · rw [hself]
  · rw [hself]
  · rw [hself, hlastD]

/-- **A page behind the last one**, or a call of `va_alloc` fails. -/
theorem createPage_spec (henv : env.Fresh) (h : HeapOk L s) {hd : Nat} (hlast : L.pages.getLast? = some hd)
    {o : Option Nat} (hc : createPage env hd s = (o, s')) :
    (o = none → env.Refuses) ∧ ∀ p, o = some p → (∃ unused used, Adds L p unused used s s') ∧
      s'.latest = s.latest := by
  rw [createPage] at hc
  dsimp only at hc
  rcases vaAlloc_cases 1 henv h.titles with ⟨hs, hr⟩ | ⟨hs, p, hp, hbase, hstate⟩
  · rw [if_pos hs] at hc
    cases hc
    exact ⟨fun _ => hr, nofun⟩
  rw [if_neg (not_not.mpr hs), hbase, hstate] at hc
  have hplaces := h.places_linkedPage hp hlast env
  rcases vaAlloc_cases 1 henv hplaces.titles with ⟨hs, hr⟩ | ⟨hs, unused, hunused, hbase, hstate⟩
  · rw [linkedPage] at hs
    rw [if_pos hs] at hc
    cases hc
    exact ⟨fun _ => hr, nofun⟩
  rw [linkedPage] at hs hbase hstate
  rw [if_neg (not_not.mpr hs), hbase, hstate] at hc
  have ht : Titles (L.withUnused p unused)
      (withUnused p unused ((linkedPage p hd (s.granted env p 1)).granted env unused 1)) :=
    hplaces.titles.grant env
  rcases vaAlloc_cases 1 henv ht with ⟨hs, hr⟩ | ⟨hs, used, hused, hbase, hstate⟩
  · rw [withUnused, linkedPage] at hs
    rw [if_pos hs] at hc
    cases hc
    exact ⟨fun _ => hr, nofun⟩
  rw [withUnused, linkedPage] at hs hbase hstate
  rw [if_neg (not_not.mpr hs), hbase, hstate] at hc
  cases hc
  refine ⟨nofun, ?_⟩
  rintro q ⟨⟩
  exact ⟨⟨unused, used, (hplaces.adds env h hunused hused).setSlabPages⟩, rfl⟩

/-- The first slab page, without its caches. -/
def firstPage (p : Nat) (s : Heap) : Heap :=
  { clearPage p s with shd := p, kmax := firstCapacity }.setHd p fun h =>
    { h with unusedEntries := 0, freeEntries := firstCapacity, nextPage := 0, formerPage := 0 }

theorem HeapOk.places_firstPage (h : HeapOk L s) (hp : Vacant L p 1) (hnil : L.pages = []) (env : HeapEnv) :
    Places L p s (firstPage p (s.granted env p 1)) := by
  have hself : (firstPage p (s.granted env p 1)).hd p =
      { (clearPage p (s.granted env p 1)).hd p with
        unusedEntries := 0, freeEntries := firstCapacity, nextPage := 0, formerPage := 0 } := if_pos rfl
  have hout : ∀ x, L.own x ≠ none → ¬ (p ≤ x ∧ x < p + 4096) := fun x hx => hp.not_mem hx
  refine ⟨hp, h.titles.grant env, fun x hx => ?_, fun x hx => ?_, fun x hx => ?_, fun q hq => ?_, ?_, rfl, rfl,
    ?_, ?_, ?_, ?_⟩
  · exact (if_neg (hout x hx)).trans (granted_same env s hp hx).1
  · exact (if_neg (hout x hx)).trans (granted_same env s hp hx).2.2.1
  · exact (if_neg (hout x hx)).trans (granted_same env s hp hx).2.2.2
  · rw [hnil] at hq
    exact absurd hq List.not_mem_nil
  · rw [hnil]
    rfl
  · rw [hself]
    show firstCapacity = if p = p then _ else _
    rw [if_pos rfl]
  · rw [hself]
  · rw [hself]
  · rw [hself, hnil]
    rfl

/-- A new page is one that is not in use. -/
theorem Adds.grows_nil (ha : Adds L p unused used s s') (h : HeapOk L s) (hl : LatestOk L s)
    (hnil : L.pages = []) : Grows L s (L.add p unused used) s' := by
  have hstart : s.start = 0 := by
    by_contra hne
    exact (hl hne).1 hnil
  refine ⟨h.add ha (fun q hq => ?_) (.inl hnil), fun hne => ?_, fun x hx => ha.room.own hx,
    fun a b => h.frame_add ha a b, fun q hq => ?_, fun hne => absurd (h.shd_eq_zero.mpr hnil) hne⟩
  · rw [hnil] at hq
    exact absurd hq List.not_mem_nil
  · rw [ha.start] at hne
    exact absurd hstart hne
  · have hq : q ∈ L.pages ++ [p] := hq
    have hshd := ha.shd
    rw [hnil, List.nil_append] at hq hshd
    exact .inr (hshd ▸ List.mem_singleton.mp hq)

/-- **The first slab page**, or a call of `va_alloc` fails. -/
theorem initShd_spec (henv : env.Fresh) (h : HeapOk L s) (hl : LatestOk L s) {ok : Bool}
    (hc : initShd env s = (ok, s')) :
    (ok = false → env.Refuses) ∧
      (ok = true → ∃ L', Grows L s L' s' ∧ L'.pages ≠ [] ∧ s'.start = s.start) := by
  rw [initShd] at hc
  dsimp only at hc
  by_cases hshd : s.shd = 0
  · have hnil := h.shd_eq_zero.mp hshd
    rw [if_pos hshd] at hc
    rcases vaAlloc_cases 1 henv h.titles with ⟨hs, hr⟩ | ⟨hs, p, hp, hbase, hstate⟩
    · rw [if_pos hs] at hc
      cases hc
      exact ⟨fun _ => hr, nofun⟩
    rw [if_neg (not_not.mpr hs), hbase, hstate] at hc
    have hplaces := h.places_firstPage hp hnil env
    rcases vaAlloc_cases 1 henv hplaces.titles with ⟨hs, hr⟩ | ⟨hs, unused, hunused, hbase, hstate⟩
    · rw [firstPage] at hs
      rw [if_pos hs] at hc
      cases hc
      exact ⟨fun _ => hr, nofun⟩
    rw [firstPage] at hs hbase hstate
    rw [if_neg (not_not.mpr hs), hbase, hstate] at hc
    have ht : Titles (L.withUnused p unused)
        (withUnused p unused ((firstPage p (s.granted env p 1)).granted env unused 1)) :=
      hplaces.titles.grant env
    rcases vaAlloc_cases 1 henv ht with ⟨hs, hr⟩ | ⟨hs, used, hused, hbase, hstate⟩
    · rw [withUnused, firstPage] at hs
      rw [if_pos hs] at hc
      cases hc
      exact ⟨fun _ => hr, nofun⟩
    rw [withUnused, firstPage] at hs hbase hstate
    rw [if_neg (not_not.mpr hs), hbase, hstate] at hc
    cases hc
    exact ⟨nofun, fun _ => ⟨_, (hplaces.adds env h hunused hused).grows_nil h hl hnil,
      List.append_ne_nil_of_right_ne_nil _ (List.cons_ne_nil _ _), rfl⟩⟩
  · rw [if_neg hshd] at hc
    cases hc
    exact ⟨nofun, fun _ => ⟨L, ⟨h, hl, fun _ _ => rfl, fun _ _ => Frame.refl, fun _ hq => .inl hq, fun _ => rfl⟩,
      fun hnil => hshd (h.shd_eq_zero.mpr hnil), rfl⟩⟩

end

end Dem64.Kmalloc
