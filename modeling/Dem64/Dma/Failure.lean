import Dem64.Dma.Growing

/-!
# A call of `allocate_dma` that fails

`allocate_dma` returns status 1 when there is no metadata page to be had, or no frames for the buffer.  The
first is found out before anything is changed.  The second is found out when the extents are taken, and
nothing gives them back.

`DmaReach` has the states that any calls of `allocate_dma` and `free_dma` lead to, whatever happens to page
tables, frames and buffers in between.  Nothing is assumed about the lists of extents in them.
-/

set_option autoImplicit false

namespace Dem64

namespace DmaPool

/-- An entry that is linked behind `dma_start`. -/
def Extent (p : DmaPool) (x : EntryPtr) : Prop := ∃ l, Lseg p.next p.dmaStart l (some x)

/-- The header of a metadata page, as it is linked behind `dma_header`. -/
def PageHeader (p : DmaPool) (x : EntryPtr) : Prop := ∃ l, Lseg p.next p.dmaHeader l (some x)

/-- The extents that are taken, the sizes of all extents, the counters of the pages and `dma_entries` are the
same. -/
structure Unchanged (p q : DmaPool) : Prop where
  /-- The same extents are taken. -/
  used : ∀ x, q.Extent x ∧ (q.entry x).status = .used ↔ p.Extent x ∧ (p.entry x).status = .used
  /-- The extents have the same sizes. -/
  sizes : ∀ x size, q.Extent x ∧ (q.entry x).sizeInPages = size ↔ p.Extent x ∧ (p.entry x).sizeInPages = size
  /-- The pages have the same counters. -/
  counters : ∀ x count, q.PageHeader x ∧ (q.entry x).sizeInPages = count ↔
    p.PageHeader x ∧ (p.entry x).sizeInPages = count
  /-- `dma_entries` is the same. -/
  entries : q.dmaEntries = p.dmaEntries

theorem Unchanged.refl (p : DmaPool) : p.Unchanged p :=
  ⟨fun _ => Iff.rfl, fun _ _ => Iff.rfl, fun _ _ => Iff.rfl, rfl⟩

/-- The groups of free extents that lie side by side. -/
def groups (p : DmaPool) (l : List EntryPtr) : List (List EntryPtr) :=
  l.splitOnP fun x => (p.entry x).status ≠ .free

/-- No group has `pages` pages, when its extents are summed up one after the other, in 64 bits. -/
def NoFit (p : DmaPool) (pages : Nat) (gs : List (List EntryPtr)) : Prop :=
  ∀ g ∈ gs, ∀ l, l <+: g → p.total l % 2 ^ 64 < pages

/-- There is no group of free extents to reuse, and no entry left for a new extent. -/
structure Full (p : DmaPool) (pages : Nat) : Prop where
  /-- There are extents. -/
  entries : p.dmaEntries ≠ 0
  /-- No group of free ones is large enough. -/
  extents : ∃ l, Lseg p.next p.dmaStart l none ∧ p.NoFit pages (p.groups l)
  /-- All pages are full by their counters. -/
  headers : ∃ l, Lseg p.next p.dmaHeader l none ∧ ∀ x ∈ l, (p.entry x).sizeInPages % 2 ^ 32 = 0

/-- A metadata page is needed for `pages` pages: the first one, or another one. -/
def NeedsPage (p : DmaPool) (pages : Nat) : Prop := p.dmaHeader = none ∨ p.Full pages

/-! ## The search -/

section

variable {p : DmaPool} {x : EntryPtr} {e : DmaEntry} {l own : List EntryPtr} {pages : Nat}

theorem get_some (h : p.get x = some e) : p.entry x = e := by
  rw [get] at h
  split at h
  · exact Option.some_inj.mp h
  · cases h

/-- The extents of a list that starts with `x` are `x` and those behind it. -/
theorem exists_lseg_cons {Q : List EntryPtr → Prop} :
    (∃ l, Lseg p.next (some x) l none ∧ Q l) ↔ ∃ l, Lseg p.next (p.next x) l none ∧ Q (x :: l) := by
  constructor
  · rintro ⟨_ | ⟨y, l⟩, h, hQ⟩
    · exact absurd h (Option.some_ne_none x)
    · obtain ⟨hxy, hl⟩ := h
      obtain rfl := Option.some_inj.mp hxy
      exact ⟨l, hl, hQ⟩
  · rintro ⟨l, h, hQ⟩
    exact ⟨x :: l, ⟨rfl, h⟩, hQ⟩

theorem groups_ne_nil (p : DmaPool) (l : List EntryPtr) : p.groups l ≠ [] := List.splitOnP_ne_nil _ l

/-- A free extent belongs to the group in front of it. -/
theorem groups_cons_free (h : (p.entry x).status = .free) :
    (p.groups (x :: l)).modifyHead (own ++ ·) = (p.groups l).modifyHead (own ++ [x] ++ ·) := by
  have hcons : p.groups (x :: l) = (p.groups l).modifyHead (x :: ·) := by
    rw [groups, List.splitOnP_cons_eq_if_modifyHead, if_neg (by simp [h])]
    rfl
  rw [hcons, List.modifyHead_modifyHead]
  congr 1
  funext g
  simp

/-- An extent that is taken ends the group in front of it. -/
theorem groups_cons_used (h : (p.entry x).status ≠ .free) :
    (p.groups (x :: l)).modifyHead (own ++ ·) = own :: p.groups l := by
  rw [groups, List.splitOnP_cons_eq_if_modifyHead, if_pos (by simpa using h), List.modifyHead_cons,
    List.append_nil]
  rfl

/-- One iteration: a free extent goes to the current run, and any other ends it. -/
theorem searchLoop_cases {n cursor : Nat} {s r : Search}
    (h : searchLoop p pages (n + 1) (some x) cursor s = some r) : ∃ s' : Search,
    ((p.entry x).status = .free ∧ s'.freePages = (s.freePages + (p.entry x).sizeInPages) % 2 ^ 64 ∧
        s'.freeEntry = s.freeEntry.or (some x) ∧ pages ≤ s'.freePages ∧ r = s') ∨
      ((p.entry x).status = .free ∧ s'.freePages = (s.freePages + (p.entry x).sizeInPages) % 2 ^ 64 ∧
        s'.freeEntry = s.freeEntry.or (some x) ∧ s'.freePages < pages ∧
        ∃ behind, searchLoop p pages n (p.next x) behind s' = some r) ∨
      ((p.entry x).status ≠ .free ∧ s'.freePages = 0 ∧ s'.freeEntry = none ∧
        ∃ behind, searchLoop p pages n (p.next x) behind s' = some r) := by
  obtain ⟨e, hget, h⟩ := Option.bind_eq_some_iff.mp h
  obtain rfl := get_some hget
  by_cases hst : (p.entry x).status = .free
  · have hentry : (if s.freeEntry = none then { s with freeEntry := some x, freeBase := cursor } else s).freeEntry =
        s.freeEntry.or (some x) := by
      cases hs : s.freeEntry with
      | none => rfl
      | some y => exact hs
    have hpages : (if s.freeEntry = none then { s with freeEntry := some x, freeBase := cursor } else s).freePages =
        s.freePages := by
      split <;> rfl
    rw [if_pos hst] at h
    generalize (if s.freeEntry = none then { s with freeEntry := some x, freeBase := cursor } else s) = s₁ at *
    let s' : Search := { s₁ with freePages := (s₁.freePages + (p.entry x).sizeInPages) % 2 ^ 64 }
    have hsum : s'.freePages = (s.freePages + (p.entry x).sizeInPages) % 2 ^ 64 := by rw [← hpages]
    dsimp only at h
    refine ⟨s', ?_⟩
    split at h
    · rename_i hge
      exact .inl ⟨hst, hsum, hentry, hge, (Option.some_inj.mp h).symm⟩
    · rename_i hlt
      exact .inr (.inl ⟨hst, hsum, hentry, Nat.not_le.mp hlt, _, h⟩)
  · rw [if_neg hst] at h
    exact ⟨_, .inr (.inr ⟨hst, rfl, rfl, _, h⟩)⟩

/-- **What the search misses.**  It finds less than `pages` pages if the list ends and no group in it has
them.  The induction is on the iterations; `own` is the part of a group that was passed. -/
theorem searchLoop_lt_iff {n cursor : Nat} {y : Option EntryPtr} {s r : Search}
    (h : searchLoop p pages n y cursor s = some r) (hs : s.freePages = p.total own % 2 ^ 64)
    (hown : ∀ l, l <+: own → p.total l % 2 ^ 64 < pages) :
    r.freePages < pages ↔
      ∃ l, Lseg p.next y l none ∧ p.NoFit pages ((p.groups l).modifyHead (own ++ ·)) := by
  induction n generalizing y cursor s own with
  | zero => cases h
  | succ n ih =>
    cases y with
    | none =>
      cases h
      refine iff_of_true (hs ▸ hown own (List.prefix_refl own)) ⟨[], rfl, fun g hg => ?_⟩
      obtain rfl : g = own := by simpa [groups] using hg
      exact hown
    | some x =>
      rw [exists_lseg_cons]
      have hsum : (s.freePages + (p.entry x).sizeInPages) % 2 ^ 64 = p.total (own ++ [x]) % 2 ^ 64 := by
        rw [hs, total_append, total_cons, total_nil, Nat.add_zero, Nat.mod_add_mod]
      obtain ⟨s', ⟨hfree, hpages, -, hge, rfl⟩ | ⟨hfree, hpages, -, hlt, behind, hloop⟩ |
        ⟨hused, hpages, -, behind, hloop⟩⟩ := searchLoop_cases h
      · -- the group has them with `x`
        rw [hsum] at hpages
        simp only [groups_cons_free hfree]
        refine iff_of_false (Nat.not_lt.mpr hge) ?_
        rintro ⟨l, -, hl⟩
        obtain ⟨g, gs, hgs⟩ := List.exists_cons_of_ne_nil (groups_ne_nil p l)
        rw [hgs, List.modifyHead_cons] at hl
        exact absurd (hl _ List.mem_cons_self _ (List.prefix_append _ _)) (Nat.not_lt.mpr (hpages ▸ hge))
      · -- the group goes on behind `x`
        rw [hsum] at hpages
        simp only [groups_cons_free hfree]
        refine ih hloop hpages fun l hl => ?_
        rcases List.prefix_concat_iff.mp hl with rfl | hl
        · exact hpages ▸ hlt
        · exact hown l hl
      · -- the group ends, and another one starts behind `x`
        simp only [groups_cons_used hused]
        have hnil : ∀ l, l <+: [] → p.total l % 2 ^ 64 < pages := by
          intro l hl
          rw [List.prefix_nil.mp hl]
          exact hown [] List.nil_prefix
        have hid : ∀ l, (p.groups l).modifyHead ([] ++ ·) = p.groups l := fun l => congrFun List.modifyHead_id _
        refine (@ih [] _ _ _ hloop hpages hnil).trans (exists_congr fun l => and_congr_right fun _ => ?_)
        rw [hid]
        constructor
        · intro hl g hg
          rcases List.mem_cons.mp hg with rfl | hg
          · exact hown
          · exact hl g hg
        · exact fun hl g hg => hl g (List.mem_cons_of_mem _ hg)

/-- The run that is found starts with a free extent. -/
theorem searchLoop_freeEntry {n cursor : Nat} {y : Option EntryPtr} {s r : Search}
    (h : searchLoop p pages n y cursor s = some r) (hy : ∀ x ∈ y, p.Extent x)
    (hs : ∀ x ∈ s.freeEntry, p.Extent x ∧ (p.entry x).status = .free)
    (hnone : s.freeEntry = none → s.freePages = 0) :
    (∀ x ∈ r.freeEntry, p.Extent x ∧ (p.entry x).status = .free) ∧ (r.freeEntry = none → r.freePages = 0) := by
  induction n generalizing y cursor s with
  | zero => cases h
  | succ n ih =>
    cases y with
    | none =>
      cases h
      exact ⟨hs, hnone⟩
    | some x =>
      obtain ⟨l, hl⟩ := hy x rfl
      have hnext : ∀ z ∈ p.next x, p.Extent z := fun z hz => ⟨l ++ [x], Lseg.concat_iff.mpr ⟨hl, hz⟩⟩
      have hrun : (p.entry x).status = .free → ∀ z ∈ s.freeEntry.or (some x),
          p.Extent z ∧ (p.entry z).status = .free := by
        intro hfree z hz
        cases hse : s.freeEntry with
        | none =>
          rw [hse] at hz
          obtain rfl := Option.some_inj.mp hz
          exact ⟨⟨l, hl⟩, hfree⟩
        | some z' =>
          rw [hse] at hz
          exact hs z (hse.trans hz)
      obtain ⟨s', ⟨hfree, -, hentry, -, rfl⟩ | ⟨hfree, -, hentry, -, behind, hloop⟩ |
        ⟨-, hpages, hentry, behind, hloop⟩⟩ := searchLoop_cases h
      · exact ⟨hentry ▸ hrun hfree, fun hno => absurd (hentry ▸ hno) (by simp)⟩
      · exact ih hloop hnext (hentry ▸ hrun hfree) fun hno => absurd (hentry ▸ hno) (by simp)
      · exact ih hloop hnext (by simp [hentry]) fun _ => hpages

/-- No page has entries left if the list of headers ends, and all their counters are zero. -/
theorem roomLoop_full_iff {n : Nat} {r : Room} (h : roomLoop p n x = some r) :
    (∃ last, r = .full last) ↔
      ∃ l, Lseg p.next (some x) l none ∧ ∀ y ∈ l, (p.entry y).sizeInPages % 2 ^ 32 = 0 := by
  induction n generalizing x with
  | zero => cases h
  | succ n ih =>
    obtain ⟨e, hget, h⟩ := Option.bind_eq_some_iff.mp h
    obtain rfl := get_some hget
    rw [exists_lseg_cons]
    split at h
    · rename_i hzero
      split at h
      · rename_i hlast
        cases h
        refine iff_of_true ⟨x, rfl⟩ ⟨[], hlast, fun y hy => ?_⟩
        rwa [List.mem_singleton.mp hy]
      · rename_i y hnext
        rw [ih h, next, hnext]
        simp only [List.forall_mem_cons, hzero, true_and]
    · rename_i hne
      cases h
      refine iff_of_false (by simp) ?_
      rintro ⟨l, -, hl⟩
      exact hne (hl x List.mem_cons_self)

end

/-! ## What is left alone -/

section

variable {p q p' : DmaPool} {x y : EntryPtr} {xs : List EntryPtr} {pages n : Nat}

theorem modify_some {f : DmaEntry → DmaEntry} (h : p.modify x f = some q) :
    q = { p with entry := Function.update p.entry x (f (p.entry x)) } := by
  rw [modify] at h
  split at h
  · exact (Option.some_inj.mp h).symm
  · cases h

/-- The globals have nothing to do with the entries. -/
theorem modify_globals {f : DmaEntry → DmaEntry} (h : p.modify x f = some q) : q = { p with entry := q.entry } := by
  rw [modify_some h]

theorem takeUntil_globals {stop : EntryPtr} {z : Option EntryPtr} (h : takeUntil stop n z p = some (xs, q)) :
    q = { p with entry := q.entry } := by
  induction n generalizing z p xs with
  | zero => cases h
  | succ n ih =>
    rw [takeUntil] at h
    split at h
    · cases h
      rfl
    · obtain ⟨x, -, h⟩ := Option.bind_eq_some_iff.mp h
      obtain ⟨p₁, hput, h⟩ := Option.bind_eq_some_iff.mp h
      obtain ⟨⟨xs', q'⟩, hrest, h⟩ := Option.bind_eq_some_iff.mp h
      cases h
      rw [ih hrest, modify_some hput]

/-- Extents that are taken stay linked, and those that were taken stay so. -/
theorem takeRun_kept {z : Option EntryPtr} {claimed : Nat} (h : takeRun pages n z claimed p = some (xs, q)) :
    q = { p with entry := q.entry } ∧ q.next = p.next ∧
      ∀ y, (p.entry y).status = .used → (q.entry y).status = .used := by
  induction n generalizing z claimed p xs with
  | zero => cases h
  | succ n ih =>
    rw [takeRun] at h
    split at h
    · obtain ⟨x, -, h⟩ := Option.bind_eq_some_iff.mp h
      obtain ⟨p₁, hput, h⟩ := Option.bind_eq_some_iff.mp h
      obtain ⟨⟨xs', q'⟩, hrest, h⟩ := Option.bind_eq_some_iff.mp h
      cases h
      obtain ⟨hglobals, hnext, hkept⟩ := ih hrest
      obtain rfl := modify_some hput
      refine ⟨by rw [hglobals], hnext.trans (funext fun y => ?_), fun y hy => hkept y ?_⟩
      · rw [next, next]
        dsimp only
        rw [Function.update_apply]
        split
        · rename_i hyx
          rw [hyx]
        · rfl
      · dsimp only
        rw [Function.update_apply]
        split
        · rfl
        · exact hy
    · cases h
      exact ⟨rfl, rfl, fun _ hy => hy⟩

/-- Nothing is taken for no pages. -/
theorem takeRun_zero {z : Option EntryPtr} {claimed : Nat} (h : takeRun 0 n z claimed p = some (xs, q)) :
    q = p := by
  cases n with
  | zero => cases h
  | succ n =>
    rw [takeRun, if_neg (Nat.not_lt_zero _)] at h
    cases h
    rfl

/-- The first extent of a run is taken. -/
theorem takeRun_first (h : takeRun pages n (some x) 0 p = some (xs, q)) (hpos : 0 < pages) :
    (q.entry x).status = .used := by
  cases n with
  | zero => cases h
  | succ n =>
    rw [takeRun, if_pos hpos] at h
    obtain ⟨p₁, hput, h⟩ := Option.bind_eq_some_iff.mp ((Option.bind_some x _).symm.trans h)
    obtain ⟨⟨xs', q'⟩, hrest, h⟩ := Option.bind_eq_some_iff.mp h
    cases h
    refine (takeRun_kept hrest).2.2 x ?_
    rw [modify_some hput]
    dsimp only
    rw [Function.update_self]

/-- A first extent is one extent more. -/
theorem firstClaim_globals (h : p.firstClaim pages = some (x, q)) :
    q.dmaHeader = p.dmaHeader ∧ q.dmaEntries = p.dmaEntries + 1 := by
  obtain ⟨header, -, h⟩ := Option.bind_eq_some_iff.mp h
  obtain ⟨p₁, hput, h⟩ := Option.bind_eq_some_iff.mp h
  obtain ⟨p₂, hcount, h⟩ := Option.bind_eq_some_iff.mp h
  cases h
  rw [modify_globals hcount, modify_some hput]
  exact ⟨rfl, rfl⟩

/-- So is one that is carved. -/
theorem carve_globals {size : Nat} (h : p.carve x size = some (y, q)) :
    q.dmaHeader = p.dmaHeader ∧ q.dmaEntries = p.dmaEntries + 1 := by
  obtain ⟨e, -, h⟩ := Option.bind_eq_some_iff.mp h
  dsimp only at h
  split at h
  · obtain ⟨p₁, hadv, h⟩ := Option.bind_eq_some_iff.mp h
    obtain ⟨latest, -, hadv⟩ := Option.bind_eq_some_iff.mp hadv
    obtain ⟨p₂, hput, hadv⟩ := Option.bind_eq_some_iff.mp hadv
    cases hadv
    obtain ⟨latest, -, h⟩ := Option.bind_eq_some_iff.mp h
    obtain ⟨p₃, hcount, h⟩ := Option.bind_eq_some_iff.mp h
    obtain ⟨p₄, hlatest, h⟩ := Option.bind_eq_some_iff.mp h
    cases h
    rw [modify_globals hlatest, modify_some hcount, modify_some hput]
    exact ⟨rfl, rfl⟩
  · obtain ⟨p₁, hp, h⟩ := Option.bind_eq_some_iff.mp h
    cases hp
    obtain ⟨latest, -, h⟩ := Option.bind_eq_some_iff.mp h
    obtain ⟨p₃, hcount, h⟩ := Option.bind_eq_some_iff.mp h
    obtain ⟨p₄, hlatest, h⟩ := Option.bind_eq_some_iff.mp h
    cases h
    rw [modify_globals hlatest, modify_some hcount]
    exact ⟨rfl, rfl⟩

theorem growClaim_globals {s : Search} {c : Claim} (h : p.growClaim n x pages s = some (c, q)) :
    q.dmaHeader = p.dmaHeader ∧ q.dmaEntries = p.dmaEntries + 1 := by
  obtain ⟨⟨y, p₁⟩, hcarve, h⟩ := Option.bind_eq_some_iff.mp h
  have h₁ := carve_globals hcarve
  dsimp only at h
  split at h
  · obtain ⟨⟨xs, p₂⟩, htake, h⟩ := Option.bind_eq_some_iff.mp h
    cases h
    rw [takeUntil_globals htake]
    exact h₁
  · cases h
    exact h₁

/-- A new page is no extent. -/
theorem addPage_globals {fresh : EntryPtr → DmaEntry} (h : p.addPage x fresh = some (y, q)) :
    q.dmaHeader = p.dmaHeader ∧ q.dmaEntries = p.dmaEntries := by
  obtain ⟨p₁, hheader, h⟩ := Option.bind_eq_some_iff.mp h
  obtain ⟨p₂, hlast, h⟩ := Option.bind_eq_some_iff.mp h
  obtain ⟨latest, -, h⟩ := Option.bind_eq_some_iff.mp h
  obtain ⟨p₃, hlatest, h⟩ := Option.bind_eq_some_iff.mp h
  cases h
  rw [modify_globals hlatest, modify_globals hlast, modify_some hheader]
  exact ⟨rfl, rfl⟩

theorem openPool_globals {fresh : EntryPtr → DmaEntry} (h : p.openPool fresh = some q) :
    q.dmaHeader ≠ none ∧ q.dmaEntries = p.dmaEntries := by
  rw [openPool] at h
  obtain ⟨p₁, hput, h⟩ := Option.bind_eq_some_iff.mp h
  cases h
  rw [modify_some hput]
  exact ⟨Option.some_ne_none _, rfl⟩

theorem releaseLoop_globals {z : Option EntryPtr} (h : releaseLoop n z p = some q) :
    q = { p with entry := q.entry } := by
  induction n generalizing z p with
  | zero =>
    cases h
    rfl
  | succ n ih =>
    obtain ⟨x, -, h⟩ := Option.bind_eq_some_iff.mp h
    obtain ⟨e, -, h⟩ := Option.bind_eq_some_iff.mp h
    dsimp only at h
    split at h
    · obtain ⟨p₁, hfree, h⟩ := Option.bind_eq_some_iff.mp h
      obtain ⟨header, -, h⟩ := Option.bind_eq_some_iff.mp h
      obtain ⟨p₂, hcount, h⟩ := Option.bind_eq_some_iff.mp h
      rw [ih h, modify_globals hcount, modify_some hfree]
    · obtain ⟨p₁, hp, h⟩ := Option.bind_eq_some_iff.mp h
      cases hp
      exact ih h

theorem dropPage_header (h : p.dropPage n x = some q) : q.dmaHeader = p.dmaHeader := by
  obtain ⟨previous, -, h⟩ := Option.bind_eq_some_iff.mp h
  obtain ⟨p₁, hput, h⟩ := Option.bind_eq_some_iff.mp h
  dsimp only at h
  split at h
  · cases h
  · obtain ⟨p₂, hcut, h⟩ := Option.bind_eq_some_iff.mp h
    cases h
    rw [modify_globals hcut, modify_some hput]

end

end DmaPool

section

variable {s : FrameState} {n count f : Nat}

/-- No frame from `former_count` on is free, as far as the bitmap goes. -/
def NoFrameLeft (s : FrameState) : Prop :=
  ∀ f, s.formerCount ≤ f → f < 8 * s.bitmapSize → used s.bitmap f = true

/-- A free frame is found by the simulation. -/
theorem simulate_free (hf : f < 8 * s.bitmapSize) (hfree : used s.bitmap f = false) :
    ∀ {n count : Nat}, count ≤ f → f + 2 ≤ n + count → simulate s n count 1 = 0
  | 0, count, hle, hn => by omega
  | n + 1, count, hle, hn => by
    rw [simulate, if_pos (by decide), shiftRight_three, if_neg (by omega)]
    by_cases hu : used s.bitmap count = true
    · rw [if_pos hu]
      have hne : count ≠ f := by
        rintro rfl
        rw [hu] at hfree
        cases hfree
      exact simulate_free hf hfree (by omega) (by omega)
    · rw [if_neg hu]
      cases n with
      | zero => omega
      | succ n => rfl

/-- When the simulation for one frame fails. -/
theorem runSimulation_iff : runSimulation s s.formerCount 1 = 1 ↔ NoFrameLeft s := by
  constructor
  · intro h f hle hf
    by_contra hfree
    have hzero := simulate_free hf (Bool.eq_false_of_not_eq_true hfree) (n := 8 * s.bitmapSize + 1) hle (by omega)
    rw [runSimulation, if_neg (by decide), hzero] at h
    cases h
  · intro h
    by_contra hne
    obtain ⟨f, hle, hf, hfree⟩ := runSimulation_one hne
    rw [h f hle hf] at hfree
    cases hfree

/-- When `vmalloc` of one page fails. -/
theorem vmalloc_attr {attributes pml4 va : Nat} {m m' : Machine} {d : MemoryDescriptor}
    (h : vmalloc n m va 1 attributes pml4 = some (d, m')) : d.attr ≠ 0 ↔ NoFrameLeft m.frames := by
  rw [← runSimulation_iff]
  rw [vmalloc, if_neg (by decide)] at h
  dsimp only at h
  split at h
  · rename_i hsim
    cases h
    exact iff_of_true Nat.one_ne_zero hsim
  · rename_i hsim
    split at h
    · cases h
    · cases h
      exact iff_of_false (fun hne => hne rfl) hsim

end

/-! ## Calls -/

section

open DmaPool

variable {pml4 n pages : Nat} {fresh : EntryPtr → DmaEntry} {w w' : DmaWorld} {c : Option Claim}

/-- A metadata page cannot be had exactly when it is needed and there is no frame for it; then the pool stays
as it is. -/
theorem growExtents_cases {s : Search} (h : growExtents pml4 n fresh w pages s = some (c, w')) :
    w'.pool.dmaHeader = w.pool.dmaHeader ∧
      (c ≠ none → w'.pool.dmaEntries = w.pool.dmaEntries + 1) ∧ (c = none → w'.pool = w.pool) ∧
      (c = none ↔ (∃ l, Lseg w.pool.next w.pool.dmaHeader l none ∧
        ∀ x ∈ l, (w.pool.entry x).sizeInPages % 2 ^ 32 = 0) ∧ NoFrameLeft w.machine.frames) := by
  rw [growExtents_eq] at h
  obtain ⟨r, hroom, h⟩ := Option.bind_eq_some_iff.mp h
  obtain ⟨header, hheader, hloop⟩ := Option.bind_eq_some_iff.mp hroom
  have hfull := roomLoop_full_iff hloop
  rw [← hheader] at hfull
  cases r with
  | page x =>
    obtain ⟨⟨c', q⟩, hgrow, hr⟩ := Option.map_eq_some_iff.mp h
    cases hr
    obtain ⟨hh, he⟩ := growClaim_globals hgrow
    refine ⟨hh, fun _ => he, fun hc => absurd hc (by simp), iff_of_false (by simp) fun hno => ?_⟩
    obtain ⟨last, hlast⟩ := hfull.mpr hno.1
    cases hlast
  | full last =>
    obtain ⟨⟨d, m⟩, hv, h⟩ := Option.bind_eq_some_iff.mp h
    have hattr := vmalloc_attr hv
    dsimp only at h
    split at h
    · rename_i hd
      cases h
      exact ⟨rfl, fun hc => absurd rfl hc, fun _ => rfl, iff_of_true rfl ⟨hfull.mp ⟨last, rfl⟩, hattr.mp hd⟩⟩
    · rename_i hd
      obtain ⟨⟨x, p₁⟩, hadd, h⟩ := Option.bind_eq_some_iff.mp h
      obtain ⟨⟨c', q⟩, hgrow, hr⟩ := Option.map_eq_some_iff.mp h
      cases hr
      obtain ⟨hh, he⟩ := growClaim_globals hgrow
      obtain ⟨hh₁, he₁⟩ := addPage_globals hadd
      refine ⟨hh.trans hh₁, fun _ => he.trans (congrArg (· + 1) he₁), fun hc => absurd hc (by simp),
        iff_of_false (by simp) fun hno => ?_⟩
      exact hd (hattr.mpr hno.2)

/-- Extents that were free do not stay so when they are reused. -/
theorem reuseClaim_changes {s : Search} {c : Claim} {p q : DmaPool} (hs : p.search n pages = some s)
    (hge : pages ≤ s.freePages) (hpos : 0 < pages) (h : p.reuseClaim n pages s = some (c, q)) :
    ¬ p.Unchanged q := by
  intro hsame
  obtain ⟨hfree, hnone⟩ := searchLoop_freeEntry hs (fun x hx => ⟨[], hx⟩) (by simp) fun _ => rfl
  cases hx : s.freeEntry with
  | none =>
    have hzero := hnone hx
    omega
  | some x =>
    obtain ⟨hext, hst⟩ := hfree x hx
    obtain ⟨⟨xs, q'⟩, htake, h⟩ := Option.bind_eq_some_iff.mp h
    cases h
    rw [hx] at htake
    obtain ⟨hglobals, hnext, -⟩ := takeRun_kept htake
    have hext' : q.Extent x := by
      rw [Extent, hnext, hglobals]
      exact hext
    have hused := ((hsame.used x).mp ⟨hext', takeRun_first htake hpos⟩).2
    rw [hst] at hused
    cases hused

/-- What taking extents does to the pool. -/
theorem claimExtents_cases (h : claimExtents pml4 n fresh w pages = some (c, w')) :
    w'.pool.dmaHeader = w.pool.dmaHeader ∧ (w.pool.dmaEntries = 0 → w'.pool.dmaEntries = 1) ∧
      (c = none → w'.pool = w.pool) ∧ (c = none ↔ w.pool.Full pages ∧ NoFrameLeft w.machine.frames) ∧
      (c ≠ none → (w.pool.Unchanged w'.pool ↔ w.pool.dmaEntries ≠ 0 ∧ pages = 0)) := by
  by_cases he : w.pool.dmaEntries = 0
  · rw [claimExtents, if_pos he] at h
    obtain ⟨⟨x, q⟩, hclaim, h⟩ := Option.bind_eq_some_iff.mp h
    cases h
    obtain ⟨hh, hone⟩ := firstClaim_globals hclaim
    rw [he] at hone
    exact ⟨hh, fun _ => hone, fun hc => absurd hc (by simp),
      iff_of_false (by simp) fun hno => hno.1.entries he,
      fun _ => iff_of_false (fun hsame => absurd (hone.symm.trans (hsame.entries.trans he)) (by decide))
        fun hno => hno.1 he⟩
  · rw [claimExtents_eq he] at h
    obtain ⟨s, hs, h⟩ := Option.bind_eq_some_iff.mp h
    have hsearch : 0 < pages → (s.freePages < pages ↔
        ∃ l, Lseg w.pool.next w.pool.dmaStart l none ∧ w.pool.NoFit pages (w.pool.groups l)) := by
      intro hpos
      have hlt := @searchLoop_lt_iff w.pool [] pages _ _ _ _ _ hs rfl fun l hl => by
        rw [List.prefix_nil.mp hl]
        exact hpos
      have hid : ∀ l, (w.pool.groups l).modifyHead ([] ++ ·) = w.pool.groups l := fun l =>
        congrFun List.modifyHead_id _
      simpa only [hid] using hlt
    split at h
    · -- a new extent
      rename_i hless
      have hpos : 0 < pages := (Nat.zero_le _).trans_lt hless
      obtain ⟨hh, hmore, hsame, hnone⟩ := growExtents_cases h
      refine ⟨hh, fun h0 => absurd h0 he, hsame, hnone.trans ⟨?_, ?_⟩, fun hc => iff_of_false (fun hsame => ?_) ?_⟩
      · exact fun hno => ⟨⟨he, (hsearch hpos).mp hless, hno.1⟩, hno.2⟩
      · exact fun hno => ⟨hno.1.headers, hno.2⟩
      · have := hmore hc
        have := hsame.entries
        omega
      · exact fun hno => absurd hno.2 hpos.ne'
    · -- extents that are free
      rename_i hge
      obtain ⟨⟨c', q⟩, hreuse, hr⟩ := Option.map_eq_some_iff.mp h
      cases hr
      have hheader : q.dmaHeader = w.pool.dmaHeader := by
        obtain ⟨⟨xs, q'⟩, htake, hreuse⟩ := Option.bind_eq_some_iff.mp hreuse
        cases hreuse
        rw [(takeRun_kept htake).1]
      refine ⟨hheader, fun h0 => absurd h0 he, fun hc => absurd hc (by simp),
        iff_of_false (by simp) fun hno => ?_, fun _ => ⟨fun hsame => ⟨he, ?_⟩, fun hzero => ?_⟩⟩
      · obtain ⟨l, hl, hfit⟩ := hno.1.extents
        obtain ⟨g, gs, hgs⟩ := List.exists_cons_of_ne_nil (groups_ne_nil w.pool l)
        have hpos := hfit g (by rw [hgs]; exact List.mem_cons_self) [] List.nil_prefix
        exact hge ((hsearch ((Nat.zero_le _).trans_lt hpos)).mpr ⟨l, hl, hfit⟩)
      · by_contra hne
        exact reuseClaim_changes hs (Nat.not_lt.mp hge) (Nat.pos_of_ne_zero hne) hreuse hsame
      · obtain ⟨⟨xs, q'⟩, htake, hreuse⟩ := Option.bind_eq_some_iff.mp hreuse
        cases hreuse
        rw [hzero.2] at htake
        obtain rfl := takeRun_zero htake
        exact Unchanged.refl _

/-- The first metadata page is there, or there is a frame for it, or the call fails. -/
theorem ensureHeader_cases {ok : Bool} (h : ensureHeader pml4 n fresh w = some (ok, w')) :
    ok = false ∧ w.pool.dmaHeader = none ∧ NoFrameLeft w.machine.frames ∧ w'.pool = w.pool ∨
      ok = true ∧ w.pool.dmaHeader = none ∧ ¬ NoFrameLeft w.machine.frames ∧
        w'.pool.dmaEntries = w.pool.dmaEntries ∧ w'.pool.dmaHeader ≠ none ∨
      ok = true ∧ w.pool.dmaHeader ≠ none ∧ w' = w := by
  rw [ensureHeader] at h
  split at h
  · rename_i hnone
    obtain ⟨⟨d, m⟩, hv, h⟩ := Option.bind_eq_some_iff.mp h
    have hattr := vmalloc_attr hv
    dsimp only at h
    split at h
    · rename_i hd
      cases h
      exact .inl ⟨rfl, hnone, hattr.mp hd, rfl⟩
    · rename_i hd
      obtain ⟨p₁, hopen, h⟩ := Option.bind_eq_some_iff.mp h
      cases h
      obtain ⟨hh, he⟩ := openPool_globals hopen
      exact .inr (.inl ⟨rfl, hnone, fun hno => hd (hattr.mpr hno), he, hh⟩)
  · rename_i hsome
    cases h
    exact .inr (.inr ⟨rfl, hsome, rfl⟩)

end

/-! ## Runs -/

section

open DmaPool

variable (pml4 : Nat)

/-- Calls of `allocate_dma` and `free_dma`, in any order.  Between them page tables, frames and bytes change
in any way. -/
inductive DmaReach (w₀ : DmaWorld) : DmaWorld → Prop
  /-- No call yet. -/
  | boot : DmaReach w₀ w₀
  /-- A call of `allocate_dma`. -/
  | allocate {w w' : DmaWorld} {fresh : EntryPtr → DmaEntry} {n size : Nat} {ret : DmaRet} {own : List EntryPtr}
      (h : DmaReach w₀ w) (hcall : allocateDma pml4 n fresh w size = some (ret, own, w')) : DmaReach w₀ w'
  /-- A call of `free_dma`. -/
  | free {w w' : DmaWorld} {n base : Nat} (h : DmaReach w₀ w) (hcall : freeDma pml4 n w base = some w') :
      DmaReach w₀ w'
  /-- Everything else leaves the pool alone. -/
  | other {w w' : DmaWorld} (h : DmaReach w₀ w) (hpool : w'.pool = w.pool) : DmaReach w₀ w'

end

section

open DmaPool

variable {pml4 n : Nat} {fresh : EntryPtr → DmaEntry} {w₀ w w' : DmaWorld} {size : Nat} {ret : DmaRet}
  {own : List EntryPtr}

/-- The parts of a call. -/
theorem allocateDma_parts (h : allocateDma pml4 n fresh w size = some (ret, own, w')) :
    ∃ ok w₁, ensureHeader pml4 n fresh w = some (ok, w₁) ∧ (ok = false ∧ w' = w₁ ∧ ret.status = 1 ∨
      ok = true ∧ ∃ c w₂, claimExtents pml4 n fresh w₁ (dmaPages size) = some (c, w₂) ∧
        (c = none ∧ w' = w₂ ∧ ret.status = 1 ∨
          ∃ c', c = some c' ∧ own = c'.extents ∧ backClaim pml4 w₂ (dmaPages size) c' = some (ret, w'))) := by
  rw [allocateDma] at h
  dsimp only at h
  obtain ⟨⟨ok, w₁⟩, hens, h⟩ := Option.bind_eq_some_iff.mp h
  refine ⟨ok, w₁, hens, ?_⟩
  dsimp only at h
  split at h
  · rename_i hok
    cases h
    exact .inl ⟨hok, rfl, rfl⟩
  · rename_i hok
    obtain ⟨⟨c, w₂⟩, hclaim, h⟩ := Option.bind_eq_some_iff.mp h
    refine .inr ⟨Bool.eq_true_of_not_eq_false hok, c, w₂, hclaim, ?_⟩
    cases c with
    | none =>
      cases h
      exact .inl ⟨rfl, rfl, rfl⟩
    | some c =>
      obtain ⟨⟨r, w₃⟩, hback, h⟩ := Option.bind_eq_some_iff.mp h
      cases h
      exact .inr ⟨c, rfl, rfl, hback⟩

/-- What a call comes to: the first page cannot be had, or extents are taken. -/
theorem allocateDma_cases (h : allocateDma pml4 n fresh w size = some (ret, own, w')) :
    ∃ ok w₁, ensureHeader pml4 n fresh w = some (ok, w₁) ∧ (ok = false ∧ w' = w₁ ∨
      ok = true ∧ ∃ c w₂, claimExtents pml4 n fresh w₁ (dmaPages size) = some (c, w₂) ∧ w'.pool = w₂.pool) := by
  obtain ⟨ok, w₁, hens, ⟨hok, hw, -⟩ | ⟨hok, c, w₂, hclaim, ⟨-, rfl, -⟩ | ⟨c', -, -, hback⟩⟩⟩ := allocateDma_parts h
  · exact ⟨ok, w₁, hens, .inl ⟨hok, hw⟩⟩
  · exact ⟨ok, w₁, hens, .inr ⟨hok, c, _, hclaim, rfl⟩⟩
  · exact ⟨ok, w₁, hens, .inr ⟨hok, c, w₂, hclaim, (backClaim_ret hback).1⟩⟩

/-- Pages are only given back once there is a first one. -/
theorem reclaimLoop_header {j : Nat} {p q : DmaPool} {m m' : Machine}
    (h : reclaimLoop pml4 n j p m = some (q, m')) :
    q.dmaHeader = p.dmaHeader ∧ (p.dmaHeader = none → q.dmaEntries = p.dmaEntries) := by
  induction j generalizing p m with
  | zero =>
    cases h
    exact ⟨rfl, fun _ => rfl⟩
  | succ j ih =>
    obtain ⟨header, hheader, h⟩ := Option.bind_eq_some_iff.mp h
    have hsome : p.dmaHeader ≠ none := by simp [hheader]
    obtain ⟨page, -, h⟩ := Option.bind_eq_some_iff.mp h
    obtain ⟨e, -, h⟩ := Option.bind_eq_some_iff.mp h
    split at h
    · obtain ⟨p₁, hdrop, h⟩ := Option.bind_eq_some_iff.mp h
      obtain ⟨m₁, -, h⟩ := Option.bind_eq_some_iff.mp h
      exact ⟨(ih h).1.trans (dropPage_header hdrop), fun hnone => absurd hnone hsome⟩
    · exact ⟨(ih h).1, fun hnone => absurd hnone hsome⟩

theorem freeDma_header {base : Nat} (h : freeDma pml4 n w base = some w') :
    w'.pool.dmaHeader = w.pool.dmaHeader ∧
      (w.pool.dmaHeader = none → w'.pool.dmaEntries = w.pool.dmaEntries) := by
  obtain ⟨ptr, -, h⟩ := Option.bind_eq_some_iff.mp h
  obtain ⟨status, -, h⟩ := Option.bind_eq_some_iff.mp h
  obtain ⟨count, -, h⟩ := Option.bind_eq_some_iff.mp h
  obtain ⟨home, -, h⟩ := Option.bind_eq_some_iff.mp h
  obtain ⟨p, hrelease, h⟩ := Option.bind_eq_some_iff.mp h
  obtain ⟨⟨q, m⟩, hreclaim, h⟩ := Option.bind_eq_some_iff.mp h
  cases h
  have hp := releaseLoop_globals hrelease
  obtain ⟨hh, he⟩ := reclaimLoop_header hreclaim
  rw [hp] at hh he
  exact ⟨hh, he⟩

/-- There is no extent before there is a page. -/
theorem DmaReach.entries (h₀ : w₀.pool.Empty) (h : DmaReach pml4 w₀ w) :
    w.pool.dmaHeader = none → w.pool.dmaEntries = 0 := by
  induction h with
  | boot => exact fun _ => h₀.entries
  | allocate h hcall ih =>
    obtain ⟨ok, w₁, hens, ⟨-, rfl⟩ | ⟨rfl, c, w₂, hclaim, hpool⟩⟩ := allocateDma_cases hcall
    · obtain ⟨-, -, -, hsame⟩ | ⟨-, -, -, -, hne⟩ | ⟨-, -, rfl⟩ := ensureHeader_cases hens
      · rwa [hsame]
      · exact fun hnone => absurd hnone hne
      · exact ih
    · rw [hpool, (claimExtents_cases hclaim).1]
      obtain ⟨hno, -⟩ | ⟨-, -, -, -, hne⟩ | ⟨-, hne, rfl⟩ := ensureHeader_cases hens
      · cases hno
      · exact fun hnone => absurd hnone hne
      · exact fun hnone => absurd hnone hne
  | free h hcall ih =>
    obtain ⟨hh, he⟩ := freeDma_header hcall
    rw [hh]
    exact fun hnone => (he hnone).trans (ih hnone)
  | other h hpool ih => rwa [hpool]

/-- **When a call that fails leaves the pool as it was.**  That is so when it fails for want of a metadata page,
or when it asks for no page at all; the extents of any other call stay taken. -/
theorem allocateDma_unchanged_iff (h₀ : w₀.pool.Empty) (h : DmaReach pml4 w₀ w)
    (hcall : allocateDma pml4 n fresh w size = some (ret, own, w')) : ret.status = 1 →
      (w.pool.Unchanged w'.pool ↔ w.pool.NeedsPage (dmaPages size) ∧ NoFrameLeft w.machine.frames ∨
        w.pool.dmaEntries ≠ 0 ∧ dmaPages size = 0) := by
  intro _
  have hentries := h.entries h₀
  obtain ⟨ok, w₁, hens, ⟨rfl, rfl⟩ | ⟨rfl, c, w₂, hclaim, hpool⟩⟩ := allocateDma_cases hcall
  · -- the first page cannot be had
    obtain ⟨-, hnone, hno, hsame⟩ | ⟨hok, -⟩ | ⟨hok, -⟩ := ensureHeader_cases hens
    · rw [hsame]
      exact iff_of_true (Unchanged.refl _) (.inl ⟨.inl hnone, hno⟩)
    · cases hok
    · cases hok
  · obtain ⟨-, hfirst, hsame, hnone, hsome⟩ := claimExtents_cases hclaim
    rw [hpool]
    obtain ⟨hok, -⟩ | ⟨-, hheader, hframes, he, -⟩ | ⟨-, hheader, rfl⟩ := ensureHeader_cases hens
    · cases hok
    · -- the first page was had, and the first extent is taken
      have hzero := hentries hheader
      refine iff_of_false (fun hun => ?_) ?_
      · have hone := hfirst (he.trans hzero)
        rw [hun.entries, hzero] at hone
        cases hone
      · rintro (⟨-, hno⟩ | ⟨hne, -⟩)
        · exact hframes hno
        · exact hne hzero
    · have hneeds : w₁.pool.NeedsPage (dmaPages size) ∧ NoFrameLeft w₁.machine.frames ↔ c = none := by
        rw [hnone, NeedsPage, or_iff_right hheader]
      rw [hneeds]
      by_cases hc : c = none
      · rw [hsame hc]
        exact iff_of_true (Unchanged.refl _) (.inl hc)
      · rw [hsome hc]
        exact (or_iff_right hc).symm

end

section

open DmaPool

/-- A machine that has just booted, and has no frame left. -/
def drainedWorld : DmaWorld :=
  { freshWorld with
    machine.frames.formerCount := 8 * freshWorld.machine.frames.bitmapSize }

/-- The first call fails for want of a metadata page, and the pool stays empty. -/
theorem allocateDma_unchanged_drained : ∃ ret own w,
    allocateDma 0x2000 1 (fun _ => ⟨.free, 0, none⟩) drainedWorld 100 = some (ret, own, w) ∧ ret.status = 1 ∧
      drainedWorld.pool.Unchanged w.pool := by
  have hcall : ∃ r, allocateDma 0x2000 1 (fun _ => ⟨.free, 0, none⟩) drainedWorld 100 = some r ∧ r.1.status = 1 :=
    ⟨_, rfl, rfl⟩
  obtain ⟨⟨ret, own, w⟩, hcall, hstatus⟩ := hcall
  refine ⟨ret, own, w, hcall, hstatus, ?_⟩
  have hempty : drainedWorld.pool.Empty := freshWorld_boot.pool
  have hno : NoFrameLeft drainedWorld.machine.frames := fun f hle hlt => absurd hlt (Nat.not_lt.mpr hle)
  exact (allocateDma_unchanged_iff hempty .boot hcall hstatus).mpr (.inl ⟨.inl rfl, hno⟩)

/-- **A request for more than there is.**  The first call asks for 1 TiB and fails, and the first extent is
taken for good. -/
theorem not_allocateDma_unchanged : ¬ ∀ (pml4 n : Nat) (fresh : EntryPtr → DmaEntry) (w₀ w w' : DmaWorld)
    (size : Nat) (ret : DmaRet) (own : List EntryPtr), w₀.pool.Empty → DmaReach pml4 w₀ w →
    allocateDma pml4 n fresh w size = some (ret, own, w') → ret.status = 1 → w.pool.Unchanged w'.pool := by
  intro hclaim
  have hall : ((allocateDma 0x2000 8 (fun _ => ⟨.free, 0, none⟩) freshWorld (2 ^ 40)).any fun r =>
      decide (r.1.status = 1 ∧ r.2.2.pool.dmaEntries = 1)) = true := by
    decide +kernel
  obtain ⟨⟨ret, own, w⟩, hcall, hr⟩ := (Option.any_eq_true _ _).mp hall
  obtain ⟨hstatus, hone⟩ := of_decide_eq_true hr
  have hentries := (hclaim _ _ _ _ _ _ _ _ _ freshWorld_boot.pool .boot hcall hstatus).entries
  exact absurd (hone.symm.trans hentries) (by decide)

end

end Dem64
