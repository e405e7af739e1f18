import Dem64.Paging.Unmapping
import Mathlib.Order.Interval.Finset.Nat
import Mathlib.Data.Set.Card

/-!
# Who owns the page-table frames

`create_mapping` and `destroy_mapping` take frames for new tables and give back the frames of tables
they replace.  `outstanding` replays the log of a machine: it is the set of frames handed out and
not given back, and it is `none` once a frame was handed out while it was out, or given back while
it was not.

`Accounted` is the invariant: the frames outstanding are those of the tables that can be reached
from the PML4, the bitmap marks them and what was marked to begin with, and `paging_allocated_pages`
counts them.  Each of the four steps of `Paging/Step.lean` keeps it, and so does every run of calls
(`page_table_accounting`).
-/

set_option autoImplicit false

namespace Dem64

/-- The frames handed out and not given back after the events of a log, newest first. -/
def outstanding : List Event → Option (Finset Nat)
  | [] => some ∅
  | Event.alloc f n :: l => (outstanding l).bind fun L =>
      if Disjoint L (Finset.Ico f (f + n)) then some (L ∪ Finset.Ico f (f + n)) else none
  | Event.free f n :: l => (outstanding l).bind fun L =>
      if Finset.Ico f (f + n) ⊆ L then some (L \ Finset.Ico f (f + n)) else none
  | Event.allocFail :: l => outstanding l
  | Event.zero _ _ :: l => outstanding l
  | Event.store _ _ _ :: l => outstanding l

/-- The log and the counter agree that the frames in `L` are out. -/
structure Books (L : Finset Nat) (m : Machine) : Prop where
  /-- The frames that are out. -/
  out : outstanding m.log = some L
  /-- How many they are. -/
  count : m.pagingAllocatedPages = L.card

theorem Ico_succ_self (f : Nat) : Finset.Ico f (f + 1) = {f} := by
  ext x
  rw [Finset.mem_Ico, Finset.mem_singleton]
  omega

section

variable {L : Finset Nat} {m : Machine}

theorem Books.store (h : Books L m) (t i e : Nat) : Books L (m.store t i e) := ⟨h.out, h.count⟩

/-- Giving back a frame that is out. -/
theorem Books.free (h : Books L m) {e : Nat} (he : e >>> 12 ∈ L) :
    Books (L.erase (e >>> 12)) (freePages m (addrOf e) 1) where
  out := by
    show (outstanding m.log).bind _ = _
    rw [h.out, Option.bind_some, addrOf_shiftRight, Ico_succ_self, if_pos (by simpa using he),
      Finset.sdiff_singleton_eq_erase]
  count := by
    have hpos := Finset.card_pos.mpr ⟨_, he⟩
    have hcount := h.count
    rw [freePages, Finset.card_erase_of_mem he]
    show (if _ then _ else _) = _
    rw [if_pos (by omega), hcount]

/-- Giving back the page tables of a page directory. -/
theorem Books.freePdLoop (pd : Nat) : ∀ (n i : Nat) (m : Machine) (L : Finset Nat), Books L m →
    (∀ j, i ≤ j → j < i + n → isTable 2 (m.read pd j) = true → m.read pd j >>> 12 ∈ L) →
    (∀ j j', i ≤ j → j < j' → j' < i + n → isTable 2 (m.read pd j) = true →
      isTable 2 (m.read pd j') = true → m.read pd j >>> 12 ≠ m.read pd j' >>> 12) →
    ∃ L', Books L' (Dem64.freePdLoop pd n i m) ∧ ∀ f, f ∈ L' ↔ f ∈ L ∧
      ∀ j, i ≤ j → j < i + n → isTable 2 (m.read pd j) = true → f ≠ m.read pd j >>> 12
  | 0, i, m, L, h, _, _ => ⟨L, h, fun f => ⟨fun hf => ⟨hf, fun j h1 h2 => absurd h2 (by omega)⟩,
      fun hf => hf.1⟩⟩
  | n + 1, i, m, L, h, hmem, hdist => by
    have hread : ∀ j, i < j → (m.store pd i 0).read pd j = m.read pd j :=
      fun j hj => if_neg fun hc => by omega
    rw [Dem64.freePdLoop]
    by_cases ht : isTable 2 (m.read pd i) = true
    · rw [if_pos ((isTable_middle (by decide) (le_refl 2)).mp ht)]
      obtain ⟨L', hb, hL'⟩ := Books.freePdLoop pd n (i + 1) _ _
        (h.free (hmem i (le_refl _) (by omega) ht))
        (fun j h1 h2 ht' => Finset.mem_erase.mpr
          ⟨(hdist i j (le_refl _) (by omega) (by omega) ht ht').symm, hmem j (by omega) (by omega) ht'⟩)
        (fun j j' h1 h2 h3 => hdist j j' (by omega) h2 (by omega))
      refine ⟨L', hb, fun f => ?_⟩
      rw [hL', Finset.mem_erase]
      constructor
      · rintro ⟨⟨hne, hf⟩, hall⟩
        refine ⟨hf, fun j h1 h2 ht' => ?_⟩
        rcases Nat.eq_or_lt_of_le h1 with rfl | hlt
        · exact hne
        · exact hall j hlt (by omega) ht'
      · rintro ⟨hf, hall⟩
        exact ⟨⟨hall i (le_refl _) (by omega) ht, hf⟩,
          fun j h1 h2 ht' => hall j (by omega) (by omega) ht'⟩
    · rw [if_neg fun hc => ht ((isTable_middle (by decide) (le_refl 2)).mpr hc)]
      obtain ⟨L', hb, hL'⟩ := Books.freePdLoop pd n (i + 1) _ _ (h.store pd i 0)
        (fun j h1 h2 ht' => by
          rw [hread j h1] at ht' ⊢
          exact hmem j (by omega) (by omega) ht')
        (fun j j' h1 h2 h3 ht' ht'' => by
          rw [hread j h1] at ht' ⊢
          rw [hread j' (by omega)] at ht'' ⊢
          exact hdist j j' (by omega) h2 (by omega) ht' ht'')
      refine ⟨L', hb, fun f => ?_⟩
      rw [hL']
      refine and_congr_right fun _ => ⟨fun hall j h1 h2 ht' => ?_, fun hall j h1 h2 ht' => ?_⟩
      · rcases Nat.eq_or_lt_of_le h1 with rfl | hlt
        · exact absurd ht' ht
        · have := hall j hlt (by omega)
          rw [hread j hlt] at this
          exact this ht'
      · rw [hread j h1] at ht' ⊢
        exact hall j (by omega) (by omega) ht'

end

/-! ## The invariant -/

/-- The frames outstanding are those of the tables, all of them are marked, and nothing else is
except what was marked to begin with. -/
structure Accounted (base : Set Nat) (root : Nat) (L : Finset Nat) (m : Machine) : Prop where
  /-- The log and the counter. -/
  books : Books L m
  /-- The frames outstanding are those of the tables. -/
  tables : ∀ f, f ∈ L ↔ ∃ k p, k ≤ 3 ∧ tableAt m.mem root k p = some f
  /-- The bitmap. -/
  marks : ∀ p, p ∈ m.frames.usedPages ↔ p ∈ base ∨ p ∈ L
  /-- What was marked to begin with was not handed out. -/
  fresh : ∀ f ∈ L, f ∉ base

section

variable {base : Set Nat} {root k q : Nat} {L L' : Finset Nat} {m m' : Machine}

/-- After an edit that leaves no table in its slot the tables below the slot are gone, and so must
be their frames. -/
theorem Accounted.leafEdit {e : Nat} (h : Accounted base root L m) (hwf : WellFormed m root)
    (hedit : LeafEdit root k q e m m') (hbooks : Books L' m')
    (hL' : ∀ f, f ∈ L' ↔ f ∈ L ∧ ∀ k' p, k' ≤ 3 → Under k q k' p → tableAt m.mem root k' p ≠ some f)
    (hmarks : ∀ p, p ∈ m'.frames.usedPages ↔ p ∈ m.frames.usedPages ∧ (p ∈ L → p ∈ L')) :
    Accounted base root L' m' where
  books := hbooks
  tables f := by
    rw [hL', h.tables]
    constructor
    · rintro ⟨⟨k', p, hk', hf⟩, hout⟩
      exact ⟨k', p, hk', by rw [hedit.tableAt_eq hwf hk' fun hu => hout k' p hk' hu hf, hf]⟩
    · rintro ⟨k', p, hk', hf⟩
      obtain ⟨hold, hu⟩ := hedit.tableAt_eq_some hwf hk' hf
      refine ⟨⟨k', p, hk', hold⟩, fun k'' p' hk'' hu' hf' => ?_⟩
      obtain ⟨rfl, rfl⟩ := hwf.separated _ _ _ _ _ hk' hk'' hold hf'
      exact hu hu'
  marks p := by
    rw [hmarks, h.marks]
    have hsub : p ∈ L' → p ∈ L := fun hp => ((hL' p).mp hp).1
    have hfresh := h.fresh p
    tauto
  fresh f hf := h.fresh f ((hL' f).mp hf).1

/-- The tables below a slot of depth `k`, when the slot holds none. -/
theorem not_under_of_not_table {t : Nat} (ht : tableAt m.mem root k (q / 512) = some (t >>> 12))
    (hold : isTable k (m.read t (q % 512)) = false) {k' p f : Nat} (hu : Under k q k' p) :
    tableAt m.mem root k' p ≠ some f := by
  obtain ⟨j, rfl, hb⟩ := hu
  rw [tableAt, Radix.tableAt_eq_none_of_not_table ht hold j p hb]
  simp

/-- A new table. -/
theorem Accounted.table {t attributes : Nat} (h : Accounted base root L m) (hwf : WellFormed m root)
    (hk : k ≤ 2) (ht : tableAt m.mem root k (q / 512) = some (t >>> 12))
    (hold : isTable k (m.read t (q % 512)) = false) (ha : attributes % 2 = 1)
    (hok : (allocFrame m.frames 1).1.attr = 0) :
    Accounted base root (insert ((allocPages m 1).1 >>> 12) L)
      (newTable attributes t (q % 512) m) := by
  have hedit := tableEdit_newTable hwf hk ht hold ha hok
  have hfresh := hedit.fresh
  generalize hg : (allocPages m 1).1 >>> 12 = g at hedit hfresh ⊢
  have hL : g ∉ L := fun hgL => hfresh ((h.marks g).mpr (Or.inr hgL))
  refine ⟨⟨?_, ?_⟩, fun f => ?_, fun p => ?_, fun f hf => ?_⟩
  · obtain ⟨ev, hev, hlog⟩ := newTable_log m attributes t (q % 512)
    rw [if_pos hok] at hev
    rw [hlog, hev]
    show (outstanding m.log).bind _ = _
    have hg' : (allocFrame m.frames 1).1.physicalStart >>> 12 = g := hg
    rw [h.books.out, Option.bind_some, hg', Ico_succ_self, if_pos (by simpa using hL),
      Finset.union_comm]
    rfl
  · rw [Finset.card_insert_of_notMem hL, ← h.books.count]
    rfl
  · rw [Finset.mem_insert, h.tables]
    constructor
    · rintro (rfl | ⟨k', p, hk', hf⟩)
      · exact ⟨k + 1, q, by omega, (hedit.tableAt_under hwf).1⟩
      · exact ⟨k', p, hk', hedit.tableAt_mono hwf hk' hf⟩
    · rintro ⟨k', p, hk', hf⟩
      rcases hedit.tableAt_eq_some hwf hk' hf with ⟨-, -, rfl⟩ | ⟨hold, -⟩
      · exact Or.inl rfl
      · exact Or.inr ⟨k', p, hk', hold⟩
  · rw [hedit.marks, h.marks, Finset.mem_insert]
    tauto
  · rcases Finset.mem_insert.mp hf with rfl | hf
    · exact fun hb => hfresh ((h.marks _).mpr (Or.inl hb))
    · exact h.fresh f hf

/-- The table behind a slot of a page directory. -/
theorem Accounted.dropPt {t e : Nat} (h : Accounted base root L m) (hwf : WellFormed m root)
    (ht : tableAt m.mem root 2 (q / 512) = some (t >>> 12))
    (hold : isTable 2 (m.read t (q % 512)) = true) (he : EntryOk 2 e) (hnt : isTable 2 e = false) :
    Accounted base root (L.erase (m.read t (q % 512) >>> 12))
      ((freePt t (q % 512) m).store t (q % 512) e) := by
  have hpt : tableAt m.mem root 3 q = some (m.read t (q % 512) >>> 12) :=
    Radix.tableAt_succ_eq_some.mpr ⟨_, ht, hold, rfl⟩
  have hmem : m.read t (q % 512) >>> 12 ∈ L := (h.tables _).mpr ⟨3, q, le_refl 3, hpt⟩
  refine h.leafEdit hwf (leafEdit_dropPt hwf ht hold he hnt) ((h.books.free hmem).store _ _ _)
    (fun f => ?_) fun p => ?_
  · rw [Finset.mem_erase, and_comm]
    refine and_congr_right fun _ => ⟨fun hne k' p hk' hu hf => hne ?_, fun hout hf => ?_⟩
    · -- below a slot of depth 2 there is one table
      obtain ⟨j, rfl, hj, hq⟩ := hu
      obtain rfl : j = 2 := by omega
      obtain rfl : p = q := by simpa using hq
      exact (Option.some_inj.mp (hpt.symm.trans hf)).symm
    · exact hout 3 q (le_refl 3) ⟨2, rfl, Radix.below_self _ _⟩ (hf ▸ hpt)
  · show p ∈ (freePages m _ 1).frames.usedPages ↔ _
    rw [freePages_used, Finset.mem_erase]
    refine and_congr_right fun _ => ⟨fun hne hp => ⟨hne, hp⟩, fun himp hp => ?_⟩
    rw [hp] at himp
    exact (himp hmem).1 rfl

/-- The tables below a slot of depth 1: the page directory and its page tables. -/
theorem under_pd_iff {t : Nat} (ht : tableAt m.mem root 1 (q / 512) = some (t >>> 12))
    (hold : isTable 1 (m.read t (q % 512)) = true) (f : Nat) :
    (∃ k' p, k' ≤ 3 ∧ Under 1 q k' p ∧ tableAt m.mem root k' p = some f) ↔
      f = m.read t (q % 512) >>> 12 ∨ ∃ j, j < 512 ∧
        isTable 2 (m.read (addrOf (m.read t (q % 512))) j) = true ∧
        f = m.read (addrOf (m.read t (q % 512))) j >>> 12 := by
  have hpd := tableAt_pd ht hold
  constructor
  · rintro ⟨k', p, hk', ⟨j, rfl, hj, hq⟩, hf⟩
    obtain rfl | rfl : j = 1 ∨ j = 2 := by omega
    · obtain rfl : p = q := by simpa using hq
      exact Or.inl (Option.some_inj.mp (hpd.symm.trans hf)).symm
    · obtain ⟨g, hg, htab, rfl⟩ := Radix.tableAt_succ_eq_some.mp hf
      obtain rfl : p / 512 = q := by simpa using hq
      obtain rfl := Option.some_inj.mp (hpd.symm.trans hg)
      refine Or.inr ⟨p % 512, Nat.mod_lt _ (by decide), ?_, ?_⟩
      · rwa [Machine.read, addrOf_shiftRight]
      · show _ = m.mem (addrOf _ >>> 12) _ >>> 12
        rw [addrOf_shiftRight]
  · rintro (rfl | ⟨j, hj, htab, rfl⟩)
    · exact ⟨2, q, by decide, ⟨1, rfl, Radix.below_self _ _⟩, hpd⟩
    · refine ⟨3, q * 512 + j, le_refl 3, ⟨2, rfl, by decide, ?_⟩, tableAt_pt ht hold hj htab⟩
      show (q * 512 + j) / 512 ^ 1 = q
      omega

/-- The page directory behind a slot, with its page tables.  `free_pdpt` does nothing for a slot at
address 0, but frame 0 is never a table. -/
theorem Accounted.dropPd {t e : Nat} (h : Accounted base root L m) (hwf : WellFormed m root)
    (h0 : 0 ∈ base) (ht : tableAt m.mem root 1 (q / 512) = some (t >>> 12))
    (hold : isTable 1 (m.read t (q % 512)) = true) (he : EntryOk 1 e) (hnt : isTable 1 e = false) :
    ∃ L', Accounted base root L' ((freePdpt t (q % 512) m).store t (q % 512) e) := by
  have hedit := leafEdit_dropPd hwf ht hold he hnt
  have hpd := tableAt_pd ht hold
  have hslot : t + 8 * (q % 512) ≠ 0 := by
    intro hz
    refine h.fresh (t >>> 12) ((h.tables _).mpr ⟨1, _, by decide, ht⟩) ?_
    rwa [show t = 0 by omega]
  have hunder := under_pd_iff ht hold
  rw [freePdpt, if_neg hslot, if_pos ((isTable_middle (by decide) (by decide)).mp hold)] at hedit ⊢
  generalize hent : m.read t (q % 512) = ent at hedit hpd hunder ⊢
  have hpt : ∀ {j}, j < 512 → isTable 2 (m.read (addrOf ent) j) = true →
      tableAt m.mem root 3 (q * 512 + j) = some (m.read (addrOf ent) j >>> 12) := by
    intro j hj htab
    subst hent
    exact tableAt_pt ht hold hj htab
  -- the page tables are given back first, then the directory
  obtain ⟨L₁, hb₁, hL₁⟩ := Books.freePdLoop (addrOf ent) 512 0 m L h.books
    (fun j _ hj htab => (h.tables _).mpr ⟨3, _, le_refl 3, hpt (by omega) htab⟩)
    (fun j j' _ hjj' hj' htab htab' hsame => by
      have := hwf.separated _ _ _ _ _ (le_refl 3) (le_refl 3) (hsame ▸ hpt (by omega) htab)
        (hpt (by omega) htab')
      omega)
  have hpdL : ent >>> 12 ∈ L₁ := by
    refine (hL₁ _).mpr ⟨(h.tables _).mpr ⟨2, q, by decide, hpd⟩, fun j _ hj htab hsame => ?_⟩
    have := hwf.separated _ _ _ _ _ (by decide) (le_refl 3) hpd (hsame ▸ hpt (by omega) htab)
    omega
  have hL' : ∀ f, f ∈ L₁.erase (ent >>> 12) ↔ f ∈ L ∧ f ≠ ent >>> 12 ∧ ∀ j, 0 ≤ j → j < 0 + 512 →
      isTable 2 (m.read (addrOf ent) j) = true → f ≠ m.read (addrOf ent) j >>> 12 := by
    intro f
    rw [Finset.mem_erase, hL₁]
    tauto
  refine ⟨_, h.leafEdit hwf hedit ((hb₁.free hpdL).store _ _ _) (fun f => ?_) fun p => ?_⟩
  · rw [hL']
    refine and_congr_right fun _ => ⟨fun hne k' p hk' hu hf => ?_, fun hout => ⟨fun hf => ?_,
      fun j _ hj htab hf => ?_⟩⟩
    · rcases (hunder f).mp ⟨k', p, hk', hu, hf⟩ with hf | ⟨j, hj, htab, hf⟩
      · exact hne.1 hf
      · exact hne.2 j (Nat.zero_le _) (by omega) htab hf
    · obtain ⟨k', p, hk', hu, hf'⟩ := (hunder f).mpr (Or.inl hf)
      exact hout k' p hk' hu hf'
    · obtain ⟨k', p, hk', hu, hf'⟩ := (hunder f).mpr (Or.inr ⟨j, by omega, htab, hf⟩)
      exact hout k' p hk' hu hf'
  · show p ∈ (freePages _ _ 1).frames.usedPages ↔ _
    rw [freePages_used, freePdLoop_used, hL', and_assoc]
    refine and_congr_right fun _ => ⟨fun hne hp => ⟨hp, hne.2, hne.1⟩, fun himp => ⟨?_, ?_⟩⟩
    · intro j h1 hj htab hp
      exact (himp ((h.tables p).mpr ⟨3, _, le_refl 3, hp ▸ hpt (by omega) htab⟩)).2.2 j h1 hj htab hp
    · intro hp
      exact (himp ((h.tables p).mpr ⟨2, q, by decide, hp ▸ hpd⟩)).2.1 hp

/-- **Every step keeps the accounts.** -/
theorem SlotStep.accounted (hs : SlotStep root k q m m') (hwf : WellFormed m root) (h0 : 0 ∈ base)
    (h : Accounted base root L m) : ∃ L', Accounted base root L' m' := by
  cases hs with
  | table hk ht hold ha hok => exact ⟨_, h.table hwf hk ht hold ha hok⟩
  | write hk0 hk ht hold he hnt hgb =>
    refine ⟨L, h.leafEdit hwf (leafEdit_write hk0 hk ht he hnt) (h.books.store _ _ _) (fun f => ?_)
      fun p => ?_⟩
    · exact (and_iff_left fun k' p _ hu => not_under_of_not_table ht hold hu).symm
    · exact (and_iff_left id).symm
  | dropPt hk ht hold he hnt =>
    subst hk
    exact ⟨_, h.dropPt hwf ht hold he hnt⟩
  | dropPd hk ht hold he hnt hgb =>
    subst hk
    exact h.dropPd hwf h0 ht hold he hnt

theorem Steps.accounted (hs : Steps root m m') (hwf : WellFormed m root) (h0 : 0 ∈ base)
    (h : ∃ L, Accounted base root L m) : ∃ L, Accounted base root L m' :=
  (Relation.ReflTransGen.invariant (P := fun x => WellFormed x root ∧ ∃ L, Accounted base root L x)
    (fun _ _ ⟨_, _, hstep⟩ ⟨hx, _, hL⟩ => ⟨hstep.wellFormed hx, hstep.accounted hx h0 hL⟩) hs
    ⟨hwf, h⟩).2

end

/-! ## Runs -/

/-- The boot code takes a frame for the PML4 from the frames that are free in `m₀`.  The frame at
address 0 is not among them: `allocator_init` gives back no frame below `0x100000`. -/
structure Booted (m₀ : Machine) (pml4 : Nat) (m : Machine) : Prop where
  /-- No table was made before. -/
  log : m₀.log = []
  /-- Nor counted. -/
  count : m₀.pagingAllocatedPages = 0
  /-- The first frame is reserved. -/
  reserved : 0 ∈ m₀.frames.usedPages
  /-- There is a frame for the PML4. -/
  ok : (allocFrame m₀.frames 1).1.attr = 0
  /-- `KernelPML4 = alloc_pages(1)`. -/
  pml4_eq : pml4 = (allocPages m₀ 1).1
  /-- The machine after it. -/
  machine_eq : m = (allocPages m₀ 1).2

/-- A call of `create_mapping` or `destroy_mapping` during which no allocation of a table fails. -/
inductive PagingCall (pml4 : Nat) : Machine → Machine → Prop
  /-- Map a range. -/
  | create {m : Machine} (va pa pages attributes : Nat) (hr : Request attributes pa)
      (hend : va + 4096 * pages ≤ 2 ^ 64)
      (hno : NoFail m (createMapping m va pa pages attributes pml4)) :
      PagingCall pml4 m (createMapping m va pa pages attributes pml4)
  /-- Unmap a range, mapped or not. -/
  | destroy {m : Machine} (va pages : Nat) (h : CanonicalRange va pages)
      (hno : NoFail m (destroyMapping m va pages pml4)) :
      PagingCall pml4 m (destroyMapping m va pages pml4)

/-- The frames of the page-directory-pointer tables, page directories and page tables that can be
reached from the PML4. -/
def tableFrames (m : Machine) (root : Nat) : Set Nat :=
  {f | ∃ k p, k ≤ 2 ∧ tableAt m.mem root (k + 1) p = some f}

section

variable {base : Set Nat} {pml4 root : Nat} {L : Finset Nat} {m₀ m m' : Machine}

/-- A call is a run of steps. -/
theorem PagingCall.steps (h : PagingCall pml4 m m') (hpml4 : pml4 ≠ 0)
    (hwf : WellFormed m (pml4 >>> 12)) (hgb : GbOk m (pml4 >>> 12)) : Steps (pml4 >>> 12) m m' := by
  cases h with
  | create va pa pages attributes hr hend hno => exact createMapping_steps hr hend hpml4 hwf hno
  | destroy va pages h hno =>
    by_cases hend : va + 4096 * pages = 2 ^ 64
    · rw [destroyMapping_of_wrap hend]
      exact Relation.ReflTransGen.refl
    · obtain ⟨b, hclear⟩ := h.clearing hend
      exact destroyMapping_steps hclear hpml4 hwf hgb hno

/-- What holds between two calls. -/
structure PagingInv (base : Set Nat) (root : Nat) (m : Machine) : Prop where
  /-- The tables form a tree. -/
  wellFormed : WellFormed m root
  /-- 1 GiB pages are there only where the processor has them. -/
  gbOk : GbOk m root
  /-- The accounts balance. -/
  accounted : ∃ L, Accounted base root L m

theorem PagingCall.inv (h : PagingCall pml4 m m') (hpml4 : pml4 ≠ 0) (h0 : 0 ∈ base)
    (hm : PagingInv base (pml4 >>> 12) m) : PagingInv base (pml4 >>> 12) m' := by
  have hs := h.steps hpml4 hm.wellFormed hm.gbOk
  exact ⟨hs.wellFormed hm.wellFormed, hs.gbOk hm.wellFormed hm.gbOk,
    hs.accounted hm.wellFormed h0 hm.accounted⟩

/-- The accounts balance after the boot code. -/
theorem Booted.inv (h : Booted m₀ pml4 m) :
    pml4 ≠ 0 ∧ PagingInv m₀.frames.usedPages (pml4 >>> 12) m := by
  obtain ⟨hlog, hcount, hres, hok, rfl, rfl⟩ := h
  obtain ⟨g, hg, haddr, -, hfree, hmarks, hmem⟩ := allocPages_ok hok
  have hlog' : (allocPages m₀ 1).2.log = Event.zero g 1 :: Event.alloc g 1 :: m₀.log := by
    rw [hg]
    show Event.zero _ 1 :: (if (allocFrame m₀.frames 1).1.attr = 0 then _ else _) :: _ = _
    rw [if_pos hok]
    rfl
  rw [← hg]
  have hempty : ∀ i, (allocPages m₀ 1).2.mem g i = 0 := fun i => by rw [hmem, if_pos rfl]
  have hused : used (allocPages m₀ 1).2.frames.bitmap g = true := (hmarks g).mpr (Or.inl rfl)
  have hg0 : g ≠ 0 := fun h0 => hfree (h0 ▸ hres)
  refine ⟨by omega, wellFormed_of_empty hempty hused, gbOk_of_empty hempty, {g}, ⟨?_, ?_⟩,
    fun f => ?_, fun p => ?_, fun f hf => ?_⟩
  · rw [hlog', hlog, outstanding, outstanding, outstanding, Option.bind_some, Ico_succ_self,
      if_pos (Finset.disjoint_empty_left _), Finset.empty_union]
  · show m₀.pagingAllocatedPages + 1 = _
    rw [hcount, Finset.card_singleton]
  · simp only [tableAt_of_empty hempty, Finset.mem_singleton]
    exact ⟨fun hf => ⟨0, 0, by decide, rfl, rfl, hf⟩, fun ⟨_, _, _, _, _, hf⟩ => hf⟩
  · rw [hmarks, Finset.mem_singleton]
    exact or_comm
  · rwa [Finset.mem_singleton.mp hf]

/-- The frames outstanding are the PML4 and the tables below it. -/
theorem Accounted.mem_iff (h : Accounted base root L m) (f : Nat) :
    f ∈ L ↔ f = root ∨ f ∈ tableFrames m root := by
  rw [h.tables]
  constructor
  · rintro ⟨k, p, hk, hf⟩
    cases k with
    | zero =>
      rw [tableAt, Radix.tableAt] at hf
      split at hf
      · exact Or.inl (Option.some_inj.mp hf).symm
      · exact absurd hf (by simp)
    | succ k => exact Or.inr ⟨k, p, Nat.succ_le_succ_iff.mp hk, hf⟩
  · rintro (rfl | ⟨k, p, hk, hf⟩)
    · exact ⟨0, 0, by decide, rfl⟩
    · exact ⟨k + 1, p, Nat.succ_le_succ hk, hf⟩

end

/-- The small machine before it has a PML4. -/
def coldMachine : Machine := { smallMachine with pagingAllocatedPages := 0 }

theorem coldMachine_booted : Booted coldMachine 0x2000 (allocPages coldMachine 1).2 :=
  ⟨rfl, rfl, show used coldMachine.frames.bitmap 0 = true by decide, by decide, by decide, rfl⟩

end Dem64
