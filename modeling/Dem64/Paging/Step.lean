import Dem64.Paging.Tree
import Dem64.Paging.Primitive
import Dem64.Lib.Run

/-!
# What `paging.c` does to a slot

`SlotStep` lists the four things `create_mapping` and `destroy_mapping` ever do to a slot of the
tree: hang an empty table into it, overwrite it, and overwrite it after giving back the page table
or the page directory behind it.  Each is an edit in the sense of `Paging/Tree.lean`
(`SlotStep.edit`), and so keeps the tree well formed.

`Steps` is a sequence of them.  Both functions are shown to be such sequences, and what holds of
every step — `WellFormed`, and the frame accounting — then holds of every run of calls.
-/

set_option autoImplicit false

namespace Dem64

/-! ## The four steps -/

/-- What `paging.c` does to the slot `(k, q)`; `t` is the address of the table that holds it. -/
inductive SlotStep (root k q : Nat) : Machine → Machine → Prop
  /-- Hang an empty table into a slot that holds none. -/
  | table {m : Machine} {t attributes : Nat} (hk : k ≤ 2)
      (ht : tableAt m.mem root k (q / 512) = some (t >>> 12))
      (hold : isTable k (m.read t (q % 512)) = false) (ha : attributes % 2 = 1)
      (hok : (allocFrame m.frames 1).1.attr = 0) :
      SlotStep root k q m (newTable attributes t (q % 512) m)
  /-- Overwrite a slot that holds no table with a leaf or with nothing. -/
  | write {m : Machine} {t e : Nat} (hk0 : 1 ≤ k) (hk : k ≤ 3)
      (ht : tableAt m.mem root k (q / 512) = some (t >>> 12))
      (hold : isTable k (m.read t (q % 512)) = false) (he : EntryOk k e)
      (hnt : isTable k e = false) (hgb : k = 1 → isLeaf k e = true → m.gbPageSupport = 1) :
      SlotStep root k q m (m.store t (q % 512) e)
  /-- Give back the page table behind a slot and overwrite the slot. -/
  | dropPt {m : Machine} {t e : Nat} (hk : k = 2)
      (ht : tableAt m.mem root k (q / 512) = some (t >>> 12))
      (hold : isTable k (m.read t (q % 512)) = true) (he : EntryOk k e)
      (hnt : isTable k e = false) :
      SlotStep root k q m ((freePt t (q % 512) m).store t (q % 512) e)
  /-- Give back the page directory behind a slot, its page tables with it, and overwrite the
  slot. -/
  | dropPd {m : Machine} {t e : Nat} (hk : k = 1)
      (ht : tableAt m.mem root k (q / 512) = some (t >>> 12))
      (hold : isTable k (m.read t (q % 512)) = true) (he : EntryOk k e)
      (hnt : isTable k e = false) (hgb : isLeaf k e = true → m.gbPageSupport = 1) :
      SlotStep root k q m ((freePdpt t (q % 512) m).store t (q % 512) e)

/-! ## What the pieces of a step do to memory and to the bitmap -/

theorem freePages_used (m : Machine) (e p : Nat) :
    p ∈ (freePages m (addrOf e) 1).frames.usedPages ↔ p ∈ m.frames.usedPages ∧ p ≠ e >>> 12 := by
  rw [freePages, freeFrame_used, MemoryDescriptor.pages]
  refine and_congr_right fun _ => not_congr ?_
  simp only [Set.mem_Ico, addrOf_eq, shiftRight_twelve]
  omega

/-- Giving back the page tables of a page directory writes to the directory only. -/
theorem freePdLoop_mem (pd : Nat) : ∀ (n i : Nat) (m : Machine) (g : Nat), g ≠ pd >>> 12 →
    (freePdLoop pd n i m).mem g = m.mem g
  | 0, _, _, _, _ => rfl
  | n + 1, i, m, g, hg => by
    rw [freePdLoop]
    split
    · exact freePdLoop_mem pd n (i + 1) _ g hg
    · exact (freePdLoop_mem pd n (i + 1) _ g hg).trans (funext fun j => if_neg fun hc => hg hc.1)

/-- The frames of the page tables, and no others, are given back. -/
theorem freePdLoop_used (pd : Nat) : ∀ (n i : Nat) (m : Machine) (p : Nat),
    p ∈ (freePdLoop pd n i m).frames.usedPages ↔ p ∈ m.frames.usedPages ∧
      ∀ j, i ≤ j → j < i + n → isTable 2 (m.read pd j) = true → p ≠ m.read pd j >>> 12
  | 0, i, m, p => by
    rw [freePdLoop]
    exact ⟨fun h => ⟨h, fun j h1 h2 => absurd h2 (by omega)⟩, fun h => h.1⟩
  | n + 1, i, m, p => by
    have hsplit : ∀ P : Nat → Prop, (∀ j, i ≤ j → j < i + (n + 1) → P j) ↔
        P i ∧ ∀ j, i + 1 ≤ j → j < i + 1 + n → P j := by
      intro P
      refine ⟨fun h => ⟨h i (by omega) (by omega), fun j h1 h2 => h j (by omega) (by omega)⟩, ?_⟩
      rintro ⟨h0, h⟩ j h1 h2
      rcases Nat.eq_or_lt_of_le h1 with rfl | h3
      · exact h0
      · exact h j (by omega) (by omega)
    rw [freePdLoop, hsplit]
    by_cases ht : isTable 2 (m.read pd i) = true
    · rw [if_pos ((isTable_middle (by decide) (le_refl 2)).mp ht), freePdLoop_used pd n,
        freePages_used]
      simp only [ht, forall_const, and_assoc]
      rfl
    · rw [if_neg fun hc => ht ((isTable_middle (by decide) (le_refl 2)).mpr hc), freePdLoop_used pd n]
      simp only [ht, Bool.false_eq_true, false_implies, true_and]
      refine and_congr_right fun _ => forall_congr' fun j => forall_congr' fun hj => ?_
      have hread : (m.store pd i 0).read pd j = m.read pd j := if_neg fun hc => by omega
      rw [hread]

/-- What a successful `alloc_pages(1)` returns: the address of a frame that was free. -/
theorem allocPages_ok {m : Machine} (hok : (allocFrame m.frames 1).1.attr = 0) :
    ∃ g, g = (allocPages m 1).1 >>> 12 ∧ (allocPages m 1).1 = g * 4096 ∧ g < 2 ^ 52 ∧
      g ∉ m.frames.usedPages ∧
      (∀ p, p ∈ (allocPages m 1).2.frames.usedPages ↔ p = g ∨ p ∈ m.frames.usedPages) ∧
      (∀ f j, (allocPages m 1).2.mem f j = if f = g then 0 else m.mem f j) := by
  rcases allocFrame_cases m.frames 1 with ⟨h, -⟩ | ⟨-, h⟩
  · exact absurd hok h
  · have hal := h.aligned
    have hlt := h.lt
    have hpages : ∀ p, p ∈ (allocFrame m.frames 1).1.pages ↔
        p = (allocFrame m.frames 1).1.physicalStart / 4096 := by
      intro p
      rw [MemoryDescriptor.pages, h.length, Set.mem_Ico]
      omega
    refine ⟨(allocFrame m.frames 1).1.physicalStart / 4096, (shiftRight_twelve _).symm, ?_, by omega,
      ?_, fun p => ?_, fun f j => ?_⟩
    · show (allocFrame m.frames 1).1.physicalStart = _
      omega
    · exact Set.disjoint_left.mp h.free ((hpages _).mpr rfl)
    · rw [← hpages]
      exact h.marks p
    · show (if (allocFrame m.frames 1).1.physicalStart >>> 12 ≤ f ∧
        f < (allocFrame m.frames 1).1.physicalStart >>> 12 + 1 then 0 else m.mem f j) = _
      rw [shiftRight_twelve]
      exact if_congr (by omega) rfl rfl

/-! ## Steps are edits -/

section

variable {root k q : Nat} {m : Machine}

theorem store_mem_self (m : Machine) (t i e : Nat) : (m.store t i e).mem (t >>> 12) i = e :=
  if_pos ⟨rfl, rfl⟩

theorem store_mem_ne {m : Machine} {t i e g j : Nat} (h : (m.store t i e).mem g j ≠ m.mem g j) :
    g = t >>> 12 ∧ j = i := by
  by_contra hc
  exact h (if_neg hc)

/-- Overwriting a slot, after something that changed only tables below it. -/
theorem leafEdit_store {m₁ : Machine} {t e : Nat} (h0 : 1 ≤ k) (hk : k ≤ 3)
    (ht : tableAt m.mem root k (q / 512) = some (t >>> 12)) (he : EntryOk k e)
    (hnt : isTable k e = false)
    (hmem : ∀ g j, m₁.mem g j ≠ m.mem g j →
      ∃ k' p, k' < 3 ∧ Radix.Below k q k' p ∧ tableAt m.mem root (k' + 1) p = some g)
    (hkept : ∀ k' p f, k' ≤ 3 → tableAt m.mem root k' p = some f → ¬ Under k q k' p →
      f ∈ m.frames.usedPages → f ∈ m₁.frames.usedPages) :
    LeafEdit root k q e m (m₁.store t (q % 512) e) where
  depth_pos := h0
  depth_le := hk
  edit := by
    refine ⟨t >>> 12, ⟨ht, fun g j hne => ?_⟩, store_mem_self _ _ _ _⟩
    by_cases hs : (m₁.store t (q % 512) e).mem g j = m₁.mem g j
    · exact Or.inr (Or.inl (hmem g j (hs ▸ hne)))
    · exact Or.inl (store_mem_ne hs)
  ok := he
  notTable := hnt
  kept := hkept

theorem leafEdit_write {t e : Nat} (h0 : 1 ≤ k) (hk : k ≤ 3)
    (ht : tableAt m.mem root k (q / 512) = some (t >>> 12)) (he : EntryOk k e)
    (hnt : isTable k e = false) : LeafEdit root k q e m (m.store t (q % 512) e) :=
  leafEdit_store h0 hk ht he hnt (fun _ _ h => absurd rfl h) fun _ _ _ _ _ _ h => h

theorem leafEdit_dropPt (hwf : WellFormed m root) {t e : Nat}
    (ht : tableAt m.mem root 2 (q / 512) = some (t >>> 12))
    (hold : isTable 2 (m.read t (q % 512)) = true) (he : EntryOk 2 e) (hnt : isTable 2 e = false) :
    LeafEdit root 2 q e m ((freePt t (q % 512) m).store t (q % 512) e) := by
  have hpt : tableAt m.mem root 3 q = some (m.read t (q % 512) >>> 12) :=
    Radix.tableAt_succ_eq_some.mpr ⟨_, ht, hold, rfl⟩
  refine leafEdit_store (by decide) (by decide) ht he hnt (fun _ _ h => absurd rfl h) ?_
  intro k' p f hk' hf hu hmem
  rw [freePt, freePages_used]
  refine ⟨hmem, ?_⟩
  rintro rfl
  obtain ⟨rfl, rfl⟩ := hwf.separated _ _ _ _ _ hk' (le_refl 3) hf hpt
  exact hu ⟨2, rfl, Radix.below_self _ _⟩

/-- The tables behind a page-directory slot: the directory and its page tables. -/
theorem tableAt_pd {t : Nat} (ht : tableAt m.mem root 1 (q / 512) = some (t >>> 12))
    (hold : isTable 1 (m.read t (q % 512)) = true) :
    tableAt m.mem root 2 q = some (m.read t (q % 512) >>> 12) :=
  Radix.tableAt_succ_eq_some.mpr ⟨_, ht, hold, rfl⟩

theorem tableAt_pt {t : Nat} (ht : tableAt m.mem root 1 (q / 512) = some (t >>> 12))
    (hold : isTable 1 (m.read t (q % 512)) = true) {j : Nat} (hj : j < 512)
    (hpt : isTable 2 (m.read (addrOf (m.read t (q % 512))) j) = true) :
    tableAt m.mem root 3 (q * 512 + j) =
      some (m.read (addrOf (m.read t (q % 512))) j >>> 12) := by
  have hdiv : (q * 512 + j) / 512 = q := by omega
  have hmod : (q * 512 + j) % 512 = j := by omega
  refine Radix.tableAt_succ_eq_some.mpr ⟨m.read t (q % 512) >>> 12, ?_, ?_, ?_⟩
  · rw [hdiv]; exact tableAt_pd ht hold
  · rw [hmod]; rwa [Machine.read, addrOf_shiftRight] at hpt
  · rw [hmod, Machine.read, Machine.read, addrOf_shiftRight]

theorem leafEdit_dropPd (hwf : WellFormed m root) {t e : Nat}
    (ht : tableAt m.mem root 1 (q / 512) = some (t >>> 12))
    (hold : isTable 1 (m.read t (q % 512)) = true) (he : EntryOk 1 e) (hnt : isTable 1 e = false) :
    LeafEdit root 1 q e m ((freePdpt t (q % 512) m).store t (q % 512) e) := by
  have hpd := tableAt_pd ht hold
  refine leafEdit_store (by decide) (by decide) ht he hnt (fun g j hne => ?_) ?_
  · refine ⟨1, q, by decide, Radix.below_self _ _, ?_⟩
    rw [freePdpt] at hne
    split at hne
    · exact absurd rfl hne
    · rw [if_pos ((isTable_middle (by decide) (by decide)).mp hold)] at hne
      have hg : g = addrOf (m.read t (q % 512)) >>> 12 := by
        by_contra hc
        exact hne (congrFun (freePdLoop_mem _ 512 0 m g hc) j)
      rw [hg, addrOf_shiftRight]
      exact hpd
  · intro k' p f hk' hf hu hmem
    rw [freePdpt]
    split
    · exact hmem
    · rw [if_pos ((isTable_middle (by decide) (by decide)).mp hold), freePages_used,
        freePdLoop_used]
      refine ⟨⟨hmem, fun j _ hj hpt hfj => ?_⟩, fun hfd => ?_⟩
      · rw [hfj] at hf
        obtain ⟨rfl, rfl⟩ := hwf.separated _ _ _ _ _ hk' (le_refl 3) hf
          (tableAt_pt ht hold (by omega) hpt)
        exact hu ⟨2, rfl, (Radix.below_succ_iff (le_refl 1)).mpr
          (by rw [show (q * 512 + j) / 512 = q by omega]; exact Radix.below_self _ _)⟩
      · rw [hfd] at hf
        obtain ⟨rfl, rfl⟩ := hwf.separated _ _ _ _ _ hk' (by decide) hf hpd
        exact hu ⟨1, rfl, Radix.below_self _ _⟩

theorem tableEdit_newTable (hwf : WellFormed m root) {t attributes : Nat} (hk : k ≤ 2)
    (ht : tableAt m.mem root k (q / 512) = some (t >>> 12))
    (hold : isTable k (m.read t (q % 512)) = false) (ha : attributes % 2 = 1)
    (hok : (allocFrame m.frames 1).1.attr = 0) :
    TableEdit root k q ((allocPages m 1).1 >>> 12) m (newTable attributes t (q % 512) m) := by
  obtain ⟨g, hgdef, hpage, hg, hfresh, hmarks, hmem⟩ := allocPages_ok hok
  rw [← hgdef]
  obtain ⟨hp, hl, hdiv, hlt⟩ := tableEntry_spec (allocPages m 1).1 attributes (by omega)
    (by omega) ha
  have hnt : ∀ k' p, k' ≤ 3 → tableAt m.mem root k' p ≠ some g :=
    fun k' p hk' hc => hfresh (hwf.marked k' p g hk' hc)
  have hgt : g ≠ t >>> 12 := by
    rintro rfl
    exact hnt _ _ (by omega) ht
  refine ⟨hk, ⟨t >>> 12, ⟨ht, fun f j hne => ?_⟩, ?_⟩, fun f hf => ?_, hfresh, fun i => ?_, hmarks⟩
  · by_cases hs : (newTable attributes t (q % 512) m).mem f j = (allocPages m 1).2.mem f j
    · refine Or.inr (Or.inr fun k' p hk' hc => hne ?_)
      rw [hs, hmem, if_neg]
      rintro rfl
      exact hnt k' p hk' hc
    · exact Or.inl (store_mem_ne hs)
  · have hself : (newTable attributes t (q % 512) m).mem (t >>> 12) (q % 512) =
        (allocPages m 1).1 ||| (attributes &&& 0x07) := store_mem_self _ _ _ _
    rw [hself]
    have hkt : isTable k ((allocPages m 1).1 ||| (attributes &&& 0x07)) = true := by
      simp only [isTable, hp, hl, Bool.true_and, Bool.not_false, Bool.and_true, Bool.or_eq_true,
        decide_eq_true_eq]
      omega
    refine ⟨Or.inr ⟨hp, hlt, fun _ => hl, fun hleaf => ?_⟩, hkt, ?_⟩
    · rw [isTable_of_isLeaf k _ hleaf] at hkt
      exact absurd hkt (by simp)
    · rw [shiftRight_twelve, hdiv, hpage, Nat.mul_div_cancel _ (by decide)]
  · obtain ⟨f', hf', htf, -⟩ := Radix.tableAt_succ_eq_some.mp hf
    obtain rfl := Option.some_inj.mp (ht.symm.trans hf')
    exact absurd (hold.symm.trans htf) (by simp)
  · have hne : (newTable attributes t (q % 512) m).mem g i = (allocPages m 1).2.mem g i := by
      by_contra hc
      exact hgt (store_mem_ne hc).1
    rw [hne, hmem, if_pos rfl]

/-- **Every step is an edit of its slot.** -/
theorem SlotStep.edit {m' : Machine} (hwf : WellFormed m root) (h : SlotStep root k q m m') :
    (∃ e, LeafEdit root k q e m m' ∧ (k = 1 → isLeaf k e = true → m.gbPageSupport = 1)) ∨
      ∃ g, TableEdit root k q g m m' := by
  cases h with
  | table hk ht hold ha hok => exact Or.inr ⟨_, tableEdit_newTable hwf hk ht hold ha hok⟩
  | write hk0 hk ht hold he hnt hgb => exact Or.inl ⟨_, leafEdit_write hk0 hk ht he hnt, hgb⟩
  | dropPt hk ht hold he hnt =>
    subst hk
    exact Or.inl ⟨_, leafEdit_dropPt hwf ht hold he hnt, fun h => absurd h (by decide)⟩
  | dropPd hk ht hold he hnt hgb =>
    subst hk
    exact Or.inl ⟨_, leafEdit_dropPd hwf ht hold he hnt, fun _ => hgb⟩

theorem SlotStep.wellFormed {m' : Machine} (hwf : WellFormed m root) (h : SlotStep root k q m m') :
    WellFormed m' root := by
  rcases h.edit hwf with ⟨e, he, -⟩ | ⟨g, hg⟩
  · exact he.wellFormed hwf
  · exact hg.wellFormed hwf

theorem SlotStep.gbPageSupport {m' : Machine} (h : SlotStep root k q m m') :
    m'.gbPageSupport = m.gbPageSupport := by
  have hclosed := closed_gbPageSupport m.gbPageSupport fun _ => True
  cases h with
  | table hk ht hold ha hok => exact hclosed.table _ _ _ _ trivial rfl
  | write hk0 hk ht hold he hnt hgb => rfl
  | dropPt hk ht hold he hnt => rfl
  | dropPd hk ht hold he hnt hgb => exact hclosed.store _ _ _ _ (hclosed.freePdpt _ _ _ rfl)

end

/-! ## Runs of steps -/

/-- Any number of steps. -/
def Steps (root : Nat) : Machine → Machine → Prop :=
  Relation.ReflTransGen fun m m' => ∃ k q, SlotStep root k q m m'

theorem SlotStep.steps {root k q : Nat} {m m' : Machine} (h : SlotStep root k q m m') :
    Steps root m m' := Relation.ReflTransGen.single ⟨k, q, h⟩

theorem Steps.wellFormed {root : Nat} {m m' : Machine} (h : Steps root m m')
    (hwf : WellFormed m root) : WellFormed m' root :=
  Relation.ReflTransGen.invariant (P := fun m => WellFormed m root)
    (fun _ _ ⟨_, _, hs⟩ hwf => hs.wellFormed hwf) h hwf

theorem Steps.gbPageSupport {root : Nat} {m m' : Machine} (h : Steps root m m') :
    m'.gbPageSupport = m.gbPageSupport :=
  Relation.ReflTransGen.invariant (P := fun x => x.gbPageSupport = m.gbPageSupport)
    (fun _ _ ⟨_, _, hs⟩ hx => hs.gbPageSupport.trans hx) h rfl

/-- 1 GiB pages are there only where the processor has them. -/
def GbOk (m : Machine) (root : Nat) : Prop :=
  ∀ v e, v < 2 ^ 36 → walk m.mem root v = some (1, e) → m.gbPageSupport = 1

theorem SlotStep.gbOk {root k q : Nat} {m m' : Machine} (hwf : WellFormed m root)
    (h : SlotStep root k q m m') (hgb : GbOk m root) : GbOk m' root := by
  intro v e hv hw
  rw [h.gbPageSupport]
  rcases h.edit hwf with ⟨e', he, hleaf⟩ | ⟨g, hg⟩
  · rw [he.walk hwf hv] at hw
    split at hw
    · obtain ⟨hk, -, hl⟩ := leafWalk_eq_some_iff.mp hw
      exact hleaf hk.symm hl
    · exact hgb v e hv hw
  · rw [hg.walk hwf hv] at hw
    split at hw
    · exact absurd hw (by simp)
    · exact hgb v e hv hw

theorem Steps.gbOk {root : Nat} {m m' : Machine} (h : Steps root m m') (hwf : WellFormed m root)
    (hgb : GbOk m root) : GbOk m' root :=
  (Relation.ReflTransGen.invariant (P := fun m => WellFormed m root ∧ GbOk m root)
    (fun _ _ ⟨_, _, hs⟩ hm => ⟨hs.wellFormed hm.1, hs.gbOk hm.1 hm.2⟩) h ⟨hwf, hgb⟩).2

end Dem64
