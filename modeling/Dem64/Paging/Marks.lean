import Dem64.Paging.Accounting

/-!
# The frames that hold no tables

`create_mapping` and `destroy_mapping` take frames for tables out of the bitmap and give them back.
The other frames in use, the `dataFrames`, are not their business: whatever the two functions do, and
however many steps they take, the same frames are data frames afterwards (`Steps.dataFrames_eq`).  A
bit of the bitmap can only change for a frame that holds a table before or afterwards.
-/

set_option autoImplicit false

namespace Dem64

/-- Some table of the tree sits in frame `f`. -/
def HoldsTable (m : Machine) (root f : Nat) : Prop := ∃ k p, k ≤ 3 ∧ tableAt m.mem root k p = some f

/-- The frames in use that hold no table. -/
def dataFrames (m : Machine) (root : Nat) : Set Nat :=
  {f | f ∈ m.frames.usedPages ∧ ¬ HoldsTable m root f}

section

variable {root k q e : Nat} {m m' : Machine}

/-- A frame whose bit changes holds a table before or afterwards. -/
theorem used_iff_of_dataFrames_eq (h : dataFrames m' root = dataFrames m root) {f : Nat}
    (h1 : ¬ HoldsTable m root f) (h2 : ¬ HoldsTable m' root f) :
    f ∈ m'.frames.usedPages ↔ f ∈ m.frames.usedPages := by
  have hf := Set.ext_iff.mp h f
  simp only [dataFrames, Set.mem_ofPred_eq, h1, h2, not_false_eq_true, and_true] at hf
  exact hf

/-- An edit that gives back the tables below its slot. -/
theorem LeafEdit.dataFrames_eq (hwf : WellFormed m root) (h : LeafEdit root k q e m m')
    (hmarks : ∀ f, f ∈ m'.frames.usedPages ↔ f ∈ m.frames.usedPages ∧
      ¬ ∃ k' p, k' ≤ 3 ∧ Under k q k' p ∧ tableAt m.mem root k' p = some f) :
    dataFrames m' root = dataFrames m root := by
  ext f
  have htables : HoldsTable m' root f ↔ HoldsTable m root f ∧
      ¬ ∃ k' p, k' ≤ 3 ∧ Under k q k' p ∧ tableAt m.mem root k' p = some f := by
    constructor
    · rintro ⟨k', p, hk', hf⟩
      obtain ⟨hold, hu⟩ := h.tableAt_eq_some hwf hk' hf
      refine ⟨⟨k', p, hk', hold⟩, ?_⟩
      rintro ⟨k'', p', hk'', hu', hf'⟩
      obtain ⟨rfl, rfl⟩ := hwf.separated _ _ _ _ _ hk' hk'' hold hf'
      exact hu hu'
    · rintro ⟨⟨k', p, hk', hf⟩, hout⟩
      exact ⟨k', p, hk', by rw [h.tableAt_eq hwf hk' fun hu => hout ⟨k', p, hk', hu, hf⟩, hf]⟩
  have hunder : (∃ k' p, k' ≤ 3 ∧ Under k q k' p ∧ tableAt m.mem root k' p = some f) →
      HoldsTable m root f := fun ⟨k', p, hk', _, hf⟩ => ⟨k', p, hk', hf⟩
  show _ ∧ _ ↔ _ ∧ _
  rw [hmarks, htables]
  tauto

/-- A new table. -/
theorem TableEdit.dataFrames_eq {g : Nat} (hwf : WellFormed m root) (h : TableEdit root k q g m m') :
    dataFrames m' root = dataFrames m root := by
  ext f
  have hk := h.depth_le
  have htables : HoldsTable m' root f ↔ f = g ∨ HoldsTable m root f := by
    constructor
    · rintro ⟨k', p, hk', hf⟩
      rcases h.tableAt_eq_some hwf hk' hf with ⟨-, -, rfl⟩ | ⟨hold, -⟩
      · exact Or.inl rfl
      · exact Or.inr ⟨k', p, hk', hold⟩
    · rintro (rfl | ⟨k', p, hk', hf⟩)
      · exact ⟨k + 1, q, by omega, (h.tableAt_under hwf).1⟩
      · exact ⟨k', p, hk', h.tableAt_mono hwf hk' hf⟩
  have hfresh := h.fresh
  show _ ∧ _ ↔ _ ∧ _
  rw [h.marks, htables]
  constructor
  · rintro ⟨hf, hno⟩
    exact ⟨hf.resolve_left fun hg => hno (Or.inl hg), fun ht => hno (Or.inr ht)⟩
  · rintro ⟨hf, hno⟩
    refine ⟨Or.inr hf, ?_⟩
    rintro (rfl | ht)
    · exact hfresh hf
    · exact hno ht

/-- **A step changes bits of frames that hold tables only.**  Frame 0 must not hold one: `free_pdpt`
takes a slot at address 0 for a null pointer. -/
theorem SlotStep.dataFrames_eq (hs : SlotStep root k q m m') (hwf : WellFormed m root)
    (h0 : 0 ∈ dataFrames m root) : dataFrames m' root = dataFrames m root := by
  cases hs with
  | table hk ht hold ha hok => exact (tableEdit_newTable hwf hk ht hold ha hok).dataFrames_eq hwf
  | write hk0 hk ht hold he hnt hgb =>
    refine (leafEdit_write hk0 hk ht he hnt).dataFrames_eq hwf fun f => ?_
    refine (and_iff_left ?_).symm
    rintro ⟨k', p, -, hu, hf⟩
    exact not_under_of_not_table ht hold hu hf
  | @dropPt t e hk ht hold he hnt =>
    subst hk
    have hpt : tableAt m.mem root 3 q = some (m.read t (q % 512) >>> 12) :=
      Radix.tableAt_succ_eq_some.mpr ⟨_, ht, hold, rfl⟩
    refine (leafEdit_dropPt hwf ht hold he hnt).dataFrames_eq hwf fun f => ?_
    show f ∈ (freePages m _ 1).frames.usedPages ↔ _
    rw [freePages_used]
    refine and_congr_right fun _ => not_congr ⟨?_, ?_⟩
    · rintro rfl
      exact ⟨3, q, le_refl 3, ⟨2, rfl, Radix.below_self _ _⟩, hpt⟩
    · -- below a slot of depth 2 there is one table
      rintro ⟨k', p, hk', ⟨j, rfl, hj, hq⟩, hf⟩
      obtain rfl : j = 2 := by omega
      obtain rfl : p = q := by simpa using hq
      exact (Option.some_inj.mp (hpt.symm.trans hf)).symm
  | @dropPd t e hk ht hold he hnt hgb =>
    subst hk
    have hslot : t + 8 * (q % 512) ≠ 0 := by
      intro hz
      refine h0.2 ⟨1, _, by decide, ht.trans (congrArg some ?_)⟩
      rw [show t = 0 by omega]
      rfl
    refine (leafEdit_dropPd hwf ht hold he hnt).dataFrames_eq hwf fun f => ?_
    rw [under_pd_iff ht hold, freePdpt, if_neg hslot,
      if_pos ((isTable_middle (by decide) (by decide)).mp hold)]
    show f ∈ (freePages _ _ 1).frames.usedPages ↔ _
    rw [freePages_used, freePdLoop_used, and_assoc]
    refine and_congr_right fun _ => ?_
    rw [not_or, and_comm]
    refine and_congr Iff.rfl ⟨?_, ?_⟩
    · rintro hne ⟨j, hj, htab, hf⟩
      exact hne j (Nat.zero_le _) (by omega) htab hf
    · exact fun hno j _ hj htab hf => hno ⟨j, by omega, htab, hf⟩

/-- **Neither `create_mapping` nor `destroy_mapping` changes the bit of a data frame.** -/
theorem Steps.dataFrames_eq (hs : Steps root m m') (hwf : WellFormed m root)
    (h0 : 0 ∈ dataFrames m root) : dataFrames m' root = dataFrames m root := by
  refine (Relation.ReflTransGen.invariant
    (P := fun x => WellFormed x root ∧ dataFrames x root = dataFrames m root)
    (fun x y ⟨_, _, hstep⟩ hx => ?_) hs ⟨hwf, rfl⟩).2
  exact ⟨hstep.wellFormed hx.1, (hstep.dataFrames_eq hx.1 (hx.2 ▸ h0)).trans hx.2⟩

end

end Dem64
