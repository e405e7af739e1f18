import Dem64.VaAlloc.Tree

/-!
# What `va_alloc` and `va_free` do to the trees

`VaShape S pg s` puts the two halves together: the metadata pages `pg` with their slots, and the trees
of the nodes `S`.  From a state of this shape `va_alloc` and `va_free` end, and their results are
described by which node changed its range, appeared or disappeared (`VaShape.consume`,
`VaShape.reuse`, `VaShape.carve`).

Two things can go wrong, and both are about the roots.  A root without children whose range is used up
is taken out of the counters although it stays where it is; and a root without a range looks like a
blank slot to `va_free`.  The lemmas below exclude the first by a hypothesis on the node that is
consumed, and the second by one on the slot that is recycled.
-/

set_option autoImplicit false

namespace Dem64

/-- The pages and the trees of an allocator that is in order. -/
structure VaShape (S : Finset Nat) (pg : List Nat) (s : VaState) : Prop where
  /-- The pages. -/
  pages : PageList pg s
  /-- The slots. -/
  slots : Slots S pg s
  /-- The trees. -/
  tree : Tree S s
  /-- `max_length`. -/
  max : MaxExcept ∅ S s
  /-- `va_entries` counts the nodes. -/
  entries : s.vaEntries = S.card
  /-- The roots sit in the first and the third slot of the first page. -/
  kstart : s.vaKstart = nodeAt s.vaHeader 0
  ustart : s.vaUstart = nodeAt s.vaHeader 2

/-- The range and the kind of a node are the same in both states. -/
def SameRange (s s' : VaState) (x : Nat) : Prop :=
  (s'.node x).virtualBase = (s.node x).virtualBase ∧ (s'.node x).length = (s.node x).length ∧
    (s'.node x).attributes = (s.node x).attributes

theorem SameRange.trans {s s' s'' : VaState} {x : Nat} (h : SameRange s s' x)
    (h' : SameRange s' s'' x) : SameRange s s'' x :=
  ⟨h'.1.trans h.1, h'.2.1.trans h.2.1, h'.2.2.trans h.2.2⟩

section

variable {S : Finset Nat} {pg : List Nat} {s s' : VaState} {e rsz : Nat}

theorem OnlyMax.sameRange (h : OnlyMax S s s') (x : Nat) : SameRange s s' x := by
  rw [SameRange, h.node x]
  exact ⟨rfl, rfl, rfl⟩

/-- The pages do not depend on the nodes of the trees. -/
theorem OnlyMax.pages (h : OnlyMax S s s') (hl : PageList pg s) : PageList pg s' := by
  refine hl.congr ?_ ?_ ?_ ?_ ?_ ?_ ?_ <;> rw [h.rest] <;> intros <;> rfl

theorem OnlyMax.slots (h : OnlyMax S s s') (hs : Slots S pg s) : Slots S pg s' := by
  refine hs.congr ?_ ?_ ?_ fun p _ j _ hnot => h.other _ hnot
  · rw [h.rest]
  · rw [h.rest]
  · rw [h.rest]

theorem VaShape.findHd_latest (h : VaShape S pg s) : findHd s.vaLatest = pg.getLastD 0 := by
  obtain ⟨l, x, rfl⟩ := h.pages.exists_last
  have hlast : (l ++ [x]).getLastD 0 = x := by simp
  have hlatest := h.slots.latest
  have hpos := h.slots.pos
  have hle := h.slots.carved_le (p := x) (by simp)
  rw [hlast] at hlatest hpos ⊢
  obtain ⟨c, hc⟩ : ∃ c, s.carved x = c + 1 := ⟨s.carved x - 1, by omega⟩
  rw [hc, nodeAt_succ] at hlatest
  rw [show s.vaLatest = nodeAt x c by omega]
  exact findHd_nodeAt (h.pages.page x (by simp)).2.1 (by omega)

/-! ## Taking a range -/

/-- A node without children has no links. -/
theorem Tree.links_of_used (h : Tree S s) (he : e ∈ S) (hu : (s.node e).usedNodes = 0) :
    (s.node e).vaLeft = 0 ∧ (s.node e).vaRight = 0 := by
  obtain ⟨h1, h2, -⟩ := used_cases (h.used e he)
  rw [hu] at h1 h2
  exact ⟨h2.mpr rfl, h1.mpr rfl⟩

/-- What taking `rsz` bytes from the node `e` does to the ranges: it loses them, and it may be taken
out when nothing is left. -/
structure Consumed (S S' : Finset Nat) (e rsz : Nat) (s s' : VaState) : Prop where
  /-- The nodes that are left. -/
  nodes : S' = S ∨ (S' = S.erase e ∧ (s.node e).length = rsz)
  /-- The other nodes keep their ranges. -/
  other : ∀ x, x ≠ e → SameRange s s' x
  /-- The node loses the front of its range. -/
  base : (s'.node e).virtualBase = ((s.node e).virtualBase + rsz) % 2 ^ 64
  length : (s'.node e).length = (s.node e).length - rsz
  attr : (s'.node e).attributes = (s.node e).attributes
  /-- The roots are where they were. -/
  header : s'.vaHeader = s.vaHeader
  kstart : s'.vaKstart = s.vaKstart
  ustart : s'.vaUstart = s.vaUstart

/-- The part of `consume` before the node is taken out. -/
theorem VaShape.shrink (h : VaShape S pg s) (he : e ∈ S) (hle : rsz ≤ (s.node e).length)
    (hlt : (s.node e).length < 2 ^ 64) :
    ∃ s', Settles (fun n => updateParents n e (Dem64.shrink e rsz s)) s' ∧ VaShape S pg s' ∧
      Consumed S S e rsz s s' ∧ (s'.node e).usedNodes = (s.node e).usedNodes ∧
      (s'.node e).parent = (s.node e).parent ∧ PagesGone pg pg s s' := by
  have hother : ∀ x, x ≠ e → (Dem64.shrink e rsz s).node x = s.node x := fun x hx => if_neg hx
  have hself : (Dem64.shrink e rsz s).node e = { s.node e with
      virtualBase := ((s.node e).virtualBase + rsz) % 2 ^ 64
      length := subU64 (s.node e).length rsz } := if_pos rfl
  have hlinks : SameLinks S s (Dem64.shrink e rsz s) := by
    refine ⟨?_, ?_, ?_, ?_, ?_, rfl, rfl⟩
    all_goals
      intro x _
      by_cases hx : x = e
      · rw [hx, hself]
      · rw [hother x hx]
  have htree := h.tree.congr hlinks
  have hmax : MaxExcept {e, ((Dem64.shrink e rsz s).node e).parent} S (Dem64.shrink e rsz s) := by
    intro x hx hxe
    have hxe' : x ≠ e := fun hc => hxe (Or.inl hc)
    rw [hother x hxe', h.max x hx (Set.notMem_empty x)]
    refine (maxOf_congr ?_ ?_ ?_ fun b hb => ?_).symm
    · rw [hother x hxe']
    · rw [hother x hxe']
    · rw [hother x hxe']
    · by_cases hbe : b = e
      · rw [hbe, hself]
      · rw [hother b hbe]
  obtain ⟨s', hset, honly, hmax'⟩ := updateParents_spec htree e he _ (OnlyMax.refl _ _) hmax
  have hrest := honly.rest
  have hself' : s'.node e = { (Dem64.shrink e rsz s).node e with
      maxLength := (s'.node e).maxLength } := honly.node e
  rw [hself] at hself'
  have hpages : PageList pg (Dem64.shrink e rsz s) :=
    h.pages.congr (fun _ => rfl) (fun _ => rfl) rfl rfl rfl rfl rfl
  refine ⟨s', hset, ⟨honly.pages hpages, ?_, htree.congr honly.sameLinks, hmax', ?_, ?_, ?_⟩,
    ⟨Or.inl rfl, ?_, ?_, ?_, ?_, ?_, ?_, ?_⟩, ?_, ?_, PagesGone.of_eq ?_ fun p => ?_⟩
  · refine honly.slots (h.slots.congr rfl rfl rfl fun p _ j _ hnot => hother _ ?_)
    exact fun hc => hnot (hc ▸ he)
  · rw [hrest]
    exact h.entries
  · rw [hrest]
    exact h.kstart
  · rw [hrest]
    exact h.ustart
  · intro x hx
    have hsame := honly.sameRange x
    rwa [SameRange, hother x hx] at hsame
  · rw [hself']
  · rw [hself']
    exact subU64_eq hle hlt
  · rw [hself']
  · rw [hrest]
    rfl
  · rw [hrest]
    rfl
  · rw [hrest]
    rfl
  · rw [hself']
  · rw [hself']
  · rw [hrest]
    rfl
  · rw [hrest]
    rfl

/-- **A node without children and without a range is taken out**, and the pages that are left without
nodes are unmapped. -/
theorem VaShape.drop (h : VaShape S pg s) (he : e ∈ S) (hk : e ≠ s.vaKstart) (hus : e ≠ s.vaUstart)
    (hu : (s.node e).usedNodes = 0) (hlen : (s.node e).length = 0) :
    ∃ pg' s', Settles (fun n => dropNode n e s) s' ∧ VaShape (S.erase e) pg' s' ∧
      (∀ x, SameRange s s' x) ∧ s'.vaHeader = s.vaHeader ∧ s'.vaKstart = s.vaKstart ∧
      s'.vaUstart = s.vaUstart ∧ PagesGone pg pg' s s' := by
  obtain ⟨hp, hc⟩ : (s.node e).parent ∈ S ∧ Child s (s.node e).parent e := by
    rcases h.tree.parent_cases he with ⟨hr, -⟩ | hp
    · exact absurd hr (by simp [hk, hus])
    · exact hp
  have hp0 := h.tree.ne_zero _ hp
  obtain ⟨hleft, hright⟩ := h.tree.links_of_used he hu
  -- the counters do not matter to the tree
  have htree₁ : Tree S (uncount e s) :=
    h.tree.congr ⟨fun _ _ => rfl, fun _ _ => rfl, fun _ _ => rfl, fun _ _ => rfl, fun _ _ => rfl, rfl, rfl⟩
  have hdet : Detached e (uncount e s) (unlinkNode e (uncount e s)) := unlinkNode_spec htree₁ hp hc
  obtain ⟨s₂, hs₂⟩ : ∃ s₂, s₂ = blankNode e (uncount e s) := ⟨_, rfl⟩
  have hnode₂ : s₂.node = (unlinkNode e (uncount e s)).node := by rw [hs₂]; rfl
  have hhd : ∀ p, s₂.hd p = if p = findHd e then { s.hd (findHd e) with
      freeEntries := (s.hd (findHd e)).freeEntries + 1
      unusedEntries := (s.hd (findHd e)).unusedEntries + 1 } else s.hd p := by
    intro p
    have huncount : ∀ q, (uncount e s).hd q = if q = findHd e then { s.hd (findHd e) with
      freeEntries := (s.hd (findHd e)).freeEntries + 1 } else s.hd q := fun _ => rfl
    rw [hs₂]
    show (if p = findHd e then { (uncount e s).hd (findHd e) with
      unusedEntries := ((uncount e s).hd (findHd e)).unusedEntries + 1 } else (uncount e s).hd p) = _
    rw [huncount, huncount, if_pos rfl]
    split <;> simp [*]
  have hrest₂ : s₂.max = s.max ∧ s₂.vaLatest = s.vaLatest ∧ s₂.vaHeader = s.vaHeader ∧
      s₂.vaKstart = s.vaKstart ∧ s₂.vaUstart = s.vaUstart ∧ s₂.vaEntries = s.vaEntries - 1 := by
    rw [hs₂]
    exact ⟨rfl, rfl, rfl, rfl, rfl, rfl⟩
  have htop₂ : s₂.vaTop = s.vaTop ∧ s₂.cacheBase = s.cacheBase ∧ s₂.cacheIndex = s.cacheIndex ∧
      s₂.vaMetadataPages = s.vaMetadataPages := by
    rw [hs₂]
    exact ⟨rfl, rfl, rfl, rfl⟩
  have htree₂ : Tree (S.erase e) s₂ := by
    rw [hs₂]
    exact (htree₁.detach hp hc hu hdet).congr ⟨fun _ _ => rfl, fun _ _ => rfl, fun _ _ => rfl,
      fun _ _ => rfl, fun _ _ => rfl, rfl, rfl⟩
  have hmax0 : (s.node e).maxLength = 0 := by
    rw [h.max e he (Set.notMem_empty e)]
    simp [maxOf, hleft, hright, hlen]
  have hmax₂ : MaxExcept ∅ (S.erase e) s₂ := by
    rw [hs₂]
    exact hdet.maxExcept htree₁ he hp hmax0 h.max
  have hblank : Blank (s₂.node e) := by
    rw [hnode₂, hdet.node]
    exact ⟨hlen, rfl, hleft, hright, hu⟩
  have hslots₂ : Slots (S.erase e) pg s₂ := by
    refine h.slots.drop h.pages he ?_ ?_ ?_ ?_ (fun p hpe => ?_) hblank fun p _ j _ hnot => ?_
    · exact hrest₂.1
    · exact hrest₂.2.1
    · rw [hhd, if_pos rfl]
    · rw [hhd, if_pos rfl]
    · rw [hhd, if_neg hpe]
      exact ⟨rfl, rfl⟩
    · rw [hnode₂]
      refine hdet.other _ (fun hc => hnot ?_) (fun hc => hnot (hc ▸ he))
      rw [hc]
      exact hp
  have hpages₂ : PageList pg s₂ := by
    refine h.pages.congr (fun p => ?_) (fun p => ?_) ?_ ?_ ?_ ?_ ?_
    · rw [hhd]
      split <;> simp [*]
    · rw [hhd]
      split <;> simp [*]
    · exact hrest₂.2.2.1
    · exact htop₂.1
    · exact htop₂.2.1
    · exact htop₂.2.2.1
    · exact htop₂.2.2.2
  obtain ⟨l, x, rfl⟩ := h.pages.exists_last
  have hlast : findHd s₂.vaLatest = x := by
    have hl := h.findHd_latest
    rw [hrest₂.2.1, hl]
    simp
  obtain ⟨s', pg', hset, hslots', hpages', hsame, hgone⟩ := reclaim_spec hslots₂ hpages₂
  have hrange₂ : ∀ x, SameRange s s₂ x := by
    intro x
    by_cases hxe : x = e
    · rw [SameRange, hnode₂, hxe, hdet.node]
      exact ⟨rfl, rfl, rfl⟩
    · have hf := hdet.field hxe
      rw [SameRange, hnode₂]
      exact ⟨hf.2.2.2.2, hf.2.2.1, hf.2.1⟩
  have hlinks : SameLinks (S.erase e) s₂ s' := by
    have hn := hsame.node
    refine ⟨?_, ?_, ?_, ?_, ?_, hsame.kstart, hsame.ustart⟩
    all_goals
      intro y _
      rw [hn]
  have hpagesGone : PagesGone (l ++ [x]) (l ++ [x]) s s₂ := by
    refine PagesGone.of_eq (by rw [hs₂]; rfl) fun p => ?_
    rw [VaState.carved, VaState.carved, hrest₂.1, hhd]
    split
    · rename_i hp
      rw [hp]
      exact Nat.add_sub_add_right _ 1 _
    · rfl
  refine ⟨pg', s', ?_, ⟨hpages', hslots', htree₂.congr hlinks, ?_, ?_, ?_, ?_⟩, ?_, ?_, ?_, ?_,
    hpagesGone.trans hgone⟩
  · refine Settles.congr hset fun n => ?_
    rw [dropNode]
    show (if (s.node e).parent ≠ 0 then reclaim n false (findHd (blankNode e (uncount e s)).vaLatest)
      (blankNode e (uncount e s)) else _) = _
    rw [if_pos hp0, ← hs₂, hlast]
    rfl
  · intro y hy hye
    rw [show (s'.node y).maxLength = (s₂.node y).maxLength by rw [hsame.node], hmax₂ y hy hye]
    refine (maxOf_congr ?_ ?_ ?_ fun b _ => ?_).symm <;> rw [hsame.node]
  · rw [hsame.entries, hrest₂.2.2.2.2.2, Finset.card_erase_of_mem he]
    have hpos := Finset.card_pos.mpr ⟨e, he⟩
    rw [h.entries]
    omega
  · rw [hsame.kstart, hsame.header, hrest₂.2.2.1, hrest₂.2.2.2.1]
    exact h.kstart
  · rw [hsame.ustart, hsame.header, hrest₂.2.2.1, hrest₂.2.2.2.2.1]
    exact h.ustart
  · intro y
    have := hrange₂ y
    rwa [SameRange, ← hsame.node] at this
  · rw [hsame.header, hrest₂.2.2.1]
  · rw [hsame.kstart, hrest₂.2.2.2.1]
  · rw [hsame.ustart, hrest₂.2.2.2.2.1]

/-- **`va_alloc` takes the front of a node.** -/
theorem VaShape.consume (h : VaShape S pg s) (he : e ∈ S) (hle : rsz ≤ (s.node e).length)
    (hlt : (s.node e).length < 2 ^ 64)
    (hroot : e = s.vaKstart ∨ e = s.vaUstart → (s.node e).length = rsz →
      (s.node e).usedNodes ≠ 0) :
    ∃ S' pg' s', Settles (fun n => Dem64.consume n e rsz s) s' ∧ VaShape S' pg' s' ∧
      Consumed S S' e rsz s s' ∧ PagesGone pg pg' s s' := by
  obtain ⟨s₁, hset, hshape, hcons, hused, -, hgone⟩ := h.shrink he hle hlt
  by_cases hexact : (s.node e).length = rsz ∧ (s₁.node e).usedNodes = 0
  · have hlen : (s₁.node e).length = 0 := by
      rw [hcons.length, hexact.1]
      omega
    have hnot : ¬ (e = s.vaKstart ∨ e = s.vaUstart) :=
      fun hr => hroot hr hexact.1 (hused ▸ hexact.2)
    rw [not_or, ← hcons.kstart, ← hcons.ustart] at hnot
    obtain ⟨pg', s', hset', hshape', hrange, hheader, hkstart, hustart, hgone'⟩ :=
      hshape.drop he hnot.1 hnot.2 hexact.2 hlen
    refine ⟨S.erase e, pg', s', hset.bind (hset'.congr fun n => if_pos hexact), hshape',
      ⟨Or.inr ⟨rfl, hexact.1⟩, fun x hx => (hcons.other x hx).trans (hrange x), ?_, ?_, ?_,
        hheader.trans hcons.header, hkstart.trans hcons.kstart, hustart.trans hcons.ustart⟩,
      hgone.trans hgone'⟩
    · rw [(hrange e).1, hcons.base]
    · rw [(hrange e).2.1, hcons.length]
    · rw [(hrange e).2.2, hcons.attr]
  · exact ⟨S, pg, s₁, hset.bind ((Settles.const s₁).congr fun n => if_neg hexact), hshape, hcons, hgone⟩

/-- A root without children whose range is used up is no longer counted, but stays where it is. -/
theorem VaShape.spend (h : VaShape S pg s) (he : e = s.vaKstart ∨ e = s.vaUstart)
    (hlen : (s.node e).length = rsz) (hlt : (s.node e).length < 2 ^ 64)
    (hused : (s.node e).usedNodes = 0) :
    ∃ s₁, Settles (fun n => Dem64.consume n e rsz s) (uncount e s₁) ∧ VaShape S pg s₁ ∧
      Consumed S S e rsz s s₁ := by
  have hmem : e ∈ S := by
    rcases he with rfl | rfl
    · exact h.tree.kstart_mem
    · exact h.tree.ustart_mem
  have hparent : (s.node e).parent = 0 := by
    rcases he with rfl | rfl
    · exact h.tree.kparent
    · exact h.tree.uparent
  obtain ⟨s₁, hset, hshape, hcons, hused₁, hparent₁, -⟩ := h.shrink hmem hlen.ge hlt
  refine ⟨s₁, hset.bind ((Settles.const (uncount e s₁)).congr fun n => ?_), hshape, hcons⟩
  rw [if_pos ⟨hlen, hused₁.trans hused⟩, dropNode]
  exact if_neg (not_not.mpr (hparent₁.trans hparent))

/-! ## Giving a range back -/

variable {a last : Nat} {desc : VaRet}

/-- What giving back a range does: a new node with this range. -/
structure Returned (S : Finset Nat) (a : Nat) (desc : VaRet) (s s' : VaState) : Prop where
  /-- The slot was no node. -/
  notMem : a ∉ S
  /-- The other nodes keep their ranges. -/
  other : ∀ x ∈ S, SameRange s s' x
  /-- The new one has the range. -/
  base : (s'.node a).virtualBase = desc.base
  length : (s'.node a).length = (desc.pages <<< 12) % 2 ^ 64
  attr : (s'.node a).attributes = desc.attributes
  /-- The roots are where they were. -/
  header : s'.vaHeader = s.vaHeader
  kstart : s'.vaKstart = s.vaKstart
  ustart : s'.vaUstart = s.vaUstart

/-- A slot without links is filled and attached. -/
theorem attach_spec (ht : Tree S s) (hmax : MaxExcept ∅ S s) (ha : a ∉ S) (ha0 : a ≠ 0)
    (hlast : last ∈ S) (hroom : (s.node last).usedNodes &&& 3 ≠ 3)
    (hl : (s.node a).vaLeft = 0) (hr : (s.node a).vaRight = 0) (hu : (s.node a).usedNodes = 0)
    (hattr : (s.node last).attributes = desc.attributes) :
    ∃ s', Settles (fun n => updateParents n a (attachNode last a (fillNode desc a s))) s' ∧
      Tree (insert a S) s' ∧ MaxExcept ∅ (insert a S) s' ∧ Returned S a desc s s' ∧
      (∀ x, x ∉ insert a S → s'.node x = s.node x) ∧ s' = { s with node := s'.node } := by
  have hother : ∀ x, x ≠ a → (fillNode desc a s).node x = s.node x := fun x hx => if_neg hx
  have hself : (fillNode desc a s).node a = { s.node a with
      virtualBase := desc.base, attributes := desc.attributes, length := (desc.pages <<< 12) % 2 ^ 64 } := if_pos rfl
  have hne : ∀ x ∈ S, x ≠ a := fun x hx hxa => ha (hxa ▸ hx)
  have hal : a ≠ last := fun hal => ha (hal ▸ hlast)
  have ht₁ : Tree S (fillNode desc a s) := by
    refine ht.congr ⟨?_, ?_, ?_, ?_, ?_, rfl, rfl⟩
    all_goals
      intro x hx
      rw [hother x (hne x hx)]
  have hmax₁ : MaxExcept ∅ S (fillNode desc a s) := by
    intro x hx hxe
    rw [hother x (hne x hx), hmax x hx hxe]
    refine (maxOf_congr ?_ ?_ ?_ fun b hb => ?_).symm
    · rw [hother x (hne x hx)]
    · rw [hother x (hne x hx)]
    · rw [hother x (hne x hx)]
    · rw [hother b (hne b (ht.forest.closed x hx b hb))]
  have hatt : Attached last a (fillNode desc a s) (attachNode last a (fillNode desc a s)) := by
    refine attachNode_spec (ht₁.ne_zero last hlast) (ht₁.used last hlast) ha0 hal ?_
    rwa [hother last hal.symm]
  have htree := ht₁.attach hlast ha ha0 hatt (by rw [hself]; exact hl) (by rw [hself]; exact hr)
    (by rw [hself]; exact hu) (by rw [hself, hother last hal.symm]; exact hattr.symm)
  have hex := hatt.maxExcept ht₁ ha hmax₁
  have hpar : ((attachNode last a (fillNode desc a s)).node a).parent = last := by rw [hatt.child]
  obtain ⟨s', hset, honly, hmax'⟩ := updateParents_spec htree a (Finset.mem_insert_self a S) _
    (OnlyMax.refl _ _) (by rwa [hpar])
  have hrange : ∀ x, x ≠ a → SameRange s s' x := by
    intro x hx
    have hf := hatt.field hx
    refine SameRange.trans ?_ (honly.sameRange x)
    rw [SameRange, hf.2.2.2.2, hf.2.2.1, hf.2.1, hother x hx]
    exact ⟨rfl, rfl, rfl⟩
  have hnode : s'.node a = { (attachNode last a (fillNode desc a s)).node a with
      maxLength := (s'.node a).maxLength } := honly.node a
  rw [hatt.child, hself] at hnode
  have hrest : s' = { s with node := s'.node } := by
    have h1 := honly.rest
    rw [hatt.rest] at h1
    exact h1
  refine ⟨s', hset, htree.congr honly.sameLinks, hmax',
    ⟨ha, fun x hx => hrange x (hne x hx), ?_, ?_, ?_, ?_, ?_, ?_⟩, fun x hx => ?_, hrest⟩
  · rw [hnode]
  · rw [hnode]
  · rw [hnode]
  · rw [hrest]
  · rw [hrest]
  · rw [hrest]
  · rw [Finset.mem_insert, not_or] at hx
    rw [honly.other x (by rw [Finset.mem_insert, not_or]; exact hx),
      hatt.other x (fun hxl => hx.2 (hxl ▸ hlast)) hx.1, hother x hx.1]

/-- A slot was recycled, and the pages and the slots that were carved are the same. -/
structure SamePages (pg pg' : List Nat) (s s' : VaState) : Prop where
  pages : pg' = pg
  carved : ∀ p, s'.carved p = s.carved p
  latest : s'.vaLatest = s.vaLatest
  metadata : s'.vaMetadataPages = s.vaMetadataPages

/-- **`va_free` puts a range into a blank slot.** -/
theorem VaShape.reuse (h : VaShape S pg s) {page i : Nat} (hpage : page ∈ pg)
    (hi : i < s.carved page) (hnot : nodeAt page i ∉ S) (hun : (s.hd page).unusedEntries ≠ 0)
    (hlast : last ∈ S) (hroom : (s.node last).usedNodes &&& 3 ≠ 3)
    (hattr : (s.node last).attributes = desc.attributes) :
    ∃ s', Settles (fun n => reuseSlot n desc last page (nodeAt page i) s) s' ∧
      VaShape (insert (nodeAt page i) S) pg s' ∧ Returned S (nodeAt page i) desc s s' ∧
      s'.freed = (desc.base, desc.pages) :: s.freed ∧ SamePages pg pg s s' := by
  have hb := h.slots.blank page hpage i hi hnot
  obtain ⟨s₁, hset, htree, hmax, hret, hother, hrest⟩ := attach_spec h.tree h.max hnot nodeAt_ne_zero
    hlast hroom hb.left hb.right hb.used hattr
  have hle := h.slots.unused_le page hpage
  have hfree := h.slots.free_le page hpage
  let f : VaHd → VaHd := fun x => { x with
    unusedEntries := subU64 x.unusedEntries 1, freeEntries := subU64 x.freeEntries 1 }
  have hhd : s₁.hd = s.hd := by rw [hrest]
  have hentries : s₁.vaEntries = s.vaEntries := by rw [hrest]
  obtain ⟨s₂, hs₂⟩ : ∃ s₂, s₂ = vfreeRange desc
      { s₁.setHd page f with vaEntries := (s₁.setHd page f).vaEntries + 1 } := ⟨_, rfl⟩
  have hhd₂ : ∀ p, s₂.hd p = if p = page then f (s.hd page) else s.hd p := by
    intro p
    rw [hs₂, ← hhd]
    rfl
  have hnode₂ : s₂.node = s₁.node := by rw [hs₂]; rfl
  have hglob : s₂.max = s.max ∧ s₂.vaLatest = s.vaLatest ∧ s₂.vaHeader = s.vaHeader ∧
      s₂.vaKstart = s.vaKstart ∧ s₂.vaUstart = s.vaUstart ∧ s₂.vaTop = s.vaTop ∧
      s₂.cacheBase = s.cacheBase ∧ s₂.cacheIndex = s.cacheIndex ∧
      s₂.vaMetadataPages = s.vaMetadataPages := by
    rw [hs₂, hrest]
    exact ⟨rfl, rfl, rfl, rfl, rfl, rfl, rfl, rfl, rfl⟩
  obtain ⟨g1, g2, g3, g4, g5, g6, g7, g8, g9⟩ := hglob
  have hlinks : SameLinks (insert (nodeAt page i) S) s₁ s₂ := by
    refine ⟨?_, ?_, ?_, ?_, ?_, ?_, ?_⟩
    any_goals
      intro x _
      rw [hnode₂]
    · rw [hs₂]
      rfl
    · rw [hs₂]
      rfl
  refine ⟨s₂, hset.bind ((Settles.const s₂).congr fun n => by rw [hs₂]), ⟨?_, ?_, htree.congr hlinks, ?_,
    ?_, ?_, ?_⟩, ⟨hnot, fun x hx => ?_, ?_, ?_, ?_, g3, g4, g5⟩, ?_, rfl, fun p => ?_, g2, g9⟩
  · refine h.pages.congr (fun p => ?_) (fun p => ?_) g3 g6 g7 g8 g9
    · rw [hhd₂]
      split <;> simp [f, *]
    · rw [hhd₂]
      split <;> simp [f, *]
  · refine h.slots.reuse h.pages hpage hi hnot hun g1 g2 ?_ ?_ (fun p hp => ?_) fun p _ j _ hnj => ?_
    · rw [hhd₂, if_pos rfl]
      show subU64 _ 1 + 1 = _
      rw [subU64_eq (by omega) (by omega)]
      omega
    · rw [hhd₂, if_pos rfl]
      show subU64 _ 1 + 1 = _
      rw [subU64_eq (by omega) (by omega)]
      omega
    · rw [hhd₂, if_neg hp]
      exact ⟨rfl, rfl⟩
    · rw [hnode₂, hother _ hnj]
  · intro x hx hxe
    rw [show (s₂.node x).maxLength = (s₁.node x).maxLength by rw [hnode₂], hmax x hx hxe]
    refine (maxOf_congr ?_ ?_ ?_ fun b _ => ?_).symm <;> rw [hnode₂]
  · rw [hs₂, Finset.card_insert_of_notMem hnot]
    show s₁.vaEntries + 1 = _
    rw [hentries, h.entries]
    omega
  · rw [g4, g3]
    exact h.kstart
  · rw [g5, g3]
    exact h.ustart
  · have := hret.other x hx
    rwa [SameRange, ← hnode₂] at this
  · rw [hnode₂, hret.base]
  · rw [hnode₂, hret.length]
  · rw [hnode₂, hret.attr]
  · rw [hs₂, hrest]
    rfl
  · rw [VaState.carved, VaState.carved, g1, hhd₂]
    split
    · rename_i hp
      show s.max + subU64 (s.hd page).unusedEntries 1 - subU64 (s.hd page).freeEntries 1 = _
      rw [hp, subU64_eq (by omega) (by omega), subU64_eq (by omega) (by omega)]
      omega
    · rfl

/-- **`va_free` puts a range into a new slot** when there is no blank one. -/
theorem VaShape.carve {env : Env} (h : VaShape S pg s)
    (hun : ∀ p ∈ pg, (s.hd p).unusedEntries = 0) (hcan : PageReady env pg s) (hlast : last ∈ S)
    (hroom : (s.node last).usedNodes &&& 3 ≠ 3)
    (hattr : (s.node last).attributes = desc.attributes) :
    ∃ x c pg' s', Settles (fun n => carveSlot env n desc last s) s' ∧
      VaShape (insert (nodeAt x c) S) pg' s' ∧ Returned S (nodeAt x c) desc s s' ∧
      s'.freed = (desc.base, desc.pages) :: s.freed ∧ NewSlot pg pg' x c s s' := by
  obtain ⟨y, c, pg', s₁, hset, hc, hnew⟩ := findNewEntry_spec h.slots h.pages hun hcan
  obtain ⟨a, ha⟩ : ∃ a, a = nodeAt y c := ⟨_, rfl⟩
  rw [← ha] at hset hc
  have hsame : ∀ x ∈ S, s₁.node x = s.node x := hc.node
  have ht₁ : Tree S s₁ := by
    refine h.tree.congr ⟨?_, ?_, ?_, ?_, ?_, hc.kstart, hc.ustart⟩
    all_goals
      intro x hx
      rw [hsame x hx]
  have hmax₁ : MaxExcept ∅ S s₁ := by
    intro x hx hxe
    rw [hsame x hx, h.max x hx hxe]
    refine (maxOf_congr ?_ ?_ ?_ fun b hb => ?_).symm
    · rw [hsame x hx]
    · rw [hsame x hx]
    · rw [hsame x hx]
    · rw [hsame b (h.tree.forest.closed x hx b hb)]
  have ha0 : a ≠ 0 := hc.slots.ne_zero (Finset.mem_insert_self a S)
  have hroom₁ : (s₁.node last).usedNodes &&& 3 ≠ 3 := by rwa [hsame last hlast]
  have hattr₁ : (s₁.node last).attributes = desc.attributes := by rwa [hsame last hlast]
  obtain ⟨s₂, hset₂, htree, hmax, hret, hother, hrest⟩ := attach_spec ht₁ hmax₁ hc.notMem ha0 hlast
    hroom₁ hc.links.2.1 hc.links.2.2.1 hc.links.2.2.2 hattr₁
  have hnode : (vfreeRange desc s₂).node = s₂.node := rfl
  refine ⟨y, c, pg', vfreeRange desc s₂, hset.bind (hset₂.bind (Settles.const _)), ?_⟩
  rw [← ha]
  refine ⟨⟨?_, ?_, ?_, hmax, ?_, ?_, ?_⟩, ⟨hc.notMem, fun x hx => ?_, hret.base, hret.length, hret.attr,
    hret.header.trans hc.header, hret.kstart.trans hc.kstart, hret.ustart.trans hc.ustart⟩, ?_,
    ⟨hnew.pages, hnew.lt, fun p => ?_, ?_, ?_⟩⟩
  · refine hc.pages.congr ?_ ?_ ?_ ?_ ?_ ?_ ?_
    · intro p
      rw [hrest]
      rfl
    · intro p
      rw [hrest]
      rfl
    all_goals
      rw [hrest]
      rfl
  · refine hc.slots.congr ?_ ?_ ?_ fun p _ j _ hnot => ?_
    · rw [hrest]
      rfl
    · rw [hrest]
      rfl
    · rw [hrest]
      rfl
    · rw [hnode, hother _ hnot]
  · refine htree.congr ⟨?_, ?_, ?_, ?_, ?_, rfl, rfl⟩
    all_goals exact fun _ _ => rfl
  · show s₂.vaEntries = _
    rw [hrest, Finset.card_insert_of_notMem hc.notMem]
    show s₁.vaEntries = _
    rw [hc.entries, h.entries]
    omega
  · show s₂.vaKstart = nodeAt s₂.vaHeader 0
    rw [hret.kstart, hret.header, hc.kstart, hc.header]
    exact h.kstart
  · show s₂.vaUstart = nodeAt s₂.vaHeader 2
    rw [hret.ustart, hret.header, hc.ustart, hc.header]
    exact h.ustart
  · have := hret.other x hx
    rwa [SameRange, hsame x hx] at this
  · show _ :: s₂.freed = _
    rw [hrest]
    show _ :: s₁.freed = _
    rw [hc.freed]
  · rw [← hnew.carved p, hrest]
    rfl
  · show s₂.vaLatest = _
    rw [hrest]
    exact hnew.latest
  · show s₂.vaMetadataPages + _ = _
    rw [hrest]
    exact hnew.metadata

end

end Dem64
