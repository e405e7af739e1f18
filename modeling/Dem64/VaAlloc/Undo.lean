import Dem64.VaAlloc.NoMemory

/-!
# Does `va_free` undo `va_alloc`?

`va_alloc` selects the tree by one bit of the attributes, but `va_free` looks for a node whose attributes
are equal to those of the range.  The nodes have the attributes `0x03` and `0x07`, so a range that was
asked for with others, such as `0x13` for uncached memory, can never be given back.

`free_undoes_alloc_iff` is the exact condition under which a call of `va_free` undoes the call of
`va_alloc` before it.  Besides the attributes it names the ways in which `va_free` fails for any range:
no node with a free child slot is left, the root of the tree is taken for a blank slot (the root is
hung below itself and `UpdateParents` runs in a circle), or there is no memory for a metadata page.
-/

set_option autoImplicit false

namespace Dem64

/-- `va_free` puts the range into the tree it was taken from, and gives it to `vfree`. -/
def Undone (env : Env) (r : VaRet) (s : VaState) : Prop :=
  ∃ s', Settles (fun n => vaFree env n r s) s' ∧
    (∃ a, Relation.ReflTransGen (Child s') (s.root r.attributes) a ∧ (s'.node a).range = r.range) ∧
    s'.freed = (r.base, r.pages) :: s.freed

/-- The search for a blank slot ends at the root of the tree. -/
def StopsAtRoot (s : VaState) (attributes : Nat) : Prop :=
  (s.hd s.vaHeader).unusedEntries ≠ 0 ∧
    if attributes = 0x03 then Reusable s s.vaKstart
    else ¬ Reusable s s.vaKstart ∧ ¬ Reusable s (nodeAt s.vaHeader 1) ∧ Reusable s s.vaUstart

/-- What `va_free` needs. -/
structure CanUndo (env : Env) (r : VaRet) (s : VaState) : Prop where
  /-- The attributes are those of the nodes. -/
  kind : r.attributes = 0x03 ∨ r.attributes = 0x07
  /-- A node has a free child slot. -/
  room : ∃ a ∈ reachable s, (s.node a).hasRoom r.attributes = true
  /-- The root is not taken for a blank slot. -/
  spared : ¬ StopsAtRoot s r.attributes
  /-- There is memory for a new page, if all pages are full. -/
  page : ∀ pg, PageList pg s → (∀ p ∈ pg, (s.hd p).unusedEntries = 0) →
    (s.hd (pg.getLastD 0)).freeEntries = 0 → env.vmalloc s.nextPageAddr 1 0x03 = true

/-! ## `UpdateParents`, once more -/

section

variable {s s' : VaState} {a : Nat}

/-- The links lead up to a root. -/
inductive Climbs (s : VaState) : Nat → Prop
  /-- The end. -/
  | top : Climbs s 0
  /-- One step. -/
  | up {a : Nat} (h : Climbs s (s.node a).parent) : Climbs s a

/-- Only `max_length` was written. -/
structure OnlyMaxes (s s' : VaState) : Prop where
  /-- The nodes. -/
  node : ∀ x, s'.node x = { s.node x with maxLength := (s'.node x).maxLength }
  /-- The rest. -/
  rest : s' = { s with node := s'.node }

theorem OnlyMaxes.refl (s : VaState) : OnlyMaxes s s := ⟨fun _ => rfl, rfl⟩

theorem OnlyMaxes.trans {s'' : VaState} (h : OnlyMaxes s s') (h' : OnlyMaxes s' s'') : OnlyMaxes s s'' := by
  refine ⟨fun x => ?_, ?_⟩
  · rw [h'.node x, h.node x]
  · rw [h'.rest, h.rest]

theorem onlyMaxes_setNode (v : Nat) : OnlyMaxes s (s.setNode a fun e => { e with maxLength := v }) := by
  refine ⟨fun x => ?_, rfl⟩
  by_cases hx : x = a
  · subst hx
    simp [VaState.setNode]
  · simp [VaState.setNode, hx]

/-- `UpdateParents` ends when the links lead up to a root. -/
theorem Climbs.updateParents (h : Climbs s a) : ∀ s₁, OnlyMaxes s s₁ →
    ∃ s', Settles (fun n => updateParents n a s₁) s' ∧ OnlyMaxes s₁ s' := by
  induction h with
  | top => exact fun s₁ _ => ⟨s₁, Settles.of_succ fun n => if_pos rfl, OnlyMaxes.refl s₁⟩
  | @up a h ih =>
    intro s₁ hs₁
    by_cases h0 : a = 0
    · exact ⟨s₁, Settles.of_succ fun n => if_pos h0, OnlyMaxes.refl s₁⟩
    · have hstep := onlyMaxes_setNode (s := s₁) (a := a) (maxOf s₁ a)
      obtain ⟨s', hset, hs'⟩ := ih _ (hs₁.trans hstep)
      refine ⟨s', hset.succ fun n => ?_, hstep.trans hs'⟩
      have hp : (s₁.node a).parent = (s.node a).parent := by rw [hs₁.node a]
      rw [Dem64.updateParents, if_neg h0, hp]

/-- `UpdateParents` runs for ever when they do not. -/
theorem updateParents_diverges {C : Set Nat} (h0 : 0 ∉ C) (hC : ∀ x ∈ C, (s.node x).parent ∈ C) :
    ∀ (n a : Nat) (s₁ : VaState), a ∈ C → OnlyMaxes s s₁ → updateParents n a s₁ = .error .fuel
  | 0, _, _, _, _ => rfl
  | n + 1, a, s₁, ha, hs₁ => by
    have ha0 : a ≠ 0 := fun hc => h0 (hc ▸ ha)
    have hp : (s₁.node a).parent ∈ C := by
      rw [hs₁.node a]
      exact hC a ha
    rw [updateParents, if_neg ha0]
    exact updateParents_diverges h0 hC n _ _ hp (hs₁.trans (onlyMaxes_setNode _))

end

/-! ## A root is taken for a blank slot -/

section

variable {S : Finset Nat} {pg : List Nat} {s s' : VaState} {env : Env} {r : VaRet} {e last : Nat}

/-- The root `e` is filled and hung below `last`. -/
theorem attached_root (h : Tree S s) (he : e ∈ S) (hlen : (s.node e).length = 0)
    (hlast : last ∈ S) (hroom : (s.node last).hasRoom r.attributes = true) :
    e ≠ last ∧ Attached last e (fillNode r e s) (attachNode last e (fillNode r e s)) := by
  obtain ⟨-, hused, hlen'⟩ := VaNode.hasRoom_iff.mp hroom
  have hne : e ≠ last := fun hc => hlen' (hc ▸ hlen)
  have hnode : (fillNode r e s).node last = s.node last := if_neg hne.symm
  refine ⟨hne, attachNode_spec (h.ne_zero last hlast) ?_ (h.ne_zero e he) hne ?_⟩
  · rw [hnode]
    exact h.used last hlast
  · rwa [hnode]

/-- The parents after that. -/
theorem attached_root_parent (hat : Attached last e (fillNode r e s) s') (hne : e ≠ last) :
    (s'.node e).parent = last ∧ ∀ x, x ≠ e → (s'.node x).parent = (s.node x).parent := by
  refine ⟨by rw [hat.child], fun x hx => ?_⟩
  have hnode : (fillNode r e s).node x = s.node x := if_neg hx
  by_cases hxl : x = last
  · subst hxl
    rcases hat.parent with ⟨-, hn⟩ | ⟨-, -, hn⟩ <;> rw [hn, hnode]
  · rw [hat.other x hxl hx, hnode]

/-- A node that is no root has its parent in its own tree. -/
theorem Tree.parent_attr (h : Tree S s) {x : Nat} (hx : x ∈ S) (hk : x ≠ s.vaKstart) (hu : x ≠ s.vaUstart) :
    (s.node x).parent ∈ S ∧ (s.node (s.node x).parent).attributes = (s.node x).attributes := by
  rcases h.parent_cases hx with ⟨hroot | hroot, -⟩ | ⟨hp, hc⟩
  · exact absurd hroot hk
  · exact absurd hroot hu
  · exact ⟨hp, (h.attr _ hp x hc).symm⟩

/-- **The root of the tree itself**: the links run in a circle. -/
theorem reuse_own_root (h : Tree S s) (he : e = s.vaKstart ∨ e = s.vaUstart)
    (hlen : (s.node e).length = 0) (hattr : (s.node e).attributes = r.attributes) (hlast : last ∈ S)
    (hroom : (s.node last).hasRoom r.attributes = true) (page n : Nat) :
    reuseSlot n r last page e s = .error .fuel := by
  have hmem : e ∈ S := by
    rcases he with rfl | rfl
    · exact h.kstart_mem
    · exact h.ustart_mem
  obtain ⟨hne, hat⟩ := attached_root h hmem hlen hlast hroom
  obtain ⟨hpe, hpx⟩ := attached_root_parent hat hne
  obtain ⟨hla, -, -⟩ := VaNode.hasRoom_iff.mp hroom
  have hother : ∀ x ∈ S, (s.node x).attributes = r.attributes → x ≠ e → x ≠ s.vaKstart ∧ x ≠ s.vaUstart := by
    intro x hx hxa hxe
    rcases he with rfl | rfl
    · refine ⟨hxe, ?_⟩
      rintro rfl
      rw [h.uattr, ← hattr, h.kattr] at hxa
      exact absurd hxa (by decide)
    · refine ⟨?_, hxe⟩
      rintro rfl
      rw [h.kattr, ← hattr, h.uattr] at hxa
      exact absurd hxa (by decide)
  -- the nodes of the tree are closed under `Parent` now
  have hloop := updateParents_diverges (s := attachNode last e (fillNode r e s))
    (C := {x | x ∈ S ∧ (s.node x).attributes = r.attributes})
    (fun hc => h.ne_zero 0 hc.1 rfl)
    (by
      rintro x ⟨hx, hxa⟩
      by_cases hxe : x = e
      · rw [hxe, hpe]
        exact ⟨hlast, hla⟩
      · obtain ⟨hk, hu⟩ := hother x hx hxa hxe
        obtain ⟨hp, hpa⟩ := h.parent_attr hx hk hu
        rw [hpx x hxe]
        exact ⟨hp, hpa.trans hxa⟩)
    n e _ ⟨hmem, hattr⟩ (OnlyMaxes.refl _)
  rw [reuseSlot, hloop]
  rfl

/-- **The root of the other tree**: the range is hung where it belongs, whatever becomes of the other
tree. -/
theorem reuse_other_root (h : Tree S s) (he : e = s.vaKstart ∨ e = s.vaUstart)
    (hlen : (s.node e).length = 0) (hattr : (s.node e).attributes ≠ r.attributes) (hlast : last ∈ S)
    (hroom : (s.node last).hasRoom r.attributes = true) (hp : r.pages < 2 ^ 52) (page : Nat) :
    ∃ s', Settles (fun n => reuseSlot n r last page e s) s' ∧
      (∃ a, Relation.ReflTransGen (Child s') (s.root r.attributes) a ∧ (s'.node a).range = r.range) ∧
      s'.freed = (r.base, r.pages) :: s.freed := by
  have hmem : e ∈ S := by
    rcases he with rfl | rfl
    · exact h.kstart_mem
    · exact h.ustart_mem
  obtain ⟨hne, hat⟩ := attached_root h hmem hlen hlast hroom
  obtain ⟨hpe, hpx⟩ := attached_root_parent hat hne
  obtain ⟨hla, -, -⟩ := VaNode.hasRoom_iff.mp hroom
  obtain ⟨s₂, hs₂⟩ : ∃ s₂, s₂ = attachNode last e (fillNode r e s) := ⟨_, rfl⟩
  rw [← hs₂] at hat hpe hpx
  have hclimb : ∀ x ∈ S, (s.node x).attributes = r.attributes → Climbs s₂ x := by
    refine h.forest.induct (fun x hx hxa => ?_) fun x hx y hxy ih hya => ?_
    · have hxe : x ≠ e := fun hc => hattr (hc ▸ hxa)
      refine Climbs.up ?_
      rw [hpx x hxe]
      rcases Finset.mem_insert.mp hx with rfl | hx
      · rw [h.kparent]
        exact Climbs.top
      · rw [Finset.mem_singleton.mp hx, h.uparent]
        exact Climbs.top
    · have hye : y ≠ e := fun hc => hattr (hc ▸ hya)
      refine Climbs.up ?_
      rw [hpx y hye, h.parent x hx y hxy]
      exact ih ((h.attr x hx y hxy).symm.trans hya)
  have hclimb_e : Climbs s₂ e := Climbs.up (hpe.symm ▸ hclimb last hlast hla)
  obtain ⟨s₃, hset, hmax⟩ := hclimb_e.updateParents s₂ (OnlyMaxes.refl s₂)
  have hchild : ∀ x, x ≠ e → ∀ y, Child s₃ x y ↔ Child s x y ∨ (x = last ∧ y = e) := by
    intro x hx y
    have hfill : Child (fillNode r e s) x y ↔ Child s x y := by
      rw [Child, Child, show (fillNode r e s).node x = s.node x from if_neg hx]
    rw [← hfill, ← hat.child_iff (h.ne_zero e hmem) hx, Child, Child, hmax.node x]
  have hpath : ∀ x, Relation.ReflTransGen (Child s) (s.root r.attributes) x →
      (s.node x).attributes = r.attributes → Relation.ReflTransGen (Child s₃) (s.root r.attributes) x := by
    intro x hx
    induction hx with
    | refl => exact fun _ => Relation.ReflTransGen.refl
    | @tail y z hy hyz ih =>
      intro hza
      have hroot : s.root r.attributes ∈ S := by
        rw [VaState.root]
        split
        · exact h.ustart_mem
        · exact h.kstart_mem
      have hyS := (h.attr_of_path hroot hy).1
      have hya : (s.node y).attributes = r.attributes := (h.attr y hyS z hyz).symm.trans hza
      have hye : y ≠ e := fun hc => hattr (hc ▸ hya)
      exact (ih hya).tail ((hchild y hye z).mpr (Or.inl hyz))
  have hlpath := hpath last (hla ▸ h.path_of_root hlast) hla
  obtain ⟨s₄, hs₄⟩ : ∃ s₄, s₄ = vfreeRange r { s₃.setHd page (fun h =>
      { h with unusedEntries := subU64 h.unusedEntries 1, freeEntries := subU64 h.freeEntries 1 }) with
        vaEntries := s₃.vaEntries + 1 } := ⟨_, rfl⟩
  have hnode₄ : s₄.node = s₃.node := by rw [hs₄]; rfl
  have hfreed₄ : s₄.freed = (r.base, r.pages) :: s₃.freed := by rw [hs₄]; rfl
  have hchild₄ : Child s₄ = Child s₃ := by
    funext x y
    rw [Child, Child, hnode₄]
  refine ⟨s₄, Settles.congr (hset.bind ((Settles.const s₄).congr fun n => by rw [hs₄]))
    fun n => by rw [reuseSlot, hs₂]; rfl, ⟨e, ?_, ?_⟩, ?_⟩
  · rw [hchild₄]
    exact hlpath.tail ((hchild last hne.symm e).mpr (Or.inr ⟨rfl, rfl⟩))
  · have hnode : (fillNode r e s).node e = { s.node e with
        virtualBase := r.base, attributes := r.attributes, length := (r.pages <<< 12) % 2 ^ 64 } := if_pos rfl
    rw [hnode₄, hmax.node e, hat.child, hnode, VaNode.range, VaRet.range, shiftLeft_pages hp]
  · rw [hfreed₄, hmax.rest, hat.rest]
    rfl

end

/-! ## The condition is exact -/

section

variable {S : Finset Nat} {pg pg' : List Nat} {s s' : VaState} {env : Env} {r : VaRet} {e last : Nat}

theorem PageList.unique (h : PageList pg s) (h' : PageList pg' s) : pg = pg' :=
  h.linked.unique h'.linked (fun x hx => Nat.pos_iff_ne_zero.mp (h.page x hx).1)
    (fun x hx => Nat.pos_iff_ne_zero.mp (h'.page x hx).1) (h.headD.trans h'.headD.symm)

theorem VaShape.carved_header (h : VaShape S pg s) : 2 < s.carved s.vaHeader := by
  have hal := (h.pages.page _ h.header_mem).2.1
  obtain ⟨hmem, i, hi, heq⟩ := h.slots.findHd_mem h.pages h.tree.ustart_mem
  rw [h.ustart, findHd_nodeAt hal (by decide)] at hmem hi heq
  have hle := h.slots.carved_le hmem
  have := (nodeAt_inj hal hal (by decide) (by omega) heq).2
  omega

/-- When the search ends at the root of the tree. -/
theorem VaShape.stopsAtRoot_iff (h : VaShape S pg s) {o : Option (Nat × Nat)}
    (hfound : Found (fun x => x.unusedEntries != 0) VaNode.reusable s pg o) {t : Nat}
    (ht : t = 0x03 ∨ t = 0x07) : StopsAtRoot s t ↔ ∃ page, o = some (page, s.root t) := by
  have hcarved := h.carved_header
  have hfirst : (s.hd s.vaHeader).unusedEntries ≠ 0 → ∀ i, i ≤ 2 → Reusable s (nodeAt s.vaHeader i) →
      (∀ j, j < i → ¬ Reusable s (nodeAt s.vaHeader j)) → o = some (s.vaHeader, nodeAt s.vaHeader i) := by
    intro hu i hi hr hbefore
    cases hfound with
    | none hno =>
      have := hno _ h.header_mem (by simpa using hu) i (by omega)
      rw [Reusable, this] at hr
      exact absurd hr (by simp)
    | @some l₁ l₂ x j hl hq hj hreuse hpages hslots =>
      have hhead := h.pages.head
      cases l₁ with
      | cons y l₁ =>
        obtain rfl : y = s.vaHeader := by simpa [hl] using hhead
        have := hpages _ List.mem_cons_self (by simpa using hu) i (by omega)
        rw [Reusable, this] at hr
        exact absurd hr (by simp)
      | nil =>
        obtain rfl : x = s.vaHeader := by simpa [hl] using hhead
        rcases Nat.lt_trichotomy i j with hij | rfl | hij
        · have := hslots i hij
          rw [Reusable, this] at hr
          exact absurd hr (by simp)
        · rfl
        · exact absurd hreuse (hbefore j hij)
  rcases ht with rfl | rfl
  · rw [StopsAtRoot, if_pos rfl]
    show _ ↔ ∃ page, o = some (page, s.vaKstart)
    constructor
    · rintro ⟨hu, hr⟩
      rw [h.kstart] at hr ⊢
      exact ⟨_, hfirst hu 0 (by omega) hr fun j hj => absurd hj (by omega)⟩
    · rintro ⟨page, rfl⟩
      generalize hx : s.vaKstart = x at hfound ⊢
      cases hfound with
      | @some l₁ l₂ page i hl hq hi hreuse hpages hslots =>
        obtain ⟨rfl, -⟩ := h.page_of_root (by rw [hl]; simp) hi (Or.inl hx.symm)
        exact ⟨by simpa using hq, hreuse⟩
  · rw [StopsAtRoot, if_neg (by decide)]
    show _ ↔ ∃ page, o = some (page, s.vaUstart)
    constructor
    · rintro ⟨hu, hk, h1, hr⟩
      rw [h.kstart] at hk
      rw [h.ustart] at hr ⊢
      refine ⟨_, hfirst hu 2 (by omega) hr fun j hj => ?_⟩
      obtain rfl | rfl : j = 0 ∨ j = 1 := by omega
      · exact hk
      · exact h1
    · rintro ⟨page, rfl⟩
      generalize hx : s.vaUstart = x at hfound ⊢
      cases hfound with
      | @some l₁ l₂ page i hl hq hi hreuse hpages hslots =>
        obtain ⟨rfl, hcase⟩ := h.page_of_root (by rw [hl]; simp) hi (Or.inr hx.symm)
        rcases hcase with ⟨-, hk⟩ | ⟨rfl, -⟩
        · exact absurd (hk.symm.trans hx.symm) h.tree.roots
        · refine ⟨by simpa using hq, ?_, ?_, hreuse⟩
          · rw [h.kstart, Reusable, hslots 0 (by decide)]
            simp
          · rw [Reusable, hslots 1 (by decide)]
            simp

/-- A node with the range is below the root. -/
theorem Returned.undone {a : Nat} (hret : Returned S a r s s') (ht : Tree (insert a S) s')
    (hp : r.pages < 2 ^ 52) :
    ∃ a, Relation.ReflTransGen (Child s') (s.root r.attributes) a ∧ (s'.node a).range = r.range := by
  have hroot : s'.root r.attributes = s.root r.attributes := by
    rw [VaState.root, VaState.root, hret.kstart, hret.ustart]
  have hpath := ht.path_of_root (Finset.mem_insert_self a S)
  rw [hret.attr, hroot] at hpath
  refine ⟨a, hpath, ?_⟩
  rw [VaNode.range, VaRet.range, hret.base, hret.length, shiftLeft_pages hp]

/-- The range goes into a new slot, if there is memory for one. -/
theorem VaShape.carve_undone_iff (h : VaShape S pg s) (hun : ∀ p ∈ pg, (s.hd p).unusedEntries = 0)
    (hlast : last ∈ S) (hroom : (s.node last).hasRoom r.attributes = true) (hp : r.pages < 2 ^ 52)
    (htop : s.vaTop + 4096 < 2 ^ 64) :
    (∃ s', Settles (fun n => carveSlot env n r last s) s' ∧
      (∃ a, Relation.ReflTransGen (Child s') (s.root r.attributes) a ∧ (s'.node a).range = r.range) ∧
      s'.freed = (r.base, r.pages) :: s.freed) ↔
    ((s.hd (pg.getLastD 0)).freeEntries = 0 → env.vmalloc s.nextPageAddr 1 0x03 = true) := by
  obtain ⟨hattr, hused, -⟩ := VaNode.hasRoom_iff.mp hroom
  constructor
  · rintro ⟨s', hset, -⟩ hfree
    by_contra hvm
    have hnull := findNewEntry_null .noParent 0 (h.fullFrom hun hfree)
      (show env.vmalloc s.nextPageAddr 1 0x03 = false by simpa using hvm)
    exact Settles.not_of_error (fun n => ⟨Fault.null, rfl⟩) (hnull.bind_iff.mp hset)
  · intro hcan
    obtain ⟨x, c, pg', s', hset, hshape, hret, hfreed, -⟩ :=
      h.carve hun (CanCarve.ready (fun hf => ⟨htop, hcan hf⟩) h.pages) hlast hused hattr
    exact ⟨s', hset, hret.undone hshape.tree hp, hfreed⟩

/-- **The condition is exact**, from an allocator in order. -/
theorem VaShape.undone_iff (h : VaShape S pg s) (hstatus : r.status = 0) (hp0 : r.pages ≠ 0)
    (hp : r.pages < 2 ^ 52) (htop : s.vaTop + 4096 < 2 ^ 64) : Undone env r s ↔ CanUndo env r s := by
  obtain ⟨o, hlast, ho⟩ := findLast_spec h r.attributes
  have hcall : ∀ s', Settles (fun n => vaFree env n r s) s' ↔ Settles (freeBelow env r s o) s' := by
    intro s'
    rw [← hlast.bind_iff]
    exact ⟨fun hs => hs.congr fun n => (vaFree_eq hstatus hp0 n).symm,
      fun hs => hs.congr fun n => vaFree_eq hstatus hp0 n⟩
  rw [Undone]
  simp only [hcall]
  rcases ho with ⟨rfl, hno⟩ | ⟨page, last, rfl, hmem, hroom⟩
  · -- no node to hang the range under: the call does nothing
    constructor
    · rintro ⟨s', hset, -, hfreed⟩
      obtain rfl := hset.unique (Settles.const s)
      exact absurd hfreed.symm (List.cons_ne_self _ _)
    · intro hc
      obtain ⟨a, ha, hr⟩ := hc.room
      rw [h.tree.reachable_eq] at ha
      exact absurd ⟨a, ha, hr⟩ hno
  have hkind : r.attributes = 0x03 ∨ r.attributes = 0x07 := by
    rw [← (VaNode.hasRoom_iff.mp hroom).1]
    exact h.tree.attr_cases last hmem
  have hroom' : ∃ a ∈ reachable s, (s.node a).hasRoom r.attributes = true := by
    rw [h.tree.reachable_eq]
    exact ⟨last, hmem, hroom⟩
  -- in the two branches that carve, the condition is the one on memory
  have hcarve : (∀ p ∈ pg, (s.hd p).unusedEntries = 0) → ¬ StopsAtRoot s r.attributes →
      ((∃ s', Settles (fun n => carveSlot env n r last s) s' ∧
        (∃ a, Relation.ReflTransGen (Child s') (s.root r.attributes) a ∧ (s'.node a).range = r.range) ∧
        s'.freed = (r.base, r.pages) :: s.freed) ↔ CanUndo env r s) := by
    intro hun hspared
    rw [h.carve_undone_iff hun hmem hroom hp htop]
    refine ⟨fun hcan => ⟨hkind, hroom', hspared, fun pg' hpg' _ => ?_⟩, fun hc => hc.page pg h.pages hun⟩
    rwa [h.pages.unique hpg'] at hcan
  by_cases hone : s.vaMetadataPages = 0 ∧ (s.hd s.vaHeader).unusedEntries = 0
  · have hbranch : freeBelow env r s (some (page, last)) = fun n => carveSlot env n r last s := by
      funext n
      exact if_pos hone
    rw [hbranch]
    exact hcarve (h.unused_of_one_page hone) fun hstop => hstop.1 hone.2
  obtain ⟨o, hset₁, hfound⟩ := findUnused_spec h
  have hbranch : ∀ s', Settles (freeBelow env r s (some (page, last))) s' ↔
      Settles (fun n => o.elim (carveSlot env n r last s) fun x => reuseSlot n r last x.1 x.2 s) s' := by
    intro s'
    have hiff := hset₁.bind_iff (r := s')
      (g := fun o n => o.elim (carveSlot env n r last s) fun x => reuseSlot n r last x.1 x.2 s)
    have hbelow : ∀ n, freeBelow env r s (some (page, last)) n = (findUnused s n s.vaHeader >>= fun o =>
        o.elim (carveSlot env n r last s) fun x => reuseSlot n r last x.1 x.2 s) := by
      intro n
      rw [freeBelow, if_neg hone]
      congr 1
      funext o
      cases o
      · rfl
      · rfl
    rw [← hiff]
    exact ⟨fun hs => hs.congr fun n => (hbelow n).symm, fun hs => hs.congr hbelow⟩
  simp only [hbranch]
  have hstops := h.stopsAtRoot_iff hfound hkind
  cases hfound with
  | none hno =>
    refine hcarve (h.unused_eq_zero hno) fun hstop => ?_
    obtain ⟨page, hc⟩ := hstops.mp hstop
    exact absurd hc (by simp)
  | @some l₁ l₂ x i hl hq hi hreuse hpages hslots =>
    have hx : x ∈ pg := by rw [hl]; simp
    have hunused : (s.hd x).unusedEntries ≠ 0 := by simpa using hq
    have hpage : ∀ pg', PageList pg' s → (∀ p ∈ pg', (s.hd p).unusedEntries = 0) →
        (s.hd (pg'.getLastD 0)).freeEntries = 0 → env.vmalloc s.nextPageAddr 1 0x03 = true := by
      intro pg' hpg' hun
      rw [← h.pages.unique hpg'] at hun
      exact absurd (hun x hx) hunused
    by_cases hnot : nodeAt x i ∈ S
    · -- the slot is a root
      have hroot := h.root_of_reusable hnot hreuse
      have hlen := (VaNode.reusable_iff.mp hreuse).1
      by_cases hattr : (s.node (nodeAt x i)).attributes = r.attributes
      · have hself : nodeAt x i = s.root r.attributes := by
          refine h.root_eq hroot ?_
          rw [hattr, kindOf_eq hkind]
        constructor
        · rintro ⟨s', hset, -⟩
          refine absurd hset (Settles.not_of_error fun n => ⟨Fault.fuel, ?_⟩)
          exact reuse_own_root h.tree hroot hlen hattr hmem hroom x n
        · intro hc
          exact absurd (hstops.mpr ⟨x, by rw [hself]⟩) hc.spared
      · refine ⟨fun _ => ⟨hkind, hroom', fun hstop => ?_, hpage⟩, fun _ => ?_⟩
        · obtain ⟨page', hc⟩ := hstops.mp hstop
          simp only [Option.some.injEq, Prod.mk.injEq] at hc
          rw [hc.2, h.root_attr, kindOf_eq hkind] at hattr
          exact hattr rfl
        · exact reuse_other_root h.tree hroot hlen hattr hmem hroom hp x
    · obtain ⟨hattr, hused, -⟩ := VaNode.hasRoom_iff.mp hroom
      obtain ⟨s', hset, hshape, hret, hfreed, -⟩ := h.reuse hx hi hnot hunused hmem hused hattr
      refine ⟨fun _ => ⟨hkind, hroom', fun hstop => ?_, hpage⟩,
        fun _ => ⟨s', hset, hret.undone hshape.tree hp, hfreed⟩⟩
      obtain ⟨page', hc⟩ := hstops.mp hstop
      simp only [Option.some.injEq, Prod.mk.injEq] at hc
      exact hnot (hc.2 ▸ h.root_mem)

/-- The tree of a root without children has no other node. -/
theorem VaShape.eq_root (h : VaShape S pg s) {attributes x : Nat}
    (hused : (s.node (s.root attributes)).usedNodes = 0) (hx : x ∈ S)
    (hattr : (s.node x).attributes = attributes) : x = s.root attributes := by
  have hpath := h.tree.path_of_root hx
  rw [hattr] at hpath
  rcases Relation.ReflTransGen.cases_head hpath with heq | ⟨y, ⟨h0, hy⟩, -⟩
  · exact heq.symm
  · obtain ⟨hl, hr⟩ := h.tree.links_of_used h.root_mem hused
    rw [hl, hr] at hy
    rcases hy with rfl | rfl <;> exact absurd rfl h0

/-- `find_last` finds nothing when no node is left, whatever the counters say. -/
theorem findLast_none {attributes : Nat} (h : VaShape S pg s) (hno : ¬ HasRoom S s attributes) (e : Nat) :
    Settles (fun n => findLast (uncount e s) n attributes s.vaHeader) none := by
  have hdll : Dll (fun p => ((uncount e s).hd p).nextPage) (fun p => ((uncount e s).hd p).formerPage) 0 pg 0 := by
    refine h.pages.linked.congr (fun y _ => ?_) fun y _ => ?_
    all_goals
      simp only [uncount, VaState.setHd]
      split <;> simp [*]
  have hcarved : ∀ p, (uncount e s).carved p ≤ s.carved p := by
    intro p
    simp only [VaState.carved, uncount, VaState.setHd]
    split
    · rename_i hp
      subst hp
      dsimp only
      omega
    · exact le_refl _
  obtain ⟨o, hset, hfound⟩ := scanPages_settles (p := VaNode.hasRoom attributes) (fun _ => true) hdll
    fun x hx => (h.pages.page x hx).1
  rw [h.pages.headD] at hset
  cases hfound with
  | none _ => exact hset
  | @some l₁ l₂ x i hl _ hi hroom _ _ =>
    exfalso
    have hroom' : (s.node (nodeAt x i)).hasRoom attributes = true := hroom
    by_cases hmem : nodeAt x i ∈ S
    · exact hno ⟨_, hmem, hroom'⟩
    · have hb := h.slots.blank x (by rw [hl]; simp) i (hi.trans_le (hcarved x)) hmem
      exact (VaNode.hasRoom_iff.mp hroom').2.2 hb.length

/-- A root that was used up leaves no node to hang a range under. -/
theorem spent_not_undone {s₁ : VaState} {pages attributes : Nat} (h : VaShape S pg s)
    (hbad : ¬ SparesRoot s pages attributes) (hshape : VaShape S pg' s₁)
    (hcons : Consumed S S (s.root attributes) (4096 * pages) s s₁) (hp0 : pages ≠ 0) :
    ¬ Undone env (granted s (s.root attributes) pages attributes) (uncount (s.root attributes) s₁) ∧
      ¬ CanUndo env (granted s (s.root attributes) pages attributes) (uncount (s.root attributes) s₁) := by
  obtain ⟨hlen, hused⟩ : (s.node (s.root attributes)).length = 4096 * pages ∧
      (s.node (s.root attributes)).usedNodes = 0 := by
    rw [SparesRoot] at hbad
    push Not at hbad
    exact hbad
  have hno : ¬ HasRoom S s₁ attributes := by
    rintro ⟨x, hx, hroom⟩
    obtain ⟨hxa, -, hxl⟩ := VaNode.hasRoom_iff.mp hroom
    have hxa' : (s.node x).attributes = attributes := by
      by_cases hxe : x = s.root attributes
      · rw [hxe, ← hcons.attr, ← hxe, hxa]
      · rw [← (hcons.other x hxe).2.2, hxa]
    rw [h.eq_root hused hx hxa', hcons.length, hlen, Nat.sub_self] at hxl
    exact hxl rfl
  constructor
  · rintro ⟨s', hset, -, hfreed⟩
    have hnone := findLast_none hshape hno (s.root attributes)
    have hsame : Settles (fun n => vaFree env n (granted s (s.root attributes) pages attributes)
        (uncount (s.root attributes) s₁)) (uncount (s.root attributes) s₁) :=
      (hnone.bind (Settles.const _)).congr fun n => vaFree_eq rfl hp0 n
    obtain rfl := hset.unique hsame
    exact absurd hfreed.symm (List.cons_ne_self _ _)
  · intro hc
    obtain ⟨a, ha, hroom⟩ := hc.room
    have hreach : reachable (uncount (s.root attributes) s₁) = reachable s₁ := rfl
    rw [hreach, hshape.tree.reachable_eq] at ha
    exact hno ⟨a, ha, hroom⟩

end

/-- A request that `vmalloc` refuses is refused. -/
theorem vaAlloc_refused {kernelEnd n pages attributes : Nat} {s s' : VaState} {env : Env} {r : VaRet}
    (hno : ∀ a, env.vmalloc a pages attributes = false)
    (hcall : vaAlloc kernelEnd env n pages attributes s = .ok (r, s')) : r.status = 1 := by
  have hstatus : ∀ {x : VaState}, (Except.ok ({ status := 1 }, x) : Except Fault _) = .ok (r, s') →
      r.status = 1 := by
    intro x hx
    obtain ⟨rfl, -⟩ := Prod.mk.inj (Except.ok.inj hx)
    rfl
  rw [vaAlloc] at hcall
  split at hcall
  · exact hstatus hcall
  · split at hcall
    · exact hstatus hcall
    · obtain ⟨s₁, -, hcall⟩ := bind_eq_ok_iff.mp hcall
      rw [takeRange] at hcall
      obtain ⟨entry, -, hcall⟩ := bind_eq_ok_iff.mp hcall
      dsimp only at hcall
      split at hcall
      · exact hstatus hcall
      · rw [if_neg (by rw [hno]; exact Bool.false_ne_true)] at hcall
        exact hstatus hcall

/-- **`va_free` undoes `va_alloc` exactly when it can.**  The allocator is in order or not yet set up,
`vmalloc` refuses requests for more pages than there are addresses, and `va_alloc(pages, attributes)`
succeeds, with metadata pages still available behind `va_top`.  Then `va_free` of the result puts the
range back into its tree and gives it to `vfree` if and only if `CanUndo` holds; in particular the
attributes must be `0x03` or `0x07`. -/
theorem free_undoes_alloc_iff {kernelEnd : Nat} (hk : KernelEnds kernelEnd) {s s' : VaState}
    (h : Cold s ∨ ∃ S pg, VaShape S pg s ∧ ∀ x ∈ S, (s.node x).length < 2 ^ 64) {env : Env}
    (hbig : ∀ a p t, 2 ^ 52 ≤ p → env.vmalloc a p t = false) {n pages attributes : Nat} {r : VaRet}
    (hcall : vaAlloc kernelEnd env n pages attributes s = .ok (r, s')) (hok : r.status = 0)
    (htop : s'.vaTop + 4096 < 2 ^ 64) (env' : Env) : Undone env' r s' ↔ CanUndo env' r s' := by
  have hp : pages < 2 ^ 52 := by
    by_contra hp
    rw [vaAlloc_refused (fun a => hbig a pages attributes (not_lt.mp hp)) hcall] at hok
    exact absurd hok (by decide)
  obtain ⟨x, hset, hres⟩ := vaAlloc_cases
    (P := fun S s => ∀ x ∈ S, (s.node x).length < 2 ^ 64) hk env attributes hp h (fun _ _ hx => hx)
    fun _ s₁ hinit => (hinit.tiles hk).lt
  obtain rfl := hset.unique ((fueled_vaAlloc kernelEnd pages attributes s).settles hcall)
  rcases hres with heq | ⟨S, pg, s₁, hshape, hlt, hpos, -, hres⟩
  · obtain ⟨rfl, -⟩ := Prod.mk.inj heq
    exact absurd hok (by decide)
  · have hres' : AllocResult env S pages attributes s₁ r s' := hres
    cases hres' with
    | refused _ => exact absurd hok (by decide)
    | taken he hattr hle hshape' hcons => exact hshape'.undone_iff rfl hpos.ne' hp htop
    | spent hbad hshape' hcons =>
      obtain ⟨h1, h2⟩ := spent_not_undone hshape hbad hshape' hcons hpos.ne'
      exact ⟨fun hu => absurd hu h1, fun hc => absurd hc h2⟩

/-- `vmalloc` on a machine with memory for everything that has an address. -/
def ample : Env := ⟨fun _ pages _ => decide (pages < 2 ^ 52), fun _ => default⟩

/-- Three pages of user space can be given back right away. -/
theorem free_undoes_alloc_three : ∃ r s', vaAlloc 0xffff800000100000 ample 20 3 7 coldState = .ok (r, s') ∧
    Undone ample r s' := by
  obtain ⟨⟨r, s'⟩, hcall, hend⟩ := exists_of_passes
    (p := fun x : VaRet × VaState => decide (x.1.status = 0 ∧ x.1.attributes = 0x07 ∧
      x.2.vaTop + 4096 < 2 ^ 64 ∧ (x.2.node x.2.vaUstart).hasRoom 0x07 = true ∧
      (x.2.hd x.2.vaHeader).unusedEntries = 0))
    (show passes _ (vaAlloc 0xffff800000100000 ample 20 3 7 coldState) = true by decide +kernel)
  obtain ⟨hok, hattr, htop, hroom, hunused⟩ := of_decide_eq_true hend
  refine ⟨r, s', hcall, (free_undoes_alloc_iff ⟨by decide, by decide⟩ (Or.inl cold_coldState)
    (fun a p t hp => decide_eq_false (not_lt.mpr hp)) hcall hok htop ample).mpr ⟨?_, ?_, ?_, ?_⟩⟩
  · exact Or.inr hattr
  · rw [hattr]
    exact ⟨s'.vaUstart, Or.inr Relation.ReflTransGen.refl, hroom⟩
  · exact fun hstop => hstop.1 hunused
  · exact fun _ _ _ _ => rfl

/-- **Uncached kernel memory cannot be given back.**  `va_alloc(1, 0x13)` succeeds, and `va_free` of the
result does nothing. -/
theorem uncached_not_undone : ¬ ∀ (kernelEnd n pages attributes : Nat) (s s' : VaState) (env env' : Env)
    (r : VaRet), KernelEnds kernelEnd → Cold s → (∀ a p t, 2 ^ 52 ≤ p → env.vmalloc a p t = false) →
    attributes < 2 ^ 16 → vaAlloc kernelEnd env n pages attributes s = .ok (r, s') → r.status = 0 →
    Undone env' r s' := by
  intro hclaim
  obtain ⟨⟨r, s'⟩, hcall, hend⟩ := exists_of_passes
    (p := fun x : VaRet × VaState => decide (x.1.status = 0) &&
      passes (fun s => s.freed.isEmpty) (vaFree ample 20 x.1 x.2))
    (show passes _ (vaAlloc 0xffff800000100000 ample 20 1 0x13 coldState) = true by decide +kernel)
  rw [Bool.and_eq_true, decide_eq_true_iff] at hend
  obtain ⟨s'', hset, -, hfreed⟩ := hclaim 0xffff800000100000 20 1 0x13 coldState s' ample ample r
    ⟨by decide, by decide⟩ cold_coldState (fun a p t hp => decide_eq_false (not_lt.mpr hp)) (by decide)
    hcall hend.1
  obtain ⟨s₁, hfree, hempty⟩ := exists_of_passes hend.2
  obtain rfl := hset.unique ((fueled_vaFree r s').settles hfree)
  rw [hfreed] at hempty
  exact absurd hempty (by simp)

end Dem64
