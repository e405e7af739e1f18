import Dem64.VaAlloc.Pages
import Dem64.Lib.Forest

/-!
# The trees of free ranges

The nodes hang below `va_kstart` and `va_ustart`; `Tree S s` says that the nodes `S` form the two trees
(a `Forest` in the links `va_left` and `va_right`), that `Parent` is the way back, that `UsedNodes`
tells which children there are, and that the attributes are the same all over a tree.

`MaxOk` is the other half: `max_length` is the longest range of the subtree.  `UpdateParents` repairs it
along the way to the root (`updateParents_spec`), and `find_fit` ends with a node of the tree it was
given the root of (`findFit_spec`).
-/

set_option autoImplicit false

namespace Dem64

/-- `b` is a child of `a`. -/
def Child (s : VaState) (a b : Nat) : Prop :=
  b ≠ 0 ∧ ((s.node a).vaLeft = b ∨ (s.node a).vaRight = b)

/-- `UsedNodes`, as the links say it should be. -/
def usedBits (e : VaNode) : Nat :=
  (if e.vaRight = 0 then 0 else 1) + if e.vaLeft = 0 then 0 else 2

/-- The nodes `S` form the two trees. -/
structure Tree (S : Finset Nat) (s : VaState) : Prop where
  /-- No node is at address 0. -/
  ne_zero : ∀ a ∈ S, a ≠ 0
  /-- The links. -/
  forest : Forest S {s.vaKstart, s.vaUstart} (Child s)
  /-- There are two trees. -/
  roots : s.vaKstart ≠ s.vaUstart
  /-- `Parent` leads back. -/
  parent : ∀ a ∈ S, ∀ b, Child s a b → (s.node b).parent = a
  kparent : (s.node s.vaKstart).parent = 0
  uparent : (s.node s.vaUstart).parent = 0
  /-- The two children are different. -/
  distinct : ∀ a ∈ S, (s.node a).vaLeft = (s.node a).vaRight → (s.node a).vaLeft = 0
  /-- `UsedNodes` tells which children there are. -/
  used : ∀ a ∈ S, (s.node a).usedNodes = usedBits (s.node a)
  /-- The attributes tell the two trees apart. -/
  attr : ∀ a ∈ S, ∀ b, Child s a b → (s.node b).attributes = (s.node a).attributes
  kattr : (s.node s.vaKstart).attributes = 0x03
  uattr : (s.node s.vaUstart).attributes = 0x07

/-- `max_length` is right at the nodes outside `E`. -/
def MaxExcept (E : Set Nat) (S : Finset Nat) (s : VaState) : Prop :=
  ∀ a ∈ S, a ∉ E → (s.node a).maxLength = maxOf s a

/-- The links of the nodes are the same in both states. -/
structure SameLinks (S : Finset Nat) (s s' : VaState) : Prop where
  /-- The nodes, their ranges aside. -/
  left : ∀ a ∈ S, (s'.node a).vaLeft = (s.node a).vaLeft
  right : ∀ a ∈ S, (s'.node a).vaRight = (s.node a).vaRight
  parent : ∀ a ∈ S, (s'.node a).parent = (s.node a).parent
  used : ∀ a ∈ S, (s'.node a).usedNodes = (s.node a).usedNodes
  attr : ∀ a ∈ S, (s'.node a).attributes = (s.node a).attributes
  /-- The roots. -/
  kstart : s'.vaKstart = s.vaKstart
  ustart : s'.vaUstart = s.vaUstart

section

variable {S : Finset Nat} {s s' s'' : VaState} {a b : Nat}

theorem SameLinks.child_iff (h : SameLinks S s s') (ha : a ∈ S) : Child s' a b ↔ Child s a b := by
  rw [Child, Child, h.left a ha, h.right a ha]

theorem Tree.kstart_mem (h : Tree S s) : s.vaKstart ∈ S := h.forest.roots (by simp)

theorem Tree.ustart_mem (h : Tree S s) : s.vaUstart ∈ S := h.forest.roots (by simp)

/-- Ranges do not matter. -/
theorem Tree.congr (h : Tree S s) (hs : SameLinks S s s') : Tree S s' := by
  have hchild : ∀ a ∈ S, ∀ b, Child s' a b ↔ Child s a b := fun a ha b => hs.child_iff ha
  refine ⟨h.ne_zero, ?_, ?_, ?_, ?_, ?_, ?_, ?_, ?_, ?_, ?_⟩
  · rw [hs.kstart, hs.ustart]
    exact h.forest.congr hchild
  · rw [hs.kstart, hs.ustart]
    exact h.roots
  · intro a ha b hab
    have hab' := (hchild a ha b).mp hab
    rw [hs.parent b (h.forest.closed a ha b hab')]
    exact h.parent a ha b hab'
  · rw [hs.kstart, hs.parent _ h.kstart_mem]
    exact h.kparent
  · rw [hs.ustart, hs.parent _ h.ustart_mem]
    exact h.uparent
  · intro a ha
    rw [hs.left a ha, hs.right a ha]
    exact h.distinct a ha
  · intro a ha
    rw [hs.used a ha, h.used a ha, usedBits, usedBits, hs.left a ha, hs.right a ha]
  · intro a ha b hab
    have hab' := (hchild a ha b).mp hab
    rw [hs.attr a ha, hs.attr b (h.forest.closed a ha b hab')]
    exact h.attr a ha b hab'
  · rw [hs.kstart, hs.attr _ h.kstart_mem]
    exact h.kattr
  · rw [hs.ustart, hs.attr _ h.ustart_mem]
    exact h.uattr

/-- A node is a root or hangs under its `Parent`. -/
theorem Tree.parent_cases (h : Tree S s) (ha : a ∈ S) :
    ((a = s.vaKstart ∨ a = s.vaUstart) ∧ (s.node a).parent = 0) ∨
      ((s.node a).parent ∈ S ∧ Child s (s.node a).parent a) := by
  by_cases hr : a ∈ ({s.vaKstart, s.vaUstart} : Finset Nat)
  · left
    rcases Finset.mem_insert.mp hr with rfl | hr
    · exact ⟨Or.inl rfl, h.kparent⟩
    · rw [Finset.mem_singleton.mp hr]
      exact ⟨Or.inr rfl, h.uparent⟩
  · obtain ⟨p, hp, hpa⟩ := h.forest.parent a ha hr
    rw [h.parent p hp a hpa]
    exact Or.inr ⟨hp, hpa⟩

theorem Tree.not_child_self (h : Tree S s) (ha : a ∈ S) : ¬ Child s a a :=
  fun hc => h.forest.acyclic ha (Relation.TransGen.single hc)

/-! ## `UpdateParents` -/

theorem maxOf_congr (hlen : (s'.node a).length = (s.node a).length)
    (hleft : (s'.node a).vaLeft = (s.node a).vaLeft)
    (hright : (s'.node a).vaRight = (s.node a).vaRight)
    (hchild : ∀ b, Child s a b → (s'.node b).maxLength = (s.node b).maxLength) :
    maxOf s' a = maxOf s a := by
  have hl : (s.node a).vaLeft ≠ 0 →
      (s'.node (s.node a).vaLeft).maxLength = (s.node (s.node a).vaLeft).maxLength :=
    fun h0 => hchild _ ⟨h0, Or.inl rfl⟩
  have hr : (s.node a).vaRight ≠ 0 →
      (s'.node (s.node a).vaRight).maxLength = (s.node (s.node a).vaRight).maxLength :=
    fun h0 => hchild _ ⟨h0, Or.inr rfl⟩
  simp only [maxOf, hlen, hleft, hright]
  by_cases h1 : (s.node a).vaLeft = 0 <;> by_cases h2 : (s.node a).vaRight = 0 <;>
    simp_all

/-- Only `max_length` of nodes of `S` was written. -/
structure OnlyMax (S : Finset Nat) (s s' : VaState) : Prop where
  /-- The nodes. -/
  node : ∀ x, s'.node x = { s.node x with maxLength := (s'.node x).maxLength }
  other : ∀ x, x ∉ S → s'.node x = s.node x
  /-- The rest. -/
  rest : s' = { s with node := s'.node }

theorem OnlyMax.sameLinks (h : OnlyMax S s s') : SameLinks S s s' := by
  refine ⟨?_, ?_, ?_, ?_, ?_, ?_, ?_⟩
  any_goals
    intro a _
    rw [h.node a]
  · rw [h.rest]
  · rw [h.rest]

theorem OnlyMax.refl (S : Finset Nat) (s : VaState) : OnlyMax S s s :=
  ⟨fun _ => rfl, fun _ _ => rfl, rfl⟩

theorem OnlyMax.trans (h : OnlyMax S s s') (h' : OnlyMax S s' s'') : OnlyMax S s s'' := by
  refine ⟨fun x => ?_, fun x hx => (h'.other x hx).trans (h.other x hx), ?_⟩
  · rw [h'.node x, h.node x]
  · rw [h'.rest, h.rest]

theorem onlyMax_setNode (ha : a ∈ S) (v : Nat) :
    OnlyMax S s (s.setNode a fun e => { e with maxLength := v }) := by
  refine ⟨fun x => ?_, fun x hx => ?_, rfl⟩
  · show (if x = a then _ else _) = _
    split
    · rename_i hxa
      subst hxa
      simp [VaState.setNode]
    · rename_i hxa
      simp [VaState.setNode, hxa]
  · exact if_neg (show ¬ x = a from fun hxa => hx (hxa ▸ ha))

/-- **`UpdateParents` repairs `max_length`** at the node it is given, at its parent and all the way up,
and ends. -/
theorem updateParents_spec (ht : Tree S s) : ∀ a ∈ S, ∀ s₁, OnlyMax S s s₁ →
    MaxExcept {a, (s.node a).parent} S s₁ →
    ∃ s', Settles (fun n => updateParents n a s₁) s' ∧ OnlyMax S s₁ s' ∧ MaxExcept ∅ S s' := by
  -- one node: the equations that can break are those of the node and of its parent
  have hstep : ∀ a ∈ S, ∀ s₁, OnlyMax S s s₁ → MaxExcept {a, (s.node a).parent} S s₁ →
      MaxExcept {(s.node a).parent} S
        (s₁.setNode a fun e => { e with maxLength := maxOf s₁ a }) := by
    intro a ha s₁ h₁ hmax x hx hxp
    have ht₁ := ht.congr h₁.sameLinks
    have hpar : (s₁.node a).parent = (s.node a).parent := h₁.sameLinks.parent a ha
    have hnode : ∀ y, y ≠ a →
        (s₁.setNode a fun e => { e with maxLength := maxOf s₁ a }).node y = s₁.node y :=
      fun y hy => if_neg hy
    have hself : (s₁.setNode a fun e => { e with maxLength := maxOf s₁ a }).node a =
        { s₁.node a with maxLength := maxOf s₁ a } := if_pos rfl
    by_cases hxa : x = a
    · subst hxa
      rw [hself]
      refine (maxOf_congr ?_ ?_ ?_ fun b hb => ?_).symm
      · rw [hself]
      · rw [hself]
      · rw [hself]
      · rw [hnode b fun hbx => ht₁.not_child_self ha (hbx ▸ hb)]
    · have hca : ∀ b, Child s₁ x b → b ≠ a := by
        intro b hb hba
        subst hba
        exact hxp ((hpar.symm.trans (ht₁.parent x hx b hb)).symm)
      rw [hnode x hxa, hmax x hx (by
        rw [Set.mem_insert_iff, not_or]
        exact ⟨hxa, hxp⟩)]
      refine (maxOf_congr ?_ ?_ ?_ fun b hb => ?_).symm
      · rw [hnode x hxa]
      · rw [hnode x hxa]
      · rw [hnode x hxa]
      · rw [hnode b (hca b hb)]
  refine ht.forest.induct ?_ ?_
  · intro r hr s₁ h₁ hmax
    have hmem := ht.forest.roots hr
    have hpar : (s.node r).parent = 0 := by
      rcases Finset.mem_insert.mp hr with rfl | hr
      · exact ht.kparent
      · rw [Finset.mem_singleton.mp hr]
        exact ht.uparent
    refine ⟨_, Settles.succ (f := fun n => updateParents n 0
      (s₁.setNode r fun e => { e with maxLength := maxOf s₁ r })) (Settles.of_succ fun n => ?_)
      fun n => ?_, onlyMax_setNode hmem _, fun x hx _ => hstep r hmem s₁ h₁ hmax x hx ?_⟩
    · rw [updateParents, if_pos rfl]
    · rw [updateParents, if_neg (ht.ne_zero r hmem), h₁.sameLinks.parent r hmem, hpar]
    · rw [hpar]
      exact ht.ne_zero x hx
  · intro p hp a hpa ih s₁ h₁ hmax
    have hmem := ht.forest.closed p hp a hpa
    have hpar : (s.node a).parent = p := ht.parent p hp a hpa
    have h₂ := onlyMax_setNode (s := s₁) hmem (maxOf s₁ a)
    obtain ⟨s', hset, hs', hmax'⟩ := ih _ (h₁.trans h₂) fun x hx hxp =>
      hstep a hmem s₁ h₁ hmax x hx (by
        rw [hpar]
        exact fun hc => hxp (Or.inl hc))
    refine ⟨s', hset.succ fun n => ?_, h₂.trans hs', hmax'⟩
    rw [updateParents, if_neg (ht.ne_zero a hmem), h₁.sameLinks.parent a hmem, hpar]

/-! ## `find_fit` -/

theorem le_maxOf_self : (s.node a).length ≤ maxOf s a := by
  simp only [maxOf]
  split <;> split <;> omega

theorem le_maxOf_child (h : Child s a b) : (s.node b).maxLength ≤ maxOf s a := by
  obtain ⟨h0, rfl | rfl⟩ := h
  · simp only [maxOf]
    split <;> split <;> omega
  · simp only [maxOf]
    split <;> split <;> omega

/-- The maximum is that of the node or of a child. -/
theorem maxOf_cases (s : VaState) (a : Nat) :
    maxOf s a = (s.node a).length ∨ ∃ b, Child s a b ∧ maxOf s a = (s.node b).maxLength := by
  by_cases hleft : (s.node a).vaLeft ≠ 0 ∧ (s.node (s.node a).vaLeft).maxLength > (s.node a).length
  · simp only [maxOf, if_pos hleft]
    split
    · rename_i hright
      exact .inr ⟨_, ⟨hright.1, .inr rfl⟩, rfl⟩
    · exact .inr ⟨_, ⟨hleft.1, .inl rfl⟩, rfl⟩
  · simp only [maxOf, if_neg hleft]
    split
    · rename_i hright
      exact .inr ⟨_, ⟨hright.1, .inr rfl⟩, rfl⟩
    · exact .inl rfl

/-- `max_length` is an upper bound for the ranges of the subtree. -/
theorem length_le_maxLength (ht : Tree S s) (hmax : MaxExcept ∅ S s) (ha : a ∈ S)
    (hab : Relation.ReflTransGen (Child s) a b) : (s.node b).length ≤ (s.node a).maxLength := by
  induction hab using Relation.ReflTransGen.head_induction_on with
  | refl =>
    rw [hmax b ha (Set.notMem_empty b)]
    exact le_maxOf_self
  | @head x y hxy _ ih =>
    rw [hmax x ha (Set.notMem_empty x)]
    exact (ih (ht.forest.closed x ha y hxy)).trans (le_maxOf_child hxy)

/-- **`find_fit` ends** with a node of the tree that is long enough, and it finds one if the tree has
one. -/
theorem findFit_spec (ht : Tree S s) (hmax : MaxExcept ∅ S s) (size : Nat) : ∀ a ∈ S,
    ∃ e, Settles (fun n => findFit s size n a) e ∧ ((e = 0 ∧ (s.node a).maxLength < size) ∨
      (e ∈ S ∧ size ≤ (s.node e).length ∧ (s.node e).attributes = (s.node a).attributes)) := by
  refine ht.forest.induct_up fun a ha ih => ?_
  have h0 := ht.ne_zero a ha
  by_cases hlen : (s.node a).length ≥ size
  · refine ⟨a, Settles.of_succ fun n => ?_, Or.inr ⟨ha, hlen, rfl⟩⟩
    simp only [findFit, if_neg h0, if_pos hlen]
  by_cases hleft : (s.node a).vaLeft ≠ 0 ∧ (s.node (s.node a).vaLeft).maxLength ≥ size
  · have hc : Child s a (s.node a).vaLeft := ⟨hleft.1, Or.inl rfl⟩
    obtain ⟨e, hset, he⟩ := ih _ hc
    have he' := he.resolve_left fun hno => absurd hno.2 (not_lt.mpr hleft.2)
    rw [ht.attr a ha _ hc] at he'
    refine ⟨e, hset.succ fun n => ?_, Or.inr he'⟩
    simp only [findFit, if_neg h0, if_neg hlen, if_pos hleft]
  by_cases hright : (s.node a).vaRight ≠ 0 ∧ (s.node (s.node a).vaRight).maxLength ≥ size
  · have hc : Child s a (s.node a).vaRight := ⟨hright.1, Or.inr rfl⟩
    obtain ⟨e, hset, he⟩ := ih _ hc
    have he' := he.resolve_left fun hno => absurd hno.2 (not_lt.mpr hright.2)
    rw [ht.attr a ha _ hc] at he'
    refine ⟨e, hset.succ fun n => ?_, Or.inr he'⟩
    simp only [findFit, if_neg h0, if_neg hlen, if_neg hleft, if_pos hright]
  · refine ⟨0, Settles.of_succ fun n => ?_, Or.inl ⟨rfl, ?_⟩⟩
    · simp only [findFit, if_neg h0, if_neg hlen, if_neg hleft, if_neg hright]
    · rw [hmax a ha (Set.notMem_empty a)]
      simp only [maxOf]
      split <;> split <;> omega

/-! ## Attaching a node -/

/-- The bits of `UsedNodes`. -/
theorem used_cases {e : VaNode} (h : e.usedNodes = usedBits e) :
    (e.vaRight = 0 ↔ e.usedNodes &&& 1 = 0) ∧ (e.vaLeft = 0 ↔ e.usedNodes &&& 2 = 0) ∧
      (e.usedNodes &&& 3 = 3 ↔ e.vaRight ≠ 0 ∧ e.vaLeft ≠ 0) := by
  rw [h, usedBits]
  by_cases h1 : e.vaRight = 0 <;> by_cases h2 : e.vaLeft = 0 <;> simp [h1, h2]

/-- What `attach_node` writes, when the parent has a free child slot. -/
structure Attached (last a : Nat) (s s' : VaState) : Prop where
  /-- Other nodes are left alone. -/
  other : ∀ x, x ≠ last → x ≠ a → s'.node x = s.node x
  /-- The child. -/
  child : s'.node a = { s.node a with parent := last }
  /-- The parent. -/
  parent : ((s.node last).vaRight = 0 ∧ s'.node last =
      { s.node last with vaRight := a, usedNodes := (s.node last).usedNodes ||| 1 }) ∨
    ((s.node last).vaRight ≠ 0 ∧ (s.node last).vaLeft = 0 ∧ s'.node last =
      { s.node last with vaLeft := a, usedNodes := (s.node last).usedNodes ||| 2 })
  /-- The rest. -/
  rest : s' = { s with node := s'.node }

theorem attachNode_spec {last : Nat} (hl0 : last ≠ 0)
    (hused : (s.node last).usedNodes = usedBits (s.node last)) (ha : a ≠ 0)
    (hal : a ≠ last) (hroom : (s.node last).usedNodes &&& 3 ≠ 3) :
    Attached last a s (attachNode last a s) := by
  obtain ⟨h1, h2, h3⟩ := used_cases hused
  rw [attachNode, if_neg (by simp [ha, hl0]), if_neg hroom]
  by_cases hright : (s.node last).usedNodes &&& 1 = 0
  · refine ⟨fun x hx hxa => ?_, ?_, Or.inl ⟨h1.mpr hright, ?_⟩, rfl⟩
    · simp [VaState.setNode, hx, hxa]
    · simp [VaState.setNode, hal]
    · simp only [VaState.setNode, if_neg hal.symm, if_pos hright, if_true]
  · have hleft : (s.node last).usedNodes &&& 2 = 0 := by
      by_contra hc
      exact hroom (h3.mpr ⟨fun h0 => hright (h1.mp h0), fun h0 => hc (h2.mp h0)⟩)
    refine ⟨fun x hx hxa => ?_, ?_, Or.inr ⟨fun h0 => hright (h1.mp h0), h2.mpr hleft, ?_⟩, rfl⟩
    · simp [VaState.setNode, hx, hxa]
    · simp [VaState.setNode, hal]
    · simp only [VaState.setNode, if_neg hal.symm, if_neg hright, if_pos hleft, if_true]

/-- The links after a node was attached. -/
theorem Attached.child_iff {last : Nat} (h : Attached last a s s') (ha0 : a ≠ 0) {x : Nat}
    (hxa : x ≠ a) (y : Nat) : Child s' x y ↔ Child s x y ∨ (x = last ∧ y = a) := by
  by_cases hx : x = last
  · subst hx
    rw [Child, Child]
    rcases h.parent with ⟨hr, hn⟩ | ⟨hr, hl, hn⟩
    · rw [hn, hr]
      constructor
      · rintro ⟨hy, hy' | hy'⟩
        · exact Or.inl ⟨hy, Or.inl hy'⟩
        · exact Or.inr ⟨rfl, hy'.symm⟩
      · rintro (⟨hy, hy' | hy'⟩ | ⟨-, rfl⟩)
        · exact ⟨hy, Or.inl hy'⟩
        · exact absurd hy'.symm hy
        · exact ⟨ha0, Or.inr rfl⟩
    · rw [hn, hl]
      constructor
      · rintro ⟨hy, hy' | hy'⟩
        · exact Or.inr ⟨rfl, hy'.symm⟩
        · exact Or.inl ⟨hy, Or.inr hy'⟩
      · rintro (⟨hy, hy' | hy'⟩ | ⟨-, rfl⟩)
        · exact absurd hy'.symm hy
        · exact ⟨hy, Or.inr hy'⟩
        · exact ⟨ha0, Or.inl rfl⟩
  · rw [Child, Child, h.other x hx hxa]
    simp [hx]

theorem Attached.field {last : Nat} (h : Attached last a s s') {x : Nat} (hxa : x ≠ a) :
    (s'.node x).parent = (s.node x).parent ∧ (s'.node x).attributes = (s.node x).attributes ∧
      (s'.node x).length = (s.node x).length ∧ (s'.node x).maxLength = (s.node x).maxLength ∧
      (s'.node x).virtualBase = (s.node x).virtualBase := by
  by_cases hx : x = last
  · subst hx
    rcases h.parent with ⟨-, hn⟩ | ⟨-, -, hn⟩ <;> rw [hn] <;> exact ⟨rfl, rfl, rfl, rfl, rfl⟩
  · rw [h.other x hx hxa]
    exact ⟨rfl, rfl, rfl, rfl, rfl⟩

/-- **A new node is hung into a tree.** -/
theorem Tree.attach {last : Nat} (ht : Tree S s) (hlast : last ∈ S) (ha : a ∉ S) (ha0 : a ≠ 0)
    (h : Attached last a s s') (hl : (s.node a).vaLeft = 0) (hr : (s.node a).vaRight = 0)
    (hu : (s.node a).usedNodes = 0) (hattr : (s.node a).attributes = (s.node last).attributes) :
    Tree (insert a S) s' := by
  have hk : s'.vaKstart = s.vaKstart := by rw [h.rest]
  have hus : s'.vaUstart = s.vaUstart := by rw [h.rest]
  have hne : ∀ x ∈ S, x ≠ a := fun x hx hxa => ha (hxa ▸ hx)
  have hleaf : ∀ y, ¬ Child s' a y := by
    rintro y ⟨hy, hy' | hy'⟩
    · rw [h.child] at hy'
      exact hy (hy'.symm.trans hl)
    · rw [h.child] at hy'
      exact hy (hy'.symm.trans hr)
  have hchild : ∀ x ∈ S, ∀ y, Child s' x y ↔ Child s x y ∨ (x = last ∧ y = a) :=
    fun x hx y => h.child_iff ha0 (hne x hx) y
  refine ⟨?_, ?_, ?_, ?_, ?_, ?_, ?_, ?_, ?_, ?_, ?_⟩
  · intro x hx
    rcases Finset.mem_insert.mp hx with rfl | hx
    · exact ha0
    · exact ht.ne_zero x hx
  · rw [hk, hus]
    exact ht.forest.attach hlast ha hchild hleaf
  · rw [hk, hus]
    exact ht.roots
  · intro x hx y hxy
    rcases Finset.mem_insert.mp hx with rfl | hx
    · exact absurd hxy (hleaf y)
    · rcases (hchild x hx y).mp hxy with hxy | ⟨rfl, rfl⟩
      · rw [(h.field (hne y (ht.forest.closed x hx y hxy))).1]
        exact ht.parent x hx y hxy
      · rw [h.child]
  · rw [hk, (h.field (hne _ ht.kstart_mem)).1]
    exact ht.kparent
  · rw [hus, (h.field (hne _ ht.ustart_mem)).1]
    exact ht.uparent
  · intro x hx
    rcases Finset.mem_insert.mp hx with rfl | hx
    · rw [h.child]
      exact fun _ => hl
    · by_cases hxl : x = last
      · subst hxl
        have hnot : ∀ y, Child s x y → y ≠ a := fun y hxy => hne y (ht.forest.closed x hx y hxy)
        rcases h.parent with ⟨hr', hn⟩ | ⟨hr', hl', hn⟩
        · rw [hn]
          intro heq
          by_contra h0
          exact hnot _ ⟨h0, Or.inl rfl⟩ heq
        · rw [hn]
          intro heq
          exact absurd heq.symm (hnot _ ⟨hr', Or.inr rfl⟩)
      · rw [h.other x hxl (hne x hx)]
        exact ht.distinct x hx
  · intro x hx
    rcases Finset.mem_insert.mp hx with rfl | hx
    · rw [h.child, usedBits]
      simp [hl, hr, hu]
    · by_cases hxl : x = last
      · subst hxl
        have hux := ht.used x hx
        rcases h.parent with ⟨hr', hn⟩ | ⟨hr', hl', hn⟩
        · rw [hn, usedBits]
          simp only [hux, usedBits, hr', ha0, if_true, if_false]
          split <;> rfl
        · rw [hn, usedBits]
          simp only [hux, usedBits, hr', hl', ha0, if_true, if_false]
          rfl
      · rw [h.other x hxl (hne x hx)]
        exact ht.used x hx
  · intro x hx y hxy
    rcases Finset.mem_insert.mp hx with rfl | hx
    · exact absurd hxy (hleaf y)
    · rw [(h.field (hne x hx)).2.1]
      rcases (hchild x hx y).mp hxy with hxy | ⟨rfl, rfl⟩
      · rw [(h.field (hne y (ht.forest.closed x hx y hxy))).2.1]
        exact ht.attr x hx y hxy
      · rw [h.child]
        exact hattr
  · rw [hk, (h.field (hne _ ht.kstart_mem)).2.1]
    exact ht.kattr
  · rw [hus, (h.field (hne _ ht.ustart_mem)).2.1]
    exact ht.uattr

/-- Only the equations of the new node and of its parent are in doubt. -/
theorem Attached.maxExcept {last : Nat} (h : Attached last a s s') (ht : Tree S s) (ha : a ∉ S)
    (hmax : MaxExcept ∅ S s) : MaxExcept {a, last} (insert a S) s' := by
  intro x hx hxe
  rw [Set.mem_insert_iff, not_or] at hxe
  have hxS := (Finset.mem_insert.mp hx).resolve_left hxe.1
  have hxl : x ≠ last := hxe.2
  rw [h.other x hxl hxe.1, hmax x hxS (Set.notMem_empty x)]
  refine (maxOf_congr ?_ ?_ ?_ fun b hb => ?_).symm
  · rw [h.other x hxl hxe.1]
  · rw [h.other x hxl hxe.1]
  · rw [h.other x hxl hxe.1]
  · have hba : b ≠ a := fun hba => ha (hba ▸ ht.forest.closed x hxS b hb)
    exact (h.field hba).2.2.2.1

/-! ## Taking a node out -/

/-- What is written when the node `a` is taken out. -/
structure Detached (a : Nat) (s s' : VaState) : Prop where
  /-- Other nodes are left alone. -/
  other : ∀ x, x ≠ (s.node a).parent → x ≠ a → s'.node x = s.node x
  /-- The node. -/
  node : s'.node a = { s.node a with parent := 0 }
  /-- Its parent. -/
  parent : ((s.node (s.node a).parent).vaLeft = a ∧ s'.node (s.node a).parent =
      { s.node (s.node a).parent with
        vaLeft := 0, usedNodes := (s.node (s.node a).parent).usedNodes &&& 0xFD }) ∨
    ((s.node (s.node a).parent).vaLeft ≠ a ∧ (s.node (s.node a).parent).vaRight = a ∧
      s'.node (s.node a).parent =
      { s.node (s.node a).parent with
        vaRight := 0, usedNodes := (s.node (s.node a).parent).usedNodes &&& 0xFE })
  /-- The rest. -/
  rest : s' = { s with node := s'.node }

theorem unlinkNode_spec (ht : Tree S s) (hp : (s.node a).parent ∈ S)
    (hc : Child s (s.node a).parent a) : Detached a s (unlinkNode a s) := by
  have hpa : (s.node a).parent ≠ a := by
    intro hpa
    exact ht.not_child_self hp (by rw [hpa] at hc ⊢; exact hc)
  have hap : a ≠ (s.node a).parent := hpa.symm
  rw [unlinkNode]
  by_cases hl : (s.node (s.node a).parent).vaLeft = a
  · refine ⟨fun x hx hxa => ?_, ?_, Or.inl ⟨hl, ?_⟩, rfl⟩
    · simp [VaState.setNode, hx, hxa]
    · simp [VaState.setNode, hap]
    · simp only [VaState.setNode, if_neg hpa, if_pos hl, if_true]
  · have hr : (s.node (s.node a).parent).vaRight = a := hc.2.resolve_left hl
    refine ⟨fun x hx hxa => ?_, ?_, Or.inr ⟨hl, hr, ?_⟩, rfl⟩
    · simp [VaState.setNode, hx, hxa]
    · simp [VaState.setNode, hap]
    · simp only [VaState.setNode, if_neg hpa, if_neg hl, if_pos hr, if_true]

/-- The links after a node was taken out. -/
theorem Detached.child_iff (h : Detached a s s') (ht : Tree S s) (hp : (s.node a).parent ∈ S)
    {x : Nat} (hx : x ∈ S) (hxa : x ≠ a) (y : Nat) : Child s' x y ↔ Child s x y ∧ y ≠ a := by
  by_cases hxp : x = (s.node a).parent
  · rw [hxp, Child, Child]
    have hdist := ht.distinct _ hp
    rcases h.parent with ⟨hl, hn⟩ | ⟨hl, hr, hn⟩
    · rw [hn, hl]
      rw [hl] at hdist
      constructor
      · rintro ⟨hy, hy' | hy'⟩
        · exact absurd hy'.symm hy
        · refine ⟨⟨hy, Or.inr hy'⟩, fun hya => hy ?_⟩
          exact hya.trans (hdist (hya.symm.trans hy'.symm))
      · rintro ⟨⟨hy, hy' | hy'⟩, hya⟩
        · exact absurd hy'.symm hya
        · exact ⟨hy, Or.inr hy'⟩
    · rw [hn, hr]
      constructor
      · rintro ⟨hy, hy' | hy'⟩
        · exact ⟨⟨hy, Or.inl hy'⟩, fun hya => hl (hy'.trans hya)⟩
        · exact absurd hy'.symm hy
      · rintro ⟨⟨hy, hy' | hy'⟩, hya⟩
        · exact ⟨hy, Or.inl hy'⟩
        · exact absurd hy'.symm hya
  · rw [Child, Child, h.other x hxp hxa]
    refine ⟨fun hxy => ⟨hxy, fun hya => hxp ?_⟩, fun hxy => hxy.1⟩
    have : Child s x a := hya ▸ hxy
    exact (ht.parent x hx a this).symm

theorem Detached.field (h : Detached a s s') {x : Nat} (hxa : x ≠ a) :
    (s'.node x).parent = (s.node x).parent ∧ (s'.node x).attributes = (s.node x).attributes ∧
      (s'.node x).length = (s.node x).length ∧ (s'.node x).maxLength = (s.node x).maxLength ∧
      (s'.node x).virtualBase = (s.node x).virtualBase := by
  by_cases hx : x = (s.node a).parent
  · rw [hx]
    rcases h.parent with ⟨-, hn⟩ | ⟨-, -, hn⟩ <;> rw [hn] <;> exact ⟨rfl, rfl, rfl, rfl, rfl⟩
  · rw [h.other x hx hxa]
    exact ⟨rfl, rfl, rfl, rfl, rfl⟩

/-- **A node without children is taken out of its tree.** -/
theorem Tree.detach (ht : Tree S s) (hp : (s.node a).parent ∈ S)
    (hc : Child s (s.node a).parent a) (hu : (s.node a).usedNodes = 0) (h : Detached a s s') :
    Tree (S.erase a) s' := by
  have ha : a ∈ S := ht.forest.closed _ hp a hc
  have hk : s'.vaKstart = s.vaKstart := by rw [h.rest]
  have hus : s'.vaUstart = s.vaUstart := by rw [h.rest]
  have hroot : a ∉ ({s.vaKstart, s.vaUstart} : Finset Nat) :=
    fun hr => ht.forest.root _ hp a hr hc
  have hka : s.vaKstart ≠ a := fun hk => hroot (by simp [hk])
  have hua : s.vaUstart ≠ a := fun hu => hroot (by simp [hu])
  have hleaf : ∀ y, ¬ Child s a y := by
    rintro y ⟨hy, hy'⟩
    have hbits := ht.used a ha
    rw [hu, usedBits] at hbits
    rcases hy' with hy' | hy'
    · rw [if_neg (show ¬ (s.node a).vaLeft = 0 from fun h0 => hy (hy'.symm.trans h0))] at hbits
      omega
    · rw [if_neg (show ¬ (s.node a).vaRight = 0 from fun h0 => hy (hy'.symm.trans h0))] at hbits
      omega
  have hchild : ∀ x ∈ S, x ≠ a → ∀ y, Child s' x y ↔ Child s x y ∧ y ≠ a :=
    fun x hx hxa y => h.child_iff ht hp hx hxa y
  refine ⟨fun x hx => ht.ne_zero x (Finset.mem_erase.mp hx).2, ?_, ?_, ?_, ?_, ?_, ?_, ?_, ?_, ?_, ?_⟩
  · rw [hk, hus]
    exact ht.forest.detach hroot hleaf hchild
  · rw [hk, hus]
    exact ht.roots
  · intro x hx y hxy
    obtain ⟨hxa, hx⟩ := Finset.mem_erase.mp hx
    obtain ⟨hxy, hya⟩ := (hchild x hx hxa y).mp hxy
    rw [(h.field hya).1]
    exact ht.parent x hx y hxy
  · rw [hk, (h.field hka).1]
    exact ht.kparent
  · rw [hus, (h.field hua).1]
    exact ht.uparent
  · intro x hx
    obtain ⟨hxa, hx⟩ := Finset.mem_erase.mp hx
    by_cases hxp : x = (s.node a).parent
    · subst hxp
      have hdist := ht.distinct _ hp
      rcases h.parent with ⟨-, hn⟩ | ⟨-, -, hn⟩
      · rw [hn]
        exact fun _ => rfl
      · rw [hn]
        exact id
    · rw [h.other x hxp hxa]
      exact ht.distinct x hx
  · intro x hx
    obtain ⟨hxa, hx⟩ := Finset.mem_erase.mp hx
    by_cases hxp : x = (s.node a).parent
    · have ha0 := ht.ne_zero a ha
      have hux := ht.used _ hp
      rw [hxp]
      rcases h.parent with ⟨hl, hn⟩ | ⟨-, hr, hn⟩
      · rw [hn, usedBits]
        simp only [hux, usedBits, hl, ha0, if_true, if_false]
        split <;> rfl
      · rw [hn, usedBits]
        simp only [hux, usedBits, hr, ha0, if_true, if_false]
        split <;> rfl
    · rw [h.other x hxp hxa]
      exact ht.used x hx
  · intro x hx y hxy
    obtain ⟨hxa, hx⟩ := Finset.mem_erase.mp hx
    obtain ⟨hxy, hya⟩ := (hchild x hx hxa y).mp hxy
    rw [(h.field hxa).2.1, (h.field hya).2.1]
    exact ht.attr x hx y hxy
  · rw [hk, (h.field hka).2.1]
    exact ht.kattr
  · rw [hus, (h.field hua).2.1]
    exact ht.uattr

/-- A node without children and without a range adds nothing to its parent's `max_length`. -/
theorem Detached.maxExcept (h : Detached a s s') (ht : Tree S s) (ha : a ∈ S)
    (hp : (s.node a).parent ∈ S) (ha0 : (s.node a).maxLength = 0) (hmax : MaxExcept ∅ S s) : MaxExcept ∅ (S.erase a) s' := by
  intro x hx _
  obtain ⟨hxa, hx⟩ := Finset.mem_erase.mp hx
  rw [(h.field hxa).2.2.2.1, hmax x hx (Set.notMem_empty x)]
  by_cases hxp : x = (s.node a).parent
  · have hdist := ht.distinct _ hp
    have hlen := (h.field hxa).2.2.1
    rw [hxp] at hxa hlen ⊢
    have hleft : ∀ y, y ≠ a → (s'.node y).maxLength = (s.node y).maxLength :=
      fun y hy => (h.field hy).2.2.2.1
    simp only [maxOf, hlen]
    rcases h.parent with ⟨hl, hn⟩ | ⟨hl, hr, hn⟩
    · have hra : (s.node (s.node a).parent).vaRight ≠ a := by
        intro hra
        have h0 := hdist (hl.trans hra.symm)
        exact ht.ne_zero a ha (hl.symm.trans h0)
      rw [hn]
      simp only [hl, ha0, hleft _ hra]
      simp
    · rw [hn]
      simp only [hr, ha0, hleft _ hl]
      simp
  · refine (maxOf_congr ?_ ?_ ?_ fun b hb => ?_).symm
    · rw [h.other x hxp hxa]
    · rw [h.other x hxp hxa]
    · rw [h.other x hxp hxa]
    · refine (h.field fun hba => hxp ?_).2.2.2.1
      exact (ht.parent x hx a (hba ▸ hb)).symm

end

end Dem64
