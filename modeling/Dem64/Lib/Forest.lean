import Mathlib.Data.Finset.Card
import Mathlib.Data.Finset.Lattice.Fold
import Mathlib.Logic.Relation
import Mathlib.Order.Bounds.Basic

/-!
# Finite rooted forests

A linked structure in memory is a set of trees when every node but the roots is the child of exactly
one node, no root is a child, and the links do not run in circles.  `Forest S R child` says so of the
nodes `S` and the roots `R`; the links are an arbitrary relation, so that it does not matter how a
node stores its children.

`Forest.mem_iff` is what the definition is for: the nodes are exactly what can be reached from the
roots.  The two moves are `Forest.attach`, which hangs a new node under one that is there, and
`Forest.detach`, which takes away a node without children.
-/

set_option autoImplicit false

universe u

variable {α : Type u}

/-- The nodes `S` form trees with the roots `R` under the links `child`. -/
structure Forest (S R : Finset α) (child : α → α → Prop) : Prop where
  /-- The roots are nodes. -/
  roots : R ⊆ S
  /-- The children of nodes are nodes. -/
  closed : ∀ a ∈ S, ∀ b, child a b → b ∈ S
  /-- Every node but the roots has a parent. -/
  parent : ∀ b ∈ S, b ∉ R → ∃ a ∈ S, child a b
  /-- A node has one parent only. -/
  unique : ∀ a ∈ S, ∀ a' ∈ S, ∀ b, child a b → child a' b → a = a'
  /-- The roots have none. -/
  root : ∀ a ∈ S, ∀ r ∈ R, ¬ child a r
  /-- Every node has a depth. -/
  grounded : ∃ depth : α → Nat, ∀ a ∈ S, ∀ b, child a b → depth b = depth a + 1

namespace Forest

variable {S R : Finset α} {child child' : α → α → Prop}

/-- A rule for the nodes: what holds of the roots and goes from parents to children holds of every
node. -/
theorem induct (h : Forest S R child) {P : α → Prop} (hroot : ∀ r ∈ R, P r)
    (hchild : ∀ a ∈ S, ∀ b, child a b → P a → P b) : ∀ a ∈ S, P a := by
  obtain ⟨depth, hdepth⟩ := h.grounded
  have hall : ∀ n, ∀ b ∈ S, depth b ≤ n → P b := by
    intro n
    induction n with
    | zero =>
      intro b hb hn
      by_cases hr : b ∈ R
      · exact hroot b hr
      · obtain ⟨a, ha, hab⟩ := h.parent b hb hr
        have := hdepth a ha b hab
        omega
    | succ n ih =>
      intro b hb hn
      by_cases hr : b ∈ R
      · exact hroot b hr
      · obtain ⟨a, ha, hab⟩ := h.parent b hb hr
        have := hdepth a ha b hab
        exact hchild a ha b hab (ih a ha (by omega))
  exact fun a ha => hall (depth a) a ha (le_refl _)

/-- The rule in the other direction: what goes from the children of a node to the node holds of every
node. -/
theorem induct_up (h : Forest S R child) {P : α → Prop}
    (hchild : ∀ a ∈ S, (∀ b, child a b → P b) → P a) : ∀ a ∈ S, P a := by
  obtain ⟨depth, hdepth⟩ := h.grounded
  have hall : ∀ n, ∀ a ∈ S, S.sup depth - depth a ≤ n → P a := by
    intro n
    induction n with
    | zero =>
      intro a ha hn
      refine hchild a ha fun b hab => ?_
      have hb := Finset.le_sup (f := depth) (h.closed a ha b hab)
      have := hdepth a ha b hab
      omega
    | succ n ih =>
      intro a ha hn
      refine hchild a ha fun b hab => ih b (h.closed a ha b hab) ?_
      have := hdepth a ha b hab
      omega
  exact fun a ha => hall _ a ha (le_refl _)

/-- **The nodes are what can be reached from the roots.** -/
theorem mem_iff (h : Forest S R child) (a : α) :
    a ∈ S ↔ ∃ r ∈ R, Relation.ReflTransGen child r a := by
  constructor
  · intro ha
    refine h.induct (P := fun a => ∃ r ∈ R, Relation.ReflTransGen child r a)
      (fun r hr => ⟨r, hr, Relation.ReflTransGen.refl⟩) ?_ a ha
    rintro a - b hab ⟨r, hr, hra⟩
    exact ⟨r, hr, hra.tail hab⟩
  · rintro ⟨r, hr, hra⟩
    induction hra with
    | refl => exact h.roots hr
    | tail _ hbc ih => exact h.closed _ ih _ hbc

/-- What can be reached from a node are nodes. -/
theorem closed_path (h : Forest S R child) {a b : α} (ha : a ∈ S)
    (hab : Relation.ReflTransGen child a b) : b ∈ S := by
  induction hab with
  | refl => exact ha
  | tail _ hbc ih => exact h.closed _ ih _ hbc

/-- **A field that is the maximum at every node is the maximum of every subtree.**  `m` bounds the value
of the node and the fields of the children, and is one of them. -/
theorem isGreatest (h : Forest S R child) {len m : α → Nat} (hlen : ∀ a ∈ S, len a ≤ m a)
    (hchild : ∀ a ∈ S, ∀ b, child a b → m b ≤ m a)
    (hmem : ∀ a ∈ S, m a = len a ∨ ∃ b, child a b ∧ m a = m b) :
    ∀ a ∈ S, IsGreatest { l | ∃ b, Relation.ReflTransGen child a b ∧ len b = l } (m a) := by
  intro a ha
  constructor
  · refine h.induct_up (P := fun a => m a ∈ { l | ∃ b, Relation.ReflTransGen child a b ∧ len b = l })
      (fun a ha ih => ?_) a ha
    rcases hmem a ha with heq | ⟨b, hab, heq⟩
    · exact ⟨a, Relation.ReflTransGen.refl, heq.symm⟩
    · obtain ⟨c, hbc, hc⟩ := ih b hab
      exact ⟨c, hbc.head hab, hc.trans heq.symm⟩
  · rintro l ⟨b, hab, rfl⟩
    refine (hlen b (h.closed_path ha hab)).trans ?_
    clear hlen
    induction hab with
    | refl => exact le_refl _
    | tail hac hcb ih => exact (hchild _ (h.closed_path ha hac) _ hcb).trans ih

/-- Below every node there is one without children. -/
theorem exists_leaf (h : Forest S R child) :
    ∀ a ∈ S, ∃ b, Relation.ReflTransGen child a b ∧ ∀ c, ¬ child b c := by
  refine h.induct_up fun a _ ih => ?_
  by_cases hc : ∃ b, child a b
  · obtain ⟨b, hab⟩ := hc
    obtain ⟨c, hbc, hleaf⟩ := ih b hab
    exact ⟨c, hbc.head hab, hleaf⟩
  · exact ⟨a, Relation.ReflTransGen.refl, fun c hac => hc ⟨c, hac⟩⟩

/-- No node is its own descendant. -/
theorem acyclic (h : Forest S R child) {a : α} (ha : a ∈ S) : ¬ Relation.TransGen child a a := by
  obtain ⟨depth, hdepth⟩ := h.grounded
  have hlt : ∀ b, Relation.TransGen child a b → b ∈ S ∧ depth a < depth b := by
    intro b hab
    induction hab with
    | single hab => exact ⟨h.closed a ha _ hab, by rw [hdepth a ha _ hab]; omega⟩
    | tail _ hbc ih => exact ⟨h.closed _ ih.1 _ hbc, by rw [hdepth _ ih.1 _ hbc]; omega⟩
  exact fun haa => lt_irrefl _ (hlt a haa).2

/-- Links of other cells do not matter. -/
theorem congr (h : Forest S R child) (heq : ∀ a ∈ S, ∀ b, child' a b ↔ child a b) :
    Forest S R child' where
  roots := h.roots
  closed a ha b hab := h.closed a ha b ((heq a ha b).mp hab)
  parent b hb hr := by
    obtain ⟨a, ha, hab⟩ := h.parent b hb hr
    exact ⟨a, ha, (heq a ha b).mpr hab⟩
  unique a ha a' ha' b hab hab' := h.unique a ha a' ha' b ((heq a ha b).mp hab) ((heq a' ha' b).mp hab')
  root a ha r hr hab := h.root a ha r hr ((heq a ha r).mp hab)
  grounded := by
    obtain ⟨depth, hdepth⟩ := h.grounded
    exact ⟨depth, fun a ha b hab => hdepth a ha b ((heq a ha b).mp hab)⟩

variable [DecidableEq α]

/-- **Hang the new node `b` under the node `a`.** -/
theorem attach (h : Forest S R child) {a b : α} (ha : a ∈ S) (hb : b ∉ S)
    (hold : ∀ x ∈ S, ∀ y, child' x y ↔ child x y ∨ (x = a ∧ y = b))
    (hleaf : ∀ y, ¬ child' b y) : Forest (insert b S) R child' := by
  have hne : ∀ x ∈ S, ∀ y, child x y → y ≠ b := fun x hx y hxy hyb => hb (hyb ▸ h.closed x hx y hxy)
  refine ⟨h.roots.trans (Finset.subset_insert b S), ?_, ?_, ?_, ?_, ?_⟩
  · intro x hx y hxy
    rcases Finset.mem_insert.mp hx with rfl | hx
    · exact absurd hxy (hleaf y)
    · rcases (hold x hx y).mp hxy with hxy | ⟨-, rfl⟩
      · exact Finset.mem_insert_of_mem (h.closed x hx y hxy)
      · exact Finset.mem_insert_self y S
  · intro y hy hr
    rcases Finset.mem_insert.mp hy with rfl | hy
    · exact ⟨a, Finset.mem_insert_of_mem ha, (hold a ha y).mpr (Or.inr ⟨rfl, rfl⟩)⟩
    · obtain ⟨x, hx, hxy⟩ := h.parent y hy hr
      exact ⟨x, Finset.mem_insert_of_mem hx, (hold x hx y).mpr (Or.inl hxy)⟩
  · intro x hx x' hx' y hxy hxy'
    rcases Finset.mem_insert.mp hx with rfl | hx
    · exact absurd hxy (hleaf y)
    rcases Finset.mem_insert.mp hx' with rfl | hx'
    · exact absurd hxy' (hleaf y)
    rcases (hold x hx y).mp hxy with hxy | ⟨hxa, hyb⟩
    · rcases (hold x' hx' y).mp hxy' with hxy' | ⟨-, hyb⟩
      · exact h.unique x hx x' hx' y hxy hxy'
      · exact absurd hyb (hne x hx y hxy)
    · rcases (hold x' hx' y).mp hxy' with hxy' | ⟨hxa', -⟩
      · exact absurd hyb (hne x' hx' y hxy')
      · exact hxa.trans hxa'.symm
  · intro x hx r hr hxr
    rcases Finset.mem_insert.mp hx with rfl | hx
    · exact hleaf r hxr
    · rcases (hold x hx r).mp hxr with hxr | ⟨-, rfl⟩
      · exact h.root x hx r hr hxr
      · exact hb (h.roots hr)
  · obtain ⟨depth, hdepth⟩ := h.grounded
    refine ⟨fun x => if x = b then depth a + 1 else depth x, fun x hx y hxy => ?_⟩
    rcases Finset.mem_insert.mp hx with rfl | hx
    · exact absurd hxy (hleaf y)
    have hxb : x ≠ b := fun hxb => hb (hxb ▸ hx)
    rcases (hold x hx y).mp hxy with hxy | ⟨rfl, rfl⟩
    · simp only [if_neg hxb, if_neg (hne x hx y hxy)]
      exact hdepth x hx y hxy
    · simp only [if_neg hxb, if_true]

/-- **Take away the node `b`**, which has no children and is no root. -/
theorem detach (h : Forest S R child) {b : α} (hb : b ∉ R) (hleaf : ∀ y, ¬ child b y)
    (hold : ∀ x ∈ S, x ≠ b → ∀ y, child' x y ↔ child x y ∧ y ≠ b) :
    Forest (S.erase b) R child' := by
  refine ⟨fun r hr => Finset.mem_erase.mpr ⟨fun hrb => hb (hrb ▸ hr), h.roots hr⟩, ?_, ?_, ?_, ?_, ?_⟩
  · intro x hx y hxy
    obtain ⟨hxb, hx⟩ := Finset.mem_erase.mp hx
    obtain ⟨hxy, hyb⟩ := (hold x hx hxb y).mp hxy
    exact Finset.mem_erase.mpr ⟨hyb, h.closed x hx y hxy⟩
  · intro y hy hr
    obtain ⟨hyb, hy⟩ := Finset.mem_erase.mp hy
    obtain ⟨x, hx, hxy⟩ := h.parent y hy hr
    have hxb : x ≠ b := fun hxb => hleaf y (hxb ▸ hxy)
    exact ⟨x, Finset.mem_erase.mpr ⟨hxb, hx⟩, (hold x hx hxb y).mpr ⟨hxy, hyb⟩⟩
  · intro x hx x' hx' y hxy hxy'
    obtain ⟨hxb, hx⟩ := Finset.mem_erase.mp hx
    obtain ⟨hxb', hx'⟩ := Finset.mem_erase.mp hx'
    exact h.unique x hx x' hx' y ((hold x hx hxb y).mp hxy).1 ((hold x' hx' hxb' y).mp hxy').1
  · intro x hx r hr hxr
    obtain ⟨hxb, hx⟩ := Finset.mem_erase.mp hx
    exact h.root x hx r hr ((hold x hx hxb r).mp hxr).1
  · obtain ⟨depth, hdepth⟩ := h.grounded
    refine ⟨depth, fun x hx y hxy => ?_⟩
    obtain ⟨hxb, hx⟩ := Finset.mem_erase.mp hx
    exact hdepth x hx y ((hold x hx hxb y).mp hxy).1

end Forest
