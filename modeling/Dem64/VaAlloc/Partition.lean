import Dem64.VaAlloc.Init
import Dem64.Lib.Tiling
import Dem64.Lib.Run
import Mathlib.Algebra.BigOperators.Group.Finset.Basic
import Mathlib.Algebra.Order.Group.Multiset
import Mathlib.Order.Interval.Set.Disjoint

/-!
# No address is lost or handed out twice

The free ranges of the nodes and the ranges that are handed out form a partition of the address space
the allocator started with, in each of the two trees.  `Tiles` says this with a multiset of ranges, for
which taking the front of a node and giving a range back are a cut and an exchange; `Partitioned` says
it in terms of what can be reached from the roots.

It holds for as long as `va_free` finds a node to hang the range under.  `find_last` wants a node with
a non-empty range and a free child slot, and there need not be one: a node whose range is used up while
it has children stays in the tree for good.  Then `va_free` returns without doing anything, and the
range is lost (`partition_lost`).
-/

set_option autoImplicit false

namespace Dem64

/-- The free range of a node. -/
def VaNode.range (e : VaNode) : Set Nat := Set.Ico e.virtualBase (e.virtualBase + e.length)

/-- The range that is handed out. -/
def VaRet.range (r : VaRet) : Set Nat := Set.Ico r.base (r.base + 4096 * r.pages)

/-- The address space of a tree. -/
def window (kernelEnd attributes : Nat) : Set Nat :=
  if attributes = 0x07 then Set.Ico 0x40000000 0x800000000000
  else Set.Ico (kernelStart kernelEnd) 0xFFFF900000000000 ∪ Set.Ico 0xFFFFC00000000000 (2 ^ 64)

/-- The nodes that can be reached from the roots. -/
def reachable (s : VaState) : Set Nat :=
  {a | Relation.ReflTransGen (Child s) s.vaKstart a ∨ Relation.ReflTransGen (Child s) s.vaUstart a}

/-- The free ranges and the ranges in use partition the address space. -/
structure Partitioned (kernelEnd : Nat) (s : VaState) (live : List VaRet) : Prop where
  /-- The free ranges are disjoint. -/
  nodes : ∀ a ∈ reachable s, ∀ b ∈ reachable s, a ≠ b → Disjoint (s.node a).range (s.node b).range
  /-- They are disjoint from those in use. -/
  mixed : ∀ a ∈ reachable s, ∀ r ∈ live, Disjoint (s.node a).range r.range
  /-- Those in use are disjoint. -/
  pairwise : live.Pairwise fun r r' => Disjoint r.range r'.range
  /-- Together they are the address space. -/
  cover : (⋃ a ∈ reachable s, (s.node a).range) ∪ (⋃ r ∈ live, r.range) =
    window kernelEnd 0x03 ∪ window kernelEnd 0x07
  /-- Each range in use is of the part of the address space it was asked from. -/
  inside : ∀ r ∈ live, r.range ⊆ window kernelEnd r.attributes

/-! ## The pieces -/

/-- The range `A`, if it belongs to the tree `t`. -/
def only (t attributes : Nat) (A : Set Nat) : Multiset (Set Nat) := if attributes = t then {A} else 0

/-- The ranges of the tree `t`: those of its nodes and those in use. -/
def pieces (S : Finset Nat) (s : VaState) (live : List VaRet) (t : Nat) : Multiset (Set Nat) :=
  (∑ x ∈ S, only t (s.node x).attributes (s.node x).range) +
    (live.map fun r => only t r.attributes r.range).sum

/-- The nodes `S` and the ranges in use tile the address space. -/
structure Tiles (kernelEnd : Nat) (S : Finset Nat) (s : VaState) (live : List VaRet) : Prop where
  /-- In each of the two trees. -/
  tile : ∀ t, t = 0x03 ∨ t = 0x07 → Tiling (window kernelEnd t) (pieces S s live t)
  /-- No range wraps around. -/
  lt : ∀ x ∈ S, (s.node x).length < 2 ^ 64
  bound : ∀ x ∈ S, (s.node x).length = 0 ∨ (s.node x).virtualBase + (s.node x).length ≤ 2 ^ 64
  /-- What is in use was asked for. -/
  asked : ∀ r ∈ live, r.status = 0 ∧ 0 < r.pages ∧ r.pages < 2 ^ 52 ∧
    (r.attributes = 0x03 ∨ r.attributes = 0x07) ∧ r.base + 4096 * r.pages ≤ 2 ^ 64

section

variable {kernelEnd : Nat} {S S' : Finset Nat} {s s' : VaState} {live : List VaRet} {t a : Nat} {r : VaRet}

theorem SameRange.range_eq {x : Nat} (h : SameRange s s' x) : (s'.node x).range = (s.node x).range := by
  rw [VaNode.range, VaNode.range, h.1, h.2.1]

theorem pieces_congr (h : ∀ x ∈ S, SameRange s s' x) : pieces S s' live t = pieces S s live t := by
  rw [pieces, pieces]
  congr 1
  refine Finset.sum_congr rfl fun x hx => ?_
  rw [(h x hx).range_eq, (h x hx).2.2]

theorem pieces_erase (ha : a ∈ S) : pieces S s live t =
    only t (s.node a).attributes (s.node a).range + pieces (S.erase a) s live t := by
  rw [pieces, pieces, ← Finset.add_sum_erase S _ ha, add_assoc]

theorem pieces_insert (ha : a ∉ S) : pieces (insert a S) s live t =
    only t (s.node a).attributes (s.node a).range + pieces S s live t := by
  rw [pieces, pieces, Finset.sum_insert ha, add_assoc]

theorem pieces_cons : pieces S s (r :: live) t = only t r.attributes r.range + pieces S s live t := by
  rw [pieces, pieces, List.map_cons, List.sum_cons]
  exact add_left_comm _ _ _

theorem pieces_live (hr : r ∈ live) : pieces S s live t =
    only t r.attributes r.range + pieces S s (live.erase r) t := by
  have hperm := (List.perm_cons_erase hr).map fun r : VaRet => only t r.attributes r.range
  rw [pieces, hperm.sum_eq, ← pieces_cons, pieces]

/-- Cutting a range of the tree `t`. -/
theorem tiling_only_cut {W : Set Nat} {A B C : Set Nat} {P : Multiset (Set Nat)} {attributes : Nat}
    (hA : A = B ∪ C) (hBC : Disjoint B C) (h : Tiling W (only t attributes A + P)) :
    Tiling W (only t attributes B + (only t attributes C + P)) := by
  rw [only] at h ⊢
  split at h
  · rename_i ht
    rw [only, if_pos ht, if_pos ht, Multiset.singleton_add, Multiset.singleton_add]
    rw [Multiset.singleton_add] at h
    exact (Tiling.cut hA hBC).mp h
  · rename_i ht
    rw [only, if_neg ht, if_neg ht, zero_add]
    rwa [zero_add] at h ⊢

theorem tiling_only_empty {W : Set Nat} {P : Multiset (Set Nat)} {attributes : Nat} :
    Tiling W (only t attributes ∅ + P) ↔ Tiling W P := by
  rw [only]
  split
  · rw [Multiset.singleton_add]
    exact Tiling.empty
  · rw [zero_add]

theorem VaNode.range_eq_empty {e : VaNode} (h : e.length = 0) : e.range = ∅ := by
  rw [VaNode.range, h, Nat.add_zero, Set.Ico_self]

theorem kindOf_eq {attributes : Nat} (h : attributes = 0x03 ∨ attributes = 0x07) :
    kindOf attributes = attributes := by
  rcases h with rfl | rfl <;> decide

/-- The range of a node is cut in two. -/
theorem Consumed.range_cut {e pages attributes : Nat} (h : Consumed S S' e (4096 * pages) s s')
    (hle : 4096 * pages ≤ (s.node e).length)
    (hbound : (s.node e).length = 0 ∨ (s.node e).virtualBase + (s.node e).length ≤ 2 ^ 64) :
    (s.node e).range = (granted s e pages attributes).range ∪ (s'.node e).range ∧
      Disjoint (granted s e pages attributes).range (s'.node e).range := by
  have hg : (granted s e pages attributes).range =
      Set.Ico (s.node e).virtualBase ((s.node e).virtualBase + 4096 * pages) := rfl
  rw [hg, VaNode.range, VaNode.range, h.base, h.length]
  by_cases hall : (s.node e).length = 4096 * pages
  · rw [hall, Nat.sub_self, Nat.add_zero, Set.Ico_self, Set.union_empty]
    exact ⟨rfl, Set.disjoint_empty _⟩
  · rw [Nat.mod_eq_of_lt (by omega), Nat.add_assoc, Nat.add_sub_cancel' hle]
    refine ⟨(Set.Ico_union_Ico_eq_Ico (by omega) (by omega)).symm, ?_⟩
    exact Set.Ico_disjoint_Ico_same

/-- **Taking a range keeps the partition.** -/
theorem Tiles.take {e pages attributes : Nat} (h : Tiles kernelEnd S s live) (he : e ∈ S)
    (hattr : (s.node e).attributes = attributes) (ha : attributes = 0x03 ∨ attributes = 0x07)
    (hp0 : 0 < pages) (hp : pages < 2 ^ 52) (hle : 4096 * pages ≤ (s.node e).length)
    (hcons : Consumed S S' e (4096 * pages) s s') :
    Tiles kernelEnd S' s' (granted s e pages attributes :: live) := by
  have hbound := h.bound e he
  obtain ⟨hcut, hdis⟩ : (s.node e).range = (granted s e pages attributes).range ∪ (s'.node e).range ∧
      Disjoint (granted s e pages attributes).range (s'.node e).range := hcons.range_cut hle hbound
  have hsub : ∀ x ∈ S', x ∈ S := by
    rcases hcons.nodes with rfl | ⟨rfl, -⟩
    · exact fun x hx => hx
    · exact fun x hx => Finset.mem_of_mem_erase hx
  have hnode : ∀ x ∈ S', (x = e ∧ (s'.node x).length = (s.node x).length - 4096 * pages) ∨
      SameRange s s' x := by
    intro x hx
    by_cases hxe : x = e
    · subst hxe
      exact Or.inl ⟨rfl, hcons.length⟩
    · exact Or.inr (hcons.other x hxe)
  refine ⟨fun t ht => ?_, fun x hx => ?_, fun x hx => ?_, fun r hr => ?_⟩
  · have htile := h.tile t ht
    rw [pieces_erase he, hattr] at htile
    have htile' := tiling_only_cut hcut hdis htile
    have hrest : pieces (S.erase e) s' live t = pieces (S.erase e) s live t :=
      pieces_congr fun x hx => hcons.other x (Finset.ne_of_mem_erase hx)
    have hattr' : (s'.node e).attributes = attributes := hcons.attr.trans hattr
    rw [pieces_cons]
    show Tiling _ (only t attributes _ + _)
    rcases hcons.nodes with rfl | ⟨rfl, hlen⟩
    · rwa [pieces_erase he, hattr', hrest]
    · -- the node is gone, and nothing was left of it
      rw [hrest]
      rw [VaNode.range_eq_empty (by rw [hcons.length, hlen, Nat.sub_self]), add_left_comm] at htile'
      exact tiling_only_empty.mp htile'
  · have hlt := h.lt x (hsub x hx)
    rcases hnode x hx with ⟨rfl, hlen⟩ | hsame
    · omega
    · rwa [hsame.2.1]
  · have hb := h.bound x (hsub x hx)
    rcases hnode x hx with ⟨rfl, hlen⟩ | hsame
    · rw [hcons.base, hlen]
      omega
    · rwa [hsame.1, hsame.2.1]
  · rcases List.mem_cons.mp hr with rfl | hr
    · refine ⟨rfl, hp0, hp, ha, ?_⟩
      show (s.node e).virtualBase + 4096 * pages ≤ 2 ^ 64
      omega
    · exact h.asked r hr

/-- **Giving a range back keeps the partition.** -/
theorem Tiles.give (h : Tiles kernelEnd S s live) (hr : r ∈ live) (hret : Returned S a r s s') :
    Tiles kernelEnd (insert a S) s' (live.erase r) := by
  obtain ⟨-, -, hlt, -, hbound⟩ := h.asked r hr
  have hlen : (s'.node a).length = 4096 * r.pages := hret.length.trans (shiftLeft_pages hlt)
  have hrange : (s'.node a).range = r.range := by
    rw [VaNode.range, VaRet.range, hret.base, hlen]
  refine ⟨fun t ht => ?_, fun x hx => ?_, fun x hx => ?_, fun r' hr' => ?_⟩
  · rw [pieces_insert hret.notMem, hrange, hret.attr, pieces_congr hret.other, ← pieces_live hr]
    exact h.tile t ht
  · rcases Finset.mem_insert.mp hx with rfl | hx
    · omega
    · rw [(hret.other x hx).2.1]
      exact h.lt x hx
  · rcases Finset.mem_insert.mp hx with rfl | hx
    · rw [hret.base, hlen]
      exact Or.inr hbound
    · rw [(hret.other x hx).1, (hret.other x hx).2.1]
      exact h.bound x hx
  · exact h.asked r' (List.mem_of_mem_erase hr')

/-- The first nodes tile the address space. -/
theorem Initialised.tiles (h : Initialised kernelEnd s) (hk : KernelEnds kernelEnd) :
    Tiles kernelEnd firstNodes s [] := by
  obtain ⟨-, hlo, hhi⟩ := kernelStart_eq hk
  have hcases : ∀ x ∈ firstNodes, s.node x = firstKernelNode kernelEnd ∨ s.node x = firstRightNode ∨
      s.node x = firstUserNode := by
    intro x hx
    simp only [firstNodes, Finset.mem_insert, Finset.mem_singleton] at hx
    rcases hx with rfl | rfl | rfl
    · exact Or.inl h.kernel
    · exact Or.inr (Or.inl h.right)
    · exact Or.inr (Or.inr h.user)
  have hpieces : ∀ t, pieces firstNodes s [] t = only t 0x03 (firstKernelNode kernelEnd).range +
      (only t 0x03 firstRightNode.range + only t 0x07 firstUserNode.range) := by
    intro t
    rw [pieces, firstNodes, Finset.sum_insert (by decide), Finset.sum_insert (by decide),
      Finset.sum_singleton, h.kernel, h.right, h.user]
    exact add_zero _
  have hkernel : (firstKernelNode kernelEnd).range =
      Set.Ico (kernelStart kernelEnd) 0xFFFF900000000000 := by
    show Set.Ico _ (kernelStart kernelEnd + (0xFFFF900000000000 - kernelStart kernelEnd)) = _
    rw [Nat.add_sub_cancel' (by omega)]
    rfl
  have hright : firstRightNode.range = Set.Ico 0xFFFFC00000000000 (2 ^ 64) := rfl
  refine ⟨fun t ht => ?_, fun x hx => ?_, fun x hx => ?_, fun r hr => ?_⟩
  · rw [hpieces]
    rcases ht with rfl | rfl
    · rw [hkernel, hright]
      refine tiling_only_cut (A := window kernelEnd 0x03) rfl ?_ (Tiling.single _)
      exact Set.Ico_disjoint_Ico.mpr (by omega)
    · exact Tiling.single _
  · rcases hcases x hx with hx | hx | hx <;> rw [hx]
    · show 0xFFFF900000000000 - kernelStart kernelEnd < 2 ^ 64
      omega
    · decide
    · decide
  · rcases hcases x hx with hx | hx | hx <;> rw [hx]
    · right
      show kernelStart kernelEnd + (0xFFFF900000000000 - kernelStart kernelEnd) ≤ 2 ^ 64
      omega
    · decide
    · decide
  · exact absurd hr (by simp)

/-! ## What can be reached -/

theorem Tree.attr_cases (h : Tree S s) : ∀ x ∈ S, (s.node x).attributes = 0x03 ∨
    (s.node x).attributes = 0x07 := by
  refine h.forest.induct (fun x hx => ?_) fun x hx y hxy ih => ?_
  · rcases Finset.mem_insert.mp hx with rfl | hx
    · exact Or.inl h.kattr
    · rw [Finset.mem_singleton.mp hx]
      exact Or.inr h.uattr
  · rwa [h.attr x hx y hxy]

/-- The nodes are what can be reached from the roots. -/
theorem Tree.reachable_eq (h : Tree S s) : reachable s = S := by
  ext x
  rw [Finset.mem_coe, h.forest.mem_iff]
  simp [reachable]

theorem window_disjoint (hk : KernelEnds kernelEnd) {t t' : Nat} (ht : t = 0x03 ∨ t = 0x07)
    (ht' : t' = 0x03 ∨ t' = 0x07) (hne : t ≠ t') : Disjoint (window kernelEnd t) (window kernelEnd t') := by
  obtain ⟨-, hlo, hhi⟩ := kernelStart_eq hk
  have h37 : Disjoint (window kernelEnd 0x03) (window kernelEnd 0x07) := by
    rw [Set.disjoint_left]
    intro x hx hx'
    rw [window, if_neg (by decide)] at hx
    rw [window, if_pos rfl] at hx'
    simp only [Set.mem_union, Set.mem_Ico] at hx hx'
    omega
  rcases ht with rfl | rfl <;> rcases ht' with rfl | rfl
  · exact absurd rfl hne
  · exact h37
  · exact h37.symm
  · exact absurd rfl hne

theorem subset_of_only {W A : Set Nat} {P : Multiset (Set Nat)} (h : Tiling W (only t t A + P)) :
    A ⊆ W := by
  intro x hx
  rw [only, if_pos rfl] at h
  exact (h.mem_iff x).mpr ⟨A, by simp, hx⟩

/-- Two of the pieces are disjoint, whichever trees they belong to. -/
theorem disjoint_of_only (hk : KernelEnds kernelEnd) {t t' : Nat} (ht : t = 0x03 ∨ t = 0x07)
    (ht' : t' = 0x03 ∨ t' = 0x07) {A B : Set Nat} {P : Nat → Multiset (Set Nat)}
    (h : ∀ k, k = 0x03 ∨ k = 0x07 → Tiling (window kernelEnd k) (only k t A + (only k t' B + P k))) :
    Disjoint A B := by
  by_cases hne : t = t'
  · subst hne
    have htile := h t ht
    rw [only, only, if_pos rfl, if_pos rfl, Multiset.singleton_add, Multiset.singleton_add] at htile
    exact htile.disjoint
  · have hA := subset_of_only (h t ht)
    have hB := h t' ht'
    rw [add_left_comm] at hB
    exact (window_disjoint hk ht ht' hne).mono hA (subset_of_only hB)

theorem mem_pieces {A : Set Nat} : A ∈ pieces S s live t ↔
    (∃ x ∈ S, (s.node x).attributes = t ∧ (s.node x).range = A) ∨
      ∃ r ∈ live, r.attributes = t ∧ r.range = A := by
  have honly : ∀ k B, A ∈ only t k B ↔ k = t ∧ B = A := by
    intro k B
    rw [only]
    split
    · rename_i hkt
      simp [hkt, eq_comm]
    · rename_i hkt
      simp [hkt]
  have hlive : A ∈ (live.map fun r => only t r.attributes r.range).sum ↔
      ∃ r ∈ live, r.attributes = t ∧ r.range = A := by
    induction live with
    | nil => simp
    | cons r live ih => simp [ih, honly]
  rw [pieces, Multiset.mem_add, hlive, Multiset.mem_sum]
  simp only [honly]

/-- **A tiling by the nodes of the trees is a partition in terms of what can be reached.** -/
theorem Tiles.partitioned (h : Tiles kernelEnd S s live) (ht : Tree S s) (hk : KernelEnds kernelEnd) :
    Partitioned kernelEnd s live := by
  have hkind := ht.attr_cases
  refine ⟨?_, ?_, ?_, ?_, ?_⟩
  · rw [ht.reachable_eq]
    intro a ha b hb hab
    refine disjoint_of_only hk (hkind a ha) (hkind b hb)
      (P := fun k => pieces ((S.erase a).erase b) s live k) fun k hk' => ?_
    rw [← pieces_erase (Finset.mem_erase.mpr ⟨hab.symm, hb⟩), ← pieces_erase ha]
    exact h.tile k hk'
  · rw [ht.reachable_eq]
    intro a ha r hr
    refine disjoint_of_only hk (hkind a ha) (h.asked r hr).2.2.2.1
      (P := fun k => pieces (S.erase a) s (live.erase r) k) fun k hk' => ?_
    rw [← pieces_live hr, ← pieces_erase ha]
    exact h.tile k hk'
  · rw [List.pairwise_iff_forall_sublist]
    intro r r' hsub
    obtain ⟨rest, hperm⟩ := hsub.exists_perm_append
    refine disjoint_of_only hk (h.asked r (hperm.mem_iff.mpr (by simp))).2.2.2.1
      (h.asked r' (hperm.mem_iff.mpr (by simp))).2.2.2.1 (P := fun k => pieces S s rest k)
      fun k hk' => ?_
    have hsum := (hperm.map fun r : VaRet => only k r.attributes r.range).sum_eq
    have htile := h.tile k hk'
    rw [pieces, hsum] at htile
    rw [← pieces_cons, ← pieces_cons, pieces]
    exact htile
  · rw [ht.reachable_eq]
    ext x
    rw [Set.mem_union, Set.mem_union, (h.tile 0x03 (Or.inl rfl)).mem_iff, (h.tile 0x07 (Or.inr rfl)).mem_iff]
    simp only [mem_pieces, Set.mem_iUnion, exists_prop, Finset.mem_coe]
    constructor
    · rintro (⟨a, ha, hx⟩ | ⟨r, hr, hx⟩)
      · rcases hkind a ha with hka | hka
        · exact Or.inl ⟨_, Or.inl ⟨a, ha, hka, rfl⟩, hx⟩
        · exact Or.inr ⟨_, Or.inl ⟨a, ha, hka, rfl⟩, hx⟩
      · rcases (h.asked r hr).2.2.2.1 with hkr | hkr
        · exact Or.inl ⟨_, Or.inr ⟨r, hr, hkr, rfl⟩, hx⟩
        · exact Or.inr ⟨_, Or.inr ⟨r, hr, hkr, rfl⟩, hx⟩
    · rintro (⟨A, ⟨a, ha, -, rfl⟩ | ⟨r, hr, -, rfl⟩, hx⟩ | ⟨A, ⟨a, ha, -, rfl⟩ | ⟨r, hr, -, rfl⟩, hx⟩)
      · exact Or.inl ⟨a, ha, hx⟩
      · exact Or.inr ⟨r, hr, hx⟩
      · exact Or.inl ⟨a, ha, hx⟩
      · exact Or.inr ⟨r, hr, hx⟩
  · intro r hr
    have htile := h.tile r.attributes (h.asked r hr).2.2.2.1
    rw [pieces_live hr] at htile
    exact subset_of_only htile

end

/-! ## Runs -/

/-- Conditions on the calls of a run. -/
structure Limits where
  /-- On a successful `va_alloc(pages, attributes)`, in the state before the call. -/
  alloc : VaState → Nat → Nat → Prop
  /-- On `va_free(desc)`, in the state before the call. -/
  free : VaState → VaRet → Prop

/-- No conditions. -/
def Limits.none : Limits := ⟨fun _ _ _ => True, fun _ _ => True⟩

/-- One call of a run: the allocator, and what is handed out and not yet given back.  `vmalloc` may fail
in any call of `va_alloc`, and gives memory for the metadata in calls of `va_free`. -/
inductive VaStep (kernelEnd : Nat) (limits : Limits) :
    VaState × List VaRet → VaState × List VaRet → Prop
  /-- `va_alloc`. -/
  | alloc {s s' : VaState} {live : List VaRet} {r : VaRet} (env : Env) (n pages attributes : Nat)
      (hp : pages < 2 ^ 52) (ha : attributes = 0x03 ∨ attributes = 0x07)
      (h : vaAlloc kernelEnd env n pages attributes s = .ok (r, s'))
      (hl : r.status = 0 → limits.alloc s pages attributes) :
      VaStep kernelEnd limits (s, live) (s', if r.status = 0 then r :: live else live)
  /-- `va_free` of a range that is handed out. -/
  | free {s s' : VaState} {live : List VaRet} {r : VaRet} (env : Env) (n : Nat) (hr : r ∈ live)
      (hmeta : ∀ a, env.vmalloc a 1 0x03 = true) (h : vaFree env n r s = .ok s')
      (hl : limits.free s r) :
      VaStep kernelEnd limits (s, live) (s', live.erase r)

/-- No root has an empty range. -/
def RootsAlive (s : VaState) : Prop :=
  s.vaHeader ≠ 0 → (s.node s.vaKstart).length ≠ 0 ∧ (s.node s.vaUstart).length ≠ 0

/-- `find_last` has a node to hang the range under, and the area for metadata pages is not used up. -/
def FreeFits (s : VaState) (r : VaRet) : Prop :=
  (∃ a ∈ reachable s, (s.node a).hasRoom r.attributes = true) ∧ s.vaTop + 4096 < 2 ^ 64

/-- What holds between the calls. -/
def Ordered (kernelEnd : Nat) (x : VaState × List VaRet) : Prop :=
  (Cold x.1 ∧ x.2 = []) ∨ ∃ S pg, VaShape S pg x.1 ∧ Tiles kernelEnd S x.1 x.2

section

variable {kernelEnd : Nat} {S : Finset Nat} {pg : List Nat} {s s' : VaState} {live : List VaRet}
  {env : Env} {r : VaRet} {pages attributes : Nat}

theorem Ordered.vaAlloc (h : Ordered kernelEnd (s, live)) (hk : KernelEnds kernelEnd) (env : Env)
    (attributes : Nat) (hp : pages < 2 ^ 52) :
    ∃ r, Settles (fun n => vaAlloc kernelEnd env n pages attributes s) r ∧
      (r = ({ status := 1 }, s) ∨ ∃ S pg s₁, VaShape S pg s₁ ∧ Tiles kernelEnd S s₁ live ∧
        0 < pages ∧ (s₁ = s ∨ (Cold s ∧ Initialised kernelEnd s₁)) ∧
        AllocResult env S pages attributes s₁ r.1 r.2) := by
  refine vaAlloc_cases (P := fun S s => Tiles kernelEnd S s live) hk env attributes hp ?_
    (fun S s ht => ht.lt) ?_
  · rcases h with ⟨hcold, -⟩ | hshape
    · exact Or.inl hcold
    · exact Or.inr hshape
  · intro hcold s₁ hinit
    rcases h with ⟨-, hlive⟩ | ⟨S, pg, hshape, -⟩
    · obtain rfl : live = [] := hlive
      exact hinit.tiles hk
    · exact absurd hcold.header hshape.header_ne_zero

/-- The call hands out the whole range of a root without children. -/
def Spent (kernelEnd pages attributes : Nat) (s s' : VaState) : Prop :=
  (∃ s₁, ((s₁ = s ∧ s.vaHeader ≠ 0) ∨ (Cold s ∧ Initialised kernelEnd s₁)) ∧
      ¬ SparesRoot s₁ pages attributes) ∧
    s'.vaHeader ≠ 0 ∧ (s'.node (s'.root attributes)).length = 0

/-- **`va_alloc` keeps the allocator in order**, or uses up a root. -/
theorem Ordered.alloc {n : Nat} (h : Ordered kernelEnd (s, live)) (hk : KernelEnds kernelEnd)
    (hp : pages < 2 ^ 52) (ha : attributes = 0x03 ∨ attributes = 0x07)
    (hcall : Dem64.vaAlloc kernelEnd env n pages attributes s = .ok (r, s')) :
    Ordered kernelEnd (s', if r.status = 0 then r :: live else live) ∨
      (r.status = 0 ∧ Spent kernelEnd pages attributes s s') := by
  obtain ⟨r', hset, hres⟩ := h.vaAlloc hk env attributes hp
  obtain rfl := hset.unique ((fueled_vaAlloc kernelEnd pages attributes s).settles hcall)
  rcases hres with heq | ⟨S, pg, s₁, hshape, htiles, hpos, hs₁, hres⟩
  · obtain ⟨rfl, rfl⟩ := Prod.mk.injEq _ _ _ _ ▸ heq
    exact Or.inl h
  · cases hres with
    | refused => exact Or.inl (Or.inr ⟨S, pg, hshape, htiles⟩)
    | taken he hattr hle hshape' hcons =>
      rw [kindOf_eq ha] at hattr
      exact Or.inl (Or.inr ⟨_, _, hshape', htiles.take he hattr ha hpos hp hle hcons⟩)
    | @spent pg' s₂ hbad hshape' hcons =>
      refine Or.inr ⟨rfl, ⟨s₁, ?_, hbad⟩, hshape'.header_ne_zero, ?_⟩
      · rcases hs₁ with rfl | ⟨hcold, hinit⟩
        · exact Or.inl ⟨rfl, hshape.header_ne_zero⟩
        · exact Or.inr ⟨hcold, hinit⟩
      · have hroot : s₂.root attributes = s₁.root attributes := by
          rw [VaState.root, VaState.root, hcons.kstart, hcons.ustart]
        have hlen : (s₁.node (s₁.root attributes)).length = 4096 * pages := by
          by_contra hne
          exact hbad fun hc => absurd hc hne
        show (s₂.node (s₂.root attributes)).length = 0
        rw [hroot, hcons.length, hlen, Nat.sub_self]

/-- **`va_free` keeps the allocator in order**, and the range is in a node again. -/
theorem Ordered.free (h : Ordered kernelEnd (s, live)) (hr : r ∈ live) (hfits : FreeFits s r)
    (hspared : RootsSpared s) (hmeta : ∀ a, env.vmalloc a 1 0x03 = true) :
    ∃ s' S pg a, Settles (fun n => vaFree env n r s) s' ∧ VaShape (insert a S) pg s' ∧
      Tiles kernelEnd (insert a S) s' (live.erase r) ∧ Returned S a r s s' ∧
      s'.freed = (r.base, r.pages) :: s.freed := by
  rcases h with ⟨-, hlive⟩ | ⟨S, pg, hshape, htiles⟩
  · obtain rfl : live = [] := hlive
    exact absurd hr (by simp)
  · obtain ⟨⟨x, hx, hroom⟩, htop⟩ := hfits
    rw [hshape.tree.reachable_eq] at hx
    obtain ⟨hstatus, hpages, -⟩ := htiles.asked r hr
    obtain ⟨a, pg', s', hset, hshape', hret, hfreed, -⟩ := vaFree_spec hshape hstatus hpages.ne'
      ⟨x, hx, hroom⟩ hspared fun _ => CanCarve.ready (fun _ => ⟨htop, hmeta _⟩) hshape.pages
    exact ⟨s', S, pg', a, hset, hshape', htiles.give hr hret, hret, hfreed⟩

theorem RootsAlive.spared (h : RootsAlive s) (h0 : s.vaHeader ≠ 0) : RootsSpared s := by
  intro _
  obtain ⟨hk, hu⟩ := h h0
  exact ⟨fun hr => hk (VaNode.reusable_iff.mp hr).1, fun hr => absurd (VaNode.reusable_iff.mp hr).1 hu⟩

theorem Ordered.header (h : Ordered kernelEnd (s, live)) (hr : r ∈ live) : s.vaHeader ≠ 0 := by
  rcases h with ⟨-, hlive⟩ | ⟨S, pg, hshape, -⟩
  · obtain rfl : live = [] := hlive
    exact absurd hr (by simp)
  · exact hshape.header_ne_zero

/-- One call with the roots in use keeps the allocator in order. -/
theorem VaStep.ordered {x y : VaState × List VaRet} (hk : KernelEnds kernelEnd)
    (hstep : VaStep kernelEnd ⟨fun _ _ _ => True, FreeFits⟩ x y ∧ RootsAlive y.1)
    (h : Ordered kernelEnd x ∧ RootsAlive x.1) : Ordered kernelEnd y ∧ RootsAlive y.1 := by
  obtain ⟨hstep, halive⟩ := hstep
  obtain ⟨h, hx⟩ := h
  refine ⟨?_, halive⟩
  cases hstep with
  | alloc env n pages attributes hp ha hcall _ =>
    rcases h.alloc hk hp ha hcall with hy | ⟨-, -, hheader, hlen⟩
    · exact hy
    · -- a root that is used up has an empty range
      obtain ⟨hk', hu'⟩ := halive hheader
      rw [VaState.root] at hlen
      split at hlen
      · exact absurd hlen hu'
      · exact absurd hlen hk'
  | @free s s' live r env n hr hmeta hcall hfits =>
    obtain ⟨s₁, S, pg, a, hset, hshape, htiles, -⟩ := h.free hr hfits (hx.spared (h.header hr)) hmeta
    obtain rfl := hset.unique ((fueled_vaFree r s).settles hcall)
    exact Or.inr ⟨_, pg, hshape, htiles⟩

/-- **The partition of the address space.**  Take any run of `va_alloc` and `va_free` in which the
roots never have an empty range, and every `va_free` finds a node to hang the range under.  Once the
allocator is set up, the free ranges and the ranges in use are disjoint and together are the address
space it was given, a kernel range lies in the kernel part and a user range in the user part.  No
call of such a run hangs. -/
theorem address_space_partition (hk : KernelEnds kernelEnd) {s₀ : VaState} (h0 : Cold s₀)
    (hrun : Relation.ReflTransGen
      (fun x y => VaStep kernelEnd ⟨fun _ _ _ => True, FreeFits⟩ x y ∧ RootsAlive y.1)
      (s₀, []) (s, live)) :
    ((s.vaHeader = 0 ∧ live = []) ∨ (s.vaHeader ≠ 0 ∧ Partitioned kernelEnd s live)) ∧
      (∀ env pages attributes, pages < 2 ^ 52 →
        ∃ r, Settles (fun n => vaAlloc kernelEnd env n pages attributes s) r) ∧
      ∀ env r, r ∈ live → FreeFits s r → (∀ a, env.vmalloc a 1 0x03 = true) →
        ∃ s', Settles (fun n => vaFree env n r s) s' := by
  obtain ⟨h, halive⟩ : Ordered kernelEnd (s, live) ∧ RootsAlive s :=
    Relation.ReflTransGen.invariant (P := fun x => Ordered kernelEnd x ∧ RootsAlive x.1)
      (fun x y hxy hx => VaStep.ordered hk hxy hx) hrun
      ⟨Or.inl ⟨h0, rfl⟩, fun hc => absurd h0.header hc⟩
  refine ⟨?_, fun env pages attributes hp => ?_, fun env r hr hfits hmeta => ?_⟩
  · rcases h with ⟨hcold, hlive⟩ | ⟨S, pg, hshape, htiles⟩
    · exact Or.inl ⟨hcold.header, hlive⟩
    · exact Or.inr ⟨hshape.header_ne_zero, htiles.partitioned hshape.tree hk⟩
  · obtain ⟨r, hset, -⟩ := h.vaAlloc hk env attributes hp
    exact ⟨r, hset⟩
  · obtain ⟨s', -, -, -, hset, -⟩ := h.free hr hfits (halive.spared (h.header hr)) hmeta
    exact ⟨s', hset⟩

end

/-! ## Scripts

A run on fixed inputs, with `vmalloc` succeeding throughout. -/

/-- A call of a script. -/
inductive Call where
  /-- `va_alloc`. -/
  | alloc (pages attributes : Nat)
  /-- `va_free` of the range at this place of the list of those in use. -/
  | free (i : Nat)

/-- Memory for everything. -/
def plenty : Env := ⟨fun _ _ _ => true, fun _ => default⟩

/-- The allocator before the first call. -/
def coldState : VaState where
  node _ := default
  hd _ := default
  vaEntries := 0
  max := 0
  vaHeader := 0
  vaKstart := 0
  vaUstart := 0
  vaLatest := 0
  vaMetadataPages := 0
  vaTop := vaTree
  cacheBase _ := 0
  cacheIndex := 0
  freed := []

theorem cold_coldState : Cold coldState := ⟨rfl, rfl, rfl, rfl, rfl⟩

/-- The tests of a script. -/
structure Tests where
  /-- Of the state after each call. -/
  after : VaState → Bool := fun _ => true
  /-- Of a successful `va_alloc(pages, attributes)`, in the state before the call. -/
  alloc : VaState → Nat → Nat → Bool := fun _ _ _ => true
  /-- Of `va_free(desc)`, in the state before the call. -/
  free : VaState → VaRet → Bool := fun _ _ => true

/-- Play a script, with tests. -/
def play (kernelEnd : Nat) (t : Tests) :
    List Call → VaState × List VaRet → Except Fault (VaState × List VaRet)
  | [], x => .ok x
  | .alloc pages attributes :: calls, (s, live) => do
    let (r, s') ← vaAlloc kernelEnd plenty 20 pages attributes s
    if pages < 2 ^ 52 ∧ (attributes = 0x03 ∨ attributes = 0x07) ∧ t.alloc s pages attributes = true ∧
        t.after s' = true then
      play kernelEnd t calls (s', if r.status = 0 then r :: live else live)
    else .error .fuel
  | .free i :: calls, (s, live) =>
    match live[i]? with
    | none => .error .fuel
    | some r => do
      let s' ← vaFree plenty 20 r s
      if t.free s r = true ∧ t.after s' = true then play kernelEnd t calls (s', live.erase r)
      else .error .fuel

/-- A script that ends is a run. -/
theorem play_run {kernelEnd : Nat} {t : Tests} {P : VaState → Prop} {L : Limits}
    (hafter : ∀ s, t.after s = true → P s)
    (halloc : ∀ s pages attributes, t.alloc s pages attributes = true → L.alloc s pages attributes)
    (hfree : ∀ s r, t.free s r = true → L.free s r) :
    ∀ {calls : List Call} {x y : VaState × List VaRet}, play kernelEnd t calls x = .ok y →
      Relation.ReflTransGen (fun x y => VaStep kernelEnd L x y ∧ P y.1) x y
  | [], x, y, h => by
    obtain rfl := Except.ok.inj h
    exact Relation.ReflTransGen.refl
  | .alloc pages attributes :: calls, (s, live), y, h => by
    obtain ⟨⟨r, s'⟩, hcall, h⟩ := bind_eq_ok_iff.mp h
    dsimp only at h
    split at h
    · rename_i hok
      obtain ⟨hp, ha, htest, hs'⟩ := hok
      refine Relation.ReflTransGen.head ⟨?_, hafter _ hs'⟩ (play_run hafter halloc hfree h)
      exact VaStep.alloc plenty 20 pages attributes hp ha hcall fun _ => halloc _ _ _ htest
    · exact absurd h (by simp)
  | .free i :: calls, (s, live), y, h => by
    rw [play] at h
    split at h
    · exact absurd h (by simp)
    · rename_i r hr
      obtain ⟨s', hcall, h⟩ := bind_eq_ok_iff.mp h
      split at h
      · rename_i hok
        refine Relation.ReflTransGen.head ⟨?_, hafter _ hok.2⟩ (play_run hafter halloc hfree h)
        exact VaStep.free plenty 20 (List.mem_of_getElem? hr) (fun _ => rfl) hcall (hfree _ _ hok.1)
      · exact absurd h (by simp)

/-- A set of nodes with the roots and all children of its nodes holds what can be reached. -/
theorem reachable_subset {s : VaState} {T : List Nat} (hk : s.vaKstart ∈ T) (hu : s.vaUstart ∈ T)
    (hT : ∀ a ∈ T, ((s.node a).vaLeft = 0 ∨ (s.node a).vaLeft ∈ T) ∧
      ((s.node a).vaRight = 0 ∨ (s.node a).vaRight ∈ T)) : ∀ a ∈ reachable s, a ∈ T := by
  have hclosed : ∀ r a, Relation.ReflTransGen (Child s) r a → r ∈ T → a ∈ T := by
    intro r a hra hr
    induction hra with
    | refl => exact hr
    | tail _ hbc ih =>
      obtain ⟨h0, rfl | rfl⟩ := hbc
      · exact (hT _ ih).1.resolve_left h0
      · exact (hT _ ih).2.resolve_left h0
  rintro a (ha | ha)
  · exact hclosed _ a ha hk
  · exact hclosed _ a ha hu

/-- The test for `RootsAlive`. -/
def rootsAlive (s : VaState) : Bool :=
  (s.node s.vaKstart).length != 0 && (s.node s.vaUstart).length != 0

theorem rootsAlive_spec (s : VaState) (h : rootsAlive s = true) : RootsAlive s := by
  intro _
  simpa [rootsAlive] using h

/-- A test for `FreeFits`: one of the roots has a free child slot. -/
def rootHasRoom (s : VaState) (r : VaRet) : Bool :=
  (s.node (s.root r.attributes)).hasRoom r.attributes && decide (s.vaTop + 4096 < 2 ^ 64)

theorem rootHasRoom_spec (s : VaState) (r : VaRet) (h : rootHasRoom s r = true) : FreeFits s r := by
  rw [rootHasRoom, Bool.and_eq_true, decide_eq_true_iff] at h
  refine ⟨⟨s.root r.attributes, ?_, h.1⟩, h.2⟩
  rw [VaState.root]
  split
  · exact Or.inr Relation.ReflTransGen.refl
  · exact Or.inl Relation.ReflTransGen.refl

/-- Two ranges are taken from user space and one from the kernel space, and one is given back. -/
theorem address_space_partition_three : ∃ s live, live.length = 2 ∧ s.vaHeader ≠ 0 ∧
    Partitioned 0xffff800000123456 s live := by
  obtain ⟨⟨s, live⟩, hplay, hend⟩ := exists_of_passes
    (p := fun x : VaState × List VaRet => x.2.length == 2 && x.1.vaHeader != 0)
    (show passes _ (play 0xffff800000123456 { after := rootsAlive, free := rootHasRoom }
      [.alloc 2 7, .alloc 1 3, .alloc 3 7, .free 2] (coldState, [])) = true by decide +kernel)
  simp only [Bool.and_eq_true, beq_iff_eq, bne_iff_ne] at hend
  have hrun : Relation.ReflTransGen (fun x y => VaStep 0xffff800000123456
      ⟨fun _ _ _ => True, FreeFits⟩ x y ∧ RootsAlive y.1) (coldState, []) (s, live) :=
    play_run rootsAlive_spec (fun _ _ _ _ => trivial) rootHasRoom_spec hplay
  rcases (address_space_partition ⟨by decide, by decide⟩ cold_coldState hrun).1 with ⟨hc, -⟩ | h
  · exact absurd hc hend.2
  · exact ⟨s, live, hend.1, h⟩

/-- The calls after which a range is lost.  One page is left in the kernel root; four ranges are taken
from its child and given back, so that they hang below the two; then everything but the page is taken.
The root has two children now, and both are empty but stay where they are. -/
def losingCalls : List Call :=
  [.alloc 0xFFFFFEFF 3, .alloc 2 3, .alloc 2 3, .alloc 2 3, .alloc 2 3, .free 3, .free 2, .free 1,
    .free 0, .alloc 0x3FFFFFFF8 3, .alloc 2 3, .alloc 2 3, .alloc 2 3, .alloc 2 3, .free 0]

/-- The nodes `T` hold the roots and are closed under links, and the address `b` is in no range. -/
def LostAt (T : List Nat) (b : Nat) (x : VaState × List VaRet) : Prop :=
  x.1.vaKstart ∈ T ∧ x.1.vaUstart ∈ T ∧
    (∀ a ∈ T, ((x.1.node a).vaLeft = 0 ∨ (x.1.node a).vaLeft ∈ T) ∧
      ((x.1.node a).vaRight = 0 ∨ (x.1.node a).vaRight ∈ T)) ∧
    (∀ a ∈ T, ¬ ((x.1.node a).virtualBase ≤ b ∧ b < (x.1.node a).virtualBase + (x.1.node a).length)) ∧
    ∀ r ∈ x.2, ¬ (r.base ≤ b ∧ b < r.base + 4096 * r.pages)

instance (T : List Nat) (b : Nat) (x : VaState × List VaRet) : Decidable (LostAt T b x) :=
  inferInstanceAs (Decidable (_ ∧ _ ∧ _ ∧ _ ∧ _))

theorem LostAt.not_covered {T : List Nat} {b : Nat} {s : VaState} {live : List VaRet}
    (h : LostAt T b (s, live)) :
    b ∉ (⋃ a ∈ reachable s, (s.node a).range) ∪ (⋃ r ∈ live, r.range) := by
  obtain ⟨hk, hu, hT, hnode, hlive⟩ := h
  have hsub := reachable_subset hk hu hT
  simp only [Set.mem_union, Set.mem_iUnion, exists_prop, not_or, not_exists, not_and]
  exact ⟨fun a ha => hnode a (hsub a ha), fun r hr => hlive r hr⟩

/-- **A range is lost** although no root ever has an empty range: `find_last` finds no node, and
`va_free` returns. -/
theorem partition_lost : ¬ ∀ (kernelEnd : Nat) (s₀ s : VaState) (live : List VaRet),
    KernelEnds kernelEnd → Cold s₀ →
    Relation.ReflTransGen (fun x y => VaStep kernelEnd Limits.none x y ∧ RootsAlive y.1)
      (s₀, []) (s, live) →
    s.vaHeader ≠ 0 → Partitioned kernelEnd s live := by
  intro hclaim
  obtain ⟨⟨s, live⟩, hplay, hend⟩ := exists_of_passes
    (p := fun x : VaState × List VaRet => decide (x.1.vaHeader ≠ 0 ∧
      LostAt ((List.range 7).map (nodeAt vaTree)) 0xFFFFC00000002000 x))
    (show passes _ (play 0xffff800000100000 { after := rootsAlive } losingCalls (coldState, [])) = true by decide +kernel)
  obtain ⟨hheader, hlost⟩ := of_decide_eq_true hend
  have hpart := hclaim 0xffff800000100000 coldState s live ⟨by decide, by decide⟩ cold_coldState
    (play_run rootsAlive_spec (fun _ _ _ _ => trivial) (fun _ _ _ => trivial) hplay) hheader
  refine hlost.not_covered ?_
  rw [hpart.cover]
  refine Or.inl ?_
  rw [window, if_neg (by decide)]
  exact Or.inr ⟨by decide, by decide⟩

end Dem64
