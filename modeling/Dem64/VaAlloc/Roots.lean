import Dem64.VaAlloc.Partition
import Mathlib.Data.Set.Finite.Basic

/-!
# When a root is used up

The exact-fit branch of `va_alloc` and the search of `va_free` for a blank slot were written for nodes
that hang below another one, but both also meet the roots.  A root without children whose range is used
up is taken out of `va_entries` and of the counters of its page although it stays in the tree; then its
tree has no node that `find_last` accepts, and what was handed out cannot be given back.  A root with
children whose range is used up looks like a blank slot to `va_free`, which then hangs it below a node,
possibly one of its own descendants.

`root_exhaustion` says that these are the only ways in which the trees can break: in a run that avoids
them the trees stay trees, with the links back in order, and every range that is given back can be
handed out again.
-/

set_option autoImplicit false

namespace Dem64

/-- The nodes form two finite trees. -/
structure TreesSound (s : VaState) : Prop where
  /-- There are finitely many nodes. -/
  finite : (reachable s).Finite
  /-- No node is its own descendant. -/
  acyclic : ∀ a ∈ reachable s, ¬ Relation.TransGen (Child s) a a
  /-- `Parent` leads back. -/
  parent : ∀ a ∈ reachable s, ∀ b, Child s a b → (s.node b).parent = a
  /-- No node is on both sides of its parent. -/
  distinct : ∀ a ∈ reachable s, (s.node a).vaLeft = (s.node a).vaRight → (s.node a).vaLeft = 0
  /-- No node is in both trees. -/
  separate : ∀ a, Relation.ReflTransGen (Child s) s.vaKstart a →
    ¬ Relation.ReflTransGen (Child s) s.vaUstart a
  /-- The roots hang below no node. -/
  roots : (s.node s.vaKstart).parent = 0 ∧ (s.node s.vaUstart).parent = 0
  /-- The trees are not set up again. -/
  entries : s.vaHeader ≠ 0 ∧ s.vaEntries ≠ 0

/-- The range is in a node of its tree, and a request of this size succeeds if there is memory. -/
def Allocatable (kernelEnd : Nat) (r : VaRet) (s : VaState) : Prop :=
  (∃ a ∈ reachable s, (s.node a).range = r.range ∧ (s.node a).attributes = r.attributes) ∧
    ∀ env, (∀ a, env.vmalloc a r.pages r.attributes = true) →
      ∃ r' s', Settles (fun n => vaAlloc kernelEnd env n r.pages r.attributes s) (r', s') ∧ r'.status = 0

/-- Every range in use can be given back, if the condition `P` holds, and then it can be handed out
again. -/
def Recovers (kernelEnd : Nat) (P : VaState → VaRet → Prop) (s : VaState) (live : List VaRet) : Prop :=
  ∀ env r, r ∈ live → P s r → (∀ a, env.vmalloc a 1 0x03 = true) →
    ∃ s', Settles (fun n => vaFree env n r s) s' ∧ Allocatable kernelEnd r s'

/-- The request does not use up the range of a root without children; before the first call the user
root is one that has none. -/
def AllocSpares (s : VaState) (pages attributes : Nat) : Prop :=
  if s.vaHeader = 0 then attributes = 0x07 → 4096 * pages ≠ 0x7FFFC0000000
  else SparesRoot s pages attributes

/-- There is a node to hang the range under, and the search for a blank slot does not end at a root. -/
def FreeSpares (s : VaState) (r : VaRet) : Prop := FreeFits s r ∧ RootsSpared s

section

variable {kernelEnd : Nat} {S : Finset Nat} {pg : List Nat} {s s' : VaState} {live : List VaRet}
  {env : Env} {r : VaRet} {a b : Nat}

/-- The attributes are the same all over a tree. -/
theorem Tree.attr_of_path (h : Tree S s) (ha : a ∈ S) (hab : Relation.ReflTransGen (Child s) a b) :
    b ∈ S ∧ (s.node b).attributes = (s.node a).attributes := by
  induction hab with
  | refl => exact ⟨ha, rfl⟩
  | tail _ hbc ih => exact ⟨h.forest.closed _ ih.1 _ hbc, (h.attr _ ih.1 _ hbc).trans ih.2⟩

/-- Every node hangs below the root of its attributes. -/
theorem Tree.path_of_root (h : Tree S s) (ha : a ∈ S) :
    Relation.ReflTransGen (Child s) (s.root (s.node a).attributes) a := by
  obtain ⟨x, hx, hxa⟩ := (h.forest.mem_iff a).mp ha
  rcases Finset.mem_insert.mp hx with rfl | hx
  · rw [(h.attr_of_path h.kstart_mem hxa).2, h.kattr]
    exact hxa
  · obtain rfl := Finset.mem_singleton.mp hx
    rw [(h.attr_of_path h.ustart_mem hxa).2, h.uattr]
    exact hxa

theorem VaShape.sound (h : VaShape S pg s) : TreesSound s := by
  have ht := h.tree
  have hreach := ht.reachable_eq
  refine ⟨?_, ?_, ?_, ?_, fun a hk hu => ?_, ⟨ht.kparent, ht.uparent⟩, h.header_ne_zero,
    h.entries_ne_zero⟩
  · rw [hreach]
    exact S.finite_toSet
  · rw [hreach]
    exact fun a ha => ht.forest.acyclic ha
  · rw [hreach]
    exact fun a ha => ht.parent a ha
  · rw [hreach]
    exact fun a ha => ht.distinct a ha
  · have hk' := (ht.attr_of_path ht.kstart_mem hk).2
    have hu' := (ht.attr_of_path ht.ustart_mem hu).2
    rw [ht.kattr] at hk'
    rw [ht.uattr, hk'] at hu'
    exact absurd hu' (by decide)

/-- A range that is in a node of its tree can be handed out. -/
theorem VaShape.allocatable (h : VaShape S pg s) (htiles : Tiles kernelEnd S s live) (ha : a ∈ S)
    (hrange : (s.node a).range = r.range) (hlen : (s.node a).length = 4096 * r.pages)
    (hattr : (s.node a).attributes = r.attributes) (hp0 : r.pages ≠ 0) (hp : r.pages < 2 ^ 52) :
    Allocatable kernelEnd r s := by
  refine ⟨⟨a, by rwa [h.tree.reachable_eq], hrange, hattr⟩, fun env hvm => ?_⟩
  obtain ⟨⟨r', s'⟩, hset, hres⟩ : ∃ x, Settles (fun n => vaAlloc kernelEnd env n r.pages r.attributes s) x ∧
    AllocResult env S r.pages r.attributes s x.1 x.2 := vaAlloc_spec h hp htiles.lt
  refine ⟨r', s', hset, ?_⟩
  have hres' : AllocResult env S r.pages r.attributes s r' s' := hres
  cases hres' with
  | refused hno =>
    have hle := length_le_maxLength h.tree h.max h.root_mem (h.tree.path_of_root ha)
    rw [hlen, hattr] at hle
    rcases hno with hno | hno | ⟨x, hx⟩
    · exact absurd hno hp0
    · omega
    · rw [hvm x] at hx
      exact absurd hx (by simp)
  | taken => rfl
  | spent => rfl

/-- A range that is given back can be handed out again. -/
theorem Ordered.recovers (h : Ordered kernelEnd (s, live)) : Recovers kernelEnd FreeSpares s live := by
  intro env r hr hspares hmeta
  obtain ⟨s', S, pg, a, hset, hshape, htiles, hret, -⟩ := h.free hr hspares.1 hspares.2 hmeta
  refine ⟨s', hset, ?_⟩
  have hasked : r.pages ≠ 0 ∧ r.pages < 2 ^ 52 := by
    rcases h with ⟨-, hlive⟩ | ⟨S₀, pg₀, -, htiles₀⟩
    · obtain rfl : live = [] := hlive
      exact absurd hr (by simp)
    · exact ⟨(htiles₀.asked r hr).2.1.ne', (htiles₀.asked r hr).2.2.1⟩
  have hlen : (s'.node a).length = 4096 * r.pages := hret.length.trans (shiftLeft_pages hasked.2)
  have hrange : (s'.node a).range = r.range := by
    rw [VaNode.range, VaRet.range, hret.base, hlen]
  exact hshape.allocatable htiles (Finset.mem_insert_self a S) hrange hlen hret.attr hasked.1 hasked.2

theorem Initialised.spares (h : Initialised kernelEnd s) {pages attributes : Nat}
    (ha : attributes = 0x03 ∨ attributes = 0x07)
    (hp : attributes = 0x07 → 4096 * pages ≠ 0x7FFFC0000000) : SparesRoot s pages attributes := by
  rcases ha with rfl | rfl
  · intro _
    show (s.node s.vaKstart).usedNodes ≠ 0
    rw [h.kstart, h.kernel]
    exact Nat.one_ne_zero
  · intro hlen
    exfalso
    have hroot : s.root 0x07 = nodeAt vaTree 2 := h.ustart
    rw [hroot, h.user] at hlen
    exact hp rfl hlen.symm

/-- One call that avoids the defects keeps the allocator in order. -/
theorem VaStep.ordered_of_spares {x y : VaState × List VaRet} (hk : KernelEnds kernelEnd)
    (hstep : VaStep kernelEnd ⟨AllocSpares, FreeSpares⟩ x y) (h : Ordered kernelEnd x) :
    Ordered kernelEnd y := by
  cases hstep with
  | @alloc s s' live r env n pages attributes hp ha hcall hspares =>
    rcases h.alloc hk hp ha hcall with hy | ⟨hstatus, ⟨s₁, hs₁, hbad⟩, -⟩
    · exact hy
    · exfalso
      have hsp := hspares hstatus
      rcases hs₁ with ⟨rfl, h0⟩ | ⟨hcold, hinit⟩
      · exact hbad (by simpa only [AllocSpares, if_neg h0] using hsp)
      · exact hbad (hinit.spares ha (by simpa only [AllocSpares, if_pos hcold.header] using hsp))
  | @free s s' live r env n hr hmeta hcall hspares =>
    obtain ⟨s₁, S, pg, a, hset, hshape, htiles, -⟩ := h.free hr hspares.1 hspares.2 hmeta
    obtain rfl := hset.unique ((fueled_vaFree r s).settles hcall)
    exact Or.inr ⟨_, pg, hshape, htiles⟩

/-- **Root exhaustion.**  Take any run in which no call of `va_alloc` uses up the range of a root without
children, and every `va_free` finds a node to hang the range under and does not take a root for a blank
slot.  The trees stay trees with matching `Parent` links, they are never set up again, and every range
in use can be given back under the same conditions and then handed out again. -/
theorem root_exhaustion (hk : KernelEnds kernelEnd) {s₀ : VaState} (h0 : Cold s₀)
    (hrun : Relation.ReflTransGen (VaStep kernelEnd ⟨AllocSpares, FreeSpares⟩) (s₀, []) (s, live)) :
    ((s.vaHeader = 0 ∧ live = []) ∨ TreesSound s) ∧ Recovers kernelEnd FreeSpares s live := by
  have h : Ordered kernelEnd (s, live) :=
    Relation.ReflTransGen.invariant (P := Ordered kernelEnd)
      (fun x y hxy hx => VaStep.ordered_of_spares hk hxy hx) hrun (Or.inl ⟨h0, rfl⟩)
  refine ⟨?_, h.recovers⟩
  rcases h with ⟨hcold, hlive⟩ | ⟨S, pg, hshape, -⟩
  · exact Or.inl ⟨hcold.header, hlive⟩
  · exact Or.inr hshape.sound

end

/-- A test for `AllocSpares`. -/
def rootKept (s : VaState) (pages attributes : Nat) : Bool :=
  if s.vaHeader = 0 then attributes != 0x07
  else (s.node (s.root attributes)).length != 4096 * pages

theorem rootKept_spec (s : VaState) (pages attributes : Nat) (h : rootKept s pages attributes = true) :
    AllocSpares s pages attributes := by
  rw [rootKept] at h
  rw [AllocSpares]
  split at h
  · rename_i h0
    rw [if_pos h0]
    exact fun ha => absurd ha (by simpa using h)
  · rename_i h0
    rw [if_neg h0]
    exact fun hlen => absurd hlen (by simpa using h)

/-- A test for `FreeSpares`. -/
def rootOpen (s : VaState) (r : VaRet) : Bool :=
  rootHasRoom s r && (s.hd s.vaHeader).unusedEntries == 0

theorem rootOpen_spec (s : VaState) (r : VaRet) (h : rootOpen s r = true) : FreeSpares s r := by
  rw [rootOpen, Bool.and_eq_true, beq_iff_eq] at h
  exact ⟨rootHasRoom_spec s r h.1, fun hc => absurd h.2 hc⟩

/-- Three ranges are taken and one is given back. -/
theorem root_exhaustion_three : ∃ s live, live.length = 2 ∧ TreesSound s ∧
    Recovers 0xffff800000100000 FreeSpares s live := by
  obtain ⟨⟨s, live⟩, hplay, hend⟩ := exists_of_passes
    (p := fun x : VaState × List VaRet => x.2.length == 2 && x.1.vaHeader != 0)
    (show passes _ (play 0xffff800000100000 { alloc := rootKept, free := rootOpen }
      [.alloc 1 3, .alloc 2 7, .alloc 3 7, .free 1] (coldState, [])) = true by decide +kernel)
  simp only [Bool.and_eq_true, beq_iff_eq, bne_iff_ne] at hend
  have hrun : Relation.ReflTransGen (VaStep 0xffff800000100000 ⟨AllocSpares, FreeSpares⟩)
      (coldState, []) (s, live) := by
    simpa only [and_true] using play_run (P := fun _ => True) (fun _ _ => trivial) rootKept_spec
      rootOpen_spec hplay
  have h := root_exhaustion ⟨by decide, by decide⟩ cold_coldState hrun
  exact ⟨s, live, hend.1, h.1.resolve_left fun hc => hend.2 hc.1, h.2⟩

/-- The state after the whole user space was handed out, and what `va_free` makes of it. -/
def lostAfterFree (T : List Nat) (b : Nat) (x : VaState × List VaRet) : Bool :=
  match x.2 with
  | [r] => r.base == b && r.pages != 0 &&
      passes (fun s => decide (LostAt T b (s, []))) (vaFree plenty 20 r x.1)
  | _ => false

/-- **The whole user space is handed out and cannot be given back.**  The user root is used up, so
that `find_last` finds no node. -/
theorem user_root_exhausted : ¬ ∀ (kernelEnd : Nat) (s₀ s : VaState) (live : List VaRet),
    KernelEnds kernelEnd → Cold s₀ →
    Relation.ReflTransGen (VaStep kernelEnd Limits.none) (s₀, []) (s, live) →
    ((s.vaHeader = 0 ∧ live = []) ∨ TreesSound s) ∧ Recovers kernelEnd (fun _ _ => True) s live := by
  intro hclaim
  obtain ⟨⟨s, live⟩, hplay, hend⟩ := exists_of_passes
    (p := lostAfterFree ((List.range 3).map (nodeAt vaTree)) 0x40000000)
    (show passes _ (play 0xffff800000100000 {} [.alloc 0x7FFFC0000 7] (coldState, [])) = true by
      decide +kernel)
  have hrun : Relation.ReflTransGen (VaStep 0xffff800000100000 Limits.none)
      (coldState, []) (s, live) := by
    simpa only [and_true] using play_run (P := fun _ => True) (L := Limits.none)
      (fun _ _ => trivial) (fun _ _ _ _ => trivial) (fun _ _ _ => trivial) hplay
  have h := (hclaim 0xffff800000100000 coldState s live ⟨by decide, by decide⟩ cold_coldState hrun).2
  rw [lostAfterFree] at hend
  split at hend
  · rename_i r hlive
    obtain rfl : live = [r] := hlive
    simp only [Bool.and_eq_true, beq_iff_eq, bne_iff_ne] at hend
    obtain ⟨⟨hbase, hpages⟩, hfree⟩ := hend
    obtain ⟨s', hcall, hlost⟩ := exists_of_passes hfree
    obtain ⟨s'', hset, ⟨a, ha, hrange, -⟩, -⟩ := h plenty r (by simp) trivial fun _ => rfl
    obtain rfl := hset.unique ((fueled_vaFree r s).settles hcall)
    refine (of_decide_eq_true hlost).not_covered (Or.inl (Set.mem_biUnion ha ?_))
    rw [hrange, VaRet.range, hbase]
    exact ⟨le_refl _, by omega⟩
  · exact absurd hend (by simp)

end Dem64
