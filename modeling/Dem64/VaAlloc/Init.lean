import Dem64.VaAlloc.Calls

/-!
# The first call

The allocator sets itself up in the first call of `va_alloc`: it maps the first metadata page and puts
three nodes into it, the two parts of the kernel space and the user space.  `init_spec` says what the
nodes are and that the allocator is in order from then on.

`Kernel_end` is the end of the kernel image, which is linked at `0xFFFF800000000000`; the address space
from there to `0xFFFF8FFFFFFFFFFF` is what the image leaves to the allocator.
-/

set_option autoImplicit false

namespace Dem64

/-- The globals before the first call. -/
structure Cold (s : VaState) : Prop where
  /-- There are no pages. -/
  header : s.vaHeader = 0
  pages : s.vaMetadataPages = 0
  top : s.vaTop = vaTree
  cache : s.cacheIndex = 0
  /-- There are no nodes. -/
  entries : s.vaEntries = 0

/-- The image ends below the end of the lower part of the kernel space. -/
def KernelEnds (kernelEnd : Nat) : Prop :=
  0xFFFF800000000000 ≤ kernelEnd ∧ kernelEnd ≤ 0xFFFF8FFFFFFFF000

/-- The three nodes. -/
def firstNodes : Finset Nat := {nodeAt vaTree 0, nodeAt vaTree 1, nodeAt vaTree 2}

/-- The kernel root, once it has a child. -/
def firstKernelNode (kernelEnd : Nat) : VaNode where
  virtualBase := kernelStart kernelEnd
  length := 0xFFFF900000000000 - kernelStart kernelEnd
  maxLength := 0x400000000000
  attributes := 0x03
  usedNodes := 1
  vaRight := nodeAt vaTree 1
  vaLeft := 0
  parent := 0

/-- Its right child. -/
def firstRightNode : VaNode where
  virtualBase := 0xFFFFC00000000000
  length := 0x400000000000
  maxLength := 0x400000000000
  attributes := 0x03
  usedNodes := 0
  vaRight := 0
  vaLeft := 0
  parent := nodeAt vaTree 0

/-- The user root. -/
def firstUserNode : VaNode where
  virtualBase := 0x40000000
  length := 0x7FFFC0000000
  maxLength := 0x7FFFC0000000
  attributes := 0x07
  usedNodes := 0
  vaRight := 0
  vaLeft := 0
  parent := 0

/-- What the first call leaves. -/
structure Initialised (kernelEnd : Nat) (s : VaState) : Prop where
  /-- The nodes. -/
  kernel : s.node (nodeAt vaTree 0) = firstKernelNode kernelEnd
  right : s.node (nodeAt vaTree 1) = firstRightNode
  user : s.node (nodeAt vaTree 2) = firstUserNode
  /-- The first page. -/
  page : s.hd vaTree = { freeEntries := 76, unusedEntries := 0, nextPage := 0, formerPage := 0 }
  /-- The globals. -/
  entries : s.vaEntries = 3
  max : s.max = 79
  header : s.vaHeader = vaTree
  kstart : s.vaKstart = nodeAt vaTree 0
  ustart : s.vaUstart = nodeAt vaTree 2
  latest : s.vaLatest = nodeAt vaTree 2
  pages : s.vaMetadataPages = 0
  top : s.vaTop = vaTree + 4096
  cache : s.cacheIndex = 0

section

variable {s : VaState} {env : Env} {kernelEnd : Nat}

theorem kernelStart_eq (h : KernelEnds kernelEnd) :
    kernelStart kernelEnd = (kernelEnd + 4095) / 4096 * 4096 ∧
      0xFFFF800000000000 ≤ kernelStart kernelEnd ∧ kernelStart kernelEnd ≤ 0xFFFF8FFFFFFFF000 := by
  obtain ⟨h1, h2⟩ := h
  rw [kernelStart, addrOf_eq]
  omega

/-- The first page has a free slot. -/
theorem findNewEntry_head {pos : VaLabel} {parent n : Nat} (h : (s.hd s.vaHeader).freeEntries ≠ 0) :
    findNewEntry env (n + 1) pos parent s =
      .ok (some (s.vaLatest + 51), initEntry pos parent (s.vaLatest + 51) s.vaHeader s) := by
  rw [findNewEntry, findNewEntryLoop, if_neg h]
  rfl

/-- The first page, mapped. -/
def withHeader (env : Env) (s : VaState) : VaState :=
  let s := s.mapPage env vaTree
  let s := { s with vaTop := (s.vaTop + 0x1000) % 2 ^ 64, vaHeader := vaTree, max := vaCapacity }
  s.setHd vaTree fun _ =>
    { freeEntries := vaCapacity, unusedEntries := 0, nextPage := 0, formerPage := 0 }

/-- The first page with its nodes. -/
def withNodes (kernelEnd : Nat) (s : VaState) : VaState :=
  let s := initKernelRoot kernelEnd s
  let s := initEntry .right (nodeAt vaTree 0) (nodeAt vaTree 1) vaTree s
  let s := initKernelSpace (nodeAt vaTree 1) s
  let s := initEntry .noParent 0 (nodeAt vaTree 2) vaTree s
  initUserRoot (nodeAt vaTree 2) s

theorem initTrees_withHeader (h : Cold s) (n : Nat) :
    initTrees kernelEnd env (n + 1) (withHeader env s) = .ok (withNodes kernelEnd (withHeader env s)) := by
  have h0 : (withHeader env s).vaEntries = 0 := h.entries
  have hfree : ((initKernelRoot kernelEnd (withHeader env s)).hd vaTree).freeEntries = 78 := by
    simp [initKernelRoot, withHeader, VaState.setHd, VaState.setNode, vaCapacity_eq, subU64]
  obtain ⟨s₁, hs₁⟩ : ∃ s₁, s₁ = initKernelRoot kernelEnd (withHeader env s) := ⟨_, rfl⟩
  obtain ⟨s₂, hs₂⟩ : ∃ s₂, s₂ = initKernelSpace (nodeAt vaTree 1)
      (initEntry .right (nodeAt vaTree 0) (nodeAt vaTree 1) vaTree s₁) := ⟨_, rfl⟩
  have hfree₂ : (s₂.hd vaTree).freeEntries = 77 := by
    rw [← hs₁] at hfree
    simp [hs₂, initKernelSpace, initEntry, linkChild, VaState.setHd, VaState.setNode, hfree, subU64]
  have hhd₁ : s₁.vaHeader = vaTree := by rw [hs₁]; rfl
  have hk₁ : s₁.vaKstart = nodeAt vaTree 0 := by rw [hs₁]; rfl
  have hl₁ : s₁.vaLatest + 51 = nodeAt vaTree 1 := by rw [hs₁]; rfl
  have hhd₂ : s₂.vaHeader = vaTree := by rw [hs₂]; exact hhd₁
  have hl₂ : s₂.vaLatest + 51 = nodeAt vaTree 2 := by rw [hs₂]; rfl
  rw [initTrees, if_pos h0]
  dsimp only
  rw [← hs₁, hk₁, findNewEntry_head (by rw [hhd₁, hs₁, hfree]; decide), hl₁, hhd₁]
  show (findNewEntry env (n + 1) .noParent 0 (initKernelSpace (nodeAt vaTree 1)
      (initEntry .right (nodeAt vaTree 0) (nodeAt vaTree 1) vaTree s₁)) >>= _) = _
  rw [← hs₂, findNewEntry_head (by rw [hhd₂, hfree₂]; decide), hl₂, hhd₂, hs₂, hs₁]
  rfl

theorem initialised_withNodes (env : Env) (h : Cold s) (hk : KernelEnds kernelEnd) :
    Initialised kernelEnd (withNodes kernelEnd (withHeader env s)) := by
  obtain ⟨-, hlo, hhi⟩ := kernelStart_eq hk
  have hlen : (subU64 0xFFFF8FFFFFFFFFFF (kernelStart kernelEnd) + 1) % 2 ^ 64 =
      0xFFFF900000000000 - kernelStart kernelEnd := by
    rw [subU64]
    omega
  have h01 : nodeAt vaTree 0 ≠ nodeAt vaTree 1 := by decide
  have h02 : nodeAt vaTree 0 ≠ nodeAt vaTree 2 := by decide
  have h12 : nodeAt vaTree 1 ≠ nodeAt vaTree 2 := by decide
  refine ⟨?_, ?_, ?_, ?_, ?_, rfl, rfl, rfl, rfl, rfl, h.pages, ?_, h.cache⟩
  · simpa [withNodes, initUserRoot, initEntry, initKernelSpace, linkChild, initKernelRoot, withHeader,
      VaState.setNode, VaState.setHd, VaState.mapPage, firstKernelNode, h01, h02] using hlen
  · simp [withNodes, initUserRoot, initEntry, initKernelSpace, linkChild, initKernelRoot, withHeader,
      VaState.setNode, VaState.setHd, VaState.mapPage, firstRightNode, h01, h12, h01.symm]
  · simp [withNodes, initUserRoot, initEntry, initKernelSpace, linkChild, initKernelRoot, withHeader,
      VaState.setNode, VaState.setHd, VaState.mapPage, firstUserNode, h02.symm, h12.symm]
  · simp [withNodes, initUserRoot, initEntry, initKernelSpace, linkChild, initKernelRoot, withHeader,
      VaState.setNode, VaState.setHd, VaState.mapPage, vaCapacity_eq, subU64]
  · show s.vaEntries + 1 + 1 + 1 = 3
    rw [h.entries]
    rfl
  · show (s.vaTop + 0x1000) % 2 ^ 64 = _
    rw [h.top]
    rfl

/-- The first node is the parent of the second, and there are no other links. -/
theorem Initialised.child_iff (h : Initialised kernelEnd s) {a b : Nat} (ha : a ∈ firstNodes) :
    Child s a b ↔ a = nodeAt vaTree 0 ∧ b = nodeAt vaTree 1 := by
  simp only [firstNodes, Finset.mem_insert, Finset.mem_singleton] at ha
  have h1 : nodeAt vaTree 1 ≠ 0 := nodeAt_ne_zero
  rcases ha with rfl | rfl | rfl
  · rw [Child, h.kernel, firstKernelNode]
    constructor
    · rintro ⟨h0, hb | hb⟩
      · exact absurd hb.symm h0
      · exact ⟨rfl, hb.symm⟩
    · rintro ⟨-, rfl⟩
      exact ⟨h1, Or.inr rfl⟩
  · rw [Child, h.right, firstRightNode]
    constructor
    · rintro ⟨h0, hb | hb⟩ <;> exact absurd hb.symm h0
    · rintro ⟨hc, -⟩
      exact absurd hc (by decide)
  · rw [Child, h.user, firstUserNode]
    constructor
    · rintro ⟨h0, hb | hb⟩ <;> exact absurd hb.symm h0
    · rintro ⟨hc, -⟩
      exact absurd hc (by decide)

theorem Initialised.forest (h : Initialised kernelEnd s) :
    Forest firstNodes {s.vaKstart, s.vaUstart} (Child s) := by
  have h01 : nodeAt vaTree 0 ≠ nodeAt vaTree 1 := by decide
  rw [h.kstart, h.ustart]
  refine ⟨by decide, fun a ha b hab => ?_, fun b hb hr => ?_, fun a ha a' ha' b hab hab' => ?_,
    fun a ha r hr har => ?_, fun x => if x = nodeAt vaTree 1 then 1 else 0, fun a ha b hab => ?_⟩
  · rw [((h.child_iff ha).mp hab).2]
    decide
  · have hb' : b = nodeAt vaTree 1 := by
      simp only [firstNodes, Finset.mem_insert, Finset.mem_singleton] at hb hr
      tauto
    exact ⟨nodeAt vaTree 0, by decide, (h.child_iff (by decide)).mpr ⟨rfl, hb'⟩⟩
  · rw [((h.child_iff ha).mp hab).1, ((h.child_iff ha').mp hab').1]
  · obtain ⟨-, rfl⟩ := (h.child_iff ha).mp har
    exact absurd hr (by decide)
  · obtain ⟨rfl, rfl⟩ := (h.child_iff ha).mp hab
    simp [h01]

theorem Initialised.tree (h : Initialised kernelEnd s) : Tree firstNodes s := by
  have hcases : ∀ a ∈ firstNodes, a = nodeAt vaTree 0 ∨ a = nodeAt vaTree 1 ∨ a = nodeAt vaTree 2 := by
    simp [firstNodes]
  refine ⟨by decide, h.forest, ?_, fun a ha b hab => ?_, ?_, ?_, fun a ha => ?_, fun a ha => ?_,
    fun a ha b hab => ?_, ?_, ?_⟩
  · rw [h.kstart, h.ustart]
    decide
  · obtain ⟨rfl, rfl⟩ := (h.child_iff ha).mp hab
    rw [h.right]
    rfl
  · rw [h.kstart, h.kernel]
    rfl
  · rw [h.ustart, h.user]
    rfl
  · rcases hcases a ha with rfl | rfl | rfl
    · rw [h.kernel]
      exact fun _ => rfl
    · rw [h.right]
      exact fun _ => rfl
    · rw [h.user]
      exact fun _ => rfl
  · rcases hcases a ha with rfl | rfl | rfl
    · rw [h.kernel]
      rfl
    · rw [h.right]
      rfl
    · rw [h.user]
      rfl
  · obtain ⟨rfl, rfl⟩ := (h.child_iff ha).mp hab
    rw [h.right, h.kernel]
    rfl
  · rw [h.kstart, h.kernel]
    rfl
  · rw [h.ustart, h.user]
    rfl

theorem Initialised.carved (h : Initialised kernelEnd s) : s.carved vaTree = 3 := by
  simp [VaState.carved, h.max, h.page]

theorem Initialised.slots (h : Initialised kernelEnd s) : Slots firstNodes [vaTree] s := by
  have hmem : ∀ i, i < 3 → nodeAt vaTree i ∈ firstNodes := by decide
  have hhd : ∀ a ∈ firstNodes, findHd a = vaTree := by
    intro a ha
    simp only [firstNodes, Finset.mem_insert, Finset.mem_singleton] at ha
    rcases ha with rfl | rfl | rfl <;> exact findHd_nodeAt (by decide) (by decide)
  refine ⟨h.max, fun p hp => ?_, fun p hp => ?_, fun p hp hne => ?_, ?_, ?_, fun a ha => ?_,
    fun p hp i hi hnot => ?_, fun p hp => ?_⟩
  · rw [List.mem_singleton.mp hp, h.page]
    decide
  · rw [List.mem_singleton.mp hp, h.page]
    decide
  · exact absurd (List.mem_singleton.mp hp) hne
  · rw [h.latest]
    show _ = nodeAt vaTree (s.carved vaTree)
    rw [h.carved]
    rfl
  · show 0 < s.carved vaTree
    rw [h.carved]
    decide
  · refine ⟨vaTree, List.mem_singleton_self _, ?_⟩
    rw [h.carved]
    simp only [firstNodes, Finset.mem_insert, Finset.mem_singleton] at ha
    rcases ha with rfl | rfl | rfl
    · exact ⟨0, by decide, rfl⟩
    · exact ⟨1, by decide, rfl⟩
    · exact ⟨2, by decide, rfl⟩
  · rw [List.mem_singleton.mp hp] at hi hnot
    rw [h.carved] at hi
    exact absurd (hmem i hi) hnot
  · rw [List.mem_singleton.mp hp, Finset.filter_true_of_mem hhd, h.page]
    decide

theorem Initialised.pageList (h : Initialised kernelEnd s) : PageList [vaTree] s := by
  refine ⟨⟨?_, ?_, trivial⟩, ?_, by simp, fun p hp => ?_, ?_, fun i hi => ?_, fun i j _ hj => ?_, ?_⟩
  · show (s.hd vaTree).formerPage = 0
    rw [h.page]
  · show (s.hd vaTree).nextPage = 0
    rw [h.page]
  · rw [h.header]
    rfl
  · rw [List.mem_singleton.mp hp, h.top]
    decide
  · rw [h.top]
    decide
  · rw [h.cache] at hi
    exact absurd hi (by omega)
  · rw [h.cache] at hj
    exact absurd hj (by omega)
  · rw [h.pages]
    rfl

theorem Initialised.maxLength (h : Initialised kernelEnd s) (hk : KernelEnds kernelEnd) :
    MaxExcept ∅ firstNodes s := by
  obtain ⟨-, hlo, hhi⟩ := kernelStart_eq hk
  intro a ha _
  simp only [firstNodes, Finset.mem_insert, Finset.mem_singleton] at ha
  rcases ha with rfl | rfl | rfl
  · have h1 : nodeAt vaTree 1 ≠ 0 := nodeAt_ne_zero
    have hlt : 0xFFFF900000000000 - kernelStart kernelEnd < 0x400000000000 := by omega
    simp [maxOf, h.kernel, firstKernelNode, h.right, firstRightNode, h1, hlt]
  · rw [maxOf, h.right]
    simp [firstRightNode]
  · rw [maxOf, h.user]
    simp [firstUserNode]

/-- **After the first call the allocator is in order.** -/
theorem Initialised.shape (h : Initialised kernelEnd s) (hk : KernelEnds kernelEnd) :
    VaShape firstNodes [vaTree] s where
  pages := h.pageList
  slots := h.slots
  tree := h.tree
  max := h.maxLength hk
  entries := by
    rw [h.entries]
    decide
  kstart := by rw [h.kstart, h.header]
  ustart := by rw [h.ustart, h.header]

/-- **The first call** sets up the allocator and goes on with it, if there is memory for the first
page. -/
theorem vaAlloc_cold (h : Cold s) (hk : KernelEnds kernelEnd) {pages : Nat} (attributes : Nat)
    (hp : pages ≠ 0) (hvm : env.vmalloc vaTree 1 0x03 = true) :
    ∃ s', Initialised kernelEnd s' ∧ s'.freed = s.freed ∧ ∀ n,
      vaAlloc kernelEnd env (n + 1) pages attributes s = takeRange env (n + 1) pages attributes s' := by
  refine ⟨_, initialised_withNodes env h hk, rfl, fun n => ?_⟩
  have hinit : initHeader env s = some (withHeader env s) := by
    rw [initHeader, if_pos h.header, if_pos hvm]
    rfl
  rw [vaAlloc, if_neg hp, hinit]
  show (initTrees kernelEnd env (n + 1) (withHeader env s) >>= _) = _
  rw [initTrees_withHeader h]
  rfl

/-- Without memory for the first page nothing happens. -/
theorem vaAlloc_cold_refused (h : Cold s) {pages attributes n : Nat}
    (hno : pages = 0 ∨ env.vmalloc vaTree 1 0x03 = false) :
    vaAlloc kernelEnd env n pages attributes s = .ok ({ status := 1 }, s) := by
  rw [vaAlloc]
  split
  · rfl
  · rename_i hp
    rw [initHeader, if_pos h.header, if_neg (by simp [hno.resolve_left hp])]

/-- **`va_alloc` returns**, and once the allocator is set up it is one of the cases of `AllocResult`.  `P`
is what else is known of the nodes. -/
theorem vaAlloc_cases {P : Finset Nat → VaState → Prop} {pages : Nat} (hk : KernelEnds kernelEnd)
    (env : Env) (attributes : Nat) (hp : pages < 2 ^ 52)
    (h : Cold s ∨ ∃ S pg, VaShape S pg s ∧ P S s)
    (hlt : ∀ S s, P S s → ∀ x ∈ S, (s.node x).length < 2 ^ 64)
    (hfirst : Cold s → ∀ s₁, Initialised kernelEnd s₁ → P firstNodes s₁) :
    ∃ r, Settles (fun n => vaAlloc kernelEnd env n pages attributes s) r ∧
      (r = ({ status := 1 }, s) ∨ ∃ S pg s₁, VaShape S pg s₁ ∧ P S s₁ ∧ 0 < pages ∧
        (s₁ = s ∨ (Cold s ∧ Initialised kernelEnd s₁)) ∧
        AllocResult env S pages attributes s₁ r.1 r.2) := by
  by_cases h0 : pages = 0
  · exact ⟨_, (Settles.const _).congr fun n => if_pos h0, Or.inl rfl⟩
  have hpos : 0 < pages := Nat.pos_of_ne_zero h0
  rcases h with hcold | ⟨S, pg, hshape, hP⟩
  · by_cases hvm : env.vmalloc vaTree 1 0x03 = true
    · obtain ⟨s₁, hinit, -, hcall⟩ := vaAlloc_cold hcold hk attributes h0 hvm
      have hP := hfirst hcold s₁ hinit
      obtain ⟨r, ⟨N, hN⟩, hres⟩ : ∃ r, Settles (fun n => takeRange env n pages attributes s₁) r ∧
        AllocResult env firstNodes pages attributes s₁ r.1 r.2 :=
          takeRange_spec (hinit.shape hk) hp (hlt _ _ hP)
      refine ⟨r, ⟨N + 1, fun n hn => ?_⟩, Or.inr ⟨_, _, s₁, hinit.shape hk, hP, hpos,
        Or.inr ⟨hcold, hinit⟩, hres⟩⟩
      obtain ⟨m, rfl⟩ : ∃ m, n = m + 1 := ⟨n - 1, by omega⟩
      exact (hcall m).trans (hN _ (by omega))
    · exact ⟨_, (Settles.const _).congr fun n => vaAlloc_cold_refused hcold (Or.inr (by simpa using hvm)),
        Or.inl rfl⟩
  · obtain ⟨r, hset, hres⟩ : ∃ r, Settles (fun n => Dem64.vaAlloc kernelEnd env n pages attributes s) r ∧
      AllocResult env S pages attributes s r.1 r.2 := vaAlloc_spec hshape hp (hlt _ _ hP)
    exact ⟨r, hset, Or.inr ⟨S, pg, s, hshape, hP, hpos, Or.inl rfl, hres⟩⟩

end

end Dem64
