import Dem64.VaAlloc.Roots

/-!
# `va_free` without memory for its own nodes

`va_free` keeps the range it is given in a node, and the node may need a new metadata page.  When
`vmalloc` has no memory for the page `find_new_entry` returns `NULL`, and `va_free` writes the range
through it.

`vaFree_null_iff` says of any state, whether in order or not, that `va_free` accesses the null pointer
exactly when it needs a page and gets none.  No branch of it does better: `vaFree_without_memory`.
-/

set_option autoImplicit false

namespace Dem64

/-- The pages from `hd` on are full of nodes, and there is a last one. -/
inductive FullFrom (s : VaState) : Nat → Prop
  /-- `hd` is the last one. -/
  | last {hd : Nat} (hfree : (s.hd hd).freeEntries = 0) (hnext : (s.hd hd).nextPage = 0) : FullFrom s hd
  /-- There are pages behind `hd`. -/
  | next {hd : Nat} (hfree : (s.hd hd).freeEntries = 0) (hnext : (s.hd hd).nextPage ≠ 0)
      (h : FullFrom s (s.hd hd).nextPage) : FullFrom s hd

/-- `va_free` finds no blank slot: the only page has none, or the search of all pages finds none. -/
def NoBlank (s : VaState) : Prop :=
  (s.vaMetadataPages = 0 ∧ (s.hd s.vaHeader).unusedEntries = 0) ∨
    Settles (fun n => findUnused s n s.vaHeader) none

/-- `va_free` needs a new metadata page for the range. -/
structure NeedsPage (desc : VaRet) (s : VaState) : Prop where
  /-- There is a range to give back. -/
  range : desc.status = 0 ∧ desc.pages ≠ 0
  /-- There is a node to hang it under. -/
  room : ∃ page last, Settles (fun n => findLast s n desc.attributes s.vaHeader) (some (page, last))
  /-- There is no blank slot. -/
  noBlank : NoBlank s
  /-- There is no free one. -/
  full : FullFrom s s.vaHeader

section

variable {s s' : VaState} {env : Env} {n : Nat} {desc : VaRet}

/-! ## The loops do not fail

They access no null pointer, so that they either end or go on. -/

theorem updateParents_error {entry : Nat} {e : Fault} (h : updateParents n entry s = .error e) :
    e = .fuel := by
  induction n generalizing entry s with
  | zero =>
    rw [updateParents] at h
    cases h
    rfl
  | succ n ih =>
    rw [updateParents] at h
    split at h
    · cases h
    · exact ih h

theorem scanPages_error {q : VaHd → Bool} {p : VaNode → Bool} {page : Nat} {e : Fault}
    (h : scanPages q p s n page = .error e) : e = .fuel := by
  induction n generalizing page with
  | zero =>
    rw [scanPages] at h
    cases h
    rfl
  | succ n ih =>
    rw [scanPages] at h
    split at h
    · cases h
    · split at h
      · cases h
      · exact ih h

theorem findNewEntryLoop_error {hd : Nat} {e : Fault} (h : findNewEntryLoop env n hd s = .error e) :
    e = .fuel := by
  induction n generalizing hd with
  | zero =>
    rw [findNewEntryLoop] at h
    cases h
    rfl
  | succ n ih =>
    rw [findNewEntryLoop] at h
    split at h
    · split at h
      · split at h <;> cases h
      · exact ih h
    · cases h

/-! ## `find_new_entry` -/

/-- Where the next page is tried, in both branches. -/
theorem takePage_none : (takePage env s).1 = none ↔ env.vmalloc s.nextPageAddr 1 0x03 = false := by
  rw [takePage, VaState.nextPageAddr]
  by_cases hidx : s.cacheIndex > 0
  · simp only [if_pos hidx]
    split <;> simp [*]
  · simp only [if_neg hidx]
    split <;> simp [*]

theorem findNewEntryLoop_null {hd : Nat} (hvm : env.vmalloc s.nextPageAddr 1 0x03 = false)
    (h : FullFrom s hd) :
    Settles (fun n => findNewEntryLoop env n hd s) (none, (takePage env s).2) := by
  have hnone := takePage_none.mpr hvm
  induction h with
  | last hfree hnext =>
    refine Settles.of_succ fun n => ?_
    rw [findNewEntryLoop, if_pos hfree, if_pos hnext]
    split
    · rename_i heq
      rw [heq]
    · rename_i heq
      rw [heq] at hnone
      exact absurd hnone (by simp)
  | next hfree hnext _ ih =>
    refine ih.succ fun n => ?_
    rw [findNewEntryLoop, if_pos hfree, if_neg hnext]

theorem fullFrom_of_null {hd : Nat} (h : findNewEntryLoop env n hd s = .ok (none, s')) :
    FullFrom s hd ∧ env.vmalloc s.nextPageAddr 1 0x03 = false := by
  induction n generalizing hd with
  | zero =>
    rw [findNewEntryLoop] at h
    cases h
  | succ n ih =>
    rw [findNewEntryLoop] at h
    split at h
    · rename_i hfree
      split at h
      · rename_i hnext
        split at h
        · rename_i heq
          exact ⟨.last hfree hnext, takePage_none.mp (by rw [heq])⟩
        · cases h
      · rename_i hnext
        exact ⟨.next hfree hnext (ih h).1, (ih h).2⟩
    · cases h

/-- **`find_new_entry` returns `NULL`** when it needs a page and gets none. -/
theorem findNewEntry_null (pos : VaLabel) (parent : Nat) (h : FullFrom s s.vaHeader)
    (hvm : env.vmalloc s.nextPageAddr 1 0x03 = false) :
    Settles (fun n => findNewEntry env n pos parent s) (none, (takePage env s).2) :=
  (findNewEntryLoop_null hvm h).bind (Settles.const _)

theorem carveSlot_null {last : Nat} (h : carveSlot env n desc last s = .error .null) :
    FullFrom s s.vaHeader ∧ env.vmalloc s.nextPageAddr 1 0x03 = false := by
  rcases bind_eq_error_iff.mp h with h | ⟨⟨o, s₁⟩, hnew, h⟩
  · rcases bind_eq_error_iff.mp h with h | ⟨⟨o, s₁⟩, -, h⟩
    · exact absurd (findNewEntryLoop_error h) (by decide)
    · rcases o with _ | ⟨entry, hd⟩ <;> cases h
  · cases o with
    | some a =>
      rcases bind_eq_error_iff.mp h with h | ⟨s₂, -, h⟩
      · exact absurd (updateParents_error h) (by decide)
      · cases h
    | none =>
      obtain ⟨⟨o, s₂⟩, hloop, h⟩ := bind_eq_ok_iff.mp hnew
      rcases o with _ | ⟨entry, hd⟩
      · exact fullFrom_of_null hloop
      · cases h

theorem fullFrom_of_linked {b : Nat} : ∀ {l : List Nat}, l ≠ [] →
    Dll (fun p => (s.hd p).nextPage) (fun p => (s.hd p).formerPage) b l 0 → (∀ p ∈ l, 0 < p) →
    (∀ p ∈ l, (s.hd p).freeEntries = 0) → FullFrom s (l.headD 0)
  | [], hne, _, _, _ => absurd rfl hne
  | [y], _, hl, _, hfree => .last (hfree y (by simp)) hl.2.1
  | y :: z :: l, _, hl, hpos, hfree => by
    have hnext : (s.hd y).nextPage = z := hl.2.1
    have hz : z ≠ 0 := Nat.pos_iff_ne_zero.mp (hpos z (by simp))
    have ih := fullFrom_of_linked (l := z :: l) (by simp) hl.2.2
      (fun p hp => hpos p (List.mem_cons_of_mem _ hp)) fun p hp => hfree p (List.mem_cons_of_mem _ hp)
    refine .next (hfree y (by simp)) (by rwa [List.headD_cons, hnext]) ?_
    rwa [List.headD_cons, hnext]

/-- Without blank slots every page is full when the last one is. -/
theorem VaShape.fullFrom {S : Finset Nat} {pg : List Nat} (h : VaShape S pg s)
    (hun : ∀ p ∈ pg, (s.hd p).unusedEntries = 0) (hfree : (s.hd (pg.getLastD 0)).freeEntries = 0) :
    FullFrom s s.vaHeader := by
  rw [← h.pages.headD]
  refine fullFrom_of_linked (fun hnil => ?_) h.pages.linked (fun p hp => (h.pages.page p hp).1)
    fun p hp => ?_
  · have hhead := h.pages.head
    rw [hnil] at hhead
    exact absurd hhead (by simp)
  · by_cases hlast : p = pg.getLastD 0
    · rwa [hlast]
    · exact h.slots.free_eq_zero hp (hun p hp) hlast

/-! ## `va_free` -/

theorem freeBelow_null {o : Option (Nat × Nat)} (h : freeBelow env desc s o n = .error .null) :
    (∃ page last, o = some (page, last)) ∧ NoBlank s ∧ FullFrom s s.vaHeader ∧
      env.vmalloc s.nextPageAddr 1 0x03 = false := by
  rcases o with _ | ⟨page, last⟩
  · cases h
  refine ⟨⟨page, last, rfl⟩, ?_⟩
  rw [freeBelow] at h
  split at h
  · rename_i hone
    exact ⟨.inl hone, carveSlot_null h⟩
  · rcases bind_eq_error_iff.mp h with h | ⟨o, hunused, h⟩
    · exact absurd (scanPages_error h) (by decide)
    · rcases o with _ | ⟨page', a⟩
      · exact ⟨.inr ((fueled_scanPages _ _ _).settles hunused), carveSlot_null h⟩
      · rcases bind_eq_error_iff.mp h with h | ⟨s₁, -, h⟩
        · exact absurd (updateParents_error h) (by decide)
        · cases h

theorem needsPage_of_null (h : vaFree env n desc s = .error .null) :
    NeedsPage desc s ∧ env.vmalloc s.nextPageAddr 1 0x03 = false := by
  by_cases hdesc : desc.status = 0 ∧ desc.pages ≠ 0
  · rw [vaFree_eq hdesc.1 hdesc.2] at h
    rcases bind_eq_error_iff.mp h with h | ⟨o, hlast, h⟩
    · exact absurd (scanPages_error h) (by decide)
    · obtain ⟨⟨page, last, rfl⟩, hblank, hfull, hvm⟩ := freeBelow_null h
      exact ⟨⟨hdesc, ⟨page, last, (fueled_scanPages _ _ _).settles hlast⟩, hblank, hfull⟩, hvm⟩
  · rw [vaFree, if_pos (by omega)] at h
    cases h

/-- **The null pointer.**  A `va_free` that needs a page and gets none accesses the node that
`find_new_entry` did not give it. -/
theorem NeedsPage.null (h : NeedsPage desc s) (hvm : env.vmalloc s.nextPageAddr 1 0x03 = false) :
    ∃ N, ∀ n, N ≤ n → vaFree env n desc s = .error .null := by
  obtain ⟨page, last, hlast⟩ := h.room
  obtain ⟨N, hN⟩ := hlast
  obtain ⟨M, hM⟩ := findNewEntry_null .noParent 0 h.full hvm
  have hcarve : ∀ n, M ≤ n → carveSlot env n desc last s = .error .null := fun n hn =>
    bind_eq_error_iff.mpr (.inr ⟨_, hM n hn, rfl⟩)
  have hbelow : ∃ K, ∀ n, K ≤ n → freeBelow env desc s (some (page, last)) n = .error .null := by
    by_cases hone : s.vaMetadataPages = 0 ∧ (s.hd s.vaHeader).unusedEntries = 0
    · exact ⟨M, fun n hn => by rw [freeBelow, if_pos hone, hcarve n hn]⟩
    · obtain ⟨K, hK⟩ := h.noBlank.resolve_left hone
      refine ⟨K + M, fun n hn => ?_⟩
      rw [freeBelow, if_neg hone]
      exact bind_eq_error_iff.mpr (.inr ⟨_, hK n (by omega), hcarve n (by omega)⟩)
  obtain ⟨K, hK⟩ := hbelow
  refine ⟨N + K, fun n hn => ?_⟩
  rw [vaFree_eq h.range.1 h.range.2]
  exact bind_eq_error_iff.mpr (.inr ⟨_, hN n (by omega), hK n (by omega)⟩)

/-- **`va_free` without memory.**  `va_free` accesses no null pointer exactly when `vmalloc` has memory
for the page, if it needs one. -/
theorem vaFree_null_iff (env : Env) (desc : VaRet) (s : VaState) :
    (∀ n, vaFree env n desc s ≠ .error .null) ↔
      (NeedsPage desc s → env.vmalloc s.nextPageAddr 1 0x03 = true) := by
  constructor
  · intro hsafe hneeds
    by_contra hvm
    obtain ⟨N, hN⟩ := hneeds.null (by simpa using hvm)
    exact hsafe N (hN N (Nat.le_refl N))
  · intro hmem n hnull
    obtain ⟨hneeds, hvm⟩ := needsPage_of_null hnull
    rw [hmem hneeds] at hvm
    exact absurd hvm (by simp)

end

/-! ## A full page

`va_alloc` of one page of user space takes it from the root, as long as the root is long enough, and
`va_free` makes a new node of it.  So a program that takes a page and gives it back, over and over,
fills the first metadata page with nodes. -/

/-- The first metadata page is the only one, `k` nodes were added to the first three, and the root of
the user tree has lost `j` pages. -/
structure Filling (k j : Nat) (S : Finset Nat) (s : VaState) : Prop where
  shape : VaShape S [vaTree] s
  card : S.card = 3 + k
  /-- No slot is blank. -/
  unused : (s.hd vaTree).unusedEntries = 0
  /-- Every node has a range. -/
  ranges : ∀ x ∈ S, (s.node x).length ≠ 0
  root : (s.node s.vaUstart).length = 0x7FFFC0000000 - 4096 * j

section

variable {k j : Nat} {S : Finset Nat} {s : VaState} {r : VaRet} {kernelEnd : Nat}

/-- With one page all nodes sit in it. -/
theorem VaShape.card_add (h : VaShape S [vaTree] s) : S.card + (s.hd vaTree).freeEntries = 79 ∧
    s.carved vaTree = S.card + (s.hd vaTree).unusedEntries := by
  have hcount := h.slots.count vaTree (by simp)
  have hadd := h.slots.carved_add (p := vaTree) (by simp)
  rw [Finset.filter_true_of_mem fun a ha => List.mem_singleton.mp (h.slots.findHd_mem h.pages ha).1]
    at hcount
  omega

theorem Initialised.filling (h : Initialised kernelEnd s) (hk : KernelEnds kernelEnd) :
    Filling 0 0 firstNodes s where
  shape := h.shape hk
  card := by decide
  unused := by rw [h.page]
  ranges := by
    intro x hx
    obtain ⟨-, hlo, hhi⟩ := kernelStart_eq hk
    simp only [firstNodes, Finset.mem_insert, Finset.mem_singleton] at hx
    rcases hx with rfl | rfl | rfl
    · rw [h.kernel]
      simp only [firstKernelNode]
      omega
    · rw [h.right]
      decide
    · rw [h.user]
      decide
  root := by
    rw [h.ustart, h.user]
    decide

/-- One page is taken from the root. -/
theorem Filling.alloc (h : Filling k j S s) (hj : j < 1000) :
    ∃ s', Settles (fun n => takeRange plenty n 1 0x07 s) (granted s s.vaUstart 1 0x07, s') ∧
      Filling k (j + 1) S s' := by
  have hmem := h.shape.tree.ustart_mem
  have hroot := h.root
  have hlt : 4096 < (s.node s.vaUstart).length ∧ (s.node s.vaUstart).length < 2 ^ 64 := by omega
  obtain ⟨s', hset, hshape, hcons, -, -, hgone⟩ := h.shape.shrink hmem
    (show 4096 ≤ _ by omega) hlt.2
  have hfit : ∀ n, findFit s 4096 (n + 1) s.vaUstart = .ok s.vaUstart := by
    intro n
    simp only [findFit, if_neg (h.shape.tree.ne_zero _ hmem), if_pos (show _ ≥ _ from hlt.1.le)]
  have hconsume : Settles (fun n => consume n s.vaUstart 4096 s) s' := by
    refine (hset.bind (g := fun s' _ => .ok s') (Settles.const s')).congr fun n => ?_
    rw [consume]
    simp only [show (s.node s.vaUstart).length ≠ 4096 by omega, false_and, if_false]
  refine ⟨s', ?_, hshape, h.card, ?_, fun x hx => ?_, ?_⟩
  · obtain ⟨N, hN⟩ := hconsume
    refine ⟨N + 1, fun n hn => ?_⟩
    obtain ⟨m, rfl⟩ : ∃ m, n = m + 1 := ⟨n - 1, by omega⟩
    refine bind_eq_ok_iff.mpr ⟨s.vaUstart, hfit m, ?_⟩
    rw [if_neg (h.shape.tree.ne_zero _ hmem)]
    exact bind_eq_ok_iff.mpr ⟨s', hN _ (by omega), rfl⟩
  · have h1 := h.shape.card_add
    have h2 := hshape.card_add
    have h3 := hgone.carved vaTree
    have h4 := h.unused
    omega
  · by_cases hxr : x = s.vaUstart
    · rw [hxr, hcons.length]
      omega
    · rw [(hcons.other x hxr).2.1]
      exact h.ranges x hx
  · rw [hcons.ustart, hcons.length]
    omega

/-- There is always a node without children to hang a range under. -/
theorem Filling.hasRoom (h : Filling k j S s) : HasRoom S s 0x07 := by
  have ht := h.shape.tree
  obtain ⟨b, hpath, hleaf⟩ := ht.forest.exists_leaf _ ht.ustart_mem
  obtain ⟨hb, hattr⟩ := ht.attr_of_path ht.ustart_mem hpath
  rw [ht.uattr] at hattr
  have hright : (s.node b).vaRight = 0 := by
    by_contra hne
    exact hleaf _ ⟨hne, .inr rfl⟩
  have hleft : (s.node b).vaLeft = 0 := by
    by_contra hne
    exact hleaf _ ⟨hne, .inl rfl⟩
  have hused : (s.node b).usedNodes = 0 := by rw [ht.used b hb, usedBits, if_pos hright, if_pos hleft]
  exact ⟨b, hb, VaNode.hasRoom_iff.mpr ⟨hattr, by rw [hused]; decide, h.ranges b hb⟩⟩

theorem Filling.unused_pages (h : Filling k j S s) : ∀ p ∈ [vaTree], (s.hd p).unusedEntries = 0 := by
  intro p hp
  rw [List.mem_singleton.mp hp]
  exact h.unused

/-- Giving the page back carves a slot. -/
theorem Filling.free (h : Filling k j S s) (hk : k < 76) (hstatus : r.status = 0) (hpages : r.pages = 1)
    (hattr : r.attributes = 0x07) :
    ∃ a s', Settles (fun n => vaFree plenty n r s) s' ∧ Filling (k + 1) j (insert a S) s' := by
  have hcard := h.shape.card_add
  have hfill := h.card
  have hunused := h.unused
  have hheader : s.vaHeader = vaTree := by simpa using h.shape.pages.head.symm
  have hready : PageReady plenty [vaTree] s := by
    intro hfull
    have hfull : (s.hd vaTree).freeEntries = 0 := hfull
    omega
  obtain ⟨a, pg', s', hset, hshape, hret, -, hcase⟩ := vaFree_spec h.shape hstatus (by omega)
    (hattr ▸ h.hasRoom) (fun hun => absurd (hheader ▸ h.unused) hun) fun _ => hready
  have hcard' : (insert a S).card = S.card + 1 := Finset.card_insert_of_notMem hret.notMem
  have hroot : s.vaUstart ≠ a := fun heq => hret.notMem (heq ▸ h.shape.tree.ustart_mem)
  -- no page was taken, and the slot was carved
  obtain ⟨rfl, hcarved⟩ : pg' = [vaTree] ∧ s'.carved vaTree = s.carved vaTree + 1 := by
    rcases hcase with hsame | ⟨x, c, hnew⟩
    · obtain rfl := hsame.pages
      have h1 := hshape.card_add
      have h2 := hsame.carved vaTree
      omega
    · rcases hnew.pages with ⟨rfl, rfl, rfl⟩ | ⟨rfl, -, hx, -⟩
      · exact ⟨rfl, (hnew.carved vaTree).trans (if_pos rfl)⟩
      · exfalso
        have hx : x ≠ vaTree := by simpa using hx
        have hfull := hshape.slots.full vaTree (by simp) (by simpa using hx.symm)
        rw [hnew.carved, if_neg hx.symm] at hfull
        omega
  have hafter := hshape.card_add
  refine ⟨a, s', hset, hshape, by omega, by omega, fun x hx => ?_, ?_⟩
  · rcases Finset.mem_insert.mp hx with rfl | hx
    · rw [hret.length, hpages]
      decide
    · rw [(hret.other x hx).2.1]
      exact h.ranges x hx
  · rw [hret.ustart, (hret.other _ h.shape.tree.ustart_mem).2.1]
    exact h.root

/-- The call that fills the page up to `k` new nodes. -/
theorem exists_filling (hk : KernelEnds kernelEnd) : ∃ r : VaRet, r.status = 0 ∧ r.pages = 1 ∧
    r.attributes = 0x07 ∧ ∀ k, k ≤ 76 → ∃ S s, Filling k (k + 1) S s ∧
      Relation.ReflTransGen (VaStep kernelEnd Limits.none) (coldState, []) (s, [r]) := by
  obtain ⟨s₁, hinit, -, hfirst⟩ := vaAlloc_cold cold_coldState hk 0x07 Nat.one_ne_zero
    (show plenty.vmalloc vaTree 1 0x03 = true from rfl)
  obtain ⟨s₂, ⟨N, hN⟩, hfill⟩ := (hinit.filling hk).alloc (by decide)
  refine ⟨granted s₁ s₁.vaUstart 1 0x07, rfl, rfl, rfl, fun k hk' => ?_⟩
  induction k with
  | zero =>
    refine ⟨_, s₂, hfill, Relation.ReflTransGen.single ?_⟩
    exact VaStep.alloc plenty (N + 1) 1 0x07 (by decide) (.inr rfl)
      ((hfirst N).trans (hN _ (by omega))) fun _ => trivial
  | succ k ih =>
    obtain ⟨S, s, h, hrun⟩ := ih (by omega)
    obtain ⟨s', ⟨M, hM⟩, h'⟩ := h.alloc (by omega)
    obtain ⟨a, s'', ⟨K, hK⟩, h''⟩ := h'.free (r := granted s s.vaUstart 1 0x07) (by omega) rfl rfl rfl
    refine ⟨_, s'', h'', (hrun.tail (VaStep.alloc plenty M 1 0x07 (by decide) (.inr rfl)
      ((h.shape.vaAlloc_eq Nat.one_ne_zero M).trans (hM M le_rfl)) fun _ => trivial)).tail ?_⟩
    have hstep : VaStep kernelEnd Limits.none
        (s', [granted s s.vaUstart 1 0x07, granted s₁ s₁.vaUstart 1 0x07])
        (s'', [granted s s.vaUstart 1 0x07, granted s₁ s₁.vaUstart 1 0x07].erase
          (granted s s.vaUstart 1 0x07)) :=
      VaStep.free plenty K List.mem_cons_self (fun _ => rfl) (hK K le_rfl) trivial
    rwa [List.erase_cons_head] at hstep

/-- A full page needs another one. -/
theorem Filling.needsPage (h : Filling 76 j S s) (hstatus : r.status = 0) (hpages : r.pages = 1)
    (hattr : r.attributes = 0x07) : NeedsPage r s := by
  have hcard := h.shape.card_add
  have hfill := h.card
  have hcount := h.shape.pages.count
  refine ⟨⟨hstatus, by omega⟩, ?_, .inl ⟨?_, ?_⟩, h.shape.fullFrom h.unused_pages ?_⟩
  · obtain ⟨o, hset, ⟨-, hno⟩ | ⟨page, last, rfl, -⟩⟩ := findLast_spec h.shape r.attributes
    · exact absurd (hattr ▸ h.hasRoom) hno
    · exact ⟨page, last, hset⟩
  · simpa using hcount
  · rw [show s.vaHeader = vaTree by simpa using h.shape.pages.head.symm]
    exact h.unused
  · show (s.hd vaTree).freeEntries = 0
    omega

end

/-- No memory for anything. -/
def depleted : Env := ⟨fun _ _ _ => false, fun _ => default⟩

/-- **A range that cannot be given back.**  The first metadata page holds 79 nodes, a user
range is in use, and there is no memory for another page. -/
theorem vaFree_null_reached : ¬ ∀ (kernelEnd : Nat) (s₀ s : VaState) (live : List VaRet) (r : VaRet)
    (env : Env), KernelEnds kernelEnd → Cold s₀ →
    Relation.ReflTransGen (VaStep kernelEnd Limits.none) (s₀, []) (s, live) → r ∈ live →
    NeedsPage r s → env.vmalloc s.nextPageAddr 1 0x03 = false → ∀ n, vaFree env n r s ≠ .error .null := by
  intro hclaim
  have hk : KernelEnds 0xffff800000100000 := ⟨by decide, by decide⟩
  obtain ⟨r, hstatus, hpages, hattr, hfill⟩ := exists_filling hk
  obtain ⟨S, s, h, hrun⟩ := hfill 76 le_rfl
  have hneeds := h.needsPage hstatus hpages hattr
  have hvm : depleted.vmalloc s.nextPageAddr 1 0x03 = false := rfl
  obtain ⟨N, hN⟩ := hneeds.null hvm
  exact hclaim _ _ _ _ r depleted hk cold_coldState hrun (by simp) hneeds hvm N (hN N le_rfl)

end Dem64
