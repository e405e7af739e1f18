import Dem64.VaAlloc.Shape

/-!
# The calls

From an allocator in order, `va_alloc` and `va_free` return, and what they do is one of the changes of
`VaAlloc/Shape.lean`: `va_alloc` takes the front of a node that is long enough (`vaAlloc_spec`), and
`va_free` makes a node of the range (`vaFree_spec`).  The hypotheses are about the state before the
call.  `va_alloc` must not use up a root without children; `va_free` needs a node of the right kind with
a free child slot, must not take a root for a blank slot, and may need memory for a new page.
-/

set_option autoImplicit false

namespace Dem64

/-- `va_free` would take this node for a blank slot. -/
abbrev Reusable (s : VaState) (a : Nat) : Prop := (s.node a).reusable = true

/-- The search of `va_free` for a blank slot does not end at a root: it looks at the first page if this
page has unused slots, and the roots are the first and the third slot there. -/
def RootsSpared (s : VaState) : Prop :=
  (s.hd s.vaHeader).unusedEntries ≠ 0 → ¬ Reusable s s.vaKstart ∧
    (Reusable s s.vaUstart → Reusable s (nodeAt s.vaHeader 1))

/-- The request does not use up the range of a root without children. -/
def SparesRoot (s : VaState) (pages attributes : Nat) : Prop :=
  (s.node (s.root attributes)).length = 4096 * pages →
    (s.node (s.root attributes)).usedNodes ≠ 0

/-- There is a node of the right kind with a free child slot. -/
def HasRoom (S : Finset Nat) (s : VaState) (attributes : Nat) : Prop :=
  ∃ x ∈ S, (s.node x).hasRoom attributes = true

section

variable {S : Finset Nat} {pg : List Nat} {s : VaState} {pages attributes kernelEnd : Nat} {env : Env}

theorem shiftLeft_pages {pages : Nat} (h : pages < 2 ^ 52) : (pages <<< 12) % 2 ^ 64 = 4096 * pages := by
  rw [Nat.shiftLeft_eq]
  omega

theorem VaShape.header_ne_zero (h : VaShape S pg s) : s.vaHeader ≠ 0 :=
  Nat.pos_iff_ne_zero.mp (h.pages.page _ (List.mem_of_mem_head? h.pages.head)).1

theorem VaShape.entries_ne_zero (h : VaShape S pg s) : s.vaEntries ≠ 0 := by
  have hpos := Finset.card_pos.mpr ⟨_, h.tree.kstart_mem⟩
  rw [h.entries]
  omega

theorem VaShape.root_mem (h : VaShape S pg s) : s.root attributes ∈ S := by
  rw [VaState.root]
  split
  · exact h.tree.ustart_mem
  · exact h.tree.kstart_mem

/-- The attributes of the tree that is selected. -/
def kindOf (attributes : Nat) : Nat := if attributes &&& 0x04 ≠ 0 then 0x07 else 0x03

theorem VaShape.root_attr (h : VaShape S pg s) :
    (s.node (s.root attributes)).attributes = kindOf attributes := by
  rw [VaState.root, kindOf]
  split
  · exact h.tree.uattr
  · exact h.tree.kattr

/-- A root of the right kind is the root that is selected. -/
theorem VaShape.root_eq (h : VaShape S pg s) {e : Nat} (he : e = s.vaKstart ∨ e = s.vaUstart)
    (hattr : (s.node e).attributes = kindOf attributes) : e = s.root attributes := by
  rw [VaState.root]
  rw [kindOf] at hattr
  rcases he with rfl | rfl
  · rw [h.tree.kattr] at hattr
    split at hattr
    · exact absurd hattr (by decide)
    · rename_i hc
      rw [if_neg hc]
  · rw [h.tree.uattr] at hattr
    split at hattr
    · rename_i hc
      rw [if_pos hc]
    · exact absurd hattr (by decide)

/-- The result of a successful call. -/
def granted (s : VaState) (e pages attributes : Nat) : VaRet where
  status := 0
  base := (s.node e).virtualBase
  pages := pages
  attributes := attributes

/-- Why a request is refused: it is empty, no free range is long enough, or there is no memory. -/
def Refusal (env : Env) (pages attributes : Nat) (s : VaState) : Prop :=
  pages = 0 ∨ (s.node (s.root attributes)).maxLength < 4096 * pages ∨
    ∃ a, env.vmalloc a pages attributes = false

/-- What a call of `va_alloc` does. -/
inductive AllocResult (env : Env) (S : Finset Nat) (pages attributes : Nat) (s : VaState) :
    VaRet → VaState → Prop
  /-- The request is refused. -/
  | refused (h : Refusal env pages attributes s) : AllocResult env S pages attributes s { status := 1 } s
  /-- The front of the node `e` is handed out. -/
  | taken {S' : Finset Nat} {pg' : List Nat} {e : Nat} {s' : VaState} (he : e ∈ S)
      (hattr : (s.node e).attributes = kindOf attributes)
      (hle : 4096 * pages ≤ (s.node e).length) (hshape : VaShape S' pg' s')
      (hcons : Consumed S S' e (4096 * pages) s s') :
      AllocResult env S pages attributes s (granted s e pages attributes) s'
  /-- The range of a root without children is handed out whole. -/
  | spent {pg' : List Nat} {s₁ : VaState} (hbad : ¬ SparesRoot s pages attributes)
      (hshape : VaShape S pg' s₁)
      (hcons : Consumed S S (s.root attributes) (4096 * pages) s s₁) :
      AllocResult env S pages attributes s (granted s (s.root attributes) pages attributes)
        (uncount (s.root attributes) s₁)

/-- A node that is long enough is consumed. -/
theorem consume_cases (h : VaShape S pg s) {e : Nat} (he : e ∈ S)
    (hattr : (s.node e).attributes = kindOf attributes) (hle : 4096 * pages ≤ (s.node e).length)
    (hlt : (s.node e).length < 2 ^ 64) :
    ∃ s', Settles (fun n => consume n e (4096 * pages) s) s' ∧
      AllocResult env S pages attributes s (granted s e pages attributes) s' := by
  by_cases hroot : (e = s.vaKstart ∨ e = s.vaUstart) ∧ (s.node e).length = 4096 * pages ∧
      (s.node e).usedNodes = 0
  · obtain ⟨hr, hlen, hused⟩ := hroot
    obtain ⟨s₁, hset, hshape, hcons⟩ := h.spend hr hlen hlt hused
    obtain rfl := h.root_eq hr hattr
    exact ⟨_, hset, AllocResult.spent (fun hs => hs hlen hused) hshape hcons⟩
  · obtain ⟨S', pg', s', hset, hshape, hcons, -⟩ := h.consume he hle hlt
      fun hr hlen hused => hroot ⟨hr, hlen, hused⟩
    exact ⟨s', hset, AllocResult.taken he hattr hle hshape hcons⟩

/-- **`va_alloc` returns**, from an allocator in order. -/
theorem takeRange_spec (h : VaShape S pg s) (hp : pages < 2 ^ 52)
    (hlt : ∀ x ∈ S, (s.node x).length < 2 ^ 64) :
    ∃ r, Settles (fun n => takeRange env n pages attributes s) r ∧
      AllocResult env S pages attributes s r.1 r.2 := by
  obtain ⟨e, hfit, he⟩ := findFit_spec h.tree h.max (4096 * pages) (s.root attributes) h.root_mem
  have hunfold : ∀ n, takeRange env n pages attributes s =
      findFit s (4096 * pages) n (s.root attributes) >>= fun entry =>
        if entry = 0 then .ok ({ status := 1 }, s)
        else if env.vmalloc (s.node entry).virtualBase pages attributes then
          consume n entry (4096 * pages) s >>= fun s' => .ok (granted s entry pages attributes, s')
        else .ok ({ status := 1 }, s) := by
    intro n
    rw [takeRange]
    simp only [shiftLeft_pages hp]
    rfl
  rcases he with ⟨rfl, hno⟩ | ⟨he, hle, hattr⟩
  · exact ⟨_, (hfit.bind (Settles.const _)).congr hunfold, AllocResult.refused (Or.inr (Or.inl hno))⟩
  · have he0 := h.tree.ne_zero e he
    rw [h.root_attr] at hattr
    by_cases hvm : env.vmalloc (s.node e).virtualBase pages attributes = true
    · obtain ⟨s', hset, hres⟩ := consume_cases h he hattr hle (hlt e he)
      refine ⟨(granted s e pages attributes, s'), (hfit.bind ?_).congr hunfold, hres⟩
      refine (hset.bind (g := fun s'' _ => .ok (granted s e pages attributes, s''))
        (Settles.const _)).congr fun n => ?_
      rw [if_neg he0, if_pos hvm]
    · refine ⟨({ status := 1 }, s), (hfit.bind ?_).congr hunfold,
        AllocResult.refused (Or.inr (Or.inr ⟨_, by simpa using hvm⟩))⟩
      refine (Settles.const _).congr fun n => ?_
      rw [if_neg he0, if_neg hvm]

/-- Once the allocator is set up there is nothing to set up. -/
theorem VaShape.vaAlloc_eq (h : VaShape S pg s) (h0 : pages ≠ 0) (n : Nat) :
    vaAlloc kernelEnd env n pages attributes s = takeRange env n pages attributes s := by
  rw [vaAlloc, if_neg h0, initHeader, if_neg h.header_ne_zero]
  show (initTrees kernelEnd env n s >>= fun s => takeRange env n pages attributes s) = _
  rw [initTrees, if_neg h.entries_ne_zero]
  rfl

theorem vaAlloc_spec (h : VaShape S pg s) (hp : pages < 2 ^ 52)
    (hlt : ∀ x ∈ S, (s.node x).length < 2 ^ 64) :
    ∃ r, Settles (fun n => vaAlloc kernelEnd env n pages attributes s) r ∧
      AllocResult env S pages attributes s r.1 r.2 := by
  by_cases h0 : pages = 0
  · exact ⟨_, (Settles.const _).congr fun n => if_pos h0, AllocResult.refused (Or.inl h0)⟩
  · obtain ⟨r, hset, hr⟩ : ∃ r, Settles (fun n => takeRange env n pages attributes s) r ∧
        AllocResult env S pages attributes s r.1 r.2 := takeRange_spec h hp hlt
    exact ⟨r, hset.congr (h.vaAlloc_eq h0), hr⟩

/-! ## `va_free` -/

variable {desc : VaRet}

theorem VaNode.hasRoom_iff {e : VaNode} : e.hasRoom attributes = true ↔
    e.attributes = attributes ∧ e.usedNodes &&& 3 ≠ 3 ∧ e.length ≠ 0 := by
  simp [VaNode.hasRoom, and_assoc]

theorem VaNode.reusable_iff {e : VaNode} : e.reusable = true ↔
    e.length = 0 ∧ e.parent = 0 ∧ e.usedNodes &&& 3 ≠ 3 := by
  simp [VaNode.reusable, and_assoc]

theorem Blank.reusable {e : VaNode} (h : Blank e) : e.reusable = true := by
  rw [VaNode.reusable_iff, h.length, h.parent, h.used]
  exact ⟨rfl, rfl, by decide⟩

/-- **`find_last` finds a node with a free child slot if there is one.** -/
theorem findLast_spec (h : VaShape S pg s) (attributes : Nat) : ∃ r, Settles (fun n => findLast s n attributes s.vaHeader) r ∧
    ((r = none ∧ ¬ HasRoom S s attributes) ∨
      ∃ page last, r = some (page, last) ∧ last ∈ S ∧ (s.node last).hasRoom attributes = true) := by
  obtain ⟨r, hset, hfound⟩ := scanPages_settles (p := VaNode.hasRoom attributes) (fun _ => true)
    h.pages.linked fun x hx => (h.pages.page x hx).1
  rw [h.pages.headD] at hset
  refine ⟨r, hset, ?_⟩
  cases hfound with
  | none hno =>
    refine Or.inl ⟨rfl, ?_⟩
    rintro ⟨x, hx, hroom⟩
    obtain ⟨p, hp, i, hi, rfl⟩ := h.slots.mem x hx
    rw [hno p hp rfl i hi] at hroom
    exact absurd hroom (by simp)
  | @some l₁ l₂ page i hl _ hi hroom _ _ =>
    refine Or.inr ⟨page, _, rfl, ?_, hroom⟩
    by_contra hnot
    have hb := h.slots.blank page (by rw [hl]; simp) i hi hnot
    exact (VaNode.hasRoom_iff.mp hroom).2.2 hb.length

/-- The search for a blank slot finds one if there is one, unless it stops at a root. -/
theorem findUnused_spec (h : VaShape S pg s) : ∃ r, Settles (fun n => findUnused s n s.vaHeader) r ∧
    Found (fun x => x.unusedEntries != 0) VaNode.reusable s pg r := by
  obtain ⟨r, hset, hfound⟩ := scanPages_settles (p := VaNode.reusable) (fun x => x.unusedEntries != 0)
    h.pages.linked fun x hx => (h.pages.page x hx).1
  rw [h.pages.headD] at hset
  exact ⟨r, hset, hfound⟩

/-- Without a result there are no unused slots. -/
theorem VaShape.unused_eq_zero (h : VaShape S pg s)
    (hno : ∀ x ∈ pg, ((s.hd x).unusedEntries != 0) = true → ∀ i, i < s.carved x →
      (s.node (nodeAt x i)).reusable = false) : ∀ p ∈ pg, (s.hd p).unusedEntries = 0 := by
  intro p hp
  by_contra hu
  obtain ⟨i, hi, hnot⟩ := h.slots.exists_blank h.pages hp hu
  have hb := (h.slots.blank p hp i hi hnot).reusable
  rw [hno p hp (by simpa using hu) i hi] at hb
  exact absurd hb (by simp)

/-- A node that passes for a blank slot is a root. -/
theorem VaShape.root_of_reusable (h : VaShape S pg s) {a : Nat} (ha : a ∈ S) (hr : Reusable s a) :
    a = s.vaKstart ∨ a = s.vaUstart := by
  rcases h.tree.parent_cases ha with ⟨hroot, -⟩ | ⟨hp, -⟩
  · exact hroot
  · rw [(VaNode.reusable_iff.mp hr).2.1] at hp
    exact absurd rfl (h.tree.ne_zero 0 hp)

theorem VaShape.header_mem (h : VaShape S pg s) : s.vaHeader ∈ pg :=
  List.mem_of_mem_head? h.pages.head

/-- The roots sit in the first page. -/
theorem VaShape.page_of_root (h : VaShape S pg s) {page i : Nat} (hpage : page ∈ pg)
    (hi : i < s.carved page) (ha : nodeAt page i = s.vaKstart ∨ nodeAt page i = s.vaUstart) :
    page = s.vaHeader ∧ ((i = 0 ∧ nodeAt page i = s.vaKstart) ∨ (i = 2 ∧ nodeAt page i = s.vaUstart)) := by
  have hal := (h.pages.page page hpage).2.1
  have hal' := (h.pages.page _ h.header_mem).2.1
  have hle := h.slots.carved_le hpage
  rcases ha with ha | ha
  · have hinj := nodeAt_inj hal hal' (by omega) (by decide) (ha.trans h.kstart)
    exact ⟨hinj.1, Or.inl ⟨hinj.2, ha⟩⟩
  · have hinj := nodeAt_inj hal hal' (by omega) (by decide) (ha.trans h.ustart)
    exact ⟨hinj.1, Or.inr ⟨hinj.2, ha⟩⟩

/-- `va_free` after `find_last` has returned. -/
def freeBelow (env : Env) (desc : VaRet) (s : VaState) (o : Option (Nat × Nat)) (n : Nat) :
    Except Fault VaState :=
  match o with
  | none => .ok s
  | some (_, last) =>
    if s.vaMetadataPages = 0 ∧ (s.hd s.vaHeader).unusedEntries = 0 then carveSlot env n desc last s
    else findUnused s n s.vaHeader >>= fun o =>
      match o with
      | some (page, a) => reuseSlot n desc last page a s
      | none => carveSlot env n desc last s

theorem vaFree_eq (hstatus : desc.status = 0) (hpages : desc.pages ≠ 0) (n : Nat) :
    vaFree env n desc s =
      findLast s n desc.attributes s.vaHeader >>= fun o => freeBelow env desc s o n := by
  rw [vaFree, if_neg (by simp [hstatus, hpages])]
  rfl

/-- With one page only, the first page tells whether there are unused slots. -/
theorem VaShape.unused_of_one_page (h : VaShape S pg s)
    (hone : s.vaMetadataPages = 0 ∧ (s.hd s.vaHeader).unusedEntries = 0) :
    ∀ p ∈ pg, (s.hd p).unusedEntries = 0 := by
  have hcount := h.pages.count
  have hhead := h.pages.head
  rw [hone.1] at hcount
  obtain ⟨x, rfl⟩ := List.length_eq_one_iff.mp (show pg.length = 1 by omega)
  intro p hp
  obtain rfl := List.mem_singleton.mp hp
  rw [show p = s.vaHeader by simpa using hhead]
  exact hone.2

/-- **`va_free` returns and puts the range into the tree**, if there is a node with a free child slot,
the search for a blank slot spares the roots, and there is memory for a new page if one is needed. -/
theorem vaFree_spec (h : VaShape S pg s) (hstatus : desc.status = 0) (hpages : desc.pages ≠ 0)
    (hroom : HasRoom S s desc.attributes) (hspared : RootsSpared s)
    (hcan : (∀ p ∈ pg, (s.hd p).unusedEntries = 0) → PageReady env pg s) :
    ∃ a pg' s', Settles (fun n => vaFree env n desc s) s' ∧ VaShape (insert a S) pg' s' ∧
      Returned S a desc s s' ∧ s'.freed = (desc.base, desc.pages) :: s.freed ∧
      (SamePages pg pg' s s' ∨ ∃ x c, NewSlot pg pg' x c s s') := by
  obtain ⟨r, hlast, hr⟩ := findLast_spec h desc.attributes
  rcases hr with ⟨-, hno⟩ | ⟨page, last, rfl, hmem, hlroom⟩
  · exact absurd hroom hno
  obtain ⟨hattr, hused, -⟩ := VaNode.hasRoom_iff.mp hlroom
  by_cases hone : s.vaMetadataPages = 0 ∧ (s.hd s.vaHeader).unusedEntries = 0
  · -- the first page is the only one
    have hun := h.unused_of_one_page hone
    obtain ⟨x, c, pg', s', hset, hshape, hret, hfreed, hnew⟩ := h.carve hun (hcan hun) hmem hused hattr
    exact ⟨_, pg', s', (hlast.bind (hset.congr fun n => if_pos hone)).congr (vaFree_eq hstatus hpages),
      hshape, hret, hfreed, Or.inr ⟨x, c, hnew⟩⟩
  · obtain ⟨r, hset₁, hfound⟩ := findUnused_spec h
    cases hfound with
    | none hno =>
      have hun := h.unused_eq_zero hno
      obtain ⟨x, c, pg', s', hset, hshape, hret, hfreed, hnew⟩ := h.carve hun (hcan hun) hmem hused hattr
      exact ⟨_, pg', s', (hlast.bind ((hset₁.bind hset).congr fun n => if_neg hone)).congr
        (vaFree_eq hstatus hpages), hshape, hret, hfreed, Or.inr ⟨x, c, hnew⟩⟩
    | @some l₁ l₂ page i hl hq hi hreuse _ hfirst =>
      have hpage : page ∈ pg := by rw [hl]; simp
      have hun : (s.hd page).unusedEntries ≠ 0 := by simpa using hq
      have hnot : nodeAt page i ∉ S := by
        intro ha
        obtain ⟨rfl, hcase⟩ := h.page_of_root hpage hi (h.root_of_reusable ha hreuse)
        rcases hcase with ⟨-, hk⟩ | ⟨rfl, hu⟩
        · rw [hk] at hreuse
          exact (hspared hun).1 hreuse
        · rw [hu] at hreuse
          have h1 := (hspared hun).2 hreuse
          rw [Reusable, hfirst 1 (by decide)] at h1
          exact absurd h1 (by simp)
      obtain ⟨s', hset, hshape, hret, hfreed, hsame⟩ := h.reuse hpage hi hnot hun hmem hused hattr
      exact ⟨_, pg, s', (hlast.bind ((hset₁.bind hset).congr fun n => if_neg hone)).congr
        (vaFree_eq hstatus hpages), hshape, hret, hfreed, Or.inl hsame⟩

end

/-! ## Bounds

More iterations than needed do not change a result. -/

section

variable {s : VaState} {env : Env}

theorem fueled_updateParents (entry : Nat) (s : VaState) : Fueled fun n => updateParents n entry s := by
  intro n
  induction n generalizing entry s with
  | zero => exact fun r h => absurd h (by simp [updateParents])
  | succ n ih =>
    intro r h
    dsimp only at h ih ⊢
    rw [updateParents] at h ⊢
    split at h
    · rename_i h0
      rwa [if_pos h0]
    · rename_i h0
      rw [if_neg h0]
      exact ih _ _ r h

theorem fueled_findFit (size entry : Nat) : Fueled fun n => findFit s size n entry := by
  intro n
  induction n generalizing entry with
  | zero => exact fun r h => absurd h (by simp [findFit])
  | succ n ih =>
    intro r h
    dsimp only at h ih ⊢
    rw [findFit] at h ⊢
    split at h
    · rename_i h0
      rwa [if_pos h0]
    rename_i h0
    rw [if_neg h0]
    dsimp only at h ⊢
    split at h
    · rename_i h1
      rwa [if_pos h1]
    rename_i h1
    rw [if_neg h1]
    split at h
    · rename_i h2
      rw [if_pos h2]
      exact ih _ r h
    rename_i h2
    rw [if_neg h2]
    split at h
    · rename_i h3
      rw [if_pos h3]
      exact ih _ r h
    · rename_i h3
      rwa [if_neg h3]

theorem fueled_reclaim (miss : Bool) (last : Nat) (s : VaState) : Fueled fun n => reclaim n miss last s := by
  intro n
  induction n generalizing miss last s with
  | zero => exact fun r h => absurd h (by simp [reclaim])
  | succ n ih =>
    intro r h
    dsimp only at h ih ⊢
    rw [reclaim_succ] at h ⊢
    split at h
    · rename_i h0
      rwa [if_pos h0]
    · rename_i h0
      rw [if_neg h0]
      split at h
      · rename_i h1
        rw [if_pos h1]
        exact ih _ _ _ r h
      · rename_i h1
        rw [if_neg h1]
        exact ih _ _ _ r h

theorem fueled_scanPages (q : VaHd → Bool) (p : VaNode → Bool) (page : Nat) :
    Fueled fun n => scanPages q p s n page := by
  intro n
  induction n generalizing page with
  | zero => exact fun r h => absurd h (by simp [scanPages])
  | succ n ih =>
    intro r h
    dsimp only at h ih ⊢
    rw [scanPages] at h ⊢
    split at h
    · rename_i h0
      rwa [if_pos h0]
    · rename_i h0
      rw [if_neg h0]
      split at h
      · exact h
      · exact ih _ r h

theorem fueled_findNewEntryLoop (hd : Nat) (s : VaState) :
    Fueled fun n => findNewEntryLoop env n hd s := by
  intro n
  induction n generalizing hd with
  | zero => exact fun r h => absurd h (by simp [findNewEntryLoop])
  | succ n ih =>
    intro r h
    dsimp only at h ih ⊢
    rw [findNewEntryLoop] at h ⊢
    split at h
    · rename_i h0
      rw [if_pos h0]
      split at h
      · rename_i h1
        rwa [if_pos h1]
      · rename_i h1
        rw [if_neg h1]
        exact ih _ r h
    · rename_i h0
      rwa [if_neg h0]

theorem fueled_findNewEntry (pos : VaLabel) (parent : Nat) (s : VaState) :
    Fueled fun n => findNewEntry env n pos parent s := by
  refine (fueled_findNewEntryLoop s.vaHeader s).bind fun r => ?_
  rcases r with ⟨_ | ⟨entry, hd⟩, s⟩ <;> exact Fueled.const _

theorem fueled_consume (entry rsz : Nat) (s : VaState) : Fueled fun n => consume n entry rsz s := by
  refine (fueled_updateParents entry _).bind fun s' => Fueled.ite ?_ (Fueled.const _)
  exact Fueled.ite (fueled_reclaim _ _ _) (Fueled.const _)

/-- A result of `va_alloc` does not depend on the bound. -/
theorem fueled_vaAlloc (kernelEnd pages attributes : Nat) (s : VaState) :
    Fueled fun n => vaAlloc kernelEnd env n pages attributes s := by
  refine Fueled.ite (Fueled.const _) ?_
  cases hinit : initHeader env s with
  | none => exact Fueled.const _
  | some s =>
    refine Fueled.bind (Fueled.ite ?_ (Fueled.const _)) fun s => ?_
    · refine (fueled_findNewEntry _ _ _).bind fun r => ?_
      rcases r with ⟨_ | right, s⟩
      · exact Fueled.const _
      · refine (fueled_findNewEntry _ _ _).bind fun r => ?_
        rcases r with ⟨_ | ustart, s⟩ <;> exact Fueled.const _
    · refine (fueled_findFit _ _).bind fun entry => Fueled.ite (Fueled.const _) ?_
      exact Fueled.ite ((fueled_consume _ _ _).bind fun s => Fueled.const _) (Fueled.const _)

theorem fueled_carveSlot (desc : VaRet) (last : Nat) (s : VaState) :
    Fueled fun n => carveSlot env n desc last s := by
  refine (fueled_findNewEntry _ _ _).bind fun r => ?_
  rcases r with ⟨_ | a, s⟩
  · exact Fueled.const _
  · exact (fueled_updateParents _ _).bind fun s => Fueled.const _

/-- A result of `va_free` does not depend on the bound. -/
theorem fueled_vaFree (desc : VaRet) (s : VaState) : Fueled fun n => vaFree env n desc s := by
  refine Fueled.ite (Fueled.const _) ((fueled_scanPages _ _ _).bind fun r => ?_)
  rcases r with _ | ⟨page, last⟩
  · exact Fueled.const _
  · refine Fueled.ite (fueled_carveSlot _ _ _) ((fueled_scanPages _ _ _).bind fun r => ?_)
    rcases r with _ | ⟨page, a⟩
    · exact fueled_carveSlot _ _ _
    · exact (fueled_updateParents _ _).bind fun s => Fueled.const _

end

end Dem64
