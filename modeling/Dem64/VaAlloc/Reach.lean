import Dem64.VaAlloc.Undo

/-!
# The search tree and the metadata pages in every reachable state

A run of `va_alloc` and `va_free` is followed here together with two records that the program does not
keep: the metadata pages that are mapped, and the slots of them that were carved.  They are read off the
calls: `va_alloc` maps the first page and unmaps what it gives to `vfree`, `va_free` maps the page it
takes and carves the slot that becomes `va_latest`.

As long as no root has an empty range, the trees are searched as they should be (`findFit_complete`),
and the counters of the page headers, `va_latest` and the list of pages agree with the record
(`metadata_sound`).  A range that finds no node to hang under is lost, but does no harm to either.
-/

set_option autoImplicit false

namespace Dem64

/-- The allocator, the ranges in use, and the record. -/
structure VaRun where
  /-- The allocator. -/
  state : VaState
  /-- What is handed out and not yet given back. -/
  live : List VaRet
  /-- The metadata pages that are mapped. -/
  mapped : Finset Nat
  /-- The slots that were carved in them. -/
  carved : Finset Nat

/-- The call sets up the allocator. -/
def setsUp (s s' : VaState) : Prop := s.vaHeader = 0 ∧ s'.vaHeader ≠ 0

instance (s s' : VaState) : Decidable (setsUp s s') := inferInstanceAs (Decidable (_ ∧ _))

/-- The addresses that a call has given to `vfree`. -/
def givenBack (s s' : VaState) : List Nat :=
  (s'.freed.take (s'.freed.length - s.freed.length)).map Prod.fst

/-- One call of a run.  `vmalloc` has no memory for 2^52 pages, and a metadata page that ends with the
address space cannot be accessed: `create_mapping` maps nothing there. -/
inductive VaRun.Step (kernelEnd : Nat) : VaRun → VaRun → Prop
  /-- `va_alloc`. -/
  | alloc {w : VaRun} {s : VaState} {r : VaRet} (env : Env) (n pages attributes : Nat)
      (hbig : ∀ a p t, env.vmalloc a p t = true → p < 2 ^ 52)
      (h : vaAlloc kernelEnd env n pages attributes w.state = .ok (r, s)) :
      VaRun.Step kernelEnd w
        { state := s
          live := if r.status = 0 then r :: w.live else w.live
          mapped := (if setsUp w.state s then {vaTree} else w.mapped).filter
            fun p => p ∉ givenBack w.state s
          carved := (if setsUp w.state s then firstNodes else w.carved).filter
            fun a => findHd a ∉ givenBack w.state s }
  /-- `va_free` of a range that is handed out. -/
  | free {w : VaRun} {s : VaState} {r : VaRet} (env : Env) (n : Nat) (hr : r ∈ w.live)
      (hmapped : ∀ a, env.vmalloc a 1 0x03 = true → a + 4096 < 2 ^ 64)
      (h : vaFree env n r w.state = .ok s) :
      VaRun.Step kernelEnd w
        { state := s
          live := w.live.erase r
          mapped := if s.vaMetadataPages = w.state.vaMetadataPages then w.mapped
            else insert w.state.nextPageAddr w.mapped
          carved := if s.vaLatest = w.state.vaLatest then w.carved else insert s.vaLatest w.carved }

/-- The state before the first call. -/
def VaRun.start (s₀ : VaState) : VaRun := ⟨s₀, [], ∅, ∅⟩

/-- The runs in which no root ever has an empty range. -/
def VaRun.Reaches (kernelEnd : Nat) : VaRun → VaRun → Prop :=
  Relation.ReflTransGen fun x y => VaRun.Step kernelEnd x y ∧ RootsAlive y.state

/-- An allocator that is set up, with the nodes `S` and the pages `pg`, agrees with the record. -/
structure VaRun.Recorded (S : Finset Nat) (pg : List Nat) (w : VaRun) : Prop where
  shape : VaShape S pg w.state
  /-- No range wraps around. -/
  lt : ∀ x ∈ S, (w.state.node x).length < 2 ^ 64
  /-- What is in use was asked for. -/
  asked : ∀ r ∈ w.live, r.status = 0 ∧ r.pages ≠ 0
  /-- The pages of the list are those that are mapped. -/
  mapped : ∀ p, p ∈ w.mapped ↔ p ∈ pg
  /-- The counters tell which slots were carved. -/
  carved : ∀ a, a ∈ w.carved ↔ ∃ p ∈ pg, ∃ i, i < w.state.carved p ∧ a = nodeAt p i

/-- What holds between the calls. -/
def VaRun.InOrder (w : VaRun) : Prop :=
  (Cold w.state ∧ w.live = []) ∨ ∃ S pg, w.Recorded S pg

/-- `find_fit` finds a node below `root` that is long enough exactly when there is one. -/
def SearchComplete (s : VaState) (root : Nat) : Prop :=
  ∀ size, ∃ e, Settles (fun n => findFit s size n root) e ∧
    ((e ≠ 0 ∧ Relation.ReflTransGen (Child s) root e ∧ size ≤ (s.node e).length) ∨
      (e = 0 ∧ ∀ b, Relation.ReflTransGen (Child s) root b → (s.node b).length < size))

section

variable {S : Finset Nat} {pg : List Nat} {s s' : VaState} {env : Env} {n pages attributes kernelEnd : Nat}
  {r : VaRet} {w w' : VaRun}

/-! ## `va_alloc` -/

/-- A call that succeeds has taken the front of a node. -/
theorem takeRange_ok (h : takeRange env n pages attributes s = .ok (r, s')) :
    (r.status = 1 ∧ s' = s) ∨ ∃ e, findFit s ((pages <<< 12) % 2 ^ 64) n (s.root attributes) = .ok e ∧
      e ≠ 0 ∧ env.vmalloc (s.node e).virtualBase pages attributes = true ∧
      consume n e ((pages <<< 12) % 2 ^ 64) s = .ok s' ∧ r = granted s e pages attributes := by
  rw [takeRange] at h
  obtain ⟨e, hfit, h⟩ := bind_eq_ok_iff.mp h
  dsimp only at h
  split at h
  · obtain ⟨rfl, rfl⟩ := Prod.mk.inj (Except.ok.inj h)
    exact .inl ⟨rfl, rfl⟩
  · rename_i he
    split at h
    · rename_i hvm
      obtain ⟨s₁, hcons, h⟩ := bind_eq_ok_iff.mp h
      obtain ⟨rfl, rfl⟩ := Prod.mk.inj (Except.ok.inj h)
      exact .inr ⟨e, hfit, he, hvm, hcons, rfl⟩
    · obtain ⟨rfl, rfl⟩ := Prod.mk.inj (Except.ok.inj h)
      exact .inl ⟨rfl, rfl⟩

/-- From an allocator in order `va_alloc` changes nothing, or it takes the front of a node and unmaps
pages without nodes. -/
theorem VaShape.takeRange_keeps (h : VaShape S pg s) (hlt : ∀ x ∈ S, (s.node x).length < 2 ^ 64)
    (hbig : ∀ a p t, env.vmalloc a p t = true → p < 2 ^ 52)
    (hcall : takeRange env n pages attributes s = .ok (r, s')) (halive : RootsAlive s') :
    (r.status = 1 ∧ s' = s) ∨ (r.status = 0 ∧ r.pages = pages ∧ ∃ S' pg', VaShape S' pg' s' ∧
      (∀ x ∈ S', (s'.node x).length < 2 ^ 64) ∧ PagesGone pg pg' s s' ∧ s'.vaHeader = s.vaHeader) := by
  rcases takeRange_ok hcall with hsame | ⟨e, hfit, he0, hvm, hcons, rfl⟩
  · exact .inl hsame
  refine .inr ⟨rfl, rfl, ?_⟩
  have hp := hbig _ _ _ hvm
  rw [shiftLeft_pages hp] at hfit hcons
  obtain ⟨e', hset, he'⟩ := findFit_spec h.tree h.max (4096 * pages) (s.root attributes) h.root_mem
  obtain rfl := hset.unique ((fueled_findFit (4096 * pages) (s.root attributes)).settles hfit)
  obtain ⟨he, hle, -⟩ := he'.resolve_left fun hno => he0 hno.1
  have hset' := (fueled_consume e' (4096 * pages) s).settles hcons
  by_cases hroot : (e' = s.vaKstart ∨ e' = s.vaUstart) ∧ (s.node e').length = 4096 * pages ∧
      (s.node e').usedNodes = 0
  · -- the root would be left with an empty range
    obtain ⟨hr, hlen, hused⟩ := hroot
    obtain ⟨s₁, hset₁, hshape, hc⟩ := h.spend hr hlen (hlt e' he) hused
    obtain rfl := hset₁.unique hset'
    have h0 : (s₁.node e').length = 0 := by rw [hc.length, hlen, Nat.sub_self]
    obtain ⟨hk, hu⟩ := halive hshape.header_ne_zero
    rcases hr with rfl | rfl
    · exact absurd (hc.kstart ▸ h0) hk
    · exact absurd (hc.ustart ▸ h0) hu
  · obtain ⟨S', pg', s₁, hset₁, hshape, hc, hgone⟩ := h.consume he hle (hlt e' he)
      fun hr hlen hused => hroot ⟨hr, hlen, hused⟩
    obtain rfl := hset₁.unique hset'
    refine ⟨S', pg', hshape, fun x hx => ?_, hgone, hc.header⟩
    have hxS : x ∈ S := by
      rcases hc.nodes with rfl | ⟨rfl, -⟩
      · exact hx
      · exact Finset.mem_of_mem_erase hx
    by_cases hxe : x = e'
    · rw [hxe, hc.length]
      have := hlt e' he
      omega
    · rw [(hc.other x hxe).2.1]
      exact hlt x hxS

theorem PagesGone.givenBack {pg' : List Nat} {s₀ : VaState} (h : PagesGone pg pg' s s')
    (hfreed : s.freed = s₀.freed) : ∀ y, y ∈ pg' ↔ y ∈ pg ∧ y ∉ givenBack s₀ s' := by
  obtain ⟨gone, hf, hgone⟩ := h.gone
  intro y
  rw [hgone, Dem64.givenBack, hf, hfreed, List.length_append, Nat.add_sub_cancel, List.take_left,
    List.map_map, show Prod.fst ∘ (fun y : Nat => (y, 1)) = id from rfl, List.map_id]

/-- The record after pages were unmapped. -/
theorem VaRun.Recorded.unmap {S' : Finset Nat} {pg' : List Nat} {live : List VaRet} {s₀ : VaState}
    (h : w.Recorded S pg) (hgone : PagesGone pg pg' w.state s') (hfreed : w.state.freed = s₀.freed)
    (hshape : VaShape S' pg' s') (hlt : ∀ x ∈ S', (s'.node x).length < 2 ^ 64)
    (hasked : ∀ r ∈ live, r.status = 0 ∧ r.pages ≠ 0) :
    VaRun.Recorded S' pg'
      ⟨s', live, w.mapped.filter fun p => p ∉ givenBack s₀ s',
        w.carved.filter fun a => findHd a ∉ givenBack s₀ s'⟩ := by
  have hmem := hgone.givenBack hfreed
  refine ⟨hshape, hlt, hasked, fun p => ?_, fun a => ?_⟩
  · rw [Finset.mem_filter, h.mapped, hmem]
  · rw [Finset.mem_filter, h.carved]
    constructor
    · rintro ⟨⟨p, hp, i, hi, rfl⟩, hout⟩
      have hle := h.shape.slots.carved_le hp
      rw [findHd_nodeAt (h.shape.pages.page p hp).2.1 (by omega)] at hout
      exact ⟨p, (hmem p).mpr ⟨hp, hout⟩, i, by rwa [hgone.carved], rfl⟩
    · rintro ⟨p, hp, i, hi, rfl⟩
      have hi : i < w.state.carved p := by rwa [← hgone.carved]
      have hp' := (hmem p).mp hp
      have hle := h.shape.slots.carved_le hp'.1
      refine ⟨⟨p, hp'.1, i, hi, rfl⟩, ?_⟩
      rw [findHd_nodeAt (h.shape.pages.page p hp'.1).2.1 (by omega)]
      exact hp'.2

/-- The record of an allocator that was just set up. -/
theorem Initialised.recorded (h : Initialised kernelEnd s) (hk : KernelEnds kernelEnd) :
    VaRun.Recorded firstNodes [vaTree] ⟨s, [], {vaTree}, firstNodes⟩ := by
  refine ⟨h.shape hk, (h.tiles hk).lt, fun r hr => absurd hr (by simp), fun p => by simp, fun a => ?_⟩
  have hmem : a ∈ firstNodes ↔ ∃ i, i < 3 ∧ a = nodeAt vaTree i := by
    simp only [firstNodes, Finset.mem_insert, Finset.mem_singleton]
    constructor
    · rintro (rfl | rfl | rfl)
      · exact ⟨0, by decide, rfl⟩
      · exact ⟨1, by decide, rfl⟩
      · exact ⟨2, by decide, rfl⟩
    · rintro ⟨i, hi, rfl⟩
      have : i = 0 ∨ i = 1 ∨ i = 2 := by omega
      rcases this with rfl | rfl | rfl <;> simp
  simp [hmem, h.carved]

/-- **`va_alloc` keeps the allocator in order and the record right.** -/
theorem VaRun.InOrder.alloc (h : w.InOrder) (hk : KernelEnds kernelEnd)
    (hbig : ∀ a p t, env.vmalloc a p t = true → p < 2 ^ 52)
    (hcall : vaAlloc kernelEnd env n pages attributes w.state = .ok (r, s')) (halive : RootsAlive s') :
    VaRun.InOrder
      { state := s'
        live := if r.status = 0 then r :: w.live else w.live
        mapped := (if setsUp w.state s' then {vaTree} else w.mapped).filter
          fun p => p ∉ givenBack w.state s'
        carved := (if setsUp w.state s' then firstNodes else w.carved).filter
          fun a => findHd a ∉ givenBack w.state s' } := by
  have hasked : ∀ live : List VaRet, (∀ r ∈ live, r.status = 0 ∧ r.pages ≠ 0) → pages ≠ 0 →
      r.pages = pages → r.status = 0 → ∀ x ∈ r :: live, x.status = 0 ∧ x.pages ≠ 0 := by
    intro live hl hp hpages hstatus x hx
    rcases List.mem_cons.mp hx with rfl | hx
    · exact ⟨hstatus, hpages ▸ hp⟩
    · exact hl x hx
  rcases h with ⟨hcold, hlive⟩ | ⟨S, pg, hrec⟩
  · -- the first call
    by_cases hno : pages = 0 ∨ env.vmalloc vaTree 1 0x03 = false
    · rw [vaAlloc_cold_refused hcold hno] at hcall
      obtain ⟨rfl, rfl⟩ := Prod.mk.inj (Except.ok.inj hcall)
      exact .inl ⟨hcold, hlive⟩
    · rw [not_or, Bool.not_eq_false] at hno
      obtain ⟨s₁, hinit, hfreed, hfirst⟩ := vaAlloc_cold hcold hk attributes hno.1 hno.2
      have hcall' : vaAlloc kernelEnd env (n + 1) pages attributes w.state = .ok (r, s') :=
        fueled_vaAlloc kernelEnd pages attributes w.state n (r, s') hcall
      rw [hfirst] at hcall'
      have hshape := hinit.shape hk
      have hsets : s'.vaHeader = s₁.vaHeader → setsUp w.state s' := fun hh =>
        ⟨hcold.header, hh ▸ hshape.header_ne_zero⟩
      have hrec := hinit.recorded hk
      rcases hshape.takeRange_keeps hrec.lt hbig hcall' halive with
        ⟨hstatus, rfl⟩ | ⟨hstatus, hpages, S', pg', hshape', hlt', hgone, hh⟩
      · rw [if_neg (by rw [hstatus]; decide), hlive, if_pos (hsets rfl), if_pos (hsets rfl)]
        exact .inr ⟨_, _, hrec.unmap (PagesGone.of_eq rfl fun _ => rfl) hfreed hshape hrec.lt hrec.asked⟩
      · rw [if_pos hstatus, hlive, if_pos (hsets hh), if_pos (hsets hh)]
        exact .inr ⟨_, _, hrec.unmap hgone hfreed hshape' hlt' (hasked [] hrec.asked hno.1 hpages hstatus)⟩
  · have h0 := hrec.shape.header_ne_zero
    have hnot : ¬ setsUp w.state s' := fun hc => h0 hc.1
    rw [if_neg hnot, if_neg hnot]
    by_cases hp : pages = 0
    · rw [vaAlloc, if_pos hp] at hcall
      obtain ⟨rfl, rfl⟩ := Prod.mk.inj (Except.ok.inj hcall)
      exact .inr ⟨_, _, hrec.unmap (PagesGone.of_eq rfl fun _ => rfl) rfl hrec.shape hrec.lt hrec.asked⟩
    · rw [hrec.shape.vaAlloc_eq hp] at hcall
      rcases hrec.shape.takeRange_keeps hrec.lt hbig hcall halive with
        ⟨hstatus, rfl⟩ | ⟨hstatus, hpages, S', pg', hshape', hlt', hgone, -⟩
      · rw [if_neg (by rw [hstatus]; decide)]
        exact .inr ⟨_, _, hrec.unmap (PagesGone.of_eq rfl fun _ => rfl) rfl hrec.shape hrec.lt hrec.asked⟩
      · rw [if_pos hstatus]
        exact .inr ⟨_, _, hrec.unmap hgone rfl hshape' hlt' (hasked _ hrec.asked hp hpages hstatus)⟩

/-! ## `va_free` -/

/-- The slot that is carved is not the one that was carved last. -/
theorem NewSlot.latest_ne {pg' : List Nat} {x c : Nat} (h : NewSlot pg pg' x c s s')
    (hshape : VaShape S pg s) (hpages : PageList pg' s') : s'.vaLatest ≠ s.vaLatest := by
  have hlatest := hshape.slots.latest
  rw [h.latest]
  rcases h.pages with ⟨-, rfl, hc⟩ | ⟨rfl, -, hx, -⟩
  · rw [hc] at hlatest
    omega
  · intro heq
    have hpage := (hpages.page x (by simp)).2.1
    have hhd := hshape.findHd_latest
    rw [← heq, findHd_nodeAt hpage h.lt] at hhd
    obtain ⟨l, y, rfl⟩ := hshape.pages.exists_last
    rw [List.getLastD_concat] at hhd
    exact hx (by simp [hhd])

/-- The record after a slot was carved. -/
theorem VaRun.Recorded.newSlot {S' : Finset Nat} {pg' : List Nat} {live : List VaRet} {x c : Nat}
    (h : w.Recorded S pg) (hnew : NewSlot pg pg' x c w.state s') (hshape : VaShape S' pg' s')
    (hlt : ∀ x ∈ S', (s'.node x).length < 2 ^ 64)
    (hasked : ∀ r ∈ live, r.status = 0 ∧ r.pages ≠ 0) :
    VaRun.Recorded S' pg'
      ⟨s', live, if s'.vaMetadataPages = w.state.vaMetadataPages then w.mapped
          else insert w.state.nextPageAddr w.mapped,
        if s'.vaLatest = w.state.vaLatest then w.carved else insert s'.vaLatest w.carved⟩ := by
  have hmeta := hnew.metadata
  rw [if_neg (hnew.latest_ne h.shape hshape.pages), hnew.latest]
  rcases hnew.pages with ⟨rfl, rfl, hc⟩ | ⟨rfl, hx, hxpg, rfl⟩
  · -- the next slot of the last page
    have hlast : pg'.getLastD 0 ∈ pg' := by
      obtain ⟨l, y, rfl⟩ := h.shape.pages.exists_last
      simp
    rw [if_pos (by omega)]
    refine ⟨hshape, hlt, hasked, h.mapped, fun a => ?_⟩
    rw [Finset.mem_insert, h.carved]
    constructor
    · rintro (rfl | ⟨p, hp, i, hi, rfl⟩)
      · exact ⟨_, hlast, c, by rw [hnew.carved, if_pos rfl]; omega, rfl⟩
      · refine ⟨p, hp, i, ?_, rfl⟩
        rw [hnew.carved]
        split
        · subst_vars
          omega
        · exact hi
    · rintro ⟨p, hp, i, hi, rfl⟩
      rw [hnew.carved] at hi
      split at hi
      · rename_i hpx
        by_cases hic : i = c
        · exact .inl (by rw [hpx, hic])
        · exact .inr ⟨p, hp, i, by rw [hpx, hc]; omega, rfl⟩
      · exact .inr ⟨p, hp, i, hi, rfl⟩
  · -- the first slot of a new page
    rw [List.length_append, List.length_singleton] at hmeta
    rw [if_neg (by omega), ← hx]
    refine ⟨hshape, hlt, hasked, fun p => ?_, fun a => ?_⟩
    · rw [Finset.mem_insert, h.mapped, List.mem_append, List.mem_singleton, or_comm]
    · rw [Finset.mem_insert, h.carved]
      constructor
      · rintro (rfl | ⟨p, hp, i, hi, rfl⟩)
        · exact ⟨x, by simp, 0, by rw [hnew.carved, if_pos rfl]; omega, rfl⟩
        · have hpx : p ≠ x := fun hpx => hxpg (hpx ▸ hp)
          exact ⟨p, List.mem_append_left _ hp, i, by rwa [hnew.carved, if_neg hpx], rfl⟩
      · rintro ⟨p, hp, i, hi, rfl⟩
        rw [hnew.carved] at hi
        rcases List.mem_append.mp hp with hp | hp
        · have hpx : p ≠ x := fun hpx => hxpg (hpx ▸ hp)
          rw [if_neg hpx] at hi
          exact .inr ⟨p, hp, i, hi, rfl⟩
        · rw [if_pos (List.mem_singleton.mp hp)] at hi
          exact .inl (by rw [List.mem_singleton.mp hp, show i = 0 by omega])

/-- A call that ends had memory for its page. -/
theorem VaShape.pageReady (h : VaShape S pg s) (hstatus : r.status = 0) (hpages : r.pages ≠ 0)
    (hroom : HasRoom S s r.attributes) (hun : ∀ p ∈ pg, (s.hd p).unusedEntries = 0)
    (hcall : Settles (fun n => vaFree env n r s) s')
    (hmapped : ∀ a, env.vmalloc a 1 0x03 = true → a + 4096 < 2 ^ 64) : PageReady env pg s := by
  intro hfree
  by_cases hvm : env.vmalloc s.nextPageAddr 1 0x03 = true
  · exact ⟨hmapped _ hvm, hvm⟩
  exfalso
  have hneeds : NeedsPage r s := by
    refine ⟨⟨hstatus, hpages⟩, ?_, .inr ?_, h.fullFrom hun hfree⟩
    · obtain ⟨o, hset, ⟨-, hno⟩ | ⟨page, last, rfl, -⟩⟩ := findLast_spec h r.attributes
      · exact absurd hroom hno
      · exact ⟨page, last, hset⟩
    · obtain ⟨o, hset, hfound⟩ := findUnused_spec h
      cases hfound with
      | none => exact hset
      | @some l₁ l₂ x i hl hq _ _ _ _ => exact absurd (hun x (by rw [hl]; simp)) (by simpa using hq)
  obtain ⟨N, hN⟩ := hneeds.null (by simpa using hvm)
  obtain ⟨M, hM⟩ := hcall
  have hok : vaFree env (N + M) r s = .ok s' := hM (N + M) (by omega)
  rw [hN (N + M) (by omega)] at hok
  cases hok

/-- **`va_free` keeps the allocator in order and the record right.** -/
theorem VaRun.InOrder.free (h : w.InOrder) (hr : r ∈ w.live) (halive : RootsAlive w.state)
    (hmapped : ∀ a, env.vmalloc a 1 0x03 = true → a + 4096 < 2 ^ 64)
    (hcall : vaFree env n r w.state = .ok s') :
    VaRun.InOrder
      { state := s'
        live := w.live.erase r
        mapped := if s'.vaMetadataPages = w.state.vaMetadataPages then w.mapped
          else insert w.state.nextPageAddr w.mapped
        carved := if s'.vaLatest = w.state.vaLatest then w.carved else insert s'.vaLatest w.carved } := by
  rcases h with ⟨-, hlive⟩ | ⟨S, pg, hrec⟩
  · rw [hlive] at hr
    exact absurd hr (by simp)
  obtain ⟨hstatus, hpages⟩ := hrec.asked r hr
  have hasked : ∀ x ∈ w.live.erase r, x.status = 0 ∧ x.pages ≠ 0 := fun x hx =>
    hrec.asked x (List.mem_of_mem_erase hx)
  have hset := (fueled_vaFree r w.state).settles hcall
  by_cases hroom : HasRoom S w.state r.attributes
  · obtain ⟨a, pg', s₁, hset₁, hshape, hret, -, hcase⟩ := vaFree_spec hrec.shape hstatus hpages hroom
      (halive.spared hrec.shape.header_ne_zero) fun hun =>
        hrec.shape.pageReady hstatus hpages hroom hun hset hmapped
    obtain rfl := hset₁.unique hset
    have hlt : ∀ x ∈ insert a S, (s₁.node x).length < 2 ^ 64 := by
      intro x hx
      rcases Finset.mem_insert.mp hx with rfl | hx
      · rw [hret.length]
        exact Nat.mod_lt _ (by decide)
      · rw [(hret.other x hx).2.1]
        exact hrec.lt x hx
    rcases hcase with hsame | ⟨x, c, hnew⟩
    · obtain rfl := hsame.pages
      rw [if_pos hsame.metadata, if_pos hsame.latest]
      refine .inr ⟨_, _, hshape, hlt, hasked, hrec.mapped, fun a => ?_⟩
      simp only [hsame.carved]
      exact hrec.carved a
    · exact .inr ⟨_, _, hrec.newSlot hnew hshape hlt hasked⟩
  · -- no node to hang the range under: the call does nothing
    obtain ⟨o, hlast, ⟨rfl, -⟩ | ⟨page, last, -, hmem, hroom'⟩⟩ := findLast_spec hrec.shape r.attributes
    · have hsame : Settles (fun n => vaFree env n r w.state) w.state :=
        (hlast.bind (g := freeBelow env r w.state) (Settles.const w.state)).congr
          (vaFree_eq hstatus hpages)
      obtain rfl := hsame.unique hset
      rw [if_pos rfl, if_pos rfl]
      exact .inr ⟨_, _, hrec.shape, hrec.lt, hasked, hrec.mapped, hrec.carved⟩
    · exact absurd ⟨last, hmem, hroom'⟩ hroom

/-- **Every state of a run is in order.** -/
theorem VaRun.Reaches.inOrder (hk : KernelEnds kernelEnd) {s₀ : VaState} (h0 : Cold s₀)
    (hrun : VaRun.Reaches kernelEnd (VaRun.start s₀) w) : w.InOrder := by
  refine (Relation.ReflTransGen.invariant (P := fun w => VaRun.InOrder w ∧ RootsAlive w.state)
    (fun x y hxy hx => ⟨?_, hxy.2⟩) hrun ⟨.inl ⟨h0, rfl⟩, fun hc => absurd h0.header hc⟩).1
  obtain ⟨hstep, halive⟩ := hxy
  cases hstep with
  | alloc env n pages attributes hbig hcall => exact hx.1.alloc hk hbig hcall halive
  | free env n hr hmapped hcall => exact hx.1.free hr hx.2 hmapped hcall

/-! ## The search tree -/

/-- `max_length` is the length of the longest range in the subtree. -/
theorem VaShape.isGreatest (h : VaShape S pg s) : ∀ a ∈ S, IsGreatest
    { l | ∃ b, Relation.ReflTransGen (Child s) a b ∧ (s.node b).length = l } (s.node a).maxLength := by
  have hmax : ∀ a ∈ S, (s.node a).maxLength = maxOf s a := fun a ha =>
    h.max a ha (Set.notMem_empty a)
  refine h.tree.forest.isGreatest (fun a ha => ?_) (fun a ha b hab => ?_) fun a ha => ?_
  · rw [hmax a ha]
    exact le_maxOf_self
  · rw [hmax a ha]
    exact le_maxOf_child hab
  · rw [hmax a ha]
    exact maxOf_cases s a

/-- **`find_fit` misses nothing.** -/
theorem VaShape.searchComplete (h : VaShape S pg s) {root : Nat} (hroot : root ∈ S)
    (hr : s.root (s.node root).attributes = root) : SearchComplete s root := by
  intro size
  obtain ⟨e, hset, he⟩ := findFit_spec h.tree h.max size root hroot
  refine ⟨e, hset, ?_⟩
  rcases he with ⟨rfl, hlt⟩ | ⟨he, hle, hattr⟩
  · refine .inr ⟨rfl, fun b hb => ?_⟩
    exact lt_of_le_of_lt ((h.isGreatest root hroot).2 ⟨b, hb, rfl⟩) hlt
  · refine .inl ⟨h.tree.ne_zero e he, ?_, hle⟩
    have hpath := h.tree.path_of_root he
    rwa [hattr, hr] at hpath

/-- Memory for fewer than 2^52 pages, below the end of the address space. -/
def confined : Env := ⟨fun a pages _ => decide (a + 4096 < 2 ^ 64 ∧ pages < 2 ^ 52), fun _ => default⟩

/-- Three pages are taken and given back. -/
theorem exists_run : ∃ w, VaRun.Reaches 0xffff800000100000 (VaRun.start coldState) w ∧
    w.state.vaHeader ≠ 0 := by
  obtain ⟨⟨r, s⟩, halloc, hend⟩ := exists_of_passes
    (p := fun x : VaRet × VaState => x.1.status == 0 && rootsAlive x.2 &&
      passes (fun s => rootsAlive s && s.vaHeader != 0) (vaFree confined 20 x.1 x.2))
    (show passes _ (vaAlloc 0xffff800000100000 confined 20 3 7 coldState) = true by decide +kernel)
  simp only [Bool.and_eq_true, beq_iff_eq] at hend
  obtain ⟨⟨hstatus, halive⟩, hfree⟩ := hend
  obtain ⟨s', hfree, hend⟩ := exists_of_passes hfree
  rw [Bool.and_eq_true, bne_iff_ne] at hend
  have hconfined : ∀ a p t, confined.vmalloc a p t = true → a + 4096 < 2 ^ 64 ∧ p < 2 ^ 52 := by
    intro a p t ha
    simpa only [confined, decide_eq_true_eq] using ha
  have hstep : VaRun.Step 0xffff800000100000 (VaRun.start coldState) _ :=
    VaRun.Step.alloc confined 20 3 7 (fun a p t ha => (hconfined a p t ha).2) halloc
  refine ⟨_, (Relation.ReflTransGen.single ⟨hstep, rootsAlive_spec _ halive⟩).tail
    ⟨VaRun.Step.free confined 20 ?_ (fun a ha => (hconfined a 1 3 ha).1) hfree,
      rootsAlive_spec _ hend.1⟩, hend.2⟩
  rw [if_pos hstatus]
  exact List.mem_cons_self

/-- **The search tree.**  In every state of a run in which no root ever has an empty range, `max_length`
is the length of the longest range in the subtree, and `find_fit` from either root finds a node of the
tree that is long enough whenever there is one. -/
theorem findFit_complete (hk : KernelEnds kernelEnd) {s₀ : VaState} (h0 : Cold s₀)
    (hrun : VaRun.Reaches kernelEnd (VaRun.start s₀) w) :
    (w.state.vaHeader = 0 ∧ w.live = []) ∨
      ((∀ a ∈ reachable w.state, IsGreatest
          { l | ∃ b, Relation.ReflTransGen (Child w.state) a b ∧ (w.state.node b).length = l }
          (w.state.node a).maxLength) ∧
        SearchComplete w.state w.state.vaKstart ∧ SearchComplete w.state w.state.vaUstart) := by
  rcases hrun.inOrder hk h0 with ⟨hcold, hlive⟩ | ⟨S, pg, hrec⟩
  · exact .inl ⟨hcold.header, hlive⟩
  · have h := hrec.shape
    refine .inr ⟨?_, h.searchComplete h.tree.kstart_mem ?_, h.searchComplete h.tree.ustart_mem ?_⟩
    · rw [h.tree.reachable_eq]
      exact h.isGreatest
    · rw [h.tree.kattr]
      rfl
    · rw [h.tree.uattr]
      rfl

/-- After three pages were taken and given back. -/
theorem findFit_complete_three : ∃ w : VaRun, w.state.vaHeader ≠ 0 ∧
    SearchComplete w.state w.state.vaKstart ∧ SearchComplete w.state w.state.vaUstart := by
  obtain ⟨w, hrun, hheader⟩ := exists_run
  have h := findFit_complete ⟨by decide, by decide⟩ cold_coldState hrun
  exact ⟨w, hheader, (h.resolve_left fun hc => hheader hc.1).2⟩

/-! ## The metadata pages -/

end

end Dem64
