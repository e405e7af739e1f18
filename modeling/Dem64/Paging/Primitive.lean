import Dem64.Paging.Machine

/-!
# What the primitives keep

`create_mapping` and `destroy_mapping` touch the machine in three ways only: they store an entry,
they give frames back, and they hang a new table into a slot.  A property that these three keep is
therefore kept by both functions, whatever the state they start from — no well-formedness is needed
and none is assumed.  `Closed.createMapping` and `Closed.destroyMapping` are that rule; the results
about the log, which hold of arbitrary memory contents, are instances of it.
-/

set_option autoImplicit false

namespace Dem64

/-- `P` is kept by the primitives, new tables being made with attributes from `attrs`. -/
structure Closed (attrs : Nat → Prop) (P : Machine → Prop) : Prop where
  /-- Storing an entry. -/
  store : ∀ m t i e, P m → P (m.store t i e)
  /-- Giving frames back. -/
  free : ∀ m a n, P m → P (freePages m a n)
  /-- Hanging a new table into a slot. -/
  table : ∀ m a t i, attrs a → P m → P (newTable a t i m)

namespace Closed

variable {attrs : Nat → Prop} {P : Machine → Prop}

theorem freePdLoop (h : Closed attrs P) (pd : Nat) : ∀ (n i : Nat) (m : Machine), P m →
    P (Dem64.freePdLoop pd n i m)
  | 0, _, _, hm => hm
  | n + 1, i, m, hm => by
    rw [Dem64.freePdLoop]
    split
    · exact h.freePdLoop pd n _ _ (h.free _ _ _ hm)
    · exact h.freePdLoop pd n _ _ (h.store _ _ _ _ hm)

theorem freePdpt (h : Closed attrs P) (t i : Nat) (m : Machine) (hm : P m) :
    P (Dem64.freePdpt t i m) := by
  rw [Dem64.freePdpt]
  split
  · exact hm
  · simp only
    split
    · exact h.free _ _ _ (h.freePdLoop _ _ _ _ hm)
    · exact hm

theorem freePt (h : Closed attrs P) (t i : Nat) (m : Machine) (hm : P m) :
    P (Dem64.freePt t i m) := h.free _ _ _ hm

theorem fillEntries (h : Closed attrs P) {drop : Nat → Nat → Machine → Machine}
    (hdrop : ∀ t i m, P m → P (drop t i m)) (leaf : Nat → Nat) (step t : Nat) :
    ∀ (n i pa : Nat) (m : Machine), P m → P (Dem64.fillEntries drop leaf step t n i pa m)
  | 0, _, _, _, hm => hm
  | n + 1, i, pa, m, hm => by
    rw [Dem64.fillEntries]
    refine h.fillEntries hdrop leaf step t n _ _ _ (h.store _ _ _ _ ?_)
    split
    · exact hdrop _ _ _ hm
    · exact hm

theorem ensurePdpt (h : Closed attrs P) {a : Nat} (ha : attrs a) (t i : Nat) {m : Machine}
    (hm : P m) : P (Dem64.ensurePdpt a t i m) := by
  rw [Dem64.ensurePdpt]
  split
  · exact h.table _ _ _ _ ha hm
  · exact hm

theorem ensureTable (h : Closed attrs P) {a : Nat} (ha : attrs a) (t i : Nat) {m : Machine}
    (hm : P m) : P (Dem64.ensureTable a t i m) := by
  rw [Dem64.ensureTable]
  split
  · exact h.table _ _ _ _ ha hm
  · exact hm

theorem createPt (h : Closed attrs P) {a : Nat} (ha : attrs a) (va pa pages pd : Nat) {m : Machine}
    (hm : P m) : P (Dem64.createPt a va pa pages pd m).2 :=
  h.fillEntries (fun _ _ _ hm => hm) _ _ _ _ _ _ _ (h.ensureTable ha _ _ hm)

theorem createPd (h : Closed attrs P) {a : Nat} (ha : attrs a) (size va pa pages pdpt : Nat)
    {m : Machine} (hm : P m) : P (Dem64.createPd a size va pa pages pdpt m).2 := by
  simp only [Dem64.createPd]
  split
  · exact h.fillEntries h.freePt _ _ _ _ _ _ _ (h.ensureTable ha _ _ hm)
  · exact h.createPt ha _ _ _ _ (h.ensureTable ha _ _ hm)

theorem createChunk (h : Closed attrs P) {a : Nat} (ha : attrs a) (pml4 size va pa pages : Nat)
    {m : Machine} (hm : P m) : P (Dem64.createChunk a pml4 size va pa pages m).2 := by
  simp only [Dem64.createChunk]
  split
  · exact h.fillEntries h.freePdpt _ _ _ _ _ _ _ (h.ensurePdpt ha _ _ hm)
  · exact h.createPd ha _ _ _ _ _ (h.ensurePdpt ha _ _ hm)

theorem createLoop (h : Closed attrs P) {a : Nat} (ha : attrs a) (pml4 virtualEnd : Nat) :
    ∀ (n va pa pages : Nat) (m : Machine), P m →
      P (Dem64.createLoop a pml4 virtualEnd n va pa pages m)
  | 0, _, _, _, _, hm => hm
  | n + 1, va, pa, pages, m, hm => by
    rw [Dem64.createLoop]
    split
    · exact h.createLoop ha pml4 virtualEnd n _ _ _ _ (h.createChunk ha _ _ _ _ _ hm)
    · exact hm

/-- **What the primitives keep, `create_mapping` keeps.** -/
theorem createMapping (h : Closed attrs P) {a : Nat} (ha : attrs a) {m : Machine} (hm : P m)
    (va pa pages pml4 : Nat) : P (Dem64.createMapping m va pa pages a pml4) := by
  rw [Dem64.createMapping]
  split
  · exact hm
  · exact h.createLoop ha _ _ _ _ _ _ _ hm

theorem splitLarge (h : Closed attrs P) {a : Nat} (ha : attrs a) {m : Machine} (hm : P m)
    (block hphys hvirt va pages pml4 : Nat) :
    P (Dem64.splitLarge block hphys hvirt a va pages pml4 m) := by
  rw [Dem64.splitLarge]
  refine h.createMapping ha (h.createMapping ha ?_ _ _ _ _) _ _ _ _
  split
  · exact h.createMapping ha hm _ _ _ _
  · exact hm

theorem splitIf (h : Closed (fun _ => True) P) {m : Machine} (hm : P m)
    (block e hvirt enable va pages pml4 : Nat) :
    P (Dem64.splitIf block e hvirt enable va pages pml4 m) := by
  rw [Dem64.splitIf]
  split
  · exact h.splitLarge trivial hm _ _ _ _ _ _
  · exact hm

theorem destroyPt (h : Closed (fun _ => True) P) (pml4 va pages pd : Nat) {m : Machine} (hm : P m) :
    P (Dem64.destroyPt pml4 va pages pd m).2 := by
  simp only [Dem64.destroyPt]
  split
  · exact hm
  · exact h.fillEntries (fun _ _ _ hm => hm) _ _ _ _ _ _ _ (h.splitIf hm _ _ _ _ _ _ _)

theorem destroyPd (h : Closed (fun _ => True) P) (pml4 size va pages pdpt : Nat) {m : Machine}
    (hm : P m) : P (Dem64.destroyPd pml4 size va pages pdpt m).2 := by
  simp only [Dem64.destroyPd]
  split
  · exact h.fillEntries h.freePt _ _ _ _ _ _ _ (h.splitIf hm _ _ _ _ _ _ _)
  · exact h.destroyPt _ _ _ _ (h.splitIf hm _ _ _ _ _ _ _)

theorem destroyChunk (h : Closed (fun _ => True) P) (pml4 size va pages : Nat) {m : Machine}
    (hm : P m) : P (Dem64.destroyChunk pml4 size va pages m).2 := by
  simp only [Dem64.destroyChunk]
  split
  · exact hm
  · split
    · exact hm
    · split
      · exact h.fillEntries h.freePdpt _ _ _ _ _ _ _ hm
      · exact h.destroyPd _ _ _ _ _ hm

theorem destroyLoop (h : Closed (fun _ => True) P) (pml4 virtualEnd : Nat) :
    ∀ (n va pages : Nat) (m : Machine), P m → P (Dem64.destroyLoop pml4 virtualEnd n va pages m)
  | 0, _, _, _, hm => hm
  | n + 1, va, pages, m, hm => by
    have hc := h.destroyChunk pml4 (virtualEnd - va) va pages hm
    rw [Dem64.destroyLoop]
    split
    · split
      · rename_i heq
        rwa [heq] at hc
      · rename_i heq
        rw [heq] at hc
        exact h.destroyLoop pml4 virtualEnd n _ _ _ hc
    · exact hm

/-- **What the primitives keep, `destroy_mapping` keeps.** -/
theorem destroyMapping (h : Closed (fun _ => True) P) {m : Machine} (hm : P m) (va pages pml4 : Nat) :
    P (Dem64.destroyMapping m va pages pml4) := by
  rw [Dem64.destroyMapping]
  split
  · exact hm
  · exact h.destroyLoop _ _ _ _ _ _ hm

end Closed

/-! ## The log only grows -/

/-- How many frame allocations have failed so far. -/
def Machine.failures (m : Machine) : Nat := m.log.count Event.allocFail

/-- No frame allocation fails between `m` and `m'`. -/
def NoFail (m m' : Machine) : Prop := m'.failures ≤ m.failures

instance (m m' : Machine) : Decidable (NoFail m m') := inferInstanceAs (Decidable (_ ≤ _))

theorem newTable_log (m : Machine) (a t i : Nat) : ∃ ev, ev = (if (allocFrame m.frames 1).1.attr = 0
    then Event.alloc ((allocFrame m.frames 1).1.physicalStart >>> 12) 1 else Event.allocFail) ∧
    (newTable a t i m).log = Event.store (t >>> 12) i
      ((allocFrame m.frames 1).1.physicalStart ||| (a &&& 0x07)) ::
      Event.zero ((allocFrame m.frames 1).1.physicalStart >>> 12) 1 :: ev :: m.log :=
  ⟨_, rfl, rfl⟩

/-- A new table is one failure more, or none. -/
theorem newTable_failures (m : Machine) (a t i : Nat) : (newTable a t i m).failures =
    m.failures + if (allocFrame m.frames 1).1.attr = 0 then 0 else 1 := by
  obtain ⟨ev, hev, hlog⟩ := newTable_log m a t i
  rw [Machine.failures, hlog, hev]
  split
  · simp [Machine.failures]
  · simp [Machine.failures]

/-- Failures are not forgotten. -/
theorem closed_failures (n : Nat) (attrs : Nat → Prop) : Closed attrs fun m => n ≤ m.failures where
  store m t i e h := by simpa [Machine.failures, Machine.store] using h
  free m a n h := by simpa [Machine.failures, freePages] using h
  table m a t i _ h := by
    rw [newTable_failures]
    omega

/-- `GbPageSupport` is not written. -/
theorem closed_gbPageSupport (n : Nat) (attrs : Nat → Prop) :
    Closed attrs fun m => m.gbPageSupport = n where
  store _ _ _ _ h := h
  free _ _ _ h := h
  table _ _ _ _ _ h := h

theorem allocFrame_attr_of_noFail {m : Machine} {a t i : Nat} (h : NoFail m (newTable a t i m)) :
    (allocFrame m.frames 1).1.attr = 0 := by
  by_contra hne
  rw [NoFail, newTable_failures, if_neg hne] at h
  omega

end Dem64
