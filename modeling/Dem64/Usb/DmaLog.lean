import Dem64.Dma.World

/-!
# The DMA buffers of a driver

What a driver does with DMA buffers is a list of events: which ones it got from `allocate_dma`, and which
addresses it gave to `free_dma`.  What `allocate_dma` answers is arbitrary, but for the address: it is zero if and
only if the call fails (`allocateDma_failed`).
-/

set_option autoImplicit false

namespace Dem64

/-- A call of the DMA allocator; a call of `allocate_dma` that fails is none. -/
inductive DmaEvent
  | alloc (ret : DmaRet)
  | free (virtualAddress : Nat)

/-- What the calls of `allocate_dma` return. -/
structure DmaOracle where
  ret : Nat → DmaRet
  failed : ∀ k, (ret k).status ≠ 0 → (ret k).virtualAddress = 0
  granted : ∀ k, (ret k).status = 0 → (ret k).virtualAddress ≠ 0

/-- The buffers are distinct, as those are that are live at once. -/
def DmaOracle.Distinct (dma : DmaOracle) : Prop :=
  ∀ j k, j ≠ k → (dma.ret j).status = 0 → (dma.ret k).status = 0 →
    (dma.ret j).virtualAddress ≠ (dma.ret k).virtualAddress

/-- The calls so far. -/
structure DmaLog where
  calls : Nat := 0
  events : List DmaEvent := []

namespace DmaLog

/-- `allocate_dma`. -/
def alloc (dma : DmaOracle) (log : DmaLog) : DmaRet × DmaLog :=
  let ret := dma.ret log.calls
  (ret, ⟨log.calls + 1, if ret.status = 0 then log.events ++ [.alloc ret] else log.events⟩)

/-- `free_dma`. -/
def free (log : DmaLog) (virtualAddress : Nat) : DmaLog := { log with events := log.events ++ [.free virtualAddress] }

/-- The buffers that were allocated. -/
def allocated (log : DmaLog) : List Nat :=
  log.events.filterMap fun e => match e with
    | .alloc ret => some ret.virtualAddress
    | .free _ => none

/-- The buffers that were freed. -/
def freed (log : DmaLog) : List Nat :=
  log.events.filterMap fun e => match e with
    | .alloc _ => none
    | .free virtualAddress => some virtualAddress

variable {dma : DmaOracle} {log : DmaLog}

@[simp] theorem allocated_free (va : Nat) : (log.free va).allocated = log.allocated := by
  simp [allocated, free]

@[simp] theorem freed_free (va : Nat) : (log.free va).freed = log.freed ++ [va] := by
  simp [freed, free]

@[simp] theorem freed_alloc : (log.alloc dma).2.freed = log.freed := by
  rw [alloc]
  dsimp only
  split
  · simp [freed]
  · rfl

theorem allocated_alloc_of_ok (h : (log.alloc dma).1.status = 0) :
    (log.alloc dma).2.allocated = log.allocated ++ [(log.alloc dma).1.virtualAddress] := by
  simp only [alloc] at h ⊢
  rw [if_pos h]
  simp [allocated]

theorem allocated_alloc_of_failed (h : (log.alloc dma).1.status ≠ 0) :
    (log.alloc dma).2.allocated = log.allocated := by
  simp only [alloc] at h ⊢
  rw [if_neg h]
  rfl

end DmaLog

/-- `xhci_dma_alloc`: whether it succeeds, and what is stored in `*out`. -/
def xhciDmaAlloc (dma : DmaOracle) (bytes : Nat) (ac64 : Bool) (log : DmaLog) : Bool × DmaRet × DmaLog :=
  let (out, log) := log.alloc dma
  if out.status ≠ 0 then (false, out, log)
  else if ac64 = false ∧ (0x100000000 ≤ out.physicalAddress ∨ 0x100000000 - out.physicalAddress < bytes) then
    (false, {}, log.free out.virtualAddress)
  else (true, out, log)

/-- A buffer, or none: what was allocated on the way has been freed. -/
theorem xhciDmaAlloc_cases (dma : DmaOracle) (bytes : Nat) (ac64 : Bool) (log : DmaLog) :
    (∃ ret log', xhciDmaAlloc dma bytes ac64 log = (true, ret, log') ∧ ret.virtualAddress ≠ 0 ∧
      log'.allocated = log.allocated ++ [ret.virtualAddress] ∧ log'.freed = log.freed) ∨
    ∃ ret log', xhciDmaAlloc dma bytes ac64 log = (false, ret, log') ∧ ret.virtualAddress = 0 ∧
      ∃ l, log'.allocated = log.allocated ++ l ∧ log'.freed = log.freed ++ l := by
  rw [xhciDmaAlloc]
  by_cases hstatus : (log.alloc dma).1.status = 0
  · have hva : (log.alloc dma).1.virtualAddress ≠ 0 := dma.granted log.calls hstatus
    simp only [if_neg (not_not.mpr hstatus)]
    by_cases hhigh : ac64 = false ∧ (0x100000000 ≤ (log.alloc dma).1.physicalAddress ∨
        0x100000000 - (log.alloc dma).1.physicalAddress < bytes)
    · rw [if_pos hhigh]
      refine .inr ⟨_, _, rfl, rfl, [(log.alloc dma).1.virtualAddress], ?_, ?_⟩
      · rw [DmaLog.allocated_free, DmaLog.allocated_alloc_of_ok hstatus]
      · rw [DmaLog.freed_free, DmaLog.freed_alloc]
    · rw [if_neg hhigh]
      exact .inl ⟨_, _, rfl, hva, DmaLog.allocated_alloc_of_ok hstatus, DmaLog.freed_alloc⟩
  · simp only [if_pos hstatus]
    refine .inr ⟨_, _, rfl, dma.failed log.calls hstatus, [], ?_, ?_⟩
    · rw [DmaLog.allocated_alloc_of_failed hstatus, List.append_nil]
    · rw [DmaLog.freed_alloc, List.append_nil]

/-! ## The allocator itself -/

section

variable {pml4 n size pages : Nat} {fresh : EntryPtr → DmaEntry} {w w' : DmaWorld} {ret : DmaRet}
  {own : List EntryPtr} {c : DmaPool.Claim}

theorem backClaim_failed (h : backClaim pml4 w pages c = some (ret, w')) (hstatus : ret.status ≠ 0) :
    ret.virtualAddress = 0 := by
  rw [backClaim] at h
  dsimp only at h
  split at h
  · cases h
    rfl
  · obtain ⟨w₁, -, hret⟩ := Option.bind_eq_some_iff.mp h
    cases hret
    exact absurd rfl hstatus

/-- A failing call of `allocate_dma` gives no address. -/
theorem allocateDma_failed (h : allocateDma pml4 n fresh w size = some (ret, own, w')) (hstatus : ret.status ≠ 0) :
    ret.virtualAddress = 0 := by
  rw [allocateDma] at h
  obtain ⟨⟨ok, w₁⟩, -, h⟩ := Option.bind_eq_some_iff.mp h
  dsimp only at h
  split at h
  · cases h
    rfl
  · obtain ⟨⟨c, w₂⟩, -, h⟩ := Option.bind_eq_some_iff.mp h
    cases c with
    | none =>
      cases h
      rfl
    | some c =>
      obtain ⟨⟨ret', w₃⟩, hback, h⟩ := Option.bind_eq_some_iff.mp h
      cases h
      exact backClaim_failed hback hstatus

end

end Dem64
