import Dem64.Usb.Identify
import Mathlib.Data.List.Perm.Basic

/-!
# `identify_device` and its buffers

The buffers of a call are counted along its trace: those that are allocated and neither freed, cached nor recorded
are held (`Held`).  An exit accounts for its buffers if and only if none is held, and for its slot if the slot is
recorded or Disable Slot was sent (`Accounted`).
-/

set_option autoImplicit false

namespace Dem64

namespace Xhci

/-! ## What the controller may access -/

/-- The buffers that the controller may access, by their addresses. -/
structure Access where
  /-- The slot is enabled. -/
  enabled : Bool := false
  /-- The output context in the DCBAA. -/
  output : Option Nat := none
  /-- The ring in the output context. -/
  ring : Option Nat := none
  /-- The input context of a command that is not complete. -/
  input : Option Nat := none
  /-- The buffer of a transfer whose event is not there. -/
  buffer : Option Nat := none

/-- An event changes what the controller may access. -/
def Access.step (a : Access) : SlotEvent → Access
  | .enabled _ => { a with enabled := true }
  | .dcbaa _ output => { a with output := output.map (·.virtualAddress) }
  | .addressDevice _ _ _ input ring => { a with input := some input.virtualAddress, ring := some ring.virtualAddress }
  | .addressed => { a with input := none }
  | .transfer _ buffer => { a with buffer := some buffer.virtualAddress }
  | .transferred => { a with buffer := none }
  | .disabled _ => { a with enabled := false }
  | _ => a

/-- The controller may access a buffer: through a command or a transfer that is not complete, or because the slot is
enabled and its DCBAA entry is set. -/
def Access.May (a : Access) (va : Nat) : Prop :=
  a.input = some va ∨ a.buffer = some va ∨
    (a.enabled = true ∧ a.output.isSome = true ∧ (a.output = some va ∨ a.ring = some va))

/-- What the controller may access after a trace. -/
def accessOf (t : List SlotEvent) : Access := t.foldl Access.step {}

/-- No buffer is freed that the controller may access. -/
def FreesSafe (t : List SlotEvent) : Prop :=
  ∀ t₁ va t₂, t = t₁ ++ .dma (.free va) :: t₂ → ¬ (accessOf t₁).May va

/-! ## Accounts -/

/-- The buffers that were allocated. -/
def allocatedOf (t : List SlotEvent) : List Nat :=
  t.flatMap fun e => match e with
    | .dma (.alloc ret) => [ret.virtualAddress]
    | _ => []

/-- The buffers that were freed. -/
def freedOf (t : List SlotEvent) : List Nat :=
  t.flatMap fun e => match e with
    | .dma (.free va) => [va]
    | _ => []

/-- The buffers in the new entries of `controller.cached`. -/
def cachedOf (t : List SlotEvent) : List Nat :=
  t.flatMap fun e => match e with
    | .cached entry => entry.dma.map (·.virtualAddress)
    | _ => []

/-- The buffers that `slots[index]` owns. -/
def ownedOf (index : Nat) (t : List SlotEvent) : List Nat :=
  t.flatMap fun e => match e with
    | .recorded i slot => if i = index then [slot.outputContext.virtualAddress, slot.ep0.virtualAddress] else []
    | _ => []

/-- A call accounts for its buffers and its slot. -/
structure Accounted (index : Nat) (t : List SlotEvent) : Prop where
  /-- Each buffer is freed once, cached or owned by the slot. -/
  buffers : (allocatedOf t).Perm (freedOf t ++ cachedOf t ++ ownedOf index t)
  /-- No buffer is freed that the controller may access. -/
  safe : FreesSafe t
  /-- The slot is recorded, or Disable Slot was sent. -/
  slot : ∀ slotId, .enabled slotId ∈ t →
    (∃ slot, .recorded index slot ∈ t ∧ slot.slotId = slotId) ∨ .disableSlot slotId ∈ t

section

variable {t t' : List SlotEvent} {e : SlotEvent} {l l' : List Nat} {va index : Nat} {slotId : BitVec 8}
  {ret : DmaRet} {entry : DmaCache} {slot : SlotRecord}

theorem accessOf_append : accessOf (t ++ t') = t'.foldl Access.step (accessOf t) := List.foldl_append

@[simp] theorem allocatedOf_append : allocatedOf (t ++ t') = allocatedOf t ++ allocatedOf t' := List.flatMap_append

@[simp] theorem freedOf_append : freedOf (t ++ t') = freedOf t ++ freedOf t' := List.flatMap_append

@[simp] theorem cachedOf_append : cachedOf (t ++ t') = cachedOf t ++ cachedOf t' := List.flatMap_append

@[simp] theorem ownedOf_append : ownedOf index (t ++ t') = ownedOf index t ++ ownedOf index t' := List.flatMap_append

theorem freesSafe_concat : FreesSafe (t ++ [e]) ↔
    FreesSafe t ∧ ∀ va, e = .dma (.free va) → ¬ (accessOf t).May va := by
  constructor
  · intro h
    refine ⟨fun t₁ va t₂ ht => h t₁ va (t₂ ++ [e]) ?_, fun va he => h t va [] ?_⟩
    · rw [ht, List.append_assoc, List.cons_append]
    · rw [he]
  · rintro ⟨h, hlast⟩ t₁ va t₂ ht
    rcases List.eq_nil_or_concat t₂ with rfl | ⟨t₂, e', rfl⟩
    · obtain ⟨rfl, he⟩ := List.append_inj' ht rfl
      exact hlast va (List.cons.inj he).1
    · rw [List.concat_eq_append, ← List.cons_append, ← List.append_assoc] at ht
      exact h t₁ va t₂ (List.append_inj' ht rfl).1

/-! ## Held buffers -/

/-- Some buffers are neither freed nor cached nor recorded, and the slot is enabled. -/
structure Held (slotId : BitVec 8) (l : List Nat) (t : List SlotEvent) : Prop where
  /-- The buffers are freed or held. -/
  buffers : (allocatedOf t).Perm (freedOf t ++ l)
  /-- None is cached. -/
  cached : cachedOf t = []
  /-- No slot is recorded. -/
  unrecorded : ∀ i slot, .recorded i slot ∉ t
  /-- No buffer was freed that the controller may access. -/
  safe : FreesSafe t
  /-- The slot is the one that was enabled. -/
  enabled : ∀ id, .enabled id ∈ t ↔ id = slotId

theorem Held.owned (h : Held slotId l t) : ownedOf index t = [] := by
  refine List.flatMap_eq_nil_iff.mpr fun e he => ?_
  cases e with
  | recorded i slot => exact absurd he (h.unrecorded i slot)
  | _ => rfl

theorem Held.perm (h : Held slotId l t) (hl : l.Perm l') : Held slotId l' t :=
  { h with buffers := h.buffers.trans (hl.append_left _) }

/-- The event is not stored, and no slot is enabled. -/
def SlotEvent.Passing : SlotEvent → Prop
  | .enabled _ | .cached _ | .recorded _ _ => False
  | _ => True

/-- An event that is not stored moves the held buffers. -/
theorem Held.concat (h : Held slotId l t) (he : e.Passing)
    (hbuffers : (allocatedOf t ++ allocatedOf [e]).Perm (freedOf t ++ freedOf [e] ++ l'))
    (hsafe : ∀ va, e = .dma (.free va) → ¬ (accessOf t).May va) : Held slotId l' (t ++ [e]) := by
  have hcached : cachedOf [e] = [] := by cases e <;> first | rfl | exact he.elim
  constructor
  · rw [allocatedOf_append, freedOf_append]
    exact hbuffers
  · rw [cachedOf_append, h.cached, hcached, List.append_nil]
  · intro i slot hmem
    rcases List.mem_append.mp hmem with hmem | hmem
    · exact h.unrecorded i slot hmem
    · rw [← List.mem_singleton.mp hmem] at he
      exact he
  · exact freesSafe_concat.mpr ⟨h.safe, hsafe⟩
  · intro id
    rw [List.mem_append, List.mem_singleton, h.enabled, or_iff_left]
    rintro rfl
    exact he

/-- A buffer is allocated. -/
theorem Held.alloc (h : Held slotId l t) (ret : DmaRet) : Held slotId (ret.virtualAddress :: l) (t ++ [.dma (.alloc ret)]) := by
  refine h.concat trivial ?_ fun va he => nomatch he
  change (allocatedOf t ++ [ret.virtualAddress]).Perm (freedOf t ++ [] ++ ret.virtualAddress :: l)
  rw [List.append_nil]
  exact List.perm_append_singleton _ _ |>.trans ((h.buffers.cons _).trans List.perm_middle.symm)

/-- A held buffer is freed. -/
theorem Held.free (h : Held slotId (va :: l) t) (hmay : ¬ (accessOf t).May va) :
    Held slotId l (t ++ [.dma (.free va)]) := by
  refine h.concat trivial ?_ fun va' he => ?_
  · change (allocatedOf t ++ []).Perm (freedOf t ++ [va] ++ l)
    rw [List.append_nil, List.append_assoc]
    exact h.buffers
  · cases he
    exact hmay

/-- The event is not one of the allocator either. -/
def SlotEvent.Plain (e : SlotEvent) : Prop := e.Passing ∧ ∀ event, e ≠ .dma event

theorem Held.plain (h : Held slotId l t) (he : e.Plain) : Held slotId l (t ++ [e]) := by
  have hempty : allocatedOf [e] = [] ∧ freedOf [e] = [] := by
    cases e with
    | dma event => exact absurd rfl (he.2 event)
    | _ => exact ⟨rfl, rfl⟩
  refine h.concat he.1 ?_ fun va hfree => absurd hfree (he.2 _)
  rw [hempty.1, hempty.2, List.append_nil, List.append_nil]
  exact h.buffers

/-! ## Exits -/

/-- Nothing is held, and Disable Slot was sent. -/
theorem Held.accounted (h : Held slotId [] t) (hdisable : .disableSlot slotId ∈ t) : Accounted index t := by
  refine ⟨?_, h.safe, fun id hid => .inr ?_⟩
  · rw [h.cached, h.owned, List.append_nil]
    exact h.buffers
  · rw [(h.enabled id).mp hid]
    exact hdisable

/-- What is held is cached. -/
theorem Held.accounted_cached (h : Held slotId l t) (hdisable : .disableSlot slotId ∈ t)
    (hentry : entry.dma.map (·.virtualAddress) = l) : Accounted index (t ++ [.cached entry]) := by
  refine ⟨?_, freesSafe_concat.mpr ⟨h.safe, fun va he => nomatch he⟩, fun id hid => .inr ?_⟩
  · rw [allocatedOf_append, freedOf_append, cachedOf_append, ownedOf_append, h.cached, h.owned]
    have hlast : cachedOf [.cached entry] = l := by simp [cachedOf, ← hentry]
    rw [hlast]
    change (allocatedOf t ++ []).Perm (freedOf t ++ [] ++ ([] ++ l) ++ ([] ++ []))
    simp only [List.append_nil, List.nil_append]
    exact h.buffers
  · have hid := List.mem_append.mp hid
    rw [List.mem_singleton, or_iff_left (by simp), h.enabled] at hid
    rw [hid]
    exact List.mem_append_left _ hdisable

/-- What is held belongs to the slot. -/
theorem Held.accounted_recorded (h : Held slotId l t) (hid : slot.slotId = slotId)
    (hslot : [slot.outputContext.virtualAddress, slot.ep0.virtualAddress] = l) :
    Accounted index (t ++ [.recorded index slot]) := by
  refine ⟨?_, freesSafe_concat.mpr ⟨h.safe, fun va he => nomatch he⟩, fun id hmem => .inl ⟨slot, ?_, ?_⟩⟩
  · rw [allocatedOf_append, freedOf_append, cachedOf_append, ownedOf_append, h.cached, h.owned]
    have hlast : ownedOf index [.recorded index slot] = l := by simp [ownedOf, ← hslot]
    rw [hlast]
    change (allocatedOf t ++ []).Perm (freedOf t ++ [] ++ ([] ++ []) ++ ([] ++ l))
    simp only [List.append_nil, List.nil_append]
    exact h.buffers
  · exact List.mem_append_right _ List.mem_cons_self
  · have hmem := List.mem_append.mp hmem
    rw [List.mem_singleton, or_iff_left (by simp), h.enabled] at hmem
    rw [hid, hmem]

/-- A buffer is held and lost. -/
theorem Held.not_accounted (h : Held slotId l t) (hne : l ≠ []) : ¬ Accounted index t := by
  intro hacc
  have hcount := hacc.buffers.length_eq
  have hheld := h.buffers.length_eq
  have hpos := List.length_pos_iff.mpr hne
  rw [h.cached, h.owned] at hcount
  simp only [List.length_append, List.length_nil] at hcount hheld
  omega

/-- The slot is neither recorded nor disabled. -/
theorem Held.not_accounted_slot (h : Held slotId l t) (hdisable : .disableSlot slotId ∉ t) :
    ¬ Accounted index (t ++ [.cached entry]) := by
  intro hacc
  have henabled : .enabled slotId ∈ t ++ [.cached entry] := List.mem_append_left _ ((h.enabled slotId).mpr rfl)
  rcases hacc.slot slotId henabled with ⟨slot, hmem, -⟩ | hmem
  · have hmem := List.mem_append.mp hmem
    rw [List.mem_singleton, or_iff_left (by simp)] at hmem
    exact h.unrecorded _ _ hmem
  · have hmem := List.mem_append.mp hmem
    rw [List.mem_singleton, or_iff_left (by simp)] at hmem
    exact hdisable hmem

end

/-! ## When a call accounts for everything -/

section

variable {dma : DmaOracle} {o : IdentifyOutcomes} {port slotId speedId : BitVec 8} {initialMps : BitVec 16}
  {input output ring : DmaRet} {s : IdentifyState} {l : List Nat} {index : Nat}

/-- Disable Slot succeeds, or the buffers can be cached. -/
def CanDrop (o : IdentifyOutcomes) : Prop :=
  (∃ completion, o.disableSlot = some completion ∧ completionCode completion = 1) ∨
    (o.newDma = true ∧ o.newErrorCode = true ∧ o.newCache = true)

/-- Both outcomes of `disable_device_slot`. -/
theorem disableDeviceSlot_cases (o : IdentifyOutcomes) (slotId : BitVec 8) (s : IdentifyState) :
    ((∃ completion, o.disableSlot = some completion ∧ completionCode completion = 1) ∧
      disableDeviceSlot o slotId s = (true, (s.add (.disableSlot slotId)).add (.disabled slotId))) ∨
    (¬ (∃ completion, o.disableSlot = some completion ∧ completionCode completion = 1) ∧
      disableDeviceSlot o slotId s = (false, s.add (.disableSlot slotId))) := by
  rw [disableDeviceSlot]
  cases hdisable : o.disableSlot with
  | none => exact .inr ⟨by simp, rfl⟩
  | some completion =>
    by_cases hcode : completionCode completion = 1
    · exact .inl ⟨⟨completion, rfl, hcode⟩, by simp only [if_neg (not_not.mpr hcode)]⟩
    · refine .inr ⟨?_, by simp only [if_pos hcode]⟩
      rintro ⟨completion', heq, hcode'⟩
      cases heq
      exact hcode hcode'

/-- An exit that only disables the slot. -/
theorem disable_accounted (h : Held slotId l s.trace) :
    Accounted index (disableDeviceSlot o slotId s).2.trace ↔ l = [] := by
  have hheld : Held slotId l (disableDeviceSlot o slotId s).2.trace ∧
      .disableSlot slotId ∈ (disableDeviceSlot o slotId s).2.trace := by
    have hone : Held slotId l (s.add (.disableSlot slotId)).trace := h.plain ⟨trivial, by simp⟩
    have hmem : .disableSlot slotId ∈ (s.add (.disableSlot slotId)).trace :=
      List.mem_append_right _ List.mem_cons_self
    rcases disableDeviceSlot_cases o slotId s with ⟨-, heq⟩ | ⟨-, heq⟩
    · rw [heq]
      exact ⟨hone.plain ⟨trivial, by simp⟩, List.mem_append_left _ hmem⟩
    · rw [heq]
      exact ⟨hone, hmem⟩
  constructor
  · intro hacc
    by_contra hne
    exact hheld.1.not_accounted hne hacc
  · rintro rfl
    exact hheld.1.accounted hheld.2

/-- What the controller may access once the device is addressed. -/
def addressedAccess (output ring : DmaRet) : Access :=
  ⟨true, some output.virtualAddress, some ring.virtualAddress, none, none⟩

theorem dropSlot_accounted (h : Held slotId [output.virtualAddress, ring.virtualAddress] s.trace)
    (haccess : accessOf s.trace = addressedAccess output ring) :
    (∃ s', dropSlot o slotId output ring s = some s' ∧ Accounted index s'.trace) ↔ CanDrop o := by
  have hone : Held slotId [output.virtualAddress, ring.virtualAddress] (s.add (.disableSlot slotId)).trace :=
    h.plain ⟨trivial, by simp⟩
  have hmem : .disableSlot slotId ∈ (s.add (.disableSlot slotId)).trace :=
    List.mem_append_right _ List.mem_cons_self
  rw [dropSlot]
  rcases disableDeviceSlot_cases o slotId s with ⟨hok, heq⟩ | ⟨hfailed, heq⟩
  · -- the slot is disabled, so nothing is accessed
    simp only [heq, Bool.true_eq_false, if_false]
    refine iff_of_true ⟨_, rfl, ?_⟩ (.inl hok)
    have hheld : Held slotId [output.virtualAddress, ring.virtualAddress]
        (s.trace ++ [.disableSlot slotId] ++ [.disabled slotId] ++ [.dcbaa slotId none]) :=
      Held.plain (hone.plain ⟨trivial, by simp⟩) ⟨trivial, by simp⟩
    have hnone : ∀ va, ¬ (accessOf
        (s.trace ++ [.disableSlot slotId] ++ [.disabled slotId] ++ [.dcbaa slotId none])).May va := by
      intro va
      simp [accessOf_append, haccess, addressedAccess, Access.step, Access.May]
    have hfirst := hheld.free (hnone _)
    refine Held.accounted (hfirst.free ?_) (by simp)
    rw [accessOf_append]
    exact hnone _
  · simp only [heq, if_true, cacheBuffers]
    by_cases hcache : o.newDma = true ∧ o.newErrorCode = true ∧ o.newCache = true
    · rw [if_pos hcache]
      exact iff_of_true ⟨_, rfl, hone.accounted_cached hmem rfl⟩ (.inr hcache)
    · rw [if_neg hcache]
      exact iff_of_false (by simp) (by rintro (h | h) <;> contradiction)

/-- `xhci_dma_alloc` succeeds in the call of `allocate_dma` with this number. -/
def Grants (dma : DmaOracle) (k bytes : Nat) (ac64 : Bool) : Prop :=
  (dma.ret k).status = 0 ∧ ¬ (ac64 = false ∧
    (0x100000000 ≤ (dma.ret k).physicalAddress ∨ 0x100000000 - (dma.ret k).physicalAddress < bytes))

theorem xhciDmaAlloc_of_grants {bytes : Nat} {ac64 : Bool} (h : Grants dma s.calls bytes ac64) :
    s.xhciDmaAlloc dma bytes ac64 =
      (true, dma.ret s.calls, ⟨s.calls + 1, s.trace ++ [.dma (.alloc (dma.ret s.calls))]⟩) := by
  obtain ⟨hstatus, hfits⟩ := h
  simp only [IdentifyState.xhciDmaAlloc, Dem64.xhciDmaAlloc, DmaLog.alloc, if_pos hstatus, if_neg (not_not.mpr hstatus),
    if_neg hfits]
  rfl

/-- A call that fails leaves what is held, and what may be accessed. -/
theorem xhciDmaAlloc_refused (bytes : Nat) (ac64 : Bool) (h : Held slotId l s.trace)
    (hno : ¬ Grants dma s.calls bytes ac64)
    (hmay : (dma.ret s.calls).status = 0 → ¬ (accessOf s.trace).May (dma.ret s.calls).virtualAddress) :
    ∃ out s', s.xhciDmaAlloc dma bytes ac64 = (false, out, s') ∧ Held slotId l s'.trace ∧
      accessOf s'.trace = accessOf s.trace := by
  by_cases hstatus : (dma.ret s.calls).status = 0
  · have hhigh := not_not.mp (not_and.mp hno hstatus)
    have hheld := h.alloc (dma.ret s.calls)
    have hfree : Held slotId l (s.trace ++ [.dma (.alloc (dma.ret s.calls))] ++
        [.dma (.free (dma.ret s.calls).virtualAddress)]) := by
      refine hheld.free ?_
      rw [accessOf_append]
      exact hmay hstatus
    refine ⟨{}, ⟨s.calls + 1, _⟩, ?_, hfree, by simp [accessOf_append, Access.step]⟩
    simp only [IdentifyState.xhciDmaAlloc, Dem64.xhciDmaAlloc, DmaLog.alloc, if_pos hstatus,
      if_neg (not_not.mpr hstatus), if_pos hhigh]
    simp [IdentifyState.log, DmaLog.free]
  · refine ⟨dma.ret s.calls, ⟨s.calls + 1, s.trace⟩, ?_, h, rfl⟩
    simp only [IdentifyState.xhciDmaAlloc, Dem64.xhciDmaAlloc, DmaLog.alloc, if_neg hstatus, if_pos hstatus]
    simp [IdentifyState.log]

theorem exists_bind_some {x : Option IdentifyState} {d : List (BitVec 8)} {P : List SlotEvent → Prop} :
    (∃ r, (x.bind fun s' => some (d, s')) = some r ∧ P r.2.trace) ↔ ∃ s', x = some s' ∧ P s'.trace := by
  cases x with
  | none => simp
  | some s' => simp

/-- `addr_64`. -/
def IdentifyOutcomes.ac64 (o : IdentifyOutcomes) : Bool := o.hccparams1 &&& 1 != 0

/-- An addressed device is accounted for. -/
def ReadAccounts (dma : DmaOracle) (o : IdentifyOutcomes) : Prop :=
  (¬ Grants dma 3 8 o.ac64 → CanDrop o) ∧
    (Grants dma 3 8 o.ac64 → ∃ event, o.transfer = some event ∧ (completionCode event ≠ 1 → CanDrop o) ∧
      (completionCode event = 1 → o.descriptor 1 = 1 ∧ o.descriptor 0 = 18))

/-- The controller does not access a buffer that is neither the output context nor the ring. -/
theorem not_may_addressedAccess {va : Nat} (h : va ≠ output.virtualAddress ∧ va ≠ ring.virtualAddress) :
    ¬ (addressedAccess output ring).May va := by
  simp [addressedAccess, Access.May, h.1.symm, h.2.symm]

theorem readDescriptor_accounted (hcalls : s.calls = 3)
    (h : Held slotId [input.virtualAddress, output.virtualAddress, ring.virtualAddress] s.trace)
    (haccess : accessOf s.trace = addressedAccess output ring) (hdisable : .disableSlot slotId ∉ s.trace)
    (hinput : input.virtualAddress ≠ output.virtualAddress ∧ input.virtualAddress ≠ ring.virtualAddress)
    (hdesc : (dma.ret 3).status = 0 → (dma.ret 3).virtualAddress ≠ output.virtualAddress ∧
      (dma.ret 3).virtualAddress ≠ ring.virtualAddress ∧ input.virtualAddress ≠ (dma.ret 3).virtualAddress) :
    (∃ r, readDescriptor dma o port slotId speedId initialMps input output ring s = some r ∧
      Accounted (port.toNat - 1) r.2.trace) ↔ ReadAccounts dma o := by
  have hac64 : (o.hccparams1 &&& 1 != 0) = o.ac64 := rfl
  simp only [readDescriptor, hac64, Option.bind_eq_bind, Option.pure_def, ReadAccounts]
  by_cases hgrants : Grants dma 3 8 o.ac64
  · obtain ⟨hne₁, hne₂, hne₃⟩ := hdesc hgrants.1
    have hcall := @xhciDmaAlloc_of_grants dma s 8 o.ac64 (by rwa [hcalls])
    rw [hcalls] at hcall
    simp only [hcall, Bool.true_eq_false, if_false]
    rw [and_iff_right fun hno => absurd hgrants hno, forall_prop_of_true hgrants]
    -- the transfer has started
    have hheld : Held slotId [(dma.ret 3).virtualAddress, input.virtualAddress, output.virtualAddress,
        ring.virtualAddress] (s.trace ++ [.dma (.alloc (dma.ret 3))] ++
          [.transfer (descriptorTrbs (BitVec.ofNat 64 (dma.ret 3).physicalAddress)) (dma.ret 3)]) :=
      Held.plain (h.alloc _) ⟨trivial, by simp⟩
    have hnow : accessOf (s.trace ++ [.dma (.alloc (dma.ret 3))] ++
        [.transfer (descriptorTrbs (BitVec.ofNat 64 (dma.ret 3).physicalAddress)) (dma.ret 3)]) =
        { addressedAccess output ring with buffer := some (dma.ret 3).virtualAddress } := by
      rw [accessOf_append, accessOf_append, haccess]
      rfl
    cases htransfer : o.transfer with
    | none =>
      refine iff_of_false ?_ (by simp)
      simp only [exists_bind_some]
      rintro ⟨s', hcache, hacc⟩
      rw [cacheBuffers] at hcache
      split at hcache
      · cases hcache
        have hfreed := Held.free (hheld.perm (List.Perm.swap _ _ _)) (by
          rw [hnow]
          simp [Access.May, addressedAccess, hinput.1.symm, hinput.2.symm, hne₃.symm])
        refine hfreed.not_accounted_slot ?_ hacc
        simp [hdisable]
      · cases hcache
    | some event =>
      have hdone := Held.plain hheld (e := .transferred) ⟨trivial, by simp⟩
      have hafter : accessOf (s.trace ++ [.dma (.alloc (dma.ret 3))] ++
          [.transfer (descriptorTrbs (BitVec.ofNat 64 (dma.ret 3).physicalAddress)) (dma.ret 3)] ++ [.transferred]) =
          addressedAccess output ring := by
        rw [accessOf_append, hnow]
        rfl
      have hfirst := hdone.free (by
        rw [hafter]
        exact not_may_addressedAccess ⟨hne₁, hne₂⟩)
      have hboth := hfirst.free (by
        rw [accessOf_append, hafter]
        exact not_may_addressedAccess hinput)
      simp only [Option.some.injEq, exists_eq_left']
      by_cases hcode : completionCode event = 1
      · rw [if_neg (not_not.mpr hcode)]
        by_cases hvalid : o.descriptor 1 = 1 ∧ o.descriptor 0 = 18
        · rw [if_neg (by rw [not_or, not_not, not_not]; exact hvalid)]
          exact iff_of_true ⟨_, rfl, hboth.accounted_recorded rfl rfl⟩ ⟨fun hno => absurd hcode hno, fun _ => hvalid⟩
        · rw [if_pos (by rw [← not_and_or]; exact hvalid)]
          refine iff_of_false ?_ fun hno => hvalid (hno.2 hcode)
          rintro ⟨r, hr, hacc⟩
          cases hr
          exact hdone.not_accounted (by simp) hacc
      · rw [if_pos hcode, exists_bind_some, dropSlot_accounted hboth (by
          rw [IdentifyState.trace_freeDma, IdentifyState.trace_freeDma, accessOf_append, accessOf_append]
          exact hafter)]
        exact ⟨fun hdrop => ⟨fun _ => hdrop, fun hno => absurd hno hcode⟩, fun hdrop => hdrop.1 hcode⟩
  · have hmay : (dma.ret s.calls).status = 0 → ¬ (accessOf s.trace).May (dma.ret s.calls).virtualAddress := by
      rw [hcalls, haccess]
      exact fun hstatus => not_may_addressedAccess ⟨(hdesc hstatus).1, (hdesc hstatus).2.1⟩
    obtain ⟨out, s', hcall, hheld, hsame⟩ := xhciDmaAlloc_refused 8 o.ac64 h
      (by rwa [hcalls]) hmay
    rw [haccess] at hsame
    simp only [hcall, if_true, exists_bind_some]
    rw [dropSlot_accounted]
    · exact ⟨fun hdrop => ⟨fun _ => hdrop, fun hno => absurd hno hgrants⟩, fun hdrop => hdrop.1 hgrants⟩
    · refine Held.free hheld ?_
      rw [hsame]
      exact not_may_addressedAccess hinput
    · rw [IdentifyState.trace_freeDma, accessOf_append]
      exact hsame

/-- A device with two contexts is accounted for. -/
def AddressAccounts (dma : DmaOracle) (o : IdentifyOutcomes) : Prop :=
  Grants dma 2 4096 o.ac64 → ∃ completion, o.addressDevice = some completion ∧
    (completionCode completion ≠ 1 → CanDrop o) ∧ (completionCode completion = 1 → ReadAccounts dma o)

theorem addressSlot_accounted (hcalls : s.calls = 2)
    (h : Held slotId [input.virtualAddress, output.virtualAddress] s.trace)
    (haccess : accessOf s.trace = { enabled := true }) (hdisable : .disableSlot slotId ∉ s.trace)
    (hne : input.virtualAddress ≠ output.virtualAddress)
    (hnew : ∀ k, 2 ≤ k → (dma.ret k).status = 0 → (dma.ret k).virtualAddress ≠ input.virtualAddress ∧
      (dma.ret k).virtualAddress ≠ output.virtualAddress)
    (hlater : (dma.ret 2).status = 0 → (dma.ret 3).status = 0 →
      (dma.ret 3).virtualAddress ≠ (dma.ret 2).virtualAddress) :
    (∃ r, addressSlot dma o port slotId initialMps input output s = some r ∧
      Accounted (port.toNat - 1) r.2.trace) ↔ AddressAccounts dma o := by
  have hac64 : (o.hccparams1 &&& 1 != 0) = o.ac64 := rfl
  have hnone : ∀ va, ¬ (accessOf s.trace).May va := by simp [haccess, Access.May]
  simp only [addressSlot, hac64, Option.bind_eq_bind, Option.pure_def, AddressAccounts]
  by_cases hgrants : Grants dma 2 4096 o.ac64
  · obtain ⟨hne₁, hne₂⟩ := hnew 2 (Nat.le_refl 2) hgrants.1
    have hcall := @xhciDmaAlloc_of_grants dma s 4096 o.ac64 (by rwa [hcalls])
    rw [hcalls] at hcall
    simp only [hcall, Bool.true_eq_false, if_false]
    rw [forall_prop_of_true hgrants]
    -- the command is submitted
    have hheld : ∀ command context link, Held slotId [(dma.ret 2).virtualAddress, input.virtualAddress,
        output.virtualAddress] (s.trace ++ [.dma (.alloc (dma.ret 2))] ++ [.dcbaa slotId (some output)] ++
          [.addressDevice command context link input (dma.ret 2)]) := fun _ _ _ =>
      Held.plain (Held.plain (h.alloc _) ⟨trivial, by simp⟩) ⟨trivial, by simp⟩
    have hnow : ∀ command context link, accessOf (s.trace ++ [.dma (.alloc (dma.ret 2))] ++
        [.dcbaa slotId (some output)] ++ [.addressDevice command context link input (dma.ret 2)]) =
        { addressedAccess output (dma.ret 2) with input := some input.virtualAddress } := fun _ _ _ => by
      rw [accessOf_append, accessOf_append, accessOf_append, haccess]
      rfl
    have hrotate : [(dma.ret 2).virtualAddress, input.virtualAddress, output.virtualAddress].Perm
        [input.virtualAddress, output.virtualAddress, (dma.ret 2).virtualAddress] := List.perm_append_singleton _ _ |>.symm
    cases haddress : o.addressDevice with
    | none =>
      refine iff_of_false ?_ (by simp)
      simp only [exists_bind_some]
      rintro ⟨s', hcache, hacc⟩
      rw [cacheBuffers] at hcache
      split at hcache
      · cases hcache
        exact (hheld _ _ _).not_accounted_slot (by simp [hdisable]) hacc
      · cases hcache
    | some completion =>
      have hdone := fun command context link =>
        Held.plain ((hheld command context link).perm hrotate) (e := .addressed) ⟨trivial, by simp⟩
      have hafter : ∀ command context link, accessOf (s.trace ++ [.dma (.alloc (dma.ret 2))] ++
          [.dcbaa slotId (some output)] ++ [.addressDevice command context link input (dma.ret 2)] ++
          [.addressed]) = addressedAccess output (dma.ret 2) := fun command context link => by
        rw [accessOf_append, hnow]
        rfl
      simp only [Option.some.injEq, exists_eq_left']
      by_cases hcode : completionCode completion = 1
      · rw [if_neg (not_not.mpr hcode), readDescriptor_accounted (by rfl) (hdone _ _ _) (hafter _ _ _)
          (by simp [hdisable]) ⟨hne, hne₁.symm⟩ fun hstatus => ⟨(hnew 3 (by decide) hstatus).2,
            hlater hgrants.1 hstatus, (hnew 3 (by decide) hstatus).1.symm⟩]
        exact ⟨fun hread => ⟨fun hno => absurd hcode hno, fun _ => hread⟩, fun hread => hread.2 hcode⟩
      · rw [if_pos hcode, exists_bind_some, dropSlot_accounted ((hdone _ _ _).free (by
          rw [hafter]
          exact not_may_addressedAccess ⟨hne, hne₁.symm⟩)) (by
          rw [IdentifyState.trace_freeDma, accessOf_append]
          exact hafter _ _ _)]
        exact ⟨fun hdrop => ⟨fun _ => hdrop, fun hno => absurd hno hcode⟩, fun hdrop => hdrop.1 hcode⟩
  · obtain ⟨out, s', hcall, hheld, hsame⟩ := xhciDmaAlloc_refused 4096 o.ac64 h
      (by rwa [hcalls]) (fun _ => hnone _)
    simp only [hcall, if_true, Option.some.injEq, exists_eq_left']
    refine iff_of_true ((disable_accounted ?_).mpr rfl) fun hno => absurd hno hgrants
    rw [IdentifyState.trace_freeDma, IdentifyState.trace_freeDma]
    have hfirst := hheld.free (by rw [hsame]; exact hnone _)
    refine hfirst.free ?_
    rw [accessOf_append, hsame]
    exact hnone _

/-- A context is allocated where the controller reaches it. -/
def Fits (dma : DmaOracle) (k : Nat) (ac64 : Bool) : Prop :=
  (dma.ret k).status = 0 ∧ ¬ (ac64 = false ∧ 0xFFFFFFFF < (dma.ret k).physicalAddress)

/-- When a call accounts for its buffers and its slot. -/
def IdentifyAccounts (dma : DmaOracle) (o : IdentifyOutcomes) : Prop :=
  enableDeviceSlot o ≠ 0 → getInitialMps o.portsc o.protocolMajor ≠ none →
    (¬ Fits dma 0 o.ac64 → (dma.ret 1).status ≠ 0) ∧
      (Fits dma 0 o.ac64 → Fits dma 1 o.ac64 → AddressAccounts dma o)

theorem Held.allocateDma (dma : DmaOracle) (h : Held slotId l s.trace) : Held slotId
    (if (dma.ret s.calls).status = 0 then (dma.ret s.calls).virtualAddress :: l else l)
    (s.allocateDma dma).2.trace := by
  simp only [IdentifyState.allocateDma, DmaLog.alloc, IdentifyState.log]
  split
  · exact h.alloc _
  · simpa using h

theorem accessOf_allocateDma : accessOf (s.allocateDma dma).2.trace = accessOf s.trace := by
  simp only [IdentifyState.allocateDma, DmaLog.alloc, IdentifyState.log]
  split <;> simp [accessOf_append, Access.step]

theorem disableSlot_allocateDma :
    .disableSlot slotId ∈ (s.allocateDma dma).2.trace ↔ .disableSlot slotId ∈ s.trace := by
  simp only [IdentifyState.allocateDma, DmaLog.alloc, IdentifyState.log]
  split <;> simp

theorem accounted_nil : Accounted index [] :=
  ⟨List.Perm.refl _, fun t₁ va t₂ ht => by simp at ht, fun _ hno => nomatch hno⟩

theorem held_enabled (slotId : BitVec 8) : Held slotId [] [.enabled slotId] := by
  refine ⟨List.Perm.refl _, rfl, by simp, fun t₁ va t₂ ht => ?_, by simp⟩
  have hmem : SlotEvent.dma (.free va) ∈ [SlotEvent.enabled slotId] := by rw [ht]; simp
  simp at hmem

/-- The buffer of a call of `allocate_dma`, if it succeeds. -/
def grantedOf (ret : DmaRet) : List Nat := if ret.status = 0 then [ret.virtualAddress] else []

theorem grantedOf_eq_nil {ret : DmaRet} : grantedOf ret = [] ↔ ret.status ≠ 0 := by
  rw [grantedOf]
  split <;> simp_all

/-- After the calls for the two contexts. -/
theorem contexts_spec (dma : DmaOracle) (slotId : BitVec 8) : ∃ s₁ s₂,
    IdentifyState.allocateDma (.add {} (.enabled slotId)) dma = (dma.ret 0, s₁) ∧
    s₁.allocateDma dma = (dma.ret 1, s₂) ∧ s₂.calls = 2 ∧ accessOf s₂.trace = { enabled := true } ∧
    .disableSlot slotId ∉ s₂.trace ∧ Held slotId (grantedOf (dma.ret 0) ++ grantedOf (dma.ret 1)) s₂.trace := by
  have hone := Held.allocateDma dma (s := .add {} (.enabled slotId)) (held_enabled slotId)
  have htwo := hone.allocateDma dma
  refine ⟨(IdentifyState.allocateDma (.add {} (.enabled slotId)) dma).2,
    (IdentifyState.allocateDma (IdentifyState.allocateDma (.add {} (.enabled slotId)) dma).2 dma).2, rfl, rfl, rfl,
    ?_, ?_, htwo.perm ?_⟩
  · rw [accessOf_allocateDma, accessOf_allocateDma]
    rfl
  · rw [disableSlot_allocateDma, disableSlot_allocateDma]
    simp [IdentifyState.add]
  · change (if (dma.ret 1).status = 0 then (dma.ret 1).virtualAddress ::
        (if (dma.ret 0).status = 0 then [(dma.ret 0).virtualAddress] else [])
      else if (dma.ret 0).status = 0 then [(dma.ret 0).virtualAddress] else []).Perm _
    rw [grantedOf, grantedOf]
    split
    · exact (List.perm_append_singleton _ _).symm
    · rw [List.append_nil]

/-- **When `identify_device` accounts for its buffers.** -/
theorem identifyDevice_accounted_iff (dma : DmaOracle) (o : IdentifyOutcomes) (port : BitVec 8)
    (hdistinct : dma.Distinct) :
    (∃ r, identifyDevice dma o port = some r ∧ Accounted (port.toNat - 1) r.2.trace) ↔ IdentifyAccounts dma o := by
  have hac64 : (o.hccparams1 &&& 1 != 0) = o.ac64 := rfl
  simp only [identifyDevice, hac64, IdentifyAccounts]
  by_cases hslot : enableDeviceSlot o = 0
  · rw [if_pos hslot]
    exact iff_of_true ⟨_, rfl, accounted_nil⟩ fun hno => absurd hslot hno
  · rw [if_neg hslot, forall_prop_of_true hslot]
    cases hmps : getInitialMps o.portsc o.protocolMajor with
    | none =>
      simp only [Option.some.injEq, exists_eq_left', ne_eq, not_true_eq_false, false_imp_iff, iff_true]
      exact (disable_accounted (held_enabled (enableDeviceSlot o))).mpr rfl
    | some initialMps =>
      rw [forall_prop_of_true (by simp)]
      obtain ⟨s₁, s₂, hfirst, hsecond, hcalls, haccess, hdisable, hheld⟩ := contexts_spec dma (enableDeviceSlot o)
      simp only [hfirst, hsecond]
      have hnone : ∀ va, ¬ (accessOf s₂.trace).May va := by simp [haccess, Access.May]
      by_cases h0 : (dma.ret 0).status = 0
      · rw [grantedOf, if_pos h0, List.singleton_append] at hheld
        have hfreed := hheld.free (hnone _)
        rw [if_neg (not_not.mpr h0)]
        by_cases hhigh : o.ac64 = false ∧ 0xFFFFFFFF < (dma.ret 0).physicalAddress
        · -- the input context is freed, and the output context is lost
          rw [if_pos hhigh]
          have hno : ¬ Fits dma 0 o.ac64 := fun hfits => hfits.2 hhigh
          simp only [Option.some.injEq, exists_eq_left']
          rw [disable_accounted hfreed, grantedOf_eq_nil]
          exact ⟨fun hlost => ⟨fun _ => hlost, fun hfits => absurd hfits hno⟩, fun h => h.1 hno⟩
        · have hfits : Fits dma 0 o.ac64 := ⟨h0, hhigh⟩
          rw [if_neg hhigh, and_iff_right fun hno => absurd hfits hno, forall_prop_of_true hfits]
          by_cases h1 : (dma.ret 1).status = 0
          · rw [grantedOf, if_pos h1] at hheld hfreed
            rw [if_neg (not_not.mpr h1)]
            by_cases hhigh₁ : o.ac64 = false ∧ 0xFFFFFFFF < (dma.ret 1).physicalAddress
            · rw [if_pos hhigh₁]
              simp only [Option.some.injEq, exists_eq_left']
              refine iff_of_true ((disable_accounted ?_).mpr rfl) fun hfits₁ => absurd hhigh₁ hfits₁.2
              refine Held.free (Held.free (hheld.perm (List.Perm.swap _ _ _)) (hnone _)) ?_
              rw [IdentifyState.trace_freeDma, accessOf_append]
              exact hnone _
            · rw [if_neg hhigh₁, forall_prop_of_true ⟨h1, hhigh₁⟩]
              refine addressSlot_accounted hcalls hheld haccess hdisable (hdistinct 0 1 (by decide) h0 h1)
                (fun k hk hstatus => ⟨hdistinct k 0 (by omega) hstatus h0, hdistinct k 1 (by omega) hstatus h1⟩)
                fun h2 h3 => hdistinct 3 2 (by decide) h3 h2
          · rw [grantedOf, if_neg h1] at hfreed
            rw [if_pos h1]
            simp only [Option.some.injEq, exists_eq_left']
            exact iff_of_true ((disable_accounted hfreed).mpr rfl) fun hfits₁ => absurd hfits₁.1 h1
      · -- the output context is lost
        rw [grantedOf, if_neg h0, List.nil_append] at hheld
        rw [if_pos h0]
        have hno : ¬ Fits dma 0 o.ac64 := fun hfits => h0 hfits.1
        simp only [Option.some.injEq, exists_eq_left']
        rw [disable_accounted hheld, grantedOf_eq_nil]
        exact ⟨fun hlost => ⟨fun _ => hlost, fun hfits => absurd hfits hno⟩, fun h => h.1 hno⟩

end

/-- An allocator that has a page for each call. -/
def pageDma : DmaOracle where
  ret k := ⟨0, 1, 0x1000 * (k + 1), 0x1000 * (k + 1)⟩
  failed _ hstatus := absurd rfl hstatus
  granted _ _ := by dsimp only; omega

theorem pageDma_distinct : pageDma.Distinct := by
  intro j k hjk _ _ heq
  exact hjk (Nat.succ.inj (Nat.eq_of_mul_eq_mul_left (by decide) heq))

/-- A device on a port whose commands and transfer succeed, with a descriptor. -/
def fullSpeedDevice (bLength : BitVec 8) : IdentifyOutcomes where
  slotType := 0
  protocolMajor := 2
  enableSlot := some ⟨0, 0, 1#32 <<< 24, 1#32 <<< 24⟩
  hccparams1 := 1
  portsc := 1#32 <<< 10
  portscLater := 1#32 <<< 10
  addressDevice := some ⟨0, 0, 1#32 <<< 24, 0⟩
  outputSlotContext := 1
  transfer := some ⟨0, 0, 1#32 <<< 24, 0⟩
  disableSlot := some ⟨0, 0, 1#32 <<< 24, 0⟩
  descriptor i := [bLength, 1, 0, 2, 0, 0, 0, 8].getD i 0
  newDma := true
  newErrorCode := true
  newCache := true

theorem identifyDevice_accounted_fullSpeed : pageDma.Distinct ∧
    ((∃ r, identifyDevice pageDma (fullSpeedDevice 18) 1 = some r ∧ Accounted 0 r.2.trace) ↔
      IdentifyAccounts pageDma (fullSpeedDevice 18)) :=
  ⟨pageDma_distinct, identifyDevice_accounted_iff pageDma (fullSpeedDevice 18) 1 pageDma_distinct⟩

/-- A device descriptor of the wrong length: four buffers and the slot are lost. -/
theorem not_identifyDevice_accounted : ∃ dma o r, dma.Distinct ∧ identifyDevice dma o 1 = some r ∧
    ¬ Accounted 0 r.2.trace :=
  ⟨pageDma, fullSpeedDevice 9, _, pageDma_distinct, rfl, fun hno => absurd hno.buffers.length_eq (by decide)⟩

end Xhci

end Dem64
