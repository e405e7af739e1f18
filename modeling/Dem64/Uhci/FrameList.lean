import Dem64.Lib.Run
import Dem64.Uhci.Driver

/-!
# The frame list of UHCI

While a transfer runs, all entries of the frame list point to the block of the transfer.  The block is given
back on every path, and on every path the saved entries have to be written back before.

Two kinds of paths miss this: when the controller does not start after the entries were replaced, and when
it does not halt after the transfer.  The first is an early return between the replacement and the loop that
restores; the second is an early return in front of that loop.  `Visit.Restores` says that neither happens,
and `frame_list_integrity` that this is all that can go wrong.
-/

set_option autoImplicit false

namespace Dem64.Uhci

/-! ## Blocks and entries -/

/-- Where an entry of the frame list points to. -/
def entryAddress (e : BitVec 32) : Nat := e.toNat / 16 * 16

/-- No entry refers to freed memory: it ends the frame, or points into a block that is allocated. -/
def UhciState.Sound (s : UhciState) : Prop :=
  ∀ i, (s.frameList i).getLsbD 0 = true ∨ ∃ b ∈ s.live, b.Holds (entryAddress (s.frameList i))

/-- On return, the frame list has the entries it had on entry, or the blocks that its entries point to have
not been freed. -/
def FrameListKept (s s' : UhciState) : Prop :=
  s'.frameList = s.frameList ∨ ∀ i, ∃ b ∈ s'.live, b.Holds (entryAddress (s'.frameList i))

section

variable {s s' : UhciState} {alloc : DmaRet} {live : List DmaRet}

theorem entryAddress_schedule (h16 : 16 ∣ alloc.physicalAddress) (hbig : alloc.tooBig = false) :
    entryAddress (BitVec.ofNat 32 alloc.physicalAddress ||| 2) = alloc.physicalAddress ∧
    (BitVec.ofNat 32 alloc.physicalAddress ||| 2).getLsbD 0 = false := by
  have hor : (BitVec.ofNat 32 alloc.physicalAddress ||| 2).toNat = alloc.physicalAddress + 2 :=
    @DmaRet.toNat_or_flags alloc 4 2 h16 hbig (by decide)
  constructor
  · rw [entryAddress, hor]
    omega
  · rw [← BitVec.testBit_toNat, hor, Nat.testBit_zero]
    simp
    omega

/-- **What a missing restore means**: all entries point to a block that was freed. -/
theorem not_frameListKept (hs : s.Sound) (hf : FreshBlock s.live alloc) (hbig : alloc.tooBig = false)
    (hlist : s'.frameList = fun _ => BitVec.ofNat 32 alloc.physicalAddress ||| 2)
    (hlive : s'.live = s.live) : ¬ FrameListKept s s' := by
  obtain ⟨haddr, hbit⟩ := entryAddress_schedule (Dvd.dvd.trans (by decide) hf.aligned) hbig
  have hself := hf.holds
  rintro (h | h)
  · rcases hs 0 with hbit' | ⟨b, hb, hholds⟩
    · rw [← h, hlist, hbit] at hbit'
      cases hbit'
    · rw [← h, hlist, haddr] at hholds
      exact hf.apart b hb _ hholds hself
  · obtain ⟨b, hb, hholds⟩ := h 0
    rw [hlist, haddr] at hholds
    rw [hlive] at hb
    exact hf.apart b hb _ hholds hself

theorem UhciState.Sound.congr (hs : s.Sound) (hlist : s'.frameList = s.frameList) (hlive : s'.live = s.live) :
    s'.Sound := by
  intro i
  rw [hlist, hlive]
  exact hs i

end

/-! ## What the calls do to the frame list -/

/-- If the controller halts and the frame list is replaced, then the controller starts, and halts again after
the transfer. -/
def Visit.Restores (v : Visit) : Prop :=
  waitForHalted v.halted = true → waitForStart v.started = true ∧ waitForHalted v.haltedAgain = true

/-- The block of a request is there, and the driver uses it. -/
def usable (alloc : DmaRet) : Prop := alloc.status = 0 ∧ alloc.tooBig = false

/-- A call, with its arguments and what it meets. -/
inductive Call where
  /-- `identify_device`. -/
  | identifyDevice (alloc : DmaRet) (visit : Visit) (transfer : Transfer)
  /-- `set_address`. -/
  | setAddress (r : SetAddress) (desc : Nat → BitVec 8) (port : BitVec 8)
  /-- `usb_send_packet`. -/
  | usbSendPacket (r : SendPacket) (packet : UsbSetupPacket) (maxpacketsize length : Nat)
      (address : BitVec 8) (former : Nat → BitVec 8)

/-- The state after a call. -/
def Call.run (s : UhciState) : Call → UhciState
  | identifyDevice alloc visit transfer => (Uhci.identifyDevice alloc visit transfer s).2
  | setAddress r desc port => (Uhci.setAddress r desc port s).2
  | usbSendPacket r packet maxpacketsize length address former =>
    (Uhci.usbSendPacket r packet maxpacketsize length address former s).2

/-- The blocks that `allocate_dma` returns in a call are new. -/
def Call.Fresh (live : List DmaRet) : Call → Prop
  | identifyDevice alloc _ _ => FreshBlock live alloc
  | setAddress r _ _ => FreshBlock live r.alloc ∧ FreshBlock live r.descriptorAlloc
  | usbSendPacket r _ _ _ _ _ => FreshBlock live r.alloc

/-- `set_address` gets to its SET_ADDRESS request. -/
def SetAddress.Requests (r : SetAddress) (desc : Nat → BitVec 8) (s : UhciState) : Prop :=
  fullSpeedDescriptor desc = true ∧ usable r.alloc ∧ (allocateUsbAddress s.nextUsbAddress).1 ≠ 0

/-- `set_address` gets past it. -/
def SetAddress.Completes (r : SetAddress) : Prop :=
  waitForHalted r.visit.halted = true ∧ r.result = .success ∧ waitForStart r.visit.startedAgain = true

/-- No wait that matters times out: the condition, on what the call meets. -/
def Call.Restores (s : UhciState) : Call → Prop
  | identifyDevice alloc visit _ => usable alloc → visit.Restores
  | setAddress r desc _ => r.Requests desc s →
      r.visit.Restores ∧ (r.Completes → usable r.descriptorAlloc → r.descriptorVisit.Restores)
  | usbSendPacket r packet maxpacketsize length _ _ =>
    rejects packet maxpacketsize length = false → usable r.alloc → r.visit.Restores

/-- The saved entries are in the frame list again, and nothing is lost or gained. -/
def Restored (s s' : UhciState) : Prop := s'.frameList = s.frameList ∧ s'.live = s.live

/-- The entries point to a block that was freed. -/
def Dangling (s s' : UhciState) : Prop :=
  ∃ alloc, FreshBlock s.live alloc ∧ alloc.tooBig = false ∧ s'.live = s.live ∧
    s'.frameList = fun _ => BitVec.ofNat 32 alloc.physicalAddress ||| 2

/-- What a call leaves, if `restores` is its condition. -/
def Outcome (restores : Prop) (s s' : UhciState) : Prop :=
  (restores → Restored s s') ∧ (¬ restores → Dangling s s')

section

variable {s s' s1 : UhciState} {alloc : DmaRet} {visit : Visit} {transfer : Transfer} {r : SetAddress}
  {desc : Nat → BitVec 8} {port address : BitVec 8} {backup : Fin 1024 → BitVec 32} {device : UsbDevice}
  {live : List DmaRet} {restores : Prop}

theorem Restored.refl : Restored s s := ⟨rfl, rfl⟩

theorem Outcome.of_restored (hc : restores) (h : Restored s s') : Outcome restores s s' :=
  ⟨fun _ => h, fun hn => absurd hc hn⟩

theorem Outcome.of_dangling (hc : ¬ restores) (h : Dangling s s') : Outcome restores s s' :=
  ⟨fun hr => absurd hr hc, fun _ => h⟩

theorem Outcome.kept_iff (h : Outcome restores s s') (hs : s.Sound) : FrameListKept s s' ↔ restores := by
  constructor
  · intro hkept
    by_contra hc
    obtain ⟨alloc, hf, hbig, hlive, hlist⟩ := h.2 hc
    exact not_frameListKept hs hf hbig hlist hlive hkept
  · exact fun hc => .inl (h.1 hc).1

theorem allocateDma_fail (h : alloc.status ≠ 0) : s.allocateDma alloc = s := by
  rw [UhciState.allocateDma, allocateBlock_of_ne h]

theorem allocateDma_live (h : alloc.status = 0) : (s.allocateDma alloc).live = alloc :: s.live :=
  allocateBlock_of_eq h

theorem allocateDma_frameList : (s.allocateDma alloc).frameList = s.frameList := rfl

/-- The block is freed when the entries are those from before. -/
theorem restored_freeDma (hf : FreshBlock s.live alloc) (hlive : s1.live = alloc :: s.live)
    (hlist : s1.frameList = s.frameList) : Restored s (s1.freeDma alloc) :=
  ⟨hlist, by rw [UhciState.freeDma, hlive, hf.freeBlock_cons]⟩

/-- The block is freed while the entries point to it. -/
theorem dangling_freeDma (hf : FreshBlock s.live alloc) (hbig : alloc.tooBig = false)
    (hlive : s1.live = alloc :: s.live)
    (hlist : s1.frameList = fun _ => BitVec.ofNat 32 alloc.physicalAddress ||| 2) :
    Dangling s (s1.freeDma alloc) :=
  ⟨alloc, hf, hbig, by rw [UhciState.freeDma, hlive, hf.freeBlock_cons], hlist⟩

theorem identifyDevice_outcome (hf : FreshBlock s.live alloc) :
    Outcome ((Call.identifyDevice alloc visit transfer).Restores s) s
      (identifyDevice alloc visit transfer s).2 := by
  simp only [Call.Restores, usable, identifyDevice]
  by_cases h0 : alloc.status = 0
  swap
  · rw [if_pos h0, allocateDma_fail h0]
    exact .of_restored (fun h => absurd h.1 h0) .refl
  have hlive : (s.allocateDma alloc).live = alloc :: s.live := allocateDma_live h0
  have hlist : (s.allocateDma alloc).frameList = s.frameList := allocateDma_frameList
  rw [if_neg (not_not.mpr h0)]
  cases hbig : alloc.tooBig with
  | true => exact .of_restored (fun h => by simp at h) (restored_freeDma hf hlive hlist)
  | false =>
    simp only [Visit.Restores, h0, true_and, forall_const]
    cases hhalted : waitForHalted visit.halted with
    | false => exact .of_restored (by simp) (restored_freeDma hf hlive hlist)
    | true =>
      cases hstarted : waitForStart visit.started with
      | false => exact .of_dangling (by simp) (dangling_freeDma hf hbig hlive rfl)
      | true =>
        cases hagain : waitForHalted visit.haltedAgain with
        | false =>
          refine .of_dangling (by simp) ?_
          by_cases hresult : transfer.result = .success
          · simp [hresult]
            exact dangling_freeDma hf hbig hlive rfl
          · simp [hresult]
            exact dangling_freeDma hf hbig hlive rfl
        | true =>
          refine .of_restored (by simp) ?_
          by_cases hresult : transfer.result = .success
          · simp [hresult]
            exact restored_freeDma hf hlive hlist
          · simp [hresult]
            exact restored_freeDma hf hlive hlist

theorem usbSendPacket_outcome {r : SendPacket} {packet : UsbSetupPacket} {maxpacketsize length : Nat}
    {former : Nat → BitVec 8} (hf : FreshBlock s.live r.alloc) :
    Outcome ((Call.usbSendPacket r packet maxpacketsize length address former).Restores s) s
      (usbSendPacket r packet maxpacketsize length address former s).2 := by
  simp only [Call.Restores, usable, usbSendPacket]
  cases hrejects : rejects packet maxpacketsize length with
  | true => exact .of_restored (fun h => by cases h) .refl
  | false =>
    by_cases h0 : r.alloc.status = 0
    swap
    · simp only [Bool.false_eq_true, if_false, if_pos h0, allocateDma_fail h0]
      exact .of_restored (fun _ h => absurd h.1 h0) .refl
    have hlive : (s.allocateDma r.alloc).live = r.alloc :: s.live := allocateDma_live h0
    have hlist : (s.allocateDma r.alloc).frameList = s.frameList := allocateDma_frameList
    simp only [Bool.false_eq_true, if_false, if_neg (not_not.mpr h0)]
    cases hbig : r.alloc.tooBig with
    | true => exact .of_restored (fun _ h => by simp at h) (restored_freeDma hf hlive hlist)
    | false =>
      simp only [Visit.Restores, h0, true_and, forall_const]
      cases hhalted : waitForHalted r.visit.halted with
      | false => exact .of_restored (by simp) (restored_freeDma hf hlive hlist)
      | true =>
        cases hstarted : waitForStart r.visit.started with
        | false => exact .of_dangling (by simp) (dangling_freeDma hf hbig hlive rfl)
        | true =>
          generalize waitForControlTransfer _ _ _ = out
          simp only [Bool.not_true, Bool.false_eq_true, if_false]
          cases hagain : waitForHalted r.visit.haltedAgain with
          | false =>
            refine .of_dangling (by simp) ?_
            split
            · exact dangling_freeDma hf hbig hlive rfl
            · exact dangling_freeDma hf hbig hlive rfl
          | true =>
            refine .of_restored (by simp) ?_
            simp only [Bool.not_true, Bool.false_eq_true, if_false]
            -- the remaining branches free the block after the entries were written back
            split_ifs <;> exact restored_freeDma hf hlive hlist

theorem Restored.trans (h : Restored s s1) (ho : Outcome restores s1 s') : Outcome restores s s' := by
  obtain ⟨hlist, hlive⟩ := h
  refine ⟨fun hc => ⟨(ho.1 hc).1.trans hlist, (ho.1 hc).2.trans hlive⟩, fun hc => ?_⟩
  obtain ⟨alloc, hf, hbig, hlive', hlist'⟩ := ho.2 hc
  exact ⟨alloc, hlive ▸ hf, hbig, hlive'.trans hlive, hlist'⟩

theorem reset_frameList {read : Nat → BitVec 16} : (s.reset port read).2.frameList = s.frameList := by
  simp only [UhciState.reset]
  split <;> rfl

theorem reset_live {read : Nat → BitVec 16} : (s.reset port read).2.live = s.live := by
  simp only [UhciState.reset]
  split <;> rfl

theorem getDescriptor_outcome (hf : FreshBlock s.live r.descriptorAlloc) (hbackup : backup = s.frameList) :
    Outcome (usable r.descriptorAlloc → r.descriptorVisit.Restores) s
      (getDescriptor r desc port address backup device s).2 := by
  simp only [usable, getDescriptor]
  by_cases h0 : r.descriptorAlloc.status = 0
  swap
  · rw [if_pos h0, allocateDma_fail h0]
    exact .of_restored (fun h => absurd h.1 h0) .refl
  have hlive : (s.allocateDma r.descriptorAlloc).live = r.descriptorAlloc :: s.live := allocateDma_live h0
  have hlist : (s.allocateDma r.descriptorAlloc).frameList = s.frameList := allocateDma_frameList
  rw [if_neg (not_not.mpr h0)]
  cases hbig : r.descriptorAlloc.tooBig with
  | true => exact .of_restored (fun h => by simp at h) (restored_freeDma hf hlive hlist)
  | false =>
    simp only [Visit.Restores, h0, true_and, forall_const]
    cases hhalted : waitForHalted r.descriptorVisit.halted with
    | false => exact .of_restored (by simp) (restored_freeDma hf hlive hlist)
    | true =>
      cases hstarted : waitForStart r.descriptorVisit.started with
      | false => exact .of_dangling (by simp) (dangling_freeDma hf hbig hlive rfl)
      | true =>
        simp only [Bool.not_true, Bool.false_eq_true, if_false]
        cases hagain : waitForHalted r.descriptorVisit.haltedAgain with
        | false =>
          refine .of_dangling (by simp) ?_
          split
          · exact dangling_freeDma hf hbig hlive rfl
          · exact dangling_freeDma hf hbig hlive rfl
        | true =>
          refine .of_restored (by simp) ?_
          split
          · refine restored_freeDma hf ?_ ?_
            · split
              · exact reset_live.trans hlive
              · exact reset_live.trans hlive
            · split
              · exact reset_frameList.trans hbackup
              · exact reset_frameList.trans hbackup
          · exact restored_freeDma hf hlive hbackup

theorem setAddress_outcome (hf : FreshBlock s.live r.alloc) (hd : FreshBlock s.live r.descriptorAlloc) :
    Outcome ((Call.setAddress r desc port).Restores s) s (setAddress r desc port s).2 := by
  simp only [Call.Restores, SetAddress.Requests, SetAddress.Completes, usable, setAddress]
  cases hdesc : fullSpeedDescriptor desc with
  | false => exact .of_restored (by simp) .refl
  | true =>
    by_cases h0 : r.alloc.status = 0
    swap
    · simp only [Bool.not_true, Bool.false_eq_true, if_false, if_pos h0, allocateDma_fail h0]
      exact .of_restored (fun h => absurd h.2.1.1 h0) .refl
    have hlive : (s.allocateDma r.alloc).live = r.alloc :: s.live := allocateDma_live h0
    have hlist : (s.allocateDma r.alloc).frameList = s.frameList := allocateDma_frameList
    have hnext : (s.allocateDma r.alloc).nextUsbAddress = s.nextUsbAddress := rfl
    simp only [Bool.not_true, Bool.false_eq_true, if_false, if_neg (not_not.mpr h0), hnext]
    cases hbig : r.alloc.tooBig with
    | true => exact .of_restored (fun h => by simp at h) (restored_freeDma hf hlive hlist)
    | false =>
      by_cases ha : (allocateUsbAddress s.nextUsbAddress).1 = 0
      · rw [if_pos ha]
        exact .of_restored (fun h => absurd ha h.2.2) (restored_freeDma hf hlive hlist)
      simp only [Visit.Restores, h0, true_and, forall_const, ne_eq, ha, not_false_eq_true]
      cases hhalted : waitForHalted r.visit.halted with
      | false => exact .of_restored (by simp) (restored_freeDma hf hlive hlist)
      | true =>
        cases hstarted : waitForStart r.visit.started with
        | false => exact .of_dangling (by simp) (dangling_freeDma hf hbig hlive rfl)
        | true =>
          simp only [Bool.not_true, Bool.false_eq_true, if_false]
          cases hagain : waitForHalted r.visit.haltedAgain with
          | false =>
            refine .of_dangling (by simp) ?_
            split
            · exact dangling_freeDma hf hbig hlive rfl
            · exact dangling_freeDma hf hbig hlive rfl
          | true =>
            by_cases hresult : r.result = .success
            swap
            · rw [if_pos hresult]
              exact .of_restored (by simp [hresult]) (restored_freeDma hf hlive hlist)
            rw [if_neg (not_not.mpr hresult)]
            cases hstarted' : waitForStart r.visit.startedAgain with
            | false => exact .of_restored (by simp) (restored_freeDma hf hlive hlist)
            | true =>
              simp only [hresult, true_and, and_true, forall_const, Bool.not_true, Bool.false_eq_true, if_false]
              -- the GET_DESCRIPTOR request starts from the frame list and the blocks of the call's beginning
              generalize hs1 : UhciState.freeDma _ r.alloc = s1
              have hrestored : Restored s s1 := hs1 ▸ restored_freeDma hf hlive hlist
              exact hrestored.trans
                (getDescriptor_outcome (by rwa [hrestored.2]) (hlist.trans hrestored.1.symm))

theorem Call.outcome (c : Call) (hf : c.Fresh s.live) : Outcome (c.Restores s) s (c.run s) := by
  cases c with
  | identifyDevice alloc visit transfer => exact identifyDevice_outcome hf
  | setAddress r desc port => exact setAddress_outcome hf.1 hf.2
  | usbSendPacket r packet maxpacketsize length address former => exact usbSendPacket_outcome hf

end

/-! ## Runs -/

/-- After `controller_init`, every entry ends its frame. -/
def UhciState.Initial (s : UhciState) : Prop := ∀ i, s.frameList i = uhciLinkTerminate

/-- A call in which no wait that matters times out. -/
def Step (s s' : UhciState) : Prop := ∃ c : Call, c.Fresh s.live ∧ c.Restores s ∧ s' = c.run s

theorem UhciState.Initial.sound {s : UhciState} (h : s.Initial) : s.Sound := by
  intro i
  rw [h i]
  exact .inl (by decide)

theorem Step.restored {s s' : UhciState} (h : Step s s') : Restored s s' := by
  obtain ⟨c, hfresh, hrestores, rfl⟩ := h
  exact (c.outcome hfresh).1 hrestores

/-- **UHCI frame list integrity.**  In every run of calls whose waits do not time out where it matters, the
frame list is the one of the beginning and refers to no freed memory; and the next call, whatever the
hardware does in it, leaves the frame list as it was, or pointing to allocated blocks, if and only if its
waits do not time out there either. -/
theorem frame_list_integrity {s0 s : UhciState} (h0 : s0.Initial) (h : Relation.ReflTransGen Step s0 s) :
    s.Sound ∧ s.frameList = s0.frameList ∧
    ∀ c : Call, c.Fresh s.live → (FrameListKept s (c.run s) ↔ c.Restores s) := by
  have hkept : s.Sound ∧ s.frameList = s0.frameList := by
    refine h.invariant (P := fun y => y.Sound ∧ y.frameList = s0.frameList) (fun x y hstep hx => ?_)
      ⟨h0.sound, rfl⟩
    obtain ⟨hlist, hlive⟩ := hstep.restored
    exact ⟨hx.1.congr hlist hlive, hlist.trans hx.2⟩
  exact ⟨hkept.1, hkept.2, fun c hc => (c.outcome hc).kept_iff hkept.1⟩

/-- A controller after `controller_init`. -/
def initialState : UhciState where
  frameList := fun _ => uhciLinkTerminate
  nextUsbAddress := 1
  live := []
  devices := fun _ => 0

/-- One page at 1 MiB. -/
def onePage : DmaRet where
  sizeInPages := 1
  virtualAddress := 0x7000
  physicalAddress := 0x100000

theorem onePage_fresh : FreshBlock [] onePage where
  page := by decide
  aligned := by decide
  apart := by simp
  virtual := by simp

/-- `identify_device` when the controller halts, but does not start again. -/
def stuck : Call :=
  .identifyDevice onePage
    { halted := fun _ => uhciStsHch
      started := fun _ => uhciStsHch
      haltedAgain := fun _ => uhciStsHch
      startedAgain := fun _ => 0 }
    { result := .success, received := 0, buffer := fun _ => 0 }

/-- `identify_device` when the controller halts and starts. -/
def smooth : Call :=
  .identifyDevice onePage
    { halted := fun _ => uhciStsHch
      started := fun _ => 0
      haltedAgain := fun _ => uhciStsHch
      startedAgain := fun _ => 0 }
    { result := .success, received := 0, buffer := fun _ => 0 }

/-- The call meets a start that times out and leaves all entries pointing to the page it has freed. -/
theorem frame_list_dangles : initialState.Initial ∧ stuck.Fresh initialState.live ∧
    (stuck.run initialState).live = [] ∧ (∀ i, (stuck.run initialState).frameList i = 0x100002) ∧
    ¬ FrameListKept initialState (stuck.run initialState) := by
  have hlive : (stuck.run initialState).live = [] := by decide
  have hlist : (stuck.run initialState).frameList = fun _ => 0x100002 := by
    funext i
    rfl
  refine ⟨fun _ => rfl, onePage_fresh, hlive, fun i => congrFun hlist i, ?_⟩
  rintro (h | h)
  · exact absurd (congrFun (hlist.symm.trans h) 0) (by decide)
  · obtain ⟨b, hb, -⟩ := h 0
    rw [hlive] at hb
    cases hb

theorem smooth_restores : smooth.Restores initialState := by
  intro _ _
  exact ⟨by decide, by decide⟩

theorem frame_list_integrity_smooth : (smooth.run initialState).Sound ∧
    (smooth.run initialState).frameList = initialState.frameList ∧
    ∀ c : Call, c.Fresh (smooth.run initialState).live →
      (FrameListKept (smooth.run initialState) (c.run (smooth.run initialState)) ↔
        c.Restores (smooth.run initialState)) :=
  @frame_list_integrity initialState (smooth.run initialState) (fun _ => rfl)
    (.single ⟨smooth, onePage_fresh, smooth_restores, rfl⟩)

end Dem64.Uhci
