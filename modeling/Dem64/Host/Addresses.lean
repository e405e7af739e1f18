import Dem64.Ehci.Driver
import Dem64.Lib.Run
import Dem64.Ohci.Driver
import Dem64.Uhci.Driver

/-!
# The USB addresses that the drivers assign

`set_address` of the three drivers does the same to the addresses.  The counter goes on with every request.
It goes back when the SET_ADDRESS request fails, and when the GET_DESCRIPTOR request behind it fails and the
port was reset.  The first is wrong: a device that took the address and could not say so keeps it, and the
next device gets it too (`addresses_clash`).
-/

set_option autoImplicit false

namespace Dem64

/-! ## UHCI -/

namespace Uhci

/-- The counter and the addresses. -/
def UhciState.bus (s : UhciState) : Bus := ⟨s.nextUsbAddress, s.devices⟩

/-- `set_address` makes its SET_ADDRESS request. -/
def SetAddress.Asks (r : SetAddress) (desc : Nat → BitVec 8) (s : UhciState) : Prop :=
  fullSpeedDescriptor desc = true ∧ r.alloc.status = 0 ∧ r.alloc.tooBig = false ∧
    (allocateUsbAddress s.nextUsbAddress).1 ≠ 0 ∧ waitForHalted r.visit.halted = true

/-- It counts back after this request. -/
def SetAddress.RollsBack (r : SetAddress) : Prop :=
  waitForStart r.visit.started = true ∧ r.result ≠ .success ∧ waitForHalted r.visit.haltedAgain = true

/-- The GET_DESCRIPTOR request is made, if it comes to it, and fails. -/
def SetAddress.NoDescriptor (r : SetAddress) : Prop :=
  r.descriptorAlloc.status = 0 ∧ r.descriptorAlloc.tooBig = false ∧
    waitForHalted r.descriptorVisit.halted = true ∧ waitForStart r.descriptorVisit.started = true ∧
    r.descriptor.result ≠ .success ∧ waitForHalted r.descriptorVisit.haltedAgain = true

/-- It counts back after this request. -/
def SetAddress.Resets (r : SetAddress) (port : BitVec 8) : Prop :=
  (waitForStart r.visit.started = true ∧ r.result = .success ∧ waitForHalted r.visit.haltedAgain = true ∧
    waitForStart r.visit.startedAgain = true) ∧
  r.NoDescriptor ∧ (resetPort port r.resetStatus).1 = 0

/-- A call of `set_address` in which the devices do what they must, or a reset of a port. -/
def AddressStep (s s' : UhciState) : Prop :=
  (∃ r desc port, (r.Asks desc s → AddressSafe r.takes port r.RollsBack (r.Resets port)) ∧
    s' = (setAddress r desc port s).2) ∨
  ∃ port, s' = { s with devices := Function.update s.devices port 0 }

section

variable {s : UhciState} {r : SetAddress} {desc : Nat → BitVec 8} {port address : BitVec 8}
  {backup : Fin 1024 → BitVec 32} {device : UsbDevice} {read : Nat → BitVec 16}

/-- A reset that succeeds was one. -/
theorem portReset_of_resetPort (h : (resetPort port read).1 = 0) : portReset (resetPort port read).2 = true := by
  have hassert : ∀ x : BitVec 16, (x ||| uhciPr) &&& uhciPr ≠ 0 := by
    intro x hx
    have hbit := congrArg (fun y => BitVec.getLsbD y 9) hx
    simp [uhciPr, -BitVec.getLsbD_eq_getElem] at hbit
  simp only [resetPort] at h ⊢
  split_ifs at h ⊢ <;> simp_all [portReset]

/-- The port is reset, and the counter goes back if this succeeds. -/
theorem reset_valid (hv : s.bus.Valid)
    (hback : (resetPort port read).1 = 0 → Bus.Valid ⟨address, Function.update s.devices port 0⟩) :
    (if (s.reset port read).1 ≠ 0 then (s.reset port read).2
      else { (s.reset port read).2 with nextUsbAddress := address }).bus.Valid := by
  have h := hv.resetPort portReset_of_resetPort hback
  simp only [UhciState.reset]
  by_cases hcode : (resetPort port read).1 = 0 <;> cases hreset : portReset (resetPort port read).2 <;>
    simpa [hcode, hreset, UhciState.bus] using h

theorem getDescriptor_valid (hv : s.bus.Valid)
    (hback : r.NoDescriptor → (resetPort port r.resetStatus).1 = 0 →
      Bus.Valid ⟨address, Function.update s.devices port 0⟩) :
    (getDescriptor r desc port address backup device s).2.bus.Valid := by
  simp only [getDescriptor]
  by_cases h0 : r.descriptorAlloc.status = 0
  swap
  · rw [if_pos h0]
    exact hv
  rw [if_neg (not_not.mpr h0)]
  cases hbig : r.descriptorAlloc.tooBig with
  | true => exact hv
  | false =>
    cases hhalted : waitForHalted r.descriptorVisit.halted with
    | false => exact hv
    | true =>
      cases hstarted : waitForStart r.descriptorVisit.started with
      | false => exact hv
      | true =>
        cases hagain : waitForHalted r.descriptorVisit.haltedAgain with
        | false =>
          simp only [Bool.not_true, Bool.not_false, Bool.false_eq_true, if_false, if_true]
          split <;> exact hv
        | true =>
          simp only [Bool.not_true, Bool.false_eq_true, if_false]
          by_cases hresult : r.descriptor.result = .success
          · rw [if_neg (not_not.mpr hresult)]
            exact hv
          · rw [if_pos hresult]
            exact @reset_valid _ port address r.resetStatus hv
              (hback ⟨h0, hbig, hhalted, hstarted, hresult, hagain⟩)

theorem setAddress_valid (hv : s.bus.Valid)
    (hsafe : r.Asks desc s → AddressSafe r.takes port r.RollsBack (r.Resets port)) :
    (setAddress r desc port s).2.bus.Valid := by
  simp only [setAddress]
  cases hdesc : fullSpeedDescriptor desc with
  | false => exact hv
  | true =>
    by_cases h0 : r.alloc.status = 0
    swap
    · simp only [Bool.not_true, Bool.false_eq_true, if_false, if_pos h0]
      exact hv
    simp only [Bool.not_true, Bool.false_eq_true, if_false, if_neg (not_not.mpr h0)]
    rw [show (s.allocateDma r.alloc).nextUsbAddress = s.nextUsbAddress from rfl]
    cases hbig : r.alloc.tooBig with
    | true => exact hv
    | false =>
      by_cases ha : (allocateUsbAddress s.nextUsbAddress).1 = 0
      · rw [if_pos ha]
        exact hv.skip
      · rw [if_neg ha]
        cases hhalted : waitForHalted r.visit.halted with
        | false => exact hv.skip
        | true =>
          obtain ⟨hone, hnone, hown⟩ := hsafe ⟨hdesc, h0, hbig, ha, hhalted⟩
          have htake := hv.take ha hone
          cases hstarted : waitForStart r.visit.started with
          | false => exact htake
          | true =>
            cases hagain : waitForHalted r.visit.haltedAgain with
            | false =>
              simp only [Bool.not_true, Bool.not_false, Bool.false_eq_true, if_false, if_true]
              split <;> exact htake
            | true =>
              simp only [Bool.not_true, Bool.false_eq_true, if_false]
              by_cases hresult : r.result = .success
              · rw [if_neg (not_not.mpr hresult)]
                cases hstarted' : waitForStart r.visit.startedAgain with
                | false => exact htake
                | true =>
                  refine getDescriptor_valid htake fun hdescriptor hcode => ?_
                  exact hv.take_reset_rollBack ha hone
                    (hown ⟨⟨hstarted, hresult, hagain, hstarted'⟩, hdescriptor, hcode⟩)
              · rw [if_pos hresult]
                exact hv.take_rollBack ha (hnone ⟨hstarted, hresult, hagain⟩)

theorem AddressStep.valid {s' : UhciState} (h : AddressStep s s') (hv : s.bus.Valid) : s'.bus.Valid := by
  rcases h with ⟨r, desc, port, hsafe, rfl⟩ | ⟨port, rfl⟩
  · exact setAddress_valid hv hsafe
  · exact hv.reset

end

end Uhci

/-! ## EHCI -/

namespace Ehci

/-- The counter and the addresses. -/
def EhciState.bus (s : EhciState) : Bus := ⟨s.nextUsbAddress, s.devices⟩

/-- `set_address` makes its SET_ADDRESS request. -/
def SetAddress.Asks (r : SetAddress) (desc : Nat → BitVec 8) (s : EhciState) : Prop :=
  highSpeedDescriptor desc = true ∧ r.alloc.status = 0 ∧ r.alloc.tooBig = false ∧
    (allocateUsbAddress s.nextUsbAddress).1 ≠ 0

/-- The queue head of a request is taken out of the schedule. -/
def Unlink.Unlinks (u : Unlink) (active : Bool) : Prop :=
  active = false ∧ u.command &&& ehciUsbcmdIaad = 0 ∧ u.acknowledged = true

/-- It counts back after this request. -/
def SetAddress.RollsBack (r : SetAddress) : Prop := r.unlink.Unlinks r.active ∧ r.result ≠ .success

/-- The GET_DESCRIPTOR request is made, if it comes to it, and fails. -/
def SetAddress.NoDescriptor (r : SetAddress) : Prop :=
  r.descriptorAlloc.status = 0 ∧ r.descriptorAlloc.tooBig = false ∧
    r.descriptorUnlink.Unlinks r.descriptorActive ∧ r.descriptor.result ≠ .success

/-- It counts back after this request. -/
def SetAddress.Resets (r : SetAddress) (port : BitVec 8) : Prop :=
  (r.unlink.Unlinks r.active ∧ r.result = .success) ∧ r.NoDescriptor ∧ (resetPort port r.portReset).1 = 0

/-- A call of `set_address` in which the devices do what they must, or a reset of a port. -/
def AddressStep (s s' : EhciState) : Prop :=
  (∃ r desc port, (r.Asks desc s → AddressSafe r.takes port r.RollsBack (r.Resets port)) ∧
    s' = (setAddress r desc port s).2) ∨
  ∃ port, s' = { s with devices := Function.update s.devices port 0 }

section

variable {s : EhciState} {r : SetAddress} {desc : Nat → BitVec 8} {port address : BitVec 8}
  {device : UsbDevice} {p : PortReset} {u : Unlink} {state : LinkState} {qh : Nat} {active : Bool}

/-- `reset_port` fails before it writes to the port, or asserts the reset first. -/
theorem resetPort_asserts : (resetPort port p).1 ≠ 0 ∨ ∃ x l, (resetPort port p).2 = (x ||| pr) :: l := by
  let P : Nat × List (BitVec 32) → Prop := fun out => out.1 ≠ 0 ∨ ∃ x l, out.2 = (x ||| pr) :: l
  have hbranch : ∀ {c : Prop} [Decidable c] {x y}, P x → P y → P (if c then x else y) := by
    intro c _ x y hx hy
    by_cases hc : c
    · rwa [if_pos hc]
    · rwa [if_neg hc]
  have hearly : ∀ code l, code ≠ 0 → P (code, l) := fun code l hcode => .inl hcode
  have hlist : ∀ code x l, P (code, (x ||| pr) :: l) := fun code x l => .inr ⟨x, l, rfl⟩
  show P (resetPort port p)
  rw [resetPort]
  refine hbranch (hearly 4 _ (by decide)) (hbranch (hearly 5 _ (by decide)) ?_)
  refine hbranch (hearly 10 _ (by decide)) (hbranch (hearly 6 _ (by decide)) ?_)
  refine hbranch (hearly 1 _ (by decide)) (hbranch (hearly 7 _ (by decide)) (hbranch (hearly 6 _ (by decide)) ?_))
  -- from here on the reset is in the list
  refine hbranch (hlist ..) (hbranch (hlist ..) ?_)
  cases waitForReset p.read 10 4 with
  | mk code i =>
    cases code with
    | some code => exact hlist ..
    | none => exact hbranch (hlist ..) (hbranch (hlist ..) (hbranch (hlist ..) (hbranch (hlist ..) (hlist ..))))

/-- A reset that succeeds was one. -/
theorem portReset_of_resetPort (h : (resetPort port p).1 = 0) : portReset (resetPort port p).2 = true := by
  rcases @resetPort_asserts port p with hne | ⟨x, l, hl⟩
  · exact absurd h hne
  · have hpr : (x ||| pr) &&& pr ≠ 0 := by
      intro hx
      have hbit := congrArg (fun y => BitVec.getLsbD y 8) hx
      simp [pr, -BitVec.getLsbD_eq_getElem] at hbit
    rw [hl, portReset, List.any_cons, bne_iff_ne.mpr hpr, Bool.true_or]

/-- The port is reset, and the counter goes back if this succeeds. -/
theorem reset_valid (hv : s.bus.Valid)
    (hback : (resetPort port p).1 = 0 → Bus.Valid ⟨address, Function.update s.devices port 0⟩) :
    (if (s.reset port p).1 ≠ 0 then (s.reset port p).2
      else { (s.reset port p).2 with nextUsbAddress := address }).bus.Valid := by
  have h := hv.resetPort portReset_of_resetPort hback
  simp only [EhciState.reset]
  by_cases hcode : (resetPort port p).1 = 0 <;> cases hreset : portReset (resetPort port p).2 <;>
    simpa [hcode, hreset, EhciState.bus] using h

theorem unlink_bus : (s.unlinkAsyncQh u state qh active).2.bus = s.bus := by
  simp only [EhciState.unlinkAsyncQh]
  split_ifs <;> rfl

/-- Unlinking says whether it was done. -/
theorem unlink_fst (h : state.linked = true) :
    (s.unlinkAsyncQh u state qh active).1 = true ↔ u.Unlinks active := by
  simp only [EhciState.unlinkAsyncQh, Unlink.Unlinks, h, Bool.not_true, Bool.false_eq_true, if_false]
  cases active with
  | true => simp
  | false =>
    by_cases hbusy : u.command &&& ehciUsbcmdIaad = 0
    · simp only [hbusy, ne_eq, not_true, if_false, Bool.false_eq_true, true_and]
      split
      · rename_i hack
        simp [hack]
      · rename_i hack
        simp [hack]
    · rw [if_neg Bool.false_ne_true, if_pos hbusy]
      exact ⟨fun hc => Bool.noConfusion hc, fun hu => absurd hu.2.1 hbusy⟩

theorem getDescriptor_valid (hv : s.bus.Valid)
    (hback : r.NoDescriptor → (resetPort port r.portReset).1 = 0 →
      Bus.Valid ⟨address, Function.update s.devices port 0⟩) :
    (getDescriptor r desc port address device s).2.bus.Valid := by
  simp only [getDescriptor]
  by_cases h0 : r.descriptorAlloc.status = 0
  swap
  · rw [if_pos h0]
    exact hv
  rw [if_neg (not_not.mpr h0)]
  cases hbig : r.descriptorAlloc.tooBig with
  | true => exact hv
  | false =>
    simp only [Bool.false_eq_true, if_false]
    generalize hins : ((s.allocateDma r.descriptorAlloc).storeLink r.descriptorAlloc.physicalAddress 0).insertAsyncQh
      r.descriptorAlloc.physicalAddress (BitVec.ofNat 32 r.descriptorAlloc.physicalAddress) = ins
    have hbus : ins.2.bus = s.bus := by rw [← hins]; rfl
    have hlinked : ins.1.linked = true := by rw [← hins]; rfl
    have hfst := @unlink_fst ins.2 r.descriptorUnlink ins.1 r.descriptorAlloc.physicalAddress r.descriptorActive hlinked
    have hun := (@unlink_bus ins.2 r.descriptorUnlink ins.1 r.descriptorAlloc.physicalAddress
      r.descriptorActive).trans hbus
    generalize ins.2.unlinkAsyncQh _ _ _ _ = un at hfst hun ⊢
    have hvun : un.2.bus.Valid := hun ▸ hv
    cases hdone : un.1 with
    | false => exact hvun
    | true =>
      simp only [Bool.not_true, Bool.false_eq_true, if_false]
      by_cases hresult : r.descriptor.result = .success
      · rw [if_neg (not_not.mpr hresult)]
        exact hvun
      · rw [if_pos hresult]
        refine @reset_valid un.2 port address r.portReset hvun ?_
        rw [show un.2.devices = s.devices from congrArg Bus.devices hun]
        exact hback ⟨h0, hbig, hfst.mp hdone, hresult⟩

theorem setAddress_valid (hv : s.bus.Valid)
    (hsafe : r.Asks desc s → AddressSafe r.takes port r.RollsBack (r.Resets port)) :
    (setAddress r desc port s).2.bus.Valid := by
  simp only [setAddress]
  cases hdesc : highSpeedDescriptor desc with
  | false => exact hv
  | true =>
    by_cases h0 : r.alloc.status = 0
    swap
    · simp only [Bool.not_true, Bool.false_eq_true, if_false, if_pos h0]
      exact hv
    simp only [Bool.not_true, Bool.false_eq_true, if_false, if_neg (not_not.mpr h0)]
    rw [show (s.allocateDma r.alloc).nextUsbAddress = s.nextUsbAddress from rfl]
    cases hbig : r.alloc.tooBig with
    | true => exact hv
    | false =>
      by_cases ha : (allocateUsbAddress s.nextUsbAddress).1 = 0
      · rw [if_pos ha]
        exact hv.skip
      · rw [if_neg ha]
        obtain ⟨hone, hnone, hown⟩ := hsafe ⟨hdesc, h0, hbig, ha⟩
        have htake := hv.take ha hone
        simp only [Bool.false_eq_true, if_false]
        generalize hins : EhciState.insertAsyncQh _ r.alloc.physicalAddress _ = ins
        have hlinked : ins.1.linked = true := by rw [← hins]; rfl
        have hbus : (ins.2.take r.takes (allocateUsbAddress s.nextUsbAddress).1).bus =
            ⟨(allocateUsbAddress s.nextUsbAddress).2,
              takeAddress s.devices r.takes (allocateUsbAddress s.nextUsbAddress).1⟩ := by
          rw [← hins]
          rfl
        generalize ins.2.take r.takes (allocateUsbAddress s.nextUsbAddress).1 = s2 at hbus ⊢
        have hfst := @unlink_fst s2 r.unlink ins.1 r.alloc.physicalAddress r.active hlinked
        have hun := (@unlink_bus s2 r.unlink ins.1 r.alloc.physicalAddress r.active).trans hbus
        generalize s2.unlinkAsyncQh _ _ _ _ = un at hfst hun ⊢
        have hvun : un.2.bus.Valid := hun ▸ htake
        have hdevices : un.2.devices = takeAddress s.devices r.takes (allocateUsbAddress s.nextUsbAddress).1 :=
          congrArg Bus.devices hun
        cases hdone : un.1 with
        | false => exact hvun
        | true =>
          have hunlinks := hfst.mp hdone
          simp only [Bool.not_true, Bool.false_eq_true, if_false]
          by_cases hresult : r.result = .success
          · rw [if_neg (not_not.mpr hresult)]
            refine getDescriptor_valid hvun fun hdescriptor hcode => ?_
            show Bus.Valid ⟨_, Function.update un.2.devices port 0⟩
            rw [hdevices]
            exact hv.take_reset_rollBack ha hone (hown ⟨⟨hunlinks, hresult⟩, hdescriptor, hcode⟩)
          · rw [if_pos hresult]
            show Bus.Valid ⟨_, un.2.devices⟩
            rw [hdevices]
            exact hv.take_rollBack ha (hnone ⟨hunlinks, hresult⟩)

theorem AddressStep.valid {s' : EhciState} (h : AddressStep s s') (hv : s.bus.Valid) : s'.bus.Valid := by
  rcases h with ⟨r, desc, port, hsafe, rfl⟩ | ⟨port, rfl⟩
  · exact setAddress_valid hv hsafe
  · exact hv.reset

end

end Ehci

/-! ## OHCI -/

namespace Ohci

/-- The counter and the addresses. -/
def OhciState.bus (s : OhciState) : Bus := ⟨s.nextUsbAddress, s.devices⟩

/-- `set_address` makes its SET_ADDRESS request. -/
def SetAddress.Asks (r : SetAddress) (desc : Nat → BitVec 8) (s : OhciState) : Prop :=
  fullSpeedDescriptor desc = true ∧ r.alloc.status = 0 ∧ r.alloc.tooBig = false ∧
    (allocateUsbAddress s.nextUsbAddress).1 ≠ 0 ∧
    badPacketSize (r.portStatus &&& ohciRhpsLsda != 0) (desc 7) = false ∧ r.stopped = true

/-- It counts back after this request. -/
def SetAddress.RollsBack (r : SetAddress) : Prop := r.restored = true ∧ r.result ≠ .success

/-- The GET_DESCRIPTOR request is made, if it comes to it, and fails. -/
def SetAddress.NoDescriptor (r : SetAddress) : Prop :=
  r.descriptorAlloc.status = 0 ∧ r.descriptorAlloc.tooBig = false ∧ r.descriptorStopped = true ∧
    r.descriptorRestored = true ∧ r.descriptor.result ≠ .success

/-- It counts back after this request. -/
def SetAddress.Resets (r : SetAddress) (port : BitVec 8) : Prop :=
  (r.restored = true ∧ r.result = .success) ∧ r.NoDescriptor ∧ (resetPort port r.portReset).1 = 0

/-- A call of `set_address` in which the devices do what they must, or a reset of a port. -/
def AddressStep (s s' : OhciState) : Prop :=
  (∃ r desc port, (r.Asks desc s → AddressSafe r.takes port r.RollsBack (r.Resets port)) ∧
    s' = (setAddress r desc port s).2) ∨
  ∃ port, s' = { s with devices := Function.update s.devices port 0 }

section

variable {s : OhciState} {r : SetAddress} {desc : Nat → BitVec 8} {port address : BitVec 8}
  {device : UsbDevice} {p : PortReset} {read : Nat → BitVec 32} {k i : Nat}

theorem waitIdle_ne : (waitIdle read k i).1 ≠ some 0 := by
  induction k generalizing i with
  | zero => simp [waitIdle]
  | succ k ih =>
    rw [waitIdle]
    split
    · simp
    split
    · simp
    split
    · simp
    · exact ih

/-- The first pulse asserts the reset. -/
theorem resetPulses_asserts :
    (resetPulses read (k + 1) i).1 = some 10 ∨ prs ∈ (resetPulses read (k + 1) i).2.2 := by
  rw [resetPulses]
  split
  · exact .inl rfl
  · right
    have hmem : prs ∈ (if read i &&& prsc ≠ 0 then [prsc, prs] else [prs]) := by
      split <;> simp
    cases waitPulse read 20 (i + 1) with
    | mk code i =>
      cases code with
      | some code => exact hmem
      | none => exact List.mem_append_left _ hmem

/-- A reset that succeeds was one. -/
theorem portReset_of_resetPort (h : (resetPort port p).1 = 0) : portReset (resetPort port p).2 = true := by
  have hprs : ∀ l : List (BitVec 32), prs ∈ l → portReset l = true := fun l hl =>
    List.any_eq_true.mpr ⟨prs, hl, by decide⟩
  rw [resetPort] at h ⊢
  split at h
  · exact absurd h (by decide)
  rename_i hport
  split at h
  · exact absurd h (by decide)
  rename_i hall
  split at h
  · exact absurd h (by decide)
  rename_i hccs
  rw [if_neg hport, if_neg hall, if_neg hccs]
  have hidle := @waitIdle_ne p.read 20 1
  generalize waitIdle p.read 20 1 = out at h hidle ⊢
  obtain ⟨code | code, i⟩ := out
  · have hpulses := @resetPulses_asserts p.read 4 i
    simp only at h ⊢
    generalize resetPulses p.read 5 i = out at h hpulses ⊢
    obtain ⟨code | code, i, written⟩ := out
    · have hw : portReset written = true := hprs written (hpulses.resolve_left (by simp))
      simp only at h ⊢
      split_ifs at h ⊢
      exact hw
    · simp only at h hpulses ⊢
      rcases hpulses with hten | hm
      · rw [h] at hten
        cases hten
      · exact hprs written hm
  · exact absurd (congrArg some h) hidle

/-- The port is reset, and the counter goes back if this succeeds. -/
theorem reset_valid (hv : s.bus.Valid)
    (hback : (resetPort port p).1 = 0 → Bus.Valid ⟨address, Function.update s.devices port 0⟩) :
    (if (s.reset port p).1 ≠ 0 then (s.reset port p).2
      else { (s.reset port p).2 with nextUsbAddress := address }).bus.Valid := by
  have h := hv.resetPort portReset_of_resetPort hback
  simp only [OhciState.reset]
  by_cases hcode : (resetPort port p).1 = 0 <;> cases hreset : portReset (resetPort port p).2 <;>
    simpa [hcode, hreset, OhciState.bus] using h

theorem getDescriptor_valid (hv : s.bus.Valid)
    (hback : r.NoDescriptor → (resetPort port r.portReset).1 = 0 →
      Bus.Valid ⟨address, Function.update s.devices port 0⟩) :
    (getDescriptor r desc port address device s).2.bus.Valid := by
  simp only [getDescriptor]
  by_cases h0 : r.descriptorAlloc.status = 0
  swap
  · rw [if_pos h0]
    exact hv
  rw [if_neg (not_not.mpr h0)]
  cases hbig : r.descriptorAlloc.tooBig with
  | true => exact hv
  | false =>
    cases badPacketSize (r.portStatus &&& ohciRhpsLsda != 0) (desc 7) with
    | true => exact hv
    | false =>
      cases hstopped : r.descriptorStopped with
      | false => exact hv
      | true =>
        cases hrestored : r.descriptorRestored with
        | false => exact hv
        | true =>
          simp only [Bool.not_true, Bool.false_eq_true, if_false]
          by_cases hresult : r.descriptor.result = .success
          · rw [if_neg (not_not.mpr hresult)]
            exact hv
          · rw [if_pos hresult]
            exact @reset_valid _ port address r.portReset hv (hback ⟨h0, hbig, hstopped, hrestored, hresult⟩)

theorem setAddress_valid (hv : s.bus.Valid)
    (hsafe : r.Asks desc s → AddressSafe r.takes port r.RollsBack (r.Resets port)) :
    (setAddress r desc port s).2.bus.Valid := by
  simp only [setAddress]
  cases hdesc : fullSpeedDescriptor desc with
  | false => exact hv
  | true =>
    by_cases h0 : r.alloc.status = 0
    swap
    · simp only [Bool.not_true, Bool.false_eq_true, if_false, if_pos h0]
      exact hv
    simp only [Bool.not_true, Bool.false_eq_true, if_false, if_neg (not_not.mpr h0)]
    rw [show (s.allocateDma r.alloc).nextUsbAddress = s.nextUsbAddress from rfl]
    cases hbig : r.alloc.tooBig with
    | true => exact hv
    | false =>
      by_cases ha : (allocateUsbAddress s.nextUsbAddress).1 = 0
      · rw [if_pos ha]
        exact hv.skip
      · rw [if_neg ha]
        cases hbad : badPacketSize (r.portStatus &&& ohciRhpsLsda != 0) (desc 7) with
        | true => exact hv.skip
        | false =>
          cases hstopped : r.stopped with
          | false => exact hv.skip
          | true =>
            obtain ⟨hone, hnone, hown⟩ := hsafe ⟨hdesc, h0, hbig, ha, hbad, hstopped⟩
            have htake := hv.take ha hone
            cases hrestored : r.restored with
            | false => exact htake
            | true =>
              simp only [Bool.not_true, Bool.false_eq_true, if_false]
              by_cases hresult : r.result = .success
              · rw [if_neg (not_not.mpr hresult)]
                refine getDescriptor_valid htake fun hdescriptor hcode => ?_
                exact hv.take_reset_rollBack ha hone (hown ⟨⟨hrestored, hresult⟩, hdescriptor, hcode⟩)
              · rw [if_pos hresult]
                exact hv.take_rollBack ha (hnone ⟨hrestored, hresult⟩)

theorem AddressStep.valid {s' : OhciState} (h : AddressStep s s') (hv : s.bus.Valid) : s'.bus.Valid := by
  rcases h with ⟨r, desc, port, hsafe, rfl⟩ | ⟨port, rfl⟩
  · exact setAddress_valid hv hsafe
  · exact hv.reset

end

end Ohci

/-! ## The three drivers -/

end Dem64
