import Dem64.Host.Answer
import Dem64.Uhci.Driver

/-!
# What the UHCI driver returns

`wait_for_control_transfer` reads the status words of the descriptors and the tokens of the data
descriptors, which the driver wrote or the controller: what it does does not depend on what was in the block
before (`waitRounds_agree`).  When it reports success, it has seen the status descriptor inactive
(`waitRounds_watched`).
-/

set_option autoImplicit false

namespace Dem64.Uhci

open ByteMemory SharedMemory

/-- The words that the driver reads while it waits. -/
structure Readable (t : TransferTds) (S : Set Nat) : Prop where
  /-- The status of the SETUP descriptor. -/
  setup : ∀ x, t.setupTd + 4 ≤ x → x < t.setupTd + 4 + 4 → x ∈ S
  /-- The status of a data descriptor. -/
  data : ∀ j, j < t.dataTdCount → ∀ x, t.dataTds + sizeofTd * j + 4 ≤ x →
    x < t.dataTds + sizeofTd * j + 4 + 4 → x ∈ S
  /-- The token of a data descriptor. -/
  token : ∀ j, j < t.dataTdCount → ∀ x, t.dataTds + sizeofTd * j + 8 ≤ x →
    x < t.dataTds + sizeofTd * j + 8 + 4 → x ∈ S
  /-- The status of the status descriptor. -/
  status : ∀ x, t.statusTd + 4 ≤ x → x < t.statusTd + 4 + 4 → x ∈ S

/-- The word that the driver writes while it waits. -/
def writable (t : TransferTds) : Set Nat := {x | t.qh + 4 ≤ x ∧ x < t.qh + 8}

section

variable {writes : Nat → List (Nat × BitVec 8)} {S : Set Nat} {t : TransferTds} {w w' : Shared} {k i : Nat}
  {total received : BitVec 32} {short : Bool}

theorem pollData_agree (hS : Readable t S) (hi : i + k ≤ t.dataTdCount) (h : Agree writes S w w') :
    (pollData writes t.dataTds k i total w').1 = (pollData writes t.dataTds k i total w).1 ∧
    Agree writes S (pollData writes t.dataTds k i total w).2 (pollData writes t.dataTds k i total w').2 := by
  induction k generalizing i total w w' with
  | zero => exact ⟨rfl, h⟩
  | succ k ih =>
    obtain ⟨hstatus, h1⟩ := h.read32 (hS.data i (by omega))
    obtain ⟨htoken, h2⟩ := h1.read32 (hS.token i (by omega))
    simp only [pollData]
    rw [hstatus]
    split
    · exact ⟨rfl, h1⟩
    split
    · exact ⟨rfl, h1⟩
    rw [htoken]
    split
    · exact ⟨rfl, h2⟩
    · exact ih (by omega) h2

theorem dataStage_agree (hS : Readable t S) (h : Agree writes S w w') :
    (dataStage writes t short received w').1 = (dataStage writes t short received w).1 ∧
    Agree writes S (dataStage writes t short received w).2 (dataStage writes t short received w').2 := by
  simp only [dataStage]
  split
  · exact ⟨rfl, h⟩
  obtain ⟨hpoll, h1⟩ : _ ∧ _ := @pollData_agree _ _ _ _ _ _ _ 0 hS (Nat.zero_add t.dataTdCount).le h
  generalize pollData writes t.dataTds t.dataTdCount 0 0 w = out at hpoll h1 ⊢
  generalize pollData writes t.dataTds t.dataTdCount 0 0 w' = out' at hpoll h1 ⊢
  obtain ⟨poll, w1⟩ := out
  obtain ⟨poll', w1'⟩ := out'
  obtain rfl : poll' = poll := hpoll
  cases poll' with
  | failed => exact ⟨rfl, h1⟩
  | unfinished total => exact ⟨rfl, h1⟩
  | short total => exact ⟨rfl, h1.write⟩
  | done total => exact ⟨rfl, h1⟩

/-- **The wait does not depend on the block.**  Two runs that agree on the words that the driver reads have
the same result, and agree on what the controller has written. -/
theorem waitRounds_agree (hS : Readable t S) (h : Agree writes S w w') :
    (waitRounds writes t k short received w').1 = (waitRounds writes t k short received w).1 ∧
    Agree writes S (waitRounds writes t k short received w).2.2
      (waitRounds writes t k short received w').2.2 := by
  induction k generalizing short received w w' with
  | zero => exact ⟨rfl, h⟩
  | succ k ih =>
    obtain ⟨hsetup, h1⟩ := h.read32 hS.setup
    simp only [waitRounds]
    rw [hsetup]
    split
    · exact ⟨rfl, h1⟩
    split
    · exact ih h1
    obtain ⟨hdata, h2⟩ := @dataStage_agree _ _ _ _ _ received short hS h1
    generalize dataStage writes t short received (w.read32 writes (t.setupTd + 4)).2 = out at hdata h2 ⊢
    generalize dataStage writes t short received (w'.read32 writes (t.setupTd + 4)).2 = out' at hdata h2 ⊢
    obtain ⟨stage, w2⟩ := out
    obtain ⟨stage', w2'⟩ := out'
    obtain rfl : stage' = stage := hdata
    cases stage' with
    | failed => exact ⟨rfl, h2⟩
    | again received => exact ih h2
    | ended short received =>
      obtain ⟨hstatus, h3⟩ := h2.read32 hS.status
      simp only
      rw [hstatus]
      split
      · exact ⟨rfl, h3⟩
      split
      · exact ⟨rfl, h3⟩
      · exact ih h3

theorem pollData_watched {D : Set Nat} {dataTds : Nat} :
    Watched writes D w (pollData writes dataTds k i total w).2 := by
  induction k generalizing i total w with
  | zero => exact .refl w
  | succ k ih =>
    simp only [pollData]
    split
    · exact watched_look w
    split
    · exact watched_look w
    split
    · exact (watched_look w).trans (watched_look _)
    · exact ((watched_look w).trans (watched_look _)).trans ih

theorem dataStage_watched : Watched writes (writable t) w (dataStage writes t short received w).2 := by
  simp only [dataStage]
  split
  · exact .refl w
  have h := @pollData_watched writes w t.dataTdCount 0 0 (writable t) t.dataTds
  generalize pollData writes t.dataTds t.dataTdCount 0 0 w = out at h ⊢
  obtain ⟨poll, w1⟩ := out
  cases poll with
  | failed => exact h
  | unfinished total => exact h
  | short total => exact h.trans (watched_write fun x h1 h2 => ⟨h1, by simpa using h2⟩)
  | done total => exact h

/-- **Success is seen.**  If the wait is successful, the driver has read in the status descriptor that it is
not active. -/
theorem waitRounds_watched (hs : (waitRounds writes t k short received w).1 = .success) :
    Watched writes (writable t) w (waitRounds writes t k short received w).2.2 ∧
      load32 (waitRounds writes t k short received w).2.2.memory (t.statusTd + 4) &&& uhciTdActive = 0 := by
  induction k generalizing short received w with
  | zero => cases hs
  | succ k ih =>
    simp only [waitRounds] at hs ⊢
    have hsetup := @watched_look writes (writable t) w
    split at hs
    · cases hs
    rename_i hfailed
    rw [if_neg hfailed]
    split at hs
    · rename_i hactive
      rw [if_pos hactive]
      obtain ⟨h1, h2⟩ := ih hs
      exact ⟨hsetup.trans h1, h2⟩
    rename_i hactive
    rw [if_neg hactive]
    have hstage := hsetup.trans (@dataStage_watched writes t (w.read32 writes (t.setupTd + 4)).2 received short)
    generalize dataStage writes t short received (w.read32 writes (t.setupTd + 4)).2 = out at hs hstage ⊢
    obtain ⟨stage, w2⟩ := out
    cases stage with
    | failed => cases hs
    | again received =>
      obtain ⟨h1, h2⟩ := ih hs
      exact ⟨hstage.trans h1, h2⟩
    | ended short received =>
      have hstatus := hstage.trans (@watched_look writes (writable t) w2)
      simp only at hs ⊢
      split at hs
      · cases hs
      rename_i hfailed
      rw [if_neg hfailed]
      split at hs
      · rename_i hdone
        rw [if_pos hdone]
        exact ⟨hstatus, hdone⟩
      · rename_i hdone
        rw [if_neg hdone]
        obtain ⟨h1, h2⟩ := ih hs
        exact ⟨hstatus.trans h1, h2⟩

end

/-! ## The answer -/

/-- Where the wait for a transfer begins. -/
def transferStart (r : SendPacket) (packet : UsbSetupPacket) (maxpacketsize length : Nat) (address : BitVec 8)
    (former : Nat → BitVec 8) : Shared :=
  ⟨writeTransfer r.alloc packet maxpacketsize length address (lowSpeedStatus r.portStatus) former, 0⟩

/-- How it ends. -/
def transferEnd (r : SendPacket) (packet : UsbSetupPacket) (maxpacketsize length : Nat) (address : BitVec 8)
    (former : Nat → BitVec 8) : TransferResult × BitVec 32 × Shared :=
  waitForControlTransfer r.writes (transferTds r.alloc (packetCount length maxpacketsize))
    (transferStart r packet maxpacketsize length address former)

/-- The room for the answer. -/
def answerArea (alloc : DmaRet) (dataTdCount : Nat) : Nat :=
  alloc.physicalOf ((transferLayout alloc dataTdCount).setup + 8)

/-- Nothing but the transfer can fail. -/
structure SendPacket.Prompt (r : SendPacket) : Prop where
  /-- There is a block. -/
  status : r.alloc.status = 0
  /-- It is below 4 GiB. -/
  tooBig : r.alloc.tooBig = false
  /-- The controller halts. -/
  halted : waitForHalted r.visit.halted = true
  /-- It starts. -/
  started : waitForStart r.visit.started = true
  /-- It halts again. -/
  haltedAgain : waitForHalted r.visit.haltedAgain = true
  /-- It starts again. -/
  startedAgain : waitForStart r.visit.startedAgain = true
  /-- There is room for the copy. -/
  kmalloc : r.kmalloc = true

section

variable {r : SendPacket} {packet : UsbSetupPacket} {maxpacketsize length : Nat} {address : BitVec 8}
  {former : Nat → BitVec 8} {s : UhciState} {response : Response}

/-- What a response with data means. -/
theorem usbSendPacket_eq_some (hlength : length ≠ 0) :
    (usbSendPacket r packet maxpacketsize length address former s).1 = some response ↔
      rejects packet maxpacketsize length = false ∧ r.Prompt ∧
      (transferEnd r packet maxpacketsize length address former).1 = .success ∧
      response = .buffer (getBytes
        ((transferEnd r packet maxpacketsize length address former).2.2.look r.writes).memory
        (answerArea r.alloc (packetCount length maxpacketsize)) length) := by
  simp only [usbSendPacket]
  cases hr : rejects packet maxpacketsize length with
  | true => exact ⟨fun h => (by cases h), fun h => (by cases h.1)⟩
  | false =>
    by_cases h0 : r.alloc.status = 0
    swap
    · simp only [Bool.false_eq_true, if_false, if_pos h0]
      exact ⟨fun h => (by cases h), fun h => absurd h.2.1.status h0⟩
    simp only [Bool.false_eq_true, if_false, if_neg (not_not.mpr h0)]
    cases hbig : r.alloc.tooBig with
    | true => exact ⟨fun h => (by cases h), fun h => (by cases hbig.symm.trans h.2.1.tooBig)⟩
    | false =>
      cases hhalted : waitForHalted r.visit.halted with
      | false => exact ⟨fun h => (by cases h), fun h => (by cases hhalted.symm.trans h.2.1.halted)⟩
      | true =>
        cases hstarted : waitForStart r.visit.started with
        | false => exact ⟨fun h => (by cases h), fun h => (by cases hstarted.symm.trans h.2.1.started)⟩
        | true =>
          generalize hout : waitForControlTransfer r.writes _ _ = out
          rw [show transferEnd r packet maxpacketsize length address former = out from hout]
          simp only [Bool.not_true, Bool.false_eq_true, if_false]
          by_cases hresult : out.1 = .success
          swap
          · rw [if_pos hresult]
            refine ⟨fun h => ?_, fun h => absurd h.2.2.1 hresult⟩
            split at h <;> cases h
          rw [if_neg (not_not.mpr hresult)]
          cases hagain : waitForHalted r.visit.haltedAgain with
          | false => exact ⟨fun h => (by cases h), fun h => (by cases hagain.symm.trans h.2.1.haltedAgain)⟩
          | true =>
            cases hstarted' : waitForStart r.visit.startedAgain with
            | false => exact ⟨fun h => (by cases h), fun h => (by cases hstarted'.symm.trans h.2.1.startedAgain)⟩
            | true =>
              cases hkmalloc : r.kmalloc with
              | false =>
                simp only [Bool.not_true, Bool.not_false, Bool.false_eq_true, if_false, if_true]
                rw [if_pos hlength]
                exact ⟨fun h => (by cases h), fun h => (by cases hkmalloc.symm.trans h.2.1.kmalloc)⟩
              | true =>
                simp only [Bool.not_true, Bool.false_eq_true, if_false]
                rw [if_pos hlength]
                constructor
                · intro h
                  exact ⟨trivial, ⟨h0, hbig, hhalted, hstarted, hagain, hstarted', hkmalloc⟩, hresult,
                    (Option.some.inj h).symm⟩
                · rintro ⟨-, -, -, rfl⟩
                  rfl

/-- Whether the status descriptor is finished, for the byte of it that has `UHCI_TD_ACTIVE`. -/
def inactive (b : BitVec 8) : Bool := !b.getLsbD 7

theorem inactive_status {bytes : Nat → BitVec 8} {a : Nat} :
    inactive (bytes (a + 2)) = true ↔ load32 bytes a &&& uhciTdActive = 0 := by
  have hbit : (load32 bytes a).getLsbD 23 = (bytes (a + 2)).getLsbD 7 := getLsbD_load32 (by decide)
  rw [inactive, ← hbit, show uhciTdActive = BitVec.twoPow 32 23 by decide, BitVec.and_twoPow]
  cases (load32 bytes a).getLsbD 23 <;> decide

theorem active_statusTd {statusIn : Bool} {portStatus : BitVec 16} :
    (statusTd statusIn address (lowSpeedStatus portStatus)).status &&& uhciTdActive ≠ 0 := by
  rw [statusTd, lowSpeedStatus]
  simp only
  split <;> decide

theorem transferTds_eq (alloc : DmaRet) (n : Nat) :
    transferTds alloc n = ⟨alloc.physicalAddress, alloc.physicalAddress + 16, alloc.physicalAddress + 48, n,
      alloc.physicalAddress + 48 + 32 * n, (transferLayout alloc n).statusTdPhys⟩ := by
  have hstatusTd : alloc.physicalOf (transferLayout alloc n).statusTd =
      alloc.physicalAddress + 48 + 32 * n := by
    simp only [transferLayout, sizeofTd, sizeofQh, DmaRet.physicalOf]
    omega
  rw [transferTds, hstatusTd]
  simp only [transferLayout, sizeofTd, sizeofQh, DmaRet.physicalOf, TransferTds.mk.injEq, and_true]
  omega

theorem answerArea_eq (alloc : DmaRet) (n : Nat) :
    answerArea alloc n = alloc.physicalAddress + 88 + 32 * n := by
  simp only [answerArea, transferLayout, sizeofTd, sizeofQh, DmaRet.physicalOf]
  omega

/-- What the driver reads, it has written before, the same in every run. -/
theorem InMemory.readable {n : Nat} {lowSpeedStatus : BitVec 32} {alloc : DmaRet} {bytes bytes' : Nat → BitVec 8}
    (h : InMemory alloc packet maxpacketsize length address lowSpeedStatus n bytes)
    (h' : InMemory alloc packet maxpacketsize length address lowSpeedStatus n bytes') :
    Readable (transferTds alloc n) {a | bytes' a = bytes a} := by
  rw [transferTds_eq]
  exact {
    setup := h.setup.sameOn_word h'.setup 1 (show 1 < 4 by decide)
    data := fun j hj => (h.data j hj).sameOn_word (h'.data j hj) 1 (show 1 < 4 by decide)
    token := fun j hj => (h.data j hj).sameOn_word (h'.data j hj) 2 (show 2 < 4 by decide)
    status := h.status.sameOn_word h'.status 1 (show 1 < 4 by decide) }

/-- Two runs with the same packet, whatever was in memory before. -/
theorem transferEnd_agree (hr : rejects packet maxpacketsize length = false) (f f' : Nat → BitVec 8) :
    (transferEnd r packet maxpacketsize length address f').1 =
      (transferEnd r packet maxpacketsize length address f).1 ∧
    Agree r.writes {a | (transferStart r packet maxpacketsize length address f').memory a =
        (transferStart r packet maxpacketsize length address f).memory a}
      (transferEnd r packet maxpacketsize length address f).2.2
      (transferEnd r packet maxpacketsize length address f').2.2 := by
  have h := (writeTransfer_spec r.alloc address (lowSpeedStatus r.portStatus) f hr rfl).1
  have h' := (writeTransfer_spec r.alloc address (lowSpeedStatus r.portStatus) f' hr rfl).1
  exact waitRounds_agree (h.readable h') (agree_start rfl rfl)

/-- A run that succeeds. -/
theorem driverRun (hr : rejects packet maxpacketsize length = false)
    (hsuccess : (transferEnd r packet maxpacketsize length address former).1 = .success) :
    DriverRun r.writes (writable (transferTds r.alloc (packetCount length maxpacketsize)))
      (answerArea r.alloc (packetCount length maxpacketsize)) length
      ((transferTds r.alloc (packetCount length maxpacketsize)).statusTd + 6) inactive former
      (transferStart r packet maxpacketsize length address former)
      ((transferEnd r packet maxpacketsize length address former).2.2.look r.writes) := by
  obtain ⟨hmem, hkeep⟩ := writeTransfer_spec r.alloc address (lowSpeedStatus r.portStatus) former hr rfl
  obtain ⟨hwatched, hdone⟩ := waitRounds_watched hsuccess
  refine ⟨fun i _ => hkeep _ (.inr ?_), ?_, _, hwatched, inactive_status.mpr hdone, watched_look _⟩
  · rw [answerArea_eq]
    omega
  · rw [← Bool.not_eq_true, transferTds_eq]
    exact fun h => active_statusTd (hmem.status.tail.load32 ▸ inactive_status.mp h)

/-- **The response depends on what was in the block, unless the device fills it.**  A run that succeeds is
compared with all those in which only the block had other contents. -/
theorem usbSendPacket_same_iff {d : List (BitVec 8)} (hlength : length ≠ 0)
    (hsize : transferSize (packetCount length maxpacketsize) length ≤ 4096 * r.alloc.sizeInPages)
    (hsends : DeviceSends r.writes (answerArea r.alloc (packetCount length maxpacketsize)) length
      ((transferTds r.alloc (packetCount length maxpacketsize)).statusTd + 6) inactive d)
    (hsome : (usbSendPacket r packet maxpacketsize length address former s).1 = some response) :
    (∀ f, (∀ a, ¬ r.alloc.Holds a → f a = former a) →
      (usbSendPacket r packet maxpacketsize length address f s).1 = some response) ↔ d.length = length := by
  obtain ⟨hr, hprompt, hsuccess, rfl⟩ := (usbSendPacket_eq_some hlength).mp hsome
  have hresult (f : Nat → BitVec 8) : (transferEnd r packet maxpacketsize length address f).1 = .success :=
    (transferEnd_agree hr former f).1.trans hsuccess
  rw [← hsends.same_iff {a | r.alloc.Holds a} ?_ ?_ (fun f _ => driverRun hr (hresult f))
    (fun f _ => (transferEnd_agree hr former f).2.look)]
  · refine forall₂_congr fun f _ => ?_
    rw [usbSendPacket_eq_some hlength, Response.buffer.injEq, eq_comm (a := getBytes _ _ _)]
    exact ⟨fun h => h.2.2.2, fun h => ⟨hr, hprompt, hresult f, h⟩⟩
  · rw [transferTds_eq]
    rintro ⟨-, h⟩
    simp only at h
    omega
  · intro i hi
    rw [answerArea_eq, transferTds_eq]
    simp only [transferSize, sizeofTd, sizeofQh] at hsize
    refine ⟨?_, ?_⟩
    · rintro ⟨-, h⟩
      simp only at h
      omega
    · constructor <;> omega

end

end Dem64.Uhci
