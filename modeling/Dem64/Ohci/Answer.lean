import Dem64.Host.Answer
import Dem64.Ohci.Driver

/-!
# What the OHCI driver returns

The driver waits until the queue of the endpoint has come to its end, and then reads the condition codes of
three descriptors and where the first data descriptor has come to.  It has written all of that, or the
controller has, so what it does does not depend on what was in the block before (`transferEnd_agree`).  A
short packet is no failure in the last data descriptor, and the driver copies what was asked for.
-/

set_option autoImplicit false

namespace Dem64.Ohci

open ByteMemory SharedMemory

/-- The words that the driver reads. -/
structure Readable (t : TransferTds) (S : Set Nat) : Prop where
  /-- The first word of the endpoint descriptor. -/
  control : ∀ x, t.ed ≤ x → x < t.ed + 4 → x ∈ S
  /-- Its head. -/
  head : ∀ x, t.ed + 8 ≤ x → x < t.ed + 8 + 4 → x ∈ S
  /-- The first word of the SETUP descriptor. -/
  setup : ∀ x, t.setupTd ≤ x → x < t.setupTd + 4 → x ∈ S
  /-- The first word of the first data descriptor. -/
  data : ∀ a ∈ t.dataTd, ∀ x, a ≤ x → x < a + 4 → x ∈ S
  /-- Where the controller is in the buffer of the first data descriptor. -/
  cbp : ∀ a ∈ t.dataTd, ∀ x, a + 4 ≤ x → x < a + 4 + 4 → x ∈ S
  /-- The first word of the status descriptor. -/
  status : ∀ x, t.statusTd ≤ x → x < t.statusTd + 4 → x ∈ S

/-- The word that the driver writes before it copies the answer. -/
def writable (t : TransferTds) : Set Nat := {x | t.ed ≤ x ∧ x < t.ed + 4}

section

variable {writes : Nat → List (Nat × BitVec 8)} {S D : Set Nat} {t : TransferTds} {w w' : Shared} {k : Nat}

theorem finishedTransfer_agree (hS : Readable t S) (h : Agree writes S w w') :
    (finishedTransfer writes t w').1 = (finishedTransfer writes t w).1 ∧
    Agree writes S (finishedTransfer writes t w).2.2 (finishedTransfer writes t w').2.2 := by
  obtain ⟨hsetup, h1⟩ := h.read32 hS.setup
  simp only [finishedTransfer]
  rw [hsetup]
  cases hdata : t.dataTd with
  | none =>
    obtain ⟨hstatus, h2⟩ := h1.read32 hS.status
    simp only
    rw [hstatus]
    split
    · exact ⟨rfl, h2⟩
    · exact ⟨rfl, h2⟩
  | some a =>
    have ha : a ∈ t.dataTd := by rw [hdata, Option.mem_some]
    obtain ⟨hcontrol, h2⟩ := h1.read32 (hS.data a ha)
    obtain ⟨hstatus, h3⟩ := h2.read32 hS.status
    obtain ⟨hcbp, h4⟩ := h3.read32 (hS.cbp a ha)
    simp only
    rw [hcontrol, hstatus]
    split
    · exact ⟨rfl, h3⟩
    rw [hcbp]
    generalize receivedBytes t _ = received
    cases received with
    | none => exact ⟨rfl, h4⟩
    | some received => exact ⟨rfl, h4⟩

/-- **The wait does not depend on the block.** -/
theorem waitRounds_agree (hS : Readable t S) (h : Agree writes S w w') :
    (waitRounds writes t k w').1 = (waitRounds writes t k w).1 ∧
    Agree writes S (waitRounds writes t k w).2.2 (waitRounds writes t k w').2.2 := by
  induction k generalizing w w' with
  | zero => exact ⟨rfl, h⟩
  | succ k ih =>
    obtain ⟨hhead, h1⟩ := h.read32 hS.head
    simp only [waitRounds]
    rw [hhead]
    split
    · exact ⟨rfl, h1⟩
    split
    · exact finishedTransfer_agree hS h1
    · exact ih h1

/-- **Success is seen.**  The driver has read the condition code of the status descriptor. -/
theorem finishedTransfer_watched (hs : (finishedTransfer writes t w).1 = .success) :
    ∃ seen, Watched writes D w seen ∧ load32 seen.memory t.statusTd >>> 28 = 0 ∧
      Watched writes D seen (finishedTransfer writes t w).2.2 := by
  have h1 := @watched_look writes D w
  have h2 := h1.trans (watched_look _)
  have h3 := h2.trans (watched_look _)
  simp only [finishedTransfer] at hs ⊢
  cases hdata : t.dataTd with
  | none =>
    rw [hdata] at hs
    simp only at hs ⊢
    split at hs
    · cases hs
    rename_i hcodes
    rw [if_neg hcodes]
    exact ⟨_, h2, not_not.mp fun h => hcodes (.inr h), .refl _⟩
  | some a =>
    rw [hdata] at hs
    simp only at hs ⊢
    split at hs
    · cases hs
    rename_i hcodes
    rw [if_neg hcodes]
    refine ⟨_, h3, not_not.mp fun h => hcodes (.inr (.inr h)), ?_⟩
    generalize receivedBytes t _ = received
    cases received with
    | none => exact watched_look _
    | some received => exact watched_look _

theorem waitRounds_watched (hs : (waitRounds writes t k w).1 = .success) :
    ∃ seen, Watched writes D w seen ∧ load32 seen.memory t.statusTd >>> 28 = 0 ∧
      Watched writes D seen (waitRounds writes t k w).2.2 := by
  induction k generalizing w with
  | zero => cases hs
  | succ k ih =>
    simp only [waitRounds] at hs ⊢
    have hlook := @watched_look writes D w
    split at hs
    · cases hs
    rename_i hhalted
    rw [if_neg hhalted]
    split at hs
    · rename_i hend
      rw [if_pos hend]
      obtain ⟨seen, h1, h2, h3⟩ := finishedTransfer_watched hs
      exact ⟨seen, hlook.trans h1, h2, h3⟩
    · rename_i hend
      rw [if_neg hend]
      obtain ⟨seen, h1, h2, h3⟩ := ih hs
      exact ⟨seen, hlook.trans h1, h2, h3⟩

end

/-! ## The answer -/

/-- Where the wait for a transfer begins. -/
def transferStart (r : SendPacket) (packet : UsbSetupPacket) (maxpacketsize length : Nat) (address : BitVec 8)
    (former : Nat → BitVec 8) : Shared :=
  let lowSpeed := r.portStatus &&& ohciRhpsLsda != 0
  ⟨writeTransfer r.alloc packet maxpacketsize length address lowSpeed former, 0⟩

/-- How it ends, with memory after the endpoint was told to be skipped. -/
def transferEnd (r : SendPacket) (packet : UsbSetupPacket) (maxpacketsize length : Nat) (address : BitVec 8)
    (former : Nat → BitVec 8) : TransferResult × Shared :=
  let tds := transferTds r.alloc (packetCount length maxpacketsize) length
  let (result, _, w) := waitForDescriptor r.writes tds
    (transferStart r packet maxpacketsize length address former)
  let (control, w) := w.read32 r.writes tds.ed
  (result, w.write tds.ed [control ||| ohciEdSkip])

/-- The room for the answer. -/
def answerArea (alloc : DmaRet) (dataTdCount : Nat) : Nat :=
  alloc.physicalOf ((transferLayout alloc dataTdCount).setup + 8)

/-- Nothing but the transfer can fail. -/
structure SendPacket.Prompt (r : SendPacket) : Prop where
  /-- There is a block. -/
  status : r.alloc.status = 0
  /-- It is below 4 GiB. -/
  tooBig : r.alloc.tooBig = false
  /-- The control list stops. -/
  stopped : r.stopped = true
  /-- The old list comes back. -/
  restored : r.restored = true
  /-- There is room for the copy. -/
  kmalloc : r.kmalloc = true

section

variable {r : SendPacket} {packet : UsbSetupPacket} {maxpacketsize length n : Nat} {address : BitVec 8}
  {former : Nat → BitVec 8} {s : OhciState} {response : Response}

/-- What a response with data means. -/
theorem usbSendPacket_eq_some (hlength : length ≠ 0) :
    (usbSendPacket r packet maxpacketsize length address former s).1 = some response ↔
      rejects packet maxpacketsize length = false ∧ r.Prompt ∧
      (transferEnd r packet maxpacketsize length address former).1 = .success ∧
      response = .buffer (getBytes
        ((transferEnd r packet maxpacketsize length address former).2.look r.writes).memory
        (answerArea r.alloc (packetCount length maxpacketsize)) length) := by
  simp only [usbSendPacket]
  cases hr : rejects packet maxpacketsize length with
  | true => exact ⟨fun h => (by cases h), fun h => (by cases h.1)⟩
  | false =>
    by_cases h0 : r.alloc.status = 0
    swap
    · simp only [Bool.false_eq_true, if_false, if_pos h0]
      exact ⟨fun h => (by cases h), fun h => absurd h.2.1.status h0⟩
    simp only [Bool.false_eq_true, if_false, if_neg (not_not.mpr h0)]
    cases hbig : r.alloc.tooBig with
    | true => exact ⟨fun h => (by cases h), fun h => (by cases hbig.symm.trans h.2.1.tooBig)⟩
    | false =>
      cases hstopped : r.stopped with
      | false => exact ⟨fun h => (by cases h), fun h => (by cases hstopped.symm.trans h.2.1.stopped)⟩
      | true =>
        simp only [transferEnd, transferStart, Bool.not_true, Bool.false_eq_true, if_false]
        generalize waitForDescriptor r.writes _ _ = out
        cases hrestored : r.restored with
        | false => exact ⟨fun h => (by cases h), fun h => (by cases hrestored.symm.trans h.2.1.restored)⟩
        | true =>
          simp only [Bool.not_true, Bool.false_eq_true, if_false]
          by_cases hresult : out.1 = .success
          swap
          · rw [if_pos hresult]
            exact ⟨fun h => (by cases h), fun h => absurd h.2.2.1 hresult⟩
          rw [if_neg (not_not.mpr hresult), if_pos hlength]
          cases hkmalloc : r.kmalloc with
          | false => exact ⟨fun h => (by cases h), fun h => (by cases hkmalloc.symm.trans h.2.1.kmalloc)⟩
          | true =>
            constructor
            · intro h
              exact ⟨trivial, ⟨h0, hbig, hstopped, hrestored, hkmalloc⟩, hresult, (Option.some.inj h).symm⟩
            · rintro ⟨-, -, -, rfl⟩
              rfl

/-- Whether the status descriptor is finished, for the byte of it that has the condition code. -/
def retired (b : BitVec 8) : Bool := b >>> 4 == 0

theorem retired_control {bytes : Nat → BitVec 8} {a : Nat} :
    retired (bytes (a + 3)) = true ↔ load32 bytes a >>> 28 = 0 := by
  have hbit (i : Nat) (hi : i < 4) : (load32 bytes a).getLsbD (28 + i) = (bytes (a + 3)).getLsbD (4 + i) := by
    rw [getLsbD_load32 (by omega), show (28 + i) / 8 = 3 by omega, show (28 + i) % 8 = 4 + i by omega]
  have hzero (v i : Nat) : (0 : BitVec v).getLsbD i = false := BitVec.getLsbD_zero
  rw [retired, beq_iff_eq]
  constructor
  · intro h
    apply BitVec.eq_of_getLsbD_eq
    intro i _
    rw [BitVec.getLsbD_ushiftRight, hzero]
    by_cases hi : i < 4
    · rw [hbit i hi, ← BitVec.getLsbD_ushiftRight, h, hzero]
    · exact BitVec.getLsbD_of_ge _ _ (by omega)
  · intro h
    apply BitVec.eq_of_getLsbD_eq
    intro i _
    rw [BitVec.getLsbD_ushiftRight, hzero]
    by_cases hi : i < 4
    · rw [← hbit i hi, ← BitVec.getLsbD_ushiftRight, h, hzero]
    · exact BitVec.getLsbD_of_ge _ _ (by omega)

theorem unretired_statusTd {l : TransferLayout} {statusIn : Bool} :
    (statusTd l statusIn).control >>> 28 ≠ 0 := by
  cases statusIn
  · show tdControl ohciTdTData1 ohciTdDpOut false >>> 28 ≠ 0
    decide
  · show tdControl ohciTdTData1 ohciTdDpIn false >>> 28 ≠ 0
    decide

theorem transferTds_eq (alloc : DmaRet) (hn : n ≠ 0) : transferTds alloc n length =
    ⟨alloc.physicalAddress, alloc.physicalAddress + 16, some (alloc.physicalAddress + 32),
      alloc.physicalAddress + 32 + 16 * n, (transferLayout alloc n).dummyPhys,
      (transferLayout alloc n).dataPhys, BitVec.ofNat 32 length⟩ := by
  simp only [transferTds, transferLayout, if_pos hn, sizeofTd, sizeofEd, DmaRet.physicalOf,
    TransferTds.mk.injEq, Option.some.injEq, and_true]
  omega

theorem answerArea_eq (alloc : DmaRet) (n : Nat) :
    answerArea alloc n = alloc.physicalAddress + 72 + 16 * n := by
  simp only [answerArea, transferLayout, sizeofTd, sizeofEd, DmaRet.physicalOf]
  omega

/-- What the driver reads, it has written before, the same in every run. -/
theorem InMemory.readable {alloc : DmaRet} {lowSpeed : Bool} {bytes bytes' : Nat → BitVec 8} (hn : n ≠ 0)
    (h : InMemory alloc packet maxpacketsize length address lowSpeed n bytes)
    (h' : InMemory alloc packet maxpacketsize length address lowSpeed n bytes') :
    Readable (transferTds alloc n length) {a | bytes' a = bytes a} := by
  rw [transferTds_eq alloc hn]
  have hdata := h.data 0 (Nat.pos_of_ne_zero hn)
  have hdata' := h'.data 0 (Nat.pos_of_ne_zero hn)
  exact {
    control := h.ed.sameOn_word h'.ed 0 (show 0 < 4 by decide)
    head := h.ed.sameOn_word h'.ed 2 (show 2 < 4 by decide)
    setup := h.setup.sameOn_word h'.setup 0 (show 0 < 4 by decide)
    data := by
      rintro a ⟨⟩
      exact hdata.sameOn_word hdata' 0 (show 0 < 4 by decide)
    cbp := by
      rintro a ⟨⟩
      exact hdata.sameOn_word hdata' 1 (show 1 < 4 by decide)
    status := h.status.sameOn_word h'.status 0 (show 0 < 4 by decide) }

theorem packetCount_ne_zero (hr : rejects packet maxpacketsize length = false) (hlength : length ≠ 0) :
    packetCount length maxpacketsize ≠ 0 :=
  fun h => hlength ((packetCount_eq_zero (rejects_eq_false hr).1).mp h)

/-- Two runs with the same packet, whatever was in memory before. -/
theorem transferEnd_agree (hr : rejects packet maxpacketsize length = false) (hlength : length ≠ 0)
    (f f' : Nat → BitVec 8) :
    (transferEnd r packet maxpacketsize length address f').1 =
      (transferEnd r packet maxpacketsize length address f).1 ∧
    Agree r.writes {a | (transferStart r packet maxpacketsize length address f').memory a =
        (transferStart r packet maxpacketsize length address f).memory a}
      (transferEnd r packet maxpacketsize length address f).2
      (transferEnd r packet maxpacketsize length address f').2 := by
  have h := (writeTransfer_spec r.alloc address (r.portStatus &&& ohciRhpsLsda != 0) f hr rfl).1
  have h' := (writeTransfer_spec r.alloc address (r.portStatus &&& ohciRhpsLsda != 0) f' hr rfl).1
  have hS := h.readable (packetCount_ne_zero hr hlength) h'
  have hstart : Agree r.writes {a | (transferStart r packet maxpacketsize length address f').memory a =
      (transferStart r packet maxpacketsize length address f).memory a} _ _ := agree_start rfl rfl
  obtain ⟨hwait, h1⟩ := @waitRounds_agree _ _ _ _ _ 100 hS hstart
  obtain ⟨hcontrol, h2⟩ := h1.read32 hS.control
  simp only [transferEnd, waitForDescriptor]
  rw [hcontrol]
  exact ⟨hwait, h2.write⟩

/-- A run that succeeds. -/
theorem driverRun (hr : rejects packet maxpacketsize length = false) (hlength : length ≠ 0)
    (hsuccess : (transferEnd r packet maxpacketsize length address former).1 = .success) :
    DriverRun r.writes (writable (transferTds r.alloc (packetCount length maxpacketsize) length))
      (answerArea r.alloc (packetCount length maxpacketsize)) length
      ((transferTds r.alloc (packetCount length maxpacketsize) length).statusTd + 3) retired former
      (transferStart r packet maxpacketsize length address former)
      ((transferEnd r packet maxpacketsize length address former).2.look r.writes) := by
  obtain ⟨hmem, hkeep⟩ := writeTransfer_spec r.alloc address (r.portStatus &&& ohciRhpsLsda != 0) former hr rfl
  have hn := packetCount_ne_zero hr hlength
  have hwait : (waitRounds r.writes (transferTds r.alloc (packetCount length maxpacketsize) length) 100
    (transferStart r packet maxpacketsize length address former)).1 = .success := hsuccess
  obtain ⟨seen, h1, hdone, h2⟩ := waitRounds_watched hwait
  have hskip : Watched r.writes (writable (transferTds r.alloc (packetCount length maxpacketsize) length)) seen
      (transferEnd r packet maxpacketsize length address former).2 :=
    (h2.trans (watched_look _)).trans (watched_write fun x hx hx' => ⟨hx, by simpa using hx'⟩)
  refine ⟨fun i _ => hkeep _ (.inr ?_), ?_, seen, h1, retired_control.mpr hdone,
    hskip.trans (watched_look _)⟩
  · rw [answerArea_eq]
    omega
  · rw [← Bool.not_eq_true, transferTds_eq _ hn]
    exact fun h => unretired_statusTd (hmem.status.load32 ▸ retired_control.mp h)

/-- **The response depends on what was in the block, unless the device fills it.**  A run that succeeds is
compared with all those in which only the block had other contents. -/
theorem usbSendPacket_same_iff {d : List (BitVec 8)} (hlength : length ≠ 0)
    (hsize : transferSize (packetCount length maxpacketsize) length ≤ 4096 * r.alloc.sizeInPages)
    (hsends : DeviceSends r.writes (answerArea r.alloc (packetCount length maxpacketsize)) length
      ((transferTds r.alloc (packetCount length maxpacketsize) length).statusTd + 3) retired d)
    (hsome : (usbSendPacket r packet maxpacketsize length address former s).1 = some response) :
    (∀ f, (∀ a, ¬ r.alloc.Holds a → f a = former a) →
      (usbSendPacket r packet maxpacketsize length address f s).1 = some response) ↔ d.length = length := by
  obtain ⟨hr, hprompt, hsuccess, rfl⟩ := (usbSendPacket_eq_some hlength).mp hsome
  have hresult (f : Nat → BitVec 8) : (transferEnd r packet maxpacketsize length address f).1 = .success :=
    (transferEnd_agree hr hlength former f).1.trans hsuccess
  have hn := packetCount_ne_zero hr hlength
  rw [← hsends.same_iff {a | r.alloc.Holds a} ?_ ?_ (fun f _ => driverRun hr hlength (hresult f))
    (fun f _ => (transferEnd_agree hr hlength former f).2.look)]
  · refine forall₂_congr fun f _ => ?_
    rw [usbSendPacket_eq_some hlength, Response.buffer.injEq, eq_comm (a := getBytes _ _ _)]
    exact ⟨fun h => h.2.2.2, fun h => ⟨hr, hprompt, hresult f, h⟩⟩
  · rw [transferTds_eq _ hn]
    rintro ⟨-, h⟩
    simp only at h
    omega
  · intro i hi
    rw [answerArea_eq, transferTds_eq _ hn]
    simp only [transferSize, sizeofTd, sizeofEd] at hsize
    refine ⟨?_, ?_⟩
    · rintro ⟨-, h⟩
      simp only at h
      omega
    · constructor <;> omega

end

end Dem64.Ohci
