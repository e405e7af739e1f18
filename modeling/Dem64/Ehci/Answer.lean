import Dem64.Ehci.Driver
import Dem64.Host.Answer

/-!
# What the EHCI driver returns

The driver reads the tokens of the descriptors while it waits, and the token in the queue head before it
unlinks it.  It has written all of them, or the controller has, so what it does does not depend on what was
in the block before (`transferEnd_agree`).  It copies what was asked for, whatever number of bytes
`wait_for_descriptor` has counted.
-/

set_option autoImplicit false

namespace Dem64.Ehci

open ByteMemory SharedMemory

/-- The words that the driver reads. -/
structure Readable (qh : Nat) (t : TransferQtds) (S : Set Nat) : Prop where
  /-- The token in the queue head. -/
  qh : ∀ x, qh + 24 ≤ x → x < qh + 24 + 4 → x ∈ S
  /-- The token of the SETUP descriptor. -/
  setup : ∀ x, t.setupQtd + 8 ≤ x → x < t.setupQtd + 8 + 4 → x ∈ S
  /-- The token of the data descriptor. -/
  data : ∀ a ∈ t.dataQtd, ∀ x, a + 8 ≤ x → x < a + 8 + 4 → x ∈ S
  /-- The token of the status descriptor. -/
  status : ∀ x, t.statusQtd + 8 ≤ x → x < t.statusQtd + 8 + 4 → x ∈ S

section

variable {writes : Nat → List (Nat × BitVec 8)} {S D : Set Nat} {t : TransferQtds} {w w' : Shared}
  {k qh : Nat} {requested : BitVec 32}

theorem dataToken_agree (hS : Readable qh t S) (h : Agree writes S w w') :
    (dataToken writes t w').1 = (dataToken writes t w).1 ∧
    Agree writes S (dataToken writes t w).2 (dataToken writes t w').2 := by
  rw [dataToken, dataToken]
  cases hdata : t.dataQtd with
  | none => exact ⟨rfl, h⟩
  | some a => exact h.read32 (hS.data a (by rw [hdata, Option.mem_some]))

/-- **The wait does not depend on the block.** -/
theorem waitRounds_agree (hS : Readable qh t S) (h : Agree writes S w w') :
    (waitRounds writes t requested k w').1 = (waitRounds writes t requested k w).1 ∧
    Agree writes S (waitRounds writes t requested k w).2.2 (waitRounds writes t requested k w').2.2 := by
  induction k generalizing w w' with
  | zero => exact ⟨rfl, h⟩
  | succ k ih =>
    obtain ⟨hsetup, h1⟩ := h.read32 hS.setup
    obtain ⟨hstatus, h2⟩ := h1.read32 hS.status
    obtain ⟨hdata, h3⟩ := dataToken_agree hS h2
    simp only [waitRounds]
    rw [hsetup, hstatus, hdata]
    generalize examineTokens _ _ _ _ _ = out
    cases out with
    | none => exact ih h3
    | some out => exact ⟨rfl, h3⟩

/-- Nor does what the driver makes of the tokens when it unlinks the queue head. -/
theorem stillActive_agree (hS : Readable qh t S) (h : Agree writes S w w') :
    (stillActive writes qh t w').1 = (stillActive writes qh t w).1 ∧
    Agree writes S (stillActive writes qh t w).2 (stillActive writes qh t w').2 := by
  obtain ⟨hdata, h1⟩ := dataToken_agree hS h
  obtain ⟨hqh, h2⟩ := h1.read32 hS.qh
  obtain ⟨hsetup, h3⟩ := h2.read32 hS.setup
  obtain ⟨hstatus, h4⟩ := h3.read32 hS.status
  simp only [stillActive]
  rw [hqh]
  split
  · exact ⟨rfl, h2⟩
  rw [hsetup]
  split
  · exact ⟨rfl, h3⟩
  rw [hdata]
  split
  · exact ⟨rfl, h3⟩
  · exact ⟨by rw [hstatus], h4⟩

theorem dataToken_watched : Watched writes D w (dataToken writes t w).2 := by
  rw [dataToken]
  cases t.dataQtd with
  | none => exact .refl w
  | some a => exact watched_look w

theorem examineTokens_success {hasData : Bool} {requested setupToken dataToken statusToken : BitVec 32}
    {out : TransferResult × BitVec 32}
    (h : examineTokens hasData requested setupToken dataToken statusToken = some out)
    (hs : out.1 = .success) : statusToken &&& ehciQtdActive = 0 := by
  rw [examineTokens] at h
  split at h
  · cases h
    cases hs
  split at h
  · rename_i hidle
    simp only [Bool.and_eq_true, Bool.not_eq_true', bne_eq_false_iff_eq] at hidle
    exact hidle.2
  · cases h
theorem stillActive_watched : Watched writes D w (stillActive writes qh t w).2 := by
  have h1 := (@dataToken_watched writes D t w).trans (watched_look _)
  have h2 := h1.trans (watched_look _)
  simp only [stillActive]
  split
  · exact h1
  split
  · exact h2
  split
  · exact h2
  · exact h2.trans (watched_look _)

/-- **Success is seen.**  The driver has read in the status descriptor that it is not active. -/
theorem waitRounds_watched (hs : (waitRounds writes t requested k w).1 = .success) :
    ∃ seen, Watched writes D w seen ∧ load32 seen.memory (t.statusQtd + 8) &&& ehciQtdActive = 0 ∧
      Watched writes D seen (waitRounds writes t requested k w).2.2 := by
  induction k generalizing w with
  | zero => cases hs
  | succ k ih =>
    simp only [waitRounds] at hs ⊢
    -- the looks at the SETUP and at the status descriptor
    have hlooks := (@watched_look writes D w).trans (watched_look (w.look writes))
    have hdata := @dataToken_watched writes D t ((w.look writes).look writes)
    generalize hout : examineTokens _ _ _ _ _ = out at hs ⊢
    cases out with
    | none =>
      obtain ⟨seen, h1, h2, h3⟩ := ih hs
      exact ⟨seen, (hlooks.trans hdata).trans h1, h2, h3⟩
    | some out => exact ⟨_, hlooks, examineTokens_success hout hs, hdata⟩

end

/-! ## The answer -/

/-- Where the wait for a transfer begins. -/
def transferStart (r : SendPacket) (packet : UsbSetupPacket) (maxpacketsize length : Nat) (address : BitVec 8)
    (former : Nat → BitVec 8) : Shared :=
  ⟨writeTransfer r.alloc packet maxpacketsize length address former, 0⟩

/-- How it ends: the result, whether a descriptor is still active, and memory. -/
def transferEnd (r : SendPacket) (packet : UsbSetupPacket) (maxpacketsize length : Nat) (address : BitVec 8)
    (former : Nat → BitVec 8) : TransferResult × Bool × Shared :=
  let qtds := transferQtds r.alloc length
  let (result, _, w) := waitForDescriptor r.writes qtds (BitVec.ofNat 32 length)
    (transferStart r packet maxpacketsize length address former)
  let (active, w) := stillActive r.writes (r.alloc.physicalOf (transferLayout r.alloc length).qh) qtds w
  (result, active, w)

/-- The room for the answer. -/
def answerArea (alloc : DmaRet) (length : Nat) : Nat :=
  alloc.physicalOf ((transferLayout alloc length).setup + 8)

/-- Nothing but the transfer can fail. -/
structure SendPacket.Prompt (r : SendPacket) : Prop where
  /-- There is a block. -/
  status : r.alloc.status = 0
  /-- It is below 4 GiB. -/
  tooBig : r.alloc.tooBig = false
  /-- Nobody else has rung the doorbell. -/
  command : r.unlink.command &&& ehciUsbcmdIaad = 0
  /-- The controller acknowledges that it has left the queue head. -/
  acknowledged : r.unlink.acknowledged = true
  /-- There is room for the copy. -/
  kmalloc : r.kmalloc = true

section

variable {r : SendPacket} {packet : UsbSetupPacket} {maxpacketsize length : Nat} {address : BitVec 8}
  {former : Nat → BitVec 8} {s : EhciState} {response : Response}

theorem unlinkAsyncQh_eq_true {u : Unlink} {state : LinkState} {qh : Nat} {active : Bool}
    (hlinked : state.linked = true) : (s.unlinkAsyncQh u state qh active).1 = true ↔
      active = false ∧ u.command &&& ehciUsbcmdIaad = 0 ∧ u.acknowledged = true := by
  simp only [EhciState.unlinkAsyncQh, hlinked, Bool.not_true, Bool.false_eq_true, if_false]
  cases active with
  | true => simp
  | false =>
    by_cases hcommand : u.command &&& ehciUsbcmdIaad = 0
    · rw [if_neg Bool.false_ne_true, if_neg (not_not.mpr hcommand)]
      cases u.acknowledged <;> simp [hcommand]
    · rw [if_neg Bool.false_ne_true, if_pos hcommand]
      exact ⟨fun h => (by cases h), fun h => absurd h.2.1 hcommand⟩

/-- What a response with data means. -/
theorem usbSendPacket_eq_some (hlength : length ≠ 0) :
    (usbSendPacket r packet maxpacketsize length address former s).1 = some response ↔
      rejects packet maxpacketsize length = false ∧ r.Prompt ∧
      (transferEnd r packet maxpacketsize length address former).1 = .success ∧
      (transferEnd r packet maxpacketsize length address former).2.1 = false ∧
      response = .buffer (getBytes
        ((transferEnd r packet maxpacketsize length address former).2.2.look r.writes).memory
        (answerArea r.alloc length) length) := by
  simp only [usbSendPacket]
  cases hr : rejects packet maxpacketsize length with
  | true => exact ⟨fun h => (by cases h), fun h => (by cases h.1)⟩
  | false =>
    by_cases h0 : r.alloc.status = 0
    swap
    · simp only [Bool.false_eq_true, if_false, if_pos h0]
      exact ⟨fun h => (by cases h), fun h => absurd h.2.1.status h0⟩
    simp only [Bool.false_eq_true, if_false, if_neg (not_not.mpr h0)]
    cases hbig : r.alloc.tooBig with
    | true => exact ⟨fun h => (by cases h), fun h => (by cases hbig.symm.trans h.2.1.tooBig)⟩
    | false =>
      simp only [transferEnd, transferStart, Bool.false_eq_true, if_false]
      generalize waitForDescriptor r.writes _ _ _ = out
      generalize stillActive r.writes _ _ out.2.2 = active
      generalize hout : EhciState.unlinkAsyncQh _ r.unlink _ _ active.1 = unlinked
      have hunlinked : unlinked.1 = true ↔ active.1 = false ∧ r.unlink.command &&& ehciUsbcmdIaad = 0 ∧
          r.unlink.acknowledged = true := hout ▸ unlinkAsyncQh_eq_true rfl
      cases hu : unlinked.1 with
      | false =>
        refine ⟨fun h => (by cases h), fun h => ?_⟩
        rw [hunlinked.mpr ⟨h.2.2.2.1, h.2.1.command, h.2.1.acknowledged⟩] at hu
        cases hu
      | true =>
        obtain ⟨hactive, hcommand, hacknowledged⟩ := hunlinked.mp hu
        simp only [Bool.not_true, Bool.false_eq_true, if_false]
        by_cases hresult : out.1 = .success
        swap
        · rw [if_pos hresult]
          exact ⟨fun h => (by cases h), fun h => absurd h.2.2.1 hresult⟩
        rw [if_neg (not_not.mpr hresult), if_pos hlength]
        cases hkmalloc : r.kmalloc with
        | false => exact ⟨fun h => (by cases h), fun h => (by cases hkmalloc.symm.trans h.2.1.kmalloc)⟩
        | true =>
          constructor
          · intro h
            exact ⟨trivial, ⟨h0, hbig, hcommand, hacknowledged, hkmalloc⟩, hresult, hactive,
              (Option.some.inj h).symm⟩
          · rintro ⟨-, -, -, -, rfl⟩
            rfl

/-- Whether the status descriptor is finished, for the byte of its token that has `EHCI_QTD_ACTIVE`. -/
def inactive (b : BitVec 8) : Bool := !b.getLsbD 7

theorem inactive_token {bytes : Nat → BitVec 8} {a : Nat} :
    inactive (bytes a) = true ↔ load32 bytes a &&& ehciQtdActive = 0 := by
  have hbit : (load32 bytes a).getLsbD 7 = (bytes a).getLsbD 7 := getLsbD_load32 (by decide)
  rw [inactive, ← hbit, show ehciQtdActive = BitVec.twoPow 32 7 by decide, BitVec.and_twoPow]
  cases (load32 bytes a).getLsbD 7 <;> decide

theorem active_statusQtd {statusIn : Bool} : (statusQtd statusIn).token &&& ehciQtdActive ≠ 0 := by
  cases statusIn <;> decide

theorem transferQtds_eq (alloc : DmaRet) (hlength : length ≠ 0) :
    transferQtds alloc length = ⟨alloc.physicalAddress + 96, some (alloc.physicalAddress + 160),
      alloc.physicalAddress + 224⟩ := by
  have hpos : length > 0 := Nat.pos_of_ne_zero hlength
  simp only [transferQtds, transferLayout, hpos, if_true, sizeofQtd, sizeofQh, DmaRet.physicalOf,
    TransferQtds.mk.injEq, Option.some.injEq]
  omega

theorem answerArea_eq (alloc : DmaRet) (hlength : length ≠ 0) :
    answerArea alloc length = alloc.physicalAddress + 296 := by
  have hpos : length > 0 := Nat.pos_of_ne_zero hlength
  simp only [answerArea, transferLayout, hpos, if_true, sizeofQtd, sizeofQh, DmaRet.physicalOf]
  omega

/-- What the driver reads, it has written before, the same in every run. -/
theorem InMemory.readable {alloc : DmaRet} {bytes bytes' : Nat → BitVec 8} (hlength : length ≠ 0)
    (h : InMemory alloc packet maxpacketsize length address bytes)
    (h' : InMemory alloc packet maxpacketsize length address bytes') :
    Readable (alloc.physicalOf (transferLayout alloc length).qh) (transferQtds alloc length)
      {a | bytes' a = bytes a} := by
  have hpos := Nat.pos_of_ne_zero hlength
  have hsize : dataQtdSize length = 64 := if_pos hpos
  have hstatus := h.status
  have hstatus' := h'.status
  rw [hsize] at hstatus hstatus'
  rw [transferQtds_eq alloc hlength, show alloc.physicalOf (transferLayout alloc length).qh =
    alloc.physicalAddress from alloc.physicalOf_add 0]
  exact {
    qh := h.qh.sameOn_word h'.qh 6 (show 6 < 24 by decide)
    setup := h.setup.sameOn_word h'.setup 2 (show 2 < 5 by decide)
    data := by
      rintro a ⟨⟩
      exact (h.data hpos).sameOn_word (h'.data hpos) 2 (show 2 < 5 by decide)
    status := hstatus.sameOn_word hstatus' 2 (show 2 < 5 by decide) }

/-- Two runs with the same packet, whatever was in memory before. -/
theorem transferEnd_agree (hr : rejects packet maxpacketsize length = false) (hlength : length ≠ 0)
    (f f' : Nat → BitVec 8) :
    ((transferEnd r packet maxpacketsize length address f').1 =
        (transferEnd r packet maxpacketsize length address f).1 ∧
      (transferEnd r packet maxpacketsize length address f').2.1 =
        (transferEnd r packet maxpacketsize length address f).2.1) ∧
    Agree r.writes {a | (transferStart r packet maxpacketsize length address f').memory a =
        (transferStart r packet maxpacketsize length address f).memory a}
      (transferEnd r packet maxpacketsize length address f).2.2
      (transferEnd r packet maxpacketsize length address f').2.2 := by
  have h := (writeTransfer_spec r.alloc address f hr).1
  have h' := (writeTransfer_spec r.alloc address f' hr).1
  have hS := h.readable hlength h'
  have hstart : Agree r.writes {a | (transferStart r packet maxpacketsize length address f').memory a =
      (transferStart r packet maxpacketsize length address f).memory a} _ _ := agree_start rfl rfl
  obtain ⟨hwait, h1⟩ := @waitRounds_agree _ _ _ _ _ 500 _ (BitVec.ofNat 32 length) hS hstart
  obtain ⟨hactive, h2⟩ := stillActive_agree hS h1
  exact ⟨⟨hwait, hactive⟩, h2⟩

/-- A run that succeeds. -/
theorem driverRun (hr : rejects packet maxpacketsize length = false) (hlength : length ≠ 0)
    (hsuccess : (transferEnd r packet maxpacketsize length address former).1 = .success) :
    DriverRun r.writes ∅ (answerArea r.alloc length) length ((transferQtds r.alloc length).statusQtd + 8)
      inactive former (transferStart r packet maxpacketsize length address former)
      ((transferEnd r packet maxpacketsize length address former).2.2.look r.writes) := by
  obtain ⟨hmem, hkeep⟩ := writeTransfer_spec r.alloc address former hr
  have hsize : dataQtdSize length = 64 := if_pos (Nat.pos_of_ne_zero hlength)
  have hwait : (waitRounds r.writes (transferQtds r.alloc length) (BitVec.ofNat 32 length) 500
    (transferStart r packet maxpacketsize length address former)).1 = .success := hsuccess
  obtain ⟨seen, h1, hdone, h2⟩ := waitRounds_watched hwait
  refine ⟨fun i _ => hkeep _ (.inr ?_), ?_, seen, h1, inactive_token.mpr hdone,
    (h2.trans stillActive_watched).trans (watched_look _)⟩
  · rw [answerArea_eq _ hlength, hsize]
    omega
  · rw [← Bool.not_eq_true, transferQtds_eq _ hlength]
    have hstatus := hmem.status
    rw [hsize] at hstatus
    exact fun h => active_statusQtd (hstatus.tail.tail.load32 ▸ inactive_token.mp h)

/-- **The response depends on what was in the block, unless the device fills it.**  A run that succeeds is
compared with all those in which only the block had other contents. -/
theorem usbSendPacket_same_iff {d : List (BitVec 8)} (hlength : length ≠ 0)
    (hsize : transferSize length ≤ 4096 * r.alloc.sizeInPages)
    (hsends : DeviceSends r.writes (answerArea r.alloc length) length
      ((transferQtds r.alloc length).statusQtd + 8) inactive d)
    (hsome : (usbSendPacket r packet maxpacketsize length address former s).1 = some response) :
    (∀ f, (∀ a, ¬ r.alloc.Holds a → f a = former a) →
      (usbSendPacket r packet maxpacketsize length address f s).1 = some response) ↔ d.length = length := by
  obtain ⟨hr, hprompt, hsuccess, hactive, rfl⟩ := (usbSendPacket_eq_some hlength).mp hsome
  have hresult (f : Nat → BitVec 8) := (@transferEnd_agree r _ _ _ address hr hlength former f).1
  rw [← hsends.same_iff {a | r.alloc.Holds a} (Set.notMem_empty _) ?_
    (fun f _ => driverRun hr hlength ((hresult f).1.trans hsuccess))
    (fun f _ => (transferEnd_agree hr hlength former f).2.look)]
  · refine forall₂_congr fun f _ => ?_
    rw [usbSendPacket_eq_some hlength, Response.buffer.injEq, eq_comm (a := getBytes _ _ _)]
    exact ⟨fun h => h.2.2.2.2,
      fun h => ⟨hr, hprompt, (hresult f).1.trans hsuccess, (hresult f).2.trans hactive, h⟩⟩
  · intro i hi
    rw [answerArea_eq _ hlength]
    simp only [transferSize, if_pos (Nat.pos_of_ne_zero hlength), sizeofQtd, sizeofQh] at hsize
    exact ⟨Set.notMem_empty _, by constructor <;> omega⟩

end

end Dem64.Ehci
