import Dem64.Host.Control

/-!
# The descriptors of a UHCI transfer

`usb_send_packet` puts everything it needs into one block: the queue head, the transfer descriptors, the
setup packet and the room for the answer.  It computes where things are twice, in the block's virtual
addresses to write them and in its physical addresses to link them.

The controller reads the descriptors as it finds them in memory (`followTds`).  It finds the transfer that
was asked for (`writeTransfer_stages`).
-/

set_option autoImplicit false

namespace Dem64.Uhci

open ByteMemory

/-- `uhci_td`, less the words that only software uses. -/
structure UhciTd where
  /-- `link`. -/
  link : BitVec 32
  /-- `status`. -/
  status : BitVec 32
  /-- `token`. -/
  token : BitVec 32
  /-- `buffer`. -/
  buffer : BitVec 32
deriving DecidableEq, Repr

/-- The words of a descriptor. -/
def UhciTd.words (td : UhciTd) : List (BitVec 32) := [td.link, td.status, td.token, td.buffer]

/-- `USB_PID_SETUP`. -/
def usbPidSetup : BitVec 8 := 0x2D
/-- `USB_PID_IN`. -/
def usbPidIn : BitVec 8 := 0x69
/-- `USB_PID_OUT`. -/
def usbPidOut : BitVec 8 := 0xE1
/-- `UHCI_LINK_TERMINATE`. -/
def uhciLinkTerminate : BitVec 32 := 1
/-- `UHCI_PTR_DEPTH`. -/
def uhciPtrDepth : BitVec 32 := 4
/-- `UHCI_TD_ACTIVE`. -/
def uhciTdActive : BitVec 32 := 1#32 <<< 23
/-- `UHCI_TD_CERR(3)`. -/
def uhciTdCerr3 : BitVec 32 := 3#32 <<< 27
/-- `UHCI_TD_SPD`. -/
def uhciTdSpd : BitVec 32 := 1#32 <<< 29
/-- `sizeof(uhci_td)`. -/
def sizeofTd : Nat := 32
/-- `sizeof(uhci_qh)`. -/
def sizeofQh : Nat := 16

/-- `UHCI_TOKEN_MAXLEN`. -/
def tokenMaxlen (len : Nat) : BitVec 32 := BitVec.ofNat 32 (if len = 0 then 0x7FF else len - 1) <<< 21

/-- A token for endpoint 0. -/
def token (pid address : BitVec 8) (toggle : Bool) (len : Nat) : BitVec 32 :=
  pid.setWidth 32 ||| address.setWidth 32 <<< 8 ||| (BitVec.ofBool toggle).setWidth 32 <<< 19 |||
    tokenMaxlen len

/-! ## The driver -/

/-- Where `usb_send_packet` puts things: the physical addresses, and the pointers. -/
structure TransferLayout where
  /-- `qh_phys`. -/
  qhPhys : BitVec 32
  /-- `setup_td_phys`. -/
  setupTdPhys : BitVec 32
  /-- `data_td_phys`. -/
  dataTdPhys : BitVec 32
  /-- `status_td_phys`. -/
  statusTdPhys : BitVec 32
  /-- `setup_phys`. -/
  setupPhys : BitVec 32
  /-- `desc_phys`. -/
  descPhys : BitVec 32
  /-- `qh`. -/
  qh : Nat
  /-- `setup_td`. -/
  setupTd : Nat
  /-- `data_td`, where there is one. -/
  dataTd : Nat
  /-- `status_td`. -/
  statusTd : Nat
  /-- `setup`. -/
  setup : Nat

/-- The addresses in a block, for this many data descriptors. -/
def transferLayout (alloc : DmaRet) (dataTdCount : Nat) : TransferLayout :=
  let qhPhys := BitVec.ofNat 32 alloc.physicalAddress
  let setupTdPhys := qhPhys + BitVec.ofNat 32 sizeofQh
  let dataTdPhys := setupTdPhys + BitVec.ofNat 32 sizeofTd
  let statusTdPhys := dataTdPhys + BitVec.ofNat 32 (sizeofTd * dataTdCount)
  let setupPhys := statusTdPhys + BitVec.ofNat 32 sizeofTd
  let qh := alloc.virtualAddress
  let setupTd := qh + sizeofQh
  let statusTd := setupTd + sizeofTd + sizeofTd * dataTdCount
  { qhPhys, setupTdPhys, dataTdPhys, statusTdPhys, setupPhys
    descPhys := setupPhys + 8
    qh, setupTd
    dataTd := setupTd + sizeofTd
    statusTd
    setup := statusTd + sizeofTd }

/-- `size`. -/
def transferSize (dataTdCount length : Nat) : Nat :=
  (dataTdCount + 2) * sizeofTd + sizeofQh + length + 8

/-- `data_td[i]`, for a packet of `len` bytes. -/
def dataTd (l : TransferLayout) (dataTdCount : Nat) (address : BitVec 8) (lowSpeedStatus : BitVec 32)
    (i offset len : Nat) (toggle : Bool) : UhciTd where
  link := if i = dataTdCount - 1 then l.statusTdPhys ||| uhciPtrDepth
    else l.dataTdPhys + BitVec.ofNat 32 ((i + 1) * sizeofTd) ||| uhciPtrDepth
  status := uhciTdActive ||| uhciTdCerr3 ||| lowSpeedStatus |||
    if i = dataTdCount - 1 then 0 else uhciTdSpd
  token := token usbPidIn address toggle len
  buffer := l.descPhys + BitVec.ofNat 32 offset

/-- The loop over the data descriptors from `i` on, `k` of them. -/
def writeDataTds (alloc : DmaRet) (l : TransferLayout) (dataTdCount maxpacketsize length : Nat)
    (address : BitVec 8) (lowSpeedStatus : BitVec 32) :
    (k i offset : Nat) → (toggle : Bool) → (Nat → BitVec 8) → Nat → BitVec 8
  | 0, _, _, _, bytes => bytes
  | k + 1, i, offset, toggle, bytes =>
    let remaining := length - offset
    let len := if remaining < maxpacketsize then remaining else maxpacketsize
    let td := dataTd l dataTdCount address lowSpeedStatus i offset len toggle
    let bytes := putWords bytes (alloc.physicalOf (l.dataTd + sizeofTd * i)) td.words
    writeDataTds alloc l dataTdCount maxpacketsize length address lowSpeedStatus k (i + 1) (offset + len)
      (!toggle) bytes

/-- `setup_td`. -/
def setupTd (l : TransferLayout) (dataTdCount : Nat) (address : BitVec 8) (lowSpeedStatus : BitVec 32) :
    UhciTd where
  link := if dataTdCount ≠ 0 then l.dataTdPhys else l.statusTdPhys
  token := token usbPidSetup address false 8
  status := uhciTdActive ||| uhciTdCerr3 ||| lowSpeedStatus
  buffer := l.setupPhys

/-- `status_td`. -/
def statusTd (statusIn : Bool) (address : BitVec 8) (lowSpeedStatus : BitVec 32) : UhciTd where
  status := uhciTdActive ||| uhciTdCerr3 ||| lowSpeedStatus
  token := token (if statusIn then usbPidIn else usbPidOut) address true 0
  buffer := 0
  link := uhciLinkTerminate

/-- What `usb_send_packet` writes to the block, in its order.  A descriptor that is cleared first is
written with the words that only software uses. -/
def writeTransfer (alloc : DmaRet) (packet : UsbSetupPacket) (maxpacketsize length : Nat)
    (address : BitVec 8) (lowSpeedStatus : BitVec 32) (bytes : Nat → BitVec 8) : Nat → BitVec 8 :=
  let dataTdCount := packetCount length maxpacketsize
  let l := transferLayout alloc dataTdCount
  let bytes := putBytes bytes (alloc.physicalOf l.setup) packet.bytes
  let bytes := putWords bytes (alloc.physicalOf l.setupTd)
    ((setupTd l dataTdCount address lowSpeedStatus).words ++ [0, 0, 0, 0])
  let bytes := writeDataTds alloc l dataTdCount maxpacketsize length address lowSpeedStatus dataTdCount 0 0
    true bytes
  let statusTd := statusTd (statusIn bytes (alloc.physicalOf l.setup)) address lowSpeedStatus
  let bytes := putWords bytes (alloc.physicalOf l.statusTd) (statusTd.words ++ [0, 0, 0, 0])
  putWords bytes (alloc.physicalOf l.qh) [uhciLinkTerminate, l.setupTdPhys, 0, 0]

/-! ## The controller -/

/-- The descriptor at an address. -/
def tdAt (bytes : Nat → BitVec 8) (a : Nat) : UhciTd :=
  ⟨load32 bytes a, load32 bytes (a + 4), load32 bytes (a + 8), load32 bytes (a + 12)⟩

/-- The packet identification of a token. -/
def pidOf (b : BitVec 8) : Option Pid :=
  if b = usbPidSetup then some .setup
  else if b = usbPidIn then some .input
  else if b = usbPidOut then some .output
  else none

/-- `uhci_max_length`. -/
def maxLength (token : BitVec 32) : BitVec 32 := (((token >>> 21) &&& 0x7FF) + 1) &&& 0x7FF

/-- What the controller makes of a descriptor. -/
def UhciTd.stage (td : UhciTd) : Option Stage :=
  (pidOf (td.token.setWidth 8)).map fun pid =>
    ⟨pid, td.token.getLsbD 19, List.range' td.buffer.toNat (maxLength td.token).toNat⟩

/-- The descriptors from a link on, with their addresses.  Bit 0 of a link ends the chain, and a link to a
queue head, with bit 1, does not occur in the chain of a transfer. -/
def followTds (bytes : Nat → BitVec 8) : (fuel : Nat) → (link : BitVec 32) → Option (List (Nat × UhciTd))
  | 0, _ => none
  | fuel + 1, link =>
    if link.getLsbD 0 then some []
    else if link.getLsbD 1 then none
    else
      let a := link.toNat / 16 * 16
      (followTds bytes fuel (tdAt bytes a).link).map ((a, tdAt bytes a) :: ·)

/-- The descriptors of a queue head. -/
def queueTds (bytes : Nat → BitVec 8) (fuel qh : Nat) : Option (List (Nat × UhciTd)) :=
  followTds bytes fuel (load32 bytes (qh + 4))

/-! ## Tokens -/

section

variable {pid address : BitVec 8} {toggle : Bool} {len : Nat}

theorem setWidth_token : (token pid address toggle len).setWidth 8 = pid := by
  apply BitVec.eq_of_getLsbD_eq
  intro i hi
  simp [token, tokenMaxlen, -BitVec.getLsbD_eq_getElem]

theorem getLsbD_token : (token pid address toggle len).getLsbD 19 = toggle := by
  simp [token, tokenMaxlen, -BitVec.getLsbD_eq_getElem]

theorem maxLength_token (hlen : len < 2 ^ 11) : (maxLength (token pid address toggle len)).toNat = len := by
  have hv : (if len = 0 then 0x7FF else len - 1) < 2 ^ 11 := by split <;> omega
  have hshift : (token pid address toggle len >>> 21) &&& 0x7FF =
      BitVec.ofNat 32 (if len = 0 then 0x7FF else len - 1) := by
    apply BitVec.eq_of_getLsbD_eq
    intro i hi
    rw [token, tokenMaxlen]
    generalize (if len = 0 then 0x7FF else len - 1) = v at hv ⊢
    have hmask : (0x7FF : BitVec 32).getLsbD i = decide (i < 11) := by
      have hall : ∀ i, i < 32 → (0x7FF : BitVec 32).getLsbD i = decide (i < 11) := by decide
      exact hall i hi
    have hbit : 11 ≤ i → v.testBit i = false := fun h =>
      Nat.testBit_lt_two_pow (Nat.lt_of_lt_of_le hv (Nat.pow_le_pow_right (by decide) h))
    simp only [BitVec.getLsbD_and, BitVec.getLsbD_ushiftRight, BitVec.getLsbD_or, BitVec.getLsbD_shiftLeft,
      BitVec.getLsbD_setWidth, BitVec.getLsbD_ofNat, BitVec.getLsbD_ofBool, hmask]
    rw [BitVec.getLsbD_of_ge pid (21 + i) (by omega), BitVec.getLsbD_of_ge address (21 + i - 8) (by omega),
      decide_eq_false (show ¬ 21 + i - 19 = 0 by omega), decide_eq_false (show ¬ 21 + i < 21 by omega),
      Nat.add_sub_cancel_left, decide_eq_true hi]
    by_cases h : i < 11
    · simp [h, show 21 + i < 32 by omega]
    · simp [h, hbit (by omega)]
  rw [maxLength, hshift, BitVec.toNat_and, BitVec.toNat_add, BitVec.toNat_ofNat]
  show (_ % 2 ^ 32 + 1) % 2 ^ 32 &&& 2 ^ 11 - 1 = _
  rw [Nat.and_two_pow_sub_one_eq_mod]
  split <;> omega

/-- A token is read as it was made. -/
theorem stage_token {td : UhciTd} {kind : Pid} (htoken : td.token = token pid address toggle len)
    (hpid : pidOf pid = some kind) (hlen : len < 2 ^ 11) :
    td.stage = some ⟨kind, toggle, List.range' td.buffer.toNat len⟩ := by
  rw [UhciTd.stage, htoken, setWidth_token, hpid, getLsbD_token, maxLength_token hlen, Option.map_some]

end

/-! ## Chains -/

section

variable {bytes : Nat → BitVec 8} {td : UhciTd} {a fuel : Nat} {link : BitVec 32}

theorem tdAt_of_hasWords (h : HasWords bytes a td.words) : tdAt bytes a = td := by
  obtain ⟨link, status, token, buffer⟩ := td
  rw [tdAt, h.load32, h.tail.load32, h.tail.tail.load32, h.tail.tail.tail.load32]

theorem followTds_terminate : followTds bytes (fuel + 1) uhciLinkTerminate = some [] :=
  if_pos (by decide)

/-- The controller follows a link to a descriptor. -/
theorem followTds_cons (h : HasWords bytes a td.words) (hlink : link.toNat = a ∨ link.toNat = a + 4)
    (halign : 16 ∣ a) :
    followTds bytes (fuel + 1) link = (followTds bytes fuel td.link).map ((a, td) :: ·) := by
  obtain ⟨q, rfl⟩ := halign
  have hbits : link.getLsbD 0 = false ∧ link.getLsbD 1 = false := by
    rw [← BitVec.testBit_toNat, ← BitVec.testBit_toNat]
    constructor
    · rw [Nat.testBit_zero]
      simp
      omega
    · rw [Nat.testBit_succ, Nat.testBit_zero]
      simp
      omega
  have ha : link.toNat / 16 * 16 = 16 * q := by omega
  rw [followTds, hbits.1, hbits.2, if_neg (by decide), if_neg (by decide)]
  simp only
  rw [ha, tdAt_of_hasWords h]

end

/-! ## The chain of a transfer -/

section

variable {alloc : DmaRet} {n maxpacketsize length : Nat} {address : BitVec 8} {lowSpeedStatus : BitVec 32}
  {bytes : Nat → BitVec 8} {packet : UsbSetupPacket}

/-- `data_td[j]` as the loop leaves it. -/
def dataTdOf (l : TransferLayout) (n maxpacketsize length : Nat) (address : BitVec 8)
    (lowSpeedStatus : BitVec 32) (j : Nat) : UhciTd :=
  dataTd l n address lowSpeedStatus j (maxpacketsize * j) (packetLength length maxpacketsize j)
    (decide (j % 2 = 0))

theorem physicalOf_dataTd (j : Nat) : alloc.physicalOf ((transferLayout alloc n).dataTd + sizeofTd * j) =
    alloc.physicalAddress + 48 + 32 * j := by
  simp only [transferLayout, sizeofTd, sizeofQh, DmaRet.physicalOf]
  omega

/-- **The loop writes every data descriptor, and nothing else.** -/
theorem writeDataTds_spec {l : TransferLayout} {d : Nat} (hn : n = packetCount length maxpacketsize)
    (hl : ∀ j, alloc.physicalOf (l.dataTd + sizeofTd * j) = d + 32 * j) {k i offset : Nat}
    (hi : i + k = n) (hoffset : k = 0 ∨ offset = maxpacketsize * i) :
    let bytes' := writeDataTds alloc l n maxpacketsize length address lowSpeedStatus k i offset
      (decide (i % 2 = 0)) bytes
    (∀ j, i ≤ j → j < n → HasWords bytes' (d + 32 * j)
      (dataTdOf l n maxpacketsize length address lowSpeedStatus j).words) ∧
    ∀ x, x < d + 32 * i ∨ d + 32 * n ≤ x → bytes' x = bytes x := by
  induction k generalizing i offset bytes with
  | zero => exact ⟨fun j h1 h2 => by omega, fun x _ => rfl⟩
  | succ k ih =>
    have hoff : offset = maxpacketsize * i := by omega
    subst hoff
    have hlen : (if length - maxpacketsize * i < maxpacketsize then length - maxpacketsize * i
        else maxpacketsize) = packetLength length maxpacketsize i := by
      rw [packetLength]
      split <;> omega
    have htoggle : (!decide (i % 2 = 0)) = decide ((i + 1) % 2 = 0) := by
      rw [← decide_not, decide_eq_decide]
      omega
    have hnext : k = 0 ∨ maxpacketsize * i + packetLength length maxpacketsize i =
        maxpacketsize * (i + 1) := by
      rcases Nat.eq_zero_or_pos k with hk | hk
      · exact .inl hk
      · exact .inr (by rw [packetLength_of_succ_lt (by omega), Nat.mul_succ])
    obtain ⟨hhas, hsame⟩ := @ih (putWords bytes (d + 32 * i)
      (dataTdOf l n maxpacketsize length address lowSpeedStatus i).words) (i + 1) _ (by omega) hnext
    rw [writeDataTds, hlen, htoggle, hl]
    refine ⟨fun j h1 h2 => ?_, fun x hx => ?_⟩
    · rcases Nat.eq_or_lt_of_le h1 with rfl | h1
      · refine hasWords_putWords.congr fun x hx1 hx2 => hsame x (.inl ?_)
        have h16 : 4 * (dataTdOf l n maxpacketsize length address lowSpeedStatus i).words.length = 16 := rfl
        omega
      · exact hhas j h1 h2
    · refine (hsame x (by omega)).trans (sameOn_putWords (n := 1) ?_ x (le_refl x) (Nat.lt_succ_self x))
      show _ ∨ _ + 16 ≤ _
      omega

/-- The block of a transfer with `n` data descriptors. -/
structure InMemory (alloc : DmaRet) (packet : UsbSetupPacket) (maxpacketsize length : Nat)
    (address : BitVec 8) (lowSpeedStatus : BitVec 32) (n : Nat) (bytes : Nat → BitVec 8) : Prop where
  /-- The queue head. -/
  qh : HasWords bytes alloc.physicalAddress [uhciLinkTerminate, (transferLayout alloc n).setupTdPhys, 0, 0]
  /-- The SETUP descriptor. -/
  setup : HasWords bytes (alloc.physicalAddress + 16)
    (setupTd (transferLayout alloc n) n address lowSpeedStatus).words
  /-- The data descriptors. -/
  data : ∀ j, j < n → HasWords bytes (alloc.physicalAddress + 48 + 32 * j)
    (dataTdOf (transferLayout alloc n) n maxpacketsize length address lowSpeedStatus j).words
  /-- The status descriptor. -/
  status : HasWords bytes (alloc.physicalAddress + 48 + 32 * n)
    (statusTd (decide (length = 0)) address lowSpeedStatus).words
  /-- The setup packet. -/
  packet : HasBytes bytes (alloc.physicalAddress + 80 + 32 * n) packet.bytes

variable (alloc address lowSpeedStatus bytes) in
/-- **The block holds the transfer**, and nothing else is written. -/
theorem writeTransfer_spec (hr : rejects packet maxpacketsize length = false)
    (hn : n = packetCount length maxpacketsize) :
    let bytes' := writeTransfer alloc packet maxpacketsize length address lowSpeedStatus bytes
    InMemory alloc packet maxpacketsize length address lowSpeedStatus n bytes' ∧
    ∀ x, x < alloc.physicalAddress ∨ alloc.physicalAddress + 88 + 32 * n ≤ x → bytes' x = bytes x := by
  have hsetup : alloc.physicalOf (transferLayout alloc n).setup = alloc.physicalAddress + 80 + 32 * n := by
    simp only [transferLayout, sizeofTd, sizeofQh, DmaRet.physicalOf]
    omega
  have hsetupTd : alloc.physicalOf (transferLayout alloc n).setupTd = alloc.physicalAddress + 16 :=
    alloc.physicalOf_add 16
  have hstatusTd : alloc.physicalOf (transferLayout alloc n).statusTd =
      alloc.physicalAddress + 48 + 32 * n := by
    simp only [transferLayout, sizeofTd, sizeofQh, DmaRet.physicalOf]
    omega
  have hqh : alloc.physicalOf (transferLayout alloc n).qh = alloc.physicalAddress :=
    alloc.physicalOf_add 0
  simp only [writeTransfer]
  rw [← hn, hsetup, hsetupTd, hstatusTd, hqh]
  generalize hl : transferLayout alloc n = l
  generalize hp : alloc.physicalAddress = p
  generalize hb1 : putBytes bytes (p + 80 + 32 * n) packet.bytes = bytes1
  generalize hb2 : putWords bytes1 (p + 16) ((setupTd l n address lowSpeedStatus).words ++ [0, 0, 0, 0]) =
    bytes2
  obtain ⟨hdata, hkeep⟩ := @writeDataTds_spec alloc n maxpacketsize length address lowSpeedStatus bytes2
    l (p + 48) hn (fun j => by rw [← hl, ← hp]; exact physicalOf_dataTd j) _ _ _ (Nat.zero_add n) (.inr (Nat.mul_zero _).symm)
  rw [show decide (0 % 2 = 0) = true from rfl] at hdata hkeep
  generalize hb3 : writeDataTds alloc l n maxpacketsize length address lowSpeedStatus n 0 0 true bytes2 =
    bytes3 at hdata hkeep
  -- each store leaves the places of the others alone
  have h12 : ∀ a k, a + k ≤ p + 16 ∨ p + 48 ≤ a → SameOn bytes1 bytes2 a k :=
    fun a k h => hb2 ▸ sameOn_putWords h
  have h23 : ∀ a k, a + k ≤ p + 48 ∨ p + 48 + 32 * n ≤ a → SameOn bytes2 bytes3 a k :=
    fun a k h x h1 h2 => hkeep x (by omega)
  have hpacket : HasBytes bytes3 (p + 80 + 32 * n) packet.bytes := by
    have h1 : HasBytes bytes1 (p + 80 + 32 * n) packet.bytes := hb1 ▸ hasBytes_putBytes
    exact (h1.congr (h12 _ _ (by omega))).congr (h23 _ _ (by omega))
  rw [statusIn_eq hpacket hr]
  generalize hb4 : putWords bytes3 (p + 48 + 32 * n)
    ((statusTd (decide (length = 0)) address lowSpeedStatus).words ++ [0, 0, 0, 0]) = bytes4
  generalize hb5 : putWords bytes4 p [uhciLinkTerminate, l.setupTdPhys, 0, 0] = bytes5
  have h34 : ∀ a k, a + k ≤ p + 48 + 32 * n ∨ p + 80 + 32 * n ≤ a → SameOn bytes3 bytes4 a k :=
    fun a k h => hb4 ▸ sameOn_putWords (by show _ ∨ _ + 32 ≤ _; omega)
  have h45 : ∀ a k, a + k ≤ p ∨ p + 16 ≤ a → SameOn bytes4 bytes5 a k :=
    fun a k h => hb5 ▸ sameOn_putWords h
  constructor
  · constructor
    · rw [hp, hl, ← hb5]
      exact hasWords_putWords
    · rw [hp, hl]
      have h2 : HasWords bytes2 (p + 16) (setupTd l n address lowSpeedStatus).words := by
        have hall := hb2 ▸ @hasWords_putWords bytes1 _ _
        exact hasWords_left hall
      exact ((h2.congr (h23 _ _ (by show p + 16 + 16 ≤ _ ∨ _; omega))).congr
        (h34 _ _ (by show p + 16 + 16 ≤ _ ∨ _; omega))).congr (h45 _ _ (by omega))
    · intro j hj
      rw [hp, hl]
      exact ((hdata j (Nat.zero_le j) hj).congr (h34 _ _ (by show _ + 16 ≤ _ ∨ _; omega))).congr
        (h45 _ _ (by omega))
    · rw [hp]
      have h4 : HasWords bytes4 (p + 48 + 32 * n)
          (statusTd (decide (length = 0)) address lowSpeedStatus).words := by
        have hall := hb4 ▸ @hasWords_putWords bytes3 _ _
        exact hasWords_left hall
      exact h4.congr (h45 _ _ (by omega))
    · rw [hp]
      exact (hpacket.congr (h34 _ _ (by omega))).congr (h45 _ _ (by omega))
  · intro x hx
    have hx1 : bytes1 x = bytes x :=
      hb1 ▸ sameOn_putBytes (n := 1) (by rw [length_bytes]; omega) x (le_refl x) (Nat.lt_succ_self x)
    rw [h45 x 1 (by omega) x (le_refl x) (Nat.lt_succ_self x),
      h34 x 1 (by omega) x (le_refl x) (Nat.lt_succ_self x),
      h23 x 1 (by omega) x (le_refl x) (Nat.lt_succ_self x),
      h12 x 1 (by omega) x (le_refl x) (Nat.lt_succ_self x), hx1]

/-- What the physical addresses come to, if nothing wraps around. -/
theorem transferLayout_toNat (hfit : alloc.physicalAddress + 88 + 32 * n + length ≤ 2 ^ 32) :
    let l := transferLayout alloc n
    l.setupTdPhys.toNat = alloc.physicalAddress + 16 ∧ l.dataTdPhys.toNat = alloc.physicalAddress + 48 ∧
    l.statusTdPhys.toNat = alloc.physicalAddress + 48 + 32 * n ∧
    l.setupPhys.toNat = alloc.physicalAddress + 80 + 32 * n ∧
    ∀ k, k < length → (l.descPhys + BitVec.ofNat 32 k).toNat = alloc.physicalAddress + 88 + 32 * n + k := by
  have h8 : (8 : BitVec 32).toNat = 8 := rfl
  simp only [transferLayout, sizeofTd, sizeofQh, BitVec.toNat_add, BitVec.toNat_ofNat, h8]
  refine ⟨by omega, by omega, by omega, by omega, fun k hk => ?_⟩
  omega

/-- The data descriptors and the status descriptor, from a data descriptor on. -/
theorem InMemory.followTds {l : TransferLayout} (hl : transferLayout alloc n = l)
    (h : InMemory alloc packet maxpacketsize length address lowSpeedStatus n bytes)
    (halign : 16 ∣ alloc.physicalAddress)
    (hfit : alloc.physicalAddress + 88 + 32 * n + length ≤ 2 ^ 32) {k j : Nat} (hj : j + k = n)
    {link : BitVec 32} (hlink : link.toNat = alloc.physicalAddress + 48 + 32 * j ∨
      link.toNat = alloc.physicalAddress + 48 + 32 * j + 4) :
    followTds bytes (k + 2) link = some ((List.range' j k).map (fun i =>
      (alloc.physicalAddress + 48 + 32 * i,
        dataTdOf l n maxpacketsize length address lowSpeedStatus i)) ++
      [(alloc.physicalAddress + 48 + 32 * n, statusTd (decide (length = 0)) address lowSpeedStatus)]) := by
  obtain ⟨-, hdataPhys, hstatusPhys, -, -⟩ := transferLayout_toNat hfit
  rw [hl] at hdataPhys hstatusPhys
  induction k generalizing j link with
  | zero =>
    have hjn : j = n := hj
    rw [hjn] at hlink
    rw [followTds_cons h.status hlink (by omega)]
    exact congrArg (Option.map _) followTds_terminate
  | succ k ih =>
    have hdata := h.data j (by omega)
    rw [hl] at hdata
    rw [followTds_cons hdata hlink (by omega), ih (j := j + 1) (by omega) (.inr ?_), Option.map_some,
      List.range'_succ, List.map_cons, List.cons_append]
    -- the link goes to the next descriptor, which is the status descriptor behind the last packet
    rw [dataTdOf, dataTd]
    simp only
    split
    · rw [toNat_or_flags 3 (by rw [hstatusPhys]; omega) (by decide), hstatusPhys]
      show _ + 4 = _
      omega
    · have hadd : (l.dataTdPhys + BitVec.ofNat 32 ((j + 1) * sizeofTd)).toNat =
          alloc.physicalAddress + 48 + 32 * (j + 1) := by
        rw [BitVec.toNat_add, hdataPhys, BitVec.toNat_ofNat, sizeofTd]
        omega
      rw [toNat_or_flags 3 (by rw [hadd]; omega) (by decide), hadd]
      rfl

/-- **What the controller finds behind the queue head.** -/
theorem InMemory.queueTds {l : TransferLayout} (hl : transferLayout alloc n = l)
    (h : InMemory alloc packet maxpacketsize length address lowSpeedStatus n bytes)
    (halign : 16 ∣ alloc.physicalAddress)
    (hfit : alloc.physicalAddress + 88 + 32 * n + length ≤ 2 ^ 32) :
    queueTds bytes (n + 3) alloc.physicalAddress = some
      ((alloc.physicalAddress + 16, setupTd l n address lowSpeedStatus) ::
        ((List.range n).map (fun i => (alloc.physicalAddress + 48 + 32 * i,
          dataTdOf l n maxpacketsize length address lowSpeedStatus i)) ++
        [(alloc.physicalAddress + 48 + 32 * n, statusTd (decide (length = 0)) address lowSpeedStatus)])) := by
  obtain ⟨hsetupPhys, hdataPhys, hstatusPhys, -, -⟩ := transferLayout_toNat hfit
  have hqh := h.qh
  have hsetup := h.setup
  rw [hl] at hsetupPhys hdataPhys hstatusPhys hqh hsetup
  rw [Uhci.queueTds, hqh.tail.load32, followTds_cons hsetup (.inl hsetupPhys) (by omega),
    h.followTds hl halign hfit (j := 0) (Nat.zero_add n) ?_, Option.map_some, List.range_eq_range']
  rw [setupTd]
  simp only
  split
  · exact .inl hdataPhys
  · rename_i hn
    left
    rw [hstatusPhys]
    omega

/-- What the controller makes of it. -/
theorem stages_eq {l : TransferLayout} (hl : transferLayout alloc n = l)
    (hmps : maxpacketsize < 2 ^ 11) (hn : n = packetCount length maxpacketsize)
    (hfit : alloc.physicalAddress + 88 + 32 * n + length ≤ 2 ^ 32) :
    (((alloc.physicalAddress + 16, setupTd l n address lowSpeedStatus) ::
        ((List.range n).map (fun i => (alloc.physicalAddress + 48 + 32 * i,
          dataTdOf l n maxpacketsize length address lowSpeedStatus i)) ++
        [(alloc.physicalAddress + 48 + 32 * n,
          statusTd (decide (length = 0)) address lowSpeedStatus)])).map fun t => t.2.stage) =
      (⟨.setup, false, List.range' (alloc.physicalAddress + 80 + 32 * n) 8⟩ ::
        (packetStages (alloc.physicalAddress + 88 + 32 * n) length maxpacketsize ++
        [⟨if length = 0 then .input else .output, true, []⟩])).map some := by
  obtain ⟨-, -, -, hsetupPhys, hdesc⟩ := transferLayout_toNat hfit
  rw [hl] at hsetupPhys hdesc
  rw [List.map_cons, List.map_append, List.map_map, List.map_cons, List.map_nil, List.map_cons,
    List.map_append, List.map_cons, List.map_nil, packetStages, List.map_map, ← hn]
  congr 1
  · rw [stage_token rfl rfl (by decide)]
    show some (Stage.mk _ _ (List.range' l.setupPhys.toNat 8)) = _
    rw [hsetupPhys]
  · congr 1
    · apply List.map_congr_left
      intro j hj
      rw [List.mem_range, hn] at hj
      have hlt := lt_of_lt_packetCount hj
      have hle : packetLength length maxpacketsize j ≤ maxpacketsize := Nat.min_le_right _ _
      simp only [Function.comp_apply]
      rw [stage_token rfl rfl (by omega)]
      show some (Stage.mk _ _ (List.range' (l.descPhys + BitVec.ofNat 32 (maxpacketsize * j)).toNat _)) = _
      rw [hdesc _ hlt]
    · by_cases h0 : length = 0
      · rw [decide_eq_true h0, if_pos h0, stage_token rfl (show _ = some Pid.input from rfl) (by decide)]
        rfl
      · rw [decide_eq_false h0, if_neg h0, stage_token rfl (show _ = some Pid.output from rfl) (by decide)]
        rfl

/-- **The descriptors of a transfer.**  The controller finds the transfer that was asked for, and nothing is
out of its place. -/
theorem controlChain (bytes : Nat → BitVec 8) (address : BitVec 8) (lowSpeedStatus : BitVec 32)
    (hr : rejects packet maxpacketsize length = false) (hmps : maxpacketsize < 2 ^ 11)
    (hn : n = packetCount length maxpacketsize) (halign : 16 ∣ alloc.physicalAddress)
    (hfit : alloc.physicalAddress + transferSize n length ≤ 2 ^ 32) :
    let memory := writeTransfer alloc packet maxpacketsize length address lowSpeedStatus bytes
    let setup := alloc.physicalOf (transferLayout alloc n).setup
    ∃ fuel tds stages, Uhci.queueTds memory fuel alloc.physicalAddress = some tds ∧
      tds.map (fun t => t.2.stage) = stages.map some ∧
      ControlStages memory packet setup (setup + 8) length maxpacketsize stages ∧
      Placement 16 ⟨alloc.physicalAddress, transferSize n length⟩
        (⟨alloc.physicalAddress, sizeofQh⟩ :: tds.map fun t => ⟨t.1, sizeofTd⟩)
        [⟨setup, 8⟩, ⟨setup + 8, length⟩] := by
  have hsetup : alloc.physicalOf (transferLayout alloc n).setup = alloc.physicalAddress + 80 + 32 * n := by
    simp only [transferLayout, sizeofTd, sizeofQh, DmaRet.physicalOf]
    omega
  have hsize : transferSize n length = 88 + 32 * n + length := by
    rw [transferSize, sizeofTd, sizeofQh]
    omega
  obtain ⟨hmem, -⟩ := writeTransfer_spec alloc address lowSpeedStatus bytes hr hn
  simp only
  rw [hsetup]
  refine ⟨n + 3, _, _, hmem.queueTds rfl halign (by omega), stages_eq rfl hmps hn (by omega), ?_, ?_⟩
  · rw [show alloc.physicalAddress + 80 + 32 * n + 8 = alloc.physicalAddress + 88 + 32 * n by omega]
    exact controlStages_packets (rejects_eq_false hr).1 hmem.packet
  · have hsum : (16 :: 32 :: (List.replicate n 32 ++ [32, 8, length])).sum = transferSize n length := by
      simp [hsize]
      omega
    rw [← hsum]
    apply Placement.of_row
    · simp only [Span.row, Span.row_append, Span.row_replicate, List.sum_replicate, List.map_cons,
        List.map_append, List.map_map, List.map_nil, List.cons_append, List.append_assoc, List.nil_append,
        sizeofQh, sizeofTd, Nat.nsmul_eq_mul]
      simp only [Nat.mul_comm n 32, show alloc.physicalAddress + 16 + 32 = alloc.physicalAddress + 48 from rfl,
        show alloc.physicalAddress + 48 + 32 * n + 32 = alloc.physicalAddress + 80 + 32 * n by omega]
      rfl
    · intro s hs
      simp only [List.map_cons, List.map_append, List.map_map, List.map_nil, List.mem_cons,
        List.mem_append, List.mem_map, List.not_mem_nil, or_false] at hs
      rcases hs with rfl | rfl | ⟨j, -, rfl⟩ | rfl
      · exact halign
      · simp only
        omega
      · simp only [Function.comp_apply]
        omega
      · simp only
        omega

end

end Dem64.Uhci
