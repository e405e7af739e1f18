import Dem64.Host.Control

/-!
# The descriptors of an EHCI transfer

The block of a transfer has a queue head, two or three transfer descriptors, the setup packet and the room
for the answer.  One descriptor describes the whole data stage, and names the pages of its buffer one by
one: the controller counts through the bytes of the first page and goes on at the start of the next
(`Qtd.byteAddress`).

The first word of a queue head is its link in the asynchronous schedule.  It belongs to the schedule and
not to the transfer; the block has the zero there that the driver writes first.
-/

set_option autoImplicit false

namespace Dem64.Ehci

open ByteMemory

/-- `ehci_qtd`, less `extended_buffer`, which stays zero. -/
structure EhciQtd where
  /-- `next_qtd`. -/
  nextQtd : BitVec 32
  /-- `alternate_next_qtd`. -/
  alternateNextQtd : BitVec 32
  /-- `token`. -/
  token : BitVec 32
  /-- `buffer[0]`. -/
  buffer0 : BitVec 32 := 0
  /-- `buffer[1]`.  The other three stay zero. -/
  buffer1 : BitVec 32 := 0
deriving DecidableEq, Repr

/-- The words of a descriptor that may be set. -/
def EhciQtd.words (qtd : EhciQtd) : List (BitVec 32) :=
  [qtd.nextQtd, qtd.alternateNextQtd, qtd.token, qtd.buffer0, qtd.buffer1]

/-- The words of a descriptor that was cleared before. -/
def EhciQtd.allWords (qtd : EhciQtd) : List (BitVec 32) := qtd.words ++ List.replicate 11 0

/-- `EHCI_LINK_TERMINATE`. -/
def ehciLinkTerminate : BitVec 32 := 1
/-- `EHCI_QTD_PID_OUT`, before the shift. -/
def ehciPidOut : BitVec 2 := 0
/-- `EHCI_QTD_PID_IN`, before the shift. -/
def ehciPidIn : BitVec 2 := 1
/-- `EHCI_QTD_PID_SETUP`, before the shift. -/
def ehciPidSetup : BitVec 2 := 2
/-- `EHCI_QTD_ACTIVE`. -/
def ehciQtdActive : BitVec 32 := 1#32 <<< 7
/-- `sizeof(ehci_qh)`. -/
def sizeofQh : Nat := 96
/-- `sizeof(ehci_qtd)`. -/
def sizeofQtd : Nat := 64

/-- `EHCI_QTD_TOGGLE`, if the toggle is set, `EHCI_QTD_BYTES(bytes)`, `EHCI_QTD_CERR(3)`, the PID and
`EHCI_QTD_ACTIVE`. -/
def qtdToken (toggle : Bool) (bytes : Nat) (pid : BitVec 2) : BitVec 32 :=
  (BitVec.ofBool toggle).setWidth 32 <<< 31 ||| BitVec.ofNat 32 bytes <<< 16 ||| 3#32 <<< 10 |||
    pid.setWidth 32 <<< 8 ||| ehciQtdActive

/-- `endpoint_characteristics`: `EHCI_QH_RL(4)`, `EHCI_QH_ADDR`, `EHCI_QH_SPEED(EHCI_SPEED_HIGH)`,
`EHCI_QH_DTC` and `EHCI_QH_MPS`. -/
def qhCharacteristics (address : BitVec 8) (maxpacketsize : Nat) : BitVec 32 :=
  4#32 <<< 28 ||| (address &&& 0x7F).setWidth 32 ||| 2#32 <<< 12 ||| 1#32 <<< 14 |||
    (BitVec.ofNat 32 maxpacketsize &&& 0x7FF) <<< 16

/-! ## The driver -/

/-- Where `usb_send_packet` puts things: the physical addresses, and the pointers. -/
structure TransferLayout where
  /-- `qh_phys`. -/
  qhPhys : BitVec 32
  /-- `setup_td_phys`. -/
  setupTdPhys : BitVec 32
  /-- `data_td_phys`, where there is one. -/
  dataTdPhys : BitVec 32
  /-- `status_td_phys`. -/
  statusTdPhys : BitVec 32
  /-- `setup_phys`. -/
  setupPhys : BitVec 32
  /-- `data_phys`. -/
  dataPhys : BitVec 32
  /-- `qh`. -/
  qh : Nat
  /-- `setup_qtd`. -/
  setupQtd : Nat
  /-- `data_qtd`, where there is one. -/
  dataQtd : Nat
  /-- `status_qtd`. -/
  statusQtd : Nat
  /-- `setup`. -/
  setup : Nat

/-- The addresses in a block. -/
def transferLayout (alloc : DmaRet) (length : Nat) : TransferLayout :=
  let qhPhys := BitVec.ofNat 32 alloc.physicalAddress
  let setupTdPhys := qhPhys + BitVec.ofNat 32 sizeofQh
  let dataTdPhys := if length > 0 then setupTdPhys + BitVec.ofNat 32 sizeofQtd else 0
  let statusTdPhys := if length > 0 then dataTdPhys + BitVec.ofNat 32 sizeofQtd
    else setupTdPhys + BitVec.ofNat 32 sizeofQtd
  let setupPhys := statusTdPhys + BitVec.ofNat 32 sizeofQtd
  let qh := alloc.virtualAddress
  let setupQtd := qh + sizeofQh
  let dataQtd := setupQtd + sizeofQtd
  let statusQtd := if length > 0 then dataQtd + sizeofQtd else setupQtd + sizeofQtd
  { qhPhys, setupTdPhys, dataTdPhys, statusTdPhys, setupPhys
    dataPhys := setupPhys + 8
    qh, setupQtd, dataQtd, statusQtd
    setup := statusQtd + sizeofQtd }

/-- `size`. -/
def transferSize (length : Nat) : Nat :=
  sizeofQh + sizeofQtd * (if length > 0 then 3 else 2) + length + 8

/-- `setup_qtd`. -/
def setupQtd (l : TransferLayout) (length : Nat) : EhciQtd where
  nextQtd := if length ≠ 0 then l.dataTdPhys else l.statusTdPhys
  alternateNextQtd := ehciLinkTerminate
  token := qtdToken false 8 ehciPidSetup
  buffer0 := l.setupPhys

/-- `data_qtd`. -/
def dataQtd (l : TransferLayout) (length : Nat) (dataIn : Bool) : EhciQtd where
  nextQtd := l.statusTdPhys
  alternateNextQtd := if dataIn then l.statusTdPhys else ehciLinkTerminate
  token := qtdToken true length (if dataIn then ehciPidIn else ehciPidOut)
  buffer0 := l.dataPhys
  buffer1 :=
    let bytesToPageEnd := 4096 - (l.dataPhys &&& 4095)
    if length > bytesToPageEnd.toNat then (l.dataPhys + 4095) &&& ~~~4095#32 else 0

/-- `status_qtd`. -/
def statusQtd (statusIn : Bool) : EhciQtd where
  nextQtd := ehciLinkTerminate
  alternateNextQtd := ehciLinkTerminate
  token := qtdToken true 0 (if statusIn then ehciPidIn else ehciPidOut)

/-- The words of `qh`, with zero for `horizontal_link`. -/
def qhWords (l : TransferLayout) (address : BitVec 8) (maxpacketsize : Nat) : List (BitVec 32) :=
  [0, qhCharacteristics address maxpacketsize, 0, 0, l.setupTdPhys, ehciLinkTerminate] ++
    List.replicate 18 0

/-- What `usb_send_packet` writes to the block, in its order. -/
def writeTransfer (alloc : DmaRet) (packet : UsbSetupPacket) (maxpacketsize length : Nat)
    (address : BitVec 8) (bytes : Nat → BitVec 8) : Nat → BitVec 8 :=
  let l := transferLayout alloc length
  let bytes := putBytes bytes (alloc.physicalOf l.setup) packet.bytes
  let bytes := putWords bytes (alloc.physicalOf l.setupQtd) (setupQtd l length).allWords
  let dataIn := bytes (alloc.physicalOf l.setup) &&& 0x80 != 0
  let bytes := if length > 0 then
      putWords bytes (alloc.physicalOf l.dataQtd) (dataQtd l length dataIn).allWords
    else bytes
  let bytes := putWords bytes (alloc.physicalOf l.statusQtd)
    (statusQtd (statusIn bytes (alloc.physicalOf l.setup))).allWords
  putWords bytes (alloc.physicalOf l.qh) (qhWords l address maxpacketsize)

/-! ## The controller -/

/-- The descriptor at an address, with all its buffer pointers. -/
structure Qtd where
  /-- `next_qtd`. -/
  nextQtd : BitVec 32
  /-- `token`. -/
  token : BitVec 32
  /-- `buffer`. -/
  buffer : Nat → BitVec 32

/-- The descriptor at an address. -/
def qtdAt (bytes : Nat → BitVec 8) (a : Nat) : Qtd where
  nextQtd := load32 bytes a
  token := load32 bytes (a + 8)
  buffer c := load32 bytes (a + 12 + 4 * c)

/-- Where byte `k` of a transfer goes: the first pointer has the offset in its page, the others only their
page. -/
def Qtd.byteAddress (qtd : Qtd) (k : Nat) : Nat :=
  let offset := (qtd.buffer 0).toNat % 4096 + k
  (qtd.buffer (offset / 4096)).toNat / 4096 * 4096 + offset % 4096

/-- The PID of a token. -/
def pidOf (b : BitVec 2) : Option Pid :=
  if b = ehciPidOut then some .output
  else if b = ehciPidIn then some .input
  else if b = ehciPidSetup then some .setup
  else none

/-- What the controller makes of a descriptor. -/
def Qtd.stage (qtd : Qtd) : Option Stage :=
  (pidOf (qtd.token.extractLsb' 8 2)).map fun pid =>
    ⟨pid, qtd.token.getLsbD 31, (List.range (qtd.token.extractLsb' 16 15).toNat).map qtd.byteAddress⟩

/-- The descriptors from a link on, with their addresses. -/
def followQtds (bytes : Nat → BitVec 8) : (fuel : Nat) → (link : BitVec 32) → Option (List (Nat × Qtd))
  | 0, _ => none
  | fuel + 1, link =>
    if link.getLsbD 0 then some []
    else
      let a := link.toNat / 32 * 32
      (followQtds bytes fuel (qtdAt bytes a).nextQtd).map ((a, qtdAt bytes a) :: ·)

/-- The descriptors of a queue head. -/
def queueQtds (bytes : Nat → BitVec 8) (fuel qh : Nat) : Option (List (Nat × Qtd)) :=
  followQtds bytes fuel (load32 bytes (qh + 16))

/-! ## Tokens and pages -/

section

variable {toggle : Bool} {n : Nat} {pid : BitVec 2}

theorem extractLsb'_token_pid : (qtdToken toggle n pid).extractLsb' 8 2 = pid := by
  apply BitVec.eq_of_getLsbD_eq
  intro i hi
  have hall : ∀ i, i < 2 → (3#32 <<< 10).getLsbD (8 + i) = false ∧ (1#32 <<< 7).getLsbD (8 + i) = false := by
    decide
  rw [BitVec.getLsbD_extractLsb', qtdToken, ehciQtdActive]
  simp only [BitVec.getLsbD_or, hall i hi]
  simp only [BitVec.getLsbD_shiftLeft, BitVec.getLsbD_setWidth, BitVec.getLsbD_ofNat]
  simp [hi, show 8 + i < 31 by omega, show 8 + i < 16 by omega, show 8 + i < 32 by omega,
    show i < 32 by omega, -BitVec.getLsbD_eq_getElem]

theorem getLsbD_token (hn : n < 2 ^ 15) : (qtdToken toggle n pid).getLsbD 31 = toggle := by
  have hbit : (BitVec.ofNat 32 n).getLsbD 15 = false := by
    rw [BitVec.getLsbD_ofNat, Nat.testBit_lt_two_pow hn, Bool.and_false]
  simp [qtdToken, ehciQtdActive, -BitVec.getLsbD_eq_getElem, hbit]

theorem extractLsb'_token_bytes (hn : n < 2 ^ 15) : ((qtdToken toggle n pid).extractLsb' 16 15).toNat = n := by
  have h : (qtdToken toggle n pid).extractLsb' 16 15 = BitVec.ofNat 15 n := by
    apply BitVec.eq_of_getLsbD_eq
    intro i hi
    have hall : ∀ i, i < 15 → (3#32 <<< 10).getLsbD (16 + i) = false ∧
        (1#32 <<< 7).getLsbD (16 + i) = false := by
      decide
    rw [BitVec.getLsbD_extractLsb', qtdToken, ehciQtdActive]
    simp only [BitVec.getLsbD_or, hall i hi]
    simp only [BitVec.getLsbD_shiftLeft, BitVec.getLsbD_setWidth, BitVec.getLsbD_ofNat]
    rw [BitVec.getLsbD_of_ge pid (16 + i - 8) (by omega), decide_eq_true (show 16 + i < 31 by omega)]
    simp [hi, show 16 + i < 32 by omega, show i < 32 by omega]
  rw [h, BitVec.toNat_ofNat, Nat.mod_eq_of_lt hn]

/-- A token is read as it was made. -/
theorem stage_token {qtd : Qtd} {kind : Pid} (htoken : qtd.token = qtdToken toggle n pid)
    (hpid : pidOf pid = some kind) (hn : n < 2 ^ 15) {a : Nat}
    (hbytes : ∀ k, k < n → qtd.byteAddress k = a + k) :
    qtd.stage = some ⟨kind, toggle, List.range' a n⟩ := by
  rw [Qtd.stage, htoken, extractLsb'_token_pid, hpid, getLsbD_token hn, extractLsb'_token_bytes hn,
    Option.map_some, List.range'_eq_map_range]
  congr 2
  apply List.map_congr_left
  intro k hk
  exact hbytes k (List.mem_range.mp hk)

theorem toNat_and_page (x : BitVec 32) : (x &&& ~~~4095#32).toNat = x.toNat / 4096 * 4096 := by
  have h : x &&& ~~~4095#32 = x >>> 12 <<< 12 := by
    apply BitVec.eq_of_getLsbD_eq
    intro i hi
    have hall : ∀ i, i < 32 → (~~~4095#32).getLsbD i = decide (12 ≤ i) := by decide
    rw [BitVec.getLsbD_and, hall i hi, BitVec.getLsbD_shiftLeft, BitVec.getLsbD_ushiftRight]
    by_cases h : 12 ≤ i
    · simp [hi, h, show ¬ i < 12 by omega]
    · simp [h, show i < 12 by omega]
  have hlt := x.isLt
  rw [h, BitVec.toNat_shiftLeft, BitVec.toNat_ushiftRight, Nat.shiftRight_eq_div_pow, Nat.shiftLeft_eq]
  omega

theorem toNat_and_offset (x : BitVec 32) : (x &&& 4095).toNat = x.toNat % 4096 := by
  rw [BitVec.toNat_and]
  exact Nat.and_two_pow_sub_one_eq_mod x.toNat 12

end

/-! ## Chains -/

section

variable {bytes : Nat → BitVec 8} {qtd : EhciQtd} {a fuel : Nat} {link : BitVec 32}

/-- What a descriptor in memory tells the controller. -/
theorem qtdAt_of_hasWords (h : HasWords bytes a qtd.words) : (qtdAt bytes a).nextQtd = qtd.nextQtd ∧
    (qtdAt bytes a).token = qtd.token ∧ (qtdAt bytes a).buffer 0 = qtd.buffer0 ∧
    (qtdAt bytes a).buffer 1 = qtd.buffer1 :=
  ⟨h.load32, h.tail.tail.load32, h.tail.tail.tail.load32, h.tail.tail.tail.tail.load32⟩

theorem followQtds_terminate : followQtds bytes (fuel + 1) ehciLinkTerminate = some [] :=
  if_pos (by decide)

/-- The controller follows a link to a descriptor. -/
theorem followQtds_cons (hlink : link.toNat = a) (halign : 32 ∣ a) :
    followQtds bytes (fuel + 1) link =
      (followQtds bytes fuel (qtdAt bytes a).nextQtd).map ((a, qtdAt bytes a) :: ·) := by
  obtain ⟨q, rfl⟩ := halign
  have hbit : link.getLsbD 0 = false := by
    rw [← BitVec.testBit_toNat, Nat.testBit_zero]
    simp
    omega
  have ha : link.toNat / 32 * 32 = 32 * q := by omega
  rw [followQtds, hbit, if_neg (by decide)]
  simp only
  rw [ha]

end

/-! ## The chain of a transfer -/

/-- The bytes that the descriptor of the data stage takes. -/
def dataQtdSize (length : Nat) : Nat := if length > 0 then sizeofQtd else 0

section

variable {alloc : DmaRet} {maxpacketsize length : Nat} {address : BitVec 8} {bytes : Nat → BitVec 8}
  {packet : UsbSetupPacket}

/-- The block of a transfer. -/
structure InMemory (alloc : DmaRet) (packet : UsbSetupPacket) (maxpacketsize length : Nat)
    (address : BitVec 8) (bytes : Nat → BitVec 8) : Prop where
  /-- The queue head. -/
  qh : HasWords bytes alloc.physicalAddress (qhWords (transferLayout alloc length) address maxpacketsize)
  /-- The SETUP descriptor. -/
  setup : HasWords bytes (alloc.physicalAddress + 96) (setupQtd (transferLayout alloc length) length).words
  /-- The data descriptor. -/
  data : 0 < length → HasWords bytes (alloc.physicalAddress + 160)
    (dataQtd (transferLayout alloc length) length true).words
  /-- The status descriptor. -/
  status : HasWords bytes (alloc.physicalAddress + 160 + dataQtdSize length)
    (statusQtd (decide (length = 0))).words
  /-- The setup packet. -/
  packet : HasBytes bytes (alloc.physicalAddress + 224 + dataQtdSize length) packet.bytes

theorem dataQtdSize_cases (length : Nat) :
    dataQtdSize length = 0 ∧ length = 0 ∨ dataQtdSize length = 64 ∧ 0 < length := by
  rw [dataQtdSize, sizeofQtd]
  split <;> omega

theorem length_allWords (qtd : EhciQtd) : qtd.allWords.length = 16 := rfl

theorem physicalOf_setup : alloc.physicalOf (transferLayout alloc length).setup =
    alloc.physicalAddress + 224 + dataQtdSize length := by
  simp only [transferLayout, dataQtdSize, sizeofQtd, sizeofQh, DmaRet.physicalOf]
  split <;> omega

variable (alloc address bytes) in
/-- **The block holds the transfer**, and nothing else is written. -/
theorem writeTransfer_spec (hr : rejects packet maxpacketsize length = false) :
    let bytes' := writeTransfer alloc packet maxpacketsize length address bytes
    InMemory alloc packet maxpacketsize length address bytes' ∧
    ∀ x, x < alloc.physicalAddress ∨ alloc.physicalAddress + 232 + dataQtdSize length ≤ x →
      bytes' x = bytes x := by
  have hsetupQtd : alloc.physicalOf (transferLayout alloc length).setupQtd = alloc.physicalAddress + 96 :=
    alloc.physicalOf_add 96
  have hdataQtd : alloc.physicalOf (transferLayout alloc length).dataQtd = alloc.physicalAddress + 160 := by
    simp only [transferLayout, sizeofQtd, sizeofQh, DmaRet.physicalOf]
    omega
  have hstatusQtd : alloc.physicalOf (transferLayout alloc length).statusQtd =
      alloc.physicalAddress + 160 + dataQtdSize length := by
    simp only [transferLayout, dataQtdSize, sizeofQtd, sizeofQh, DmaRet.physicalOf]
    split <;> omega
  have hqh : alloc.physicalOf (transferLayout alloc length).qh = alloc.physicalAddress :=
    alloc.physicalOf_add 0
  have hsize := dataQtdSize_cases length
  simp only [writeTransfer]
  rw [physicalOf_setup, hsetupQtd, hdataQtd, hstatusQtd, hqh]
  generalize hl : transferLayout alloc length = l
  generalize hp : alloc.physicalAddress = p
  generalize he : dataQtdSize length = e at hsize
  generalize hb1 : putBytes bytes (p + 224 + e) packet.bytes = bytes1
  generalize hb2 : putWords bytes1 (p + 96) (setupQtd l length).allWords = bytes2
  have h12 : ∀ a k, a + k ≤ p + 96 ∨ p + 160 ≤ a → SameOn bytes1 bytes2 a k :=
    fun a k h => hb2 ▸ sameOn_putWords (by rw [length_allWords]; omega)
  have hpacket2 : HasBytes bytes2 (p + 224 + e) packet.bytes := by
    have h1 : HasBytes bytes1 (p + 224 + e) packet.bytes := hb1 ▸ hasBytes_putBytes
    exact h1.congr (h12 _ _ (by omega))
  -- the driver reads the direction of the data stage in the packet
  have hdir : 0 < length → (bytes2 (p + 224 + e) &&& 0x80 != 0) = true := by
    intro h0
    rw [hpacket2.1]
    exact bne_iff_ne.mpr ((rejects_eq_false hr).2.2.2 (by omega))
  generalize hb3 : (if length > 0 then
      putWords bytes2 (p + 160) (dataQtd l length (bytes2 (p + 224 + e) &&& 0x80 != 0)).allWords
    else bytes2) = bytes3
  have h23 : ∀ a k, a + k ≤ p + 160 ∨ p + 160 + e ≤ a → SameOn bytes2 bytes3 a k := by
    intro a k h
    subst hb3
    split
    · exact sameOn_putWords (by rw [length_allWords]; omega)
    · exact fun x _ _ => rfl
  have hdata3 : 0 < length → HasWords bytes3 (p + 160) (dataQtd l length true).words := by
    intro h0
    subst hb3
    rw [if_pos h0, hdir h0]
    exact hasWords_left hasWords_putWords
  have hpacket3 := hpacket2.congr (h23 _ _ (by omega))
  rw [statusIn_eq hpacket3 hr]
  generalize hb4 : putWords bytes3 (p + 160 + e) (statusQtd (decide (length = 0))).allWords = bytes4
  generalize hb5 : putWords bytes4 p (qhWords l address maxpacketsize) = bytes5
  have h34 : ∀ a k, a + k ≤ p + 160 + e ∨ p + 224 + e ≤ a → SameOn bytes3 bytes4 a k :=
    fun a k h => hb4 ▸ sameOn_putWords (by rw [length_allWords]; omega)
  have h45 : ∀ a k, a + k ≤ p ∨ p + 96 ≤ a → SameOn bytes4 bytes5 a k :=
    fun a k h => hb5 ▸ sameOn_putWords h
  constructor
  · constructor
    · rw [hp, hl, ← hb5]
      exact hasWords_putWords
    · rw [hp, hl]
      have h2 : HasWords bytes2 (p + 96) (setupQtd l length).words :=
        hb2 ▸ hasWords_left hasWords_putWords
      exact ((h2.congr (h23 _ _ (by show p + 96 + 20 ≤ _ ∨ _; omega))).congr
        (h34 _ _ (by show p + 96 + 20 ≤ _ ∨ _; omega))).congr (h45 _ _ (by omega))
    · intro h0
      rw [hp, hl]
      exact ((hdata3 h0).congr (h34 _ _ (by show p + 160 + 20 ≤ _ ∨ _; omega))).congr (h45 _ _ (by omega))
    · rw [hp, he]
      have h4 : HasWords bytes4 (p + 160 + e) (statusQtd (decide (length = 0))).words :=
        hb4 ▸ hasWords_left hasWords_putWords
      exact h4.congr (h45 _ _ (by omega))
    · rw [hp, he]
      exact (hpacket3.congr (h34 _ _ (by omega))).congr (h45 _ _ (by omega))
  · intro x hx
    have hx1 : bytes1 x = bytes x :=
      hb1 ▸ sameOn_putBytes (n := 1) (by rw [length_bytes]; omega) x (le_refl x) (Nat.lt_succ_self x)
    rw [h45 x 1 (by omega) x (le_refl x) (Nat.lt_succ_self x),
      h34 x 1 (by omega) x (le_refl x) (Nat.lt_succ_self x),
      h23 x 1 (by omega) x (le_refl x) (Nat.lt_succ_self x),
      h12 x 1 (by omega) x (le_refl x) (Nat.lt_succ_self x), hx1]

/-- What the physical addresses come to, if nothing wraps around. -/
theorem transferLayout_toNat
    (hfit : alloc.physicalAddress + 232 + dataQtdSize length + length ≤ 2 ^ 32) :
    let l := transferLayout alloc length
    l.setupTdPhys.toNat = alloc.physicalAddress + 96 ∧
    (0 < length → l.dataTdPhys.toNat = alloc.physicalAddress + 160) ∧
    l.statusTdPhys.toNat = alloc.physicalAddress + 160 + dataQtdSize length ∧
    l.setupPhys.toNat = alloc.physicalAddress + 224 + dataQtdSize length ∧
    (0 < length → l.dataPhys.toNat = alloc.physicalAddress + 232 + dataQtdSize length) := by
  have h8 : (8 : BitVec 32).toNat = 8 := rfl
  rw [dataQtdSize, sizeofQtd] at *
  simp only [transferLayout, sizeofQtd, sizeofQh]
  by_cases h0 : length > 0
  · simp only [if_pos h0, BitVec.toNat_add, BitVec.toNat_ofNat, h8] at hfit ⊢
    refine ⟨by omega, fun _ => by omega, by omega, by omega, fun _ => by omega⟩
  · simp only [if_neg h0, BitVec.toNat_add, BitVec.toNat_ofNat] at hfit ⊢
    refine ⟨by omega, fun h => by omega, by omega, by omega, fun h => by omega⟩

/-- **The data stage goes on in the next page.** -/
theorem byteAddress_data (h0 : 0 < length) (hlength : length ≤ 4096) (halign : 4096 ∣ alloc.physicalAddress)
    (hfit : alloc.physicalAddress + 296 + length ≤ 2 ^ 32) {qtd : Qtd}
    (hbuffer0 : qtd.buffer 0 = (dataQtd (transferLayout alloc length) length true).buffer0)
    (hbuffer1 : qtd.buffer 1 = (dataQtd (transferLayout alloc length) length true).buffer1)
    {k : Nat} (hk : k < length) : qtd.byteAddress k = alloc.physicalAddress + 296 + k := by
  have hsize : dataQtdSize length = 64 := if_pos h0
  obtain ⟨-, -, -, -, hdataPhys⟩ := @transferLayout_toNat alloc length (by omega)
  have hphys := hdataPhys h0
  rw [hsize] at hphys
  obtain ⟨q, hq⟩ := halign
  have hb0 : (qtd.buffer 0).toNat = 4096 * q + 296 := by
    rw [hbuffer0]
    show (transferLayout alloc length).dataPhys.toNat = _
    omega
  have hoff : (qtd.buffer 0).toNat % 4096 = 296 := by omega
  rw [Qtd.byteAddress, hoff]
  by_cases hpage : 296 + k < 4096
  · rw [show (296 + k) / 4096 = 0 by omega, hb0]
    omega
  · have hb1 : (qtd.buffer 1).toNat = 4096 * q + 4096 := by
      have hend : (4096 - ((transferLayout alloc length).dataPhys &&& 4095)).toNat = 3800 := by
        have h4096 : (4096 : BitVec 32).toNat = 4096 := rfl
        rw [BitVec.toNat_sub, toNat_and_offset, hphys, h4096]
        omega
      have h4095 : (4095 : BitVec 32).toNat = 4095 := rfl
      rw [hbuffer1, dataQtd]
      simp only
      rw [hend, if_pos (by omega), toNat_and_page, BitVec.toNat_add, hphys, h4095]
      omega
    rw [show (296 + k) / 4096 = 1 by omega, hb1]
    omega

theorem transferSize_eq (length : Nat) : transferSize length = 232 + dataQtdSize length + length := by
  rw [transferSize, dataQtdSize, sizeofQtd, sizeofQh]
  split <;> omega

namespace InMemory

variable (h : InMemory alloc packet maxpacketsize length address bytes)
include h

theorem stage_setup (halign : 4096 ∣ alloc.physicalAddress)
    (hfit : alloc.physicalAddress + 232 + dataQtdSize length + length ≤ 2 ^ 32) :
    (qtdAt bytes (alloc.physicalAddress + 96)).stage =
      some ⟨.setup, false, List.range' (alloc.physicalAddress + 224 + dataQtdSize length) 8⟩ := by
  obtain ⟨q, hq⟩ := halign
  obtain ⟨-, htoken, hbuffer, -⟩ := qtdAt_of_hasWords h.setup
  obtain ⟨-, -, -, hpacketPhys, -⟩ := transferLayout_toNat hfit
  have hsize := dataQtdSize_cases length
  refine stage_token htoken rfl (by decide) fun k hk => ?_
  have hb : ((qtdAt bytes (alloc.physicalAddress + 96)).buffer 0).toNat =
      alloc.physicalAddress + 224 + dataQtdSize length := by
    rw [hbuffer]
    exact hpacketPhys
  rw [Qtd.byteAddress, show ((qtdAt bytes (alloc.physicalAddress + 96)).buffer 0).toNat % 4096 =
    224 + dataQtdSize length by omega, show (224 + dataQtdSize length + k) / 4096 = 0 by omega, hb]
  omega

theorem stage_data (h0 : 0 < length) (hlength : length ≤ 4096) (halign : 4096 ∣ alloc.physicalAddress)
    (hfit : alloc.physicalAddress + 296 + length ≤ 2 ^ 32) :
    (qtdAt bytes (alloc.physicalAddress + 160)).stage =
      some ⟨.input, true, List.range' (alloc.physicalAddress + 296) length⟩ := by
  obtain ⟨-, htoken, hbuffer0, hbuffer1⟩ := qtdAt_of_hasWords (h.data h0)
  exact stage_token htoken rfl (by omega) fun k hk =>
    byteAddress_data h0 hlength halign hfit hbuffer0 hbuffer1 hk

theorem stage_status : (qtdAt bytes (alloc.physicalAddress + 160 + dataQtdSize length)).stage =
    some ⟨if length = 0 then .input else .output, true, []⟩ := by
  obtain ⟨-, htoken, -, -⟩ := qtdAt_of_hasWords h.status
  refine stage_token (a := 0) htoken ?_ (by decide) fun k hk => absurd hk (Nat.not_lt_zero k)
  by_cases h0 : length = 0
  · rw [decide_eq_true h0, if_pos h0]
    rfl
  · rw [decide_eq_false h0, if_neg h0]
    rfl

/-- The chain ends behind the status descriptor. -/
theorem followQtds_status (halign : 32 ∣ alloc.physicalAddress) {link : BitVec 32}
    (hlink : link.toNat = alloc.physicalAddress + 160 + dataQtdSize length) :
    followQtds bytes 2 link = some [(alloc.physicalAddress + 160 + dataQtdSize length,
      qtdAt bytes (alloc.physicalAddress + 160 + dataQtdSize length))] := by
  have hsize := dataQtdSize_cases length
  obtain ⟨hnext, -⟩ := qtdAt_of_hasWords h.status
  rw [followQtds_cons hlink (by omega), hnext]
  exact congrArg (Option.map _) followQtds_terminate

end InMemory

/-- **The descriptors of a transfer.**  The controller finds the transfer that was asked for, and nothing is
out of its place. -/
theorem controlChain (bytes : Nat → BitVec 8) (address : BitVec 8)
    (hr : rejects packet maxpacketsize length = false) (halign : 4096 ∣ alloc.physicalAddress)
    (hfit : alloc.physicalAddress + transferSize length ≤ 2 ^ 32) :
    let memory := writeTransfer alloc packet maxpacketsize length address bytes
    let setup := alloc.physicalOf (transferLayout alloc length).setup
    ∃ fuel qtds stages, queueQtds memory fuel alloc.physicalAddress = some qtds ∧
      qtds.map (fun t => t.2.stage) = stages.map some ∧
      ControlStages memory packet setup (setup + 8) length length stages ∧
      Placement 32 ⟨alloc.physicalAddress, transferSize length⟩
        (⟨alloc.physicalAddress, sizeofQh⟩ :: qtds.map fun t => ⟨t.1, sizeofQtd⟩)
        [⟨setup, 8⟩, ⟨setup + 8, length⟩] := by
  obtain ⟨hmem, -⟩ := writeTransfer_spec alloc address bytes hr
  obtain ⟨-, -, hlength, -⟩ := rejects_eq_false hr
  simp only
  rw [physicalOf_setup, transferSize_eq] at *
  generalize writeTransfer alloc packet maxpacketsize length address bytes = memory at hmem
  obtain ⟨hnext1, -⟩ := qtdAt_of_hasWords hmem.setup
  have hqh : load32 memory (alloc.physicalAddress + 16) = (transferLayout alloc length).setupTdPhys :=
    hmem.qh.tail.tail.tail.tail.load32
  obtain ⟨hsetupPhys, hdataPhys, hstatusPhys, -, -⟩ :=
    @transferLayout_toNat alloc length (by omega)
  have halign32 : 32 ∣ alloc.physicalAddress := Dvd.dvd.trans (by decide) halign
  have hstage1 := hmem.stage_setup halign (by omega)
  have hstage3 := hmem.stage_status
  rcases dataQtdSize_cases length with ⟨hsize, h0⟩ | ⟨hsize, h0⟩
  · refine ⟨3, [(alloc.physicalAddress + 96, qtdAt memory _),
      (alloc.physicalAddress + 160 + dataQtdSize length, qtdAt memory _)], [_, _],
      ?_, congrArg₂ _ hstage1 (congrArg₂ _ hstage3 rfl), ?_, ?_⟩
    · rw [queueQtds, hqh, followQtds_cons hsetupPhys (by omega), hnext1, hmem.followQtds_status halign32
        (by rw [setupQtd]; simp only; rw [if_neg (not_not.mpr h0)]; exact hstatusPhys), Option.map_some]
    · exact ⟨hmem.packet, [], rfl, by rw [h0]; rfl, by simp, by simp⟩
    · rw [hsize, h0]
      refine @Placement.of_row _ _ [96, 64, 64, 8, 0] _ _ rfl fun s hs => ?_
      simp only [List.map_cons, List.map_nil, List.mem_cons, List.not_mem_nil, or_false] at hs
      rcases hs with rfl | rfl | rfl <;> simp only <;> omega
  · obtain ⟨hnext2, -⟩ := qtdAt_of_hasWords (hmem.data h0)
    have hstage2 := hmem.stage_data h0 hlength halign (by omega)
    refine ⟨4, [(alloc.physicalAddress + 96, qtdAt memory _), (alloc.physicalAddress + 160, qtdAt memory _),
      (alloc.physicalAddress + 160 + dataQtdSize length, qtdAt memory _)], [_, _, _], ?_,
      congrArg₂ _ hstage1 (congrArg₂ _ hstage2 (congrArg₂ _ hstage3 rfl)), ?_, ?_⟩
    · rw [queueQtds, hqh, followQtds_cons hsetupPhys (by omega), hnext1,
        followQtds_cons (a := alloc.physicalAddress + 160)
          (by rw [setupQtd]; simp only; rw [if_pos (by omega)]; exact hdataPhys h0) (by omega),
        hnext2, hmem.followQtds_status halign32
          (show (dataQtd (transferLayout alloc length) length true).nextQtd.toNat = _ from hstatusPhys),
        Option.map_some, Option.map_some]
    · refine ⟨hmem.packet, [⟨.input, true, List.range' (alloc.physicalAddress + 296) length⟩], rfl, ?_, ?_, ?_⟩
      · rw [List.flatMap_singleton, hsize]
      · intro s hs
        rw [List.mem_singleton.mp hs]
        exact ⟨rfl, by rw [List.length_range']; exact h0, by rw [List.length_range']⟩
      · intro i s hs
        obtain ⟨hi, hs⟩ := List.getElem?_eq_some_iff.mp hs
        have hi0 : i = 0 := by simpa using hi
        subst hi0
        rw [← hs]
        rfl
    · rw [hsize]
      have hsum : [96, 64, 64, 64, 8, length].sum = 232 + 64 + length := by
        simp
        omega
      rw [← hsum]
      refine Placement.of_row rfl fun s hs => ?_
      simp only [List.map_cons, List.map_nil, List.mem_cons, List.not_mem_nil, or_false] at hs
      rcases hs with rfl | rfl | rfl | rfl <;> simp only <;> omega

end

end Dem64.Ehci
