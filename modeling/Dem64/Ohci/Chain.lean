import Dem64.Host.Control

/-!
# The descriptors of an OHCI transfer

The block of a transfer has an endpoint descriptor, the transfer descriptors, the setup packet and the room
for the answer.  The queue of an endpoint ends at the descriptor that `tailp` points to, so there is one
more, which is never executed.

Only the first descriptor of the data stage names its toggle.  The others carry it on: the controller keeps
it in the endpoint descriptor and changes it with every packet (`followTds`).
-/

set_option autoImplicit false

namespace Dem64.Ohci

open ByteMemory

/-- `ohci_td`. -/
structure OhciTd where
  /-- `control`. -/
  control : BitVec 32
  /-- `cbp`. -/
  cbp : BitVec 32
  /-- `next_td`. -/
  nextTd : BitVec 32
  /-- `be`. -/
  be : BitVec 32
deriving DecidableEq, Repr

/-- The words of a descriptor. -/
def OhciTd.words (td : OhciTd) : List (BitVec 32) := [td.control, td.cbp, td.nextTd, td.be]

/-- `OHCI_TD_T_DATA0`. -/
def ohciTdTData0 : BitVec 2 := 2
/-- `OHCI_TD_T_DATA1`. -/
def ohciTdTData1 : BitVec 2 := 3
/-- `OHCI_TD_T_CARRY`. -/
def ohciTdTCarry : BitVec 2 := 0
/-- `OHCI_TD_DP_SETUP`. -/
def ohciTdDpSetup : BitVec 2 := 0
/-- `OHCI_TD_DP_OUT`. -/
def ohciTdDpOut : BitVec 2 := 1
/-- `OHCI_TD_DP_IN`. -/
def ohciTdDpIn : BitVec 2 := 2
/-- `sizeof(ohci_ed)`. -/
def sizeofEd : Nat := 16
/-- `sizeof(ohci_td)`. -/
def sizeofTd : Nat := 16

/-- `OHCI_TD_CC(0xF)`, `OHCI_TD_T(toggle)`, `OHCI_TD_DP(dp)` and `OHCI_TD_R`, if the buffer need not be
filled. -/
def tdControl (toggle dp : BitVec 2) (rounding : Bool) : BitVec 32 :=
  0xF#32 <<< 28 ||| toggle.setWidth 32 <<< 24 ||| dp.setWidth 32 <<< 19 |||
    if rounding then 1#32 <<< 18 else 0

/-- `ed->control`: `OHCI_ED_FA(address)`, `OHCI_ED_LS` and `OHCI_ED_MPS(maxpacketsize)`. -/
def edControl (address : BitVec 8) (lowSpeed : Bool) (maxpacketsize : Nat) : BitVec 32 :=
  (address &&& 0x7F).setWidth 32 ||| (if lowSpeed then 1#32 <<< 13 else 0) |||
    (BitVec.ofNat 32 maxpacketsize &&& 0x7FF) <<< 16

/-! ## The driver -/

/-- Where `usb_send_packet` puts things: the physical addresses, and the pointers. -/
structure TransferLayout where
  /-- `ed_phys`. -/
  edPhys : BitVec 32
  /-- `setup_td_phys`. -/
  setupTdPhys : BitVec 32
  /-- `data_td_phys`. -/
  dataTdPhys : BitVec 32
  /-- `status_td_phys`. -/
  statusTdPhys : BitVec 32
  /-- `dummy_phys`. -/
  dummyPhys : BitVec 32
  /-- `setup_phys`. -/
  setupPhys : BitVec 32
  /-- `data_phys`. -/
  dataPhys : BitVec 32
  /-- `ed`. -/
  ed : Nat
  /-- `setup_td`. -/
  setupTd : Nat
  /-- `data_td`, where there is one. -/
  dataTd : Nat
  /-- `status_td`. -/
  statusTd : Nat
  /-- `dummy_td`. -/
  dummyTd : Nat
  /-- `setup`. -/
  setup : Nat

/-- The addresses in a block, for this many data descriptors. -/
def transferLayout (alloc : DmaRet) (dataTdCount : Nat) : TransferLayout :=
  let edPhys := BitVec.ofNat 32 alloc.physicalAddress
  let setupTdPhys := edPhys + BitVec.ofNat 32 sizeofEd
  let dataTdPhys := setupTdPhys + BitVec.ofNat 32 sizeofTd
  let statusTdPhys := dataTdPhys + BitVec.ofNat 32 (dataTdCount * sizeofTd)
  let dummyPhys := statusTdPhys + BitVec.ofNat 32 sizeofTd
  let setupPhys := dummyPhys + BitVec.ofNat 32 sizeofTd
  let ed := alloc.virtualAddress
  let setupTd := ed + sizeofEd
  let statusTd := setupTd + sizeofTd + dataTdCount * sizeofTd
  let dummyTd := statusTd + sizeofTd
  { edPhys, setupTdPhys, dataTdPhys, statusTdPhys, dummyPhys, setupPhys
    dataPhys := setupPhys + 8
    ed, setupTd
    dataTd := setupTd + sizeofTd
    statusTd, dummyTd
    setup := dummyTd + sizeofTd }

/-- `size`. -/
def transferSize (dataTdCount length : Nat) : Nat :=
  sizeofEd + (dataTdCount + 3) * sizeofTd + 8 + length

/-- `data_td[i]`, for a packet of `len` bytes. -/
def dataTd (l : TransferLayout) (dataTdCount : Nat) (dataIn : Bool) (i offset len : Nat) : OhciTd where
  control := tdControl (if i = 0 then ohciTdTData1 else ohciTdTCarry)
    (if dataIn then ohciTdDpIn else ohciTdDpOut) (dataIn && i == dataTdCount - 1)
  cbp := l.dataPhys + BitVec.ofNat 32 offset
  be := l.dataPhys + BitVec.ofNat 32 offset + BitVec.ofNat 32 len - 1
  nextTd := if i = dataTdCount - 1 then l.statusTdPhys
    else l.dataTdPhys + BitVec.ofNat 32 ((i + 1) * sizeofTd)

/-- The loop over the data descriptors from `i` on, `k` of them. -/
def writeDataTds (alloc : DmaRet) (l : TransferLayout) (dataTdCount maxpacketsize length : Nat)
    (dataIn : Bool) : (k i offset : Nat) → (Nat → BitVec 8) → Nat → BitVec 8
  | 0, _, _, bytes => bytes
  | k + 1, i, offset, bytes =>
    let remaining := length - offset
    let chunkLength := if remaining < maxpacketsize then remaining else maxpacketsize
    let td := dataTd l dataTdCount dataIn i offset chunkLength
    let bytes := putWords bytes (alloc.physicalOf (l.dataTd + sizeofTd * i)) td.words
    writeDataTds alloc l dataTdCount maxpacketsize length dataIn k (i + 1) (offset + chunkLength) bytes

/-- `setup_td`. -/
def setupTd (l : TransferLayout) (dataTdCount : Nat) : OhciTd where
  nextTd := if dataTdCount ≠ 0 then l.dataTdPhys else l.statusTdPhys
  control := tdControl ohciTdTData0 ohciTdDpSetup false
  cbp := l.setupPhys
  be := l.setupPhys + 7

/-- `status_td`. -/
def statusTd (l : TransferLayout) (statusIn : Bool) : OhciTd where
  control := tdControl ohciTdTData1 (if statusIn then ohciTdDpIn else ohciTdDpOut) false
  cbp := 0
  be := 0
  nextTd := l.dummyPhys

/-- `dummy_td`. -/
def dummyTd : OhciTd where
  control := 0xF#32 <<< 28
  cbp := 0
  be := 0
  nextTd := 0

/-- The words of `ed`: `control`, `tailp`, `headp` and `next_ed`. -/
def edWords (l : TransferLayout) (address : BitVec 8) (lowSpeed : Bool) (maxpacketsize : Nat) :
    List (BitVec 32) :=
  [edControl address lowSpeed maxpacketsize, l.dummyPhys, l.setupTdPhys, 0]

/-- What `usb_send_packet` writes to the block, in its order. -/
def writeTransfer (alloc : DmaRet) (packet : UsbSetupPacket) (maxpacketsize length : Nat)
    (address : BitVec 8) (lowSpeed : Bool) (bytes : Nat → BitVec 8) : Nat → BitVec 8 :=
  let dataTdCount := packetCount length maxpacketsize
  let l := transferLayout alloc dataTdCount
  let bytes := putBytes bytes (alloc.physicalOf l.setup) packet.bytes
  let bytes := putWords bytes (alloc.physicalOf l.setupTd) (setupTd l dataTdCount).words
  let dataIn := bytes (alloc.physicalOf l.setup) &&& 0x80 != 0
  let bytes := writeDataTds alloc l dataTdCount maxpacketsize length dataIn dataTdCount 0 0 bytes
  let statusTd := statusTd l (statusIn bytes (alloc.physicalOf l.setup))
  let bytes := putWords bytes (alloc.physicalOf l.statusTd) statusTd.words
  let bytes := putWords bytes (alloc.physicalOf l.dummyTd) dummyTd.words
  putWords bytes (alloc.physicalOf l.ed) (edWords l address lowSpeed maxpacketsize)

/-! ## The controller -/

/-- The descriptor at an address. -/
def tdAt (bytes : Nat → BitVec 8) (a : Nat) : OhciTd :=
  ⟨load32 bytes a, load32 bytes (a + 4), load32 bytes (a + 8), load32 bytes (a + 12)⟩

/-- How many bytes a descriptor describes.  The buffer starts in the page of `cbp` and ends in the page of
`be`; it has at most two. -/
def OhciTd.bufferLength (td : OhciTd) : Nat :=
  if td.cbp = 0 then 0
  else if td.cbp.toNat / 4096 = td.be.toNat / 4096 then td.be.toNat + 1 - td.cbp.toNat
  else 4096 - td.cbp.toNat % 4096 + td.be.toNat % 4096 + 1

/-- Where byte `k` of a transfer goes. -/
def OhciTd.byteAddress (td : OhciTd) (k : Nat) : Nat :=
  if td.cbp.toNat % 4096 + k < 4096 then td.cbp.toNat + k
  else td.be.toNat / 4096 * 4096 + (td.cbp.toNat % 4096 + k - 4096)

/-- The direction of a descriptor. -/
def pidOf (b : BitVec 2) : Option Pid :=
  if b = ohciTdDpSetup then some .setup
  else if b = ohciTdDpOut then some .output
  else if b = ohciTdDpIn then some .input
  else none

/-- The toggle of the first packet of a descriptor, if the endpoint carries `carry`. -/
def OhciTd.toggle (td : OhciTd) (carry : Bool) : Bool :=
  if td.control.getLsbD 25 then td.control.getLsbD 24 else carry

/-- What the controller makes of a descriptor. -/
def OhciTd.stage (td : OhciTd) (carry : Bool) : Option Stage :=
  (pidOf (td.control.extractLsb' 19 2)).map fun pid =>
    ⟨pid, td.toggle carry, (List.range td.bufferLength).map td.byteAddress⟩

/-- What the endpoint carries on: every packet changes the toggle, also an empty one. -/
def OhciTd.carryOn (td : OhciTd) (maxpacketsize : Nat) (carry : Bool) : Bool :=
  td.toggle carry ^^ decide (max 1 (packetCount td.bufferLength maxpacketsize) % 2 = 1)

/-- The descriptors from an address on, up to the tail, with their addresses and what the controller makes
of them. -/
def followTds (bytes : Nat → BitVec 8) (maxpacketsize tail : Nat) :
    (fuel : Nat) → (head : Nat) → (carry : Bool) → Option (List (Nat × Option Stage))
  | 0, _, _ => none
  | fuel + 1, head, carry =>
    if head = tail then some []
    else
      let td := tdAt bytes head
      (followTds bytes maxpacketsize tail fuel (td.nextTd.toNat / 16 * 16)
        (td.carryOn maxpacketsize carry)).map ((head, td.stage carry) :: ·)

/-- The descriptors of an endpoint.  Bit 1 of `headp` is the toggle. -/
def endpointTds (bytes : Nat → BitVec 8) (fuel ed : Nat) : Option (List (Nat × Option Stage)) :=
  let headp := load32 bytes (ed + 8)
  followTds bytes ((load32 bytes ed).extractLsb' 16 11).toNat ((load32 bytes (ed + 4)).toNat / 16 * 16) fuel
    (headp.toNat / 16 * 16) (headp.getLsbD 1)

/-! ## Control words and buffers -/

section

variable {toggle dp : BitVec 2} {rounding carry : Bool} {td : OhciTd} {maxpacketsize len c : Nat}

theorem extractLsb'_tdControl (toggle dp : BitVec 2) (rounding : Bool) :
    (tdControl toggle dp rounding).extractLsb' 19 2 = dp ∧
    (tdControl toggle dp rounding).getLsbD 25 = toggle.getLsbD 1 ∧
    (tdControl toggle dp rounding).getLsbD 24 = toggle.getLsbD 0 := by
  have hall : ∀ (toggle dp : BitVec 2) (rounding : Bool),
      (tdControl toggle dp rounding).extractLsb' 19 2 = dp ∧
      (tdControl toggle dp rounding).getLsbD 25 = toggle.getLsbD 1 ∧
      (tdControl toggle dp rounding).getLsbD 24 = toggle.getLsbD 0 := by
    decide
  exact hall toggle dp rounding

theorem extractLsb'_edControl (address : BitVec 8) (lowSpeed : Bool) (h : maxpacketsize < 2 ^ 11) :
    ((edControl address lowSpeed maxpacketsize).extractLsb' 16 11).toNat = maxpacketsize := by
  have heq : (edControl address lowSpeed maxpacketsize).extractLsb' 16 11 = BitVec.ofNat 11 maxpacketsize := by
    apply BitVec.eq_of_getLsbD_eq
    intro i hi
    have hmask : ∀ i, i < 11 → (0x7FF : BitVec 32).getLsbD i = true := by decide
    have hls : (if lowSpeed then 1#32 <<< 13 else (0 : BitVec 32)).getLsbD (16 + i) = false := by
      have hall : ∀ i, i < 11 → (1#32 <<< 13).getLsbD (16 + i) = false := by decide
      cases lowSpeed with
      | true => exact hall i hi
      | false => exact BitVec.getLsbD_zero
    rw [BitVec.getLsbD_extractLsb', edControl, BitVec.getLsbD_or, BitVec.getLsbD_or, hls,
      BitVec.getLsbD_setWidth, BitVec.getLsbD_of_ge (address &&& 0x7F) (16 + i) (by omega),
      BitVec.getLsbD_shiftLeft, BitVec.getLsbD_and, Nat.add_sub_cancel_left, hmask i hi,
      BitVec.getLsbD_ofNat, BitVec.getLsbD_ofNat]
    simp [hi, show 16 + i < 32 by omega, show i < 32 by omega]
  rw [heq, BitVec.toNat_ofNat, Nat.mod_eq_of_lt h]

/-- A buffer of at most a page. -/
theorem buffer_spec (hcbp : td.cbp.toNat = c) (hbe : td.be.toNat + 1 = c + len) (hc : 0 < c) (hlen : 0 < len)
    (hpage : len ≤ 4096) :
    td.bufferLength = len ∧ (List.range len).map td.byteAddress = List.range' c len := by
  have hne : td.cbp ≠ 0 := fun h => by
    rw [h] at hcbp
    exact absurd hcbp (Nat.ne_of_lt hc)
  constructor
  · rw [OhciTd.bufferLength, if_neg hne]
    split <;> omega
  · rw [List.range'_eq_map_range]
    apply List.map_congr_left
    intro k hk
    rw [List.mem_range] at hk
    rw [OhciTd.byteAddress]
    split <;> omega

theorem carryOn_eq (hlen : td.bufferLength ≤ maxpacketsize) :
    td.carryOn maxpacketsize carry = !td.toggle carry := by
  have hcount : max 1 (packetCount td.bufferLength maxpacketsize) = 1 := by
    have hle : packetCount td.bufferLength maxpacketsize ≤ 1 := by
      by_contra hgt
      have hlt := @lt_of_lt_packetCount td.bufferLength maxpacketsize 1 (by omega)
      omega
    omega
  rw [OhciTd.carryOn, hcount]
  exact Bool.xor_true _

theorem tdAt_of_hasWords {bytes : Nat → BitVec 8} {a : Nat} (h : HasWords bytes a td.words) :
    tdAt bytes a = td := by
  obtain ⟨control, cbp, nextTd, be⟩ := td
  rw [tdAt, h.load32, h.tail.load32, h.tail.tail.load32, h.tail.tail.tail.load32]

end

/-! ## The chain of a transfer -/

section

variable {alloc : DmaRet} {n maxpacketsize length : Nat} {address : BitVec 8} {lowSpeed : Bool}
  {bytes : Nat → BitVec 8} {packet : UsbSetupPacket}

/-- `data_td[j]` as the loop leaves it. -/
def dataTdOf (l : TransferLayout) (n maxpacketsize length j : Nat) : OhciTd :=
  dataTd l n true j (maxpacketsize * j) (packetLength length maxpacketsize j)

/-- **The loop writes every data descriptor, and nothing else.** -/
theorem writeDataTds_spec {l : TransferLayout} {d : Nat} (hn : n = packetCount length maxpacketsize)
    (hl : ∀ j, alloc.physicalOf (l.dataTd + sizeofTd * j) = d + 16 * j) {k i offset : Nat}
    (hi : i + k = n) (hoffset : k = 0 ∨ offset = maxpacketsize * i) :
    let bytes' := writeDataTds alloc l n maxpacketsize length true k i offset bytes
    (∀ j, i ≤ j → j < n → HasWords bytes' (d + 16 * j) (dataTdOf l n maxpacketsize length j).words) ∧
    ∀ x, x < d + 16 * i ∨ d + 16 * n ≤ x → bytes' x = bytes x := by
  induction k generalizing i offset bytes with
  | zero => exact ⟨fun j h1 h2 => by omega, fun x _ => rfl⟩
  | succ k ih =>
    have hoff : offset = maxpacketsize * i := by omega
    subst hoff
    have hlen : (if length - maxpacketsize * i < maxpacketsize then length - maxpacketsize * i
        else maxpacketsize) = packetLength length maxpacketsize i := by
      rw [packetLength]
      split <;> omega
    have hnext : k = 0 ∨ maxpacketsize * i + packetLength length maxpacketsize i =
        maxpacketsize * (i + 1) := by
      rcases Nat.eq_zero_or_pos k with hk | hk
      · exact .inl hk
      · exact .inr (by rw [packetLength_of_succ_lt (by omega), Nat.mul_succ])
    obtain ⟨hhas, hsame⟩ := @ih (putWords bytes (d + 16 * i) (dataTdOf l n maxpacketsize length i).words)
      (i + 1) _ (by omega) hnext
    rw [writeDataTds, hlen, hl]
    refine ⟨fun j h1 h2 => ?_, fun x hx => ?_⟩
    · rcases Nat.eq_or_lt_of_le h1 with rfl | h1
      · refine hasWords_putWords.congr fun x hx1 hx2 => hsame x (.inl ?_)
        have h16 : 4 * (dataTdOf l n maxpacketsize length i).words.length = 16 := rfl
        omega
      · exact hhas j h1 h2
    · refine (hsame x (by omega)).trans (sameOn_putWords (n := 1) ?_ x (le_refl x) (Nat.lt_succ_self x))
      show _ ∨ _ + 16 ≤ _
      omega

/-- The block of a transfer with `n` data descriptors. -/
structure InMemory (alloc : DmaRet) (packet : UsbSetupPacket) (maxpacketsize length : Nat)
    (address : BitVec 8) (lowSpeed : Bool) (n : Nat) (bytes : Nat → BitVec 8) : Prop where
  /-- The endpoint descriptor. -/
  ed : HasWords bytes alloc.physicalAddress (edWords (transferLayout alloc n) address lowSpeed maxpacketsize)
  /-- The SETUP descriptor. -/
  setup : HasWords bytes (alloc.physicalAddress + 16) (setupTd (transferLayout alloc n) n).words
  /-- The data descriptors. -/
  data : ∀ j, j < n → HasWords bytes (alloc.physicalAddress + 32 + 16 * j)
    (dataTdOf (transferLayout alloc n) n maxpacketsize length j).words
  /-- The status descriptor. -/
  status : HasWords bytes (alloc.physicalAddress + 32 + 16 * n)
    (statusTd (transferLayout alloc n) (decide (length = 0))).words
  /-- The setup packet. -/
  packet : HasBytes bytes (alloc.physicalAddress + 64 + 16 * n) packet.bytes

theorem physicalOf_setup : alloc.physicalOf (transferLayout alloc n).setup =
    alloc.physicalAddress + 64 + 16 * n := by
  simp only [transferLayout, sizeofTd, sizeofEd, DmaRet.physicalOf]
  omega

variable (alloc address lowSpeed bytes) in
/-- **The block holds the transfer**, and nothing else is written. -/
theorem writeTransfer_spec (hr : rejects packet maxpacketsize length = false)
    (hn : n = packetCount length maxpacketsize) :
    let bytes' := writeTransfer alloc packet maxpacketsize length address lowSpeed bytes
    InMemory alloc packet maxpacketsize length address lowSpeed n bytes' ∧
    ∀ x, x < alloc.physicalAddress ∨ alloc.physicalAddress + 72 + 16 * n ≤ x → bytes' x = bytes x := by
  have hsetupTd : alloc.physicalOf (transferLayout alloc n).setupTd = alloc.physicalAddress + 16 :=
    alloc.physicalOf_add 16
  have hdataTd : ∀ j, alloc.physicalOf ((transferLayout alloc n).dataTd + sizeofTd * j) =
      alloc.physicalAddress + 32 + 16 * j := by
    intro j
    simp only [transferLayout, sizeofTd, sizeofEd, DmaRet.physicalOf]
    omega
  have hstatusTd : alloc.physicalOf (transferLayout alloc n).statusTd =
      alloc.physicalAddress + 32 + 16 * n := by
    simp only [transferLayout, sizeofTd, sizeofEd, DmaRet.physicalOf]
    omega
  have hdummyTd : alloc.physicalOf (transferLayout alloc n).dummyTd =
      alloc.physicalAddress + 48 + 16 * n := by
    simp only [transferLayout, sizeofTd, sizeofEd, DmaRet.physicalOf]
    omega
  have hed : alloc.physicalOf (transferLayout alloc n).ed = alloc.physicalAddress :=
    alloc.physicalOf_add 0
  simp only [writeTransfer]
  rw [← hn, physicalOf_setup, hsetupTd, hstatusTd, hdummyTd, hed]
  generalize hl : transferLayout alloc n = l at hdataTd
  generalize hp : alloc.physicalAddress = p at hdataTd
  generalize hb1 : putBytes bytes (p + 64 + 16 * n) packet.bytes = bytes1
  generalize hb2 : putWords bytes1 (p + 16) (setupTd l n).words = bytes2
  have h12 : ∀ a k, a + k ≤ p + 16 ∨ p + 32 ≤ a → SameOn bytes1 bytes2 a k :=
    fun a k h => hb2 ▸ sameOn_putWords h
  have hpacket2 : HasBytes bytes2 (p + 64 + 16 * n) packet.bytes := by
    have h1 : HasBytes bytes1 (p + 64 + 16 * n) packet.bytes := hb1 ▸ hasBytes_putBytes
    exact h1.congr (h12 _ _ (by omega))
  -- the driver reads the direction of the data stage in the packet, and it matters if there is one
  have hb3 : writeDataTds alloc l n maxpacketsize length (bytes2 (p + 64 + 16 * n) &&& 0x80 != 0) n 0 0
      bytes2 = writeDataTds alloc l n maxpacketsize length true n 0 0 bytes2 := by
    by_cases h0 : length = 0
    · have hn0 : n = 0 := hn.trans ((packetCount_eq_zero (rejects_eq_false hr).1).mpr h0)
      rw [hn0]
      rfl
    · rw [hpacket2.1, bne_iff_ne.mpr ((rejects_eq_false hr).2.2.2 h0)]
  rw [hb3]
  clear hb3
  obtain ⟨hdata, hkeep⟩ := @writeDataTds_spec alloc n maxpacketsize length bytes2 l _ hn hdataTd _ _ _
    (Nat.zero_add n) (.inr (Nat.mul_zero _).symm)
  generalize hb3 : writeDataTds alloc l n maxpacketsize length true n 0 0 bytes2 = bytes3 at hdata hkeep
  have h23 : ∀ a k, a + k ≤ p + 32 ∨ p + 32 + 16 * n ≤ a → SameOn bytes2 bytes3 a k :=
    fun a k h x h1 h2 => hkeep x (by omega)
  have hpacket3 := hpacket2.congr (h23 _ _ (by omega))
  rw [statusIn_eq hpacket3 hr]
  generalize hb4 : putWords bytes3 (p + 32 + 16 * n) (statusTd l (decide (length = 0))).words = bytes4
  generalize hb5 : putWords bytes4 (p + 48 + 16 * n) dummyTd.words = bytes5
  generalize hb6 : putWords bytes5 p (edWords l address lowSpeed maxpacketsize) = bytes6
  have h34 : ∀ a k, a + k ≤ p + 32 + 16 * n ∨ p + 48 + 16 * n ≤ a → SameOn bytes3 bytes4 a k :=
    fun a k h => hb4 ▸ sameOn_putWords (by show _ ∨ _ + 16 ≤ _; omega)
  have h45 : ∀ a k, a + k ≤ p + 48 + 16 * n ∨ p + 64 + 16 * n ≤ a → SameOn bytes4 bytes5 a k :=
    fun a k h => hb5 ▸ sameOn_putWords (by show _ ∨ _ + 16 ≤ _; omega)
  have h56 : ∀ a k, a + k ≤ p ∨ p + 16 ≤ a → SameOn bytes5 bytes6 a k :=
    fun a k h => hb6 ▸ sameOn_putWords h
  have h36 : ∀ a k, (p + 16 ≤ a ∧ a + k ≤ p + 32 + 16 * n) ∨ p + 64 + 16 * n ≤ a →
      SameOn bytes3 bytes6 a k :=
    fun a k h => ((h34 a k (by omega)).trans (h45 a k (by omega))).trans (h56 a k (by omega))
  constructor
  · constructor
    · rw [hp, hl, ← hb6]
      exact hasWords_putWords
    · rw [hp, hl]
      have h2 : HasWords bytes2 (p + 16) (setupTd l n).words := hb2 ▸ hasWords_putWords
      exact (h2.congr (h23 _ _ (by show p + 16 + 16 ≤ _ ∨ _; omega))).congr
        (h36 _ _ (by show (_ ∧ p + 16 + 16 ≤ _) ∨ _; omega))
    · intro j hj
      rw [hp, hl]
      exact (hdata j (Nat.zero_le j) hj).congr (h36 _ _ (by show (_ ∧ _ + 16 ≤ _) ∨ _; omega))
    · rw [hp, hl]
      have h4 : HasWords bytes4 (p + 32 + 16 * n) (statusTd l (decide (length = 0))).words :=
        hb4 ▸ hasWords_putWords
      exact (h4.congr (h45 _ _ (by show _ + 16 ≤ _ ∨ _; omega))).congr (h56 _ _ (by omega))
    · rw [hp]
      exact hpacket3.congr (h36 _ _ (by omega))
  · intro x hx
    have hx1 : bytes1 x = bytes x :=
      hb1 ▸ sameOn_putBytes (n := 1) (by rw [length_bytes]; omega) x (le_refl x) (Nat.lt_succ_self x)
    have h36' : bytes6 x = bytes3 x := ((h34 x 1 (by omega)).trans (h45 x 1 (by omega))).trans
      (h56 x 1 (by omega)) x (le_refl x) (Nat.lt_succ_self x)
    rw [h36', h23 x 1 (by omega) x (le_refl x) (Nat.lt_succ_self x),
      h12 x 1 (by omega) x (le_refl x) (Nat.lt_succ_self x), hx1]

/-- What the physical addresses come to, if nothing wraps around. -/
theorem transferLayout_toNat (hfit : alloc.physicalAddress + 72 + 16 * n + length ≤ 2 ^ 32) :
    let l := transferLayout alloc n
    l.setupTdPhys.toNat = alloc.physicalAddress + 16 ∧ l.dataTdPhys.toNat = alloc.physicalAddress + 32 ∧
    l.statusTdPhys.toNat = alloc.physicalAddress + 32 + 16 * n ∧
    l.dummyPhys.toNat = alloc.physicalAddress + 48 + 16 * n ∧
    l.setupPhys.toNat = alloc.physicalAddress + 64 + 16 * n ∧
    ∀ k, k < length → (l.dataPhys + BitVec.ofNat 32 k).toNat = alloc.physicalAddress + 72 + 16 * n + k := by
  have h8 : (8 : BitVec 32).toNat = 8 := rfl
  simp only [transferLayout, sizeofTd, sizeofEd, BitVec.toNat_add, BitVec.toNat_ofNat, h8]
  refine ⟨by omega, by omega, by omega, by omega, by omega, fun k hk => ?_⟩
  omega

/-- What the controller makes of a data descriptor. -/
theorem dataTdOf_spec (hmps : maxpacketsize < 2 ^ 11) (hn : n = packetCount length maxpacketsize)
    (hfit : alloc.physicalAddress + 72 + 16 * n + length ≤ 2 ^ 32) {j : Nat} (hj : j < n) :
    let td := dataTdOf (transferLayout alloc n) n maxpacketsize length j
    td.stage (decide (j % 2 = 0)) = some ⟨.input, decide (j % 2 = 0),
      List.range' (alloc.physicalAddress + 72 + 16 * n + maxpacketsize * j)
        (packetLength length maxpacketsize j)⟩ ∧
    td.carryOn maxpacketsize (decide (j % 2 = 0)) = decide ((j + 1) % 2 = 0) ∧
    td.nextTd.toNat = alloc.physicalAddress + 32 + 16 * (j + 1) := by
  simp only
  obtain ⟨-, hdataPhys, hstatusPhys, -, -, hbuffer⟩ := transferLayout_toNat hfit
  have hlt := lt_of_lt_packetCount (hn ▸ hj)
  have hpos := packetLength_pos (hn ▸ hj)
  have hle : packetLength length maxpacketsize j ≤ maxpacketsize := Nat.min_le_right _ _
  have hrest : maxpacketsize * j + packetLength length maxpacketsize j ≤ length := by
    rw [packetLength]
    omega
  generalize hd : alloc.physicalAddress + 72 + 16 * n + maxpacketsize * j = c
  generalize hlen : packetLength length maxpacketsize j = len at *
  have hcbp : (dataTdOf (transferLayout alloc n) n maxpacketsize length j).cbp.toNat = c := by
    rw [← hd]
    exact hbuffer _ hlt
  have hbe : (dataTdOf (transferLayout alloc n) n maxpacketsize length j).be.toNat + 1 = c + len := by
    have h1 : (1 : BitVec 32).toNat = 1 := rfl
    rw [dataTdOf, dataTd, hlen]
    simp only
    rw [BitVec.toNat_sub, BitVec.toNat_add, hbuffer _ hlt, BitVec.toNat_ofNat, h1]
    omega
  obtain ⟨hbytes, hrange⟩ := buffer_spec hcbp hbe (by omega) hpos (by omega)
  obtain ⟨hpid, h25, h24⟩ := extractLsb'_tdControl (if j = 0 then ohciTdTData1 else ohciTdTCarry) ohciTdDpIn
    (true && j == n - 1)
  -- the first descriptor starts with DATA1, and the others take what is carried on
  have htoggle : (dataTdOf (transferLayout alloc n) n maxpacketsize length j).toggle (decide (j % 2 = 0)) =
      decide (j % 2 = 0) := by
    rw [OhciTd.toggle]
    show (if (tdControl _ _ _).getLsbD 25 then (tdControl _ _ _).getLsbD 24 else _) = _
    rw [if_pos rfl, h25, h24]
    by_cases h0 : j = 0
    · rw [if_pos h0, h0]
      rfl
    · rw [if_neg h0]
      rfl
  refine ⟨?_, ?_, ?_⟩
  · rw [OhciTd.stage, htoggle, hbytes, hrange]
    show (pidOf ((tdControl _ _ _).extractLsb' 19 2)).map _ = _
    rw [if_pos rfl, hpid]
    rfl
  · rw [carryOn_eq (by omega), htoggle, ← decide_not, decide_eq_decide]
    omega
  · rw [dataTdOf, dataTd]
    simp only
    split
    · rw [hstatusPhys]
      omega
    · rw [BitVec.toNat_add, hdataPhys, BitVec.toNat_ofNat, sizeofTd]
      omega

/-- What the controller makes of the status descriptor. -/
theorem statusTd_stage (l : TransferLayout) (input carry : Bool) :
    (statusTd l input).stage carry = some ⟨if input then .input else .output, true, []⟩ := by
  obtain ⟨hpid, h25, h24⟩ := extractLsb'_tdControl ohciTdTData1 (if input then ohciTdDpIn else ohciTdDpOut)
    false
  have htoggle : (statusTd l input).toggle carry = true := by
    rw [OhciTd.toggle]
    show (if (tdControl _ _ _).getLsbD 25 then (tdControl _ _ _).getLsbD 24 else _) = _
    rw [h25, h24]
    rfl
  have hlength : (statusTd l input).bufferLength = 0 := if_pos rfl
  rw [OhciTd.stage, htoggle, hlength]
  show (pidOf ((tdControl _ _ _).extractLsb' 19 2)).map _ = _
  rw [hpid]
  cases input <;> rfl

/-- What the controller makes of the SETUP descriptor. -/
theorem setupTd_spec (hmps : 8 ≤ maxpacketsize)
    (hfit : alloc.physicalAddress + 72 + 16 * n + length ≤ 2 ^ 32) (carry : Bool) :
    let td := setupTd (transferLayout alloc n) n
    td.stage carry = some ⟨.setup, false, List.range' (alloc.physicalAddress + 64 + 16 * n) 8⟩ ∧
    td.carryOn maxpacketsize carry = true ∧ td.nextTd.toNat = alloc.physicalAddress + 32 := by
  simp only
  obtain ⟨-, hdataPhys, hstatusPhys, -, hsetupPhys, -⟩ := transferLayout_toNat hfit
  obtain ⟨hpid, h25, h24⟩ := extractLsb'_tdControl ohciTdTData0 ohciTdDpSetup false
  have hbe : (setupTd (transferLayout alloc n) n).be.toNat + 1 = alloc.physicalAddress + 64 + 16 * n + 8 := by
    have h7 : (7 : BitVec 32).toNat = 7 := rfl
    show ((transferLayout alloc n).setupPhys + 7).toNat + 1 = _
    rw [BitVec.toNat_add, hsetupPhys, h7]
    omega
  obtain ⟨hbytes, hrange⟩ := @buffer_spec (setupTd (transferLayout alloc n) n) _ _ hsetupPhys hbe
    (by omega) (by decide) (by decide)
  have htoggle : (setupTd (transferLayout alloc n) n).toggle carry = false := by
    rw [OhciTd.toggle]
    show (if (tdControl _ _ _).getLsbD 25 then (tdControl _ _ _).getLsbD 24 else _) = _
    rw [h25, h24]
    rfl
  refine ⟨?_, ?_, ?_⟩
  · rw [OhciTd.stage, htoggle, hbytes, hrange]
    show (pidOf ((tdControl _ _ _).extractLsb' 19 2)).map _ = _
    rw [hpid]
    rfl
  · rw [carryOn_eq (by omega), htoggle]
    rfl
  · rw [setupTd]
    simp only
    split
    · exact hdataPhys
    · rw [hstatusPhys]
      omega

/-- The data descriptors and the status descriptor, from a data descriptor on. -/
theorem InMemory.followTds (h : InMemory alloc packet maxpacketsize length address lowSpeed n bytes)
    (hmps : maxpacketsize < 2 ^ 11) (hn : n = packetCount length maxpacketsize)
    (halign : 16 ∣ alloc.physicalAddress)
    (hfit : alloc.physicalAddress + 72 + 16 * n + length ≤ 2 ^ 32) {k j : Nat} (hj : j + k = n) :
    followTds bytes maxpacketsize (alloc.physicalAddress + 48 + 16 * n) (k + 2)
      (alloc.physicalAddress + 32 + 16 * j) (decide (j % 2 = 0)) =
      some ((List.range' j k).map (fun i => (alloc.physicalAddress + 32 + 16 * i,
        some (Stage.mk .input (decide (i % 2 = 0))
          (List.range' (alloc.physicalAddress + 72 + 16 * n + maxpacketsize * i)
            (packetLength length maxpacketsize i))))) ++
        [(alloc.physicalAddress + 32 + 16 * n,
          some ⟨if length = 0 then .input else .output, true, []⟩)]) := by
  obtain ⟨-, -, -, hdummyPhys, -, -⟩ := transferLayout_toNat hfit
  obtain ⟨q, hq⟩ := halign
  induction k generalizing j with
  | zero =>
    have hjn : j = n := hj
    have hstatus := tdAt_of_hasWords h.status
    have hnext : (statusTd (transferLayout alloc n) (decide (length = 0))).nextTd.toNat / 16 * 16 =
        alloc.physicalAddress + 48 + 16 * n := by
      show (transferLayout alloc n).dummyPhys.toNat / 16 * 16 = _
      omega
    rw [Ohci.followTds, if_neg (by omega)]
    simp only
    rw [hjn, hstatus, hnext, Ohci.followTds, if_pos rfl, statusTd_stage]
    simp only [decide_eq_true_eq]
    rfl
  | succ k ih =>
    obtain ⟨hstage, hcarry, hnext⟩ := @dataTdOf_spec alloc n maxpacketsize length hmps hn hfit j (by omega)
    have hdata := tdAt_of_hasWords (h.data j (by omega))
    rw [Ohci.followTds, if_neg (by omega)]
    simp only
    rw [hdata, hstage, hcarry, hnext, show (alloc.physicalAddress + 32 + 16 * (j + 1)) / 16 * 16 =
      alloc.physicalAddress + 32 + 16 * (j + 1) by omega, ih (j := j + 1) (by omega), Option.map_some,
      List.range'_succ, List.map_cons, List.cons_append]

/-- **What the controller finds behind the endpoint descriptor.** -/
theorem InMemory.endpointTds (h : InMemory alloc packet maxpacketsize length address lowSpeed n bytes)
    (h8 : 8 ≤ maxpacketsize) (hmps : maxpacketsize < 2 ^ 11) (hn : n = packetCount length maxpacketsize)
    (halign : 16 ∣ alloc.physicalAddress)
    (hfit : alloc.physicalAddress + 72 + 16 * n + length ≤ 2 ^ 32) :
    endpointTds bytes (n + 3) alloc.physicalAddress = some
      ((alloc.physicalAddress + 16,
        some (Stage.mk .setup false (List.range' (alloc.physicalAddress + 64 + 16 * n) 8))) ::
      ((List.range n).map (fun i => (alloc.physicalAddress + 32 + 16 * i,
        some (Stage.mk .input (decide (i % 2 = 0))
          (List.range' (alloc.physicalAddress + 72 + 16 * n + maxpacketsize * i)
            (packetLength length maxpacketsize i))))) ++
        [(alloc.physicalAddress + 32 + 16 * n,
          some ⟨if length = 0 then .input else .output, true, []⟩)])) := by
  obtain ⟨hsetupPhys, -, -, hdummyPhys, -, -⟩ := transferLayout_toNat hfit
  have hed := h.ed
  rw [edWords] at hed
  have hfollow := h.followTds hmps hn halign hfit (j := 0) (Nat.zero_add n)
  obtain ⟨q, hq⟩ := halign
  generalize hl : transferLayout alloc n = l at *
  have hbit : l.setupTdPhys.getLsbD 1 = false := by
    rw [← BitVec.testBit_toNat, hsetupPhys, Nat.testBit_succ, Nat.testBit_zero]
    simp
    omega
  subst hl
  obtain ⟨hstage, hcarry, hnext⟩ := @setupTd_spec alloc n maxpacketsize length h8 hfit false
  have hsetup := tdAt_of_hasWords h.setup
  rw [Ohci.endpointTds, hed.load32, hed.tail.load32, hed.tail.tail.load32,
    extractLsb'_edControl address lowSpeed hmps, hbit, hsetupPhys, hdummyPhys,
    show (alloc.physicalAddress + 48 + 16 * n) / 16 * 16 = alloc.physicalAddress + 48 + 16 * n by omega,
    show (alloc.physicalAddress + 16) / 16 * 16 = alloc.physicalAddress + 16 by omega, Ohci.followTds,
    if_neg (by omega), hsetup]
  simp only
  rw [hstage, hcarry, hnext,
    show (alloc.physicalAddress + 32) / 16 * 16 = alloc.physicalAddress + 32 + 16 * 0 by omega]
  rw [show true = decide (0 % 2 = 0) from rfl, hfollow, Option.map_some, List.range_eq_range']
  rfl

/-- **The descriptors of a transfer.**  The controller finds the transfer that was asked for, and nothing is
out of its place. -/
theorem controlChain (bytes : Nat → BitVec 8) (address : BitVec 8) (lowSpeed : Bool)
    (hr : rejects packet maxpacketsize length = false) (h8 : 8 ≤ maxpacketsize) (hmps : maxpacketsize < 2 ^ 11)
    (hn : n = packetCount length maxpacketsize) (halign : 16 ∣ alloc.physicalAddress)
    (hfit : alloc.physicalAddress + transferSize n length ≤ 2 ^ 32) :
    let memory := writeTransfer alloc packet maxpacketsize length address lowSpeed bytes
    let setup := alloc.physicalOf (transferLayout alloc n).setup
    ∃ fuel tds stages, Ohci.endpointTds memory fuel alloc.physicalAddress = some tds ∧
      tds.map (fun t => t.2) = stages.map some ∧
      ControlStages memory packet setup (setup + 8) length maxpacketsize stages ∧
      Placement 16 ⟨alloc.physicalAddress, transferSize n length⟩
        (⟨alloc.physicalAddress, sizeofEd⟩ :: (tds.map fun t => ⟨t.1, sizeofTd⟩) ++
          [⟨alloc.physicalOf (transferLayout alloc n).dummyTd, sizeofTd⟩])
        [⟨setup, 8⟩, ⟨setup + 8, length⟩] := by
  have hdummyTd : alloc.physicalOf (transferLayout alloc n).dummyTd =
      alloc.physicalAddress + 48 + 16 * n := by
    simp only [transferLayout, sizeofTd, sizeofEd, DmaRet.physicalOf]
    omega
  have hsize : transferSize n length = 72 + 16 * n + length := by
    rw [transferSize, sizeofTd, sizeofEd]
    omega
  obtain ⟨hmem, -⟩ := writeTransfer_spec alloc address lowSpeed bytes hr hn
  simp only
  rw [physicalOf_setup, hdummyTd,
    show alloc.physicalAddress + 64 + 16 * n + 8 = alloc.physicalAddress + 72 + 16 * n by omega]
  refine ⟨n + 3, _, _ :: (packetStages _ _ _ ++ [_]), hmem.endpointTds h8 hmps hn halign (by omega), ?_,
    controlStages_packets (rejects_eq_false hr).1 hmem.packet, ?_⟩
  · rw [List.map_cons, List.map_append, List.map_map, List.map_cons, List.map_nil, List.map_cons,
      List.map_append, List.map_cons, List.map_nil, packetStages, List.map_map, ← hn]
    rfl
  · have hsum : (16 :: 16 :: (List.replicate n 16 ++ [16, 16, 8, length])).sum = transferSize n length := by
      simp [hsize]
      omega
    rw [← hsum]
    apply Placement.of_row
    · simp only [Span.row, Span.row_append, Span.row_replicate, List.sum_replicate, List.map_cons,
        List.map_append, List.map_map, List.map_nil, List.cons_append, List.append_assoc, List.nil_append,
        sizeofEd, sizeofTd, Nat.nsmul_eq_mul]
      simp only [Nat.mul_comm n 16, show alloc.physicalAddress + 16 + 16 = alloc.physicalAddress + 32 from rfl,
        show alloc.physicalAddress + 32 + 16 * n + 16 = alloc.physicalAddress + 48 + 16 * n by omega,
        show alloc.physicalAddress + 48 + 16 * n + 16 = alloc.physicalAddress + 64 + 16 * n by omega,
        show alloc.physicalAddress + 64 + 16 * n + 8 = alloc.physicalAddress + 72 + 16 * n by omega]
      rfl
    · intro s hs
      simp only [List.map_cons, List.map_append, List.map_map, List.map_nil, List.mem_cons,
        List.mem_append, List.mem_map, List.not_mem_nil, or_false] at hs
      rcases hs with (rfl | rfl | ⟨j, -, rfl⟩ | rfl) | rfl
      · exact halign
      · simp only
        omega
      · simp only [Function.comp_apply]
        omega
      · simp only
        omega
      · simp only
        omega

end

end Dem64.Ohci
