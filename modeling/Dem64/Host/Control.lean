import Dem64.Dma.World
import Dem64.Lib.ByteMemory
import Dem64.Lib.Span
import Dem64.Usb.Ep0
import Mathlib.Data.List.Range

/-!
# What a control transfer has to be

A control transfer on endpoint 0 is a SETUP transaction with the 8 bytes of the packet, the transactions
of the data stage, and an empty transaction in the other direction.  UHCI, EHCI and OHCI describe it by
chains of descriptors of different kinds.  What the controller makes of a chain is a list of stages
(`Stage`), the same for all three, and `ControlStages` says which lists of stages are the transfer that
was asked for.  `Placement` says where the descriptors and the buffers may be.
-/

set_option autoImplicit false

namespace Dem64

open ByteMemory

/-- Where a byte of a block is in physical memory: the page tables map a block to frames side by side. -/
def DmaRet.physicalOf (alloc : DmaRet) (va : Nat) : Nat :=
  alloc.physicalAddress + (va - alloc.virtualAddress)

theorem DmaRet.physicalOf_add (alloc : DmaRet) (k : Nat) :
    alloc.physicalOf (alloc.virtualAddress + k) = alloc.physicalAddress + k := by
  rw [physicalOf, Nat.add_sub_cancel_left]

/-- The tests `usb_send_packet` makes before the transfer, the same in UHCI, EHCI and OHCI. -/
def rejects (packet : UsbSetupPacket) (maxpacketsize length : Nat) : Bool :=
  maxpacketsize == 0 || length != packet.wLength.toNat || length > 4096 ||
    (length != 0 && packet.bmRequestType &&& 0x80 == 0)

/-- The bytes of a `usb_setup_packet`. -/
def UsbSetupPacket.bytes (packet : UsbSetupPacket) : List (BitVec 8) :=
  [packet.bmRequestType, packet.bRequest, packet.wValue.extractLsb' 0 8, packet.wValue.extractLsb' 8 8,
    packet.wIndex.extractLsb' 0 8, packet.wIndex.extractLsb' 8 8, packet.wLength.extractLsb' 0 8,
    packet.wLength.extractLsb' 8 8]

/-- `setup->BmRequestType & 0x80` and `setup->wLength != 0`, as the driver reads them in memory: the
status stage goes to the host if no data do. -/
def statusIn (memory : Nat → BitVec 8) (setup : Nat) : Bool :=
  let dataIn := memory setup &&& 0x80 != 0
  let hasData := memory (setup + 6) != 0 || memory (setup + 7) != 0
  !hasData || !dataIn

theorem rejects_eq_false {packet : UsbSetupPacket} {maxpacketsize length : Nat}
    (h : rejects packet maxpacketsize length = false) : 0 < maxpacketsize ∧
      length = packet.wLength.toNat ∧ length ≤ 4096 ∧ (length ≠ 0 → packet.bmRequestType &&& 0x80 ≠ 0) := by
  simp only [rejects, Bool.or_eq_false_iff, beq_eq_false_iff_ne, bne_eq_false_iff_eq, Bool.and_eq_false_imp,
    decide_eq_false_iff_not, bne_iff_ne] at h
  exact ⟨by omega, h.1.1.2, by omega, h.2⟩

theorem length_bytes (packet : UsbSetupPacket) : packet.bytes.length = 8 := rfl

/-- The driver reads in memory what it wrote there. -/
theorem statusIn_eq {memory : Nat → BitVec 8} {packet : UsbSetupPacket} {setup maxpacketsize length : Nat}
    (h : HasBytes memory setup packet.bytes) (hr : rejects packet maxpacketsize length = false) :
    statusIn memory setup = decide (length = 0) := by
  obtain ⟨-, hlength, -, hin⟩ := rejects_eq_false hr
  obtain ⟨h0, -, -, -, -, -, h6, h7, -⟩ := h
  rw [statusIn, h0, show memory (setup + 6) = _ from h6, show memory (setup + 7) = _ from h7]
  by_cases hzero : length = 0
  · have hw : packet.wLength = 0 := BitVec.eq_of_toNat_eq (by rw [← hlength, hzero]; rfl)
    rw [hw, hzero]
    rfl
  · have hw : packet.wLength.extractLsb' 0 8 ≠ 0 ∨ packet.wLength.extractLsb' 8 8 ≠ 0 := by
      by_contra hno
      obtain ⟨hlo, hhi⟩ := not_or.mp hno
      have hlo := congrArg BitVec.toNat (not_not.mp hlo)
      have hhi := congrArg BitVec.toNat (not_not.mp hhi)
      simp [Nat.shiftRight_eq_div_pow] at hlo hhi
      have hlt := packet.wLength.isLt
      omega
    have hdata : (packet.wLength.extractLsb' 0 8 != 0 || packet.wLength.extractLsb' 8 8 != 0) = true := by
      simpa using hw
    simp only [hdata, Bool.not_true, Bool.false_or]
    rw [decide_eq_false hzero, bne_iff_ne.mpr (hin hzero), Bool.not_true]

/-- `uhci_transfer_result`, `ehci_transfer_result` and `ohci_transfer_result`. -/
inductive TransferResult where
  /-- `success`. -/
  | success
  /-- `timeout`. -/
  | timeout
  /-- `transfer_error`. -/
  | transferError
deriving DecidableEq, Repr

/-- What `usb_send_packet` returns that is not a null pointer. -/
inductive Response where
  /-- `(void *)1`. -/
  | done
  /-- A buffer of the kernel heap. -/
  | buffer (bytes : List (BitVec 8))
deriving DecidableEq

/-- The fields of `usb_device` that `set_address` sets. -/
structure UsbDevice where
  /-- `address`. -/
  address : BitVec 8 := 0
  /-- `speed`. -/
  speed : BitVec 8 := 0
  /-- `discovered`. -/
  discovered : Bool := false
  /-- The 18 bytes of `descriptor`. -/
  descriptor : Nat → BitVec 8 := fun _ => 0

/-- A device descriptor with a packet size of endpoint 0 for low or full speed, the test at the start of
`set_address` in UHCI and OHCI: `bLength`, `bDescriptorType` and `bMaxPacketSize0` are bytes 0, 1 and 7. -/
def fullSpeedDescriptor (desc : Nat → BitVec 8) : Bool :=
  desc 0 == 18 && desc 1 == 1 && (desc 7 == 8 || desc 7 == 16 || desc 7 == 32 || desc 7 == 64)

/-- What a transfer comes to whose descriptors are not modelled. -/
structure Transfer where
  /-- How the wait ends. -/
  result : TransferResult
  /-- The number of bytes that were received, as the driver counts them. -/
  received : BitVec 32 := 0
  /-- What is in the buffer afterwards. -/
  buffer : Nat → BitVec 8 := fun _ => 0

/-- `valid_descriptor` in `set_address`: a device descriptor of 18 bytes was received. -/
def Transfer.validDescriptor (t : Transfer) : Bool := t.received == 18 && t.buffer 1 == 1 && t.buffer 0 == 18

/-- `allocate_usb_address`: the address and `next_usb_address` afterwards.  0 is no address. -/
def allocateUsbAddress (nextUsbAddress : BitVec 8) : BitVec 8 × BitVec 8 :=
  if nextUsbAddress > 127 then (0, nextUsbAddress) else (nextUsbAddress, nextUsbAddress + 1)

/-- The physical address does not fit into 32 bits. -/
def DmaRet.tooBig (alloc : DmaRet) : Bool := alloc.physicalAddress > 0xFFFFFFFF

/-- The kinds of transactions. -/
inductive Pid where
  /-- SETUP. -/
  | setup
  /-- From the device. -/
  | input
  /-- To the device. -/
  | output
deriving DecidableEq, Repr

/-- What the controller does for one descriptor. -/
structure Stage where
  /-- The kind of the transaction. -/
  pid : Pid
  /-- The data toggle of its first packet, false for DATA0 and true for DATA1. -/
  toggle : Bool
  /-- The addresses of the bytes that are moved, in the order of the bytes. -/
  bytes : List Nat
deriving DecidableEq

/-- The stages are a control transfer with this packet, which is at `setup`, and `length` bytes from the
device, for which there is room at `area`.  A descriptor moves at most `limit` bytes. -/
structure ControlStages (memory : Nat → BitVec 8) (packet : UsbSetupPacket)
    (setup area length limit : Nat) (stages : List Stage) : Prop where
  /-- The packet is where the SETUP transaction takes it from. -/
  packet_bytes : HasBytes memory setup packet.bytes
  /-- A SETUP transaction with DATA0 and exactly the packet comes first, and an empty transaction with
  DATA1 last, in the direction in which no data go. -/
  frame : ∃ data, stages = ⟨.setup, false, List.range' setup 8⟩ ::
      (data ++ [⟨if length = 0 then .input else .output, true, []⟩]) ∧
    -- the data stage fills the area in order
    data.flatMap Stage.bytes = List.range' area length ∧
    (∀ s ∈ data, s.pid = .input ∧ 0 < s.bytes.length ∧ s.bytes.length ≤ limit) ∧
    -- the toggles alternate, from DATA1 on
    ∀ i s, data[i]? = some s → s.toggle = decide (i % 2 = 0)

/-- The descriptors are aligned, and they and the buffers are apart and in the block. -/
structure Placement (align : Nat) (block : Span) (descriptors buffers : List Span) : Prop where
  /-- The links of the controller leave no room for other addresses. -/
  aligned : ∀ s ∈ descriptors, align ∣ s.start
  /-- Nothing overlaps. -/
  apart : (descriptors ++ buffers).Pairwise Span.Apart
  /-- Everything is in the bytes that were allocated. -/
  inside : ∀ s ∈ descriptors ++ buffers, s.Inside block

/-- A row is well placed in the block that it fills. -/
theorem Placement.of_row {align start : Nat} {lengths : List Nat} {descriptors buffers : List Span}
    (hrow : descriptors ++ buffers = Span.row start lengths) (halign : ∀ s ∈ descriptors, align ∣ s.start) :
    Placement align ⟨start, lengths.sum⟩ descriptors buffers where
  aligned := halign
  apart := hrow ▸ Span.pairwise_row start lengths
  inside _ hs := Span.inside_of_mem_row (hrow ▸ hs)

/-- An address and flags share a word, if the address leaves room for them. -/
theorem toNat_or_flags {x flags : BitVec 32} (k : Nat) (hx : 2 ^ k ∣ x.toNat) (hflags : flags.toNat < 2 ^ k) :
    (x ||| flags).toNat = x.toNat + flags.toNat := by
  obtain ⟨q, hq⟩ := hx
  rw [BitVec.toNat_or, hq, Nat.two_pow_add_eq_or_of_lt hflags]

/-! ## A data stage in packets -/

/-- How many packets of `limit` bytes there are in `length` bytes. -/
def packetCount (length limit : Nat) : Nat := (length + limit - 1) / limit

/-- The size of packet `j`. -/
def packetLength (length limit j : Nat) : Nat := min (length - limit * j) limit

/-- One stage for every packet. -/
def packetStages (area length limit : Nat) : List Stage :=
  (List.range (packetCount length limit)).map fun j =>
    ⟨.input, decide (j % 2 = 0), List.range' (area + limit * j) (packetLength length limit j)⟩

section

variable {area length limit j : Nat}

theorem packetCount_spec (h : 0 < limit) : length ≤ limit * packetCount length limit := by
  have hmod := Nat.div_add_mod (length + limit - 1) limit
  have hlt := Nat.mod_lt (length + limit - 1) h
  rw [packetCount]
  omega

theorem lt_of_lt_packetCount (hj : j < packetCount length limit) : limit * j < length := by
  rw [packetCount] at hj
  rcases Nat.eq_zero_or_pos limit with rfl | h
  · rw [Nat.div_zero] at hj
    omega
  · have hle : limit * (j + 1) ≤ length + limit - 1 := by
      rw [Nat.mul_comm]
      exact (Nat.le_div_iff_mul_le h).mp hj
    rw [Nat.mul_succ] at hle
    omega

theorem packetCount_eq_zero (h : 0 < limit) : packetCount length limit = 0 ↔ length = 0 := by
  constructor
  · intro h0
    have hle := @packetCount_spec length _ h
    rw [h0, Nat.mul_zero] at hle
    omega
  · rintro rfl
    exact Nat.div_eq_of_lt (by omega)

theorem packetLength_pos (hj : j < packetCount length limit) : 0 < packetLength length limit j := by
  have hlt := lt_of_lt_packetCount hj
  have hlimit : 0 < limit := by
    by_contra h0
    rw [packetCount, show limit = 0 by omega, Nat.div_zero] at hj
    omega
  rw [packetLength]
  omega

/-- All packets before are full. -/
theorem packetLength_of_succ_lt (hj : j + 1 < packetCount length limit) :
    packetLength length limit j = limit := by
  have hlt := lt_of_lt_packetCount hj
  rw [Nat.mul_succ] at hlt
  rw [packetLength]
  omega

theorem flatMap_packets (n : Nat) :
    (List.range n).flatMap (fun j => List.range' (area + limit * j) (packetLength length limit j)) =
      List.range' area (min length (limit * n)) := by
  induction n with
  | zero => simp
  | succ n ih =>
    rw [List.range_succ, List.flatMap_append, ih, List.flatMap_singleton, packetLength, Nat.mul_succ]
    rcases Nat.le_total length (limit * n) with h | h
    · rw [Nat.min_eq_left h, Nat.sub_eq_zero_of_le h, Nat.zero_min, List.range'_zero, List.append_nil,
        Nat.min_eq_left (by omega)]
    · rw [Nat.min_eq_right h, List.range'_append_1, show min length (limit * n + limit) =
        limit * n + min (length - limit * n) limit by omega]

/-- **The packets are a control transfer.** -/
theorem controlStages_packets {memory : Nat → BitVec 8} {packet : UsbSetupPacket} {setup : Nat}
    (hlimit : 0 < limit) (hpacket : HasBytes memory setup packet.bytes) :
    ControlStages memory packet setup area length limit
      (⟨.setup, false, List.range' setup 8⟩ :: (packetStages area length limit ++
        [⟨if length = 0 then .input else .output, true, []⟩])) where
  packet_bytes := hpacket
  frame := by
    refine ⟨packetStages area length limit, rfl, ?_, ?_, ?_⟩
    · rw [packetStages, List.flatMap_map]
      simp only
      rw [flatMap_packets, Nat.min_eq_left (packetCount_spec hlimit)]
    · intro s hs
      rw [packetStages, List.mem_map] at hs
      obtain ⟨j, hj, rfl⟩ := hs
      rw [List.mem_range] at hj
      simp only [List.length_range', true_and]
      exact ⟨packetLength_pos hj, Nat.min_le_right _ _⟩
    · intro i s hs
      rw [packetStages, List.getElem?_map] at hs
      obtain ⟨j, hj, rfl⟩ := Option.map_eq_some_iff.mp hs
      obtain ⟨-, rfl⟩ := List.getElem?_eq_some_iff.mp hj
      simp

end

end Dem64
