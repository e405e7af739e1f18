import Dem64.Ehci.Chain
import Dem64.Ohci.Chain
import Dem64.Uhci.Chain

/-!
# The descriptor chains of the three host controllers

`usb_send_packet` of each of the three drivers builds the control transfer that it was asked for, in bytes
that it allocated.  The sizes and the offsets are different, and so are the ways the controllers go through
the descriptors; what they come to is the same.
-/

set_option autoImplicit false

namespace Dem64

/-- A page-aligned block below 4 GiB. -/
def DmaRet.Below4GiB (alloc : DmaRet) (size : Nat) : Prop :=
  4096 ∣ alloc.physicalAddress ∧ alloc.physicalAddress + size ≤ 2 ^ 32

/-- The packet sizes of endpoint 0 at low and full speed. -/
def fullSpeedPackets : List Nat := [8, 16, 32, 64]

theorem rejects_of_request {packet : UsbSetupPacket} {maxpacketsize length : Nat} (hmps : 0 < maxpacketsize)
    (hlength : length = packet.wLength.toNat) (h4096 : length ≤ 4096)
    (hin : length ≠ 0 → packet.bmRequestType &&& 0x80 ≠ 0) : rejects packet maxpacketsize length = false := by
  simp only [rejects, Bool.or_eq_false_iff, beq_eq_false_iff_ne, bne_eq_false_iff_eq, Bool.and_eq_false_imp,
    decide_eq_false_iff_not, bne_iff_ne]
  exact ⟨⟨⟨by omega, hlength⟩, by omega⟩, hin⟩

theorem fullSpeedPackets_bounds {maxpacketsize : Nat} (h : maxpacketsize ∈ fullSpeedPackets) :
    8 ≤ maxpacketsize ∧ maxpacketsize < 2 ^ 11 := by
  simp only [fullSpeedPackets, List.mem_cons, List.not_mem_nil, or_false] at h
  omega

/-- **Control-transfer descriptor chains.**  For every setup packet and every length up to 4096 that is its
`wLength`, with data from the device only, every packet size of endpoint 0 and every page-aligned block
below 4 GiB, whatever the block had in it before: the controller follows the links of the chain to its end
and finds one SETUP transaction with DATA0 and the 8 bytes of the packet, data transactions that fill the
room for the answer from its first to its last byte with toggles that alternate from DATA1 on, each at most
one packet for UHCI and OHCI and across the page boundary for EHCI, and an empty transaction in the other
direction with DATA1.  The descriptors are aligned, and everything is apart and in the bytes that were
allocated. -/
theorem control_transfer_chains (packet : UsbSetupPacket) (length : Nat)
    (hlength : length = packet.wLength.toNat) (h4096 : length ≤ 4096)
    (hin : length ≠ 0 → packet.bmRequestType &&& 0x80 ≠ 0)
    (alloc : DmaRet) (bytes : Nat → BitVec 8) (address : BitVec 8) :
    (∀ maxpacketsize ∈ fullSpeedPackets, ∀ lowSpeedStatus,
      let n := packetCount length maxpacketsize
      let memory := Uhci.writeTransfer alloc packet maxpacketsize length address lowSpeedStatus bytes
      let setup := alloc.physicalOf (Uhci.transferLayout alloc n).setup
      alloc.Below4GiB (Uhci.transferSize n length) →
        ∃ fuel tds stages, Uhci.queueTds memory fuel alloc.physicalAddress = some tds ∧
          tds.map (fun t => t.2.stage) = stages.map some ∧
          ControlStages memory packet setup (setup + 8) length maxpacketsize stages ∧
          Placement 16 ⟨alloc.physicalAddress, Uhci.transferSize n length⟩
            (⟨alloc.physicalAddress, Uhci.sizeofQh⟩ :: tds.map fun t => ⟨t.1, Uhci.sizeofTd⟩)
            [⟨setup, 8⟩, ⟨setup + 8, length⟩]) ∧
    (let memory := Ehci.writeTransfer alloc packet 64 length address bytes
      let setup := alloc.physicalOf (Ehci.transferLayout alloc length).setup
      alloc.Below4GiB (Ehci.transferSize length) →
        ∃ fuel qtds stages, Ehci.queueQtds memory fuel alloc.physicalAddress = some qtds ∧
          qtds.map (fun t => t.2.stage) = stages.map some ∧
          ControlStages memory packet setup (setup + 8) length length stages ∧
          Placement 32 ⟨alloc.physicalAddress, Ehci.transferSize length⟩
            (⟨alloc.physicalAddress, Ehci.sizeofQh⟩ :: qtds.map fun t => ⟨t.1, Ehci.sizeofQtd⟩)
            [⟨setup, 8⟩, ⟨setup + 8, length⟩]) ∧
    ∀ maxpacketsize ∈ fullSpeedPackets, ∀ lowSpeed,
      let n := packetCount length maxpacketsize
      let memory := Ohci.writeTransfer alloc packet maxpacketsize length address lowSpeed bytes
      let layout := Ohci.transferLayout alloc n
      let setup := alloc.physicalOf layout.setup
      alloc.Below4GiB (Ohci.transferSize n length) →
        ∃ fuel tds stages, Ohci.endpointTds memory fuel alloc.physicalAddress = some tds ∧
          tds.map (fun t => t.2) = stages.map some ∧
          ControlStages memory packet setup (setup + 8) length maxpacketsize stages ∧
          Placement 16 ⟨alloc.physicalAddress, Ohci.transferSize n length⟩
            (⟨alloc.physicalAddress, Ohci.sizeofEd⟩ :: (tds.map fun t => ⟨t.1, Ohci.sizeofTd⟩) ++
              [⟨alloc.physicalOf layout.dummyTd, Ohci.sizeofTd⟩])
            [⟨setup, 8⟩, ⟨setup + 8, length⟩] := by
  refine ⟨fun maxpacketsize hmps lowSpeedStatus => ?_, ?_, fun maxpacketsize hmps lowSpeed => ?_⟩
  · obtain ⟨h8, h11⟩ := fullSpeedPackets_bounds hmps
    rintro n memory setup ⟨halign, hfit⟩
    exact Uhci.controlChain bytes address lowSpeedStatus
      (rejects_of_request (by omega) hlength h4096 hin) h11 rfl (Dvd.dvd.trans (by decide) halign) hfit
  · rintro memory setup ⟨halign, hfit⟩
    exact Ehci.controlChain bytes address (rejects_of_request (by decide) hlength h4096 hin) halign hfit
  · obtain ⟨h8, h11⟩ := fullSpeedPackets_bounds hmps
    rintro n memory layout setup ⟨halign, hfit⟩
    exact Ohci.controlChain bytes address lowSpeed (rejects_of_request (by omega) hlength h4096 hin) h8 h11
      rfl (Dvd.dvd.trans (by decide) halign) hfit

/-- The 18 bytes of a device descriptor, in packets of 8. -/
theorem control_transfer_chains_descriptor :
    let packet : UsbSetupPacket := ⟨0x80, 6, 0x100, 0, 18⟩
    let alloc : DmaRet := { physicalAddress := 0x1000, virtualAddress := 0x5000, sizeInPages := 1 }
    let memory := Uhci.writeTransfer alloc packet 8 18 1 0 fun _ => 0xff
    let setup := alloc.physicalOf (Uhci.transferLayout alloc 3).setup
    ∃ fuel tds stages, Uhci.queueTds memory fuel 0x1000 = some tds ∧
      tds.map (fun t => t.2.stage) = stages.map some ∧
      ControlStages memory packet setup (setup + 8) 18 8 stages ∧
      Placement 16 ⟨0x1000, Uhci.transferSize 3 18⟩
        (⟨0x1000, Uhci.sizeofQh⟩ :: tds.map fun t => ⟨t.1, Uhci.sizeofTd⟩)
        [⟨setup, 8⟩, ⟨setup + 8, 18⟩] :=
  (control_transfer_chains ⟨0x80, 6, 0x100, 0, 18⟩ 18 rfl (by decide) (by decide)
    { physicalAddress := 0x1000, virtualAddress := 0x5000, sizeInPages := 1 } (fun _ => 0xff) 1).1 8
    (by decide) 0 ⟨by decide, by decide⟩

end Dem64
