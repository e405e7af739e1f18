import Dem64.Ehci.Answer
import Dem64.Ohci.Answer
import Dem64.Uhci.Answer

/-!
# Responses and what was in memory before

A response of `usb_send_packet` has as many bytes as were asked for.  Whether all of them are the device's
does not depend on the host controller: they are if and only if the device has sent that many
(`responses_from_device`).  A short answer is completed with what was in the block, which is what the kernel
has put there for another request (`short_answer_leaks`).

The drivers know how much was received.  UHCI and EHCI count it in the wait, and `set_address` refuses a
device descriptor that is not complete; `usb_send_packet` does not look at the count.
-/

set_option autoImplicit false

namespace Dem64

open ByteMemory

/-- In all runs that differ in the former contents of the block only, the response is the same. -/
def FromDevice (alloc : DmaRet) (former : Nat → BitVec 8) (send : (Nat → BitVec 8) → Option Response) : Prop :=
  ∀ f, (∀ a, ¬ alloc.Holds a → f a = former a) → send f = send former

section

variable {packet : UsbSetupPacket} {maxpacketsize length : Nat} {address : BitVec 8}
  {former : Nat → BitVec 8} {response : Response} {d : List (BitVec 8)}

/-- **A response comes from the device if and only if the device has sent all of it.**  The block is as large as
was asked for, the controller writes the bytes `d` of the device before the status descriptor, and the
request succeeds. -/
theorem responses_from_device (hlength : length ≠ 0) :
    (∀ (r : Uhci.SendPacket) (s : Uhci.UhciState),
      let n := packetCount length maxpacketsize
      let send := fun f => (Uhci.usbSendPacket r packet maxpacketsize length address f s).1
      Uhci.transferSize n length ≤ 4096 * r.alloc.sizeInPages →
      DeviceSends r.writes (Uhci.answerArea r.alloc n) length ((Uhci.transferTds r.alloc n).statusTd + 6)
        Uhci.inactive d →
      send former = some response → (FromDevice r.alloc former send ↔ d.length = length)) ∧
    (∀ (r : Ehci.SendPacket) (s : Ehci.EhciState),
      let send := fun f => (Ehci.usbSendPacket r packet maxpacketsize length address f s).1
      Ehci.transferSize length ≤ 4096 * r.alloc.sizeInPages →
      DeviceSends r.writes (Ehci.answerArea r.alloc length) length
        ((Ehci.transferQtds r.alloc length).statusQtd + 8) Ehci.inactive d →
      send former = some response → (FromDevice r.alloc former send ↔ d.length = length)) ∧
    (∀ (r : Ohci.SendPacket) (s : Ohci.OhciState),
      let n := packetCount length maxpacketsize
      let send := fun f => (Ohci.usbSendPacket r packet maxpacketsize length address f s).1
      Ohci.transferSize n length ≤ 4096 * r.alloc.sizeInPages →
      DeviceSends r.writes (Ohci.answerArea r.alloc n) length
        ((Ohci.transferTds r.alloc n length).statusTd + 3) Ohci.retired d →
      send former = some response → (FromDevice r.alloc former send ↔ d.length = length)) := by
  refine ⟨?_, ?_, ?_⟩
  · intro r s n send hsize hsends hsome
    rw [FromDevice, hsome]
    exact Uhci.usbSendPacket_same_iff hlength hsize hsends hsome
  · intro r s send hsize hsends hsome
    rw [FromDevice, hsome]
    exact Ehci.usbSendPacket_same_iff hlength hsize hsends hsome
  · intro r s n send hsize hsends hsome
    rw [FromDevice, hsome]
    exact Ohci.usbSendPacket_same_iff hlength hsize hsends hsome

end

/-! ## A device descriptor, complete and not -/

/-- The controller writes a word. -/
def wordWrites (a : Nat) (w : BitVec 32) : List (Nat × BitVec 8) :=
  (wordBytes w).mapIdx fun i b => (a + i, b)

/-- The controller writes everything before the driver looks for the first time. -/
def atOnce (l : List (Nat × BitVec 8)) (t : Nat) : List (Nat × BitVec 8) := if t = 0 then l else []

theorem deviceSends_atOnce {l : List (Nat × BitVec 8)} {area length status : Nat} {finished : BitVec 8 → Bool}
    {d : List (BitVec 8)} (hfits : d.length ≤ length)
    (honly : ∀ x ∈ l, area ≤ x.1 → x.1 < area + length → d[x.1 - area]? = some x.2)
    (hall : ∀ i, i < d.length → ∃ x ∈ l, x.1 = area + i) :
    DeviceSends (atOnce l) area length status finished d where
  fits := hfits
  only t a b hmem := by
    rw [atOnce] at hmem
    split at hmem
    · exact honly _ hmem
    · exact absurd hmem (List.not_mem_nil)
  complete t b hmem _ i hi := by
    obtain ⟨⟨_, b'⟩, hx, rfl⟩ := hall i hi
    exact ⟨0, Nat.zero_le t, b', by rwa [atOnce, if_pos rfl]⟩

/-- A request for the device descriptor. -/
def descriptorRequest : UsbSetupPacket := ⟨0x80, 6, 0x100, 0, 18⟩

/-- A device descriptor. -/
def someAnswer : List (BitVec 8) :=
  [18, 1, 0, 2, 0, 0, 0, 64, 0x81, 0x07, 0x66, 0x55, 0, 1, 1, 2, 3, 1]

/-- A page. -/
def somePage : DmaRet := { sizeInPages := 1, virtualAddress := 0x7000, physicalAddress := 0x100000 }

/-- A controller that is ready at once. -/
def readyVisit : Uhci.Visit where
  halted _ := 0x20
  started _ := 0
  haltedAgain _ := 0x20
  startedAgain _ := 0

/-- What another request has left in the page. -/
def leftovers (a : Nat) : BitVec 8 := if 0x100000 ≤ a ∧ a < 0x101000 then 0x5A else 0

/-- A UHCI controller runs the request on a device that answers `d`. -/
def uhciRun (d : List (BitVec 8)) : Uhci.SendPacket where
  portStatus := 1
  alloc := somePage
  visit := readyVisit
  writes := atOnce (wordWrites 0x100014 7 ++ wordWrites 0x100034 (BitVec.ofNat 32 (d.length - 1)) ++
    wordWrites 0x100054 0x7FF ++ d.mapIdx fun i b => (0x100078 + i, b))
  kmalloc := true

/-- An EHCI controller runs it. -/
def ehciRun (d : List (BitVec 8)) : Ehci.SendPacket where
  alloc := somePage
  unlink := { command := 0, status := fun _ => Ehci.ehciUsbstsIaa }
  writes := atOnce (wordWrites 0x100068 0 ++ wordWrites 0x1000A8 (BitVec.ofNat 32 (18 - d.length) <<< 16) ++
    wordWrites 0x1000E8 0 ++ d.mapIdx fun i b => (0x100128 + i, b))
  kmalloc := true

/-- An OHCI controller runs it. -/
def ohciRun (d : List (BitVec 8)) : Ohci.SendPacket where
  alloc := somePage
  portStatus := 1
  stopped := true
  writes := atOnce (wordWrites 0x100008 0x100040 ++ wordWrites 0x100010 0 ++ wordWrites 0x100020 0 ++
    wordWrites 0x100024 (if d.length < 18 then BitVec.ofNat 32 (0x100058 + d.length) else 0) ++
    wordWrites 0x100030 0 ++ d.mapIdx fun i b => (0x100058 + i, b))
  restored := true
  kmalloc := true

/-- The driver for UHCI. -/
def someUhci : Uhci.UhciState := ⟨fun _ => 1, 2, [], fun _ => 0⟩

/-- The driver for EHCI. -/
def someEhci : Ehci.EhciState where
  schedule := ⟨Function.update (fun _ => 0) 0x200000 0x200002, [], [], []⟩
  history := []
  asyncHeadPhys := 0x200000
  nextUsbAddress := 2
  needsReinit := false
  devices _ := 0

/-- The driver for OHCI. -/
def someOhci : Ohci.OhciState := ⟨2, false, [], [], fun _ => 0⟩

/-- Of a device that stops after 8 bytes, each of the three drivers returns 18, of which 10 are what was in the
block. -/
theorem short_answer_leaks :
    let d := someAnswer.take 8
    let uhci f := (Uhci.usbSendPacket (uhciRun d) descriptorRequest 64 18 1 f someUhci).1
    let ehci f := (Ehci.usbSendPacket (ehciRun d) descriptorRequest 64 18 1 f someEhci).1
    let ohci f := (Ohci.usbSendPacket (ohciRun d) descriptorRequest 64 18 1 f someOhci).1
    (∀ a, ¬ somePage.Holds a → leftovers a = 0) ∧
    DeviceSends (uhciRun d).writes 0x100078 18 0x100056 Uhci.inactive d ∧
    DeviceSends (ehciRun d).writes 0x100128 18 0x1000E8 Ehci.inactive d ∧
    DeviceSends (ohciRun d).writes 0x100058 18 0x100033 Ohci.retired d ∧
    (∀ send ∈ [uhci, ehci, ohci],
      send (fun _ => 0) = some (.buffer (d ++ List.replicate 10 0)) ∧
      send leftovers = some (.buffer (d ++ List.replicate 10 0x5A)) ∧
      ¬ FromDevice somePage (fun _ => 0) send) := by
  intro d uhci ehci ohci
  have hblock : ∀ a, ¬ somePage.Holds a → leftovers a = 0 := fun a ha => if_neg ha
  have hresponse : ∀ send ∈ [uhci, ehci, ohci],
      send (fun _ => 0) = some (.buffer (d ++ List.replicate 10 0)) ∧
      send leftovers = some (.buffer (d ++ List.replicate 10 0x5A)) := by decide +kernel
  refine ⟨hblock, ?_, ?_, ?_, fun send hs => ?_⟩
  · exact deviceSends_atOnce (by decide) (by decide +kernel) (by decide +kernel)
  · exact deviceSends_atOnce (by decide) (by decide +kernel) (by decide +kernel)
  · exact deviceSends_atOnce (by decide) (by decide +kernel) (by decide +kernel)
  · obtain ⟨hzero, hleft⟩ := hresponse send hs
    refine ⟨hzero, hleft, fun h => ?_⟩
    have hsame := h leftovers hblock
    rw [hleft, hzero] at hsame
    exact absurd hsame (by decide)

/-- A device that answers in full. -/
theorem responses_from_device_full :
    FromDevice somePage leftovers
      (fun f => (Uhci.usbSendPacket (uhciRun someAnswer) descriptorRequest 64 18 1 f someUhci).1) ∧
    FromDevice somePage leftovers
      (fun f => (Ehci.usbSendPacket (ehciRun someAnswer) descriptorRequest 64 18 1 f someEhci).1) ∧
    FromDevice somePage leftovers
      (fun f => (Ohci.usbSendPacket (ohciRun someAnswer) descriptorRequest 64 18 1 f someOhci).1) := by
  have h := fun response => @responses_from_device descriptorRequest 64 18 1 leftovers response someAnswer
    (by decide)
  refine ⟨((h (.buffer someAnswer)).1 (uhciRun someAnswer) someUhci ?_ ?_ ?_).mpr rfl,
    ((h (.buffer someAnswer)).2.1 (ehciRun someAnswer) someEhci ?_ ?_ ?_).mpr rfl,
    ((h (.buffer someAnswer)).2.2 (ohciRun someAnswer) someOhci ?_ ?_ ?_).mpr rfl⟩
  · decide
  · exact deviceSends_atOnce (by decide) (by decide +kernel) (by decide +kernel)
  · decide +kernel
  · decide
  · exact deviceSends_atOnce (by decide) (by decide +kernel) (by decide +kernel)
  · decide +kernel
  · decide
  · exact deviceSends_atOnce (by decide) (by decide +kernel) (by decide +kernel)
  · decide +kernel

end Dem64
