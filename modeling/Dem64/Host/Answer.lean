import Dem64.Host.Blocks
import Dem64.Lib.SharedMemory

/-!
# The answer of a device

`usb_send_packet` copies as many bytes as were asked for.  A device may send fewer: it ends the data stage
with a short packet.  Then the rest of the copy is what was in the block before, and the block is not
cleared when it is allocated.

`DeviceSends` is what the driver relies on: the controller puts the bytes of the device to their places and
nothing else there, and has put all of them before it marks the status descriptor as finished.
`DeviceSends.same_iff` says what the driver's copy depends on, for any driver that looks at the memory until
the status descriptor is finished.
-/

set_option autoImplicit false

namespace Dem64

open ByteMemory SharedMemory

/-- The controller writes the bytes `d` of the device to the room for the answer.  `status` is the byte of
the status descriptor that shows when it is finished. -/
structure DeviceSends (writes : Nat → List (Nat × BitVec 8)) (area length status : Nat)
    (finished : BitVec 8 → Bool) (d : List (BitVec 8)) : Prop where
  /-- A device sends no more than it was asked for. -/
  fits : d.length ≤ length
  /-- What is written to the room is what the device has sent. -/
  only : ∀ t a b, (a, b) ∈ writes t → area ≤ a → a < area + length → d[a - area]? = some b
  /-- The status stage comes last. -/
  complete : ∀ t b, (status, b) ∈ writes t → finished b = true → ∀ i, i < d.length →
    ∃ t' ≤ t, ∃ b', (area + i, b') ∈ writes t'

/-- A run of a driver: it starts with the memory `start`, looks at the status descriptor until it finds it
finished, and takes the answer out of `copied`.  `former` is what was in memory before. -/
structure DriverRun (writes : Nat → List (Nat × BitVec 8)) (D : Set Nat) (area length status : Nat)
    (finished : BitVec 8 → Bool) (former : Nat → BitVec 8) (start copied : Shared) : Prop where
  /-- The driver does not clear the room. -/
  room : ∀ i, i < length → start.memory (area + i) = former (area + i)
  /-- The status descriptor is not finished from the beginning. -/
  unfinished : finished (start.memory status) = false
  /-- The driver finds it finished, and goes on. -/
  success : ∃ seen, Watched writes D start seen ∧ finished (seen.memory status) = true ∧
    Watched writes D seen copied

section

variable {writes : Nat → List (Nat × BitVec 8)} {area length status : Nat} {finished : BitVec 8 → Bool}
  {d : List (BitVec 8)} {D : Set Nat} {former : Nat → BitVec 8} {start copied : Shared}

/-- When the driver sees that the status descriptor is finished, the bytes are there. -/
theorem DriverRun.written (hr : DriverRun writes D area length status finished former start copied)
    (h : DeviceSends writes area length status finished d) (hD : status ∉ D) (i : Nat) (hi : i < d.length) :
    ∃ t b, t < copied.clock ∧ (area + i, b) ∈ writes t := by
  obtain ⟨seen, hw, hfin, hlater⟩ := hr.success
  rcases hw.origin status hD with hold | ⟨t, -, ht, hmem⟩
  · rw [hold, hr.unfinished] at hfin
    cases hfin
  · obtain ⟨t', ht', b', hb'⟩ := h.complete t _ hmem hfin i hi
    have hle := hlater.clock_le
    exact ⟨t', b', by omega, hb'⟩

/-- Behind the bytes of the device, the driver copies what was there before. -/
theorem DriverRun.copied_eq (hr : DriverRun writes D area length status finished former start copied)
    (h : DeviceSends writes area length status finished d) {i : Nat} (hi : d.length ≤ i) (hlt : i < length)
    (hD : area + i ∉ D) : copied.memory (area + i) = former (area + i) := by
  obtain ⟨seen, hw, -, hlater⟩ := hr.success
  rcases (hw.trans hlater).origin _ hD with hold | ⟨t, -, -, hmem⟩
  · rw [hold, hr.room i hlt]
  · have hsome := h.only t _ _ hmem (by omega) (by omega)
    rw [Nat.add_sub_cancel_left, List.getElem?_eq_none hi] at hsome
    cases hsome

/-- **What a copy depends on.**  Every run of the driver, whatever was in memory before, comes to look at the
room for the answer; the runs agree on where they started from the same bytes. -/
theorem DeviceSends.same_iff (h : DeviceSends writes area length status finished d) {former : Nat → BitVec 8}
    (block : Set Nat) {start copied : (Nat → BitVec 8) → Shared} (hD : status ∉ D)
    (harea : ∀ i, i < length → area + i ∉ D ∧ area + i ∈ block)
    (hrun : ∀ f, (∀ a, a ∉ block → f a = former a) →
      DriverRun writes D area length status finished f (start f) (copied f))
    (hagree : ∀ f, (∀ a, a ∉ block → f a = former a) →
      Agree writes {a | (start f).memory a = (start former).memory a} (copied former) (copied f)) :
    (∀ f, (∀ a, a ∉ block → f a = former a) →
      getBytes (copied f).memory area length = getBytes (copied former).memory area length) ↔
      d.length = length := by
  constructor
  · intro hsame
    by_contra hne
    have hlt : d.length < length := lt_of_le_of_ne h.fits hne
    -- another byte behind those of the device
    let f := Function.update former (area + d.length) (former (area + d.length) + 1)
    have hf : ∀ a, a ∉ block → f a = former a := by
      intro a ha
      exact Function.update_of_ne (fun he => ha (by rw [he]; exact (harea _ hlt).2)) _ _
    have hbyte := getBytes_eq_iff.mp (hsame f hf) d.length hlt
    rw [(hrun f hf).copied_eq h (le_refl _) hlt (harea _ hlt).1,
      (hrun former fun _ _ => rfl).copied_eq h (le_refl _) hlt (harea _ hlt).1,
      show f (area + d.length) = former (area + d.length) + 1 from Function.update_self ..] at hbyte
    exact absurd hbyte (by simp)
  · intro hlength f hf
    refine getBytes_eq_iff.mpr fun i hi => (hagree f hf).memory_eq _ (.inr ?_)
    exact (hrun former fun _ _ => rfl).written h hD i (hlength ▸ hi)

end

end Dem64
