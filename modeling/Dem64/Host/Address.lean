import Dem64.Host.Control

/-!
# USB addresses

A driver counts through the addresses: `next_usb_address` is larger than every address that a device has.
When a SET_ADDRESS request fails, the driver counts back, as if no device had taken the address.  This is
right only if none has (`Bus.Valid.rollBack`), and that a transfer failed on the host's side does not say so:
the error may be in the status stage.

`Bus` is what UHCI, EHCI and OHCI have in common here.
-/

set_option autoImplicit false

namespace Dem64

/-- The counter of a driver, and the addresses that the devices have, by their ports.  0 is no address. -/
structure Bus where
  /-- `next_usb_address`. -/
  nextUsbAddress : BitVec 8
  /-- The address of the device on a port. -/
  devices : BitVec 8 → BitVec 8

/-- No two devices have the same address, and no device has an address above 127. -/
def Bus.Unique (b : Bus) : Prop :=
  (∀ p q, b.devices p = b.devices q → b.devices p ≠ 0 → p = q) ∧ ∀ p, (b.devices p).toNat ≤ 127

/-- The addresses are unique, and the counter is above them. -/
structure Bus.Valid (b : Bus) : Prop where
  /-- 0 is no address. -/
  pos : 0 < b.nextUsbAddress.toNat
  /-- There are 127 addresses. -/
  le : b.nextUsbAddress.toNat ≤ 128
  /-- The counter is above the addresses. -/
  below : ∀ p, (b.devices p).toNat < b.nextUsbAddress.toNat
  /-- The addresses are different. -/
  distinct : ∀ p q, b.devices p = b.devices q → b.devices p ≠ 0 → p = q

/-- The counter and the addresses before any call. -/
def Bus.Initial (b : Bus) : Prop := b.nextUsbAddress = 1 ∧ ∀ p, b.devices p = 0

/-- The devices on some ports take an address. -/
def takeAddress (devices : BitVec 8 → BitVec 8) (takes : BitVec 8 → Bool) (address : BitVec 8) :
    BitVec 8 → BitVec 8 :=
  fun p => if takes p then address else devices p

/-- What must be known about the devices in a call of `set_address`: `rollsBack` says that the driver counts
back after the SET_ADDRESS request has failed, and `resets` that it counts back after the GET_DESCRIPTOR
request has failed and the port was reset. -/
structure AddressSafe (takes : BitVec 8 → Bool) (port : BitVec 8) (rollsBack resets : Prop) : Prop where
  /-- One device at most takes the address. -/
  one : ∀ p q, takes p = true → takes q = true → p = q
  /-- No device takes an address that goes back to the counter. -/
  none_of_rollsBack : rollsBack → ∀ p, takes p = false
  /-- A device that is not reset does not take an address that goes back to the counter. -/
  own_of_resets : resets → ∀ p, takes p = true → p = port

section

variable {next address port : BitVec 8} {devices : BitVec 8 → BitVec 8} {takes : BitVec 8 → Bool}

theorem Bus.Initial.valid {b : Bus} (h : b.Initial) : b.Valid where
  pos := by rw [h.1]; decide
  le := by rw [h.1]; decide
  below p := by rw [h.1, h.2]; decide
  distinct p _ _ h0 := absurd (h.2 p) h0

/-- An address that is allocated is that of the counter, and the counter goes on. -/
theorem allocateUsbAddress_of_ne (h0 : (allocateUsbAddress next).1 ≠ 0) :
    (allocateUsbAddress next).1 = next ∧ (allocateUsbAddress next).2.toNat = next.toNat + 1 ∧ next.toNat ≤ 127 := by
  by_cases hgt : next > 127
  · rw [allocateUsbAddress, if_pos hgt] at h0
    exact absurd rfl h0
  · have hle : next.toNat ≤ 127 := Nat.not_lt.mp hgt
    rw [allocateUsbAddress, if_neg hgt]
    refine ⟨rfl, ?_, hle⟩
    show (next + 1).toNat = next.toNat + 1
    rw [BitVec.toNat_add]
    exact Nat.mod_eq_of_lt (Nat.lt_of_le_of_lt (Nat.succ_le_succ hle) (by decide))

namespace Bus.Valid

theorem unique {b : Bus} (h : b.Valid) : b.Unique := by
  refine ⟨h.distinct, fun p => ?_⟩
  have := h.below p
  have := h.le
  omega

/-- The counter goes on without a request, or with one that is taken by one device at most. -/
theorem take (h : Bus.Valid ⟨next, devices⟩) (h0 : (allocateUsbAddress next).1 ≠ 0)
    (hone : ∀ p q, takes p = true → takes q = true → p = q) :
    Bus.Valid ⟨(allocateUsbAddress next).2, takeAddress devices takes (allocateUsbAddress next).1⟩ := by
  obtain ⟨ha, hnext, hle⟩ := allocateUsbAddress_of_ne h0
  have hpos : 0 < next.toNat := h.pos
  have hbelow : ∀ p, (devices p).toNat < next.toNat := h.below
  have hne : ∀ p, devices p ≠ next := fun p hp => absurd (hp ▸ hbelow p) (lt_irrefl _)
  rw [ha]
  refine ⟨?_, ?_, fun p => ?_, fun p q hpq hp0 => ?_⟩
  · show 0 < (allocateUsbAddress next).2.toNat
    omega
  · show (allocateUsbAddress next).2.toNat ≤ 128
    omega
  · show (takeAddress devices takes next p).toNat < (allocateUsbAddress next).2.toNat
    rw [takeAddress]
    split
    · omega
    · have := hbelow p
      omega
  · simp only [takeAddress] at hpq hp0
    cases hp : takes p with
    | true =>
      cases hq : takes q with
      | true => exact hone p q hp hq
      | false =>
        rw [hp, hq, if_pos rfl, if_neg Bool.false_ne_true] at hpq
        exact absurd hpq.symm (hne q)
    | false =>
      rw [hp, if_neg Bool.false_ne_true] at hpq hp0
      cases hq : takes q with
      | true =>
        rw [hq, if_pos rfl] at hpq
        exact absurd hpq (hne p)
      | false =>
        rw [hq, if_neg Bool.false_ne_true] at hpq
        exact h.distinct p q hpq hp0

/-- The counter goes on, and no device has learnt of it. -/
theorem skip (h : Bus.Valid ⟨next, devices⟩) : Bus.Valid ⟨(allocateUsbAddress next).2, devices⟩ := by
  by_cases hgt : next > 127
  · rw [allocateUsbAddress, if_pos hgt]
    exact h
  · refine @take next devices (fun _ => false) h ?_ (by simp)
    rw [allocateUsbAddress, if_neg hgt]
    exact fun hz => absurd h.pos (by show ¬ 0 < next.toNat; rw [show next = 0 from hz]; decide)

/-- A device loses its address. -/
theorem reset (h : Bus.Valid ⟨next, devices⟩) : Bus.Valid ⟨next, Function.update devices port 0⟩ := by
  refine ⟨h.pos, h.le, fun p => ?_, fun p q hpq hp0 => ?_⟩
  · show (Function.update devices port 0 p).toNat < _
    by_cases hp : p = port
    · rw [hp, Function.update_self]
      exact h.pos
    · rw [Function.update_of_ne hp]
      exact h.below p
  · have hp : p ≠ port := fun hp => hp0 (hp ▸ Function.update_self ..)
    have hq : q ≠ port := fun hq => hp0 (hpq.trans (hq ▸ Function.update_self ..))
    simp only [Function.update_of_ne hp, Function.update_of_ne hq] at hpq hp0
    exact h.distinct p q hpq hp0

/-- **Counting back.**  The counter may go back to an address that no device has. -/
theorem rollBack (h : Bus.Valid ⟨next, devices⟩) (h0 : address ≠ 0) (hnext : next.toNat = address.toNat + 1)
    (hnone : ∀ p, devices p ≠ address) : Bus.Valid ⟨address, devices⟩ := by
  have hpos : address.toNat ≠ 0 := fun hz => h0 (BitVec.eq_of_toNat_eq hz)
  have hle : next.toNat ≤ 128 := h.le
  refine ⟨by show 0 < address.toNat; omega, by show address.toNat ≤ 128; omega, fun p => ?_, h.distinct⟩
  have hlt : (devices p).toNat < next.toNat := h.below p
  have hne : (devices p).toNat ≠ address.toNat := fun he => hnone p (BitVec.eq_of_toNat_eq he)
  show (devices p).toNat < address.toNat
  omega

/-- The port is reset, if it comes to that, and the counter goes back if `reset_port` returns 0. -/
theorem resetPort {reset : Bool} {code : Nat} (h : Bus.Valid ⟨next, devices⟩) (hreset : code = 0 → reset = true)
    (hback : code = 0 → Bus.Valid ⟨address, Function.update devices port 0⟩) :
    Bus.Valid ⟨if code ≠ 0 then next else address,
      if reset then Function.update devices port 0 else devices⟩ := by
  by_cases hcode : code = 0
  · rw [if_neg (not_not.mpr hcode), hreset hcode, if_pos rfl]
    exact hback hcode
  · rw [if_pos hcode]
    split
    · exact h.reset
    · exact h

/-- The request fails, no device has taken the address, and the driver counts back. -/
theorem take_rollBack (h : Bus.Valid ⟨next, devices⟩) (h0 : (allocateUsbAddress next).1 ≠ 0)
    (hnone : ∀ p, takes p = false) :
    Bus.Valid ⟨(allocateUsbAddress next).1, takeAddress devices takes (allocateUsbAddress next).1⟩ := by
  have hsame : takeAddress devices takes (allocateUsbAddress next).1 = devices := by
    funext p
    rw [takeAddress, hnone p, if_neg Bool.false_ne_true]
  rw [hsame, (allocateUsbAddress_of_ne h0).1]
  exact h

/-- The device has taken the address, its port is reset, and the driver counts back. -/
theorem take_reset_rollBack (h : Bus.Valid ⟨next, devices⟩) (h0 : (allocateUsbAddress next).1 ≠ 0)
    (hone : ∀ p q, takes p = true → takes q = true → p = q) (hown : ∀ p, takes p = true → p = port) :
    Bus.Valid ⟨(allocateUsbAddress next).1,
      Function.update (takeAddress devices takes (allocateUsbAddress next).1) port 0⟩ := by
  obtain ⟨ha, hnext, -⟩ := allocateUsbAddress_of_ne h0
  refine (h.take h0 hone).reset.rollBack h0 (by rw [hnext, ha]) fun p hp => ?_
  by_cases hport : p = port
  · rw [hport, Function.update_self] at hp
    exact h0 hp.symm
  · rw [Function.update_of_ne hport, takeAddress] at hp
    split at hp
    · rename_i htakes
      exact hport (hown p htakes)
    · rw [ha] at hp
      exact absurd (hp ▸ h.below p) (lt_irrefl _)

end Bus.Valid

end

end Dem64
