import Dem64.Ata.Disk

/-!
# ATA: a write and then a read

`ata_write` and `ata_read` are run against the ideal drive.  The address that the drive reads from its task
file is the one that was asked for, in both modes (`address28_loaded`, `address48_loaded`); a word moves two
bytes between the buffer and the store (`MovesNext`), and the loops carry `Midway` from one word to the next.

A request that the drive can address is written and read back (`round_trip`).  What it cannot address is
rejected before any command, but for one kind: `ata_configure_lba` compares the end of a request with the
28-bit limit and only its start with the 48-bit one, so a request across sector 2 ^ 48 gets through
(`ata_write_read`).
-/

set_option autoImplicit false

namespace Dem64

namespace Ata

open Interaction Interaction.Prog

variable {channel : AtaChannel} {latency : Nat → Nat} {s : Bench} {drive : AtaDrive} {lba : BitVec 64}
  {count : BitVec 8}

/-! ## The address -/

/-- The drive after a write of the drive/head register. -/
def IdealDrive.aimed (d : IdealDrive) (head : BitVec 8) : IdealDrive := { d with head := head }

/-- The drive after a load of the task file. -/
def IdealDrive.loaded (d : IdealDrive) (sectorCount low mid high : BitVec 8) : IdealDrive :=
  { d with
    sectorCount := d.sectorCount.push sectorCount
    low := d.low.push low
    mid := d.mid.push mid
    high := d.high.push high }

theorem run_loadTaskFile (sectorCount low mid high : BitVec 8) :
    run (bench channel latency) (loadTaskFile channel.ioBase sectorCount low mid high) s =
      ((), s.onDrive (s.drive.loaded sectorCount low mid high)) := by
  simp only [loadTaskFile, run_bind, run_outb]
  rfl

/-- The drive/head register of a 28-bit address. -/
def head28 (slave : Bool) (lba : BitVec 64) : BitVec 8 :=
  (0xE0 : BitVec 8) ||| slaveBit slave ||| ((lba >>> 24) &&& 0x0F).setWidth 8

theorem run_loadLba28 (h : s.drive.busy = 0) :
    run (bench channel latency) (loadLba28 drive channel lba count) s = ((), s.onDrive
      ((s.drive.aimed (head28 drive.slave lba)).loaded count (lba.setWidth 8) ((lba >>> 8).setWidth 8)
        ((lba >>> 16).setWidth 8))) := by
  rw [loadLba28, run_bind, run_outb, run_bind, run_delay_ready, run_loadTaskFile]
  · rfl
  · exact h

theorem run_loadLba48 (h : s.drive.busy = 0) :
    run (bench channel latency) (loadLba48 drive channel lba count) s = ((), s.onDrive
      (((s.drive.aimed (0xE0 ||| slaveBit drive.slave)).loaded 0 ((lba >>> 24).setWidth 8)
        ((lba >>> 32).setWidth 8) ((lba >>> 40).setWidth 8)).loaded count (lba.setWidth 8)
        ((lba >>> 8).setWidth 8) ((lba >>> 16).setWidth 8))) := by
  rw [loadLba48, run_bind, run_outb, run_bind, run_delay_ready, run_bind, run_loadTaskFile, run_loadTaskFile]
  · rfl
  · exact h

theorem toNat_byte (k : Nat) : ((lba >>> k).setWidth 8).toNat = lba.toNat / 2 ^ k % 256 := by
  rw [BitVec.toNat_setWidth, BitVec.toNat_ushiftRight, Nat.shiftRight_eq_div_pow]

theorem toNat_nibble : ((lba >>> 24) &&& 0x0F).toNat = lba.toNat / 2 ^ 24 % 16 := by
  rw [BitVec.toNat_and, BitVec.toNat_ushiftRight, Nat.shiftRight_eq_div_pow]
  exact Nat.and_two_pow_sub_one_eq_mod _ 4

/-- The flags and the address bits of the drive/head register, for any low four bits. -/
theorem head_bits (slave : Bool) (y : BitVec 4) :
    (0xE0 ||| slaveBit slave ||| y.setWidth 8) &&& (0x40 : BitVec 8) ≠ 0 ∧
    decide ((0xE0 ||| slaveBit slave ||| y.setWidth 8) &&& (0x10 : BitVec 8) ≠ 0) = slave ∧
    ((0xE0 ||| slaveBit slave ||| y.setWidth 8) &&& (0x0F : BitVec 8)).toNat = y.toNat := by
  revert slave y
  decide

theorem head28_eq (slave : Bool) : head28 slave lba =
    (0xE0 : BitVec 8) ||| slaveBit slave ||| (BitVec.ofNat 4 (lba.toNat / 2 ^ 24)).setWidth 8 := by
  have heq : ((lba >>> 24) &&& 0x0F).setWidth 8 = (BitVec.ofNat 4 (lba.toNat / 2 ^ 24)).setWidth 8 := by
    apply BitVec.eq_of_toNat_eq
    rw [BitVec.toNat_setWidth, toNat_nibble, BitVec.toNat_setWidth, BitVec.toNat_ofNat]
  rw [head28, heq]

/-- The 28-bit address that the drive reads from the task file is the one that was asked for. -/
theorem address28_loaded {d : IdealDrive} (hlba : lba.toNat < 2 ^ 28) :
    ((d.aimed (head28 drive.slave lba)).loaded count (lba.setWidth 8) ((lba >>> 8).setWidth 8)
      ((lba >>> 16).setWidth 8)).address28 = lba.toNat := by
  have hhead := (head_bits drive.slave (BitVec.ofNat 4 (lba.toNat / 2 ^ 24))).2.2
  rw [← head28_eq, BitVec.toNat_ofNat] at hhead
  have h0 : (lba.setWidth 8).toNat = lba.toNat % 256 := BitVec.toNat_setWidth ..
  have h8 := @toNat_byte lba 8
  have h16 := @toNat_byte lba 16
  simp only [IdealDrive.address28, IdealDrive.loaded, IdealDrive.aimed, Register.push, hhead, h0, h8, h16]
  omega

/-- The 48-bit address that the drive reads from the two levels of the task file is the one that was asked
for. -/
theorem address48_loaded {d : IdealDrive} (hlba : lba.toNat < 2 ^ 48) :
    ((d.loaded 0 ((lba >>> 24).setWidth 8) ((lba >>> 32).setWidth 8) ((lba >>> 40).setWidth 8)).loaded count
      (lba.setWidth 8) ((lba >>> 8).setWidth 8) ((lba >>> 16).setWidth 8)).address48 = lba.toNat := by
  have h0 : (lba.setWidth 8).toNat = lba.toNat % 256 := BitVec.toNat_setWidth ..
  have h8 := @toNat_byte lba 8
  have h16 := @toNat_byte lba 16
  have h24 := @toNat_byte lba 24
  have h32 := @toNat_byte lba 32
  have h40 := @toNat_byte lba 40
  simp only [IdealDrive.address48, IdealDrive.loaded, Register.push, h0, h8, h16, h24, h32, h40]
  omega

/-- The addressing mode that `ata_configure_lba` chooses, once the drive is not busy. -/
def modeOf (drive : AtaDrive) (lba : BitVec 64) (count : BitVec 8) : AtaAddressingMode :=
  if 1 <<< 48 ≤ lba then .invalid
  else if Fits28 drive lba count then .lba28
  else if drive.supportsLba48 then .lba48
  else .invalid

/-- The drive is aimed: what the task file says is what was asked for, and nothing else has changed. -/
structure Aimed (drive : AtaDrive) (lba : BitVec 64) (count : BitVec 8) (mode : AtaAddressingMode)
    (s s' : Bench) : Prop where
  store : s'.drive.store = s.drive.store
  commands : s'.drive.commands = s.drive.commands
  memory : s'.memory = s.memory
  slave : s'.drive.slave = s.drive.slave
  busy : s'.drive.busy = 0
  selected : decide (s'.drive.head &&& 0x10 ≠ 0) = drive.slave
  lbaBit : s'.drive.head &&& 0x40 ≠ 0
  lba28 : mode = .lba28 → s'.drive.address28 = lba.toNat ∧ s'.drive.count28 = count.toNat
  lba48 : mode = .lba48 → s'.drive.address48 = lba.toNat ∧ s'.drive.count48 = count.toNat

theorem toNat_pos (hcount : count ≠ 0) : 0 < count.toNat := by
  rcases Nat.eq_zero_or_pos count.toNat with h | h
  · exact absurd (BitVec.eq_of_toNat_eq h) hcount
  · exact h

theorem fits28_iff (hcount : count ≠ 0) :
    Fits28 drive lba count ↔ drive.supportsLba28 = true ∧ lba.toNat + count.toNat ≤ 2 ^ 28 := by
  have hpos := toNat_pos hcount
  have h28 : (1 <<< 28 : BitVec 64).toNat = 2 ^ 28 := rfl
  have hc : (count.setWidth 64).toNat = count.toNat := by
    rw [BitVec.toNat_setWidth]
    have := count.isLt
    omega
  rw [Fits28, BitVec.lt_def, BitVec.le_def, h28, hc]
  refine and_congr_right fun _ => ⟨fun ⟨h1, h2⟩ => ?_, fun h => ⟨by omega, ?_⟩⟩
  · rw [BitVec.toNat_sub_of_le (BitVec.le_def.mpr (by rw [h28]; omega)), h28] at h2
    omega
  · rw [BitVec.toNat_sub_of_le (BitVec.le_def.mpr (by rw [h28]; omega)), h28]
    omega

theorem aimed_lba28 (hbusy : s.drive.busy = 0) (hcount : count ≠ 0) (hfits : Fits28 drive lba count) :
    Aimed drive lba count .lba28 s (run (bench channel latency) (loadLba28 drive channel lba count) s).2 := by
  have hlba := ((fits28_iff hcount).mp hfits).2
  have hpos := toNat_pos hcount
  have hbits := head_bits drive.slave (BitVec.ofNat 4 (lba.toNat / 2 ^ 24))
  rw [← head28_eq] at hbits
  rw [run_loadLba28 hbusy]
  exact {
    store := rfl, commands := rfl, memory := rfl, slave := rfl, busy := hbusy
    selected := hbits.2.1
    lbaBit := hbits.1
    lba28 := fun _ => ⟨address28_loaded (by omega), if_neg hcount⟩
    lba48 := nofun }

theorem aimed_lba48 (hbusy : s.drive.busy = 0) (hcount : count ≠ 0) (hlba : lba.toNat < 2 ^ 48) :
    Aimed drive lba count .lba48 s (run (bench channel latency) (loadLba48 drive channel lba count) s).2 := by
  have hbits := head_bits drive.slave 0
  rw [show (0 : BitVec 4).setWidth 8 = 0#8 by rfl, BitVec.or_zero] at hbits
  rw [run_loadLba48 hbusy]
  refine {
    store := rfl, commands := rfl, memory := rfl, slave := rfl, busy := hbusy
    selected := hbits.2.1
    lbaBit := hbits.1
    lba28 := nofun
    lba48 := fun _ => ⟨address48_loaded hlba, ?_⟩ }
  have hno : ¬ ((0 : BitVec 8) = 0 ∧ count = 0) := fun h => hcount h.2
  have hcount48 : (if (0 : BitVec 8) = 0 ∧ count = 0 then 65536
      else (0 : BitVec 8).toNat * 2 ^ 8 + count.toNat) = count.toNat := by
    rw [if_neg hno]
    simp
  exact hcount48

/-- The checks of `ata_configure_lba` that its callers have made. -/
structure Described (drive : AtaDrive) (channel : AtaChannel) (lba : BitVec 64) : Prop where
  channel : drive.channel = some channel
  type : drive.type = .ata
  inside : lba < drive.sectorCount

/-- **`ata_configure_lba` aims the drive**, in the mode that fits. -/
theorem run_ataConfigureLba (hd : Described drive channel lba) (hbusy : s.drive.busy < 1000000)
    (hcount : count ≠ 0) (hmode : modeOf drive lba count ≠ .invalid) :
    (run (bench channel latency) (ataConfigureLba drive lba count) s).1 = modeOf drive lba count ∧
    Aimed drive lba count (modeOf drive lba count) s
      (run (bench channel latency) (ataConfigureLba drive lba count) s).2 := by
  rw [modeOf] at hmode ⊢
  split at hmode
  · exact absurd rfl hmode
  · next h48 =>
    have hlba : lba.toNat < 2 ^ 48 := by
      have := BitVec.le_def.not.mp h48
      simpa using this
    have hin : ¬ (drive.sectorCount ≤ lba ∨ 1 <<< 48 ≤ lba) :=
      not_or.mpr ⟨BitVec.not_le.mpr hd.inside, h48⟩
    rw [ataConfigureLba, hd.channel]
    dsimp only
    rw [if_neg (not_not.mpr hd.type), if_neg hin, run_bind, run_ataWaitNotBusy hbusy, if_neg h48, if_pos rfl]
    split
    · next hfits =>
      have haimed := @aimed_lba28 channel latency (s.withBusy 0) drive lba count rfl hcount hfits
      exact ⟨rfl, haimed.store, haimed.commands, haimed.memory, haimed.slave, haimed.busy, haimed.selected,
        haimed.lbaBit, haimed.lba28, haimed.lba48⟩
    · next hfits =>
      rw [if_neg hfits] at hmode
      split
      · have haimed := @aimed_lba48 channel latency (s.withBusy 0) drive lba count rfl hcount hlba
        exact ⟨rfl, haimed.store, haimed.commands, haimed.memory, haimed.slave, haimed.busy, haimed.selected,
          haimed.lbaBit, haimed.lba28, haimed.lba48⟩
      · next hno =>
        rw [if_neg hno] at hmode
        exact absurd rfl hmode

/-- A request that no mode fits is refused, and at most the status is read. -/
theorem run_ataConfigureLba_invalid (hd : Described drive channel lba) (hbusy : s.drive.busy < 1000000)
    (hmode : modeOf drive lba count = .invalid) :
    (run (bench channel latency) (ataConfigureLba drive lba count) s).1 = .invalid ∧
    ∃ n, (run (bench channel latency) (ataConfigureLba drive lba count) s).2 = s.withBusy n := by
  rw [modeOf] at hmode
  rw [ataConfigureLba, hd.channel]
  dsimp only
  rw [if_neg (not_not.mpr hd.type)]
  split at hmode
  · next h48 =>
    rw [if_pos (.inr h48)]
    exact ⟨rfl, s.drive.busy, rfl⟩
  · next h48 =>
    rw [if_neg (not_or.mpr ⟨BitVec.not_le.mpr hd.inside, h48⟩), run_bind, run_ataWaitNotBusy hbusy, if_pos rfl]
    split at hmode
    · exact absurd hmode (by simp)
    · next hfits =>
      split at hmode
      · exact absurd hmode (by simp)
      · next hno =>
        rw [if_neg hfits, if_neg hno]
        exact ⟨rfl, 0, rfl⟩

/-! ## The words -/

/-- A transfer of `count` sectors from the sector `first` on, of which `w` words are moved; `store` and
`memory` say what the store and the memory hold after that many words. -/
structure Midway (direction : Direction) (first count : Nat) (commands : List Command)
    (store : Nat → Nat → BitVec 8) (memory : Nat → BitVec 64 → BitVec 8) (slave : Bool) (w : Nat) (s : Bench) :
    Prop where
  store : s.drive.store = store w
  memory : s.memory = memory w
  commands : s.drive.commands = commands
  onUnit : s.drive.slave = slave
  selected : decide (s.drive.head &&& 0x10 ≠ 0) = slave
  transfer : s.drive.transfer = if w = 256 * count then none else some ⟨direction, first, 256 * count, w⟩
  busy : s.drive.busy < 1000000

section

variable {direction : Direction} {first n : Nat} {commands : List Command} {store : Nat → Nat → BitVec 8}
  {memory : Nat → BitVec 64 → BitVec 8} {slave : Bool} {word : BitVec 64 → AtaM Unit} {buffer : BitVec 64}

theorem Midway.withBusy {w m : Nat} (h : Midway direction first n commands store memory slave w s)
    (hm : m < 1000000) : Midway direction first n commands store memory slave w (s.withBusy m) :=
  ⟨h.store, h.memory, h.commands, h.onUnit, h.selected, h.transfer, hm⟩

/-- The body of the inner loop moves the next word: the drive is busy afterwards behind a sector only. -/
def MovesNext (channel : AtaChannel) (latency : Nat → Nat) (direction : Direction) (first n : Nat)
    (commands : List Command) (store : Nat → Nat → BitVec 8) (memory : Nat → BitVec 64 → BitVec 8)
    (slave : Bool) (word : BitVec 64 → AtaM Unit) (buffer : BitVec 64) : Prop :=
  ∀ (s : Bench) (w : Nat), w < 256 * n → s.drive.busy = 0 →
    Midway direction first n commands store memory slave w s →
    Midway direction first n commands store memory slave (w + 1)
      (run (bench channel latency) (word (buffer + BitVec.ofNat 64 (2 * w))) s).2 ∧
    ((w + 1) % 256 ≠ 0 →
      (run (bench channel latency) (word (buffer + BitVec.ofNat 64 (2 * w))) s).2.drive.busy = 0)

theorem run_moveWords
    (hword : MovesNext channel latency direction first n commands store memory slave word buffer)
    {k w : Nat} (hsector : w % 256 + k ≤ 256) (hend : w + k ≤ 256 * n) (hbusy : k = 0 ∨ s.drive.busy = 0)
    (h : Midway direction first n commands store memory slave w s) :
    (run (bench channel latency) (moveWords word k (buffer + BitVec.ofNat 64 (2 * w))) s).1 =
      buffer + BitVec.ofNat 64 (2 * (w + k)) ∧
    Midway direction first n commands store memory slave (w + k)
      (run (bench channel latency) (moveWords word k (buffer + BitVec.ofNat 64 (2 * w))) s).2 := by
  induction k generalizing w s with
  | zero => exact ⟨rfl, h⟩
  | succ k ih =>
    have hnext := hword s w (by omega) (hbusy.resolve_left (Nat.succ_ne_zero k)) h
    have hpointer : buffer + BitVec.ofNat 64 (2 * w) + 2 = buffer + BitVec.ofNat 64 (2 * (w + 1)) := by
      rw [BitVec.add_assoc, Nat.mul_succ, BitVec.ofNat_add]
      rfl
    rw [moveWords, run_bind, hpointer, show w + (k + 1) = w + 1 + k by omega]
    refine ih (by omega) (by omega) ?_ hnext.1
    rcases Nat.eq_zero_or_pos k with rfl | hk
    · exact .inl rfl
    · exact .inr (hnext.2 (by omega))

/-- **The loop over the sectors** moves all words of the command. -/
theorem run_moveSectors
    (hword : MovesNext channel latency direction first n commands store memory slave word buffer)
    (hc : drive.channel = some channel) {k j : Nat} (hj : j + k = n)
    (h : Midway direction first n commands store memory slave (256 * j) s) :
    (run (bench channel latency)
      (moveSectors word drive channel k (buffer + BitVec.ofNat 64 (2 * (256 * j)))) s).1 = true ∧
    Midway direction first n commands store memory slave (256 * n)
      (run (bench channel latency)
        (moveSectors word drive channel k (buffer + BitVec.ofNat 64 (2 * (256 * j)))) s).2 := by
  induction k generalizing j s with
  | zero =>
    obtain rfl : j = n := hj
    exact ⟨rfl, h⟩
  | succ k ih =>
    have hsome : s.drive.transfer.isSome := by
      rw [h.transfer, if_neg (by omega)]
      rfl
    have hpoll : run (bench channel latency) (ataPollDrq drive) s = (true, s.withBusy 0) := by
      rw [ataPollDrq, hc]
      exact run_pollDrqRounds h.busy hsome
    have hmoved := @run_moveWords channel latency (s.withBusy 0) direction first n commands store memory slave
      word buffer hword 256 (256 * j) (by omega) (by omega) (.inr rfl) (h.withBusy (by decide))
    obtain ⟨m, hm, hdelay⟩ := @run_ata400nsDelay channel latency
      (run (bench channel latency) (moveWords word 256 (buffer + BitVec.ofNat 64 (2 * (256 * j))))
        (s.withBusy 0)).2 channel.controlPort
    rw [moveSectors, run_bind, hpoll]
    dsimp only
    rw [if_pos rfl, run_bind, run_bind, hmoved.1, hdelay, show 256 * j + 256 = 256 * (j + 1) by omega]
    refine ih (by omega) ?_
    have := hmoved.2.withBusy (Nat.lt_of_le_of_lt hm hmoved.2.busy)
    rwa [show 256 * j + 256 = 256 * (j + 1) by omega] at this

end

/-! ## What the words carry -/

/-- A store in which `len` bytes from `start` on are given by `f`. -/
def laid (store : Nat → BitVec 8) (start len : Nat) (f : Nat → BitVec 8) : Nat → BitVec 8 := fun a =>
  if start ≤ a ∧ a < start + len then f (a - start) else store a

/-- A memory in which the `len` bytes from `start` on are given by `f`. -/
def filled (memory : BitVec 64 → BitVec 8) (start : BitVec 64) (len : Nat) (f : Nat → BitVec 8) :
    BitVec 64 → BitVec 8 := fun a =>
  if (a - start).toNat < len then f (a - start).toNat else memory a

theorem laid_zero (store : Nat → BitVec 8) (start : Nat) (f : Nat → BitVec 8) : laid store start 0 f = store := by
  funext a
  exact if_neg (by omega)

theorem filled_zero (memory : BitVec 64 → BitVec 8) (start : BitVec 64) (f : Nat → BitVec 8) :
    filled memory start 0 f = memory := rfl

theorem laid_succ {store : Nat → BitVec 8} {start len : Nat} {f : Nat → BitVec 8} :
    Function.update (laid store start len f) (start + len) (f len) = laid store start (len + 1) f := by
  funext a
  rw [Function.update_apply, laid, laid]
  rcases Nat.lt_trichotomy a (start + len) with h | rfl | h
  · rw [if_neg (by omega)]
    by_cases hs : start ≤ a
    · rw [if_pos ⟨hs, h⟩, if_pos ⟨hs, by omega⟩]
    · rw [if_neg fun h => hs h.1, if_neg fun h => hs h.1]
  · rw [if_pos rfl, if_pos ⟨by omega, by omega⟩, Nat.add_sub_cancel_left]
  · rw [if_neg (by omega), if_neg (by omega), if_neg (by omega)]

theorem filled_succ {memory : BitVec 64 → BitVec 8} {start : BitVec 64} {len : Nat} {f : Nat → BitVec 8}
    (hlen : len < 2 ^ 64) :
    Function.update (filled memory start len f) (start + BitVec.ofNat 64 len) (f len) =
      filled memory start (len + 1) f := by
  have hself : (start + BitVec.ofNat 64 len - start).toNat = len := by
    rw [BitVec.add_comm, BitVec.add_sub_cancel, BitVec.toNat_ofNat, Nat.mod_eq_of_lt hlen]
  funext a
  rw [Function.update_apply, filled, filled]
  split
  · next ha => rw [ha, hself, if_pos (Nat.lt_succ_self len)]
  · next ha =>
    have hne : (a - start).toNat ≠ len := by
      intro heq
      refine ha ?_
      rw [← heq, BitVec.ofNat_toNat, BitVec.setWidth_eq, BitVec.add_comm, BitVec.sub_add_cancel]
    by_cases hlt : (a - start).toNat < len
    · rw [if_pos hlt, if_pos (by omega)]
    · rw [if_neg hlt, if_neg (by omega)]

theorem low_of_word (low high : BitVec 8) : (low.setWidth 16 ||| high.setWidth 16 <<< 8).setWidth 8 = low := by
  ext i hi
  simp

theorem high_of_word (low high : BitVec 8) :
    ((low.setWidth 16 ||| high.setWidth 16 <<< 8) >>> 8).setWidth 8 = high := by
  ext i hi
  simp [show 8 + i < 16 by omega, show i < 16 by omega, BitVec.getLsbD_eq_getElem hi]

/-! ## The two transfers -/

/-- The bench behind a word: what the store and the memory hold then, and the drive one word on. -/
def Bench.next (latency : Nat → Nat) (s : Bench) (t : DriveTransfer) (store : Nat → BitVec 8)
    (memory : BitVec 64 → BitVec 8) : Bench where
  drive := { s.drive with store := store }.advance latency t
  memory := memory

section

variable {direction : Direction} {first n : Nat} {commands : List Command} {store : Nat → Nat → BitVec 8}
  {memory : Nat → BitVec 64 → BitVec 8} {slave : Bool} {buffer : BitVec 64}

theorem advance_kept (d : IdealDrive) (t : DriveTransfer) :
    (d.advance latency t).store = d.store ∧ (d.advance latency t).commands = d.commands ∧
    (d.advance latency t).slave = d.slave ∧ (d.advance latency t).head = d.head := by
  rw [IdealDrive.advance]
  split
  · exact ⟨rfl, rfl, rfl, rfl⟩
  · split <;> exact ⟨rfl, rfl, rfl, rfl⟩

theorem advance_transfer (hlatency : ∀ m, latency m < 1000000) {d : IdealDrive} (hbusy : d.busy = 0)
    (t : DriveTransfer) :
    (d.advance latency t).transfer =
      (if t.done + 1 = t.words then none else some { t with done := t.done + 1 }) ∧
    (d.advance latency t).busy < 1000000 ∧
    (t.done + 1 ≠ t.words → (t.done + 1) % 256 ≠ 0 → (d.advance latency t).busy = 0) := by
  rw [IdealDrive.advance]
  split
  · next h => exact ⟨rfl, hlatency _, fun h' => absurd h h'⟩
  · split
    · next h => exact ⟨rfl, hlatency _, fun _ h' => absurd h h'⟩
    · exact ⟨rfl, Nat.lt_of_le_of_lt (Nat.le_of_eq hbusy) (by decide), fun _ _ => hbusy⟩

theorem Midway.next {w : Nat} (h : Midway direction first n commands store memory slave w s)
    (hlatency : ∀ m, latency m < 1000000) (hbusy : s.drive.busy = 0) :
    Midway direction first n commands store memory slave (w + 1)
      (s.next latency ⟨direction, first, 256 * n, w⟩ (store (w + 1)) (memory (w + 1))) ∧
    ((w + 1) % 256 ≠ 0 →
      (s.next latency ⟨direction, first, 256 * n, w⟩ (store (w + 1)) (memory (w + 1))).drive.busy = 0) := by
  obtain ⟨hstore, hcommands, hslave, hhead⟩ := @advance_kept latency { s.drive with store := store (w + 1) }
    ⟨direction, first, 256 * n, w⟩
  obtain ⟨htransfer, hlt, hzero⟩ := @advance_transfer latency hlatency { s.drive with store := store (w + 1) }
    hbusy ⟨direction, first, 256 * n, w⟩
  refine ⟨⟨hstore, rfl, hcommands.trans h.commands, hslave.trans h.onUnit, ?_, htransfer, hlt⟩,
    fun hmod => hzero (fun heq => hmod ?_) hmod⟩
  · have := h.selected
    rwa [← hhead] at this
  · have heq : w + 1 = 256 * n := heq
    omega

theorem add_two (buffer : BitVec 64) (w : Nat) :
    buffer + BitVec.ofNat 64 (2 * w) + 1 = buffer + BitVec.ofNat 64 (2 * w + 1) := by
  rw [BitVec.add_assoc, BitVec.ofNat_add]
  rfl

/-- The byte of the store a word starts at, on a drive that holds all sectors of the request. -/
theorem place_eq (hend : first + n ≤ 2 ^ 48) {w : Nat} (hw : w < 256 * n) :
    IdealDrive.place ⟨direction, first, 256 * n, w⟩ = 512 * first + 2 * w :=
  Nat.mod_eq_of_lt (show 512 * first + 2 * w < 2 ^ 57 by omega)

/-- **A word of a write** lays the next two bytes of the buffer into the store. -/
theorem movesNext_writeWord (hlatency : ∀ m, latency m < 1000000) (hend : first + n ≤ 2 ^ 48)
    (before : Nat → BitVec 8) (bytes : BitVec 64 → BitVec 8) :
    MovesNext channel latency .toDrive first n commands
      (fun w => laid before (512 * first) (2 * w) fun i => bytes (buffer + BitVec.ofNat 64 i))
      (fun _ => bytes) slave (writeWord channel.ioBase) buffer := by
  intro s w hw hbusy h
  have htransfer := h.transfer
  rw [if_neg (Nat.ne_of_lt hw)] at htransfer
  have hstore : Function.update (Function.update s.drive.store (512 * first + 2 * w)
      (bytes (buffer + BitVec.ofNat 64 (2 * w)))) (512 * first + 2 * w + 1)
      (bytes (buffer + BitVec.ofNat 64 (2 * w + 1))) =
      laid before (512 * first) (2 * (w + 1)) fun i => bytes (buffer + BitVec.ofNat 64 i) := by
    rw [h.store]
    exact (congrArg (fun g => Function.update g (512 * first + 2 * w + 1) _) laid_succ).trans laid_succ
  have hrun : (run (bench channel latency) (writeWord channel.ioBase (buffer + BitVec.ofNat 64 (2 * w))) s).2 =
      s.next latency ⟨.toDrive, first, 256 * n, w⟩
        (laid before (512 * first) (2 * (w + 1)) fun i => bytes (buffer + BitVec.ofNat 64 i)) bytes := by
    rw [← hstore]
    simp only [writeWord, load, outw, run_bind, run_call, bench, if_true, IdealDrive.writeData, htransfer,
      hbusy, and_self, place_eq hend hw, low_of_word, high_of_word, h.memory, add_two, Bench.next]
  rw [hrun]
  exact h.next hlatency hbusy

/-- **A word of a read** fills the next two bytes of the buffer from the store. -/
theorem movesNext_readWord (hlatency : ∀ m, latency m < 1000000) (hend : first + n ≤ 2 ^ 48) (hn : n < 256)
    (kept : Nat → BitVec 8) (before : BitVec 64 → BitVec 8) :
    MovesNext channel latency .toHost first n commands (fun _ => kept)
      (fun w => filled before buffer (2 * w) fun i => kept (512 * first + i)) slave
      (readWord channel.ioBase) buffer := by
  intro s w hw hbusy h
  have htransfer := h.transfer
  rw [if_neg (Nat.ne_of_lt hw)] at htransfer
  have hmemory : Function.update (Function.update s.memory (buffer + BitVec.ofNat 64 (2 * w))
      (kept (512 * first + 2 * w))) (buffer + BitVec.ofNat 64 (2 * w + 1)) (kept (512 * first + 2 * w + 1)) =
      filled before buffer (2 * (w + 1)) fun i => kept (512 * first + i) := by
    rw [h.memory]
    exact (congrArg (fun g => Function.update g _ _) (filled_succ (by omega))).trans (filled_succ (by omega))
  have hrun : (run (bench channel latency) (readWord channel.ioBase (buffer + BitVec.ofNat 64 (2 * w))) s).2 =
      s.next latency ⟨.toHost, first, 256 * n, w⟩ kept
        (filled before buffer (2 * (w + 1)) fun i => kept (512 * first + i)) := by
    rw [← hmemory]
    have hstore : s.drive.store = kept := h.store
    simp only [readWord, Ata.store, inw, run_bind, run_call, bench, if_true, IdealDrive.readData, htransfer,
      hbusy, and_self, place_eq hend hw, low_of_word, high_of_word, hstore, add_two]
    rw [← hstore]
    rfl
  rw [hrun]
  exact h.next hlatency hbusy

/-- The two codes are those of a transfer in this direction. -/
def Starts (latency : Nat → Nat) (direction : Direction) (command commandExt : BitVec 8) : Prop :=
  ∀ d : IdealDrive, decide (d.head &&& 0x10 ≠ 0) = d.slave →
    d.execute latency command = d.start latency direction d.address28 d.count28 ∧
    d.execute latency commandExt = d.start latency direction d.address48 d.count48

theorem starts_read : Starts latency .toHost ATA_CMD_READ ATA_CMD_READ_EXT := by
  intro d hd
  exact ⟨if_neg (not_not.mpr hd), if_neg (not_not.mpr hd)⟩

theorem starts_write : Starts latency .toDrive ATA_CMD_WRITE ATA_CMD_WRITE_EXT := by
  intro d hd
  exact ⟨if_neg (not_not.mpr hd), if_neg (not_not.mpr hd)⟩

/-- The command is accepted with the address and the count that were asked for. -/
theorem Aimed.execute {s' : Bench} {mode : AtaAddressingMode} {command commandExt : BitVec 8}
    (hstarts : Starts latency direction command commandExt) (h : Aimed drive lba count mode s s')
    (hslave : s.drive.slave = drive.slave) (hmode : mode ≠ .invalid) :
    s'.drive.execute latency (if mode = .lba48 then commandExt else command) =
      s'.drive.start latency direction lba.toNat count.toNat := by
  obtain ⟨hcommand, hcommandExt⟩ := hstarts s'.drive (by rw [h.selected, h.slave, hslave])
  cases mode with
  | invalid => exact absurd rfl hmode
  | lba28 =>
    obtain ⟨haddress, hcount⟩ := h.lba28 rfl
    rw [if_neg (by decide), hcommand, haddress, hcount]
  | lba48 =>
    obtain ⟨haddress, hcount⟩ := h.lba48 rfl
    rw [if_pos rfl, hcommandExt, haddress, hcount]

theorem Aimed.midway {s' : Bench} {mode : AtaAddressingMode} (hlatency : ∀ m, latency m < 1000000)
    (h : Aimed drive lba count mode s s') (hslave : s.drive.slave = drive.slave) (hcount : count ≠ 0)
    (hstore : store 0 = s.drive.store) (hmemory : memory 0 = s.memory) :
    Midway direction lba.toNat count.toNat (s.drive.commands ++ [commandOf direction lba.toNat count.toNat])
      store memory drive.slave 0
      (s'.onDrive (s'.drive.start latency direction lba.toNat count.toNat)) := by
  have hpos := toNat_pos hcount
  rw [IdealDrive.start, if_neg h.lbaBit]
  refine ⟨h.store.trans hstore.symm, h.memory.trans hmemory.symm, ?_, h.slave.trans hslave, h.selected, ?_,
    hlatency _⟩
  · exact congrArg (· ++ _) h.commands
  · rw [if_neg (by omega)]
    rfl

/-- **The phase of a transfer moves all words**, and then does what it is finished with. -/
theorem run_transferPhase {word : BitVec 16 → BitVec 64 → AtaM Unit} {command commandExt : BitVec 8}
    {finish : BitVec 16 → AtaAddressingMode → AtaM Bool} (hlatency : ∀ m, latency m < 1000000)
    (hd : Described drive channel lba) (hbusy : s.drive.busy < 1000000) (hcount : count ≠ 0)
    (hmode : modeOf drive lba count ≠ .invalid) (hslave : s.drive.slave = drive.slave)
    (hstarts : Starts latency direction command commandExt)
    (hstore : store 0 = s.drive.store) (hmemory : memory 0 = s.memory)
    (hword : MovesNext channel latency direction lba.toNat count.toNat
      (s.drive.commands ++ [commandOf direction lba.toNat count.toNat]) store memory drive.slave
      (word channel.ioBase) buffer) :
    ∃ s₁, Midway direction lba.toNat count.toNat
        (s.drive.commands ++ [commandOf direction lba.toNat count.toNat]) store memory drive.slave
        (256 * count.toNat) s₁ ∧
      run (bench channel latency)
        (transferPhase word command commandExt finish drive channel lba buffer count) s =
      run (bench channel latency) (finish channel.ioBase (modeOf drive lba count)) s₁ := by
  obtain ⟨hresult, haimed⟩ := run_ataConfigureLba hd hbusy hcount hmode
  obtain ⟨htrue, hmoved⟩ := run_moveSectors hword hd.channel (Nat.zero_add _)
    (haimed.midway hlatency hslave hcount hstore hmemory)
  simp only [Nat.mul_zero, BitVec.add_zero] at htrue hmoved
  refine ⟨_, hmoved.withBusy (m := 0) (by decide), ?_⟩
  have hexecute := haimed.execute hstarts hslave hmode
  have hcommand : ∀ s' : Bench, s'.drive.writeRegister latency ATA_REG_COMMAND
      (if modeOf drive lba count = .lba48 then commandExt else command) =
      s'.drive.execute latency (if modeOf drive lba count = .lba48 then commandExt else command) := fun _ => rfl
  rw [transferPhase, run_bind, hresult, if_neg hmode, run_bind, run_outb, hcommand, hexecute, run_bind, htrue,
    if_pos rfl, run_bind, run_settled hmoved.busy, if_pos rfl]

end

/-- **The phase of a request that no mode fits** fails before any command. -/
theorem run_transferPhase_invalid {word : BitVec 16 → BitVec 64 → AtaM Unit} {command commandExt : BitVec 8}
    {finish : BitVec 16 → AtaAddressingMode → AtaM Bool} {buffer : BitVec 64} (hd : Described drive channel lba)
    (hbusy : s.drive.busy < 1000000) (hmode : modeOf drive lba count = .invalid) :
    ∃ n, run (bench channel latency)
      (transferPhase word command commandExt finish drive channel lba buffer count) s = (false, s.withBusy n) := by
  obtain ⟨hresult, n, hstate⟩ := @run_ataConfigureLba_invalid channel latency s drive lba count hd hbusy hmode
  refine ⟨n, ?_⟩
  rw [transferPhase, run_bind, hresult, if_pos rfl, hstate, run_pure]

/-- The flush behind a write: one more command, and the drive is ready again. -/
theorem run_flush {direction : Direction} {first n w : Nat} {commands : List Command}
    {store : Nat → Nat → BitVec 8} {memory : Nat → BitVec 64 → BitVec 8} {slave : Bool}
    (hlatency : ∀ m, latency m < 1000000) (mode : AtaAddressingMode)
    (h : Midway direction first n commands store memory slave w s) :
    (run (bench channel latency) (flush channel.ioBase mode) s).1 = true ∧
    Midway direction first n (commands ++ [.flush]) store memory slave w
      (run (bench channel latency) (flush channel.ioBase mode) s).2 := by
  have hexecute : s.drive.writeRegister latency ATA_REG_COMMAND
      (if mode = .lba48 then ATA_CMD_FLUSH_EXT else ATA_CMD_FLUSH) =
      { s.drive with commands := s.drive.commands ++ [Command.flush] }.goBusy latency := by
    have hcommand : ∀ v, s.drive.writeRegister latency ATA_REG_COMMAND v = s.drive.execute latency v :=
      fun _ => rfl
    rw [hcommand, IdealDrive.execute, if_neg (not_not.mpr (h.selected.trans h.onUnit.symm))]
    split <;> rfl
  have hmidway : Midway direction first n (commands ++ [.flush]) store memory slave w
      (s.onDrive ({ s.drive with commands := s.drive.commands ++ [Command.flush] }.goBusy latency)) :=
    ⟨h.store, h.memory, congrArg (· ++ _) h.commands, h.onUnit, h.selected, h.transfer, hlatency _⟩
  rw [flush, run_bind, run_outb, hexecute, run_settled hmidway.busy]
  exact ⟨rfl, hmidway.withBusy (by decide)⟩

/-! ## A write and then a read -/

/-- A call with the arguments that the drive needs: the type and the pointers. -/
structure Called (drive : AtaDrive) (channel : AtaChannel) (source target : BitVec 64) : Prop where
  channel : drive.channel = some channel
  type : drive.type = .ata
  source : source ≠ 0
  target : target ≠ 0

/-- The drive of the description, without a command under way; what makes it busy ends in time. -/
structure Idle (latency : Nat → Nat) (drive : AtaDrive) (s : Bench) : Prop where
  latency : ∀ m, latency m < 1000000
  busy : s.drive.busy < 1000000
  slave : s.drive.slave = drive.slave

/-- The drive can address all sectors of the request. -/
def Addressable (drive : AtaDrive) (lba : BitVec 64) (count : BitVec 8) : Prop :=
  lba.toNat + count.toNat ≤ drive.sectorCount.toNat ∧
  (drive.supportsLba28 = true ∧ lba.toNat + count.toNat ≤ 2 ^ 28 ∨
    drive.supportsLba48 = true ∧ lba.toNat + count.toNat ≤ 2 ^ 48)

/-- The run of a write, and the run of the read behind it. -/
def wrote (channel : AtaChannel) (latency : Nat → Nat) (drive : AtaDrive) (lba source : BitVec 64)
    (count : BitVec 8) (s : Bench) : Option AtaDrive × Bench :=
  run (bench channel latency) (ataWrite (some drive) lba source count) s

def readBack (channel : AtaChannel) (latency : Nat → Nat) (drive : AtaDrive) (lba source target : BitVec 64)
    (count : BitVec 8) (s : Bench) : Option AtaDrive × Bench :=
  run (bench channel latency) (ataRead (wrote channel latency drive lba source count s).1 lba target count)
    (wrote channel latency drive lba source count s).2

/-- **The round trip**: both calls succeed, the read returns the bytes that were written, the commands are
those of the request, and the sectors outside of it are unchanged. -/
structure RoundTrip (channel : AtaChannel) (latency : Nat → Nat) (drive : AtaDrive)
    (lba source target : BitVec 64) (count : BitVec 8) (s : Bench) : Prop where
  written : (wrote channel latency drive lba source count s).1 = some { drive with ataStatus := SUCCESS }
  read : (readBack channel latency drive lba source target count s).1 = some { drive with ataStatus := SUCCESS }
  bytes : ∀ i < 512 * count.toNat, (readBack channel latency drive lba source target count s).2.memory
    (target + BitVec.ofNat 64 i) = s.memory (source + BitVec.ofNat 64 i)
  stored : ∀ i < 512 * count.toNat, (readBack channel latency drive lba source target count s).2.drive.store
    (512 * lba.toNat + i) = s.memory (source + BitVec.ofNat 64 i)
  outside : ∀ x, x < lba.toNat ∨ lba.toNat + count.toNat ≤ x →
    (readBack channel latency drive lba source target count s).2.drive.sector x = s.drive.sector x
  commands : (readBack channel latency drive lba source target count s).2.drive.commands = s.drive.commands ++
    [.write lba.toNat count.toNat, .flush, .read lba.toNat count.toNat]

/-- **A call is rejected**: it reports an error, and the drive has seen no command. -/
def Rejected (r : Option AtaDrive × Bench) (s : Bench) : Prop :=
  (∃ d, r.1 = some d ∧ d.ataStatus ≠ SUCCESS) ∧ r.2.drive.commands = s.drive.commands ∧
    r.2.drive.store = s.drive.store ∧ r.2.memory = s.memory

/-- What is asked of a request: a round trip if the drive can address it, else a rejection. -/
def Serves (channel : AtaChannel) (latency : Nat → Nat) (drive : AtaDrive) (lba source target : BitVec 64)
    (count : BitVec 8) (s : Bench) : Prop :=
  (Addressable drive lba count → RoundTrip channel latency drive lba source target count s) ∧
  (¬ Addressable drive lba count →
    Rejected (run (bench channel latency) (ataWrite (some drive) lba source count) s) s ∧
    Rejected (run (bench channel latency) (ataRead (some drive) lba target count) s) s)

/-! ### The checks of the call -/

section

variable {word : BitVec 16 → BitVec 64 → AtaM Unit} {command commandExt : BitVec 8}
  {finish : BitVec 16 → AtaAddressingMode → AtaM Bool} {buffer source target : BitVec 64}

/-- The check of the range, without the subtraction. -/
theorem outside_iff (hcount : count ≠ 0) :
    (count = 0 ∨ drive.sectorCount ≤ lba ∨ drive.sectorCount - lba < count.setWidth 64) ↔
      drive.sectorCount.toNat < lba.toNat + count.toNat := by
  have hpos := toNat_pos hcount
  have hc : (count.setWidth 64).toNat = count.toNat := by
    rw [BitVec.toNat_setWidth]
    have := count.isLt
    omega
  rw [BitVec.le_def, BitVec.lt_def, hc]
  constructor
  · rintro (h | h | h)
    · exact absurd h hcount
    · omega
    · by_cases hle : lba.toNat ≤ drive.sectorCount.toNat
      · rw [BitVec.toNat_sub_of_le (BitVec.le_def.mpr hle)] at h
        omega
      · omega
  · intro h
    by_cases hle : drive.sectorCount.toNat ≤ lba.toNat
    · exact .inr (.inl hle)
    · refine .inr (.inr ?_)
      rw [BitVec.toNat_sub_of_le (BitVec.le_def.mpr (by omega))]
      omega

/-- A request inside the drive gets to its phase. -/
theorem run_ataTransfer (hchannel : drive.channel = some channel) (htype : drive.type = .ata)
    (hbuffer : buffer ≠ 0) (hcount : count ≠ 0)
    (hinside : lba.toNat + count.toNat ≤ drive.sectorCount.toNat) :
    run (bench channel latency) (ataTransfer word command commandExt finish (some drive) lba buffer count) s =
      let r := run (bench channel latency)
        (transferPhase word command commandExt finish drive channel lba buffer count) s
      (some { drive with ataStatus := if r.1 then SUCCESS else ERR_IO }, r.2) := by
  have hin : ¬ (count = 0 ∨ drive.sectorCount ≤ lba ∨ drive.sectorCount - lba < count.setWidth 64) := by
    rw [outside_iff hcount]
    omega
  simp only [ataTransfer, hchannel, htype, if_neg hbuffer, if_neg hin, run_bind, spinLock, spinUnlock, run_call,
    bench, run_pure]

/-- A request that is not inside the drive is rejected by the checks. -/
theorem run_ataTransfer_outside (hchannel : drive.channel = some channel) (htype : drive.type = .ata)
    (hbuffer : buffer ≠ 0) (hcount : count ≠ 0)
    (houtside : drive.sectorCount.toNat < lba.toNat + count.toNat) :
    Rejected (run (bench channel latency)
      (ataTransfer word command commandExt finish (some drive) lba buffer count) s) s := by
  simp only [ataTransfer, hchannel, htype, if_neg hbuffer, if_pos ((outside_iff hcount).mpr houtside), run_pure]
  exact ⟨⟨_, rfl, show ERR_INVALID_COUNT ≠ SUCCESS by decide⟩, rfl, rfl, rfl⟩

/-- A request that no mode fits is rejected. -/
theorem run_ataTransfer_invalid (hd : Described drive channel lba) (hbusy : s.drive.busy < 1000000)
    (hbuffer : buffer ≠ 0) (hcount : count ≠ 0)
    (hinside : lba.toNat + count.toNat ≤ drive.sectorCount.toNat) (hmode : modeOf drive lba count = .invalid) :
    Rejected (run (bench channel latency)
      (ataTransfer word command commandExt finish (some drive) lba buffer count) s) s := by
  obtain ⟨n, hrun⟩ := @run_transferPhase_invalid channel latency s drive lba count word command commandExt finish
    buffer hd hbusy hmode
  rw [run_ataTransfer hd.channel hd.type hbuffer hcount hinside]
  simp only [hrun]
  exact ⟨⟨_, rfl, show ERR_IO ≠ SUCCESS by decide⟩, rfl, rfl, rfl⟩

theorem start_commands (d : IdealDrive) (direction : Direction) (first n : Nat) :
    d.commands <+: (d.start latency direction first n).commands := by
  rw [IdealDrive.start]
  split
  · exact List.prefix_rfl
  · exact List.prefix_append ..

theorem execute_commands (d : IdealDrive) (v : BitVec 8) :
    d.commands <+: (d.execute latency v).commands := by
  rw [IdealDrive.execute]
  split
  · exact List.prefix_rfl
  · split
    · exact start_commands ..
    · split
      · exact start_commands ..
      · split
        · exact start_commands ..
        · split
          · exact start_commands ..
          · split
            · exact List.prefix_append ..
            · exact List.prefix_rfl

theorem writeRegister_commands (d : IdealDrive) (register : BitVec 16) (v : BitVec 8) :
    d.commands <+: (d.writeRegister latency register v).commands := by
  simp only [IdealDrive.writeRegister]
  repeat' split
  all_goals first | exact execute_commands .. | exact List.prefix_rfl

/-- Commands are only added to the record of the drive. -/
theorem commands_grow {α : Type} (p : AtaM α) (s : Bench) :
    s.drive.commands <+: (run (bench channel latency) p s).2.drive.commands := by
  refine run_rel _ (R := fun s t : Bench => s.drive.commands <+: t.drive.commands) (fun _ => List.prefix_rfl)
    (fun h h' => h.trans h') (fun o s => ?_) p s
  cases o with
  | inb port =>
    rw [bench]
    split <;> exact List.prefix_rfl
  | outb port v => exact writeRegister_commands ..
  | inw port =>
    rw [bench]
    split
    · simp only [IdealDrive.readData]
      split
      · split
        · simp only [(advance_kept ..).2.1, List.prefix_rfl]
        · exact List.prefix_rfl
      · exact List.prefix_rfl
    · exact List.prefix_rfl
  | outw port v =>
    rw [bench]
    split
    · simp only [IdealDrive.writeData]
      split
      · split
        · simp only [(advance_kept ..).2.1, List.prefix_rfl]
        · exact List.prefix_rfl
      · exact List.prefix_rfl
    · exact List.prefix_rfl
  | _ => exact List.prefix_rfl

/-- A request that some mode fits is a command on the drive. -/
theorem transferPhase_commands {direction : Direction} (hd : Described drive channel lba)
    (hbusy : s.drive.busy < 1000000) (hcount : count ≠ 0) (hmode : modeOf drive lba count ≠ .invalid)
    (hslave : s.drive.slave = drive.slave) (hstarts : Starts latency direction command commandExt) :
    s.drive.commands ++ [commandOf direction lba.toNat count.toNat] <+:
      (run (bench channel latency)
        (transferPhase word command commandExt finish drive channel lba buffer count) s).2.drive.commands := by
  obtain ⟨hresult, haimed⟩ := run_ataConfigureLba hd hbusy hcount hmode
  have hcommand : ∀ s' : Bench, s'.drive.writeRegister latency ATA_REG_COMMAND
      (if modeOf drive lba count = .lba48 then commandExt else command) =
      s'.drive.execute latency (if modeOf drive lba count = .lba48 then commandExt else command) := fun _ => rfl
  rw [transferPhase, run_bind, hresult, if_neg hmode, run_bind, run_outb, hcommand,
    haimed.execute hstarts hslave hmode]
  refine List.IsPrefix.trans ?_ (commands_grow _ _)
  rw [IdealDrive.start, if_neg haimed.lbaBit, ← haimed.commands]
  exact List.prefix_rfl

end

/-! ### The request -/

section

variable {source target : BitVec 64}

theorem modeOf_of_fits (hcount : count ≠ 0)
    (h : drive.supportsLba28 = true ∧ lba.toNat + count.toNat ≤ 2 ^ 28 ∨
      drive.supportsLba48 = true ∧ lba.toNat < 2 ^ 48) : modeOf drive lba count ≠ .invalid := by
  have h48 : ¬ 1 <<< 48 ≤ lba := by
    rw [BitVec.le_def, show (1 <<< 48 : BitVec 64).toNat = 2 ^ 48 by rfl]
    omega
  rw [modeOf, if_neg h48]
  split
  · simp
  · next hfits =>
    rcases h with h | h
    · exact absurd ((fits28_iff hcount).mpr h) hfits
    · rw [if_pos h.1]
      simp

theorem modeOf_invalid (hcount : count ≠ 0)
    (h28 : ¬ (drive.supportsLba28 = true ∧ lba.toNat + count.toNat ≤ 2 ^ 28))
    (h48 : ¬ (drive.supportsLba48 = true ∧ lba.toNat < 2 ^ 48)) : modeOf drive lba count = .invalid := by
  rw [modeOf]
  split
  · rfl
  · next hlt =>
    rw [BitVec.le_def, show (1 <<< 48 : BitVec 64).toNat = 2 ^ 48 by rfl] at hlt
    rw [if_neg fun h => h28 ((fits28_iff hcount).mp h), if_neg fun h => h48 ⟨h, by omega⟩]

/-- The request is inside the drive, and some mode fits. -/
structure Fitting (drive : AtaDrive) (channel : AtaChannel) (lba : BitVec 64) (count : BitVec 8) : Prop where
  channel : drive.channel = some channel
  type : drive.type = .ata
  positive : count ≠ 0
  inside : lba.toNat + count.toNat ≤ drive.sectorCount.toNat
  mode : modeOf drive lba count ≠ .invalid

theorem Fitting.described (h : Fitting drive channel lba count) : Described drive channel lba where
  channel := h.channel
  type := h.type
  inside := BitVec.lt_def.mpr (by have := h.inside; have := toNat_pos h.positive; omega)

/-- **A write** lays the bytes of the buffer into the store, and flushes. -/
theorem run_ataWrite (hidle : Idle latency drive s) (hfit : Fitting drive channel lba count)
    (hend : lba.toNat + count.toNat ≤ 2 ^ 48) (hsource : source ≠ 0) :
    ∃ s', run (bench channel latency) (ataWrite (some drive) lba source count) s =
        (some { drive with ataStatus := SUCCESS }, s') ∧
      Midway .toDrive lba.toNat count.toNat
        (s.drive.commands ++ [.write lba.toNat count.toNat] ++ [.flush])
        (fun w => laid s.drive.store (512 * lba.toNat) (2 * w) fun i => s.memory (source + BitVec.ofNat 64 i))
        (fun _ => s.memory) drive.slave (256 * count.toNat) s' := by
  have hphase : ∃ s₁, Midway .toDrive lba.toNat count.toNat
      (s.drive.commands ++ [commandOf .toDrive lba.toNat count.toNat])
      (fun w => laid s.drive.store (512 * lba.toNat) (2 * w) fun i => s.memory (source + BitVec.ofNat 64 i))
      (fun _ => s.memory) drive.slave (256 * count.toNat) s₁ ∧
      run (bench channel latency) (transferPhase writeWord ATA_CMD_WRITE ATA_CMD_WRITE_EXT flush drive channel
        lba source count) s = run (bench channel latency) (flush channel.ioBase (modeOf drive lba count)) s₁ :=
    run_transferPhase hidle.latency hfit.described hidle.busy hfit.positive hfit.mode hidle.slave starts_write
      (laid_zero ..) rfl (movesNext_writeWord hidle.latency hend s.drive.store s.memory)
  obtain ⟨s₁, hmid, hrun⟩ := hphase
  obtain ⟨htrue, hflushed⟩ := @run_flush channel latency s₁ _ _ _ _ _ _ _ _ hidle.latency
    (modeOf drive lba count) hmid
  refine ⟨_, ?_, hflushed⟩
  rw [ataWrite, run_ataTransfer hfit.channel hfit.type hsource hfit.positive hfit.inside, hrun]
  dsimp only
  rw [htrue, if_pos rfl]

/-- **A read** fills the buffer from the store. -/
theorem run_ataRead (hidle : Idle latency drive s) (hfit : Fitting drive channel lba count)
    (hend : lba.toNat + count.toNat ≤ 2 ^ 48) (htarget : target ≠ 0) :
    ∃ s', run (bench channel latency) (ataRead (some drive) lba target count) s =
        (some { drive with ataStatus := SUCCESS }, s') ∧
      Midway .toHost lba.toNat count.toNat (s.drive.commands ++ [.read lba.toNat count.toNat])
        (fun _ => s.drive.store)
        (fun w => filled s.memory target (2 * w) fun i => s.drive.store (512 * lba.toNat + i))
        drive.slave (256 * count.toNat) s' := by
  have hphase : ∃ s₁, Midway .toHost lba.toNat count.toNat
      (s.drive.commands ++ [commandOf .toHost lba.toNat count.toNat]) (fun _ => s.drive.store)
      (fun w => filled s.memory target (2 * w) fun i => s.drive.store (512 * lba.toNat + i))
      drive.slave (256 * count.toNat) s₁ ∧
      run (bench channel latency) (transferPhase readWord ATA_CMD_READ ATA_CMD_READ_EXT (fun _ _ => pure true)
        drive channel lba target count) s = run (bench channel latency) (pure true) s₁ :=
    run_transferPhase hidle.latency hfit.described hidle.busy hfit.positive hfit.mode hidle.slave starts_read
      rfl (filled_zero ..) (movesNext_readWord hidle.latency hend count.isLt s.drive.store s.memory)
  obtain ⟨s₁, hmid, hrun⟩ := hphase
  refine ⟨s₁, ?_, hmid⟩
  rw [ataRead, run_ataTransfer hfit.channel hfit.type htarget hfit.positive hfit.inside, hrun, run_pure]
  rfl

/-- **What the drive can address is written and read back.** -/
theorem round_trip (hcall : Called drive channel source target) (hidle : Idle latency drive s)
    (hcount : count ≠ 0) (haddress : Addressable drive lba count) :
    RoundTrip channel latency drive lba source target count s := by
  have hpos := toNat_pos hcount
  have hend : lba.toNat + count.toNat ≤ 2 ^ 48 := by
    have := haddress.2
    omega
  have hfit : ∀ status, Fitting { drive with ataStatus := status } channel lba count := fun status =>
    ⟨hcall.channel, hcall.type, hcount, haddress.1,
      modeOf_of_fits hcount (haddress.2.imp_right fun h => ⟨h.1, by omega⟩)⟩
  obtain ⟨s₁, hwrite, hmid₁⟩ := run_ataWrite hidle (hfit drive.ataStatus) hend hcall.source
  have hidle₁ : Idle latency { drive with ataStatus := SUCCESS } s₁ := ⟨hidle.latency, hmid₁.busy, hmid₁.onUnit⟩
  obtain ⟨s₂, hread, hmid₂⟩ := run_ataRead hidle₁ (hfit SUCCESS) hend hcall.target
  have hwrote : wrote channel latency drive lba source count s =
      (some { drive with ataStatus := SUCCESS }, s₁) := hwrite
  have hback : readBack channel latency drive lba source target count s =
      (some { drive with ataStatus := SUCCESS }, s₂) := by
    rw [readBack, hwrote]
    exact hread
  have hstore := hmid₂.store.trans hmid₁.store
  have hlaid : ∀ i < 512 * count.toNat, s₁.drive.store (512 * lba.toNat + i) =
      s.memory (source + BitVec.ofNat 64 i) := by
    intro i hi
    rw [hmid₁.store, laid, if_pos ⟨by omega, by omega⟩, Nat.add_sub_cancel_left]
  refine {
    written := by rw [hwrote]
    read := by rw [hback]
    bytes := fun i hi => ?_
    stored := fun i hi => ?_
    outside := fun x hx => ?_
    commands := ?_ }
  · have hoffset : (target + BitVec.ofNat 64 i - target).toNat = i := by
      rw [BitVec.add_comm, BitVec.add_sub_cancel, BitVec.toNat_ofNat, Nat.mod_eq_of_lt]
      have := count.isLt
      omega
    rw [hback, hmid₂.memory, filled, hoffset, if_pos (by omega)]
    exact hlaid i hi
  · rw [hback, hmid₂.store]
    exact hlaid i hi
  · rw [hback]
    refine List.map_congr_left fun i hi => ?_
    have hi := List.mem_range.mp hi
    rw [hstore, laid, if_neg]
    omega
  · rw [hback, hmid₂.commands, hmid₁.commands]
    simp

/-- A request across sector 2 ^ 48 is not rejected: the drive sees a command. -/
theorem not_serves_past (hcall : Called drive channel source target) (hidle : Idle latency drive s)
    (hcount : count ≠ 0) (h48 : drive.supportsLba48 = true) (hstart : lba.toNat < 2 ^ 48)
    (hpast : 2 ^ 48 < lba.toNat + count.toNat)
    (hinside : lba.toNat + count.toNat ≤ drive.sectorCount.toNat) :
    ¬ Serves channel latency drive lba source target count s := by
  rintro ⟨-, hrejected⟩
  have hpos := toNat_pos hcount
  have hno : ¬ Addressable drive lba count := fun h => by
    have := h.2
    omega
  obtain ⟨-, hcommands, -, -⟩ := (hrejected hno).1
  have hd : Described drive channel lba := ⟨hcall.channel, hcall.type, BitVec.lt_def.mpr (by omega)⟩
  have hprefix := @transferPhase_commands channel latency s drive lba count writeWord ATA_CMD_WRITE
    ATA_CMD_WRITE_EXT flush source .toDrive hd hidle.busy hcount
    (modeOf_of_fits hcount (.inr ⟨h48, hstart⟩)) hidle.slave starts_write
  rw [ataWrite, run_ataTransfer hcall.channel hcall.type hcall.source hcount hinside] at hcommands
  have hlength := hprefix.length_le
  rw [hcommands, List.length_append, List.length_singleton] at hlength
  omega

/-- What the drive cannot address is rejected, apart from a request across sector 2 ^ 48. -/
theorem rejected (hcall : Called drive channel source target) (hidle : Idle latency drive s)
    (hcount : count ≠ 0) (hno : ¬ Addressable drive lba count)
    (hgood : ¬ (drive.supportsLba48 = true ∧ lba.toNat < 2 ^ 48 ∧ 2 ^ 48 < lba.toNat + count.toNat ∧
      lba.toNat + count.toNat ≤ drive.sectorCount.toNat)) :
    Rejected (run (bench channel latency) (ataWrite (some drive) lba source count) s) s ∧
    Rejected (run (bench channel latency) (ataRead (some drive) lba target count) s) s := by
  have hpos := toNat_pos hcount
  by_cases hinside : lba.toNat + count.toNat ≤ drive.sectorCount.toNat
  · have hd : Described drive channel lba := ⟨hcall.channel, hcall.type, BitVec.lt_def.mpr (by omega)⟩
    have hmode : modeOf drive lba count = .invalid := by
      refine modeOf_invalid hcount (fun h => hno ⟨hinside, .inl h⟩) fun h => ?_
      by_cases hle : lba.toNat + count.toNat ≤ 2 ^ 48
      · exact hno ⟨hinside, .inr ⟨h.1, hle⟩⟩
      · exact hgood ⟨h.1, h.2, by omega, hinside⟩
    exact ⟨run_ataTransfer_invalid hd hidle.busy hcall.source hcount hinside hmode,
      run_ataTransfer_invalid hd hidle.busy hcall.target hcount hinside hmode⟩
  · exact ⟨run_ataTransfer_outside hcall.channel hcall.type hcall.source hcount (by omega),
      run_ataTransfer_outside hcall.channel hcall.type hcall.target hcount (by omega)⟩

/-- **ATA: a write and then a read.**  Every request with a count and valid pointers is served, exactly if it
is not one that starts below sector 2 ^ 48 of a drive with 48-bit addresses, ends behind that sector, and is
inside the sector count of the description. -/
theorem ata_write_read (hcall : Called drive channel source target) (hidle : Idle latency drive s)
    (hcount : count ≠ 0) :
    Serves channel latency drive lba source target count s ↔
      ¬ (drive.supportsLba48 = true ∧ lba.toNat < 2 ^ 48 ∧ 2 ^ 48 < lba.toNat + count.toNat ∧
        lba.toNat + count.toNat ≤ drive.sectorCount.toNat) := by
  constructor
  · rintro hserves ⟨h48, hstart, hpast, hinside⟩
    exact not_serves_past hcall hidle hcount h48 hstart hpast hinside hserves
  · intro hgood
    exact ⟨round_trip hcall hidle hcount, fun hno => rejected hcall hidle hcount hno hgood⟩

end

/-- A drive with 48-bit addresses that describes itself with two sectors more than these reach. -/
def hugeDrive : AtaDrive where
  channel := some ⟨0x1F0, 0x3F6⟩
  slave := false
  type := .ata
  supportsLba28 := true
  supportsLba48 := true
  sectorCount := 0x1000000000002
  model := []
  firmware := []
  serial := []
  ataStatus := SUCCESS

/-- The drive behind it, filled with zeros, and a memory. -/
def hugeBench : Bench where
  drive := {
    slave := false
    store := fun _ => 0
    head := 0
    sectorCount := ⟨0, 0⟩
    low := ⟨0, 0⟩
    mid := ⟨0, 0⟩
    high := ⟨0, 0⟩
    transfer := none
    commands := []
    busy := 0
    moment := 0 }
  memory := fun _ => 0xA5

theorem called_hugeDrive : Called hugeDrive ⟨0x1F0, 0x3F6⟩ 0x100000 0x200000 :=
  ⟨rfl, rfl, by decide, by decide⟩

theorem idle_hugeBench : Idle (fun _ => 3) hugeDrive hugeBench := ⟨fun _ => by decide, by decide, rfl⟩

/-- A request that ends at the last sector that 48-bit addresses reach is served. -/
theorem ata_write_read_last :
    Serves ⟨0x1F0, 0x3F6⟩ (fun _ => 3) hugeDrive 0xFFFFFFFFFFFE 0x100000 0x200000 2 hugeBench :=
  (ata_write_read called_hugeDrive idle_hugeBench (by decide)).mpr (by decide)

/-- **A request across sector 2 ^ 48 is not rejected.**  Two sectors from the last one on: the drive cannot
address the second one, and yet it gets the command. -/
theorem ata_write_past_last_sector :
    ¬ Serves ⟨0x1F0, 0x3F6⟩ (fun _ => 3) hugeDrive 0xFFFFFFFFFFFF 0x100000 0x200000 2 hugeBench :=
  not_serves_past called_hugeDrive idle_hugeBench (by decide) rfl (by decide) (by decide) (by decide)

end Ata

end Dem64
