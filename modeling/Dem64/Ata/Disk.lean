import Dem64.Ata.Driver
import Mathlib.Logic.Function.Basic
import Mathlib.Tactic.Ring

/-!
# An ideal drive

The drive that the transfers are run against: a store of sectors of 512 bytes behind the registers of an ATA
task file.  Each of the count and address registers is two deep: a write pushes the value written before into
the previous one, and a command with a 48-bit address reads both (`address48`), one with a 28-bit address
reads the last one and the low bits of the drive/head register (`address28`).

The drive never reports an error.  It may be busy for some reads of the status behind every command and every
sector (`latency`), and while it is busy it answers nothing else, so a driver that does not poll is not served.
-/

set_option autoImplicit false

namespace Dem64

namespace Ata

open Interaction Interaction.Prog

/-- Which way the words of a command go. -/
inductive Direction
  | toHost
  | toDrive
  deriving DecidableEq

/-- A command that moves words. -/
structure DriveTransfer where
  direction : Direction
  /-- The first sector. -/
  first : Nat
  /-- The words of the command. -/
  words : Nat
  /-- The words moved so far. -/
  done : Nat

/-- A command the drive has accepted. -/
inductive Command
  | read (first count : Nat)
  | write (first count : Nat)
  | flush
  deriving DecidableEq

/-- The command that moves words in this direction. -/
def commandOf : Direction → Nat → Nat → Command
  | .toHost => .read
  | .toDrive => .write

/-- A register of the task file: the last value written and the one before. -/
structure Register where
  last : BitVec 8
  previous : BitVec 8

def Register.push (r : Register) (v : BitVec 8) : Register := ⟨v, r.last⟩

/-- The drive. -/
structure IdealDrive where
  /-- Its place on the channel. -/
  slave : Bool
  /-- Byte `i` of sector `x` is `store (512 * x + i)`. -/
  store : Nat → BitVec 8
  head : BitVec 8
  sectorCount : Register
  low : Register
  mid : Register
  high : Register
  transfer : Option DriveTransfer
  /-- The commands accepted so far, the newest one last. -/
  commands : List Command
  /-- How many more reads of the status find it busy. -/
  busy : Nat
  /-- How often it has been busy. -/
  moment : Nat

namespace IdealDrive

variable (d : IdealDrive) (latency : Nat → Nat)

/-- The address of a command with a 28-bit address. -/
def address28 : Nat :=
  (d.head &&& 0x0F).toNat * 2 ^ 24 + d.high.last.toNat * 2 ^ 16 + d.mid.last.toNat * 2 ^ 8 + d.low.last.toNat

/-- The address of a command with a 48-bit address. -/
def address48 : Nat :=
  d.high.previous.toNat * 2 ^ 40 + d.mid.previous.toNat * 2 ^ 32 + d.low.previous.toNat * 2 ^ 24 +
    d.high.last.toNat * 2 ^ 16 + d.mid.last.toNat * 2 ^ 8 + d.low.last.toNat

/-- The sector count of a command with a 28-bit address: 0 is 256. -/
def count28 : Nat := if d.sectorCount.last = 0 then 256 else d.sectorCount.last.toNat

/-- The sector count of a command with a 48-bit address: 0 is 65536. -/
def count48 : Nat :=
  if d.sectorCount.previous = 0 ∧ d.sectorCount.last = 0 then 65536
  else d.sectorCount.previous.toNat * 2 ^ 8 + d.sectorCount.last.toNat

/-- The drive starts to be busy. -/
def goBusy : IdealDrive := { d with busy := latency d.moment, moment := d.moment + 1 }

/-- A command that moves words is accepted if the address is one of a sector. -/
def start (direction : Direction) (first count : Nat) : IdealDrive :=
  if d.head &&& 0x40 = 0 then d
  else { d with
    transfer := some ⟨direction, first, 256 * count, 0⟩
    commands := d.commands ++ [commandOf direction first count] }.goBusy latency

/-- A write of the command register: a command for the other drive, or an unknown one, is ignored. -/
def execute (command : BitVec 8) : IdealDrive :=
  if decide (d.head &&& 0x10 ≠ 0) ≠ d.slave then d
  else if command = ATA_CMD_READ then d.start latency .toHost d.address28 d.count28
  else if command = ATA_CMD_READ_EXT then d.start latency .toHost d.address48 d.count48
  else if command = ATA_CMD_WRITE then d.start latency .toDrive d.address28 d.count28
  else if command = ATA_CMD_WRITE_EXT then d.start latency .toDrive d.address48 d.count48
  else if command = ATA_CMD_FLUSH ∨ command = ATA_CMD_FLUSH_EXT then
    { d with commands := d.commands ++ [Command.flush] }.goBusy latency
  else d

/-- A write of a register. -/
def writeRegister (register : BitVec 16) (v : BitVec 8) : IdealDrive :=
  if register = ATA_REG_DRIVE_HEAD then { d with head := v }
  else if register = ATA_REG_SECTOR_COUNT then { d with sectorCount := d.sectorCount.push v }
  else if register = ATA_REG_LBA_LOW then { d with low := d.low.push v }
  else if register = ATA_REG_LBA_MID then { d with mid := d.mid.push v }
  else if register = ATA_REG_LBA_HIGH then { d with high := d.high.push v }
  else if register = ATA_REG_COMMAND then d.execute latency v
  else d

/-- The status: `BSY` alone, or ready, with `DRQ` while words are to be moved. -/
def status : BitVec 8 :=
  if d.busy ≠ 0 then 0x80 else if d.transfer.isSome then 0x58 else 0x50

/-- A word has been moved: the drive is busy behind each sector, and has finished behind the last one. -/
def advance (t : DriveTransfer) : IdealDrive :=
  if t.done + 1 = t.words then { d with transfer := none }.goBusy latency
  else if (t.done + 1) % 256 = 0 then
    { d with transfer := some { t with done := t.done + 1 } }.goBusy latency
  else { d with transfer := some { t with done := t.done + 1 } }

/-- The byte of the store that the next word starts at: the last sector of the 48-bit addresses is followed
by the first one. -/
def place (t : DriveTransfer) : Nat := (512 * t.first + 2 * t.done) % 2 ^ 57

/-- A read of the data port. -/
def readData : BitVec 16 × IdealDrive :=
  match d.transfer with
  | some t =>
    if t.direction = .toHost ∧ d.busy = 0 then
      ((d.store (place t)).setWidth 16 ||| (d.store (place t + 1)).setWidth 16 <<< 8, d.advance latency t)
    else (0, d)
  | none => (0, d)

/-- A write of the data port. -/
def writeData (word : BitVec 16) : IdealDrive :=
  match d.transfer with
  | some t =>
    if t.direction = .toDrive ∧ d.busy = 0 then
      { d with
        store := Function.update (Function.update d.store (place t) (word.setWidth 8)) (place t + 1)
          ((word >>> 8).setWidth 8) }.advance latency t
    else d
  | none => d

/-- The bytes of a sector. -/
def sector (x : Nat) : List (BitVec 8) := (List.range 512).map fun i => d.store (512 * x + i)

end IdealDrive

/-- The drive and the memory of the caller. -/
structure Bench where
  drive : IdealDrive
  memory : BitVec 64 → BitVec 8

/-- The drive behind the ports of a channel, with the caller's memory. -/
def bench (channel : AtaChannel) (latency : Nat → Nat) : Handler AtaOp AtaAns Bench
  | .inb port, s =>
    if port = channel.ioBase + ATA_REG_STATUS then
      (s.drive.status, { s with drive := { s.drive with busy := s.drive.busy - 1 } })
    else (s.drive.status, s)
  | .outb port v, s => ((), { s with drive := s.drive.writeRegister latency (port - channel.ioBase) v })
  | .inw port, s =>
    if port = channel.ioBase + ATA_REG_DATA then
      ((s.drive.readData latency).1, { s with drive := (s.drive.readData latency).2 })
    else (0, s)
  | .outw port word, s =>
    if port = channel.ioBase + ATA_REG_DATA then ((), { s with drive := s.drive.writeData latency word })
    else ((), s)
  | .load a, s => (s.memory a, s)
  | .store a v, s => ((), { s with memory := Function.update s.memory a v })
  | .lock, s => ((), s)
  | .unlock, s => ((), s)

/-! ## The helpers against the drive -/

variable {channel : AtaChannel} {latency : Nat → Nat} {s : Bench}

/-- Another state of the drive. -/
def Bench.onDrive (s : Bench) (d : IdealDrive) : Bench := { s with drive := d }

/-- The drive with another count of busy reads. -/
def Bench.withBusy (s : Bench) (n : Nat) : Bench := { s with drive := { s.drive with busy := n } }

@[simp] theorem Bench.withBusy_memory (n : Nat) : (s.withBusy n).memory = s.memory := rfl

@[simp] theorem Bench.withBusy_busy (n : Nat) : (s.withBusy n).drive.busy = n := rfl

@[simp] theorem Bench.withBusy_withBusy (n m : Nat) : (s.withBusy n).withBusy m = s.withBusy m := rfl

theorem Bench.withBusy_self : s.withBusy s.drive.busy = s := rfl

theorem run_status : run (bench channel latency) (inb (channel.ioBase + ATA_REG_STATUS)) s =
    (s.drive.status, s.withBusy (s.drive.busy - 1)) := by
  rw [inb, run_call, bench, if_pos rfl]
  rfl

theorem status_busy (h : s.drive.busy ≠ 0) : s.drive.status = 0x80 := if_pos h

theorem status_ready (h : s.drive.busy = 0) :
    s.drive.status = if s.drive.transfer.isSome then 0x58 else 0x50 := by
  rw [IdealDrive.status, if_neg (by simp [h])]

theorem run_waitNotBusyRounds {rounds : Nat} (h : s.drive.busy < rounds) :
    run (bench channel latency) (waitNotBusyRounds channel.ioBase rounds) s = (true, s.withBusy 0) := by
  induction rounds generalizing s with
  | zero => omega
  | succ rounds ih =>
    rw [waitNotBusyRounds, run_bind, run_status]
    dsimp only
    rcases Nat.eq_zero_or_pos s.drive.busy with h0 | hpos
    · have hready : ¬ (s.drive.status = 0 ∨ s.drive.status = 0xFF) ∧ s.drive.status &&& ATA_SR_BSY = 0 := by
        rw [status_ready h0]
        split <;> decide
      rw [if_neg hready.1, if_pos hready.2, h0]
      rfl
    · rw [status_busy (Nat.ne_of_gt hpos), if_neg (by decide), if_neg (by decide),
        ih (by rw [Bench.withBusy_busy]; omega), Bench.withBusy_withBusy]

/-- **The drive is waited for** until it is not busy. -/
theorem run_ataWaitNotBusy (h : s.drive.busy < 1000000) :
    run (bench channel latency) (ataWaitNotBusy channel.ioBase) s = (true, s.withBusy 0) :=
  run_waitNotBusyRounds h

theorem run_pollDrqRounds {rounds : Nat} (h : s.drive.busy < rounds) (ht : s.drive.transfer.isSome) :
    run (bench channel latency) (pollDrqRounds channel.ioBase rounds) s = (true, s.withBusy 0) := by
  induction rounds generalizing s with
  | zero => omega
  | succ rounds ih =>
    rw [pollDrqRounds, run_bind, run_status]
    dsimp only
    rcases Nat.eq_zero_or_pos s.drive.busy with h0 | hpos
    · rw [status_ready h0, if_pos ht, if_neg (by decide), if_pos (by decide), if_neg (by decide),
        if_pos (by decide), h0]
      rfl
    · have hrest := @ih (s.withBusy (s.drive.busy - 1)) (by rw [Bench.withBusy_busy]; omega) ht
      rw [status_busy (Nat.ne_of_gt hpos), if_neg (by decide), if_neg (by decide), hrest,
        Bench.withBusy_withBusy]

/-- Reads of any port make the drive less busy at most. -/
theorem run_inb_any (port : BitVec 16) :
    ∃ n ≤ s.drive.busy, (run (bench channel latency) (inb port) s).2 = s.withBusy n := by
  rw [inb, run_call, bench]
  split
  · exact ⟨s.drive.busy - 1, Nat.sub_le _ _, rfl⟩
  · exact ⟨s.drive.busy, le_rfl, rfl⟩

theorem run_ata400nsDelay (port : BitVec 16) :
    ∃ n ≤ s.drive.busy, (run (bench channel latency) (ata400nsDelay port) s).2 = s.withBusy n := by
  simp only [ata400nsDelay, run_bind]
  obtain ⟨a, ha, h₁⟩ := @run_inb_any channel latency s port
  rw [h₁]
  obtain ⟨b, hb, h₂⟩ := @run_inb_any channel latency (s.withBusy a) port
  rw [h₂, Bench.withBusy_withBusy]
  obtain ⟨c, hc, h₃⟩ := @run_inb_any channel latency (s.withBusy b) port
  rw [h₃, Bench.withBusy_withBusy]
  obtain ⟨e, he, h₄⟩ := @run_inb_any channel latency (s.withBusy c) port
  rw [h₄, Bench.withBusy_withBusy]
  simp only [Bench.withBusy_busy] at hb hc he
  exact ⟨e, by omega, rfl⟩

/-- A drive that is not busy is not changed by the delay. -/
theorem run_delay_ready (port : BitVec 16) (h : s.drive.busy = 0) :
    (run (bench channel latency) (ata400nsDelay port) s).2 = s := by
  obtain ⟨n, hn, heq⟩ := @run_ata400nsDelay channel latency s port
  rw [heq, show n = s.drive.busy by omega, Bench.withBusy_self]

theorem run_settled (h : s.drive.busy < 1000000) :
    run (bench channel latency) (settled channel.ioBase) s = (true, s.withBusy 0) := by
  rw [settled, run_bind, run_ataWaitNotBusy h]
  rw [if_pos rfl, run_bind, run_status]
  have hstatus : (s.withBusy 0).drive.status &&& (ATA_SR_ERR ||| ATA_SR_DF) = 0 := by
    rw [status_ready rfl]
    split <;> decide
  rw [run_pure, Bench.withBusy_withBusy]
  exact Prod.ext (decide_eq_true hstatus) rfl

/-- A write of a register of the drive. -/
theorem run_outb (register : BitVec 16) (v : BitVec 8) :
    run (bench channel latency) (outb (channel.ioBase + register) v) s =
      ((), s.onDrive (s.drive.writeRegister latency register v)) := by
  rw [outb, run_call, bench, BitVec.add_comm, BitVec.add_sub_cancel]
  rfl

end Ata

end Dem64
