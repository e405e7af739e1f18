import Dem64.Lib.Interaction
import Mathlib.Data.List.DropRight

/-!
# The ATA driver

`ata_read`, `ata_write` and `ata_probe_device` (`ata.c`, `ataid.c`) with the polling loops of `atahlp.c`, as
programs over the ports.  A program asks `inb`, `outb`, `inw` and `outw`, loads and stores the bytes of the
caller's buffer, and takes and releases the lock of its channel; what answers is not said here.

The two transfers of the source are one text with other commands and another word in the inner loop, and
the write flushes at its end.  Both are `ataTransfer`.  A `goto io_error` is the answer `false`.
-/

set_option autoImplicit false

namespace Dem64

namespace Ata

open Interaction

/-! ## What the driver asks -/

/-- An operation of the driver. -/
inductive AtaOp
  | inb (port : BitVec 16)
  | outb (port : BitVec 16) (byte : BitVec 8)
  | inw (port : BitVec 16)
  | outw (port : BitVec 16) (word : BitVec 16)
  /-- A byte of the buffer is read. -/
  | load (a : BitVec 64)
  /-- A byte of the buffer is written. -/
  | store (a : BitVec 64) (byte : BitVec 8)
  /-- `spin_lock(&channel->lock)` has returned. -/
  | lock
  /-- `spin_unlock(&channel->lock)`. -/
  | unlock

/-- What an operation is answered with. -/
@[reducible] def AtaAns : AtaOp → Type
  | .inb _ => BitVec 8
  | .inw _ => BitVec 16
  | .load _ => BitVec 8
  | _ => Unit

/-- A program of the driver. -/
abbrev AtaM := Prog AtaOp AtaAns

/-- An operation the driver asked, with its answer. -/
abbrev AtaEvent := Event AtaOp AtaAns

def inb (port : BitVec 16) : AtaM (BitVec 8) := .call (AtaOp.inb port)

def outb (port : BitVec 16) (byte : BitVec 8) : AtaM Unit := .call (AtaOp.outb port byte)

def inw (port : BitVec 16) : AtaM (BitVec 16) := .call (AtaOp.inw port)

def outw (port : BitVec 16) (word : BitVec 16) : AtaM Unit := .call (AtaOp.outw port word)

def load (a : BitVec 64) : AtaM (BitVec 8) := .call (AtaOp.load a)

def store (a : BitVec 64) (byte : BitVec 8) : AtaM Unit := .call (AtaOp.store a byte)

def spinLock : AtaM Unit := .call AtaOp.lock

def spinUnlock : AtaM Unit := .call AtaOp.unlock

/-! ## `atadef.h` -/

def SUCCESS : BitVec 8 := 0
def ERR_INVALID_COUNT : BitVec 8 := 1
def ERR_INVALID_BUFFER : BitVec 8 := 2
def ERR_INVALID_TYPE : BitVec 8 := 3
def ERR_IO : BitVec 8 := 4

def ATA_SR_ERR : BitVec 8 := 0x01
def ATA_SR_DRQ : BitVec 8 := 0x08
def ATA_SR_DF : BitVec 8 := 0x20
def ATA_SR_BSY : BitVec 8 := 0x80

def ATA_REG_DATA : BitVec 16 := 0
def ATA_REG_FEATURES : BitVec 16 := 1
def ATA_REG_SECTOR_COUNT : BitVec 16 := 2
def ATA_REG_LBA_LOW : BitVec 16 := 3
def ATA_REG_LBA_MID : BitVec 16 := 4
def ATA_REG_LBA_HIGH : BitVec 16 := 5
def ATA_REG_DRIVE_HEAD : BitVec 16 := 6
def ATA_REG_STATUS : BitVec 16 := 7
def ATA_REG_COMMAND : BitVec 16 := 7

def ATA_CMD_IDENTIFY : BitVec 8 := 0xEC
def ATA_CMD_IDENTIFY_PACKET : BitVec 8 := 0xA1
def ATA_CMD_FLUSH : BitVec 8 := 0xE7
def ATA_CMD_FLUSH_EXT : BitVec 8 := 0xEA
def ATA_CMD_WRITE : BitVec 8 := 0x30
def ATA_CMD_WRITE_EXT : BitVec 8 := 0x34
def ATA_CMD_READ : BitVec 8 := 0x20
def ATA_CMD_READ_EXT : BitVec 8 := 0x24

/-! ## `ata.h` -/

/-- `ata_probe_t`. -/
inductive AtaProbe
  | none
  | ata
  | atapi
  | timeout
  | deviceFault
  | protocolError
  deriving DecidableEq

/-- `ata_device_type_t`. -/
inductive AtaDeviceType
  | none
  | ata
  | atapi
  deriving DecidableEq

/-- `ata_addressing_mode_t`. -/
inductive AtaAddressingMode
  | invalid
  | lba28
  | lba48
  deriving DecidableEq

/-- `ata_channel_t`; its lock is taken and released by `AtaOp.lock` and `AtaOp.unlock`. -/
structure AtaChannel where
  ioBase : BitVec 16
  controlPort : BitVec 16

/-- `ata_drive_t`; a string is the bytes before its terminating zero. -/
structure AtaDrive where
  channel : Option AtaChannel
  slave : Bool
  type : AtaDeviceType
  supportsLba28 : Bool
  supportsLba48 : Bool
  sectorCount : BitVec 64
  model : List (BitVec 8)
  firmware : List (BitVec 8)
  serial : List (BitVec 8)
  ataStatus : BitVec 8

/-! ## Waiting: `atahlp.c` -/

/-- `ata_400ns_delay`. -/
def ata400nsDelay (controlPort : BitVec 16) : AtaM Unit := do
  let _ ← inb controlPort
  let _ ← inb controlPort
  let _ ← inb controlPort
  let _ ← inb controlPort

/-- The rounds left in `ata_wait_not_busy`. -/
def waitNotBusyRounds (ioBase : BitVec 16) : Nat → AtaM Bool
  | 0 => pure false
  | rounds + 1 => do
    let status ← inb (ioBase + ATA_REG_STATUS)
    if status = 0 ∨ status = 0xFF then pure false
    else if status &&& ATA_SR_BSY = 0 then pure true
    else waitNotBusyRounds ioBase rounds

/-- `ata_wait_not_busy`. -/
def ataWaitNotBusy (ioBase : BitVec 16) : AtaM Bool := waitNotBusyRounds ioBase 1000000

/-- The rounds left in `ata_poll_drq`. -/
def pollDrqRounds (ioBase : BitVec 16) : Nat → AtaM Bool
  | 0 => pure false
  | rounds + 1 => do
    let status ← inb (ioBase + ATA_REG_STATUS)
    if status = 0 ∨ status = 0xFF then pure false
    else if status &&& ATA_SR_BSY = 0 then
      if status &&& (ATA_SR_ERR ||| ATA_SR_DF) ≠ 0 then pure false
      else if status &&& ATA_SR_DRQ ≠ 0 then pure true
      else pollDrqRounds ioBase rounds
    else pollDrqRounds ioBase rounds

/-- `ata_poll_drq`. -/
def ataPollDrq (drive : AtaDrive) : AtaM Bool :=
  match drive.channel with
  | none => pure false
  | some channel => pollDrqRounds channel.ioBase 1000000

/-! ## Addressing: `ata_configure_lba` -/

/-- The device bit of the drive/head register. -/
def slaveBit (slave : Bool) : BitVec 8 := if slave then 0x10 else 0

/-- One load of the task file: `FEATURES`, the sector count and the three registers of the address. -/
def loadTaskFile (io : BitVec 16) (sectorCount low mid high : BitVec 8) : AtaM Unit := do
  outb (io + ATA_REG_FEATURES) 0
  outb (io + ATA_REG_SECTOR_COUNT) sectorCount
  outb (io + ATA_REG_LBA_LOW) low
  outb (io + ATA_REG_LBA_MID) mid
  outb (io + ATA_REG_LBA_HIGH) high

/-- The task file of a command with a 28-bit address: four of its bits go to the drive/head register. -/
def loadLba28 (drive : AtaDrive) (channel : AtaChannel) (lba : BitVec 64) (sectorCount : BitVec 8) :
    AtaM Unit := do
  outb (channel.ioBase + ATA_REG_DRIVE_HEAD)
    ((0xE0 : BitVec 8) ||| slaveBit drive.slave ||| ((lba >>> 24) &&& 0x0F).setWidth 8)
  ata400nsDelay channel.controlPort
  loadTaskFile channel.ioBase sectorCount (lba.setWidth 8) ((lba >>> 8).setWidth 8)
    ((lba >>> 16).setWidth 8)

/-- The task file of a command with a 48-bit address: the high-order bytes first. -/
def loadLba48 (drive : AtaDrive) (channel : AtaChannel) (lba : BitVec 64) (sectorCount : BitVec 8) :
    AtaM Unit := do
  outb (channel.ioBase + ATA_REG_DRIVE_HEAD) ((0xE0 : BitVec 8) ||| slaveBit drive.slave)
  ata400nsDelay channel.controlPort
  loadTaskFile channel.ioBase 0 ((lba >>> 24).setWidth 8) ((lba >>> 32).setWidth 8)
    ((lba >>> 40).setWidth 8)
  loadTaskFile channel.ioBase sectorCount (lba.setWidth 8) ((lba >>> 8).setWidth 8)
    ((lba >>> 16).setWidth 8)

/-- The test that chooses the 28-bit address. -/
def Fits28 (drive : AtaDrive) (lba : BitVec 64) (sectorCount : BitVec 8) : Prop :=
  drive.supportsLba28 = true ∧ lba < 1 <<< 28 ∧ sectorCount.setWidth 64 ≤ 1 <<< 28 - lba

instance (drive : AtaDrive) (lba : BitVec 64) (sectorCount : BitVec 8) :
    Decidable (Fits28 drive lba sectorCount) :=
  inferInstanceAs (Decidable (_ ∧ _ ∧ _))

/-- `ata_configure_lba`. -/
def ataConfigureLba (drive : AtaDrive) (lba : BitVec 64) (sectorCount : BitVec 8) :
    AtaM AtaAddressingMode :=
  match drive.channel with
  | none => pure .invalid
  | some channel =>
    if drive.type ≠ .ata then pure .invalid
    else if drive.sectorCount ≤ lba ∨ 1 <<< 48 ≤ lba then pure .invalid
    else do
      if ← ataWaitNotBusy channel.ioBase then
        if Fits28 drive lba sectorCount then
          loadLba28 drive channel lba sectorCount
          pure .lba28
        else if drive.supportsLba48 then
          loadLba48 drive channel lba sectorCount
          pure .lba48
        else pure .invalid
      else pure .invalid

/-! ## The transfers: `ata_write` and `ata_read` -/

/-- A word of `ata_write`: two bytes of the buffer go to the data port, the first one as the low byte. -/
def writeWord (io : BitVec 16) (bytes : BitVec 64) : AtaM Unit := do
  let low ← load bytes
  let high ← load (bytes + 1)
  outw (io + ATA_REG_DATA) (low.setWidth 16 ||| high.setWidth 16 <<< 8)

/-- A word of `ata_read`. -/
def readWord (io : BitVec 16) (bytes : BitVec 64) : AtaM Unit := do
  let value ← inw (io + ATA_REG_DATA)
  store bytes (value.setWidth 8)
  store (bytes + 1) ((value >>> 8).setWidth 8)

/-- The loop over the words of a sector. -/
def moveWords (word : BitVec 64 → AtaM Unit) : Nat → BitVec 64 → AtaM (BitVec 64)
  | 0, bytes => pure bytes
  | words + 1, bytes => do
    word bytes
    moveWords word words (bytes + 2)

/-- The loop over the sectors: each waits for `DRQ`, moves 256 words and waits 400 ns. -/
def moveSectors (word : BitVec 64 → AtaM Unit) (drive : AtaDrive) (channel : AtaChannel) :
    Nat → BitVec 64 → AtaM Bool
  | 0, _ => pure true
  | sectors + 1, bytes => do
    if ← ataPollDrq drive then
      let bytes ← moveWords word 256 bytes
      ata400nsDelay channel.controlPort
      moveSectors word drive channel sectors bytes
    else pure false

/-- The wait for the end of a command, and the status read behind it. -/
def settled (io : BitVec 16) : AtaM Bool := do
  if ← ataWaitNotBusy io then
    let status ← inb (io + ATA_REG_STATUS)
    pure (status &&& (ATA_SR_ERR ||| ATA_SR_DF) = 0)
  else pure false

/-- The flush at the end of `ata_write`. -/
def flush (io : BitVec 16) (mode : AtaAddressingMode) : AtaM Bool := do
  outb (io + ATA_REG_COMMAND) (if mode = .lba48 then ATA_CMD_FLUSH_EXT else ATA_CMD_FLUSH)
  settled io

/-- Between the lock and the unlock: whether the command came to its end. -/
def transferPhase (word : BitVec 16 → BitVec 64 → AtaM Unit) (command commandExt : BitVec 8)
    (finish : BitVec 16 → AtaAddressingMode → AtaM Bool) (drive : AtaDrive) (channel : AtaChannel)
    (lba : BitVec 64) (buffer : BitVec 64) (count : BitVec 8) : AtaM Bool := do
  let mode ← ataConfigureLba drive lba count
  if mode = .invalid then pure false
  else do
    outb (channel.ioBase + ATA_REG_COMMAND) (if mode = .lba48 then commandExt else command)
    if ← moveSectors (word channel.ioBase) drive channel count.toNat buffer then
      if ← settled channel.ioBase then finish channel.ioBase mode else pure false
    else pure false

/-- The text that `ata_write` and `ata_read` share: `none` is the null pointer, and so is buffer 0. -/
def ataTransfer (word : BitVec 16 → BitVec 64 → AtaM Unit) (command commandExt : BitVec 8)
    (finish : BitVec 16 → AtaAddressingMode → AtaM Bool) (drive : Option AtaDrive) (lba : BitVec 64)
    (buffer : BitVec 64) (count : BitVec 8) : AtaM (Option AtaDrive) :=
  match drive with
  | none => pure none
  | some drive =>
    match drive.channel, drive.type with
    | some channel, .ata =>
      if buffer = 0 then pure (some { drive with ataStatus := ERR_INVALID_BUFFER })
      else if count = 0 ∨ drive.sectorCount ≤ lba ∨
          drive.sectorCount - lba < count.setWidth 64 then
        pure (some { drive with ataStatus := ERR_INVALID_COUNT })
      else do
        spinLock
        let ok ← transferPhase word command commandExt finish drive channel lba buffer count
        spinUnlock
        pure (some { drive with ataStatus := if ok then SUCCESS else ERR_IO })
    | _, _ => pure (some { drive with ataStatus := ERR_INVALID_TYPE })

/-- `ata_write`. -/
def ataWrite : Option AtaDrive → BitVec 64 → BitVec 64 → BitVec 8 → AtaM (Option AtaDrive) :=
  ataTransfer writeWord ATA_CMD_WRITE ATA_CMD_WRITE_EXT flush

/-- `ata_read`: nothing is flushed. -/
def ataRead : Option AtaDrive → BitVec 64 → BitVec 64 → BitVec 8 → AtaM (Option AtaDrive) :=
  ataTransfer readWord ATA_CMD_READ ATA_CMD_READ_EXT fun _ _ => pure true

/-! ## Identification: `ata_probe_device` -/

/-- `ata_select_drive`. -/
def ataSelectDrive (ioBase controlPort : BitVec 16) (slave : Bool) : AtaM Unit := do
  outb (ioBase + ATA_REG_DRIVE_HEAD) (if slave then 0xB0 else 0xA0)
  ata400nsDelay controlPort

/-- The bytes that `ata_copy_string` leaves before the terminating zero. -/
def ataCopyString (dstSize : Nat) (identify : List (BitVec 16)) (firstWord wordCount : Nat) :
    List (BitVec 8) :=
  let length := if dstSize ≤ 2 * wordCount then dstSize - 1 else 2 * wordCount
  let bytes := (List.range length).map fun i =>
    let word := identify.getD (firstWord + i / 2) 0
    if i % 2 = 0 then (word >>> 8).setWidth 8 else word.setWidth 8
  bytes.rdropWhile fun c => c = 0x20 ∨ c = 0

/-- How the loop behind an identify command ends. -/
inductive Identified
  /-- The status was 0 or 0xFF. -/
  | gone
  | timedOut
  /-- The first status without `BSY`. -/
  | status (value : BitVec 8)

/-- The rounds left in the loop behind an identify command. -/
def identifyRounds (io : BitVec 16) : Nat → AtaM Identified
  | 0 => pure .timedOut
  | rounds + 1 => do
    let status ← inb (io + ATA_REG_STATUS)
    if status = 0 ∨ status = 0xFF then pure .gone
    else if status &&& ATA_SR_BSY = 0 then pure (.status status)
    else identifyRounds io rounds

/-- The result for a loop that found no status to look at. -/
def Identified.failure : Identified → AtaProbe
  | .gone => .none
  | _ => .timeout

/-- From `IDENTIFY PACKET` on: an ATAPI device, or how the probe failed. -/
def identifyPacket (io : BitVec 16) : AtaM (Except AtaProbe AtaDeviceType) := do
  let low ← inb (io + ATA_REG_LBA_MID)
  let high ← inb (io + ATA_REG_LBA_HIGH)
  if (low = 0x14 ∧ high = 0xEB) ∨ (low = 0x69 ∧ high = 0x96) then do
    outb (io + ATA_REG_COMMAND) ATA_CMD_IDENTIFY_PACKET
    let answer ← identifyRounds io 1000000
    match answer with
    | .status status =>
      if status &&& ATA_SR_DF ≠ 0 then pure (.error .deviceFault)
      else if status &&& ATA_SR_ERR ≠ 0 ∨ status &&& ATA_SR_DRQ = 0 then
        pure (.error .protocolError)
      else pure (.ok .atapi)
    | answer => pure (.error answer.failure)
  else pure (.error .protocolError)

/-- Up to the first word: the type of the device, or how the probe failed. -/
def identify (drive : AtaDrive) (channel : AtaChannel) : AtaM (Except AtaProbe AtaDeviceType) := do
  let io := channel.ioBase
  ataSelectDrive io channel.controlPort drive.slave
  if ← ataWaitNotBusy io then
    loadTaskFile io 0 0 0 0
    outb (io + ATA_REG_COMMAND) ATA_CMD_IDENTIFY
    let answer ← identifyRounds io 1000000
    match answer with
    | .status status =>
      if status &&& ATA_SR_DF ≠ 0 then pure (.error .deviceFault)
      else if status &&& ATA_SR_ERR ≠ 0 then identifyPacket io
      else if status &&& ATA_SR_DRQ = 0 then pure (.error .protocolError)
      else pure (.ok .ata)
    | answer => pure (.error answer.failure)
  else pure (.error .timeout)

/-- The loop that reads the identify words. -/
def readIdentify (io : BitVec 16) : Nat → AtaM (List (BitVec 16))
  | 0 => pure []
  | words + 1 => do
    let word ← inw (io + ATA_REG_DATA)
    let rest ← readIdentify io words
    pure (word :: rest)

/-- The sector count of a drive with 48-bit addresses: the words 100 to 103. -/
def sectorCount48 (words : List (BitVec 16)) : BitVec 64 :=
  (words.getD 100 0).setWidth 64 ||| (words.getD 101 0).setWidth 64 <<< 16 |||
    (words.getD 102 0).setWidth 64 <<< 32 ||| (words.getD 103 0).setWidth 64 <<< 48

/-- The sector count of a drive with 28-bit addresses: the words 60 and 61. -/
def sectorCount28 (words : List (BitVec 16)) : BitVec 64 :=
  (words.getD 60 0).setWidth 64 ||| (words.getD 61 0).setWidth 64 <<< 16

/-- What the probe writes to the drive once the identify words are read. -/
def describe (drive : AtaDrive) (deviceType : AtaDeviceType) (words : List (BitVec 16)) : AtaDrive :=
  let drive := { drive with
    type := deviceType
    serial := ataCopyString 21 words 10 10
    firmware := ataCopyString 9 words 23 4
    model := ataCopyString 41 words 27 20 }
  if deviceType = .ata then
    let lba28 := decide (words.getD 49 0 &&& 1 <<< 9 ≠ 0)
    let lba48 := decide (words.getD 83 0 &&& 0xC000 = 0x4000 ∧ words.getD 83 0 &&& 1 <<< 10 ≠ 0)
    let count := if lba48 then sectorCount48 words else drive.sectorCount
    let count := if count = 0 ∧ lba28 then sectorCount28 words else count
    { drive with supportsLba28 := lba28, supportsLba48 := lba48, sectorCount := count }
  else drive

/-- The result the probe reports for a device. -/
def AtaDeviceType.probe : AtaDeviceType → AtaProbe
  | .atapi => .atapi
  | _ => .ata

/-- Between the lock and the unlock of `ata_probe_device`. -/
def probePhase (drive : AtaDrive) (channel : AtaChannel) : AtaM (AtaProbe × AtaDrive) := do
  let answer ← identify drive channel
  match answer with
  | .error result => pure (result, drive)
  | .ok deviceType =>
    let words ← readIdentify channel.ioBase 256
    if decide (words.getD 0 0 &&& 0x8000 ≠ 0) ≠ decide (deviceType = .atapi) then
      pure (.protocolError, drive)
    else pure (deviceType.probe, describe drive deviceType words)

/-- What the probe writes to the drive before it takes the lock. -/
def AtaDrive.cleared (drive : AtaDrive) : AtaDrive :=
  { drive with
    type := .none
    supportsLba28 := false
    supportsLba48 := false
    sectorCount := 0
    model := []
    serial := []
    firmware := []
    ataStatus := SUCCESS }

/-- `ata_probe_device`. -/
def ataProbeDevice (drive : Option AtaDrive) : AtaM (AtaProbe × Option AtaDrive) :=
  match drive with
  | none => pure (.protocolError, none)
  | some drive =>
    match drive.channel with
    | none => pure (.protocolError, some drive)
    | some channel => do
      spinLock
      let (result, drive) ← probePhase drive.cleared channel
      spinUnlock
      pure (result, some drive)

end Ata

end Dem64
