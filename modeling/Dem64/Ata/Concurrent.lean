import Dem64.Ata.RoundTrip
import Dem64.Ata.Safety
import Dem64.Lib.Spinlock

/-!
# Transfers on several processors

The registers of a channel are one task file for all who use the drive, and a transfer is thousands of accesses to
it; the lock of the channel is held for all of them.  `ata_linearizable` is about any number of processors that
call `ata_read` and `ata_write` for one drive: the calls are atomic reads and writes of sectors, so no sector is
seen half-written and no call sees the registers of another one, and no interleaving ends in a deadlock.  In no
state of a run are two of them at the drive (`ata_exclusive`).

The drive is the ideal one; it may be busy for as long as the driver has patience for.
-/

set_option autoImplicit false

namespace Dem64

namespace Ata

open Interaction Interaction.Prog

/-- A call for a drive. -/
inductive SectorCall
  | read (lba target : BitVec 64) (count : BitVec 8)
  | write (lba source : BitVec 64) (count : BitVec 8)

/-- What is run for it. -/
def SectorCall.prog (drive : AtaDrive) : SectorCall → AtaM (Option AtaDrive)
  | .read lba target count => ataRead (some drive) lba target count
  | .write lba source count => ataWrite (some drive) lba source count

/-! ## What is meant -/

/-- The sectors, and the memory of the callers. -/
structure Disk where
  store : Nat → BitVec 8
  memory : BitVec 64 → BitVec 8

/-- The disk behind a bench. -/
def Bench.disk (s : Bench) : Disk := ⟨s.drive.store, s.memory⟩

/-- What a request is answered with. -/
def requestStatus (drive : AtaDrive) (lba buffer : BitVec 64) (count : BitVec 8) : BitVec 8 :=
  if buffer = 0 then ERR_INVALID_BUFFER
  else if count = 0 ∨ drive.sectorCount.toNat < lba.toNat + count.toNat then ERR_INVALID_COUNT
  else if drive.supportsLba28 = true ∧ lba.toNat + count.toNat ≤ 2 ^ 28 ∨ drive.supportsLba48 = true then SUCCESS
  else ERR_IO

/-- A call as one access to the disk. -/
def sectorSpec (drive : AtaDrive) : SectorCall → Disk → Option AtaDrive × Disk
  | .read lba target count, d =>
    (some { drive with ataStatus := requestStatus drive lba target count },
      if requestStatus drive lba target count = SUCCESS then
        { d with memory := filled d.memory target (512 * count.toNat) fun i => d.store (512 * lba.toNat + i) }
      else d)
  | .write lba source count, d =>
    (some { drive with ataStatus := requestStatus drive lba source count },
      if requestStatus drive lba source count = SUCCESS then
        { d with store := laid d.store (512 * lba.toNat) (512 * count.toNat) fun i =>
          d.memory (source + BitVec.ofNat 64 i) }
      else d)

variable {channel : AtaChannel} {latency : Nat → Nat} {drive : AtaDrive} {lba buffer : BitVec 64} {count : BitVec 8}
  {s : Bench} {word : BitVec 16 → BitVec 64 → AtaM Unit} {command commandExt : BitVec 8}
  {finish : BitVec 16 → AtaAddressingMode → AtaM Bool}

/-! ## The shape of a call -/

/-- No operation on the registers is one on the lock. -/
theorem onState_of_quiet (o : AtaOp) (h : Quiet o) : OnState AtaOp.lock AtaOp.unlock o := by
  constructor <;> rintro rfl <;> exact h

theorem onState_writeWord (io : BitVec 16) (bytes : BitVec 64) :
    (writeWord io bytes).Asks (OnState AtaOp.lock AtaOp.unlock) :=
  Asks.bind ⟨⟨nofun, nofun⟩, fun _ => trivial⟩ fun _ => Asks.bind ⟨⟨nofun, nofun⟩, fun _ => trivial⟩ fun _ =>
    ⟨⟨nofun, nofun⟩, fun _ => trivial⟩

theorem onState_readWord (io : BitVec 16) (bytes : BitVec 64) :
    (readWord io bytes).Asks (OnState AtaOp.lock AtaOp.unlock) :=
  Asks.bind ⟨⟨nofun, nofun⟩, fun _ => trivial⟩ fun _ => Asks.bind ⟨⟨nofun, nofun⟩, fun _ => trivial⟩ fun _ =>
    ⟨⟨nofun, nofun⟩, fun _ => trivial⟩

theorem onState_moveWords {word : BitVec 64 → AtaM Unit}
    (hword : ∀ bytes, (word bytes).Asks (OnState AtaOp.lock AtaOp.unlock)) (n : Nat) (bytes : BitVec 64) :
    (moveWords word n bytes).Asks (OnState AtaOp.lock AtaOp.unlock) := by
  induction n generalizing bytes with
  | zero => exact asks_pure _
  | succ n ih => exact (hword bytes).bind fun _ => ih _

theorem onState_moveSectors {word : BitVec 64 → AtaM Unit}
    (hword : ∀ bytes, (word bytes).Asks (OnState AtaOp.lock AtaOp.unlock)) (n : Nat) (bytes : BitVec 64) :
    (moveSectors word drive channel n bytes).Asks (OnState AtaOp.lock AtaOp.unlock) := by
  induction n generalizing bytes with
  | zero => exact asks_pure _
  | succ n ih =>
    have hpoll : (ataPollDrq drive).Asks Quiet := by
      rw [ataPollDrq]
      split
      · exact asks_pure _
      · exact asks_pollDrqRounds _
    refine (hpoll.mono onState_of_quiet).bind fun ready => ?_
    split
    · exact (onState_moveWords hword _ _).bind fun bytes =>
        ((asks_ata400nsDelay _).mono onState_of_quiet).bind fun _ => ih bytes
    · exact asks_pure _

theorem onState_transferPhase (hword : ∀ io bytes, (word io bytes).Asks (OnState AtaOp.lock AtaOp.unlock))
    (hfinish : ∀ io mode, (finish io mode).Asks Quiet) :
    (transferPhase word command commandExt finish drive channel lba buffer count).Asks
      (OnState AtaOp.lock AtaOp.unlock) := by
  refine (asks_ataConfigureLba.mono onState_of_quiet).bind fun mode => ?_
  split
  · exact asks_pure _
  · refine (asks_outb.mono onState_of_quiet).bind fun _ => (onState_moveSectors (hword _) _ _).bind fun moved => ?_
    split
    · refine (asks_settled.mono onState_of_quiet).bind fun good => ?_
      split
      · exact (hfinish _ _).mono onState_of_quiet
      · exact asks_pure _
    · exact asks_pure _

/-- **A transfer is one section, or nothing.** -/
theorem sectioned_ataTransfer (hword : ∀ io bytes, (word io bytes).Asks (OnState AtaOp.lock AtaOp.unlock))
    (hfinish : ∀ io mode, (finish io mode).Asks Quiet) :
    Sectioned AtaOp.lock AtaOp.unlock (fun _ => False)
      (ataTransfer word command commandExt finish (some drive) lba buffer count) := by
  rw [ataTransfer]
  split
  · split
    · exact .pure _
    · split
      · exact .pure _
      · exact .locked fun _ => InSection.of_asks (onState_transferPhase hword hfinish) fun ok _ => ⟨_, rfl⟩
  · exact .pure _

theorem SectorCall.sectioned (drive : AtaDrive) (j : SectorCall) :
    Sectioned AtaOp.lock AtaOp.unlock (fun _ => False) (j.prog drive) := by
  cases j with
  | read lba target count => exact sectioned_ataTransfer onState_readWord fun _ _ => asks_pure _
  | write lba source count => exact sectioned_ataTransfer onState_writeWord fun _ => asks_flush

/-! ## A call alone -/

/-- A request that is not answered with success changes nothing but the time. -/
theorem run_ataTransfer_fails (hidle : Idle latency drive s) (hchannel : drive.channel = some channel)
    (htype : drive.type = .ata) (hfails : requestStatus drive lba buffer count ≠ SUCCESS) :
    ∃ n, run (bench channel latency)
      (ataTransfer word command commandExt finish (some drive) lba buffer count) s =
        (some { drive with ataStatus := requestStatus drive lba buffer count }, s.withBusy n) := by
  by_cases hbuffer : buffer = 0
  · refine ⟨s.drive.busy, ?_⟩
    simp only [ataTransfer, hchannel, htype, requestStatus, if_pos hbuffer, run_pure]
    rfl
  · by_cases hcount : count = 0
    · refine ⟨s.drive.busy, ?_⟩
      simp only [ataTransfer, hchannel, htype, requestStatus, if_neg hbuffer, hcount, true_or, if_true, run_pure]
      rfl
    · by_cases hinside : lba.toNat + count.toNat ≤ drive.sectorCount.toNat
      · have hnone : ¬ (count = 0 ∨ drive.sectorCount.toNat < lba.toNat + count.toNat) :=
          not_or.mpr ⟨hcount, by omega⟩
        rw [requestStatus, if_neg hbuffer, if_neg hnone] at hfails ⊢
        have hno := fun h => hfails (if_pos h)
        rw [if_neg hno]
        have hd : Described drive channel lba :=
          ⟨hchannel, htype, BitVec.lt_def.mpr (by have := toNat_pos hcount; omega)⟩
        obtain ⟨n, hrun⟩ := @run_transferPhase_invalid channel latency s drive lba count word command commandExt
          finish buffer hd hidle.busy (modeOf_invalid hcount (fun h => hno (.inl h)) fun h => hno (.inr h.1))
        refine ⟨n, ?_⟩
        rw [run_ataTransfer hchannel htype hbuffer hcount hinside, hrun]
        rfl
      · refine ⟨s.drive.busy, ?_⟩
        have houtside : count = 0 ∨ drive.sectorCount ≤ lba ∨ drive.sectorCount - lba < count.setWidth 64 :=
          (outside_iff hcount).mpr (by omega)
        simp only [ataTransfer, hchannel, htype, requestStatus, if_neg hbuffer, if_pos houtside,
          if_pos (Or.inr (show drive.sectorCount.toNat < lba.toNat + count.toNat by omega)), run_pure]
        rfl

/-- A request that is answered with success is one that the drive can address. -/
theorem fitting_of_success (hchannel : drive.channel = some channel) (htype : drive.type = .ata)
    (hsize : drive.sectorCount.toNat ≤ 2 ^ 48) (hsuccess : requestStatus drive lba buffer count = SUCCESS) :
    buffer ≠ 0 ∧ Fitting drive channel lba count ∧ lba.toNat + count.toNat ≤ 2 ^ 48 := by
  rw [requestStatus] at hsuccess
  split at hsuccess
  · exact absurd hsuccess (by decide)
  · next hbuffer =>
    split at hsuccess
    · exact absurd hsuccess (by decide)
    · next hin =>
      rw [not_or] at hin
      have hpos := toNat_pos hin.1
      have hinside : lba.toNat + count.toNat ≤ drive.sectorCount.toNat := by omega
      split at hsuccess
      · next hmode =>
        exact ⟨hbuffer, ⟨hchannel, htype, hin.1, hinside,
          modeOf_of_fits hin.1 (hmode.imp_right fun h => ⟨h, by omega⟩)⟩, by omega⟩
      · exact absurd hsuccess (by decide)

/-- **Alone, a call is the access that is meant.** -/
theorem SectorCall.run_eq (hidle : Idle latency drive s) (hchannel : drive.channel = some channel)
    (htype : drive.type = .ata) (hsize : drive.sectorCount.toNat ≤ 2 ^ 48) (j : SectorCall) :
    sectorSpec drive j s.disk = ((run (bench channel latency) (j.prog drive) s).1,
      (run (bench channel latency) (j.prog drive) s).2.disk) := by
  cases j with
  | read lba target count =>
    rw [sectorSpec, SectorCall.prog]
    by_cases hsuccess : requestStatus drive lba target count = SUCCESS
    · obtain ⟨htarget, hfit, hend⟩ := fitting_of_success hchannel htype hsize hsuccess
      obtain ⟨s', hrun, hmid⟩ := run_ataRead hidle hfit hend htarget
      have hbytes : 2 * (256 * count.toNat) = 512 * count.toNat := by omega
      rw [hrun, if_pos hsuccess, hsuccess, Bench.disk, Bench.disk, hmid.store, hmid.memory, hbytes]
    · obtain ⟨n, hrun⟩ := run_ataTransfer_fails hidle hchannel htype hsuccess
      rw [ataRead, hrun, if_neg hsuccess]
      rfl
  | write lba source count =>
    rw [sectorSpec, SectorCall.prog]
    by_cases hsuccess : requestStatus drive lba source count = SUCCESS
    · obtain ⟨hsource, hfit, hend⟩ := fitting_of_success hchannel htype hsize hsuccess
      obtain ⟨s', hrun, hmid⟩ := run_ataWrite hidle hfit hend hsource
      have hbytes : 2 * (256 * count.toNat) = 512 * count.toNat := by omega
      rw [hrun, if_pos hsuccess, hsuccess, Bench.disk, Bench.disk, hmid.store, hmid.memory, hbytes]
    · obtain ⟨n, hrun⟩ := run_ataTransfer_fails hidle hchannel htype hsuccess
      rw [ataWrite, hrun, if_neg hsuccess]
      rfl

/-! ## A drive that stays in time -/

/-- The drive is the same one, and not busy for longer than the driver waits. -/
def InTime (drive : AtaDrive) (d : IdealDrive) : Prop := d.busy < 1000000 ∧ d.slave = drive.slave

theorem InTime.goBusy (hlatency : ∀ m, latency m < 1000000) {d : IdealDrive} (h : d.slave = drive.slave) :
    InTime drive (d.goBusy latency) := ⟨hlatency _, h⟩

theorem InTime.start (hlatency : ∀ m, latency m < 1000000) {d : IdealDrive} (h : InTime drive d)
    (direction : Direction) (first n : Nat) : InTime drive (d.start latency direction first n) := by
  rw [IdealDrive.start]
  split
  · exact h
  · exact .goBusy hlatency h.2

theorem InTime.execute (hlatency : ∀ m, latency m < 1000000) {d : IdealDrive} (h : InTime drive d)
    (v : BitVec 8) : InTime drive (d.execute latency v) := by
  rw [IdealDrive.execute]
  repeat' split
  all_goals first | exact h | exact h.start hlatency .. | exact .goBusy hlatency h.2

theorem InTime.writeRegister (hlatency : ∀ m, latency m < 1000000) {d : IdealDrive} (h : InTime drive d)
    (register : BitVec 16) (v : BitVec 8) : InTime drive (d.writeRegister latency register v) := by
  simp only [IdealDrive.writeRegister]
  repeat' split
  all_goals first | exact h | exact h.execute hlatency _

theorem InTime.advance (hlatency : ∀ m, latency m < 1000000) {d : IdealDrive} (h : InTime drive d)
    (t : DriveTransfer) : InTime drive (d.advance latency t) := by
  rw [IdealDrive.advance]
  split
  · exact .goBusy hlatency h.2
  · split
    · exact .goBusy hlatency h.2
    · exact h

/-- Every operation keeps the drive in time. -/
theorem Idle.operation (o : AtaOp) (s : Bench) (h : Idle latency drive s) :
    Idle latency drive (bench channel latency o s).2 := by
  have hin : InTime drive s.drive := ⟨h.busy, h.slave⟩
  suffices hnext : InTime drive (bench channel latency o s).2.drive from ⟨h.latency, hnext.1, hnext.2⟩
  cases o with
  | inb port =>
    rw [bench]
    split
    · exact ⟨Nat.lt_of_le_of_lt (Nat.sub_le _ _) h.busy, h.slave⟩
    · exact hin
  | outb port v => exact hin.writeRegister h.latency ..
  | inw port =>
    rw [bench]
    split
    · simp only [IdealDrive.readData]
      split
      · split
        · exact hin.advance h.latency _
        · exact hin
      · exact hin
    · exact hin
  | outw port v =>
    rw [bench]
    split
    · simp only [IdealDrive.writeData]
      split
      · split
        · refine InTime.advance h.latency ?_ _
          exact hin
        · exact hin
      · exact hin
    · exact hin
  | _ => exact hin

/-! ## All processors -/

/-- The drive behind its ports, as long as it is in time. -/
def readyBench (channel : AtaChannel) (latency : Nat → Nat) (drive : AtaDrive) :
    Handler AtaOp AtaAns {s // Idle latency drive s} :=
  restrict (bench channel latency) (Idle latency drive) Idle.operation

theorem sectorCalls_disciplined (hchannel : drive.channel = some channel) (htype : drive.type = .ata)
    (hsize : drive.sectorCount.toNat ≤ 2 ^ 48) :
    Disciplined (readyBench channel latency drive) AtaOp.lock AtaOp.unlock (SectorCall.prog drive)
      (sectorSpec drive) (fun s => s.1.disk) (fun _ => False) where
  ne := nofun
  sectioned := SectorCall.sectioned drive
  independent _ ho := ho.elim
  sound j s := by
    obtain ⟨hvalue, hstate⟩ := run_restrict (bench channel latency) Idle.operation (j.prog drive) s
    rw [SectorCall.run_eq s.2 hchannel htype hsize j, readyBench, hvalue, hstate]

/-- **No two processors are at the drive.**  Of those that have the lock of the channel behind them and something left
to do, there is at most one. -/
theorem ata_exclusive {ι : Type} [DecidableEq ι] (hchannel : drive.channel = some channel) (htype : drive.type = .ata)
    (hsize : drive.sectorCount.toNat ≤ 2 ^ 48) (hidle : Idle latency drive s)
    {t : List (CallEvent ι SectorCall (Option AtaDrive))}
    {c : Conf AtaOp AtaAns {s // Idle latency drive s} ι SectorCall (Option AtaDrive)}
    (ht : (processors (readyBench channel latency drive) AtaOp.lock AtaOp.unlock (SectorCall.prog drive)).Trace
      (⟨false, ⟨s, hidle⟩, fun _ => .idle⟩ :
        Conf AtaOp AtaAns {s // Idle latency drive s} ι SectorCall (Option AtaDrive)) t c)
    {i i' : ι} {j j' : SectorCall} {o o' : AtaOp} {k : AtaAns o → AtaM (Option AtaDrive)}
    {k' : AtaAns o' → AtaM (Option AtaDrive)} (hi : c.threads i = .active j (.ask o k))
    (hi' : c.threads i' = .active j' (.ask o' k')) (ho : o ≠ .lock) (ho' : o' ≠ .lock) : i = i' :=
  (sectorCalls_disciplined hchannel htype hsize).exclusive ht hi hi' ho ho' id id

end Ata

end Dem64
