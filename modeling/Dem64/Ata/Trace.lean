import Dem64.Ata.Driver
import Mathlib.Data.List.Count

/-!
# The ATA driver under a misbehaving drive

Nothing is assumed of the drive here: every read of a port may give any value.  The log of a call (which
operation was asked, with which answer) is read for the words moved through the data port, the bytes of the
buffer touched, the values of the status register and the lock.

`SectorChecked` is the rule the drive's word is taken under: a word is moved only if the last status read
was a ready one and was read since the last sector ended.  It is kept by logs in a row
(`SectorChecked.append`), each sector being one row.
-/

set_option autoImplicit false

namespace Dem64

namespace Ata

open Interaction Interaction.Prog

/-! ## Reading a log -/

/-- The value of the status register, for an event that reads it. -/
def statusOf (io : BitVec 16) : AtaEvent → Option (BitVec 8)
  | ⟨.inb port, v⟩ => if port = io + ATA_REG_STATUS then some v else none
  | _ => none

/-- Whether the event moves a word through the data port. -/
def isData (io : BitVec 16) : AtaEvent → Bool
  | ⟨.inw port, _⟩ => port = io + ATA_REG_DATA
  | ⟨.outw port _, _⟩ => port = io + ATA_REG_DATA
  | _ => false

/-- The byte of the buffer the event touches. -/
def touchedBy : AtaEvent → Option (BitVec 64)
  | ⟨.load a, _⟩ => some a
  | ⟨.store a _, _⟩ => some a
  | _ => none

/-- Whether the event takes or releases the lock. -/
def isLock : AtaEvent → Bool
  | ⟨.lock, _⟩ => true
  | ⟨.unlock, _⟩ => true
  | _ => false

/-- The values of the status register, in the order they were read. -/
def statuses (io : BitVec 16) (log : List AtaEvent) : List (BitVec 8) := log.filterMap (statusOf io)

/-- The number of words moved. -/
def dataWords (io : BitVec 16) (log : List AtaEvent) : Nat := log.countP (isData io)

/-- The bytes of the buffer touched, in order. -/
def touched (log : List AtaEvent) : List (BitVec 64) := log.filterMap touchedBy

/-- The operations on the lock. -/
def locks (log : List AtaEvent) : List AtaEvent := log.filter isLock

/-- `BSY` clear, `DRQ` set, `ERR` and `DF` clear. -/
def Ready (status : BitVec 8) : Prop :=
  status &&& ATA_SR_BSY = 0 ∧ status &&& ATA_SR_DRQ ≠ 0 ∧ status &&& (ATA_SR_ERR ||| ATA_SR_DF) = 0

/-- `ERR` and `DF` clear. -/
def NoError (status : BitVec 8) : Prop := status &&& (ATA_SR_ERR ||| ATA_SR_DF) = 0

/-- **A word is moved only on a ready status of its sector**: before it stands a ready status, the last one
read, and since then no more words were moved than those of this sector. -/
def SectorChecked (io : BitVec 16) (log : List AtaEvent) : Prop :=
  ∀ before e after, log = before ++ e :: after → isData io e = true →
    ∃ p v q, before = p ++ ⟨.inb (io + ATA_REG_STATUS), v⟩ :: q ∧ Ready v ∧ statuses io q = [] ∧
      dataWords io q = dataWords io before % 256

/-- The lock is taken first, released last, and not touched between; or nothing at all happens. -/
def Bracketed (log : List AtaEvent) : Prop :=
  log = [] ∨ ∃ body, log = ⟨.lock, ()⟩ :: (body ++ [⟨.unlock, ()⟩]) ∧ locks body = []

/-- The first `n` bytes at `buffer`. -/
def bytesAt (buffer : BitVec 64) (n : Nat) : List (BitVec 64) :=
  (List.range n).map fun i => buffer + BitVec.ofNat 64 i

/-- All `n` words were moved, and the last status read has no error. -/
def Completed (io : BitVec 16) (n : Nat) (log : List AtaEvent) : Prop :=
  dataWords io log = n ∧ ∃ v, (statuses io log).getLast? = some v ∧ NoError v

variable {io : BitVec 16} {l l₁ l₂ : List AtaEvent}

@[simp] theorem statuses_append : statuses io (l₁ ++ l₂) = statuses io l₁ ++ statuses io l₂ :=
  List.filterMap_append

@[simp] theorem dataWords_append : dataWords io (l₁ ++ l₂) = dataWords io l₁ + dataWords io l₂ :=
  List.countP_append

@[simp] theorem touched_append : touched (l₁ ++ l₂) = touched l₁ ++ touched l₂ := List.filterMap_append

@[simp] theorem locks_append : locks (l₁ ++ l₂) = locks l₁ ++ locks l₂ := List.filter_append ..

theorem bytesAt_add (buffer : BitVec 64) (n m : Nat) :
    bytesAt buffer (n + m) = bytesAt buffer n ++ bytesAt (buffer + BitVec.ofNat 64 n) m := by
  simp only [bytesAt, List.range_add, List.map_append, List.map_map, List.append_cancel_left_eq]
  refine List.map_congr_left fun i _ => ?_
  rw [Function.comp_apply, BitVec.add_assoc, BitVec.ofNat_add]

/-! ## Operations that move nothing -/

/-- The operations on the registers other than the data port. -/
def Quiet : AtaOp → Prop
  | .inb _ => True
  | .outb _ _ => True
  | _ => False

/-- A log of such operations moves no word, touches no byte and leaves the lock alone. -/
structure Still (io : BitVec 16) (l : List AtaEvent) : Prop where
  dataWords : dataWords io l = 0
  touched : touched l = []
  locks : locks l = []

theorem isData_of_quiet {e : AtaEvent} (h : Quiet e.1) : isData io e = false := by
  obtain ⟨_ | _ | _ | _ | _ | _ | _ | _, v⟩ := e <;> first | rfl | exact h.elim

theorem touchedBy_of_quiet {e : AtaEvent} (h : Quiet e.1) : touchedBy e = none := by
  obtain ⟨_ | _ | _ | _ | _ | _ | _ | _, v⟩ := e <;> first | rfl | exact h.elim

theorem isLock_of_quiet {e : AtaEvent} (h : Quiet e.1) : isLock e = false := by
  obtain ⟨_ | _ | _ | _ | _ | _ | _ | _, v⟩ := e <;> first | rfl | exact h.elim

theorem Still.of_quiet (h : ∀ e ∈ l, Quiet e.1) : Still io l where
  dataWords := List.countP_eq_zero.mpr fun e he => by simp [isData_of_quiet (h e he)]
  touched := List.filterMap_eq_nil_iff.mpr fun e he => touchedBy_of_quiet (h e he)
  locks := List.filter_eq_nil_iff.mpr fun e he => by simp [isLock_of_quiet (h e he)]

theorem Still.append (h₁ : Still io l₁) (h₂ : Still io l₂) : Still io (l₁ ++ l₂) where
  dataWords := by rw [dataWords_append, h₁.dataWords, h₂.dataWords]
  touched := by rw [touched_append, h₁.touched, h₂.touched, List.append_nil]
  locks := by rw [locks_append, h₁.locks, h₂.locks, List.append_nil]

theorem Still.of_asks {α : Type} {p : AtaM α} {a : α} (hp : p.Asks Quiet) (h : p.Runs l a) : Still io l :=
  Still.of_quiet (hp.runs h)

theorem SectorChecked.of_dataWords (h : dataWords io l = 0) : SectorChecked io l := by
  rintro before e after rfl he
  have := List.countP_eq_zero.mp h e (by simp)
  exact absurd he this

theorem Still.sectorChecked (h : Still io l) : SectorChecked io l := .of_dataWords h.dataWords

/-- **Logs in a row keep the rule**, if the first one ends with a whole sector. -/
theorem SectorChecked.append (h₁ : SectorChecked io l₁) (hd : dataWords io l₁ % 256 = 0)
    (h₂ : SectorChecked io l₂) : SectorChecked io (l₁ ++ l₂) := by
  intro before e after heq he
  rcases List.append_eq_append_iff.mp heq with ⟨a, rfl, hl₂⟩ | ⟨a, hl₁, hafter⟩
  · obtain ⟨p, v, q, rfl, hready, hstatus, hwords⟩ := h₂ a e after hl₂ he
    refine ⟨l₁ ++ p, v, q, by simp, hready, hstatus, ?_⟩
    rw [dataWords_append]
    omega
  · cases a with
    | nil =>
      simp only [List.nil_append] at hafter
      obtain ⟨p, v, q, hbefore, hready, hstatus, hwords⟩ := h₂ [] e after (by simpa using hafter.symm) he
      exact absurd hbefore (by simp)
    | cons x a =>
      rw [List.cons_append, List.cons.injEq] at hafter
      obtain ⟨rfl, rfl⟩ := hafter
      exact h₁ before e a hl₁ he

/-! ## The helpers -/

theorem asks_inb {port : BitVec 16} : (inb port).Asks Quiet := asks_call.mpr trivial

theorem asks_outb {port : BitVec 16} {byte : BitVec 8} : (outb port byte).Asks Quiet := asks_call.mpr trivial

theorem within_inb {port : BitVec 16} : (inb port).Within 1 := within_call _

theorem within_inb_bind {α : Type} {port : BitVec 16} {f : BitVec 8 → AtaM α} {n : Nat}
    (hf : ∀ v, (f v).Within n) : (inb port >>= f).Within (n + 1) := within_call_bind hf

theorem within_outb {port : BitVec 16} {byte : BitVec 8} : (outb port byte).Within 1 := within_call _

theorem runs_inb_bind {α : Type} {port : BitVec 16} {f : BitVec 8 → AtaM α} {a : α} :
    (inb port >>= f).Runs l a ↔ ∃ (v : BitVec 8) (l' : List AtaEvent),
      l = ⟨.inb port, v⟩ :: l' ∧ (f v).Runs l' a := Iff.rfl

theorem runs_inw_bind {α : Type} {port : BitVec 16} {f : BitVec 16 → AtaM α} {a : α} :
    (inw port >>= f).Runs l a ↔ ∃ (v : BitVec 16) (l' : List AtaEvent),
      l = ⟨.inw port, v⟩ :: l' ∧ (f v).Runs l' a := Iff.rfl

theorem asks_ata400nsDelay (port : BitVec 16) : (ata400nsDelay port).Asks Quiet :=
  asks_inb.bind fun _ => asks_inb.bind fun _ => asks_inb.bind fun _ => asks_inb.bind fun _ => asks_pure _

theorem within_ata400nsDelay (port : BitVec 16) : (ata400nsDelay port).Within 4 :=
  within_inb.bind fun _ => within_inb.bind fun _ => within_inb.bind fun _ => within_inb.bind fun _ =>
    within_pure (n := 0) _

theorem asks_waitNotBusyRounds (rounds : Nat) : (waitNotBusyRounds io rounds).Asks Quiet := by
  induction rounds with
  | zero => exact asks_pure _
  | succ rounds ih =>
    refine asks_inb.bind fun status => ?_
    split
    · exact asks_pure _
    · split
      · exact asks_pure _
      · exact ih

theorem within_waitNotBusyRounds (rounds : Nat) : (waitNotBusyRounds io rounds).Within rounds := by
  induction rounds with
  | zero => exact within_pure _
  | succ rounds ih =>
    refine within_inb_bind fun status => ?_
    split
    · exact within_pure _
    · split
      · exact within_pure _
      · exact ih

theorem asks_ataWaitNotBusy : (ataWaitNotBusy io).Asks Quiet := asks_waitNotBusyRounds _

theorem within_ataWaitNotBusy : (ataWaitNotBusy io).Within 1000000 := within_waitNotBusyRounds _

theorem asks_pollDrqRounds (rounds : Nat) : (pollDrqRounds io rounds).Asks Quiet := by
  induction rounds with
  | zero => exact asks_pure _
  | succ rounds ih =>
    refine asks_inb.bind fun status => ?_
    split
    · exact asks_pure _
    · split
      · split
        · exact asks_pure _
        · split
          · exact asks_pure _
          · exact ih
      · exact ih

theorem within_pollDrqRounds (rounds : Nat) : (pollDrqRounds io rounds).Within rounds := by
  induction rounds with
  | zero => exact within_pure _
  | succ rounds ih =>
    refine within_inb_bind fun status => ?_
    split
    · exact within_pure _
    · split
      · split
        · exact within_pure _
        · split
          · exact within_pure _
          · exact ih
      · exact ih

/-- **`ata_poll_drq` says yes on a ready status only**, the last one it read. -/
theorem pollDrqRounds_true {rounds : Nat} (h : (pollDrqRounds io rounds).Runs l true) :
    ∃ p v, l = p ++ [⟨.inb (io + ATA_REG_STATUS), v⟩] ∧ Ready v := by
  induction rounds generalizing l with
  | zero => exact absurd h.2 (by simp)
  | succ rounds ih =>
    obtain ⟨v, l', rfl, h'⟩ := runs_inb_bind.mp h
    clear h
    rename' h' => h
    have hrest : (pollDrqRounds io rounds).Runs l' true →
        ∃ p w, ⟨.inb (io + ATA_REG_STATUS), v⟩ :: l' = p ++ [⟨.inb (io + ATA_REG_STATUS), w⟩] ∧ Ready w := by
      intro h
      obtain ⟨p, w, rfl, hw⟩ := ih h
      exact ⟨⟨.inb (io + ATA_REG_STATUS), v⟩ :: p, w, rfl, hw⟩
    split at h
    · exact absurd h.2 (by simp)
    · split at h
      · next hbusy =>
        split at h
        · exact absurd h.2 (by simp)
        · next herr =>
          split at h
          · next hdrq =>
            rw [h.1]
            exact ⟨[], v, rfl, hbusy, hdrq, not_not.mp herr⟩
          · exact hrest h
      · exact hrest h

theorem asks_loadTaskFile (count low mid high : BitVec 8) :
    (loadTaskFile io count low mid high).Asks Quiet :=
  asks_outb.bind fun _ => asks_outb.bind fun _ => asks_outb.bind fun _ => asks_outb.bind fun _ => asks_outb

theorem within_loadTaskFile (count low mid high : BitVec 8) :
    (loadTaskFile io count low mid high).Within 5 :=
  within_outb.bind fun _ => within_outb.bind fun _ => within_outb.bind fun _ => within_outb.bind fun _ =>
    within_outb

variable {drive : AtaDrive} {channel : AtaChannel} {lba buffer : BitVec 64} {count : BitVec 8}

theorem asks_ataConfigureLba : (ataConfigureLba drive lba count).Asks Quiet := by
  rw [ataConfigureLba]
  split
  · exact asks_pure _
  · split
    · exact asks_pure _
    · split
      · exact asks_pure _
      · refine asks_ataWaitNotBusy.bind fun ready => ?_
        split
        · split
          · exact (asks_outb.bind fun _ => (asks_ata400nsDelay _).bind fun _ =>
              asks_loadTaskFile _ _ _ _).bind fun _ => asks_pure _
          · split
            · exact (asks_outb.bind fun _ => (asks_ata400nsDelay _).bind fun _ =>
                (asks_loadTaskFile _ _ _ _).bind fun _ => asks_loadTaskFile _ _ _ _).bind fun _ => asks_pure _
            · exact asks_pure _
        · exact asks_pure _

theorem within_ataConfigureLba : (ataConfigureLba drive lba count).Within 1000015 := by
  rw [ataConfigureLba]
  split
  · exact within_pure _
  · split
    · exact within_pure _
    · split
      · exact within_pure _
      · refine within_ataWaitNotBusy.bind (m := 15) fun ready => ?_
        split
        · split
          · exact ((within_outb.bind fun _ => (within_ata400nsDelay _).bind fun _ =>
              within_loadTaskFile _ _ _ _).mono (by decide)).bind fun _ => within_pure (n := 0) _
          · split
            · exact (within_outb.bind fun _ => (within_ata400nsDelay _).bind fun _ =>
                (within_loadTaskFile _ _ _ _).bind fun _ => within_loadTaskFile _ _ _ _).bind fun _ =>
                within_pure (n := 0) _
            · exact within_pure _
        · exact within_pure _

theorem asks_settled : (settled io).Asks Quiet := by
  refine asks_ataWaitNotBusy.bind fun ready => ?_
  split
  · exact asks_inb.bind fun _ => asks_pure _
  · exact asks_pure _

theorem within_settled : (settled io).Within 1000001 := by
  refine within_ataWaitNotBusy.bind (m := 1) fun ready => ?_
  split
  · exact within_inb.bind fun _ => within_pure (n := 0) _
  · exact within_pure _

/-- The last status that `settled` read has no error. -/
theorem settled_true (h : (settled io).Runs l true) :
    ∃ p v, l = p ++ [⟨.inb (io + ATA_REG_STATUS), v⟩] ∧ NoError v := by
  obtain ⟨l₁, ready, l₂, rfl, -, h⟩ := runs_bind.mp h
  split at h
  · obtain ⟨v, l', rfl, hl', hv⟩ := runs_inb_bind.mp h
    have hv : v &&& (ATA_SR_ERR ||| ATA_SR_DF) = 0 := of_decide_eq_true hv.symm
    exact ⟨l₁, v, by rw [hl'], hv⟩
  · exact absurd h.2 (by simp)

/-! ## Moving the sectors -/

/-- What the body of the inner loop does: one word through the data port, two bytes of the buffer. -/
structure MovesWord (io : BitVec 16) (word : BitVec 64 → AtaM Unit) : Prop where
  within : ∀ bytes, (word bytes).Within 3
  dataWords : ∀ {bytes l}, (word bytes).Runs l () → dataWords io l = 1
  touched : ∀ {bytes l}, (word bytes).Runs l () → touched l = bytesAt bytes 2
  statuses : ∀ {bytes l}, (word bytes).Runs l () → statuses io l = []
  locks : ∀ {bytes l}, (word bytes).Runs l () → locks l = []

theorem bytesAt_two (bytes : BitVec 64) : bytesAt bytes 2 = [bytes, bytes + 1] := by
  simp [bytesAt, List.range_succ]

theorem writeWord_runs {bytes : BitVec 64} (h : (writeWord io bytes).Runs l ()) :
    ∃ (low high : BitVec 8) (w : BitVec 16), l = [⟨.load bytes, low⟩, ⟨.load (bytes + 1), high⟩,
      ⟨.outw (io + ATA_REG_DATA) w, ()⟩] := by
  obtain ⟨low, _, rfl, high, _, rfl, _, _, rfl, rfl, -⟩ := h
  exact ⟨low, high, _, rfl⟩

theorem readWord_runs {bytes : BitVec 64} (h : (readWord io bytes).Runs l ()) :
    ∃ (v : BitVec 16) (a b : BitVec 8), l = [⟨.inw (io + ATA_REG_DATA), v⟩, ⟨.store bytes a, ()⟩,
      ⟨.store (bytes + 1) b, ()⟩] := by
  obtain ⟨v, _, rfl, _, _, rfl, _, _, rfl, rfl, -⟩ := h
  exact ⟨v, _, _, rfl⟩

theorem movesWord_writeWord : MovesWord io (writeWord io) where
  within _ := within_call_bind fun _ => within_call_bind fun _ => within_call (n := 0) _
  dataWords h := by
    obtain ⟨low, high, w, rfl⟩ := writeWord_runs h
    simp [Ata.dataWords, isData]
  touched h := by
    obtain ⟨low, high, w, rfl⟩ := writeWord_runs h
    rw [bytesAt_two]
    rfl
  statuses h := by
    obtain ⟨low, high, w, rfl⟩ := writeWord_runs h
    rfl
  locks h := by
    obtain ⟨low, high, w, rfl⟩ := writeWord_runs h
    rfl

theorem movesWord_readWord : MovesWord io (readWord io) where
  within _ := within_call_bind fun _ => within_call_bind fun _ => within_call (n := 0) _
  dataWords h := by
    obtain ⟨v, a, b, rfl⟩ := readWord_runs h
    simp [Ata.dataWords, isData]
  touched h := by
    obtain ⟨v, a, b, rfl⟩ := readWord_runs h
    rw [bytesAt_two]
    rfl
  statuses h := by
    obtain ⟨v, a, b, rfl⟩ := readWord_runs h
    rfl
  locks h := by
    obtain ⟨v, a, b, rfl⟩ := readWord_runs h
    rfl

variable {word : BitVec 64 → AtaM Unit}

theorem within_moveWords (hw : MovesWord io word) (n : Nat) (bytes : BitVec 64) :
    (moveWords word n bytes).Within (3 * n) := by
  induction n generalizing bytes with
  | zero => exact within_pure _
  | succ n ih =>
    rw [Nat.mul_succ, Nat.add_comm]
    exact (hw.within bytes).bind fun _ => ih _

/-- `n` words moved through the data port and `2 n` bytes of the buffer, and nothing else. -/
structure Moved (io : BitVec 16) (bytes : BitVec 64) (n : Nat) (l : List AtaEvent) : Prop where
  dataWords : dataWords io l = n
  touched : touched l = bytesAt bytes (2 * n)
  statuses : statuses io l = []
  locks : locks l = []

theorem moveWords_runs (hw : MovesWord io word) {n : Nat} {bytes b : BitVec 64}
    (h : (moveWords word n bytes).Runs l b) :
    b = bytes + BitVec.ofNat 64 (2 * n) ∧ Moved io bytes n l := by
  induction n generalizing bytes l with
  | zero =>
    rw [h.1, h.2]
    exact ⟨(BitVec.add_zero bytes).symm, rfl, rfl, rfl, rfl⟩
  | succ n ih =>
    obtain ⟨l₁, ⟨⟩, l₂, rfl, h₁, h₂⟩ := runs_bind.mp h
    obtain ⟨rfl, hmoved⟩ := ih h₂
    have htwo : 2 * (n + 1) = 2 + 2 * n := by omega
    refine ⟨?_, ?_, ?_, ?_, ?_⟩
    · rw [htwo, BitVec.ofNat_add, ← BitVec.add_assoc]
      rfl
    · rw [dataWords_append, hw.dataWords h₁, hmoved.dataWords, Nat.add_comm]
    · rw [touched_append, hw.touched h₁, hmoved.touched, htwo, bytesAt_add]
      rfl
    · rw [statuses_append, hw.statuses h₁, hmoved.statuses, List.append_nil]
    · rw [locks_append, hw.locks h₁, hmoved.locks, List.append_nil]

/-- A ready status and then the words of one sector obey the rule. -/
theorem sectorChecked_sector {p w : List AtaEvent} {v : BitVec 8} (hp : dataWords io p = 0) (hv : Ready v)
    (hcount : dataWords io w = 256) (hstatuses : statuses io w = []) :
    SectorChecked io (p ++ ⟨.inb (io + ATA_REG_STATUS), v⟩ :: w) := by
  have hstatus : isData io ⟨.inb (io + ATA_REG_STATUS), v⟩ = false := rfl
  have hcons : ∀ q, dataWords io (⟨.inb (io + ATA_REG_STATUS), v⟩ :: q) = dataWords io q := fun q => by
    rw [dataWords, List.countP_cons_of_neg (by simp [hstatus])]
    rfl
  intro before e after heq he
  -- The word is none of those in front of the status, nor the status.
  obtain ⟨q, rfl, rfl⟩ : ∃ q, before = p ++ ⟨.inb (io + ATA_REG_STATUS), v⟩ :: q ∧ w = q ++ e :: after := by
    rcases List.append_eq_append_iff.mp heq with ⟨a, rfl, ha⟩ | ⟨a, rfl, ha⟩
    · cases a with
      | nil =>
        rw [List.nil_append, List.cons.injEq] at ha
        rw [← ha.1, hstatus] at he
        exact absurd he (by simp)
      | cons x a =>
        rw [List.cons_append, List.cons.injEq] at ha
        obtain ⟨rfl, ha⟩ := ha
        exact ⟨a, rfl, ha⟩
    · cases a with
      | nil =>
        rw [List.nil_append, List.cons.injEq] at ha
        rw [ha.1, hstatus] at he
        exact absurd he (by simp)
      | cons x a =>
        rw [List.cons_append, List.cons.injEq] at ha
        obtain ⟨rfl, -⟩ := ha
        exact absurd he (by simpa using List.countP_eq_zero.mp hp e (by simp))
  have hone : 0 < dataWords io (e :: after) := List.countP_pos_iff.mpr ⟨e, List.mem_cons_self, he⟩
  rw [dataWords_append] at hcount
  rw [statuses_append, List.append_eq_nil_iff] at hstatuses
  refine ⟨p, v, q, rfl, hv, hstatuses.1, ?_⟩
  rw [dataWords_append, hp, hcons]
  omega

theorem within_moveSectors (hw : MovesWord channel.ioBase word) (hc : drive.channel = some channel) (n : Nat)
    (bytes : BitVec 64) : (moveSectors word drive channel n bytes).Within (1000772 * n) := by
  induction n generalizing bytes with
  | zero => exact within_pure _
  | succ n ih =>
    have hpoll : (ataPollDrq drive).Within 1000000 := by
      rw [ataPollDrq, hc]
      exact within_pollDrqRounds _
    rw [show 1000772 * (n + 1) = 1000000 + (3 * 256 + (4 + 1000772 * n)) by omega]
    refine hpoll.bind fun ready => ?_
    split
    · exact (within_moveWords hw 256 bytes).bind fun _ => (within_ata400nsDelay _).bind fun _ => ih _
    · exact within_pure _

/-- What is known of the loop over `n` sectors, of which it moved `k`. -/
structure Sectors (io : BitVec 16) (bytes : BitVec 64) (n : Nat) (ok : Bool) (k : Nat)
    (l : List AtaEvent) : Prop where
  le : k ≤ n
  all : ok = true → k = n
  checked : SectorChecked io l
  dataWords : dataWords io l = 256 * k
  touched : touched l = bytesAt bytes (512 * k)
  locks : locks l = []

variable {bytes : BitVec 64} {n k : Nat} {ok : Bool}

theorem Sectors.prepend (h : Sectors io bytes n ok k l₂) (hl : Still io l₁) :
    Sectors io bytes n ok k (l₁ ++ l₂) where
  le := h.le
  all := h.all
  checked := hl.sectorChecked.append (by rw [hl.dataWords]) h.checked
  dataWords := by rw [dataWords_append, hl.dataWords, h.dataWords, Nat.zero_add]
  touched := by rw [touched_append, hl.touched, h.touched, List.nil_append]
  locks := by rw [locks_append, hl.locks, h.locks, List.nil_append]

/-- What follows the sectors moves nothing, and may fail. -/
theorem Sectors.extend (h : Sectors io bytes n true k l₁) (hl : Still io l₂) :
    Sectors io bytes n ok k (l₁ ++ l₂) where
  le := h.le
  all _ := h.all rfl
  checked := h.checked.append (by rw [h.dataWords]; omega) hl.sectorChecked
  dataWords := by rw [dataWords_append, hl.dataWords, h.dataWords, Nat.add_zero]
  touched := by rw [touched_append, hl.touched, h.touched, List.append_nil]
  locks := by rw [locks_append, hl.locks, h.locks, List.append_nil]

theorem Still.sectors (h : Still io l) : Sectors io bytes n false 0 l where
  le := Nat.zero_le n
  all h := absurd h (by simp)
  checked := h.sectorChecked
  dataWords := h.dataWords
  touched := h.touched
  locks := h.locks

theorem moveSectors_runs (hw : MovesWord channel.ioBase word) (hc : drive.channel = some channel)
    (h : (moveSectors word drive channel n bytes).Runs l ok) :
    ∃ k, Sectors channel.ioBase bytes n ok k l := by
  induction n generalizing bytes l with
  | zero =>
    rw [h.1, h.2]
    exact ⟨0, le_rfl, fun _ => rfl, .of_dataWords rfl, rfl, rfl, rfl⟩
  | succ n ih =>
    have hpoll : ataPollDrq drive = pollDrqRounds channel.ioBase 1000000 := by rw [ataPollDrq, hc]
    obtain ⟨l₁, ready, l₂, rfl, h₁, h₂⟩ := runs_bind.mp h
    rw [hpoll] at h₁
    have hstill : Still channel.ioBase l₁ := .of_asks (asks_pollDrqRounds _) h₁
    split at h₂
    · next hready =>
      rw [hready] at h₁
      obtain ⟨p, v, rfl, hv⟩ := pollDrqRounds_true h₁
      obtain ⟨w, b, l₃, rfl, hmove, h₃⟩ := runs_bind.mp h₂
      obtain ⟨d, ⟨⟩, l₄, rfl, hdelay, h₄⟩ := runs_bind.mp h₃
      obtain ⟨rfl, hmoved⟩ := moveWords_runs hw hmove
      have hquiet : Still channel.ioBase d := .of_asks (asks_ata400nsDelay _) hdelay
      obtain ⟨k, hk⟩ := ih h₄
      have hp : dataWords channel.ioBase p = 0 := by
        have := hstill.dataWords
        rw [dataWords_append] at this
        omega
      have hsector : SectorChecked channel.ioBase ((p ++ [⟨.inb (channel.ioBase + ATA_REG_STATUS), v⟩]) ++ w) := by
        have := sectorChecked_sector hp hv hmoved.dataWords hmoved.statuses
        simpa using this
      have hcount : dataWords channel.ioBase ((p ++ [⟨.inb (channel.ioBase + ATA_REG_STATUS), v⟩]) ++ w) = 256 := by
        rw [dataWords_append, hstill.dataWords, hmoved.dataWords]
      refine ⟨k + 1, Nat.succ_le_succ hk.le, fun h => congrArg (· + 1) (hk.all h), ?_, ?_, ?_, ?_⟩
      · rw [← List.append_assoc]
        refine hsector.append (by rw [hcount]) (hquiet.sectorChecked.append ?_ hk.checked)
        rw [hquiet.dataWords]
      · rw [← List.append_assoc, dataWords_append, hcount, dataWords_append, hquiet.dataWords, hk.dataWords]
        omega
      · rw [touched_append, hstill.touched, touched_append, touched_append, hquiet.touched, hmoved.touched,
          hk.touched, List.nil_append, List.nil_append, show 512 * (k + 1) = 2 * 256 + 512 * k by omega,
          bytesAt_add]
      · rw [locks_append, hstill.locks, locks_append, locks_append, hquiet.locks, hmoved.locks, hk.locks]
        rfl
    · rw [h₂.1, h₂.2, List.append_nil]
      exact ⟨0, hstill.sectors⟩

end Ata

end Dem64
