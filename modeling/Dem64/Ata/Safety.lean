import Dem64.Ata.Trace

/-!
# Safety of the ATA driver

The three entry points are read as logs: the phase between the lock and the unlock first, then the call.
`ata_any_drive` puts it together for every drive: whatever the ports answer, a call ends, gives its lock back,
touches a whole number of sectors of the buffer and moves a word on a ready status only; and it reports
success, or a device, only after all words and on a last status without error.
-/

set_option autoImplicit false

namespace Dem64

namespace Ata

open Interaction Interaction.Prog

variable {io : BitVec 16} {l l₁ l₂ : List AtaEvent} {drive : AtaDrive} {channel : AtaChannel}
  {lba buffer : BitVec 64} {count : BitVec 8}

/-! ## The phase of a transfer -/

theorem asks_flush (mode : AtaAddressingMode) : (flush io mode).Asks Quiet :=
  asks_outb.bind fun _ => asks_settled

theorem within_flush (mode : AtaAddressingMode) : (flush io mode).Within 1000002 :=
  within_outb.bind fun _ => within_settled

/-- The last event is a read of the status, and it has no error. -/
theorem lastStatus_append {v : BitVec 8} (hv : NoError v) :
    ∃ w, (statuses io (l ++ [⟨.inb (io + ATA_REG_STATUS), v⟩])).getLast? = some w ∧ NoError w := by
  have hone : statuses io [⟨.inb (io + ATA_REG_STATUS), v⟩] = [v] := by simp [statuses, statusOf]
  exact ⟨v, by rw [statuses_append, hone, List.getLast?_append]; rfl, hv⟩

section

variable {word : BitVec 16 → BitVec 64 → AtaM Unit} {command commandExt : BitVec 8}
  {finish : BitVec 16 → AtaAddressingMode → AtaM Bool}

theorem within_transferPhase (hw : MovesWord channel.ioBase (word channel.ioBase))
    (hc : drive.channel = some channel) (hfinish : ∀ mode, (finish channel.ioBase mode).Within 1000002) :
    (transferPhase word command commandExt finish drive channel lba buffer count).Within
      (1000772 * count.toNat + 3000019) := by
  rw [show 1000772 * count.toNat + 3000019 =
    1000015 + (1 + (1000772 * count.toNat + (1000001 + 1000002))) by omega]
  refine within_ataConfigureLba.bind fun mode => ?_
  split
  · exact within_pure _
  · refine within_outb.bind fun _ => (within_moveSectors hw hc _ _).bind fun moved => ?_
    split
    · refine within_settled.bind fun good => ?_
      split
      · exact hfinish mode
      · exact within_pure _
    · exact within_pure _

/-- **The phase moves whole sectors under the rule**, and comes to its good end only if the sectors were all
moved, the last status behind them has no error, and what follows comes to its end too. -/
theorem transferPhase_runs (hw : MovesWord channel.ioBase (word channel.ioBase))
    (hc : drive.channel = some channel) (hfinish : ∀ mode, (finish channel.ioBase mode).Asks Quiet) {ok : Bool}
    (h : (transferPhase word command commandExt finish drive channel lba buffer count).Runs l ok) :
    (∃ k, Sectors channel.ioBase buffer count.toNat ok k l) ∧
    (ok = true → ∃ l₁ mode l₂, l = l₁ ++ l₂ ∧ Completed channel.ioBase (256 * count.toNat) l₁ ∧
      (finish channel.ioBase mode).Runs l₂ true) := by
  obtain ⟨a, mode, l₂, rfl, hconf, h₂⟩ := runs_bind.mp h
  have hfront : Still channel.ioBase a := .of_asks asks_ataConfigureLba hconf
  split at h₂
  · rw [h₂.1, h₂.2, List.append_nil]
    exact ⟨⟨0, hfront.sectors⟩, fun h => absurd h (by simp)⟩
  · obtain ⟨b, ⟨⟩, l₃, rfl, hcommand, h₃⟩ := runs_bind.mp h₂
    have hcommand : Still channel.ioBase b := .of_asks asks_outb hcommand
    obtain ⟨c, moved, l₄, rfl, hmove, h₄⟩ := runs_bind.mp h₃
    obtain ⟨k, hk⟩ := moveSectors_runs hw hc hmove
    split at h₄
    · next hmoved =>
      subst hmoved
      obtain ⟨d, good, l₅, rfl, hsettled, h₅⟩ := runs_bind.mp h₄
      have hstill : Still channel.ioBase d := .of_asks asks_settled hsettled
      split at h₅
      · next hgood =>
        subst hgood
        have hlast : Still channel.ioBase l₅ := .of_asks (hfinish mode) h₅
        refine ⟨⟨k, ((hk.extend (hstill.append hlast)).prepend hcommand).prepend hfront⟩, ?_⟩
        rintro rfl
        obtain ⟨p, v, rfl, hv⟩ := settled_true hsettled
        refine ⟨a ++ (b ++ (c ++ (p ++ [⟨.inb (channel.ioBase + ATA_REG_STATUS), v⟩]))), mode, l₅,
          by simp, ⟨?_, ?_⟩, h₅⟩
        · rw [dataWords_append, hfront.dataWords, dataWords_append, hcommand.dataWords, dataWords_append,
            hk.dataWords, hstill.dataWords, hk.all rfl]
          omega
        · have := @lastStatus_append channel.ioBase (a ++ (b ++ (c ++ p))) v hv
          simpa using this
      · rw [h₅.1, h₅.2, List.append_nil]
        exact ⟨⟨k, ((hk.extend hstill).prepend hcommand).prepend hfront⟩, fun h => absurd h (by simp)⟩
    · next hmoved =>
      rw [Bool.not_eq_true] at hmoved
      subst hmoved
      rw [h₄.1, h₄.2, List.append_nil]
      exact ⟨⟨k, (hk.prepend hcommand).prepend hfront⟩, fun h => absurd h (by simp)⟩

end

/-! ## What a call promises -/

/-- **A call is safe**: it ends, the lock is given back, the bytes touched are a whole number of sectors of
the buffer, from its first byte on, and words are moved on a ready status of their sector only. -/
structure Safe (drive : Option AtaDrive) (buffer : BitVec 64) (sectors : Nat) (log : List AtaEvent) : Prop where
  ends : log.length ≤ 1001000 * (sectors + 3)
  bracketed : Bracketed log
  touched : ∃ k ≤ sectors, touched log = bytesAt buffer (512 * k)
  checked : ∀ channel, drive.bind AtaDrive.channel = some channel → SectorChecked channel.ioBase log

/-- The drive's status is `SUCCESS`. -/
def ReportsSuccess (drive : Option AtaDrive) : Prop := ∃ d, drive = some d ∧ d.ataStatus = SUCCESS

theorem Safe.nothing {drive : Option AtaDrive} {sectors : Nat} : Safe drive buffer sectors [] where
  ends := Nat.zero_le _
  bracketed := .inl rfl
  touched := ⟨0, Nat.zero_le _, rfl⟩
  checked _ _ := .of_dataWords rfl

/-- The lock and the unlock around a log. -/
def locked (l : List AtaEvent) : List AtaEvent := ⟨.lock, ()⟩ :: (l ++ [⟨.unlock, ()⟩])

/-- A program under the lock has the log of the program inside it. -/
theorem runs_locked {α β : Type} {p : AtaM α} {f : α → β} {b : β} :
    (do spinLock; let a ← p; spinUnlock; pure (f a) : AtaM β).Runs l b ↔
      ∃ m a, l = locked m ∧ p.Runs m a ∧ b = f a := by
  constructor
  · rintro ⟨⟨⟩, l', rfl, h⟩
    have h' : (p >>= fun a => spinUnlock >>= fun _ => pure (f a)).Runs l' b := h
    obtain ⟨m, a, l₂, rfl, hm, ⟨⟩, _, rfl, rfl, rfl⟩ := runs_bind.mp h'
    exact ⟨m, a, rfl, hm, rfl⟩
  · rintro ⟨m, a, rfl, hm, rfl⟩
    have h' : (p >>= fun a => spinUnlock >>= fun _ => pure (f a)).Runs (m ++ [⟨.unlock, ()⟩]) (f a) :=
      runs_bind.mpr ⟨m, a, _, rfl, hm, (), _, rfl, rfl, rfl⟩
    exact ⟨(), _, rfl, h'⟩

theorem dataWords_locked : dataWords io (locked l) = dataWords io l := by
  simp [locked, dataWords, isData]

theorem statuses_locked : statuses io (locked l) = statuses io l := by
  rw [locked, ← List.singleton_append, statuses_append, statuses_append]
  exact List.append_nil _

theorem touched_locked : touched (locked l) = touched l := by
  rw [locked, ← List.singleton_append, touched_append, touched_append]
  exact List.append_nil _

theorem SectorChecked.locked (h : SectorChecked io l) (hd : dataWords io l % 256 = 0) :
    SectorChecked io (locked l) := by
  have hlock : SectorChecked io [⟨.lock, ()⟩] := .of_dataWords rfl
  have hunlock : SectorChecked io [⟨.unlock, ()⟩] := .of_dataWords rfl
  exact hlock.append rfl (h.append hd hunlock)

theorem Sectors.safe {n k : Nat} {ok : Bool} (h : Sectors channel.ioBase buffer n ok k l)
    (hc : drive.channel = some channel) (hlength : l.length ≤ 1000772 * n + 3000019) :
    Safe (some drive) buffer n (locked l) where
  ends := by
    rw [locked, List.length_cons, List.length_append, List.length_singleton]
    omega
  bracketed := .inr ⟨l, rfl, h.locks⟩
  touched := ⟨k, h.le, by rw [touched_locked, h.touched]⟩
  checked channel' hchannel := by
    rw [Option.bind_some, hc, Option.some.injEq] at hchannel
    rw [← hchannel]
    exact h.checked.locked (by rw [h.dataWords]; omega)

section

variable {word : BitVec 16 → BitVec 64 → AtaM Unit} {command commandExt : BitVec 8}
  {finish : BitVec 16 → AtaAddressingMode → AtaM Bool}

/-- **The text that both transfers share is safe**, and it reports success only behind a completed transfer
and a `finish` that came to its end. -/
theorem ataTransfer_runs (hw : ∀ io, MovesWord io (word io)) (hasks : ∀ io mode, (finish io mode).Asks Quiet)
    (hwithin : ∀ io mode, (finish io mode).Within 1000002) {d d' : Option AtaDrive}
    (h : (ataTransfer word command commandExt finish d lba buffer count).Runs l d') :
    Safe d buffer count.toNat l ∧ (ReportsSuccess d' → ∃ channel, d.bind AtaDrive.channel = some channel ∧
      ∃ l₁ mode l₂, l = locked (l₁ ++ l₂) ∧ Completed channel.ioBase (256 * count.toNat) l₁ ∧
        (finish channel.ioBase mode).Runs l₂ true) := by
  have hrefused : ∀ {e : AtaDrive} {status : BitVec 8}, status ≠ SUCCESS → l = [] ∧
      d' = some { e with ataStatus := status } → Safe d buffer count.toNat l ∧ ¬ ReportsSuccess d' := by
    rintro e status hne ⟨rfl, rfl⟩
    refine ⟨.nothing, ?_⟩
    rintro ⟨_, ⟨⟩, hstatus⟩
    exact hne hstatus
  cases d with
  | none =>
    rw [h.1, h.2]
    exact ⟨.nothing, fun ⟨_, hd, _⟩ => absurd hd (by simp)⟩
  | some drive =>
    simp only [ataTransfer] at h
    split at h
    · next channel hc _ =>
      split at h
      · exact (hrefused (by decide) h).imp id fun hn hs => absurd hs hn
      · split at h
        · exact (hrefused (by decide) h).imp id fun hn hs => absurd hs hn
        · obtain ⟨l₁, ok, rfl, hphase, rfl⟩ := runs_locked.mp h
          obtain ⟨⟨k, hk⟩, hok⟩ := transferPhase_runs (hw _) hc (hasks _) hphase
          have hlength := (within_transferPhase (hw _) hc (hwithin _)).length_le hphase
          refine ⟨hk.safe hc hlength, ?_⟩
          rintro ⟨_, ⟨⟩, hstatus⟩
          have htrue : ok = true := by
            cases ok with
            | true => rfl
            | false => exact absurd (show ERR_IO = SUCCESS from hstatus) (by decide)
          obtain ⟨m₁, mode, m₂, rfl, hcompleted, hfinish⟩ := hok htrue
          exact ⟨channel, hc, m₁, mode, m₂, rfl, hcompleted, hfinish⟩
    · exact (hrefused (by decide) h).imp id fun hn hs => absurd hs hn

end

/-! ## The probe -/

theorem asks_identifyRounds (rounds : Nat) : (identifyRounds io rounds).Asks Quiet := by
  induction rounds with
  | zero => exact asks_pure _
  | succ rounds ih =>
    refine asks_inb.bind fun status => ?_
    split
    · exact asks_pure _
    · split
      · exact asks_pure _
      · exact ih

theorem within_identifyRounds (rounds : Nat) : (identifyRounds io rounds).Within rounds := by
  induction rounds with
  | zero => exact within_pure _
  | succ rounds ih =>
    refine within_inb_bind fun status => ?_
    split
    · exact within_pure _
    · split
      · exact within_pure _
      · exact ih

/-- The status that the loop answers is the last one it read, and is not busy. -/
theorem identifyRounds_status {rounds : Nat} {v : BitVec 8}
    (h : (identifyRounds io rounds).Runs l (.status v)) :
    ∃ p, l = p ++ [⟨.inb (io + ATA_REG_STATUS), v⟩] ∧ v &&& ATA_SR_BSY = 0 := by
  induction rounds generalizing l with
  | zero => exact absurd h.2 (by simp)
  | succ rounds ih =>
    obtain ⟨w, l', rfl, h'⟩ := runs_inb_bind.mp h
    clear h
    split at h'
    · exact absurd h'.2 (by simp)
    · split at h'
      · next hbusy =>
        obtain ⟨rfl, hw⟩ := h'
        injection hw with hw
        subst hw
        exact ⟨[], rfl, hbusy⟩
      · obtain ⟨p, rfl, hv⟩ := ih h'
        exact ⟨⟨.inb (io + ATA_REG_STATUS), w⟩ :: p, rfl, hv⟩

theorem asks_identifyPacket : (identifyPacket io).Asks Quiet := by
  refine asks_inb.bind fun low => asks_inb.bind fun high => ?_
  split
  · refine asks_outb.bind fun _ => (asks_identifyRounds _).bind fun answer => ?_
    split
    · split
      · exact asks_pure _
      · split <;> exact asks_pure _
    · exact asks_pure _
  · exact asks_pure _

theorem within_identifyPacket : (identifyPacket io).Within 1000003 := by
  rw [show 1000003 = 1 + (1 + (1 + (1000000 + 0))) by rfl]
  refine within_inb.bind fun low => within_inb.bind fun high => ?_
  split
  · refine within_outb.bind fun _ => (within_identifyRounds _).bind fun answer => ?_
    split
    · split
      · exact within_pure _
      · split <;> exact within_pure _
    · exact within_pure _
  · exact within_pure _

theorem asks_identify : (identify drive channel).Asks Quiet := by
  refine (asks_outb.bind fun _ => asks_ata400nsDelay _).bind fun _ => asks_ataWaitNotBusy.bind fun ready => ?_
  split
  · refine (asks_loadTaskFile _ _ _ _).bind fun _ => asks_outb.bind fun _ =>
      (asks_identifyRounds _).bind fun answer => ?_
    split
    · split
      · exact asks_pure _
      · split
        · exact asks_identifyPacket
        · split <;> exact asks_pure _
    · exact asks_pure _
  · exact asks_pure _

theorem within_identify : (identify drive channel).Within 3000014 := by
  rw [show 3000014 = 1 + 4 + (1000000 + (5 + (1 + (1000000 + 1000003)))) by rfl]
  refine (within_outb.bind fun _ => within_ata400nsDelay _).bind fun _ => within_ataWaitNotBusy.bind fun ready => ?_
  split
  · refine (within_loadTaskFile _ _ _ _).bind fun _ => within_outb.bind fun _ =>
      (within_identifyRounds _).bind fun answer => ?_
    split
    · split
      · exact within_pure _
      · split
        · exact within_identifyPacket
        · split <;> exact within_pure _
    · exact within_pure _
  · exact within_pure _

/-- The log ends with a ready status. -/
def EndsReady (io : BitVec 16) (l : List AtaEvent) : Prop :=
  ∃ p v, l = p ++ [⟨.inb (io + ATA_REG_STATUS), v⟩] ∧ Ready v

theorem EndsReady.prepend (h : EndsReady io l₂) : EndsReady io (l₁ ++ l₂) := by
  obtain ⟨p, v, rfl, hv⟩ := h
  exact ⟨l₁ ++ p, v, (List.append_assoc ..).symm, hv⟩

theorem ready_of_flags {v : BitVec 8} (hbusy : v &&& ATA_SR_BSY = 0) (hdf : ¬ v &&& ATA_SR_DF ≠ 0)
    (herr : ¬ v &&& ATA_SR_ERR ≠ 0) (hdrq : ¬ v &&& ATA_SR_DRQ = 0) : Ready v := by
  refine ⟨hbusy, hdrq, ?_⟩
  have hor : v &&& (ATA_SR_ERR ||| ATA_SR_DF) = (v &&& ATA_SR_ERR) ||| (v &&& ATA_SR_DF) := by
    ext i hi
    simp only [BitVec.getElem_and, BitVec.getElem_or, Bool.and_or_distrib_left]
  rw [hor, not_not.mp hdf, not_not.mp herr]
  decide

theorem identifyPacket_ok {t : AtaDeviceType} (h : (identifyPacket io).Runs l (.ok t)) : EndsReady io l := by
  obtain ⟨low, _, rfl, h₁⟩ := runs_inb_bind.mp h
  obtain ⟨high, _, rfl, h₂⟩ := runs_inb_bind.mp h₁
  split at h₂
  · obtain ⟨l₁, _, l₂, rfl, -, h₃⟩ := runs_bind.mp h₂
    obtain ⟨l₃, answer, l₄, rfl, hrounds, h₄⟩ := runs_bind.mp h₃
    split at h₄
    · next status =>
      split at h₄
      · exact absurd h₄.2 (by simp)
      · next hdf =>
        split at h₄
        · exact absurd h₄.2 (by simp)
        · next hrest =>
          obtain ⟨rfl, -⟩ := h₄
          rw [not_or] at hrest
          obtain ⟨p, rfl, hbusy⟩ := identifyRounds_status hrounds
          rw [List.append_nil]
          exact @EndsReady.prepend io [_, _] _ (EndsReady.prepend
            ⟨p, status, rfl, ready_of_flags hbusy hdf hrest.1 hrest.2⟩)
    · exact absurd h₄.2 (by simp)
  · exact absurd h₂.2 (by simp)

/-- **A device is found on a ready status**, the last one read. -/
theorem identify_ok {t : AtaDeviceType} (h : (identify drive channel).Runs l (.ok t)) :
    EndsReady channel.ioBase l := by
  obtain ⟨l₁, _, l₂, rfl, -, h₁⟩ := runs_bind.mp h
  obtain ⟨l₃, ready, l₄, rfl, -, h₂⟩ := runs_bind.mp h₁
  split at h₂
  · obtain ⟨l₅, _, l₆, rfl, -, h₃⟩ := runs_bind.mp h₂
    obtain ⟨l₇, _, l₈, rfl, -, h₄⟩ := runs_bind.mp h₃
    obtain ⟨l₉, answer, l₁₀, rfl, hrounds, h₅⟩ := runs_bind.mp h₄
    refine EndsReady.prepend (EndsReady.prepend (EndsReady.prepend (EndsReady.prepend ?_)))
    split at h₅
    · next status =>
      split at h₅
      · exact absurd h₅.2 (by simp)
      · next hdf =>
        split at h₅
        · exact (identifyPacket_ok h₅).prepend
        · next herr =>
          split at h₅
          · exact absurd h₅.2 (by simp)
          · next hdrq =>
            obtain ⟨rfl, -⟩ := h₅
            obtain ⟨p, rfl, hbusy⟩ := identifyRounds_status hrounds
            rw [List.append_nil]
            exact ⟨p, status, rfl, ready_of_flags hbusy hdf herr hdrq⟩
    · exact absurd h₅.2 (by simp)
  · exact absurd h₂.2 (by simp)

/-- A result that names no device. -/
def Absent (result : AtaProbe) : Prop := result ≠ .ata ∧ result ≠ .atapi

theorem Identified.absent (answer : Identified) : Absent answer.failure := by
  cases answer <;> exact ⟨nofun, nofun⟩

theorem identifyPacket_error {result : AtaProbe} (h : (identifyPacket io).Runs l (.error result)) :
    Absent result := by
  obtain ⟨low, _, rfl, h₁⟩ := runs_inb_bind.mp h
  obtain ⟨high, _, rfl, h₂⟩ := runs_inb_bind.mp h₁
  split at h₂
  · obtain ⟨l₁, _, l₂, rfl, -, h₃⟩ := runs_bind.mp h₂
    obtain ⟨l₃, answer, l₄, rfl, -, h₄⟩ := runs_bind.mp h₃
    split at h₄
    · split at h₄
      · cases h₄.2
        exact ⟨by decide, by decide⟩
      · split at h₄ <;> cases h₄.2
        exact ⟨by decide, by decide⟩
    · cases h₄.2
      exact answer.absent
  · cases h₂.2
    exact ⟨by decide, by decide⟩

/-- A probe that fails does not name a device. -/
theorem identify_error {result : AtaProbe} (h : (identify drive channel).Runs l (.error result)) :
    Absent result := by
  obtain ⟨l₁, _, l₂, rfl, -, h₁⟩ := runs_bind.mp h
  obtain ⟨l₃, ready, l₄, rfl, -, h₂⟩ := runs_bind.mp h₁
  split at h₂
  · obtain ⟨l₅, _, l₆, rfl, -, h₃⟩ := runs_bind.mp h₂
    obtain ⟨l₇, _, l₈, rfl, -, h₄⟩ := runs_bind.mp h₃
    obtain ⟨l₉, answer, l₁₀, rfl, -, h₅⟩ := runs_bind.mp h₄
    split at h₅
    · split at h₅
      · cases h₅.2
        exact ⟨by decide, by decide⟩
      · split at h₅
        · exact identifyPacket_error h₅
        · split at h₅ <;> cases h₅.2
          exact ⟨by decide, by decide⟩
    · cases h₅.2
      exact answer.absent
  · cases h₂.2
    exact ⟨by decide, by decide⟩

theorem within_readIdentify (n : Nat) : (readIdentify io n).Within n := by
  induction n with
  | zero => exact within_pure _
  | succ n ih => exact within_call_bind fun v => ih.bind (m := 0) fun _ => within_pure _

theorem readIdentify_runs {n : Nat} {words : List (BitVec 16)} (h : (readIdentify io n).Runs l words) :
    dataWords io l = n ∧ touched l = [] ∧ statuses io l = [] ∧ locks l = [] := by
  induction n generalizing l words with
  | zero =>
    rw [h.1]
    exact ⟨rfl, rfl, rfl, rfl⟩
  | succ n ih =>
    obtain ⟨v, l', rfl, h₁⟩ := runs_inw_bind.mp h
    obtain ⟨l₁, rest, l₂, rfl, hrest, rfl, -⟩ := runs_bind.mp h₁
    obtain ⟨hd, ht, hs, hl⟩ := ih hrest
    rw [List.append_nil]
    refine ⟨?_, ht, hs, hl⟩
    rw [dataWords, List.countP_cons_of_pos (by simp [isData])]
    exact congrArg (· + 1) hd

theorem within_probePhase : (probePhase drive channel).Within 3000270 := by
  refine within_identify.bind (m := 256) fun answer => ?_
  split
  · exact within_pure _
  · refine (within_readIdentify 256).bind (m := 0) fun words => ?_
    split <;> exact within_pure _

/-- What the probe does between the lock and the unlock: the identify words, or nothing. -/
theorem probePhase_runs {r : AtaProbe × AtaDrive} (h : (probePhase drive channel).Runs l r) :
    SectorChecked channel.ioBase l ∧ dataWords channel.ioBase l % 256 = 0 ∧ touched l = [] ∧ locks l = [] ∧
    (¬ Absent r.1 ∨ r.2.type ≠ drive.type → Completed channel.ioBase 256 l) := by
  obtain ⟨l₁, answer, l₂, rfl, hidentify, h₂⟩ := runs_bind.mp h
  have hstill : Still channel.ioBase l₁ := .of_asks asks_identify hidentify
  cases answer with
  | error result =>
    obtain ⟨rfl, rfl⟩ := h₂
    rw [List.append_nil]
    exact ⟨hstill.sectorChecked, by rw [hstill.dataWords], hstill.touched, hstill.locks,
      fun hfound => absurd (identify_error hidentify) (hfound.resolve_right fun hne => hne rfl)⟩
  | ok deviceType =>
    obtain ⟨l₃, words, l₄, rfl, hwords, h₄⟩ := runs_bind.mp h₂
    obtain ⟨p, v, rfl, hv⟩ := identify_ok hidentify
    obtain ⟨hd, ht, hs, hl⟩ := readIdentify_runs hwords
    have hnil : l₄ = [] := by
      split at h₄ <;> exact h₄.1
    subst hnil
    have hp : dataWords channel.ioBase p = 0 := by
      have := hstill.dataWords
      rw [dataWords_append] at this
      omega
    have hcount : dataWords channel.ioBase
        (p ++ [⟨.inb (channel.ioBase + ATA_REG_STATUS), v⟩] ++ (l₃ ++ [])) = 256 := by
      rw [List.append_nil, dataWords_append, hstill.dataWords, hd]
    refine ⟨?_, by rw [hcount], ?_, ?_, fun _ => ⟨hcount, ?_⟩⟩
    · have := sectorChecked_sector hp hv hd hs
      simpa using this
    · rw [List.append_nil, touched_append, hstill.touched, ht]
      rfl
    · rw [List.append_nil, locks_append, hstill.locks, hl]
      rfl
    · rw [List.append_nil, statuses_append, hs, List.append_nil]
      exact lastStatus_append hv.2.2

/-- The probe says that there is a device, by its result or by what it writes to the drive. -/
def ReportsDevice (r : AtaProbe × Option AtaDrive) : Prop :=
  r.1 = .ata ∨ r.1 = .atapi ∨ ∃ d, r.2 = some d ∧ d.channel ≠ none ∧ d.type ≠ .none

theorem ataProbeDevice_runs {d : Option AtaDrive} {r : AtaProbe × Option AtaDrive}
    (h : (ataProbeDevice d).Runs l r) :
    Safe d buffer 0 l ∧ (ReportsDevice r → ∃ channel, d.bind AtaDrive.channel = some channel ∧
      Completed channel.ioBase 256 l) := by
  cases d with
  | none =>
    obtain ⟨rfl, rfl⟩ := h
    refine ⟨.nothing, ?_⟩
    rintro (h | h | ⟨_, h, -⟩) <;> exact absurd h (by simp)
  | some drive =>
    simp only [ataProbeDevice] at h
    split at h
    · next hc =>
      obtain ⟨rfl, rfl⟩ := h
      refine ⟨.nothing, ?_⟩
      rintro (h | h | ⟨_, ⟨⟩, h, -⟩)
      · exact absurd h (by simp)
      · exact absurd h (by simp)
      · exact absurd hc h
    · next channel hc =>
      obtain ⟨m, r', rfl, hphase, rfl⟩ := runs_locked.mp h
      obtain ⟨hchecked, hwhole, htouched, hlocks, hdone⟩ := probePhase_runs hphase
      have hlength := within_probePhase.length_le hphase
      refine ⟨⟨?_, .inr ⟨m, rfl, hlocks⟩, ⟨0, le_rfl, by rw [touched_locked, htouched]; rfl⟩,
        fun channel' hchannel => ?_⟩, fun hreport => ⟨channel, hc, ?_⟩⟩
      · rw [locked, List.length_cons, List.length_append, List.length_singleton]
        omega
      · rw [Option.bind_some, hc, Option.some.injEq] at hchannel
        rw [← hchannel]
        exact hchecked.locked hwhole
      · rw [Completed, dataWords_locked, statuses_locked]
        refine hdone ?_
        rcases hreport with hata | hatapi | ⟨_, ⟨⟩, -, htype⟩
        · exact .inl fun hn => hn.1 hata
        · exact .inl fun hn => hn.2 hatapi
        · exact .inr htype

/-! ## Any drive -/

/-- **The driver under any drive.**  Whatever the environment answers, `ata_read`, `ata_write` and
`ata_probe_device` are safe.  A read that reports success has moved all words of its sectors, and the last
status it read has no error; a write that reports success has done so before its flush, and the last status
of the flush has no error; a probe that reports a device has moved the 256 words behind a status without
error. -/
theorem ata_any_drive {σ : Type} (h : Handler AtaOp AtaAns σ) (s : σ) (d : Option AtaDrive)
    (lba buffer : BitVec 64) (count : BitVec 8) :
    (Safe d buffer count.toNat (trace h (ataRead d lba buffer count) s) ∧
      (ReportsSuccess (run h (ataRead d lba buffer count) s).1 →
        ∃ channel, d.bind AtaDrive.channel = some channel ∧
          Completed channel.ioBase (256 * count.toNat) (trace h (ataRead d lba buffer count) s))) ∧
    (Safe d buffer count.toNat (trace h (ataWrite d lba buffer count) s) ∧
      (ReportsSuccess (run h (ataWrite d lba buffer count) s).1 →
        ∃ channel, d.bind AtaDrive.channel = some channel ∧ ∃ transfer command rest,
          trace h (ataWrite d lba buffer count) s =
            locked (transfer ++ ⟨.outb (channel.ioBase + ATA_REG_COMMAND) command, ()⟩ :: rest) ∧
          (command = ATA_CMD_FLUSH ∨ command = ATA_CMD_FLUSH_EXT) ∧
          Completed channel.ioBase (256 * count.toNat) transfer ∧ Completed channel.ioBase 0 rest)) ∧
    (Safe d 0 0 (trace h (ataProbeDevice d) s) ∧
      (ReportsDevice (run h (ataProbeDevice d) s).1 →
        ∃ channel, d.bind AtaDrive.channel = some channel ∧
          Completed channel.ioBase 256 (trace h (ataProbeDevice d) s))) := by
  refine ⟨?_, ?_, ataProbeDevice_runs (runs_trace h _ s)⟩
  · obtain ⟨hsafe, hdone⟩ := ataTransfer_runs (fun _ => movesWord_readWord)
      (fun _ _ => asks_pure _) (fun _ _ => within_pure _) (runs_trace h (ataRead d lba buffer count) s)
    refine ⟨hsafe, fun hs => ?_⟩
    obtain ⟨channel, hc, l₁, mode, l₂, hl, hcompleted, hfinish⟩ := hdone hs
    refine ⟨channel, hc, ?_⟩
    rw [hl, hfinish.1, List.append_nil, Completed, dataWords_locked, statuses_locked]
    exact hcompleted
  · obtain ⟨hsafe, hdone⟩ := ataTransfer_runs (fun _ => movesWord_writeWord)
      (fun _ mode => asks_flush mode) (fun _ mode => within_flush mode)
      (runs_trace h (ataWrite d lba buffer count) s)
    refine ⟨hsafe, fun hs => ?_⟩
    obtain ⟨channel, hc, l₁, mode, l₂, hl, hcompleted, hfinish⟩ := hdone hs
    obtain ⟨_, rest, rfl, hsettled⟩ := hfinish
    obtain ⟨p, v, hrest, hv⟩ := settled_true hsettled
    refine ⟨channel, hc, l₁, _, rest, hl, ?_, hcompleted, ?_, ?_⟩
    · cases mode <;> simp
    · exact (Still.of_asks asks_settled hsettled).dataWords
    · rw [hrest]
      exact lastStatus_append hv

end Ata

end Dem64
