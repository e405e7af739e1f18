import Dem64.Ports
import Mathlib.Order.Monotone.Basic

/-!
# The real-time clock

`get_dateAndTime` (`rtc.c`) reads six registers one after another, and the clock may tick between any two of the
twelve port accesses; so it reads them twice, until both readings agree.  `getDateAndTime_reads_clock` says that
this is enough: what it returns is what the clock has shown at one moment, and it returns as soon as the clock is
left alone for two rounds.  The proof needs the seconds only: if they are the same in both readings, and no minute has
passed in between, nothing has changed since the last register of the first reading.

`wait_secs` waits for two ticks in each of its rounds.
-/

set_option autoImplicit false

namespace Dem64

namespace Rtc

open Interaction Interaction.Prog Ports

/-! ## The driver -/

def Seconds : BitVec 8 := 0x00
def Minutes : BitVec 8 := 0x02
def Hours : BitVec 8 := 0x04
def Day : BitVec 8 := 0x07
def Month : BitVec 8 := 0x08
def Year : BitVec 8 := 0x09
def StatusA : BitVec 8 := 0x0a

/-- `rtc_read`. -/
def rtcRead (rtcReg : BitVec 8) : PortM (BitVec 8) := do
  outb 0x70 (rtcReg ||| 0x80)
  inb 0x71

/-- `rtc_data`. -/
structure RtcData where
  year : BitVec 8
  month : BitVec 8
  day : BitVec 8
  hour : BitVec 8
  min : BitVec 8
  sec : BitVec 8
  deriving DecidableEq

/-- The polls left in `while (rtc_read(0x0A) & 0x80);`. -/
def rtcWaitForUpdate : Nat → PortM Bool
  | 0 => pure false
  | polls + 1 => do
    let status ← rtcRead StatusA
    if status &&& 0x80 ≠ 0 then rtcWaitForUpdate polls else pure true

/-- The six reads of a reading. -/
def reading : PortM RtcData := do
  let year ← rtcRead Year
  let month ← rtcRead Month
  let day ← rtcRead Day
  let hour ← rtcRead Hours
  let min ← rtcRead Minutes
  let sec ← rtcRead Seconds
  pure ⟨year, month, day, hour, min, sec⟩

/-- The rounds left in `get_dateAndTime`; `none` is a call that has not returned. -/
def getDateAndTime (polls : Nat) : Nat → PortM (Option RtcData)
  | 0 => pure none
  | rounds + 1 => do
    if ← rtcWaitForUpdate polls then
      let a ← reading
      if ← rtcWaitForUpdate polls then
        let b ← reading
        if a = b then pure (some a) else getDateAndTime polls rounds
      else pure none
    else pure none

/-- The polls left in `while (rtc_read(0x00) == second)`. -/
def waitTick (second : BitVec 8) : Nat → PortM Bool
  | 0 => pure false
  | polls + 1 => do
    let value ← rtcRead Seconds
    if value = second then waitTick second polls else pure true

/-- The rounds of `wait_secs`; `false` is a call that has not returned. -/
def waitRounds (polls : Nat) : Nat → PortM Bool
  | 0 => pure true
  | rounds + 1 => do
    let second ← rtcRead Seconds
    if ← waitTick second polls then
      let second ← rtcRead Seconds
      if ← waitTick second polls then waitRounds polls rounds else pure false
    else pure false

/-- `wait_secs`. -/
def waitSecs (polls : Nat) (count : BitVec 32) : PortM Bool := waitRounds polls count.toInt.toNat

/-! ## The clock -/

/-- The chip.  Time is the number of port accesses so far. -/
structure Clock where
  /-- The ticks until an access. -/
  ticks : Nat → Nat
  monotone : Monotone ticks
  /-- What it shows after so many ticks. -/
  shown : Nat → RtcData
  /-- A tick is a second: the seconds are the same once a minute. -/
  repeats : ∀ k k', (shown k).sec = (shown k').sec → k % 60 = k' % 60
  statusA : Nat → BitVec 8
  /-- The other bytes of its memory. -/
  other : Nat → BitVec 8 → BitVec 8

/-- A register at an access. -/
def Clock.register (c : Clock) (t : Nat) (r : BitVec 8) : BitVec 8 :=
  let data := c.shown (c.ticks t)
  if r = Year then data.year
  else if r = Month then data.month
  else if r = Day then data.day
  else if r = Hours then data.hour
  else if r = Minutes then data.min
  else if r = Seconds then data.sec
  else if r = StatusA then c.statusA t
  else c.other t r

/-- The number of the next access, and the register that port 0x70 selects. -/
structure ClockState where
  time : Nat
  index : BitVec 8

/-- The chip behind its ports. -/
def cmos (c : Clock) : Handler PortOp PortAns ClockState
  | .outb port byte, s => ((), ⟨s.time + 1, if port = 0x70 then byte &&& 0x7F else s.index⟩)
  | .inb port, s => (if port = 0x71 then c.register s.time s.index else 0xFF, ⟨s.time + 1, s.index⟩)

/-- The chip is not in an update. -/
def Clock.Settled (c : Clock) (t : Nat) : Prop := c.statusA t &&& 0x80 = 0

variable {c : Clock} {s s' : ClockState} {polls rounds : Nat} {d : RtcData}

/-! ## The reads -/

theorem run_rtcRead_seconds (s : ClockState) : run (cmos c) (rtcRead Seconds) s =
    ((c.shown (c.ticks (s.time + 1))).sec, ⟨s.time + 2, Seconds⟩) := rfl

theorem run_rtcRead_statusA (s : ClockState) : run (cmos c) (rtcRead StatusA) s =
    (c.statusA (s.time + 1), ⟨s.time + 2, StatusA⟩) := rfl

theorem run_reading (s : ClockState) : run (cmos c) reading s =
    (⟨(c.shown (c.ticks (s.time + 1))).year, (c.shown (c.ticks (s.time + 3))).month,
      (c.shown (c.ticks (s.time + 5))).day, (c.shown (c.ticks (s.time + 7))).hour,
      (c.shown (c.ticks (s.time + 9))).min, (c.shown (c.ticks (s.time + 11))).sec⟩,
      ⟨s.time + 12, Seconds⟩) := rfl

/-- A reading in which nothing changes is what the clock shows. -/
theorem run_reading_of_still {k : Nat} (h : ∀ t, s.time < t → t < s.time + 12 → c.ticks t = k) :
    (run (cmos c) reading s).1 = c.shown k := by
  rw [run_reading, h (s.time + 1) (by omega) (by omega), h (s.time + 3) (by omega) (by omega),
    h (s.time + 5) (by omega) (by omega), h (s.time + 7) (by omega) (by omega),
    h (s.time + 9) (by omega) (by omega), h (s.time + 11) (by omega) (by omega)]

/-- Time goes on. -/
theorem run_time {α : Type} (p : PortM α) (s : ClockState) : s.time ≤ (run (cmos c) p s).2.time := by
  refine run_rel _ (R := fun s s' : ClockState => s.time ≤ s'.time) (fun _ => le_rfl) (fun h h' => h.trans h')
    (fun o s => ?_) p s
  cases o with
  | outb port byte => exact Nat.le_succ _
  | inb port => exact Nat.le_succ _

/-- The chip is left alone for sixty accesses, from `T` on: time for two rounds. -/
structure Clock.Quiet (c : Clock) (T : Nat) : Prop where
  settled : ∀ t, T ≤ t → t < T + 60 → c.statusA t &&& 0x80 = 0
  still : ∀ t, T ≤ t → t < T + 60 → c.ticks t = c.ticks T

/-- The wait for the end of an update ends behind its first poll in the quiet time. -/
theorem run_rtcWaitForUpdate {T : Nat} (hquiet : c.Quiet T) (hlate : s.time < T + 58)
    (hpolls : T - s.time < polls) :
    ∃ u, run (cmos c) (rtcWaitForUpdate polls) s = (true, ⟨u, StatusA⟩) ∧ s.time + 2 ≤ u ∧
      (u ≤ T + 3 ∨ u = s.time + 2) := by
  induction polls generalizing s with
  | zero => omega
  | succ polls ih =>
    rw [rtcWaitForUpdate, run_bind, run_rtcRead_statusA]
    dsimp only
    split
    · next hbusy =>
      have hearly : s.time + 1 < T := by
        by_contra hge
        exact hbusy (hquiet.settled _ (by omega) (by omega))
      obtain ⟨u, hrun, hle, hu⟩ := ih (s := ⟨s.time + 2, StatusA⟩) (by dsimp only; omega) (by dsimp only; omega)
      dsimp only at hle hu
      exact ⟨u, hrun, by omega, .inl (by omega)⟩
    · exact ⟨s.time + 2, rfl, le_rfl, .inr rfl⟩

/-! ## The double reading -/

/-- **The same seconds in less than a minute**: there was no tick. -/
theorem Clock.still_of_sec {t t' : Nat} (hle : t ≤ t') (hminute : c.ticks t' < c.ticks t + 60)
    (hsec : (c.shown (c.ticks t)).sec = (c.shown (c.ticks t')).sec) : c.ticks t' = c.ticks t := by
  have hmono := c.monotone hle
  have hmod := c.repeats _ _ hsec
  omega

/-- **Two readings that agree are what the clock shows** when the second one starts. -/
theorem reading_of_eq {u v : ClockState} (huv : u.time + 12 ≤ v.time)
    (hminute : c.ticks (v.time + 11) < c.ticks (u.time + 11) + 60)
    (heq : (run (cmos c) reading u).1 = (run (cmos c) reading v).1) :
    (run (cmos c) reading u).1 = c.shown (c.ticks v.time) := by
  have hsec := congrArg RtcData.sec heq
  rw [run_reading, run_reading] at hsec
  have hstill := c.still_of_sec (by omega) hminute hsec
  rw [heq]
  refine run_reading_of_still fun t h₁ h₂ => ?_
  -- there is no tick from the last read of the first reading on
  have hle := c.monotone (show v.time ≤ t by omega)
  have hge := c.monotone (show u.time + 11 ≤ v.time by omega)
  have hend := c.monotone (show t ≤ v.time + 11 by omega)
  omega

/-- A call that returns in less than a minute returns what the clock has shown. -/
theorem getDateAndTime_snapshot (h : run (cmos c) (getDateAndTime polls rounds) s = (some d, s'))
    (hminute : c.ticks s'.time < c.ticks s.time + 60) :
    ∃ t, s.time ≤ t ∧ t < s'.time ∧ d = c.shown (c.ticks t) := by
  induction rounds generalizing s with
  | zero => exact absurd (congrArg Prod.fst h) (by simp [getDateAndTime])
  | succ rounds ih =>
    rw [getDateAndTime, run_bind] at h
    have ht₁ := run_time (c := c) (rtcWaitForUpdate polls) s
    split at h
    · rw [run_bind] at h
      generalize (run (cmos c) (rtcWaitForUpdate polls) s).2 = u at h ht₁
      rw [run_bind] at h
      have ht₂ := run_time (c := c) (rtcWaitForUpdate polls) (run (cmos c) reading u).2
      have hu : (run (cmos c) reading u).2.time = u.time + 12 := rfl
      split at h
      · generalize (run (cmos c) (rtcWaitForUpdate polls) (run (cmos c) reading u).2).2 = v at h ht₂
        rw [run_bind] at h
        have hv : (run (cmos c) reading v).2.time = v.time + 12 := rfl
        have hs' : (run (cmos c) reading v).2.time ≤ s'.time := by
          have hrun := congrArg Prod.snd h
          dsimp only at hrun
          rw [← hrun]
          exact run_time _ _
        have hfirst := c.monotone (show s.time ≤ u.time + 11 by omega)
        have hlast := c.monotone (show v.time + 11 ≤ s'.time by omega)
        split at h
        · next heq =>
          obtain ⟨hd, rfl⟩ := Prod.mk.inj h
          have hread := reading_of_eq (by omega) (by omega) heq
          rw [Option.some_inj.mp hd] at hread
          exact ⟨v.time, by omega, by omega, hread⟩
        · -- a round that finds a difference is followed by another one
          have hnext := c.monotone (show s.time ≤ (run (cmos c) reading v).2.time by omega)
          obtain ⟨t, h₁, h₂, hd⟩ := ih h (by omega)
          exact ⟨t, by omega, h₂, hd⟩
      · exact absurd (congrArg Prod.fst h) (by simp)
    · exact absurd (congrArg Prod.fst h) (by simp)

/-- **A quiet time is enough to return.** -/
theorem getDateAndTime_returns {T : Nat} (hquiet : c.Quiet T) (hlate : s.time ≤ T + 29)
    (hpolls : T - s.time < polls) (hrounds : T - s.time < rounds) :
    ∃ d s', run (cmos c) (getDateAndTime polls rounds) s = (some d, s') ∧ s'.time ≤ T + 60 := by
  induction rounds generalizing s with
  | zero => omega
  | succ rounds ih =>
    obtain ⟨u, hrun, hu, hu'⟩ := run_rtcWaitForUpdate hquiet (by omega) hpolls
    have hread : (run (cmos c) reading ⟨u, StatusA⟩).2 = ⟨u + 12, Seconds⟩ := rfl
    obtain ⟨v, hrun', hv, hv'⟩ := run_rtcWaitForUpdate (s := ⟨u + 12, Seconds⟩) hquiet
      (by dsimp only; omega) (show T - (u + 12) < polls by omega)
    dsimp only at hv hv'
    rw [getDateAndTime, run_bind, hrun, if_pos rfl, run_bind, run_bind, hread, hrun', if_pos rfl, run_bind]
    split
    · exact ⟨_, _, rfl, show v + 12 ≤ T + 60 by omega⟩
    · next hne =>
      -- a round in the quiet time finds no difference
      have hearly : s.time < T := by
        by_contra hge
        have hstill : ∀ t, u < t → t < v + 12 → c.ticks t = c.ticks T := fun t h₁ h₂ =>
          hquiet.still t (by omega) (by omega)
        refine hne ?_
        rw [run_reading_of_still (k := c.ticks T) fun t h₁ h₂ => hstill t h₁ (by dsimp only at h₂; omega),
          run_reading_of_still (k := c.ticks T) fun t h₁ h₂ => hstill t (by dsimp only at h₁; omega) h₂]
      have hnext : (run (cmos c) reading ⟨v, StatusA⟩).2 = ⟨v + 12, Seconds⟩ := rfl
      rw [hnext]
      exact ih (by dsimp only; omega) (by dsimp only; omega) (by dsimp only; omega)

/-- **`get_dateAndTime` reads the clock.**  Wherever the ticks fall between its accesses, it returns as soon as the
chip is left alone for two rounds, and what it returns is what the clock has shown at one moment of the call, if the
call has taken less than a minute. -/
theorem getDateAndTime_reads_clock {T : Nat} (hquiet : c.Quiet T) (hlate : s.time ≤ T + 29) :
    ∃ N, ∀ polls rounds, N ≤ polls → N ≤ rounds → ∃ d s',
      run (cmos c) (getDateAndTime polls rounds) s = (some d, s') ∧ s'.time ≤ T + 60 ∧
      (c.ticks s'.time < c.ticks s.time + 60 →
        ∃ t, s.time ≤ t ∧ t < s'.time ∧ d = c.shown (c.ticks t)) := by
  refine ⟨T + 1, fun polls rounds hpolls hrounds => ?_⟩
  obtain ⟨d, s', hrun, hend⟩ := getDateAndTime_returns hquiet hlate (show T - s.time < polls by omega)
    (show T - s.time < rounds by omega)
  exact ⟨d, s', hrun, hend, getDateAndTime_snapshot hrun⟩

/-- A clock that ticks every two hundred accesses, and shows the seconds only. -/
def plainClock : Clock where
  ticks t := t / 200
  monotone _ _ h := Nat.div_le_div_right h
  shown k := ⟨0, 1, 1, 0, 0, BitVec.ofNat 8 (k % 60)⟩
  repeats k k' h := by
    have hsec := congrArg BitVec.toNat (show BitVec.ofNat 8 (k % 60) = BitVec.ofNat 8 (k' % 60) from h)
    simp only [BitVec.toNat_ofNat] at hsec
    omega
  statusA _ := 0x26
  other _ _ := 0

/-- A call that starts three accesses before a tick. -/
theorem getDateAndTime_reads_plainClock : ∃ N, ∀ polls rounds, N ≤ polls → N ≤ rounds → ∃ d s',
    run (cmos plainClock) (getDateAndTime polls rounds) ⟨197, 0⟩ = (some d, s') ∧ s'.time ≤ 200 + 60 ∧
    (plainClock.ticks s'.time < plainClock.ticks 197 + 60 →
      ∃ t, 197 ≤ t ∧ t < s'.time ∧ d = plainClock.shown (plainClock.ticks t)) :=
  getDateAndTime_reads_clock (s := ⟨197, 0⟩)
    ⟨fun _ _ _ => show (0x26 : BitVec 8) &&& 0x80 = 0 by decide, fun t h₁ h₂ => show t / 200 = 200 / 200 by omega⟩ (by decide)

/-! ## The wait for ticks -/

/-- The clock goes on, and ticks are ten accesses apart. -/
structure Clock.Ticks (c : Clock) : Prop where
  apart : ∀ t, c.ticks (t + 10) ≤ c.ticks t + 1
  goes : ∀ k, ∃ t, k < c.ticks t

/-- **A wait for a tick ends with the first read behind it.**  The access `t` has shown the seconds of `k` ticks. -/
theorem run_waitTick (hc : c.Ticks) {t k T : Nat} {i : BitVec 8} (hk : c.ticks t = k) (hT : k < c.ticks T)
    (hpolls : T < t + polls) :
    ∃ u, run (cmos c) (waitTick (c.shown k).sec polls) ⟨t + 1, i⟩ = (true, ⟨u + 3, Seconds⟩) ∧
      c.ticks u = k ∧ c.ticks (u + 2) = k + 1 := by
  induction polls generalizing t i with
  | zero =>
    have hmono := c.monotone (show T ≤ t by omega)
    omega
  | succ polls ih =>
    have hmono := c.monotone (show t ≤ t + 2 by omega)
    have hnear := c.monotone (show t + 2 ≤ t + 10 by omega)
    have hapart := hc.apart t
    rw [waitTick, run_bind, run_rtcRead_seconds]
    dsimp only
    split
    · next heq =>
      have hmod : c.ticks (t + 2) % 60 = k % 60 := c.repeats _ _ heq
      have hstill : c.ticks (t + 2) = k := by omega
      exact ih (t := t + 2) hstill (by omega)
    · next hne =>
      have htick : c.ticks (t + 2) ≠ k := fun h => hne (by rw [h])
      exact ⟨t, rfl, hk, by omega⟩

/-- **A round lasts two ticks.**  Its first access shows the seconds of `k` ticks. -/
theorem run_waitRound (hc : c.Ticks) {k T : Nat} (hk : c.ticks (s.time + 1) = k) (hT : k + 1 < c.ticks T)
    (hpolls : T < polls) :
    ∃ u, run (cmos c) (waitRounds polls (rounds + 1)) s = run (cmos c) (waitRounds polls rounds) ⟨u + 3, Seconds⟩ ∧
      c.ticks (u + 2) = k + 2 ∧ c.ticks (u + 4) = k + 2 := by
  obtain ⟨u, hrun, hu, hu'⟩ := run_waitTick (i := Seconds) hc hk (show k < c.ticks T by omega)
    (show T < s.time + 1 + polls by omega)
  -- the second read behind a tick shows what the tick has brought
  have hnext : c.ticks (u + 4) = k + 1 := by
    have hle := c.monotone (show u + 2 ≤ u + 4 by omega)
    have hge := c.monotone (show u + 4 ≤ u + 10 by omega)
    have hapart := hc.apart u
    omega
  obtain ⟨v, hrun', hv, hv'⟩ := run_waitTick (i := Seconds) hc hnext (show k + 1 < c.ticks T by omega)
    (show T < u + 4 + polls by omega)
  refine ⟨v, ?_, hv', ?_⟩
  · rw [waitRounds, run_bind, run_rtcRead_seconds]
    dsimp only
    rw [hk, run_bind, hrun, if_pos rfl, run_bind, run_rtcRead_seconds]
    dsimp only
    rw [hnext, run_bind, hrun', if_pos rfl]
  · have hle := c.monotone (show v + 2 ≤ v + 4 by omega)
    have hge := c.monotone (show v + 4 ≤ v + 10 by omega)
    have hapart := hc.apart v
    omega

theorem run_waitRounds (hc : c.Ticks) {k T : Nat} (hk : c.ticks (s.time + 1) = k)
    (hT : k + 2 * rounds + 1 < c.ticks T) (hpolls : T < polls) :
    ∃ u, run (cmos c) (waitRounds polls (rounds + 1)) s = (true, ⟨u + 3, Seconds⟩) ∧
      c.ticks (u + 2) = k + 2 * (rounds + 1) := by
  induction rounds generalizing s k with
  | zero =>
    obtain ⟨u, hrun, hu, -⟩ := run_waitRound hc hk hT hpolls
    exact ⟨u, hrun, hu⟩
  | succ rounds ih =>
    obtain ⟨u, hrun, -, hu⟩ := run_waitRound hc hk (show k + 1 < c.ticks T by omega) hpolls
    obtain ⟨v, hrun', hv⟩ := ih (s := ⟨u + 3, Seconds⟩) hu (by omega)
    exact ⟨v, hrun.trans hrun', by omega⟩

/-- **`wait_secs` waits for twice as many ticks as it is told to**: from its first read of the seconds to its last one
there are `2 * count` of them.  A count that is not positive returns at once. -/
theorem waitSecs_ticks (hc : c.Ticks) (count : BitVec 32) (s : ClockState) :
    ∃ N, ∀ polls, N ≤ polls → ∃ s', run (cmos c) (waitSecs polls count) s = (true, s') ∧
      if 0 < count.toInt then c.ticks (s'.time - 1) = c.ticks (s.time + 1) + 2 * count.toInt.toNat else s' = s := by
  obtain ⟨T, hT⟩ := hc.goes (c.ticks (s.time + 1) + 2 * count.toInt.toNat)
  refine ⟨T + 1, fun polls hpolls => ?_⟩
  rw [waitSecs]
  cases hcount : count.toInt.toNat with
  | zero => exact ⟨s, rfl, by rw [if_neg (by omega)]⟩
  | succ rounds =>
    have hlast : c.ticks (s.time + 1) + 2 * rounds + 1 < c.ticks T := by
      rw [hcount] at hT
      omega
    obtain ⟨u, hrun, hu⟩ := run_waitRounds hc rfl hlast (show T < polls by omega)
    refine ⟨_, hrun, ?_⟩
    rw [if_pos (by omega)]
    exact hu

/-- On the plain clock, a wait for one second ends with the second tick. -/
theorem waitSecs_ticks_plainClock : ∃ N, ∀ polls, N ≤ polls → ∃ s',
    run (cmos plainClock) (waitSecs polls 1) ⟨0, 0⟩ = (true, s') ∧
      if 0 < (1 : BitVec 32).toInt then
        plainClock.ticks (s'.time - 1) = plainClock.ticks 1 + 2 * (1 : BitVec 32).toInt.toNat
      else s' = ⟨0, 0⟩ :=
  waitSecs_ticks ⟨fun t => show (t + 10) / 200 ≤ t / 200 + 1 by omega,
    fun k => ⟨200 * (k + 1), show k < 200 * (k + 1) / 200 by omega⟩⟩ 1 ⟨0, 0⟩

end Rtc

end Dem64
