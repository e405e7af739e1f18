import Dem64.Lib.WrapCounter
import Dem64.Usb.Event
import Mathlib.Algebra.Order.Floor.Div
import Mathlib.GroupTheory.GroupAction.Ring

/-!
# Waiting by the timer

`wait_ms`, and `wait_register` and `wait_command` of the xHCI driver, read the timer in a loop, keep its 24 low bits,
and add up the differences.  They are one loop (`waitLoop`) with different tests.

A call is a function of the number of tests it has made so far: it says what the call has returned, if it has, and
what its local variables are.  The timer is the sequence of what its readings return.
-/

set_option autoImplicit false

namespace Dem64

open WrapCounter

/-- The local variables of a wait, and the number of readings after the first one. -/
structure WaitLocals where
  rounds : Nat
  previous : BitVec 32
  elapsed : Nat

/-- A call that has made some tests. -/
structure Waiting (α : Type) where
  /-- What it has returned. -/
  returned : Option α
  /-- Its local variables, from the first reading on. -/
  locals : Option WaitLocals

/-- `(u32)timer.read() & 0x00ffffff`, the reading `k` of the call. -/
def readCounter (timer : Nat → BitVec 64) (k : Nat) : BitVec 32 := (timer k).setWidth 32 &&& 0x00ffffff

namespace WaitLocals

/-- The first reading. -/
def start (timer : Nat → BitVec 64) : WaitLocals := ⟨0, readCounter timer 0, 0⟩

/-- `elapsed += (now - previous) & 0x00ffffff; previous = now;` -/
def next (timer : Nat → BitVec 64) (s : WaitLocals) : WaitLocals :=
  let now := readCounter timer (s.rounds + 1)
  ⟨s.rounds + 1, now, (s.elapsed + ((now - s.previous) &&& 0x00ffffff).toNat) % 2 ^ 64⟩

end WaitLocals

/-- `while (elapsed < target)`: in each round there may be something to return, else the timer is read. -/
def waitLoop {α : Type} (timer : Nat → BitVec 64) (target : Nat) (found : Nat → Option α) (expired : α) :
    Nat → WaitLocals → Waiting α
  | 0, s => ⟨none, some s⟩
  | n + 1, s =>
    if s.elapsed < target then
      match found s.rounds with
      | some a => ⟨some a, some s⟩
      | none => waitLoop timer target found expired n (s.next timer)
    else ⟨some expired, some s⟩

/-- `(frequency * ms + 999) / 1000`. -/
def waitTarget (frequency ms : Nat) : Nat := (frequency * ms + 999) % 2 ^ 64 / 1000

/-- `wait_ms`. -/
def waitMs (timer : Nat → BitVec 64) (frequency ms : Nat) (n : Nat) : Waiting Unit :=
  waitLoop timer (waitTarget frequency ms) (fun _ => none) () n (.start timer)

/-- `wait_register`, where `reg` is what the register shows in each round. -/
def waitRegister (timer : Nat → BitVec 64) (frequency : Nat) (reg : Nat → BitVec 32) (mask : BitVec 32)
    (wantSet : Bool) (timeoutMs : BitVec 32) (n : Nat) : Waiting Bool :=
  if frequency = 0 then ⟨some false, none⟩
  else
    waitLoop timer (waitTarget frequency timeoutMs.toNat)
      (fun k =>
        let value := reg k
        if (if wantSet then value &&& mask = mask else value &&& mask = 0) then some true else none)
      false n (.start timer)

/-- `xhci_controller::wait_command`, where `completion` is what the events of each round bring; `none` is the result
`false`. -/
def waitCommand (timer : Nat → BitVec 64) (frequency : Nat) (completion : Nat → Option XhciTrb)
    (timeoutMs : BitVec 32) (n : Nat) : Waiting (Option XhciTrb) :=
  if frequency = 0 then ⟨some none, none⟩
  else
    waitLoop timer (waitTarget frequency timeoutMs.toNat) (fun k => (completion k).map some) none n (.start timer)

/-! ## The ticks a wait counts -/

variable {α : Type} {timer : Nat → BitVec 64} {ticks : Nat → Nat} {target n : Nat} {found : Nat → Option α}
  {expired : α} {s s' : WaitLocals}

/-- The 24 low bits of the timer count ticks; readings in a row are less than a wrap apart. -/
def TimerCounts (timer : Nat → BitVec 64) (ticks : Nat → Nat) : Prop :=
  Counts 24 (fun k => (timer k).toNat % 2 ^ 24) ticks

theorem toNat_readCounter (k : Nat) : (readCounter timer k).toNat = (timer k).toNat % 2 ^ 24 := by
  have hmask : (0x00ffffff : BitVec 32).toNat = 2 ^ 24 - 1 := by decide
  rw [readCounter, BitVec.toNat_and, hmask, Nat.and_two_pow_sub_one_eq_mod, BitVec.toNat_setWidth,
    Nat.mod_mod_of_dvd _ (by decide)]

/-- `elapsed` is the number of ticks since the first reading. -/
structure WaitLocals.Exact (timer : Nat → BitVec 64) (ticks : Nat → Nat) (s : WaitLocals) : Prop where
  previous : s.previous = readCounter timer s.rounds
  elapsed : s.elapsed = ticks s.rounds - ticks 0

theorem waitTarget_le (frequency ms : Nat) : waitTarget frequency ms ≤ 2 ^ 64 / 1000 := by
  rw [waitTarget]
  omega

theorem WaitLocals.Exact.start : (WaitLocals.start timer).Exact timer ticks := ⟨rfl, (Nat.sub_self _).symm⟩

/-- **A round adds the ticks between two readings.** -/
theorem WaitLocals.Exact.next (h : TimerCounts timer ticks) (hs : s.Exact timer ticks)
    (hlt : s.elapsed < 2 ^ 64 / 1000) : (s.next timer).Exact timer ticks := by
  have hstep : ((readCounter timer (s.rounds + 1) - s.previous) &&& 0x00ffffff).toNat =
      ticks (s.rounds + 1) - ticks s.rounds := by
    have hread : ∀ k, (readCounter timer k).toNat < 2 ^ 24 := by
      intro k
      rw [toNat_readCounter]
      exact Nat.mod_lt _ (by decide)
    have hsub := toNat_sub_and (n := 32) (w := 24) (by decide) (readCounter timer (s.rounds + 1))
      (readCounter timer s.rounds) (hread s.rounds)
    rw [toNat_readCounter, toNat_readCounter, Counts.step h] at hsub
    rw [hs.previous]
    exact hsub
  have h0 := Counts.le_of_le h (Nat.zero_le s.rounds)
  have h1 := Counts.mono h s.rounds
  have h2 := Counts.near h s.rounds
  refine ⟨rfl, ?_⟩
  show (s.elapsed + ((readCounter timer (s.rounds + 1) - s.previous) &&& 0x00ffffff).toNat) % 2 ^ 64 =
    ticks (s.rounds + 1) - ticks 0
  rw [hstep, hs.elapsed, Nat.mod_eq_of_lt]
  · omega
  · have := hs.elapsed
    omega

/-- The local variables stay exact in the loop. -/
theorem waitLoop_exact (h : TimerCounts timer ticks) (ht : target ≤ 2 ^ 64 / 1000) (hs : s.Exact timer ticks)
    (hs' : (waitLoop timer target found expired n s).locals = some s') : s'.Exact timer ticks := by
  induction n generalizing s with
  | zero =>
    obtain rfl := Option.some.inj hs'
    exact hs
  | succ n ih =>
    rw [waitLoop] at hs'
    split at hs'
    next hlt =>
      split at hs'
      · obtain rfl := Option.some.inj hs'
        exact hs
      · exact ih (hs.next h (by omega)) hs'
    next =>
      obtain rfl := Option.some.inj hs'
      exact hs

/-! ## When a wait returns -/

/-- Reading `r` is where the wait ends, with the result `a`: there is something to return, or the time is over. -/
def EndsAt (ticks : Nat → Nat) (target : Nat) (found : Nat → Option α) (expired : α) (r : Nat) (a : α) : Prop :=
  target ≤ ticks r - ticks 0 ∧ a = expired ∨ ticks r - ticks 0 < target ∧ found r = some a

/-- Reading `k` is where the wait goes on. -/
def GoesOn (ticks : Nat → Nat) (target : Nat) (found : Nat → Option α) (k : Nat) : Prop :=
  ticks k - ticks 0 < target ∧ found k = none

theorem EndsAt.not_goesOn {r : Nat} {a : α} (h : EndsAt ticks target found expired r a) :
    ¬ GoesOn ticks target found r := by
  rintro ⟨hlt, hnone⟩
  rcases h with ⟨hle, -⟩ | ⟨-, hsome⟩
  · omega
  · rw [hnone] at hsome
    cases hsome

/-- A loop that ends at once. -/
theorem returned_iff_of_ends {w : Waiting α} {b : α} (hw : w = ⟨some b, some s⟩)
    (hb : ∀ a, EndsAt ticks target found expired s.rounds a ↔ a = b) {r : Nat} {a : α} :
    (∃ s', w = ⟨some a, some s'⟩ ∧ s'.rounds = r) ↔
      s.rounds ≤ r ∧ r < s.rounds + (n + 1) ∧
        (∀ k, s.rounds ≤ k → k < r → GoesOn ticks target found k) ∧ EndsAt ticks target found expired r a := by
  subst hw
  constructor
  · rintro ⟨s', heq, rfl⟩
    obtain ⟨rfl, rfl⟩ : b = a ∧ s = s' := by simpa using heq
    exact ⟨Nat.le_refl _, by omega, fun k h1 h2 => absurd h2 (by omega), (hb b).mpr rfl⟩
  · rintro ⟨hle, -, hgo, hend⟩
    have hr : s.rounds = r := by
      rcases Nat.eq_or_lt_of_le hle with heq | hlt
      · exact heq
      · exact absurd (hgo s.rounds (Nat.le_refl _) hlt) (EndsAt.not_goesOn ((hb b).mpr rfl))
    subst hr
    exact ⟨s, by rw [(hb a).mp hend], rfl⟩

/-- **A wait ends at the first reading that ends it, by the true ticks.** -/
theorem waitLoop_returned_iff (h : TimerCounts timer ticks) (ht : target ≤ 2 ^ 64 / 1000)
    (hs : s.Exact timer ticks) {r : Nat} {a : α} :
    (∃ s', waitLoop timer target found expired n s = ⟨some a, some s'⟩ ∧ s'.rounds = r) ↔
      s.rounds ≤ r ∧ r < s.rounds + n ∧ (∀ k, s.rounds ≤ k → k < r → GoesOn ticks target found k) ∧
        EndsAt ticks target found expired r a := by
  induction n generalizing s with
  | zero =>
    constructor
    · rintro ⟨s', heq, -⟩
      cases heq
    · rintro ⟨h1, h2, -⟩
      omega
  | succ n ih =>
    by_cases hlt : s.elapsed < target
    · have hticks : ticks s.rounds - ticks 0 < target := hs.elapsed ▸ hlt
      cases hf : found s.rounds with
      | some b =>
        refine returned_iff_of_ends (b := b) (by rw [waitLoop, if_pos hlt, hf]) fun a => ?_
        rw [EndsAt, hf, Option.some_inj]
        constructor
        · rintro (⟨hle, -⟩ | ⟨-, heq⟩)
          · omega
          · exact heq.symm
        · exact fun heq => .inr ⟨hticks, heq.symm⟩
      | none =>
        have hnext := ih (hs.next h (by omega))
        have hrounds : (s.next timer).rounds = s.rounds + 1 := rfl
        have hgoes : GoesOn ticks target found s.rounds := ⟨hticks, hf⟩
        have hloop : waitLoop timer target found expired (n + 1) s =
            waitLoop timer target found expired n (s.next timer) := by rw [waitLoop, if_pos hlt, hf]
        rw [hloop, hnext, hrounds]
        constructor
        · rintro ⟨hle, hr, hgo, hend⟩
          refine ⟨by omega, by omega, fun k h1 h2 => ?_, hend⟩
          rcases Nat.eq_or_lt_of_le h1 with rfl | h1
          · exact hgoes
          · exact hgo k h1 h2
        · rintro ⟨hle, hr, hgo, hend⟩
          have hne : s.rounds ≠ r := by
            rintro rfl
            exact hend.not_goesOn hgoes
          exact ⟨by omega, by omega, fun k h1 h2 => hgo k (by omega) h2, hend⟩
    · have hticks : target ≤ ticks s.rounds - ticks 0 := by
        have := hs.elapsed
        omega
      refine returned_iff_of_ends (b := expired) (by rw [waitLoop, if_neg hlt]) fun a => ?_
      constructor
      · rintro (⟨-, heq⟩ | ⟨hlt', -⟩)
        · exact heq
        · omega
      · exact fun heq => .inl ⟨hticks, heq⟩

/-! ## The three waits -/

theorem waitRegister_exact (h : TimerCounts timer ticks) {frequency : Nat} {reg : Nat → BitVec 32}
    {mask timeoutMs : BitVec 32} {wantSet : Bool}
    (hs : (waitRegister timer frequency reg mask wantSet timeoutMs n).locals = some s) : s.Exact timer ticks := by
  rw [waitRegister] at hs
  split at hs
  · cases hs
  · exact waitLoop_exact h (waitTarget_le _ _) .start hs

theorem waitCommand_exact (h : TimerCounts timer ticks) {frequency : Nat}
    {completion : Nat → Option XhciTrb} {timeoutMs : BitVec 32}
    (hs : (waitCommand timer frequency completion timeoutMs n).locals = some s) : s.Exact timer ticks := by
  rw [waitCommand] at hs
  split at hs
  · cases hs
  · exact waitLoop_exact h (waitTarget_le _ _) .start hs

theorem waitTarget_eq {frequency ms : Nat} (hlt : frequency * ms + 999 < 2 ^ 64) :
    waitTarget frequency ms = (frequency * ms) ⌈/⌉ 1000 := by
  rw [waitTarget, Nat.mod_eq_of_lt hlt, Nat.ceilDiv_eq_add_pred_div]
  rfl

/-- `wait_ms` returns at the first reading that shows enough ticks. -/
theorem waitMs_returned_iff (h : TimerCounts timer ticks) {frequency ms r : Nat}
    (hlt : frequency * ms + 999 < 2 ^ 64) :
    (∃ s, waitMs timer frequency ms n = ⟨some (), some s⟩ ∧ s.rounds = r) ↔
      r < n ∧ (frequency * ms) ⌈/⌉ 1000 ≤ ticks r - ticks 0 ∧
        ∀ k, k < r → ticks k - ticks 0 < (frequency * ms) ⌈/⌉ 1000 := by
  have hstart : (WaitLocals.start timer).rounds = 0 := rfl
  rw [waitMs, waitLoop_returned_iff h (waitTarget_le _ _) .start, hstart, waitTarget_eq hlt]
  constructor
  · rintro ⟨-, hr, hgo, hend⟩
    refine ⟨by omega, ?_, fun k hk => (hgo k (Nat.zero_le k) hk).1⟩
    rcases hend with ⟨hle, -⟩ | ⟨-, hfound⟩
    · exact hle
    · cases hfound
  · rintro ⟨hr, hle, hgo⟩
    exact ⟨Nat.zero_le r, by omega, fun k _ hk => ⟨hgo k hk, rfl⟩, .inl ⟨hle, rfl⟩⟩

/-- **The waits count every tick, over any number of wraps; `wait_ms` returns when there are enough of them, and not
before.** -/
theorem waits_exact (h : TimerCounts timer ticks) :
    (∀ frequency ms n s, (waitMs timer frequency ms n).locals = some s → s.elapsed = ticks s.rounds - ticks 0) ∧
    (∀ frequency reg mask wantSet timeoutMs n s,
      (waitRegister timer frequency reg mask wantSet timeoutMs n).locals = some s →
        s.elapsed = ticks s.rounds - ticks 0) ∧
    (∀ frequency completion timeoutMs n s,
      (waitCommand timer frequency completion timeoutMs n).locals = some s →
        s.elapsed = ticks s.rounds - ticks 0) ∧
    ∀ frequency ms, frequency * ms + 999 < 2 ^ 64 → ∀ n r,
      (∃ s, waitMs timer frequency ms n = ⟨some (), some s⟩ ∧ s.rounds = r) ↔
        r < n ∧ (frequency * ms) ⌈/⌉ 1000 ≤ ticks r - ticks 0 ∧
          ∀ k, k < r → ticks k - ticks 0 < (frequency * ms) ⌈/⌉ 1000 := by
  refine ⟨fun frequency ms n s hs => ?_, ?_, ?_, ?_⟩
  · exact (waitLoop_exact h (waitTarget_le _ _) .start hs).elapsed
  · exact fun frequency reg mask wantSet timeoutMs n s hs => (waitRegister_exact h hs).elapsed
  · exact fun frequency completion timeoutMs n s hs => (waitCommand_exact h hs).elapsed
  · exact fun frequency ms hlt n r => waitMs_returned_iff h hlt

/-- A timer that is read just before it has wrapped once more. -/
def slowTimer (k : Nat) : BitVec 64 := BitVec.ofNat 64 (k * 0xFFFFFF)

theorem slowTimer_counts : TimerCounts slowTimer fun k => k * 0xFFFFFF := by
  refine ⟨fun k => ?_, fun k => ?_, fun k => ?_⟩
  · show (BitVec.ofNat 64 (k * 0xFFFFFF)).toNat % 2 ^ 24 = k * 0xFFFFFF % 2 ^ 24
    rw [BitVec.toNat_ofNat, Nat.mod_mod_of_dvd _ (by decide)]
  · omega
  · omega

/-- On that timer ten seconds of the PM timer are over at the third reading after the first one. -/
theorem waitMs_slowTimer : ∃ s, waitMs slowTimer 3579545 10000 4 = ⟨some (), some s⟩ ∧ s.rounds = 3 := by
  refine ((waits_exact slowTimer_counts).2.2.2 3579545 10000 (by decide) 4 3).mpr ⟨by decide, by decide, ?_⟩
  intro k hk
  rw [Nat.ceilDiv_eq_add_pred_div]
  omega

end Dem64
