import Dem64.Dma.World
import Dem64.Lib.WrapCounter
import Dem64.Uhci.Driver

/-!
# `controller_init` of the UHCI driver

The call halts the controller, resets it and starts it, and after each of these commands it polls a register for ten
milliseconds (`pollLoop`): it goes on while `timer.read() - start < duration`, with 64-bit numbers, although the timer
shows 24 or 32 bits.

* `pollLoop_exact_iff` says when a loop is right about the time, in ticks.
* `controllerInit_exact_iff` says it of the whole call.

The timer and the registers are sequences: the reading `k` of the timer in the call, and what the register shows after
it.  Of each loop the result is in the log, and `n` bounds the number of its tests.  The entries of the frame list are
left out.
-/

set_option autoImplicit false

namespace Dem64.Uhci

/-! ## The call -/

/-- `UHCI_CMD_RS`. -/
def uhciCmdRs : BitVec 16 := 0x0001

/-- `UHCI_CMD_HCRESET`. -/
def uhciCmdHcreset : BitVec 16 := 0x0002

/-- The registers that are written, by their offsets. -/
inductive InitWrite
  | outw (register : Nat) (value : BitVec 16)
  | outl (register : Nat) (value : BitVec 32)
deriving DecidableEq

/-- What a call meets. -/
structure InitInputs where
  /-- `timer.read()`. -/
  timer : Nat → BitVec 64
  /-- `timer.read_freq()`. -/
  frequency : BitVec 64
  /-- USBSTS after each reading. -/
  usbsts : Nat → BitVec 16
  /-- USBCMD after each reading. -/
  usbcmd : Nat → BitVec 16
  /-- The frame list. -/
  ret : DmaRet

/-- `duration`. -/
def InitInputs.duration (i : InitInputs) : BitVec 64 := i.frequency / 100

/-- A polling loop. -/
structure PollRun where
  /-- The reading `start`. -/
  start : Nat
  /-- The last reading, or the next one if the loop goes on. -/
  last : Nat
  /-- The register was ready, or the time was over. -/
  outcome : Option Bool
deriving DecidableEq

/-- `while (timer.read() - start < duration) if (ready) …`, from the reading `k` on. -/
def pollLoop (timer : Nat → BitVec 64) (duration : BitVec 64) (ready : Nat → Bool) (start : Nat) :
    Nat → Nat → PollRun
  | 0, k => ⟨start, k, none⟩
  | n + 1, k =>
    if timer k - timer start < duration then
      if ready k then ⟨start, k, some true⟩ else pollLoop timer duration ready start n (k + 1)
    else ⟨start, k, some false⟩

/-- A call that has made `n` tests at most in each loop. -/
structure InitRun where
  writes : List InitWrite
  polls : List PollRun
  /-- What the call returns. -/
  result : Option Nat

namespace InitInputs

/-- The loop that waits for the halt. -/
def haltReady (i : InitInputs) (k : Nat) : Bool := i.usbsts k &&& uhciStsHch != 0

/-- The loop that waits for the end of the reset. -/
def resetReady (i : InitInputs) (k : Nat) : Bool := !(i.usbcmd k &&& uhciCmdHcreset != 0)

/-- The loop that waits for the start. -/
def runReady (i : InitInputs) (k : Nat) : Bool := !(i.usbsts k &&& uhciStsHch != 0)

/-- The frame list is there, where the controller can reach it. -/
def frameListOk (i : InitInputs) : Bool := i.ret.status == 0 && i.ret.physicalAddress ≤ 0xFFFFFFFF

end InitInputs

/-- `controller_init`. -/
def controllerInit (i : InitInputs) (n : Nat) : InitRun :=
  let writes := [.outw 0 0]
  let halted := pollLoop i.timer i.duration i.haltReady 0 n 1
  match halted.outcome with
  | none => ⟨writes, [halted], none⟩
  | some false => ⟨writes, [halted], some 1⟩
  | some true =>
    let writes := writes ++ [.outw 0 uhciCmdHcreset]
    let reset := pollLoop i.timer i.duration i.resetReady (halted.last + 1) n (halted.last + 2)
    match reset.outcome with
    | none => ⟨writes, [halted, reset], none⟩
    | some false => ⟨writes, [halted, reset], some 1⟩
    | some true =>
      let writes := writes ++ [.outw 2 0x003F, .outw 4 0, .outw 6 0, .outw 0xC 64]
      if i.frameListOk then
        let writes := writes ++ [.outl 8 (BitVec.ofNat 32 i.ret.physicalAddress), .outw 0 uhciCmdRs]
        let running := pollLoop i.timer i.duration i.runReady (reset.last + 1) n (reset.last + 2)
        ⟨writes, [halted, reset, running], running.outcome.map fun running => if running then 0 else 1⟩
      else ⟨writes, [halted, reset], some 1⟩

/-! ## Time -/

variable {w : Nat} {timer : Nat → BitVec 64} {ticks : Nat → Nat} {duration : BitVec 64} {ready : Nat → Bool}
  {j k n : Nat}

/-- The timer shows the `w` low bits of the number of ticks. -/
structure TimerShows (w : Nat) (timer : Nat → BitVec 64) (ticks : Nat → Nat) : Prop where
  width : w ≤ 64
  low : ∀ k, (timer k).toNat = ticks k % 2 ^ w
  mono : ∀ k, ticks k ≤ ticks (k + 1)

/-- `duration` ticks have passed between two readings. -/
def Elapsed (ticks : Nat → Nat) (duration : BitVec 64) (j k : Nat) : Prop := duration.toNat ≤ ticks k - ticks j

/-- Before `duration` ticks have passed, the timer (with less than 64 bits) has not wrapped; after them, it does not
show less than `duration` above the start. -/
def Unwrapped (w : Nat) (timer : Nat → BitVec 64) (ticks : Nat → Nat) (duration : BitVec 64) (j k : Nat) : Prop :=
  (¬ Elapsed ticks duration j k → (timer j).toNat ≤ (timer k).toNat ∨ w = 64) ∧
    (Elapsed ticks duration j k → (timer j).toNat + duration.toNat ≤ (timer k).toNat ∨
      (timer k).toNat < (timer j).toNat ∧ (timer j).toNat + duration.toNat ≤ (timer k).toNat + 2 ^ 64)

theorem TimerShows.le_of_le (h : TimerShows w timer ticks) (hjk : j ≤ k) : ticks j ≤ ticks k :=
  monotone_nat_of_le_succ h.mono hjk

/-- **The test of a loop is right about the time if and only if the timer is unwrapped.** -/
theorem test_iff (h : TimerShows w timer ticks) (hd : duration.toNat < 2 ^ 63) (hjk : j ≤ k) :
    (timer k - timer j < duration ↔ ¬ Elapsed ticks duration j k) ↔ Unwrapped w timer ticks duration j k := by
  have hle := h.le_of_le hjk
  have hj := h.low j
  have hk := h.low k
  have hjlt := (timer j).isLt
  have hklt := (timer k).isLt
  have hlt : timer k - timer j < duration ↔
      (2 ^ 64 - (timer j).toNat + (timer k).toNat) % 2 ^ 64 < duration.toNat := by
    rw [BitVec.lt_def, BitVec.toNat_sub]
  obtain ⟨d, hdt⟩ := Nat.exists_eq_add_of_le hle
  have hsub : ticks k - ticks j = d := by omega
  rw [hlt, Unwrapped, Elapsed, hsub]
  by_cases hw : w = 64
  · -- a register as wide as the numbers: the difference is `d` modulo `2 ^ 64`
    subst hw
    rw [hdt] at hk
    omega
  · have hpow : 2 ^ w ≤ 2 ^ 63 := Nat.pow_le_pow_right (by decide) (by have := h.width; omega)
    have hpos : 0 < 2 ^ w := Nat.two_pow_pos w
    have hjw : (timer j).toNat < 2 ^ w := hj ▸ Nat.mod_lt _ hpos
    have hkw : (timer k).toNat < 2 ^ w := hk ▸ Nat.mod_lt _ hpos
    rcases Nat.lt_or_ge (timer k).toNat (timer j).toNat with hback | hahead
    · -- the timer has wrapped: the difference is huge
      omega
    · -- the difference is `d` less the wraps
      have hdle : (timer k).toNat - (timer j).toNat ≤ d := by
        rw [hdt] at hk
        have hmod : (timer k).toNat = ((timer j).toNat + d) % 2 ^ w := by
          rw [hk, hj, Nat.mod_add_mod]
        have := Nat.mod_le ((timer j).toNat + d) (2 ^ w)
        omega
      omega

/-! ## A loop -/

/-- Neither is the register ready nor the time over. -/
def GoesOn (ticks : Nat → Nat) (duration : BitVec 64) (ready : Nat → Bool) (j k : Nat) : Prop :=
  ¬ Elapsed ticks duration j k ∧ ready k = false

/-- The register is ready at the reading `k`, in time and not before. -/
def Succeeds (ticks : Nat → Nat) (duration : BitVec 64) (ready : Nat → Bool) (j k : Nat) : Prop :=
  j < k ∧ (∀ m, j < m → m < k → GoesOn ticks duration ready j m) ∧ ¬ Elapsed ticks duration j k ∧ ready k = true

/-- The timer is unwrapped at the readings of a loop, the first one that ends it included. -/
def Clean (w : Nat) (timer : Nat → BitVec 64) (ticks : Nat → Nat) (duration : BitVec 64) (ready : Nat → Bool)
    (j : Nat) : Prop :=
  ∀ k, j < k → (∀ m, j < m → m < k → GoesOn ticks duration ready j m) → Unwrapped w timer ticks duration j k

/-- The register was polled after the reading `k`. -/
def PollRun.Polled (r : PollRun) (k : Nat) : Prop :=
  r.start < k ∧ (k < r.last ∨ k = r.last ∧ r.outcome = some true)

/-- A loop fails after `duration` ticks only, and polls before them only. -/
structure PollRun.Exact (ticks : Nat → Nat) (duration : BitVec 64) (r : PollRun) : Prop where
  failed : r.outcome = some false → Elapsed ticks duration r.start r.last
  polled : ∀ k, r.Polled k → ¬ Elapsed ticks duration r.start k

theorem pollLoop_start : (pollLoop timer duration ready j n k).start = j := by
  induction n generalizing k with
  | zero => rfl
  | succ n ih =>
    rw [pollLoop]
    split
    · split
      · rfl
      · exact ih
    · rfl

theorem le_pollLoop_last : k ≤ (pollLoop timer duration ready j n k).last := by
  induction n generalizing k with
  | zero => exact Nat.le_refl k
  | succ n ih =>
    rw [pollLoop]
    split
    · split
      · exact Nat.le_refl k
      · exact Nat.le_trans (Nat.le_succ k) ih
    · exact Nat.le_refl k

/-- **`n` tests of a loop, from the reading `k` on, are right if and only if the timer is unwrapped at them.** -/
theorem pollLoop_exact_iff (h : TimerShows w timer ticks) (hd : duration.toNat < 2 ^ 63) (hjk : j < k)
    (hbefore : ∀ m, j < m → m < k → GoesOn ticks duration ready j m) :
    (pollLoop timer duration ready j n k).Exact ticks duration ↔
      ∀ m, k ≤ m → m < k + n → (∀ l, j < l → l < m → GoesOn ticks duration ready j l) →
        Unwrapped w timer ticks duration j m := by
  induction n generalizing k with
  | zero =>
    refine iff_of_true ⟨fun hf => ?_, fun m hm => ?_⟩ fun m h1 h2 => absurd h2 (by omega)
    · cases hf
    · obtain ⟨hstart, hlast | ⟨-, hout⟩⟩ := hm
      · exact (hbefore m hstart hlast).1
      · cases hout
  | succ n ih =>
    have htest := test_iff h hd (Nat.le_of_lt hjk)
    -- after a reading that ends the loop there is nothing to ask for
    have hends : ¬ GoesOn ticks duration ready j k →
        ((∀ m, k ≤ m → m < k + (n + 1) → (∀ l, j < l → l < m → GoesOn ticks duration ready j l) →
          Unwrapped w timer ticks duration j m) ↔ Unwrapped w timer ticks duration j k) := by
      intro hno
      refine ⟨fun hall => hall k (Nat.le_refl k) (by omega) hbefore, fun hk m h1 _ hgo => ?_⟩
      rcases Nat.eq_or_lt_of_le h1 with rfl | hlt
      · exact hk
      · exact absurd (hgo k hjk hlt) hno
    rw [pollLoop]
    by_cases ht : timer k - timer j < duration
    · rw [if_pos ht]
      cases hr : ready k with
      | true =>
        have hno : ¬ GoesOn ticks duration ready j k := fun hgo => by rw [hgo.2] at hr; cases hr
        rw [if_pos rfl, hends hno, ← htest]
        constructor
        · exact fun hexact => iff_of_true ht (hexact.polled k ⟨hjk, .inr ⟨rfl, rfl⟩⟩)
        · intro hiff
          refine ⟨fun hf => absurd hf (by simp), fun m hm => ?_⟩
          obtain ⟨hstart, hlast | ⟨rfl, -⟩⟩ := hm
          · exact (hbefore m hstart hlast).1
          · exact hiff.mp ht
      | false =>
        rw [if_neg Bool.false_ne_true]
        by_cases he : Elapsed ticks duration j k
        · -- the register is polled although the time is over
          have hno : ¬ GoesOn ticks duration ready j k := fun hgo => hgo.1 he
          rw [hends hno, ← htest]
          refine iff_of_false (fun hexact => ?_) fun hiff => hiff.mp ht he
          have hpolled := hexact.polled k ⟨by rw [pollLoop_start]; exact hjk, .inl le_pollLoop_last⟩
          rw [pollLoop_start] at hpolled
          exact hpolled he
        · have hgo : GoesOn ticks duration ready j k := ⟨he, hr⟩
          rw [ih (by omega) fun m h1 h2 => ?_]
          · constructor
            · intro hall m h1 h2 hbefore'
              rcases Nat.eq_or_lt_of_le h1 with rfl | hlt
              · exact htest.mp (iff_of_true ht he)
              · exact hall m hlt (by omega) hbefore'
            · exact fun hall m h1 h2 => hall m (by omega) (by omega)
          · rcases Nat.eq_or_lt_of_le (Nat.le_of_lt_succ h2) with rfl | hlt
            · exact hgo
            · exact hbefore m h1 hlt
    · rw [if_neg ht]
      by_cases he : Elapsed ticks duration j k
      · have hno : ¬ GoesOn ticks duration ready j k := fun hgo => hgo.1 he
        rw [hends hno, ← htest]
        refine iff_of_true ⟨fun _ => he, fun m hm => ?_⟩ (iff_of_false ht fun hne => hne he)
        obtain ⟨hstart, hlast | ⟨-, hout⟩⟩ := hm
        · exact (hbefore m hstart hlast).1
        · cases hout
      · -- the loop fails although there is time left
        refine iff_of_false (fun hexact => he (hexact.failed rfl)) fun hall => ?_
        exact ht ((htest.mpr (hall k (Nat.le_refl k) (by omega) hbefore)).mpr he)

/-- **While the timer is unwrapped, a loop succeeds where the register is ready in time.** -/
theorem pollLoop_eq_iff (h : TimerShows w timer ticks) (hd : duration.toNat < 2 ^ 63)
    (hclean : Clean w timer ticks duration ready j) (hjk : j < k)
    (hbefore : ∀ m, j < m → m < k → GoesOn ticks duration ready j m) {m : Nat} :
    pollLoop timer duration ready j n k = ⟨j, m, some true⟩ ↔
      k ≤ m ∧ m < k + n ∧ Succeeds ticks duration ready j m := by
  induction n generalizing k with
  | zero =>
    refine iff_of_false (fun heq => ?_) fun hm => absurd hm.2.1 (by omega)
    rw [pollLoop] at heq
    simp at heq
  | succ n ih =>
    have htest := (test_iff h hd (Nat.le_of_lt hjk)).mpr (hclean k hjk hbefore)
    -- a later success finds the reading `k` not ready
    have hlater : ∀ {m}, Succeeds ticks duration ready j m → k < m → GoesOn ticks duration ready j k :=
      fun hm hlt => hm.2.1 k hjk hlt
    rw [pollLoop]
    by_cases ht : timer k - timer j < duration
    · have he := htest.mp ht
      rw [if_pos ht]
      cases hr : ready k with
      | true =>
        rw [if_pos rfl]
        constructor
        · intro heq
          obtain rfl : k = m := by simpa using heq
          exact ⟨Nat.le_refl k, by omega, hjk, hbefore, he, hr⟩
        · rintro ⟨hle, -, hm⟩
          rcases Nat.eq_or_lt_of_le hle with rfl | hlt
          · rfl
          · have hno := (hlater hm hlt).2
            rw [hr] at hno
            cases hno
      | false =>
        have hgo : GoesOn ticks duration ready j k := ⟨he, hr⟩
        rw [if_neg Bool.false_ne_true, ih (by omega) fun l h1 h2 => ?_]
        · constructor
          · exact fun ⟨h1, h2, hm⟩ => ⟨by omega, by omega, hm⟩
          · rintro ⟨h1, h2, hm⟩
            rcases Nat.eq_or_lt_of_le h1 with rfl | hlt
            · have hready := hm.2.2.2
              rw [hr] at hready
              cases hready
            · exact ⟨hlt, by omega, hm⟩
        · rcases Nat.eq_or_lt_of_le (Nat.le_of_lt_succ h2) with rfl | hlt
          · exact hgo
          · exact hbefore l h1 hlt
    · have he : Elapsed ticks duration j k := Classical.not_not.mp fun hne => ht (htest.mpr hne)
      rw [if_neg ht]
      refine iff_of_false (fun heq => ?_) ?_
      · simp at heq
      · rintro ⟨hle, -, hm⟩
        rcases Nat.eq_or_lt_of_le hle with rfl | hlt
        · exact hm.2.2.1 he
        · exact (hlater hm hlt).1 he

/-- A loop with any number of tests. -/
theorem pollLoop_exact (h : TimerShows w timer ticks) (hd : duration.toNat < 2 ^ 63)
    (hclean : Clean w timer ticks duration ready j) :
    (pollLoop timer duration ready j n (j + 1)).Exact ticks duration :=
  (pollLoop_exact_iff h hd (Nat.lt_succ_self j) fun m h1 h2 => absurd h2 (by omega)).mpr
    fun m h1 _ hgo => hclean m h1 hgo

/-- A loop that is right for all large numbers of tests. -/
theorem clean_of_exact (h : TimerShows w timer ticks) (hd : duration.toNat < 2 ^ 63) (N : Nat)
    (hexact : ∀ n, N ≤ n → (pollLoop timer duration ready j n (j + 1)).Exact ticks duration) :
    Clean w timer ticks duration ready j := by
  intro k hjk hgo
  have hn := hexact (N + k) (by omega)
  rw [pollLoop_exact_iff h hd (Nat.lt_succ_self j) fun m h1 h2 => absurd h2 (by omega)] at hn
  exact hn k hjk (by omega) hgo

/-- The first reading of a loop has none before it. -/
theorem pollLoop_eq_succ_iff (h : TimerShows w timer ticks) (hd : duration.toNat < 2 ^ 63)
    (hclean : Clean w timer ticks duration ready j) {m : Nat} :
    pollLoop timer duration ready j n (j + 1) = ⟨j, m, some true⟩ ↔
      m < j + 1 + n ∧ Succeeds ticks duration ready j m := by
  rw [pollLoop_eq_iff h hd hclean (Nat.lt_succ_self j) fun m h1 h2 => absurd h2 (by omega)]
  exact ⟨fun hm => hm.2, fun hm => ⟨hm.2.1, hm⟩⟩

/-! ## The three loops -/

variable {i : InitInputs}

theorem pollLoop_eta (hout : (pollLoop timer duration ready j n k).outcome = some true) :
    pollLoop timer duration ready j n k = ⟨j, (pollLoop timer duration ready j n k).last, some true⟩ := by
  have hstart := @pollLoop_start timer duration ready j k n
  generalize pollLoop timer duration ready j n k = r at hout hstart ⊢
  subst hstart
  rw [← hout]

/-- The loops of a call: each one starts with the reading after the last one of the loop before, if that has
succeeded. -/
theorem mem_polls_iff {r : PollRun} :
    r ∈ (controllerInit i n).polls ↔
      r = pollLoop i.timer i.duration i.haltReady 0 n 1 ∨
        ∃ k₁, pollLoop i.timer i.duration i.haltReady 0 n 1 = ⟨0, k₁, some true⟩ ∧
          (r = pollLoop i.timer i.duration i.resetReady (k₁ + 1) n (k₁ + 2) ∨
            ∃ k₂, pollLoop i.timer i.duration i.resetReady (k₁ + 1) n (k₁ + 2) = ⟨k₁ + 1, k₂, some true⟩ ∧
              i.frameListOk = true ∧ r = pollLoop i.timer i.duration i.runReady (k₂ + 1) n (k₂ + 2)) := by
  have hno : ∀ {run : PollRun} {j k : Nat} {o : Option Bool}, run.outcome = o → o ≠ some true →
      ¬ run = ⟨j, k, some true⟩ := by
    rintro run j k o hout hne rfl
    exact hne hout.symm
  rw [controllerInit]
  generalize hhalted : pollLoop i.timer i.duration i.haltReady 0 n 1 = halted
  match hh : halted.outcome with
  | none => simp [hno hh]
  | some false => simp [hno hh]
  | some true =>
    have heta : halted = ⟨0, halted.last, some true⟩ := by
      subst hhalted
      exact pollLoop_eta hh
    generalize halted.last = k₁ at heta ⊢
    subst heta
    dsimp only
    generalize hreset : pollLoop i.timer i.duration i.resetReady (k₁ + 1) n (k₁ + 2) = reset
    match hr : reset.outcome with
    | none => simp [hreset, hno hr]
    | some false => simp [hreset, hno hr]
    | some true =>
      have heta : reset = ⟨k₁ + 1, reset.last, some true⟩ := by
        subst hreset
        exact pollLoop_eta hr
      generalize reset.last = k₂ at heta ⊢
      subst heta
      cases hok : i.frameListOk with
      | false => simp [hreset]
      | true => simp [hreset]

/-- The loops of the call are right about the time, in every state of the call. -/
def InitExact (ticks : Nat → Nat) (i : InitInputs) : Prop :=
  ∀ n, ∀ r ∈ (controllerInit i n).polls, r.Exact ticks i.duration

/-- The loops of the call meet an unwrapped timer, each one that is reached. -/
def InitClean (w : Nat) (ticks : Nat → Nat) (i : InitInputs) : Prop :=
  Clean w i.timer ticks i.duration i.haltReady 0 ∧
    ∀ k₁, Succeeds ticks i.duration i.haltReady 0 k₁ →
      Clean w i.timer ticks i.duration i.resetReady (k₁ + 1) ∧
        ∀ k₂, Succeeds ticks i.duration i.resetReady (k₁ + 1) k₂ → i.frameListOk = true →
          Clean w i.timer ticks i.duration i.runReady (k₂ + 1)

theorem toNat_duration_lt : i.duration.toNat < 2 ^ 63 := by
  have h := i.frequency.isLt
  rw [InitInputs.duration, BitVec.toNat_udiv]
  show i.frequency.toNat / 100 < 2 ^ 63
  omega

/-- **The loops of `controller_init` give the hardware `duration` ticks, and no more, if and only if the timer does not
wrap while they need it.** -/
theorem controllerInit_exact_iff (h : TimerShows w i.timer ticks) : InitExact ticks i ↔ InitClean w ticks i := by
  have hd := toNat_duration_lt (i := i)
  constructor
  · intro hall
    have hhalt : Clean w i.timer ticks i.duration i.haltReady 0 :=
      clean_of_exact h hd 0 fun n _ => hall n _ (mem_polls_iff.mpr (.inl rfl))
    refine ⟨hhalt, fun k₁ hs₁ => ?_⟩
    have heq₁ : ∀ n, k₁ ≤ n → pollLoop i.timer i.duration i.haltReady 0 n 1 = ⟨0, k₁, some true⟩ :=
      fun n hn => (pollLoop_eq_succ_iff h hd hhalt).mpr ⟨by omega, hs₁⟩
    have hreset : Clean w i.timer ticks i.duration i.resetReady (k₁ + 1) :=
      clean_of_exact h hd k₁ fun n hn => hall n _ (mem_polls_iff.mpr (.inr ⟨k₁, heq₁ n hn, .inl rfl⟩))
    refine ⟨hreset, fun k₂ hs₂ hok => ?_⟩
    have heq₂ : ∀ n, k₂ ≤ n →
        pollLoop i.timer i.duration i.resetReady (k₁ + 1) n (k₁ + 2) = ⟨k₁ + 1, k₂, some true⟩ :=
      fun n hn => (pollLoop_eq_succ_iff h hd hreset).mpr ⟨by omega, hs₂⟩
    exact clean_of_exact h hd (k₁ + k₂) fun n hn => hall n _ (mem_polls_iff.mpr
      (.inr ⟨k₁, heq₁ n (by omega), .inr ⟨k₂, heq₂ n (by omega), hok, rfl⟩⟩))
  · rintro ⟨hhalt, hrest⟩ n r hr
    rcases mem_polls_iff.mp hr with rfl | ⟨k₁, heq₁, hr⟩
    · exact pollLoop_exact h hd hhalt
    · obtain ⟨hreset, hrest⟩ := hrest k₁ ((pollLoop_eq_succ_iff h hd hhalt).mp heq₁).2
      rcases hr with rfl | ⟨k₂, heq₂, hok, rfl⟩
      · exact pollLoop_exact h hd hreset
      · exact pollLoop_exact h hd (hrest k₂ ((pollLoop_eq_succ_iff h hd hreset).mp heq₂).2 hok)

/-! ## A power management timer -/

/-- A 24-bit timer that counts one tick from reading to reading, and a controller that is always halted. -/
def pmInputs (first : Nat) : InitInputs where
  timer k := BitVec.ofNat 64 ((first + k) % 2 ^ 24)
  frequency := 3579545
  usbsts _ := uhciStsHch
  usbcmd _ := 0
  ret := { virtualAddress := 0x1000, physicalAddress := 0x1000 }

theorem pmInputs_shows (first : Nat) : TimerShows 24 (pmInputs first).timer fun k => first + k := by
  refine ⟨by decide, fun k => ?_, fun k => Nat.le_succ _⟩
  show (BitVec.ofNat 64 ((first + k) % 2 ^ 24)).toNat = _
  rw [BitVec.toNat_ofNat, Nat.mod_eq_of_lt]
  omega

theorem pmInputs_clean {ready : Nat → Bool} {j : Nat} (hj : j < 2 ^ 20) :
    Clean 24 (pmInputs 0).timer (fun k => 0 + k) (pmInputs 0).duration ready j := by
  intro k hjk hgo
  have hd : (pmInputs 0).duration.toNat = 35795 := by decide
  have hlast : k - 1 - j < 35795 := by
    rcases Nat.lt_or_ge j (k - 1) with h | h
    · have := (hgo (k - 1) h (by omega)).1
      rw [Elapsed, hd] at this
      omega
    · omega
  have hlow := (pmInputs_shows 0).low
  have hk := hlow k
  have hj' := hlow j
  rw [Unwrapped, Elapsed, hd]
  omega

/-- From 0 on the timer does not wrap in 30 milliseconds. -/
theorem controllerInit_exact_pmInputs : InitExact (fun k => 0 + k) (pmInputs 0) := by
  have hd : (pmInputs 0).duration.toNat = 35795 := by decide
  refine (controllerInit_exact_iff (pmInputs_shows 0)).mpr
    ⟨pmInputs_clean (by decide), fun k₁ hs₁ => ?_⟩
  have h₁ := hs₁.2.2.1
  rw [Elapsed, hd] at h₁
  refine ⟨pmInputs_clean (by omega), fun k₂ hs₂ _ => ?_⟩
  have h₂ := hs₂.2.2.1
  rw [Elapsed, hd] at h₂
  exact pmInputs_clean (by omega)

/-- A timer that wraps after the first tick: the controller has halted, and the loop fails after one tick. -/
theorem not_controllerInit_exact :
    ¬ ∀ (w : Nat) (ticks : Nat → Nat) (i : InitInputs), TimerShows w i.timer ticks → InitExact ticks i := by
  intro h
  have hexact := h 24 _ _ (pmInputs_shows 0xFFFFFF) 1 ⟨0, 1, some false⟩ (by decide)
  have hwrong : Elapsed (fun k => 0xFFFFFF + k) (pmInputs 0xFFFFFF).duration 0 1 := hexact.failed rfl
  have hd : (pmInputs 0xFFFFFF).duration.toNat = 35795 := by decide
  rw [Elapsed, hd] at hwrong
  omega

end Dem64.Uhci
