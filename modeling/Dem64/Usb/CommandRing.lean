import Dem64.Usb.Completion
import Dem64.Usb.Ep0

/-!
# The command ring

`submit_command` puts commands into a ring of 255 entries and a Link TRB, which it publishes once in a
traversal.  The controller may look at the ring between any two stores.  `command_ring` says that it
executes every command once, in order, as long as no more than 254 are outstanding.

The invariant counts the commands: `m` of them were executed and `a` of them are behind the driver's
index, so that both places can be computed from these numbers.  The entries in between form a queue
(`CycleRing.IsQueue`); the Link TRB has the cycle of the last traversal that the driver has finished,
which is the one that the controller needs because it is less than a traversal behind.
-/

set_option autoImplicit false

namespace Dem64

open CycleRing CommandState

/-- The command ring, with what was put into it and what was taken out of it. -/
structure RingRun where
  /-- Driver and controller. -/
  state : CommandState
  /-- The commands that were submitted, with the addresses that `submit_command` returns. -/
  submitted : List (BitVec 64 × XhciTrb)
  /-- The commands that were executed, with the addresses of their entries. -/
  executed : List (BitVec 64 × XhciTrb)

namespace RingRun

/-- The controller takes the entry at its place: it follows the Link TRB, and executes everything
else. -/
def fetch (r : RingRun) : RingRun where
  state := { r.state with dequeue := next trbFormat r.state.ring r.state.dequeue }
  submitted := r.submitted
  executed := if (r.state.ring r.state.dequeue.index).type = trbLink then r.executed
    else r.executed ++ [(r.state.address r.state.dequeue.index,
      (r.state.ring r.state.dequeue.index).clearCycle)]

/-- `submit_command` is not running. -/
def Quiet (r : RingRun) : Prop := r.state.phase = .idle ∨ r.state.phase = .waiting

end RingRun

/-- One step of driver or controller. -/
inductive RingStep : RingRun → RingRun → Prop
  /-- `submit_command` is called; afterwards less than 255 commands are outstanding. -/
  | submit {r : RingRun} (h : r.Quiet) (command : XhciTrb) (hcommand : command.type ≠ trbLink)
      (hroom : r.submitted.length - r.executed.length < 254) :
      RingStep r { r with
        state := r.state.submit command 0 0
        submitted := r.submitted ++ [(r.state.address r.state.commandIndex, command.clearCycle)] }
  /-- A store of `submit_command`. -/
  | store {r : RingRun} (h : 1 ≤ r.state.phase.rank ∧ r.state.phase.rank ≤ 7) :
      RingStep r { r with state := r.state.store }
  /-- The doorbell; `submit_command` returns. -/
  | doorbell {r : RingRun} (h : r.state.phase = .doorbell) :
      RingStep r { r with state := r.state.ringDoorbell 0 }
  /-- The controller takes an entry with its cycle. -/
  | fetch {r : RingRun}
      (hcycle : (r.state.ring r.state.dequeue.index).cycle = r.state.dequeue.cycle) : RingStep r r.fetch

/-- The ring after `setup_rings`. -/
def ringStart (base : BitVec 64) (events : EventState) : RingRun := ⟨commandStart base events, [], []⟩

/-- The entries that the controller executes when it is left alone, with their addresses. -/
def RingRun.rest (r : RingRun) (n : Nat) : List (BitVec 64 × XhciTrb) :=
  ((drain trbFormat r.state.ring n r.state.dequeue).1.filter fun x => x.2.type != trbLink).map
    fun x => (r.state.address x.1, x.2.clearCycle)

/-! ## The invariant -/

/-- The number of commands that are behind the driver's index: all but the one that is being
submitted. -/
def RingRun.advanced (r : RingRun) : Nat :=
  r.submitted.length - if 1 ≤ r.state.phase.rank ∧ r.state.phase.rank ≤ 7 then 1 else 0

/-- The number of commands that the controller can see. -/
def RingRun.published (r : RingRun) : Nat :=
  r.submitted.length - if 1 ≤ r.state.phase.rank ∧ r.state.phase.rank ≤ 4 then 1 else 0

/-- Where a consumer stands that has taken `m` commands: it may still have to follow the Link TRB. -/
def AtCommand (m : Nat) (c : Consumer (BitVec 32)) : Prop :=
  c = ⟨m % 255, eventPhase (m / 255)⟩ ∨ m % 255 = 0 ∧ 0 < m ∧ c = ⟨255, eventPhase (m / 255 - 1)⟩

/-- What is in the ring. -/
structure RingInv (r : RingRun) : Prop where
  /-- The commands were executed in the order in which they were submitted. -/
  executed : r.executed = r.submitted.take r.executed.length
  /-- Not more than were published. -/
  executed_le : r.executed.length ≤ r.published
  /-- There is room for one more. -/
  room : r.submitted.length ≤ r.executed.length + 254
  /-- The addresses. -/
  address : ∀ (i : Nat) (h : i < r.submitted.length), r.submitted[i].1 = r.state.address (i % 255)
  /-- The commands are no Link TRBs. -/
  type : ∀ x ∈ r.submitted, x.2.type ≠ trbLink
  /-- The driver's place. -/
  place : r.state.commandIndex = r.advanced % 255 ∧ r.state.commandCycle = eventPhase (r.advanced / 255)
  /-- The controller's place. -/
  dequeue : AtCommand r.executed.length r.state.dequeue
  /-- The Link TRB. -/
  link : (r.state.ring 255).type = trbLink ∧ (r.state.ring 255).d3 &&& (1#32 <<< 1) ≠ 0 ∧
    (r.state.ring 255).cycle = eventPhase (r.advanced / 255 - 1)
  /-- What is published and not yet executed is in the ring. -/
  queue : ∃ xs, IsQueue XhciTrb.cycle eventPhase 255 r.state.ring r.executed.length xs ∧
    xs.map XhciTrb.clearCycle = ((r.submitted.take r.published).drop r.executed.length).map Prod.snd
  /-- The command that is being submitted. -/
  current : 1 ≤ r.state.phase.rank → r.state.phase.rank ≤ 7 → r.submitted ≠ [] ∧
    r.state.index = r.state.commandIndex ∧ r.submitted.getLast? =
      some (r.state.address r.state.commandIndex, r.state.command.clearCycle)
  /-- Its first words are in its entry. -/
  words : r.state.phase.rank ≤ 4 →
    (2 ≤ r.state.phase.rank → (r.state.ring r.state.commandIndex).d0 = r.state.command.d0) ∧
    (3 ≤ r.state.phase.rank → (r.state.ring r.state.commandIndex).d1 = r.state.command.d1) ∧
    (4 ≤ r.state.phase.rank → (r.state.ring r.state.commandIndex).d2 = r.state.command.d2)

/-! ## The driver -/

section

variable {r : RingRun}

theorem RingRun.advanced_eq {n : Nat} (h : r.submitted.length = n + 1) (h1 : 1 ≤ r.state.phase.rank)
    (h7 : r.state.phase.rank ≤ 7) : r.advanced = n := by
  rw [advanced, if_pos ⟨h1, h7⟩, h, Nat.add_sub_cancel]

theorem RingRun.advanced_of_quiet (h : r.Quiet) : r.advanced = r.submitted.length := by
  rw [advanced, if_neg, Nat.sub_zero]
  rcases h with h | h <;> rw [h] <;> decide

theorem RingRun.published_of_quiet (h : r.Quiet) : r.published = r.submitted.length := by
  rw [published, if_neg, Nat.sub_zero]
  rcases h with h | h <;> rw [h] <;> decide

theorem IsCycle.eventPhase (t : Nat) : IsCycle (eventPhase t) := by
  rw [Dem64.eventPhase]
  split <;> simp [IsCycle]

/-- A store to one of the first three words: the entry is not in the queue, and keeps its cycle. -/
theorem RingInv.word (hr : RingInv r) (h1 : 1 ≤ r.state.phase.rank) (h3 : r.state.phase.rank ≤ 3) {p : Phase}
    (hp : p.rank = r.state.phase.rank + 1) {t : XhciTrb}
    (hd3 : t.d3 = (r.state.ring r.state.index).d3)
    (hd0 : t.d0 = if r.state.phase.rank = 1 then r.state.command.d0 else (r.state.ring r.state.index).d0)
    (hd1 : t.d1 = if r.state.phase.rank = 2 then r.state.command.d1 else (r.state.ring r.state.index).d1)
    (hd2 : t.d2 = if r.state.phase.rank = 3 then r.state.command.d2 else (r.state.ring r.state.index).d2) :
    RingInv { r with state := { r.state with phase := p, ring := write r.state.ring r.state.index t } } := by
  obtain ⟨hne, hindex, hlast⟩ := hr.current h1 (by omega)
  obtain ⟨n, hn⟩ : ∃ n, r.submitted.length = n + 1 :=
    ⟨r.submitted.length - 1, by have := List.length_pos_iff.mpr hne; omega⟩
  have hadv := RingRun.advanced_eq hn h1 (by omega)
  have hpub : r.published = n := by
    rw [RingRun.published, if_pos ⟨h1, by omega⟩, hn, Nat.add_sub_cancel]
  have hroom := hr.room
  have hle := hr.executed_le
  have hadv' : RingRun.advanced { r with state := { r.state with
      phase := p, ring := write r.state.ring r.state.index t } } = r.advanced := by
    rw [hadv]
    exact RingRun.advanced_eq hn (by show 1 ≤ p.rank; omega) (by show p.rank ≤ 7; omega)
  have hpub' : RingRun.published { r with state := { r.state with
      phase := p, ring := write r.state.ring r.state.index t } } = r.published := by
    rw [hpub, RingRun.published, if_pos ⟨by show 1 ≤ p.rank; omega, by show p.rank ≤ 4; omega⟩]
    exact Nat.sub_eq_of_eq_add hn
  have hplace : r.state.index = n % 255 := by rw [hindex, hr.place.1, hadv]
  have hlt : r.state.index < 255 := hplace ▸ Nat.mod_lt _ (by decide)
  have hself : write r.state.ring r.state.index t r.state.commandIndex = t := by
    rw [← hindex, write_self]
  exact
    { executed := hr.executed
      executed_le := by rw [hpub']; exact hle
      room := hroom
      address := hr.address
      type := hr.type
      place := by rw [hadv']; exact hr.place
      dequeue := hr.dequeue
      link := by
        rw [hadv']
        show (write r.state.ring r.state.index t 255).type = _ ∧
          (write r.state.ring r.state.index t 255).d3 &&& _ ≠ 0 ∧
          (write r.state.ring r.state.index t 255).cycle = _
        rw [write_of_ne (by omega)]
        exact hr.link
      queue := by
        obtain ⟨xs, hq, hxs⟩ := hr.queue
        have hlen := congrArg List.length hxs
        rw [List.length_map, List.length_map, List.length_drop, List.length_take, hpub] at hlen
        refine ⟨xs, ?_, by rw [hpub']; exact hxs⟩
        have hk : r.executed.length + (n - r.executed.length) = n := by omega
        have hq' := hq.overwrite (x := t) (k := n - r.executed.length) (by omega) (by omega) (by
          rw [hk, ← hplace, XhciTrb.cycle, XhciTrb.cycle, hd3])
        rw [hk, ← hplace] at hq'
        exact hq'
      current := fun _ _ => ⟨hne, hindex, hlast⟩
      words := fun _ => by
        show (2 ≤ p.rank → _) ∧ (3 ≤ p.rank → _) ∧ (4 ≤ p.rank → _)
        have hw := hr.words (by omega)
        rw [← hindex] at hw
        dsimp only
        rw [hself, hd0, hd1, hd2, hp]
        refine ⟨fun h => ?_, fun h => ?_, fun h => ?_⟩ <;> split
        · rfl
        · exact hw.1 (by omega)
        · rfl
        · exact hw.2.1 (by omega)
        · rfl
        · exact hw.2.2 (by omega) }

/-- What the last word of an entry keeps of the command. -/
theorem publish_word {cy : BitVec 32} (h : IsCycle cy) (x : BitVec 32) :
    (x &&& ~~~1 ||| cy) &&& 1 = cy ∧ (x &&& ~~~1 ||| cy) &&& ~~~1 = x &&& ~~~1 ∧
      (x &&& ~~~1 ||| cy) >>> 10 = x >>> 10 := by
  have hone : ∀ i, (1 : BitVec 32).getLsbD i = decide (i = 0) := fun i => by
    rw [show (1 : BitVec 32) = 1#32 from rfl, BitVec.getLsbD_one]
    simp
  have hcy : ∀ i, 0 < i → cy.getLsbD i = false := by
    simp only [IsCycle, List.mem_cons, List.not_mem_nil, or_false] at h
    obtain rfl | rfl := h
    · simp
    · intro i hi
      exact (hone i).trans (by simp; omega)
  refine ⟨?_, ?_, ?_⟩ <;> apply BitVec.eq_of_getLsbD_eq <;> intro i hi <;>
    simp only [BitVec.getLsbD_ushiftRight, BitVec.getLsbD_or, BitVec.getLsbD_and, BitVec.getLsbD_not, hone]
  · by_cases h0 : i = 0
    · simp [h0]
    · simp [h0, hcy i (by omega), -BitVec.getLsbD_eq_getElem]
  · by_cases h0 : i = 0
    · simp [h0]
    · simp [h0, hcy i (by omega), -BitVec.getLsbD_eq_getElem]
  · rw [hcy _ (by omega)]
    by_cases hlt : 10 + i < 32
    · simp [hlt]
    · simp [BitVec.getLsbD_of_ge x _ (Nat.le_of_not_lt hlt)]

/-- The command is published: its entry joins the queue. -/
theorem RingInv.publish (hr : RingInv r) (h : r.state.phase = .storeD3) :
    RingInv { r with state := r.state.store } := by
  have hrank : r.state.phase.rank = 4 := by rw [h]; rfl
  obtain ⟨hne, hindex, hlast⟩ := hr.current (by omega) (by omega)
  obtain ⟨n, hn⟩ : ∃ n, r.submitted.length = n + 1 :=
    ⟨r.submitted.length - 1, by have := List.length_pos_iff.mpr hne; omega⟩
  have hadv := RingRun.advanced_eq hn (by omega) (by omega)
  have hpub : r.published = n := by
    rw [RingRun.published, if_pos ⟨by omega, by omega⟩, hn, Nat.add_sub_cancel]
  have hroom := hr.room
  have hle := hr.executed_le
  have hplace : r.state.index = n % 255 := by rw [hindex, hr.place.1, hadv]
  have hlt : r.state.index < 255 := hplace ▸ Nat.mod_lt _ (by decide)
  obtain ⟨hcyc, hclear, hshift⟩ :=
    publish_word (hr.place.2 ▸ IsCycle.eventPhase _ : IsCycle r.state.commandCycle) r.state.command.d3
  have hw := hr.words (by omega)
  rw [← hindex] at hw
  simp only [CommandState.store, h]
  generalize ht : ({ r.state.ring r.state.index with
    d3 := r.state.command.d3 &&& ~~~1 ||| r.state.commandCycle } : XhciTrb) = t
  have htclear : t.clearCycle = r.state.command.clearCycle := by
    rw [← ht, XhciTrb.clearCycle, XhciTrb.clearCycle]
    simp only [hclear, hw.1 (by omega), hw.2.1 (by omega), hw.2.2 (by omega)]
  have htcycle : t.cycle = eventPhase (n / 255) := by
    rw [← ht, XhciTrb.cycle, ← hadv, ← hr.place.2]
    exact hcyc
  have hadv' : ∀ s : CommandState, s.phase = .storePending →
      RingRun.advanced { r with state := s } = r.advanced := fun s hs => by
    rw [hadv]
    exact RingRun.advanced_eq hn (by rw [hs]; decide) (by rw [hs]; decide)
  have hpub' : ∀ s : CommandState, s.phase = .storePending →
      RingRun.published { r with state := s } = n + 1 := fun s hs => by
    rw [RingRun.published, if_neg (by rw [hs]; decide)]
    exact hn
  exact
    { executed := hr.executed
      executed_le := by rw [hpub' _ rfl]; show r.executed.length ≤ n + 1; omega
      room := hroom
      address := hr.address
      type := hr.type
      place := by rw [hadv' _ rfl]; exact hr.place
      dequeue := hr.dequeue
      link := by
        rw [hadv' _ rfl]
        show (write r.state.ring r.state.index t 255).type = _ ∧
          (write r.state.ring r.state.index t 255).d3 &&& _ ≠ 0 ∧
          (write r.state.ring r.state.index t 255).cycle = _
        rw [write_of_ne (by omega)]
        exact hr.link
      queue := by
        obtain ⟨xs, hq, hxs⟩ := hr.queue
        have hlen := congrArg List.length hxs
        rw [List.length_map, List.length_map, List.length_drop, List.length_take, hpub] at hlen
        have hk : r.executed.length + xs.length = n := by omega
        have hq' := hq.push (x := t) (by omega) (by rw [hk]; exact htcycle)
        rw [hk, ← hplace] at hq'
        refine ⟨xs ++ [t], hq', ?_⟩
        rw [hpub' _ rfl, List.map_append, hxs, hpub, ← hn]
        show _ = ((r.submitted.take r.submitted.length).drop r.executed.length).map Prod.snd
        rw [List.take_length]
        have hsplit : r.submitted = r.submitted.take n ++
            [(r.state.address r.state.commandIndex, r.state.command.clearCycle)] := by
          have h1 := List.dropLast_append_getLast? _ hlast
          rw [List.dropLast_eq_take, hn, Nat.add_sub_cancel] at h1
          exact h1.symm
        conv_rhs => rw [hsplit]
        rw [List.drop_append_of_le_length (by rw [List.length_take]; omega), List.map_append]
        simp [htclear]
      current := fun _ _ => ⟨hne, hindex, hlast⟩
      words := fun h4 => absurd (show Phase.storePending.rank ≤ 4 from h4) (by decide) }

/-- Steps that do not touch the ring. -/
theorem RingInv.same (hr : RingInv r) {p : Phase} (h5 : 5 ≤ r.state.phase.rank) (hp5 : 5 ≤ p.rank)
    (h7 : r.state.phase.rank ≤ 7 ↔ p.rank ≤ 7) (e : EventState) (b : Bool) (v : BitVec 32) :
    RingInv { r with state := { r.state with phase := p, events := e, running := b, previous := v } } := by
  have hadv : RingRun.advanced { r with state := { r.state with
      phase := p, events := e, running := b, previous := v } } = r.advanced := by
    rw [RingRun.advanced, RingRun.advanced]
    exact congrArg _ (if_congr (by dsimp only; omega) rfl rfl)
  have hpub : RingRun.published { r with state := { r.state with
      phase := p, events := e, running := b, previous := v } } = r.published := by
    rw [RingRun.published, RingRun.published]
    exact congrArg _ (if_congr (by dsimp only; omega) rfl rfl)
  exact
    { executed := hr.executed
      executed_le := by rw [hpub]; exact hr.executed_le
      room := hr.room
      address := hr.address
      type := hr.type
      place := by rw [hadv]; exact hr.place
      dequeue := hr.dequeue
      link := by rw [hadv]; exact hr.link
      queue := by rw [hpub]; exact hr.queue
      current := fun _ h => hr.current (by omega) (h7.mpr h)
      words := fun h => absurd (show p.rank ≤ 4 from h) (by omega) }

/-- The last word of the Link TRB. -/
theorem link_word {cy : BitVec 32} (h : IsCycle cy) :
    (6#32 <<< 10 ||| 1#32 <<< 1 ||| cy) &&& (1#32 <<< 1) ≠ 0 ∧
      (6#32 <<< 10 ||| 1#32 <<< 1 ||| cy) &&& 1 = cy := by
  simp only [IsCycle, List.mem_cons, List.not_mem_nil, or_false] at h
  obtain rfl | rfl := h <;> decide

/-- The driver's index moves on, and at the end of the ring the Link TRB is published. -/
theorem RingInv.advance (hr : RingInv r) (h : r.state.phase = .advance) :
    RingInv { r with state := r.state.store } := by
  have hrank : r.state.phase.rank = 7 := by rw [h]; rfl
  obtain ⟨hne, -⟩ := hr.current (by omega) (by omega)
  obtain ⟨n, hn⟩ : ∃ n, r.submitted.length = n + 1 :=
    ⟨r.submitted.length - 1, by have := List.length_pos_iff.mpr hne; omega⟩
  have hadv := RingRun.advanced_eq hn (by omega) (by omega)
  have hpub : r.published = n + 1 := by
    rw [RingRun.published, if_neg (by omega), hn, Nat.sub_zero]
  have hadv' : ∀ s : CommandState, s.phase = .doorbell →
      RingRun.advanced { r with state := s } = n + 1 := fun s hs => by
    rw [RingRun.advanced, if_neg (by rw [hs]; decide)]
    exact hn
  have hpub' : ∀ s : CommandState, s.phase = .doorbell →
      RingRun.published { r with state := s } = r.published := fun s hs => by
    rw [hpub, RingRun.published, if_neg (by rw [hs]; decide)]
    exact hn
  obtain ⟨hindex, hcycle⟩ := hr.place
  rw [hadv] at hindex hcycle
  obtain ⟨hmod, hdiv⟩ := next_index (N := 255) (r := n) (by decide)
  have hlink := hr.link
  rw [hadv] at hlink
  simp only [CommandState.store, h]
  split
  · rename_i hwrap
    rw [hindex] at hwrap
    rw [if_pos hwrap] at hmod hdiv
    exact
      { executed := hr.executed
        executed_le := by rw [hpub' _ rfl]; exact hr.executed_le
        room := hr.room
        address := hr.address
        type := hr.type
        place := by
          rw [hadv' _ rfl, hmod, hdiv, eventPhase_xor]
          exact ⟨rfl, congrArg (· ^^^ 1) hcycle⟩
        dequeue := hr.dequeue
        link := by
          rw [hadv' _ rfl, hdiv]
          show (write r.state.ring 255 _ 255).type = _ ∧ (write r.state.ring 255 _ 255).d3 &&& _ ≠ 0 ∧
            (write r.state.ring 255 _ 255).cycle = _
          rw [write_self, hcycle, Nat.add_sub_cancel]
          exact ⟨link_type (IsCycle.eventPhase _), link_word (IsCycle.eventPhase _)⟩
        queue := by
          obtain ⟨xs, hq, hxs⟩ := hr.queue
          rw [hpub' _ rfl]
          exact ⟨xs, hq.congr (fun i hi => write_of_ne (by omega)) (by decide), hxs⟩
        current := fun _ h7 => absurd (show Phase.doorbell.rank ≤ 7 from h7) (by decide)
        words := fun h4 => absurd (show Phase.doorbell.rank ≤ 4 from h4) (by decide) }
  · rename_i hwrap
    rw [hindex] at hwrap
    rw [if_neg hwrap] at hmod hdiv
    exact
      { executed := hr.executed
        executed_le := by rw [hpub' _ rfl]; exact hr.executed_le
        room := hr.room
        address := hr.address
        type := hr.type
        place := by
          rw [hadv' _ rfl, hmod, hdiv]
          exact ⟨congrArg (· + 1) hindex, hcycle⟩
        dequeue := hr.dequeue
        link := by
          rw [hadv' _ rfl, hdiv]
          exact hlink
        queue := by
          rw [hpub' _ rfl]
          exact hr.queue
        current := fun _ h7 => absurd (show Phase.doorbell.rank ≤ 7 from h7) (by decide)
        words := fun h4 => absurd (show Phase.doorbell.rank ≤ 4 from h4) (by decide) }

theorem RingInv.submit (hr : RingInv r) (h : r.Quiet) {command : XhciTrb} (hcommand : command.type ≠ trbLink)
    (hroom : r.submitted.length - r.executed.length < 254) :
    RingInv { r with
      state := r.state.submit command 0 0
      submitted := r.submitted ++ [(r.state.address r.state.commandIndex, command.clearCycle)] } := by
  have hadv := RingRun.advanced_of_quiet h
  have hpub := RingRun.published_of_quiet h
  have hle := hr.executed_le
  rw [hpub] at hle
  generalize hr' : RingRun.mk (r.state.submit command 0 0)
    (r.submitted ++ [(r.state.address r.state.commandIndex, command.clearCycle)]) r.executed = r'
  have hadv' : r'.advanced = r.advanced := by
    rw [hadv, ← hr']
    exact RingRun.advanced_eq (by simp) (show 1 ≤ Phase.storeD0.rank by decide)
      (show Phase.storeD0.rank ≤ 7 by decide)
  have hpub' : r'.published = r.published := by
    rw [hpub, ← hr', RingRun.published, if_pos]
    · simp
    · exact (by decide : 1 ≤ Phase.storeD0.rank ∧ Phase.storeD0.rank ≤ 4)
  have hsub : r'.submitted =
      r.submitted ++ [(r.state.address r.state.commandIndex, command.clearCycle)] := by rw [← hr']
  have hexec : r'.executed = r.executed := by rw [← hr']
  have hle' : r.executed.length ≤ r.submitted.length := hle
  refine
    { executed := ?_
      executed_le := ?_
      room := ?_
      address := ?_
      type := ?_
      place := ?_
      dequeue := ?_
      link := ?_
      queue := ?_
      current := ?_
      words := ?_ }
  · rw [hsub, hexec, List.take_append_of_le_length hle']
    exact hr.executed
  · rw [hexec, hpub', hpub]
    exact hle'
  · rw [hsub, hexec, List.length_append, List.length_singleton]
    omega
  · intro i hi
    have haddress : r'.state.address = r.state.address := by rw [← hr']; rfl
    rw [haddress]
    simp only [hsub] at hi ⊢
    rw [List.length_append, List.length_singleton] at hi
    by_cases hlt : i < r.submitted.length
    · rw [List.getElem_append_left hlt]
      exact hr.address i hlt
    · obtain rfl : i = r.submitted.length := by omega
      rw [List.getElem_concat_length rfl, hr.place.1, hadv]
  · intro x hx
    rw [hsub, List.mem_append, List.mem_singleton] at hx
    rcases hx with hx | rfl
    · exact hr.type x hx
    · show ((command.d3 &&& ~~~1) >>> 10) &&& 0x3f ≠ trbLink
      have hshift := (publish_word (show IsCycle 0 by simp [IsCycle]) command.d3).2.2
      rw [show command.d3 &&& ~~~1 ||| (0 : BitVec 32) = command.d3 &&& ~~~1 from BitVec.or_zero] at hshift
      rw [hshift]
      exact hcommand
  · rw [hadv', ← hr']
    exact hr.place
  · rw [hexec, ← hr']
    exact hr.dequeue
  · rw [hadv', ← hr']
    exact hr.link
  · rw [hexec, hpub', hsub, hpub, List.take_append_of_le_length (le_refl _)]
    obtain ⟨xs, hq, hxs⟩ := hr.queue
    rw [hpub] at hxs
    rw [← hr']
    exact ⟨xs, hq, hxs⟩
  · intro _ _
    rw [hsub, ← hr']
    exact ⟨by simp, rfl, List.getLast?_concat ..⟩
  · intro _
    rw [← hr']
    exact ⟨fun h => absurd (show 2 ≤ Phase.storeD0.rank from h) (by decide),
      fun h => absurd (show 3 ≤ Phase.storeD0.rank from h) (by decide),
      fun h => absurd (show 4 ≤ Phase.storeD0.rank from h) (by decide)⟩

/-! ## The controller -/

theorem type_clearCycle (t : XhciTrb) : t.clearCycle.type = t.type := by
  have hshift := (publish_word (show IsCycle 0 by simp [IsCycle]) t.d3).2.2
  rw [show t.d3 &&& ~~~1 ||| (0 : BitVec 32) = t.d3 &&& ~~~1 from BitVec.or_zero] at hshift
  rw [XhciTrb.type, XhciTrb.clearCycle, hshift, XhciTrb.type]

/-- **The controller takes the oldest command that is not executed.** -/
theorem RingInv.fetch_command (hr : RingInv r)
    (hplace : r.state.dequeue = ⟨r.executed.length % 255, eventPhase (r.executed.length / 255)⟩)
    (hcycle : (r.state.ring r.state.dequeue.index).cycle = r.state.dequeue.cycle) :
    RingInv r.fetch ∧ r.fetch.executed.length = r.executed.length + 1 := by
  obtain ⟨xs, hq, hxs⟩ := hr.queue
  have hlt := Nat.mod_lt r.executed.length (show 0 < 255 by decide)
  rw [hplace] at hcycle
  obtain ⟨x, xs, rfl⟩ := List.exists_cons_of_ne_nil ((hq.cycle_eq_iff (by decide)).mp hcycle)
  have hhead := hq.head
  have hlen := congrArg List.length hxs
  rw [List.length_map, List.length_map, List.length_drop, List.length_take, List.length_cons] at hlen
  have hm : r.executed.length < r.submitted.length := by omega
  -- the head of the queue is the next command
  rw [List.drop_eq_getElem_cons (by rw [List.length_take]; omega), List.map_cons, List.map_cons,
    List.getElem_take] at hxs
  obtain ⟨hx, hxs⟩ := List.cons.inj hxs
  have htype : x.type ≠ trbLink := by
    rw [← type_clearCycle, hx]
    exact hr.type _ (List.getElem_mem hm)
  have hexec : r.fetch.executed = r.executed ++ [r.submitted[r.executed.length]] := by
    rw [RingRun.fetch, hplace]
    simp only
    rw [hhead, if_neg htype, hx, ← hr.address _ hm]
  have hlen' : r.fetch.executed.length = r.executed.length + 1 := by
    rw [hexec, List.length_append, List.length_singleton]
  have hnext : r.fetch.state.dequeue = ⟨r.executed.length % 255 + 1, eventPhase (r.executed.length / 255)⟩ := by
    show next trbFormat r.state.ring r.state.dequeue = _
    rw [hplace, next]
    simp only [hhead, trbFormat, if_neg htype]
  obtain ⟨hmod, hdiv⟩ := next_index (N := 255) (r := r.executed.length) (by decide)
  refine ⟨?_, hlen'⟩
  exact
    { executed := by
        rw [hlen', hexec]
        show _ = r.submitted.take (r.executed.length + 1)
        rw [List.take_succ_eq_append_getElem hm]
        exact congrArg (· ++ _) hr.executed
      executed_le := by
        rw [hlen']
        show r.executed.length + 1 ≤ r.published
        omega
      room := by
        rw [hlen']
        have := hr.room
        show r.submitted.length ≤ _
        omega
      address := hr.address
      type := hr.type
      place := hr.place
      dequeue := by
        rw [hlen', hnext]
        by_cases hlast : r.executed.length % 255 + 1 = 255
        · rw [if_pos hlast] at hmod hdiv
          refine Or.inr ⟨hmod, Nat.succ_pos _, ?_⟩
          rw [hdiv, Nat.add_sub_cancel, hlast]
        · rw [if_neg hlast] at hmod hdiv
          refine Or.inl ?_
          rw [hmod, hdiv]
      link := hr.link
      queue := by
        rw [hlen']
        exact ⟨xs, hq.pop eventPhase_ne, hxs⟩
      current := hr.current
      words := hr.words }

/-- **The controller follows the Link TRB.** -/
theorem RingInv.fetch_link (hr : RingInv r) (hmod : r.executed.length % 255 = 0)
    (hpos : 0 < r.executed.length)
    (hplace : r.state.dequeue = ⟨255, eventPhase (r.executed.length / 255 - 1)⟩) :
    RingInv r.fetch ∧ r.fetch.executed = r.executed ∧
      r.fetch.state.dequeue = ⟨r.executed.length % 255, eventPhase (r.executed.length / 255)⟩ := by
  obtain ⟨htype, htoggle, -⟩ := hr.link
  have hexec : r.fetch.executed = r.executed := by
    rw [RingRun.fetch, hplace]
    exact if_pos htype
  have hnext : r.fetch.state.dequeue =
      ⟨r.executed.length % 255, eventPhase (r.executed.length / 255)⟩ := by
    obtain ⟨t, ht⟩ : ∃ t, r.executed.length / 255 = t + 1 := ⟨r.executed.length / 255 - 1, by omega⟩
    show next trbFormat r.state.ring r.state.dequeue = _
    rw [hplace, next]
    simp only [trbFormat, htype, if_true, if_pos htoggle]
    rw [hmod, ht, Nat.add_sub_cancel, eventPhase_xor]
  refine ⟨?_, hexec, hnext⟩
  exact
    { executed := by rw [hexec]; exact hr.executed
      executed_le := by rw [hexec]; exact hr.executed_le
      room := by rw [hexec]; exact hr.room
      address := hr.address
      type := hr.type
      place := hr.place
      dequeue := by
        rw [hexec]
        exact Or.inl hnext
      link := hr.link
      queue := by rw [hexec]; exact hr.queue
      current := hr.current
      words := hr.words }

/-! ## Runs -/

theorem RingInv.step {r' : RingRun} (hr : RingInv r) (h : RingStep r r') : RingInv r' := by
  cases h with
  | submit h command hcommand hroom => exact hr.submit h hcommand hroom
  | store h =>
    cases hp : r.state.phase with
    | idle => exact absurd h.1 (by rw [hp]; decide)
    | storeD0 =>
      simp only [CommandState.store, hp]
      refine hr.word ?_ ?_ ?_ rfl ?_ ?_ ?_ <;> rw [hp] <;> first | decide | rfl
    | storeD1 =>
      simp only [CommandState.store, hp]
      refine hr.word ?_ ?_ ?_ rfl ?_ ?_ ?_ <;> rw [hp] <;> first | decide | rfl
    | storeD2 =>
      simp only [CommandState.store, hp]
      refine hr.word ?_ ?_ ?_ rfl ?_ ?_ ?_ <;> rw [hp] <;> first | decide | rfl
    | storeD3 => exact hr.publish hp
    | storePending =>
      simp only [CommandState.store, hp]
      exact hr.same (by rw [hp]; decide) (by decide) (by rw [hp]; decide) _ _ _
    | storeDone =>
      simp only [CommandState.store, hp]
      exact hr.same (by rw [hp]; decide) (by decide) (by rw [hp]; decide) _ _ _
    | advance => exact hr.advance hp
    | doorbell => exact absurd h.2 (by rw [hp]; decide)
    | waiting => exact absurd h.2 (by rw [hp]; decide)
  | doorbell h =>
    exact hr.same (by rw [h]; decide) (by decide) (by rw [h]; decide) _ _ _
  | fetch hcycle =>
    rcases hr.dequeue with hplace | ⟨hmod, hpos, hplace⟩
    · exact (hr.fetch_command hplace hcycle).1
    · exact (hr.fetch_link hmod hpos hplace).1

theorem ringInv_start (base : BitVec 64) (events : EventState) : RingInv (ringStart base events) where
  executed := rfl
  executed_le := Nat.zero_le _
  room := Nat.zero_le _
  address i h := absurd h (Nat.not_lt_zero i)
  type x hx := absurd hx (by simp [ringStart])
  place := ⟨rfl, by
    rw [RingRun.advanced_of_quiet (Or.inl rfl)]
    simp [ringStart, commandStart, eventPhase]⟩
  dequeue := Or.inl (by simp [ringStart, commandStart, eventPhase])
  link := by
    have hone : IsCycle 1 := by simp [IsCycle]
    obtain ⟨h1, h2⟩ := link_word hone
    simp only [ringStart, commandStart, write_self]
    exact ⟨link_type hone, h1, h2.trans (show (1 : BitVec 32) = eventPhase (0 / 255 - 1) by decide)⟩
  queue := by
    refine ⟨[], ⟨Nat.zero_le _, fun k h => absurd h (Nat.not_lt_zero k), fun k _ hk => ?_⟩, rfl⟩
    simp only [ringStart, commandStart, List.length_nil]
    rw [Nat.zero_add, Nat.mod_eq_of_lt hk, Nat.div_eq_of_lt hk, write_of_ne (by omega)]
    decide
  current h := absurd (show 1 ≤ Phase.idle.rank from h) (by decide)
  words _ := ⟨fun h => absurd (show 2 ≤ Phase.idle.rank from h) (by decide),
    fun h => absurd (show 3 ≤ Phase.idle.rank from h) (by decide),
    fun h => absurd (show 4 ≤ Phase.idle.rank from h) (by decide)⟩

/-- What the controller executes when it is left alone, one entry at a time. -/
theorem RingRun.rest_succ (n : Nat)
    (hcycle : (r.state.ring r.state.dequeue.index).cycle = r.state.dequeue.cycle) :
    r.executed ++ r.rest (n + 1) = r.fetch.executed ++ r.fetch.rest n := by
  have hd := drain_succ (F := trbFormat) (n := n) hcycle
  rw [RingRun.rest, hd, RingRun.fetch, RingRun.rest]
  simp only [List.filter_cons]
  by_cases htype : (r.state.ring r.state.dequeue.index).type = trbLink
  · rw [if_neg (by simp [htype]), if_pos htype]
    rfl
  · rw [if_pos (by simp [htype]), if_neg htype, List.map_cons, List.append_assoc]
    rfl

/-- **Left alone, the controller executes what is outstanding.**  It takes one entry for every command,
and the Link TRB in between. -/
theorem RingInv.executed_rest : ∀ {n : Nat} {r : RingRun}, RingInv r → r.Quiet →
    2 * (r.submitted.length - r.executed.length) + (if r.state.dequeue.index = 255 then 1 else 0) ≤ n →
    r.executed ++ r.rest n = r.submitted
  | n, r, hr, hquiet, hn => by
    have hpub := RingRun.published_of_quiet hquiet
    have hadv := RingRun.advanced_of_quiet hquiet
    have hle := hr.executed_le
    have hroom := hr.room
    have hlt := Nat.mod_lt r.executed.length (show 0 < 255 by decide)
    rw [hpub] at hle
    by_cases hcycle : (r.state.ring r.state.dequeue.index).cycle = r.state.dequeue.cycle
    · rcases hr.dequeue with hplace | ⟨hmod, hpos, hplace⟩
      · obtain ⟨hinv, hlen⟩ := hr.fetch_command hplace hcycle
        have hle' := hinv.executed_le
        have hpub' : r.fetch.published = r.published := rfl
        rw [hlen, hpub', hpub] at hle'
        obtain ⟨n, rfl⟩ : ∃ k, n = k + 1 := ⟨n - 1, by omega⟩
        rw [RingRun.rest_succ n hcycle]
        refine hinv.executed_rest hquiet ?_
        rw [hlen]
        show 2 * (r.submitted.length - _) + _ ≤ n
        split <;> omega
      · obtain ⟨hinv, hexec, hnext⟩ := hr.fetch_link hmod hpos hplace
        rw [hplace, if_pos rfl] at hn
        obtain ⟨n, rfl⟩ : ∃ k, n = k + 1 := ⟨n - 1, by omega⟩
        rw [RingRun.rest_succ n hcycle]
        refine hinv.executed_rest hquiet ?_
        rw [hexec, hnext, if_neg (by simp only; omega)]
        show 2 * (r.submitted.length - _) + _ ≤ n
        omega
    · have hrest : r.rest n = [] := by
        rw [RingRun.rest, drain_stopped (F := trbFormat) hcycle]
        rfl
      have hall : r.executed.length = r.submitted.length := by
        rcases hr.dequeue with hplace | ⟨hmod, hpos, hplace⟩
        · obtain ⟨xs, hq, hxs⟩ := hr.queue
          have hlen := congrArg List.length hxs
          rw [List.length_map, List.length_map, List.length_drop, List.length_take, hpub] at hlen
          rw [hplace] at hcycle
          have hnil : xs = [] := by
            by_contra hne
            exact hcycle ((hq.cycle_eq_iff (by decide)).mpr hne)
          rw [hnil, List.length_nil] at hlen
          omega
        · -- less than a traversal behind, so the Link TRB has the right cycle
          exfalso
          refine hcycle ?_
          rw [hplace]
          have hlink := hr.link.2.2
          rw [hadv] at hlink
          rw [hlink]
          congr 2
          omega
      rw [hrest, List.append_nil, hr.executed, hall, List.take_length]

/-- **The command ring.**  In every run in which at most 254 commands are outstanding, whatever the
controller and the stores of `submit_command` do in between: the controller has executed the first
commands that were submitted, in order, each at the address that `submit_command` returns, and nothing
else; and whenever `submit_command` is not running, it will execute all the others. -/
theorem command_ring (base : BitVec 64) (events : EventState) (r : RingRun)
    (hrun : Relation.ReflTransGen RingStep (ringStart base events) r) :
    r.executed <+: r.submitted ∧
      (r.Quiet → ∀ n, 509 ≤ n → r.executed ++ r.rest n = r.submitted) := by
  have hinv : RingInv r := by
    induction hrun with
    | refl => exact ringInv_start base events
    | tail _ hstep ih => exact ih.step hstep
  refine ⟨?_, fun hquiet n hn => hinv.executed_rest hquiet ?_⟩
  · rw [hinv.executed]
    exact List.take_prefix _ _
  · have := hinv.room
    split <;> omega

/-- The next `k` stores of `submit_command`. -/
theorem ringStep_stores {k : Nat} (h1 : 1 ≤ r.state.phase.rank) (h : r.state.phase.rank + k ≤ 8) :
    Relation.ReflTransGen RingStep r { r with state := CommandState.store^[k] r.state } ∧
      (CommandState.store^[k] r.state).phase.rank = r.state.phase.rank + k := by
  induction k with
  | zero => exact ⟨Relation.ReflTransGen.refl, rfl⟩
  | succ k ih =>
    obtain ⟨hreach, hrank⟩ := ih (by omega)
    rw [Function.iterate_succ_apply']
    refine ⟨hreach.tail (RingStep.store (r := { r with state := CommandState.store^[k] r.state })
      ⟨?_, ?_⟩), ?_⟩
    · show 1 ≤ (CommandState.store^[k] r.state).phase.rank
      omega
    · show (CommandState.store^[k] r.state).phase.rank ≤ 7
      omega
    · rw [rank_store (by omega) (by omega), hrank, Nat.add_assoc]

end

/-- One command was submitted, and the controller has not seen it yet. -/
def oneCommand : RingRun where
  state := (CommandState.store^[7] ((commandStart 0x1000 {}).submit noopCommand 0 0)).ringDoorbell 0
  submitted := [(0x1000, noopCommand)]
  executed := []

theorem oneCommand_reached : Relation.ReflTransGen RingStep (ringStart 0x1000 {}) oneCommand := by
  have hsubmit : RingStep (ringStart 0x1000 {}) _ :=
    RingStep.submit (Or.inl rfl) noopCommand (by decide) (by decide)
  obtain ⟨hstores, hrank⟩ := ringStep_stores (r := ⟨(commandStart 0x1000 {}).submit noopCommand 0 0,
    [(0x1000, noopCommand)], []⟩) (k := 7) (by decide) (by decide)
  exact (((Relation.ReflTransGen.single hsubmit).trans hstores).tail
    (RingStep.doorbell (by decide +kernel)) : _)

/-- The controller will execute the command. -/
theorem command_ring_one : oneCommand.executed <+: oneCommand.submitted ∧
    (oneCommand.Quiet → ∀ n, 509 ≤ n →
      oneCommand.executed ++ oneCommand.rest n = oneCommand.submitted) :=
  command_ring 0x1000 {} oneCommand oneCommand_reached

end Dem64
