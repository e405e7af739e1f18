import Dem64.Keyboard.Scancodes
import Dem64.Lib.RecentRing

/-!
# The keyboard interrupt

`keyboard_handler` (`ps2.cpp`) takes a byte from the controller, stores it, decodes it and stores the character, if
there is one.  The two buffers of the keyboard have 256 cells each.

`keyboardHandler_buffers` is about any sequences of keys that come in by any interrupts: the buffers are rings that hold
the last 256 bytes and the last 256 characters of the layout.  Only F11 is left out, for which the handler does not
return.
-/

set_option autoImplicit false

namespace Dem64

namespace Keyboard

open RecentRing

/-! ## The handler -/

/-- The members of the base class `keyboard`, which the handler uses; those of `PS2K` with the same names are others. -/
structure KeyboardBuffers where
  scancodeTop : Nat := 0
  asciiTop : Nat := 0
  buffer : Nat → BitVec 8
  ascii : Nat → BitVec 8

/-- What the handler uses. -/
structure KeyboardState where
  /-- `globalkeyboard->keyboards[0]`, once it is `set`. -/
  global : Option KeyboardBuffers
  /-- The static variables of `scancode_to_ascii`. -/
  decoder : Decoder
  /-- `keyboard_irq_count`. -/
  keyboardIrqCount : BitVec 64
  /-- The calls of `AcpiShutDown` that have returned. -/
  shutdowns : Nat

/-- An interrupt: what the status and the data port show. -/
structure Interrupt where
  status : BitVec 8
  scancode : BitVec 8

/-- `top++`, and 0 behind the last cell. -/
def wrapTop (top : Nat) : Nat := if top = 256 then 0 else top

/-- `keyboard_handler`.  What the cells of a new object hold is `uninit`; `none` is a handler that does not return. -/
def keyboardHandler (uninit : Nat → BitVec 8) (s : KeyboardState) (irq : Interrupt) : Option KeyboardState :=
  let k := s.global.getD { buffer := uninit, ascii := fun i => uninit (256 + i) }
  if irq.status &&& 1 ≠ 0 then
    let scancode := irq.scancode
    -- AcpiReset halts for ever
    if scancode = 0x57 then none
    else
      let shutdowns := if scancode = 0x58 then s.shutdowns + 1 else s.shutdowns
      let k := { k with buffer := Function.update k.buffer k.scancodeTop scancode, scancodeTop := k.scancodeTop + 1 }
      let (ascii, decoder) := scancodeToAscii s.decoder scancode
      let k :=
        if ascii ≠ 0 ∧ scancode &&& 0x80 = 0 then
          { k with ascii := Function.update k.ascii k.asciiTop ascii, asciiTop := k.asciiTop + 1 }
        else k
      some {
        global := some { k with scancodeTop := wrapTop k.scancodeTop, asciiTop := wrapTop k.asciiTop }
        decoder := decoder
        keyboardIrqCount := s.keyboardIrqCount + 1
        shutdowns := shutdowns }
  else some { s with global := some k }

/-- The interrupts one after the other. -/
def handleAll (uninit : Nat → BitVec 8) (s : KeyboardState) : List Interrupt → Option KeyboardState
  | [] => some s
  | irq :: irqs => (keyboardHandler uninit s irq).bind fun s => handleAll uninit s irqs

/-- Before the first interrupt. -/
def KeyboardState.start : KeyboardState := ⟨none, {}, 0, 0⟩

/-! ## What has come in -/

/-- The byte that an interrupt brings. -/
def Interrupt.byte (irq : Interrupt) : Option (BitVec 8) :=
  if irq.status &&& 1 ≠ 0 then some irq.scancode else none

/-- The bytes that have come in. -/
def received (irqs : List Interrupt) : List (BitVec 8) := irqs.filterMap Interrupt.byte

/-- The buffers hold the last bytes and the last characters. -/
structure Typed (uninit : Nat → BitVec 8) (bytes : List (BitVec 8)) (s : KeyboardState) : Prop where
  decoder : s.decoder = (decode {} bytes).2
  count : s.keyboardIrqCount = BitVec.ofNat 64 bytes.length
  shutdowns : s.shutdowns = bytes.count 0x58
  buffer : ∃ k, s.global.getD { buffer := uninit, ascii := fun i => uninit (256 + i) } = k ∧
    Holds 256 uninit k.buffer k.scancodeTop bytes ∧
    Holds 256 (fun i => uninit (256 + i)) k.ascii k.asciiTop ((decode {} bytes).1.filter (· ≠ 0))

variable {uninit : Nat → BitVec 8} {s : KeyboardState} {bytes : List (BitVec 8)} {irq : Interrupt}

theorem Typed.start : Typed uninit [] .start where
  decoder := rfl
  count := rfl
  shutdowns := rfl
  buffer := ⟨_, rfl, .empty, .empty⟩

/-- A character is that of a key that is pressed. -/
theorem pressed_of_ascii {d : Decoder} {scancode : BitVec 8} (h : (scancodeToAscii d scancode).1 ≠ 0) :
    scancode &&& 0x80 = 0 := by
  by_contra hreleased
  refine h ?_
  simp only [scancodeToAscii, hreleased, ne_eq, not_false_eq_true, decide_true, Bool.not_true, Bool.false_eq_true,
    false_and, if_false, if_true]
  repeat' split
  all_goals rfl

/-- **An interrupt that brings a byte.** -/
theorem Typed.byte (h : Typed uninit bytes s) (hstatus : irq.status &&& 1 ≠ 0) (hreset : irq.scancode ≠ 0x57) :
    ∃ s', keyboardHandler uninit s irq = some s' ∧ Typed uninit (bytes ++ [irq.scancode]) s' := by
  obtain ⟨k, hk, hbuffer, hascii⟩ := h.buffer
  have hdecode : decode {} (bytes ++ [irq.scancode]) =
      ((decode {} bytes).1 ++ [(scancodeToAscii s.decoder irq.scancode).1],
        (scancodeToAscii s.decoder irq.scancode).2) := by
    rw [decode_append, h.decoder]
    rfl
  have hpush := hbuffer.push (by decide) irq.scancode
  refine ⟨_, by rw [keyboardHandler, hk, if_pos hstatus]; dsimp only; rw [if_neg hreset], ?_, ?_, ?_, _, rfl, ?_, ?_⟩
  · rw [hdecode]
  · rw [List.length_append, List.length_singleton, BitVec.ofNat_add, ← h.count]
    rfl
  · rw [List.count_append, ← h.shutdowns, List.count_singleton]
    dsimp only
    by_cases hoff : irq.scancode = 0x58
    · rw [if_pos hoff, hoff]
      rfl
    · rw [if_neg hoff, if_neg (by simpa using hoff)]
      rfl
  · -- the character does not matter to the buffer of the bytes
    dsimp only [Option.getD_some]
    split <;> exact hpush
  · rw [hdecode, List.filter_append]
    dsimp only [Option.getD_some]
    by_cases hchar : (scancodeToAscii s.decoder irq.scancode).1 = 0
    · rw [if_neg fun h => h.1 hchar, hchar]
      dsimp only
      rw [wrapTop, if_neg (Nat.ne_of_lt (hascii.top_lt (by decide)))]
      simpa using hascii
    · rw [if_pos ⟨hchar, pressed_of_ascii hchar⟩]
      have hpush := hascii.push (by decide) (scancodeToAscii s.decoder irq.scancode).1
      have hlast : [(scancodeToAscii s.decoder irq.scancode).1].filter (· ≠ 0) =
          [(scancodeToAscii s.decoder irq.scancode).1] := List.filter_eq_self.mpr (by simpa using hchar)
      rw [hlast]
      exact hpush

/-- An interrupt that brings nothing. -/
theorem Typed.nothing (h : Typed uninit bytes s) (hstatus : ¬ irq.status &&& 1 ≠ 0) :
    ∃ s', keyboardHandler uninit s irq = some s' ∧ Typed uninit bytes s' := by
  obtain ⟨k, hk, hbuffer, hascii⟩ := h.buffer
  have hrun : keyboardHandler uninit s irq = some { s with global := some k } := by
    rw [keyboardHandler, hk, if_neg hstatus]
  exact ⟨_, hrun, h.decoder, h.count, h.shutdowns, k, rfl, hbuffer, hascii⟩

/-- **The interrupts keep the buffers.** -/
theorem Typed.handleAll (irqs : List Interrupt) (h : Typed uninit bytes s) (hreset : 0x57 ∉ received irqs) :
    ∃ s', handleAll uninit s irqs = some s' ∧ Typed uninit (bytes ++ received irqs) s' := by
  induction irqs generalizing s bytes with
  | nil => exact ⟨s, rfl, by rwa [received, List.filterMap_nil, List.append_nil]⟩
  | cons irq irqs ih =>
    by_cases hstatus : irq.status &&& 1 ≠ 0
    · have hbyte : irq.byte = some irq.scancode := if_pos hstatus
      have hreceived : received (irq :: irqs) = irq.scancode :: received irqs := List.filterMap_cons_some hbyte
      rw [hreceived, List.mem_cons, not_or] at hreset
      obtain ⟨s₁, hrun, h₁⟩ := h.byte hstatus (Ne.symm hreset.1)
      obtain ⟨s', hrun', h'⟩ := ih h₁ hreset.2
      rw [Keyboard.handleAll, hrun, hreceived]
      exact ⟨s', hrun', by simpa using h'⟩
    · have hbyte : irq.byte = none := if_neg hstatus
      have hreceived : received (irq :: irqs) = received irqs := List.filterMap_cons_none hbyte
      rw [hreceived] at hreset
      obtain ⟨s₁, hrun, h₁⟩ := h.nothing hstatus
      obtain ⟨s', hrun', h'⟩ := ih h₁ hreset
      rw [Keyboard.handleAll, hrun, hreceived]
      exact ⟨s', hrun', h'⟩

/-- The characters of some sequences. -/
def typed (sequences : List Sequence) : List (BitVec 8) := (charactersFrom [] sequences).filter (· ≠ 0)

/-- A handler that has run has an object for the keyboard. -/
theorem keyboardHandler_global {s' : KeyboardState} (h : keyboardHandler uninit s irq = some s') :
    s'.global.isSome = true := by
  rw [keyboardHandler] at h
  dsimp only at h
  split at h
  · split at h
    · cases h
    · cases h
      rfl
  · cases h
    rfl

theorem handleAll_global {irqs : List Interrupt} {s' : KeyboardState} (h : handleAll uninit s irqs = some s')
    (hs : irqs ≠ [] ∨ s.global.isSome = true) : s'.global.isSome = true := by
  induction irqs generalizing s with
  | nil =>
    cases h
    exact hs.resolve_left (fun h => h rfl)
  | cons irq irqs ih =>
    obtain ⟨s₁, hrun, hrest⟩ := Option.bind_eq_some_iff.mp h
    exact ih hrest (.inr (keyboardHandler_global hrun))

/-- **The keyboard buffers.**  Whatever keys are typed, and whatever interrupts without a byte there are in between, the
buffers hold the last 256 bytes that came in and the last 256 characters of the layout, each at its place; the memory
around them is as it was; and the count is that of the bytes.  F11 is not among the keys. -/
theorem keyboardHandler_buffers (uninit : Nat → BitVec 8) (sequences : List Sequence) (irqs : List Interrupt)
    (hbytes : received irqs = sequences.flatMap Sequence.bytes) (hreset : 0x57 ∉ received irqs) (hsome : irqs ≠ []) :
    ∃ s k, handleAll uninit .start irqs = some s ∧ s.global = some k ∧
      Holds 256 uninit k.buffer k.scancodeTop (sequences.flatMap Sequence.bytes) ∧
      Holds 256 (fun i => uninit (256 + i)) k.ascii k.asciiTop (typed sequences) ∧
      s.decoder = remembered sequences ∧
      s.keyboardIrqCount = BitVec.ofNat 64 (sequences.flatMap Sequence.bytes).length := by
  have hstart : Typed uninit [] .start := .start
  obtain ⟨s, hrun, hs⟩ := hstart.handleAll irqs hreset
  obtain ⟨k, hk⟩ := Option.isSome_iff_exists.mp (handleAll_global hrun (.inl hsome))
  rw [List.nil_append, hbytes] at hs
  obtain ⟨k', hk', hbuffer, hascii⟩ := hs.buffer
  rw [hk, Option.getD_some] at hk'
  subst hk'
  have hdecode : decode {} (sequences.flatMap Sequence.bytes) =
      (charactersFrom [] sequences, remembered sequences) := decode_from [] sequences
  rw [hdecode] at hascii
  exact ⟨s, k, hrun, hk, hbuffer, hascii, by rw [hs.decoder, hdecode], hs.count⟩

/-- Shift is pressed, then A, with an interrupt that brings nothing in between. -/
theorem keyboardHandler_buffers_shift : ∃ s k,
    handleAll (fun _ => 0xCC) .start [⟨1, 0x2A⟩, ⟨0, 0x1E⟩, ⟨1, 0x1E⟩] = some s ∧ s.global = some k ∧
      Holds 256 (fun _ => 0xCC) k.buffer k.scancodeTop [0x2A, 0x1E] ∧
      Holds 256 (fun _ => 0xCC) k.ascii k.asciiTop
        (typed [.key ⟨0x2A, by decide⟩, .key ⟨0x1E, by decide⟩]) ∧
      s.decoder = remembered [.key ⟨0x2A, by decide⟩, .key ⟨0x1E, by decide⟩] ∧
      s.keyboardIrqCount = BitVec.ofNat 64 2 :=
  keyboardHandler_buffers (fun _ => 0xCC) [.key ⟨0x2A, by decide⟩, .key ⟨0x1E, by decide⟩] _ rfl (by decide) nofun

end Keyboard

end Dem64
