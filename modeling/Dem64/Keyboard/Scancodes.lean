import Mathlib.Data.BitVec
import Mathlib.Tactic.Common

/-!
# Scan codes

`scancode_to_ascii` takes the bytes of a keyboard one by one and remembers, from one to the next, what is held, what
is locked and where in a sequence it is.  The bytes come in sequences: a key, a key with the prefix 0xE0, or the six
bytes of Pause.  After any sequences, in any order, what it remembers is what their keys say, and the characters that
it gave are those of the layout (`decode_sequences`).
-/

set_option autoImplicit false

namespace Dem64

namespace Keyboard

/-! ## The decoder -/

/-- `struct KeyMap`. -/
structure KeyMap where
  scancode : BitVec 8
  normal : Char
  shifted : Char

/-- `keymap`. -/
def keymap : List KeyMap := [
  ⟨0x02, '1', '!'⟩, ⟨0x03, '2', '@'⟩,
  ⟨0x04, '3', '#'⟩, ⟨0x05, '4', '$'⟩,
  ⟨0x06, '5', '%'⟩, ⟨0x07, '6', '^'⟩,
  ⟨0x08, '7', '&'⟩, ⟨0x09, '8', '*'⟩,
  ⟨0x0A, '9', '('⟩, ⟨0x0B, '0', ')'⟩,
  ⟨0x0C, '-', '_'⟩, ⟨0x0D, '=', '+'⟩,
  -- `'\b'`
  ⟨0x0E, Char.ofNat 0x08, Char.ofNat 0x08⟩, ⟨0x0F, '\t', '\t'⟩,
  ⟨0x10, 'q', 'Q'⟩, ⟨0x11, 'w', 'W'⟩,
  ⟨0x12, 'e', 'E'⟩, ⟨0x13, 'r', 'R'⟩,
  ⟨0x14, 't', 'T'⟩, ⟨0x15, 'y', 'Y'⟩,
  ⟨0x16, 'u', 'U'⟩, ⟨0x17, 'i', 'I'⟩,
  ⟨0x18, 'o', 'O'⟩, ⟨0x19, 'p', 'P'⟩,
  -- the braces
  ⟨0x1A, '[', Char.ofNat 0x7B⟩, ⟨0x1B, ']', Char.ofNat 0x7D⟩,
  ⟨0x1C, '\n', '\n'⟩,
  ⟨0x1E, 'a', 'A'⟩, ⟨0x1F, 's', 'S'⟩,
  ⟨0x20, 'd', 'D'⟩, ⟨0x21, 'f', 'F'⟩,
  ⟨0x22, 'g', 'G'⟩, ⟨0x23, 'h', 'H'⟩,
  ⟨0x24, 'j', 'J'⟩, ⟨0x25, 'k', 'K'⟩,
  ⟨0x26, 'l', 'L'⟩, ⟨0x27, ';', ':'⟩,
  -- the quotes, and the backquote
  ⟨0x28, Char.ofNat 0x27, Char.ofNat 0x22⟩, ⟨0x29, Char.ofNat 0x60, '~'⟩,
  -- the backslash
  ⟨0x2B, Char.ofNat 0x5C, '|'⟩,
  ⟨0x2C, 'z', 'Z'⟩, ⟨0x2D, 'x', 'X'⟩,
  ⟨0x2E, 'c', 'C'⟩, ⟨0x2F, 'v', 'V'⟩,
  ⟨0x30, 'b', 'B'⟩, ⟨0x31, 'n', 'N'⟩,
  ⟨0x32, 'm', 'M'⟩, ⟨0x33, ',', '<'⟩,
  ⟨0x34, '.', '>'⟩, ⟨0x35, '/', '?'⟩,
  ⟨0x37, '*', '*'⟩, ⟨0x39, ' ', ' '⟩,
  ⟨0x4A, '-', '-'⟩, ⟨0x4E, '+', '+'⟩]

/-- A `char`. -/
def char (c : Char) : BitVec 8 := BitVec.ofNat 8 c.toNat

/-- The rest of the loop of `lookup_scancode`. -/
def lookupLoop (code : BitVec 8) (shift capsLock : Bool) : List KeyMap → BitVec 8
  | [] => 0
  | key :: keys =>
    if key.scancode ≠ code then lookupLoop code shift capsLock keys
    else if 'a' ≤ key.normal ∧ key.normal ≤ 'z' then
      char (if capsLock ^^ shift then key.shifted else key.normal)
    else char (if shift then key.shifted else key.normal)

/-- `lookup_scancode`. -/
def lookupScancode (code : BitVec 8) (shift capsLock : Bool) : BitVec 8 := lookupLoop code shift capsLock keymap

/-- The static variables of `scancode_to_ascii`. -/
structure Decoder where
  leftShift : Bool := false
  rightShift : Bool := false
  capsLock : Bool := false
  capsDown : Bool := false
  numLock : Bool := false
  numDown : Bool := false
  extended : Bool := false
  pauseBytes : BitVec 8 := 0
  deriving DecidableEq

/-- The `switch` over the keypad. -/
def keypadDigit (code : BitVec 8) : BitVec 8 :=
  if code = 0x47 then char '7'
  else if code = 0x48 then char '8'
  else if code = 0x49 then char '9'
  else if code = 0x4B then char '4'
  else if code = 0x4C then char '5'
  else if code = 0x4D then char '6'
  else if code = 0x4F then char '1'
  else if code = 0x50 then char '2'
  else if code = 0x51 then char '3'
  else if code = 0x52 then char '0'
  else if code = 0x53 then char '.'
  else 0

/-- `scancode_to_ascii` behind the `switch` over the modifiers, for a key that is pressed. -/
def keyToAscii (shift capsLock numLock : Bool) (code : BitVec 8) : BitVec 8 :=
  if code = 0x4A then char '-'
  else if code = 0x4E then char '+'
  else if 0x47 ≤ code ∧ code ≤ 0x53 then
    if (numLock ^^ shift) ∧ keypadDigit code ≠ 0 then keypadDigit code else 0
  else lookupScancode code shift capsLock

/-- `scancode_to_ascii`. -/
def scancodeToAscii (s : Decoder) (scancode : BitVec 8) : BitVec 8 × Decoder :=
  if s.pauseBytes ≠ 0 then (0, { s with pauseBytes := s.pauseBytes - 1 })
  else if scancode = 0xE1 then (0, { s with pauseBytes := 5, extended := false })
  else if scancode = 0xE0 then (0, { s with extended := true })
  else
    let ext := s.extended
    let s := { s with extended := false }
    let released := decide (scancode &&& 0x80 ≠ 0)
    let code := scancode &&& 0x7F
    if ext then
      if !released ∧ code = 0x1C then (char '\n', s)
      else if !released ∧ code = 0x35 then (char '/', s)
      else (0, s)
    else if code = 0x2A then (0, { s with leftShift := !released })
    else if code = 0x36 then (0, { s with rightShift := !released })
    else if code = 0x3A then
      if released then (0, { s with capsDown := false })
      else if !s.capsDown then (0, { s with capsLock := !s.capsLock, capsDown := true })
      else (0, s)
    else if code = 0x45 then
      if released then (0, { s with numDown := false })
      else if !s.numDown then (0, { s with numLock := !s.numLock, numDown := true })
      else (0, s)
    else if released then (0, s)
    else (keyToAscii (s.leftShift || s.rightShift) s.capsLock s.numLock code, s)

/-- The bytes one after the other: the characters, and what is remembered. -/
def decode (s : Decoder) : List (BitVec 8) → List (BitVec 8) × Decoder
  | [] => ([], s)
  | scancode :: scancodes =>
    let (ascii, s) := scancodeToAscii s scancode
    let (rest, s) := decode s scancodes
    (ascii :: rest, s)

/-! ## Sequences -/

/-- A byte of a key: its code, and in the upper bit whether the key is released. -/
def KeyByte : Type := { byte : BitVec 8 // byte ≠ 0xE0 ∧ byte ≠ 0xE1 }

/-- What a keyboard sends in one piece. -/
inductive Sequence
  /-- A key. -/
  | key (byte : KeyByte)
  /-- A key with the prefix 0xE0, or a shift that the keyboard makes up around one. -/
  | extended (byte : KeyByte)
  /-- Pause, which is never released. -/
  | pause

/-- The bytes of a sequence. -/
def Sequence.bytes : Sequence → List (BitVec 8)
  | .key byte => [byte.val]
  | .extended byte => [0xE0, byte.val]
  | .pause => [0xE1, 0x1D, 0x45, 0xE1, 0x9D, 0xC5]

/-- The key `code` is pressed or released by the sequence. -/
def Sequence.turns (code : BitVec 8) : Sequence → Option Bool
  | .key byte => if byte.val = code then some true else if byte.val = code ||| 0x80 then some false else none
  | _ => none

/-- Whether a key is held after some sequences: whether it was pressed last. -/
def held (code : BitVec 8) (sequences : List Sequence) : Bool :=
  sequences.foldl (fun down sequence => (sequence.turns code).getD down) false

/-- The times that a key is pressed and not held already, in the sequences behind some others. -/
def presses (code : BitVec 8) (before : List Sequence) : List Sequence → Nat
  | [] => 0
  | sequence :: sequences =>
    (if sequence.turns code = some true ∧ held code before = false then 1 else 0) +
      presses code (before ++ [sequence]) sequences

/-- A shift key is held. -/
def shiftHeld (sequences : List Sequence) : Bool := held 0x2A sequences || held 0x36 sequences

/-- A lock key was pressed an odd number of times. -/
def locked (code : BitVec 8) (sequences : List Sequence) : Bool := decide (presses code [] sequences % 2 = 1)

/-! ## The layout -/

/-- The keys in rows: the first code of a row, and its characters without and with shift. -/
def rows : List (Nat × String × String) := [
  (0x02, "1234567890-=\x08\t", "!@#$%^&*()_+\x08\t"),
  (0x10, "qwertyuiop[]\n", "QWERTYUIOP\x7b\x7d\n"),
  (0x1E, "asdfghjkl;'`", "ASDFGHJKL:\"~"),
  (0x2B, "\\zxcvbnm,./", "|ZXCVBNM<>?"),
  (0x37, "*", "*"),
  (0x39, " ", " ")]

/-- The keypad, from 0x47 on. -/
def keypad : String := "789-456+1230."

/-- The character at a place of a row. -/
def inRow (first : Nat) (row : String) (code : Nat) : Option Char :=
  if first ≤ code then row.toList[code - first]? else none

/-- The character of a key.  Caps Lock turns the shift of the letters around, and Num Lock that of the keypad, where a
digit needs one of both. -/
def character (shift capsLock numLock : Bool) (code : Nat) : Option Char :=
  match inRow 0x47 keypad code with
  | some c => if c = '-' ∨ c = '+' ∨ (numLock ^^ shift) then some c else none
  | none => rows.findSome? fun row => do
    let normal ← inRow row.1 row.2.1 code
    let shifted ← inRow row.1 row.2.2 code
    return if if normal.isLower then capsLock ^^ shift else shift then shifted else normal

/-- The `char`s that are given for the bytes of a sequence, behind some others. -/
def Sequence.characters (before : List Sequence) : Sequence → List (BitVec 8)
  | .key byte =>
    [if byte.val < 0x80 then
      ((character (shiftHeld before) (locked 0x3A before) (locked 0x45 before) byte.val.toNat).map char).getD 0
    else 0]
  | .extended byte => [0, if byte.val = 0x1C then char '\n' else if byte.val = 0x35 then char '/' else 0]
  | .pause => List.replicate 6 0

/-- The `char`s for all bytes, behind some others. -/
def charactersFrom (before : List Sequence) : List Sequence → List (BitVec 8)
  | [] => []
  | sequence :: sequences => sequence.characters before ++ charactersFrom (before ++ [sequence]) sequences

/-- What is remembered of some sequences. -/
def remembered (sequences : List Sequence) : Decoder where
  leftShift := held 0x2A sequences
  rightShift := held 0x36 sequences
  capsLock := locked 0x3A sequences
  capsDown := held 0x3A sequences
  numLock := locked 0x45 sequences
  numDown := held 0x45 sequences
  extended := false
  pauseBytes := 0

/-! ## One sequence -/

section

variable {code : BitVec 8} {before sequences : List Sequence} {sequence : Sequence}

/-- **The keys have the characters of the layout.** -/
theorem keyToAscii_eq (shift capsLock numLock : Bool) {code : Nat} (hcode : code < 128) :
    keyToAscii shift capsLock numLock (BitVec.ofNat 8 code) =
      ((character shift capsLock numLock code).map char).getD 0 := by
  revert code
  revert shift capsLock numLock
  decide +kernel

theorem held_append : held code (before ++ [sequence]) = (sequence.turns code).getD (held code before) :=
  List.foldl_append

theorem presses_append : presses code before (sequences ++ [sequence]) = presses code before sequences +
    if sequence.turns code = some true ∧ held code (before ++ sequences) = false then 1 else 0 := by
  induction sequences generalizing before with
  | nil =>
    rw [List.append_nil]
    exact Nat.add_comm _ _
  | cons first sequences ih =>
    rw [List.cons_append, presses, presses, ih, List.append_assoc, Nat.add_assoc]
    rfl

/-- A lock is turned by a key that is pressed and not held already. -/
theorem locked_append : locked code (before ++ [sequence]) =
    if sequence.turns code = some true ∧ held code before = false then !locked code before
    else locked code before := by
  rw [locked, locked, presses_append, List.nil_append]
  split
  · rw [← decide_not, decide_eq_decide]
    omega
  · rfl

/-- A key is none of the modifiers. -/
def Sequence.Neutral (sequence : Sequence) : Prop :=
  sequence.turns 0x2A = none ∧ sequence.turns 0x36 = none ∧ sequence.turns 0x3A = none ∧ sequence.turns 0x45 = none

/-- **What is no modifier is not remembered.** -/
theorem remembered_of_neutral (h : sequence.Neutral) : remembered (before ++ [sequence]) = remembered before := by
  obtain ⟨h2A, h36, h3A, h45⟩ := h
  simp only [remembered, held_append, locked_append, h2A, h36, h3A, h45, Option.getD_none, reduceCtorEq, false_and,
    if_false]

/-- A key that is released gives no character. -/
theorem released_iff (byte : BitVec 8) : byte &&& 0x80 ≠ 0 ↔ ¬byte < 0x80 := by
  revert byte
  decide

theorem code_of_pressed {byte : BitVec 8} (h : byte < 0x80) : byte &&& 0x7F = byte := by
  revert byte
  decide

theorem decode_append (s : Decoder) (bytes bytes' : List (BitVec 8)) :
    decode s (bytes ++ bytes') =
      ((decode s bytes).1 ++ (decode (decode s bytes).2 bytes').1, (decode (decode s bytes).2 bytes').2) := by
  induction bytes generalizing s with
  | nil => rfl
  | cons byte bytes ih => simp only [List.cons_append, decode, ih]

/-- A byte behind the prefix is keypad Enter, the slash of the keypad or nothing. -/
theorem scancodeToAscii_extended (byte : KeyByte) :
    scancodeToAscii { remembered before with extended := true } byte.val =
      (if byte.val = 0x1C then char '\n' else if byte.val = 0x35 then char '/' else 0, remembered before) := by
  obtain ⟨byte, hE0, hE1⟩ := byte
  have h1C : ((!decide (byte &&& 0x80 ≠ 0)) = true ∧ byte &&& 0x7F = 0x1C) ↔ byte = 0x1C := by
    revert byte
    decide
  have h35 : ((!decide (byte &&& 0x80 ≠ 0)) = true ∧ byte &&& 0x7F = 0x35) ↔ byte = 0x35 := by
    revert byte
    decide
  have hpause : ¬(remembered before).pauseBytes ≠ 0 := fun h => h rfl
  simp only [scancodeToAscii, hpause, if_false, if_neg hE1, if_neg hE0, if_true, h1C, h35]
  split
  · rfl
  · split <;> rfl

theorem decode_extended (byte : KeyByte) :
    decode (remembered before) (Sequence.extended byte).bytes =
      ((Sequence.extended byte).characters before, remembered before) := by
  have hprefix : scancodeToAscii (remembered before) 0xE0 = (0, { remembered before with extended := true }) := rfl
  simp only [Sequence.bytes, decode, hprefix, scancodeToAscii_extended, Sequence.characters]

theorem decode_pause : decode (remembered before) Sequence.pause.bytes =
    (Sequence.pause.characters before, remembered before) := by
  simp [Sequence.bytes, decode, scancodeToAscii, remembered, Sequence.characters]

/-- The `switch` over the modifiers, and what is behind it. -/
theorem scancodeToAscii_key (byte : KeyByte) : scancodeToAscii (remembered before) byte.val =
    if byte.val &&& 0x7F = 0x2A then (0, { remembered before with leftShift := decide (byte.val < 0x80) })
    else if byte.val &&& 0x7F = 0x36 then (0, { remembered before with rightShift := decide (byte.val < 0x80) })
    else if byte.val &&& 0x7F = 0x3A then
      if byte.val < 0x80 then
        if !held 0x3A before then (0, { remembered before with capsLock := !locked 0x3A before, capsDown := true })
        else (0, remembered before)
      else (0, { remembered before with capsDown := false })
    else if byte.val &&& 0x7F = 0x45 then
      if byte.val < 0x80 then
        if !held 0x45 before then (0, { remembered before with numLock := !locked 0x45 before, numDown := true })
        else (0, remembered before)
      else (0, { remembered before with numDown := false })
    else (if byte.val < 0x80 then
      keyToAscii (shiftHeld before) (locked 0x3A before) (locked 0x45 before) (byte.val &&& 0x7F)
      else 0, remembered before) := by
  obtain ⟨byte, hE0, hE1⟩ := byte
  have hpause : ¬(remembered before).pauseBytes ≠ 0 := fun h => h rfl
  have hext : ¬(remembered before).extended = true := Bool.false_ne_true
  simp only [scancodeToAscii, hpause, if_false, if_neg hE1, if_neg hE0, released_iff, hext]
  by_cases hpress : byte < 0x80
  · simp only [hpress, not_true, decide_false, decide_true, Bool.not_false, Bool.false_eq_true, if_false, if_true]
    rfl
  · simp only [hpress, not_false_eq_true, decide_false, decide_true, Bool.not_true, Bool.false_eq_true, if_false,
      if_true]
    rfl

/-- The codes of the modifiers. -/
def modifiers : List (BitVec 8) := [0x2A, 0x36, 0x3A, 0x45]

theorem turns_key {byte : KeyByte} (hcode : code ∈ modifiers) : (Sequence.key byte).turns code =
    if byte.val &&& 0x7F = code then some (decide (byte.val < 0x80)) else none := by
  have hiff : ∀ code ∈ modifiers, ∀ byte : BitVec 8, byte &&& 0x7F = code ↔ byte = code ∨ byte = code ||| 0x80 := by
    decide +kernel
  have hbounds : ∀ code ∈ modifiers, code < 0x80 ∧ ¬code ||| 0x80 < 0x80 := by decide
  obtain ⟨hlow, hhigh⟩ := hbounds code hcode
  rw [Sequence.turns]
  by_cases hmake : byte.val = code
  · rw [if_pos hmake, if_pos ((hiff code hcode _).mpr (.inl hmake)), hmake, decide_eq_true hlow]
  · rw [if_neg hmake]
    by_cases hbreak : byte.val = code ||| 0x80
    · rw [if_pos hbreak, if_pos ((hiff code hcode _).mpr (.inr hbreak)), hbreak, decide_eq_false hhigh]
    · rw [if_neg hbreak, if_neg fun h => ((hiff code hcode _).mp h).elim hmake hbreak]

theorem characters_key (byte : KeyByte) : (Sequence.key byte).characters before =
    [if byte.val < 0x80 then
      keyToAscii (shiftHeld before) (locked 0x3A before) (locked 0x45 before) (byte.val &&& 0x7F) else 0] := by
  rw [Sequence.characters]
  split
  next hpress =>
    have hcode := @keyToAscii_eq (shiftHeld before) (locked 0x3A before) (locked 0x45 before) byte.val.toNat
      (BitVec.lt_def.mp hpress)
    rw [code_of_pressed hpress, ← hcode, BitVec.ofNat_toNat, BitVec.setWidth_eq]
  next => rfl

/-- A modifier gives no character. -/
theorem keyToAscii_modifier (shift capsLock numLock : Bool) (hcode : code ∈ modifiers) :
    keyToAscii shift capsLock numLock code = 0 := by
  revert code
  revert shift capsLock numLock
  decide

/-- **A key is decoded**: a modifier is remembered, and any other key gives its character. -/
theorem decode_key (byte : KeyByte) : decode (remembered before) (Sequence.key byte).bytes =
    ((Sequence.key byte).characters before, remembered (before ++ [.key byte])) := by
  have hmodifier : byte.val &&& 0x7F ∈ modifiers → (Sequence.key byte).characters before = [0] := by
    intro h
    rw [characters_key, keyToAscii_modifier _ _ _ h, ite_self]
  have h2A : (Sequence.key byte).turns 0x2A = _ := turns_key (by decide)
  have h36 : (Sequence.key byte).turns 0x36 = _ := turns_key (by decide)
  have h3A : (Sequence.key byte).turns 0x3A = _ := turns_key (by decide)
  have h45 : (Sequence.key byte).turns 0x45 = _ := turns_key (by decide)
  have hdecode : decode (remembered before) (Sequence.key byte).bytes =
      ([(scancodeToAscii (remembered before) byte.val).1], (scancodeToAscii (remembered before) byte.val).2) := rfl
  rw [hdecode, scancodeToAscii_key]
  by_cases hleft : byte.val &&& 0x7F = 0x2A
  · rw [hmodifier (by rw [hleft]; decide)]
    simp only [remembered, held_append, locked_append, h2A, h36, h3A, h45, hleft, if_true, BitVec.reduceEq, if_false,
      Option.getD_some, Option.getD_none, reduceCtorEq, false_and]
  by_cases hright : byte.val &&& 0x7F = 0x36
  · rw [hmodifier (by rw [hright]; decide)]
    simp only [remembered, held_append, locked_append, h2A, h36, h3A, h45, hright, if_true, BitVec.reduceEq, if_false,
      Option.getD_some, Option.getD_none, reduceCtorEq, false_and]
  by_cases hcaps : byte.val &&& 0x7F = 0x3A
  · rw [hmodifier (by rw [hcaps]; decide)]
    simp only [remembered, held_append, locked_append, h2A, h36, h3A, h45, hcaps, if_true, BitVec.reduceEq, if_false,
      Option.getD_some, Option.getD_none, reduceCtorEq, false_and, Option.some.injEq]
    by_cases hpress : byte.val < 0x80
    · simp only [hpress, decide_true, if_true, true_and]
      cases held 0x3A before <;> rfl
    · simp only [hpress, decide_false, Bool.false_eq_true, false_and, if_false]
  by_cases hnum : byte.val &&& 0x7F = 0x45
  · rw [hmodifier (by rw [hnum]; decide)]
    simp only [remembered, held_append, locked_append, h2A, h36, h3A, h45, hnum, if_true, BitVec.reduceEq, if_false,
      Option.getD_some, Option.getD_none, reduceCtorEq, false_and, Option.some.injEq]
    by_cases hpress : byte.val < 0x80
    · simp only [hpress, decide_true, if_true, true_and]
      cases held 0x45 before <;> rfl
    · simp only [hpress, decide_false, Bool.false_eq_true, false_and, if_false]
  · rw [if_neg hleft] at h2A
    rw [if_neg hright] at h36
    rw [if_neg hcaps] at h3A
    rw [if_neg hnum] at h45
    rw [characters_key, remembered_of_neutral ⟨h2A, h36, h3A, h45⟩, if_neg hleft, if_neg hright, if_neg hcaps,
      if_neg hnum]

/-! ## A stream -/

/-- A sequence is decoded. -/
theorem decode_sequence (before : List Sequence) (sequence : Sequence) :
    decode (remembered before) sequence.bytes = (sequence.characters before, remembered (before ++ [sequence])) := by
  cases sequence with
  | key byte => exact decode_key byte
  | extended byte => rw [decode_extended, remembered_of_neutral ⟨rfl, rfl, rfl, rfl⟩]
  | pause => rw [decode_pause, remembered_of_neutral ⟨rfl, rfl, rfl, rfl⟩]

theorem decode_from (before sequences : List Sequence) :
    decode (remembered before) (sequences.flatMap Sequence.bytes) =
      (charactersFrom before sequences, remembered (before ++ sequences)) := by
  induction sequences generalizing before with
  | nil => rw [List.append_nil]; rfl
  | cons sequence sequences ih =>
    rw [List.flatMap_cons, decode_append, decode_sequence, ih, List.append_assoc]
    rfl

/-- **The keyboard is decoded.**  After any sequences the shifts are remembered as held if their keys are, a lock is on
if its key was pressed an odd number of times, and no part of a sequence is left over.  The characters given are those
of the layout, under the shifts and the locks before each key. -/
theorem decode_sequences (sequences : List Sequence) :
    decode {} (sequences.flatMap Sequence.bytes) = (charactersFrom [] sequences, remembered sequences) :=
  decode_from [] sequences

end

end Keyboard

end Dem64
