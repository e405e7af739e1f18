import Dem64.Display.Format
import Dem64.Lib.ByteMemory
import Dem64.Lib.Interaction

/-!
# The text of `printf`

`printf` and the functions below it, with the pointer that walks through the format, the bytes that it reads, the
arguments that it takes and the buffers that it puts digits in.  For every format it comes to the end, reads no byte
behind the zero, takes an argument for every directive and draws what the format stands for (`printf_renders`).
-/

set_option autoImplicit false

namespace Dem64

namespace Printf

open Interaction Interaction.Prog ByteMemory
open Display (Directive Piece Item Resources pieces directives output decimal decimalInt hexText hexDigit)

/-! ## What is asked -/

/-- An operation of `printf`. -/
inductive PrintOp
  /-- A byte of the format is read. -/
  | format (a : Nat)
  /-- A byte of a string is read. -/
  | string (a : Nat)
  /-- `va_arg`. -/
  | arg
  /-- `draw_char` at the cursor, and `cursor_inc`. -/
  | draw (ch : BitVec 8)
  /-- The cursor goes to the next line. -/
  | lineFeed
  /-- A store behind a buffer of digits. -/
  | overflow
  deriving DecidableEq

/-- What an operation is answered with. -/
@[reducible] def PrintAns : PrintOp → Type
  | .format _ => BitVec 8
  | .string _ => BitVec 8
  | .arg => BitVec 64
  | _ => Unit

/-- A program of `printf`. -/
abbrev PrintM := Prog PrintOp PrintAns

/-- An operation, with its answer. -/
abbrev PrintEvent := Event PrintOp PrintAns

def format (a : Nat) : PrintM (BitVec 8) := call (PrintOp.format a)

def string (a : Nat) : PrintM (BitVec 8) := call (PrintOp.string a)

def arg : PrintM (BitVec 64) := call (PrintOp.arg)

def draw (ch : BitVec 8) : PrintM Unit := call (PrintOp.draw ch)

def lineFeed : PrintM Unit := call (PrintOp.lineFeed)

def overflow : PrintM Unit := call (PrintOp.overflow)

/-! ## Integers -/

/-- The `do` loop of `print_unsigned`, with the room that is left in the buffer: the buffer and `i` behind it. -/
def fillDigits (buffer : Nat → BitVec 8) (i : Nat) : Nat → Nat → Option ((Nat → BitVec 8) × Nat)
  | 0, _ => none
  | room + 1, x =>
    let buffer := Function.update buffer i (BitVec.ofNat 8 (0x30 + x % 10))
    if x / 10 = 0 then some (buffer, i + 1) else fillDigits buffer (i + 1) room (x / 10)

/-- The `while` loop of `print_unsigned`. -/
def drawDigits (buffer : Nat → BitVec 8) : Nat → PrintM Unit
  | 0 => pure ()
  | i + 1 => do
    draw (buffer i)
    drawDigits buffer i

/-- `print_unsigned` and `print_unsigned_long`, over a buffer of `size` characters. -/
def printDigits (size x : Nat) : PrintM Unit :=
  match fillDigits (fun _ => 0) 0 size x with
  | some (buffer, i) => drawDigits buffer i
  | none => overflow

/-- `print_unsigned`. -/
def printUnsigned (x : BitVec 32) : PrintM Unit := printDigits 10 x.toNat

/-- `print_unsigned_long`. -/
def printUnsignedLong (x : BitVec 64) : PrintM Unit := printDigits 20 x.toNat

/-- `print_int`. -/
def printInt (x : BitVec 32) : PrintM Unit :=
  if x.slt 0 then do
    draw 0x2d#8
    printUnsigned (-(x + 1) + 1)
  else printUnsigned x

/-- `print_long`. -/
def printLong (x : BitVec 64) : PrintM Unit :=
  if x.slt 0 then do
    draw 0x2d#8
    printUnsignedLong (-(x + 1) + 1)
  else printUnsignedLong x

/-- `print_byte_hex`. -/
def printByteHex (b : BitVec 8) : PrintM Unit := do
  draw (hexDigit ((b >>> 4) &&& 0xF).toNat)
  draw (hexDigit (b &&& 0xF).toNat)

/-- `print_word_hex`. -/
def printWordHex (w : BitVec 16) : PrintM Unit := do
  printByteHex ((w >>> 8).setWidth 8)
  printByteHex ((w &&& 0xFF).setWidth 8)

/-- `print_dword_hex`. -/
def printDwordHex (d : BitVec 32) : PrintM Unit := do
  printWordHex ((d >>> 16).setWidth 16)
  printWordHex ((d &&& 0xFFFF).setWidth 16)

/-- `print_qword_hex`. -/
def printQwordHex (q : BitVec 64) : PrintM Unit := do
  printDwordHex ((q >>> 32).setWidth 32)
  printDwordHex ((q &&& 0xFFFFFFFF).setWidth 32)

/-! ## The format -/

/-- The characters of a literal. -/
def drawAll : List (BitVec 8) → PrintM Unit
  | [] => pure ()
  | ch :: chs => do
    draw ch
    drawAll chs

/-- The rounds left in the loop over a string, and whether it comes to the zero. -/
def drawString : Nat → Nat → PrintM Bool
  | 0, _ => pure false
  | rounds + 1, value => do
    let ch ← string value
    if ch = 0 then pure true
    else do
      draw ch
      drawString rounds (value + 1)

/-- `%s`: whether the string comes to its end. -/
def printString (rounds : Nat) (value : BitVec 64) : PrintM Bool :=
  if value = 0 then do
    drawAll [0x28, 0x6e, 0x75, 0x6c, 0x6c, 0x29]
    pure true
  else drawString rounds value.toNat

/-- The `switch`, with `p_str` at the character behind the percent sign: where `p_str` is behind it, if the string of
a `%s` comes to its end. -/
def printDirective (rounds pStr : Nat) : PrintM (Option Nat) := do
  let ch ← format pStr
  if ch = 0x64 then do
    printInt ((← arg).setWidth 32)
    pure (some pStr)
  else if ch = 0x75 then do
    if (← format (pStr + 1)) = 0x78 then do
      printDwordHex ((← arg).setWidth 32)
      pure (some (pStr + 1))
    else do
      printUnsigned ((← arg).setWidth 32)
      pure (some pStr)
  else if ch = 0x6c then do
    let pStr := pStr + 1
    let ch ← format pStr
    if ch = 0x64 then do
      printLong (← arg)
      pure (some pStr)
    else if ch = 0x75 then do
      printUnsignedLong (← arg)
      pure (some pStr)
    else if ch = 0x78 then do
      printQwordHex (← arg)
      pure (some pStr)
    else do
      draw 0x25
      draw 0x6c
      pure (some (pStr - 1))
  else if ch = 0x62 then do
    printByteHex ((← arg).setWidth 8)
    pure (some pStr)
  else if ch = 0x73 then do
    if ← printString rounds (← arg) then pure (some pStr) else pure none
  else if ch = 0x63 then do
    draw ((← arg).setWidth 8)
    pure (some pStr)
  else if ch = 0x77 then do
    printWordHex ((← arg).setWidth 16)
    pure (some pStr)
  else do
    let pStr := pStr - 1
    draw (← format pStr)
    pure (some pStr)

/-- The rounds left in the loop of `printf`, and whether it comes to the zero. -/
def printLoop : Nat → Nat → PrintM Bool
  | 0, _ => pure false
  | rounds + 1, pStr => do
    let ch ← format pStr
    if ch = 0 then pure true
    else if ch = 0x0a then do
      lineFeed
      printLoop rounds (pStr + 1)
    else if ch = 0x25 then do
      match ← printDirective rounds (pStr + 1) with
      | some pStr => printLoop rounds (pStr + 1)
      | none => pure false
    else do
      draw ch
      printLoop rounds (pStr + 1)

/-! ## The environment -/

/-- The memory answers the reads, and the arguments are taken one after the other. -/
def answer (bytes : Nat → BitVec 8) : Handler PrintOp PrintAns (Nat → BitVec 64)
  | .format a, args => (bytes a, args)
  | .string a, args => (bytes a, args)
  | .arg, args => (args 0, args ∘ Nat.succ)
  | .draw _, args => ((), args)
  | .lineFeed, args => ((), args)
  | .overflow, args => ((), args)

/-- What an event draws. -/
def drawnBy : PrintEvent → Option Item
  | ⟨.draw ch, _⟩ => some (.char ch)
  | ⟨.lineFeed, _⟩ => some .lineFeed
  | _ => none

/-- What a log draws, in order. -/
def drawn (log : List PrintEvent) : List Item := log.filterMap drawnBy

/-- The arguments that a log takes. -/
def taken (log : List PrintEvent) : Nat := log.countP fun e => e.1 = .arg

/-! ## What a program does -/

section

variable {bytes : Nat → BitVec 8} {first last : Nat} {args : Nat → BitVec 64} {α β : Type} {items items' : List Item}
  {k k' : Nat}

/-- The operations that are safe for a format from `first` to the zero at `last`. -/
def Safe (first last : Nat) : PrintOp → Prop
  | .format a => first ≤ a ∧ a ≤ last
  | .overflow => False
  | _ => True

/-- The program draws `items`, takes `k` arguments, returns `a`, and is safe. -/
structure Does (bytes : Nat → BitVec 8) (first last : Nat) (p : PrintM α) (args : Nat → BitVec 64) (items : List Item)
    (k : Nat) (a : α) : Prop where
  run : run (answer bytes) p args = (a, fun i => args (i + k))
  drawn : drawn (trace (answer bytes) p args) = items
  taken : taken (trace (answer bytes) p args) = k
  safe : AllAsked (answer bytes) (Safe first last) p args

theorem Does.bind {p : PrintM α} {f : α → PrintM β} {a : α} {b : β} (h : Does bytes first last p args items k a)
    (h' : Does bytes first last (f a) (fun i => args (i + k)) items' k' b) :
    Does bytes first last (p >>= f) args (items ++ items') (k + k') b where
  run := by
    rw [run_bind, h.run, h'.run]
    simp only [Nat.add_assoc, Nat.add_comm k]
  drawn := by
    have htail := h'.drawn
    rw [trace_bind, h.run, Printf.drawn, List.filterMap_append]
    rw [Printf.drawn] at htail
    rw [htail, ← h.drawn]
    rfl
  taken := by
    have htail := h'.taken
    rw [trace_bind, h.run, Printf.taken, List.countP_append]
    rw [Printf.taken] at htail
    rw [htail, ← h.taken]
    rfl
  safe := by
    rw [allAsked_bind, h.run]
    exact ⟨h.safe, h'.safe⟩

theorem does_pure (a : α) : Does bytes first last (pure a) args [] 0 a :=
  ⟨rfl, rfl, rfl, fun _ he => absurd he List.not_mem_nil⟩

theorem does_format {a : Nat} {v : BitVec 8} (hv : bytes a = v) (hfirst : first ≤ a) (hlast : a ≤ last) :
    Does bytes first last (format a) args [] 0 v :=
  ⟨by rw [← hv]; rfl, rfl, rfl, List.forall_mem_singleton.mpr ⟨hfirst, hlast⟩⟩

theorem does_string {a : Nat} {v : BitVec 8} (hv : bytes a = v) : Does bytes first last (string a) args [] 0 v :=
  ⟨by rw [← hv]; rfl, rfl, rfl, List.forall_mem_singleton.mpr trivial⟩

theorem does_draw (ch : BitVec 8) : Does bytes first last (draw ch) args [.char ch] 0 () :=
  ⟨rfl, rfl, rfl, List.forall_mem_singleton.mpr trivial⟩

theorem does_lineFeed : Does bytes first last lineFeed args [.lineFeed] 0 () :=
  ⟨rfl, rfl, rfl, List.forall_mem_singleton.mpr trivial⟩

theorem does_arg : Does bytes first last arg args [] 1 (args 0) :=
  ⟨rfl, rfl, rfl, List.forall_mem_singleton.mpr trivial⟩

theorem does_format_bind {a : Nat} {v : BitVec 8} {f : BitVec 8 → PrintM β} {b : β} (hv : bytes a = v)
    (hfirst : first ≤ a) (hlast : a ≤ last) (h : Does bytes first last (f v) args items k b) :
    Does bytes first last (format a >>= f) args items k b := by
  have hall := (does_format hv hfirst hlast).bind h
  rwa [Nat.zero_add] at hall

theorem does_string_bind {a : Nat} {v : BitVec 8} {f : BitVec 8 → PrintM β} {b : β} (hv : bytes a = v)
    (h : Does bytes first last (f v) args items k b) : Does bytes first last (string a >>= f) args items k b := by
  have hall := (does_string hv).bind h
  rwa [Nat.zero_add] at hall

theorem does_arg_bind {f : BitVec 64 → PrintM β} {b : β}
    (h : Does bytes first last (f (args 0)) (args ∘ Nat.succ) items 0 b) :
    Does bytes first last (arg >>= f) args items 1 b :=
  does_arg.bind h

/-- The program draws a text and does nothing else. -/
def Writes (p : PrintM Unit) (text : List (BitVec 8)) : Prop :=
  ∀ bytes first last args, Does bytes first last p args (text.map .char) 0 ()

theorem Writes.bind {p q : PrintM Unit} {text text' : List (BitVec 8)} (h : Writes p text) (h' : Writes q text') :
    Writes (do p; q) (text ++ text') := by
  intro bytes first last args
  rw [List.map_append]
  exact Does.bind (f := fun _ => q) (h bytes first last args) (h' bytes first last args)

/-- A text is drawn before the rest. -/
theorem Writes.does_bind {p : PrintM Unit} {f : Unit → PrintM β} {text : List (BitVec 8)} {b : β} (hp : Writes p text)
    (h : Does bytes first last (f ()) args items k b) :
    Does bytes first last (p >>= f) args (text.map .char ++ items) k b := by
  have hall := (hp bytes first last args).bind h
  rwa [Nat.zero_add] at hall

theorem writes_draw (ch : BitVec 8) : Writes (draw ch) [ch] := fun _ _ _ _ => does_draw ch

theorem writes_drawAll (text : List (BitVec 8)) : Writes (drawAll text) text := by
  induction text with
  | nil => exact fun _ _ _ _ => does_pure ()
  | cons ch text ih => exact (writes_draw ch).bind ih

/-! ## Integers -/

/-- **The buffer has room for the digits**, and they are in it. -/
theorem fillDigits_eq {buffer : Nat → BitVec 8} {i room x : Nat} (hroom : (Display.digits x).length ≤ room) :
    ∃ buffer' n, fillDigits buffer i room x = some (buffer', n) ∧
      (List.range n).map buffer' = (List.range i).map buffer ++ Display.digits x := by
  induction room generalizing buffer i x with
  | zero =>
    rw [Display.digits] at hroom
    exact absurd hroom (by simp)
  | succ room ih =>
    have hstore : ∀ d, (List.range (i + 1)).map (Function.update buffer i d) = (List.range i).map buffer ++ [d] := by
      intro d
      rw [List.range_succ, List.map_append, List.map_singleton, Function.update_self]
      refine congrArg (· ++ [d]) (List.map_congr_left fun j hj => Function.update_of_ne ?_ _ _)
      have := List.mem_range.mp hj
      omega
    rw [Display.digits] at hroom ⊢
    rw [fillDigits]
    split
    next hx => exact ⟨_, _, rfl, hstore _⟩
    next hx =>
      rw [if_neg hx, List.length_cons] at hroom
      obtain ⟨buffer', n, hfill, hmap⟩ := ih (Nat.le_of_succ_le_succ hroom)
      refine ⟨buffer', n, hfill, ?_⟩
      rw [hmap, hstore, List.append_assoc]
      rfl

theorem writes_drawDigits (buffer : Nat → BitVec 8) (n : Nat) :
    Writes (drawDigits buffer n) ((List.range n).map buffer).reverse := by
  induction n with
  | zero => exact fun _ _ _ _ => does_pure ()
  | succ n ih =>
    rw [List.range_succ, List.map_append, List.reverse_append]
    exact (writes_draw (buffer n)).bind ih

/-- **A number is its decimal text**, if it has no more digits than the buffer has room for. -/
theorem writes_printDigits {size x : Nat} (hpos : 0 < size) (hx : x < 10 ^ size) :
    Writes (printDigits size x) (decimal x) := by
  have hroom : (Display.digits x).length ≤ size := by
    rw [← List.length_reverse, Display.reverse_digits, decimal, List.length_map]
    exact (Nat.length_toDigits_le_iff (by decide) hpos).mpr hx
  obtain ⟨buffer, n, hfill, hmap⟩ := @fillDigits_eq (fun _ => 0) 0 size x hroom
  have hwrites := writes_drawDigits buffer n
  rw [hmap, List.range_zero, List.map_nil, List.nil_append, Display.reverse_digits] at hwrites
  rw [printDigits, hfill]
  exact hwrites

theorem writes_printUnsigned (x : BitVec 32) : Writes (printUnsigned x) (decimal x.toNat) :=
  writes_printDigits (by decide) (Nat.lt_trans x.isLt (by decide))

theorem writes_printUnsignedLong (x : BitVec 64) : Writes (printUnsignedLong x) (decimal x.toNat) :=
  writes_printDigits (by decide) (Nat.lt_trans x.isLt (by decide))

theorem writes_printInt (x : BitVec 32) : Writes (printInt x) (decimalInt x.toInt) := by
  rw [printInt]
  split
  next hx =>
    rw [Display.decimalInt_of_slt hx]
    exact (writes_draw _).bind (writes_printUnsigned _)
  next hx =>
    rw [Display.decimalInt_of_not_slt hx]
    exact writes_printUnsigned x

theorem writes_printLong (x : BitVec 64) : Writes (printLong x) (decimalInt x.toInt) := by
  rw [printLong]
  split
  next hx =>
    rw [Display.decimalInt_of_slt hx]
    exact (writes_draw _).bind (writes_printUnsignedLong _)
  next hx =>
    rw [Display.decimalInt_of_not_slt hx]
    exact writes_printUnsignedLong x

theorem writes_printByteHex (b : BitVec 8) : Writes (printByteHex b) (hexText 2 b.toNat) := by
  rw [Display.hexText_byte]
  exact (writes_draw _).bind (writes_draw _)

theorem writes_printWordHex (w : BitVec 16) : Writes (printWordHex w) (hexText 4 w.toNat) := by
  rw [Display.hexText_word]
  exact (writes_printByteHex _).bind (writes_printByteHex _)

theorem writes_printDwordHex (d : BitVec 32) : Writes (printDwordHex d) (hexText 8 d.toNat) := by
  rw [Display.hexText_dword]
  exact (writes_printWordHex _).bind (writes_printWordHex _)

theorem writes_printQwordHex (q : BitVec 64) : Writes (printQwordHex q) (hexText 16 q.toNat) := by
  rw [Display.hexText_qword]
  exact (writes_printDwordHex _).bind (writes_printDwordHex _)

/-! ## Strings -/

theorem does_drawString {str : List (BitVec 8)} {value rounds : Nat} (hstr : HasBytes bytes value (str ++ [0]))
    (hzero : 0 ∉ str) (hrounds : str.length < rounds) :
    Does bytes first last (drawString rounds value) args (str.map .char) 0 true := by
  induction str generalizing value rounds with
  | nil =>
    obtain ⟨rounds, rfl⟩ := Nat.exists_eq_succ_of_ne_zero (Nat.ne_of_gt hrounds)
    rw [drawString]
    refine does_string_bind hstr.1 ?_
    rw [if_pos rfl]
    exact does_pure true
  | cons ch str ih =>
    obtain ⟨rounds, rfl⟩ := Nat.exists_eq_succ_of_ne_zero (Nat.ne_of_gt (Nat.zero_lt_of_lt hrounds))
    rw [List.mem_cons, not_or] at hzero
    rw [drawString]
    refine does_string_bind hstr.1 ?_
    rw [if_neg (Ne.symm hzero.1)]
    exact (writes_draw ch).does_bind (ih hstr.2 hzero.2 (Nat.lt_of_succ_lt_succ hrounds))

/-- The strings among the arguments are in the memory, with their zeros. -/
def Matching (bytes : Nat → BitVec 8) (r : Resources) : List Piece → (Nat → BitVec 64) → Prop
  | [], _ => True
  | .directive d :: ps, args =>
    (d = .string → args 0 ≠ 0 →
      HasBytes bytes (args 0).toNat (r.string (args 0) ++ [0]) ∧ 0 ∉ r.string (args 0)) ∧
    Matching bytes r ps (args ∘ Nat.succ)
  | _ :: ps, args => Matching bytes r ps args

theorem does_printString {r : Resources} {value : BitVec 64} {rounds : Nat}
    (hstr : value ≠ 0 → HasBytes bytes value.toNat (r.string value ++ [0]) ∧ 0 ∉ r.string value)
    (hrounds : (r.string value).length < rounds) :
    Does bytes first last (printString rounds value) args ((Display.stringAt r value).map .char) 0 true := by
  rw [printString, Display.stringAt]
  split
  next =>
    have hall := (writes_drawAll [0x28, 0x6e, 0x75, 0x6c, 0x6c, 0x29]).does_bind (f := fun _ => pure true)
      (@does_pure bytes first last args Bool true)
    rwa [List.append_nil] at hall
  next hne => exact does_drawString (hstr hne).1 (hstr hne).2 hrounds

/-! ## One directive -/

/-- What the `switch` takes from the format behind a percent sign: the pieces, with the percent sign, and the rest. -/
inductive Chunk : List (BitVec 8) → List Piece → List (BitVec 8) → Prop
  | int (rest : List (BitVec 8)) : Chunk (0x64#8 :: rest) [.directive .int] rest
  | unsignedHex (rest : List (BitVec 8)) : Chunk (0x75#8 :: 0x78#8 :: rest) [.directive .unsignedHex] rest
  | unsigned (rest : List (BitVec 8)) : rest.head? ≠ some 0x78#8 → Chunk (0x75#8 :: rest) [.directive .unsigned] rest
  | long (rest : List (BitVec 8)) : Chunk (0x6c#8 :: 0x64#8 :: rest) [.directive .long] rest
  | unsignedLong (rest : List (BitVec 8)) : Chunk (0x6c#8 :: 0x75#8 :: rest) [.directive .unsignedLong] rest
  | longHex (rest : List (BitVec 8)) : Chunk (0x6c#8 :: 0x78#8 :: rest) [.directive .longHex] rest
  | letter (rest : List (BitVec 8)) :
      rest.head? ≠ some 0x64#8 → rest.head? ≠ some 0x75#8 → rest.head? ≠ some 0x78#8 →
      Chunk (0x6c#8 :: rest) [.char 0x25#8, .char 0x6c#8] rest
  | byte (rest : List (BitVec 8)) : Chunk (0x62#8 :: rest) [.directive .byte] rest
  | string (rest : List (BitVec 8)) : Chunk (0x73#8 :: rest) [.directive .string] rest
  | char (rest : List (BitVec 8)) : Chunk (0x63#8 :: rest) [.directive .char] rest
  | word (rest : List (BitVec 8)) : Chunk (0x77#8 :: rest) [.directive .word] rest
  | percent (rest : List (BitVec 8)) :
      (∀ ch ∈ [0x64#8, 0x75#8, 0x6c#8, 0x62#8, 0x73#8, 0x63#8, 0x77#8], rest.head? ≠ some ch) →
      Chunk rest [.char 0x25#8] rest

/-- Every format is a chunk and the rest of it. -/
theorem exists_chunk (str : List (BitVec 8)) : ∃ ps rest, Chunk str ps rest := by
  by_cases hpercent : ∀ ch ∈ [0x64#8, 0x75#8, 0x6c#8, 0x62#8, 0x73#8, 0x63#8, 0x77#8], str.head? ≠ some ch
  · exact ⟨_, _, .percent str hpercent⟩
  · push Not at hpercent
    obtain ⟨ch, hch, hhead⟩ := hpercent
    obtain ⟨rest, rfl⟩ := List.head?_eq_some_iff.mp hhead
    simp only [List.mem_cons, List.not_mem_nil, or_false] at hch
    rcases hch with rfl | rfl | rfl | rfl | rfl | rfl | rfl
    · exact ⟨_, _, .int rest⟩
    · by_cases hhex : rest.head? = some 0x78#8
      · obtain ⟨rest, rfl⟩ := List.head?_eq_some_iff.mp hhex
        exact ⟨_, _, .unsignedHex rest⟩
      · exact ⟨_, _, .unsigned rest hhex⟩
    · by_cases hint : rest.head? = some 0x64#8
      · obtain ⟨rest, rfl⟩ := List.head?_eq_some_iff.mp hint
        exact ⟨_, _, .long rest⟩
      · by_cases hunsigned : rest.head? = some 0x75#8
        · obtain ⟨rest, rfl⟩ := List.head?_eq_some_iff.mp hunsigned
          exact ⟨_, _, .unsignedLong rest⟩
        · by_cases hhex : rest.head? = some 0x78#8
          · obtain ⟨rest, rfl⟩ := List.head?_eq_some_iff.mp hhex
            exact ⟨_, _, .longHex rest⟩
          · exact ⟨_, _, .letter rest hint hunsigned hhex⟩
    · exact ⟨_, _, .byte rest⟩
    · exact ⟨_, _, .string rest⟩
    · exact ⟨_, _, .char rest⟩
    · exact ⟨_, _, .word rest⟩

variable {r : Resources} {ps qs : List Piece} {str rest : List (BitVec 8)}

theorem Chunk.pieces_eq (h : Chunk str ps rest) : pieces (0x25#8 :: str) = ps ++ pieces rest := by
  cases h with
  | int | unsignedHex | long | unsignedLong | longHex | byte | string | char | word => rw [pieces]; rfl
  | unsigned rest hhex =>
    rw [pieces]
    · rfl
    · rintro rest' rfl
      exact hhex rfl
  | letter rest hint hunsigned hhex =>
    rw [pieces, pieces]
    · rfl
    all_goals grind
  | percent rest hnot =>
    simp only [List.forall_mem_cons, List.not_mem_nil, false_implies, implies_true, and_true] at hnot
    rw [pieces]
    · rfl
    · decide
    all_goals
      rintro rest' - rfl
      simp_all

theorem Chunk.length_le (h : Chunk str ps rest) : rest.length ≤ str.length := by
  cases h with
  | percent => exact le_rfl
  | _ =>
    simp only [List.length_cons]
    omega

/-- The format `str`, of which `last` is the zero, is at `pStr`. -/
structure At (bytes : Nat → BitVec 8) (first last pStr : Nat) (str : List (BitVec 8)) : Prop where
  bytes : HasBytes bytes pStr (str ++ [0])
  first : first ≤ pStr
  last : pStr + str.length = last
  zero : 0 ∉ str

variable {pStr rounds : Nat} {ch : BitVec 8}

theorem At.tail (h : At bytes first last pStr (ch :: str)) : At bytes first last (pStr + 1) str where
  bytes := h.bytes.2
  first := Nat.le_succ_of_le h.first
  last := by
    have hlast := h.last
    rw [List.length_cons] at hlast
    omega
  zero := fun hz => h.zero (List.mem_cons_of_mem ch hz)

/-- A read of the next character. -/
theorem At.does_format_bind {f : BitVec 8 → PrintM β} {b : β} (h : At bytes first last pStr (ch :: str))
    (hf : Does bytes first last (f ch) args items k b) : Does bytes first last (format pStr >>= f) args items k b := by
  have hlast := h.last
  exact Printf.does_format_bind h.bytes.1 h.first (by omega) hf

/-- A read of the next character or of the zero. -/
theorem At.does_format_bind_head {f : BitVec 8 → PrintM β} {b : β} (h : At bytes first last pStr str)
    (hf : Does bytes first last (f (str.head?.getD 0)) args items k b) :
    Does bytes first last (format pStr >>= f) args items k b := by
  have hlast := h.last
  refine Printf.does_format_bind ?_ h.first (by omega) hf
  cases str with
  | nil => exact h.bytes.1
  | cons ch str => exact h.bytes.1

theorem getD_head_ne {ch : BitVec 8} (hch : ch ≠ 0) (h : str.head? ≠ some ch) : str.head?.getD 0 ≠ ch := by
  cases str with
  | nil => exact Ne.symm hch
  | cons ch' str =>
    intro he
    exact h (congrArg some he)

/-- A directive with an argument that is drawn as a text. -/
theorem does_directive {d : Directive} {p : BitVec 64 → PrintM Unit} {pStr : Nat}
    (hp : Writes (p (args 0)) (d.text r (args 0))) :
    Does bytes first last (do p (← arg); pure (some pStr)) args (output r [.directive d] args) 1 (some pStr) :=
  does_arg_bind (hp.does_bind (does_pure _))

/-- **The `switch` draws its pieces and takes their arguments**, and comes to the rest. -/
theorem Chunk.does (h : Chunk str ps rest) (hat : At bytes first last pStr (0x25#8 :: str))
    (hps : Matching bytes r ps args) :
    ∃ pStr' n, At bytes first last (pStr' + 1) rest ∧ ∀ rounds, n ≤ rounds →
      Does bytes first last (printDirective rounds (pStr + 1)) args (output r ps args) (directives ps).length
        (some pStr') := by
  cases h with
  | int rest =>
    refine ⟨pStr + 1, 0, hat.tail.tail, fun rounds _ => hat.tail.does_format_bind ?_⟩
    simp only [BitVec.ofNat_eq_ofNat, reduceIte]
    exact does_directive (p := fun v => printInt (v.setWidth 32)) (writes_printInt _)
  | unsignedHex rest =>
    refine ⟨pStr + 2, 0, hat.tail.tail.tail, fun rounds _ => hat.tail.does_format_bind ?_⟩
    simp only [BitVec.ofNat_eq_ofNat, BitVec.reduceEq, reduceIte]
    refine hat.tail.tail.does_format_bind ?_
    simp only [reduceIte]
    exact does_directive (p := fun v => printDwordHex (v.setWidth 32)) (writes_printDwordHex _)
  | unsigned rest hhex =>
    refine ⟨pStr + 1, 0, hat.tail.tail, fun rounds _ => hat.tail.does_format_bind ?_⟩
    simp only [BitVec.ofNat_eq_ofNat, BitVec.reduceEq, reduceIte]
    refine hat.tail.tail.does_format_bind_head ?_
    rw [if_neg (getD_head_ne (by decide) hhex)]
    exact does_directive (p := fun v => printUnsigned (v.setWidth 32)) (writes_printUnsigned _)
  | long rest =>
    refine ⟨pStr + 2, 0, hat.tail.tail.tail, fun rounds _ => hat.tail.does_format_bind ?_⟩
    simp only [BitVec.ofNat_eq_ofNat, BitVec.reduceEq, reduceIte]
    refine hat.tail.tail.does_format_bind ?_
    simp only [reduceIte]
    exact does_directive (p := printLong) (writes_printLong _)
  | unsignedLong rest =>
    refine ⟨pStr + 2, 0, hat.tail.tail.tail, fun rounds _ => hat.tail.does_format_bind ?_⟩
    simp only [BitVec.ofNat_eq_ofNat, BitVec.reduceEq, reduceIte]
    refine hat.tail.tail.does_format_bind ?_
    simp only [BitVec.reduceEq, reduceIte]
    exact does_directive (p := printUnsignedLong) (writes_printUnsignedLong _)
  | longHex rest =>
    refine ⟨pStr + 2, 0, hat.tail.tail.tail, fun rounds _ => hat.tail.does_format_bind ?_⟩
    simp only [BitVec.ofNat_eq_ofNat, BitVec.reduceEq, reduceIte]
    refine hat.tail.tail.does_format_bind ?_
    simp only [BitVec.reduceEq, reduceIte]
    exact does_directive (p := printQwordHex) (writes_printQwordHex _)
  | letter rest hint hunsigned hhex =>
    refine ⟨pStr + 1, 0, hat.tail.tail, fun rounds _ => hat.tail.does_format_bind ?_⟩
    simp only [BitVec.ofNat_eq_ofNat, BitVec.reduceEq, reduceIte]
    refine hat.tail.tail.does_format_bind_head ?_
    rw [if_neg (getD_head_ne (by decide) hint), if_neg (getD_head_ne (by decide) hunsigned),
      if_neg (getD_head_ne (by decide) hhex)]
    exact (writes_draw _).does_bind ((writes_draw _).does_bind (does_pure _))
  | byte rest =>
    refine ⟨pStr + 1, 0, hat.tail.tail, fun rounds _ => hat.tail.does_format_bind ?_⟩
    simp only [BitVec.ofNat_eq_ofNat, BitVec.reduceEq, reduceIte]
    exact does_directive (p := fun v => printByteHex (v.setWidth 8)) (writes_printByteHex _)
  | string rest =>
    refine ⟨pStr + 1, (r.string (args 0)).length + 1, hat.tail.tail, fun rounds hrounds => hat.tail.does_format_bind ?_⟩
    simp only [BitVec.ofNat_eq_ofNat, BitVec.reduceEq, reduceIte]
    refine does_arg_bind ?_
    exact (does_printString (hps.1 rfl) hrounds).bind
      (f := fun ok => if ok = true then pure (some (pStr + 1)) else pure none) (does_pure _)
  | char rest =>
    refine ⟨pStr + 1, 0, hat.tail.tail, fun rounds _ => hat.tail.does_format_bind ?_⟩
    simp only [BitVec.ofNat_eq_ofNat, BitVec.reduceEq, reduceIte]
    exact does_directive (p := fun v => draw (v.setWidth 8)) (writes_draw _)
  | word rest =>
    refine ⟨pStr + 1, 0, hat.tail.tail, fun rounds _ => hat.tail.does_format_bind ?_⟩
    simp only [BitVec.ofNat_eq_ofNat, BitVec.reduceEq, reduceIte]
    exact does_directive (p := fun v => printWordHex (v.setWidth 16)) (writes_printWordHex _)
  | percent rest hnot =>
    refine ⟨pStr, 0, hat.tail, fun rounds _ => hat.tail.does_format_bind_head ?_⟩
    have hne : ∀ ch ∈ ([0x64, 0x75, 0x6c, 0x62, 0x73, 0x63, 0x77] : List (BitVec 8)), str.head?.getD 0 ≠ ch := by
      intro ch hch
      refine getD_head_ne ?_ (hnot ch hch)
      rintro rfl
      exact absurd hch (by decide)
    simp only [List.forall_mem_cons] at hne
    obtain ⟨hint, hunsigned, hletter, hbyte, hstring, hchar, hword, -⟩ := hne
    rw [if_neg hint, if_neg hunsigned, if_neg hletter, if_neg hbyte, if_neg hstring, if_neg hchar, if_neg hword]
    exact hat.does_format_bind ((writes_draw _).does_bind (f := fun _ => _) (does_pure _))

/-! ## The loop -/

theorem directives_append : directives (ps ++ qs) = directives ps ++ directives qs := List.filterMap_append

theorem output_append : output r (ps ++ qs) args =
    output r ps args ++ output r qs fun i => args (i + (directives ps).length) := by
  induction ps generalizing args with
  | nil => rfl
  | cons piece ps ih =>
    cases piece with
    | directive d =>
      rw [List.cons_append, output, output, ih, List.append_assoc]
      rfl
    | char ch => exact congrArg _ ih
    | lineFeed => exact congrArg _ ih

theorem matching_append : Matching bytes r (ps ++ qs) args ↔
    Matching bytes r ps args ∧ Matching bytes r qs fun i => args (i + (directives ps).length) := by
  induction ps generalizing args with
  | nil => exact (and_iff_right trivial).symm
  | cons piece ps ih =>
    cases piece with
    | directive d =>
      rw [List.cons_append, Matching, Matching, ih, and_assoc]
      exact Iff.rfl
    | char ch => exact ih
    | lineFeed => exact ih

/-- What one round takes from a format: the pieces and the rest. -/
theorem pieces_char (hfeed : ch ≠ 0x0a) (hpercent : ch ≠ 0x25) : pieces (ch :: str) = .char ch :: pieces str := by
  rw [pieces]
  · exact hfeed
  all_goals
    rintro rest rfl
    exact absurd rfl hpercent

/-- **The loop draws the rest of the format**, by induction on its length. -/
theorem does_printLoop (hat : At bytes first last pStr str) (hps : Matching bytes r (pieces str) args) :
    ∃ n, ∀ rounds, n ≤ rounds →
      Does bytes first last (printLoop rounds pStr) args (output r (pieces str) args) (directives (pieces str)).length
        true := by
  induction hlength : str.length using Nat.strongRecOn generalizing str pStr args with
  | ind length ih =>
    subst hlength
    cases str with
    | nil =>
      refine ⟨1, fun rounds hrounds => ?_⟩
      obtain ⟨rounds, rfl⟩ := Nat.exists_eq_succ_of_ne_zero (Nat.ne_of_gt hrounds)
      rw [printLoop]
      refine hat.does_format_bind_head ?_
      exact does_pure true
    | cons ch str =>
      have hzero : ch ≠ 0 := fun h => hat.zero (by rw [h]; exact List.mem_cons_self)
      by_cases hpercent : ch = 0x25#8
      · subst hpercent
        obtain ⟨ps, rest, hchunk⟩ := exists_chunk str
        rw [hchunk.pieces_eq] at hps ⊢
        rw [matching_append] at hps
        obtain ⟨pStr', n, hat', hn⟩ := hchunk.does hat hps.1
        obtain ⟨n', hn'⟩ := ih rest.length (Nat.lt_succ_of_le hchunk.length_le) hat' hps.2 rfl
        refine ⟨max n n' + 1, fun rounds hrounds => ?_⟩
        obtain ⟨rounds, rfl⟩ := Nat.exists_eq_add_one_of_ne_zero (show rounds ≠ 0 by omega)
        rw [printLoop, output_append, directives_append, List.length_append]
        refine hat.does_format_bind ?_
        simp only [BitVec.ofNat_eq_ofNat, BitVec.reduceEq, reduceIte]
        exact (hn rounds (by omega)).bind (hn' rounds (by omega))
      · by_cases hfeed : ch = 0x0a#8
        · subst hfeed
          rw [pieces] at hps ⊢
          obtain ⟨n, hn⟩ := ih str.length (Nat.lt_succ_self _) hat.tail hps rfl
          refine ⟨n + 1, fun rounds hrounds => ?_⟩
          obtain ⟨rounds, rfl⟩ := Nat.exists_eq_add_one_of_ne_zero (show rounds ≠ 0 by omega)
          rw [printLoop]
          refine hat.does_format_bind ?_
          simp only [BitVec.ofNat_eq_ofNat, BitVec.reduceEq, reduceIte]
          have hall := does_lineFeed.bind (f := fun _ => printLoop rounds (pStr + 1)) (hn rounds (by omega))
          rwa [Nat.zero_add] at hall
        · rw [pieces_char hfeed hpercent] at hps ⊢
          obtain ⟨n, hn⟩ := ih str.length (Nat.lt_succ_self _) hat.tail hps rfl
          refine ⟨n + 1, fun rounds hrounds => ?_⟩
          obtain ⟨rounds, rfl⟩ := Nat.exists_eq_add_one_of_ne_zero (show rounds ≠ 0 by omega)
          rw [printLoop]
          refine hat.does_format_bind ?_
          rw [if_neg hzero, if_neg (show ¬ch = 0x0a from hfeed), if_neg (show ¬ch = 0x25 from hpercent)]
          exact (writes_draw ch).does_bind (hn rounds (by omega))

/-! ## The call -/

/-- What is promised of a run of `printf`. -/
structure Renders (bytes : Nat → BitVec 8) (r : Resources) (first : Nat) (str : List (BitVec 8))
    (args : Nat → BitVec 64) (rounds : Nat) : Prop where
  /-- The loops come to their ends. -/
  ends : (run (answer bytes) (printLoop rounds first) args).1 = true
  /-- A byte of the format is read from `first` on and not behind the zero. -/
  reads : ∀ e ∈ trace (answer bytes) (printLoop rounds first) args, ∀ a, e.1 = .format a →
    first ≤ a ∧ a ≤ first + str.length
  /-- No buffer of digits is too small. -/
  fits : ∀ e ∈ trace (answer bytes) (printLoop rounds first) args, e.1 ≠ .overflow
  /-- Every directive takes an argument. -/
  taken : taken (trace (answer bytes) (printLoop rounds first) args) = (directives (pieces str)).length
  /-- What the format stands for is drawn. -/
  drawn : drawn (trace (answer bytes) (printLoop rounds first) args) = output r (pieces str) args

/-- **`printf` draws what the format stands for**, for every format with a zero behind it and arguments whose strings
have zeros. -/
theorem printf_renders (bytes : Nat → BitVec 8) (r : Resources) (first : Nat) (str : List (BitVec 8))
    (args : Nat → BitVec 64) (hbytes : HasBytes bytes first (str ++ [0])) (hzero : 0 ∉ str)
    (hargs : Matching bytes r (pieces str) args) :
    ∃ n, ∀ rounds, n ≤ rounds → Renders bytes r first str args rounds := by
  have hat : At bytes first (first + str.length) first str := ⟨hbytes, le_rfl, rfl, hzero⟩
  obtain ⟨n, hn⟩ := does_printLoop hat hargs
  refine ⟨n, fun rounds hrounds => ?_⟩
  have hdoes := hn rounds hrounds
  refine ⟨by rw [hdoes.run], fun e he a ha => ?_, fun e he ho => ?_, hdoes.taken, hdoes.drawn⟩
  · have hsafe := hdoes.safe e he
    rw [ha] at hsafe
    exact hsafe
  · have hsafe := hdoes.safe e he
    rw [ho] at hsafe
    exact hsafe

end

/-- `"%ld %"`, with the zero. -/
def percentFormat : List (BitVec 8) := [0x25, 0x6c, 0x64, 0x20, 0x25, 0]

/-- The least `long` is printed, and the percent sign at the end. -/
theorem printf_renders_least :
    ∃ n, ∀ rounds, n ≤ rounds →
      drawn (trace (answer fun a => percentFormat.getD a 0) (printLoop rounds 0) fun _ => 0x8000000000000000) =
        ("-9223372036854775808 %".toList.map fun c => .char (BitVec.ofNat 8 c.toNat)) ∧
      Renders (fun a => percentFormat.getD a 0) ⟨fun _ => 0, fun _ => []⟩ 0 [0x25, 0x6c, 0x64, 0x20, 0x25]
        (fun _ => 0x8000000000000000) rounds := by
  obtain ⟨n, hn⟩ := printf_renders (fun a => percentFormat.getD a 0) ⟨fun _ => 0, fun _ => []⟩ 0
    [0x25, 0x6c, 0x64, 0x20, 0x25] (fun _ => 0x8000000000000000) (by decide) (by decide)
    ⟨fun h => absurd h (by decide), trivial⟩
  refine ⟨n, fun rounds hrounds => ⟨?_, hn rounds hrounds⟩⟩
  rw [(hn rounds hrounds).drawn]
  decide

end Printf

end Dem64
