import Dem64.Memory.Bitmap
import Mathlib.Algebra.Group.Int.Defs
import Mathlib.Data.Fin.VecNotation

/-!
# The double-buffered screen

`vga.c` draws into a back buffer and marks, in `diff`, the cells of 8 x 16 pixels that it drew in; `present`
copies the marked cells to the framebuffer.  The buffers are reached through `load` and `store`, which fail
out of range, so a run that gives a result made no access outside.

The bodies of the loops are functions of the buffers (`drawPixel`, `shiftPixel`, `presentCell`), and a call is
the list of the bodies it goes through, a `Step` each: which bodies these are depends on the mode, the cursor
and the arguments, and on nothing in the buffers.  So the points of a call are the prefixes of its list.
-/

set_option autoImplicit false

namespace Dem64

namespace Display

/-- What is left of a value in an `int`. -/
def int32 (x : Int) : Int := x.bmod (2 ^ 32)

/-- `x << k` of an `int`. -/
def shl (x : Int) (k : Nat) : Int := int32 (x <<< k)

/-- `x >> k` of an `int`. -/
def shr (x : Int) (k : Nat) : Int := x >>> k

/-- The values of `for (int i = a; i < b; i++)`. -/
def upTo (a b : Int) : List Int := (List.range (b - a).toNat).map fun (k : Nat) => a + k

/-- An element of a buffer of `n`. -/
def load {α : Type} (n : Int) (buffer : Int → α) (place : Int) : Option α :=
  if 0 ≤ place ∧ place < n then some (buffer place) else none

/-- A buffer of `n` after a write. -/
def store {α : Type} (n : Int) (buffer : Int → α) (place : Int) (v : α) : Option (Int → α) :=
  if 0 ≤ place ∧ place < n then some (Function.update buffer place v) else none

/-! ## The mode -/

/-- A mode the screen may be in. -/
structure Mode where
  /-- `hor_res`. -/
  horRes : Int
  /-- `ver_res`. -/
  verRes : Int
  /-- `p_scanln`, the pixels of a line, visible or not. -/
  pScanln : Int
  /-- `p_format`. -/
  pFormat : Int
  /-- A line has a visible pixel. -/
  one_le_horRes : 1 ≤ horRes
  /-- There is a line. -/
  one_le_verRes : 1 ≤ verRes
  /-- The visible pixels of a line are among its pixels. -/
  horRes_le : horRes ≤ pScanln
  /-- The bytes of the framebuffer can be counted in an `int`. -/
  bytes_lt : 4 * pScanln * verRes < 2 ^ 31

/-- `RGB`. -/
def RGB : Int := 0

/-- `BGR`. -/
def BGR : Int := 1

namespace Mode

variable (m : Mode)

/-- The pixels of the framebuffer. -/
def pixels : Int := m.pScanln * m.verRes

/-- `size`, the pixels of the back buffer. -/
def size : Int := int32 (m.pScanln * m.verRes)

/-- `coulmns`. -/
def coulmns : Int := shr (int32 (m.horRes + 7)) 3

/-- `rows`. -/
def rows : Int := shr (int32 (m.verRes + 15)) 4

/-- The number of cells that `diff` is allocated for. -/
def cells : Int := int32 (m.coulmns * m.rows)

/-- `diff_size`. -/
def diffSize : Nat := m.coulmns.toNat * m.rows.toNat

end Mode

/-- The two buffers and the marks. -/
structure Screen where
  /-- The framebuffer, at `fb_phys`. -/
  front : Int → BitVec 32
  /-- The back buffer, at `fb_addr`. -/
  back : Int → BitVec 32
  /-- `diff`. -/
  diff : Int → Bool

/-- The buffers after `vga_init`, over what the framebuffer showed before. -/
def vgaInit (front : Int → BitVec 32) : Screen where
  front := front
  back _ := 0
  diff _ := false

/-! ## The bodies of the loops -/

section

variable (m : Mode)

/-- The index of a pixel of a line. -/
def place (x y : Int) : Int := int32 (y * m.pScanln + x)

/-- `update_diff`. -/
def updateDiff (s : Screen) (x y : Int) : Option Screen :=
  if x < 0 ∨ x ≥ m.horRes ∨ y < 0 ∨ y ≥ m.verRes then some s
  else do
    let diff ← store m.cells s.diff (int32 (shr y 4 * m.coulmns + shr x 3)) true
    return { s with diff := diff }

/-- A color with red and blue exchanged. -/
def bgrColor (color : BitVec 32) : BitVec 32 :=
  ((color &&& 0xff) <<< 16) + (color &&& 0xff00) + ((color &&& 0xff0000) >>> 16)

/-- `draw_pixel`. -/
def drawPixel (s : Screen) (x y : Int) (color : BitVec 32) : Option Screen :=
  if x < 0 ∨ x ≥ m.horRes ∨ y < 0 ∨ y ≥ m.verRes then some s
  else do
    let addr := place m x y
    let s ← updateDiff m s x y
    if addr < m.size then
      if m.pFormat = BGR then
        let back ← store m.size s.back addr (bgrColor color)
        return { s with back := back }
      else if m.pFormat = RGB then
        let back ← store m.size s.back addr color
        return { s with back := back }
      else return s
    else return s

/-- `vga16_color`. -/
def vga16Color : Fin 16 → BitVec 32 :=
  ![0x000000, 0x0000aa, 0x00aa00, 0x00aaaa, 0xaa0000, 0xaa00aa, 0xaa5500, 0xaaaaaa,
    0x555555, 0x5555ff, 0x55ff55, 0x55ffff, 0xff5555, 0xff55ff, 0xffff55, 0xffffff]

/-- `Black`. -/
def Black : Fin 16 := 0

/-- `draw_16color`, which is `draw_pixel` for a color of the table. -/
def draw16color (s : Screen) (x y : Int) (colorIndex : Fin 16) : Option Screen :=
  drawPixel m s x y (vga16Color colorIndex)

/-- The first loop of `scroll`: a pixel of line `y` is taken from 16 lines further down. -/
def shiftPixel (s : Screen) (x y : Int) : Option Screen := do
  let lineSize := int32 (m.pScanln * 4)
  -- the pointers are byte addresses, and pixels are four bytes
  let dst := int32 (y * lineSize) / 4
  let src := int32 ((y + 16) * lineSize) / 4
  let v ← load m.size s.back (src + x)
  let back ← store m.size s.back (dst + x) v
  updateDiff m { s with back := back } x y

/-- The second loop of `scroll`. -/
def clearPixel (s : Screen) (x y : Int) : Option Screen := do
  let s ← drawPixel m s x y (vga16Color Black)
  updateDiff m s x y

/-- `real[place] = back[place]`. -/
def copyPixel (s : Screen) (p : Int) : Option Screen := do
  let v ← load m.size s.back p
  let front ← store m.pixels s.front p v
  return { s with front := front }

/-- The pixels of a cell that `present` goes through. -/
def cellPlaces (i : Nat) : List Int :=
  let y := shl (int32 ↑(i / m.coulmns.toNat)) 4
  let x := shl (int32 ↑(i % m.coulmns.toNat)) 3
  (upTo y (min (y + 16) m.verRes)).flatMap fun i =>
    (upTo x (min (x + 8) m.horRes)).map fun j => place m j i

/-- The loop of `present`: a marked cell is copied. -/
def presentCell (s : Screen) (i : Nat) : Option Screen := do
  if ← load m.cells s.diff i then
    let diff ← store m.cells s.diff i false
    (cellPlaces m i).foldlM (copyPixel m) { s with diff := diff }
  else return s

end

/-! ## The calls -/

/-- One iteration of a loop over the buffers. -/
inductive Step
  /-- `draw_pixel`. -/
  | pixel (x y : Int) (color : BitVec 32)
  /-- `draw_16color`. -/
  | pixel16 (x y : Int) (colorIndex : Fin 16)
  /-- The first loop of `scroll`. -/
  | shift (x y : Int)
  /-- The second loop of `scroll`. -/
  | clear (x y : Int)
  /-- The loop of `present`. -/
  | cell (i : Nat)

/-- What an iteration does. -/
def Step.run (m : Mode) (s : Screen) : Step → Option Screen
  | .pixel x y color => drawPixel m s x y color
  | .pixel16 x y colorIndex => draw16color m s x y colorIndex
  | .shift x y => shiftPixel m s x y
  | .clear x y => clearPixel m s x y
  | .cell i => presentCell m s i

/-- One iteration after the other. -/
def runSteps (m : Mode) (s : Screen) (l : List Step) : Option Screen := l.foldlM (Step.run m) s

section

variable (m : Mode)

/-- `present`. -/
def present : List Step := (List.range m.diffSize).map .cell

/-- `scroll`. -/
def scroll : List Step :=
  (upTo 0 (m.verRes - 16)).flatMap (fun y => (upTo 0 m.pScanln).map fun x => .shift x y) ++
  (upTo (m.verRes - 16) m.verRes).flatMap (fun y => (upTo 0 m.pScanln).map fun x => .clear x y) ++
  present m

/-- What a call uses beside the mode and its arguments. -/
structure Resources where
  /-- The bytes at `font_data`: a `char` is signed, so its bitmap may lie before the table. -/
  font : Int → BitVec 8
  /-- The characters at an address, up to the zero. -/
  string : BitVec 64 → List (BitVec 8)

variable (r : Resources)

/-- `draw_char`. -/
def drawChar (textcolor : Fin 16) (ch : BitVec 8) (coulmn row : Int) : List Step :=
  let coulmn := shl coulmn 3
  let row := shl row 4
  let fontIndex := shl ch.toInt 4
  (List.range 16).flatMap fun (i : Nat) =>
    let byte := r.font (fontIndex + i)
    (List.range 8).map fun (j : Nat) =>
      .pixel16 (int32 (coulmn + j)) (int32 (row + i)) (if checkByte byte j 1 = 1 then textcolor else Black)

/-- `struct Cursor`. -/
structure Cursor where
  /-- `coulmn`. -/
  coulmn : Int
  /-- `row`. -/
  row : Int

/-- `draw_cursor`. -/
def drawCursor (cursor : Cursor) (colorIndex : Fin 16) : List Step :=
  let x := shl cursor.coulmn 3
  let y := shl cursor.row 4
  (upTo 14 16).flatMap fun i => (upTo 0 8).map fun j => .pixel16 (int32 (x + j)) (int32 (y + i)) colorIndex

/-! ## Text -/

/-- What is being printed: where the cursor is, and what has been drawn. -/
structure Text where
  /-- `cursor`. -/
  cursor : Cursor
  /-- The iterations so far. -/
  steps : List Step

/-- Behind the last row the screen is scrolled. -/
def Text.wrapRow (t : Text) : Text :=
  if t.cursor.row ≥ shr m.verRes 4 then
    { steps := t.steps ++ scroll m, cursor := { t.cursor with row := shr m.verRes 4 - 1 } }
  else t

/-- `cursor_inc`. -/
def cursorInc (t : Text) : Text :=
  let coulmn := int32 (t.cursor.coulmn + 1)
  if coulmn ≥ shr m.pScanln 3 then
    { t with cursor := { coulmn := 0, row := int32 (t.cursor.row + 1) } : Text }.wrapRow m
  else { t with cursor := { t.cursor with coulmn := coulmn } : Text }.wrapRow m

variable (textcolor : Fin 16)

/-- `draw_char(ch, cursor.coulmn, cursor.row); cursor_inc();`. -/
def putChar (t : Text) (ch : BitVec 8) : Text :=
  cursorInc m { t with steps := t.steps ++ drawChar r textcolor ch t.cursor.coulmn t.cursor.row }

/-- The digits that `print_unsigned` leaves in its buffer, the last one first. -/
def digits (x : Nat) : List (BitVec 8) :=
  BitVec.ofNat 8 (0x30 + x % 10) :: if x / 10 = 0 then [] else digits (x / 10)
termination_by x

/-- `print_unsigned` and `print_unsigned_long`. -/
def printUnsigned (t : Text) (x : Nat) : Text := (digits x).reverse.foldl (putChar m r textcolor) t

/-- `print_int` and `print_long`. -/
def printSigned {w : Nat} (t : Text) (x : BitVec w) : Text :=
  if x.slt 0 then printUnsigned m r textcolor (putChar m r textcolor t 0x2d#8) (-(x + 1) + 1).toNat
  else printUnsigned m r textcolor t x.toNat

/-- A digit of `hex`. -/
def hexDigit (x : Nat) : BitVec 8 := BitVec.ofNat 8 (if x < 10 then 0x30 + x else 0x37 + x)

/-- `print_byte_hex`. -/
def printByteHex (t : Text) (b : BitVec 8) : Text :=
  putChar m r textcolor (putChar m r textcolor t (hexDigit ((b >>> 4) &&& 0xF).toNat)) (hexDigit (b &&& 0xF).toNat)

/-- `print_word_hex`. -/
def printWordHex (t : Text) (w : BitVec 16) : Text :=
  printByteHex m r textcolor (printByteHex m r textcolor t ((w >>> 8).setWidth 8)) ((w &&& 0xFF).setWidth 8)

/-- `print_dword_hex`. -/
def printDwordHex (t : Text) (d : BitVec 32) : Text :=
  printWordHex m r textcolor (printWordHex m r textcolor t ((d >>> 16).setWidth 16)) ((d &&& 0xFFFF).setWidth 16)

/-- `print_qword_hex`. -/
def printQwordHex (t : Text) (q : BitVec 64) : Text :=
  printDwordHex m r textcolor (printDwordHex m r textcolor t ((q >>> 32).setWidth 32))
    ((q &&& 0xFFFFFFFF).setWidth 32)

/-- `'\n'`. -/
def newline (t : Text) : Text :=
  { t with cursor := { coulmn := 0, row := int32 (t.cursor.row + 1) } : Text }.wrapRow m

/-- The characters of a `%s`. -/
def stringAt (value : BitVec 64) : List (BitVec 8) :=
  if value = 0 then [0x28, 0x6e, 0x75, 0x6c, 0x6c, 0x29] else r.string value

/-- The loop of `printf`, over the rest of the format and the arguments that are left. -/
def printLoop : List (BitVec 8) → (Nat → BitVec 64) → Text → Text
  | [], _, t => t
  | 0x0a#8 :: str, args, t => printLoop str args (newline m t)
  | 0x25#8 :: 0x64#8 :: str, args, t =>
    printLoop str (args ∘ Nat.succ) (printSigned m r textcolor t ((args 0).setWidth 32))
  | 0x25#8 :: 0x75#8 :: 0x78#8 :: str, args, t =>
    printLoop str (args ∘ Nat.succ) (printDwordHex m r textcolor t ((args 0).setWidth 32))
  | 0x25#8 :: 0x75#8 :: str, args, t =>
    printLoop str (args ∘ Nat.succ) (printUnsigned m r textcolor t ((args 0).setWidth 32).toNat)
  | 0x25#8 :: 0x6c#8 :: 0x64#8 :: str, args, t =>
    printLoop str (args ∘ Nat.succ) (printSigned m r textcolor t (args 0))
  | 0x25#8 :: 0x6c#8 :: 0x75#8 :: str, args, t =>
    printLoop str (args ∘ Nat.succ) (printUnsigned m r textcolor t (args 0).toNat)
  | 0x25#8 :: 0x6c#8 :: 0x78#8 :: str, args, t =>
    printLoop str (args ∘ Nat.succ) (printQwordHex m r textcolor t (args 0))
  | 0x25#8 :: 0x6c#8 :: str, args, t =>
    printLoop str args (putChar m r textcolor (putChar m r textcolor t 0x25#8) 0x6c#8)
  | 0x25#8 :: 0x62#8 :: str, args, t =>
    printLoop str (args ∘ Nat.succ) (printByteHex m r textcolor t ((args 0).setWidth 8))
  | 0x25#8 :: 0x73#8 :: str, args, t =>
    printLoop str (args ∘ Nat.succ) ((stringAt r (args 0)).foldl (putChar m r textcolor) t)
  | 0x25#8 :: 0x63#8 :: str, args, t =>
    printLoop str (args ∘ Nat.succ) (putChar m r textcolor t ((args 0).setWidth 8))
  | 0x25#8 :: 0x77#8 :: str, args, t =>
    printLoop str (args ∘ Nat.succ) (printWordHex m r textcolor t ((args 0).setWidth 16))
  -- a percent sign with nothing known behind it is printed like any other character
  | ch :: str, args, t => printLoop str args (putChar m r textcolor t ch)

/-- `printf`, which returns where the cursor was. -/
def printf (cursor : Cursor) (str : List (BitVec 8)) (args : Nat → BitVec 64) : Text × Cursor :=
  let t := printLoop m r textcolor str args { cursor := cursor, steps := [] }
  ({ t with steps := t.steps ++ present m }, cursor)

end

/-! ## A sequence of calls -/

/-- A call into `vga.c`. -/
inductive Call
  /-- `draw_pixel`. -/
  | drawPixel (x y : Int) (color : BitVec 32)
  /-- `draw_16color`. -/
  | draw16color (x y : Int) (colorIndex : Fin 16)
  /-- `draw_char`. -/
  | drawChar (ch : BitVec 8) (coulmn row : Int)
  /-- `draw_cursor`. -/
  | drawCursor (colorIndex : Fin 16)
  /-- `scroll`. -/
  | scroll
  /-- `printf`, with the format up to its zero and the arguments one after the other. -/
  | printf (str : List (BitVec 8)) (args : Nat → BitVec 64)
  /-- `Set_GlobalTextColor`. -/
  | setGlobalTextColor (colorIndex : Fin 16)

/-- What is left from one call to the next, beside the buffers. -/
structure Console where
  /-- `cursor`. -/
  cursor : Cursor
  /-- `global_textcolor`. -/
  textcolor : Fin 16

/-- The iterations of a call, and what it leaves. -/
def Call.run (m : Mode) (r : Resources) (c : Console) : Call → List Step × Console
  | .drawPixel x y color => ([.pixel x y color], c)
  | .draw16color x y colorIndex => ([.pixel16 x y colorIndex], c)
  | .drawChar ch coulmn row => (Display.drawChar r c.textcolor ch coulmn row, c)
  | .drawCursor colorIndex => (Display.drawCursor c.cursor colorIndex, c)
  | .scroll => (Display.scroll m, c)
  | .printf str args =>
    let t := (Display.printf m r c.textcolor c.cursor str args).1
    (t.steps, { c with cursor := t.cursor })
  | .setGlobalTextColor colorIndex => ([], { c with textcolor := colorIndex })

/-- The iterations of a sequence of calls. -/
def stepsOf (m : Mode) (r : Resources) : Console → List Call → List Step
  | _, [] => []
  | c, call :: calls => (call.run m r c).1 ++ stepsOf m r (call.run m r c).2 calls

end Display

end Dem64
