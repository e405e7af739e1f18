import Dem64.Display.Screen

/-!
# What a format stands for

A format is a list of pieces: characters, line feeds and directives (`pieces`).  With its arguments it stands for a
list of items, the characters to draw and the line feeds (`output`), in which an integer is its decimal or its
hexadecimal text.  `printf` draws these items one after the other (`printLoop_eq`).
-/

set_option autoImplicit false

namespace Dem64

namespace Display

/-! ## Pieces -/

/-- A directive that `printf` knows. -/
inductive Directive
  /-- `%d`. -/
  | int
  /-- `%u`. -/
  | unsigned
  /-- `%ux`. -/
  | unsignedHex
  /-- `%ld`. -/
  | long
  /-- `%lu`. -/
  | unsignedLong
  /-- `%lx`. -/
  | longHex
  /-- `%b`. -/
  | byte
  /-- `%w`. -/
  | word
  /-- `%s`. -/
  | string
  /-- `%c`. -/
  | char
  deriving DecidableEq

/-- A piece of a format. -/
inductive Piece
  | char (ch : BitVec 8)
  | lineFeed
  | directive (d : Directive)
  deriving DecidableEq

/-- The pieces of a format.  What is behind a percent sign and is no directive is characters. -/
def pieces : List (BitVec 8) → List Piece
  | [] => []
  | 0x0a#8 :: str => .lineFeed :: pieces str
  | 0x25#8 :: 0x64#8 :: str => .directive .int :: pieces str
  | 0x25#8 :: 0x75#8 :: 0x78#8 :: str => .directive .unsignedHex :: pieces str
  | 0x25#8 :: 0x75#8 :: str => .directive .unsigned :: pieces str
  | 0x25#8 :: 0x6c#8 :: 0x64#8 :: str => .directive .long :: pieces str
  | 0x25#8 :: 0x6c#8 :: 0x75#8 :: str => .directive .unsignedLong :: pieces str
  | 0x25#8 :: 0x6c#8 :: 0x78#8 :: str => .directive .longHex :: pieces str
  | 0x25#8 :: 0x62#8 :: str => .directive .byte :: pieces str
  | 0x25#8 :: 0x73#8 :: str => .directive .string :: pieces str
  | 0x25#8 :: 0x63#8 :: str => .directive .char :: pieces str
  | 0x25#8 :: 0x77#8 :: str => .directive .word :: pieces str
  | ch :: str => .char ch :: pieces str

/-- The directives among the pieces. -/
def directives (ps : List Piece) : List Directive :=
  ps.filterMap fun
    | .directive d => some d
    | _ => none

/-! ## Texts -/

/-- The decimal text of a number. -/
def decimal (n : Nat) : List (BitVec 8) := (Nat.toDigits 10 n).map fun c => BitVec.ofNat 8 c.toNat

/-- The decimal text of an integer. -/
def decimalInt (z : Int) : List (BitVec 8) := if z < 0 then 0x2d#8 :: decimal z.natAbs else decimal z.natAbs

/-- A hexadecimal digit in upper case. -/
def upperDigit (d : Nat) : BitVec 8 := BitVec.ofNat 8 d.digitChar.toUpper.toNat

/-- The hexadecimal text of a number, in `k` digits. -/
def hexText : Nat → Nat → List (BitVec 8)
  | 0, _ => []
  | k + 1, x => hexText k (x / 16) ++ [upperDigit (x % 16)]

/-- An argument as a text. -/
def Directive.text (r : Resources) (v : BitVec 64) : Directive → List (BitVec 8)
  | .int => decimalInt (v.setWidth 32).toInt
  | .unsigned => decimal (v.setWidth 32).toNat
  | .unsignedHex => hexText 8 (v.setWidth 32).toNat
  | .long => decimalInt v.toInt
  | .unsignedLong => decimal v.toNat
  | .longHex => hexText 16 v.toNat
  | .byte => hexText 2 (v.setWidth 8).toNat
  | .word => hexText 4 (v.setWidth 16).toNat
  | .string => stringAt r v
  | .char => [v.setWidth 8]

/-! ## Items -/

/-- What is drawn: a character, or a line feed. -/
inductive Item
  | char (ch : BitVec 8)
  | lineFeed
  deriving DecidableEq

/-- What the pieces and the arguments stand for. -/
def output (r : Resources) : List Piece → (Nat → BitVec 64) → List Item
  | [], _ => []
  | .char ch :: ps, args => .char ch :: output r ps args
  | .lineFeed :: ps, args => .lineFeed :: output r ps args
  | .directive d :: ps, args => (d.text r (args 0)).map .char ++ output r ps (args ∘ Nat.succ)

section

variable (m : Mode) (r : Resources) (textcolor : Fin 16)

/-- An item is drawn. -/
def Text.item (t : Text) : Item → Text
  | .char ch => putChar m r textcolor t ch
  | .lineFeed => newline m t

end

/-! ## Digits -/

section

variable {m : Mode} {r : Resources} {textcolor : Fin 16} {t : Text} {x k j : Nat}

theorem ofNat_digitChar {d : Nat} (hd : d < 10) :
    BitVec.ofNat 8 (Nat.digitChar d).toNat = BitVec.ofNat 8 (0x30 + d) := by
  rw [Nat.toNat_digitChar_of_lt_ten hd]

/-- **`print_unsigned` has the decimal text**, the last digit first. -/
theorem reverse_digits (x : Nat) : (digits x).reverse = decimal x := by
  induction x using Nat.strongRecOn with
  | ind x ih =>
    rw [digits, List.reverse_cons, decimal]
    by_cases hx : x / 10 = 0
    · have hlt : x < 10 := by omega
      rw [if_pos hx, Nat.toDigits_of_lt_base hlt, List.map_singleton, ofNat_digitChar hlt, Nat.mod_eq_of_lt hlt]
      rfl
    · rw [if_neg hx, ih (x / 10) (by omega), Nat.toDigits_of_base_le (by decide) (by omega), List.map_append,
        List.map_singleton, ofNat_digitChar (Nat.mod_lt x (by decide)), decimal]

theorem slt_zero_iff {w : Nat} {z : BitVec w} : z.slt 0 = true ↔ z.toInt < 0 := by
  rw [BitVec.slt_iff_toInt_lt, BitVec.ofNat_eq_ofNat, BitVec.toInt_zero]

/-- The negation that `print_int` takes in two steps is the absolute value, for the least integer too. -/
theorem toNat_neg_add_one {w : Nat} {z : BitVec w} (hz : z.slt 0 = true) :
    z.toInt < 0 ∧ (-(z + 1) + 1).toNat = z.toInt.natAbs := by
  rw [slt_zero_iff] at hz
  refine ⟨hz, ?_⟩
  have hneg : -(z + 1) + 1 = -z := by
    rw [BitVec.neg_add, BitVec.sub_eq_add_neg, BitVec.add_assoc, BitVec.add_left_neg, BitVec.add_zero]
  have htwo := BitVec.toInt_neg_iff.mp hz
  have hlt := z.isLt
  rw [hneg, BitVec.toNat_neg, Nat.mod_eq_of_lt (by omega), BitVec.toInt_eq_toNat_cond, if_neg (by omega)]
  omega

theorem hexText_add : hexText (j + k) x = hexText j (x / 16 ^ k) ++ hexText k x := by
  induction k generalizing x with
  | zero => simp [hexText]
  | succ k ih => rw [← Nat.add_assoc, hexText, hexText, ih, Nat.div_div_eq_div_mul, ← Nat.pow_succ', List.append_assoc]

theorem hexText_mod : hexText k (x % 16 ^ k) = hexText k x := by
  induction k generalizing x with
  | zero => rfl
  | succ k ih =>
    rw [hexText, hexText, Nat.pow_succ', Nat.mod_mul_right_div_self, ih, Nat.mod_mul_right_mod]

theorem hexDigit_eq {d : Nat} (hd : d < 16) : hexDigit d = upperDigit d := by
  revert d
  decide

theorem hexText_byte (b : BitVec 8) :
    hexText 2 b.toNat = [hexDigit ((b >>> 4) &&& 0xF).toNat, hexDigit (b &&& 0xF).toNat] := by
  have hlow : (b &&& 0xF).toNat = b.toNat % 16 := by
    rw [BitVec.toNat_and]
    exact Nat.and_two_pow_sub_one_eq_mod _ 4
  have hhigh : ((b >>> 4) &&& 0xF).toNat = b.toNat / 16 % 16 := by
    rw [BitVec.toNat_and, BitVec.toNat_ushiftRight, Nat.shiftRight_eq_div_pow]
    exact Nat.and_two_pow_sub_one_eq_mod _ 4
  rw [hlow, hhigh, hexDigit_eq (Nat.mod_lt _ (by decide)), hexDigit_eq (Nat.mod_lt _ (by decide))]
  rfl

theorem hexText_word (w : BitVec 16) :
    hexText 4 w.toNat = hexText 2 ((w >>> 8).setWidth 8).toNat ++ hexText 2 ((w &&& 0xFF).setWidth 8).toNat := by
  have hlow : ((w &&& 0xFF).setWidth 8).toNat = w.toNat % 16 ^ 2 := by
    rw [BitVec.toNat_setWidth, BitVec.toNat_and]
    exact (congrArg (· % 2 ^ 8) (Nat.and_two_pow_sub_one_eq_mod _ 8)).trans (Nat.mod_mod _ _)
  have hhigh : ((w >>> 8).setWidth 8).toNat = w.toNat / 16 ^ 2 := by
    have hlt := w.isLt
    rw [BitVec.toNat_setWidth, BitVec.toNat_ushiftRight, Nat.shiftRight_eq_div_pow]
    omega
  rw [hlow, hhigh, hexText_mod, ← hexText_add]

theorem hexText_dword (d : BitVec 32) :
    hexText 8 d.toNat =
      hexText 4 ((d >>> 16).setWidth 16).toNat ++ hexText 4 ((d &&& 0xFFFF).setWidth 16).toNat := by
  have hlow : ((d &&& 0xFFFF).setWidth 16).toNat = d.toNat % 16 ^ 4 := by
    rw [BitVec.toNat_setWidth, BitVec.toNat_and]
    exact (congrArg (· % 2 ^ 16) (Nat.and_two_pow_sub_one_eq_mod _ 16)).trans (Nat.mod_mod _ _)
  have hhigh : ((d >>> 16).setWidth 16).toNat = d.toNat / 16 ^ 4 := by
    have hlt := d.isLt
    rw [BitVec.toNat_setWidth, BitVec.toNat_ushiftRight, Nat.shiftRight_eq_div_pow]
    omega
  rw [hlow, hhigh, hexText_mod, ← hexText_add]

theorem hexText_qword (q : BitVec 64) :
    hexText 16 q.toNat =
      hexText 8 ((q >>> 32).setWidth 32).toNat ++ hexText 8 ((q &&& 0xFFFFFFFF).setWidth 32).toNat := by
  have hlow : ((q &&& 0xFFFFFFFF).setWidth 32).toNat = q.toNat % 16 ^ 8 := by
    rw [BitVec.toNat_setWidth, BitVec.toNat_and]
    exact (congrArg (· % 2 ^ 32) (Nat.and_two_pow_sub_one_eq_mod _ 32)).trans (Nat.mod_mod _ _)
  have hhigh : ((q >>> 32).setWidth 32).toNat = q.toNat / 16 ^ 8 := by
    have hlt := q.isLt
    rw [BitVec.toNat_setWidth, BitVec.toNat_ushiftRight, Nat.shiftRight_eq_div_pow]
    omega
  rw [hlow, hhigh, hexText_mod, ← hexText_add]

/-- The text of a nonnegative number in a signed type. -/
theorem decimalInt_of_not_slt {w : Nat} {z : BitVec w} (hz : ¬z.slt 0 = true) :
    decimalInt z.toInt = decimal z.toNat := by
  rw [slt_zero_iff] at hz
  have hnat : z.toInt.natAbs = z.toNat := by
    rw [BitVec.toInt_neg_iff] at hz
    rw [BitVec.toInt_eq_toNat_cond, if_pos (by omega)]
    rfl
  rw [decimalInt, if_neg hz, hnat]

/-- The text of a negative number. -/
theorem decimalInt_of_slt {w : Nat} {z : BitVec w} (hz : z.slt 0 = true) :
    decimalInt z.toInt = 0x2d#8 :: decimal (-(z + 1) + 1).toNat := by
  obtain ⟨hneg, habs⟩ := toNat_neg_add_one hz
  rw [decimalInt, if_pos hneg, habs]

/-! ## Printing -/

theorem printUnsigned_eq : printUnsigned m r textcolor t x = (decimal x).foldl (putChar m r textcolor) t := by
  rw [printUnsigned, reverse_digits]

theorem printSigned_eq {w : Nat} (z : BitVec w) :
    printSigned m r textcolor t z = (decimalInt z.toInt).foldl (putChar m r textcolor) t := by
  rw [printSigned]
  split
  next hz => rw [printUnsigned_eq, decimalInt_of_slt hz]; rfl
  next hz => rw [printUnsigned_eq, decimalInt_of_not_slt hz]

theorem printByteHex_eq (b : BitVec 8) :
    printByteHex m r textcolor t b = (hexText 2 b.toNat).foldl (putChar m r textcolor) t := by
  rw [printByteHex, hexText_byte]
  rfl

theorem printWordHex_eq (w : BitVec 16) :
    printWordHex m r textcolor t w = (hexText 4 w.toNat).foldl (putChar m r textcolor) t := by
  rw [printWordHex, printByteHex_eq, printByteHex_eq, ← List.foldl_append, hexText_word]

theorem printDwordHex_eq (d : BitVec 32) :
    printDwordHex m r textcolor t d = (hexText 8 d.toNat).foldl (putChar m r textcolor) t := by
  rw [printDwordHex, printWordHex_eq, printWordHex_eq, ← List.foldl_append, hexText_dword]

theorem printQwordHex_eq (q : BitVec 64) :
    printQwordHex m r textcolor t q = (hexText 16 q.toNat).foldl (putChar m r textcolor) t := by
  rw [printQwordHex, printDwordHex_eq, printDwordHex_eq, ← List.foldl_append, hexText_qword]

/-- The items of a text are its characters. -/
theorem foldl_item_text (l : List (BitVec 8)) :
    (l.map Item.char).foldl (Text.item m r textcolor) t = l.foldl (putChar m r textcolor) t := by
  rw [List.foldl_map]
  rfl

theorem foldl_item_directive {d : Directive} {ps : List Piece} {args : Nat → BitVec 64} :
    (output r (.directive d :: ps) args).foldl (Text.item m r textcolor) t =
      (output r ps (args ∘ Nat.succ)).foldl (Text.item m r textcolor)
        ((d.text r (args 0)).foldl (putChar m r textcolor) t) := by
  rw [output, List.foldl_append, foldl_item_text]

/-- **`printf` draws what the format stands for.** -/
theorem printLoop_eq (str : List (BitVec 8)) (args : Nat → BitVec 64) (t : Text) :
    printLoop m r textcolor str args t = (output r (pieces str) args).foldl (Text.item m r textcolor) t := by
  fun_induction printLoop m r textcolor str args t with
  | case1 => rfl
  | case2 str args t ih => rw [ih, pieces]; rfl
  | case3 str args t ih => rw [ih, pieces, foldl_item_directive, printSigned_eq]; rfl
  | case4 str args t ih => rw [ih, pieces, foldl_item_directive, printDwordHex_eq]; rfl
  | case5 str args t hnot ih => 
    rw [ih, pieces, foldl_item_directive, printUnsigned_eq]
    · rfl
    · exact hnot
  | case6 str args t ih => rw [ih, pieces, foldl_item_directive, printSigned_eq]; rfl
  | case7 str args t ih => rw [ih, pieces, foldl_item_directive, printUnsigned_eq]; rfl
  | case8 str args t ih => rw [ih, pieces, foldl_item_directive, printQwordHex_eq]; rfl
  | case9 str args t hint hunsigned hhex ih =>
    -- the percent sign and the `l` are two characters
    rw [ih, pieces, pieces]
    · rfl
    all_goals simp_all
  | case10 str args t ih => rw [ih, pieces, foldl_item_directive, printByteHex_eq]; rfl
  | case11 str args t ih => rw [ih, pieces, foldl_item_directive]; rfl
  | case12 str args t ih => rw [ih, pieces, foldl_item_directive]; rfl
  | case13 str args t ih => rw [ih, pieces, foldl_item_directive, printWordHex_eq]; rfl
  | case14 =>
    rename_i ih
    rw [ih, pieces]
    · rfl
    all_goals assumption

end

end Display

end Dem64
