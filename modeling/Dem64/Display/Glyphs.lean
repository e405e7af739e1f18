import Dem64.Display.Damage

/-!
# The reads of the font

`draw_char` reads the 16 bytes of a glyph from `font_data`, at an index that it makes of a `char`.  A `char` is
signed, so from 0x80 on the index is negative.  The reads of a `printf` are in the table exactly if every character
that it is given, in the format or in an argument, is below 0x80 (`fontReads_inside_iff`).
-/

set_option autoImplicit false

namespace Dem64

namespace Display

/-! ## Indices -/

/-- The indices at which `draw_char` reads `font_data`. -/
def glyphIndices (ch : BitVec 8) : List Int := (List.range 16).map fun (i : Nat) => shl ch.toInt 4 + i

/-- The indices of an item. -/
def Item.fontReads : Item → List Int
  | .char ch => glyphIndices ch
  | .lineFeed => []

/-- The indices of a call of `printf`. -/
def fontReads (r : Resources) (str : List (BitVec 8)) (args : Nat → BitVec 64) : List Int :=
  (output r (pieces str) args).flatMap Item.fontReads

/-- The index is in the table of 256 glyphs of 16 bytes. -/
def InFont (p : Int) : Prop := 0 ≤ p ∧ p < 256 * 16

instance (p : Int) : Decidable (InFont p) := inferInstanceAs (Decidable (_ ∧ _))

/-- The character is not negative. -/
def Plain (ch : BitVec 8) : Prop := ch.toNat < 0x80

instance (ch : BitVec 8) : Decidable (Plain ch) := inferInstanceAs (Decidable (_ < _))

/-- The characters of an argument, if it is one or a string of them, are plain. -/
def Directive.Plain (r : Resources) (v : BitVec 64) : Directive → Prop
  | .string => ∀ ch ∈ stringAt r v, Display.Plain ch
  | .char => Display.Plain (v.setWidth 8)
  | _ => True

section

variable {r r' : Resources} {textcolor : Fin 16} {ch : BitVec 8} {coulmn row : Int} {str : List (BitVec 8)}
  {args : Nat → BitVec 64} {ps : List Piece}

theorem plain_ofNat {n : Nat} (hn : n < 128) : Plain (BitVec.ofNat 8 n) := by
  rw [Plain, BitVec.toNat_ofNat]
  omega

/-- A character depends on the font at its indices only. -/
theorem drawChar_congr (h : ∀ p ∈ glyphIndices ch, r.font p = r'.font p) :
    drawChar r textcolor ch coulmn row = drawChar r' textcolor ch coulmn row := by
  rw [drawChar, drawChar, List.flatMap_def, List.flatMap_def]
  refine congrArg List.flatten (List.map_congr_left fun i hi => ?_)
  rw [h _ (List.mem_map_of_mem hi)]

theorem glyphIndices_inside_iff : (∀ p ∈ glyphIndices ch, InFont p) ↔ Plain ch := by
  have hlt := ch.isLt
  have hle := ch.toInt_lt
  have hge := ch.le_toInt
  have hshl : shl ch.toInt 4 = ch.toInt * 2 ^ 4 := shl_eq (by omega) (by omega)
  rw [Plain]
  constructor
  · intro h
    have hfirst := (h _ (List.mem_map_of_mem (List.mem_range.mpr (by decide : 0 < 16)))).1
    rw [hshl] at hfirst
    by_contra hbig
    rw [BitVec.toInt_eq_toNat_cond, if_neg (by omega)] at hfirst
    omega
  · intro hplain p hp
    obtain ⟨i, hi, rfl⟩ := List.mem_map.mp hp
    rw [List.mem_range] at hi
    rw [hshl, BitVec.toInt_eq_toNat_cond, if_pos (by omega), InFont]
    omega

/-! ## Texts of numbers -/

theorem plain_decimal (n : Nat) : ∀ ch ∈ decimal n, Plain ch := by
  intro ch hch
  obtain ⟨c, hc, rfl⟩ := List.mem_map.mp hch
  have hdigit := Nat.isDigit_of_mem_toDigits (by decide) (by decide) hc
  have hle : c.toNat ≤ 57 := (Char.isDigit_iff_toNat.mp hdigit).2
  rw [Plain, BitVec.toNat_ofNat]
  omega

theorem plain_hexText (k x : Nat) : ∀ ch ∈ hexText k x, Plain ch := by
  induction k generalizing x with
  | zero => exact fun _ h => absurd h List.not_mem_nil
  | succ k ih =>
    rw [hexText, List.forall_mem_append]
    refine ⟨ih _, List.forall_mem_singleton.mpr ?_⟩
    have hdigit : ∀ d, d < 16 → Plain (upperDigit d) := by decide
    exact hdigit _ (Nat.mod_lt x (by decide))

theorem plain_decimalInt (z : Int) : ∀ ch ∈ decimalInt z, Plain ch := by
  rw [decimalInt]
  split
  · exact List.forall_mem_cons.mpr ⟨by decide, plain_decimal _⟩
  · exact plain_decimal _

theorem plain_text_iff {d : Directive} {v : BitVec 64} : (∀ ch ∈ d.text r v, Plain ch) ↔ d.Plain r v := by
  cases d with
  | int | long => exact iff_of_true (plain_decimalInt _) trivial
  | unsigned | unsignedLong => exact iff_of_true (plain_decimal _) trivial
  | unsignedHex | longHex | byte | word => exact iff_of_true (plain_hexText _ _) trivial
  | string => exact Iff.rfl
  | char => exact List.forall_mem_singleton

/-! ## The reads of a call -/

/-- The pieces and the arguments are plain. -/
def PlainPieces (r : Resources) : List Piece → (Nat → BitVec 64) → Prop
  | [], _ => True
  | .char ch :: ps, args => Plain ch ∧ PlainPieces r ps args
  | .lineFeed :: ps, args => PlainPieces r ps args
  | .directive d :: ps, args => d.Plain r (args 0) ∧ PlainPieces r ps (args ∘ Nat.succ)

theorem fontReads_text {l : List (BitVec 8)} :
    (∀ p ∈ (l.map Item.char).flatMap Item.fontReads, InFont p) ↔ ∀ ch ∈ l, Plain ch := by
  rw [List.forall_mem_flatMap, List.forall_mem_map]
  exact forall₂_congr fun ch _ => glyphIndices_inside_iff

theorem output_inside_iff :
    (∀ p ∈ (output r ps args).flatMap Item.fontReads, InFont p) ↔ PlainPieces r ps args := by
  induction ps generalizing args with
  | nil => exact iff_of_true (fun _ h => absurd h List.not_mem_nil) trivial
  | cons piece ps ih =>
    cases piece with
    | char ch =>
      rw [output, List.flatMap_cons, List.forall_mem_append, ih]
      exact and_congr_left fun _ => glyphIndices_inside_iff
    | lineFeed => exact ih
    | directive d =>
      rw [output, List.flatMap_append, List.forall_mem_append, fontReads_text, plain_text_iff, ih, PlainPieces]

theorem plainPieces_iff : PlainPieces r ps args ↔
    (∀ ch, .char ch ∈ ps → Plain ch) ∧
      ∀ (i : Nat) (d : Directive), (directives ps)[i]? = some d → d.Plain r (args i) := by
  induction ps generalizing args with
  | nil =>
    exact iff_of_true trivial ⟨fun _ h => absurd h List.not_mem_nil, fun _ _ h => absurd h (by simp [directives])⟩
  | cons piece ps ih =>
    cases piece with
    | char ch =>
      have hdirectives : directives (.char ch :: ps) = directives ps := rfl
      rw [PlainPieces, ih, hdirectives, ← and_assoc]
      refine and_congr_left fun _ => ?_
      simp only [List.mem_cons, Piece.char.injEq, forall_eq_or_imp]
    | lineFeed =>
      have hdirectives : directives (.lineFeed :: ps) = directives ps := rfl
      rw [PlainPieces, ih, hdirectives]
      refine and_congr_left fun _ => ?_
      simp only [List.mem_cons, reduceCtorEq, false_or]
    | directive d =>
      have hdirectives : directives (.directive d :: ps) = d :: directives ps := rfl
      rw [PlainPieces, ih, hdirectives, and_left_comm]
      refine and_congr (by simp only [List.mem_cons, reduceCtorEq, false_or]) ⟨?_, ?_⟩
      · rintro ⟨hfirst, hrest⟩ i d' hd
        cases i with
        | zero =>
          rw [List.getElem?_cons_zero, Option.some.injEq] at hd
          rw [← hd]
          exact hfirst
        | succ i => exact hrest i d' (by rwa [List.getElem?_cons_succ] at hd)
      · intro h
        exact ⟨h 0 d rfl, fun i d' hd => h (i + 1) d' (by rwa [List.getElem?_cons_succ])⟩

/-- The names of the directives are plain, so the bytes of a format are if its characters are. -/
theorem plain_pieces_iff : (∀ ch, .char ch ∈ pieces str → Plain ch) ↔ ∀ ch ∈ str, Plain ch := by
  fun_induction pieces str with
  | case1 => exact iff_of_true (fun _ h => absurd h List.not_mem_nil) (fun _ h => absurd h List.not_mem_nil)
  | case13 ch str _ _ _ _ _ _ _ _ _ _ _ ih => simp only [List.mem_cons, Piece.char.injEq, forall_eq_or_imp, ih]
  | case2 | case3 | case4 | case5 | case6 | case7 | case8 | case9 | case10 | case11 | case12 =>
    rename_i ih
    simp only [List.mem_cons, reduceCtorEq, false_or, ih, forall_eq_or_imp, plain_ofNat, Nat.reduceLT, true_and]

/-- **The reads of the font are in the table exactly if all characters are plain**: those of the format, of the
strings and of the `%c` arguments. -/
theorem fontReads_inside_iff (r : Resources) (str : List (BitVec 8)) (args : Nat → BitVec 64) :
    (∀ p ∈ fontReads r str args, InFont p) ↔
      (∀ ch ∈ str, Plain ch) ∧
        ∀ (i : Nat) (d : Directive), (directives (pieces str))[i]? = some d → d.Plain r (args i) :=
  output_inside_iff.trans (plainPieces_iff.trans (and_congr_left fun _ => plain_pieces_iff))

end

/-- A `%c` of the character 0x80 reads 128 glyphs before the table. -/
theorem not_fontReads_inside :
    ¬∀ (r : Resources) (str : List (BitVec 8)) (args : Nat → BitVec 64), ∀ p ∈ fontReads r str args, InFont p := by
  intro h
  exact absurd (h ⟨fun _ => 0, fun _ => []⟩ [0x25, 0x63] (fun _ => 0x80) (-2048) (by decide)) (by decide)

end Display

end Dem64
