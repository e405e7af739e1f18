import Dem64.Display.Damage
import Dem64.Display.Format

/-!
# Text on the screen

A sequence of `printf` calls goes through stages: items that are drawn, and a `present` behind the items of a call
(`runSteps_printf`).  The text stays on the screen if every character is drawn in a visible cell, the cursor is in one
of the rows of text, and what goes past the last row scrolls the text up by one row.  The columns are counted in the
pixels of a line, visible or not, so this holds exactly if the visible ones have as many columns
(`textStaysOnScreen_iff`).
-/

set_option autoImplicit false

namespace Dem64

namespace Display

/-! ## Stages -/

/-- The buffers and the cursor. -/
structure State where
  screen : Screen
  cursor : Cursor

/-- What a call goes through. -/
inductive Stage
  /-- An item is drawn. -/
  | draw (item : Item)
  /-- `present`, at the end of a call. -/
  | finish

section

variable (m : Mode) (r : Resources) (textcolor : Fin 16)

/-- The iterations and the cursor of an item. -/
def itemText (cursor : Cursor) (item : Item) : Text := Text.item m r textcolor { cursor := cursor, steps := [] } item

/-- What a stage does. -/
def Stage.run (s : State) : Stage → Option State
  | .draw item => do
    let screen ← runSteps m s.screen (itemText m r textcolor s.cursor item).steps
    return { screen := screen, cursor := (itemText m r textcolor s.cursor item).cursor }
  | .finish => do
    let screen ← runSteps m s.screen (present m)
    return { screen := screen, cursor := s.cursor }

/-- One stage after the other. -/
def runStages (s : State) (stages : List Stage) : Option State := stages.foldlM (Stage.run m r textcolor) s

/-- The stages of some `printf` calls. -/
def stages (calls : List (List (BitVec 8) × (Nat → BitVec 64))) : List Stage :=
  calls.flatMap fun call => (output r (pieces call.1) call.2).map .draw ++ [.finish]

/-- The start: the buffers after `vga_init`, and the cursor in the corner. -/
def start (front : Int → BitVec 32) : State := { screen := vgaInit front, cursor := { coulmn := 0, row := 0 } }

end

section

variable {m : Mode} {r : Resources} {textcolor : Fin 16} {t : Text} {s : State}

/-- What was drawn before does not matter for an item. -/
theorem item_eq (t : Text) (item : Item) : Text.item m r textcolor t item =
    { cursor := (itemText m r textcolor t.cursor item).cursor,
      steps := t.steps ++ (itemText m r textcolor t.cursor item).steps } := by
  have hwrap : ∀ (t : Text) (steps : List Step), Text.wrapRow m { cursor := t.cursor, steps := steps ++ t.steps } =
      { cursor := (t.wrapRow m).cursor, steps := steps ++ (t.wrapRow m).steps } := by
    intro t steps
    rw [Text.wrapRow, Text.wrapRow]
    split
    · rw [List.append_assoc]
    · rfl
  cases item with
  | lineFeed =>
    have h := hwrap { cursor := { coulmn := 0, row := int32 (t.cursor.row + 1) }, steps := [] } t.steps
    rw [List.append_nil] at h
    exact h
  | char ch =>
    simp only [itemText, Text.item, putChar, cursorInc]
    split
    · exact hwrap { cursor := { coulmn := 0, row := int32 (t.cursor.row + 1) }, steps := _ } t.steps
    · exact hwrap { cursor := { t.cursor with coulmn := int32 (t.cursor.coulmn + 1) }, steps := _ } t.steps

/-- The items of a text, stage by stage. -/
theorem runStages_items (items : List Item) (t : Text) (screen : Screen) :
    ((runSteps m screen t.steps).bind fun screen =>
      runStages m r textcolor { screen := screen, cursor := t.cursor } (items.map .draw)) =
      (runSteps m screen (items.foldl (Text.item m r textcolor) t).steps).map
        fun screen => { screen := screen, cursor := (items.foldl (Text.item m r textcolor) t).cursor } := by
  induction items generalizing t with
  | nil =>
    rw [List.foldl_nil]
    cases runSteps m screen t.steps <;> rfl
  | cons item items ih =>
    rw [List.foldl_cons, ← ih, item_eq, runSteps_append]
    cases runSteps m screen t.steps with
    | none => rfl
    | some screen =>
      rw [Option.bind_some, Option.bind_some, List.map_cons, runStages, List.foldlM_cons, Stage.run]
      cases runSteps m screen (itemText m r textcolor t.cursor item).steps <;> rfl

/-- **A `printf` call goes through its stages.** -/
theorem runStages_printf (c : Console) (str : List (BitVec 8)) (args : Nat → BitVec 64) (screen : Screen) :
    runStages m r c.textcolor { screen := screen, cursor := c.cursor } (stages r [(str, args)]) =
      (runSteps m screen (Call.run m r c (.printf str args)).1).map
        fun screen => { screen := screen, cursor := (Call.run m r c (.printf str args)).2.cursor } := by
  have hitems := @runStages_items m r c.textcolor (output r (pieces str) args)
    { cursor := c.cursor, steps := [] } screen
  rw [← printLoop_eq] at hitems
  have hstages : stages r [(str, args)] = (output r (pieces str) args).map .draw ++ [.finish] := List.append_nil _
  have hrun : Call.run m r c (.printf str args) =
      ((printLoop m r c.textcolor str args { cursor := c.cursor, steps := [] }).steps ++ present m,
        { c with cursor := (printLoop m r c.textcolor str args { cursor := c.cursor, steps := [] }).cursor }) := rfl
  rw [hstages, hrun, runStages, List.foldlM_append, runSteps_append]
  refine (congrArg (· >>= _) hitems).trans ?_
  cases runSteps m screen (printLoop m r c.textcolor str args { cursor := c.cursor, steps := [] }).steps with
  | none => rfl
  | some screen =>
    rw [Option.map_some, Option.bind_eq_bind, Option.bind_some, Option.bind_some, List.foldlM_cons, Stage.run]
    cases runSteps m screen (present m) <;> rfl

/-- The stages of a sequence of calls. -/
theorem runStages_calls (calls : List (List (BitVec 8) × (Nat → BitVec 64))) (c : Console) (screen : Screen) :
    (runStages m r c.textcolor { screen := screen, cursor := c.cursor } (stages r calls)).map State.screen =
      runSteps m screen (stepsOf m r c (calls.map fun call => .printf call.1 call.2)) := by
  induction calls generalizing c screen with
  | nil => rfl
  | cons call calls ih =>
    have hstages : stages r (call :: calls) = stages r [(call.1, call.2)] ++ stages r calls := by
      simp only [stages, List.flatMap_cons, List.flatMap_nil, List.append_nil]
    have hfirst := runStages_printf (m := m) (r := r) c call.1 call.2 screen
    rw [runStages] at hfirst
    rw [hstages, runStages, List.foldlM_append, hfirst, List.map_cons, stepsOf, runSteps_append, Option.bind_eq_bind]
    cases runSteps m screen (Call.run m r c (.printf call.1 call.2)).1 with
    | none => rfl
    | some screen' => exact ih (Call.run m r c (.printf call.1 call.2)).2 screen'

end

/-! ## Text that stays on the screen -/

/-- The rows of text. -/
def Mode.textRows (m : Mode) : Int := m.verRes / 16

/-- The pixels that are drawn are visible. -/
def DrawnVisible (m : Mode) (l : List Step) : Prop :=
  ∀ x y color, Step.pixel16 x y color ∈ l → Visible m x y

/-- What is drawn for an item before the cursor moves. -/
def glyph (r : Resources) (textcolor : Fin 16) (cursor : Cursor) : Item → List Step
  | .char ch => drawChar r textcolor ch cursor.coulmn cursor.row
  | .lineFeed => []

/-- Where the cursor moves to, before the rows run out. -/
def advance (m : Mode) (cursor : Cursor) : Item → Cursor
  | .char _ =>
    if m.pScanln / 8 ≤ cursor.coulmn + 1 then { coulmn := 0, row := cursor.row + 1 }
    else { cursor with coulmn := cursor.coulmn + 1 }
  | .lineFeed => { coulmn := 0, row := cursor.row + 1 }

/-- A row of text is what the row below it was, and the last row is blank. -/
structure ScrolledUp (m : Mode) (s s' : Screen) : Prop where
  moved : ∀ x y, Visible m x y → y + 16 < 16 * m.textRows → s'.back (place m x y) = s.back (place m x (y + 16))
  blank : ∀ x y, Visible m x y → 16 * m.textRows ≤ y + 16 → y < 16 * m.textRows → s'.back (place m x y) = 0

/-- An item is drawn on the screen, between the states `s` and `s'`. -/
structure OnScreen (m : Mode) (r : Resources) (textcolor : Fin 16) (s : State) (item : Item) (s' : State) : Prop where
  /-- The cell of a character is visible. -/
  visible : DrawnVisible m (glyph r textcolor s.cursor item)
  /-- The cursor is in a row of text. -/
  row : 0 ≤ s'.cursor.row ∧ s'.cursor.row < m.textRows
  /-- Behind the last row the text moves up by one row, and else it stays. -/
  scrolled : ∃ drawn, runSteps m s.screen (glyph r textcolor s.cursor item) = some drawn ∧
    if m.textRows ≤ (advance m s.cursor item).row then
      ScrolledUp m drawn s'.screen ∧ s'.cursor = { advance m s.cursor item with row := m.textRows - 1 }
    else s'.screen = drawn ∧ s'.cursor = advance m s.cursor item

/-- In every sequence of calls from the start, every item is drawn on the screen. -/
def TextStaysOnScreen (m : Mode) : Prop :=
  ∀ (r : Resources) (textcolor : Fin 16) (front : Int → BitVec 32)
    (calls : List (List (BitVec 8) × (Nat → BitVec 64))) (before : List Stage) (item : Item) (after : List Stage),
    stages r calls = before ++ .draw item :: after →
    ∃ s s', runStages m r textcolor (start front) before = some s ∧
      Stage.run m r textcolor s (.draw item) = some s' ∧ OnScreen m r textcolor s item s'

/-! ## The back buffer -/

section

variable {m : Mode} {s : Screen} {x y : Int}

/-- An iteration on the back buffer. -/
def Step.back (m : Mode) (back : Int → BitVec 32) : Step → Int → BitVec 32
  | .pixel x y color => painted m back x y color
  | .pixel16 x y colorIndex => painted m back x y (vga16Color colorIndex)
  | .shift x y => Function.update back (place m x y) (back (place m x (y + 16)))
  | .clear x y => painted m back x y (vga16Color Black)
  | .cell _ => back

theorem Step.run_back {step : Step} (hf : step.Fits m) (s : Screen) :
    ∃ s', step.run m s = some s' ∧ s'.back = step.back m s.back := by
  cases step with
  | pixel x y color => exact ⟨_, drawPixel_eq s x y color, rfl⟩
  | pixel16 x y colorIndex => exact ⟨_, drawPixel_eq s x y _, rfl⟩
  | shift x y => exact ⟨_, shiftPixel_eq s hf.1 hf.2, rfl⟩
  | clear x y => exact ⟨_, clearPixel_eq s x y, rfl⟩
  | cell i => exact ⟨_, presentCell_eq hf, rfl⟩

theorem runSteps_back {l : List Step} (hl : AllFit m l) (s : Screen) :
    ∃ s', runSteps m s l = some s' ∧ s'.back = l.foldl (Step.back m) s.back := by
  induction l generalizing s with
  | nil => exact ⟨s, rfl, rfl⟩
  | cons step l ih =>
    obtain ⟨s', hs', hback⟩ := Step.run_back (hl step List.mem_cons_self) s
    obtain ⟨t, ht, hback'⟩ := ih (fun step' hm => hl step' (List.mem_cons_of_mem step hm)) s'
    exact ⟨t, by rw [runSteps, List.foldlM_cons, hs']; exact ht, by rw [hback', hback]; rfl⟩

/-- The format is one that something is drawn in. -/
def Mode.Drawn (m : Mode) : Prop := m.pFormat = BGR ∨ m.pFormat = RGB

instance : Decidable m.Drawn := inferInstanceAs (Decidable (_ ∨ _))

/-- The pixel is in a line, visible or not. -/
def InLine (m : Mode) (x y : Int) : Prop := (0 ≤ x ∧ x < m.pScanln) ∧ 0 ≤ y ∧ y < m.verRes

variable {x' y' : Int} {back : Int → BitVec 32} {color : BitVec 32} {l : List Step}

theorem painted_of_ne (h : InLine m x y) (hne : (x', y') ≠ (x, y)) :
    painted m back x' y' color (place m x y) = back (place m x y) := by
  rw [painted]
  cases stored m color with
  | none => rfl
  | some v =>
    by_cases hv : Visible m x' y'
    · simp only [if_pos hv]
      refine Function.update_of_ne (fun he => hne ?_) _ _
      obtain ⟨rfl, rfl⟩ := place_inj h.1 h.2 hv.line.1 hv.line.2 he
      rfl
    · simp only [if_neg hv]

theorem painted_of_not_drawn (h : ¬m.Drawn) : painted m back x y color = back := by
  rw [Mode.Drawn, not_or] at h
  rw [painted, stored, if_neg h.1, if_neg h.2]

theorem painted_black (hv : Visible m x y) :
    painted m back x y (vga16Color Black) (place m x y) = if m.Drawn then 0 else back (place m x y) := by
  by_cases h : m.Drawn
  · have hstored : stored m (vga16Color Black) = some 0 := by
      rw [stored]
      split
      · rfl
      · rw [if_pos (h.resolve_left (by assumption))]
        rfl
    rw [if_pos h, painted, hstored]
    simp only [if_pos hv, Function.update_self]
  · rw [if_neg h, painted_of_not_drawn h]

/-- **Lines are moved up in place**: they are read before they are written, since the list goes down. -/
theorem foldl_shift {pixels : List (Int × Int)} (hl : ∀ p ∈ pixels, InLine m p.1 p.2 ∧ p.2 + 16 < m.verRes)
    (hdown : pixels.Pairwise fun p q => p.2 ≤ q.2) (h : InLine m x y) :
    (pixels.map fun p => Step.shift p.1 p.2).foldl (Step.back m) back (place m x y) =
      if (x, y) ∈ pixels then back (place m x (y + 16)) else back (place m x y) := by
  induction pixels generalizing back with
  | nil => rfl
  | cons p pixels ih =>
    obtain ⟨hp, hrest⟩ := List.forall_mem_cons.mp hl
    obtain ⟨hfirst, hdown⟩ := List.pairwise_cons.mp hdown
    have hupdate : ∀ x y, InLine m x y → (x, y) ≠ p →
        Function.update back (place m p.1 p.2) (back (place m p.1 (p.2 + 16))) (place m x y) =
          back (place m x y) := by
      intro x y hxy hne
      refine Function.update_of_ne (fun he => hne ?_) _ _
      obtain ⟨hx, hy⟩ := place_inj hxy.1 hxy.2 hp.1.1 hp.1.2 he
      exact Prod.ext hx hy
    rw [List.map_cons, List.foldl_cons, ih hrest hdown, Step.back]
    by_cases hmem : (x, y) ∈ pixels
    · have hbelow := hrest _ hmem
      have hle := hfirst _ hmem
      simp only at hbelow hle
      rw [if_pos hmem, if_pos (List.mem_cons_of_mem p hmem)]
      refine hupdate x (y + 16) ⟨h.1, by have := h.2; omega, hbelow.2⟩ fun he => ?_
      rw [← he] at hle
      simp only at hle
      omega
    · rw [if_neg hmem]
      by_cases he : (x, y) = p
      · rw [if_pos (List.mem_cons.mpr (.inl he)), ← he]
        exact Function.update_self ..
      · rw [if_neg fun hm => (List.mem_cons.mp hm).elim he hmem]
        exact hupdate x y h he

theorem foldl_clear {pixels : List (Int × Int)} (hv : Visible m x y) :
    (pixels.map fun p => Step.clear p.1 p.2).foldl (Step.back m) back (place m x y) =
      if (x, y) ∈ pixels ∧ m.Drawn then 0 else back (place m x y) := by
  induction pixels generalizing back with
  | nil => rfl
  | cons p pixels ih =>
    rw [List.map_cons, List.foldl_cons, ih, Step.back]
    by_cases he : p = (x, y)
    · subst he
      rw [painted_black hv]
      by_cases hd : m.Drawn
      · simp only [hd, if_true, ite_self, List.mem_cons_self, and_self]
      · simp only [hd, and_false, if_false]
    · rw [painted_of_ne hv.line he]
      simp only [List.mem_cons, Ne.symm he, false_or]

/-- The pixels of some lines. -/
def linePixels (m : Mode) (a b : Int) : List (Int × Int) :=
  (upTo a b).flatMap fun y => (upTo 0 m.pScanln).map fun x => (x, y)

theorem mem_linePixels {a b : Int} : (x, y) ∈ linePixels m a b ↔ (0 ≤ x ∧ x < m.pScanln) ∧ a ≤ y ∧ y < b := by
  simp only [linePixels, List.mem_flatMap, List.mem_map, mem_upTo, Prod.mk.injEq]
  constructor
  · rintro ⟨_, hy, _, hx, rfl, rfl⟩
    exact ⟨hx, hy⟩
  · rintro ⟨hx, hy⟩
    exact ⟨y, hy, x, hx, rfl, rfl⟩

theorem pairwise_linePixels {a b : Int} : (linePixels m a b).Pairwise fun p q => p.2 ≤ q.2 := by
  have hup : (upTo a b).Pairwise fun y z => y < z := by
    rw [upTo, List.pairwise_map]
    exact List.pairwise_lt_range.imp fun h => by omega
  rw [linePixels, List.pairwise_flatMap]
  constructor
  · intro y hy
    rw [List.pairwise_map]
    exact List.pairwise_of_forall fun _ _ => le_rfl
  · refine hup.imp fun hlt p hp q hq => ?_
    obtain ⟨_, -, rfl⟩ := List.mem_map.mp hp
    obtain ⟨_, -, rfl⟩ := List.mem_map.mp hq
    exact hlt.le

theorem foldl_present : (present m).foldl (Step.back m) back = back := by
  rw [present, List.foldl_map]
  induction List.range m.diffSize with
  | nil => rfl
  | cons i l ih => exact ih

/-- **What `scroll` does to a visible pixel.** -/
theorem foldl_scroll (hv : Visible m x y) : (scroll m).foldl (Step.back m) back (place m x y) =
    if y + 16 < m.verRes then back (place m x (y + 16)) else if m.Drawn then 0 else back (place m x y) := by
  have hscroll : scroll m = (linePixels m 0 (m.verRes - 16)).map (fun p => Step.shift p.1 p.2) ++
      (linePixels m (m.verRes - 16) m.verRes).map (fun p => Step.clear p.1 p.2) ++ present m := by
    simp only [scroll, linePixels, List.map_flatMap, List.map_map]
    rfl
  have hline := hv.line
  have hup : ∀ p ∈ linePixels m 0 (m.verRes - 16), InLine m p.1 p.2 ∧ p.2 + 16 < m.verRes := by
    intro p hp
    obtain ⟨hx, hy⟩ := mem_linePixels.mp hp
    exact ⟨⟨hx, by omega⟩, by omega⟩
  rw [hscroll, List.foldl_append, List.foldl_append, foldl_present, foldl_clear hv,
    foldl_shift hup pairwise_linePixels hline]
  simp only [mem_linePixels]
  by_cases hlt : y + 16 < m.verRes
  · rw [if_neg (by omega), if_pos (by omega), if_pos hlt]
  · have hmem : (0 ≤ x ∧ x < m.pScanln) ∧ m.verRes - 16 ≤ y ∧ y < m.verRes := by omega
    have hnot : ¬(0 ≤ y ∧ y < m.verRes - 16) := by omega
    simp only [if_neg hlt, hnot, hmem, and_self, true_and, if_false]

/-! ## A character -/

variable {r : Resources} {textcolor : Fin 16} {cursor : Cursor} {ch : BitVec 8} {item : Item}

/-- The cursor is at a character of a line of text. -/
def Cursor.Inside (m : Mode) (cursor : Cursor) : Prop :=
  (0 ≤ cursor.coulmn ∧ cursor.coulmn < m.pScanln / 8) ∧ 0 ≤ cursor.row ∧ cursor.row < m.textRows

/-- The pixels of a character are those of its cell. -/
theorem mem_drawChar_iff (hc : cursor.Inside m) {step : Step} :
    step ∈ drawChar r textcolor ch cursor.coulmn cursor.row ↔ ∃ i j : Nat, i < 16 ∧ j < 8 ∧
      step = .pixel16 (8 * cursor.coulmn + j) (16 * cursor.row + i)
        (if checkByte (r.font (shl ch.toInt 4 + i)) j 1 = 1 then textcolor else Black) := by
  obtain ⟨⟨hcol, hcol'⟩, hrow, hrow'⟩ := hc
  have hb := m.bounds
  rw [Mode.textRows] at hrow'
  have hx : ∀ j : Nat, j < 8 → int32 (shl cursor.coulmn 3 + j) = 8 * cursor.coulmn + j := by
    intro j hj
    rw [shl_eq (by omega) (by omega), int32_eq (by omega) (by omega)]
    omega
  have hy : ∀ i : Nat, i < 16 → int32 (shl cursor.row 4 + i) = 16 * cursor.row + i := by
    intro i hi
    rw [shl_eq (by omega) (by omega), int32_eq (by omega) (by omega)]
    omega
  simp only [drawChar, List.mem_flatMap, List.mem_map, List.mem_range]
  constructor
  · rintro ⟨i, hi, j, hj, rfl⟩
    exact ⟨i, j, hi, hj, by rw [hx j hj, hy i hi]⟩
  · rintro ⟨i, j, hi, hj, rfl⟩
    exact ⟨i, hi, j, hj, by rw [hx j hj, hy i hi]⟩

/-- **A character is visible if its column is.** -/
theorem drawnVisible_drawChar (hc : cursor.Inside m) :
    DrawnVisible m (drawChar r textcolor ch cursor.coulmn cursor.row) ↔ cursor.coulmn < m.horRes / 8 := by
  have hin := hc
  obtain ⟨⟨hcol, hcol'⟩, hrow, hrow'⟩ := hc
  rw [Mode.textRows] at hrow'
  constructor
  · intro h
    have hlast := h _ _ _ ((mem_drawChar_iff hin).mpr ⟨0, 7, by decide, by decide, rfl⟩)
    have hx := hlast.2.1
    omega
  · intro hlt x y color hmem
    obtain ⟨i, j, hi, hj, he⟩ := (mem_drawChar_iff hin).mp hmem
    injection he with hx hy
    subst hx hy
    exact ⟨by omega, by omega, by omega, by omega⟩

/-- The text of an item is its glyph, and the scroll behind the last row. -/
theorem itemText_eq (hc : cursor.Inside m) : itemText m r textcolor cursor item =
    if m.textRows ≤ (advance m cursor item).row then
      { cursor := { advance m cursor item with row := m.textRows - 1 },
        steps := glyph r textcolor cursor item ++ scroll m }
    else { cursor := advance m cursor item, steps := glyph r textcolor cursor item } := by
  obtain ⟨⟨hcol, hcol'⟩, hrow, hrow'⟩ := hc
  have hb := m.bounds
  have hrows : shr m.verRes 4 = m.textRows := shr_eq
  have hcols : shr m.pScanln 3 = m.pScanln / 8 := shr_eq
  rw [Mode.textRows] at hrow'
  have hnext : int32 (cursor.row + 1) = cursor.row + 1 := int32_eq (by omega) (by omega)
  have hright : int32 (cursor.coulmn + 1) = cursor.coulmn + 1 := int32_eq (by omega) (by omega)
  cases item with
  | lineFeed =>
    simp only [itemText, Text.item, newline, Text.wrapRow, hnext, hrows, advance, glyph, ge_iff_le]
    rfl
  | char ch =>
    simp only [itemText, Text.item, putChar, cursorInc, Text.wrapRow, hnext, hright, hrows, hcols, advance, glyph,
      ge_iff_le, List.nil_append]
    split <;> rfl

/-! ## The invariant -/

/-- Nothing is drawn below the rows of text, and nothing at all if the format is not known. -/
structure Blank (m : Mode) (back : Int → BitVec 32) : Prop where
  below : ∀ x y, Visible m x y → 16 * m.textRows ≤ y → back (place m x y) = 0
  unknown : ¬m.Drawn → ∀ x y, Visible m x y → back (place m x y) = 0

theorem allFit_glyph : AllFit m (glyph r textcolor cursor item) := by
  cases item with
  | char ch => exact allFit_drawChar
  | lineFeed => exact fun _ h => absurd h List.not_mem_nil

/-- A list of pixels that does not come to a pixel leaves it. -/
theorem foldl_pixels (hline : InLine m x y)
    (hl : ∀ step ∈ l, ∃ x' y' color, step = .pixel16 x' y' color ∧ (x', y') ≠ (x, y)) :
    l.foldl (Step.back m) back (place m x y) = back (place m x y) := by
  induction l generalizing back with
  | nil => rfl
  | cons step l ih =>
    obtain ⟨⟨x', y', color, rfl, hne⟩, hrest⟩ := List.forall_mem_cons.mp hl
    rw [List.foldl_cons, ih hrest]
    exact painted_of_ne hline hne

theorem Blank.glyph (h : Blank m back) (hc : cursor.Inside m) :
    Blank m ((glyph r textcolor cursor item).foldl (Step.back m) back) := by
  cases item with
  | lineFeed => exact h
  | char ch =>
    constructor
    · intro x y hv hy
      rw [← h.below x y hv hy]
      refine foldl_pixels hv.line fun step hstep => ?_
      obtain ⟨i, j, hi, hj, rfl⟩ := (mem_drawChar_iff hc).mp hstep
      refine ⟨_, _, _, rfl, fun he => ?_⟩
      have hrow := hc.2
      injection he with hx hy
      omega
    · intro hd x y hv
      rw [← h.unknown hd x y hv]
      refine congrFun (?_ : _ = back) _
      have hsame : ∀ step ∈ Display.glyph r textcolor cursor (.char ch), ∀ back, step.back m back = back := by
        intro step hstep back
        obtain ⟨i, j, hi, hj, rfl⟩ := (mem_drawChar_iff hc).mp hstep
        exact painted_of_not_drawn hd
      generalize Display.glyph r textcolor cursor (.char ch) = l at hsame
      induction l with
      | nil => rfl
      | cons step l ih =>
        obtain ⟨hstep, hrest⟩ := List.forall_mem_cons.mp hsame
        rw [List.foldl_cons, hstep, ih hrest]

/-- **What `scroll` does to the text.** -/
theorem Blank.scroll {s s' : Screen} (h : Blank m s.back) (hs : s'.back = (scroll m).foldl (Step.back m) s.back) :
    Blank m s'.back ∧ ScrolledUp m s s' := by
  have hrows : m.textRows = m.verRes / 16 := rfl
  have hpixel : ∀ x y, Visible m x y → s'.back (place m x y) =
      if y + 16 < m.verRes then s.back (place m x (y + 16)) else if m.Drawn then 0 else s.back (place m x y) := by
    intro x y hv
    rw [hs]
    exact foldl_scroll hv
  have hvisible : ∀ x y, Visible m x y → y + 16 < m.verRes → Visible m x (y + 16) := by
    intro x y hv hlt
    obtain ⟨hx, hx', hy, hy'⟩ := hv
    exact ⟨hx, hx', by omega, hlt⟩
  -- what is moved up from below the rows of text is blank, and so is what is cleared
  have hblank : ∀ x y, Visible m x y → 16 * m.textRows ≤ y + 16 → s'.back (place m x y) = 0 := by
    intro x y hv hy
    rw [hpixel x y hv]
    split
    next hlt => exact h.below x (y + 16) (hvisible x y hv hlt) hy
    next =>
      split
      · rfl
      next hd => exact h.unknown hd x y hv
  refine ⟨⟨fun x y hv hy => hblank x y hv (by omega), fun hd x y hv => ?_⟩,
    ⟨fun x y hv hy => ?_, fun x y hv hy _ => ?_⟩⟩
  · rw [hpixel x y hv]
    split
    · exact h.unknown hd x (y + 16) (hvisible x y hv (by assumption))
    · exact h.unknown hd x y hv
  · rw [hpixel x y hv, if_pos (by omega)]
  · exact hblank x y hv hy

/-- What holds between the stages. -/
structure Good (m : Mode) (s : State) : Prop where
  inside : s.cursor.Inside m
  blank : Blank m s.screen.back

theorem Cursor.Inside.advance (hc : cursor.Inside m) :
    (0 ≤ (advance m cursor item).coulmn ∧ (advance m cursor item).coulmn < m.pScanln / 8) ∧
      0 ≤ (advance m cursor item).row ∧ (advance m cursor item).row ≤ m.textRows := by
  obtain ⟨⟨hcol, hcol'⟩, hrow, hrow'⟩ := hc
  have hpos : 0 < m.pScanln / 8 := lt_of_le_of_lt hcol hcol'
  cases item with
  | lineFeed => exact ⟨⟨le_rfl, hpos⟩, by simp only [Display.advance]; omega⟩
  | char ch =>
    rw [Display.advance]
    split
    · exact ⟨⟨le_rfl, hpos⟩, by simp only; omega⟩
    · exact ⟨by simp only; omega, hrow, hrow'.le⟩

/-- **An item keeps the text on the screen**, except that its cell may be behind the visible columns. -/
theorem Good.draw {s : State} (h : Good m s) (item : Item) :
    ∃ s', Stage.run m r textcolor s (.draw item) = some s' ∧ Good m s' ∧
      (DrawnVisible m (Display.glyph r textcolor s.cursor item) → OnScreen m r textcolor s item s') := by
  obtain ⟨drawn, hdrawn, hback⟩ := @runSteps_back m _ (@allFit_glyph m r textcolor s.cursor item) s.screen
  have hblank : Blank m drawn.back := by
    rw [hback]
    exact h.blank.glyph h.inside
  obtain ⟨hcol, hrow, hrow'⟩ := @Cursor.Inside.advance m s.cursor item h.inside
  have hpos : 0 < m.textRows := lt_of_le_of_lt h.inside.2.1 h.inside.2.2
  rw [Stage.run, itemText_eq h.inside]
  by_cases hwrap : m.textRows ≤ (Display.advance m s.cursor item).row
  · obtain ⟨screen, hscreen, hback'⟩ := @runSteps_back m _ allFit_scroll drawn
    obtain ⟨hblank', hup⟩ := hblank.scroll hback'
    simp only [if_pos hwrap]
    refine ⟨_, by rw [runSteps_append, hdrawn, Option.bind_some, hscreen]; rfl, ⟨⟨hcol, ?_⟩, hblank'⟩,
      fun hv => ⟨hv, ?_, ?_⟩⟩
    · exact ⟨by simp only; omega, by simp only; omega⟩
    · exact ⟨by simp only; omega, by simp only; omega⟩
    · exact ⟨drawn, hdrawn, by rw [if_pos hwrap]; exact ⟨hup, rfl⟩⟩
  · have hlt := not_le.mp hwrap
    simp only [if_neg hwrap]
    refine ⟨_, by rw [hdrawn]; rfl, ⟨⟨hcol, hrow, hlt⟩, hblank⟩, fun hv => ⟨hv, ⟨hrow, hlt⟩, ?_⟩⟩
    exact ⟨drawn, hdrawn, by rw [if_neg hwrap]; exact ⟨rfl, rfl⟩⟩

theorem Good.finish {s : State} (h : Good m s) :
    ∃ s', Stage.run m r textcolor s .finish = some s' ∧ Good m s' := by
  obtain ⟨screen, hscreen, hback⟩ := @runSteps_back m _ allFit_present s.screen
  rw [foldl_present] at hback
  refine ⟨{ screen := screen, cursor := s.cursor }, by rw [Stage.run, hscreen]; rfl, h.inside, ?_⟩
  simp only [hback]
  exact h.blank

/-- The invariant at every point between two stages. -/
theorem Good.runStages {s : State} (h : Good m s) (before : List Stage) :
    ∃ s', runStages m r textcolor s before = some s' ∧ Good m s' := by
  induction before generalizing s with
  | nil => exact ⟨s, rfl, h⟩
  | cons stage before ih =>
    have hstage : ∃ s', Stage.run m r textcolor s stage = some s' ∧ Good m s' := by
      cases stage with
      | draw item =>
        obtain ⟨s', hs', hgood, -⟩ := h.draw item
        exact ⟨s', hs', hgood⟩
      | finish => exact h.finish
    obtain ⟨s', hs', hgood⟩ := hstage
    obtain ⟨s'', hs'', hgood'⟩ := ih hgood
    exact ⟨s'', by rw [Display.runStages, List.foldlM_cons, hs']; exact hs'', hgood'⟩

theorem good_start (hh : 8 ≤ m.horRes) (hv : 16 ≤ m.verRes) (front : Int → BitVec 32) : Good m (start front) := by
  have hb := m.bounds
  refine ⟨⟨⟨le_rfl, ?_⟩, le_rfl, ?_⟩, fun _ _ _ _ => rfl, fun _ _ _ _ => rfl⟩
  · simp only [start]
    omega
  · simp only [start, Mode.textRows]
    omega

/-! ## The columns -/

theorem Stage.cursor_of_run {s s' : State} (h : Stage.run m r textcolor s (.draw item) = some s') :
    s'.cursor = (itemText m r textcolor s.cursor item).cursor := by
  rw [Stage.run] at h
  obtain ⟨screen, -, hs'⟩ := Option.bind_eq_some_iff.mp h
  rw [← Option.some.inj hs']

/-- The characters of a line move the cursor along it. -/
theorem runStages_line (hh : 8 ≤ m.horRes) (hv : 16 ≤ m.verRes) (front : Int → BitVec 32) {n : Nat}
    (hn : n < m.pScanln / 8) :
    ∃ s, runStages m r textcolor (start front) (List.replicate n (.draw (.char ch))) = some s ∧ Good m s ∧
      s.cursor = { coulmn := n, row := 0 } := by
  induction n with
  | zero => exact ⟨start front, rfl, good_start hh hv front, rfl⟩
  | succ n ih =>
    obtain ⟨s, hs, hgood, hcursor⟩ := ih (by omega)
    obtain ⟨s', hs', hgood', -⟩ := @Good.draw m r textcolor s hgood (.char ch)
    refine ⟨s', ?_, hgood', ?_⟩
    · rw [List.replicate_succ', runStages, List.foldlM_append]
      rw [runStages] at hs
      rw [hs, Option.bind_eq_bind, Option.bind_some, List.foldlM_cons, hs']
      rfl
    · have hstay : ¬m.pScanln / 8 ≤ ((n : Nat) : Int) + 1 := by omega
      have hrow : ¬m.textRows ≤ 0 := by
        rw [Mode.textRows]
        omega
      rw [Stage.cursor_of_run hs', itemText_eq hgood.inside]
      simp only [hcursor, advance, if_neg hstay, if_neg hrow, Nat.cast_succ]

/-- A format of one character. -/
theorem pieces_replicate (n : Nat) : pieces (List.replicate n 0x41#8) = List.replicate n (.char 0x41#8) := by
  induction n with
  | zero => rfl
  | succ n ih =>
    rw [List.replicate_succ, pieces, ih]
    · rfl
    all_goals simp

theorem output_replicate (n : Nat) (args : Nat → BitVec 64) :
    output r (List.replicate n (.char ch)) args = List.replicate n (.char ch) := by
  induction n with
  | zero => rfl
  | succ n ih => rw [List.replicate_succ, output, ih]; rfl

theorem stages_line (n : Nat) : stages r [(List.replicate (n + 1) 0x41#8, fun _ => 0)] =
    List.replicate n (.draw (.char 0x41#8)) ++ .draw (.char 0x41#8) :: [.finish] := by
  have hstages : stages r [(List.replicate (n + 1) 0x41#8, fun _ => 0)] =
      (output r (pieces (List.replicate (n + 1) 0x41#8)) fun _ => 0).map .draw ++ [.finish] := List.append_nil _
  rw [hstages, pieces_replicate, output_replicate, List.map_replicate, List.replicate_succ', List.append_assoc]
  rfl

/-- **A line of characters leaves the visible area** if there are columns behind it. -/
theorem not_textStaysOnScreen (hh : 8 ≤ m.horRes) (hv : 16 ≤ m.verRes) (hlt : m.horRes / 8 < m.pScanln / 8) :
    ¬TextStaysOnScreen m := by
  intro h
  have hn : (((m.horRes / 8).toNat : Nat) : Int) = m.horRes / 8 := Int.toNat_of_nonneg (by omega)
  have hwide : (((m.horRes / 8).toNat : Nat) : Int) < m.pScanln / 8 := by omega
  obtain ⟨s, s', hs, -, hscreen⟩ := h ⟨fun _ => 0, fun _ => []⟩ 7 (fun _ => 0) _ _ _ _
    (stages_line (m.horRes / 8).toNat)
  obtain ⟨s₁, hs₁, hgood, hcursor⟩ :=
    @runStages_line m ⟨fun _ => 0, fun _ => []⟩ 7 0x41#8 hh hv (fun _ => 0) _ hwide
  obtain rfl := Option.some.inj (hs₁.symm.trans hs)
  have hcol := (drawnVisible_drawChar hgood.inside).mp hscreen.visible
  rw [hcursor] at hcol
  simp only at hcol
  omega

/-- **Text stays on the screen exactly if a line has no more columns than are visible.** -/
theorem textStaysOnScreen_iff (m : Mode) (hh : 8 ≤ m.horRes) (hv : 16 ≤ m.verRes) :
    TextStaysOnScreen m ↔ m.pScanln / 8 = m.horRes / 8 := by
  constructor
  · intro h
    by_contra hne
    have hle := m.horRes_le
    exact not_textStaysOnScreen hh hv (by omega) h
  · intro heq r textcolor front calls before item after _
    obtain ⟨s, hs, hgood⟩ := @Good.runStages m r textcolor _ (good_start hh hv front) before
    obtain ⟨s', hs', -, hscreen⟩ := @Good.draw m r textcolor s hgood item
    refine ⟨s, s', hs, hs', hscreen ?_⟩
    cases item with
    | char ch =>
      refine (drawnVisible_drawChar hgood.inside).mpr ?_
      rw [← heq]
      exact hgood.inside.1.2
    | lineFeed => exact fun _ _ _ hmem => absurd hmem List.not_mem_nil

end

/-- 1366 x 768 in lines of `pScanln` pixels. -/
def laptopMode (pScanln : Int) (hle : 1366 ≤ pScanln ∧ pScanln ≤ 4096) : Mode where
  horRes := 1366
  verRes := 768
  pScanln := pScanln
  pFormat := BGR
  one_le_horRes := by decide
  one_le_verRes := by decide
  horRes_le := hle.1
  bytes_lt := by omega

theorem textStaysOnScreen_1366 : TextStaysOnScreen (laptopMode 1366 (by decide)) :=
  (textStaysOnScreen_iff (laptopMode 1366 (by decide)) (by decide) (by decide)).mpr rfl

/-- Lines that are padded to 1376 pixels have 172 columns, and 170 of them are visible. -/
theorem not_textStaysOnScreen_1376 : ¬TextStaysOnScreen (laptopMode 1376 (by decide)) :=
  not_textStaysOnScreen (by decide) (by decide) (by decide)

end Display

end Dem64
