import Dem64.Display.Format
import Mathlib.Algebra.Order.Ring.Int

/-!
# Nothing that was drawn is forgotten

A pixel on which the buffers differ lies in a marked cell (`Tracked`).  Every iteration that a call goes
through stays in range and keeps this (`Step.run_tracked`), and `present` leaves no cell marked, so the
framebuffer shows the back buffer after every `printf` and every `scroll` (`screen_in_step`).
-/

set_option autoImplicit false

namespace Dem64

namespace Display

variable {m : Mode} {s s' : Screen} {x y x' y' : Int} {i : Nat}

/-! ## Integers -/

theorem int32_eq {a : Int} (h : -(2 ^ 31) ≤ a) (h' : a < 2 ^ 31) : int32 a = a :=
  Int.bmod_eq_of_le (by omega) (by omega)

theorem shr_eq {a : Int} {k : Nat} : shr a k = a / 2 ^ k := Int.shiftRight_eq_div_pow a k

theorem shl_eq {a : Int} {k : Nat} (h : -(2 ^ 31) ≤ a * 2 ^ k) (h' : a * 2 ^ k < 2 ^ 31) :
    shl a k = a * 2 ^ k := by
  rw [shl, Int.shiftLeft_eq]
  exact int32_eq h h'

theorem mem_upTo {a b z : Int} : z ∈ upTo a b ↔ a ≤ z ∧ z < b := by
  rw [upTo, List.mem_map]
  constructor
  · rintro ⟨k, hk, rfl⟩
    rw [List.mem_range] at hk
    omega
  · rintro ⟨h1, h2⟩
    exact ⟨(z - a).toNat, List.mem_range.mpr (by omega), by omega⟩

/-! ## The geometry of a mode -/

namespace Mode

theorem pScanln_mul (m : Mode) : m.pScanln ≤ m.pixels ∧ m.verRes ≤ m.pixels := by
  have := m.one_le_horRes
  have := m.horRes_le
  have := m.one_le_verRes
  constructor
  · exact le_mul_of_one_le_right (by omega) (by omega)
  · exact le_mul_of_one_le_left (by omega) (by omega)

theorem pixels_lt (m : Mode) : m.pixels < 2 ^ 29 := by
  have := m.bytes_lt
  rw [Int.mul_assoc] at this
  rw [pixels]
  omega

theorem bounds (m : Mode) : 1 ≤ m.horRes ∧ m.horRes ≤ m.pScanln ∧ m.pScanln < 2 ^ 29 ∧ 1 ≤ m.verRes ∧
    m.verRes < 2 ^ 29 := by
  obtain ⟨h1, h2⟩ := m.pScanln_mul
  have := m.pixels_lt
  exact ⟨m.one_le_horRes, m.horRes_le, by omega, m.one_le_verRes, by omega⟩

theorem size_eq (m : Mode) : m.size = m.pixels := by
  obtain ⟨h1, h2⟩ := m.pScanln_mul
  have := m.bounds
  have := m.pixels_lt
  rw [size]
  rw [pixels] at *
  exact int32_eq (by omega) (by omega)

theorem coulmns_eq (m : Mode) : m.coulmns = (m.horRes + 7) / 8 := by
  have := m.bounds
  rw [coulmns, int32_eq (by omega) (by omega), shr_eq]
  rfl

theorem rows_eq (m : Mode) : m.rows = (m.verRes + 15) / 16 := by
  have := m.bounds
  rw [rows, int32_eq (by omega) (by omega), shr_eq]
  rfl

theorem coulmns_pos (m : Mode) : 1 ≤ m.coulmns ∧ m.coulmns ≤ m.pScanln := by
  have := m.bounds
  rw [coulmns_eq]
  omega

theorem rows_pos (m : Mode) : 1 ≤ m.rows ∧ m.rows ≤ m.verRes := by
  have := m.bounds
  rw [rows_eq]
  omega

theorem cells_eq (m : Mode) : m.cells = m.coulmns * m.rows := by
  have hc := m.coulmns_pos
  have hr := m.rows_pos
  have hle : m.coulmns * m.rows ≤ m.pixels := Int.mul_le_mul hc.2 hr.2 (by omega) (by omega)
  have hpos : 0 ≤ m.coulmns * m.rows := Int.mul_nonneg (by omega) (by omega)
  have := m.pixels_lt
  exact int32_eq (by omega) (by omega)

theorem diffSize_eq (m : Mode) : (m.diffSize : Int) = m.cells := by
  have hc := m.coulmns_pos
  have hr := m.rows_pos
  rw [diffSize, cells_eq, Int.natCast_mul, Int.toNat_of_nonneg (by omega), Int.toNat_of_nonneg (by omega)]

end Mode

/-- The pixel is on the screen. -/
def Visible (m : Mode) (x y : Int) : Prop := 0 ≤ x ∧ x < m.horRes ∧ 0 ≤ y ∧ y < m.verRes

/-- The cell of a pixel. -/
def cellOf (m : Mode) (x y : Int) : Int := y / 16 * m.coulmns + x / 8

theorem place_bounds (hx : 0 ≤ x) (hx' : x < m.pScanln) (hy : 0 ≤ y) (hy' : y < m.verRes) :
    0 ≤ y * m.pScanln + x ∧ y * m.pScanln + x < m.pixels := by
  have h1 : 0 ≤ y * m.pScanln := Int.mul_nonneg hy (by omega)
  have h2 : (y + 1) * m.pScanln ≤ m.verRes * m.pScanln := Int.mul_le_mul_of_nonneg_right (by omega) (by omega)
  rw [Mode.pixels, Int.mul_comm m.pScanln]
  rw [Int.add_mul, Int.one_mul] at h2
  omega

theorem place_eq (hx : 0 ≤ x) (hx' : x < m.pScanln) (hy : 0 ≤ y) (hy' : y < m.verRes) :
    place m x y = y * m.pScanln + x := by
  have := place_bounds hx hx' hy hy'
  have := m.pixels_lt
  exact int32_eq (by omega) (by omega)

/-- Two pixels of the lines have different places. -/
theorem place_inj (hx : 0 ≤ x ∧ x < m.pScanln) (hy : 0 ≤ y ∧ y < m.verRes) (hx' : 0 ≤ x' ∧ x' < m.pScanln)
    (hy' : 0 ≤ y' ∧ y' < m.verRes) (h : place m x y = place m x' y') : x = x' ∧ y = y' := by
  rw [place_eq hx.1 hx.2 hy.1 hy.2, place_eq hx'.1 hx'.2 hy'.1 hy'.2] at h
  have hpos : m.pScanln ≠ 0 := by omega
  have hmod := congrArg (· % m.pScanln) h
  simp only [Int.mul_add_emod_self_right, Int.emod_eq_of_lt hx.1 hx.2, Int.emod_eq_of_lt hx'.1 hx'.2] at hmod
  subst hmod
  exact ⟨rfl, Int.eq_of_mul_eq_mul_right hpos (by omega)⟩

theorem Visible.line (h : Visible m x y) : (0 ≤ x ∧ x < m.pScanln) ∧ 0 ≤ y ∧ y < m.verRes :=
  ⟨⟨h.1, by have := h.2.1; have := m.horRes_le; omega⟩, h.2.2⟩

theorem Visible.place_mem (h : Visible m x y) : 0 ≤ place m x y ∧ place m x y < m.pixels := by
  obtain ⟨⟨h1, h2⟩, h3, h4⟩ := h.line
  rw [place_eq h1 h2 h3 h4]
  exact place_bounds h1 h2 h3 h4

theorem Visible.cell_mem (h : Visible m x y) : 0 ≤ cellOf m x y ∧ cellOf m x y < m.cells := by
  obtain ⟨h1, h2, h3, h4⟩ := h
  have hc := m.coulmns_pos
  have hx : x / 8 < m.coulmns := by rw [m.coulmns_eq]; omega
  have hy : y / 16 + 1 ≤ m.rows := by rw [m.rows_eq]; omega
  have hmul := Int.mul_le_mul_of_nonneg_right hy (show 0 ≤ m.coulmns by omega)
  have hpos : 0 ≤ y / 16 * m.coulmns := Int.mul_nonneg (by omega) (by omega)
  rw [Int.add_mul, Int.one_mul] at hmul
  rw [m.cells_eq, Int.mul_comm m.coulmns, cellOf]
  omega

/-- The cell `i` is row `i / coulmns`, column `i % coulmns`. -/
theorem cellOf_eq_iff (hx : 0 ≤ x) (hx' : x < m.horRes) :
    cellOf m x y = i ↔ y / 16 = i / m.coulmns ∧ x / 8 = i % m.coulmns := by
  have hc := m.coulmns_pos
  have hlt : x / 8 < m.coulmns := by rw [m.coulmns_eq]; omega
  rw [cellOf]
  constructor
  · intro h
    rw [← h, Int.mul_add_emod_self_right, Int.emod_eq_of_lt (by omega) hlt,
      Int.add_comm, Int.add_mul_ediv_right _ _ (by omega), Int.ediv_eq_zero_of_lt (by omega) hlt, Int.zero_add]
    exact ⟨rfl, rfl⟩
  · rintro ⟨h1, h2⟩
    rw [h1, h2, Int.mul_comm]
    exact Int.mul_ediv_add_emod _ _

/-- **`present` goes through the pixels of the cell.** -/
theorem mem_cellPlaces (hi : i < m.diffSize) {p : Int} :
    p ∈ cellPlaces m i ↔ ∃ x y, Visible m x y ∧ cellOf m x y = i ∧ place m x y = p := by
  have hb := m.bounds
  have hc := m.coulmns_pos
  have hcast : ((m.coulmns.toNat : Nat) : Int) = m.coulmns := Int.toNat_of_nonneg (by omega)
  have hd := m.diffSize_eq
  rw [m.cells_eq, Int.mul_comm] at hd
  have hrow : (i : Int) / m.coulmns < m.rows := Int.ediv_lt_of_lt_mul (by omega) (by omega)
  have hcol : (i : Int) % m.coulmns < m.coulmns := Int.emod_lt_of_pos _ (by omega)
  have hrow' : 0 ≤ (i : Int) / m.coulmns := Int.ediv_nonneg (by omega) (by omega)
  have hcol' : 0 ≤ (i : Int) % m.coulmns := Int.emod_nonneg _ (by omega)
  have hr := m.rows_eq
  have hce := m.coulmns_eq
  rw [cellPlaces]
  simp only [Int.natCast_ediv, Int.natCast_emod, hcast, List.mem_flatMap, List.mem_map, mem_upTo]
  have hy : shl (int32 ((i : Int) / m.coulmns)) 4 = (i : Int) / m.coulmns * 16 := by
    rw [int32_eq (by omega) (by omega)]
    exact shl_eq (by omega) (by omega)
  have hx : shl (int32 ((i : Int) % m.coulmns)) 3 = (i : Int) % m.coulmns * 8 := by
    rw [int32_eq (by omega) (by omega)]
    exact shl_eq (by omega) (by omega)
  rw [hy, hx]
  constructor
  · rintro ⟨y, ⟨hy1, hy2⟩, x, ⟨hx1, hx2⟩, rfl⟩
    rw [lt_min_iff] at hy2 hx2
    exact ⟨x, y, ⟨by omega, hx2.2, by omega, hy2.2⟩,
      (cellOf_eq_iff (by omega) hx2.2).mpr ⟨by omega, by omega⟩, rfl⟩
  · rintro ⟨x, y, ⟨h1, h2, h3, h4⟩, hcell, rfl⟩
    obtain ⟨hy, hx⟩ := (cellOf_eq_iff h1 h2).mp hcell
    exact ⟨y, ⟨by omega, lt_min_iff.mpr ⟨by omega, h4⟩⟩, x, ⟨by omega, lt_min_iff.mpr ⟨by omega, h2⟩⟩, rfl⟩

/-! ## Marks -/

instance : Decidable (Visible m x y) := inferInstanceAs (Decidable (_ ∧ _))

/-- A visible pixel on which the buffers differ is in a marked cell. -/
def Tracked (m : Mode) (s : Screen) : Prop :=
  ∀ x y, Visible m x y → s.back (place m x y) ≠ s.front (place m x y) → s.diff (cellOf m x y) = true

/-- The framebuffer shows the back buffer. -/
def Shown (m : Mode) (s : Screen) : Prop :=
  ∀ x y, Visible m x y → s.front (place m x y) = s.back (place m x y)

theorem Shown.tracked (h : Shown m s) : Tracked m s := fun x y hv hne => absurd (h x y hv).symm hne

/-- The screen with the cell of a pixel marked, if the pixel is visible. -/
def Screen.marked (m : Mode) (s : Screen) (x y : Int) : Screen :=
  { s with diff := fun c => if Visible m x y ∧ c = cellOf m x y then true else s.diff c }

@[simp] theorem Screen.marked_front : (s.marked m x y).front = s.front := rfl

@[simp] theorem Screen.marked_back : (s.marked m x y).back = s.back := rfl

theorem Screen.marked_diff {c : Int} :
    (s.marked m x y).diff c = if Visible m x y ∧ c = cellOf m x y then true else s.diff c := rfl

theorem load_eq {α : Type} {n : Int} {buffer : Int → α} {p : Int} (h : 0 ≤ p ∧ p < n) :
    load n buffer p = some (buffer p) := if_pos h

theorem store_eq {α : Type} {n : Int} {buffer : Int → α} {p : Int} {v : α} (h : 0 ≤ p ∧ p < n) :
    store n buffer p v = some (Function.update buffer p v) := if_pos h

theorem updateDiff_eq (s : Screen) (x y : Int) : updateDiff m s x y = some (s.marked m x y) := by
  rw [updateDiff, Screen.marked]
  split
  · rename_i h
    have hv : ¬Visible m x y := by
      rw [Visible]
      omega
    simp only [hv, false_and, if_false]
  · rename_i h
    have hv : Visible m x y := by
      rw [Visible]
      omega
    have hcell : int32 (shr y 4 * m.coulmns + shr x 3) = cellOf m x y := by
      rw [shr_eq, shr_eq]
      obtain ⟨h1, h2⟩ := hv.cell_mem
      have hle : m.cells ≤ m.pixels := by
        rw [m.cells_eq]
        exact Int.mul_le_mul m.coulmns_pos.2 m.rows_pos.2 (by have := m.rows_pos; omega)
          (by have := m.coulmns_pos; omega)
      have := m.pixels_lt
      exact int32_eq (show -(2 ^ 31) ≤ cellOf m x y by omega) (show cellOf m x y < 2 ^ 31 by omega)
    rw [hcell, store_eq hv.cell_mem]
    simp only [hv, true_and, Option.bind_eq_bind, Option.bind_some, Option.pure_def]
    congr 2
    funext c
    rw [Function.update_apply]

theorem Tracked.marked (h : Tracked m s) (x y : Int) : Tracked m (s.marked m x y) := by
  intro x' y' hv hne
  rw [Screen.marked_diff]
  split
  · rfl
  · exact h x' y' hv hne

/-- **A write that is marked is not forgotten**, whether the pixel is visible or behind the end of its line. -/
theorem Tracked.write (h : Tracked m s) (hx : 0 ≤ x ∧ x < m.pScanln) (hy : 0 ≤ y ∧ y < m.verRes)
    (v : BitVec 32) :
    Tracked m (Screen.marked m { s with back := Function.update s.back (place m x y) v } x y) := by
  intro x' y' hv hne
  by_cases he : place m x' y' = place m x y
  · obtain ⟨rfl, rfl⟩ := place_inj hv.line.1 hv.line.2 hx hy he
    exact if_pos ⟨hv, rfl⟩
  · simp only [Screen.marked_back, Screen.marked_front, Function.update_of_ne he] at hne
    rw [Screen.marked_diff]
    split
    · rfl
    · exact h x' y' hv hne

/-! ## One iteration -/

/-- The color that is stored for a color, if the format is known. -/
def stored (m : Mode) (color : BitVec 32) : Option (BitVec 32) :=
  if m.pFormat = BGR then some (bgrColor color) else if m.pFormat = RGB then some color else none

/-- The back buffer with a pixel drawn. -/
def painted (m : Mode) (back : Int → BitVec 32) (x y : Int) (color : BitVec 32) : Int → BitVec 32 :=
  match stored m color with
  | some v => if Visible m x y then Function.update back (place m x y) v else back
  | none => back

theorem Screen.marked_of_not_visible (h : ¬Visible m x y) : s.marked m x y = s := by
  have hdiff : (s.marked m x y).diff = s.diff := funext fun c => if_neg fun hc => h hc.1
  exact congrArg (fun diff => ({ s with diff := diff } : Screen)) hdiff

theorem drawPixel_eq (s : Screen) (x y : Int) (color : BitVec 32) :
    drawPixel m s x y color = some (Screen.marked m { s with back := painted m s.back x y color } x y) := by
  by_cases hv : Visible m x y
  · have hin : ¬(x < 0 ∨ x ≥ m.horRes ∨ y < 0 ∨ y ≥ m.verRes) := by
      rw [Visible] at hv
      omega
    have hp := hv.place_mem
    rw [← m.size_eq] at hp
    rw [drawPixel, if_neg hin, painted, stored]
    simp only [updateDiff_eq, Option.bind_eq_bind, Option.bind_some, hp.2, if_true, store_eq hp, Option.pure_def,
      if_pos hv]
    split
    · rfl
    · split <;> rfl
  · have hout : x < 0 ∨ x ≥ m.horRes ∨ y < 0 ∨ y ≥ m.verRes := by
      rw [Visible] at hv
      omega
    have hsame : painted m s.back x y color = s.back := by
      rw [painted]
      split
      · exact if_neg hv
      · rfl
    rw [drawPixel, if_pos hout, hsame, Screen.marked_of_not_visible hv]

theorem drawPixel_tracked (h : Tracked m s) (x y : Int) (color : BitVec 32) :
    ∃ s', drawPixel m s x y color = some s' ∧ Tracked m s' := by
  refine ⟨_, drawPixel_eq s x y color, ?_⟩
  rw [painted]
  split
  · split
    next hv => exact h.write hv.line.1 hv.line.2 _
    next => exact h.marked x y
  · exact h.marked x y

theorem shiftPixel_eq (s : Screen) (hx : 0 ≤ x ∧ x < m.pScanln) (hy : 0 ≤ y ∧ y + 16 < m.verRes) :
    shiftPixel m s x y = some (Screen.marked m
      { s with back := Function.update s.back (place m x y) (s.back (place m x (y + 16))) } x y) := by
  have hb := m.bounds
  have hlt := m.pixels_lt
  obtain ⟨h1, h2⟩ := place_bounds hx.1 hx.2 hy.1 (show y < m.verRes by omega)
  obtain ⟨h3, h4⟩ := place_bounds hx.1 hx.2 (show 0 ≤ y + 16 by omega) hy.2
  have hline : int32 (m.pScanln * 4) = m.pScanln * 4 := int32_eq (by omega) (by omega)
  have hdst : int32 (y * (m.pScanln * 4)) / 4 = y * m.pScanln := by
    rw [← Int.mul_assoc, int32_eq (by omega) (by omega), Int.mul_ediv_cancel _ (by decide)]
  have hsrc : int32 ((y + 16) * (m.pScanln * 4)) / 4 = (y + 16) * m.pScanln := by
    rw [← Int.mul_assoc, int32_eq (by omega) (by omega), Int.mul_ediv_cancel _ (by decide)]
  rw [shiftPixel, hline]
  simp only [hdst, hsrc]
  rw [load_eq (by rw [m.size_eq]; omega), Option.bind_eq_bind, Option.bind_some,
    store_eq (by rw [m.size_eq]; omega), Option.bind_eq_bind, Option.bind_some, updateDiff_eq,
    ← place_eq hx.1 hx.2 hy.1 (by omega), ← place_eq hx.1 hx.2 (show 0 ≤ y + 16 by omega) hy.2]

theorem shiftPixel_tracked (h : Tracked m s) (hx : 0 ≤ x ∧ x < m.pScanln) (hy : 0 ≤ y ∧ y + 16 < m.verRes) :
    ∃ s', shiftPixel m s x y = some s' ∧ Tracked m s' :=
  ⟨_, shiftPixel_eq s hx hy, h.write hx ⟨hy.1, by omega⟩ _⟩

theorem clearPixel_eq (s : Screen) (x y : Int) :
    clearPixel m s x y =
      some ((Screen.marked m { s with back := painted m s.back x y (vga16Color Black) } x y).marked m x y) := by
  rw [clearPixel, drawPixel_eq, Option.bind_eq_bind, Option.bind_some, updateDiff_eq]

theorem clearPixel_tracked (h : Tracked m s) (x y : Int) :
    ∃ s', clearPixel m s x y = some s' ∧ Tracked m s' := by
  obtain ⟨s', hs', h'⟩ := drawPixel_tracked h x y (vga16Color Black)
  refine ⟨_, clearPixel_eq s x y, ?_⟩
  rw [drawPixel_eq] at hs'
  rw [Option.some.inj hs']
  exact h'.marked x y

/-- The screen with a cell copied, if it was marked. -/
def Screen.flushed (m : Mode) (s : Screen) (i : Nat) : Screen where
  front p := if s.diff i = true ∧ p ∈ cellPlaces m i then s.back p else s.front p
  back := s.back
  diff := Function.update s.diff i false

theorem Screen.flushed_diff {c : Int} :
    (s.flushed m i).diff c = Function.update s.diff (i : Int) false c := rfl

theorem foldlM_copyPixel {l : List Int} (hl : ∀ p ∈ l, 0 ≤ p ∧ p < m.pixels) (s : Screen) :
    l.foldlM (copyPixel m) s = some { s with front := fun p => if p ∈ l then s.back p else s.front p } := by
  induction l generalizing s with
  | nil => simp
  | cons p l ih =>
    have hp := hl p List.mem_cons_self
    rw [List.foldlM_cons, copyPixel, load_eq (m.size_eq.symm ▸ hp)]
    simp only [Option.bind_eq_bind, Option.bind_some, store_eq hp, Option.pure_def]
    rw [ih fun q hq => hl q (List.mem_cons_of_mem p hq)]
    congr 2
    funext q
    by_cases hq : q = p
    · simp [hq]
    · simp [hq]

theorem presentCell_eq (hi : i < m.diffSize) : presentCell m s i = some (s.flushed m i) := by
  have hcell : 0 ≤ (i : Int) ∧ (i : Int) < m.cells := by
    have := m.diffSize_eq
    omega
  have hplaces : ∀ p ∈ cellPlaces m i, 0 ≤ p ∧ p < m.pixels := by
    intro p hp
    obtain ⟨x, y, hv, -, rfl⟩ := (mem_cellPlaces hi).mp hp
    exact hv.place_mem
  rw [presentCell, load_eq hcell, Option.bind_eq_bind, Option.bind_some, Screen.flushed]
  by_cases hmark : s.diff i = true
  · simp only [hmark, if_true, store_eq hcell, Option.bind_eq_bind, Option.bind_some,
      foldlM_copyPixel hplaces, true_and]
  · have hfalse : s.diff i = false := by simpa using hmark
    have hsame : Function.update s.diff i false = s.diff := by rw [← hfalse, Function.update_eq_self]
    simp [hfalse, hsame]

/-- **A cell that was copied needs no mark.** -/
theorem Tracked.flushed (h : Tracked m s) (hi : i < m.diffSize) : Tracked m (s.flushed m i) := by
  intro x y hv hne
  simp only [Screen.flushed] at hne ⊢
  have hne' : s.back (place m x y) ≠ s.front (place m x y) := by
    intro he
    rw [he, ite_self] at hne
    exact hne rfl
  have hmark := h x y hv hne'
  by_cases hcell : cellOf m x y = i
  · rw [hcell] at hmark
    exact absurd (if_pos ⟨hmark, (mem_cellPlaces hi).mpr ⟨x, y, hv, hcell, rfl⟩⟩).symm hne
  · rw [Function.update_of_ne hcell]
    exact hmark

/-- The iteration is one that a loop may come to. -/
def Step.Fits (m : Mode) : Step → Prop
  | .shift x y => (0 ≤ x ∧ x < m.pScanln) ∧ 0 ≤ y ∧ y + 16 < m.verRes
  | .cell i => i < m.diffSize
  | _ => True

/-- **An iteration stays in range and forgets nothing.** -/
theorem Step.run_tracked {step : Step} (hf : step.Fits m) (h : Tracked m s) :
    ∃ s', step.run m s = some s' ∧ Tracked m s' := by
  cases step with
  | pixel x y color => exact drawPixel_tracked h x y color
  | pixel16 x y colorIndex => exact drawPixel_tracked h x y _
  | shift x y => exact shiftPixel_tracked h hf.1 hf.2
  | clear x y => exact clearPixel_tracked h x y
  | cell i => exact ⟨_, presentCell_eq hf, h.flushed hf⟩

/-! ## Runs -/

/-- All of the iterations fit. -/
def AllFit (m : Mode) (l : List Step) : Prop := ∀ step ∈ l, step.Fits m

variable {l l' : List Step}

theorem runSteps_append : runSteps m s (l ++ l') = (runSteps m s l).bind fun s => runSteps m s l' :=
  List.foldlM_append

theorem runSteps_tracked (hl : AllFit m l) (h : Tracked m s) : ∃ s', runSteps m s l = some s' ∧ Tracked m s' := by
  induction l generalizing s with
  | nil => exact ⟨s, rfl, h⟩
  | cons step l ih =>
    obtain ⟨s', hs', h'⟩ := Step.run_tracked (hl step List.mem_cons_self) h
    obtain ⟨t, ht, h''⟩ := ih (fun step' hm => hl step' (List.mem_cons_of_mem step hm)) h'
    exact ⟨t, by rw [runSteps, List.foldlM_cons, hs']; exact ht, h''⟩

/-- Cells that were gone through are not marked any more. -/
theorem runSteps_cells {cells : List Nat} (hl : ∀ i ∈ cells, i < m.diffSize) (s : Screen) :
    ∃ s', runSteps m s (cells.map .cell) = some s' ∧
      ∀ c, s'.diff c = true → s.diff c = true ∧ ∀ i ∈ cells, c ≠ (i : Int) := by
  induction cells generalizing s with
  | nil => exact ⟨s, rfl, fun c hc => ⟨hc, fun i hi => absurd hi List.not_mem_nil⟩⟩
  | cons i cells ih =>
    obtain ⟨s', hs', hdiff⟩ := ih (fun j hj => hl j (List.mem_cons_of_mem i hj)) (s.flushed m i)
    refine ⟨s', ?_, fun c hc => ?_⟩
    · rw [List.map_cons, runSteps, List.foldlM_cons, Step.run, presentCell_eq (hl i List.mem_cons_self)]
      exact hs'
    · obtain ⟨hmark, hne⟩ := hdiff c hc
      have hci : c ≠ (i : Int) := by
        rintro rfl
        simp [Screen.flushed] at hmark
      rw [Screen.flushed_diff, Function.update_of_ne hci] at hmark
      exact ⟨hmark, List.forall_mem_cons.mpr ⟨hci, hne⟩⟩

/-- **After `present` the framebuffer shows the back buffer.** -/
theorem runSteps_present (h : Tracked m s) : ∃ s', runSteps m s (present m) = some s' ∧ Shown m s' := by
  have hcells : ∀ i ∈ List.range m.diffSize, i < m.diffSize := fun i hi => List.mem_range.mp hi
  have hfit : AllFit m (present m) := by
    intro step hstep
    obtain ⟨i, hi, rfl⟩ := List.mem_map.mp hstep
    exact hcells i hi
  obtain ⟨s', hs', hdiff⟩ := runSteps_cells hcells s
  obtain ⟨t, ht, htracked⟩ := runSteps_tracked hfit h
  obtain rfl := Option.some.inj (ht.symm.trans hs')
  refine ⟨t, ht, fun x y hv => ?_⟩
  by_contra hne
  have hmark := htracked x y hv (Ne.symm hne)
  obtain ⟨h1, h2⟩ := hv.cell_mem
  rw [← m.diffSize_eq] at h2
  exact (hdiff _ hmark).2 (cellOf m x y).toNat (List.mem_range.mpr (by omega)) (by omega)

/-! ## The calls -/

variable {r : Resources} {textcolor : Fin 16} {t : Text}

theorem AllFit.append (h : AllFit m l) (h' : AllFit m l') : AllFit m (l ++ l') :=
  List.forall_mem_append.mpr ⟨h, h'⟩

theorem allFit_present : AllFit m (present m) := by
  intro step hstep
  obtain ⟨i, hi, rfl⟩ := List.mem_map.mp hstep
  exact List.mem_range.mp hi

theorem allFit_scroll : AllFit m (scroll m) := by
  refine AllFit.append (AllFit.append ?_ ?_) allFit_present
  · intro step hstep
    obtain ⟨y, hy, hstep⟩ := List.mem_flatMap.mp hstep
    obtain ⟨x, hx, rfl⟩ := List.mem_map.mp hstep
    rw [mem_upTo] at hx hy
    exact ⟨hx, hy.1, by omega⟩
  · intro step hstep
    obtain ⟨y, hy, hstep⟩ := List.mem_flatMap.mp hstep
    obtain ⟨x, hx, rfl⟩ := List.mem_map.mp hstep
    trivial

theorem allFit_drawChar {ch : BitVec 8} {coulmn row : Int} : AllFit m (drawChar r textcolor ch coulmn row) := by
  intro step hstep
  obtain ⟨i, -, hstep⟩ := List.mem_flatMap.mp hstep
  obtain ⟨j, -, rfl⟩ := List.mem_map.mp hstep
  trivial

theorem allFit_drawCursor {cursor : Cursor} {colorIndex : Fin 16} : AllFit m (drawCursor cursor colorIndex) := by
  intro step hstep
  obtain ⟨i, -, hstep⟩ := List.mem_flatMap.mp hstep
  obtain ⟨j, -, rfl⟩ := List.mem_map.mp hstep
  trivial

/-- What was drawn of a text fits. -/
def Text.Fits (m : Mode) (t : Text) : Prop := AllFit m t.steps

theorem Text.Fits.wrapRow (h : t.Fits m) : (t.wrapRow m).Fits m := by
  rw [Text.wrapRow]
  split
  · exact AllFit.append h allFit_scroll
  · exact h

theorem Text.Fits.cursorInc (h : t.Fits m) : (cursorInc m t).Fits m := by
  rw [Display.cursorInc]
  split
  · exact Text.Fits.wrapRow h
  · exact Text.Fits.wrapRow h

theorem Text.Fits.putChar (h : t.Fits m) (ch : BitVec 8) : (putChar m r textcolor t ch).Fits m :=
  Text.Fits.cursorInc (AllFit.append h allFit_drawChar)

theorem Text.Fits.item (h : t.Fits m) (item : Item) : (t.item m r textcolor item).Fits m := by
  cases item with
  | char ch => exact h.putChar ch
  | lineFeed => exact Text.Fits.wrapRow h

/-- **Whatever is printed fits**, by induction on the items. -/
theorem Text.Fits.printLoop {str : List (BitVec 8)} {args : Nat → BitVec 64} (h : t.Fits m) :
    (printLoop m r textcolor str args t).Fits m := by
  rw [printLoop_eq]
  generalize output r (pieces str) args = items
  induction items generalizing t with
  | nil => exact h
  | cons item items ih => exact ih (h.item item)

/-- The call ends with `present`. -/
def Call.Presents : Call → Prop
  | .scroll => True
  | .printf _ _ => True
  | _ => False

theorem Call.run_presents {call : Call} (h : call.Presents) (c : Console) :
    ∃ l, AllFit m l ∧ (call.run m r c).1 = l ++ present m := by
  cases call with
  | scroll =>
    exact ⟨_, fun step hstep => allFit_scroll step (List.mem_append_left _ hstep), rfl⟩
  | printf str args =>
    have hempty : Text.Fits m { cursor := c.cursor, steps := [] } := fun _ h => absurd h List.not_mem_nil
    exact ⟨_, hempty.printLoop, rfl⟩
  | _ => exact h.elim

theorem Call.run_fits (call : Call) (c : Console) : AllFit m (call.run m r c).1 := by
  have hone : ∀ {step : Step}, step.Fits m → AllFit m [step] := fun h => by
    rw [AllFit, List.forall_mem_singleton]
    exact h
  cases call with
  | drawPixel x y color => exact hone trivial
  | draw16color x y colorIndex => exact hone trivial
  | drawChar ch coulmn row => exact allFit_drawChar
  | drawCursor colorIndex => exact allFit_drawCursor
  | scroll => exact allFit_scroll
  | printf str args =>
    obtain ⟨l, hl, he⟩ := @Call.run_presents m r (.printf str args) trivial c
    rw [he]
    exact hl.append allFit_present
  | setGlobalTextColor colorIndex => exact fun _ h => absurd h List.not_mem_nil

theorem stepsOf_append {c : Console} {calls calls' : List Call} :
    ∃ c', stepsOf m r c (calls ++ calls') = stepsOf m r c calls ++ stepsOf m r c' calls' := by
  induction calls generalizing c with
  | nil => exact ⟨c, rfl⟩
  | cons call calls ih =>
    obtain ⟨c', hc'⟩ := @ih (call.run m r c).2
    exact ⟨c', by rw [List.cons_append, stepsOf, stepsOf, hc', List.append_assoc]⟩

theorem allFit_stepsOf {c : Console} {calls : List Call} : AllFit m (stepsOf m r c calls) := by
  induction calls generalizing c with
  | nil => exact fun _ h => absurd h List.not_mem_nil
  | cons call calls ih => exact AllFit.append (Call.run_fits call c) ih

/-- **The screen keeps in step.**  Start where the framebuffer shows the back buffer and make any calls, with
any arguments.  At every point, between two iterations of the loops, no access was out of range and every
visible pixel on which the buffers differ is in a marked cell; and after every `printf` and every `scroll` the
framebuffer shows the back buffer. -/
theorem screen_in_step (m : Mode) (r : Resources) (c : Console) (s : Screen) (calls : List Call)
    (hs : Shown m s) :
    (∀ before after, stepsOf m r c calls = before ++ after →
      ∃ s', runSteps m s before = some s' ∧ Tracked m s') ∧
    ∀ before call after, calls = before ++ call :: after → call.Presents →
      ∃ s', runSteps m s (stepsOf m r c (before ++ [call])) = some s' ∧ Shown m s' := by
  constructor
  · intro before after he
    have hfit : AllFit m before := fun step hstep =>
      allFit_stepsOf step (he ▸ List.mem_append_left after hstep)
    exact runSteps_tracked hfit hs.tracked
  · intro before call after _ hcall
    obtain ⟨c', hc'⟩ := @stepsOf_append m r c before [call]
    obtain ⟨l, hl, hrun⟩ := Call.run_presents hcall c'
    obtain ⟨s₁, hs₁, h₁⟩ := runSteps_tracked (AllFit.append (@allFit_stepsOf m r c before) hl) hs.tracked
    obtain ⟨s', hs', hshown⟩ := runSteps_present h₁
    refine ⟨s', ?_, hshown⟩
    rw [hc', stepsOf, stepsOf, hrun, List.append_nil, ← List.append_assoc, runSteps_append, hs₁]
    exact hs'

/-- A screen whose last column and last line are in cells of their own. -/
def tinyMode : Mode where
  horRes := 9
  verRes := 17
  pScanln := 10
  pFormat := RGB
  one_le_horRes := by decide
  one_le_verRes := by decide
  horRes_le := by decide
  bytes_lt := by decide

/-- A font of bars. -/
def bars : Resources := ⟨fun _ => 0x7e, fun _ => []⟩

/-- A pixel in the corner and then an `A`. -/
def tinyCalls : List Call := [.drawPixel 8 16 0xffffff, .printf [0x41] fun _ => 0]

theorem screen_in_step_tiny :
    (∃ s', runSteps tinyMode (vgaInit fun _ => 0) [.pixel 8 16 0xffffff] = some s' ∧ Tracked tinyMode s') ∧
    ∃ s', runSteps tinyMode (vgaInit fun _ => 0) (stepsOf tinyMode bars ⟨⟨0, 0⟩, 7⟩ tinyCalls) = some s' ∧
      Shown tinyMode s' := by
  obtain ⟨hpoints, hshown⟩ :=
    screen_in_step tinyMode bars ⟨⟨0, 0⟩, 7⟩ (vgaInit fun _ => 0) tinyCalls fun _ _ _ => rfl
  exact ⟨hpoints [.pixel 8 16 0xffffff] _ rfl, hshown [.drawPixel 8 16 0xffffff] _ [] rfl trivial⟩

end Display

end Dem64
