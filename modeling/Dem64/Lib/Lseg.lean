import Mathlib.Data.List.Basic

/-!
# Singly linked lists

`Lseg next a l b` says that following the links from `a` one meets the cells of `l`, in this order,
and then `b`.  A link is an optional cell, `none` being the null pointer, so that a whole list is a
segment that ends with `none`.

Segments are put together and taken apart with `Lseg.append_iff`; the links of cells that are not
in a segment do not matter to it (`Lseg.congr`).

A `LinkRing` is a segment from the successor of a head back to this head, through distinct cells.  Cells come
and go behind the head (`LinkRing.push`, `LinkRing.pop`).
-/

set_option autoImplicit false

universe u

variable {α : Type u}

/-- The links lead from `a` through the cells of the list to `b`. -/
def Lseg (next : α → Option α) : Option α → List α → Option α → Prop
  | a, [], b => a = b
  | a, x :: l, b => a = some x ∧ Lseg next (next x) l b

namespace Lseg

variable {next next' : α → Option α} {a b c : Option α} {x y : α} {l r : List α}

theorem append_iff : Lseg next a (l ++ r) b ↔ ∃ c, Lseg next a l c ∧ Lseg next c r b := by
  induction l generalizing a with
  | nil =>
    constructor
    · intro h
      exact ⟨a, rfl, h⟩
    · rintro ⟨c, rfl, h⟩
      exact h
  | cons x l ih =>
    simp only [List.cons_append, Lseg, ih]
    constructor
    · rintro ⟨h, c, h1, h2⟩
      exact ⟨c, ⟨h, h1⟩, h2⟩
    · rintro ⟨c, ⟨h, h1⟩, h2⟩
      exact ⟨h, c, h1, h2⟩

/-- The last cell of a segment links to what is behind it. -/
theorem concat_iff : Lseg next a (l ++ [x]) b ↔ Lseg next a l (some x) ∧ next x = b := by
  rw [append_iff]
  constructor
  · rintro ⟨c, h, rfl, h'⟩
    exact ⟨h, h'⟩
  · rintro ⟨h, h'⟩
    exact ⟨_, h, rfl, h'⟩

/-- Links of other cells do not matter. -/
theorem congr (h : Lseg next a l b) (hn : ∀ y ∈ l, next' y = next y) : Lseg next' a l b := by
  induction l generalizing a with
  | nil => exact h
  | cons x l ih =>
    refine ⟨h.1, ?_⟩
    rw [hn x List.mem_cons_self]
    exact ih h.2 fun y hy => hn y (List.mem_cons_of_mem _ hy)

/-- A segment is cut behind one of its cells, and led elsewhere from there. -/
theorem cut (h : Lseg next a (l ++ x :: r) b) (hl : ∀ y ∈ l, next' y = next y) (hx : next' x = c) :
    Lseg next' a (l ++ [x]) c := by
  obtain ⟨d, h1, rfl, -⟩ := append_iff.mp h
  exact concat_iff.mpr ⟨h1.congr hl, hx⟩

/-- A list ends behind its last cell. -/
theorem snoc (h : Lseg next a (l ++ [x]) b) (hl : ∀ z ∈ l, next' z = next z) (hx : next' x = some y)
    (hy : next' y = c) : Lseg next' a (l ++ [x] ++ [y]) c :=
  concat_iff.mpr ⟨h.cut hl hx, hy⟩

/-- What is reached before the end is what is in the list. -/
theorem reaches_iff (h : Lseg next a l none) : (∃ r, Lseg next a r (some x)) ↔ x ∈ l := by
  constructor
  · rintro ⟨r, hr⟩
    induction r generalizing a l with
    | nil =>
      obtain rfl : a = some x := hr
      cases l with
      | nil => cases h
      | cons y l => rw [Option.some.inj h.1]; exact List.mem_cons_self
    | cons z r ih =>
      obtain ⟨rfl, hr⟩ := hr
      cases l with
      | nil => cases h
      | cons y l =>
        obtain rfl : z = y := Option.some.inj h.1
        exact List.mem_cons_of_mem _ (ih h.2 hr)
  · intro hx
    obtain ⟨l1, l2, rfl⟩ := List.append_of_mem hx
    obtain ⟨c, h1, rfl, -⟩ := append_iff.mp h
    exact ⟨l1, h1⟩

theorem head?_eq (h : Lseg next a l none) : a = l.head? := by
  cases l with
  | nil => exact h
  | cons x l => exact h.1

/-- A cell links to the next one of the list. -/
theorem next_eq (h : Lseg next a (l ++ x :: r) none) : next x = r.head? := by
  obtain ⟨c, -, -, h'⟩ := append_iff.mp h
  exact h'.head?_eq

end Lseg

/-- The links lead from the head through the cells of the list and back to the head, and meet no cell
twice. -/
structure LinkRing (next : α → Option α) (head : α) (l : List α) : Prop where
  /-- No cell is there twice. -/
  nodup : (head :: l).Nodup
  /-- The links. -/
  links : Lseg next (next head) l (some head)

namespace LinkRing

variable {next next' : α → Option α} {head x : α} {l : List α}

/-- A head that links to itself. -/
theorem single (h : next head = some head) : LinkRing next head [] := ⟨by simp, h⟩

/-- Links of other cells do not matter. -/
theorem congr (h : LinkRing next head l) (hn : ∀ y ∈ head :: l, next' y = next y) : LinkRing next' head l where
  nodup := h.nodup
  links := by
    rw [hn head List.mem_cons_self]
    exact h.links.congr fun y hy => hn y (List.mem_cons_of_mem _ hy)

/-- A cell comes in behind the head. -/
theorem push (h : LinkRing next head l) (hx : x ∉ head :: l) (hhead : next' head = some x)
    (hnew : next' x = next head) (hn : ∀ y ∈ l, next' y = next y) : LinkRing next' head (x :: l) where
  nodup := by
    obtain ⟨h1, h2⟩ := List.nodup_cons.mp h.nodup
    obtain ⟨h3, h4⟩ := not_or.mp (mt List.mem_cons.mpr hx)
    refine List.nodup_cons.mpr ⟨fun hm => ?_, List.nodup_cons.mpr ⟨h4, h2⟩⟩
    rcases List.mem_cons.mp hm with rfl | hm
    · exact h3 rfl
    · exact h1 hm
  links := ⟨hhead, hnew ▸ h.links.congr hn⟩

/-- The cell behind the head goes. -/
theorem pop (h : LinkRing next head (x :: l)) (hhead : next' head = next x) (hn : ∀ y ∈ l, next' y = next y) :
    LinkRing next' head l where
  nodup := by
    obtain ⟨h1, h2⟩ := List.nodup_cons.mp h.nodup
    exact List.nodup_cons.mpr ⟨fun hm => h1 (List.mem_cons_of_mem _ hm), (List.nodup_cons.mp h2).2⟩
  links := hhead ▸ h.links.2.congr hn

end LinkRing
