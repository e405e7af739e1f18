import Mathlib.Data.List.Basic

/-!
# Doubly linked lists

`Dll next former b l a` says that the cells of `l` are linked one after the other, with `b` before
the first and `a` behind the last.  Cells are arbitrary, and the links are functions on them, so that
a list that is stored in fields of records is described by those fields.

Splitting a list (`Dll.append_iff`) reduces every change of links to the cells next to it:
`Dll.snoc` puts a cell at the end and `Dll.remove` takes one out.
-/

set_option autoImplicit false

universe u

variable {α : Type u}

/-- The cells of the list are linked one after the other, behind `b` and before `a`. -/
def Dll (next former : α → α) : α → List α → α → Prop
  | _, [], _ => True
  | b, p :: l, a => former p = b ∧ next p = l.headD a ∧ Dll next former p l a

namespace Dll

variable {next former next' former' : α → α} {a a' b f x : α} {l r : List α}

theorem append_iff : Dll next former b (l ++ r) a ↔
    Dll next former b l (r.headD a) ∧ Dll next former (l.getLastD b) r a := by
  induction l generalizing b with
  | nil => simp [Dll]
  | cons p l ih =>
    have hhead : (l ++ r).headD a = l.headD (r.headD a) := by cases l <;> rfl
    have hlast : (p :: l).getLastD b = l.getLastD p := List.getLastD_cons
    simp only [List.cons_append, Dll, ih, hhead, hlast, and_assoc]

/-- Links of other cells do not matter. -/
theorem congr (h : Dll next former b l a) (hn : ∀ y ∈ l, next' y = next y)
    (hf : ∀ y ∈ l, former' y = former y) : Dll next' former' b l a := by
  induction l generalizing b with
  | nil => trivial
  | cons p l ih =>
    obtain ⟨h1, h2, h3⟩ := h
    refine ⟨(hf p List.mem_cons_self).trans h1, (hn p List.mem_cons_self).trans h2, ?_⟩
    exact ih h3 (fun y hy => hn y (List.mem_cons_of_mem _ hy))
      fun y hy => hf y (List.mem_cons_of_mem _ hy)

/-- The link behind the last cell is changed. -/
theorem setNext (h : Dll next former b (l ++ [f]) a) (hl : ∀ y ∈ l, next' y = next y)
    (hf : next' f = a') (hform : ∀ y ∈ l ++ [f], former' y = former y) :
    Dll next' former' b (l ++ [f]) a' := by
  obtain ⟨hpre, hlast, -, -⟩ := append_iff.mp h
  refine append_iff.mpr ⟨hpre.congr hl fun y hy => hform y (List.mem_append_left _ hy), ?_, hf, trivial⟩
  exact (hform f (by simp)).trans hlast

/-- **A new cell is put at the end.** -/
theorem snoc (h : Dll next former b (l ++ [f]) a) (hl : ∀ y ∈ l, next' y = next y)
    (hform : ∀ y ∈ l ++ [f], former' y = former y) (hf : next' f = x) (hx : former' x = f)
    (hx' : next' x = a') : Dll next' former' b (l ++ [f] ++ [x]) a' := by
  refine append_iff.mpr ⟨h.setNext hl hf hform, ?_, hx', trivial⟩
  rw [hx]
  simp

/-- **A cell is taken out**, with the cell before it linked to what comes behind it. -/
theorem remove (h : Dll next former b (l ++ [f] ++ x :: r) a) (hl : ∀ y ∈ l, next' y = next y)
    (hform : ∀ y ∈ l ++ [f], former' y = former y) (hf : next' f = r.headD a)
    (hr : ∀ y ∈ r, next' y = next y) (hhead : ∀ y ∈ r.head?, former' y = f)
    (htail : ∀ y ∈ r.tail, former' y = former y) :
    Dll next' former' b (l ++ [f] ++ r) a := by
  obtain ⟨hpre, -, -, hrest⟩ := append_iff.mp h
  refine append_iff.mpr ⟨hpre.setNext hl hf hform, ?_⟩
  rw [show (l ++ [f]).getLastD b = f by simp]
  cases r with
  | nil => trivial
  | cons y r =>
    obtain ⟨-, h2, h3⟩ := hrest
    refine ⟨hhead y rfl, (hr y List.mem_cons_self).trans h2, h3.congr ?_ htail⟩
    exact fun z hz => hr z (List.mem_cons_of_mem _ hz)

/-- What comes before and behind a cell. -/
theorem links (h : Dll next former b (l ++ x :: r) a) :
    former x = l.getLastD b ∧ next x = r.headD a := by
  obtain ⟨-, h1, h2, -⟩ := append_iff.mp h
  exact ⟨h1, h2⟩

/-- The links determine the list. -/
theorem unique {b' : α} {l' : List α} (h : Dll next former b l a) (h' : Dll next former b' l' a)
    (hl : ∀ y ∈ l, y ≠ a) (hl' : ∀ y ∈ l', y ≠ a) (hhead : l.headD a = l'.headD a) : l = l' := by
  induction l generalizing b b' l' with
  | nil =>
    cases l' with
    | nil => rfl
    | cons y l' => exact absurd hhead.symm (hl' y List.mem_cons_self)
  | cons x l ih =>
    cases l' with
    | nil => exact absurd hhead (hl x List.mem_cons_self)
    | cons y l' =>
      obtain rfl : x = y := hhead
      rw [ih h.2.2 h'.2.2 (fun z hz => hl z (List.mem_cons_of_mem _ hz))
        (fun z hz => hl' z (List.mem_cons_of_mem _ hz)) (h.2.1.symm.trans h'.2.1)]

end Dll
