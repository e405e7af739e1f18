import Mathlib.Data.Set.Lattice
import Mathlib.Data.List.Pairwise
import Mathlib.Order.BourbakiWitt
import Mathlib.Order.CompletePartialOrder

/-!
# Ledgers: who owns which cell

An allocator hands out sets of cells and takes them back.  A *ledger* is what it should keep to:
the cells handed out to different owners are disjoint, none of them was taken to begin with, and
the cells in use are exactly the ones taken to begin with together with the ones handed out.

`Ledger cells base used live` says so of a list `live` of owners, `cells d` being what the owner
`d` holds.  The two moves are `Ledger.acquire`, for an owner whose cells were all free, and
`Ledger.release`, for an owner that gives its cells back.
-/

set_option autoImplicit false

universe u v

variable {α : Type u} {ι : Type v}

/-- The owners `live` hold disjoint sets of cells, all outside `base`, and `used` is `base`
together with everything they hold. -/
structure Ledger (cells : ι → Set α) (base used : Set α) (live : List ι) : Prop where
  /-- No cell has two owners. -/
  pairwise : live.Pairwise fun d e ↦ Disjoint (cells d) (cells e)
  /-- No owner holds a cell that was taken to begin with. -/
  fresh : ∀ d ∈ live, Disjoint (cells d) base
  /-- Nothing is lost and nothing is in use without an owner. -/
  mem_used : ∀ x, x ∈ used ↔ x ∈ base ∨ ∃ d ∈ live, x ∈ cells d

namespace Ledger

variable {cells : ι → Set α} {base used used' : Set α} {live : List ι}

theorem empty (cells : ι → Set α) (base : Set α) : Ledger cells base base [] where
  pairwise := List.Pairwise.nil
  fresh := by simp
  mem_used := by simp

theorem cells_subset (h : Ledger cells base used live) {d : ι} (hd : d ∈ live) :
    cells d ⊆ used := fun x hx ↦ (h.mem_used x).mpr (Or.inr ⟨d, hd, hx⟩)

/-- A new owner takes cells that were not in use. -/
theorem acquire (h : Ledger cells base used live) {d : ι} (hfree : Disjoint (cells d) used)
    (hused : ∀ x, x ∈ used' ↔ x ∈ cells d ∨ x ∈ used) : Ledger cells base used' (d :: live) where
  pairwise := by
    refine List.pairwise_cons.mpr ⟨fun e he ↦ ?_, h.pairwise⟩
    exact hfree.mono_right (h.cells_subset he)
  fresh := by
    intro e he
    rcases List.mem_cons.mp he with rfl | he
    · exact hfree.mono_right fun x hx ↦ (h.mem_used x).mpr (Or.inl hx)
    · exact h.fresh e he
  mem_used := by
    intro x
    rw [hused, h.mem_used]
    simp only [List.mem_cons, exists_eq_or_imp]
    tauto

/-- The order in which the owners are listed does not matter. -/
theorem perm (h : Ledger cells base used live) {live' : List ι} (hp : live.Perm live') :
    Ledger cells base used live' where
  pairwise := hp.pairwise h.pairwise fun {_ _} hde ↦ Disjoint.symm hde
  fresh d hd := h.fresh d (hp.mem_iff.mpr hd)
  mem_used x := by
    rw [h.mem_used]
    simp only [hp.mem_iff]

theorem release_head {d : ι} (h : Ledger cells base used (d :: live))
    (hused : ∀ x, x ∈ used' ↔ x ∈ used ∧ x ∉ cells d) : Ledger cells base used' live where
  pairwise := (List.pairwise_cons.mp h.pairwise).2
  fresh e he := h.fresh e (List.mem_cons_of_mem _ he)
  mem_used := by
    intro x
    have hd := Set.disjoint_left.mp (h.fresh d List.mem_cons_self)
    have hrest : ∀ e ∈ live, x ∈ cells e → x ∉ cells d := fun e he hxe hxd ↦
      Set.disjoint_left.mp ((List.pairwise_cons.mp h.pairwise).1 e he) hxd hxe
    rw [hused, h.mem_used]
    simp only [List.mem_cons, exists_eq_or_imp]
    constructor
    · rintro ⟨hb | hxd | he, hn⟩
      · exact Or.inl hb
      · exact absurd hxd hn
      · exact Or.inr he
    · rintro (hb | ⟨e, he, hxe⟩)
      · exact ⟨Or.inl hb, fun hxd ↦ hd hxd hb⟩
      · exact ⟨Or.inr (Or.inr ⟨e, he, hxe⟩), hrest e he hxe⟩

/-- An owner gives its cells back. -/
theorem release [DecidableEq ι] (h : Ledger cells base used live) {d : ι} (hd : d ∈ live)
    (hused : ∀ x, x ∈ used' ↔ x ∈ used ∧ x ∉ cells d) :
    Ledger cells base used' (live.erase d) :=
  (h.perm (List.perm_cons_erase hd)).release_head hused

end Ledger
