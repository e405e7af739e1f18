import Mathlib.Logic.Relation

/-!
# Runs of a step relation

A run is a chain of steps, `Relation.ReflTransGen`.  What one step keeps, a whole run keeps; this
is the only induction the safety results below need, and it is packaged here once.
-/

set_option autoImplicit false

universe u

variable {σ : Type u} {step : σ → σ → Prop}

/-- **What every step keeps, every run keeps.** -/
theorem Relation.ReflTransGen.invariant {P : σ → Prop} (hstep : ∀ x y, step x y → P x → P y)
    {x y : σ} (h : Relation.ReflTransGen step x y) (hx : P x) : P y := by
  induction h with
  | refl => exact hx
  | tail _ hlast ih => exact hstep _ _ hlast ih
