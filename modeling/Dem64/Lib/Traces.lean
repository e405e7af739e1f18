import Mathlib.Logic.Relation

/-!
# Systems with visible events

A step of an `Lts` shows an event or nothing, and `Lts.Trace` is what a run shows.  One system refines
another if each of its traces is a trace of the other one.  `Lts.Simulates` is the usual way to prove that:
a relation between the states such that every step of the first system is answered by a run of the
second one that shows the same.
-/

set_option autoImplicit false

universe u v

/-- A transition system whose steps show an event or nothing. -/
structure Lts (E : Type u) where
  /-- The states. -/
  State : Type v
  /-- The steps. -/
  step : State → Option E → State → Prop

namespace Lts

variable {E : Type u} {C A L : Lts.{u, v} E}

/-- A run, with what it shows. -/
inductive Trace (L : Lts.{u, v} E) : L.State → List E → L.State → Prop
  /-- Nothing happens. -/
  | refl (s : L.State) : Trace L s [] s
  /-- One step more. -/
  | tail {s s' s'' : L.State} {t : List E} {e : Option E} (h : Trace L s t s') (hs : L.step s' e s'') :
    Trace L s (t ++ e.toList) s''

theorem Trace.single {s s' : L.State} {e : Option E} (h : L.step s e s') : L.Trace s e.toList s' :=
  .tail (.refl s) h

theorem Trace.trans {s s' s'' : L.State} {t t' : List E} (h : L.Trace s t s') (h' : L.Trace s' t' s'') :
    L.Trace s (t ++ t') s'' := by
  induction h' with
  | refl => rwa [List.append_nil]
  | tail _ hs ih =>
    rw [← List.append_assoc]
    exact .tail ih hs

/-- What every step keeps, every run keeps. -/
theorem Trace.invariant {P : L.State → Prop} (hstep : ∀ s e s', L.step s e s' → P s → P s') {s s' : L.State}
    {t : List E} (h : L.Trace s t s') (hs : P s) : P s' := by
  induction h with
  | refl => exact hs
  | tail _ hlast ih => exact hstep _ _ _ hlast ih

/-- Every step of `C` is a run of `A` that shows the same. -/
def Simulates (C A : Lts.{u, v} E) (R : C.State → A.State → Prop) : Prop :=
  ∀ c a e c', R c a → C.step c e c' → ∃ a', A.Trace a e.toList a' ∧ R c' a'

/-- **Every trace of `C` is a trace of `A`.** -/
theorem Simulates.trace {R : C.State → A.State → Prop} (h : Simulates C A R) {c c' : C.State} {a : A.State}
    {t : List E} (hR : R c a) (ht : C.Trace c t c') : ∃ a', A.Trace a t a' ∧ R c' a' := by
  induction ht with
  | refl => exact ⟨a, .refl a, hR⟩
  | tail _ hs ih =>
    obtain ⟨a', ha', hR'⟩ := ih
    obtain ⟨a'', ha'', hR''⟩ := h _ _ _ _ hR' hs
    exact ⟨a'', ha'.trans ha'', hR''⟩

end Lts
