import Dem64.Lib.Interaction

/-!
# Programs that are watched

A handler can keep a log of what its operations do (`logging`), which changes no answer.  What holds of every state of
a run, the ones between two operations included, is `Always`.

`Exec` puts both together for a view of the states: from a state with one view the program returns `a`, ends in a state
with another view, and meets views with `P` only.  It is a judgement with a rule for each construct of programs, so a
straight-line program is executed symbolically on views.
-/

set_option autoImplicit false

namespace Interaction

variable {Op : Type} {Ans : Op → Type} {α β σ ν V : Type}

/-- A handler that notes what its operations do. -/
def Handler.logging (h : Handler Op Ans σ) (note : Op → σ → List ν) : Handler Op Ans (σ × List ν) :=
  fun o s => ((h o s.1).1, (h o s.1).2, s.2 ++ note o s.1)

namespace Prog

/-- The log changes nothing. -/
theorem run_logging (h : Handler Op Ans σ) (note : Op → σ → List ν) (p : Prog Op Ans α) (s : σ) (l : List ν) :
    (run (h.logging note) p (s, l)).1 = (run h p s).1 ∧ (run (h.logging note) p (s, l)).2.1 = (run h p s).2 := by
  induction p generalizing s l with
  | done a => exact ⟨rfl, rfl⟩
  | ask o k ih => exact ih (h o s).1 (h o s).2 _

/-- Every state of the run has `P`. -/
def Always (h : Handler Op Ans σ) (P : σ → Prop) : Prog Op Ans α → σ → Prop
  | .done _, s => P s
  | .ask o k, s => P s ∧ (k (h o s).1).Always h P (h o s).2

variable {h : Handler Op Ans σ} {P : σ → Prop}

theorem Always.bind {p : Prog Op Ans α} {f : α → Prog Op Ans β} {s : σ} (hp : p.Always h P s)
    (hf : (f (run h p s).1).Always h P (run h p s).2) : (p >>= f).Always h P s := by
  rw [bind_eq]
  induction p generalizing s with
  | done a => exact hf
  | ask o k ih => exact ⟨hp.1, ih _ hp.2 hf⟩

theorem always_pure {a : α} {s : σ} : (pure a : Prog Op Ans α).Always h P s ↔ P s := Iff.rfl

theorem always_call_bind {o : Op} {f : Ans o → Prog Op Ans β} {s : σ} :
    (call o >>= f).Always h P s ↔ P s ∧ (f (h o s).1).Always h P (h o s).2 := Iff.rfl

end Prog

open Prog

/-- From the view `v` the program returns `a` and leaves the view `v'`; the views it meets have `P`. -/
def Exec (h : Handler Op Ans σ) (view : σ → V) (P : V → Prop) (p : Prog Op Ans α) (v : V) (a : α) (v' : V) : Prop :=
  ∀ s, view s = v → (run h p s).1 = a ∧ view (run h p s).2 = v' ∧ p.Always h (fun t => P (view t)) s

namespace Exec

variable {h : Handler Op Ans σ} {view : σ → V} {P : V → Prop} {v v' v'' : V} {a : α} {b : β}

theorem pure (hv : P v) : Exec h view P (pure a : Prog Op Ans α) v a v := by
  rintro s rfl
  exact ⟨rfl, rfl, hv⟩

theorem bind {p : Prog Op Ans α} {f : α → Prog Op Ans β} (hp : Exec h view P p v a v')
    (hf : Exec h view P (f a) v' b v'') : Exec h view P (p >>= f) v b v'' := by
  intro s hs
  obtain ⟨hr, hv, hall⟩ := hp s hs
  obtain ⟨hr', hv', hall'⟩ := hf _ hv
  rw [run_bind, hr]
  exact ⟨hr', hv', hall.bind (by rw [hr]; exact hall')⟩

theorem bind_exists {p : Prog Op Ans α} {f : α → Prog Op Ans β} (hp : Exec h view P p v a v')
    (hf : ∃ b, Exec h view P (f a) v' b v'') : ∃ b, Exec h view P (p >>= f) v b v'' := by
  obtain ⟨b, hb⟩ := hf
  exact ⟨b, hp.bind hb⟩

end Exec

end Interaction
