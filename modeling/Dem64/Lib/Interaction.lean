import Mathlib.Algebra.Group.Nat.Defs
import Mathlib.Data.List.Basic
import Mathlib.Tactic.Common

/-!
# Programs that ask their environment

A program of a driver does nothing but ask: it reads a port, writes one, loads a byte, and goes on with the
answer.  `Prog Op Ans α` is such a program: a tree that either ends with a result or asks an operation `o`
and has one continuation for each answer of type `Ans o`.  The trees are well founded, so a program ends for
every sequence of answers.

A program has two readings.  `Prog.run` answers the operations from a state, by a handler; `Prog.Runs` says
which logs of operations and answers belong to some run, whatever answers.  A handler's run has a log
(`Prog.trace`) and this log is one of the program's (`Prog.runs_trace`), so what holds of every log holds
against every environment.
-/

set_option autoImplicit false

namespace Interaction

variable {Op : Type} {Ans : Op → Type} {α β γ σ : Type}

/-- A program over the operations `Op`, where `o` is answered by an `Ans o`. -/
inductive Prog (Op : Type) (Ans : Op → Type) (α : Type) : Type
  /-- It ends with a result. -/
  | done (a : α)
  /-- It asks an operation and goes on with the answer. -/
  | ask (o : Op) (k : Ans o → Prog Op Ans α)

/-- An operation with its answer. -/
abbrev Event (Op : Type) (Ans : Op → Type) : Type := (o : Op) × Ans o

/-- What answers the operations, from a state. -/
abbrev Handler (Op : Type) (Ans : Op → Type) (σ : Type) : Type := (o : Op) → σ → Ans o × σ

namespace Prog

/-- One program after another. -/
def bind : Prog Op Ans α → (α → Prog Op Ans β) → Prog Op Ans β
  | .done a, f => f a
  | .ask o k, f => .ask o fun v => (k v).bind f

instance : Monad (Prog Op Ans) where
  pure := .done
  bind := Prog.bind

/-- The program that asks `o` and returns the answer. -/
def call (o : Op) : Prog Op Ans (Ans o) := .ask o .done

theorem bind_eq (p : Prog Op Ans α) (f : α → Prog Op Ans β) : p >>= f = p.bind f := rfl

theorem bind_done (p : Prog Op Ans α) : p.bind .done = p := by
  induction p with
  | done a => rfl
  | ask o k ih => simp only [bind, ih]

theorem bind_bind (p : Prog Op Ans α) (f : α → Prog Op Ans β) (g : β → Prog Op Ans γ) :
    (p.bind f).bind g = p.bind fun a => (f a).bind g := by
  induction p with
  | done a => rfl
  | ask o k ih => simp only [bind, ih]

instance : LawfulMonad (Prog Op Ans) :=
  LawfulMonad.mk' _ (fun p => bind_done p) (fun _ _ => rfl) (fun p f g => bind_bind p f g)

/-! ## Against a handler -/

/-- The run of a program whose operations `h` answers. -/
def run (h : Handler Op Ans σ) : Prog Op Ans α → σ → α × σ
  | .done a, s => (a, s)
  | .ask o k, s => (k (h o s).1).run h (h o s).2

/-- The operations a run asks, with their answers. -/
def trace (h : Handler Op Ans σ) : Prog Op Ans α → σ → List (Event Op Ans)
  | .done _, _ => []
  | .ask o k, s => ⟨o, (h o s).1⟩ :: (k (h o s).1).trace h (h o s).2

variable (h : Handler Op Ans σ)

@[simp] theorem run_pure (a : α) (s : σ) : run h (pure a : Prog Op Ans α) s = (a, s) := rfl

@[simp] theorem run_call (o : Op) (s : σ) : run h (call o) s = h o s := rfl

@[simp] theorem run_bind (p : Prog Op Ans α) (f : α → Prog Op Ans β) (s : σ) :
    run h (p >>= f) s = run h (f (run h p s).1) (run h p s).2 := by
  rw [bind_eq]
  induction p generalizing s with
  | done a => rfl
  | ask o k ih => exact ih _ _

theorem trace_bind (p : Prog Op Ans α) (f : α → Prog Op Ans β) (s : σ) :
    trace h (p >>= f) s = trace h p s ++ trace h (f (run h p s).1) (run h p s).2 := by
  rw [bind_eq]
  induction p generalizing s with
  | done a => rfl
  | ask o k ih => exact congrArg _ (ih _ _)

/-- Every operation that the run asks has `P`. -/
def AllAsked (P : Op → Prop) (p : Prog Op Ans α) (s : σ) : Prop := ∀ e ∈ trace h p s, P e.1

@[simp] theorem allAsked_pure {P : Op → Prop} (a : α) (s : σ) : AllAsked h P (pure a : Prog Op Ans α) s :=
  fun _ he => absurd he List.not_mem_nil

theorem allAsked_call_bind {P : Op → Prop} {o : Op} {f : Ans o → Prog Op Ans β} {s : σ} :
    AllAsked h P (call o >>= f) s ↔ P o ∧ AllAsked h P (f (h o s).1) (h o s).2 :=
  List.forall_mem_cons

theorem allAsked_bind {P : Op → Prop} {p : Prog Op Ans α} {f : α → Prog Op Ans β} {s : σ} :
    AllAsked h P (p >>= f) s ↔ AllAsked h P p s ∧ AllAsked h P (f (run h p s).1) (run h p s).2 := by
  rw [bind_eq]
  induction p generalizing s with
  | done a => exact (and_iff_right (allAsked_pure h a s)).symm
  | ask o k ih =>
    have hfirst : AllAsked h P (ask o k) s ↔ P o ∧ AllAsked h P (k (h o s).1) (h o s).2 := List.forall_mem_cons
    have hboth : AllAsked h P ((ask o k).bind f) s ↔ P o ∧ AllAsked h P ((k (h o s).1).bind f) (h o s).2 :=
      List.forall_mem_cons
    rw [hfirst, hboth, ih, and_assoc]
    exact Iff.rfl

/-- What every operation does to the state, a run does. -/
theorem run_rel {R : σ → σ → Prop} (hrefl : ∀ s, R s s) (htrans : ∀ {s t u}, R s t → R t u → R s u)
    (hstep : ∀ o s, R s (h o s).2) (p : Prog Op Ans α) (s : σ) : R s (run h p s).2 := by
  induction p generalizing s with
  | done a => exact hrefl s
  | ask o k ih => exact htrans (hstep o s) (ih _ _)

/-- The handler on the states that have an invariant of the operations. -/
def restrict (h : Handler Op Ans σ) (Inv : σ → Prop) (hkeep : ∀ o s, Inv s → Inv (h o s).2) :
    Handler Op Ans {s // Inv s} := fun o s => ((h o s).1, ⟨(h o s).2, hkeep o s s.2⟩)

theorem run_restrict {Inv : σ → Prop} (hkeep : ∀ o s, Inv s → Inv (h o s).2) (p : Prog Op Ans α) (s : {s // Inv s}) :
    (run (restrict h Inv hkeep) p s).1 = (run h p s).1 ∧
    ((run (restrict h Inv hkeep) p s).2 : σ) = (run h p s).2 := by
  induction p generalizing s with
  | done a => exact ⟨rfl, rfl⟩
  | ask o k ih => exact ih _ _

/-! ## Against any answers -/

/-- The log `l` with the result `a` is one of the program's. -/
def Runs : Prog Op Ans α → List (Event Op Ans) → α → Prop
  | .done a, l, b => l = [] ∧ b = a
  | .ask o k, l, b => ∃ v l', l = ⟨o, v⟩ :: l' ∧ (k v).Runs l' b

@[simp] theorem runs_pure {a b : α} {l : List (Event Op Ans)} :
    Runs (pure a : Prog Op Ans α) l b ↔ l = [] ∧ b = a := Iff.rfl

@[simp] theorem runs_call {o : Op} {l : List (Event Op Ans)} {v : Ans o} :
    Runs (call o) l v ↔ l = [⟨o, v⟩] := by
  constructor
  · rintro ⟨w, l', rfl, rfl, rfl⟩
    rfl
  · rintro rfl
    exact ⟨v, [], rfl, rfl, rfl⟩

/-- **A log of two programs in turn is cut where the second one starts.** -/
theorem runs_bind {p : Prog Op Ans α} {f : α → Prog Op Ans β} {l : List (Event Op Ans)} {b : β} :
    Runs (p >>= f) l b ↔ ∃ l₁ a l₂, l = l₁ ++ l₂ ∧ Runs p l₁ a ∧ Runs (f a) l₂ b := by
  rw [bind_eq]
  induction p generalizing l with
  | done a => simp [bind, Runs]
  | ask o k ih =>
    constructor
    · rintro ⟨v, l', rfl, h⟩
      obtain ⟨l₁, a, l₂, rfl, h₁, h₂⟩ := (ih v).mp h
      exact ⟨⟨o, v⟩ :: l₁, a, l₂, rfl, ⟨v, l₁, rfl, h₁⟩, h₂⟩
    · rintro ⟨_, a, l₂, rfl, ⟨v, l₁, rfl, h₁⟩, h₂⟩
      exact ⟨v, l₁ ++ l₂, rfl, (ih v).mpr ⟨l₁, a, l₂, rfl, h₁, h₂⟩⟩

/-- **What a handler answers is one of the logs of the program.** -/
theorem runs_trace (p : Prog Op Ans α) (s : σ) : Runs p (trace h p s) (run h p s).1 := by
  induction p generalizing s with
  | done a => exact ⟨rfl, rfl⟩
  | ask o k ih => exact ⟨_, _, rfl, ih _ _⟩

/-! ## Which operations, and how many -/

/-- Whatever the answers, the program asks operations with `P` only. -/
def Asks (P : Op → Prop) : Prog Op Ans α → Prop
  | .done _ => True
  | .ask o k => P o ∧ ∀ v, (k v).Asks P

/-- Whatever the answers, the program asks `n` operations at most. -/
def Within : Nat → Prog Op Ans α → Prop
  | _, .done _ => True
  | 0, .ask _ _ => False
  | n + 1, .ask _ k => ∀ v, (k v).Within n

variable {P : Op → Prop} {p : Prog Op Ans α} {f : α → Prog Op Ans β} {n m : Nat}

@[simp] theorem asks_pure (a : α) : (pure a : Prog Op Ans α).Asks P := trivial

@[simp] theorem asks_call {o : Op} : (call o : Prog Op Ans (Ans o)).Asks P ↔ P o :=
  ⟨fun h => h.1, fun h => ⟨h, fun _ => trivial⟩⟩

theorem Asks.bind (hp : p.Asks P) (hf : ∀ a, (f a).Asks P) : (p >>= f).Asks P := by
  rw [bind_eq]
  induction p with
  | done a => exact hf a
  | ask o k ih => exact ⟨hp.1, fun v => ih v (hp.2 v)⟩

theorem Asks.mono {Q : Op → Prop} (hp : p.Asks P) (h : ∀ o, P o → Q o) : p.Asks Q := by
  induction p with
  | done a => trivial
  | ask o k ih => exact ⟨h o hp.1, fun v => ih v (hp.2 v)⟩

/-- Every operation of a log is one the program may ask. -/
theorem Asks.runs {l : List (Event Op Ans)} {a : α} (hp : p.Asks P) (h : p.Runs l a) :
    ∀ e ∈ l, P e.1 := by
  induction p generalizing l with
  | done b =>
    rw [h.1]
    exact fun e he => absurd he List.not_mem_nil
  | ask o k ih =>
    obtain ⟨v, l', rfl, h'⟩ := h
    intro e he
    rcases List.mem_cons.mp he with rfl | he
    · exact hp.1
    · exact ih v (hp.2 v) h' e he

@[simp] theorem within_pure (a : α) : (pure a : Prog Op Ans α).Within n := by
  cases n <;> trivial

@[simp] theorem within_call (o : Op) : (call o : Prog Op Ans (Ans o)).Within (n + 1) := fun v => within_pure v

theorem within_call_bind {o : Op} {f : Ans o → Prog Op Ans β} (hf : ∀ v, (f v).Within n) :
    (call o >>= f).Within (n + 1) := hf

theorem Within.mono (h : p.Within n) (hle : n ≤ m) : p.Within m := by
  induction p generalizing n m with
  | done a => exact within_pure a
  | ask o k ih =>
    cases n with
    | zero => exact h.elim
    | succ n =>
      obtain ⟨m, rfl⟩ : ∃ m', m = m' + 1 := ⟨m - 1, by omega⟩
      exact fun v => ih v (h v) (by omega)

theorem Within.bind (hp : p.Within n) (hf : ∀ a, (f a).Within m) : (p >>= f).Within (n + m) := by
  rw [bind_eq]
  induction p generalizing n with
  | done a => exact (hf a).mono (Nat.le_add_left m n)
  | ask o k ih =>
    cases n with
    | zero => exact hp.elim
    | succ n =>
      rw [Nat.succ_add]
      exact fun v => ih v (hp v)

theorem Within.length_le {l : List (Event Op Ans)} {a : α} (hp : p.Within n) (h : p.Runs l a) :
    l.length ≤ n := by
  induction p generalizing l n with
  | done b =>
    rw [h.1]
    exact Nat.zero_le n
  | ask o k ih =>
    cases n with
    | zero => exact hp.elim
    | succ n =>
      obtain ⟨v, l', rfl, h'⟩ := h
      exact Nat.succ_le_succ (ih v (hp v) h')

attribute [irreducible] Within

end Prog

end Interaction
