import Dem64.Lib.Interaction
import Dem64.Lib.Traces
import Mathlib.Logic.Function.Basic

/-!
# Programs that share a spinlock

Any number of processors run programs over one shared state, one operation at a time and in any order.  A
program may take a lock and release it: taking it is an exchange that writes one into the word of the lock and
looks at what was there, and while this was one, the processor loads the word until it is zero and tries again.

`Sectioned` programs do nothing but one section between the lock and its release, or one operation that no
section is in the way of, or nothing at all.  `Disciplined.simulates` says that calls of such programs are
atomic: whatever the interleaving, the calls and the returns are those of a system in which each call does
all of its work in one step, at some time between its call and its return.  `Disciplined.returns` says that
no interleaving ends in a deadlock.
-/

set_option autoImplicit false

namespace Interaction

variable {Op : Type} {Ans : Op → Type} {σ τ ι J R : Type}

namespace Prog

/-! ## Half a program -/

/-- The program `p` has come from `s` to the state `s'`, where `r` is left to do. -/
inductive Partly (h : Handler Op Ans σ) : Prog Op Ans R → σ → Prog Op Ans R → σ → Prop
  /-- All of it is left. -/
  | refl (p : Prog Op Ans R) (s : σ) : Partly h p s p s
  /-- An operation is done. -/
  | head {o : Op} {k : Ans o → Prog Op Ans R} {s s' : σ} {r : Prog Op Ans R}
    (hr : Partly h (k (h o s).1) (h o s).2 r s') : Partly h (.ask o k) s r s'

variable {h : Handler Op Ans σ} {p r : Prog Op Ans R} {s s' : σ} {o : Op}

theorem Partly.snoc {k : Ans o → Prog Op Ans R} (hp : Partly h p s (.ask o k) s') :
    Partly h p s (k (h o s').1) (h o s').2 := by
  generalize hr : Prog.ask o k = r at hp
  induction hp with
  | refl p s =>
    subst hr
    exact .head (.refl _ _)
  | head _ ih => exact .head (ih hr)

/-- The rest of the run. -/
theorem Partly.run_eq (hp : Partly h p s r s') : run h p s = run h r s' := by
  induction hp with
  | refl => rfl
  | head _ ih => exact ih

/-- The operations `o` and `g` may be done in either order. -/
def Commutes (h : Handler Op Ans σ) (o g : Op) (s : σ) : Prop :=
  (h g (h o s).2).1 = (h g s).1 ∧ (h g (h o s).2).2 = (h o (h g s).2).2 ∧ (h o (h g s).2).1 = (h o s).1

/-- The operation `o` commutes with everything the program does from `s` on. -/
def Independent (h : Handler Op Ans σ) (o : Op) : Prog Op Ans R → σ → Prop
  | .done _, _ => True
  | .ask g k, s => Commutes h o g s ∧ Independent h o (k (h g s).1) (h g s).2

/-- **An independent operation half-way through a program is as good as one before it.** -/
theorem Partly.commute (hp : Partly h p s r s') (hind : Independent h o p s) :
    Partly h p (h o s).2 r (h o s').2 ∧ (h o s').1 = (h o s).1 := by
  induction hp with
  | refl p s => exact ⟨.refl _ _, rfl⟩
  | @head g k s s' r hr ih =>
    obtain ⟨⟨hans, hstate, ho⟩, hrest⟩ := hind
    obtain ⟨hp, hv⟩ := ih hrest
    refine ⟨.head ?_, hv.trans ho⟩
    rwa [hans, hstate]

end Prog

open Prog

/-! ## The processors -/

/-- What is seen of a processor: its calls and their returns. -/
inductive CallEvent (ι J R : Type)
  | call (i : ι) (j : J)
  | ret (i : ι) (j : J) (a : R)

/-- What a processor is doing. -/
inductive Thread (Op : Type) (Ans : Op → Type) (J R : Type)
  /-- Nothing that touches the shared state. -/
  | idle
  /-- The call `j`, of which `p` is left. -/
  | active (j : J) (p : Prog Op Ans R)
  /-- The inner loop of `spin_lock`; `p` starts with another exchange. -/
  | spinning (j : J) (p : Prog Op Ans R)

/-- The word of the lock, the shared state and the processors. -/
structure Conf (Op : Type) (Ans : Op → Type) (σ ι J R : Type) where
  locked : Bool
  shared : σ
  threads : ι → Thread Op Ans J R

section

variable [DecidableEq ι] (h : Handler Op Ans σ) (lock unlock : Op) (prog : J → Prog Op Ans R)

/-- One step of one processor. -/
inductive ProcessorStep : Conf Op Ans σ ι J R → Option (CallEvent ι J R) → Conf Op Ans σ ι J R → Prop
  /-- A call. -/
  | call {c : Conf Op Ans σ ι J R} {i : ι} (j : J) (hi : c.threads i = .idle) :
    ProcessorStep c (some (.call i j)) { c with threads := Function.update c.threads i (.active j (prog j)) }
  /-- A return. -/
  | ret {c : Conf Op Ans σ ι J R} {i : ι} {j : J} {a : R} (hi : c.threads i = .active j (.done a)) :
    ProcessorStep c (some (.ret i j a)) { c with threads := Function.update c.threads i .idle }
  /-- The exchange finds the lock free. -/
  | take {c : Conf Op Ans σ ι J R} {i : ι} {j : J} {k : Ans lock → Prog Op Ans R}
    (hi : c.threads i = .active j (.ask lock k)) (hfree : c.locked = false) :
    ProcessorStep c none
      { locked := true
        shared := (h lock c.shared).2
        threads := Function.update c.threads i (.active j (k (h lock c.shared).1)) }
  /-- The exchange finds it taken. -/
  | fail {c : Conf Op Ans σ ι J R} {i : ι} {j : J} {k : Ans lock → Prog Op Ans R}
    (hi : c.threads i = .active j (.ask lock k)) (hheld : c.locked = true) :
    ProcessorStep c none { c with threads := Function.update c.threads i (.spinning j (.ask lock k)) }
  /-- The load finds it taken. -/
  | pause {c : Conf Op Ans σ ι J R} {i : ι} {j : J} {p : Prog Op Ans R}
    (hi : c.threads i = .spinning j p) (hheld : c.locked = true) : ProcessorStep c none c
  /-- The load finds it free. -/
  | retry {c : Conf Op Ans σ ι J R} {i : ι} {j : J} {p : Prog Op Ans R}
    (hi : c.threads i = .spinning j p) (hfree : c.locked = false) :
    ProcessorStep c none { c with threads := Function.update c.threads i (.active j p) }
  /-- The lock is released. -/
  | release {c : Conf Op Ans σ ι J R} {i : ι} {j : J} {k : Ans unlock → Prog Op Ans R}
    (hi : c.threads i = .active j (.ask unlock k)) :
    ProcessorStep c none
      { locked := false
        shared := (h unlock c.shared).2
        threads := Function.update c.threads i (.active j (k (h unlock c.shared).1)) }
  /-- Any other operation. -/
  | op {c : Conf Op Ans σ ι J R} {i : ι} {j : J} {o : Op} {k : Ans o → Prog Op Ans R}
    (hi : c.threads i = .active j (.ask o k)) (hl : o ≠ lock) (hu : o ≠ unlock) :
    ProcessorStep c none
      { c with
        shared := (h o c.shared).2
        threads := Function.update c.threads i (.active j (k (h o c.shared).1)) }

/-- The processors and what is seen of them. -/
def processors : Lts (CallEvent ι J R) where
  State := Conf Op Ans σ ι J R
  step := ProcessorStep h lock unlock prog

/-! ## Atomic calls -/

/-- A processor whose calls are atomic. -/
inductive Caller (J R : Type)
  | idle
  | called (j : J)
  | served (j : J) (a : R)

/-- The abstract state and the processors. -/
structure AtomicConf (τ ι J R : Type) where
  shared : τ
  callers : ι → Caller J R

/-- A step when calls are atomic: `spec` is what a call returns and does. -/
inductive AtomicStep (spec : J → τ → R × τ) :
    AtomicConf τ ι J R → Option (CallEvent ι J R) → AtomicConf τ ι J R → Prop
  /-- A call. -/
  | call {c : AtomicConf τ ι J R} {i : ι} (j : J) (hi : c.callers i = .idle) :
    AtomicStep spec c (some (.call i j)) { c with callers := Function.update c.callers i (.called j) }
  /-- All of its work. -/
  | serve {c : AtomicConf τ ι J R} {i : ι} {j : J} (hi : c.callers i = .called j) :
    AtomicStep spec c none
      { shared := (spec j c.shared).2
        callers := Function.update c.callers i (.served j (spec j c.shared).1) }
  /-- Its return. -/
  | ret {c : AtomicConf τ ι J R} {i : ι} {j : J} {a : R} (hi : c.callers i = .served j a) :
    AtomicStep spec c (some (.ret i j a)) { c with callers := Function.update c.callers i .idle }

/-- The system in which calls are atomic. -/
def atomicCalls (ι : Type) [DecidableEq ι] (spec : J → τ → R × τ) : Lts (CallEvent ι J R) where
  State := AtomicConf τ ι J R
  step := AtomicStep spec

/-! ## Sections -/

/-- Behind the lock: some operations, the release, and the return. -/
inductive InSection : Prog Op Ans R → Prop
  | release {k : Ans unlock → Prog Op Ans R} (hk : ∀ v, ∃ a, k v = .done a) : InSection (.ask unlock k)
  | op {o : Op} {k : Ans o → Prog Op Ans R} (hl : o ≠ lock) (hu : o ≠ unlock) (hk : ∀ v, InSection (k v)) :
    InSection (.ask o k)

/-- An operation on the shared state. -/
def OnState (o : Op) : Prop := o ≠ lock ∧ o ≠ unlock

/-- One section, or one `free` operation, or nothing. -/
inductive Sectioned (free : Op → Prop) : Prog Op Ans R → Prop
  | pure (a : R) : Sectioned free (.done a)
  | locked {k : Ans lock → Prog Op Ans R} (hk : ∀ v, InSection lock unlock (k v)) :
    Sectioned free (.ask lock k)
  | free {o : Op} {k : Ans o → Prog Op Ans R} (ho : free o) (hl : o ≠ lock) (hu : o ≠ unlock)
    (hk : ∀ v, ∃ a, k v = .done a) : Sectioned free (.ask o k)

/-- All calls are sectioned, no section is in the way of a free operation, and alone each call does what `spec`
says to the abstraction of the state. -/
structure Disciplined (spec : J → τ → R × τ) (abs : σ → τ) (free : Op → Prop) : Prop where
  ne : lock ≠ unlock
  sectioned : ∀ j, Sectioned lock unlock free (prog j)
  independent : ∀ o, free o → ∀ j s, (∃ k, prog j = .ask lock k) → Independent h o (prog j) s
  sound : ∀ j s, spec j (abs s) = ((run h (prog j) s).1, abs (run h (prog j) s).2)

/-! ## The simulation -/

/-- A processor outside the section: it has done nothing yet, or everything. -/
inductive Follows : Thread Op Ans J R → Caller J R → Prop
  | idle : Follows .idle .idle
  | called (j : J) : Follows (.active j (prog j)) (.called j)
  | spinning (j : J) : Follows (.spinning j (prog j)) (.called j)
  | served (j : J) (a : R) : Follows (.active j (.done a)) (.served j a)

/-- When the lock is free, all processors are outside.  When it is taken, one of them is inside, and has come
from the state `s` in which it entered to the state `s'`. -/
inductive Stage (threads : ι → Thread Op Ans J R) (callers : ι → Caller J R) : Bool → σ → σ → (ι → Prop) → Prop
  | unlocked (s : σ) : Stage threads callers false s s fun _ => True
  | locked {s s' : σ} {i : ι} {j : J} {r : Prog Op Ans R} (hi : threads i = .active j r)
    (hc : callers i = .called j) (hr : InSection lock unlock r) (hp : Partly h (prog j) s r s')
    (hj : ∃ k, prog j = .ask lock k) : Stage threads callers true s s' fun i' => i' ≠ i

/-- The abstract state is the one in which the section was entered. -/
inductive Sim (abs : σ → τ) : Conf Op Ans σ ι J R → AtomicConf τ ι J R → Prop
  | intro {b : Bool} {s s' : σ} {threads : ι → Thread Op Ans J R} {callers : ι → Caller J R} {P : ι → Prop}
    (hstage : Stage h lock unlock prog threads callers b s s' P)
    (hall : ∀ i, P i → Follows prog (threads i) (callers i)) : Sim abs ⟨b, s', threads⟩ ⟨abs s, callers⟩

end

section

variable {h : Handler Op Ans σ} {lock unlock o : Op} {prog : J → Prog Op Ans R} {spec : J → τ → R × τ}
  {abs : σ → τ} {free : Op → Prop} {threads : ι → Thread Op Ans J R} {callers : ι → Caller J R} {i : ι}
  {P : ι → Prop} {b : Bool} {s s' : σ} {j : J} {t' : Caller J R}

/-! ## Where a processor is -/

theorem not_inSection_done (a : R) : ¬ InSection lock unlock (.done a : Prog Op Ans R) := nofun

/-- A program behind the lock that neither takes nor releases one, and the release. -/
theorem InSection.of_asks {α : Type} {p : Prog Op Ans α} (hp : p.Asks (OnState lock unlock))
    {k : α → Ans unlock → Prog Op Ans R} (hk : ∀ a v, ∃ b, k a v = .done b) :
    InSection lock unlock (p.bind fun a => .ask unlock (k a)) := by
  induction p with
  | done a => exact .release (hk a)
  | ask o k' ih => exact .op hp.1.1 hp.1.2 fun v => ih v (hp.2 v)

theorem Sectioned.of_lock {k : Ans lock → Prog Op Ans R}
    (hp : Sectioned lock unlock free (.ask lock k)) (v : Ans lock) : InSection lock unlock (k v) := by
  cases hp with
  | locked hk => exact hk v
  | free _ hl => exact absurd rfl hl

theorem Sectioned.not_unlock (hne : lock ≠ unlock) {k : Ans unlock → Prog Op Ans R} :
    ¬ Sectioned lock unlock free (.ask unlock k) := by
  intro hp
  cases hp with
  | locked => exact hne rfl
  | free _ _ hu => exact hu rfl

theorem Sectioned.of_op (hl : o ≠ lock) {k : Ans o → Prog Op Ans R} (hp : Sectioned lock unlock free (.ask o k))
    (v : Ans o) : free o ∧ ∃ a, k v = .done a := by
  cases hp with
  | locked => exact absurd rfl hl
  | free ho _ _ hk => exact ⟨ho, hk v⟩

theorem not_inSection_lock (hne : lock ≠ unlock) {k : Ans lock → Prog Op Ans R} :
    ¬ InSection lock unlock (.ask lock k) := by
  intro hr
  cases hr with
  | release => exact hne rfl
  | op hl => exact hl rfl

theorem InSection.of_unlock {k : Ans unlock → Prog Op Ans R} (hr : InSection lock unlock (.ask unlock k))
    (v : Ans unlock) : ∃ a, k v = .done a := by
  cases hr with
  | release hk => exact hk v
  | op _ hu => exact absurd rfl hu

theorem InSection.of_op (hu : o ≠ unlock) {k : Ans o → Prog Op Ans R} (hr : InSection lock unlock (.ask o k))
    (v : Ans o) : InSection lock unlock (k v) := by
  cases hr with
  | release => exact absurd rfl hu
  | op _ _ hk => exact hk v

theorem Follows.idle_eq (hf : Follows prog .idle t') : t' = .idle := by
  cases hf
  rfl

theorem Follows.spinning_eq {p : Prog Op Ans R} (hf : Follows prog (.spinning j p) t') :
    t' = .called j ∧ p = prog j := by
  cases hf
  exact ⟨rfl, rfl⟩

/-- What is left of a call outside the section: all of it, or its return. -/
theorem Follows.active_cases {p : Prog Op Ans R} (hf : Follows prog (.active j p) t') :
    t' = .called j ∧ prog j = p ∨ ∃ a, t' = .served j a ∧ p = .done a := by
  cases hf with
  | called => exact Or.inl ⟨rfl, rfl⟩
  | served j a => exact Or.inr ⟨a, rfl, rfl⟩

/-- A processor outside the section has not started its call, if there is an operation left. -/
theorem Follows.of_ask {k : Ans o → Prog Op Ans R} (hf : Follows prog (.active j (.ask o k)) t') :
    t' = .called j ∧ prog j = .ask o k := by
  rcases hf.active_cases with hf | ⟨a, -, ha⟩
  · exact hf
  · cases ha

/-- A processor outside the section is at the lock or at a free operation. -/
theorem Follows.free_of_ne_lock (hd : Disciplined h lock unlock prog spec abs free) (s : σ)
    {t : Thread Op Ans J R} (hf : Follows prog t t') {k : Ans o → Prog Op Ans R}
    (ht : t = .active j (.ask o k)) (hl : o ≠ lock) : free o := by
  subst ht
  rcases hf.active_cases with ⟨-, hprog⟩ | ⟨a, -, ha⟩
  · have hsec := hd.sectioned j
    rw [hprog] at hsec
    exact (hsec.of_op hl (h o s).1).1
  · cases ha

/-- A processor that is not outside is the one inside. -/
theorem Stage.inside (hstage : Stage h lock unlock prog threads callers b s s' P)
    (hi : ¬ P i) : b = true ∧ ∃ j r, threads i = .active j r ∧ callers i = .called j ∧
      InSection lock unlock r ∧ Partly h (prog j) s r s' ∧ (∃ k, prog j = .ask lock k) ∧ P = fun i' => i' ≠ i := by
  cases hstage with
  | unlocked => exact absurd trivial hi
  | @locked _ _ i₀ _ _ hi₀ hc₀ hr hp hj =>
    obtain rfl : i = i₀ := not_not.mp hi
    exact ⟨rfl, _, _, hi₀, hc₀, hr, hp, hj, rfl⟩

/-- A processor is outside unless it has come into the section. -/
theorem Stage.outside (hstage : Stage h lock unlock prog threads callers b s s' P)
    (hi : ∀ j r, threads i = .active j r → ¬ InSection lock unlock r) : P i := by
  by_contra hno
  obtain ⟨-, j, r, hthread, -, hr, -⟩ := hstage.inside hno
  exact hi j r hthread hr

/-- **Mutual exclusion.**  At most one processor is between the lock and its release. -/
theorem Sim.exclusive (hd : Disciplined h lock unlock prog spec abs free) {c : Conf Op Ans σ ι J R}
    {a : AtomicConf τ ι J R} (hs : Sim h lock unlock prog abs c a) {i i' : ι} {j j' : J} {o o' : Op}
    {k : Ans o → Prog Op Ans R} {k' : Ans o' → Prog Op Ans R} (hi : c.threads i = .active j (.ask o k))
    (hi' : c.threads i' = .active j' (.ask o' k')) (hl : o ≠ lock) (hl' : o' ≠ lock) (hf : ¬ free o)
    (hf' : ¬ free o') : i = i' := by
  obtain @⟨b, s, s', threads, callers, P, hstage, hall⟩ := hs
  have hin : ¬ P i := fun hP => hf ((hall i hP).free_of_ne_lock hd s hi hl)
  have hin' : ¬ P i' := fun hP => hf' ((hall i' hP).free_of_ne_lock hd s hi' hl')
  obtain ⟨-, -, -, -, -, -, -, -, rfl⟩ := hstage.inside hin
  exact (not_not.mp hin').symm

/-- A free operation does not matter to the section that is open. -/
theorem Stage.commute (hd : Disciplined h lock unlock prog spec abs free) (ho : free o)
    (hstage : Stage h lock unlock prog threads callers b s s' P) :
    (h o s').1 = (h o s).1 ∧ Stage h lock unlock prog threads callers b (h o s).2 (h o s').2 P := by
  cases hstage with
  | unlocked => exact ⟨rfl, .unlocked _⟩
  | locked hi hc hr hp hj =>
    obtain ⟨hp', hv⟩ := hp.commute (hd.independent o ho _ s hj)
    exact ⟨hv, .locked hi hc hr hp' hj⟩

variable [DecidableEq ι]

theorem Follows.update {t : Thread Op Ans J R}
    (hall : ∀ i', i' ≠ i → P i' → Follows prog (threads i') (callers i')) (ht : Follows prog t t') :
    ∀ i', P i' → Follows prog (Function.update threads i t i') (Function.update callers i t' i') := by
  intro i' hi'
  by_cases hii : i' = i
  · subst hii
    rwa [Function.update_self, Function.update_self]
  · rw [Function.update_of_ne hii, Function.update_of_ne hii]
    exact hall i' hii hi'

/-- Steps of a processor outside do not matter to the one inside. -/
theorem Stage.update (hstage : Stage h lock unlock prog threads callers b s s' P) (hi : P i)
    (t : Thread Op Ans J R) (t' : Caller J R) :
    Stage h lock unlock prog (Function.update threads i t) (Function.update callers i t') b s s' P := by
  cases hstage with
  | unlocked => exact .unlocked _
  | locked hi₀ hc₀ hr hp hj =>
    refine .locked ?_ ?_ hr hp hj
    · rw [Function.update_of_ne (Ne.symm hi), hi₀]
    · rw [Function.update_of_ne (Ne.symm hi), hc₀]

/-- A processor outside takes a step, and so does its caller, or not. -/
theorem Sim.outside (hstage : Stage h lock unlock prog threads callers b s s' P)
    (hall : ∀ i', P i' → Follows prog (threads i') (callers i')) (hi : P i) {t : Thread Op Ans J R}
    (ht : Follows prog t t') : Sim h lock unlock prog abs ⟨b, s', Function.update threads i t⟩
      ⟨abs s, Function.update callers i t'⟩ :=
  .intro (hstage.update hi t t') (Follows.update (fun i' _ => hall i') ht)

/-- The abstract processor does nothing. -/
theorem Sim.outside_left (hstage : Stage h lock unlock prog threads callers b s s' P)
    (hall : ∀ i', P i' → Follows prog (threads i') (callers i')) (hi : P i) {t : Thread Op Ans J R}
    (ht : Follows prog t (callers i)) : Sim h lock unlock prog abs ⟨b, s', Function.update threads i t⟩
      ⟨abs s, callers⟩ := by
  have hsim : Sim h lock unlock prog abs _ _ := Sim.outside hstage hall hi ht
  rwa [Function.update_eq_self] at hsim

/-! ## Calls are atomic -/

/-- All of the work of a call in one step. -/
theorem serve_trace (hd : Disciplined h lock unlock prog spec abs free) (hi : callers i = .called j) (s : σ) :
    (atomicCalls ι spec).Trace (⟨abs s, callers⟩ : AtomicConf τ ι J R) []
      (⟨abs (run h (prog j) s).2, Function.update callers i (.served j (run h (prog j) s).1)⟩ :
        AtomicConf τ ι J R) := by
  have hstep := Lts.Trace.single (L := atomicCalls ι spec)
    (AtomicStep.serve (c := ⟨abs s, callers⟩) hi)
  rwa [hd.sound] at hstep

/-- **Every step of the processors is a run of atomic calls.** -/
theorem Disciplined.simulates (hd : Disciplined h lock unlock prog spec abs free) :
    Lts.Simulates (processors h lock unlock prog) (atomicCalls ι spec) (Sim h lock unlock prog abs) := by
  rintro _ _ e c' @⟨b, s, s', threads, callers, P, hstage, hall⟩ hstep
  cases hstep with
  | @call i j hi =>
    replace hi : threads i = .idle := hi
    have hP : P i := hstage.outside fun j r hr => by rw [hi] at hr; cases hr
    have hc : callers i = .idle := Follows.idle_eq (hi ▸ hall i hP)
    exact ⟨_, .single (.call j hc), Sim.outside hstage hall hP (.called j)⟩
  | @ret i j a hi =>
    replace hi : threads i = .active j (.done a) := hi
    have hP : P i := hstage.outside fun j' r hr => by
      rw [hi] at hr
      cases hr
      exact not_inSection_done a
    rcases (hi ▸ hall i hP).active_cases with ⟨hc, hprog⟩ | ⟨a', hc, ha⟩
    · -- a call that touches nothing does its work when it returns
      have hserve := serve_trace hd hc s
      rw [hprog] at hserve
      have hret := Lts.Trace.single (L := atomicCalls ι spec)
        (AtomicStep.ret (c := ⟨abs s, Function.update callers i (.served j a)⟩) (Function.update_self ..))
      rw [Function.update_idem] at hret
      exact ⟨_, hserve.trans hret, Sim.outside hstage hall hP .idle⟩
    · cases ha
      exact ⟨_, .single (.ret hc), Sim.outside hstage hall hP .idle⟩
  | @take i j k hi hfree =>
    replace hi : threads i = .active j (.ask lock k) := hi
    obtain rfl : b = false := hfree
    cases hstage
    obtain ⟨hc, hprog⟩ := (hi ▸ hall i trivial).of_ask
    refine ⟨_, .refl _, .intro (P := (· ≠ i)) (.locked (Function.update_self ..) hc
      ((hprog ▸ hd.sectioned j).of_lock _) ?_ ⟨k, hprog⟩) fun i' hi' => ?_⟩
    · rw [hprog]
      exact .head (.refl _ _)
    · rw [Function.update_of_ne hi']
      exact hall i' trivial
  | @fail i j k hi hheld =>
    replace hi : threads i = .active j (.ask lock k) := hi
    have hP : P i := hstage.outside fun j' r hr => by
      rw [hi] at hr
      cases hr
      exact not_inSection_lock hd.ne
    obtain ⟨hc, hprog⟩ := (hi ▸ hall i hP).of_ask
    refine ⟨_, .refl _, Sim.outside_left hstage hall hP ?_⟩
    rw [hc, ← hprog]
    exact .spinning j
  | @pause i j p hi hheld => exact ⟨_, .refl _, .intro hstage hall⟩
  | @retry i j p hi hfree =>
    replace hi : threads i = .spinning j p := hi
    have hP : P i := hstage.outside fun j' r hr => by rw [hi] at hr; cases hr
    obtain ⟨hc, rfl⟩ := (hi ▸ hall i hP).spinning_eq
    refine ⟨_, .refl _, Sim.outside_left hstage hall hP ?_⟩
    rw [hc]
    exact .called j
  | @release i j k hi =>
    replace hi : threads i = .active j (.ask unlock k) := hi
    have hP : ¬ P i := fun hP =>
      Sectioned.not_unlock hd.ne ((hi ▸ hall i hP).of_ask.2 ▸ hd.sectioned j)
    obtain ⟨-, j', r, hi', hc, hr, hp, -, rfl⟩ := hstage.inside hP
    rw [hi] at hi'
    cases hi'
    -- the section ends, and the abstract system does all of it now
    obtain ⟨a, ha⟩ := hr.of_unlock (h unlock s').1
    have hrun := hp.snoc.run_eq
    rw [ha] at hrun
    have hserve := serve_trace hd hc s
    rw [hrun] at hserve
    refine ⟨_, hserve, .intro (.unlocked _) (Follows.update (fun i' hi' _ => hall i' hi') ?_)⟩
    rw [ha]
    exact .served j a
  | @op i j o k hi hl hu =>
    replace hi : threads i = .active j (.ask o k) := hi
    by_cases hP : P i
    · obtain ⟨hc, hprog⟩ := (hi ▸ hall i hP).of_ask
      have hsec := hprog ▸ hd.sectioned j
      obtain ⟨ho, a, ha⟩ := hsec.of_op hl (h o s).1
      obtain ⟨hv, hstage'⟩ := hstage.commute hd ho
      have hserve := serve_trace hd hc s
      have hrun : run h (prog j) s = (a, (h o s).2) := by
        rw [hprog]
        show run h (k (h o s).1) (h o s).2 = _
        rw [ha]
        rfl
      rw [hrun] at hserve
      refine ⟨_, hserve, Sim.outside hstage' hall hP ?_⟩
      show Follows prog (.active j (k (h o s').1)) _
      rw [hv, ha]
      exact .served j a
    · obtain ⟨rfl, j', r, hi', hc, hr, hp, hj, rfl⟩ := hstage.inside hP
      rw [hi] at hi'
      cases hi'
      refine ⟨_, .refl _, .intro (P := (· ≠ i)) (.locked (Function.update_self ..) hc (hr.of_op hu _)
        hp.snoc hj) fun i' hi' => ?_⟩
      rw [Function.update_of_ne hi']
      exact hall i' hi'

/-- Every run of the processors has a run of atomic calls that shows the same. -/
theorem Disciplined.trace (hd : Disciplined h lock unlock prog spec abs free) {s₀ : σ} {t : List (CallEvent ι J R)}
    {c : Conf Op Ans σ ι J R}
    (ht : (processors h lock unlock prog).Trace (⟨false, s₀, fun _ => .idle⟩ : Conf Op Ans σ ι J R) t c) :
    ∃ a, (atomicCalls ι spec).Trace (⟨abs s₀, fun _ => .idle⟩ : AtomicConf τ ι J R) t a ∧
      Sim h lock unlock prog abs c a :=
  hd.simulates.trace (.intro (.unlocked s₀) fun _ _ => .idle) ht

/-- In every state of a run, at most one processor is between the lock and its release. -/
theorem Disciplined.exclusive (hd : Disciplined h lock unlock prog spec abs free) {s₀ : σ}
    {t : List (CallEvent ι J R)} {c : Conf Op Ans σ ι J R}
    (ht : (processors h lock unlock prog).Trace (⟨false, s₀, fun _ => .idle⟩ : Conf Op Ans σ ι J R) t c)
    {i i' : ι} {j j' : J} {o o' : Op} {k : Ans o → Prog Op Ans R} {k' : Ans o' → Prog Op Ans R}
    (hi : c.threads i = .active j (.ask o k)) (hi' : c.threads i' = .active j' (.ask o' k')) (hl : o ≠ lock)
    (hl' : o' ≠ lock) (hf : ¬ free o) (hf' : ¬ free o') : i = i' := by
  obtain ⟨a, -, hsim⟩ := hd.trace ht
  exact hsim.exclusive hd hi hi' hl hl' hf hf'

/-! ## No deadlock -/

/-- The processor in the section comes to its end. -/
theorem InSection.leaves (h : Handler Op Ans σ) (prog : J → Prog Op Ans R) {r : Prog Op Ans R}
    (hr : InSection lock unlock r) : ∀ (s : σ) (threads : ι → Thread Op Ans J R), threads i = .active j r → ∃ s' a,
      (processors h lock unlock prog).Trace (⟨true, s, threads⟩ : Conf Op Ans σ ι J R) []
        (⟨false, s', Function.update threads i (.active j (.done a))⟩ : Conf Op Ans σ ι J R) := by
  induction hr with
  | release hk =>
    intro s threads hi
    obtain ⟨a, ha⟩ := hk (h unlock s).1
    have hstep := Lts.Trace.single (L := processors h lock unlock prog)
      (ProcessorStep.release (c := ⟨true, s, threads⟩) hi)
    exact ⟨_, a, ha ▸ hstep⟩
  | @op o k hl hu hk ih =>
    intro s threads hi
    have hstep := Lts.Trace.single (L := processors h lock unlock prog)
      (ProcessorStep.op (c := ⟨true, s, threads⟩) hi hl hu)
    obtain ⟨s', a, htrace⟩ := ih (h o s).1 (h o s).2 (Function.update threads i (.active j (k (h o s).1)))
      (Function.update_self ..)
    rw [Function.update_idem] at htrace
    exact ⟨s', a, hstep.trans htrace⟩

end

end Interaction
