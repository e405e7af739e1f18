import Dem64.Lib.ByteMemory
import Mathlib.Data.Set.Basic

/-!
# Memory that somebody else writes to

A program that shares memory with a device sees, whenever it looks, what the device has written since it
looked last.  What the device writes is given in advance, look by look (`writes`); this says nothing about
the device, since any behaviour is a list of writes.

Two relations are kept by everything a program does.  `Watched` says where a byte comes from: it is as it
was, or the device wrote it, or it is in the part that the program writes.  `Agree` compares two runs: what
agreed keeps agreeing, and what the device has written agrees too.
-/

set_option autoImplicit false

namespace SharedMemory

open ByteMemory

/-- Memory, and how often it has been looked at. -/
structure Shared where
  /-- The bytes. -/
  memory : Nat → BitVec 8
  /-- How often. -/
  clock : Nat

/-- The device writes these bytes. -/
def poke (memory : Nat → BitVec 8) : List (Nat × BitVec 8) → Nat → BitVec 8
  | [] => memory
  | (a, b) :: l => poke (Function.update memory a b) l

/-- The program looks. -/
def Shared.look (writes : Nat → List (Nat × BitVec 8)) (w : Shared) : Shared :=
  ⟨poke w.memory (writes w.clock), w.clock + 1⟩

/-- The program looks at a word. -/
def Shared.read32 (writes : Nat → List (Nat × BitVec 8)) (w : Shared) (a : Nat) : BitVec 32 × Shared :=
  (load32 (w.look writes).memory a, w.look writes)

/-- The program writes words. -/
def Shared.write (w : Shared) (a : Nat) (ws : List (BitVec 32)) : Shared :=
  { w with memory := putWords w.memory a ws }

/-- Since `w`, the program has written in `D` only. -/
structure Watched (writes : Nat → List (Nat × BitVec 8)) (D : Set Nat) (w w' : Shared) : Prop where
  /-- Time goes on. -/
  clock_le : w.clock ≤ w'.clock
  /-- Elsewhere, every byte is an old one or one of the device. -/
  origin : ∀ a, a ∉ D → w'.memory a = w.memory a ∨
    ∃ t, w.clock ≤ t ∧ t < w'.clock ∧ (a, w'.memory a) ∈ writes t

/-- Two runs agree on `S` and on what the device has written. -/
structure Agree (writes : Nat → List (Nat × BitVec 8)) (S : Set Nat) (w w' : Shared) : Prop where
  /-- They have come equally far. -/
  clock_eq : w'.clock = w.clock
  /-- The bytes on which they agree. -/
  memory_eq : ∀ a, (a ∈ S ∨ ∃ t b, t < w.clock ∧ (a, b) ∈ writes t) → w'.memory a = w.memory a

section

variable {writes : Nat → List (Nat × BitVec 8)} {D S : Set Nat} {w w' w'' : Shared}
  {memory memory' : Nat → BitVec 8} {l : List (Nat × BitVec 8)} {a n : Nat} {ws : List (BitVec 32)}

theorem poke_origin : poke memory l a = memory a ∨ (a, poke memory l a) ∈ l := by
  induction l generalizing memory with
  | nil => exact .inl rfl
  | cons x l ih =>
    obtain ⟨c, b⟩ := x
    rw [poke]
    rcases @ih (Function.update memory c b) with h | h
    · by_cases hac : a = c
      · right
        rw [h, hac, Function.update_self]
        exact List.mem_cons_self
      · exact .inl (h.trans (Function.update_of_ne hac _ _))
    · exact .inr (List.mem_cons_of_mem _ h)

theorem poke_congr (h : memory' a = memory a ∨ ∃ b, (a, b) ∈ l) : poke memory' l a = poke memory l a := by
  induction l generalizing memory memory' with
  | nil =>
    rcases h with h | ⟨b, h⟩
    · exact h
    · simp at h
  | cons x l ih =>
    obtain ⟨c, b⟩ := x
    rw [poke, poke]
    apply ih
    by_cases hac : a = c
    · left
      rw [hac, Function.update_self, Function.update_self]
    · rw [Function.update_of_ne hac, Function.update_of_ne hac]
      rcases h with h | ⟨b', h⟩
      · exact .inl h
      · rcases List.mem_cons.mp h with h | h
        · exact absurd (Prod.mk.inj h).1 hac
        · exact .inr ⟨b', h⟩

theorem Watched.refl (w : Shared) : Watched writes D w w := ⟨le_refl _, fun _ _ => .inl rfl⟩

theorem Watched.trans (h : Watched writes D w w') (h' : Watched writes D w' w'') :
    Watched writes D w w'' where
  clock_le := h.clock_le.trans h'.clock_le
  origin a ha := by
    rcases h'.origin a ha with he | ⟨t, h1, h2, h3⟩
    · rw [he]
      rcases h.origin a ha with he | ⟨t, h1, h2, h3⟩
      · exact .inl he
      · exact .inr ⟨t, h1, h2.trans_le h'.clock_le, h3⟩
    · exact .inr ⟨t, h.clock_le.trans h1, h2, h3⟩

theorem watched_look (w : Shared) : Watched writes D w (w.look writes) where
  clock_le := Nat.le_succ _
  origin a _ := by
    rcases @poke_origin w.memory (writes w.clock) a with h | h
    · exact .inl h
    · exact .inr ⟨w.clock, le_refl _, Nat.lt_succ_self _, h⟩

theorem watched_write (h : ∀ x, a ≤ x → x < a + 4 * ws.length → x ∈ D) :
    Watched writes D w (w.write a ws) where
  clock_le := le_refl _
  origin x hx := by
    left
    refine sameOn_putWords (n := 1) ?_ x (le_refl x) (Nat.lt_succ_self x)
    by_contra hno
    exact hx (h x (by omega) (by omega))

/-- Before the device has written anything, two runs agree on what is the same. -/
theorem agree_start (hw : w.clock = 0) (hw' : w'.clock = 0) :
    Agree writes {a | w'.memory a = w.memory a} w w' where
  clock_eq := hw'.trans hw.symm
  memory_eq a ha := by
    rcases ha with ha | ⟨t, b, ht, -⟩
    · exact ha
    · rw [hw] at ht
      exact absurd ht (Nat.not_lt_zero t)

theorem Agree.look (h : Agree writes S w w') : Agree writes S (w.look writes) (w'.look writes) where
  clock_eq := congrArg (· + 1) h.clock_eq
  memory_eq a ha := by
    show poke w'.memory (writes w'.clock) a = poke w.memory (writes w.clock) a
    rw [h.clock_eq]
    apply poke_congr
    rcases ha with ha | ⟨t, b, ht, hb⟩
    · exact .inl (h.memory_eq a (.inl ha))
    · rcases Nat.lt_succ_iff_lt_or_eq.mp ht with ht | rfl
      · exact .inl (h.memory_eq a (.inr ⟨t, b, ht, hb⟩))
      · exact .inr ⟨b, hb⟩

theorem Agree.read32 (h : Agree writes S w w') (ha : ∀ x, a ≤ x → x < a + 4 → x ∈ S) :
    (w'.read32 writes a).1 = (w.read32 writes a).1 ∧
      Agree writes S (w.read32 writes a).2 (w'.read32 writes a).2 :=
  ⟨load32_congr fun x h1 h2 => h.look.memory_eq x (.inl (ha x h1 h2)), h.look⟩

theorem Agree.write (h : Agree writes S w w') : Agree writes S (w.write a ws) (w'.write a ws) where
  clock_eq := h.clock_eq
  memory_eq x hx := by
    show putBytes w'.memory a _ x = putBytes w.memory a _ x
    exact putBytes_congr (.inl (h.memory_eq x hx))

end

end SharedMemory
