import Mathlib.Data.List.Basic
import Mathlib.Tactic.Common

/-!
# Segments of the addresses

A list of segments says of some addresses of which kind they are (`meaning`).  Many lists say the same.  Among them one
is `Normal`: its segments are in order, none is empty, and no two in a row could be one.  `Normal.ext` says
that there is at most one, so a program that leaves a canonical list has found the normal form of what it was given.
-/

set_option autoImplicit false

namespace Segments

variable {κ : Type}

/-- The addresses from `lo` up to `hi`, which are of one kind. -/
@[ext] structure Segment (κ : Type) where
  lo : Nat
  hi : Nat
  kind : κ
  deriving DecidableEq

/-- The kind of an address. -/
def meaning : List (Segment κ) → Nat → Option κ
  | [], _ => none
  | s :: l, a => if s.lo ≤ a ∧ a < s.hi then some s.kind else meaning l a

/-- No address is in both. -/
def Apart (s t : Segment κ) : Prop := ∀ a, s.lo ≤ a → a < s.hi → ¬ (t.lo ≤ a ∧ a < t.hi)

/-- The normal form. -/
def Normal : List (Segment κ) → Prop
  | [] => True
  | s :: l => s.lo < s.hi ∧ (∀ t, l.head? = some t → s.hi ≤ t.lo ∧ (s.hi = t.lo → s.kind ≠ t.kind)) ∧ Normal l

variable {l l' : List (Segment κ)} {s t : Segment κ} {a : Nat} {k : κ}

theorem Apart.symm (h : Apart s t) : Apart t s := fun a h₁ h₂ hs => h a hs.1 hs.2 ⟨h₁, h₂⟩

theorem meaning_cons : meaning (s :: l) a = if s.lo ≤ a ∧ a < s.hi then some s.kind else meaning l a := rfl

/-- An address of a segment that is apart from the others is of the kind of this segment. -/
theorem meaning_eq_some_iff (h : l.Pairwise Apart) :
    meaning l a = some k ↔ ∃ s ∈ l, s.lo ≤ a ∧ a < s.hi ∧ s.kind = k := by
  induction l with
  | nil => simp [meaning]
  | cons s l ih =>
    obtain ⟨hs, hl⟩ := List.pairwise_cons.mp h
    rw [meaning_cons, List.exists_mem_cons_iff]
    split
    · next hin =>
      constructor
      · intro hk
        exact .inl ⟨hin.1, hin.2, Option.some_inj.mp hk⟩
      · rintro (⟨-, -, rfl⟩ | ⟨t, ht, h₁, h₂, -⟩)
        · rfl
        · exact absurd ⟨h₁, h₂⟩ (hs t ht a hin.1 hin.2)
    · next hout =>
      rw [ih hl]
      constructor
      · exact .inr
      · rintro (⟨h₁, h₂, -⟩ | h)
        · exact absurd ⟨h₁, h₂⟩ hout
        · exact h

theorem Normal.tail (h : Normal (s :: l)) : Normal l := h.2.2

/-- The others lie behind the first one. -/
theorem Normal.behind (h : Normal (s :: l)) : ∀ t ∈ l, s.hi ≤ t.lo := by
  induction l generalizing s with
  | nil => exact fun _ ht => absurd ht List.not_mem_nil
  | cons t l ih =>
    obtain ⟨hle, -⟩ := h.2.1 t rfl
    intro u hu
    rcases List.mem_cons.mp hu with rfl | hu
    · exact hle
    · have hbehind := ih h.tail u hu
      have hpos := h.tail.1
      omega

theorem meaning_eq_none (h : ∀ t ∈ l, a < t.lo) : meaning l a = none := by
  induction l with
  | nil => rfl
  | cons t l ih =>
    have hlt := h t List.mem_cons_self
    rw [meaning_cons, if_neg (by omega), ih fun u hu => h u (List.mem_cons_of_mem _ hu)]

theorem meaning_first (h₁ : s.lo ≤ a) (h₂ : a < s.hi) :
    meaning (s :: l) a = some s.kind := by rw [meaning_cons, if_pos ⟨h₁, h₂⟩]

theorem Normal.meaning_before (h : Normal (s :: l)) (ha : a < s.lo) : meaning (s :: l) a = none := by
  refine meaning_eq_none fun t ht => ?_
  rcases List.mem_cons.mp ht with rfl | ht
  · exact ha
  · have hbehind := h.behind t ht
    have hpos := h.1
    omega

/-- Behind the first segment comes something else. -/
theorem Normal.meaning_end (h : Normal (s :: l)) : meaning (s :: l) s.hi ≠ some s.kind := by
  rw [meaning_cons, if_neg (by omega)]
  cases l with
  | nil => exact nofun
  | cons t l =>
    obtain ⟨hle, hne⟩ := h.2.1 t rfl
    rcases Nat.eq_or_lt_of_le hle with heq | hlt
    · rw [heq, meaning_first (Nat.le_refl _) h.tail.1]
      exact fun hk => hne heq (Option.some_inj.mp hk).symm
    · rw [h.tail.meaning_before hlt]
      exact nofun

/-- The first segments are the same. -/
theorem Normal.hi_le (h : Normal (s :: l)) (hlo : s.lo = t.lo) (hkind : s.kind = t.kind)
    (heq : ∀ a, meaning (s :: l) a = meaning (t :: l') a) : t.hi ≤ s.hi := by
  by_contra hlt
  refine h.meaning_end ?_
  have hpos := h.1
  rw [heq, meaning_first (by omega) (by omega), hkind]

/-- **There is one normal form.** -/
theorem Normal.ext (h : Normal l) (h' : Normal l') (heq : ∀ a, meaning l a = meaning l' a) : l = l' := by
  induction l generalizing l' with
  | nil =>
    cases l' with
    | nil => rfl
    | cons t l' =>
      have hfirst := heq t.lo
      rw [meaning_first (Nat.le_refl _) h'.1] at hfirst
      exact absurd hfirst nofun
  | cons s l ih =>
    cases l' with
    | nil =>
      have hfirst := heq s.lo
      rw [meaning_first (Nat.le_refl _) h.1] at hfirst
      exact absurd hfirst nofun
    | cons t l' =>
      have hlo : s.lo = t.lo := by
        rcases Nat.lt_trichotomy s.lo t.lo with hlt | heq' | hlt
        · have hs := heq s.lo
          rw [meaning_first (Nat.le_refl _) h.1, h'.meaning_before hlt] at hs
          exact absurd hs nofun
        · exact heq'
        · have ht := heq t.lo
          rw [meaning_first (Nat.le_refl _) h'.1, h.meaning_before hlt] at ht
          exact absurd ht nofun
      have hkind : s.kind = t.kind := by
        have hs := heq s.lo
        rw [meaning_first (Nat.le_refl _) h.1, hlo, meaning_first (Nat.le_refl _) h'.1] at hs
        exact Option.some_inj.mp hs
      have hst : s = t := Segment.ext hlo
        (Nat.le_antisymm (h'.hi_le hlo.symm hkind.symm fun a => (heq a).symm) (h.hi_le hlo hkind heq)) hkind
      subst hst
      refine congrArg _ (ih h.tail h'.tail fun a => ?_)
      rcases Nat.lt_or_ge a s.hi with hlt | hge
      · rw [meaning_eq_none fun u hu => Nat.lt_of_lt_of_le hlt (h.behind u hu),
          meaning_eq_none fun u hu => Nat.lt_of_lt_of_le hlt (h'.behind u hu)]
      · have ha := heq a
        rwa [meaning_cons, meaning_cons, if_neg (by omega), if_neg (by omega)] at ha

end Segments
