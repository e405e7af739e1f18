import Mathlib.Order.Basic

/-!
# Loops with a bound that does not matter

A loop that follows pointers is modelled as a function of a bound on its iterations, which fails
when the bound is too small.  Such a function is `Fueled`: once it gives a result, a larger bound
gives the same one.  `Settles f r` says that it does give the result `r`, for every bound that is
large enough; that is what "the loop ends with `r`" means.

Both notions go through `bind`, so they are proved of the loops and follow for what is made of them.
-/

set_option autoImplicit false

universe u v

variable {ε : Type u} {α β : Type v}

/-- A result stays the same when the bound grows. -/
def Fueled (f : Nat → Except ε α) : Prop := ∀ n r, f n = .ok r → f (n + 1) = .ok r

/-- Every bound that is large enough gives the result `r`. -/
def Settles (f : Nat → Except ε α) (r : α) : Prop := ∃ N, ∀ n, N ≤ n → f n = .ok r

/-- A computation succeeds when its parts do. -/
theorem bind_eq_ok_iff {x : Except ε α} {k : α → Except ε β} {r : β} :
    x >>= k = .ok r ↔ ∃ a, x = .ok a ∧ k a = .ok r := by
  cases x with
  | error e =>
    constructor
    · intro h
      cases h
    · rintro ⟨a, h, -⟩
      cases h
  | ok a =>
    refine ⟨fun h => ⟨a, rfl, h⟩, ?_⟩
    rintro ⟨b, hb, h⟩
    cases hb
    exact h

/-- A computation fails when one of its parts does. -/
theorem bind_eq_error_iff {x : Except ε α} {k : α → Except ε β} {e : ε} :
    x >>= k = .error e ↔ x = .error e ∨ ∃ a, x = .ok a ∧ k a = .error e := by
  cases x with
  | error e' =>
    constructor
    · intro h
      cases h
      exact .inl rfl
    · rintro (h | ⟨a, h, -⟩)
      · cases h
        rfl
      · cases h
  | ok a =>
    refine ⟨fun h => .inr ⟨a, rfl, h⟩, ?_⟩
    rintro (h | ⟨b, hb, h⟩)
    · cases h
    · cases hb
      exact h

/-- A computation succeeds, and its result passes the test. -/
def passes (p : α → Bool) : Except ε α → Bool
  | .ok a => p a
  | .error _ => false

theorem exists_of_passes {p : α → Bool} {x : Except ε α} (h : passes p x = true) :
    ∃ a, x = .ok a ∧ p a = true := by
  cases x with
  | error e => exact absurd h Bool.false_ne_true
  | ok a => exact ⟨a, rfl, h⟩

namespace Fueled

theorem const (x : Except ε α) : Fueled fun _ => x := fun _ _ h => h

theorem bind {f : Nat → Except ε α} {g : α → Nat → Except ε β} (hf : Fueled f)
    (hg : ∀ a, Fueled (g a)) : Fueled fun n => f n >>= fun a => g a n := by
  intro n r h
  obtain ⟨a, ha, hr⟩ := bind_eq_ok_iff.mp h
  exact bind_eq_ok_iff.mpr ⟨a, hf n a ha, hg a n r hr⟩

theorem ite {p : Prop} [Decidable p] {f g : Nat → Except ε α} (hf : Fueled f) (hg : Fueled g) :
    Fueled fun n => if p then f n else g n := by
  by_cases hp : p
  · simpa only [if_pos hp] using hf
  · simpa only [if_neg hp] using hg

/-- **A result that is found once is the result.** -/
theorem settles {f : Nat → Except ε α} (hf : Fueled f) {n : Nat} {r : α} (h : f n = .ok r) :
    Settles f r := by
  refine ⟨n, fun m hm => ?_⟩
  induction hm with
  | refl => exact h
  | step _ ih => exact hf _ r ih

end Fueled

namespace Settles

variable {f f' : Nat → Except ε α} {r r' : α}

theorem const (r : α) : Settles (fun _ => (.ok r : Except ε α)) r := ⟨0, fun _ _ => rfl⟩

theorem unique (h : Settles f r) (h' : Settles f r') : r = r' := by
  obtain ⟨N, hN⟩ := h
  obtain ⟨N', hN'⟩ := h'
  have h1 := hN (N + N') (by omega)
  rw [hN' (N + N') (by omega)] at h1
  exact (Except.ok.inj h1).symm

theorem congr (h : Settles f r) (heq : ∀ n, f' n = f n) : Settles f' r := by
  obtain ⟨N, hN⟩ := h
  exact ⟨N, fun n hn => (heq n).trans (hN n hn)⟩

theorem bind {g : α → Nat → Except ε β} {a : α} {r : β} (hf : Settles f a) (hg : Settles (g a) r) :
    Settles (fun n => f n >>= fun a => g a n) r := by
  obtain ⟨N, hN⟩ := hf
  obtain ⟨N', hN'⟩ := hg
  refine ⟨N + N', fun n hn => bind_eq_ok_iff.mpr ⟨a, hN n (by omega), hN' n (by omega)⟩⟩

/-- What follows a computation that ends decides the result. -/
theorem bind_iff {g : α → Nat → Except ε β} {a : α} {r : β} (hf : Settles f a) :
    Settles (fun n => f n >>= fun a => g a n) r ↔ Settles (g a) r := by
  refine ⟨fun h => ?_, fun h => hf.bind h⟩
  obtain ⟨N, hN⟩ := hf
  obtain ⟨N', hN'⟩ := h
  refine ⟨N + N', fun n hn => ?_⟩
  obtain ⟨b, hb, hr⟩ := bind_eq_ok_iff.mp (hN' n (by omega))
  obtain rfl := Except.ok.inj ((hN n (by omega)).symm.trans hb)
  exact hr

/-- What never ends has no result. -/
theorem not_of_error (h : ∀ n, ∃ e, f n = .error e) : ¬ Settles f r := by
  rintro ⟨N, hN⟩
  obtain ⟨e, he⟩ := h N
  rw [hN N (Nat.le_refl N)] at he
  exact absurd he (by simp)

/-- One iteration of a loop. -/
theorem succ (h : Settles f r) (hstep : ∀ n, f' (n + 1) = f n) : Settles f' r := by
  obtain ⟨N, hN⟩ := h
  refine ⟨N + 1, fun n hn => ?_⟩
  obtain ⟨m, rfl⟩ : ∃ m, n = m + 1 := ⟨n - 1, by omega⟩
  rw [hstep]
  exact hN m (by omega)

/-- The last iteration of a loop. -/
theorem of_succ (hstep : ∀ n, f (n + 1) = .ok r) : Settles f r := by
  refine ⟨1, fun n hn => ?_⟩
  obtain ⟨m, rfl⟩ : ∃ m, n = m + 1 := ⟨n - 1, by omega⟩
  exact hstep m

end Settles
