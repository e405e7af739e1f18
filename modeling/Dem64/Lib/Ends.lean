/-!
# Loops that end

A loop is modelled as a function of a bound on its iterations, with `none` for a bound that is too
small.  `Ends f r` says that `r` is the result of the loop: every bound that is large enough gives
`r`, and no bound gives anything else.  So it can be used both ways, to show that the loop ends and
to read off the result of a run that has ended.
-/

set_option autoImplicit false

universe u v

variable {α : Type u} {β : Type v}

/-- Large bounds give `r`, and no bound gives another result. -/
def Ends (f : Nat → Option α) (r : α) : Prop :=
  (∃ N, ∀ n, N ≤ n → f n = some r) ∧ ∀ n r', f n = some r' → r' = r

namespace Ends

variable {f g : Nat → Option α} {r : α}

theorem const (r : α) : Ends (fun _ => some r) r :=
  ⟨⟨0, fun _ _ => rfl⟩, fun _ _ h => (Option.some.inj h).symm⟩

theorem congr (h : Ends f r) (hfg : ∀ n, g n = f n) : Ends g r := by
  obtain ⟨⟨N, hN⟩, huniq⟩ := h
  exact ⟨⟨N, fun n hn => (hfg n).trans (hN n hn)⟩, fun n r' hr => huniq n r' ((hfg n).symm.trans hr)⟩

/-- A loop with a known number of iterations. -/
theorem of_lt {N : Nat} (h : ∀ n, f n = if N < n then some r else none) : Ends f r := by
  refine ⟨⟨N + 1, fun n hn => ?_⟩, fun n r' hr => ?_⟩
  · rw [h, if_pos (by omega)]
  · rw [h] at hr
    split at hr
    · exact (Option.some.inj hr).symm
    · exact absurd hr (by simp)

/-- A loop whose result does not depend on the bound. -/
theorem of_mono {N : Nat} (hmono : ∀ {n n' : Nat} {r : α}, n ≤ n' → f n = some r → f n' = some r)
    (h : f N = some r) : Ends f r := by
  refine ⟨⟨N, fun n hn => hmono hn h⟩, fun n r' hr => ?_⟩
  have hmax := hmono (Nat.le_max_right N n) hr
  rw [hmono (Nat.le_max_left N n) h] at hmax
  exact (Option.some.inj hmax).symm

/-- The first iteration. -/
theorem step (hzero : f 0 = none) (hsucc : ∀ n, f (n + 1) = g n) (h : Ends g r) : Ends f r := by
  obtain ⟨⟨N, hN⟩, huniq⟩ := h
  refine ⟨⟨N + 1, fun n hn => ?_⟩, fun n r' hr => ?_⟩
  · obtain ⟨n, rfl⟩ := Nat.exists_eq_add_of_le' (Nat.one_le_of_lt hn)
    rw [hsucc]
    exact hN n (by omega)
  · cases n with
    | zero => rw [hzero] at hr; cases hr
    | succ n =>
      rw [hsucc] at hr
      exact huniq n r' hr

/-- One loop after the other. -/
theorem bind {k : Nat → α → Option β} {s : β} (hf : Ends f r) (hk : Ends (fun n => k n r) s) :
    Ends (fun n => (f n).bind (k n)) s := by
  obtain ⟨⟨N, hN⟩, huniq⟩ := hf
  obtain ⟨⟨N', hN'⟩, huniq'⟩ := hk
  refine ⟨⟨N + N', fun n hn => ?_⟩, fun n s' hs => ?_⟩
  · simp only
    rw [hN n (by omega), Option.bind_some]
    exact hN' n (by omega)
  · obtain ⟨r', hr', hs'⟩ := Option.bind_eq_some_iff.mp hs
    obtain rfl := huniq n r' hr'
    exact huniq' n s' hs'

/-- A loop that is a part of another. -/
theorem andThen {k : Nat → α → Option β} {g : Nat → Option β} {s : β} (hg : ∀ n, g n = (f n).bind (k n))
    (hf : Ends f r) (hk : Ends (fun n => k n r) s) : Ends g s :=
  (hf.bind hk).congr hg

/-- A function of the result. -/
theorem map (h : Ends f r) (g : α → β) : Ends (fun n => (f n).map g) (g r) := by
  obtain ⟨⟨N, hN⟩, huniq⟩ := h
  refine ⟨⟨N, fun n hn => congrArg (Option.map g) (hN n hn)⟩, fun n s hs => ?_⟩
  obtain ⟨r', hr', rfl⟩ := Option.map_eq_some_iff.mp hs
  rw [huniq n r' hr']

end Ends
