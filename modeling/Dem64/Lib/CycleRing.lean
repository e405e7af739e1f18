import Mathlib.Data.List.Range
import Mathlib.Data.Nat.ModEq

/-!
# Rings with a cycle bit

A producer and a consumer that share a ring of entries without sharing an index: every entry carries a
cycle, the consumer takes the entry it stands at when that entry's cycle is its own, and stops
otherwise.  An entry can be a link, which leads back to the first entry and may change the consumer's
cycle.  Then everything that is left over from the traversal before has the wrong cycle.
-/

set_option autoImplicit false

namespace CycleRing

variable {α β : Type}

/-- How the entries of a ring are read. -/
structure Format (α β : Type) where
  /-- The cycle of an entry. -/
  cycle : α → β
  /-- For a link: what it does to the consumer's cycle. -/
  link : α → Option (β → β)

/-- Where a consumer stands. -/
structure Consumer (β : Type) where
  /-- The entry it looks at next. -/
  index : Nat
  /-- The cycle it waits for. -/
  cycle : β
deriving DecidableEq

/-- The ring with a new entry at `i`. -/
def write (ring : Nat → α) (i : Nat) (x : α) : Nat → α := fun j => if j = i then x else ring j

@[simp] theorem write_self (ring : Nat → α) (i : Nat) (x : α) : write ring i x i = x := if_pos rfl

theorem write_of_ne {ring : Nat → α} {i j : Nat} {x : α} (h : j ≠ i) : write ring i x j = ring j :=
  if_neg h

/-- Where the consumer stands after it has taken an entry. -/
def next (F : Format α β) (ring : Nat → α) (c : Consumer β) : Consumer β :=
  match F.link (ring c.index) with
  | some toggle => ⟨0, toggle c.cycle⟩
  | none => ⟨c.index + 1, c.cycle⟩

/-- The consumer takes nothing more. -/
def Stopped (F : Format α β) (ring : Nat → α) (c : Consumer β) : Prop :=
  F.cycle (ring c.index) ≠ c.cycle

/-- At most `n` entries are taken, with their indices, until the consumer stops. -/
def drain [DecidableEq β] (F : Format α β) (ring : Nat → α) :
    Nat → Consumer β → List (Nat × α) × Consumer β
  | 0, c => ([], c)
  | n + 1, c =>
    if F.cycle (ring c.index) = c.cycle then
      let r := drain F ring n (next F ring c)
      ((c.index, ring c.index) :: r.1, r.2)
    else ([], c)

/-- The entries `i`, …, `i + k - 1` of the ring. -/
def segment (ring : Nat → α) (i k : Nat) : List (Nat × α) := (List.range' i k).map fun j => (j, ring j)

theorem segment_succ (ring : Nat → α) (i k : Nat) :
    segment ring i (k + 1) = (i, ring i) :: segment ring (i + 1) k := by
  rw [segment, List.range'_succ, List.map_cons, segment]

theorem mem_segment {ring : Nat → α} {i k : Nat} {p : Nat × α} (h : p ∈ segment ring i k) :
    ∃ j, i ≤ j ∧ j < i + k ∧ p = (j, ring j) := by
  obtain ⟨j, hj, rfl⟩ := List.mem_map.mp h
  obtain ⟨h1, h2⟩ := List.mem_range'_1.mp hj
  exact ⟨j, h1, h2, rfl⟩

section

variable [DecidableEq β] {F : Format α β} {ring : Nat → α} {c : Consumer β} {n : Nat}

theorem drain_stopped (h : Stopped F ring c) : drain F ring n c = ([], c) := by
  cases n with
  | zero => rfl
  | succ n => exact if_neg h

theorem drain_succ (h : F.cycle (ring c.index) = c.cycle) : drain F ring (n + 1) c =
    ((c.index, ring c.index) :: (drain F ring n (next F ring c)).1, (drain F ring n (next F ring c)).2) :=
  if_pos h

/-- The consumer takes a link. -/
theorem drain_link {toggle : β → β} (h : F.cycle (ring c.index) = c.cycle)
    (hl : F.link (ring c.index) = some toggle) : drain F ring (n + 1) c =
    ((c.index, ring c.index) :: (drain F ring n ⟨0, toggle c.cycle⟩).1,
      (drain F ring n ⟨0, toggle c.cycle⟩).2) := by
  rw [drain_succ h, next, hl]

/-- **The consumer takes a segment whose entries all have its cycle.** -/
theorem drain_segment {cy : β} : ∀ {k i : Nat}, (∀ j, i ≤ j → j < i + k →
      F.cycle (ring j) = cy ∧ F.link (ring j) = none) →
    drain F ring (n + k) ⟨i, cy⟩ = (segment ring i k ++ (drain F ring n ⟨i + k, cy⟩).1,
      (drain F ring n ⟨i + k, cy⟩).2)
  | 0, i, _ => by simp [segment]
  | k + 1, i, h => by
    obtain ⟨hc, hl⟩ := h i (le_refl i) (by omega)
    have ih := drain_segment (k := k) (i := i + 1) fun j h1 h2 => h j (by omega) (by omega)
    rw [← Nat.add_assoc, drain_succ hc, next, hl, ih, segment_succ, Nat.add_right_comm i 1 k]
    rfl

end

/-! ## A ring as a queue

Without a link, the entry after the last one is the first one, and the cycle says in which traversal an
entry was written.  `r` counts the entries that were ever taken, so that the next one is at `r % N`, in
traversal `r / N`. -/

/-- The entries of `xs` are in the ring and not yet taken; `phase t` is the cycle of traversal `t`. -/
structure IsQueue (cycle : α → β) (phase : Nat → β) (N : Nat) (ring : Nat → α) (r : Nat)
    (xs : List α) : Prop where
  /-- There is room for them. -/
  length_le : xs.length ≤ N
  /-- They are there, with the cycle of their traversal. -/
  unread : ∀ k (h : k < xs.length), ring ((r + k) % N) = xs[k] ∧ cycle xs[k] = phase ((r + k) / N)
  /-- Everything else has the cycle of the traversal before. -/
  stale : ∀ k, xs.length ≤ k → k < N → cycle (ring ((r + k) % N)) ≠ phase ((r + k) / N)

section

variable {cycle : α → β} {phase : Nat → β} {N r : Nat} {ring : Nat → α} {x : α} {xs : List α}

/-- The consumer sees whether there is something. -/
theorem IsQueue.cycle_eq_iff (h : IsQueue cycle phase N ring r xs) (hN : 0 < N) :
    cycle (ring (r % N)) = phase (r / N) ↔ xs ≠ [] := by
  constructor
  · rintro heq rfl
    exact h.stale 0 (le_refl 0) hN heq
  · intro hne
    obtain ⟨h1, h2⟩ := h.unread 0 (List.length_pos_iff.mpr hne)
    rw [Nat.add_zero] at h1 h2
    rw [h1, h2]

theorem IsQueue.head (h : IsQueue cycle phase N ring r (x :: xs)) : ring (r % N) = x :=
  (h.unread 0 (Nat.succ_pos _)).1

/-- The consumer takes an entry. -/
theorem IsQueue.pop (h : IsQueue cycle phase N ring r (x :: xs)) (hphase : ∀ t, phase t ≠ phase (t + 1)) :
    IsQueue cycle phase N ring (r + 1) xs := by
  have hlen := h.length_le
  rw [List.length_cons] at hlen
  refine ⟨by omega, fun k hk => ?_, fun k h1 h2 => ?_⟩
  · obtain ⟨ha, hb⟩ := h.unread (k + 1) (Nat.succ_lt_succ hk)
    rw [show r + 1 + k = r + (k + 1) by omega]
    exact ⟨ha, hb⟩
  · rw [show r + 1 + k = r + (k + 1) by omega]
    by_cases hlast : k + 1 < N
    · exact h.stale (k + 1) (by rw [List.length_cons]; omega) hlast
    · -- the entry that was taken
      obtain ⟨ha, hb⟩ := h.unread 0 (Nat.succ_pos _)
      rw [show r + (k + 1) = r + N by omega, Nat.add_mod_right, Nat.add_div_right _ (by omega),
        ← Nat.add_zero r, ha, hb]
      exact hphase _

theorem mod_ne {i j : Nat} (hi : i < N) (hj : j < N) (h : i ≠ j) : (r + i) % N ≠ (r + j) % N := by
  intro heq
  have hmod : i ≡ j [MOD N] := Nat.ModEq.add_left_cancel' r heq
  exact h (Nat.ModEq.eq_of_lt_of_lt hmod hi hj)

/-- The producer puts an entry behind the others. -/
theorem IsQueue.push (h : IsQueue cycle phase N ring r xs) (hlen : xs.length < N)
    (hx : cycle x = phase ((r + xs.length) / N)) :
    IsQueue cycle phase N (write ring ((r + xs.length) % N) x) r (xs ++ [x]) := by
  have hlen' : (xs ++ [x]).length = xs.length + 1 := by simp
  refine ⟨by omega, fun k hk => ?_, fun k h1 h2 => ?_⟩
  · by_cases hk' : k < xs.length
    · rw [write_of_ne (mod_ne (by omega) hlen (by omega)), List.getElem_append_left hk']
      exact h.unread k hk'
    · obtain rfl : k = xs.length := by omega
      rw [write_self, List.getElem_concat_length rfl]
      exact ⟨rfl, hx⟩
  · rw [write_of_ne (mod_ne h2 hlen (by omega))]
    exact h.stale k (by omega) h2

/-- Entries that are not in the queue may change, as long as they keep their cycle. -/
theorem IsQueue.overwrite (h : IsQueue cycle phase N ring r xs) {k : Nat} (hlen : xs.length ≤ k) (hk : k < N)
    (hx : cycle x = cycle (ring ((r + k) % N))) :
    IsQueue cycle phase N (write ring ((r + k) % N) x) r xs := by
  refine ⟨h.length_le, fun j hj => ?_, fun j h1 h2 => ?_⟩
  · rw [write_of_ne (mod_ne (by omega) hk (by omega))]
    exact h.unread j hj
  · by_cases hjk : j = k
    · subst hjk
      rw [write_self, hx]
      exact h.stale j h1 h2
    · rw [write_of_ne (mod_ne h2 hk hjk)]
      exact h.stale j h1 h2

/-- What is behind the entries does not matter. -/
theorem IsQueue.congr {ring' : Nat → α} (h : IsQueue cycle phase N ring r xs)
    (hring : ∀ i, i < N → ring' i = ring i) (hN : 0 < N) : IsQueue cycle phase N ring' r xs where
  length_le := h.length_le
  unread k hk := by
    rw [hring _ (Nat.mod_lt _ hN)]
    exact h.unread k hk
  stale k h1 h2 := by
    rw [hring _ (Nat.mod_lt _ hN)]
    exact h.stale k h1 h2

/-- The index behind the last entry is the first one, in the next traversal. -/
theorem next_index (hN : 0 < N) : (r + 1) % N = (if r % N + 1 = N then 0 else r % N + 1) ∧
    (r + 1) / N = (if r % N + 1 = N then r / N + 1 else r / N) := by
  have hlt := Nat.mod_lt r hN
  have hdiv := Nat.div_add_mod r N
  split
  · rename_i heq
    have hr : r + 1 = N * (r / N + 1) := by rw [Nat.mul_add]; omega
    rw [hr, Nat.mul_mod_right, Nat.mul_div_cancel_left _ hN]
    exact ⟨rfl, rfl⟩
  · rename_i hne
    have hr : r + 1 = (r % N + 1) + N * (r / N) := by omega
    constructor
    · conv_lhs => rw [hr]
      rw [Nat.add_mul_mod_self_left, Nat.mod_eq_of_lt (by omega)]
    · conv_lhs => rw [hr]
      rw [Nat.add_mul_div_left _ _ hN, Nat.div_eq_of_lt (by omega), Nat.zero_add]

end

end CycleRing
