import Mathlib.Data.Finset.Card

/-!
# Chains of links

A chain is what a start and the links `next` lead to.  It may end, and it may run in a cycle.  What is looked for is
the first node with a property (`First`).

`search` follows the links for a bounded number of nodes.  A chain has no more nodes than there are, so a bound
as large as their number cuts nothing off, cycles or not (`search_eq_iff_first`).  Without such a bound a walk comes to
an end when there is a first node or the chain ends, and on no other chain (`exists_search_iff`).
-/

set_option autoImplicit false

namespace Chain

variable {α : Type} (next : α → Option α)

/-- The node `n` links behind the start. -/
def node (start : Option α) : Nat → Option α
  | 0 => start
  | n + 1 => (node start n).bind next

variable (p : α → Prop)

/-- The node `n` links behind the start has the property, and none before it. -/
def FirstAt (start : Option α) (n : Nat) (a : α) : Prop :=
  node next start n = some a ∧ p a ∧ ∀ m < n, ∀ b, node next start m = some b → ¬ p b

/-- The node `n` links behind the start has none with the property before it: a search gets there. -/
def ReachedAt (start : Option α) (n : Nat) (a : α) : Prop :=
  node next start n = some a ∧ ∀ m < n, ∀ b, node next start m = some b → ¬ p b

/-- The first node with the property. -/
def First (start : Option α) (a : α) : Prop := ∃ n, FirstAt next p start n a

/-- The chain has a last node. -/
def Stops (start : Option α) : Prop := ∃ n, node next start n = none

/-- The walk along `n` nodes at most: what it has found, unless it has been cut off. -/
def search [DecidablePred p] : Nat → Option α → Option (Option α)
  | _, none => some none
  | 0, some _ => none
  | n + 1, some a => if p a then some (some a) else search n (next a)

/-- The nodes that a search looks at. -/
def visited [DecidablePred p] : Nat → Option α → List α
  | _, none => []
  | 0, some _ => []
  | n + 1, some a => a :: if p a then [] else visited n (next a)

variable {next p} {start : Option α} {a b : α} {n m : Nat}

theorem node_succ : node next start (n + 1) = node next (start.bind next) n := by
  induction n with
  | zero => rfl
  | succ n ih => exact congrArg (·.bind next) ih

theorem node_add : node next start (n + m) = node next (node next start n) m := by
  induction m with
  | zero => rfl
  | succ m ih => exact congrArg (·.bind next) ih

/-- A node that links to itself. -/
theorem node_self (h : next a = some a) : node next (some a) n = some a := by
  induction n with
  | zero => rfl
  | succ n ih => rw [node, ih, Option.bind_some, h]

/-- What has ended stays so. -/
theorem node_none : node next none n = none := by
  induction n with
  | zero => rfl
  | succ n ih => rw [node, ih, Option.bind_none]

/-- What holds of the start and behind every link holds of every node. -/
theorem node_all {q : α → Prop} (hstart : ∀ b, start = some b → q b) (hnext : ∀ a b, next a = some b → q b)
    (h : node next start n = some b) : q b := by
  cases n with
  | zero => exact hstart b h
  | succ n =>
    obtain ⟨a, -, hb⟩ := Option.bind_eq_some_iff.mp h
    exact hnext a b hb

theorem not_firstAt_none : ¬ FirstAt next p none n a := by
  rintro ⟨h, -⟩
  rw [node_none] at h
  exact absurd h (by simp)

theorem firstAt_zero : FirstAt next p start 0 a ↔ start = some a ∧ p a :=
  ⟨fun h => ⟨h.1, h.2.1⟩, fun h => ⟨h.1, h.2, fun _ hm => absurd hm (Nat.not_lt_zero _)⟩⟩

theorem firstAt_iff : FirstAt next p start n a ↔ ReachedAt next p start n a ∧ p a :=
  ⟨fun h => ⟨⟨h.1, h.2.2⟩, h.2.1⟩, fun h => ⟨h.1.1, h.2, h.1.2⟩⟩

/-- Only what the property says of the nodes counts. -/
theorem First.congr {q : α → Prop} (h : ∀ n a, node next start n = some a → (p a ↔ q a)) :
    First next p start a ↔ First next q start a := by
  constructor
  · rintro ⟨n, hn, hp, hfirst⟩
    exact ⟨n, hn, (h n a hn).mp hp, fun m hm b hb hq => hfirst m hm b hb ((h m b hb).mpr hq)⟩
  · rintro ⟨n, hn, hq, hfirst⟩
    exact ⟨n, hn, (h n a hn).mpr hq, fun m hm b hb hp => hfirst m hm b hb ((h m b hb).mp hp)⟩

theorem not_reachedAt_none : ¬ ReachedAt next p none n a := by
  rintro ⟨h, -⟩
  rw [node_none] at h
  cases h

theorem reachedAt_zero : ReachedAt next p start 0 a ↔ start = some a :=
  ⟨fun h => h.1, fun h => ⟨h, fun _ hm => absurd hm (Nat.not_lt_zero _)⟩⟩

theorem reachedAt_succ : ReachedAt next p (some a) (n + 1) b ↔ ¬ p a ∧ ReachedAt next p (next a) n b := by
  have hnode : ∀ n, node next (some a) (n + 1) = node next (next a) n := fun n => node_succ
  constructor
  · rintro ⟨hb, hfirst⟩
    refine ⟨hfirst 0 (Nat.succ_pos n) a rfl, hnode n ▸ hb, fun m hm c hc => ?_⟩
    exact hfirst (m + 1) (Nat.succ_lt_succ hm) c ((hnode m).trans hc)
  · rintro ⟨ha, hb, hfirst⟩
    refine ⟨(hnode n).trans hb, fun m hm c hc => ?_⟩
    cases m with
    | zero =>
      cases hc
      exact ha
    | succ m => exact hfirst m (Nat.lt_of_succ_lt_succ hm) c ((hnode m).symm.trans hc)

theorem firstAt_succ : FirstAt next p (some a) (n + 1) b ↔ ¬ p a ∧ FirstAt next p (next a) n b := by
  rw [firstAt_iff, firstAt_iff, reachedAt_succ, and_assoc]

/-- **The nodes up to the first one are distinct**: behind a node that comes back everything does. -/
theorem FirstAt.injective (h : FirstAt next p start n a) {i j : Nat} (hij : i < j) (hj : j ≤ n) :
    node next start i ≠ node next start j := by
  intro heq
  have hearlier : node next start (i + (n - j)) = some a := by
    rw [node_add, heq, ← node_add, Nat.add_sub_cancel' hj]
    exact h.1
  exact h.2.2 (i + (n - j)) (by omega) a hearlier h.2.1

/-- A first node is found before the nodes are used up. -/
theorem FirstAt.lt_card [DecidableEq α] {S : Finset α} (h : FirstAt next p start n a)
    (hS : ∀ m b, node next start m = some b → b ∈ S) : n < S.card := by
  have hsome : ∀ m ≤ n, ∃ b, node next start m = some b := by
    intro m hm
    by_contra hnone
    have hend : node next start m = none := by
      cases hnode : node next start m with
      | none => rfl
      | some b => exact absurd ⟨b, hnode⟩ hnone
    have hn : node next start n = none := by
      rw [show n = m + (n - m) by omega, node_add, hend, node_none]
    rw [h.1] at hn
    cases hn
  have hcard := Finset.card_le_card_of_injOn (s := Finset.range (n + 1)) (t := S)
    (fun m => (node next start m).getD a)
    (fun m hm => by
      obtain ⟨b, hb⟩ := hsome m (Nat.lt_succ_iff.mp (Finset.mem_range.mp hm))
      simp only [hb, Option.getD_some]
      exact hS m b hb)
    (fun i hi j hj heq => by
      have hi := Nat.lt_succ_iff.mp (Finset.mem_range.mp hi)
      have hj := Nat.lt_succ_iff.mp (Finset.mem_range.mp hj)
      obtain ⟨b, hb⟩ := hsome i hi
      obtain ⟨c, hc⟩ := hsome j hj
      have hnode : node next start i = node next start j := by
        simp only [hb, hc, Option.getD_some] at heq
        rw [hb, hc, heq]
      rcases Nat.lt_trichotomy i j with hlt | heq | hlt
      · exact absurd hnode (h.injective hlt hj)
      · exact heq
      · exact absurd hnode.symm (h.injective hlt hi))
  rw [Finset.card_range] at hcard
  exact hcard

section

variable [DecidablePred p]

@[simp] theorem search_none : search next p n none = some none := by
  cases n <;> rfl

theorem search_eq_some_some_iff : search next p n start = some (some a) ↔ ∃ m < n, FirstAt next p start m a := by
  induction n generalizing start with
  | zero => cases start <;> simp [search]
  | succ n ih =>
    cases start with
    | none =>
      rw [search_none]
      exact ⟨fun h => by simp at h, fun ⟨m, _, h⟩ => absurd h not_firstAt_none⟩
    | some b =>
      rw [search]
      split
      next hb =>
        constructor
        · intro h
          cases h
          exact ⟨0, Nat.succ_pos n, firstAt_zero.mpr ⟨rfl, hb⟩⟩
        · rintro ⟨m, -, h⟩
          cases m with
          | zero => rw [(firstAt_zero.mp h).1]
          | succ m => exact absurd hb (firstAt_succ.mp h).1
      next hb =>
        rw [ih]
        constructor
        · rintro ⟨m, hm, h⟩
          exact ⟨m + 1, Nat.succ_lt_succ hm, firstAt_succ.mpr ⟨hb, h⟩⟩
        · rintro ⟨m, hm, h⟩
          cases m with
          | zero =>
            obtain ⟨heq, hp⟩ := firstAt_zero.mp h
            cases heq
            exact absurd hp hb
          | succ m => exact ⟨m, Nat.lt_of_succ_lt_succ hm, (firstAt_succ.mp h).2⟩

theorem mem_visited_iff : b ∈ visited next p n start ↔ ∃ m < n, ReachedAt next p start m b := by
  induction n generalizing start with
  | zero => cases start <;> simp [visited]
  | succ n ih =>
    cases start with
    | none =>
      refine ⟨fun h => ?_, fun ⟨m, _, h⟩ => absurd h not_reachedAt_none⟩
      rw [visited] at h
      cases h
    | some a =>
      rw [visited, List.mem_cons]
      constructor
      · rintro (rfl | h)
        · exact ⟨0, Nat.succ_pos n, reachedAt_zero.mpr rfl⟩
        · split at h
          next => cases h
          next hp =>
            obtain ⟨m, hm, h⟩ := ih.mp h
            exact ⟨m + 1, Nat.succ_lt_succ hm, reachedAt_succ.mpr ⟨hp, h⟩⟩
      · rintro ⟨m, hm, h⟩
        cases m with
        | zero => exact .inl (Option.some.inj (reachedAt_zero.mp h)).symm
        | succ m =>
          obtain ⟨hp, h⟩ := reachedAt_succ.mp h
          rw [if_neg hp]
          exact .inr (ih.mpr ⟨m, Nat.lt_of_succ_lt_succ hm, h⟩)

/-- **A bound that is the number of nodes cuts nothing off.** -/
theorem search_eq_iff_first [DecidableEq α] {S : Finset α} (hS : ∀ m b, node next start m = some b → b ∈ S)
    (hn : S.card ≤ n) : search next p n start = some (some a) ↔ First next p start a := by
  rw [search_eq_some_some_iff]
  exact ⟨fun ⟨m, _, h⟩ => ⟨m, h⟩, fun ⟨m, h⟩ => ⟨m, Nat.lt_of_lt_of_le (h.lt_card hS) hn, h⟩⟩

theorem exists_search_eq_iff : (∃ n, search next p n start = some (some a)) ↔ First next p start a := by
  constructor
  · rintro ⟨n, hn⟩
    obtain ⟨m, -, h⟩ := search_eq_some_some_iff.mp hn
    exact ⟨m, h⟩
  · rintro ⟨m, h⟩
    exact ⟨m + 1, search_eq_some_some_iff.mpr ⟨m, Nat.lt_succ_self m, h⟩⟩

/-- A larger bound changes nothing. -/
theorem search_mono {r : Option α} (h : search next p n start = some r) (hle : n ≤ m) :
    search next p m start = some r := by
  induction n generalizing start m with
  | zero =>
    cases start with
    | none => rwa [search_none] at h ⊢
    | some a => cases h
  | succ n ih =>
    obtain ⟨m, rfl⟩ : ∃ m', m = m' + 1 := ⟨m - 1, by omega⟩
    cases start with
    | none => rwa [search_none] at h ⊢
    | some a =>
      rw [search] at h ⊢
      split at h
      next hp => rwa [if_pos hp]
      next hp =>
        rw [if_neg hp]
        exact ih h (by omega)

/-- A chain of nodes with `q` whose links go down by a measure is not cut off. -/
theorem search_ne_none_of_measure {q : α → Prop} (f : α → Nat)
    (hnext : ∀ a b, q a → next a = some b → q b ∧ f b < f a) (hstart : ∀ a, start = some a → q a ∧ f a < n) :
    search next p n start ≠ none := by
  induction n generalizing start with
  | zero =>
    cases start with
    | none => exact Option.some_ne_none _
    | some a => exact absurd (hstart a rfl).2 (Nat.not_lt_zero _)
  | succ n ih =>
    cases start with
    | none => exact Option.some_ne_none _
    | some a =>
      rw [search]
      split
      · exact Option.some_ne_none _
      · obtain ⟨hq, ha⟩ := hstart a rfl
        refine ih fun b hb => ?_
        obtain ⟨hqb, hlt⟩ := hnext a b hq hb
        exact ⟨hqb, by omega⟩

/-- A walk that stands still finds nothing more. -/
theorem join_search_self (ha : next a = some a) (hp : ¬ p a) : (search next p n (some a)).join = none := by
  induction n with
  | zero => rfl
  | succ n ih => rwa [search, if_neg hp, ha]

theorem search_of_node_none (h : node next start n = none) : search next p n start ≠ none := by
  induction n generalizing start with
  | zero =>
    rw [show start = none from h, search_none]
    exact Option.some_ne_none _
  | succ n ih =>
    cases start with
    | none =>
      rw [search_none]
      exact Option.some_ne_none _
    | some a =>
      rw [search]
      split
      · exact Option.some_ne_none _
      · have hsucc : node next (some a) (n + 1) = node next (next a) n := node_succ
        exact ih (hsucc ▸ h)

theorem stops_of_search (h : search next p n start = some none) : Stops next start := by
  induction n generalizing start with
  | zero =>
    cases start with
    | none => exact ⟨0, rfl⟩
    | some a => cases h
  | succ n ih =>
    cases start with
    | none => exact ⟨0, rfl⟩
    | some a =>
      rw [search] at h
      split at h
      · cases h
      · obtain ⟨m, hm⟩ := ih h
        exact ⟨m + 1, node_succ.trans hm⟩

/-- **An unbounded walk comes to an end** at a first node or at the end of the chain. -/
theorem exists_search_iff :
    (∃ n, search next p n start ≠ none) ↔ (∃ a, First next p start a) ∨ Stops next start := by
  constructor
  · rintro ⟨n, hn⟩
    obtain ⟨r, hr⟩ := Option.ne_none_iff_exists'.mp hn
    cases r with
    | none => exact .inr (stops_of_search hr)
    | some a => exact .inl ⟨a, exists_search_eq_iff.mp ⟨n, hr⟩⟩
  · rintro (⟨a, h⟩ | ⟨n, hn⟩)
    · obtain ⟨m, hm⟩ := exists_search_eq_iff.mpr h
      exact ⟨m, hm ▸ Option.some_ne_none _⟩
    · exact ⟨n, search_of_node_none hn⟩

end

end Chain
