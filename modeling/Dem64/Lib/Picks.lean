import Mathlib.Data.Finset.Card
import Mathlib.Data.List.Infix

/-!
# Picking what is not on record

One customer after the other picks the first item of a list that is not on record, and only some of them put
their item on record.  When do they pick each item once?
-/

set_option autoImplicit false

namespace Dem64

section

variable {α : Type*} [DecidableEq α]

/-- The first item that is not on record. -/
def pick (items recorded : List α) : Option α := items.find? fun a => a ∉ recorded

/-- What is on record after `n` customers, and what they picked. -/
def picks (items : List α) (records : Nat → Bool) : Nat → List α × List α
  | 0 => ([], [])
  | n + 1 =>
    let s := picks items records n
    match pick items s.1 with
    | none => s
    | some a => (if records n then s.1 ++ [a] else s.1, s.2 ++ [a])

variable {items recorded : List α} {records : Nat → Bool} {a : α} {n m : Nat}

theorem pick_eq_none : pick items recorded = none ↔ ∀ a ∈ items, a ∈ recorded := by
  simp [pick]

theorem pick_mem (h : pick items recorded = some a) : a ∈ items ∧ a ∉ recorded :=
  ⟨List.mem_of_find?_eq_some h, by simpa using List.find?_some h⟩

theorem picks_succ_none (h : pick items (picks items records n).1 = none) :
    picks items records (n + 1) = picks items records n := by
  rw [picks]
  simp only [h]

theorem picks_succ_some (h : pick items (picks items records n).1 = some a) :
    picks items records (n + 1) = (if records n then (picks items records n).1 ++ [a] else (picks items records n).1,
      (picks items records n).2 ++ [a]) := by
  rw [picks]
  simp only [h]

/-- What was picked stays picked. -/
theorem picks_prefix (h : n ≤ m) : (picks items records n).2 <+: (picks items records m).2 := by
  induction m, h using Nat.le_induction with
  | base => exact List.prefix_refl _
  | succ m _ ih =>
    cases hp : pick items (picks items records m).1 with
    | none => rwa [picks_succ_none hp]
    | some a =>
      rw [picks_succ_some hp]
      exact ih.trans (List.prefix_append _ _)

theorem length_picks_le (items : List α) (records : Nat → Bool) (n : Nat) :
    (picks items records n).2.length ≤ n := by
  induction n with
  | zero => exact le_refl 0
  | succ n ih =>
    cases hp : pick items (picks items records n).1 with
    | none =>
      rw [picks_succ_none hp]
      omega
    | some a =>
      rw [picks_succ_some hp, List.length_append, List.length_singleton]
      omega

theorem length_recorded_le (items : List α) (records : Nat → Bool) (n : Nat) :
    (picks items records n).1.length ≤ n := by
  induction n with
  | zero => exact le_refl 0
  | succ n ih =>
    cases hp : pick items (picks items records n).1 with
    | none =>
      rw [picks_succ_none hp]
      omega
    | some a =>
      rw [picks_succ_some hp]
      dsimp only
      split
      · rw [List.length_append, List.length_singleton]
        omega
      · omega

/-- A list without repetitions is at most as long as there are items, and shorter if it lacks one. -/
theorem length_le_card {l : List α} (hl : l.Nodup) (hsub : ∀ a ∈ l, a ∈ items) :
    l.length ≤ items.toFinset.card := by
  rw [← List.toFinset_card_of_nodup hl]
  exact Finset.card_le_card fun a ha => by simpa using hsub a (by simpa using ha)

theorem card_le_length {l : List α} (hall : ∀ a ∈ items, a ∈ l) : items.toFinset.card ≤ l.length :=
  (Finset.card_le_card fun a ha => by simpa using hall a (by simpa using ha)).trans l.toFinset_card_le

/-- A list with one item more, which it did not have. -/
theorem concat_of_pick {l : List α} (hl : l.Nodup) (hsub : ∀ a ∈ l, a ∈ items) (hp : pick items l = some a) :
    (l ++ [a]).Nodup ∧ ∀ b ∈ l ++ [a], b ∈ items := by
  obtain ⟨hmem, hnew⟩ := pick_mem hp
  refine ⟨?_, fun b hb => ?_⟩
  · rw [List.nodup_append_comm, List.singleton_append, List.nodup_cons]
    exact ⟨hnew, hl⟩
  · rcases List.mem_append.mp hb with hb | hb
    · exact hsub b hb
    · rwa [List.mem_singleton.mp hb]

theorem mem_of_card_le {l : List α} (hl : l.Nodup) (hsub : ∀ a ∈ l, a ∈ items)
    (hcard : items.toFinset.card ≤ l.length) : ∀ a ∈ items, a ∈ l := by
  rw [← List.toFinset_card_of_nodup hl] at hcard
  have heq := Finset.eq_of_subset_of_card_le
    (fun a ha => (by simpa using hsub a (by simpa using ha) : a ∈ items.toFinset)) hcard
  intro a ha
  have : a ∈ l.toFinset := heq ▸ List.mem_toFinset.mpr ha
  exact List.mem_toFinset.mp this

/-- As long as all customers record what they pick, they pick one item after the other. -/
theorem picks_of_records (h : ∀ j, j < n → j < items.toFinset.card → records j = true) :
    (picks items records n).1 = (picks items records n).2 ∧ (picks items records n).2.Nodup ∧
      (∀ a ∈ (picks items records n).2, a ∈ items) ∧
      (picks items records n).2.length = min n items.toFinset.card := by
  induction n with
  | zero => exact ⟨rfl, List.nodup_nil, by simp [picks], by simp [picks]⟩
  | succ n ih =>
    obtain ⟨heq, hnodup, hsub, hlen⟩ := ih fun j hj => h j (by omega)
    cases hp : pick items (picks items records n).1 with
    | none =>
      rw [picks_succ_none hp]
      have hall := pick_eq_none.mp hp
      rw [heq] at hall
      have hcard := card_le_length hall
      exact ⟨heq, hnodup, hsub, by omega⟩
    | some a =>
      obtain ⟨hnodup', hsub'⟩ := concat_of_pick hnodup hsub (heq ▸ hp)
      have hcard := length_le_card hnodup' hsub'
      rw [List.length_append, List.length_singleton] at hcard
      have hrec : records n = true := h n (by omega) (by omega)
      rw [picks_succ_some hp, if_pos hrec, heq]
      refine ⟨rfl, hnodup', hsub', ?_⟩
      simp only [List.length_append, List.length_singleton]
      omega

/-- A customer that does not record its item leaves it to the next one. -/
theorem records_of_nodup (hnodup : (picks items records n).2.Nodup) :
    ∀ j, j + 1 < n → j < items.toFinset.card → records j = true := by
  intro j
  induction j using Nat.strong_induction_on with
  | _ j ih =>
    intro hj hcard
    by_contra hno
    obtain ⟨heq, hnodup', hsub, hlen⟩ := @picks_of_records _ _ items records j fun i hi => ih i hi (by omega)
    cases hp : pick items (picks items records j).1 with
    | none =>
      have hall := pick_eq_none.mp hp
      rw [heq] at hall
      have := card_le_length hall
      omega
    | some a =>
      have h1 := picks_succ_some hp
      rw [if_neg hno] at h1
      have hp' : pick items (picks items records (j + 1)).1 = some a := by rw [h1]; exact hp
      have h2 : (picks items records (j + 1 + 1)).2 = (picks items records j).2 ++ [a] ++ [a] := by
        rw [picks_succ_some hp', h1]
      have hpre : (picks items records j).2 ++ [a] ++ [a] <+: (picks items records n).2 := by
        rw [← h2]
        exact picks_prefix (by omega)
      have htwice := hnodup.sublist hpre.sublist
      rw [List.append_assoc] at htwice
      exact absurd (htwice.sublist (List.sublist_append_right _ _)) (by simp)

/-- **Each item once.**  All but the last customer have to record what they pick, as long as there is something to
pick, and there have to be enough of them. -/
theorem picks_iff : ((picks items records n).2.Nodup ∧ ∀ a ∈ items, a ∈ (picks items records n).2) ↔
    items.toFinset.card ≤ n ∧ ∀ j, j + 1 < n → j < items.toFinset.card → records j = true := by
  constructor
  · rintro ⟨hnodup, hall⟩
    exact ⟨(card_le_length hall).trans (length_picks_le items records n), records_of_nodup hnodup⟩
  · rintro ⟨hcard, hrec⟩
    cases n with
    | zero =>
      refine ⟨List.nodup_nil, fun a ha => ?_⟩
      have : items.toFinset = ∅ := Finset.card_eq_zero.mp (by omega)
      exact absurd (List.mem_toFinset.mpr ha) (by simp [this])
    | succ m =>
      obtain ⟨heq, hnodup, hsub, hlen⟩ := @picks_of_records _ _ items records m fun j hj => hrec j (by omega)
      cases hp : pick items (picks items records m).1 with
      | none =>
        rw [picks_succ_none hp]
        have hall := pick_eq_none.mp hp
        rw [heq] at hall
        exact ⟨hnodup, hall⟩
      | some a =>
        obtain ⟨hnodup', hsub'⟩ := concat_of_pick hnodup hsub (heq ▸ hp)
        rw [picks_succ_some hp]
        have hle := length_le_card hnodup' hsub'
        refine ⟨hnodup', mem_of_card_le hnodup' hsub' ?_⟩
        rw [List.length_append, List.length_singleton] at hle ⊢
        omega

end

end Dem64
