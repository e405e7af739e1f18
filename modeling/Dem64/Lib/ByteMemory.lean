import Mathlib.Algebra.Group.Nat.Defs
import Mathlib.Logic.Function.Basic
import Mathlib.Tactic.Common

/-!
# Memory as bytes

A memory gives every address a byte.  `putBytes` writes a list of bytes, `HasBytes` says that a list
is there, and what one store says about another place is one of two facts: a store is found where it
was made (`hasBytes_putBytes`), and it changes nothing elsewhere (`sameOn_putBytes`).

Words are four bytes, the lowest first.  A record of words is a list, so that it is written by one
store and read word by word (`HasWords`).
-/

set_option autoImplicit false

namespace ByteMemory

/-- The bytes from `a` on are those of the list. -/
def HasBytes (bytes : Nat → BitVec 8) : Nat → List (BitVec 8) → Prop
  | _, [] => True
  | a, b :: l => bytes a = b ∧ HasBytes bytes (a + 1) l

instance decidableHasBytes (bytes : Nat → BitVec 8) :
    (a : Nat) → (l : List (BitVec 8)) → Decidable (HasBytes bytes a l)
  | _, [] => .isTrue trivial
  | a, b :: l =>
    have := decidableHasBytes bytes (a + 1) l
    inferInstanceAs (Decidable (bytes a = b ∧ HasBytes bytes (a + 1) l))

/-- The bytes from `a` on are overwritten. -/
def putBytes (bytes : Nat → BitVec 8) : Nat → List (BitVec 8) → Nat → BitVec 8
  | _, [] => bytes
  | a, b :: l => putBytes (Function.update bytes a b) (a + 1) l

/-- The `n` bytes from `a` on. -/
def getBytes (bytes : Nat → BitVec 8) : Nat → Nat → List (BitVec 8)
  | _, 0 => []
  | a, n + 1 => bytes a :: getBytes bytes (a + 1) n

/-- The `n` bytes from `a` on are the same in both memories. -/
def SameOn (bytes bytes' : Nat → BitVec 8) (a n : Nat) : Prop :=
  ∀ x, a ≤ x → x < a + n → bytes' x = bytes x

section

variable {bytes bytes' bytes'' : Nat → BitVec 8} {a b n k x : Nat} {l r : List (BitVec 8)}

theorem HasBytes.append_iff :
    HasBytes bytes a (l ++ r) ↔ HasBytes bytes a l ∧ HasBytes bytes (a + l.length) r := by
  induction l generalizing a with
  | nil => simp [HasBytes]
  | cons b l ih =>
    rw [List.cons_append, HasBytes, HasBytes, ih, and_assoc, List.length_cons, Nat.add_right_comm,
      Nat.add_assoc]

theorem HasBytes.congr (h : HasBytes bytes a l) (hb : SameOn bytes bytes' a l.length) :
    HasBytes bytes' a l := by
  induction l generalizing a with
  | nil => trivial
  | cons b l ih =>
    rw [List.length_cons] at hb
    exact ⟨(hb a (by omega) (by omega)).trans h.1, ih h.2 fun x h1 h2 => hb x (by omega) (by omega)⟩

theorem putBytes_of_lt (h : x < a) : putBytes bytes a l x = bytes x := by
  induction l generalizing a bytes with
  | nil => rfl
  | cons b l ih => rw [putBytes, ih (by omega), Function.update_of_ne (by omega)]

theorem putBytes_of_ge (h : a + l.length ≤ x) : putBytes bytes a l x = bytes x := by
  induction l generalizing a bytes with
  | nil => rfl
  | cons b l ih =>
    rw [List.length_cons] at h
    rw [putBytes, ih (by omega), Function.update_of_ne (by omega)]

theorem hasBytes_putBytes : HasBytes (putBytes bytes a l) a l := by
  induction l generalizing a bytes with
  | nil => trivial
  | cons b l ih =>
    refine ⟨?_, ih⟩
    rw [putBytes, putBytes_of_lt (Nat.lt_succ_self a), Function.update_self]

/-- Inside, a store does not show what was there before. -/
theorem putBytes_congr (h : bytes x = bytes' x ∨ a ≤ x ∧ x < a + l.length) :
    putBytes bytes a l x = putBytes bytes' a l x := by
  induction l generalizing a bytes bytes' with
  | nil =>
    rcases h with h | ⟨h1, h2⟩
    · exact h
    · rw [List.length_nil] at h2
      omega
  | cons b l ih =>
    rw [putBytes, putBytes]
    apply ih
    rw [List.length_cons] at h
    rcases eq_or_ne x a with rfl | hne
    · exact .inl (by rw [Function.update_self, Function.update_self])
    · rcases h with h | ⟨h1, h2⟩
      · exact .inl (by rw [Function.update_of_ne hne, Function.update_of_ne hne, h])
      · exact .inr ⟨by omega, by omega⟩

theorem SameOn.trans (h : SameOn bytes bytes' a n) (h' : SameOn bytes' bytes'' a n) :
    SameOn bytes bytes'' a n :=
  fun x h1 h2 => (h' x h1 h2).trans (h x h1 h2)

theorem SameOn.mono (h : SameOn bytes bytes' a n) (hab : a ≤ b) (hk : b + k ≤ a + n) :
    SameOn bytes bytes' b k :=
  fun x h1 h2 => h x (by omega) (by omega)

/-- A store changes nothing elsewhere. -/
theorem sameOn_putBytes (h : a + n ≤ b ∨ b + l.length ≤ a) : SameOn bytes (putBytes bytes b l) a n := by
  intro x h1 h2
  rcases h with h | h
  · exact putBytes_of_lt (by omega)
  · exact putBytes_of_ge (by omega)

@[simp] theorem length_getBytes : (getBytes bytes a n).length = n := by
  induction n generalizing a with
  | zero => rfl
  | succ n ih => rw [getBytes, List.length_cons, ih]

theorem getElem?_getBytes {i : Nat} (h : i < n) : (getBytes bytes a n)[i]? = some (bytes (a + i)) := by
  induction n generalizing a i with
  | zero => omega
  | succ n ih =>
    rw [getBytes]
    cases i with
    | zero => rfl
    | succ i => rw [List.getElem?_cons_succ, ih (by omega), Nat.add_right_comm, Nat.add_assoc]

/-- What is read of a list that is there is its beginning. -/
theorem HasBytes.getBytes_eq (h : HasBytes bytes a l) (hn : n ≤ l.length) : getBytes bytes a n = l.take n := by
  induction l generalizing a n with
  | nil =>
    obtain rfl : n = 0 := by simpa using hn
    rfl
  | cons b l ih =>
    cases n with
    | zero => rfl
    | succ n => rw [getBytes, h.1, ih h.2 (by simpa using hn), List.take_succ_cons]

/-- What is copied from a list is a beginning of it. -/
theorem HasBytes.copy (h : HasBytes bytes a l) : HasBytes (putBytes bytes' b (getBytes bytes a n)) b (l.take n) := by
  induction n generalizing a b bytes' l with
  | zero => exact trivial
  | succ n ih =>
    cases l with
    | nil => exact trivial
    | cons c l =>
      refine ⟨?_, ih h.2⟩
      rw [getBytes, putBytes, putBytes_of_lt (Nat.lt_succ_self b), Function.update_self, h.1]

/-- A byte that was copied. -/
theorem putBytes_getBytes {i : Nat} (hi : i < n) : putBytes bytes a (getBytes bytes' b n) (a + i) = bytes' (b + i) := by
  induction n generalizing a b i bytes with
  | zero => omega
  | succ n ih =>
    rw [getBytes, putBytes]
    cases i with
    | zero => exact (putBytes_of_lt (Nat.lt_succ_self a)).trans (Function.update_self _ _ _)
    | succ i => rw [← Nat.add_assoc, Nat.add_right_comm, ih (by omega), Nat.add_right_comm, Nat.add_assoc]

/-- What is read is there. -/
theorem hasBytes_getBytes : HasBytes bytes a (getBytes bytes a n) := by
  induction n generalizing a with
  | zero => trivial
  | succ n ih => exact ⟨rfl, ih⟩

/-- What is read are the bytes that are there. -/
theorem getBytes_eq_getBytes_iff :
    getBytes bytes a n = getBytes bytes' b n ↔ ∀ i, i < n → bytes (a + i) = bytes' (b + i) := by
  constructor
  · intro h i hi
    have hsome := @getElem?_getBytes bytes a n _ hi
    rw [h, getElem?_getBytes hi] at hsome
    exact (Option.some.inj hsome).symm
  · intro h
    apply List.ext_getElem?
    intro i
    by_cases hi : i < n
    · rw [getElem?_getBytes hi, getElem?_getBytes hi, h i hi]
    · rw [List.getElem?_eq_none (by simpa using hi), List.getElem?_eq_none (by simpa using hi)]

theorem getBytes_eq_iff :
    getBytes bytes a n = getBytes bytes' a n ↔ ∀ i, i < n → bytes (a + i) = bytes' (a + i) :=
  getBytes_eq_getBytes_iff

end

/-! ## Words -/

/-- The word at `a`. -/
def load32 (bytes : Nat → BitVec 8) (a : Nat) : BitVec 32 :=
  bytes (a + 3) ++ bytes (a + 2) ++ bytes (a + 1) ++ bytes a

/-- The bytes of a word, the lowest first. -/
def wordBytes (w : BitVec 32) : List (BitVec 8) :=
  [w.extractLsb' 0 8, w.extractLsb' 8 8, w.extractLsb' 16 8, w.extractLsb' 24 8]

/-- The words from `a` on are overwritten. -/
def putWords (bytes : Nat → BitVec 8) (a : Nat) (ws : List (BitVec 32)) : Nat → BitVec 8 :=
  putBytes bytes a (ws.flatMap wordBytes)

/-- The words from `a` on are those of the list. -/
def HasWords (bytes : Nat → BitVec 8) (a : Nat) (ws : List (BitVec 32)) : Prop :=
  HasBytes bytes a (ws.flatMap wordBytes)

section

variable {bytes bytes' : Nat → BitVec 8} {a b n : Nat} {w : BitVec 32} {ws : List (BitVec 32)}

@[simp] theorem length_flatMap_wordBytes : (ws.flatMap wordBytes).length = 4 * ws.length := by
  induction ws with
  | nil => rfl
  | cons w ws ih =>
    rw [List.flatMap_cons, List.length_append, ih, List.length_cons, Nat.mul_succ, Nat.add_comm]
    rfl

/-- A word is read as it was written. -/
theorem load32_of_hasBytes (h : HasBytes bytes a (wordBytes w)) : load32 bytes a = w := by
  obtain ⟨h0, h1, h2, h3, -⟩ := h
  rw [load32, h0, h1, show bytes (a + 2) = _ from h2, show bytes (a + 3) = _ from h3]
  apply BitVec.eq_of_getLsbD_eq
  intro i hi
  simp only [BitVec.getLsbD_append, BitVec.getLsbD_extractLsb']
  by_cases hi0 : i < 8
  · rw [if_pos hi0, decide_eq_true hi0, Bool.true_and, Nat.zero_add]
  · by_cases hi1 : i - 8 < 8
    · rw [if_neg hi0, if_pos hi1, decide_eq_true hi1, Bool.true_and, Nat.add_sub_of_le (by omega)]
    · by_cases hi2 : i - 8 - 8 < 8
      · rw [if_neg hi0, if_neg hi1, if_pos hi2, decide_eq_true hi2, Bool.true_and,
          show 16 + (i - 8 - 8) = i by omega]
      · rw [if_neg hi0, if_neg hi1, if_neg hi2, decide_eq_true (by omega), Bool.true_and,
          show 24 + (i - 8 - 8 - 8) = i by omega]

theorem hasWords_cons_iff :
    HasWords bytes a (w :: ws) ↔ HasBytes bytes a (wordBytes w) ∧ HasWords bytes (a + 4) ws := by
  rw [HasWords, List.flatMap_cons, HasBytes.append_iff]
  rfl

theorem HasWords.load32 (h : HasWords bytes a (w :: ws)) : load32 bytes a = w :=
  load32_of_hasBytes (hasWords_cons_iff.mp h).1

theorem HasWords.tail (h : HasWords bytes a (w :: ws)) : HasWords bytes (a + 4) ws :=
  (hasWords_cons_iff.mp h).2

theorem hasWords_left {vs : List (BitVec 32)} (h : HasWords bytes a (ws ++ vs)) : HasWords bytes a ws := by
  rw [HasWords, List.flatMap_append, HasBytes.append_iff] at h
  exact h.1

theorem HasWords.congr (h : HasWords bytes a ws) (hb : SameOn bytes bytes' a (4 * ws.length)) :
    HasWords bytes' a ws :=
  HasBytes.congr h (by rwa [length_flatMap_wordBytes])

theorem hasWords_putWords : HasWords (putWords bytes a ws) a ws :=
  hasBytes_putBytes

theorem sameOn_putWords (h : a + n ≤ b ∨ b + 4 * ws.length ≤ a) :
    SameOn bytes (putWords bytes b ws) a n :=
  sameOn_putBytes (by rwa [length_flatMap_wordBytes])

/-- Where the same list is, the bytes are the same. -/
theorem HasBytes.sameOn {l : List (BitVec 8)} (h : HasBytes bytes a l) (h' : HasBytes bytes' a l) :
    SameOn bytes bytes' a l.length := by
  induction l generalizing a with
  | nil =>
    intro x h1 h2
    rw [List.length_nil] at h2
    omega
  | cons b l ih =>
    intro x h1 h2
    rw [List.length_cons] at h2
    rcases eq_or_ne x a with rfl | hne
    · rw [h'.1, h.1]
    · exact ih h.2 h'.2 x (by omega) (by omega)

theorem HasWords.sameOn (h : HasWords bytes a ws) (h' : HasWords bytes' a ws) :
    SameOn bytes bytes' a (4 * ws.length) := by
  rw [← length_flatMap_wordBytes]
  exact HasBytes.sameOn h h'

/-- The same for one word of the list. -/
theorem HasWords.sameOn_word (h : HasWords bytes a ws) (h' : HasWords bytes' a ws) (k : Nat)
    (hk : k < ws.length) : SameOn bytes bytes' (a + 4 * k) 4 :=
  (h.sameOn h').mono (by omega) (by omega)

/-- The bits of a word are those of its bytes. -/
theorem getLsbD_load32 {i : Nat} (hi : i < 32) :
    (ByteMemory.load32 bytes a).getLsbD i = (bytes (a + i / 8)).getLsbD (i % 8) := by
  rw [ByteMemory.load32]
  simp only [BitVec.getLsbD_append]
  by_cases hi0 : i < 8
  · rw [if_pos hi0, Nat.div_eq_of_lt hi0, Nat.mod_eq_of_lt hi0, Nat.add_zero]
  · by_cases hi1 : i - 8 < 8
    · rw [if_neg hi0, if_pos hi1, show i / 8 = 1 by omega, show i % 8 = i - 8 by omega]
    · by_cases hi2 : i - 8 - 8 < 8
      · rw [if_neg hi0, if_neg hi1, if_pos hi2, show i / 8 = 2 by omega, show i % 8 = i - 8 - 8 by omega]
      · rw [if_neg hi0, if_neg hi1, if_neg hi2, show i / 8 = 3 by omega,
          show i % 8 = i - 8 - 8 - 8 by omega]

/-- The same bytes are the same word, wherever they are. -/
theorem load32_eq (h : ∀ i, i < 4 → bytes' (b + i) = bytes (a + i)) : load32 bytes' b = load32 bytes a := by
  rw [load32, load32, h 1 (by decide), h 2 (by decide), h 3 (by decide), show bytes' b = bytes a from h 0 (by decide)]

theorem load32_congr (h : SameOn bytes bytes' a 4) : load32 bytes' a = load32 bytes a :=
  load32_eq fun i hi => h (a + i) (by omega) (by omega)

end

end ByteMemory
