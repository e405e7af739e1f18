import Dem64.Ata.Safety
import Dem64.Lib.ByteMemory

/-!
# What a probe leaves in the drive

`ata_probe_device` clears the fields of the drive, asks the device, and writes what the 256 identify words
say.  Whatever the device answers, the type it leaves is the one that it reports, and the other fields are those
of the words, or cleared (`ataProbeDevice_identifies`).

The strings are arrays with a terminating zero.  `ataCopyString` is the string, `copyStringArray` the array that
`ata_copy_string` leaves, and `hasBytes_copyStringArray` says that the one is in the other.
-/

set_option autoImplicit false

namespace Dem64

namespace Ata

open Interaction Interaction.Prog ByteMemory

/-! ## Strings -/

/-- A byte that is removed at the end of a string. -/
def Trailing (c : BitVec 8) : Prop := c = 0x20 ∨ c = 0

instance : DecidablePred Trailing := fun _ => inferInstanceAs (Decidable (_ ∨ _))

/-- The bytes of some of the identify words, the high byte of a word first. -/
def swappedBytes (words : List (BitVec 16)) (firstWord wordCount : Nat) : List (BitVec 8) :=
  ((words.drop firstWord).take wordCount).flatMap fun (word : BitVec 16) =>
    [(word >>> 8).setWidth 8, word.setWidth 8]

/-- The byte that `ata_copy_string` stores at `i`. -/
def stringByte (identify : List (BitVec 16)) (firstWord i : Nat) : BitVec 8 :=
  let word := identify.getD (firstWord + i / 2) 0
  if i % 2 = 0 then (word >>> 8).setWidth 8 else word.setWidth 8

/-- The `while` loop of `ata_copy_string`. -/
def trimLoop (dst : Nat → BitVec 8) : Nat → Nat
  | 0 => 0
  | length + 1 => if Trailing (dst length) then trimLoop dst length else length + 1

/-- `ata_copy_string`, with the array that it leaves. -/
def copyStringArray (dst : Nat → BitVec 8) (dstSize : Nat) (identify : List (BitVec 16)) (firstWord wordCount : Nat) :
    Nat → BitVec 8 :=
  let length := if dstSize ≤ 2 * wordCount then dstSize - 1 else 2 * wordCount
  let dst := fun i => if i < length then stringByte identify firstWord i else dst i
  Function.update dst (trimLoop dst length) 0

section

variable {words : List (BitVec 16)} {dst dst' : Nat → BitVec 8} {firstWord wordCount dstSize n : Nat}

theorem trimLoop_le : trimLoop dst n ≤ n := by
  induction n with
  | zero => exact Nat.le_refl 0
  | succ n ih =>
    rw [trimLoop]
    split
    · omega
    · exact Nat.le_refl _

theorem trimLoop_congr (h : ∀ i, i < n → dst i = dst' i) : trimLoop dst n = trimLoop dst' n := by
  induction n with
  | zero => rfl
  | succ n ih => rw [trimLoop, trimLoop, h n (Nat.lt_succ_self n), ih fun i hi => h i (by omega)]

/-- What the loop leaves of the bytes. -/
theorem rdropWhile_eq_trimLoop : ((List.range n).map dst).rdropWhile (fun c => Trailing c) =
    (List.range (trimLoop dst n)).map dst := by
  induction n with
  | zero => rfl
  | succ n ih =>
    rw [List.range_succ, List.map_append, List.map_singleton, List.rdropWhile_concat, trimLoop]
    by_cases h : Trailing (dst n)
    · rw [if_pos (by simpa using h), if_pos h, ih]
    · rw [if_neg (by simpa using h), if_neg h, List.range_succ, List.map_append, List.map_singleton]

theorem ataCopyString_eq : ataCopyString dstSize words firstWord wordCount =
    (List.range (trimLoop (stringByte words firstWord)
      (if dstSize ≤ 2 * wordCount then dstSize - 1 else 2 * wordCount))).map (stringByte words firstWord) := by
  rw [← rdropWhile_eq_trimLoop]
  rfl

/-- The bytes are those of the words. -/
theorem map_stringByte (h : firstWord + wordCount ≤ words.length) :
    (List.range (2 * wordCount)).map (stringByte words firstWord) = swappedBytes words firstWord wordCount := by
  induction wordCount generalizing firstWord with
  | zero => simp [swappedBytes]
  | succ n ih =>
    have hlt : firstWord < words.length := by omega
    have hget : words.getD firstWord 0 = words[firstWord] := by simp [hlt]
    have hshift : ∀ i, stringByte words firstWord (i + 1 + 1) = stringByte words (firstWord + 1) i := by
      intro i
      rw [stringByte, stringByte, show (i + 1 + 1) / 2 = 1 + i / 2 by omega, show (i + 1 + 1) % 2 = i % 2 by omega,
        Nat.add_assoc]
    have hrest := ih (show firstWord + 1 + n ≤ words.length by omega)
    rw [Nat.mul_succ, List.range_succ_eq_map, List.range_succ_eq_map, swappedBytes, List.drop_eq_getElem_cons hlt,
      List.take_succ_cons, List.flatMap_cons, ← swappedBytes, ← hrest]
    simp only [List.map_cons, List.map_map, List.cons_append, List.nil_append]
    congr 1
    · rw [stringByte, ← hget]
      rfl
    · congr 1
      · rw [stringByte, ← hget]
        rfl
      · exact List.map_congr_left fun i _ => hshift i

/-- **A string is the words with the bytes swapped and the end trimmed**, if the array has room for it. -/
theorem ataCopyString_eq_swapped (hsize : 2 * wordCount < dstSize) (h : firstWord + wordCount ≤ words.length) :
    ataCopyString dstSize words firstWord wordCount =
      (swappedBytes words firstWord wordCount).rdropWhile fun c => Trailing c := by
  rw [ataCopyString_eq, if_neg (by omega), ← rdropWhile_eq_trimLoop, map_stringByte h]

theorem length_ataCopyString (hpos : 0 < dstSize) :
    (ataCopyString dstSize words firstWord wordCount).length < dstSize := by
  rw [ataCopyString_eq, List.length_map, List.length_range]
  refine Nat.lt_of_le_of_lt trimLoop_le ?_
  split <;> omega

theorem hasBytes_map_range (bytes : Nat → BitVec 8) (a n : Nat) :
    HasBytes bytes a ((List.range n).map fun i => bytes (a + i)) := by
  induction n generalizing a with
  | zero => trivial
  | succ n ih =>
    rw [List.range_succ_eq_map, List.map_cons, List.map_map]
    refine ⟨rfl, ?_⟩
    have hrest := ih (a + 1)
    simp only [Nat.add_right_comm a 1] at hrest
    exact hrest

/-- **The array has the string and a zero behind it**, and nothing behind the array is written. -/
theorem hasBytes_copyStringArray (hpos : 0 < dstSize) :
    HasBytes (copyStringArray dst dstSize words firstWord wordCount) 0
      (ataCopyString dstSize words firstWord wordCount ++ [0]) ∧
    ∀ i, dstSize ≤ i → copyStringArray dst dstSize words firstWord wordCount i = dst i := by
  rw [copyStringArray, ataCopyString_eq]
  generalize hn : (if dstSize ≤ 2 * wordCount then dstSize - 1 else 2 * wordCount) = n
  have hlt : n < dstSize := by
    rw [← hn]
    split <;> omega
  have hfilled : ∀ i, i < n →
      (if i < n then stringByte words firstWord i else dst i) = stringByte words firstWord i := fun i hi => if_pos hi
  have hle := @trimLoop_le (stringByte words firstWord) n
  rw [trimLoop_congr hfilled]
  constructor
  · rw [HasBytes.append_iff, Nat.zero_add, List.length_map, List.length_range]
    refine ⟨?_, Function.update_self .., trivial⟩
    have hbytes := hasBytes_map_range (Function.update
      (fun i => if i < n then stringByte words firstWord i else dst i) (trimLoop (stringByte words firstWord) n) 0) 0
      (trimLoop (stringByte words firstWord) n)
    rwa [List.map_congr_left fun i hi => ?_] at hbytes
    have hi := List.mem_range.mp hi
    rw [Nat.zero_add, Function.update_of_ne (by omega), if_pos (by omega)]
  · intro i hi
    rw [Function.update_of_ne (by omega), if_neg (by omega)]

end

/-! ## The identify words -/

/-- The word that an event reads from the data port. -/
def wordOf (io : BitVec 16) : AtaEvent → Option (BitVec 16)
  | ⟨.inw port, v⟩ => if port = io + ATA_REG_DATA then some v else none
  | _ => none

/-- The words read from the data port, in order. -/
def identifyWords (io : BitVec 16) (log : List AtaEvent) : List (BitVec 16) := log.filterMap (wordOf io)

section

variable {io : BitVec 16} {l l₁ l₂ : List AtaEvent}

theorem identifyWords_append : identifyWords io (l₁ ++ l₂) = identifyWords io l₁ ++ identifyWords io l₂ :=
  List.filterMap_append

theorem wordOf_of_quiet {e : AtaEvent} (h : Quiet e.1) : wordOf io e = none := by
  obtain ⟨_ | _ | _ | _ | _ | _ | _ | _, v⟩ := e <;> first | rfl | exact h.elim

theorem identifyWords_of_asks {α : Type} {p : AtaM α} {a : α} (hp : p.Asks Quiet) (h : p.Runs l a) :
    identifyWords io l = [] :=
  List.filterMap_eq_nil_iff.mpr fun e he => wordOf_of_quiet (hp.runs h e he)

theorem identifyWords_locked : identifyWords io (locked l) = identifyWords io l := by
  rw [locked, ← List.singleton_append, identifyWords_append, identifyWords_append]
  exact List.append_nil _

/-- The loop returns the words that it reads. -/
theorem readIdentify_words {n : Nat} {words : List (BitVec 16)} (h : (readIdentify io n).Runs l words) :
    identifyWords io l = words ∧ words.length = n := by
  induction n generalizing l words with
  | zero =>
    obtain ⟨rfl, rfl⟩ := h
    exact ⟨rfl, rfl⟩
  | succ n ih =>
    obtain ⟨v, l', rfl, h₁⟩ := runs_inw_bind.mp h
    obtain ⟨l₁, rest, l₂, rfl, hrest, rfl, rfl⟩ := runs_bind.mp h₁
    obtain ⟨hwords, hlength⟩ := ih hrest
    rw [List.append_nil, List.length_cons, hlength]
    refine ⟨?_, rfl⟩
    rw [← hwords]
    exact List.filterMap_cons_some (if_pos rfl)

end

/-! ## The drive -/

/-- No device, no capacity, no sector addresses, no strings. -/
structure Reset (drive : AtaDrive) : Prop where
  type : drive.type = .none
  supportsLba28 : drive.supportsLba28 = false
  supportsLba48 : drive.supportsLba48 = false
  sectorCount : drive.sectorCount = 0
  model : drive.model = []
  serial : drive.serial = []
  firmware : drive.firmware = []

theorem AtaDrive.reset_cleared (drive : AtaDrive) : Reset drive.cleared := ⟨rfl, rfl, rfl, rfl, rfl, rfl, rfl⟩

/-- The words of a disk say that it has 28-bit addresses. -/
def Lba28Supported (deviceType : AtaDeviceType) (words : List (BitVec 16)) : Prop :=
  deviceType = .ata ∧ (words.getD 49 0).getLsbD 9 = true

/-- The words of a disk say that it has 48-bit addresses, in a word 83 that is valid. -/
def Lba48Supported (deviceType : AtaDeviceType) (words : List (BitVec 16)) : Prop :=
  deviceType = .ata ∧ ((words.getD 83 0).getLsbD 14 = true ∧ (words.getD 83 0).getLsbD 15 = false) ∧
    (words.getD 83 0).getLsbD 10 = true

instance (deviceType : AtaDeviceType) (words : List (BitVec 16)) : Decidable (Lba28Supported deviceType words) :=
  inferInstanceAs (Decidable (_ ∧ _))

instance (deviceType : AtaDeviceType) (words : List (BitVec 16)) : Decidable (Lba48Supported deviceType words) :=
  inferInstanceAs (Decidable (_ ∧ _ ∧ _))

/-- The number in some words, the low one first. -/
def wordsValue (words : List (BitVec 16)) (first : Nat) : Nat → Nat
  | 0 => 0
  | n + 1 => (words.getD first 0).toNat + 2 ^ 16 * wordsValue words (first + 1) n

/-- The sectors that the words speak of. -/
def capacity (deviceType : AtaDeviceType) (words : List (BitVec 16)) : Nat :=
  if Lba48Supported deviceType words ∧ wordsValue words 100 4 ≠ 0 then wordsValue words 100 4
  else if Lba28Supported deviceType words then wordsValue words 60 2 else 0

/-- The string and its zero are what the copy leaves in an array of `dstSize` bytes. -/
def InArray (str : List (BitVec 8)) (dstSize : Nat) (words : List (BitVec 16)) (firstWord wordCount : Nat) : Prop :=
  str = ((swappedBytes words firstWord wordCount).rdropWhile fun c => Trailing c) ∧ str.length < dstSize ∧
    ∀ dst, HasBytes (copyStringArray dst dstSize words firstWord wordCount) 0 (str ++ [0]) ∧
      ∀ i, dstSize ≤ i → copyStringArray dst dstSize words firstWord wordCount i = dst i

/-- The drive is described by the words of a device. -/
structure Describes (drive : AtaDrive) (words : List (BitVec 16)) : Prop where
  length : words.length = 256
  serial : InArray drive.serial 21 words 10 10
  firmware : InArray drive.firmware 9 words 23 4
  model : InArray drive.model 41 words 27 20
  supportsLba28 : drive.supportsLba28 = decide (Lba28Supported drive.type words)
  supportsLba48 : drive.supportsLba48 = decide (Lba48Supported drive.type words)
  sectorCount : drive.sectorCount.toNat = capacity drive.type words

section

variable {words : List (BitVec 16)} {deviceType : AtaDeviceType} {drive : AtaDrive}

theorem and_bit_ne_zero (x : BitVec 16) {k : Nat} (hk : k < 16) :
    x &&& (1 : BitVec 16) <<< k ≠ 0 ↔ x.getLsbD k = true := by
  have hpow : (1 : BitVec 16) <<< k = BitVec.twoPow 16 k := rfl
  have hne : BitVec.twoPow 16 k ≠ 0 := by
    intro h
    have hbit := congrArg (BitVec.getLsbD · k) h
    simp [hk] at hbit
  rw [hpow, BitVec.and_twoPow]
  split
  · exact iff_of_true hne (by assumption)
  · exact iff_of_false (fun h => h rfl) (by assumption)

/-- A valid word 83 has its two upper bits 0 and 1. -/
theorem word83_valid (x : BitVec 16) : x &&& 0xC000 = 0x4000 ↔ x.getLsbD 14 = true ∧ x.getLsbD 15 = false := by
  have hmask : (0xC000 : BitVec 16) = BitVec.twoPow 16 14 ||| BitVec.twoPow 16 15 := by decide
  rw [hmask, BitVec.and_or_distrib_left, BitVec.and_twoPow, BitVec.and_twoPow]
  cases x.getLsbD 14 <;> cases x.getLsbD 15 <;> decide

theorem toNat_word (word : BitVec 16) : (word.setWidth 64).toNat = word.toNat :=
  (BitVec.toNat_setWidth _ _).trans (Nat.mod_eq_of_lt (Nat.lt_trans word.isLt (by decide)))

/-- A word above a number that leaves room for it. -/
theorem toNat_or_word {a : BitVec 64} {k : Nat} (word : BitVec 16) (ha : a.toNat < 2 ^ k) (hk : k ≤ 48) :
    (a ||| word.setWidth 64 <<< k).toNat = a.toNat + 2 ^ k * word.toNat := by
  have hpow : 2 ^ k * 2 ^ 16 ≤ 2 ^ 64 := by
    rw [← Nat.pow_add]
    exact Nat.pow_le_pow_right (by decide) (by omega)
  have hlt : 2 ^ k * word.toNat < 2 ^ 64 :=
    Nat.lt_of_lt_of_le (Nat.mul_lt_mul_of_pos_left word.isLt (Nat.two_pow_pos k)) hpow
  rw [BitVec.toNat_or, BitVec.toNat_shiftLeft, toNat_word, Nat.shiftLeft_eq, Nat.mul_comm, Nat.mod_eq_of_lt hlt,
    Nat.or_comm, ← Nat.two_pow_add_eq_or_of_lt ha, Nat.add_comm]

theorem toNat_sectorCount28 : (sectorCount28 words).toNat = wordsValue words 60 2 := by
  have h0 := (words.getD 60 0).isLt
  have htwo := toNat_or_word (a := (words.getD 60 0).setWidth 64) (k := 16) (words.getD 61 0)
    (by rw [toNat_word]; omega) (by decide)
  rw [sectorCount28, htwo, toNat_word]
  rfl

theorem toNat_sectorCount48 : (sectorCount48 words).toNat = wordsValue words 100 4 := by
  have h0 := (words.getD 100 0).isLt
  have h1 := (words.getD 101 0).isLt
  have h2 := (words.getD 102 0).isLt
  have htwo := toNat_or_word (a := (words.getD 100 0).setWidth 64) (k := 16) (words.getD 101 0)
    (by rw [toNat_word]; omega) (by decide)
  rw [toNat_word] at htwo
  have hthree := toNat_or_word (k := 32) (words.getD 102 0) (show _ < 2 ^ 32 by rw [htwo]; omega) (by decide)
  rw [htwo] at hthree
  have hfour := toNat_or_word (k := 48) (words.getD 103 0) (show _ < 2 ^ 48 by rw [hthree]; omega) (by decide)
  rw [sectorCount48, hfour, hthree]
  simp only [wordsValue, Nat.reduceAdd]
  omega

theorem inArray_ataCopyString {dstSize firstWord wordCount : Nat} (hsize : 2 * wordCount < dstSize)
    (h : firstWord + wordCount ≤ words.length) :
    InArray (ataCopyString dstSize words firstWord wordCount) dstSize words firstWord wordCount :=
  ⟨ataCopyString_eq_swapped hsize h, length_ataCopyString (by omega),
    fun dst => hasBytes_copyStringArray (by omega)⟩

theorem lba28Supported_iff :
    Lba28Supported .ata words ↔ words.getD 49 0 &&& ((1 <<< 9 : Nat) : BitVec 16) ≠ 0 := by
  rw [Lba28Supported, and_iff_right rfl, ← and_bit_ne_zero _ (by decide : 9 < 16)]
  rfl

theorem lba48Supported_iff :
    Lba48Supported .ata words ↔
      words.getD 83 0 &&& 0xC000 = 0x4000 ∧ words.getD 83 0 &&& ((1 <<< 10 : Nat) : BitVec 16) ≠ 0 := by
  rw [Lba48Supported, and_iff_right rfl, word83_valid, ← and_bit_ne_zero _ (by decide : 10 < 16)]
  rfl

/-- The count that the probe writes is the capacity: a count of 0 is a count that is not there. -/
theorem toNat_count {lba28 lba48 : Prop} [Decidable lba28] [Decidable lba48]
    (h28 : Lba28Supported .ata words ↔ lba28) (h48 : Lba48Supported .ata words ↔ lba48) :
    (if (if decide lba48 = true then sectorCount48 words else 0) = 0 ∧ decide lba28 = true then sectorCount28 words
      else if decide lba48 = true then sectorCount48 words else 0).toNat = capacity .ata words := by
  have hzero : sectorCount48 words = 0 ↔ wordsValue words 100 4 = 0 := by
    rw [← toNat_sectorCount48]
    exact ⟨fun h => by rw [h]; rfl, fun h => BitVec.eq_of_toNat_eq h⟩
  simp only [decide_eq_true_eq, capacity, h28, h48, ← toNat_sectorCount28]
  by_cases hlba48 : lba48
  · rw [if_pos hlba48]
    by_cases hcount : sectorCount48 words = 0
    · rw [if_neg fun h : lba48 ∧ wordsValue words 100 4 ≠ 0 => h.2 (hzero.mp hcount), hcount]
      by_cases hlba28 : lba28
      · rw [if_pos ⟨rfl, hlba28⟩, if_pos hlba28]
      · rw [if_neg fun h => hlba28 h.2, if_neg hlba28]
        rfl
    · rw [if_neg fun h => hcount h.1, if_pos ⟨hlba48, fun h => hcount (hzero.mpr h)⟩, toNat_sectorCount48]
  · rw [if_neg hlba48, if_neg fun h : lba48 ∧ wordsValue words 100 4 ≠ 0 => hlba48 h.1]
    by_cases hlba28 : lba28
    · rw [if_pos ⟨rfl, hlba28⟩, if_pos hlba28]
    · rw [if_neg fun h => hlba28 h.2, if_neg hlba28]
      rfl

/-- What the probe writes from the words. -/
theorem describes_describe (hlength : words.length = 256) :
    Describes (describe drive.cleared deviceType words) words ∧
      (describe drive.cleared deviceType words).type = deviceType := by
  have hserial := @inArray_ataCopyString words 21 10 10 (by decide) (by omega)
  have hfirmware := @inArray_ataCopyString words 9 23 4 (by decide) (by omega)
  have hmodel := @inArray_ataCopyString words 41 27 20 (by decide) (by omega)
  rw [describe]
  split
  next hata =>
    subst hata
    refine ⟨⟨hlength, hserial, hfirmware, hmodel, ?_, ?_, ?_⟩, rfl⟩
    · exact decide_eq_decide.mpr lba28Supported_iff.symm
    · exact decide_eq_decide.mpr lba48Supported_iff.symm
    · exact toNat_count lba28Supported_iff lba48Supported_iff
  next hata =>
    refine ⟨⟨hlength, hserial, hfirmware, hmodel, ?_, ?_, ?_⟩, rfl⟩
    · exact (decide_eq_false fun h => hata h.1).symm
    · exact (decide_eq_false fun h => hata h.1).symm
    · rw [capacity, if_neg fun h => hata h.1.1, if_neg fun h => hata h.1]
      rfl

end

/-! ## The probe -/

section

variable {io : BitVec 16} {l : List AtaEvent} {drive : AtaDrive} {channel : AtaChannel} {deviceType : AtaDeviceType}

theorem identifyPacket_type (h : (identifyPacket io).Runs l (.ok deviceType)) : deviceType = .atapi := by
  obtain ⟨low, _, rfl, h₁⟩ := runs_inb_bind.mp h
  obtain ⟨high, _, rfl, h₂⟩ := runs_inb_bind.mp h₁
  split at h₂
  · obtain ⟨l₁, _, l₂, rfl, -, h₃⟩ := runs_bind.mp h₂
    obtain ⟨l₃, answer, l₄, rfl, -, h₄⟩ := runs_bind.mp h₃
    split at h₄
    · split at h₄
      · exact absurd h₄.2 (by simp)
      · split at h₄
        · exact absurd h₄.2 (by simp)
        · exact Except.ok.inj h₄.2
    · exact absurd h₄.2 (by simp)
  · exact absurd h₂.2 (by simp)

/-- A probe that goes on has found a disk or an ATAPI device. -/
theorem identify_type (h : (identify drive channel).Runs l (.ok deviceType)) :
    deviceType = .ata ∨ deviceType = .atapi := by
  obtain ⟨l₁, _, l₂, rfl, -, h₁⟩ := runs_bind.mp h
  obtain ⟨l₃, ready, l₄, rfl, -, h₂⟩ := runs_bind.mp h₁
  split at h₂
  · obtain ⟨l₅, _, l₆, rfl, -, h₃⟩ := runs_bind.mp h₂
    obtain ⟨l₇, _, l₈, rfl, -, h₄⟩ := runs_bind.mp h₃
    obtain ⟨l₉, answer, l₁₀, rfl, -, h₅⟩ := runs_bind.mp h₄
    split at h₅
    · split at h₅
      · exact absurd h₅.2 (by simp)
      · split at h₅
        · exact .inr (identifyPacket_type h₅)
        · split at h₅
          · exact absurd h₅.2 (by simp)
          · exact .inl (Except.ok.inj h₅.2)
    · exact absurd h₅.2 (by simp)
  · exact absurd h₂.2 (by simp)

/-- The result and the drive say the same: the device and what its words are, or no device. -/
inductive Agree (words : List (BitVec 16)) : AtaProbe → AtaDrive → Prop
  | ata {drive : AtaDrive} : drive.type = .ata → Describes drive words → Agree words .ata drive
  | atapi {drive : AtaDrive} : drive.type = .atapi → Describes drive words → Agree words .atapi drive
  | absent {result : AtaProbe} {drive : AtaDrive} : Absent result → Reset drive → Agree words result drive

theorem probePhase_agree {r : AtaProbe × AtaDrive} (h : (probePhase drive.cleared channel).Runs l r) :
    Agree (identifyWords channel.ioBase l) r.1 r.2 := by
  obtain ⟨l₁, answer, l₂, rfl, hidentify, h₂⟩ := runs_bind.mp h
  cases answer with
  | error result =>
    obtain ⟨rfl, rfl⟩ := h₂
    exact .absent (identify_error hidentify) drive.reset_cleared
  | ok deviceType =>
    obtain ⟨l₃, words, l₄, rfl, hread, h₄⟩ := runs_bind.mp h₂
    obtain ⟨hwords, hlength⟩ := readIdentify_words hread
    have hlog : l₄ = [] → identifyWords channel.ioBase (l₁ ++ (l₃ ++ l₄)) = words := by
      rintro rfl
      rw [List.append_nil, identifyWords_append, identifyWords_of_asks asks_identify hidentify, hwords]
      rfl
    split at h₄
    · obtain ⟨hnil, rfl⟩ := h₄
      exact .absent ⟨nofun, nofun⟩ drive.reset_cleared
    · obtain ⟨hnil, rfl⟩ := h₄
      rw [hlog hnil]
      obtain ⟨hdescribes, htype⟩ := @describes_describe words deviceType drive hlength
      rcases identify_type hidentify with rfl | rfl
      · exact .ata htype hdescribes
      · exact .atapi htype hdescribes

/-- A result that names a device. -/
def Present (result : AtaProbe) : Prop := result = .ata ∨ result = .atapi

theorem Agree.type_iff {words : List (BitVec 16)} {result : AtaProbe} (h : Agree words result drive) :
    drive.type ≠ .none ↔ Present result := by
  cases h with
  | ata htype _ => exact iff_of_true (by rw [htype]; decide) (.inl rfl)
  | atapi htype _ => exact iff_of_true (by rw [htype]; decide) (.inr rfl)
  | absent habsent hreset => exact iff_of_false (fun h => h hreset.type) fun h => h.elim habsent.1 habsent.2

/-- A probe that is given no drive, or a drive without a channel, asks no device and writes nothing. -/
theorem ataProbeDevice_unasked {σ : Type} (h : Handler AtaOp AtaAns σ) (s : σ) {d : Option AtaDrive}
    (hd : d.bind AtaDrive.channel = none) :
    (run h (ataProbeDevice d) s).1 = (.protocolError, d) ∧ trace h (ataProbeDevice d) s = [] := by
  cases d with
  | none => exact ⟨rfl, rfl⟩
  | some drive =>
    rw [Option.bind_some] at hd
    simp only [ataProbeDevice, hd]
    exact ⟨rfl, rfl⟩

/-- **A probe leaves what it reports.**  Whatever the device answers, the drive has a type exactly if the result names a
device.  On every other result the drive is reset, and on a result that names a device it is described by the words read
from the data port. -/
theorem ataProbeDevice_identifies {σ : Type} (h : Handler AtaOp AtaAns σ) (s : σ) (drive : AtaDrive)
    (channel : AtaChannel) (hc : drive.channel = some channel) :
    ∃ d, (run h (ataProbeDevice (some drive)) s).1.2 = some d ∧
      (d.type ≠ .none ↔ Present (run h (ataProbeDevice (some drive)) s).1.1) ∧
      (¬ Present (run h (ataProbeDevice (some drive)) s).1.1 → Reset d) ∧
      (Present (run h (ataProbeDevice (some drive)) s).1.1 →
        (run h (ataProbeDevice (some drive)) s).1.1 = d.type.probe ∧
          Describes d (identifyWords channel.ioBase (trace h (ataProbeDevice (some drive)) s))) := by
  have hruns := runs_trace h (ataProbeDevice (some drive)) s
  generalize (run h (ataProbeDevice (some drive)) s).1 = r at hruns ⊢
  generalize trace h (ataProbeDevice (some drive)) s = l at hruns ⊢
  simp only [ataProbeDevice, hc] at hruns
  obtain ⟨m, ⟨result, d⟩, rfl, hphase, rfl⟩ := runs_locked.mp hruns
  have hagree := probePhase_agree hphase
  rw [identifyWords_locked]
  refine ⟨d, rfl, hagree.type_iff, ?_, ?_⟩
  · intro hpresent
    cases hagree with
    | ata => exact absurd (.inl rfl) hpresent
    | atapi => exact absurd (.inr rfl) hpresent
    | absent _ hreset => exact hreset
  · intro hpresent
    cases hagree with
    | ata htype hdescribes => exact ⟨by rw [htype]; rfl, hdescribes⟩
    | atapi htype hdescribes => exact ⟨by rw [htype]; rfl, hdescribes⟩
    | absent habsent _ => exact (hpresent.elim habsent.1 habsent.2).elim

/-- A disk that is ready whenever it is asked. -/
def answerDisk (word : BitVec 16) : Handler AtaOp AtaAns Unit
  | .inb _, s => (0x58, s)
  | .inw _, s => (word, s)
  | .load _, s => (0, s)
  | .outb _ _, s | .outw _ _, s | .store _ _, s | .lock, s | .unlock, s => ((), s)

theorem ataProbeDevice_identifies_disk :
    let drive : AtaDrive := ⟨some ⟨0x1F0, 0x3F6⟩, false, .none, false, false, 7, [0x41], [], [], 0⟩
    let r := run (answerDisk 0x4620) (ataProbeDevice (some drive)) ()
    ∃ d, r.1 = (.ata, some d) ∧ d.sectorCount = 0x4620462046204620 ∧
      d.firmware = [0x46, 0x20, 0x46, 0x20, 0x46, 0x20, 0x46] ∧
      Describes d (identifyWords 0x1F0 (trace (answerDisk 0x4620) (ataProbeDevice (some drive)) ())) := by
  intro drive r
  have hresult : r.1.1 = .ata ∧ r.1.2.map AtaDrive.sectorCount = some 0x4620462046204620 ∧
      r.1.2.map AtaDrive.firmware = some [0x46, 0x20, 0x46, 0x20, 0x46, 0x20, 0x46] := by
    decide +kernel
  obtain ⟨d, hd, -, -, hfound⟩ := ataProbeDevice_identifies (answerDisk 0x4620) () drive ⟨0x1F0, 0x3F6⟩ rfl
  have hr2 : r.1.2 = some d := hd
  rw [hr2] at hresult
  obtain ⟨hata, hcount, hfirmware⟩ := hresult
  exact ⟨d, Prod.ext hata hr2, Option.some.inj hcount, Option.some.inj hfirmware, (hfound (.inl hata)).2⟩

end

end Ata

end Dem64
