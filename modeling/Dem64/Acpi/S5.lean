import Dem64.Acpi.Tables

/-!
# The sleep types of `_S5_`

To power off, `AcpiPM` (`acpiPM.cpp`) looks for the bytes `"_S5_"` behind the header of the DSDT and takes the first two
integers of the package with that name.  In the AML a package is `0x12`, a length of one to four bytes, the number of
its elements and the elements; an integer is one of seven encodings.

`find_types` starts seven bytes behind the name, where the elements are if the length has one byte.  With a longer length
it reads a part of the length, or the number of elements, for the first integer (`s5_right_iff`).
-/

set_option autoImplicit false

namespace Dem64.Acpi

open Interaction Interaction.Prog ByteMemory

/-! ## `acpiPM.cpp` -/

/-- `is_s5`, with offsets from the table; a character is read when those before it are right. -/
def isS5 (dsdt name : Nat) : AcpiM Bool := do
  let c0 ← field dsdt name 1
  if c0 ≠ 0x5F then pure false
  else do
    let c1 ← field dsdt (name + 1) 1
    if c1 ≠ 0x53 then pure false
    else do
      let c2 ← field dsdt (name + 2) 1
      if c2 ≠ 0x35 then pure false
      else do
        let c3 ← field dsdt (name + 3) 1
        pure (c3 = 0x5F)

/-- `search_for_s5`, over the positions that are left. -/
def searchForS5 (dsdt : Nat) : Nat → Nat → AcpiM (Option Nat)
  | 0, _ => pure none
  | left + 1, i => do
    if ← isS5 dsdt i then pure (some i)
    else searchForS5 dsdt left (i + 1)

/-- `aml_parse`: the value, and where the next one starts. -/
def amlParse (dsdt amlBase : Nat) : AcpiM (BitVec 64 × Nat) := do
  let type ← field dsdt amlBase 1
  if type = 0x00 then pure (0, amlBase + 1)
  else if type = 0x01 then pure (1, amlBase + 1)
  else if type = 0xFF then pure (~~~0, amlBase + 1)
  else if type = 0x0A then do
    let val8 ← field dsdt (amlBase + 1) 1
    pure (val8, amlBase + 2)
  else if type = 0x0B then do
    let val16 ← field dsdt (amlBase + 1) 2
    pure (val16, amlBase + 3)
  else if type = 0x0C then do
    let val32 ← field dsdt (amlBase + 1) 4
    pure (val32, amlBase + 5)
  else if type = 0x0E then do
    let val64 ← field dsdt (amlBase + 1) 8
    pure (val64, amlBase + 9)
  else pure (0xFF, amlBase + 1)

/-- `find_types` -/
def findTypes (dsdt s5Base : Nat) : AcpiM (BitVec 64 × BitVec 64) := do
  let (pm1aType, base) ← amlParse dsdt (s5Base + 7)
  let (pm1bType, _) ← amlParse dsdt base
  pure (pm1aType, pm1bType)

/-- What `AcpiPM` does for `pm1a_type` and `pm1b_type`. -/
def sleepTypes (dsdt : Nat) : AcpiM (BitVec 64 × BitVec 64) := do
  let length ← header dsdt 4 4
  let s5Base ← searchForS5 dsdt (length.toNat - sizeofHeader) sizeofHeader
  match s5Base with
  | none => pure (0xFF, 0xFF)
  | some s5Base => findTypes dsdt s5Base

/-! ## AML -/

/-- The number that bytes spell, the low one first. -/
def wordOf : List (BitVec 8) → Nat
  | [] => 0
  | b :: l => b.toNat + 2 ^ 8 * wordOf l

/-- The bytes are an integer of AML. -/
inductive Encodes : List (BitVec 8) → BitVec 64 → Prop
  | zeroOp : Encodes [0x00] 0
  | oneOp : Encodes [0x01] 1
  | onesOp : Encodes [0xFF] (~~~0)
  | byteConst {l : List (BitVec 8)} (h : l.length = 1) : Encodes (0x0A :: l) (.ofNat 64 (wordOf l))
  | wordConst {l : List (BitVec 8)} (h : l.length = 2) : Encodes (0x0B :: l) (.ofNat 64 (wordOf l))
  | dwordConst {l : List (BitVec 8)} (h : l.length = 4) : Encodes (0x0C :: l) (.ofNat 64 (wordOf l))
  | qwordConst {l : List (BitVec 8)} (h : l.length = 8) : Encodes (0x0E :: l) (.ofNat 64 (wordOf l))

/-- The bytes are a `PkgLength`, and this is the length: the first byte has the number of the others above its bit 6,
and the low bits of the length, six when there are no others and four when there are. -/
inductive PkgLength : List (BitVec 8) → Nat → Prop
  | short {lead : BitVec 8} (h : lead.toNat < 2 ^ 6) : PkgLength [lead] lead.toNat
  | long {lead : BitVec 8} {l : List (BitVec 8)} (hpos : 0 < l.length) (h : l.length ≤ 3)
      (hlead : lead.toNat / 2 ^ 4 = 4 * l.length) : PkgLength (lead :: l) (lead.toNat % 2 ^ 4 + 2 ^ 4 * wordOf l)

/-- `"_S5_"` -/
def s5Name : List (BitVec 8) := [0x5F, 0x53, 0x35, 0x5F]

/-- The definition of a package with this name and these elements, of which there are `count` in all. -/
def packageBytes (pkg : List (BitVec 8)) (count : BitVec 8) (first second more : List (BitVec 8)) : List (BitVec 8) :=
  s5Name ++ 0x12 :: (pkg ++ count :: (first ++ second ++ more))

/-- At `offset` the DSDT has the package `_S5_`, with the bytes `pkg` for its length and two integers first, and no
`"_S5_"` before it. -/
structure HasS5 (memory : Nat → BitVec 8) (dsdt offset : Nat) (pkg : List (BitVec 8)) (pm1a pm1b : BitVec 64) :
    Prop where
  behindHeader : sizeofHeader ≤ offset
  first : ∀ i, sizeofHeader ≤ i → i < offset → ¬ HasBytes memory (dsdt + i) s5Name
  package : ∃ count first second more, 2 ≤ count.toNat ∧ Encodes first pm1a ∧ Encodes second pm1b ∧
    PkgLength pkg (pkg.length + 1 + (first ++ second ++ more).length) ∧
    HasBytes memory (dsdt + offset) (packageBytes pkg count first second more) ∧
    offset + (packageBytes pkg count first second more).length ≤ declaredLength memory dsdt

/-! ## The search -/

section

variable {memory : Nat → BitVec 8} {dsdt offset i left : Nat}

theorem loadBytes_one (a : Nat) : loadBytes memory a 1 = (memory a).setWidth 64 := by
  apply BitVec.eq_of_toNat_eq
  have h := (memory a).isLt
  rw [loadBytes, bytesValue, bytesValue, BitVec.toNat_ofNat, BitVec.toNat_setWidth]
  omega

/-- A byte that has been loaded. -/
theorem loadBytes_one_eq_iff {a : Nat} {b : BitVec 8} : loadBytes memory a 1 = b.setWidth 64 ↔ memory a = b := by
  rw [loadBytes_one]
  constructor
  · intro h
    have hnat := congrArg BitVec.toNat h
    have h1 := (memory a).isLt
    have h2 := b.isLt
    rw [BitVec.toNat_setWidth, BitVec.toNat_setWidth] at hnat
    exact BitVec.eq_of_toNat_eq (by omega)
  · rintro rfl
    rfl

theorem run_isS5 : (run (tables memory) (isS5 dsdt i) ()).1 = decide (HasBytes memory (dsdt + i) s5Name) := by
  have h0 : loadBytes memory (dsdt + i) 1 = 0x5F ↔ memory (dsdt + i) = 0x5F :=
    loadBytes_one_eq_iff (b := 0x5F)
  have h1 : loadBytes memory (dsdt + (i + 1)) 1 = 0x53 ↔ memory (dsdt + (i + 1)) = 0x53 :=
    loadBytes_one_eq_iff (b := 0x53)
  have h2 : loadBytes memory (dsdt + (i + 2)) 1 = 0x35 ↔ memory (dsdt + (i + 2)) = 0x35 :=
    loadBytes_one_eq_iff (b := 0x35)
  have h3 : loadBytes memory (dsdt + (i + 3)) 1 = 0x5F ↔ memory (dsdt + (i + 3)) = 0x5F :=
    loadBytes_one_eq_iff (b := 0x5F)
  have hname : HasBytes memory (dsdt + i) s5Name ↔ memory (dsdt + i) = 0x5F ∧ memory (dsdt + (i + 1)) = 0x53 ∧
      memory (dsdt + (i + 2)) = 0x35 ∧ memory (dsdt + (i + 3)) = 0x5F := by
    simp only [s5Name, HasBytes, Nat.add_assoc, and_true]
  rw [isS5, run_bind, run_field]
  by_cases hc0 : memory (dsdt + i) = 0x5F
  · rw [if_neg (not_not.mpr (h0.mpr hc0)), run_bind, run_field]
    by_cases hc1 : memory (dsdt + (i + 1)) = 0x53
    · rw [if_neg (not_not.mpr (h1.mpr hc1)), run_bind, run_field]
      by_cases hc2 : memory (dsdt + (i + 2)) = 0x35
      · rw [if_neg (not_not.mpr (h2.mpr hc2)), run_bind, run_field]
        exact decide_eq_decide.mpr (h3.trans ⟨fun h => hname.mpr ⟨hc0, hc1, hc2, h⟩, fun h => (hname.mp h).2.2.2⟩)
      · rw [if_pos (mt h2.mp hc2)]
        exact (decide_eq_false fun h => hc2 (hname.mp h).2.2.1).symm
    · rw [if_pos (mt h1.mp hc1)]
      exact (decide_eq_false fun h => hc1 (hname.mp h).2.1).symm
  · rw [if_pos (mt h0.mp hc0)]
    exact (decide_eq_false fun h => hc0 (hname.mp h).1).symm

theorem allAsked_isS5 (h : i + 4 ≤ declaredLength memory dsdt) :
    AllAsked (tables memory) (InDeclared memory) (isS5 dsdt i) () := by
  refine allAsked_field_bind.mpr ⟨by omega, ?_⟩
  split
  · exact allAsked_pure _ _ _
  refine allAsked_field_bind.mpr ⟨by omega, ?_⟩
  split
  · exact allAsked_pure _ _ _
  refine allAsked_field_bind.mpr ⟨by omega, ?_⟩
  split
  · exact allAsked_pure _ _ _
  exact allAsked_field_bind.mpr ⟨by omega, allAsked_pure _ _ _⟩

/-- **The search ends at the first name**, and reads nothing behind it. -/
theorem searchForS5_first (hname : HasBytes memory (dsdt + offset) s5Name) (hi : i ≤ offset)
    (hleft : offset < i + left) (hfirst : ∀ j, i ≤ j → j < offset → ¬ HasBytes memory (dsdt + j) s5Name)
    (hroom : offset + 4 ≤ declaredLength memory dsdt) :
    (run (tables memory) (searchForS5 dsdt left i) ()).1 = some offset ∧
      AllAsked (tables memory) (InDeclared memory) (searchForS5 dsdt left i) () := by
  induction left generalizing i with
  | zero => omega
  | succ left ih =>
    have hhere : AllAsked (tables memory) (InDeclared memory) (isS5 dsdt i) () := allAsked_isS5 (by omega)
    rw [searchForS5, run_bind, allAsked_bind, run_isS5]
    rcases Nat.eq_or_lt_of_le hi with rfl | hlt
    · rw [if_pos (decide_eq_true hname)]
      exact ⟨rfl, hhere, allAsked_pure _ _ _⟩
    · have hno := hfirst i (Nat.le_refl i) hlt
      rw [if_neg (by simpa using hno)]
      obtain ⟨hrun, hall⟩ := ih hlt (by omega) fun j hj => hfirst j (by omega)
      exact ⟨hrun, hhere, hall⟩

/-! ## The integers -/

theorem bytesValue_eq_wordOf {a : Nat} {l : List (BitVec 8)} (h : HasBytes memory a l) :
    bytesValue memory a l.length = wordOf l := by
  induction l generalizing a with
  | nil => rfl
  | cons b l ih => rw [List.length_cons, bytesValue, wordOf, h.1, ih h.2]

/-- **An encoded integer is decoded**, and what is read of it lies in it. -/
theorem amlParse_encodes {l : List (BitVec 8)} {v : BitVec 64} (henc : Encodes l v)
    (h : HasBytes memory (dsdt + i) l) (hroom : i + l.length ≤ declaredLength memory dsdt) :
    (run (tables memory) (amlParse dsdt i) ()).1 = (v, i + l.length) ∧
      AllAsked (tables memory) (InDeclared memory) (amlParse dsdt i) () := by
  have htype : ∀ b : BitVec 8, memory (dsdt + i) = b → loadBytes memory (dsdt + i) 1 = b.setWidth 64 :=
    fun b hb => loadBytes_one_eq_iff.mpr hb
  have hdata : ∀ (b : BitVec 8) (data : List (BitVec 8)), HasBytes memory (dsdt + i) (b :: data) →
      loadBytes memory (dsdt + (i + 1)) data.length = .ofNat 64 (wordOf data) := by
    intro b data hb
    rw [loadBytes, ← Nat.add_assoc, bytesValue_eq_wordOf hb.2]
  rw [amlParse, run_bind, run_field, allAsked_field_bind]
  cases henc with
  | zeroOp =>
    rw [htype _ h.1]
    exact ⟨rfl, hroom, allAsked_pure _ _ _⟩
  | oneOp =>
    rw [htype _ h.1]
    exact ⟨rfl, hroom, allAsked_pure _ _ _⟩
  | onesOp =>
    rw [htype _ h.1]
    exact ⟨rfl, hroom, allAsked_pure _ _ _⟩
  | byteConst hl =>
    have hload := hdata _ _ h
    rw [List.length_cons, hl] at hroom ⊢
    rw [hl] at hload
    rw [htype _ h.1]
    refine ⟨?_, by omega, allAsked_field_bind.mpr ⟨by omega, allAsked_pure _ _ _⟩⟩
    show (loadBytes memory (dsdt + (i + 1)) 1, i + 2) = _
    rw [hload]
  | wordConst hl =>
    have hload := hdata _ _ h
    rw [List.length_cons, hl] at hroom ⊢
    rw [hl] at hload
    rw [htype _ h.1]
    refine ⟨?_, by omega, allAsked_field_bind.mpr ⟨by omega, allAsked_pure _ _ _⟩⟩
    show (loadBytes memory (dsdt + (i + 1)) 2, i + 3) = _
    rw [hload]
  | dwordConst hl =>
    have hload := hdata _ _ h
    rw [List.length_cons, hl] at hroom ⊢
    rw [hl] at hload
    rw [htype _ h.1]
    refine ⟨?_, by omega, allAsked_field_bind.mpr ⟨by omega, allAsked_pure _ _ _⟩⟩
    show (loadBytes memory (dsdt + (i + 1)) 4, i + 5) = _
    rw [hload]
  | qwordConst hl =>
    have hload := hdata _ _ h
    rw [List.length_cons, hl] at hroom ⊢
    rw [hl] at hload
    rw [htype _ h.1]
    refine ⟨?_, by omega, allAsked_field_bind.mpr ⟨by omega, allAsked_pure _ _ _⟩⟩
    show (loadBytes memory (dsdt + (i + 1)) 8, i + 9) = _
    rw [hload]

/-- The search ends at the package. -/
theorem sleepTypes_found {pkg : List (BitVec 8)} {pm1a pm1b : BitVec 64} (h : HasS5 memory dsdt offset pkg pm1a pm1b) :
    (run (tables memory) (sleepTypes dsdt) ()).1 = (run (tables memory) (findTypes dsdt offset) ()).1 ∧
      (AllAsked (tables memory) (InDeclared memory) (sleepTypes dsdt) () ↔
        AllAsked (tables memory) (InDeclared memory) (findTypes dsdt offset) ()) := by
  obtain ⟨hheader, hfirst, count, first, second, more, -, -, -, -, hbytes, hroom⟩ := h
  rw [packageBytes, List.length_append] at hroom
  have hname : s5Name.length = 4 := rfl
  obtain ⟨hrun, hall⟩ := searchForS5_first (HasBytes.append_iff.mp hbytes).1 hheader
    (show offset < sizeofHeader + (declaredLength memory dsdt - sizeofHeader) by omega) hfirst (by omega)
  rw [sleepTypes, run_bind, run_header, run_bind, allAsked_header_bind, allAsked_bind, ← declaredLength, hrun]
  exact ⟨rfl, and_iff_right hall⟩

/-- A length of one byte, and the elements are where `find_types` looks. -/
theorem findTypes_short {pkg : List (BitVec 8)} {pm1a pm1b : BitVec 64} (h : HasS5 memory dsdt offset pkg pm1a pm1b)
    (hpkg : pkg.length = 1) :
    (run (tables memory) (findTypes dsdt offset) ()).1 = (pm1a, pm1b) ∧
      AllAsked (tables memory) (InDeclared memory) (findTypes dsdt offset) () := by
  obtain ⟨-, -, count, first, second, more, -, hfirst, hsecond, -, hbytes, hroom⟩ := h
  obtain ⟨lead, rfl⟩ := List.length_eq_one_iff.mp hpkg
  have hlength : (packageBytes [lead] count first second more).length =
      7 + first.length + second.length + more.length := by
    simp only [packageBytes, s5Name, List.length_append, List.length_cons, List.length_nil]
    omega
  have helements : HasBytes memory (dsdt + (offset + 7)) (first ++ second ++ more) := by
    simp only [packageBytes, s5Name, List.cons_append, List.nil_append, HasBytes, Nat.add_assoc] at hbytes
    exact hbytes.2.2.2.2.2.2.2
  rw [List.append_assoc, HasBytes.append_iff, HasBytes.append_iff, Nat.add_assoc dsdt] at helements
  obtain ⟨hrun₁, hall₁⟩ := amlParse_encodes hfirst helements.1 (by omega)
  obtain ⟨hrun₂, hall₂⟩ := amlParse_encodes hsecond helements.2.1 (by omega)
  rw [findTypes, run_bind, allAsked_bind, hrun₁]
  refine ⟨?_, hall₁, ?_⟩
  · rw [run_bind, hrun₂]
    rfl
  · exact (allAsked_bind _).mpr ⟨hall₂, allAsked_pure _ _ _⟩

end

/-! ## A longer length -/

section

variable {memory : Nat → BitVec 8} {dsdt i a : Nat}

/-- The integer that `aml_parse` finds. -/
def amlValue (memory : Nat → BitVec 8) (dsdt amlBase : Nat) : BitVec 64 :=
  (run (tables memory) (amlParse dsdt amlBase) ()).1.1

theorem bytesValue_eq_zero {n : Nat} (h : bytesValue memory a n = 0) : ∀ j, j < n → memory (a + j) = 0 := by
  induction n generalizing a with
  | zero => exact fun j hj => absurd hj (Nat.not_lt_zero j)
  | succ n ih =>
    rw [bytesValue] at h
    intro j hj
    cases j with
    | zero => exact BitVec.eq_of_toNat_eq (show (memory a).toNat = 0 by omega)
    | succ j =>
      have hrest := ih (show bytesValue memory (a + 1) n = 0 by omega) j (by omega)
      rwa [Nat.add_assoc, Nat.add_comm 1] at hrest

theorem loadBytes_eq_zero {n : Nat} (hn : n ≤ 8) (h : loadBytes memory a n = 0) :
    ∀ j, j < n → memory (a + j) = 0 := by
  have hlt := @bytesValue_lt memory a n
  have hpow : 2 ^ (8 * n) ≤ 2 ^ 64 := Nat.pow_le_pow_right (by decide) (by omega)
  have hzero := congrArg BitVec.toNat h
  rw [loadBytes, BitVec.toNat_ofNat, Nat.mod_eq_of_lt (by omega)] at hzero
  exact bytesValue_eq_zero hzero

/-- What zero looks like to `aml_parse`. -/
theorem amlValue_eq_zero (h : amlValue memory dsdt i = 0) : memory (dsdt + i) = 0 ∨
    memory (dsdt + i) = 0x0A ∧ memory (dsdt + (i + 1)) = 0 ∨
    memory (dsdt + i) ≠ 2 ∧ memory (dsdt + (i + 1)) = 0 ∧ memory (dsdt + (i + 2)) = 0 := by
  have htype : ∀ b : BitVec 8, loadBytes memory (dsdt + i) 1 = b.setWidth 64 → memory (dsdt + i) = b :=
    fun b hb => loadBytes_one_eq_iff.mp hb
  have hdata : ∀ n, 2 ≤ n → n ≤ 8 → loadBytes memory (dsdt + (i + 1)) n = 0 →
      memory (dsdt + (i + 1)) = 0 ∧ memory (dsdt + (i + 2)) = 0 := by
    intro n h2 h8 hn
    exact ⟨loadBytes_eq_zero h8 hn 0 (by omega), loadBytes_eq_zero h8 hn 1 (by omega)⟩
  rw [amlValue, amlParse, run_bind, run_field] at h
  split at h
  next h0 => exact .inl (htype 0x00 h0)
  next =>
  split at h
  next => exact absurd (show (1 : BitVec 64) = 0 from h) (by decide)
  next =>
  split at h
  next => exact absurd (show (~~~0 : BitVec 64) = 0 from h) (by decide)
  next =>
  split at h
  next hop => exact .inr (.inl ⟨htype 0x0A hop, loadBytes_eq_zero (by decide) h 0 (by decide)⟩)
  next =>
  split at h
  next hop => exact .inr (.inr ⟨by rw [htype 0x0B hop]; decide, hdata 2 (by decide) (by decide) h⟩)
  next =>
  split at h
  next hop => exact .inr (.inr ⟨by rw [htype 0x0C hop]; decide, hdata 4 (by decide) (by decide) h⟩)
  next =>
  split at h
  next hop => exact .inr (.inr ⟨by rw [htype 0x0E hop]; decide, hdata 8 (by decide) (by decide) h⟩)
  next => exact absurd (show (0xFF : BitVec 64) = 0 from h) (by decide)

theorem amlValue_zeroOp (h : memory (dsdt + i) = 0) : amlValue memory dsdt i = 0 := by
  have hload : loadBytes memory (dsdt + i) 1 = 0 := by rw [loadBytes_one, h]; rfl
  rw [amlValue, amlParse, run_bind, run_field, if_pos hload]
  rfl

theorem amlValue_byteConst (h : memory (dsdt + i) = 0x0A) (h' : memory (dsdt + (i + 1)) = 0) :
    amlValue memory dsdt i = 0 := by
  have hload : loadBytes memory (dsdt + i) 1 = 0x0A := by rw [loadBytes_one, h]; rfl
  have hload' : loadBytes memory (dsdt + (i + 1)) 1 = 0 := by rw [loadBytes_one, h']; rfl
  rw [amlValue, amlParse, run_bind, run_field, hload]
  exact hload'

/-- What `find_types` returns first. -/
theorem findTypes_fst {s5Base : Nat} :
    (run (tables memory) (findTypes dsdt s5Base) ()).1.1 = amlValue memory dsdt (s5Base + 7) := by
  rw [findTypes, run_bind, run_bind]
  rfl

end

/-! ## When the sleep types are right -/

/-- The two integers of the package, from bytes of the table. -/
structure S5Right (memory : Nat → BitVec 8) (dsdt : Nat) (pm1a pm1b : BitVec 64) : Prop where
  types : (run (tables memory) (sleepTypes dsdt) ()).1 = (pm1a, pm1b)
  inside : AllAsked (tables memory) (InDeclared memory) (sleepTypes dsdt) ()

/-- A DSDT at 0 that is nothing but a package `_S5_`, with the integers `op` and `ZeroOp` and then zeros, so that it has
the length `total`. -/
def s5Memory (pkg : List (BitVec 8)) (total : Nat) (op : BitVec 8) : Nat → BitVec 8 :=
  putBytes (putBytes (fun _ => 0) 4 [0xFF, 0xFF, 0xFF, 0xFF]) sizeofHeader
    (packageBytes pkg 2 [op] [0x00] (List.replicate (total - (pkg.length + 3)) 0))

section

variable {pkg : List (BitVec 8)} {total : Nat} {op op' : BitVec 8} {v : BitVec 64}

theorem wordOf_lt (l : List (BitVec 8)) : wordOf l < 2 ^ (8 * l.length) := by
  induction l with
  | nil => exact Nat.one_pos
  | cons b l ih =>
    have hbyte := b.isLt
    rw [wordOf, List.length_cons, Nat.mul_succ, Nat.pow_add, Nat.mul_comm (2 ^ (8 * l.length))]
    omega

theorem PkgLength.lt (h : PkgLength pkg total) : total < 2 ^ 28 := by
  cases h with
  | short h => omega
  | @long lead l hpos h hlead =>
    have hword := wordOf_lt l
    have hpow : 2 ^ (8 * l.length) ≤ 2 ^ 24 := Nat.pow_le_pow_right (by decide) (by omega)
    omega

theorem declaredLength_s5Memory : declaredLength (s5Memory pkg total op) 0 = 0xFFFFFFFF := by
  have hlow : ∀ x, x < sizeofHeader →
      s5Memory pkg total op x = putBytes (fun _ => 0) 4 [0xFF, 0xFF, 0xFF, 0xFF] x := fun x hx => putBytes_of_lt hx
  simp only [declaredLength, loadBytes, bytesValue, Nat.zero_add, hlow _ (show 4 < sizeofHeader by decide),
    hlow _ (show 4 + 1 < sizeofHeader by decide), hlow _ (show 4 + 1 + 1 < sizeofHeader by decide),
    hlow _ (show 4 + 1 + 1 + 1 < sizeofHeader by decide)]
  rfl

theorem hasS5_s5Memory (hpkg : PkgLength pkg total) (hroom : pkg.length + 3 ≤ total) (hop : Encodes [op] v) :
    HasS5 (s5Memory pkg total op) 0 sizeofHeader pkg v 0 := by
  have hlt := hpkg.lt
  refine ⟨Nat.le_refl _, fun i h1 h2 => by omega, 2, [op], [0x00], List.replicate (total - (pkg.length + 3)) 0,
    by decide, hop, .zeroOp, ?_, ?_, ?_⟩
  · have htotal : pkg.length + 1 + ([op] ++ [0x00] ++ List.replicate (total - (pkg.length + 3)) (0 : BitVec 8)).length =
        total := by
      simp only [List.length_append, List.length_cons, List.length_nil, List.length_replicate]
      omega
    rw [htotal]
    exact hpkg
  · rw [Nat.zero_add]
    exact hasBytes_putBytes
  · simp only [declaredLength_s5Memory, packageBytes, s5Name, sizeofHeader, List.length_append, List.length_cons,
      List.length_nil, List.length_replicate]
    omega

/-- In front of the first integer. -/
theorem hasBytes_s5Memory : HasBytes (s5Memory pkg total op) 36 (s5Name ++ 0x12 :: (pkg ++ [2])) := by
  have hbytes : HasBytes (s5Memory pkg total op) 36
      (packageBytes pkg 2 [op] [0x00] (List.replicate (total - (pkg.length + 3)) 0)) := hasBytes_putBytes
  have hsplit : packageBytes pkg 2 [op] [0x00] (List.replicate (total - (pkg.length + 3)) 0) =
      (s5Name ++ 0x12 :: (pkg ++ [2])) ++ (op :: 0x00 :: List.replicate (total - (pkg.length + 3)) 0) := by
    simp [packageBytes]
  rw [hsplit, HasBytes.append_iff] at hbytes
  exact hbytes.1

/-- The first integer, if it is right. -/
theorem S5Right.amlValue (hpkg : PkgLength pkg total) (hroom : pkg.length + 3 ≤ total) (hop : Encodes [op] v)
    (h : S5Right (s5Memory pkg total op) 0 v 0) : amlValue (s5Memory pkg total op) 0 43 = v := by
  have htypes := h.types
  rw [(sleepTypes_found (hasS5_s5Memory hpkg hroom hop)).1] at htypes
  have hfst := @findTypes_fst (s5Memory pkg total op) 0 sizeofHeader
  rw [htypes] at hfst
  exact hfst.symm

theorem PkgLength.length_le (h : PkgLength pkg total) : 1 ≤ pkg.length ∧ pkg.length ≤ 4 := by
  cases h with
  | short h => exact ⟨Nat.le_refl 1, Nat.le_add_left 1 3⟩
  | long hpos h hlead =>
    rw [List.length_cons]
    omega

/-- What `find_types` takes for the first integer does not depend on the integer, or is not 0. -/
theorem amlValue_of_long {memory memory' : Nat → BitVec 8} (hpos : 2 ≤ pkg.length) (hle : pkg.length ≤ 4)
    (h : HasBytes memory 36 (s5Name ++ 0x12 :: (pkg ++ [2])))
    (h' : HasBytes memory' 36 (s5Name ++ 0x12 :: (pkg ++ [2]))) (hzero : amlValue memory 0 43 = 0) :
    amlValue memory' 0 43 = 0 := by
  rcases pkg with _ | ⟨lead, _ | ⟨b, _ | ⟨c, _ | ⟨d, _ | ⟨e, l⟩⟩⟩⟩⟩
  · cases hpos
  · exact absurd hpos (Nat.lt_irrefl 1)
  · -- the number of elements is taken for the type
    have htype : memory (0 + 43) = 2 := h.2.2.2.2.2.2.2.1
    rcases amlValue_eq_zero hzero with hn | ⟨hn, -⟩ | ⟨hn, -⟩
    · exact absurd (htype.symm.trans hn) (by decide)
    · exact absurd (htype.symm.trans hn) (by decide)
    · exact absurd htype hn
  · -- the last byte of the length, and the number of elements behind it
    have hcount : memory (0 + 44) = 2 := h.2.2.2.2.2.2.2.2.1
    rcases amlValue_eq_zero hzero with hn | ⟨-, hn⟩ | ⟨-, hn, -⟩
    · have hc : c = 0 := h.2.2.2.2.2.2.2.1.symm.trans hn
      exact amlValue_zeroOp (h'.2.2.2.2.2.2.2.1.trans hc)
    · exact absurd (hcount.symm.trans hn) (by decide)
    · exact absurd (hcount.symm.trans hn) (by decide)
  · -- the last two bytes of the length
    have hcount : memory (0 + 45) = 2 := h.2.2.2.2.2.2.2.2.2.1
    rcases amlValue_eq_zero hzero with hn | ⟨hn, hn'⟩ | ⟨-, -, hn⟩
    · have hc : c = 0 := h.2.2.2.2.2.2.2.1.symm.trans hn
      exact amlValue_zeroOp (h'.2.2.2.2.2.2.2.1.trans hc)
    · have hc : c = 0x0A := h.2.2.2.2.2.2.2.1.symm.trans hn
      have hd : d = 0 := h.2.2.2.2.2.2.2.2.1.symm.trans hn'
      exact amlValue_byteConst (h'.2.2.2.2.2.2.2.1.trans hc) (h'.2.2.2.2.2.2.2.2.1.trans hd)
    · exact absurd (hcount.symm.trans hn) (by decide)
  · simp only [List.length_cons] at hle
    omega

/-- **A longer length and the integers 0 and 1.**  One of the two is decoded wrong. -/
theorem not_both_right (hpkg : PkgLength pkg total) (hroom : pkg.length + 3 ≤ total) (hlong : pkg.length ≠ 1)
    (h0 : S5Right (s5Memory pkg total 0x00) 0 0 0) : ¬ S5Right (s5Memory pkg total 0x01) 0 1 0 := by
  intro h1
  obtain ⟨hpos, hle⟩ := hpkg.length_le
  have hzero := S5Right.amlValue hpkg hroom .zeroOp h0
  have hone := S5Right.amlValue hpkg hroom .oneOp h1
  have hsame := amlValue_of_long (by omega) hle hasBytes_s5Memory (@hasBytes_s5Memory pkg total 0x01) hzero
  exact absurd (hsame.symm.trans hone) (by decide)

/-- **The sleep types are right exactly with a length of one byte.**  Take the bytes of a length that can hold a number of
elements and two of them: the code returns the two integers of every package with this length, from bytes of the table,
if and only if it has one byte. -/
theorem s5_right_iff (hpkg : PkgLength pkg total) (hroom : pkg.length + 3 ≤ total) :
    (∀ memory dsdt offset pm1a pm1b, HasS5 memory dsdt offset pkg pm1a pm1b → S5Right memory dsdt pm1a pm1b) ↔
      pkg.length = 1 := by
  constructor
  · intro hall
    by_contra hlong
    exact not_both_right hpkg hroom hlong (hall _ _ _ _ _ (hasS5_s5Memory hpkg hroom .zeroOp))
      (hall _ _ _ _ _ (hasS5_s5Memory hpkg hroom .oneOp))
  · intro hshort memory dsdt offset pm1a pm1b h
    obtain ⟨hrun, hall⟩ := sleepTypes_found h
    obtain ⟨htypes, hinside⟩ := findTypes_short h hshort
    exact ⟨hrun.trans htypes, hall.mpr hinside⟩

end

/-- A package of six bytes. -/
theorem s5_right_six : (∀ memory dsdt offset pm1a pm1b, HasS5 memory dsdt offset [0x06] pm1a pm1b →
    S5Right memory dsdt pm1a pm1b) ↔ [(0x06 : BitVec 8)].length = 1 :=
  @s5_right_iff [0x06] 6 (.short (by decide)) (by decide)

/-- The integers 0 and 0 behind a length of two bytes: the number of elements is read for the first one. -/
theorem not_s5Right : HasS5 (s5Memory [0x45, 0x00] 5 0x00) 0 sizeofHeader [0x45, 0x00] 0 0 ∧
    ¬ S5Right (s5Memory [0x45, 0x00] 5 0x00) 0 0 0 := by
  have hpkg : PkgLength [0x45, 0x00] 5 := @PkgLength.long 0x45 [0x00] (by decide) (by decide) (by decide)
  refine ⟨hasS5_s5Memory hpkg (by decide) .zeroOp, fun h => ?_⟩
  have hzero := S5Right.amlValue hpkg (by decide) .zeroOp h
  exact absurd hzero (by decide)

end Dem64.Acpi
