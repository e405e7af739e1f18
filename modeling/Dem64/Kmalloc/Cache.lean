import Dem64.Kmalloc.Search

/-!
# Marking objects in the map of a slab

`find_objs` sets the bits of the run it has found and `clean_cache` clears them again.  Both write the
map in memory, through pointers of four widths: from a bit that starts a byte on they store words of 64,
32, 16 and 8 bits as long as one fits and the rest bit by bit, and they come to such a bit by single bits.
They differ in what they store, so that they are one routine here (`mark`) with the stores as parameter.

The result is about the whole memory (`findObjs_spec`): the bits of the run and no others change, and
`clean_cache` gives back the memory that was there.
-/

set_option autoImplicit false

namespace Dem64

open BitRow

/-- `set64` -/
def set64 (long : BitVec 64) (ind : Nat) : BitVec 64 := if ind > 63 then long else long ||| 1#64 <<< ind

/-- `clean64` -/
def clean64 (long : BitVec 64) (ind : Nat) : BitVec 64 :=
  if ind > 63 then long else long &&& ~~~(1#64 <<< ind)

/-- `set128` and `clean128` on the two words at `buff`, with `set64` or `clean64`. -/
def edit128 (edit64 : BitVec 64 → Nat → BitVec 64) (buff ind : Nat) (mem : Nat → BitVec 8) :
    Nat → BitVec 8 :=
  if ind > 127 then mem
  else
    let mem := store 8 mem buff (edit64 (load64 mem buff) ind)
    store 8 mem (buff + 8)
      (if ind >>> 6 ≠ 0 then edit64 (load64 mem (buff + 8)) (ind - 64) else load64 mem (buff + 8))

/-- `set128` -/
def set128 : Nat → Nat → (Nat → BitVec 8) → Nat → BitVec 8 := edit128 set64

/-- `clean128` -/
def clean128 : Nat → Nat → (Nat → BitVec 8) → Nat → BitVec 8 := edit128 clean64

/-- What is stored: one word of each width, or a single bit. -/
structure Marking where
  word64 : BitVec 64
  word32 : BitVec 32
  word16 : BitVec 16
  word8 : BitVec 8
  bit128 : Nat → Nat → (Nat → BitVec 8) → Nat → BitVec 8

/-- The stores of `find_objs`. -/
def Marking.used : Marking where
  word64 := used2048
  word32 := 0xFFFFFFFF
  word16 := 0xFFFF
  word8 := 0xFF
  bit128 := set128

/-- The stores of `clean_cache`. -/
def Marking.free : Marking where
  word64 := 0
  word32 := 0
  word16 := 0x0000
  word8 := 0x00
  bit128 := clean128

/-- `for (int i = 0; i < count; i++) map[i] = word;` with words of `width` bytes. -/
def storeWords (width : Nat) {k : Nat} (word : BitVec k) (map : Nat) : Nat → (Nat → BitVec 8) → Nat → BitVec 8
  | 0, mem => mem
  | count + 1, mem => store width (storeWords width word map count mem) (map + width * count) word

/-- `for (int i = sc; i < (sc+count); i++) set128(&buff[0], &buff[1], i);` -/
def markBits (k : Marking) (buff : Nat) : Nat → Nat → (Nat → BitVec 8) → Nat → BitVec 8
  | _, 0, mem => mem
  | sc, count + 1, mem => markBits k buff (sc + 1) count (k.bit128 buff (sc % 256) mem)

/-- The first case, with at most `n` rounds: `sc` is a multiple of 8. -/
def markBytes (k : Marking) (buff : Nat) : Nat → Nat → Nat → (Nat → BitVec 8) → Option (Nat → BitVec 8)
  | 0, _, _, _ => none
  | n + 1, req, sc, mem =>
    if req > 0 then
      let qwc := req >>> 6
      let dwc := req >>> 5
      let wc := req >>> 4
      let bc := req >>> 3
      let c := req &&& 7
      let map := buff + (sc >>> 3)
      if qwc > 0 then
        markBytes k buff n (req - qwc <<< 6) (sc + qwc <<< 6) (storeWords 8 k.word64 map qwc mem)
      else if dwc > 0 then
        markBytes k buff n (req - dwc <<< 5) (sc + dwc <<< 5) (storeWords 4 k.word32 map dwc mem)
      else if wc > 0 then
        markBytes k buff n (req - wc <<< 4) (sc + wc <<< 4) (storeWords 2 k.word16 map wc mem)
      else if bc > 0 then
        markBytes k buff n (req - bc <<< 3) (sc + bc <<< 3) (storeWords 1 k.word8 map bc mem)
      else if c > 0 then markBytes k buff n (req - c) (sc + c) (markBits k buff sc c mem)
      else markBytes k buff n req sc mem
    else some mem

/-- The second case: bit by bit up to a multiple of 8, and there `goto recheck`. -/
def markToByte (k : Marking) (buff n : Nat) : Nat → Nat → (Nat → BitVec 8) → Option (Nat → BitVec 8)
  | 0, _, mem => some mem
  | req + 1, sc, mem =>
    let mem := k.bit128 buff (sc % 256) mem
    if (sc + 1) &&& 7 = 0 then markBytes k buff n req (sc + 1) mem
    else markToByte k buff n req (sc + 1) mem

/-- The code from `recheck` on. -/
def mark (k : Marking) (n req buff sc : Nat) (mem : Nat → BitVec 8) : Option (Nat → BitVec 8) :=
  if sc &&& 7 = 0 then markBytes k buff n req sc mem
  else if req >>> 3 ≠ 0 then markToByte k buff n req sc mem
  else some (markBits k buff sc req mem)

/-- `search_ret` -/
structure SearchRet where
  sc : Nat
  addr : Nat
  deriving DecidableEq, Repr

/-- `find_objs`, with at most `n` rounds of each loop: the result and the memory. -/
def findObjs (n req buff base : Nat) (creq : Bool) (mem : Nat → BitVec 8) :
    Option (SearchRet × (Nat → BitVec 8)) :=
  if req = 0 then some (⟨0, 0⟩, mem)
  else if creq = false ∧ ¬ (load64 mem buff = 0 ∧ load64 mem (buff + 8) = 0) then some (⟨0, 0⟩, mem)
  else
    match searchLoop req n (load64 mem buff) (load64 mem (buff + 8)) with
    | none => none
    | some none => some (⟨0, 0⟩, mem)
    | some (some sc) =>
      (mark Marking.used n req buff sc mem).map fun mem => (⟨sc, (base + sc <<< 5) % 2 ^ 64⟩, mem)

/-- `clean_cache` -/
def cleanCache (n req buff sc : Nat) (mem : Nat → BitVec 8) : Option (Nat → BitVec 8) :=
  mark Marking.free n req buff sc mem

/-! ## One bit -/

section

variable {mem : Nat → BitVec 8} {buff ind sc n req : Nat} {v : Bool}

theorem getLsbD_one_shl {i j : Nat} (hj : j < 64) : (1#64 <<< i).getLsbD j = decide (j = i) := by
  rw [BitVec.getLsbD_shiftLeft, BitVec.getLsbD_one, Bool.eq_iff_iff]
  simp
  omega

theorem getLsbD_set64 {w : BitVec 64} {j : Nat} (hi : ind < 64) (hj : j < 64) :
    (set64 w ind).getLsbD j = if j = ind then true else w.getLsbD j := by
  rw [set64, if_neg (by omega), BitVec.getLsbD_or, getLsbD_one_shl hj]
  split
  · rw [decide_eq_true (by assumption), Bool.or_true]
  · rw [decide_eq_false (by assumption), Bool.or_false]

theorem getLsbD_clean64 {w : BitVec 64} {j : Nat} (hi : ind < 64) (hj : j < 64) :
    (clean64 w ind).getLsbD j = if j = ind then false else w.getLsbD j := by
  rw [clean64, if_neg (by omega), BitVec.getLsbD_and, BitVec.getLsbD_not, getLsbD_one_shl hj,
    decide_eq_true hj, Bool.true_and]
  split
  · rw [decide_eq_true (by assumption), Bool.not_true, Bool.and_false]
  · rw [decide_eq_false (by assumption), Bool.not_false, Bool.and_true]

/-- One bit of the two words is changed. -/
theorem filled_edit128 {edit64 : BitVec 64 → Nat → BitVec 64}
    (hin : ∀ w i j, i < 64 → j < 64 → (edit64 w i).getLsbD j = if j = i then v else w.getLsbD j)
    (hout : ∀ w i, 63 < i → edit64 w i = w) (hind : ind < 128) :
    Filled mem (edit128 edit64 buff ind mem) (8 * buff + ind) 1 v := by
  rw [edit128, if_neg (by omega)]
  dsimp only
  by_cases h : ind < 64
  · rw [if_neg (by rwa [not_not, shiftRight_six_eq_zero]), store_load64]
    exact filled_store_load64 h fun j hj => hin _ ind j h hj
  · rw [if_pos (by rwa [ne_eq, shiftRight_six_eq_zero]), hout _ ind (by omega), store_load64,
      show 8 * buff + ind = 8 * (buff + 8) + (ind - 64) by omega]
    exact filled_store_load64 (by omega) fun j hj => hin _ (ind - 64) j (by omega) hj

/-! ## Runs of bits -/

/-- The stores all store the bit `v`. -/
structure Marking.Writes (k : Marking) (v : Bool) : Prop where
  word64 : ∀ j, j < 64 → k.word64.getLsbD j = v
  word32 : ∀ j, j < 32 → k.word32.getLsbD j = v
  word16 : ∀ j, j < 16 → k.word16.getLsbD j = v
  word8 : ∀ j, j < 8 → k.word8.getLsbD j = v
  bit128 : ∀ mem buff ind, ind < 128 → Filled mem (k.bit128 buff ind mem) (8 * buff + ind) 1 v

theorem Marking.used_writes : Marking.used.Writes true where
  word64 := by decide
  word32 := by decide
  word16 := by decide
  word8 := by decide
  bit128 _ _ _ hind :=
    filled_edit128 (fun _ _ _ hi hj => getLsbD_set64 hi hj) (fun _ _ hi => if_pos hi) hind

theorem Marking.free_writes : Marking.free.Writes false where
  word64 := by decide
  word32 := by decide
  word16 := by decide
  word8 := by decide
  bit128 _ _ _ hind :=
    filled_edit128 (fun _ _ _ hi hj => getLsbD_clean64 hi hj) (fun _ _ hi => if_pos hi) hind

theorem filled_storeWords {width k map count : Nat} {word : BitVec k}
    (hw : ∀ j, j < 8 * width → word.getLsbD j = v) :
    Filled mem (storeWords width word map count mem) (8 * map) (8 * width * count) v := by
  induction count with
  | zero => exact Filled.refl mem _ v
  | succ count ih =>
    refine ih.trans ?_
    rw [show 8 * map + 8 * width * count = 8 * (map + width * count) by rw [Nat.mul_add, Nat.mul_assoc]]
    exact filled_store hw

section

variable {k : Marking} (hk : k.Writes v)
include hk

theorem filled_markBits (hle : sc + req ≤ 128) :
    Filled mem (markBits k buff sc req mem) (8 * buff + sc) req v := by
  induction req generalizing sc mem with
  | zero => exact Filled.refl mem _ v
  | succ req ih =>
    have hbit := hk.bit128 mem buff (sc % 256) (by omega)
    rw [Nat.mod_eq_of_lt (by omega)] at hbit
    rw [markBits, Nat.mod_eq_of_lt (by omega), Nat.add_comm req]
    exact hbit.trans (ih (by omega))

/-- The first case: each round stores as many words of one width as fit. -/
theorem markBytes_spec (hsc : sc % 8 = 0) (hle : sc + req ≤ 128) (hn : req < n) :
    ∃ mem', markBytes k buff n req sc mem = some mem' ∧ Filled mem mem' (8 * buff + sc) req v := by
  induction n generalizing req sc mem with
  | zero => omega
  | succ n ih =>
    rw [markBytes]
    by_cases hpos : req > 0
    · rw [if_pos hpos]
      -- what a round does: `count` bits, and the loop goes on behind them
      have round : ∀ {count : Nat} {mem₁ : Nat → BitVec 8}, 0 < count → count ≤ req →
          (sc + count) % 8 = 0 ∨ count = req → Filled mem mem₁ (8 * buff + sc) count v →
          ∃ mem', markBytes k buff n (req - count) (sc + count) mem₁ = some mem' ∧
            Filled mem mem' (8 * buff + sc) req v := by
        intro count mem₁ h0 h1 h2 h3
        rcases h2 with h2 | rfl
        · obtain ⟨mem', hmem', hf⟩ := @ih mem₁ (sc + count) (req - count) h2 (by omega) (by omega)
          refine ⟨mem', hmem', ?_⟩
          have hall := h3.trans (by rwa [Nat.add_assoc])
          rwa [Nat.add_sub_cancel' h1] at hall
        · obtain ⟨m, rfl⟩ := Nat.exists_eq_succ_of_ne_zero (show n ≠ 0 by omega)
          exact ⟨mem₁, by rw [Nat.sub_self, markBytes, if_neg (by omega)], h3⟩
      have words : ∀ {width w count : Nat} {word : BitVec w},
          (∀ j, j < 8 * width → word.getLsbD j = v) →
          Filled mem (storeWords width word (buff + (sc >>> 3)) count mem) (8 * buff + sc)
            (8 * width * count) v := by
        intro width w count word hw
        have hstart : 8 * buff + sc = 8 * (buff + (sc >>> 3)) := by
          rw [Nat.shiftRight_eq_div_pow]
          omega
        rw [hstart]
        exact filled_storeWords hw
      have h6 : req >>> 6 = req / 64 := Nat.shiftRight_eq_div_pow req 6
      have h5 : req >>> 5 = req / 32 := Nat.shiftRight_eq_div_pow req 5
      have h4 : req >>> 4 = req / 16 := Nat.shiftRight_eq_div_pow req 4
      have h3 : req >>> 3 = req / 8 := Nat.shiftRight_eq_div_pow req 3
      have h7 : req &&& 7 = req % 8 := Nat.and_two_pow_sub_one_eq_mod req 3
      simp only [h6, h5, h4, h3, h7]
      by_cases hq : req / 64 > 0
      · rw [if_pos hq, Nat.shiftLeft_eq, show req / 64 * 2 ^ 6 = 8 * 8 * (req / 64) by omega]
        exact round (by omega) (by omega) (.inl (by omega)) (words hk.word64)
      · rw [if_neg hq]
        by_cases hd : req / 32 > 0
        · rw [if_pos hd, Nat.shiftLeft_eq, show req / 32 * 2 ^ 5 = 8 * 4 * (req / 32) by omega]
          exact round (by omega) (by omega) (.inl (by omega)) (words hk.word32)
        · rw [if_neg hd]
          by_cases hw : req / 16 > 0
          · rw [if_pos hw, Nat.shiftLeft_eq, show req / 16 * 2 ^ 4 = 8 * 2 * (req / 16) by omega]
            exact round (by omega) (by omega) (.inl (by omega)) (words hk.word16)
          · rw [if_neg hw]
            by_cases hb : req / 8 > 0
            · rw [if_pos hb, Nat.shiftLeft_eq, show req / 8 * 2 ^ 3 = 8 * 1 * (req / 8) by omega]
              exact round (by omega) (by omega) (.inl (by omega)) (words hk.word8)
            · rw [if_neg hb, if_pos (by omega), show req % 8 = req by omega]
              exact round hpos (Nat.le_refl req) (.inr rfl) (filled_markBits hk hle)
    · rw [if_neg hpos, show req = 0 by omega]
      exact ⟨mem, rfl, Filled.refl mem _ v⟩

theorem markToByte_spec (hle : sc + req ≤ 128) (hn : req < n) :
    ∃ mem', markToByte k buff n req sc mem = some mem' ∧ Filled mem mem' (8 * buff + sc) req v := by
  induction req generalizing sc mem with
  | zero => exact ⟨mem, rfl, Filled.refl mem _ v⟩
  | succ req ih =>
    have hbit := hk.bit128 mem buff (sc % 256) (by omega)
    rw [Nat.mod_eq_of_lt (by omega)] at hbit
    rw [markToByte, Nat.mod_eq_of_lt (by omega : sc < 256)]
    have hand : (sc + 1) &&& 7 = (sc + 1) % 8 := Nat.and_two_pow_sub_one_eq_mod (sc + 1) 3
    rw [Nat.add_comm req]
    by_cases h : (sc + 1) % 8 = 0
    · rw [if_pos (hand.trans h)]
      obtain ⟨mem', hmem', hf⟩ :=
        @markBytes_spec (k.bit128 buff sc mem) buff (sc + 1) n req v k hk h (by omega) (by omega)
      exact ⟨mem', hmem', hbit.trans hf⟩
    · rw [if_neg (by rwa [hand])]
      obtain ⟨mem', hmem', hf⟩ := @ih (k.bit128 buff sc mem) (sc + 1) (by omega) (by omega)
      exact ⟨mem', hmem', hbit.trans hf⟩

/-- The bits from `sc` on are written, and nothing else. -/
theorem mark_spec (hle : sc + req ≤ 128) (hn : req < n) :
    ∃ mem', mark k n req buff sc mem = some mem' ∧ Filled mem mem' (8 * buff + sc) req v := by
  have hand : sc &&& 7 = sc % 8 := Nat.and_two_pow_sub_one_eq_mod sc 3
  rw [mark, hand]
  split
  · exact markBytes_spec hk (by assumption) hle hn
  · split
    · exact markToByte_spec hk hle hn
    · exact ⟨_, rfl, filled_markBits hk hle⟩

end

/-! ## The search and the undoing -/

theorem mapBit_load64 {i : Nat} (hi : i < 128) :
    mapBit (load64 mem buff) (load64 mem (buff + 8)) i = bit mem (8 * buff + i) := by
  rw [mapBit_eq]
  split
  · exact getLsbD_load64 (by assumption)
  · rw [getLsbD_load64 (by omega)]
    congr 1
    omega

/-- The search succeeds with the first run, whose bits it sets, or it fails and there is none. -/
theorem findObjs_cases {base : Nat} {creq : Bool} (hreq : 1 ≤ req ∧ req ≤ 128)
    (hc : creq = true ∨ load64 mem buff = 0 ∧ load64 mem (buff + 8) = 0) (hn : 128 < n) :
    (∃ sc mem', findObjs n req buff base creq mem = some (⟨sc, (base + 32 * sc) % 2 ^ 64⟩, mem') ∧
      IsLeast { s | Run (fun i => bit mem (8 * buff + i)) 128 req s } sc ∧
      Filled mem mem' (8 * buff + sc) req true) ∨
    findObjs n req buff base creq mem = some (⟨0, 0⟩, mem) ∧
      ∀ s, ¬ Run (fun i => bit mem (8 * buff + i)) 128 req s := by
  have hsearched : Searched (fun i => bit mem (8 * buff + i)) req 0 (load64 mem buff)
      (load64 mem (buff + 8)) :=
    ⟨by omega, fun i hi => by rw [mapBit_load64 hi, decide_eq_false (by omega), Bool.or_false],
      fun s hs => absurd hs (by omega)⟩
  obtain ⟨r, hr, hfound, hnone⟩ := searchLoop_spec (n := n) hreq.1 hsearched (by omega)
  have hskip : ¬ (creq = false ∧ ¬ (load64 mem buff = 0 ∧ load64 mem (buff + 8) = 0)) := by
    rintro ⟨rfl, h⟩
    exact h (hc.resolve_left (by decide))
  rw [findObjs, if_neg (by omega), if_neg hskip, hr]
  cases r with
  | none => exact .inr ⟨rfl, hnone rfl⟩
  | some sc =>
    have hleast := hfound sc rfl
    obtain ⟨mem', hmem', hf⟩ := @mark_spec mem buff sc n req true _ Marking.used_writes hleast.1.1
      (by omega)
    refine .inl ⟨sc, mem', ?_, hleast, hf⟩
    simp only [hmem', Option.map_some, Nat.shiftLeft_eq, Nat.mul_comm sc, Nat.reducePow]

/-- Bits that were clear when they were set are cleared again. -/
theorem cleanCache_of_filled {mem' : Nat → BitVec 8}
    (hrun : Run (fun i => bit mem (8 * buff + i)) 128 req sc)
    (hf : Filled mem mem' (8 * buff + sc) req true) (hn : req < n) :
    cleanCache n req buff sc mem' = some mem := by
  obtain ⟨mem'', hmem'', hf'⟩ := @mark_spec mem' buff sc n req false _ Marking.free_writes hrun.1 hn
  rw [cleanCache, hmem'', hf.undo hf' fun p h1 h2 => ?_]
  have hclear : bit mem (8 * buff + (p - 8 * buff)) = false := hrun.2 (p - 8 * buff) (by omega) (by omega)
  rwa [Nat.add_sub_cancel' (by omega)] at hclear

/-- **`find_objs` finds the first run of `req` clear bits of the map at `buff` if there is one, and sets
exactly its bits; `clean_cache` gives back the memory that was there.** -/
theorem findObjs_first_run {base : Nat} (hreq : 1 ≤ req ∧ req ≤ 128)
    (hbase : base ≠ 0 ∧ base + 4096 < 2 ^ 64) (hn : 128 < n) :
    ∃ ret mem', findObjs n req buff base true mem = some (ret, mem') ∧
      (ret.addr ≠ 0 ↔ ∃ s, Run (fun i => bit mem (8 * buff + i)) 128 req s) ∧
      (ret.addr ≠ 0 →
        IsLeast { s | Run (fun i => bit mem (8 * buff + i)) 128 req s } ret.sc ∧
        ret.addr = base + 32 * ret.sc ∧ Filled mem mem' (8 * buff + ret.sc) req true ∧
        cleanCache n req buff ret.sc mem' = some mem) ∧
      (ret.addr = 0 → mem' = mem) := by
  rcases @findObjs_cases mem buff n req base true hreq (.inl rfl) hn with ⟨sc, mem', heq, hleast, hf⟩ | ⟨heq, hnone⟩
  · have hle := hleast.1.1
    rw [Nat.mod_eq_of_lt (by omega)] at heq
    refine ⟨_, mem', heq, iff_of_true (show base + 32 * sc ≠ 0 by omega) ⟨sc, hleast.1⟩,
      fun _ => ⟨hleast, rfl, hf, cleanCache_of_filled hleast.1 hf (by omega)⟩, fun h => ?_⟩
    exact absurd h (show base + 32 * sc ≠ 0 by omega)
  · exact ⟨_, mem, heq, iff_of_false (fun h => h rfl) fun ⟨s, hs⟩ => hnone s hs, fun h => absurd rfl h,
      fun _ => rfl⟩

/-- Three objects of an empty slab: the first ones. -/
theorem findObjs_first_run_three :
    ∃ ret mem', findObjs 129 3 0x2000 0x10000 true (fun _ => 0#8) = some (ret, mem') ∧
      ret = ⟨0, 0x10000⟩ ∧ cleanCache 129 3 0x2000 0 mem' = some fun _ => 0#8 := by
  obtain ⟨⟨sc, addr⟩, mem', heq, hiff, hfound, -⟩ :=
    @findObjs_first_run (fun _ => 0#8) 0x2000 129 3 0x10000 ⟨by decide, by decide⟩ ⟨by decide, by decide⟩ (by decide)
  have hrun : Run (fun i => bit (fun _ => 0#8) (8 * 0x2000 + i)) 128 3 0 :=
    ⟨by decide, fun i _ _ => BitVec.getLsbD_zero⟩
  obtain ⟨hleast, haddr, -, hclean⟩ := hfound (hiff.mpr ⟨0, hrun⟩)
  obtain rfl : sc = 0 := Nat.le_zero.mp (hleast.2 hrun)
  refine ⟨_, mem', heq, ?_, hclean⟩
  rw [SearchRet.mk.injEq]
  exact ⟨rfl, haddr⟩

end

end Dem64
