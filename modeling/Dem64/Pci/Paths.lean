import Dem64.Pci.Config
import Mathlib.Tactic.IntervalCases

/-!
# The two mechanisms of PCI configuration

The ports and the ECAM memory are run against the same hardware.  Both find the function and the bytes that
were asked for (`selectedPlace_configAddress`, `windowPlace_ecamPointer`), a read gives the same value
(`readAt_ports`), and a write of a whole dword has the same effect.  A write of one or two bytes through the
ports writes the other bytes of the dword back with what was read from them, which is harmless for read-write
and read-only bits and clears every bit that a one clears: `pci_paths_agree` says that this is the only
difference.
-/

set_option autoImplicit false

namespace Dem64

namespace Pci

open Interaction Interaction.Prog

variable {address : PciAddress} {offset : BitVec 16} {size : BitVec 8} {value : BitVec 32}
  {region : PciEcamRegion} {layouts : Place → Layout} {h : Host}

/-- The function an address names. -/
def PciAddress.place (address : PciAddress) : Place where
  bus := address.bus.toNat
  device := address.device.toNat
  function := address.function.toNat

/-! ## The address -/

theorem getElem_of_toNat_lt {k : Nat} {x : BitVec 8} (hx : x.toNat < 2 ^ k) {i : Nat} (h : i < 8)
    (hi : k ≤ i) : x[i] = false := by
  rw [← BitVec.getLsbD_eq_getElem, BitVec.getLsbD]
  exact Nat.testBit_lt_two_pow (Nat.lt_of_lt_of_le hx (Nat.pow_le_pow_right (by decide) hi))

theorem configAddress_bus (hd : address.device.toNat < 32) :
    (configAddress address offset).extractLsb' 16 8 = address.bus := by
  have hd' : ∀ i (h : i < 8), 5 ≤ i → address.device[i] = false := fun i => getElem_of_toNat_lt (k := 5) hd
  ext i hi
  rw [BitVec.getElem_extractLsb', configAddress]
  interval_cases i <;> simp [hd']

theorem configAddress_device (hf : address.function.toNat < 8) :
    (configAddress address offset).extractLsb' 11 5 = address.device.setWidth 5 := by
  have hf' : ∀ i (h : i < 8), 3 ≤ i → address.function[i] = false := fun i => getElem_of_toNat_lt (k := 3) hf
  ext i hi
  rw [BitVec.getElem_extractLsb', configAddress]
  interval_cases i <;> simp [hf']

theorem configAddress_function :
    (configAddress address offset).extractLsb' 8 3 = address.function.setWidth 3 := by
  ext i hi
  rw [BitVec.getElem_extractLsb', configAddress]
  interval_cases i <;> simp

theorem configAddress_offset :
    (configAddress address offset).extractLsb' 2 6 = offset.extractLsb' 2 6 := by
  ext i hi
  rw [BitVec.getElem_extractLsb', BitVec.getElem_extractLsb', configAddress]
  interval_cases i <;> simp

theorem configAddress_msb : (configAddress address offset).msb = true := by
  simp only [configAddress, BitVec.msb_or, Bool.or_eq_true]
  exact .inl (.inl (.inl (.inl rfl)))

/-- The ports select the function that was asked for. -/
theorem selectedPlace_configAddress (hd : address.device.toNat < 32) (hf : address.function.toNat < 8) :
    selectedPlace (configAddress address offset) = address.place := by
  rw [selectedPlace, configAddress_bus hd, configAddress_device hf, configAddress_function,
    BitVec.toNat_setWidth, BitVec.toNat_setWidth, Nat.mod_eq_of_lt hd, Nat.mod_eq_of_lt hf]
  rfl

/-- The ports select the dword around the offset. -/
theorem selectedOffset_configAddress (ho : offset.toNat < 256) :
    selectedOffset (configAddress address offset) = offset.toNat - offset.toNat % 4 := by
  rw [selectedOffset, configAddress_offset, BitVec.extractLsb'_toNat, Nat.shiftRight_eq_div_pow]
  omega

theorem toNat_shiftLeft_byte {k : Nat} (x : BitVec 8) (hk : k ≤ 56) :
    (x.setWidth 64 <<< k).toNat = x.toNat * 2 ^ k := by
  have hpow : 2 ^ k ≤ 2 ^ 56 := Nat.pow_le_pow_right (by decide) hk
  have hlt : x.toNat * 2 ^ k < 2 ^ 64 :=
    calc x.toNat * 2 ^ k < 2 ^ 8 * 2 ^ k := Nat.mul_lt_mul_of_pos_right x.isLt (Nat.two_pow_pos k)
      _ ≤ 2 ^ 8 * 2 ^ 56 := Nat.mul_le_mul_left _ hpow
  rw [BitVec.toNat_shiftLeft, BitVec.toNat_setWidth, Nat.shiftLeft_eq,
    Nat.mod_eq_of_lt (Nat.lt_of_lt_of_le x.isLt (by decide)), Nat.mod_eq_of_lt hlt]

/-- Where the pointer points in the region. -/
theorem sub_ecamPointer (hbus : region.startBus ≤ address.bus) :
    (ecamPointer region address offset - region.virtualBase).toNat =
      (address.bus.toNat - region.startBus.toNat) * 2 ^ 20 + address.device.toNat * 2 ^ 15 +
        address.function.toNat * 2 ^ 12 + offset.toNat := by
  have hbus := BitVec.le_def.mp hbus
  have hrelative : address.bus.setWidth 64 - region.startBus.setWidth 64 =
      (address.bus - region.startBus).setWidth 64 := by
    apply BitVec.eq_of_toNat_eq
    have hb := address.bus.isLt
    have hs := region.startBus.isLt
    have hle : region.startBus.setWidth 64 ≤ address.bus.setWidth 64 := by
      rw [BitVec.le_def, BitVec.toNat_setWidth, BitVec.toNat_setWidth]
      omega
    rw [BitVec.toNat_sub_of_le hle, BitVec.toNat_setWidth, BitVec.toNat_setWidth, BitVec.toNat_setWidth,
      BitVec.toNat_sub_of_le (BitVec.le_def.mpr hbus)]
    omega
  have hb := address.bus.isLt
  have hsub : ∀ a b c d : BitVec 64, region.virtualBase + a + b + c + d - region.virtualBase =
      a + b + c + d := by
    intro a b c d
    rw [BitVec.add_assoc, BitVec.add_assoc, BitVec.add_assoc, BitVec.add_comm, BitVec.add_sub_cancel,
      ← BitVec.add_assoc, ← BitVec.add_assoc]
  have hd := address.device.isLt
  have hf := address.function.isLt
  have ho := offset.isLt
  rw [ecamPointer, hsub, hrelative, BitVec.toNat_add, BitVec.toNat_add, BitVec.toNat_add,
    toNat_shiftLeft_byte _ (by decide), toNat_shiftLeft_byte _ (by decide),
    toNat_shiftLeft_byte _ (by decide), BitVec.toNat_setWidth,
    BitVec.toNat_sub_of_le (BitVec.le_def.mpr hbus)]
  omega

/-- The memory of the region has the bytes that were asked for at the pointer. -/
theorem windowPlace_ecamPointer (hd : address.device.toNat < 32) (hf : address.function.toNat < 8)
    (ho : offset.toNat < 4096) (hbus : region.startBus ≤ address.bus) :
    windowPlace region (ecamPointer region address offset) = (address.place, offset.toNat) := by
  have hle := BitVec.le_def.mp hbus
  rw [windowPlace, sub_ecamPointer hbus]
  simp only [PciAddress.place, Prod.mk.injEq, Place.mk.injEq]
  omega

/-! ## Reads -/

theorem toNat_append_eq {n m : Nat} (x : BitVec n) (y : BitVec m) :
    (x ++ y).toNat = x.toNat * 2 ^ m + y.toNat := by
  rw [BitVec.toNat_append, ← Nat.shiftLeft_add_eq_or_of_lt y.isLt, Nat.shiftLeft_eq]

theorem toNat_dwordAt (space : Space) (k : Nat) : (dwordAt space k).toNat =
    (((space (k + 3)).toNat * 2 ^ 8 + (space (k + 2)).toNat) * 2 ^ 8 + (space (k + 1)).toNat) * 2 ^ 8 +
      (space k).toNat := by
  rw [dwordAt, toNat_append_eq, toNat_append_eq, toNat_append_eq]

/-- A shift and a mask of the port path pick the bits from `k` on. -/
theorem toNat_picked (data : BitVec 32) (k : Nat) :
    ((data >>> k) &&& 0xff).toNat = data.toNat / 2 ^ k % 2 ^ 8 ∧
    ((data >>> k) &&& 0xffff).toNat = data.toNat / 2 ^ k % 2 ^ 16 := by
  rw [BitVec.toNat_and, BitVec.toNat_and, BitVec.toNat_ushiftRight, Nat.shiftRight_eq_div_pow]
  exact ⟨Nat.and_two_pow_sub_one_eq_mod _ 8, Nat.and_two_pow_sub_one_eq_mod _ 16⟩

/-- The offset in its dword, as the two branches compute it. -/
theorem toNat_and_three : (offset &&& 3).toNat = offset.toNat % 4 := by
  rw [BitVec.toNat_and]
  exact Nat.and_two_pow_sub_one_eq_mod _ 2

theorem toNat_and_one : (offset &&& 1).toNat = offset.toNat % 2 := by
  rw [BitVec.toNat_and]
  exact Nat.and_two_pow_sub_one_eq_mod _ 1

theorem and_two_eq_and_three (heven : offset &&& 1 = 0) : offset &&& 2 = offset &&& 3 := by
  have hor : offset &&& 3 = (offset &&& 2) ||| (offset &&& 1) := by
    ext i hi
    interval_cases i <;> simp
  rw [hor, heven]
  exact BitVec.or_zero.symm

/-- What the offsets of accesses in one dword are like. -/
theorem ValidAccess.aligned {n : Nat} (hv : ValidAccess address offset size n) :
    offset.toNat % 4 + size.toNat ≤ 4 ∧ (size = 2 → offset &&& 1 = 0 ∧ offset.toNat % 2 = 0) ∧
    (size = 4 → offset.toNat % 4 = 0) := by
  obtain ⟨-, -, hsize, -, h2, h4⟩ := hv
  have heven : size = 2 → offset &&& 1 = 0 ∧ offset.toNat % 2 = 0 := fun h => by
    have hzero : offset &&& 1 = 0 := by
      by_contra hne
      exact h2 ⟨h, hne⟩
    exact ⟨hzero, by rw [← toNat_and_one, hzero]; rfl⟩
  have hdword : size = 4 → offset.toNat % 4 = 0 := fun h => by
    rw [← toNat_and_three]
    have : offset &&& 3 = 0 := by
      by_contra hne
      exact h4 ⟨h, hne⟩
    rw [this]
    rfl
  refine ⟨?_, heven, hdword⟩
  rcases hsize with rfl | rfl | rfl
  · have : (1 : BitVec 8).toNat = 1 := rfl
    omega
  · have h2 : (2 : BitVec 8).toNat = 2 := rfl
    have := (heven rfl).2
    omega
  · have h4 : (4 : BitVec 8).toNat = 4 := rfl
    have := hdword rfl
    omega

/-- What the port path returns for a dword. -/
def picked (data : BitVec 32) (offset : BitVec 16) (size : BitVec 8) : BitVec 32 :=
  if size = 1 then (data >>> ((offset &&& 3).toNat * 8)) &&& 0xff
  else if size = 2 then (data >>> ((offset &&& 2).toNat * 8)) &&& 0xffff
  else data

/-- **A read through the ports** picks the bytes that a load of the right size reads. -/
theorem readAt_ports (space : Space) {n : Nat} (hv : ValidAccess address offset size n) :
    picked (dwordAt space (offset.toNat - offset.toNat % 4)) offset size =
      readAt space offset.toNat size.toNat := by
  obtain ⟨hle, heven, hdword⟩ := hv.aligned
  obtain ⟨k, r, hr, ho⟩ : ∃ k r, r < 4 ∧ offset.toNat = k + r ∧ offset.toNat % 4 = r :=
    ⟨offset.toNat - offset.toNat % 4, offset.toNat % 4, by omega, by omega, rfl⟩
  have hk : offset.toNat - offset.toNat % 4 = k := by omega
  have h0 := (space k).isLt
  have h1 := (space (k + 1)).isLt
  have h2 := (space (k + 2)).isLt
  have h3 := (space (k + 3)).isLt
  rw [hk, ho.1]
  apply BitVec.eq_of_toNat_eq
  rcases hv.2.2.1 with rfl | rfl | rfl
  · rw [picked, if_pos rfl, (toNat_picked _ _).1, toNat_and_three, ho.2, toNat_dwordAt]
    rw [show readAt space (k + r) (1 : BitVec 8).toNat = (space (k + r)).setWidth 32 from rfl,
      BitVec.toNat_setWidth]
    interval_cases r <;> simp only [Nat.add_zero, Nat.reduceMul, Nat.reducePow] <;> omega
  · have hsize : (2 : BitVec 8).toNat = 2 := rfl
    rw [picked, if_neg (by decide), if_pos rfl, (toNat_picked _ _).2, and_two_eq_and_three (heven rfl).1,
      toNat_and_three, ho.2, toNat_dwordAt]
    rw [show readAt space (k + r) (2 : BitVec 8).toNat = (space (k + r + 1) ++ space (k + r)).setWidth 32
      from rfl, BitVec.toNat_setWidth, toNat_append_eq]
    have hr2 : r = 0 ∨ r = 2 := by
      have := (heven rfl).2
      omega
    rcases hr2 with rfl | rfl <;>
      simp only [Nat.add_zero, Nat.add_assoc k, Nat.reduceAdd, Nat.reduceMul, Nat.reducePow] <;> omega
  · have hr0 : r = 0 := by
      have := hdword rfl
      omega
    subst hr0
    rfl

/-! ## Writes -/

/-- The mask of an access of `n` bits that starts at bit `k`. -/
theorem getLsbD_mask {n k i : Nat} (hi : i < 32) :
    (BitVec.ofNat 32 (2 ^ n - 1) <<< k).getLsbD i = (decide (k ≤ i) && decide (i < k + n)) := by
  rw [BitVec.getLsbD_shiftLeft, BitVec.getLsbD_ofNat, Nat.testBit_two_pow_sub_one]
  simp only [hi, decide_true, Bool.true_and]
  by_cases hk : i < k
  · simp [hk, Nat.not_le.mpr hk]
  · have hlt : i - k < 32 := by omega
    simp only [hk, decide_false, Bool.not_false, Bool.true_and, hlt, decide_true, Nat.not_lt.mp hk]
    exact decide_eq_decide.mpr (by omega)

/-- The bytes of the merged dword: those of the value where the access is, the old ones elsewhere. -/
theorem byte_mergedDword {old : BitVec 32} {n j : Nat} (hv : ValidAccess address offset size n)
    (h4 : size ≠ 4) (hj : j < 4) :
    (mergedDword old offset size value).extractLsb' (8 * j) 8 =
      if offset.toNat % 4 ≤ j ∧ j < offset.toNat % 4 + size.toNat then
        value.extractLsb' (8 * (j - offset.toNat % 4)) 8
      else old.extractLsb' (8 * j) 8 := by
  have hle := hv.aligned.1
  have hmask : (if size = 1 then 0xff else 0xffff : BitVec 32) = BitVec.ofNat 32 (2 ^ (8 * size.toNat) - 1) := by
    rcases hv.2.2.1 with rfl | rfl | rfl
    · rfl
    · rfl
    · exact absurd rfl h4
  ext i hi
  rw [mergedDword, toNat_and_three, hmask]
  simp only [BitVec.getElem_extractLsb', BitVec.getLsbD_or, BitVec.getLsbD_and, BitVec.getLsbD_not]
  rw [getLsbD_mask (by omega), BitVec.getLsbD_shiftLeft]
  split
  · next hin =>
    have hlo : offset.toNat % 4 * 8 ≤ 8 * j + i := by omega
    have hhi : 8 * j + i < offset.toNat % 4 * 8 + 8 * size.toNat := by omega
    have hshift : 8 * j + i - offset.toNat % 4 * 8 = 8 * (j - offset.toNat % 4) + i := by omega
    simp [hlo, hhi, hshift, Nat.not_lt.mpr hlo, BitVec.getElem_extractLsb', show 8 * j + i < 32 by omega]
  · next hout =>
    have hno : ¬ (offset.toNat % 4 * 8 ≤ 8 * j + i ∧ 8 * j + i < offset.toNat % 4 * 8 + 8 * size.toNat) := by
      omega
    have hfalse : (decide (offset.toNat % 4 * 8 ≤ 8 * j + i) &&
        decide (8 * j + i < offset.toNat % 4 * 8 + 8 * size.toNat)) = false := by
      rw [← Bool.decide_and]
      exact decide_eq_false hno
    simp [hfalse, BitVec.getElem_extractLsb', show 8 * j + i < 32 by omega]

theorem byte_dwordAt (space : Space) (k : Nat) {j : Nat} (hj : j < 4) :
    (dwordAt space k).extractLsb' (8 * j) 8 = space (k + j) := by
  apply BitVec.eq_of_toNat_eq
  have h0 := (space k).isLt
  have h1 := (space (k + 1)).isLt
  have h2 := (space (k + 2)).isLt
  have h3 := (space (k + 3)).isLt
  rw [BitVec.extractLsb'_toNat, Nat.shiftRight_eq_div_pow, toNat_dwordAt]
  interval_cases j <;> simp only [Nat.add_zero, Nat.reduceMul, Nat.reducePow] <;> omega

/-- A byte written back with itself keeps its value, unless it has a bit that this clears. -/
theorem merge_self_iff (layout : Layout) (x : Nat) (v : BitVec 8) :
    layout.merge x v v = v ↔ v &&& layout.cleared x = 0 := by
  have hdisjoint := layout.disjoint x
  rw [Layout.merge]
  constructor
  · intro hkept
    ext i hi
    have hbit := congrArg (fun y : BitVec 8 => y[i]) hkept
    have hno := congrArg (fun y : BitVec 8 => y[i]) hdisjoint
    have hz : (0 : BitVec 8)[i] = false := BitVec.getElem_zero hi
    simp only [BitVec.getElem_and, BitVec.getElem_or, BitVec.getElem_not, hz] at hbit hno ⊢
    revert hbit hno
    cases v[i] <;> cases (layout.cleared x)[i] <;> cases (layout.writable x)[i] <;> decide
  · intro hzero
    ext i hi
    have hbit := congrArg (fun y : BitVec 8 => y[i]) hzero
    have hz : (0 : BitVec 8)[i] = false := BitVec.getElem_zero hi
    simp only [BitVec.getElem_and, BitVec.getElem_or, BitVec.getElem_not, hz] at hbit ⊢
    revert hbit
    cases v[i] <;> cases (layout.cleared x)[i] <;> cases (layout.writable x)[i] <;> decide

/-- The other bytes of the dword have no bit that is set and that a one clears. -/
def NothingCleared (layout : Layout) (space : Space) (offset n : Nat) : Prop :=
  ∀ x, offset - offset % 4 ≤ x → x < offset - offset % 4 + 4 → ¬ (offset ≤ x ∧ x < offset + n) →
    space x &&& layout.cleared x = 0

/-- **A write through the ports**: its dword has the effect of the sized store, exactly if nothing is cleared
in the other bytes of the dword. -/
theorem write_merged_iff (layout : Layout) (space : Space) {n : Nat}
    (hv : ValidAccess address offset size n) (h4 : size ≠ 4) :
    layout.write space (offset.toNat - offset.toNat % 4) 4
        (mergedDword (dwordAt space (offset.toNat - offset.toNat % 4)) offset size value) =
      layout.write space offset.toNat size.toNat value ↔
    NothingCleared layout space offset.toNat size.toNat := by
  have hle := hv.aligned.1
  obtain ⟨k, hk⟩ : ∃ k, offset.toNat - offset.toNat % 4 = k := ⟨_, rfl⟩
  have hoffset : offset.toNat = k + offset.toNat % 4 := by omega
  -- The byte of the merged dword at `x`.
  have hbyte : ∀ x, k ≤ x → x < k + 4 →
      (mergedDword (dwordAt space k) offset size value).extractLsb' (8 * (x - k)) 8 =
        if offset.toNat ≤ x ∧ x < offset.toNat + size.toNat then
          value.extractLsb' (8 * (x - offset.toNat)) 8
        else space x := by
    intro x h1 h2
    rw [byte_mergedDword hv h4 (by omega), byte_dwordAt space k (by omega), Nat.add_sub_cancel' h1,
      show x - k - offset.toNat % 4 = x - offset.toNat by omega]
    exact if_congr (by omega) rfl rfl
  rw [hk, funext_iff, NothingCleared, hk]
  constructor
  · intro hall x h1 h2 hout
    have hx := hall x
    rw [Layout.write, Layout.write, if_pos ⟨h1, h2⟩, if_neg hout, hbyte x h1 h2, if_neg hout] at hx
    exact (merge_self_iff layout x _).mp hx
  · intro hnothing x
    rw [Layout.write, Layout.write]
    by_cases hin : k ≤ x ∧ x < k + 4
    · rw [if_pos hin, hbyte x hin.1 hin.2]
      by_cases hout : offset.toNat ≤ x ∧ x < offset.toNat + size.toNat
      · rw [if_pos hout, if_pos hout]
      · rw [if_neg hout, if_neg hout]
        exact (merge_self_iff layout x _).mpr (hnothing x hin.1 hin.2 hout)
    · rw [if_neg hin, if_neg (by omega)]

/-! ## The accesses -/

theorem ValidAccess.toNat {n : Nat} (hv : ValidAccess address offset size n) :
    address.device.toNat < 32 ∧ address.function.toNat < 8 :=
  ⟨hv.1, hv.2.1⟩

theorem ValidAccess.mono {n m : Nat} (hv : ValidAccess address offset size n) (hle : n ≤ m) :
    ValidAccess address offset size m :=
  ⟨hv.1, hv.2.1, hv.2.2.1, hv.2.2.2.1.trans hle, hv.2.2.2.2⟩

theorem ValidAccess.offset_lt {n : Nat} (hv : ValidAccess address offset size n) : offset.toNat < n := by
  have hle := hv.2.2.2.1
  rcases hv.2.2.1 with rfl | rfl | rfl
  · have : (1 : BitVec 8).toNat = 1 := rfl
    omega
  · have : (2 : BitVec 8).toNat = 2 := rfl
    omega
  · have : (4 : BitVec 8).toNat = 4 := rfl
    omega

section

variable {regions : List PciEcamRegion}

/-- A region that is found has the bus. -/
theorem findEcamRegion_some {segment : BitVec 16} {bus : BitVec 8}
    (hfind : findEcamRegion regions segment bus = some region) : region.startBus ≤ bus := by
  have := List.find?_some hfind
  simp only [decide_eq_true_eq] at this
  exact this.2.1

/-- A read through the region. -/
theorem run_read_ecam (hfind : findEcamRegion regions address.segment address.bus = some region)
    (hv : ValidAccess address offset size PCI_CONFIG_PCIE_SIZE) :
    run (host region layouts) (pciConfigRead regions address offset size true) h =
      ((PCI_STATUS_SUCCESS, some (readAt (h.spaces address.place) offset.toNat size.toNat)), h) := by
  rw [pciConfigRead, if_neg (by decide), hfind]
  dsimp only
  rw [if_neg (not_not.mpr hv), run_bind, load, run_call]
  simp only [host, windowPlace_ecamPointer hv.toNat.1 hv.toNat.2 hv.offset_lt (findEcamRegion_some hfind),
    run_pure]

/-- A read through the ports. -/
theorem run_read_ports (hfind : findEcamRegion regions address.segment address.bus = none)
    (hsegment : address.segment = 0) (hv : ValidAccess address offset size PCI_CONFIG_LEGACY_SIZE) :
    run (host region layouts) (pciConfigRead regions address offset size true) h =
      ((PCI_STATUS_SUCCESS, some (readAt (h.spaces address.place) offset.toNat size.toNat)),
        { h with addressRegister := configAddress address offset }) := by
  have hpicked := readAt_ports (h.spaces address.place) hv
  rw [picked] at hpicked
  rw [pciConfigRead, if_neg (by decide), hfind]
  dsimp only
  rw [if_neg (not_or.mpr ⟨not_not.mpr hsegment, not_not.mpr hv⟩), ← hpicked]
  simp only [spinLock, outl, inl, spinUnlock, run_bind, run_call, host, if_true, configAddress_msb, and_self,
    selectedPlace_configAddress hv.toNat.1 hv.toNat.2, selectedOffset_configAddress hv.offset_lt]
  split
  · rfl
  · split <;> rfl

/-- A write through the region. -/
theorem run_write_ecam (hfind : findEcamRegion regions address.segment address.bus = some region)
    (hv : ValidAccess address offset size PCI_CONFIG_PCIE_SIZE) :
    run (host region layouts) (pciConfigWrite regions address offset size value) h =
      (PCI_STATUS_SUCCESS, h.withSpace address.place
        ((layouts address.place).write (h.spaces address.place) offset.toNat size.toNat value)) := by
  rw [pciConfigWrite, hfind]
  dsimp only
  rw [if_neg (not_not.mpr hv), run_bind, store, run_call]
  simp only [host, windowPlace_ecamPointer hv.toNat.1 hv.toNat.2 hv.offset_lt (findEcamRegion_some hfind),
    run_pure]

/-- What the ports write for an access. -/
def portDword (space : Space) (offset : BitVec 16) (size : BitVec 8) (value : BitVec 32) : BitVec 32 :=
  if size = 4 then value
  else mergedDword (dwordAt space (offset.toNat - offset.toNat % 4)) offset size value

/-- A write through the ports. -/
theorem run_write_ports (hfind : findEcamRegion regions address.segment address.bus = none)
    (hsegment : address.segment = 0) (hv : ValidAccess address offset size PCI_CONFIG_LEGACY_SIZE) :
    run (host region layouts) (pciConfigWrite regions address offset size value) h =
      (PCI_STATUS_SUCCESS, { h with addressRegister := configAddress address offset }.withSpace address.place
        ((layouts address.place).write (h.spaces address.place) (offset.toNat - offset.toNat % 4) 4
          (portDword (h.spaces address.place) offset size value))) := by
  rw [pciConfigWrite, hfind]
  dsimp only
  rw [if_neg (not_or.mpr ⟨not_not.mpr hsegment, not_not.mpr hv⟩), portDword]
  have hne : ¬ (0xcfc : BitVec 16) = 0xcf8 := by decide
  split
  · simp only [spinLock, outl, spinUnlock, run_bind, run_call, host, if_true, if_neg hne, configAddress_msb,
      and_self, selectedPlace_configAddress hv.toNat.1 hv.toNat.2, selectedOffset_configAddress hv.offset_lt,
      run_pure]
  · simp only [spinLock, outl, inl, spinUnlock, run_bind, run_call, host, if_true, if_neg hne,
      configAddress_msb, and_self, selectedPlace_configAddress hv.toNat.1 hv.toNat.2,
      selectedOffset_configAddress hv.offset_lt, run_pure]

/-- An access that asks nothing of the hardware and is refused. -/
def Refused {α : Type} (layouts : Place → Layout) (region : PciEcamRegion) (h : Host) (p : PciM α)
    (status : α → Nat) : Prop :=
  trace (host region layouts) p h = [] ∧ status (run (host region layouts) p h).1 = PCI_STATUS_INVALID_ADDRESS

theorem refused_ecam (hfind : findEcamRegion regions address.segment address.bus = some region)
    (hv : ¬ ValidAccess address offset size PCI_CONFIG_PCIE_SIZE) (valueGiven : Bool) :
    Refused layouts region h (pciConfigRead regions address offset size valueGiven) Prod.fst ∧
    Refused layouts region h (pciConfigWrite regions address offset size value) id := by
  rw [pciConfigRead, pciConfigWrite, hfind]
  dsimp only
  rw [if_pos hv, if_pos hv]
  refine ⟨?_, rfl, rfl⟩
  split <;> exact ⟨rfl, rfl⟩

theorem refused_ports (hfind : findEcamRegion regions address.segment address.bus = none)
    (hv : ¬ ValidAccess address offset size PCI_CONFIG_LEGACY_SIZE) (valueGiven : Bool) :
    Refused layouts region h (pciConfigRead regions address offset size valueGiven) Prod.fst ∧
    Refused layouts region h (pciConfigWrite regions address offset size value) id := by
  rw [pciConfigRead, pciConfigWrite, hfind]
  dsimp only
  have hbad : address.segment ≠ 0 ∨ ¬ ValidAccess address offset size PCI_CONFIG_LEGACY_SIZE := .inr hv
  rw [if_pos hbad, if_pos hbad]
  refine ⟨?_, rfl, rfl⟩
  split <;> exact ⟨rfl, rfl⟩

end

/-- **The two mechanisms agree on an access**: on a valid one a read returns the same and changes no space,
and a write leaves the same spaces; on an access that is not valid for it, each of them asks nothing of the
hardware. -/
structure Agree (layouts : Place → Layout) (region : PciEcamRegion) (withEcam withPorts : List PciEcamRegion)
    (address : PciAddress) (offset : BitVec 16) (size : BitVec 8) (value : BitVec 32) (h : Host) : Prop where
  read : ValidAccess address offset size PCI_CONFIG_LEGACY_SIZE → ∃ v,
    (run (host region layouts) (pciConfigRead withEcam address offset size true) h).1 =
      (PCI_STATUS_SUCCESS, some v) ∧
    (run (host region layouts) (pciConfigRead withPorts address offset size true) h).1 =
      (PCI_STATUS_SUCCESS, some v) ∧
    (run (host region layouts) (pciConfigRead withEcam address offset size true) h).2.spaces = h.spaces ∧
    (run (host region layouts) (pciConfigRead withPorts address offset size true) h).2.spaces = h.spaces
  write : ValidAccess address offset size PCI_CONFIG_LEGACY_SIZE →
    (run (host region layouts) (pciConfigWrite withEcam address offset size value) h).1 = PCI_STATUS_SUCCESS ∧
    (run (host region layouts) (pciConfigWrite withPorts address offset size value) h).1 = PCI_STATUS_SUCCESS ∧
    (run (host region layouts) (pciConfigWrite withEcam address offset size value) h).2.spaces =
      (run (host region layouts) (pciConfigWrite withPorts address offset size value) h).2.spaces
  ecam : ¬ ValidAccess address offset size PCI_CONFIG_PCIE_SIZE → ∀ valueGiven,
    Refused layouts region h (pciConfigRead withEcam address offset size valueGiven) Prod.fst ∧
    Refused layouts region h (pciConfigWrite withEcam address offset size value) id
  ports : ¬ ValidAccess address offset size PCI_CONFIG_LEGACY_SIZE → ∀ valueGiven,
    Refused layouts region h (pciConfigRead withPorts address offset size valueGiven) Prod.fst ∧
    Refused layouts region h (pciConfigWrite withPorts address offset size value) id

section

variable {withEcam withPorts : List PciEcamRegion}

/-- A valid write leaves the same spaces by both mechanisms, exactly if it is one of a dword or clears nothing
in the rest of its dword. -/
theorem spaces_write_iff (hecam : findEcamRegion withEcam address.segment address.bus = some region)
    (hports : findEcamRegion withPorts address.segment address.bus = none) (hsegment : address.segment = 0)
    (hv : ValidAccess address offset size PCI_CONFIG_LEGACY_SIZE) :
    (run (host region layouts) (pciConfigWrite withEcam address offset size value) h).2.spaces =
      (run (host region layouts) (pciConfigWrite withPorts address offset size value) h).2.spaces ↔
    size = 4 ∨ NothingCleared (layouts address.place) (h.spaces address.place) offset.toNat size.toNat := by
  rw [run_write_ecam hecam (hv.mono (by decide)), run_write_ports hports hsegment hv]
  dsimp only [Host.withSpace]
  rw [(Function.update_injective h.spaces address.place).eq_iff]
  by_cases h4 : size = 4
  · subst h4
    have hdword := (hv.aligned).2.2 rfl
    rw [portDword, if_pos rfl, hdword]
    exact ⟨fun _ => .inl rfl, fun _ => rfl⟩
  · rw [portDword, if_neg h4, eq_comm, write_merged_iff _ _ hv h4]
    exact ⟨.inr, fun h => h.resolve_left h4⟩

/-- **PCI configuration: the port path and the ECAM path.**  They agree on an access exactly if a valid write
of one or two bytes finds no bit set, in the other bytes of its dword, that a one clears. -/
theorem pci_paths_agree (hecam : findEcamRegion withEcam address.segment address.bus = some region)
    (hports : findEcamRegion withPorts address.segment address.bus = none) (hsegment : address.segment = 0) :
    Agree layouts region withEcam withPorts address offset size value h ↔
      (ValidAccess address offset size PCI_CONFIG_LEGACY_SIZE → size = 4 ∨
        NothingCleared (layouts address.place) (h.spaces address.place) offset.toNat size.toNat) := by
  constructor
  · intro hagree hv
    exact (spaces_write_iff hecam hports hsegment hv).mp (hagree.write hv).2.2
  · intro hnothing
    refine ⟨fun hv => ?_, fun hv => ⟨?_, ?_, ?_⟩, fun hv => refused_ecam hecam hv,
      fun hv => refused_ports hports hv⟩
    · refine ⟨readAt (h.spaces address.place) offset.toNat size.toNat, ?_⟩
      rw [run_read_ecam hecam (hv.mono (by decide)), run_read_ports hports hsegment hv]
      exact ⟨rfl, rfl, rfl, rfl⟩
    · rw [run_write_ecam hecam (hv.mono (by decide))]
    · rw [run_write_ports hports hsegment hv]
    · exact (spaces_write_iff hecam hports hsegment hv).mpr (hnothing hv)

end

/-- The region of the first 256 buses. -/
def allBuses : PciEcamRegion := ⟨0xFFFF900000000000, 0, 0, 0xFF⟩

/-- The Command register is read-write; the upper half of the Status register behind it is cleared by ones. -/
def commandLayout : Layout where
  writable x := if x = 4 then 0x47 else if x = 5 then 0x05 else 0
  cleared x := if x = 7 then 0xF9 else 0
  disjoint x := by
    by_cases h4 : x = 4
    · subst h4
      decide
    · by_cases h5 : x = 5
      · subst h5
        decide
      · simp [h4, h5]

/-- A function whose Status register reports a received master abort (bit 13). -/
def abortedHost : Host where
  spaces := fun _ x => if x = 7 then 0x20 else 0
  addressRegister := 0

/-- A write of the Status register itself has the same effect by both mechanisms. -/
theorem pci_paths_agree_status : Agree (fun _ => commandLayout) allBuses [allBuses] []
    ⟨0, 3, 1, 0⟩ 6 2 0x2000 abortedHost := by
  refine (pci_paths_agree rfl rfl rfl).mpr fun _ => .inr fun x h1 h2 hout => ?_
  have h1 : 4 ≤ x := h1
  have h2 : x < 8 := h2
  have hx : x ≠ 7 := by
    rintro rfl
    exact hout ⟨by decide, by decide⟩
  simp [abortedHost, hx]

/-- **A write of the Command register through the ports clears the Status register.**  Two bytes at offset 4
set the bus master bit; through the region the received master abort stays reported. -/
theorem pci_ports_clear_status : ¬ Agree (fun _ => commandLayout) allBuses [allBuses] []
    ⟨0, 3, 1, 0⟩ 4 2 0x0004 abortedHost := by
  intro hagree
  have hspaces := (@spaces_write_iff ⟨0, 3, 1, 0⟩ 4 2 0x0004 allBuses (fun _ => commandLayout) abortedHost
    [allBuses] [] rfl rfl rfl (by decide)).mp (hagree.write (by decide)).2.2
  rcases hspaces with h4 | hnothing
  · exact absurd h4 (by decide)
  · have hseven := hnothing 7 (by decide) (by decide) (by decide)
    exact absurd hseven (by decide)

end Pci

end Dem64
