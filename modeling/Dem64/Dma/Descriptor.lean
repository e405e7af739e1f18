import Dem64.Dma.Reclaim
import Dem64.Lib.ByteMemory

/-!
# Buffers and descriptors

A buffer is mapped to bytes that lie side by side (`Contiguous`), so that a loop over virtual
addresses is a loop over these bytes.  The descriptor at the end of the buffer is read as it was
written, wherever `free_dma` finds it first: `findDescriptorBase_spec` says that the search ends at
the first signature behind the start of the buffer.
-/

set_option autoImplicit false

namespace Dem64

open ByteMemory

section

@[simp] theorem length_leBytes (n v : Nat) : (leBytes n v).length = n := by
  induction n generalizing v with
  | zero => rfl
  | succ n ih => rw [leBytes, List.length_cons, ih]

/-- A number is read as it was written. -/
theorem leValue_leBytes (n v : Nat) : leValue (leBytes n v) = v % 256 ^ n := by
  induction n generalizing v with
  | zero => rw [leBytes, leValue, Nat.pow_zero, Nat.mod_one]
  | succ n ih =>
    have hpow : 256 ^ (n + 1) = 256 * 256 ^ n := by rw [Nat.pow_succ, Nat.mul_comm]
    rw [leBytes, leValue, ih, BitVec.toNat_ofNat, hpow, Nat.mod_mul]

theorem length_descriptorBytes (entriesUsed pages : Nat) (home : Option EntryPtr) :
    (descriptorBytes entriesUsed pages home).length = 28 := by
  simp [descriptorBytes, dmaSign]

/-- A pointer to an entry is read as it was written. -/
theorem entryPtrAt_addr {y : EntryPtr} (h : y.slot < 204) : entryPtrAt y.addr = some y := by
  obtain ⟨k, s⟩ := y
  have hs : s < 204 := h
  rw [entryPtrAt, EntryPtr.addr]
  generalize dmaPoolBase = start
  have hsub : start + 4096 * k + 20 * s - start = 4096 * k + 20 * s := by omega
  have hmod : (4096 * k + 20 * s) % 4096 = 20 * s := by omega
  have hdiv : (4096 * k + 20 * s) / 4096 = k := by omega
  rw [if_pos ⟨by simp only; omega, by simp only [hsub, hmod]; omega⟩]
  simp only [hsub, hmod, hdiv]
  rw [Nat.mul_div_cancel_left _ (show 0 < 20 by decide)]

end

/-! ## Buffers -/

/-- The bytes from `va` on, `len` of them, are those from `pa` on. -/
def Contiguous (pml4 : Nat) (w : DmaWorld) (va pa len : Nat) : Prop :=
  ∀ i, i < len → w.physical pml4 (va + i) = some (pa + i)

section

variable {pml4 va pa len i : Nat} {w w' : DmaWorld} {l : List (BitVec 8)}

/-- A region of the arena is a buffer. -/
theorem Region.Backed.contiguous {r : Region} {k : Nat} (h : r.Backed (pml4 >>> 12) w.machine)
    (hpage : r.page = dmaLo + k) (hk : k + r.count ≤ 2 ^ 19) :
    Contiguous pml4 w (dmaBase + 4096 * k) (4096 * r.frame) (4096 * r.count) := by
  intro i hi
  obtain ⟨hrange, -⟩ := dma_range (k := k + i / 4096) (le_refl 1) (by omega)
  have hva : pageOf (dmaBase + 4096 * k + i) = dmaLo + k + i / 4096 := by
    rw [dmaLo, dmaBase, pageOf, pageOf]
    omega
  have hcan : Canonical (dmaBase + 4096 * k + i) := by
    refine Or.inr ⟨?_, ?_⟩ <;> rw [dmaBase] <;> omega
  have hmem : pageOf (dmaBase + 4096 * k + i) ∈ r.pages := by
    rw [hva, Region.pages, Set.mem_Ico]
    omega
  obtain ⟨attributes, hw⟩ := h.hardwareWalk hcan hmem
  have hmod : (dmaBase + 4096 * k + i) % 4096 = i % 4096 := by
    rw [dmaBase]
    omega
  rw [DmaWorld.physical, hw, Option.map_some, hva, hmod]
  congr 1
  simp only
  omega

/-- A page is mapped to one frame. -/
theorem physical_add (hva : va % 4096 = 0) (hi : i < 4096) (h : w.physical pml4 va = some pa) :
    w.physical pml4 (va + i) = some (pa + i) := by
  rw [DmaWorld.physical, hardwareWalk] at h ⊢
  have hpage : pageOf (va + i) = pageOf va := by
    rw [pageOf, pageOf]
    omega
  have hleaf : hardwareLeaf w.machine.mem (pml4 >>> 12) (va + i) =
      hardwareLeaf w.machine.mem (pml4 >>> 12) va := by
    have hcanonical : Canonical (va + i) ↔ Canonical va := by
      rw [Canonical, Canonical]
      omega
    rw [hardwareLeaf, hardwareLeaf, hpage]
    exact if_congr hcanonical rfl rfl
  rw [hleaf, hpage]
  obtain ⟨page, hw, hpa⟩ := Option.map_eq_some_iff.mp h
  rw [hw, Option.map_some]
  congr 1
  omega

/-- A buffer is mapped to bytes that lie side by side when its pages are. -/
theorem Contiguous.of_pages {n : Nat} (hva : va % 4096 = 0)
    (h : ∀ k, k < n → w.physical pml4 (va + 4096 * k) = some (pa + 4096 * k)) :
    Contiguous pml4 w va pa (4096 * n) := by
  intro i hi
  have hpage := physical_add (i := i % 4096) (by omega) (Nat.mod_lt _ (by decide)) (h (i / 4096) (by omega))
  rw [Nat.add_assoc, Nat.add_assoc, Nat.div_add_mod] at hpage
  exact hpage

theorem Contiguous.congr (h : Contiguous pml4 w va pa len) (hm : w'.machine = w.machine) :
    Contiguous pml4 w' va pa len := by
  intro i hi
  rw [DmaWorld.physical, hm]
  exact h i hi

namespace DmaWorld

theorem load_spec (h : Contiguous pml4 w va pa len) (hi : i < len) :
    w.load pml4 (va + i) = some (w.bytes (pa + i)) := by
  rw [load, h i hi, Option.map_some]

theorem loadBytes_spec (h : Contiguous pml4 w va pa len) (hb : HasBytes w.bytes (pa + i) l)
    (hi : i + l.length ≤ len) : w.loadBytes pml4 l.length (va + i) = some l := by
  induction l generalizing i with
  | nil => rfl
  | cons b l ih =>
    rw [List.length_cons] at hi ⊢
    have hrest := ih (i := i + 1) (by rw [← Nat.add_assoc]; exact hb.2) (by omega)
    rw [← Nat.add_assoc] at hrest
    rw [loadBytes, load_spec h (by omega), Option.bind_eq_bind, Option.bind_some, hb.1, hrest]
    rfl

theorem storeBytes_spec (h : Contiguous pml4 w va pa len) (hi : i + l.length ≤ len) :
    storeBytes pml4 l (va + i) w = some { w with bytes := putBytes w.bytes (pa + i) l } := by
  induction l generalizing i w with
  | nil => rfl
  | cons b l ih =>
    rw [List.length_cons] at hi
    rw [storeBytes, h i (by omega), Option.bind_eq_bind, Option.bind_some, Nat.add_assoc]
    exact ih (i := i + 1) (h.congr rfl) (by omega)

theorem sameBytes_spec (h : Contiguous pml4 w va pa len) (hi : i + l.length ≤ len) :
    w.sameBytes pml4 l (va + i) = some (decide (HasBytes w.bytes (pa + i) l)) := by
  induction l generalizing i with
  | nil => rfl
  | cons b l ih =>
    rw [List.length_cons] at hi
    have hrest := ih (i := i + 1) (by omega)
    rw [← Nat.add_assoc] at hrest
    rw [sameBytes, load_spec h (by omega), Option.bind_eq_bind, Option.bind_some, hrest]
    split
    · rename_i hc
      congr 2
      rw [HasBytes, hc, eq_self_iff_true, true_and]
      rfl
    · rename_i hc
      rw [Option.pure_def]
      congr 1
      exact (decide_eq_false fun hb => hc hb.1).symm

/-- **The search ends at the first signature.** -/
theorem findDescriptorBase_spec (h : Contiguous pml4 w va pa len) {d : Nat}
    (hd : HasBytes w.bytes (pa + (i + d)) dmaSign) (hlen : i + d + 8 ≤ len)
    (hfirst : ∀ j, j < d → ¬ HasBytes w.bytes (pa + (i + j)) dmaSign) (n : Nat) :
    w.findDescriptorBase pml4 n (va + i) = if d < n then some (va + (i + d)) else none := by
  have hsign : dmaSign.length = 8 := rfl
  induction n generalizing i d with
  | zero => rfl
  | succ n ih =>
    rw [findDescriptorBase, sameBytes_spec h (by omega), Option.bind_eq_bind, Option.bind_some]
    cases d with
    | zero =>
      rw [decide_eq_true (by simpa using hd), if_pos rfl, if_pos (by omega)]
      rfl
    | succ d =>
      have hno : ¬ HasBytes w.bytes (pa + i) dmaSign := hfirst 0 (by omega)
      rw [decide_eq_false hno, if_neg (by simp), Nat.add_assoc,
        ih (i := i + 1) (d := d) (by rw [show i + 1 + d = i + (d + 1) by omega]; exact hd) (by omega)
          fun j hj => by rw [show i + 1 + j = i + (j + 1) by omega]; exact hfirst (j + 1) (by omega)]
      rw [show i + 1 + d = i + (d + 1) by omega]
      exact if_congr (by omega) rfl rfl

end DmaWorld

end

end Dem64
