import Dem64.Paging.Machine
import Dem64.Lib.Radix
import Mathlib.Data.Nat.Bitwise

/-!
# Page-table entries

An entry is a frame number over twelve attribute bits.  `create_mapping` builds entries with `|`
from a page-aligned address and attribute bits, and takes them apart with shifts and masks; this
file says once what comes out, so that nothing above it looks at a bit.

`isTable` and `isLeaf` are the hardware's reading of an entry at depth `k`, where depth 0 is the
PML4 and depth 3 the page tables: an entry that is present points to a table unless it is a large
page or sits in a page table.
-/

set_option autoImplicit false

namespace Dem64

/-- The entry at depth `k` points to a table. -/
def isTable (k e : Nat) : Bool := present e && (k == 0 || (decide (k < 3) && !large e))

/-- The entry at depth `k` maps a page of `512 ^ (3 - k)` frames. -/
def isLeaf (k e : Nat) : Bool := present e && (k == 3 || (k != 0 && large e))

/-- Pages mapped by one entry at depth `k`. -/
def span (k : Nat) : Nat := 512 ^ (3 - k)

theorem span_pos (k : Nat) : 0 < span k := Nat.pow_pos (by decide)

/-! ## Bits of an entry -/

theorem present_eq (e : Nat) : present e = (e % 2 == 1) := by
  rw [present, Nat.and_one_is_mod]

theorem large_eq (e : Nat) : large e = e.testBit 7 := by
  rw [large, show (0x80 : Nat) = 2 ^ 7 from rfl, Nat.and_two_pow]
  cases e.testBit 7 <;> rfl

theorem present_zero : present 0 = false := rfl

theorem isTable_zero (k : Nat) : isTable k 0 = false := rfl

theorem isLeaf_zero (k : Nat) : isLeaf k 0 = false := rfl

theorem isTable_of_isLeaf (k e : Nat) (h : isLeaf k e = true) : isTable k e = false := by
  rw [isLeaf, Bool.and_eq_true] at h
  by_cases h3 : k = 3
  · subst h3; simp [isTable]
  · have hl : k ≠ 0 ∧ large e = true := by simpa [h3] using h.2
    simp [isTable, hl.1, hl.2]

/-- At the two middle levels the code tests the present and the large bit itself. -/
theorem isTable_middle {k e : Nat} (h1 : 1 ≤ k) (h2 : k ≤ 2) :
    isTable k e = true ↔ large e = false ∧ present e = true := by
  have h0 : k ≠ 0 := by omega
  have h3 : k < 3 := by omega
  simp [isTable, h0, h3, and_comm]

theorem isLeaf_middle {k e : Nat} (h1 : 1 ≤ k) (h2 : k ≤ 2) :
    isLeaf k e = true ↔ large e = true ∧ present e = true := by
  have h0 : k ≠ 0 := by omega
  have h3 : k ≠ 3 := by omega
  simp [isLeaf, h0, h3, and_comm]

theorem addrOf_shiftRight (e : Nat) : addrOf e >>> 12 = e >>> 12 := by
  rw [addrOf, Nat.shiftRight_eq_div_pow, Nat.shiftLeft_eq, Nat.shiftRight_eq_div_pow]
  omega

theorem addrOf_eq (e : Nat) : addrOf e = e / 4096 * 4096 := by
  rw [addrOf, Nat.shiftLeft_eq, Nat.shiftRight_eq_div_pow]

theorem shiftRight_twelve (e : Nat) : e >>> 12 = e / 4096 := Nat.shiftRight_eq_div_pow e 12

/-! ## Building an entry -/

/-- Joining a page-aligned address and attribute bits. -/
theorem or_eq_add {pa a : Nat} (hpa : pa % 4096 = 0) (ha : a < 4096) : pa ||| a = pa + a := by
  obtain ⟨g, rfl⟩ : ∃ g, pa = 2 ^ 12 * g := ⟨pa / 4096, by omega⟩
  exact (Nat.two_pow_add_eq_or_of_lt ha g).symm

theorem or_lt {a b : Nat} (ha : a < 4096) (hb : b < 4096) : a ||| b < 4096 :=
  Nat.or_lt_two_pow (n := 12) ha hb

theorem testBit_add {pa a : Nat} (hpa : pa % 4096 = 0) (ha : a < 4096) {i : Nat} (hi : i < 12) :
    (pa + a).testBit i = a.testBit i := by
  obtain ⟨g, rfl⟩ : ∃ g, pa = 2 ^ 12 * g := ⟨pa / 4096, by omega⟩
  rw [Nat.testBit_two_pow_mul_add g ha, if_pos hi]

theorem or_mod_two (a b : Nat) : (a ||| b) % 2 = a % 2 ||| b % 2 := by
  have := Nat.or_mod_two_pow (n := 1) (a := a) (b := b)
  simpa using this

/-- What `alloc_pages(1) | (attributes & 0x07)` is, for present attributes. -/
theorem tableEntry_spec (page attributes : Nat) (hp : page % 4096 = 0) (hp' : page < 2 ^ 64)
    (ha : attributes % 2 = 1) :
    let e := page ||| (attributes &&& 0x07)
    present e = true ∧ large e = false ∧ e / 4096 = page / 4096 ∧ e < 2 ^ 64 := by
  have h7 : attributes &&& 0x07 = attributes % 8 := Nat.and_two_pow_sub_one_eq_mod attributes 3
  have hlt : attributes % 8 < 4096 := by omega
  intro e
  have he : e = page + attributes % 8 := by rw [← or_eq_add hp hlt, ← h7]
  refine ⟨?_, ?_, by omega, by omega⟩
  · rw [present_eq, beq_iff_eq]
    omega
  · rw [large_eq, he, testBit_add hp hlt (by decide)]
    exact Nat.testBit_lt_two_pow (by omega)

/-- The attribute bits without the large-page bit. -/
theorem leafAttributes_eq (e : Nat) : leafAttributes e = e % 4096 &&& 0xffffffffffffff7f := by
  rw [leafAttributes, show (0xfff : Nat) = 2 ^ 12 - 1 from rfl, Nat.and_two_pow_sub_one_eq_mod]

theorem leafAttributes_lt (e : Nat) : leafAttributes e < 4096 := by
  rw [leafAttributes_eq]
  exact lt_of_le_of_lt Nat.and_le_left (Nat.mod_lt _ (by decide))

theorem leafAttributes_idem (e : Nat) : leafAttributes (leafAttributes e) = leafAttributes e := by
  rw [leafAttributes_eq (leafAttributes e), Nat.mod_eq_of_lt (leafAttributes_lt e),
    leafAttributes_eq, Nat.and_assoc, Nat.and_self]

theorem leafAttributes_mod_two (e : Nat) : leafAttributes e % 2 = e % 2 := by
  have h := Nat.and_mod_two_pow (n := 1) (a := e % 4096) (b := 0xffffffffffffff7f)
  rw [leafAttributes_eq]
  have h2 : (0xffffffffffffff7f : Nat) % 2 ^ 1 = 1 := rfl
  rw [h2, Nat.pow_one, Nat.and_one_is_mod] at h
  omega

theorem leafAttributes_or_large {a : Nat} (ha : a < 4096) :
    leafAttributes (a ||| 0x80) = leafAttributes a := by
  rw [leafAttributes_eq, leafAttributes_eq, Nat.mod_eq_of_lt (or_lt ha (by decide)),
    Nat.mod_eq_of_lt ha, Nat.and_or_distrib_right]
  exact Nat.or_zero _

/-- What a leaf entry is: `physical_address | attributes`, with the large-page bit or without. -/
structure LeafSpec (k pa attributes e : Nat) : Prop where
  /-- The hardware takes it for a leaf. -/
  leaf : isLeaf k e = true
  /-- It maps the page at `pa`. -/
  page : e / 4096 = pa / 4096
  /-- Its attributes are those asked for. -/
  attr : leafAttributes e = leafAttributes attributes
  /-- It fits an entry. -/
  lt : e < 2 ^ 64

theorem LeafSpec.of_add {k pa attributes b : Nat} (hpa : pa % 4096 = 0) (hpa' : pa < 2 ^ 64)
    (hb : b < 4096) (hodd : b % 2 = 1) (hk : k = 3 ∨ k ≠ 0 ∧ b.testBit 7 = true)
    (hattr : leafAttributes b = leafAttributes attributes) :
    LeafSpec k pa attributes (pa ||| b) := by
  rw [or_eq_add hpa hb]
  have hpres : present (pa + b) = true := by
    rw [present_eq, beq_iff_eq]
    omega
  refine ⟨?_, by omega, ?_, by omega⟩
  · rw [isLeaf, hpres, large_eq, testBit_add hpa hb (by decide), Bool.true_and]
    rcases hk with rfl | ⟨h0, h7⟩
    · rfl
    · simp [h0, h7]
  · rw [← hattr, leafAttributes_eq, leafAttributes_eq]
    congr 1
    omega

/-- The entries of the 1 GiB and 2 MiB loops. -/
theorem largeEntry_spec {k pa attributes : Nat} (hk : k ≠ 0) (hpa : pa % 4096 = 0)
    (hpa' : pa < 2 ^ 64) (ha : attributes < 4096) (hodd : attributes % 2 = 1) :
    LeafSpec k pa attributes (pa ||| (attributes ||| 0x80)) := by
  refine LeafSpec.of_add hpa hpa' (or_lt ha (by decide)) ?_ (Or.inr ⟨hk, ?_⟩)
    (leafAttributes_or_large ha)
  · rw [or_mod_two, hodd]
    rfl
  · rw [Nat.testBit_or]
    simp only [Bool.or_eq_true]
    exact Or.inr (by decide)

/-- The entries of the 4 KiB loop. -/
theorem smallEntry_spec {pa attributes : Nat} (hpa : pa % 4096 = 0)
    (hpa' : pa < 2 ^ 64) (ha : attributes < 4096) (hodd : attributes % 2 = 1) :
    LeafSpec 3 pa attributes (pa ||| attributes) :=
  LeafSpec.of_add hpa hpa' ha hodd (Or.inl rfl) rfl

end Dem64
