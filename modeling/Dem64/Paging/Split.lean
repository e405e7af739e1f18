import Dem64.Paging.Create
import Dem64.Paging.Address

/-!
# Splitting a large page

Before `destroy_mapping` clears part of a large page it maps the whole of it again with smaller
pages: the part in front of the range, the range, and the part behind it, by three calls of
`create_mapping`.  The translation of every page stays what it was (`Refined`), except where the
large page is the last one of the address space: there the third call ends at `2^64`, its
`virtual_end` wraps to zero, it does nothing, and the pages behind the range are lost.
-/

set_option autoImplicit false

namespace Dem64

/-- The last page of the address space. -/
def lastPage : Nat := 2 ^ 36 - 1

/-- The page `v` has the same translation in `m'` as in `m`, through a leaf at the same depth or
further down. -/
def Refined (root : Nat) (m m' : Machine) (v : Nat) : Prop :=
  ∃ k e k' e', walk m.mem root v = some (k, e) ∧ walk m'.mem root v = some (k', e') ∧ k ≤ k' ∧
    leafPage v (k', e') = leafPage v (k, e)

section

variable {root v : Nat} {m₀ m m' : Machine}

theorem Refined.of_eq (h : walk m'.mem root v = walk m.mem root v) {k e : Nat}
    (hw : walk m.mem root v = some (k, e)) : Refined root m m' v :=
  ⟨k, e, k, e, hw, h.trans hw, le_refl k, rfl⟩

theorem Refined.trans (h : Refined root m₀ m v) (h' : Refined root m m' v) :
    Refined root m₀ m' v := by
  obtain ⟨k, e, k₁, e₁, hw, hw₁, hk, hp⟩ := h
  obtain ⟨k₂, e₂, k', e', hw₂, hw', hk', hp'⟩ := h'
  obtain ⟨rfl, rfl⟩ := Prod.mk.inj (Option.some_inj.mp (hw₁.symm.trans hw₂))
  exact ⟨k, e, k', e', hw, hw', hk.trans hk', hp'.trans hp⟩

/-- Smaller leaves have smaller spans. -/
theorem span_lt {j k : Nat} (hjk : j < k) (hk : k ≤ 3) : 512 * span k ≤ span j := by
  rw [span_eq_mul hjk.le hk, Nat.mul_comm]
  exact Nat.mul_le_mul_left _ (Nat.le_self_pow (by omega) 512)

/-- The address space is made of whole slots. -/
theorem block_le {k : Nat} (hk : k ≤ 3) (hv : v < 2 ^ 36) : (v / span k + 1) * span k ≤ 2 ^ 36 := by
  have htotal : 512 ^ (k + 1) * span k = 2 ^ 36 := by
    rw [span, ← Nat.pow_add, show k + 1 + (3 - k) = 4 by omega]
    rfl
  rw [← htotal] at hv ⊢
  exact Nat.mul_le_mul_right _ ((Nat.div_lt_iff_lt_mul (span_pos k)).mpr hv)

/-- Mapping the first pages of a large page again, with the frames and the attributes they have,
refines their translation; the other pages of the large page are lost, and all others stay. -/
theorem Mapped.refines {k e b hi : Nat} (hwf : WellFormed m root) (hk0 : 1 ≤ k)
    (hw : walk m.mem root b = some (k, e)) (hb : b % span k = 0) (hlt : b < hi)
    (hhi : hi ≤ b + span k) (hhi' : hi ≤ 2 ^ 36)
    (h : Mapped root b hi (addrOf e) (leafAttributes e) m m') :
    (∀ v, v < 2 ^ 36 → v / span k ≠ b / span k → walk m'.mem root v = walk m.mem root v) ∧
    (∀ v, b ≤ v → v < hi → Refined root m m' v) ∧
    ∀ v, v < 2 ^ 36 → hi ≤ v → v / span k = b / span k → walk m'.mem root v = none := by
  have hpos := span_pos k
  have hblock : ∀ u, b ≤ u → u < b + span k → u / span k = b / span k := by
    intro u h1 h2
    obtain ⟨c, rfl⟩ := Nat.dvd_of_mod_eq_zero hb
    rw [Nat.mul_div_cancel_left _ hpos, Nat.div_eq_of_lt_le]
    · rwa [Nat.mul_comm] at h1
    · rw [Nat.mul_comm, Nat.mul_succ]
      exact h2
  have hleaf : ∀ u, u < 2 ^ 36 → u / span k = b / span k → walk m.mem root u = some (k, e) :=
    fun u hu hq => walk_congr hu (by omega) hw hq
  obtain ⟨hk3, hentry, hl⟩ := entryAt_of_walk (by omega) hw
  refine ⟨fun v hv hq => ?_, fun v h1 h2 => ?_, fun v hv h1 hq => ?_⟩
  · refine h.kept v hv ?_ ?_
    · by_contra hin
      exact hq (hblock v (by omega) (by omega))
    · rintro ⟨j, e', u, hwv, hu1, hu2, hu⟩
      have hwu := walk_congr (u := u) (by omega) hv hwv hu
      rw [hleaf u (by omega) (hblock u hu1 (by omega)), Option.some_inj, Prod.mk.injEq] at hwu
      obtain ⟨rfl, rfl⟩ := hwu
      exact hq (by rw [← hu, hblock u hu1 (by omega)])
  · obtain ⟨k', e', hw', hb1, hb2, hpage, hattr⟩ := h.inside v h1 h2
    have hwv := hleaf v (by omega) (hblock v h1 (by omega))
    refine ⟨k, e, k', e', hwv, hw', ?_, ?_⟩
    · by_contra hlt'
      have hs := span_lt (Nat.lt_of_not_le hlt') hk3
      rw [Nat.add_mul, Nat.one_mul] at hb2
      omega
    · have hmod : v - b = v % span k := by
        have hv := Nat.div_add_mod v (span k)
        have hbd := Nat.div_add_mod b (span k)
        rw [hblock v h1 (by omega)] at hv
        omega
      have hok := hwf.entries k _ _ hk3 hentry
      rw [leafPage, leafPage, hpage, hattr, leafAttributes_idem, hmod, addrOf_eq,
        Nat.mul_div_cancel _ (by decide)]
      congr 1
      rcases hok with rfl | ⟨-, hlt, -, hal⟩
      · exact absurd hl (by rw [isLeaf_zero]; decide)
      · have hmod' := Nat.mod_lt v hpos
        have hal' := hal hl
        refine Nat.mod_eq_of_lt ?_
        obtain rfl | rfl | rfl : k = 1 ∨ k = 2 ∨ k = 3 := by omega
        all_goals
          simp only [span, Nat.reducePow, Nat.reduceSub] at hmod' hal' ⊢
          omega
  · refine h.lost v hv (Or.inr h1) ⟨k, e, b, hleaf v hv hq, le_refl b, hlt, hq.symm⟩

/-- If a large page of depth `k` mapped `v₀` it is split, `fin` being the end of the range that is
about to be cleared. -/
structure Split (root k v₀ fin : Nat) (m m' : Machine) : Prop where
  /-- What was done is a run of steps. -/
  steps : Steps root m m'
  /-- The pages of other leaves stay. -/
  kept : ∀ v, v < 2 ^ 36 → (∀ e, walk m.mem root v = some (k, e) → v / span k ≠ v₀ / span k) →
    walk m'.mem root v = walk m.mem root v
  /-- The pages of the large page keep their translation, up to the end of the range, and to the
  end of the page if it is not the last one of the address space. -/
  refined : ∀ v e, v < 2 ^ 36 → walk m.mem root v = some (k, e) → v / span k = v₀ / span k →
    v < fin ∨ lastPage / span k ≠ v₀ / span k → Refined root m m' v
  /-- Otherwise the last page of the address space is lost. -/
  top : ∀ e, walk m.mem root lastPage = some (k, e) → lastPage / span k = v₀ / span k →
    walk m'.mem root lastPage = none
  /-- There is a table in the place of the large page. -/
  table : ∃ f, tableAt m'.mem root (k + 1) (v₀ / span k) = some f
  /-- The tables above it stay. -/
  tables : ∀ j f, j < k → tableAt m.mem root (j + 1) (v₀ / span j) = some f →
    tableAt m'.mem root (j + 1) (v₀ / span j) = some f

/-- Where there is a table already there is nothing to split. -/
theorem Split.refl {k v₀ fin f : Nat} (h : tableAt m.mem root (k + 1) (v₀ / span k) = some f) :
    Split root k v₀ fin m m := by
  have hne : ∀ v e, v < 2 ^ 36 → walk m.mem root v = some (k, e) → v / span k ≠ v₀ / span k := by
    intro v e hv hw hq
    obtain ⟨-, he, hl⟩ := entryAt_of_walk hv hw
    obtain ⟨g, hg, ht, -⟩ := Radix.tableAt_succ_eq_some.mp h
    rw [hq, entryAt, Radix.entryAt_eq_some hg, Option.some_inj] at he
    rw [he, isTable_of_isLeaf k e hl] at ht
    exact absurd ht (by simp)
  exact ⟨Relation.ReflTransGen.refl, fun _ _ _ => rfl, fun v e hv hw hq => absurd hq (hne v e hv hw),
    fun e hw hq => absurd hq (hne _ e (by decide) hw), ⟨f, h⟩, fun _ _ _ hf => hf⟩

/-- A leaf further down has a table above it. -/
theorem exists_tableAt_of_walk {k k' e' : Nat} (hv : v < 2 ^ 36) (hk : k < k')
    (hw : walk m.mem root v = some (k', e')) :
    ∃ f, tableAt m.mem root (k + 1) (v / span k) = some f := by
  obtain ⟨hk', he, -⟩ := entryAt_of_walk hv hw
  obtain ⟨f, hf, -⟩ := Option.map_eq_some_iff.mp he
  obtain ⟨j, rfl⟩ : ∃ j, k' = j + 1 := ⟨k' - 1, by omega⟩
  rw [div_span_succ hk'] at hf
  exact Radix.exists_tableAt_key (by omega) (Nat.le_of_lt_succ hk) hf

/-- A range that is shorter than a slot holds no slot further up. -/
theorem not_within {lo hi j k p : Nat} (hjk : j < k) (hk : k ≤ 3) (h : hi ≤ lo + span k) :
    ¬ Within lo hi j p := by
  rintro ⟨h1, h2⟩
  have hs := span_lt hjk hk
  have hpos := span_pos k
  rw [Nat.add_mul, Nat.one_mul] at h2
  omega

end

/-! ## The three calls

The pages of one half of the address space have the addresses `base + 4096 * v`, with the same
`base`. -/

/-- Where a half of the address space starts, in the numbering of its pages. -/
def HalfBase (base : Nat) : Prop := base = 0 ∨ base = 2 ^ 64 - 2 ^ 48

section

variable {k e pages pml4 base v₀ : Nat} {m : Machine}

theorem createMapping_half {attributes pa : Nat} (hbase : HalfBase base) (hfits : v₀ + pages < 2 ^ 36)
    (hattr : attributes < 4096) (hodd : attributes % 2 = 1) (hpa : pa % 4096 = 0)
    (hpa' : pa < 2 ^ 64) (hpml4 : pml4 ≠ 0) (hwf : WellFormed m (pml4 >>> 12))
    (hno : NoFail m (createMapping m (base + 4096 * v₀) pa pages attributes pml4)) :
    Mapped (pml4 >>> 12) v₀ (v₀ + pages) pa attributes m
      (createMapping m (base + 4096 * v₀) pa pages attributes pml4) := by
  refine createMapping_mapped ⟨hattr, hodd, hpa, hpa'⟩ ?_ ?_ hfits.le ?_ hpml4 hwf hno
  all_goals rcases hbase with rfl | rfl <;> omega

/-- The addresses and counts of a split, in pages. -/
theorem splitLarge_eq (hk : k = 1 ∨ k = 2) (hbase : HalfBase base)
    (hphys attributes : Nat) :
    splitLarge (span k) hphys (base + 4096 * v₀ - (base + 4096 * v₀) % (4096 * span k)) attributes
        (base + 4096 * v₀) pages pml4 m =
      let r := v₀ % span k
      let here := min pages (span k - r)
      let m₁ := createMapping m (base + 4096 * (v₀ - r)) hphys r attributes pml4
      let m₂ := createMapping m₁ (base + 4096 * v₀) ((hphys + 4096 * r) % 2 ^ 64) here attributes pml4
      createMapping m₂ ((base + 4096 * (v₀ + here)) % 2 ^ 64) ((hphys + 4096 * (r + here)) % 2 ^ 64)
        (span k - r - here) attributes pml4 := by
  have hs : span k = 2 ^ 18 ∨ span k = 2 ^ 9 := by
    rcases hk with rfl | rfl
    · exact Or.inl rfl
    · exact Or.inr rfl
  have hmod : (base + 4096 * v₀) % (4096 * span k) = 4096 * (v₀ % span k) := by
    rcases hbase with rfl | rfl <;> rcases hs with hs | hs <;> rw [hs] <;> omega
  have hmask : (base + 4096 * v₀) &&& (4096 * span k - 1) = 4096 * (v₀ % span k) := by
    rw [← hmod]
    rcases hk with rfl | rfl
    · exact and_mask_eq 30 _
    · exact and_mask_eq 21 _
  have hr := Nat.mod_lt v₀ (span_pos k)
  have hrle := Nat.mod_le v₀ (span k)
  simp only [splitLarge, hmask, hmod]
  generalize v₀ % span k = r at hr hrle ⊢
  have hvirt : base + 4096 * v₀ - 4096 * r = base + 4096 * (v₀ - r) := by omega
  have halign : (if base + 4096 * (v₀ - r) < base + 4096 * v₀ then
      (base + 4096 * v₀ - (base + 4096 * (v₀ - r))) >>> 12 else 0) = r := by
    rw [Nat.shiftRight_eq_div_pow]
    split <;> omega
  have hfirst : (if base + 4096 * (v₀ - r) < base + 4096 * v₀ then
      createMapping m (base + 4096 * (v₀ - r)) hphys r attributes pml4 else m) =
        createMapping m (base + 4096 * (v₀ - r)) hphys r attributes pml4 := by
    split
    · rfl
    · obtain rfl : r = 0 := by omega
      rw [createMapping, if_pos (Or.inr rfl)]
  have havail : subU64 (span k) r = span k - r := by
    rw [subU64]
    omega
  have hhere : (if pages < span k - r then pages else span k - r) = min pages (span k - r) := by
    split <;> omega
  rw [hvirt, halign, hfirst, havail, hhere, Nat.shiftLeft_eq]
  congr 1
  · omega
  · omega

theorem leafAttributes_odd {root v : Nat} (hv : v < 2 ^ 36)
    (hw : walk m.mem root v = some (k, e)) : leafAttributes e % 2 = 1 := by
  obtain ⟨-, -, hl⟩ := entryAt_of_walk hv hw
  rw [isLeaf, Bool.and_eq_true, present_eq, beq_iff_eq] at hl
  rw [leafAttributes_mod_two, hl.1]

theorem createMapping_noFail (va pa pages attributes pml4 : Nat) (m : Machine) :
    m.failures ≤ (createMapping m va pa pages attributes pml4).failures :=
  (closed_failures _ fun _ => True).createMapping trivial (le_refl _) _ _ _ _

/-- The three calls together: `m₂` is what the first two make of `m`, and the third does nothing when
the large page is the last one of the address space. -/
theorem split_of_mapped {root v₀ fin here : Nat} {m₂ m' : Machine} (hwf : WellFormed m root)
    (hk : 1 ≤ k) (hv : v₀ < fin) (hfin : fin ≤ lastPage) (hw : walk m.mem root v₀ = some (k, e))
    (hhere : min (fin - v₀) (span k - v₀ % span k) = here)
    (h₂ : Mapped root (v₀ - v₀ % span k) (v₀ + here) (addrOf e) (leafAttributes e) m m₂)
    (hdeep : ∃ k' e', walk m₂.mem root v₀ = some (k', e') ∧ k < k' ∧
      (v₀ / span k' + 1) * span k' ≤ v₀ + here)
    (h₃ : lastPage / span k = v₀ / span k → m' = m₂)
    (h₃' : lastPage / span k ≠ v₀ / span k → Mapped root (v₀ + here) (v₀ - v₀ % span k + span k)
      ((addrOf e + 4096 * (v₀ % span k + here)) % 2 ^ 64) (leafAttributes e) m₂ m') :
    Split root k v₀ fin m m' := by
  have hlast : lastPage + 1 = 2 ^ 36 := rfl
  obtain ⟨k', e', hw', hk', hblock⟩ := hdeep
  have hk3 := (walk_depth (by omega) hw).2
  have hr := Nat.mod_lt v₀ (span_pos k)
  have hrle := Nat.mod_le v₀ (span k)
  have hdiv := Nat.div_add_mod v₀ (span k)
  generalize hb : v₀ - v₀ % span k = b at h₂ h₃'
  have hbq : b = v₀ / span k * span k := by
    rw [Nat.mul_comm]
    omega
  have hbmod : b % span k = 0 := by rw [hbq, Nat.mul_mod_left]
  have hbdiv : b / span k = v₀ / span k := by rw [hbq, Nat.mul_div_cancel _ (span_pos k)]
  have hwb := walk_congr (u := b) (by omega) (by omega) hw hbdiv
  have hmem : ∀ v, v / span k = v₀ / span k ↔ b ≤ v ∧ v < b + span k := by
    intro v
    rw [Nat.div_eq_iff (span_pos k), ← hbq]
    omega
  have hslot : ∀ v, v < 2 ^ 36 → v / span k = v₀ / span k → walk m.mem root v = some (k, e) :=
    fun v hv' hq => walk_congr hv' (by omega) hw hq
  by_cases htop : lastPage / span k = v₀ / span k
  · -- the range ends inside the large page, and the pages behind it are lost
    obtain rfl := h₃ htop
    have hlt := (hmem _).mp htop
    obtain rfl : here = fin - v₀ := by omega
    rw [show v₀ + (fin - v₀) = fin by omega] at h₂
    obtain ⟨hkept, href, hlost⟩ := h₂.refines hwf hk hwb hbmod (by omega) (by omega) (by omega)
    rw [hbdiv] at hkept hlost
    refine ⟨h₂.steps, fun v hv' hne => hkept v hv' fun hq => hne e (hslot v hv' hq) hq,
      fun v _ _ _ hq hor => ?_, fun _ _ _ => hlost _ (by omega) hfin htop,
      exists_tableAt_of_walk (by omega) hk' hw', fun j f hj hf => ?_⟩
    · exact href v ((hmem v).mp hq).1 (hor.resolve_right (not_not.mpr htop))
    · exact h₂.tables j _ f (by omega) hf (not_within hj hk3 (by omega))
  · have hend : b + span k ≤ 2 ^ 36 := by
      rw [hbq, ← Nat.succ_mul]
      exact block_le hk3 (by omega)
    have h₃ := h₃' htop
    have hall := Mapped.trans (by omega) (by omega) hend (by rw [addrOf_eq]; omega) h₂
      (by rwa [show v₀ + here - b = v₀ % span k + here by omega])
    obtain ⟨hkept, href, -⟩ := hall.refines hwf hk hwb hbmod (by omega) (le_refl _) hend
    rw [hbdiv] at hkept
    refine ⟨hall.steps, fun v hv' hne => hkept v hv' fun hq => hne e (hslot v hv' hq) hq,
      fun v _ _ _ hq _ => ?_, fun _ _ h => absurd h htop,
      exists_tableAt_of_walk (by omega) hk' (h₃.kept_before (by omega) hw' hblock), fun j f hj hf => ?_⟩
    · exact href v ((hmem v).mp hq).1 ((hmem v).mp hq).2
    · exact hall.tables j _ f (by omega) hf (not_within hj hk3 (le_refl _))

/-- **The split of a large page**, which the range covers only partly. -/
theorem splitLarge_split (hk : k = 1 ∨ k = 2) (hbase : HalfBase base)
    (hwf : WellFormed m (pml4 >>> 12)) (hpml4 : pml4 ≠ 0) (hpos : 0 < pages)
    (hfits : v₀ + pages < 2 ^ 36) (hw : walk m.mem (pml4 >>> 12) v₀ = some (k, e))
    (hlow : base = 0 → v₀ < 2 ^ 35) (hpart : v₀ % span k ≠ 0 ∨ pages < span k)
    (hno : NoFail m (splitLarge (span k) (addrOf e)
      (base + 4096 * v₀ - (base + 4096 * v₀) % (4096 * span k)) (leafAttributes e)
      (base + 4096 * v₀) pages pml4 m)) :
    Split (pml4 >>> 12) k v₀ (v₀ + pages) m (splitLarge (span k) (addrOf e)
      (base + 4096 * v₀ - (base + 4096 * v₀) % (4096 * span k)) (leafAttributes e)
      (base + 4096 * v₀) pages pml4 m) := by
  have hv : v₀ < 2 ^ 36 := by omega
  have hattr := leafAttributes_odd hv hw
  have hattr' := leafAttributes_lt e
  obtain ⟨hk3, hentry, -⟩ := entryAt_of_walk hv hw
  have hphys : addrOf e % 4096 = 0 ∧ addrOf e < 2 ^ 64 := by
    rcases hwf.entries k _ _ hk3 hentry with rfl | ⟨-, hlt, -⟩
    · exact ⟨rfl, by decide⟩
    · rw [addrOf_eq]
      omega
  have hlast : lastPage + 1 = 2 ^ 36 := rfl
  have hrlt := Nat.mod_lt v₀ (span_pos k)
  have hrle := Nat.mod_le v₀ (span k)
  rw [splitLarge_eq hk hbase] at hno ⊢
  simp only at hno ⊢
  generalize hhere : min pages (span k - v₀ % span k) = here at hno ⊢
  have hmono₂ := createMapping_noFail (base + 4096 * v₀) ((addrOf e + 4096 * (v₀ % span k)) % 2 ^ 64)
    here (leafAttributes e) pml4 (createMapping m (base + 4096 * (v₀ - v₀ % span k)) (addrOf e)
      (v₀ % span k) (leafAttributes e) pml4)
  have hmono₁ := createMapping_noFail (base + 4096 * (v₀ - v₀ % span k)) (addrOf e) (v₀ % span k)
    (leafAttributes e) pml4 m
  generalize hm₁ : createMapping m (base + 4096 * (v₀ - v₀ % span k)) (addrOf e)
    (v₀ % span k) (leafAttributes e) pml4 = m₁ at hno hmono₁ hmono₂ ⊢
  generalize hm₂ : createMapping m₁ (base + 4096 * v₀) ((addrOf e + 4096 * (v₀ % span k)) % 2 ^ 64)
    here (leafAttributes e) pml4 = m₂ at hno hmono₂ ⊢
  have hmono₃ := createMapping_noFail ((base + 4096 * (v₀ + here)) % 2 ^ 64)
    ((addrOf e + 4096 * (v₀ % span k + here)) % 2 ^ 64) (span k - v₀ % span k - here)
    (leafAttributes e) pml4 m₂
  -- the pages before the range
  have hmap₁ : Mapped (pml4 >>> 12) (v₀ - v₀ % span k) (v₀ - v₀ % span k + v₀ % span k) (addrOf e)
      (leafAttributes e) m m₁ := by
    subst hm₁
    exact createMapping_half hbase (by omega) hattr' hattr hphys.1 hphys.2 hpml4 hwf
      (hmono₂.trans (hmono₃.trans hno))
  rw [Nat.sub_add_cancel hrle] at hmap₁
  have hwf₁ := hmap₁.steps.wellFormed hwf
  -- the pages of the range
  have hmap₂ : Mapped (pml4 >>> 12) v₀ (v₀ + here) ((addrOf e + 4096 * (v₀ % span k)) % 2 ^ 64)
      (leafAttributes e) m₁ m₂ := by
    subst hm₂
    exact createMapping_half hbase (by omega) hattr' hattr (by omega) (Nat.mod_lt _ (by decide))
      hpml4 hwf₁ ((hmono₃.trans hno).trans hmono₁)
  have hwf₂ := hmap₂.steps.wellFormed hwf₁
  have hmap : Mapped (pml4 >>> 12) (v₀ - v₀ % span k) (v₀ + here) (addrOf e) (leafAttributes e) m m₂ := by
    refine Mapped.trans (by omega) (by omega) (by omega) hphys.1 hmap₁ ?_
    rwa [Nat.sub_sub_self hrle]
  -- the leaf of the first page lies inside the range, so it is not the large page again
  have hdeep : ∃ k' e', walk m₂.mem (pml4 >>> 12) v₀ = some (k', e') ∧ k < k' ∧
      (v₀ / span k' + 1) * span k' ≤ v₀ + here := by
    obtain ⟨k', e', hw', hb1, hb2, -⟩ := hmap₂.inside v₀ (le_refl _) (by omega)
    refine ⟨k', e', hw', ?_, hb2⟩
    by_contra hlt
    have hle : span k ≤ span k' := Nat.pow_le_pow_right (by decide) (by omega)
    rw [Nat.succ_mul] at hb2
    omega
  -- the pages behind the range
  have hs : span k ≤ 2 ^ 18 := by rcases hk with rfl | rfl <;> decide
  have hblock := block_le hk3 hv
  have hdiv := Nat.div_add_mod v₀ (span k)
  rw [Nat.succ_mul, Nat.mul_comm] at hblock
  refine split_of_mapped hwf (by omega) (by omega) (by omega) hw
    (by rw [Nat.add_sub_cancel_left, hhere]) hmap hdeep (fun htop => ?_) fun htop => ?_
  · rw [Nat.div_eq_iff (span_pos k), Nat.mul_comm] at htop
    refine createMapping_of_wrap ?_
    rcases hbase with rfl | rfl <;> omega
  · have hlt : v₀ - v₀ % span k + span k < 2 ^ 36 := by
      by_contra hge
      refine htop ?_
      rw [Nat.div_eq_iff (span_pos k), Nat.mul_comm]
      omega
    have hva : (base + 4096 * (v₀ + here)) % 2 ^ 64 = base + 4096 * (v₀ + here) := by
      rcases hbase with rfl | rfl <;> omega
    rw [hva] at hno hmono₃ ⊢
    have hmap₃ := createMapping_half hbase (by omega) hattr' hattr (by omega)
      (Nat.mod_lt _ (by decide)) hpml4 hwf₂ (hno.trans (hmono₁.trans hmono₂))
    rwa [show v₀ + here + (span k - v₀ % span k - here) = v₀ - v₀ % span k + span k by omega]
      at hmap₃

end

end Dem64
