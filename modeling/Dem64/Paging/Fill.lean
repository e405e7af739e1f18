import Dem64.Paging.Step
import Dem64.Paging.Address

/-!
# The two moves of an iteration

An iteration of `create_mapping` or `destroy_mapping` first walks down to the table it is going to
write to, and then overwrites a row of entries of that table.  `create_mapping` makes the tables
that are missing on the way (`Ensured`), and `fillEntries_spec` is the row of entries, once for all
three page sizes and for both functions.
-/

set_option autoImplicit false

namespace Dem64

/-! ## Blocks of pages

The pages a slot of depth `k` stands for are those with the same `v / span k`. -/

theorem span_eq_mul {j k : Nat} (hjk : j ≤ k) (hk : k ≤ 3) : span j = span k * 512 ^ (k - j) := by
  rw [span, span, ← Nat.pow_add]
  congr 1
  omega

/-- The slot further up is the same for all pages of a slot. -/
theorem div_span_div {j k : Nat} (hjk : j ≤ k) (hk : k ≤ 3) (v : Nat) :
    v / span k / 512 ^ (k - j) = v / span j := by
  rw [Nat.div_div_eq_div_mul, ← span_eq_mul hjk hk]

theorem div_span_eq_of_le {j k u v : Nat} (hjk : j ≤ k) (hk : k ≤ 3)
    (h : u / span k = v / span k) : u / span j = v / span j := by
  rw [← div_span_div hjk hk, ← div_span_div hjk hk, h]

theorem div_span_succ {k : Nat} (hk : k < 3) (v : Nat) : v / span (k + 1) / 512 = v / span k := by
  have h := div_span_div (Nat.le_succ k) hk v
  simpa using h

/-! ## Walks and entries -/

section

variable {root k : Nat} {m : Machine}

/-- A walk that meets an entry that is no table ends there. -/
theorem walk_of_entryAt {v e : Nat} (hv : v < 2 ^ 36) (hk : k ≤ 3)
    (he : entryAt m.mem root k (v / span k) = some e) (hnt : isTable k e = false) :
    walk m.mem root v = leafWalk k e := by
  apply Option.ext
  rintro ⟨k', e'⟩
  rw [walk_eq_some_iff hv, Radix.leaf_iff_of_end isTable_of_isLeaf hk he hnt, leafWalk_eq_some_iff]

theorem entryAt_of_walk {v e : Nat} (hv : v < 2 ^ 36) (hw : walk m.mem root v = some (k, e)) :
    k ≤ 3 ∧ entryAt m.mem root k (v / span k) = some e ∧ isLeaf k e = true :=
  (walk_eq_some_iff hv k e).mp hw

theorem walk_depth {v e : Nat} (hv : v < 2 ^ 36) (hw : walk m.mem root v = some (k, e)) :
    1 ≤ k ∧ k ≤ 3 := by
  obtain ⟨hk, -, hl⟩ := entryAt_of_walk hv hw
  refine ⟨?_, hk⟩
  by_contra h0
  obtain rfl : k = 0 := by omega
  simp [isLeaf] at hl

/-- The pages of a slot share their leaf. -/
theorem walk_congr {u v e : Nat} (hu : u < 2 ^ 36) (hv : v < 2 ^ 36)
    (hw : walk m.mem root v = some (k, e)) (h : u / span k = v / span k) :
    walk m.mem root u = some (k, e) := by
  obtain ⟨hk, he, hl⟩ := entryAt_of_walk hv hw
  rw [walk_of_entryAt hu hk (h ▸ he) (isTable_of_isLeaf k e hl), leafWalk, if_pos hl]

/-! ## Tables on the way down -/

/-- `m'` is `m` with tables for the page `v₀` down to depth `k`: the large pages on the way are
gone, and nothing else. -/
structure Ensured (root k v₀ : Nat) (m m' : Machine) : Prop where
  /-- What was done is a run of steps. -/
  steps : Steps root m m'
  /-- The pages of a large page on the way lose their mapping. -/
  lost : ∀ v j e, v < 2 ^ 36 → j < k → walk m.mem root v = some (j, e) →
    v / span j = v₀ / span j → walk m'.mem root v = none
  /-- The other pages keep theirs. -/
  kept : ∀ v, v < 2 ^ 36 → (∀ j e, j < k → walk m.mem root v = some (j, e) →
    v / span j ≠ v₀ / span j) → walk m'.mem root v = walk m.mem root v
  /-- No table is lost. -/
  tables : ∀ j p f, j ≤ 3 → tableAt m.mem root j p = some f → tableAt m'.mem root j p = some f

theorem Ensured.refl (root v₀ : Nat) (m : Machine) : Ensured root 0 v₀ m m where
  steps := Relation.ReflTransGen.refl
  lost _ _ _ _ hj := absurd hj (Nat.not_lt_zero _)
  kept _ _ _ := rfl
  tables _ _ _ _ h := h

/-- The walks of an `ensure` at depth `k`, `t` being the address of the table that holds the slot
of `v₀`. -/
theorem ensure_spec {m' : Machine} {v₀ t attributes : Nat} (hwf : WellFormed m root) (hk : k ≤ 2)
    (ht : tableAt m.mem root k (v₀ / span k / 512) = some (t >>> 12)) (ha : attributes % 2 = 1)
    (hm' : m' = if isTable k (m.read t (v₀ / span k % 512)) = true then m
      else newTable attributes t (v₀ / span k % 512) m) (hno : NoFail m m') :
    Steps root m m' ∧
    tableAt m'.mem root (k + 1) (v₀ / span k) =
      some (addrOf (m'.read t (v₀ / span k % 512)) >>> 12) ∧
    (∀ v e, v < 2 ^ 36 → v / span k = v₀ / span k → walk m.mem root v = some (k, e) →
      walk m'.mem root v = none) ∧
    (∀ v, v < 2 ^ 36 → (∀ e, walk m.mem root v = some (k, e) → v / span k ≠ v₀ / span k) →
      walk m'.mem root v = walk m.mem root v) ∧
    ∀ j p f, j ≤ 3 → tableAt m.mem root j p = some f → tableAt m'.mem root j p = some f := by
  have hentry : entryAt m.mem root k (v₀ / span k) = some (m.read t (v₀ / span k % 512)) :=
    Radix.entryAt_eq_some ht
  by_cases hold : isTable k (m.read t (v₀ / span k % 512)) = true
  · rw [if_pos hold] at hm'
    subst hm'
    refine ⟨Relation.ReflTransGen.refl, ?_, fun v e hv hq hw => ?_, fun _ _ _ => rfl,
      fun _ _ _ _ h => h⟩
    · rw [addrOf_shiftRight]
      exact Radix.tableAt_succ_eq_some.mpr ⟨_, ht, hold, rfl⟩
    · obtain ⟨-, he, hl⟩ := entryAt_of_walk hv hw
      rw [hq, hentry, Option.some_inj] at he
      rw [he, isTable_of_isLeaf k e hl] at hold
      exact absurd hold (by simp)
  · rw [if_neg hold] at hm'
    subst hm'
    rw [Bool.not_eq_true] at hold
    have hok := allocFrame_attr_of_noFail hno
    have hg := tableEdit_newTable hwf hk ht hold ha hok
    obtain ⟨f, hedit, -, htab, -⟩ := hg.edit
    obtain rfl := Option.some_inj.mp (ht.symm.trans hedit.table)
    refine ⟨(SlotStep.table hk ht hold ha hok).steps, ?_, fun v e hv hq _ => ?_, fun v hv hw => ?_,
      fun _ _ _ hj hf => hg.tableAt_mono hwf hj hf⟩
    · rw [addrOf_shiftRight]
      exact Radix.tableAt_succ_eq_some.mpr
        ⟨_, hedit.table_after hwf.separated (by omega), htab, rfl⟩
    · rw [hg.walk hwf hv, if_pos hq]
    · rw [hg.walk hwf hv]
      split
      · -- the slot was empty, so the page was not mapped
        rename_i hq
        rw [← hq] at hentry
        have hend := walk_of_entryAt hv (by omega) hentry (hq ▸ hold)
        rw [leafWalk] at hend
        split at hend
        · exact absurd hq (hw _ hend)
        · exact hend.symm
      · rfl

/-- One level further down. -/
theorem Ensured.succ {m₀ m' : Machine} {v₀ t attributes : Nat} (h : Ensured root k v₀ m₀ m)
    (hwf : WellFormed m root) (hk : k ≤ 2)
    (ht : tableAt m.mem root k (v₀ / span k / 512) = some (t >>> 12)) (ha : attributes % 2 = 1)
    (hm' : m' = if isTable k (m.read t (v₀ / span k % 512)) = true then m
      else newTable attributes t (v₀ / span k % 512) m) (hno : NoFail m m') :
    Ensured root (k + 1) v₀ m₀ m' ∧ tableAt m'.mem root (k + 1) (v₀ / span k) =
      some (addrOf (m'.read t (v₀ / span k % 512)) >>> 12) := by
  obtain ⟨hsteps, htab, hlost, hkept, htables⟩ := ensure_spec hwf hk ht ha hm' hno
  have hnone : ∀ v, v < 2 ^ 36 → walk m.mem root v = none → walk m'.mem root v = none :=
    fun v hv hw => (hkept v hv fun e he => absurd (hw.symm.trans he) (by simp)).trans hw
  refine ⟨⟨h.steps.trans hsteps, fun v j e hv hj hw hq => ?_, fun v hv hall => ?_,
    fun j p f hj hf => htables j p f hj (h.tables j p f hj hf)⟩, htab⟩
  · by_cases hlow : ∀ i e', i < k → walk m₀.mem root v = some (i, e') → v / span i ≠ v₀ / span i
    · obtain rfl : j = k := by
        by_contra hjk
        exact hlow j e (by omega) hw hq
      exact hlost v e hv hq ((h.kept v hv hlow).trans hw)
    · push Not at hlow
      obtain ⟨i, e', hi, hw', hq'⟩ := hlow
      exact hnone v hv (h.lost v i e' hv hi hw' hq')
  · have hlow := h.kept v hv fun i e' hi => hall i e' (by omega)
    rw [hkept v hv fun e he => hall k e (Nat.lt_succ_self k) (hlow ▸ he), hlow]

/-! ## A row of entries -/

/-- An entry that may be written at depth `k`. -/
structure Writable (gb k e : Nat) : Prop where
  /-- It is well formed. -/
  ok : EntryOk k e
  /-- It is no table. -/
  notTable : isTable k e = false
  /-- It is a 1 GiB page only where there are such pages. -/
  gb : k = 1 → isLeaf k e = true → gb = 1

/-- What `drop` does to an entry of depth `k` that the code takes for a table, followed by the new
entry, is a step. -/
def DropOk (root k : Nat) (drop : Nat → Nat → Machine → Machine) : Prop :=
  ∀ (m : Machine) (q t e : Nat), tableAt m.mem root k (q / 512) = some (t >>> 12) →
    large (m.read t (q % 512)) = false ∧ present (m.read t (q % 512)) = true →
    Writable m.gbPageSupport k e → SlotStep root k q m ((drop t (q % 512) m).store t (q % 512) e)

theorem dropOk_freePdpt (root : Nat) : DropOk root 1 freePdpt := by
  intro m q t e ht hold he
  exact SlotStep.dropPd rfl ht ((isTable_middle (by decide) (by decide)).mpr hold) he.ok he.notTable
    (he.gb rfl)

theorem dropOk_freePt (root : Nat) : DropOk root 2 freePt := by
  intro m q t e ht hold he
  exact SlotStep.dropPt rfl ht ((isTable_middle (by decide) (by decide)).mpr hold) he.ok he.notTable

theorem dropOk_keepEntry (root : Nat) : DropOk root 3 keepEntry := by
  intro m q t e ht hold he
  exact SlotStep.write (by decide) (by decide) ht (by simp [isTable]) he.ok he.notTable he.gb

variable {drop : Nat → Nat → Machine → Machine}

/-- One entry of a row. -/
theorem slotStep_fill (hdrop : DropOk root k drop) (hk0 : 1 ≤ k) (hk : k ≤ 3) {q t e : Nat}
    (ht : tableAt m.mem root k (q / 512) = some (t >>> 12)) (he : Writable m.gbPageSupport k e) :
    SlotStep root k q m ((if large (m.read t (q % 512)) = false ∧ present (m.read t (q % 512)) = true
      then drop t (q % 512) m else m).store t (q % 512) e) := by
  split
  · rename_i hold
    exact hdrop m q t e ht hold he
  · rename_i hold
    refine SlotStep.write hk0 hk ht ?_ he.ok he.notTable he.gb
    by_contra ht'
    rw [Bool.not_eq_false] at ht'
    have hk2 : k ≤ 2 := by
      by_contra h3
      obtain rfl : k = 3 := by omega
      simp [isTable] at ht'
    exact hold ((isTable_middle hk0 hk2).mp ht')

/-- A step that ends in storing an entry that is no table leaves that entry in the slot. -/
theorem SlotStep.leafEdit {m₁ : Machine} {q t e : Nat} (hwf : WellFormed m root)
    (h : SlotStep root k q m (m₁.store t (q % 512) e))
    (ht : tableAt m.mem root k (q / 512) = some (t >>> 12)) (hnt : isTable k e = false) :
    LeafEdit root k q e m (m₁.store t (q % 512) e) := by
  rcases h.edit hwf with ⟨e', he, -⟩ | ⟨g, hg⟩
  · obtain ⟨f, hedit, hf⟩ := he.edit
    obtain rfl := Option.some_inj.mp (ht.symm.trans hedit.table)
    rw [store_mem_self] at hf
    exact hf ▸ he
  · obtain ⟨f, hedit, -, htab, -⟩ := hg.edit
    obtain rfl := Option.some_inj.mp (ht.symm.trans hedit.table)
    rw [store_mem_self, hnt] at htab
    exact absurd htab (by simp)

/-- The pages of the slot `(j, p)` are among those from `lo` to `hi`. -/
def Within (lo hi j p : Nat) : Prop := lo ≤ p * span j ∧ (p + 1) * span j ≤ hi

/-- What lies below a slot lies within its pages. -/
theorem within_of_below {q j p : Nat} (hj : j ≤ 3) (h : Radix.Below k q j p) :
    Within (q * span k) ((q + 1) * span k) j p := by
  obtain ⟨hkj, rfl⟩ := h
  have hpos : 0 < 512 ^ (j - k) := Nat.pow_pos (by decide)
  have hlo := Nat.div_mul_le_self p (512 ^ (j - k))
  have hhi := Nat.lt_mul_div_succ p hpos
  rw [span_eq_mul hkj hj, Nat.mul_comm (span j), ← Nat.mul_assoc, ← Nat.mul_assoc]
  refine ⟨Nat.mul_le_mul_right _ hlo, Nat.mul_le_mul_right _ ?_⟩
  rw [Nat.mul_comm]
  exact hhi

/-- **A row of entries.**  The pages behind the slots `p * 512 + i, …` of the table `p` of depth `k`
get the new leaves, all other pages keep theirs, and so do the tables that are not below the
slots. -/
theorem fillEntries_spec (hdrop : DropOk root k drop) (hk0 : 1 ≤ k) (hk : k ≤ 3)
    (leaf : Nat → Nat) (step : Nat) {p t : Nat} : ∀ (n i pa : Nat) (m : Machine), WellFormed m root →
      tableAt m.mem root k p = some (t >>> 12) → i + n ≤ 512 → pa < 2 ^ 64 →
      (∀ j, j < n → Writable m.gbPageSupport k (leaf ((pa + step * j) % 2 ^ 64))) →
      Steps root m (fillEntries drop leaf step t n i pa m) ∧
      (∀ v, v < 2 ^ 36 → walk (fillEntries drop leaf step t n i pa m).mem root v =
        if p * 512 + i ≤ v / span k ∧ v / span k < p * 512 + i + n then
          leafWalk k (leaf ((pa + step * (v / span k - (p * 512 + i))) % 2 ^ 64))
        else walk m.mem root v) ∧
      ∀ j r f, j < 3 → tableAt m.mem root (j + 1) r = some f →
        ¬ Within ((p * 512 + i) * span k) ((p * 512 + i + n) * span k) j r →
        tableAt (fillEntries drop leaf step t n i pa m).mem root (j + 1) r = some f
  | 0, i, pa, m, _, _, _, _, _ => by
    refine ⟨Relation.ReflTransGen.refl, fun v _ => ?_, fun _ _ _ _ h _ => h⟩
    rw [if_neg (by omega)]
    rfl
  | n + 1, i, pa, m, hwf, ht, hi, hpa, hleaf => by
    have hdiv : (p * 512 + i) / 512 = p := by omega
    have hmod : (p * 512 + i) % 512 = i := by omega
    have ht' : tableAt m.mem root k ((p * 512 + i) / 512) = some (t >>> 12) := by rwa [hdiv]
    have he : Writable m.gbPageSupport k (leaf pa) := by
      have h := hleaf 0 (by omega)
      rwa [Nat.mul_zero, Nat.add_zero, Nat.mod_eq_of_lt hpa] at h
    have hstep := slotStep_fill hdrop hk0 hk ht' he
    have hedit := hstep.leafEdit hwf ht' he.notTable
    rw [hmod] at hstep hedit
    rw [fillEntries]
    generalize hm₁ : Machine.store _ t i (leaf pa) = m₁ at hstep hedit ⊢
    obtain ⟨f, hf, -⟩ := hedit.edit
    have hafter := hf.table_after hwf.separated hk
    obtain rfl := Option.some_inj.mp (ht'.symm.trans hf.table)
    rw [hdiv] at hafter
    have hshift : ∀ j, ((pa + step) % 2 ^ 64 + step * j) % 2 ^ 64 = (pa + step * (j + 1)) % 2 ^ 64 := by
      intro j
      rw [Nat.mod_add_mod, Nat.mul_succ]
      congr 1
      omega
    obtain ⟨hsteps, hwalk, htables⟩ := fillEntries_spec hdrop hk0 hk leaf step n (i + 1) ((pa + step) % 2 ^ 64) m₁
      (hstep.wellFormed hwf) hafter (by omega) (Nat.mod_lt _ (by decide)) (by
        intro j hj
        rw [hstep.gbPageSupport, hshift]
        exact hleaf (j + 1) (by omega))
    refine ⟨hstep.steps.trans hsteps, fun v hv => ?_, fun j r f hj hr hout => ?_⟩
    · rw [hwalk v hv, hedit.walk hwf hv]
      by_cases hq : v / span k = p * 512 + i
      · rw [if_neg (by omega), if_pos hq, if_pos (by omega), hq, Nat.sub_self, Nat.mul_zero,
          Nat.add_zero, Nat.mod_eq_of_lt hpa]
      · by_cases hr : p * 512 + (i + 1) ≤ v / span k ∧ v / span k < p * 512 + (i + 1) + n
        · rw [if_pos hr, if_pos (by omega), hshift]
          congr 6
          omega
        · rw [if_neg hr, if_neg hq, if_neg (by omega)]
    · have hwithin : ∀ {x y}, p * 512 + i ≤ x → y ≤ p * 512 + i + (n + 1) →
          ¬ Within (x * span k) (y * span k) j r := fun hx hy h =>
        hout ⟨(Nat.mul_le_mul_right _ hx).trans h.1, h.2.trans (Nat.mul_le_mul_right _ hy)⟩
      refine htables j r f hj ?_ (hwithin (by omega) (by omega))
      rw [hedit.tableAt_eq hwf (by omega), hr]
      rintro ⟨j', hj', hb⟩
      obtain rfl : j = j' := by omega
      exact hwithin (le_refl _) (by omega) (within_of_below (by omega) hb)

end

end Dem64
