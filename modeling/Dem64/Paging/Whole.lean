import Dem64.Paging.Unmapping

/-!
# Unmapping whole leaves

`destroy_mapping` takes frames for new page tables only when it has to split a large page that its
range does not cover.  A range that consists of whole leaves, such as one that was mapped by a call
of `create_mapping`, is unmapped without that, so that nothing can fail
(`destroyMapping_noTable`).

The argument follows the loop: each iteration overwrites a row of entries (`Row`), and what is left
of the range behind the row consists of whole leaves again (`Covered.rest`).
-/

set_option autoImplicit false

namespace Dem64

/-- The pages from `lo` to `hi` are mapped, by leaves that lie in this range. -/
def Covered (root lo hi : Nat) (m : Machine) : Prop :=
  ∀ v, lo ≤ v → v < hi → ∃ k e, walk m.mem root v = some (k, e) ∧ lo ≤ v / span k * span k ∧
    (v / span k + 1) * span k ≤ hi

/-- The pages from `v₀` on, `n` of them, are those of a row of slots of some depth, and the leaf of
`v₀` is not further up. -/
def Row (root v₀ n : Nat) (m : Machine) : Prop :=
  ∃ j c, 1 ≤ j ∧ j ≤ 3 ∧ v₀ % span j = 0 ∧ n = span j * c ∧ v₀ / span j % 512 + c ≤ 512 ∧
    ∀ k e, walk m.mem root v₀ = some (k, e) → j ≤ k

section

variable {base va pages v₀ fin pml4 root : Nat} {m m' m'' : Machine}

/-- The leaf of the first page starts with it, and ends in the range. -/
theorem Covered.first (h : Covered root v₀ fin m) (hlt : v₀ < fin) {k e : Nat}
    (hw : walk m.mem root v₀ = some (k, e)) : v₀ % span k = 0 ∧ v₀ + span k ≤ fin := by
  obtain ⟨k', e', hw', h1, h2⟩ := h v₀ (le_refl _) hlt
  obtain ⟨rfl, rfl⟩ := Prod.mk.inj (Option.some_inj.mp (hw.symm.trans hw'))
  have hdiv := Nat.div_add_mod' v₀ (span k)
  rw [Nat.add_mul, one_mul] at h2
  omega

/-- An entry of the two middle levels that is a large page is the leaf of its pages. -/
theorem walk_of_large {k e v : Nat} (hwf : WellFormed m root) (hk : k = 1 ∨ k = 2)
    (hv : v < 2 ^ 36) (he : entryAt m.mem root k (v / span k) = some e) (hl : large e = true) :
    walk m.mem root v = some (k, e) := by
  have hp : present e = true := by
    rcases hwf.entries k _ e (by omega) he with rfl | h
    · exact absurd hl (by decide)
    · exact h.1
  have hleaf := (isLeaf_middle (k := k) (by omega) (by omega)).mpr ⟨hl, hp⟩
  rw [walk_of_entryAt hv (by omega) he (isTable_of_isLeaf k e hleaf), leafWalk, if_pos hleaf]

variable (va pml4) in
/-- Nothing is split in front of whole leaves. -/
theorem splitIf_of_covered {k e : Nat} (hvirt enable : Nat) (h : Covered root v₀ fin m)
    (hwf : WellFormed m root) (hk : k = 1 ∨ k = 2) (hpos : 0 < pages) (hfin : v₀ + pages = fin)
    (hv : v₀ < 2 ^ 36) (he : entryAt m.mem root k (v₀ / span k) = some e)
    (henable : v₀ % span k = 0 → enable = 0) :
    splitIf (span k) e hvirt enable va pages pml4 m = m := by
  rw [splitIf, if_neg]
  rintro ⟨hl, hc⟩
  obtain ⟨h1, h2⟩ := h.first (by omega) (walk_of_large hwf hk hv he hl)
  have := henable h1
  omega

/-- Storing entries and giving frames back is all that is done: what is kept by these two still
holds. -/
def NoTable (m m' : Machine) : Prop := ∀ P : Machine → Prop, Closed (fun _ => False) P → P m → P m'

theorem NoTable.refl (m : Machine) : NoTable m m := fun _ _ h => h

theorem NoTable.trans (h : NoTable m m') (h' : NoTable m' m'') : NoTable m m'' :=
  fun P hP hm => h' P hP (h P hP hm)

/-- Nothing fails without new tables. -/
theorem NoTable.failures (h : NoTable m m') : m'.failures = m.failures :=
  h (fun m' => m'.failures = m.failures)
    { store := fun m t i e h => by simpa [Machine.failures, Machine.store] using h
      free := fun m a p h => by simpa [Machine.failures, freePages] using h
      table := fun _ _ _ _ h _ => absurd h id } rfl

/-- No frame is marked for them. -/
theorem NoTable.used (h : NoTable m m') : m'.frames.usedPages ⊆ m.frames.usedPages :=
  h (fun m' => m'.frames.usedPages ⊆ m.frames.usedPages)
    { store := fun _ _ _ _ h => h
      free := fun _ _ _ h _ hf => h ((freeFrame_used _ _ _).mp hf).1
      table := fun _ _ _ _ h _ => absurd h id } fun _ hf => hf

/-- What an iteration does to a range of whole leaves. -/
def Clears (root v₀ : Nat) (m : Machine) (c : Option Nat × Machine) : Prop :=
  NoTable m c.2 ∧ ∀ n, c.1 = some n → Row root v₀ n m

/-- The row of 4 KiB pages. -/
theorem destroyPt_clears {pd : Nat} (h : Clearing base va pages v₀ fin) (hpos : 0 < pages)
    (hwf : WellFormed m (pml4 >>> 12)) (hcov : Covered (pml4 >>> 12) v₀ fin m)
    (ht : tableAt m.mem (pml4 >>> 12) 2 (v₀ / span 2 / 512) = some (pd >>> 12))
    (hdepth : ∀ k e, walk m.mem (pml4 >>> 12) v₀ = some (k, e) → 3 ≤ k) :
    Clears (pml4 >>> 12) v₀ m (destroyPt pml4 va pages pd m) := by
  have hpage := h.page hpos
  have hv := page_lt hpage
  have he : entryAt m.mem (pml4 >>> 12) 2 (v₀ / span 2) = some (m.read pd (v₀ / span 2 % 512)) :=
    Radix.entryAt_eq_some ht
  obtain ⟨-, hrow, -⟩ := clampCount_eq pages (Nat.mod_lt (v₀ / span 3) (by decide))
  have hmask : va &&& 0x1fffff = 4096 * (v₀ % span 2) :=
    (and_mask_eq 21 va).trans (h.mod_span (Or.inr rfl))
  rw [destroyPt]
  simp only [pdIndex_eq hpage, ptIndex_eq hpage, hmask]
  have hsplit := fun hvirt => splitIf_of_covered va pml4 hvirt (4096 * (v₀ % span 2)) hcov hwf
    (Or.inr rfl) hpos h.fin_eq hv he fun h0 => by rw [h0]
  rw [show (512 : Nat) = span 2 from rfl] at *
  split
  · exact ⟨NoTable.refl _, fun n hn => absurd hn (by simp)⟩
  · rw [hsplit]
    refine ⟨fun P hP hm => hP.fillEntries (fun _ _ _ h => h) _ _ _ _ _ _ _ hm, fun n hn => ?_⟩
    obtain rfl := Option.some_inj.mp hn
    exact ⟨3, _, by decide, le_refl 3, Nat.mod_one v₀, (Nat.one_mul _).symm, hrow, hdepth⟩

/-- The branches below the page-directory-pointer table. -/
theorem destroyPd_clears {pdpt : Nat} (h : Clearing base va pages v₀ fin) (hpos : 0 < pages)
    (hwf : WellFormed m (pml4 >>> 12)) (hcov : Covered (pml4 >>> 12) v₀ fin m)
    (ht : tableAt m.mem (pml4 >>> 12) 1 (v₀ / span 1 / 512) = some (pdpt >>> 12))
    (hdepth : ∀ k e, walk m.mem (pml4 >>> 12) v₀ = some (k, e) → 2 ≤ k) :
    Clears (pml4 >>> 12) v₀ m (destroyPd pml4 (4096 * pages) va pages pdpt m) := by
  have hpage := h.page hpos
  have hv := page_lt hpage
  have hfin := h.fin_eq
  have he : entryAt m.mem (pml4 >>> 12) 1 (v₀ / span 1) = some (m.read pdpt (v₀ / span 1 % 512)) :=
    Radix.entryAt_eq_some ht
  have hcount : 4096 * pages / 0x200000 = pages / 512 := by omega
  obtain ⟨-, hrow, -⟩ := clampCount_eq (pages / 512) (Nat.mod_lt (v₀ / span 2) (by decide))
  have hmask₁ : va &&& 0x3fffffff = 4096 * (v₀ % span 1) :=
    (and_mask_eq 30 va).trans (h.mod_span (Or.inl rfl))
  have hmask₂ : va &&& 0x1fffff = 4096 * (v₀ % 512) :=
    (and_mask_eq 21 va).trans (h.mod_span (Or.inr rfl))
  rw [destroyPd, hmask₁, hmask₂, hcount, pdptIndex_eq hpage, pdIndex_eq hpage]
  have hsplit : splitIf 262144 (m.read pdpt (v₀ / span 1 % 512))
      (findAddress 0 0 (v₀ / span 1 % 512) (pml4Index va)) (4096 * (v₀ % span 1)) va pages pml4 m = m :=
    splitIf_of_covered _ _ (k := 1) _ _ hcov hwf (Or.inl rfl) hpos hfin hv he fun h0 => by rw [h0]
  simp only [hsplit]
  split
  · rename_i hmb
    refine ⟨fun P hP hm => hP.fillEntries hP.freePt _ _ _ _ _ _ _ hm, fun n hn => ?_⟩
    obtain rfl := Option.some_inj.mp hn
    exact ⟨2, _, by decide, by decide, by show v₀ % 512 = 0; omega, rfl, hrow, hdepth⟩
  · rename_i hmb
    -- the entry is a table, since the leaf of the first page is further down
    have hne : isTable 1 (m.read pdpt (v₀ / span 1 % 512)) = true := by
      obtain ⟨k, e, hw, -⟩ := hcov v₀ (le_refl _) (by omega)
      by_contra hnt
      rw [Bool.not_eq_true] at hnt
      have hw' := walk_of_entryAt hv (by decide) he hnt
      rw [hw, eq_comm, leafWalk_eq_some_iff] at hw'
      have := hdepth k e hw
      omega
    refine destroyPt_clears h hpos hwf hcov ?_ fun k e hw => ?_
    · rw [div_span_succ (by decide), tableAt, Radix.tableAt_of_entryAt he, if_pos hne, addrOf_shiftRight]
    · -- a large page would have been cleared as a whole
      by_contra hlt
      obtain rfl : k = 2 := by
        have := hdepth k e hw
        omega
      obtain ⟨h1, h2⟩ := hcov.first (by omega) hw
      have h1' : v₀ % 512 = 0 := h1
      have h2' : v₀ + 512 ≤ fin := h2
      omega

/-- **An iteration over whole leaves** splits nothing. -/
theorem destroyChunk_clears (h : Clearing base va pages v₀ fin) (hpos : 0 < pages)
    (hwf : WellFormed m (pml4 >>> 12)) (hgb : GbOk m (pml4 >>> 12))
    (hcov : Covered (pml4 >>> 12) v₀ fin m) :
    Clears (pml4 >>> 12) v₀ m (destroyChunk pml4 (4096 * pages) va pages m) := by
  have hpage := h.page hpos
  have hv := page_lt hpage
  have hfin := h.fin_eq
  have he₀ : entryAt m.mem (pml4 >>> 12) 0 (v₀ / span 0) = some (m.read pml4 (v₀ / span 0 % 512)) :=
    entryAt_zero hv
  have hcount : 4096 * pages / 0x40000000 = pages / 262144 := by omega
  have hmask : va &&& 0x3fffffff = 4096 * (v₀ % 262144) :=
    (and_mask_eq 30 va).trans (h.mod_span (Or.inl rfl))
  obtain ⟨-, hrow, -⟩ := clampCount_eq (pages / 262144) (Nat.mod_lt (v₀ / span 1) (by decide))
  rw [destroyChunk, pml4Index_eq hpage, pdptIndex_eq hpage]
  simp only [hcount, hmask]
  split
  · exact ⟨NoTable.refl _, fun n hn => absurd hn (by simp)⟩
  rename_i hne₀
  have ht : tableAt m.mem (pml4 >>> 12) 1 (v₀ / span 1 / 512) =
      some (addrOf (m.read pml4 (v₀ / span 0 % 512)) >>> 12) := by
    have hp := ((hwf.entries 0 _ _ (by decide) he₀).resolve_left hne₀).1
    rw [div_span_succ (by decide), tableAt, Radix.tableAt_of_entryAt he₀,
      if_pos (by simp [isTable, hp]), addrOf_shiftRight]
  split
  · exact ⟨NoTable.refl _, fun n hn => absurd hn (by simp)⟩
  split
  · rename_i hcond
    refine ⟨fun P hP hm => hP.fillEntries hP.freePdpt _ _ _ _ _ _ _ hm, fun n hn => ?_⟩
    obtain rfl := Option.some_inj.mp hn
    exact ⟨1, _, le_refl 1, by decide, by show v₀ % 262144 = 0; omega, rfl, hrow,
      fun k e hw => (walk_depth hv hw).1⟩
  · rename_i hcond
    refine destroyPd_clears h hpos hwf hcov ht fun k e hw => ?_
    -- a 1 GiB page would have been cleared as a whole
    by_contra hlt
    obtain rfl : k = 1 := by
      have := walk_depth hv hw
      omega
    obtain ⟨h1, h2⟩ := hcov.first (by omega) hw
    have hsupport := hgb v₀ e hv hw
    have h1' : v₀ % 262144 = 0 := h1
    have h2' : v₀ + 262144 ≤ fin := h2
    omega

/-- Behind a row the range consists of whole leaves. -/
theorem Covered.rest {n : Nat} (h : Covered root v₀ fin m) (hpos : 0 < n) (hn : v₀ + n ≤ fin)
    (hfin : fin ≤ lastPage) (hrow : Row root v₀ n m) (hun : Unmapped root v₀ (v₀ + n) fin m m') :
    Covered root (v₀ + n) fin m' := by
  have hlast : lastPage + 1 = 2 ^ 36 := rfl
  obtain ⟨j, c, hj1, hj3, hmod, rfl, hc, hdepth⟩ := hrow
  intro v h1 h2
  obtain ⟨k, e, hw, hk1, hk2⟩ := h v (by omega) h2
  obtain ⟨hk0, hk3⟩ := walk_depth (by omega) hw
  have hspan := span_pos k
  have hv1 := Nat.div_mul_le_self v (span k)
  -- no leaf reaches from the row to the page
  have hstart : v₀ + span j * c ≤ v / span k * span k := by
    by_contra hlt
    have hs : v / span k * span k / span k = v / span k := Nat.mul_div_cancel _ hspan
    have hws : walk m.mem root (v / span k * span k) = some (k, e) :=
      walk_congr (by omega) (by omega) hw hs
    have hjk : j ≤ k := by
      by_contra hkj
      -- otherwise the leaf would also map the first page
      refine absurd (hdepth k e (walk_congr (by omega) (by omega) hws ?_)) hkj
      have hrow : v / span k * span k / span (j - 1) = v₀ / span (j - 1) := by
        obtain ⟨i, rfl⟩ : ∃ i, j = i + 1 := ⟨j - 1, by omega⟩
        rw [Nat.add_sub_cancel, ← div_span_succ (k := i) (by omega) (v / span k * span k),
          ← div_span_succ (k := i) (by omega) v₀]
        have hd1 : v₀ / span (i + 1) ≤ v / span k * span k / span (i + 1) :=
          Nat.div_le_div_right hk1
        have hd2 : v / span k * span k / span (i + 1) < v₀ / span (i + 1) + c := by
          rw [Nat.div_lt_iff_lt_mul (span_pos _), Nat.add_mul]
          have := Nat.div_add_mod' v₀ (span (i + 1))
          rw [Nat.mul_comm c]
          omega
        omega
      exact (div_span_eq_of_le (by omega) (by omega) hrow).symm
    -- the row ends with a leaf
    have hdvd : span k ∣ v₀ + span j * c := by
      have hkj : span k ∣ span j := ⟨_, span_eq_mul hjk hk3⟩
      exact Nat.dvd_add (hkj.trans (Nat.dvd_of_mod_eq_zero hmod)) (hkj.trans (Nat.dvd_mul_right _ _))
    obtain ⟨d, hd⟩ := hdvd
    have hlt' : v / span k < d := by
      rw [hd, Nat.mul_comm (span k)] at hlt
      exact Nat.lt_of_mul_lt_mul_right (Nat.lt_of_not_le hlt)
    have hle : (v / span k + 1) * span k ≤ d * span k := Nat.mul_le_mul_right _ hlt'
    have hv2 := Nat.lt_div_mul_add (a := v) hspan
    rw [Nat.mul_comm d, ← hd, Nat.add_mul, one_mul] at hle
    omega
  refine ⟨k, e, ?_, hstart, hk2⟩
  rw [hun.kept v (by omega) (Or.inr h1), hw]
  rintro ⟨k', e', u, hw', hu1, hu2, hu⟩
  obtain ⟨rfl, rfl⟩ := Prod.mk.inj (Option.some_inj.mp (hw.symm.trans hw'))
  have hu3 := Nat.div_mul_le_self u (span k)
  rw [hu] at hu3
  omega

theorem destroyLoop_noTable (hpml4 : pml4 ≠ 0) {virtualEnd : Nat} :
    ∀ (fuel va pages v₀ : Nat) (m : Machine), Clearing base va pages v₀ fin → pages ≤ fuel →
      va + 4096 * pages = virtualEnd → WellFormed m (pml4 >>> 12) → GbOk m (pml4 >>> 12) →
      Covered (pml4 >>> 12) v₀ fin m →
      NoTable m (destroyLoop pml4 virtualEnd fuel va pages m)
  | 0, _, _, _, _, _, _, _, _, _, _ => NoTable.refl _
  | fuel + 1, va, pages, v₀, m, h, hfuel, hend, hwf, hgb, hcov => by
    rw [destroyLoop]
    split
    · rename_i hva
      have hsize : virtualEnd - va = 4096 * pages := by omega
      have hpos : 0 < pages := by omega
      have hclear := destroyChunk_clears h hpos hwf hgb hcov
      have hout := destroyChunk_outcome h hpos hpml4 hwf hgb (le_of_eq hclear.1.failures)
      rw [hsize]
      generalize destroyChunk pml4 (4096 * pages) va pages m = c at hclear hout ⊢
      obtain ⟨count, m₁⟩ := c
      rcases hout with ⟨hn, -, -⟩ | ⟨n, hn, hn0, hle, hun⟩
      · obtain rfl : count = none := hn
        exact hclear.1
      · obtain rfl : count = some n := hn
        have hfin := h.fin_eq
        have hva' := h.end_lt
        have hsub : subU64 pages n = pages - n := by
          rw [subU64]
          omega
        have hnext : (va + 4096 * n) % 2 ^ 64 = va + 4096 * n := Nat.mod_eq_of_lt (by omega)
        have hrest := hcov.rest hn0 (by omega) h.fin_le (hclear.2 n rfl) hun
        simp only [hsub, hnext]
        exact hclear.1.trans (destroyLoop_noTable hpml4 fuel _ _ _ m₁ (h.advance hle) (by omega)
          (by omega) (hun.steps.wellFormed hwf) (hun.steps.gbOk hwf hgb) hrest)
    · exact NoTable.refl _

/-- **Unmapping whole leaves takes no frames**, so that nothing fails. -/
theorem destroyMapping_noTable (hpml4 : pml4 ≠ 0) (h : Clearing base va pages v₀ fin)
    (hwf : WellFormed m (pml4 >>> 12)) (hgb : GbOk m (pml4 >>> 12))
    (hcov : Covered (pml4 >>> 12) v₀ fin m) :
    NoTable m (destroyMapping m va pages pml4) := by
  rw [destroyMapping]
  split
  · exact NoTable.refl _
  · rw [Nat.mod_eq_of_lt h.end_lt]
    exact destroyLoop_noTable hpml4 pages va pages v₀ m h (le_refl _) rfl hwf hgb hcov

end

end Dem64
