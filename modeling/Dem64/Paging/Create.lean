import Dem64.Paging.Fill

/-!
# `create_mapping`

`Mapped lo hi pa attributes m m'` is what `create_mapping` does to the walks: the pages from `lo` to
`hi` get leaves that lie inside the range and map the page `lo + i` to the `i`-th page from `pa` on,
the pages outside that shared a large page with the range lose their mapping, and the others keep
theirs.  An iteration does this for the pages it handles (`createChunk_mapped`), two ranges side by
side add up (`Mapped.trans`), and so the whole call does it for the whole range
(`createMapping_mapped`).
-/

set_option autoImplicit false

namespace Dem64

/-- The page `v` is mapped by a leaf that also maps a page from `lo` to `hi`. -/
def Hit (mem : Nat → Nat → Nat) (root lo hi v : Nat) : Prop :=
  ∃ k e u, walk mem root v = some (k, e) ∧ lo ≤ u ∧ u < hi ∧ u / span k = v / span k

/-- A range is hit in its first or in its second part. -/
theorem Hit.right {mem mem' : Nat → Nat → Nat} {root lo mid hi v : Nat}
    (h : Hit mem root lo hi v) (hno : ¬ Hit mem root lo mid v)
    (hsame : walk mem' root v = walk mem root v) : Hit mem' root mid hi v := by
  obtain ⟨k, e, u, hw, hu1, hu2, hu⟩ := h
  refine ⟨k, e, u, hsame.trans hw, ?_, hu2, hu⟩
  by_contra hlt
  exact hno ⟨k, e, u, hw, hu1, by omega, hu⟩

/-- A range that is not hit has no part that is. -/
theorem Hit.mono {mem mem' : Nat → Nat → Nat} {root lo hi lo' hi' v : Nat} (hlo : lo ≤ lo')
    (hhi : hi' ≤ hi) (hsame : walk mem' root v = walk mem root v) (h : Hit mem' root lo' hi' v) :
    Hit mem root lo hi v := by
  obtain ⟨k, e, u, hw, hu1, hu2, hu⟩ := h
  exact ⟨k, e, u, hsame ▸ hw, by omega, by omega, hu⟩

/-- Only mapped pages are hit. -/
theorem not_hit_of_none {mem : Nat → Nat → Nat} {root lo hi v : Nat} (h : walk mem root v = none) :
    ¬ Hit mem root lo hi v := by
  rintro ⟨k, e, u, hw, -⟩
  rw [h] at hw
  exact absurd hw (by simp)

/-- `m'` is `m` with the pages from `lo` to `hi` mapped to `pa` on. -/
structure Mapped (root lo hi pa attributes : Nat) (m m' : Machine) : Prop where
  /-- What was done is a run of steps. -/
  steps : Steps root m m'
  /-- The pages of the range are mapped, by leaves that lie inside the range. -/
  inside : ∀ v, lo ≤ v → v < hi → ∃ k e, walk m'.mem root v = some (k, e) ∧
    lo ≤ v / span k * span k ∧ (v / span k + 1) * span k ≤ hi ∧
    e / 4096 + v % span k = (pa / 4096 + (v - lo)) % 2 ^ 52 ∧
    leafAttributes e = leafAttributes attributes
  /-- A page that shared a large page with the range loses its mapping. -/
  lost : ∀ v, v < 2 ^ 36 → v < lo ∨ hi ≤ v → Hit m.mem root lo hi v → walk m'.mem root v = none
  /-- The other pages keep theirs. -/
  kept : ∀ v, v < 2 ^ 36 → v < lo ∨ hi ≤ v → ¬ Hit m.mem root lo hi v →
    walk m'.mem root v = walk m.mem root v
  /-- So do the tables that are not for pages of the range alone. -/
  tables : ∀ j p f, j < 3 → tableAt m.mem root (j + 1) p = some f → ¬ Within lo hi j p →
    tableAt m'.mem root (j + 1) p = some f

theorem Mapped.refl (root lo pa attributes : Nat) (m : Machine) :
    Mapped root lo lo pa attributes m m where
  steps := Relation.ReflTransGen.refl
  inside v h1 h2 := absurd h2 (by omega)
  lost v _ _ h := by
    obtain ⟨k, e, u, -, h1, h2, -⟩ := h
    omega
  kept _ _ _ _ := rfl
  tables _ _ _ _ h _ := h

/-- A leaf in front of the range is not touched. -/
theorem Mapped.kept_before {root lo hi pa attributes v k e : Nat} {m m' : Machine}
    (h : Mapped root lo hi pa attributes m m') (hv : v < 2 ^ 36)
    (hw : walk m.mem root v = some (k, e)) (hlo : (v / span k + 1) * span k ≤ lo) :
    walk m'.mem root v = some (k, e) := by
  have hlt : ∀ u, u / span k = v / span k → u < lo := fun u hu =>
    lt_of_lt_of_le ((Nat.div_lt_iff_lt_mul (span_pos k)).mp (by omega)) hlo
  rw [h.kept v hv (Or.inl (hlt v rfl)), hw]
  rintro ⟨k', e', u, hw', hu1, -, hu⟩
  obtain ⟨rfl, rfl⟩ := Prod.mk.inj (Option.some_inj.mp (hw.symm.trans hw'))
  have := hlt u hu
  omega

/-- Two ranges side by side. -/
theorem Mapped.trans {root lo mid hi pa attributes : Nat} {m₀ m₁ m₂ : Machine} (h1 : lo ≤ mid)
    (h2 : mid ≤ hi) (hhi : hi ≤ 2 ^ 36) (hpa : pa % 4096 = 0)
    (h : Mapped root lo mid pa attributes m₀ m₁)
    (h' : Mapped root mid hi ((pa + 4096 * (mid - lo)) % 2 ^ 64) attributes m₁ m₂) :
    Mapped root lo hi pa attributes m₀ m₂ where
  steps := h.steps.trans h'.steps
  inside v hv1 hv2 := by
    by_cases hv : v < mid
    · obtain ⟨k, e, hw, hb1, hb2, hpage, hattr⟩ := h.inside v hv1 hv
      exact ⟨k, e, h'.kept_before (by omega) hw hb2, hb1, by omega, hpage, hattr⟩
    · obtain ⟨k, e, hw, hb1, hb2, hpage, hattr⟩ := h'.inside v (by omega) hv2
      exact ⟨k, e, hw, by omega, hb2, by omega, hattr⟩
  lost v hv hout hhit := by
    by_cases hfirst : Hit m₀.mem root lo mid v
    · have hnone := h.lost v hv (by omega) hfirst
      rw [h'.kept v hv (by omega) (not_hit_of_none hnone), hnone]
    · exact h'.lost v hv (by omega) (hhit.right hfirst (h.kept v hv (by omega) hfirst))
  kept v hv hout hno := by
    have hsame := h.kept v hv (by omega) fun hh => hno (hh.mono (le_refl _) h2 rfl)
    rw [h'.kept v hv (by omega) fun hh => hno (hh.mono h1 (le_refl _) hsame), hsame]
  tables j p f hj hf hout := by
    refine h'.tables j p f hj (h.tables j p f hj hf fun hw => hout ?_) fun hw => hout ?_
    · exact ⟨hw.1, hw.2.trans h2⟩
    · exact ⟨h1.trans hw.1, hw.2⟩

/-! ## A row of leaves -/

/-- The leaves of a row are aligned and follow each other. -/
theorem leaf_page {k pa d r : Nat} (hk0 : 1 ≤ k) (hk : k ≤ 3) (hpa : pa % (4096 * span k) = 0)
    (hr : r < span k) : (pa + 4096 * span k * d) % 2 ^ 64 % (4096 * span k) = 0 ∧
      (pa + 4096 * span k * d) % 2 ^ 64 / 4096 + r = (pa / 4096 + (span k * d + r)) % 2 ^ 52 := by
  have hcases : span k = 262144 ∨ span k = 512 ∨ span k = 1 := by
    obtain rfl | rfl | rfl : k = 1 ∨ k = 2 ∨ k = 3 := by omega
    · exact Or.inl rfl
    · exact Or.inr (Or.inl rfl)
    · exact Or.inr (Or.inr rfl)
  rcases hcases with h | h | h <;> rw [h] at hpa hr ⊢ <;> omega

theorem mem_row_iff {q n k v : Nat} :
    (q ≤ v / span k ∧ v / span k < q + n) ↔ (q * span k ≤ v ∧ v < (q + n) * span k) := by
  rw [Nat.le_div_iff_mul_le (span_pos k), Nat.div_lt_iff_lt_mul (span_pos k)]

/-- A row lies in one table.  The pages outside that it hits are those of a larger page that maps its
first page. -/
theorem hit_row_iff {mem : Nat → Nat → Nat} {root q n k v : Nat} (hk0 : 1 ≤ k) (hk : k ≤ 3)
    (hrow : q % 512 + n ≤ 512) (hn : 0 < n) (hv : v < 2 ^ 36)
    (hout : v < q * span k ∨ (q + n) * span k ≤ v) :
    Hit mem root (q * span k) ((q + n) * span k) v ↔
      ∃ j e, j < k ∧ walk mem root v = some (j, e) ∧ v / span j = q * span k / span j := by
  constructor
  · rintro ⟨j, e, u, hw, hu1, hu2, hu⟩
    have hmem := mem_row_iff.mpr ⟨hu1, hu2⟩
    by_cases hj : j < k
    · refine ⟨j, e, hj, hw, ?_⟩
      obtain ⟨k, rfl⟩ : ∃ i, k = i + 1 := ⟨k - 1, by omega⟩
      rw [← hu]
      refine div_span_eq_of_le (Nat.le_of_lt_succ hj) (by omega) ?_
      rw [← div_span_succ hk u, ← div_span_succ hk (q * span (k + 1)),
        Nat.mul_div_cancel _ (span_pos _)]
      omega
    · -- a smaller leaf lies in one slot of the row
      have hdepth := (walk_eq_some_iff hv j e).mp hw
      have hslot := div_span_eq_of_le (Nat.le_of_not_lt hj) hdepth.1 hu
      have := mem_row_iff.mp (hslot ▸ hmem)
      omega
  · rintro ⟨j, e, hj, hw, hq⟩
    exact ⟨j, e, q * span k, hw, le_refl _,
      Nat.mul_lt_mul_of_pos_right (by omega) (span_pos k), hq.symm⟩

theorem mapped_of_fill {root k q n pa attributes : Nat} {leaf : Nat → Nat} {m m₁ m' : Machine}
    (hk0 : 1 ≤ k) (hk : k ≤ 3) (hrow : q % 512 + n ≤ 512) (hn : 0 < n)
    (hend : (q + n) * span k ≤ 2 ^ 36) (hens : Ensured root k (q * span k) m m₁)
    (hsteps : Steps root m₁ m')
    (hwalk : ∀ v, v < 2 ^ 36 → walk m'.mem root v = if q ≤ v / span k ∧ v / span k < q + n then
      leafWalk k (leaf ((pa + 4096 * span k * (v / span k - q)) % 2 ^ 64)) else walk m₁.mem root v)
    (htables : ∀ j p f, j < 3 → tableAt m₁.mem root (j + 1) p = some f →
      ¬ Within (q * span k) ((q + n) * span k) j p → tableAt m'.mem root (j + 1) p = some f)
    (hpa : pa % (4096 * span k) = 0)
    (hleaf : ∀ x, x % (4096 * span k) = 0 → x < 2 ^ 64 → LeafSpec k x attributes (leaf x)) :
    Mapped root (q * span k) ((q + n) * span k) pa attributes m m' := by
  refine ⟨hens.steps.trans hsteps, fun v h1 h2 => ?_, fun v hv hout hhit => ?_,
    fun v hv hout hno => ?_, fun j p f hj hf => htables j p f hj (hens.tables _ _ _ hj hf)⟩
  · have hq := mem_row_iff.mpr ⟨h1, h2⟩
    have hr := Nat.mod_lt v (span_pos k)
    obtain ⟨hal, hpage⟩ := leaf_page (d := v / span k - q) hk0 hk hpa hr
    have hspec := hleaf _ hal (Nat.mod_lt _ (by decide))
    have hsplit : span k * (v / span k - q) + v % span k = v - q * span k := by
      have hv := Nat.div_add_mod v (span k)
      have hle := Nat.mul_le_mul_left (span k) hq.1
      rw [Nat.mul_sub, Nat.mul_comm q]
      omega
    refine ⟨k, _, ?_, Nat.mul_le_mul_right _ hq.1, Nat.mul_le_mul_right _ (by omega), ?_, hspec.attr⟩
    · rw [hwalk v (by omega), if_pos hq, leafWalk, if_pos hspec.leaf]
    · rw [hspec.page, hpage, hsplit]
  · obtain ⟨j, e, hj, hw, hq⟩ := (hit_row_iff hk0 hk hrow hn hv hout).mp hhit
    rw [hwalk v hv, if_neg (mt mem_row_iff.mp (by omega))]
    exact hens.lost v j e hv hj hw hq
  · rw [hwalk v hv, if_neg (mt mem_row_iff.mp (by omega))]
    exact hens.kept v hv fun j e hj hw hq =>
      hno ((hit_row_iff hk0 hk hrow hn hv hout).mpr ⟨j, e, hj, hw, hq⟩)

/-- A row of a table ends inside the address space. -/
theorem row_le {k n v : Nat} (hk : k ≤ 3) (hv : v < 2 ^ 36) (hrow : v / span k % 512 + n ≤ 512) :
    (v / span k + n) * span k ≤ 2 ^ 36 := by
  have htotal : 512 ^ k * 512 * span k = 2 ^ 36 := by
    rw [span, ← Nat.pow_succ, ← Nat.pow_add, show k + 1 + (3 - k) = 4 by omega]
    rfl
  rw [← htotal] at hv ⊢
  refine Nat.mul_le_mul_right _ ?_
  have hslot : v / span k / 512 < 512 ^ k := by
    rw [Nat.div_lt_iff_lt_mul (by decide), Nat.div_lt_iff_lt_mul (span_pos k)]
    exact hv
  omega

theorem page_aligned {x k : Nat} (h : x % (4096 * span k) = 0) : x % 4096 = 0 :=
  Nat.mod_eq_zero_of_dvd (dvd_trans (Nat.dvd_mul_right _ _) (Nat.dvd_of_mod_eq_zero h))

/-- A leaf may be written. -/
theorem LeafSpec.writable {gb k x attributes e : Nat} (h : LeafSpec k x attributes e) (hk0 : 1 ≤ k)
    (hx : x % (4096 * span k) = 0) (hgb : k = 1 → gb = 1) : Writable gb k e where
  ok := by
    have hp : present e = true := by
      have := h.leaf
      rw [isLeaf, Bool.and_eq_true] at this
      exact this.1
    refine Or.inr ⟨hp, h.lt, fun h0 => absurd h0 (by omega), fun _ => ?_⟩
    rw [h.page]
    obtain ⟨c, rfl⟩ := Nat.dvd_of_mod_eq_zero hx
    rw [Nat.mul_assoc, Nat.mul_div_cancel_left _ (by decide), Nat.mul_mod_right]
  notTable := isTable_of_isLeaf k e h.leaf
  gb := fun hk _ => hgb hk

/-- A row of leaves at depth `k`, below tables that are there. -/
theorem fill_mapped {root k n v₀ t pa attributes : Nat} {drop : Nat → Nat → Machine → Machine}
    {leaf : Nat → Nat} {m₀ m : Machine} (hk0 : 1 ≤ k) (hk : k ≤ 3) (hdrop : DropOk root k drop)
    (hens : Ensured root k v₀ m₀ m) (hwf : WellFormed m root)
    (ht : tableAt m.mem root k (v₀ / span k / 512) = some (t >>> 12)) (hal : v₀ % span k = 0)
    (hrow : v₀ / span k % 512 + n ≤ 512) (hn : 0 < n) (hv : v₀ < 2 ^ 36)
    (hpa : pa % (4096 * span k) = 0) (hpa' : pa < 2 ^ 64) (hgb : k = 1 → m.gbPageSupport = 1)
    (hleaf : ∀ x, x % (4096 * span k) = 0 → x < 2 ^ 64 → LeafSpec k x attributes (leaf x)) :
    Mapped root v₀ (v₀ + span k * n) pa attributes m₀
      (fillEntries drop leaf (4096 * span k) t n (v₀ / span k % 512) pa m) := by
  obtain ⟨hsteps, hwalk, htables⟩ := fillEntries_spec hdrop hk0 hk leaf _ n _ pa m hwf ht hrow hpa' (by
    intro j _
    have hx := (leaf_page (d := j) hk0 hk hpa (span_pos k)).1
    exact (hleaf _ hx (Nat.mod_lt _ (by decide))).writable hk0 hx hgb)
  have hlo : v₀ / span k * span k = v₀ := Nat.div_mul_cancel (Nat.dvd_of_mod_eq_zero hal)
  have hhi : (v₀ / span k + n) * span k = v₀ + span k * n := by
    rw [Nat.add_mul, hlo, Nat.mul_comm n]
  rw [Nat.div_add_mod'] at hwalk htables
  have hmap := mapped_of_fill hk0 hk hrow hn (row_le hk hv hrow) (by rw [hlo]; exact hens)
    hsteps hwalk htables hpa hleaf
  rwa [hlo, hhi] at hmap

/-! ## One iteration -/

/-- What `create_mapping` is asked to write. -/
structure Request (attributes pa : Nat) : Prop where
  /-- The attributes are the low bits of an entry. -/
  attr_lt : attributes < 4096
  /-- The present bit is one of them. -/
  attr_odd : attributes % 2 = 1
  /-- The address is a page-aligned `u64`. -/
  aligned : pa % 4096 = 0
  lt : pa < 2 ^ 64

theorem clampCount_eq (count : Nat) {index : Nat} (h : index < 512) :
    clampCount count index ≤ count ∧ index + clampCount count index ≤ 512 ∧
      (0 < count → 0 < clampCount count index) := by
  rw [clampCount]
  split <;> omega

section

variable {root attributes va pa pages v₀ : Nat} {m₀ m : Machine}

theorem ensurePdpt_eq (attributes : Nat) {t i : Nat} (h : EntryOk 0 (m.read t i)) : ensurePdpt attributes t i m =
    if isTable 0 (m.read t i) = true then m else newTable attributes t i m := by
  rw [ensurePdpt]
  rcases h with h | ⟨h, -⟩
  · rw [if_pos h, h, if_neg (by simp [isTable_zero])]
  · rw [if_neg, if_pos (by simp [isTable, h])]
    intro h0
    rw [h0] at h
    exact absurd h (by decide)

theorem ensureTable_eq (attributes : Nat) {k t i : Nat} (h1 : 1 ≤ k) (h2 : k ≤ 2) (h : EntryOk k (m.read t i)) :
    ensureTable attributes t i m =
      if isTable k (m.read t i) = true then m else newTable attributes t i m := by
  rw [ensureTable]
  have hiff : (m.read t i = 0 ∨ large (m.read t i) = true) ↔ ¬ isTable k (m.read t i) = true := by
    rw [isTable_middle h1 h2]
    rcases h with h | ⟨h, -⟩
    · simp [h, present_zero]
    · have h0 : m.read t i ≠ 0 := fun h0 => absurd (h0 ▸ h) (by decide)
      simp [h, h0]
  by_cases ht : isTable k (m.read t i) = true
  · rw [if_neg (mt hiff.mp (not_not.mpr ht)), if_pos ht]
  · rw [if_pos (hiff.mpr ht), if_neg ht]

/-- Writing entries allocates nothing. -/
theorem noFail_of_fillEntries {m₁ : Machine} {drop : Nat → Nat → Machine → Machine}
    (hdrop : ∀ t i m, m₁.failures ≤ m.failures → m₁.failures ≤ (drop t i m).failures)
    {leaf : Nat → Nat} {step t n i pa : Nat}
    (h : NoFail m (fillEntries drop leaf step t n i pa m₁)) : NoFail m m₁ :=
  ((closed_failures _ fun _ => True).fillEntries hdrop leaf step t n i pa m₁ (le_refl _)).trans h

theorem page_lt {va v : Nat} (h : va / 4096 % 2 ^ 36 = v) : v < 2 ^ 36 :=
  h ▸ Nat.mod_lt _ (by decide)

/-- The row of 4 KiB pages. -/
theorem createPt_mapped {pd : Nat} (hr : Request attributes pa) (hpage : va / 4096 % 2 ^ 36 = v₀)
    (hpos : 0 < pages) (hwf : WellFormed m₀ root) (hens : Ensured root 2 v₀ m₀ m)
    (ht : tableAt m.mem root 2 (v₀ / span 2 / 512) = some (pd >>> 12))
    (hno : NoFail m (createPt attributes va pa pages pd m).2) :
    0 < (createPt attributes va pa pages pd m).1 ∧ (createPt attributes va pa pages pd m).1 ≤ pages ∧
      Mapped root v₀ (v₀ + (createPt attributes va pa pages pd m).1) pa attributes m₀
        (createPt attributes va pa pages pd m).2 := by
  obtain ⟨hle, hrow, hn⟩ := clampCount_eq pages (Nat.mod_lt (v₀ / span 3) (by decide))
  simp only [createPt, pdIndex_eq hpage, ptIndex_eq hpage] at hno ⊢
  generalize clampCount pages (v₀ / span 3 % 512) = n at hle hrow hn hno ⊢
  generalize hm₁ : ensureTable attributes pd (v₀ / span 2 % 512) m = m₁ at hno ⊢
  have hwf' := hens.steps.wellFormed hwf
  obtain ⟨hens₁, htab⟩ := hens.succ hwf' (le_refl 2) ht hr.attr_odd (by
    rw [← hm₁]
    exact ensureTable_eq attributes (by decide) (le_refl 2)
      (hwf'.entries 2 _ _ (by decide) (Radix.entryAt_eq_some ht)))
    (noFail_of_fillEntries (fun _ _ _ h => h) hno)
  have hfill := fill_mapped (n := n) (by decide) (le_refl 3) (dropOk_keepEntry root) hens₁
    (hens₁.steps.wellFormed hwf) (by rwa [div_span_succ (by decide)]) (Nat.mod_one v₀) hrow
    (hn hpos) (page_lt hpage) hr.aligned hr.lt (fun h => absurd h (by decide))
    fun x hx hx' => smallEntry_spec hx hx' hr.attr_lt hr.attr_odd
  refine ⟨hn hpos, hle, ?_⟩
  rwa [show span 3 * n = n from Nat.one_mul n] at hfill

/-- Two addresses with no bits below bit `n`. -/
theorem or_mask_eq_zero {n va pa : Nat} (h : (va &&& (2 ^ n - 1)) ||| (pa &&& (2 ^ n - 1)) = 0) :
    va % 2 ^ n = 0 ∧ pa % 2 ^ n = 0 := by
  rw [Nat.or_eq_zero_iff, and_mask_eq, and_mask_eq] at h
  exact h

/-- The branches below the page-directory-pointer table. -/
theorem createPd_mapped {pdpt : Nat} (hr : Request attributes pa) (hpage : va / 4096 % 2 ^ 36 = v₀)
    (hpos : 0 < pages) (hwf : WellFormed m₀ root) (hens : Ensured root 1 v₀ m₀ m)
    (ht : tableAt m.mem root 1 (v₀ / span 1 / 512) = some (pdpt >>> 12))
    (hno : NoFail m (createPd attributes (4096 * pages) va pa pages pdpt m).2) :
    0 < (createPd attributes (4096 * pages) va pa pages pdpt m).1 ∧
      (createPd attributes (4096 * pages) va pa pages pdpt m).1 ≤ pages ∧
      Mapped root v₀ (v₀ + (createPd attributes (4096 * pages) va pa pages pdpt m).1) pa attributes
        m₀ (createPd attributes (4096 * pages) va pa pages pdpt m).2 := by
  have hwf' := hens.steps.wellFormed hwf
  have hcount : 4096 * pages / 0x200000 = pages / 512 := by omega
  obtain ⟨hle, hrow, hn⟩ := clampCount_eq (pages / 512)
    (Nat.mod_lt (v₀ / span 2) (by decide))
  simp only [createPd, hcount, pdIndex_eq hpage, pdptIndex_eq hpage] at hno ⊢
  generalize clampCount (pages / 512) (v₀ / span 2 % 512) = n at hle hrow hn hno ⊢
  have hm₁ := ensureTable_eq attributes (by decide) (by decide)
    (hwf'.entries 1 _ _ (by decide) (Radix.entryAt_eq_some ht))
  have hmono₁ := (closed_failures _ fun _ => True).ensureTable (a := attributes) trivial pdpt
    (v₀ / span 1 % 512) (le_refl m.failures)
  generalize ensureTable attributes pdpt (v₀ / span 1 % 512) m = m₁ at hno hm₁ hmono₁ ⊢
  split at hno
  · rename_i hmb
    rw [if_pos hmb]
    obtain ⟨hva, hpa⟩ := or_mask_eq_zero (n := 21) hmb.1
    obtain ⟨hens₁, htab⟩ := hens.succ hwf' (by decide) ht hr.attr_odd hm₁
      (noFail_of_fillEntries (closed_failures _ fun _ => True).freePt hno)
    have hfill := fill_mapped (n := n) (by decide) (by decide) (dropOk_freePt root) hens₁
      (hens₁.steps.wellFormed hwf) (by rwa [div_span_succ (by decide)])
      (by show v₀ % 512 = 0; omega) hrow (hn hmb.2) (page_lt hpage) hpa hr.lt
      (fun h => absurd h (by decide))
      fun x hx hx' => largeEntry_spec (by decide) (page_aligned hx) hx' hr.attr_lt hr.attr_odd
    exact ⟨by have := hn hmb.2; omega, by omega, hfill⟩
  · rename_i hmb
    rw [if_neg hmb]
    have hmono := (closed_failures m₁.failures fun _ => True).createPt (a := attributes) trivial va pa
      pages (addrOf (m₁.read pdpt (v₀ / span 1 % 512))) (le_refl _)
    obtain ⟨hens₁, htab⟩ := hens.succ hwf' (by decide) ht hr.attr_odd hm₁ (hmono.trans hno)
    exact createPt_mapped hr hpage hpos hwf hens₁ (by rwa [div_span_succ (by decide)])
      (hno.trans hmono₁)

/-- **One iteration.** -/
theorem createChunk_mapped {pml4 : Nat} (hr : Request attributes pa)
    (hpage : va / 4096 % 2 ^ 36 = v₀) (hpos : 0 < pages) (hwf : WellFormed m (pml4 >>> 12))
    (hno : NoFail m (createChunk attributes pml4 (4096 * pages) va pa pages m).2) :
    0 < (createChunk attributes pml4 (4096 * pages) va pa pages m).1 ∧
      (createChunk attributes pml4 (4096 * pages) va pa pages m).1 ≤ pages ∧
      Mapped (pml4 >>> 12) v₀ (v₀ + (createChunk attributes pml4 (4096 * pages) va pa pages m).1) pa
        attributes m (createChunk attributes pml4 (4096 * pages) va pa pages m).2 := by
  have hcount : 4096 * pages / 0x40000000 = pages / 262144 := by omega
  have hv := page_lt hpage
  have ht : tableAt m.mem (pml4 >>> 12) 0 (v₀ / span 0 / 512) = some (pml4 >>> 12) := by
    have h0 : v₀ / span 0 / 512 = 0 := by
      show v₀ / 2 ^ 27 / 512 = 0
      omega
    rw [h0]
    rfl
  obtain ⟨hle, hrow, hn⟩ := clampCount_eq (pages / 262144)
    (Nat.mod_lt (v₀ / span 1) (by decide))
  simp only [createChunk, hcount, pdptIndex_eq hpage, pml4Index_eq hpage] at hno ⊢
  generalize clampCount (pages / 262144) (v₀ / span 1 % 512) = n at hle hrow hn hno ⊢
  have hm₁ := ensurePdpt_eq attributes
    (hwf.entries 0 _ _ (by decide) (Radix.entryAt_eq_some ht))
  have hens := Ensured.refl (pml4 >>> 12) v₀ m
  have hmono₁ := (closed_failures _ fun _ => True).ensurePdpt (a := attributes) trivial pml4
    (v₀ / span 0 % 512) (le_refl m.failures)
  generalize ensurePdpt attributes pml4 (v₀ / span 0 % 512) m = m₁ at hno hm₁ hmono₁ ⊢
  split at hno
  · rename_i hgb
    rw [if_pos hgb]
    obtain ⟨hva, hpa⟩ := or_mask_eq_zero (n := 30) hgb.1
    obtain ⟨hens₁, htab⟩ := hens.succ hwf (by decide) ht hr.attr_odd hm₁
      (noFail_of_fillEntries (closed_failures _ fun _ => True).freePdpt hno)
    have hfill := fill_mapped (n := n) (by decide) (by decide) (dropOk_freePdpt _) hens₁
      (hens₁.steps.wellFormed hwf) (by rwa [div_span_succ (by decide)])
      (by show v₀ % 262144 = 0; omega) hrow (hn hgb.2.2) hv hpa hr.lt (fun _ => hgb.2.1)
      fun x hx hx' => largeEntry_spec (by decide) (page_aligned hx) hx' hr.attr_lt hr.attr_odd
    exact ⟨by have := hn hgb.2.2; omega, by omega, hfill⟩
  · rename_i hgb
    rw [if_neg hgb]
    have hmono := (closed_failures m₁.failures fun _ => True).createPd (a := attributes) trivial
      (4096 * pages) va pa pages (addrOf (m₁.read pml4 (v₀ / span 0 % 512))) (le_refl _)
    obtain ⟨hens₁, htab⟩ := hens.succ hwf (by decide) ht hr.attr_odd hm₁ (hmono.trans hno)
    exact createPd_mapped hr hpage hpos hwf hens₁ (by rwa [div_span_succ (by decide)])
      (hno.trans hmono₁)

/-! ## The loop -/

/-- **The rule for the loop.**  If an iteration after `d` pages takes `I d` to `I (d + n)`, `n` being
the pages it maps, the loop takes `I 0` to `I pages`. -/
theorem createLoop_rule {pml4 : Nat} (hend : va + 4096 * pages < 2 ^ 64) {I : Nat → Machine → Prop}
    (hstep : ∀ d m, d < pages → I d m →
      let c := createChunk attributes pml4 (4096 * (pages - d)) (va + 4096 * d)
        ((pa + 4096 * d) % 2 ^ 64) (pages - d) m
      NoFail m c.2 → 0 < c.1 ∧ c.1 ≤ pages - d ∧ I (d + c.1) c.2) :
    ∀ (fuel d : Nat) (m : Machine), d ≤ pages → pages - d ≤ fuel → I d m →
      NoFail m (createLoop attributes pml4 (va + 4096 * pages) fuel (va + 4096 * d)
        ((pa + 4096 * d) % 2 ^ 64) (pages - d) m) →
      I pages (createLoop attributes pml4 (va + 4096 * pages) fuel (va + 4096 * d)
        ((pa + 4096 * d) % 2 ^ 64) (pages - d) m)
  | 0, d, m, hd, hfuel, hI, _ => by
    obtain rfl : d = pages := by omega
    exact hI
  | fuel + 1, d, m, hd, hfuel, hI, hno => by
    rw [createLoop] at hno ⊢
    split
    · rename_i hva
      rw [if_pos hva] at hno
      have hsize : va + 4096 * pages - (va + 4096 * d) = 4096 * (pages - d) := by omega
      rw [hsize] at hno ⊢
      have hmono₁ := (closed_failures m.failures fun _ => True).createChunk (a := attributes) trivial
        pml4 (4096 * (pages - d)) (va + 4096 * d) ((pa + 4096 * d) % 2 ^ 64) (pages - d) (le_refl _)
      have hno₁ := le_trans ((closed_failures _ fun _ => True).createLoop trivial _ _ _ _ _ _ _
        (le_refl _)) hno
      obtain ⟨hpos, hle, hI'⟩ := hstep d m (by omega) hI hno₁
      generalize createChunk attributes pml4 (4096 * (pages - d)) (va + 4096 * d)
        ((pa + 4096 * d) % 2 ^ 64) (pages - d) m = c at *
      have hsub : subU64 (pages - d) c.1 = pages - (d + c.1) := by
        rw [subU64]
        omega
      have hva' : (va + 4096 * d + 4096 * c.1) % 2 ^ 64 = va + 4096 * (d + c.1) := by omega
      have hpa' : ((pa + 4096 * d) % 2 ^ 64 + 4096 * c.1) % 2 ^ 64 =
          (pa + 4096 * (d + c.1)) % 2 ^ 64 := by omega
      simp only [hsub, hva', hpa'] at hno ⊢
      exact createLoop_rule hend hstep fuel (d + c.1) c.2 (by omega) (by omega) hI'
        (hno.trans hmono₁)
    · obtain rfl : d = pages := by omega
      exact hI

/-- The same for the call. -/
theorem createMapping_rule {pml4 : Nat} (hend : va + 4096 * pages < 2 ^ 64) (hpa : pa < 2 ^ 64)
    (hpml4 : pml4 ≠ 0) {I : Nat → Machine → Prop}
    (hstep : ∀ d m, d < pages → I d m →
      let c := createChunk attributes pml4 (4096 * (pages - d)) (va + 4096 * d)
        ((pa + 4096 * d) % 2 ^ 64) (pages - d) m
      NoFail m c.2 → 0 < c.1 ∧ c.1 ≤ pages - d ∧ I (d + c.1) c.2)
    (hI : I 0 m) (hno : NoFail m (createMapping m va pa pages attributes pml4)) :
    I pages (createMapping m va pa pages attributes pml4) := by
  rw [createMapping] at hno ⊢
  split
  · obtain rfl : pages = 0 := by tauto
    exact hI
  · rename_i h
    rw [if_neg h, Nat.mod_eq_of_lt hend] at hno
    have hrule := createLoop_rule hend hstep pages 0 m (Nat.zero_le _) (by omega) hI
    rw [Nat.mul_zero, Nat.add_zero, Nat.add_zero, Nat.mod_eq_of_lt hpa, Nat.sub_zero] at hrule
    rw [Nat.mod_eq_of_lt hend]
    exact hrule hno

/-- A `create_mapping` that ends with the address space does nothing. -/
theorem createMapping_of_wrap {pml4 : Nat}
    (h : (va + 4096 * pages) % 2 ^ 64 = 0) : createMapping m va pa pages attributes pml4 = m := by
  rw [createMapping]
  split
  · rfl
  · rename_i hp
    obtain ⟨n, rfl⟩ : ∃ n, pages = n + 1 := ⟨pages - 1, by omega⟩
    rw [h, createLoop, if_neg (by omega)]

theorem Request.advance (hr : Request attributes pa) (d : Nat) :
    Request attributes ((pa + 4096 * d) % 2 ^ 64) := by
  have hpa := hr.aligned
  exact ⟨hr.attr_lt, hr.attr_odd, by omega, Nat.mod_lt _ (by decide)⟩

/-- **`create_mapping` maps its range**, loses the rest of the large pages that its range only
partly covers, and leaves everything else alone. -/
theorem createMapping_mapped {pml4 : Nat} (hr : Request attributes pa) (hva : va % 4096 = 0)
    (hpage : va / 4096 % 2 ^ 36 = v₀) (hfits : v₀ + pages ≤ 2 ^ 36)
    (hend : va + 4096 * pages < 2 ^ 64) (hpml4 : pml4 ≠ 0) (hwf : WellFormed m (pml4 >>> 12))
    (hno : NoFail m (createMapping m va pa pages attributes pml4)) :
    Mapped (pml4 >>> 12) v₀ (v₀ + pages) pa attributes m
      (createMapping m va pa pages attributes pml4) := by
  refine createMapping_rule (I := fun d m' => Mapped (pml4 >>> 12) v₀ (v₀ + d) pa attributes m m')
    hend hr.lt hpml4 (fun d m₁ hd hmap => ?_) (Mapped.refl _ _ _ _ _) hno
  intro c hno₁
  obtain ⟨hpos, hle, hmap₁⟩ := createChunk_mapped (hr.advance d)
    (show (va + 4096 * d) / 4096 % 2 ^ 36 = v₀ + d by omega) (by omega)
    (hmap.steps.wellFormed hwf) hno₁
  refine ⟨hpos, hle, Mapped.trans (by omega) ?_ ?_ hr.aligned hmap ?_⟩
  · omega
  · show v₀ + (d + c.1) ≤ _
    have : c.1 ≤ pages - d := hle
    omega
  · rw [Nat.add_sub_cancel_left, ← Nat.add_assoc]
    exact hmap₁

/-- What `create_mapping` does is a run of steps, wherever the range lies. -/
theorem createMapping_steps {pml4 : Nat} (hr : Request attributes pa)
    (hend : va + 4096 * pages ≤ 2 ^ 64) (hpml4 : pml4 ≠ 0) (hwf : WellFormed m (pml4 >>> 12))
    (hno : NoFail m (createMapping m va pa pages attributes pml4)) :
    Steps (pml4 >>> 12) m (createMapping m va pa pages attributes pml4) := by
  rcases Nat.lt_or_eq_of_le hend with hlt | heq
  · refine createMapping_rule (I := fun _ m' => Steps (pml4 >>> 12) m m') hlt hr.lt hpml4
      (fun d m₁ hd hsteps => ?_) Relation.ReflTransGen.refl hno
    intro c hno₁
    obtain ⟨hpos, hle, hmap₁⟩ := createChunk_mapped (hr.advance d) rfl (by omega)
      (hsteps.wellFormed hwf) hno₁
    exact ⟨hpos, hle, hsteps.trans hmap₁.steps⟩
  · rw [createMapping_of_wrap (by omega)]
    exact Relation.ReflTransGen.refl

end

end Dem64
