import Dem64.Paging.Split

/-!
# `destroy_mapping`

`Unmapped lo mid fin m m'` is what an iteration of `destroy_mapping` does to the walks when it clears
the pages from `lo` to `mid` of a range that ends at `fin`: those pages have no translation any
more, and the other pages keep theirs, through the same leaf or through the pieces of a large page
that was split.  The exception is the last large page of the address space, which loses what lies
behind the range (`Paging/Split.lean`).
-/

set_option autoImplicit false

namespace Dem64

/-! ## Splitting on the way down -/

/-- The large pages that map `v₀` are split down to depth `k`. -/
structure Opened (root k v₀ fin : Nat) (m m' : Machine) : Prop where
  /-- What was done is a run of steps. -/
  steps : Steps root m m'
  /-- The pages of other leaves stay. -/
  kept : ∀ v, v < 2 ^ 36 → (∀ j e, j < k → walk m.mem root v = some (j, e) →
    v / span j ≠ v₀ / span j) → walk m'.mem root v = walk m.mem root v
  /-- The pages of the large page keep their translation. -/
  refined : ∀ v j e, v < 2 ^ 36 → j < k → walk m.mem root v = some (j, e) →
    v / span j = v₀ / span j → v < fin ∨ lastPage / span j ≠ v₀ / span j → Refined root m m' v
  /-- The last page of the address space is lost if it is one of them. -/
  top : ∀ j e, j < k → walk m.mem root lastPage = some (j, e) → lastPage / span j = v₀ / span j →
    walk m'.mem root lastPage = none

section

variable {root k v₀ fin : Nat} {m₀ m m' : Machine}

/-- There are no large pages above depth 1. -/
theorem Opened.refl (root v₀ fin : Nat) (m : Machine) : Opened root 1 v₀ fin m m where
  steps := Relation.ReflTransGen.refl
  kept _ _ _ := rfl
  refined v j e hv hj hw := absurd (walk_depth hv hw).1 (by omega)
  top j e hj hw := absurd (walk_depth (by decide) hw).1 (by omega)

theorem Opened.succ (hk : k ≤ 3) (h : Opened root k v₀ fin m₀ m) (hs : Split root k v₀ fin m m') :
    Opened root (k + 1) v₀ fin m₀ m' := by
  -- a page that no large page further up maps together with `v₀` still has its leaf in `m`
  have hsame : ∀ {v e}, v < 2 ^ 36 → walk m₀.mem root v = some (k, e) →
      walk m.mem root v = some (k, e) := by
    intro v e hv hw
    rw [h.kept v hv, hw]
    intro j e' hj hw'
    obtain ⟨rfl, -⟩ := Prod.mk.inj (Option.some_inj.mp (hw.symm.trans hw'))
    omega
  refine ⟨h.steps.trans hs.steps, fun v hv hall => ?_, fun v j e hv hj hw hq hor => ?_,
    fun j e hj hw hq => ?_⟩
  · have hlow := h.kept v hv fun j e hj => hall j e (by omega)
    rw [hs.kept v hv fun e he => hall k e (by omega) (hlow ▸ he), hlow]
  · rcases Nat.lt_succ_iff_lt_or_eq.mp hj with hlt | rfl
    · have href := h.refined v j e hv hlt hw hq hor
      obtain ⟨-, -, k₁, e₁, -, hw₁, -, -⟩ := id href
      by_cases hsplit : k₁ = k ∧ v / span k = v₀ / span k
      · obtain ⟨rfl, hq₁⟩ := hsplit
        refine href.trans (hs.refined v e₁ hv hw₁ hq₁ (hor.imp_right fun hne heq => hne ?_))
        exact div_span_eq_of_le hlt.le hk heq
      · refine href.trans (Refined.of_eq (hs.kept v hv fun e' he' => ?_) hw₁)
        obtain ⟨rfl, -⟩ := Prod.mk.inj (Option.some_inj.mp (hw₁.symm.trans he'))
        exact fun hq' => hsplit ⟨rfl, hq'⟩
    · have hw₁ := hsame hv hw
      obtain ⟨k', e', k'', e'', hw', hw'', hk', hp⟩ := hs.refined v e hv hw₁ hq hor
      obtain ⟨rfl, rfl⟩ := Prod.mk.inj (Option.some_inj.mp (hw₁.symm.trans hw'))
      exact ⟨j, e, k'', e'', hw, hw'', hk', hp⟩
  · rcases Nat.lt_succ_iff_lt_or_eq.mp hj with hlt | rfl
    · have hnone := h.top j e hlt hw hq
      rw [hs.kept _ (by decide), hnone]
      intro e' he'
      rw [hnone] at he'
      exact absurd he' (by simp)
    · exact hs.top e (hsame (by decide) hw) hq

/-! ## Clearing a row -/

/-- `m'` is `m` with the pages from `lo` to `mid` cleared, of a range that ends at `fin`. -/
structure Unmapped (root lo mid fin : Nat) (m m' : Machine) : Prop where
  /-- What was done is a run of steps. -/
  steps : Steps root m m'
  /-- The pages are not mapped any more. -/
  inside : ∀ v, lo ≤ v → v < mid → walk m'.mem root v = none
  /-- A page that no leaf maps together with one of them stays. -/
  kept : ∀ v, v < 2 ^ 36 → v < lo ∨ mid ≤ v → ¬ Hit m.mem root lo mid v →
    walk m'.mem root v = walk m.mem root v
  /-- A page of a large page that was split keeps its translation, if it is in the range or if the
  large page is not the last one of the address space. -/
  refined : ∀ v, v < 2 ^ 36 → v < lo ∨ mid ≤ v → Hit m.mem root lo mid v →
    (∀ k e, walk m.mem root v = some (k, e) → v < fin ∨ lastPage / span k ≠ v / span k) →
    Refined root m m' v
  /-- Otherwise the last page of the address space is lost. -/
  top : Hit m.mem root lo mid lastPage → walk m'.mem root lastPage = none

theorem Unmapped.refl (root lo fin : Nat) (m : Machine) : Unmapped root lo lo fin m m := by
  have hno : ∀ v, ¬ Hit m.mem root lo lo v := by
    rintro v ⟨k, e, u, -, h1, h2, -⟩
    omega
  exact ⟨Relation.ReflTransGen.refl, fun v h1 h2 => absurd h2 (by omega), fun _ _ _ _ => rfl,
    fun v _ _ h => absurd h (hno v), fun h => absurd h (hno _)⟩

/-- Two parts of a range, one after the other. -/
theorem Unmapped.trans {lo mid hi : Nat} {m₁ m₂ : Machine} (h1 : lo ≤ mid) (h2 : mid ≤ hi)
    (hhi : hi ≤ lastPage) (h : Unmapped root lo mid fin m₀ m₁) (h' : Unmapped root mid hi fin m₁ m₂) :
    Unmapped root lo hi fin m₀ m₂ := by
  have hlast : lastPage + 1 = 2 ^ 36 := rfl
  have hnone : ∀ v, v < 2 ^ 36 → v < mid ∨ hi ≤ v → walk m₁.mem root v = none →
      walk m₂.mem root v = none :=
    fun v hv hout hw => (h'.kept v hv hout (not_hit_of_none hw)).trans hw
  refine ⟨h.steps.trans h'.steps, fun v hv1 hv2 => ?_, fun v hv hout hno => ?_,
    fun v hv hout hhit hor => ?_, fun hhit => ?_⟩
  · by_cases hv : v < mid
    · exact hnone v (by omega) (Or.inl hv) (h.inside v hv1 hv)
    · exact h'.inside v (by omega) hv2
  · have hsame := h.kept v hv (by omega) fun hh => hno (hh.mono (le_refl _) h2 rfl)
    rw [h'.kept v hv (by omega) fun hh => hno (hh.mono h1 (le_refl _) hsame), hsame]
  · by_cases hfirst : Hit m₀.mem root lo mid v
    · have href := h.refined v hv (by omega) hfirst hor
      obtain ⟨k, e, k₁, e₁, hw, hw₁, hk, -⟩ := id href
      by_cases hsecond : Hit m₁.mem root mid hi v
      · refine href.trans (h'.refined v hv (by omega) hsecond fun k' e' hw' => ?_)
        obtain ⟨rfl, -⟩ := Prod.mk.inj (Option.some_inj.mp (hw₁.symm.trans hw'))
        exact (hor k e hw).imp_right fun hne heq =>
          hne (div_span_eq_of_le hk (walk_depth hv hw₁).2 heq)
      · exact href.trans (Refined.of_eq (h'.kept v hv (by omega) hsecond) hw₁)
    · have hsame := h.kept v hv (by omega) hfirst
      obtain ⟨k, e, -, hw, -⟩ := id hhit
      exact (Refined.of_eq hsame hw).trans
        (h'.refined v hv (by omega) (hhit.right hfirst hsame) (hsame ▸ hor))
  · by_cases hfirst : Hit m₀.mem root lo mid lastPage
    · exact hnone _ (by omega) (by omega) (h.top hfirst)
    · exact h'.top (hhit.right hfirst (h.kept _ (by omega) (by omega) hfirst))

/-- The pages of the rest of the range are still mapped. -/
theorem Unmapped.mapped {lo mid : Nat} (h : Unmapped root lo mid fin m m') (hfin : fin ≤ lastPage)
    (hmap : ∀ v, lo ≤ v → v < fin → walk m.mem root v ≠ none) {v : Nat} (h1 : mid ≤ v) (hlo : lo ≤ v)
    (h2 : v < fin) : walk m'.mem root v ≠ none := by
  have hlast : lastPage + 1 = 2 ^ 36 := rfl
  by_cases hhit : Hit m.mem root lo mid v
  · obtain ⟨-, -, k', e', -, hw', -⟩ := h.refined v (by omega) (Or.inr h1) hhit fun _ _ _ => Or.inl h2
    rw [hw']
    simp
  · rw [h.kept v (by omega) (Or.inr h1) hhit]
    exact hmap v hlo h2

/-- Clearing a row of entries, after the large pages above them are split. -/
theorem unmapped_of_fill {q n : Nat} {m₁ : Machine} (hk0 : 1 ≤ k) (hk : k ≤ 3)
    (hrow : q % 512 + n ≤ 512) (hn : 0 < n) (hfin : (q + n) * span k ≤ fin) (hfin' : fin ≤ lastPage)
    (hopen : Opened root k (q * span k) fin m m₁) (hsteps : Steps root m₁ m')
    (hwalk : ∀ v, v < 2 ^ 36 → walk m'.mem root v =
      if q ≤ v / span k ∧ v / span k < q + n then none else walk m₁.mem root v) :
    Unmapped root (q * span k) ((q + n) * span k) fin m m' := by
  have hlast : lastPage + 1 = 2 ^ 36 := rfl
  have hout : ∀ v, v < 2 ^ 36 → v < q * span k ∨ (q + n) * span k ≤ v →
      walk m'.mem root v = walk m₁.mem root v := fun v hv hout => by
    rw [hwalk v hv, if_neg (mt mem_row_iff.mp (by omega))]
  refine ⟨hopen.steps.trans hsteps, fun v h1 h2 => ?_, fun v hv hv' hno => ?_,
    fun v hv hv' hhit hor => ?_, fun hhit => ?_⟩
  · rw [hwalk v (by omega), if_pos (mem_row_iff.mpr ⟨h1, h2⟩)]
  · rw [hout v hv hv']
    exact hopen.kept v hv fun j e hj hw hq =>
      hno ((hit_row_iff hk0 hk hrow hn hv hv').mpr ⟨j, e, hj, hw, hq⟩)
  · obtain ⟨j, e, hj, hw, hq⟩ := (hit_row_iff hk0 hk hrow hn hv hv').mp hhit
    have href := hopen.refined v j e hv hj hw hq (by rw [← hq]; exact hor j e hw)
    obtain ⟨-, -, k', e', -, hw', -⟩ := id href
    exact href.trans (Refined.of_eq (hout v hv hv') hw')
  · obtain ⟨j, e, hj, hw, hq⟩ :=
      (hit_row_iff hk0 hk hrow hn (by omega) (Or.inr (by omega))).mp hhit
    rw [hout _ (by omega) (Or.inr (by omega))]
    exact hopen.top j e hj hw hq

/-- Clearing a row of entries at depth `k`. -/
theorem fill_unmapped {n t : Nat} {drop : Nat → Nat → Machine → Machine} (hk0 : 1 ≤ k) (hk : k ≤ 3)
    (hdrop : DropOk root k drop) (hopen : Opened root k v₀ fin m₀ m) (hwf : WellFormed m root)
    (ht : tableAt m.mem root k (v₀ / span k / 512) = some (t >>> 12)) (hal : v₀ % span k = 0)
    (hrow : v₀ / span k % 512 + n ≤ 512) (hn : 0 < n) (hfin : v₀ + span k * n ≤ fin)
    (hfin' : fin ≤ lastPage) : Unmapped root v₀ (v₀ + span k * n) fin m₀
      (fillEntries drop (fun _ => 0) 0 t n (v₀ / span k % 512) 0 m) := by
  have hzero : ∀ gb, Writable gb k 0 := fun gb =>
    ⟨Or.inl rfl, isTable_zero k, fun _ h => absurd h (by rw [isLeaf_zero]; decide)⟩
  obtain ⟨hsteps, hwalk, -⟩ := fillEntries_spec hdrop hk0 hk (fun _ => 0) 0 n _ 0 m hwf ht hrow
    (by decide) fun j _ => hzero _
  have hlo : v₀ / span k * span k = v₀ := Nat.div_mul_cancel (Nat.dvd_of_mod_eq_zero hal)
  have hhi : (v₀ / span k + n) * span k = v₀ + span k * n := by
    rw [Nat.add_mul, hlo, Nat.mul_comm n]
  rw [Nat.div_add_mod'] at hwalk
  have hun := unmapped_of_fill hk0 hk hrow hn (by rw [hhi]; exact hfin) hfin'
    (by rw [hlo]; exact hopen) hsteps hwalk
  rwa [hlo, hhi] at hun

/-- A page of the range that was mapped still is. -/
theorem Opened.mapped {v : Nat} (h : Opened root k v₀ fin m m') (hv : v < 2 ^ 36) (hfin : v < fin)
    (hw : walk m.mem root v ≠ none) : walk m'.mem root v ≠ none := by
  by_cases hall : ∀ j e, j < k → walk m.mem root v = some (j, e) → v / span j ≠ v₀ / span j
  · rwa [h.kept v hv hall]
  · push Not at hall
    obtain ⟨j, e, hj, hwe, hq⟩ := hall
    obtain ⟨-, -, k', e', -, hw', -⟩ := h.refined v j e hv hj hwe hq (Or.inl hfin)
    rw [hw']
    simp

end

/-! ## One iteration -/

/-- What is left to clear at the head of an iteration: `pages` pages from `v₀` on, at the address
`va`, up to the page `fin`. -/
structure Clearing (base va pages v₀ fin : Nat) : Prop where
  /-- The pages lie in one half of the address space. -/
  half : HalfBase base
  va_eq : va = base + 4096 * v₀
  low : base = 0 → fin ≤ 2 ^ 35
  high : base ≠ 0 → 2 ^ 35 ≤ v₀
  fin_eq : v₀ + pages = fin
  /-- The last page of the address space is not among them. -/
  fin_le : fin ≤ lastPage

section

variable {base va pages v₀ fin pml4 : Nat} {m₀ m : Machine}

theorem Clearing.page (h : Clearing base va pages v₀ fin) (hpos : 0 < pages) :
    va / 4096 % 2 ^ 36 = v₀ := by
  have hva := h.va_eq
  have hfin := h.fin_eq
  have hle := h.fin_le
  rw [lastPage] at hle
  rcases h.half with hb | hb <;> omega

theorem Clearing.canonical (h : Clearing base va pages v₀ fin) (hpos : 0 < pages) :
    Canonical va := by
  have hva := h.va_eq
  have hfin := h.fin_eq
  have hle := h.fin_le
  have hlow := h.low
  have hhigh := h.high
  rw [lastPage] at hle
  rw [Canonical]
  rcases h.half with hb | hb <;> omega

theorem Clearing.mod_span (h : Clearing base va pages v₀ fin) {k : Nat} (hk : k = 1 ∨ k = 2) :
    va % (4096 * span k) = 4096 * (v₀ % span k) := by
  have hva := h.va_eq
  have hs : span k = 2 ^ 18 ∨ span k = 2 ^ 9 := by
    rcases hk with rfl | rfl
    · exact Or.inl rfl
    · exact Or.inr rfl
  rcases h.half with hb | hb <;> rcases hs with hs | hs <;> rw [hs] <;> omega

/-- What an iteration leaves behind: it clears some pages, or it meets an empty entry and returns. -/
def Outcome (root v₀ pages fin : Nat) (m : Machine) (c : Option Nat × Machine) : Prop :=
  (c.1 = none ∧ walk m.mem root v₀ = none ∧ Steps root m c.2) ∨
    ∃ n, c.1 = some n ∧ 0 < n ∧ n ≤ pages ∧ Unmapped root v₀ (v₀ + n) fin m c.2

/-- Behind an empty entry nothing is mapped. -/
theorem walk_of_zero {root k v e : Nat} (hv : v < 2 ^ 36) (hk : k ≤ 3)
    (he : entryAt m.mem root k (v / span k) = some e) (h0 : e = 0) : walk m.mem root v = none := by
  subst h0
  exact walk_of_entryAt hv hk he (isTable_zero k)

/-- **The split of the entry of depth `k` on the way to `v₀`**, if it is a large page. -/
theorem splitIf_split {k e : Nat} (h : Clearing base va pages v₀ fin) (hpos : 0 < pages)
    (hk : k = 1 ∨ k = 2) (hwf : WellFormed m (pml4 >>> 12)) (hpml4 : pml4 ≠ 0)
    (he : entryAt m.mem (pml4 >>> 12) k (v₀ / span k) = some e) (hne : e ≠ 0)
    (hpart : large e = true → v₀ % span k ≠ 0 ∨ pages < span k)
    (hno : NoFail m (splitIf (span k) e (va - va % (4096 * span k)) (va % (4096 * span k)) va pages
      pml4 m)) :
    Split (pml4 >>> 12) k v₀ fin m (splitIf (span k) e (va - va % (4096 * span k))
      (va % (4096 * span k)) va pages pml4 m) := by
  have hfin := h.fin_eq
  have hle := h.fin_le
  have hlast : lastPage + 1 = 2 ^ 36 := rfl
  have hk0 : 1 ≤ k := by omega
  have hk2 : k ≤ 2 := by omega
  have hv : v₀ < 2 ^ 36 := by omega
  have hpres : present e = true :=
    ((hwf.entries k _ _ (by omega) he).resolve_left hne).1
  by_cases hl : large e = true
  · have hleaf : isLeaf k e = true := (isLeaf_middle hk0 hk2).mpr ⟨hl, hpres⟩
    have hwk : walk m.mem (pml4 >>> 12) v₀ = some (k, e) := by
      rw [walk_of_entryAt hv (by omega) he (isTable_of_isLeaf k e hleaf), leafWalk, if_pos hleaf]
    have hcond : large e = true ∧ (va % (4096 * span k) ≠ 0 ∨ pages < span k) := by
      rw [h.mod_span hk]
      have := hpart hl
      exact ⟨hl, by omega⟩
    -- the first page of the large page has its attributes
    have hattr : (pagingLookup m (va - va % (4096 * span k)) pml4).attributes = leafAttributes e := by
      have hpage : pageOf (va - va % (4096 * span k)) = v₀ - v₀ % span k := by
        have hr := Nat.mod_le v₀ (span k)
        rw [h.mod_span hk, h.va_eq, pageOf]
        rcases h.half with hb | hb <;> omega
      have hslot : (v₀ - v₀ % span k) / span k = v₀ / span k := by
        rw [← Nat.div_mul_self_eq_mod_sub_self, Nat.mul_div_cancel _ (span_pos k)]
      rw [pagingLookup_of_walk hpml4 (by rw [hpage]; exact walk_congr (by omega) hv hwk hslot)]
    rw [splitIf, if_pos hcond, hattr] at hno ⊢
    rw [h.va_eq] at hno ⊢
    rw [← hfin]
    exact splitLarge_split hk h.half hwf hpml4 hpos (by omega) hwk
      (fun hb => by have := h.low hb; omega) (hpart hl) hno
  · rw [splitIf, if_neg fun hc => hl hc.1]
    refine Split.refl (f := e >>> 12) ?_
    rw [tableAt, Radix.tableAt_of_entryAt he, if_pos]
    exact (isTable_middle hk0 hk2).mpr ⟨by simpa using hl, hpres⟩

/-- The table behind a slot after a split. -/
theorem Split.tableAt_succ {root k t : Nat} {m' : Machine} (h : Split root (k + 1) v₀ fin m m')
    (hk : k < 3) (ht : tableAt m.mem root (k + 1) (v₀ / span (k + 1) / 512) = some (t >>> 12)) :
    tableAt m'.mem root (k + 2) (v₀ / span (k + 1)) =
      some (addrOf (m'.read t (v₀ / span (k + 1) % 512)) >>> 12) := by
  rw [div_span_succ hk] at ht
  have ht' := h.tables k _ (Nat.lt_succ_self k) ht
  obtain ⟨f, hf⟩ := h.table
  obtain ⟨g, hg, -, rfl⟩ := Radix.tableAt_succ_eq_some.mp hf
  rw [div_span_succ hk] at hg
  obtain rfl := Option.some_inj.mp (ht'.symm.trans hg)
  rw [hf, addrOf_shiftRight]
  rfl

/-- The row of 4 KiB pages. -/
theorem destroyPt_outcome {pd : Nat} (h : Clearing base va pages v₀ fin) (hpos : 0 < pages)
    (hpml4 : pml4 ≠ 0) (hwf : WellFormed m₀ (pml4 >>> 12))
    (hopen : Opened (pml4 >>> 12) 2 v₀ fin m₀ m)
    (ht : tableAt m.mem (pml4 >>> 12) 2 (v₀ / span 2 / 512) = some (pd >>> 12))
    (hpart : v₀ % 512 ≠ 0 ∨ pages < 512) (hno : NoFail m (destroyPt pml4 va pages pd m).2) :
    Outcome (pml4 >>> 12) v₀ pages fin m₀ (destroyPt pml4 va pages pd m) := by
  have hpage := h.page hpos
  have hv := page_lt hpage
  have hfin := h.fin_eq
  have hle := h.fin_le
  have hwf' := hopen.steps.wellFormed hwf
  have he : entryAt m.mem (pml4 >>> 12) 2 (v₀ / span 2) = some (m.read pd (v₀ / span 2 % 512)) :=
    Radix.entryAt_eq_some ht
  obtain ⟨hcle, hrow, hn⟩ := clampCount_eq pages (Nat.mod_lt (v₀ / span 3) (by decide))
  have hmask : va &&& 0x1fffff = va % 0x200000 := and_mask_eq 21 va
  have hvirt := findAddress_pd (h.canonical hpos)
  rw [pdIndex_eq hpage] at hvirt
  rw [destroyPt] at hno ⊢
  simp only [pdIndex_eq hpage, ptIndex_eq hpage, hvirt, hmask] at hno ⊢
  generalize clampCount pages (v₀ / span 3 % 512) = n at hcle hrow hn hno ⊢
  split at hno
  · rename_i h0
    rw [if_pos h0]
    refine Or.inl ⟨rfl, ?_, hopen.steps⟩
    by_contra hw
    exact hopen.mapped hv (by omega) hw (walk_of_zero hv (by decide) he h0)
  · rename_i hne
    rw [if_neg hne]
    have hsplit := splitIf_split h hpos (Or.inr rfl) hwf' hpml4 he hne (fun _ => hpart)
      (noFail_of_fillEntries (fun _ _ _ h => h) hno)
    have hopen₁ := hopen.succ (by decide) hsplit
    have hfill := fill_unmapped (n := n) (by decide) (le_refl 3) (dropOk_keepEntry _) hopen₁
      (hopen₁.steps.wellFormed hwf) (by
        rw [div_span_succ (by decide)]
        exact hsplit.tableAt_succ (by decide) ht) (Nat.mod_one v₀) hrow (hn hpos)
      (by show v₀ + 1 * n ≤ _; omega) hle
    rw [show span 3 * n = n from Nat.one_mul n] at hfill
    exact Or.inr ⟨n, rfl, hn hpos, hcle, hfill⟩

/-- The branches below the page-directory-pointer table. -/
theorem destroyPd_outcome {pdpt : Nat} (h : Clearing base va pages v₀ fin) (hpos : 0 < pages)
    (hpml4 : pml4 ≠ 0) (hwf : WellFormed m (pml4 >>> 12))
    (ht : tableAt m.mem (pml4 >>> 12) 1 (v₀ / span 1 / 512) = some (pdpt >>> 12))
    (hne : m.read pdpt (v₀ / span 1 % 512) ≠ 0)
    (hpart : large (m.read pdpt (v₀ / span 1 % 512)) = true → v₀ % span 1 ≠ 0 ∨ pages < span 1)
    (hno : NoFail m (destroyPd pml4 (4096 * pages) va pages pdpt m).2) :
    Outcome (pml4 >>> 12) v₀ pages fin m (destroyPd pml4 (4096 * pages) va pages pdpt m) := by
  have hpage := h.page hpos
  have hfin := h.fin_eq
  have hle := h.fin_le
  have he : entryAt m.mem (pml4 >>> 12) 1 (v₀ / span 1) = some (m.read pdpt (v₀ / span 1 % 512)) :=
    Radix.entryAt_eq_some ht
  have hcount : 4096 * pages / 0x200000 = pages / 512 := by omega
  obtain ⟨hcle, hrow, hn⟩ := clampCount_eq (pages / 512) (Nat.mod_lt (v₀ / span 2) (by decide))
  have hmask₁ : va &&& 0x3fffffff = va % 0x40000000 := and_mask_eq 30 va
  have hmask₂ : va &&& 0x1fffff = 4096 * (v₀ % 512) :=
    (and_mask_eq 21 va).trans (h.mod_span (Or.inr rfl))
  rw [destroyPd, findAddress_pdpt (h.canonical hpos), hmask₁, hmask₂, hcount, pdptIndex_eq hpage,
    pdIndex_eq hpage] at hno ⊢
  simp only at hno ⊢
  generalize clampCount (pages / 512) (v₀ / span 2 % 512) = n at hcle hrow hn hno ⊢
  have hsplit := splitIf_split h hpos (Or.inl rfl) hwf hpml4 he hne hpart
  have hmono₁ := (closed_failures m.failures fun _ => True).splitIf (le_refl _) 262144
    (m.read pdpt (v₀ / span 1 % 512)) (va - va % 0x40000000) (va % 0x40000000) va pages pml4
  change NoFail m (splitIf 262144 _ (va - va % 0x40000000) (va % 0x40000000) va pages pml4 m) →
    Split _ _ _ _ m (splitIf 262144 _ (va - va % 0x40000000) (va % 0x40000000) va pages pml4 m)
    at hsplit
  generalize splitIf 262144 (m.read pdpt (v₀ / span 1 % 512)) (va - va % 0x40000000)
    (va % 0x40000000) va pages pml4 m = m₁ at hsplit hmono₁ hno ⊢
  have hopen := Opened.refl (pml4 >>> 12) v₀ fin m
  split at hno
  · rename_i hmb
    rw [if_pos hmb]
    have hsplit := hsplit (noFail_of_fillEntries (closed_failures _ fun _ => True).freePt hno)
    have hopen₁ := hopen.succ (by decide) hsplit
    have hfill := fill_unmapped (n := n) (by decide) (by decide) (dropOk_freePt _) hopen₁
      (hopen₁.steps.wellFormed hwf) (by
        rw [div_span_succ (by decide)]
        exact hsplit.tableAt_succ (by decide) ht) (by show v₀ % 512 = 0; omega) hrow (hn hmb.2)
      (by show v₀ + 512 * n ≤ _; omega) hle
    exact Or.inr ⟨512 * n, rfl, by have := hn hmb.2; omega, by omega, hfill⟩
  · rename_i hmb
    rw [if_neg hmb]
    have hmono := (closed_failures m₁.failures fun _ => True).destroyPt pml4 va pages
      (addrOf (m₁.read pdpt (v₀ / span 1 % 512))) (le_refl _)
    have hsplit := hsplit (hmono.trans hno)
    refine destroyPt_outcome h hpos hpml4 hwf (hopen.succ (by decide) hsplit) ?_ (by omega)
      (hno.trans hmono₁)
    rw [div_span_succ (by decide)]
    exact hsplit.tableAt_succ (by decide) ht

/-- **One iteration.** -/
theorem destroyChunk_outcome (h : Clearing base va pages v₀ fin) (hpos : 0 < pages)
    (hpml4 : pml4 ≠ 0) (hwf : WellFormed m (pml4 >>> 12)) (hgb : GbOk m (pml4 >>> 12))
    (hno : NoFail m (destroyChunk pml4 (4096 * pages) va pages m).2) :
    Outcome (pml4 >>> 12) v₀ pages fin m (destroyChunk pml4 (4096 * pages) va pages m) := by
  have hpage := h.page hpos
  have hfin := h.fin_eq
  have hle := h.fin_le
  have hv := page_lt hpage
  have he₀ : entryAt m.mem (pml4 >>> 12) 0 (v₀ / span 0) = some (m.read pml4 (v₀ / span 0 % 512)) :=
    entryAt_zero hv
  have hcount : 4096 * pages / 0x40000000 = pages / 262144 := by omega
  have hmask : va &&& 0x3fffffff = 4096 * (v₀ % 262144) :=
    (and_mask_eq 30 va).trans (h.mod_span (Or.inl rfl))
  obtain ⟨hcle, hrow, hn⟩ := clampCount_eq (pages / 262144) (Nat.mod_lt (v₀ / span 1) (by decide))
  rw [destroyChunk, pml4Index_eq hpage, pdptIndex_eq hpage] at hno ⊢
  simp only [hcount, hmask] at hno ⊢
  generalize clampCount (pages / 262144) (v₀ / span 1 % 512) = n at hcle hrow hn hno ⊢
  split at hno
  · rename_i h0
    rw [if_pos h0]
    exact Or.inl ⟨rfl, walk_of_zero hv (by decide) he₀ h0, Relation.ReflTransGen.refl⟩
  rename_i hne₀
  rw [if_neg hne₀]
  have ht : tableAt m.mem (pml4 >>> 12) 1 (v₀ / span 1 / 512) =
      some (addrOf (m.read pml4 (v₀ / span 0 % 512)) >>> 12) := by
    have hp := ((hwf.entries 0 _ _ (by decide) he₀).resolve_left hne₀).1
    rw [div_span_succ (by decide), tableAt, Radix.tableAt_of_entryAt he₀,
      if_pos (by simp [isTable, hp]), addrOf_shiftRight]
  have he₁ : entryAt m.mem (pml4 >>> 12) 1 (v₀ / span 1) =
      some (m.read (addrOf (m.read pml4 (v₀ / span 0 % 512))) (v₀ / span 1 % 512)) :=
    Radix.entryAt_eq_some ht
  split at hno
  · rename_i h1
    rw [if_pos h1]
    exact Or.inl ⟨rfl, walk_of_zero hv (by decide) he₁ h1, Relation.ReflTransGen.refl⟩
  rename_i hne₁
  rw [if_neg hne₁]
  split at hno
  · rename_i hcond
    rw [if_pos hcond]
    have hfill := fill_unmapped (n := n) (le_refl 1) (by decide) (dropOk_freePdpt _)
      (Opened.refl (pml4 >>> 12) v₀ fin m) hwf ht (by show v₀ % 262144 = 0; omega) hrow
      (hn hcond.2.2) (by show v₀ + 262144 * n ≤ _; omega) hle
    exact Or.inr ⟨262144 * n, rfl, by have := hn hcond.2.2; omega, by omega, hfill⟩
  · rename_i hcond
    rw [if_neg hcond]
    refine destroyPd_outcome h hpos hpml4 hwf ht hne₁ (fun hl => ?_) hno
    -- a 1 GiB page is there only when the processor has them, and then the branch above takes it
    -- where the range covers it
    have hp := ((hwf.entries 1 _ _ (by decide) he₁).resolve_left hne₁).1
    have hleaf := (isLeaf_middle (le_refl 1) (by decide)).mpr ⟨hl, hp⟩
    have hwalk := walk_of_entryAt hv (by decide) he₁ (isTable_of_isLeaf 1 _ hleaf)
    rw [leafWalk, if_pos hleaf] at hwalk
    have hsupport := hgb _ _ hv hwalk
    show v₀ % 262144 ≠ 0 ∨ pages < 262144
    omega

/-! ## The loop -/

/-- What is left to clear after `n` pages. -/
theorem Clearing.advance (h : Clearing base va pages v₀ fin) {n : Nat} (hn : n ≤ pages) :
    Clearing base (va + 4096 * n) (pages - n) (v₀ + n) fin := by
  have hva := h.va_eq
  have hfin := h.fin_eq
  refine ⟨h.half, by omega, h.low, fun hb => ?_, by omega, h.fin_le⟩
  have := h.high hb
  omega

theorem Clearing.end_lt (h : Clearing base va pages v₀ fin) : va + 4096 * pages < 2 ^ 64 := by
  have hva := h.va_eq
  have hfin := h.fin_eq
  have hle := h.fin_le
  rw [lastPage] at hle
  rcases h.half with hb | hb <;> omega

/-- **The rule for the loop.**  `I` is kept from iteration to iteration and `E` holds after an
iteration that returns. -/
theorem destroyLoop_rule {virtualEnd : Nat} {I : Nat → Nat → Machine → Prop} {E : Machine → Prop}
    (hstep : ∀ va pages v₀ m, Clearing base va pages v₀ fin → 0 < pages → I v₀ pages m →
      NoFail m (destroyChunk pml4 (4096 * pages) va pages m).2 →
      match destroyChunk pml4 (4096 * pages) va pages m with
      | (none, m') => E m'
      | (some n, m') => 0 < n ∧ n ≤ pages ∧ I (v₀ + n) (pages - n) m') :
    ∀ (fuel va pages v₀ : Nat) (m : Machine), Clearing base va pages v₀ fin → pages ≤ fuel →
      va + 4096 * pages = virtualEnd → I v₀ pages m →
      NoFail m (destroyLoop pml4 virtualEnd fuel va pages m) →
      I fin 0 (destroyLoop pml4 virtualEnd fuel va pages m) ∨
        E (destroyLoop pml4 virtualEnd fuel va pages m)
  | 0, va, pages, v₀, m, h, hfuel, hend, hI, hno => by
    obtain ⟨rfl, rfl⟩ : pages = 0 ∧ v₀ = fin := by
      have := h.fin_eq
      omega
    exact Or.inl hI
  | fuel + 1, va, pages, v₀, m, h, hfuel, hend, hI, hno => by
    have hfin := h.fin_eq
    rw [destroyLoop] at hno ⊢
    split
    · rename_i hva
      have hsize : virtualEnd - va = 4096 * pages := by omega
      have hmono := (closed_failures m.failures fun _ => True).destroyChunk pml4 (4096 * pages) va
        pages (le_refl _)
      rw [if_pos hva, hsize] at hno
      rw [hsize]
      have hchunk := hstep va pages v₀ m h (by omega) hI
      generalize destroyChunk pml4 (4096 * pages) va pages m = c at hno hmono hchunk ⊢
      obtain ⟨count, m₁⟩ := c
      cases count with
      | none => exact Or.inr (hchunk hno)
      | some n =>
        have hmono₁ := (closed_failures m₁.failures fun _ => True).destroyLoop pml4 virtualEnd fuel
          ((va + 4096 * n) % 2 ^ 64) (subU64 pages n) m₁ (le_refl _)
        obtain ⟨hpos, hnle, hI'⟩ := hchunk (hmono₁.trans hno)
        have hva' := h.end_lt
        have hsub : subU64 pages n = pages - n := by
          rw [subU64]
          omega
        have hnext : (va + 4096 * n) % 2 ^ 64 = va + 4096 * n := Nat.mod_eq_of_lt (by omega)
        simp only [hsub, hnext] at hno ⊢
        exact destroyLoop_rule hstep fuel _ _ _ m₁ (h.advance hnle) (by omega) (by omega) hI'
          (hno.trans hmono)
    · obtain ⟨rfl, rfl⟩ : pages = 0 ∧ v₀ = fin := by omega
      exact Or.inl hI

/-- The same for the call. -/
theorem destroyMapping_rule {I : Nat → Nat → Machine → Prop} {E : Machine → Prop}
    (hstep : ∀ va pages v₀ m, Clearing base va pages v₀ fin → 0 < pages → I v₀ pages m →
      NoFail m (destroyChunk pml4 (4096 * pages) va pages m).2 →
      match destroyChunk pml4 (4096 * pages) va pages m with
      | (none, m') => E m'
      | (some n, m') => 0 < n ∧ n ≤ pages ∧ I (v₀ + n) (pages - n) m')
    (hpml4 : pml4 ≠ 0) (h : Clearing base va pages v₀ fin) (hI : I v₀ pages m)
    (hno : NoFail m (destroyMapping m va pages pml4)) :
    I fin 0 (destroyMapping m va pages pml4) ∨ E (destroyMapping m va pages pml4) := by
  rw [destroyMapping] at hno ⊢
  split
  · obtain ⟨rfl, rfl⟩ : pages = 0 ∧ v₀ = fin := by
      have := h.fin_eq
      omega
    exact Or.inl hI
  · rename_i hcond
    rw [if_neg hcond, Nat.mod_eq_of_lt h.end_lt] at hno
    rw [Nat.mod_eq_of_lt h.end_lt]
    exact destroyLoop_rule hstep pages va pages v₀ m h (le_refl _) rfl hI hno

/-- **`destroy_mapping` clears its range**, when the range does not end with the address space. -/
theorem destroyMapping_unmapped (h : Clearing base va pages v₀ fin) (hpml4 : pml4 ≠ 0)
    (hwf : WellFormed m (pml4 >>> 12)) (hgb : GbOk m (pml4 >>> 12))
    (hmap : ∀ v, v₀ ≤ v → v < fin → walk m.mem (pml4 >>> 12) v ≠ none)
    (hno : NoFail m (destroyMapping m va pages pml4)) :
    Unmapped (pml4 >>> 12) v₀ fin fin m (destroyMapping m va pages pml4) := by
  have hfin := h.fin_eq
  have hrule := destroyMapping_rule (E := fun _ => False)
    (I := fun v _ m' => v₀ ≤ v ∧ Unmapped (pml4 >>> 12) v₀ v fin m m') (fun va' pages' v m' hc hpos hI hno' => ?_)
    hpml4 h ⟨le_refl _, Unmapped.refl _ _ _ _⟩ hno
  · exact (hrule.resolve_right id).2
  · obtain ⟨hv, hun⟩ := hI
    have hfin' := hc.fin_eq
    have hout := destroyChunk_outcome hc hpos hpml4 (hun.steps.wellFormed hwf)
      (hun.steps.gbOk hwf hgb) hno'
    generalize destroyChunk pml4 (4096 * pages') va' pages' m' = c at hout
    rcases hout with ⟨-, hnone, -⟩ | ⟨n, hn, hpos', hle, hun'⟩
    · exact absurd hnone (hun.mapped hc.fin_le hmap (le_refl _) hv (by omega))
    · obtain ⟨count, m₁⟩ := c
      obtain rfl : count = some n := hn
      have hle' := hc.fin_le
      exact ⟨hpos', hle, by omega, Unmapped.trans hv (by omega) (by omega) hun hun'⟩

/-- What `destroy_mapping` does is a run of steps, whether the range is mapped or not. -/
theorem destroyMapping_steps (h : Clearing base va pages v₀ fin) (hpml4 : pml4 ≠ 0)
    (hwf : WellFormed m (pml4 >>> 12)) (hgb : GbOk m (pml4 >>> 12))
    (hno : NoFail m (destroyMapping m va pages pml4)) :
    Steps (pml4 >>> 12) m (destroyMapping m va pages pml4) := by
  have hrule := destroyMapping_rule (E := fun m' => Steps (pml4 >>> 12) m m')
    (I := fun _ _ m' => Steps (pml4 >>> 12) m m') (fun va' pages' v m' hc hpos hsteps hno' => ?_)
    hpml4 h Relation.ReflTransGen.refl hno
  · exact hrule.elim id id
  · have hout := destroyChunk_outcome hc hpos hpml4 (hsteps.wellFormed hwf) (hsteps.gbOk hwf hgb) hno'
    generalize destroyChunk pml4 (4096 * pages') va' pages' m' = c at hout
    obtain ⟨count, m₁⟩ := c
    rcases hout with ⟨hn, -, hs⟩ | ⟨n, hn, hpos', hle, hun⟩
    · obtain rfl : count = none := hn
      exact hsteps.trans hs
    · obtain rfl : count = some n := hn
      exact ⟨hpos', hle, hsteps.trans hun.steps⟩

end

end Dem64
