import Dem64.Paging.Mapping

/-!
# Who may use a mapping

The processor lets a user program write to a page if the present, the writable and the user bit are set in
every entry that it reads on its way to the page.  `create_mapping` puts the attributes it is asked for into
the leaves and into the entries of the tables it makes, but it takes the tables it finds as they are.

A table that is found is on the way to a page if the page gets a leaf further down.  How far down the leaf is
follows from the range alone (`leafDepth`), and so the pages of the range are open to user programs if and
only if the entries of the tables on these ways were open before (`createMapping_grants_iff`).
-/

set_option autoImplicit false

namespace Dem64

/-- The entries that the processor reads on its walk to page `v`. -/
def walkEntries (mem : Nat → Nat → Nat) (root v : Nat) : List Nat :=
  let e₀ := mem root (v / 2 ^ 27 % 512)
  let e₁ := mem (e₀ >>> 12) (v / 2 ^ 18 % 512)
  let e₂ := mem (e₁ >>> 12) (v / 512 % 512)
  let e₃ := mem (e₂ >>> 12) (v % 512)
  if present e₀ then
    if present e₁ && !large e₁ then
      if present e₂ && !large e₂ then [e₀, e₁, e₂, e₃] else [e₀, e₁, e₂]
    else [e₀, e₁]
  else [e₀]

/-- The present, the writable and the user bit are set in all entries of the walk to an address. -/
def Granted (mem : Nat → Nat → Nat) (root va : Nat) : Prop :=
  Canonical va ∧ ∀ e ∈ walkEntries mem root (pageOf va), e &&& 7 = 7

instance (mem : Nat → Nat → Nat) (root va : Nat) : Decidable (Granted mem root va) :=
  inferInstanceAs (Decidable (_ ∧ _))

/-- The slot `(j, q)` holds the table entry `e`. -/
def TableEntry (mem : Nat → Nat → Nat) (root j q e : Nat) : Prop :=
  entryAt mem root j q = some e ∧ isTable j e = true

instance (lo hi j p : Nat) : Decidable (Within lo hi j p) := inferInstanceAs (Decidable (_ ∧ _))

/-- The depth of the leaf for the `i`-th page of a range of `pages` pages from `v₀` on that is mapped to the
pages from `p₀` on: the leaf is as large as the two addresses and the ends of the range allow. -/
def leafDepth (v₀ p₀ pages gb i : Nat) : Nat :=
  if gb = 1 ∧ v₀ % span 1 = p₀ % span 1 ∧ Within v₀ (v₀ + pages) 1 ((v₀ + i) / span 1) then 1
  else if v₀ % span 2 = p₀ % span 2 ∧ Within v₀ (v₀ + pages) 2 ((v₀ + i) / span 2) then 2
  else 3

/-! ## The walk in terms of slots -/

section

variable {mem : Nat → Nat → Nat} {root v e j q k : Nat} {m m' : Machine}

theorem and_seven_eq (e : Nat) : e &&& 7 = e % 8 := Nat.and_two_pow_sub_one_eq_mod e 3

/-- The processor reads the entries of the slots of the page. -/
theorem mem_walkEntries (hv : v < 2 ^ 36) :
    e ∈ walkEntries mem root v ↔ ∃ k, k ≤ 3 ∧ entryAt mem root k (v / span k) = some e := by
  have h0 : entryAt mem root 0 (v / span 0) = some (mem root (v / 2 ^ 27 % 512)) := entryAt_zero hv
  have hslots : (∃ k, k ≤ 3 ∧ entryAt mem root k (v / span k) = some e) ↔
      entryAt mem root 0 (v / span 0) = some e ∨ entryAt mem root 1 (v / span 1) = some e ∨
        entryAt mem root 2 (v / span 2) = some e ∨ entryAt mem root 3 (v / span 3) = some e := by
    constructor
    · rintro ⟨k, hk, h⟩
      obtain rfl | rfl | rfl | rfl : k = 0 ∨ k = 1 ∨ k = 2 ∨ k = 3 := by omega
      · exact Or.inl h
      · exact Or.inr (Or.inl h)
      · exact Or.inr (Or.inr (Or.inl h))
      · exact Or.inr (Or.inr (Or.inr h))
    · rintro (h | h | h | h)
      · exact ⟨0, by decide, h⟩
      · exact ⟨1, by decide, h⟩
      · exact ⟨2, by decide, h⟩
      · exact ⟨3, le_refl 3, h⟩
  -- behind an entry that is no table there are no slots
  have hnone : ∀ {k x}, k < 3 → entryAt mem root k (v / span k) = none ∨
      (entryAt mem root k (v / span k) = some x ∧ isTable k x = false) →
      entryAt mem root (k + 1) (v / span (k + 1)) = none := by
    rintro k x hk (h | ⟨h, hx⟩)
    · refine Radix.entryAt_eq_none ?_
      rw [div_span_succ hk, Radix.tableAt]
      obtain h | ⟨f, h'⟩ := Option.eq_none_or_eq_some (Radix.tableAt isTable (· >>> 12) mem root k (v / span k / 512))
      · rw [h]
        rfl
      · rw [entryAt, Radix.entryAt_eq_some h'] at h
        exact absurd h (by simp)
    · rw [entryAt_succ (by rwa [div_span_succ hk]), hx]
      rfl
  have hsome : ∀ {k x}, k < 3 → entryAt mem root k (v / span k) = some x → isTable k x = true →
      entryAt mem root (k + 1) (v / span (k + 1)) = some (mem (x >>> 12) (v / span (k + 1) % 512)) := by
    intro k x hk h hx
    rw [entryAt_succ (by rwa [div_span_succ hk]), hx]
    rfl
  rw [hslots, h0, walkEntries]
  generalize mem root (v / 2 ^ 27 % 512) = e₀ at h0 ⊢
  by_cases p0 : isTable 0 e₀ = true
  · have h1 := hsome (by decide) h0 p0
    have p0' : present e₀ = true := by simpa [isTable] using p0
    change _ = some (mem (e₀ >>> 12) (v / 2 ^ 18 % 512)) at h1
    rw [if_pos p0', h1]
    generalize mem (e₀ >>> 12) (v / 2 ^ 18 % 512) = e₁ at h1 ⊢
    by_cases p1 : isTable 1 e₁ = true
    · have h2 := hsome (by decide) h1 p1
      change _ = some (mem (e₁ >>> 12) (v / 512 % 512)) at h2
      obtain ⟨l1, p1'⟩ := (isTable_middle (le_refl 1) (by decide)).mp p1
      rw [if_pos (by rw [p1', l1]; rfl), h2]
      generalize mem (e₁ >>> 12) (v / 512 % 512) = e₂ at h2 ⊢
      by_cases p2 : isTable 2 e₂ = true
      · have h3 := hsome (by decide) h2 p2
        obtain ⟨l2, p2'⟩ := (isTable_middle (by decide) (le_refl 2)).mp p2
        rw [show v / span 3 % 512 = v % 512 by rw [show span 3 = 1 from rfl, Nat.div_one]] at h3
        rw [if_pos (by rw [p2', l2]; rfl), h3]
        simp [eq_comm]
      · have h3 := hnone (by decide) (Or.inr ⟨h2, by simpa using p2⟩)
        have p2' := mt (isTable_middle (by decide) (le_refl 2)).mpr p2
        rw [if_neg (by simpa [and_comm] using p2'), h3]
        simp [eq_comm]
    · have h2 := hnone (by decide) (Or.inr ⟨h1, by simpa using p1⟩)
      have h3 := hnone (x := 0) (by decide) (Or.inl h2)
      have p1' := mt (isTable_middle (le_refl 1) (by decide)).mpr p1
      rw [if_neg (by simpa [and_comm] using p1'), h2, h3]
      simp [eq_comm]
  · have h1 := hnone (by decide) (Or.inr ⟨h0, by simpa using p0⟩)
    have h2 := hnone (x := 0) (by decide) (Or.inl h1)
    have h3 := hnone (x := 0) (by decide) (Or.inl h2)
    have p0' : ¬ present e₀ = true := by simpa [isTable] using p0
    rw [if_neg p0', h1, h2, h3]
    simp [eq_comm]

/-! ## Table entries that are found and that are made -/

/-- From `m` to `m'` the table entries of the slots in `keep` stay, and those that are new are open. -/
structure Shares (root : Nat) (keep : Nat → Nat → Prop) (m m' : Machine) : Prop where
  /-- A table entry was there or is open. -/
  old : ∀ j q e, j ≤ 2 → TableEntry m'.mem root j q e → TableEntry m.mem root j q e ∨ e % 8 = 7
  /-- Table entries stay. -/
  kept : ∀ j q e, j ≤ 2 → keep j q → TableEntry m.mem root j q e → TableEntry m'.mem root j q e

variable {keep keep' : Nat → Nat → Prop} {m₁ : Machine}

theorem Shares.refl (root : Nat) (keep : Nat → Nat → Prop) (m : Machine) : Shares root keep m m where
  old _ _ _ _ h := Or.inl h
  kept _ _ _ _ _ h := h

theorem Shares.trans (h : Shares root keep m m₁) (h' : Shares root keep m₁ m') : Shares root keep m m' where
  old j q e hj he := (h'.old j q e hj he).elim (h.old j q e hj) Or.inr
  kept j q e hj hk he := h'.kept j q e hj hk (h.kept j q e hj hk he)

theorem Shares.mono (h : Shares root keep m m') (hkeep : ∀ j q, keep' j q → keep j q) :
    Shares root keep' m m' where
  old := h.old
  kept j q e hj hk he := h.kept j q e hj (hkeep j q hk) he

theorem TableEntry.tableAt_eq (h : TableEntry mem root j q e) : tableAt mem root (j + 1) q = some (e >>> 12) := by
  rw [tableAt, Radix.tableAt_of_entryAt h.1, if_pos h.2]

/-- A leaf in place of a slot. -/
theorem LeafEdit.shares {e' : Nat} (hwf : WellFormed m root) (h : LeafEdit root k q e' m m') :
    Shares root (fun j p => ¬ Radix.Below k q j p) m m' := by
  obtain ⟨f, hedit, -⟩ := h.edit
  have hsame : ∀ j p, j ≤ 2 → ¬ Radix.Below k q j p → entryAt m'.mem root j p = entryAt m.mem root j p :=
    fun j p hj hb => Radix.entryAt_eq_of_edit hwf.separated h.depth_le hedit (by omega) hb
  refine ⟨fun j p e hj he => ?_, fun j p e hj hb he => ⟨(hsame j p hj hb).trans he.1, he.2⟩⟩
  by_cases hb : Radix.Below k q j p
  · -- there is no table entry in the slot or below it
    rcases Nat.eq_or_lt_of_le hb.1 with rfl | hlt
    · obtain rfl := Radix.below_eq hb
      have heq := (h.entryAt_slot hwf).symm.trans he.1
      rw [← Option.some_inj.mp heq] at he
      exact absurd he.2 (by simp [h.notTable])
    · have hnone : tableAt m'.mem root (j + 1) p = none :=
        h.tableAt_eq_none hwf ⟨j, rfl, hb⟩
      rw [he.tableAt_eq] at hnone
      exact absurd hnone (by simp)
  · exact Or.inl ⟨(hsame j p hj hb).symm.trans he.1, he.2⟩

/-- A new table whose entry is open. -/
theorem TableEdit.shares {g : Nat} (hwf : WellFormed m root) (h : TableEdit root k q g m m')
    (hopen : ∀ e, entryAt m'.mem root k q = some e → e % 8 = 7) : Shares root keep m m' := by
  have hk := h.depth_le
  obtain ⟨f, hedit, -⟩ := h.edit
  have hsame : ∀ j p, j ≤ 2 → ¬ Radix.Below k q j p → entryAt m'.mem root j p = entryAt m.mem root j p :=
    fun j p hj hb => Radix.entryAt_eq_of_edit hwf.separated (by omega) hedit (by omega) hb
  refine ⟨fun j p e hj he => ?_, fun j p e hj _ he => ⟨?_, he.2⟩⟩
  · by_cases hb : Radix.Below k q j p
    · rcases Nat.eq_or_lt_of_le hb.1 with rfl | hlt
      · obtain rfl := Radix.below_eq hb
        exact Or.inr (hopen e he.1)
      · have hnone := (h.tableAt_under hwf).2 j p hb (by omega)
        rw [he.tableAt_eq] at hnone
        exact absurd hnone (by simp)
    · exact Or.inl ⟨(hsame j p hj hb).symm.trans he.1, he.2⟩
  · by_cases hb : Radix.Below k q j p
    · -- the slot held no table, so there was none below it
      obtain ⟨i, rfl⟩ : ∃ i, j = k + i := ⟨j - k, by have := hb.1; omega⟩
      have htab := he.tableAt_eq
      rw [show k + i + 1 = k + 1 + i by omega] at htab
      obtain ⟨g', hg'⟩ := Radix.exists_tableAt_prefix i htab
      have hq := hb.2
      rw [Nat.add_sub_cancel_left] at hq
      exact absurd (hq ▸ hg') (h.vacant g')
    · exact (hsame j p hj hb).trans he.1

/-- One level down the tables that are missing are made with open entries. -/
theorem ensure_shares {v₀ t attributes : Nat} (hwf : WellFormed m root) (hk : k ≤ 2)
    (ht : tableAt m.mem root k (v₀ / span k / 512) = some (t >>> 12)) (ha : attributes % 8 = 7)
    (hm' : m' = if isTable k (m.read t (v₀ / span k % 512)) = true then m
      else newTable attributes t (v₀ / span k % 512) m) (hno : NoFail m m') : Shares root keep m m' := by
  by_cases hold : isTable k (m.read t (v₀ / span k % 512)) = true
  · rw [if_pos hold] at hm'
    subst hm'
    exact Shares.refl root keep _
  · rw [if_neg hold] at hm'
    subst hm'
    rw [Bool.not_eq_true] at hold
    have hok := allocFrame_attr_of_noFail hno
    have hodd : attributes % 2 = 1 := by omega
    have hg := tableEdit_newTable hwf hk ht hold hodd hok
    refine hg.shares hwf fun e he => ?_
    obtain ⟨f, hedit, -⟩ := hg.edit
    obtain rfl := Option.some_inj.mp (ht.symm.trans hedit.table)
    rw [entryAt, Radix.entryAt_eq_some (hedit.table_after hwf.separated (by omega)), Option.some_inj] at he
    obtain ⟨g, -, hpage, -⟩ := allocPages_ok hok
    have hself : (newTable attributes t (v₀ / span k % 512) m).mem (t >>> 12) (v₀ / span k % 512) =
      (allocPages m 1).1 ||| (attributes &&& 0x07) := store_mem_self _ _ _ _
    rw [hself, and_seven_eq, or_eq_add (by omega) (by omega)] at he
    omega

/-- A row of leaves takes the place of what is in its slots and below them. -/
theorem fillEntries_shares {drop : Nat → Nat → Machine → Machine} (hdrop : DropOk root k drop) (hk0 : 1 ≤ k)
    (hk : k ≤ 3) (leaf : Nat → Nat) (step : Nat) {p t : Nat} : ∀ (n i pa : Nat) (m : Machine),
      WellFormed m root → tableAt m.mem root k p = some (t >>> 12) → i + n ≤ 512 → pa < 2 ^ 64 →
      (∀ j, j < n → Writable m.gbPageSupport k (leaf ((pa + step * j) % 2 ^ 64))) →
      Shares root (fun j r => ¬ (k ≤ j ∧ Within ((p * 512 + i) * span k) ((p * 512 + i + n) * span k) j r)) m
        (fillEntries drop leaf step t n i pa m)
  | 0, i, pa, m, _, _, _, _, _ => Shares.refl _ _ m
  | n + 1, i, pa, m, hwf, ht, hi, hpa, hleaf => by
    have hdiv : (p * 512 + i) / 512 = p := by omega
    have hmod : (p * 512 + i) % 512 = i := by omega
    have ht' : tableAt m.mem root k ((p * 512 + i) / 512) = some (t >>> 12) := by rwa [hdiv]
    have he : Writable m.gbPageSupport k (leaf pa) := by
      have h := hleaf 0 (by omega)
      rwa [Nat.mul_zero, Nat.add_zero, Nat.mod_eq_of_lt hpa] at h
    have hstep := slotStep_fill hdrop hk0 hk ht' he
    have hedit := hstep.leafEdit hwf ht' he.notTable
    rw [hmod] at hstep hedit
    rw [fillEntries]
    generalize hm₁ : Machine.store _ t i (leaf pa) = m₁ at hstep hedit ⊢
    obtain ⟨f, hf, -⟩ := hedit.edit
    have hafter := hf.table_after hwf.separated hk
    obtain rfl := Option.some_inj.mp (ht'.symm.trans hf.table)
    rw [hdiv] at hafter
    have hshift : ∀ j, ((pa + step) % 2 ^ 64 + step * j) % 2 ^ 64 = (pa + step * (j + 1)) % 2 ^ 64 := by
      intro j
      rw [Nat.mod_add_mod, Nat.mul_succ]
      congr 1
      omega
    have hrest := fillEntries_shares hdrop hk0 hk leaf step n (i + 1) ((pa + step) % 2 ^ 64) m₁
      (hstep.wellFormed hwf) hafter (by omega) (Nat.mod_lt _ (by decide)) (by
        intro j hj
        rw [hstep.gbPageSupport, hshift]
        exact hleaf (j + 1) (by omega))
    have hwithin : ∀ {x y j r}, p * 512 + i ≤ x → y ≤ p * 512 + i + (n + 1) →
        Within (x * span k) (y * span k) j r →
        Within ((p * 512 + i) * span k) ((p * 512 + i + (n + 1)) * span k) j r := fun hx hy h =>
      ⟨(Nat.mul_le_mul_right _ hx).trans h.1, h.2.trans (Nat.mul_le_mul_right _ hy)⟩
    refine ⟨fun j r e hj he => ?_, fun j r e hj hout he => ?_⟩
    · exact (hrest.old j r e hj he).elim ((hedit.shares hwf).old j r e hj) Or.inr
    · refine hrest.kept j r e hj (fun hc => hout ⟨hc.1, hwithin (by omega) (by omega) hc.2⟩) ?_
      refine (hedit.shares hwf).kept j r e hj (fun hb => hout ⟨hb.1, ?_⟩) he
      exact hwithin (le_refl _) (by omega) (within_of_below (by omega) hb)

end

/-! ## One iteration -/

/-- The depth of the leaves that an iteration writes and the number of its pages, for `pages` pages from `v₀`
on that are mapped to the pages from `p₀` on. -/
inductive Chosen (gb v₀ p₀ pages : Nat) : Nat → Nat → Prop
  /-- 1 GiB pages. -/
  | gb {c : Nat} (hgb : gb = 1) (hv : v₀ % 262144 = 0) (hp : p₀ % 262144 = 0) (hc : 262144 * c ≤ pages) :
      Chosen gb v₀ p₀ pages 1 (262144 * c)
  /-- 2 MiB pages, up to the end of the page directory or of the range. -/
  | mb {c : Nat} (hno : ¬ (gb = 1 ∧ v₀ % 262144 = 0 ∧ p₀ % 262144 = 0 ∧ 262144 ≤ pages)) (hv : v₀ % 512 = 0)
      (hp : p₀ % 512 = 0) (hc : 512 * c ≤ pages) (hrow : v₀ % 262144 + 512 * c ≤ 262144)
      (hlast : pages - 512 * c < 512 ∨ (v₀ + 512 * c) % 262144 = 0) : Chosen gb v₀ p₀ pages 2 (512 * c)
  /-- 4 KiB pages, up to the end of the page table or of the range. -/
  | kb {c : Nat} (hno : ¬ (gb = 1 ∧ v₀ % 262144 = 0 ∧ p₀ % 262144 = 0 ∧ 262144 ≤ pages))
      (hno' : ¬ (v₀ % 512 = 0 ∧ p₀ % 512 = 0 ∧ 512 ≤ pages)) (hc : c ≤ pages) (hrow : v₀ % 512 + c ≤ 512)
      (hlast : c = pages ∨ (v₀ + c) % 512 = 0) : Chosen gb v₀ p₀ pages 3 c

/-- The pages from `v₀` on, `n` of them, have leaves of depth `D`.  The tables that do not lie behind these
leaves stay, and those that are new are open. -/
structure Laid (root D v₀ n : Nat) (m m' : Machine) : Prop where
  /-- Tables stay or are open. -/
  shares : Shares root (fun j q => ¬ (D ≤ j ∧ Within v₀ (v₀ + n) j q)) m m'
  /-- The leaves. -/
  leaf : ∀ v, v₀ ≤ v → v < v₀ + n → ∃ e, walk m'.mem root v = some (D, e)

section

variable {root attributes va pa pages v₀ : Nat} {m₀ m : Machine}

theorem fill_laid {k n t : Nat} {drop : Nat → Nat → Machine → Machine} {leaf : Nat → Nat} (hk0 : 1 ≤ k)
    (hk : k ≤ 3) (hdrop : DropOk root k drop) (hshares : ∀ keep, Shares root keep m₀ m)
    (hwf : WellFormed m root) (ht : tableAt m.mem root k (v₀ / span k / 512) = some (t >>> 12))
    (hal : v₀ % span k = 0) (hrow : v₀ / span k % 512 + n ≤ 512) (hv : v₀ < 2 ^ 36)
    (hpa : pa % (4096 * span k) = 0) (hpa' : pa < 2 ^ 64) (hgb : k = 1 → m.gbPageSupport = 1)
    (hleaf : ∀ x, x % (4096 * span k) = 0 → x < 2 ^ 64 → LeafSpec k x attributes (leaf x)) :
    Laid root k v₀ (span k * n) m₀
      (fillEntries drop leaf (4096 * span k) t n (v₀ / span k % 512) pa m) := by
  have hwrite : ∀ j, j < n → Writable m.gbPageSupport k (leaf ((pa + 4096 * span k * j) % 2 ^ 64)) := by
    intro j _
    have hx := (leaf_page (d := j) hk0 hk hpa (span_pos k)).1
    exact (hleaf _ hx (Nat.mod_lt _ (by decide))).writable hk0 hx hgb
  obtain ⟨-, hwalk, -⟩ := fillEntries_spec hdrop hk0 hk leaf _ n _ pa m hwf ht hrow hpa' hwrite
  have hfill := fillEntries_shares hdrop hk0 hk leaf _ n _ pa m hwf ht hrow hpa' hwrite
  have hlo : v₀ / span k * span k = v₀ := Nat.div_mul_cancel (Nat.dvd_of_mod_eq_zero hal)
  have hhi : (v₀ / span k + n) * span k = v₀ + span k * n := by
    rw [Nat.add_mul, hlo, Nat.mul_comm n]
  have hend := row_le hk hv hrow
  rw [Nat.div_add_mod'] at hwalk hfill
  rw [hlo, hhi] at hfill
  refine ⟨(hshares _).trans hfill, fun v h1 h2 => ?_⟩
  have hq : v₀ / span k ≤ v / span k ∧ v / span k < v₀ / span k + n :=
    mem_row_iff.mpr (by rw [hlo, hhi]; exact ⟨h1, h2⟩)
  have hx := (leaf_page (d := v / span k - v₀ / span k) hk0 hk hpa (span_pos k)).1
  have hw := hwalk v (by omega)
  rw [if_pos hq, leafWalk, if_pos (hleaf _ hx (Nat.mod_lt _ (by decide))).leaf] at hw
  exact ⟨_, hw⟩

theorem or_mask_eq_zero_iff (n : Nat) : ((va &&& (2 ^ n - 1)) ||| (pa &&& (2 ^ n - 1)) = 0) ↔
    va % 2 ^ n = 0 ∧ pa % 2 ^ n = 0 := by
  rw [Nat.or_eq_zero_iff, and_mask_eq, and_mask_eq]

theorem clampCount_cases (count index : Nat) :
    clampCount count index = count ∨ clampCount count index = 512 - index := by
  rw [clampCount]
  split
  · exact Or.inr rfl
  · exact Or.inl rfl

/-- The row of 4 KiB pages. -/
theorem createPt_laid {pd : Nat} (hr : Request attributes pa) (ha : attributes % 8 = 7)
    (hpage : va / 4096 % 2 ^ 36 = v₀) (hwf : WellFormed m₀ root) (hens : Ensured root 2 v₀ m₀ m)
    (hshares : ∀ keep, Shares root keep m₀ m)
    (ht : tableAt m.mem root 2 (v₀ / span 2 / 512) = some (pd >>> 12))
    (hno : NoFail m (createPt attributes va pa pages pd m).2) :
    ∃ c, (createPt attributes va pa pages pd m).1 = c ∧ c ≤ pages ∧ v₀ % 512 + c ≤ 512 ∧
      (c = pages ∨ (v₀ + c) % 512 = 0) ∧ Laid root 3 v₀ c m₀ (createPt attributes va pa pages pd m).2 := by
  obtain ⟨hle, hrow, -⟩ := clampCount_eq pages (Nat.mod_lt (v₀ / span 3) (by decide))
  have hcases := clampCount_cases pages (v₀ / span 3 % 512)
  have h3 : v₀ / span 3 = v₀ := Nat.div_one v₀
  simp only [createPt, pdIndex_eq hpage, ptIndex_eq hpage] at hno ⊢
  generalize clampCount pages (v₀ / span 3 % 512) = n at hle hrow hcases hno ⊢
  generalize hm₁ : ensureTable attributes pd (v₀ / span 2 % 512) m = m₁ at hno ⊢
  have hwf' := hens.steps.wellFormed hwf
  have hensure : m₁ = if isTable 2 (m.read pd (v₀ / span 2 % 512)) = true then m
      else newTable attributes pd (v₀ / span 2 % 512) m := by
    rw [← hm₁]
    exact ensureTable_eq attributes (by decide) (le_refl 2)
      (hwf'.entries 2 _ _ (by decide) (Radix.entryAt_eq_some ht))
  have hno₁ := noFail_of_fillEntries (fun _ _ _ h => h) hno
  obtain ⟨hens₁, htab⟩ := hens.succ hwf' (le_refl 2) ht hr.attr_odd hensure hno₁
  have hfill := fill_laid (n := n) (by decide) (le_refl 3) (dropOk_keepEntry root)
    (fun keep => (hshares keep).trans (ensure_shares hwf' (le_refl 2) ht ha hensure hno₁))
    (hens₁.steps.wellFormed hwf) (by rwa [div_span_succ (by decide)]) (Nat.mod_one v₀) hrow
    (page_lt hpage) hr.aligned hr.lt (fun h => absurd h (by decide))
    fun x hx hx' => smallEntry_spec hx hx' hr.attr_lt hr.attr_odd
  rw [h3] at hrow hcases
  refine ⟨n, rfl, hle, by omega, by omega, ?_⟩
  rwa [show span 3 * n = n from Nat.one_mul n] at hfill

/-- The branches below the page-directory-pointer table. -/
theorem createPd_laid {pdpt gb : Nat} (hr : Request attributes pa) (ha : attributes % 8 = 7)
    (hva : va % 4096 = 0) (hpage : va / 4096 % 2 ^ 36 = v₀) (hwf : WellFormed m₀ root)
    (hens : Ensured root 1 v₀ m₀ m) (hshares : ∀ keep, Shares root keep m₀ m)
    (ht : tableAt m.mem root 1 (v₀ / span 1 / 512) = some (pdpt >>> 12))
    (hgb : ¬ (gb = 1 ∧ v₀ % 262144 = 0 ∧ pa / 4096 % 262144 = 0 ∧ 262144 ≤ pages))
    (hno : NoFail m (createPd attributes (4096 * pages) va pa pages pdpt m).2) :
    ∃ D, Chosen gb v₀ (pa / 4096) pages D (createPd attributes (4096 * pages) va pa pages pdpt m).1 ∧
      Laid root D v₀ (createPd attributes (4096 * pages) va pa pages pdpt m).1 m₀
        (createPd attributes (4096 * pages) va pa pages pdpt m).2 := by
  have hwf' := hens.steps.wellFormed hwf
  have hcount : 4096 * pages / 0x200000 = pages / 512 := by omega
  have hal := hr.aligned
  have hmask : ((va &&& 0x1fffff) ||| (pa &&& 0x1fffff) = 0) ↔ v₀ % 512 = 0 ∧ pa / 4096 % 512 = 0 := by
    refine (or_mask_eq_zero_iff 21).trans ?_
    omega
  obtain ⟨hle, hrow, -⟩ := clampCount_eq (pages / 512) (Nat.mod_lt (v₀ / span 2) (by decide))
  have hcases := clampCount_cases (pages / 512) (v₀ / span 2 % 512)
  simp only [createPd, hcount, hmask, pdIndex_eq hpage, pdptIndex_eq hpage] at hno ⊢
  generalize clampCount (pages / 512) (v₀ / span 2 % 512) = n at hle hrow hcases hno ⊢
  have hm₁ := ensureTable_eq attributes (by decide) (by decide)
    (hwf'.entries 1 _ _ (by decide) (Radix.entryAt_eq_some ht))
  have hmono₁ := (closed_failures _ fun _ => True).ensureTable (a := attributes) trivial pdpt
    (v₀ / span 1 % 512) (le_refl m.failures)
  generalize ensureTable attributes pdpt (v₀ / span 1 % 512) m = m₁ at hno hm₁ hmono₁ ⊢
  split at hno
  · rename_i hmb
    rw [if_pos hmb]
    have hno₁ := noFail_of_fillEntries (closed_failures _ fun _ => True).freePt hno
    obtain ⟨hens₁, htab⟩ := hens.succ hwf' (by decide) ht hr.attr_odd hm₁ hno₁
    have hfill := fill_laid (n := n) (by decide) (by decide) (dropOk_freePt root)
      (fun keep => (hshares keep).trans (ensure_shares hwf' (by decide) ht ha hm₁ hno₁))
      (hens₁.steps.wellFormed hwf) (by rwa [div_span_succ (by decide)]) hmb.1.1 hrow
      (page_lt hpage) (by show pa % (4096 * 512) = 0; omega) hr.lt (fun h => absurd h (by decide))
      fun x hx hx' => largeEntry_spec (by decide) (page_aligned hx) hx' hr.attr_lt hr.attr_odd
    have h2 : v₀ / span 2 % 512 = v₀ / 512 % 512 := rfl
    rw [h2] at hrow hcases
    exact ⟨2, Chosen.mb hgb hmb.1.1 hmb.1.2 (by omega) (by omega) (by omega), hfill⟩
  · rename_i hmb
    rw [if_neg hmb]
    have hmono := (closed_failures m₁.failures fun _ => True).createPt (a := attributes) trivial va pa
      pages (addrOf (m₁.read pdpt (v₀ / span 1 % 512))) (le_refl _)
    have hno₁ : NoFail m m₁ := hmono.trans hno
    obtain ⟨hens₁, htab⟩ := hens.succ hwf' (by decide) ht hr.attr_odd hm₁ hno₁
    obtain ⟨c, hc, hcle, hcrow, hlast, hlaid⟩ := createPt_laid hr ha hpage hwf hens₁
      (fun keep => (hshares keep).trans (ensure_shares hwf' (by decide) ht ha hm₁ hno₁))
      (by rwa [div_span_succ (by decide)]) (hno.trans hmono₁)
    rw [hc]
    exact ⟨3, Chosen.kb hgb (by omega) hcle hcrow hlast, hlaid⟩

/-- **One iteration.** -/
theorem createChunk_laid {pml4 : Nat} (hr : Request attributes pa) (ha : attributes % 8 = 7)
    (hva : va % 4096 = 0) (hpage : va / 4096 % 2 ^ 36 = v₀) (hwf : WellFormed m (pml4 >>> 12))
    (hno : NoFail m (createChunk attributes pml4 (4096 * pages) va pa pages m).2) :
    ∃ D, Chosen m.gbPageSupport v₀ (pa / 4096) pages D
        (createChunk attributes pml4 (4096 * pages) va pa pages m).1 ∧
      Laid (pml4 >>> 12) D v₀ (createChunk attributes pml4 (4096 * pages) va pa pages m).1 m
        (createChunk attributes pml4 (4096 * pages) va pa pages m).2 := by
  have hcount : 4096 * pages / 0x40000000 = pages / 262144 := by omega
  have hv := page_lt hpage
  have hal := hr.aligned
  have hmask : ((va &&& 0x3fffffff) ||| (pa &&& 0x3fffffff) = 0) ↔
      v₀ % 262144 = 0 ∧ pa / 4096 % 262144 = 0 := by
    refine (or_mask_eq_zero_iff 30).trans ?_
    omega
  have ht : tableAt m.mem (pml4 >>> 12) 0 (v₀ / span 0 / 512) = some (pml4 >>> 12) := by
    have h0 : v₀ / span 0 / 512 = 0 := by
      show v₀ / 2 ^ 27 / 512 = 0
      omega
    rw [h0]
    rfl
  obtain ⟨hle, hrow, -⟩ := clampCount_eq (pages / 262144) (Nat.mod_lt (v₀ / span 1) (by decide))
  simp only [createChunk, hcount, hmask, pdptIndex_eq hpage, pml4Index_eq hpage] at hno ⊢
  generalize clampCount (pages / 262144) (v₀ / span 1 % 512) = n at hle hrow hno ⊢
  have hm₁ := ensurePdpt_eq attributes
    (hwf.entries 0 _ _ (by decide) (Radix.entryAt_eq_some ht))
  have hens := Ensured.refl (pml4 >>> 12) v₀ m
  have hmono₁ := (closed_failures _ fun _ => True).ensurePdpt (a := attributes) trivial pml4
    (v₀ / span 0 % 512) (le_refl m.failures)
  have hsame : (ensurePdpt attributes pml4 (v₀ / span 0 % 512) m).gbPageSupport = m.gbPageSupport :=
    (closed_gbPageSupport m.gbPageSupport fun _ => True).ensurePdpt (a := attributes) trivial _ _ rfl
  generalize ensurePdpt attributes pml4 (v₀ / span 0 % 512) m = m₁ at hno hm₁ hmono₁ hsame ⊢
  rw [hsame] at hno ⊢
  split at hno
  · rename_i hgb
    rw [if_pos hgb]
    have hno₁ := noFail_of_fillEntries (closed_failures _ fun _ => True).freePdpt hno
    obtain ⟨hens₁, htab⟩ := hens.succ hwf (by decide) ht hr.attr_odd hm₁ hno₁
    have hfill := fill_laid (n := n) (by decide) (by decide) (dropOk_freePdpt _)
      (fun keep => ensure_shares hwf (by decide) ht ha hm₁ hno₁)
      (hens₁.steps.wellFormed hwf) (by rwa [div_span_succ (by decide)]) hgb.1.1 hrow hv
      (by show pa % (4096 * 262144) = 0; omega) hr.lt (fun _ => hsame.trans hgb.2.1)
      fun x hx hx' => largeEntry_spec (by decide) (page_aligned hx) hx' hr.attr_lt hr.attr_odd
    exact ⟨1, Chosen.gb hgb.2.1 hgb.1.1 hgb.1.2 (by omega), hfill⟩
  · rename_i hgb
    rw [if_neg hgb]
    have hmono := (closed_failures m₁.failures fun _ => True).createPd (a := attributes) trivial
      (4096 * pages) va pa pages (addrOf (m₁.read pml4 (v₀ / span 0 % 512))) (le_refl _)
    have hno₁ : NoFail m m₁ := hmono.trans hno
    obtain ⟨hens₁, htab⟩ := hens.succ hwf (by decide) ht hr.attr_odd hm₁ hno₁
    exact createPd_laid hr ha hva hpage hwf hens₁ (fun keep => ensure_shares hwf (by decide) ht ha hm₁ hno₁)
      (by rwa [div_span_succ (by decide)]) (by omega) (hno.trans hmono₁)

end

/-! ## Which leaves a range gets -/

/-- An iteration that starts with the `d`-th page does not start in the middle of a large page that the range
allows. -/
structure AtStart (v₀ p₀ pages gb d : Nat) : Prop where
  /-- A 1 GiB page. -/
  gb : gb = 1 → v₀ % 262144 = p₀ % 262144 → v₀ ≤ (v₀ + d) / 262144 * 262144 →
    ((v₀ + d) / 262144 + 1) * 262144 ≤ v₀ + pages → (v₀ + d) % 262144 = 0
  /-- A 2 MiB page. -/
  mb : v₀ % 512 = p₀ % 512 → v₀ ≤ (v₀ + d) / 512 * 512 → ((v₀ + d) / 512 + 1) * 512 ≤ v₀ + pages →
    (v₀ + d) % 512 = 0

section

variable {v₀ p₀ p pages gb d D n i : Nat}

theorem leafDepth_eq (v₀ p₀ pages gb i : Nat) : leafDepth v₀ p₀ pages gb i =
    if gb = 1 ∧ v₀ % 262144 = p₀ % 262144 ∧ v₀ ≤ (v₀ + i) / 262144 * 262144 ∧
      ((v₀ + i) / 262144 + 1) * 262144 ≤ v₀ + pages then 1
    else if v₀ % 512 = p₀ % 512 ∧ v₀ ≤ (v₀ + i) / 512 * 512 ∧ ((v₀ + i) / 512 + 1) * 512 ≤ v₀ + pages then 2
    else 3 := rfl

theorem atStart_zero : AtStart v₀ p₀ pages gb 0 := ⟨fun _ _ _ _ => by omega, fun _ _ _ => by omega⟩

/-- The leaves that an iteration chooses are those of `leafDepth`. -/
theorem Chosen.leafDepth_eq (h : Chosen gb (v₀ + d) p (pages - d) D n) (hs : AtStart v₀ p₀ pages gb d)
    (hd : d < pages) (hp : p % 262144 = (p₀ + d) % 262144) (h1 : d ≤ i) (h2 : i < d + n) :
    leafDepth v₀ p₀ pages gb i = D := by
  rw [Dem64.leafDepth_eq]
  cases h with
  | gb hgb hv hp' hc => rw [if_pos (by omega)]
  | mb hno hv hp' hc hrow hlast =>
    have hbig := hs.gb
    rw [if_neg (by omega), if_pos (by omega)]
  | kb hno hno' hc hrow hlast =>
    have hbig := hs.gb
    have hmid := hs.mb
    rw [if_neg (by omega), if_neg (by omega)]

/-- The next iteration starts well, too. -/
theorem Chosen.atStart (h : Chosen gb (v₀ + d) p (pages - d) D n) (hs : AtStart v₀ p₀ pages gb d)
    (hd : d < pages) (hp : p % 262144 = (p₀ + d) % 262144) (hn : d + n < pages) :
    AtStart v₀ p₀ pages gb (d + n) := by
  cases h with
  | gb hgb hv hp' hc => exact ⟨fun _ _ _ _ => by omega, fun _ _ _ => by omega⟩
  | mb hno hv hp' hc hrow hlast => exact ⟨fun _ _ _ _ => by omega, fun _ _ _ => by omega⟩
  | kb hno hno' hc hrow hlast =>
    have hbig := hs.gb
    exact ⟨fun _ _ _ _ => by omega, fun _ _ _ => by omega⟩

end

/-! ## The call -/

/-- The slots of the tables on the ways to the leaves of a range. -/
def OnWay (v₀ p₀ pages gb j q : Nat) : Prop :=
  ∃ i, i < pages ∧ j < leafDepth v₀ p₀ pages gb i ∧ q = (v₀ + i) / span j

section

variable {root attributes va pa pages pml4 v k e : Nat} {m m' : Machine}

/-- An iteration keeps the tables on the ways. -/
theorem Laid.shares_onWay {v₀ p₀ gb D d n : Nat} (h : Laid root D (v₀ + d) n m m')
    (hdepth : ∀ i, d ≤ i → i < d + n → leafDepth v₀ p₀ pages gb i = D) :
    Shares root (OnWay v₀ p₀ pages gb) m m' := by
  refine h.shares.mono ?_
  rintro j q ⟨i, -, hj, rfl⟩ ⟨hD, h1, h2⟩
  have hlo := Nat.div_mul_le_self (v₀ + i) (span j)
  have hhi := Nat.lt_div_mul_add (a := v₀ + i) (span_pos j)
  rw [Nat.add_mul, one_mul] at h2
  have := hdepth i (by omega) (by omega)
  omega

/-- **What `create_mapping` does to the tables**: those on the ways to its leaves stay, the new ones are open,
and the leaves have the depth that the range allows. -/
theorem createMapping_shares (hr : Request attributes pa) (ha : attributes % 8 = 7)
    (hrange : CanonicalRange va pages) (hend : va + 4096 * pages < 2 ^ 64) (hpml4 : pml4 ≠ 0)
    (hwf : WellFormed m (pml4 >>> 12)) (hno : NoFail m (createMapping m va pa pages attributes pml4)) :
    Shares (pml4 >>> 12) (OnWay (pageOf va) (pa / 4096) pages m.gbPageSupport) m
        (createMapping m va pa pages attributes pml4) ∧
      ∀ i, i < pages → ∃ e, walk (createMapping m va pa pages attributes pml4).mem (pml4 >>> 12)
        (pageOf va + i) = some (leafDepth (pageOf va) (pa / 4096) pages m.gbPageSupport i, e) := by
  have hfits := hrange.fits
  have hal := hrange.aligned
  have hpal := hr.aligned
  have hinv := createMapping_rule (m := m) hend hr.lt hpml4
    (I := fun d m' => Mapped (pml4 >>> 12) (pageOf va) (pageOf va + d) pa attributes m m' ∧
      Shares (pml4 >>> 12) (OnWay (pageOf va) (pa / 4096) pages m.gbPageSupport) m m' ∧
      (∀ i, i < d → ∃ e, walk m'.mem (pml4 >>> 12) (pageOf va + i) =
        some (leafDepth (pageOf va) (pa / 4096) pages m.gbPageSupport i, e)) ∧
      (d < pages → AtStart (pageOf va) (pa / 4096) pages m.gbPageSupport d))
    (fun d m₁ hd hI => ?_)
    ⟨Mapped.refl _ _ _ _ _, Shares.refl _ _ _, fun i hi => absurd hi (Nat.not_lt_zero i),
      fun _ => atStart_zero⟩ hno
  · exact ⟨hinv.2.1, hinv.2.2.1⟩
  · intro c hno₁
    obtain ⟨hmap, hshares, hleaf, hstart⟩ := hI
    have hwf₁ := hmap.steps.wellFormed hwf
    have hpage : (va + 4096 * d) / 4096 % 2 ^ 36 = pageOf va + d := by
      have := pageOf_eq va
      omega
    obtain ⟨hpos, hle, hmap₁⟩ := createChunk_mapped (hr.advance d) hpage (by omega) hwf₁ hno₁
    obtain ⟨D, hchosen, hlaid⟩ := createChunk_laid (hr.advance d) ha (by omega) hpage hwf₁ hno₁
    rw [hmap.steps.gbPageSupport] at hchosen
    have hp : (pa + 4096 * d) % 2 ^ 64 / 4096 % 262144 = (pa / 4096 + d) % 262144 := by omega
    have hdepth : ∀ i, d ≤ i → i < d + c.1 →
        leafDepth (pageOf va) (pa / 4096) pages m.gbPageSupport i = D :=
      fun i h1 h2 => hchosen.leafDepth_eq (hstart hd) hd hp h1 h2
    have hcle : c.1 ≤ pages - d := hle
    refine ⟨hpos, hle, ?_, hshares.trans (hlaid.shares_onWay hdepth), fun i hi => ?_,
      hchosen.atStart (hstart hd) hd hp⟩
    · refine Mapped.trans (by omega) (by omega) (by omega) hr.aligned hmap ?_
      rw [Nat.add_sub_cancel_left, ← Nat.add_assoc]
      exact hmap₁
    · by_cases hid : i < d
      · obtain ⟨e, hw⟩ := hleaf i hid
        obtain ⟨k, e', hw', -, hb, -⟩ := hmap.inside (pageOf va + i) (by omega) (by omega)
        obtain ⟨rfl, rfl⟩ := Prod.mk.inj (Option.some_inj.mp (hw.symm.trans hw'))
        exact ⟨e, hmap₁.kept_before (by omega) hw hb⟩
      · rw [hdepth i (by omega) hi]
        exact hlaid.leaf _ (by omega) (show pageOf va + i < pageOf va + d + c.1 by omega)

/-- The entries in front of a leaf are tables, and there are none behind it. -/
theorem entryAt_of_leaf {D : Nat} (hv : v < 2 ^ 36) (hw : walk m.mem root v = some (D, e)) (hk : k ≤ 3)
    {e' : Nat} (he : entryAt m.mem root k (v / span k) = some e') : (k < D ∧ isTable k e' = true) ∨ e' = e := by
  obtain ⟨hD, hleaf, hl⟩ := entryAt_of_walk hv hw
  rcases Nat.lt_trichotomy k D with hlt | rfl | hgt
  · refine Or.inl ⟨hlt, ?_⟩
    by_contra hnt
    rw [walk_of_entryAt hv hk he (by simpa using hnt), leafWalk] at hw
    split at hw
    · obtain ⟨rfl, -⟩ := Prod.mk.inj (Option.some_inj.mp hw)
      exact absurd hlt (Nat.lt_irrefl _)
    · exact absurd hw (by simp)
  · exact Or.inr (Option.some_inj.mp (he.symm.trans hleaf))
  · obtain ⟨i, rfl⟩ : ∃ i, k = D + 1 + i := ⟨k - (D + 1), by omega⟩
    obtain ⟨f, hf, -⟩ := Option.map_eq_some_iff.mp he
    obtain ⟨g, hg⟩ := Radix.exists_tableAt_prefix i hf
    rw [Nat.div_div_eq_div_mul, ← Nat.pow_succ', show i.succ = D + 1 + i - D by omega,
      div_span_div (by omega) hk, Radix.tableAt_of_entryAt hleaf, isTable_of_isLeaf D e hl] at hg
    exact absurd hg (by simp)

theorem leafAttributes_mod_eight (e : Nat) : leafAttributes e % 8 = e % 8 := by
  have h := Nat.and_mod_two_pow (n := 3) (a := e % 4096) (b := 0xffffffffffffff7f)
  rw [leafAttributes_eq]
  have h2 : (0xffffffffffffff7f : Nat) % 2 ^ 3 = 7 := rfl
  rw [h2, show (7 : Nat) = 2 ^ 3 - 1 from rfl, Nat.and_two_pow_sub_one_eq_mod] at h
  omega

/-- **When user programs may use all pages of a range.**  If `create_mapping` is asked for the user bit, the
present, the writable and the user bit are set in all entries on the ways to the pages of the range if and
only if they were set in the entries of the tables that it found on these ways.  A range that ends with the
address space is left as it was. -/
theorem createMapping_grants_iff (hwf : WellFormed m (pml4 >>> 12)) (hpml4 : pml4 ≠ 0)
    (hrange : CanonicalRange va pages) (hpa : pa % 4096 = 0) (hpa' : pa < 2 ^ 64)
    (hattr : attributes < 4096) (huser : attributes &&& 7 = 7)
    (hno : NoFail m (createMapping m va pa pages attributes pml4)) :
    (∀ i, i < pages → Granted (createMapping m va pa pages attributes pml4).mem (pml4 >>> 12)
      (va + 4096 * i)) ↔
    if va + 4096 * pages = 2 ^ 64 then ∀ i, i < pages → Granted m.mem (pml4 >>> 12) (va + 4096 * i)
    else ∀ i, i < pages → ∀ j, j < leafDepth (pageOf va) (pa / 4096) pages m.gbPageSupport i → ∀ e,
      TableEntry m.mem (pml4 >>> 12) j ((pageOf va + i) / span j) e → e &&& 7 = 7 := by
  by_cases hend : va + 4096 * pages = 2 ^ 64
  · rw [if_pos hend, createMapping_of_wrap (by omega)]
  rw [if_neg hend]
  rw [and_seven_eq] at huser
  have hr : Request attributes pa := ⟨hattr, by omega, hpa, hpa'⟩
  have hlt := lt_of_le_of_ne hrange.le hend
  have hfits := hrange.fits
  obtain ⟨hshares, hleaf⟩ := createMapping_shares hr huser hrange hlt hpml4 hwf hno
  have hmap := createMapping_mapped hr hrange.aligned (pageOf_eq va) hrange.fits hlt hpml4 hwf hno
  generalize createMapping m va pa pages attributes pml4 = m' at hshares hleaf hmap ⊢
  refine forall₂_congr fun i hi => ?_
  obtain ⟨e, hw⟩ := hleaf i hi
  have hv : pageOf va + i < 2 ^ 36 := by omega
  have hdepth := walk_depth hv hw
  have hbits : e % 8 = 7 := by
    obtain ⟨k, e', hw', -, -, -, hattr'⟩ := hmap.inside (pageOf va + i) (by omega) (by omega)
    obtain ⟨rfl, rfl⟩ := Prod.mk.inj (Option.some_inj.mp (hw.symm.trans hw'))
    rw [← leafAttributes_mod_eight, hattr', leafAttributes_mod_eight, huser]
  rw [Granted, hrange.pageOf_add hi, and_iff_right (hrange.canonical i hi)]
  simp only [mem_walkEntries hv, and_seven_eq]
  constructor
  · intro h j hj e' he'
    exact h e' ⟨j, by omega, (hshares.kept j _ e' (by omega) ⟨i, hi, hj, rfl⟩ he').1⟩
  · rintro h e' ⟨k, hk, he'⟩
    rcases entryAt_of_leaf hv hw hk he' with ⟨hkD, ht⟩ | rfl
    · exact (hshares.old k _ e' (by omega) ⟨he', ht⟩).elim (h k hkD e') id
    · exact hbits

end

/-- A page in an empty address space. -/
theorem createMapping_grants_first :
    Granted (createMapping smallMachine 0x200000 0x400000 1 7 0x1000).mem (0x1000 >>> 12) (0x200000 + 4096 * 0) := by
  refine (createMapping_grants_iff smallMachine_wellFormed (by decide)
    ⟨by decide, by decide, by decide, fun i hi => Or.inl (by omega)⟩ (by decide) (by decide) (by decide)
    (by decide) (by decide)).mpr ?_ 0 (by decide)
  rw [if_neg (by decide)]
  intro i _ j _ e he
  have h := (tableAt_of_empty fun _ => rfl).mp he.tableAt_eq
  exact absurd h.1 (Nat.succ_ne_zero j)

/-- Behind the tables of a page for the kernel. -/
theorem createMapping_not_granted :
    WellFormed (createMapping smallMachine 0x200000 0x400000 1 3 0x1000) (0x1000 >>> 12) ∧
    NoFail (createMapping smallMachine 0x200000 0x400000 1 3 0x1000)
      (createMapping (createMapping smallMachine 0x200000 0x400000 1 3 0x1000) 0x201000 0x5000 1 7 0x1000) ∧
    ¬ Granted (createMapping (createMapping smallMachine 0x200000 0x400000 1 3 0x1000)
      0x201000 0x5000 1 7 0x1000).mem (0x1000 >>> 12) 0x201000 := by
  have hsteps : Steps (0x1000 >>> 12) smallMachine (createMapping smallMachine 0x200000 0x400000 1 3 0x1000) :=
    createMapping_steps ⟨by decide, by decide, by decide, by decide⟩ (by decide) (by decide)
      smallMachine_wellFormed (by decide)
  exact ⟨hsteps.wellFormed smallMachine_wellFormed, by decide, by decide⟩

end Dem64
