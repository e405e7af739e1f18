import Dem64.Dma.Extents

/-!
# A new extent

When no run of free extents is large enough, `allocate_dma` adds an extent behind the last one.  It
goes behind `dma_latest` in the last metadata page, whichever page the search for a counter that is
not zero has found, or to a new page when all counters are zero.

`carve_spec` and `addPage_spec` say what both do to the list.  The first has a condition that the
code does not check: there must be room behind `dma_latest`.  `growClaim_spec` adds that the free
extents at the end are taken together with the new one.
-/

set_option autoImplicit false

namespace Dem64

/-- `q` is `p` with the new extent `y` of `size` pages at the end, counted in page `j`. -/
structure Grown (p : DmaPool) (ptrs : List EntryPtr) (y : EntryPtr) (size j : Nat) (q : DmaPool) :
    Prop where
  /-- The list has one extent more. -/
  inv : PoolShape q (ptrs ++ [y])
  /-- The new extent is taken. -/
  new : q.entry y = ⟨.used, size, none⟩
  /-- The others keep size and status. -/
  kept : ∀ x ∈ ptrs, (q.entry x).status = (p.entry x).status ∧
    (q.entry x).sizeInPages = (p.entry x).sizeInPages
  /-- One counter goes down. -/
  counters : ∀ k, k ≤ p.dmaMetadataPages → (q.entry ⟨k, 0⟩).sizeInPages =
    if k = j then ((p.entry ⟨k, 0⟩).sizeInPages + 2 ^ 64 - 1) % 2 ^ 64
    else (p.entry ⟨k, 0⟩).sizeInPages
  /-- The extent is in the last page, or in a new one. -/
  page : (q.dmaMetadataPages = p.dmaMetadataPages ∧ j ≤ p.dmaMetadataPages ∧
      y.page = p.dmaMetadataPages) ∨
    (q.dmaMetadataPages = p.dmaMetadataPages + 1 ∧ j = p.dmaMetadataPages + 1 ∧ y = ⟨j, 1⟩ ∧
      (q.entry ⟨j, 0⟩).sizeInPages = 202)

namespace PoolShape

variable {p q : DmaPool} {init : List EntryPtr} {x y : EntryPtr}

/-- Everything is before a new entry. -/
theorem before_new (h : PoolShape p (init ++ [x])) (hxy : x.Before y) :
    ∀ z ∈ init ++ [x], z.Before y := by
  intro z hz
  rcases List.mem_append.mp hz with hz | hz
  · have hzx := (List.pairwise_append.mp h.sorted).2.2 z hz x (by simp)
    rcases hzx with h1 | ⟨h1, h2⟩ <;> rcases hxy with h3 | ⟨h3, h4⟩
    · exact Or.inl (by omega)
    · exact Or.inl (by omega)
    · exact Or.inl (by omega)
    · exact Or.inr ⟨by omega, by omega⟩
  · rw [List.mem_singleton.mp hz]
    exact hxy

/-- An entry behind the last one is linked to the list. -/
theorem snoc (h : PoolShape p (init ++ [x]))
    (hpage : q.dmaMetadataPages = p.dmaMetadataPages ∧ x.page = p.dmaMetadataPages ∧ y = x.succ ∧
        x.slot < 203 ∨
      q.dmaMetadataPages = p.dmaMetadataPages + 1 ∧ y = ⟨p.dmaMetadataPages + 1, 1⟩)
    (hglobals : q.dmaHeader = p.dmaHeader ∧ q.dmaLimit = p.dmaLimit ∧ q.dmaStart = p.dmaStart ∧
      q.dmaLatest = some y ∧ q.dmaEntries ≠ 0)
    (htop : q.dmaTop = dmaPoolBase + 4096 * (q.dmaMetadataPages + 1))
    (hmapped : ∀ k, q.mapped k = true ↔ k ≤ q.dmaMetadataPages)
    (hheaders : ∀ k, k ≤ q.dmaMetadataPages → (q.entry ⟨k, 0⟩).status = .header ∧
      q.next ⟨k, 0⟩ = (if k < q.dmaMetadataPages then some ⟨k + 1, 0⟩ else none) ∧
      (q.entry ⟨k, 0⟩).sizeInPages < 2 ^ 64)
    (hlast : q.next x = some y) (hnext : ∀ z ∈ init, q.next z = p.next z)
    (hkept : ∀ z ∈ init ++ [x], (q.entry z).status = (p.entry z).status ∧
      (q.entry z).sizeInPages = (p.entry z).sizeInPages)
    {size : Nat} (hnew : q.entry y = ⟨.used, size, none⟩) (hpos : 0 < size) :
    PoolShape q (init ++ [x] ++ [y]) := by
  have hx : x ∈ init ++ [x] := by simp
  have hslots := h.slots x hx
  have hxy : x.Before y := by
    rcases hpage with ⟨-, -, rfl, -⟩ | ⟨-, rfl⟩
    · exact Or.inr ⟨rfl, Nat.lt_succ_self _⟩
    · exact Or.inl (by show x.page < p.dmaMetadataPages + 1; omega)
  have hmem : ∀ z ∈ init ++ [x] ++ [y], z ∈ init ++ [x] ∨ z = y := by
    intro z hz
    rcases List.mem_append.mp hz with hz | hz
    · exact Or.inl hz
    · exact Or.inr (List.mem_singleton.mp hz)
  have hsize : (q.entry y).sizeInPages = size := by rw [hnew]
  refine
    { header := hglobals.1.trans h.header
      limit := hglobals.2.1.trans h.limit
      entries := hglobals.2.2.2.2
      top := htop
      mapped := hmapped
      headers := fun k hk => ⟨(hheaders k hk).1, (hheaders k hk).2.1⟩
      counters := fun k hk => (hheaders k hk).2.2
      linked := ?_
      latest := ⟨init ++ [x], y, rfl, hglobals.2.2.2.1, ?_⟩
      sorted := ?_
      slots := fun z hz => ?_
      filled := fun z hz s h1 h2 => ?_
      first := fun k hk => ?_
      status := fun z hz => ?_
      size_pos := fun z hz => ?_ }
  · rw [hglobals.2.2.1]
    refine h.linked.snoc hnext hlast ?_
    rw [DmaPool.next, hnew]
  · rcases hpage with ⟨h1, h2, rfl, -⟩ | ⟨h1, rfl⟩
    · rw [h1]
      exact h2
    · rw [h1]
  · refine List.pairwise_append.mpr ⟨h.sorted, List.pairwise_singleton _ _, fun z hz y' hy' => ?_⟩
    rw [List.mem_singleton.mp hy']
    exact h.before_new hxy z hz
  · rcases hmem z hz with hz | rfl
    · have := h.slots z hz
      rcases hpage with ⟨h1, -⟩ | ⟨h1, -⟩ <;> omega
    · rcases hpage with ⟨h1, h2, rfl, h3⟩ | ⟨h1, rfl⟩
      · show 1 ≤ x.slot + 1 ∧ x.slot + 1 ≤ 203 ∧ x.page ≤ _
        omega
      · show 1 ≤ 1 ∧ 1 ≤ 203 ∧ p.dmaMetadataPages + 1 ≤ _
        omega
  · rcases hmem z hz with hz | rfl
    · exact List.mem_append_left _ (h.filled z hz s h1 h2)
    · rcases hpage with ⟨-, -, rfl, -⟩ | ⟨-, rfl⟩
      · have h2' : s < x.slot + 1 := h2
        rcases Nat.lt_succ_iff_lt_or_eq.mp h2' with h3 | rfl
        · exact List.mem_append_left _ (h.filled x hx s h1 h3)
        · exact List.mem_append_left _ hx
      · have h2' : s < 1 := h2
        omega
  · rcases hpage with ⟨h1, -⟩ | ⟨h1, rfl⟩
    · exact List.mem_append_left _ (h.first k (by omega))
    · rcases Nat.lt_or_eq_of_le hk with hlt | rfl
      · exact List.mem_append_left _ (h.first k (by omega))
      · rw [h1]
        simp
  · rcases hmem z hz with hz | rfl
    · rw [(hkept z hz).1]
      exact h.status z hz
    · rw [hnew]
      simp
  · rcases hmem z hz with hz | rfl
    · rw [(hkept z hz).2]
      exact h.size_pos z hz
    · rw [hsize]
      exact hpos

end PoolShape

namespace DmaPool

variable {p : DmaPool} {ptrs : List EntryPtr}

/-! ## Where the extent goes -/

/-- What the search for a page with entries left finds. -/
theorem roomLoop_spec (h : PoolShape p ptrs) (d : Nat) : ∀ {k : Nat}, k + d = p.dmaMetadataPages →
    ∃ r, Ends (fun n => roomLoop p n ⟨k, 0⟩) r ∧
    ((∃ j, r = .page ⟨j, 0⟩ ∧ k ≤ j ∧ j ≤ p.dmaMetadataPages ∧
      (p.entry ⟨j, 0⟩).sizeInPages % 2 ^ 32 ≠ 0 ∧
      ∀ i, k ≤ i → i < j → (p.entry ⟨i, 0⟩).sizeInPages % 2 ^ 32 = 0) ∨
    (r = .full ⟨p.dmaMetadataPages, 0⟩ ∧
      ∀ i, k ≤ i → i ≤ p.dmaMetadataPages → (p.entry ⟨i, 0⟩).sizeInPages % 2 ^ 32 = 0)) := by
  have hloop : ∀ {k} n, k ≤ p.dmaMetadataPages → roomLoop p (n + 1) ⟨k, 0⟩ =
      if (p.entry ⟨k, 0⟩).sizeInPages % 2 ^ 32 = 0 then
        if k < p.dmaMetadataPages then roomLoop p n ⟨k + 1, 0⟩ else some (.full ⟨k, 0⟩)
      else some (.page ⟨k, 0⟩) := by
    intro k n hk
    have hnext : (p.entry ⟨k, 0⟩).nextEntry = _ := (h.headers k hk).2
    rw [roomLoop, get_eq (h.valid_header hk)]
    simp only [Option.bind_eq_bind, Option.bind_some, hnext]
    by_cases hlast : k < p.dmaMetadataPages
    · simp only [if_pos hlast]
      rfl
    · simp only [if_neg hlast]
      rfl
  induction d with
  | zero =>
    intro k hk
    by_cases hzero : (p.entry ⟨k, 0⟩).sizeInPages % 2 ^ 32 = 0
    · refine ⟨.full ⟨k, 0⟩, Ends.step rfl (fun n => ?_) (Ends.const _), .inr ⟨by rw [← hk]; rfl, fun i h1 h2 => ?_⟩⟩
      · rw [hloop n (by omega), if_pos hzero, if_neg (by omega)]
      · obtain rfl : i = k := by omega
        exact hzero
    · refine ⟨.page ⟨k, 0⟩, Ends.step rfl (fun n => ?_) (Ends.const _),
        .inl ⟨k, rfl, Nat.le_refl k, by omega, hzero, fun i h1 h2 => by omega⟩⟩
      rw [hloop n (by omega), if_neg hzero]
  | succ d ih =>
    intro k hk
    by_cases hzero : (p.entry ⟨k, 0⟩).sizeInPages % 2 ^ 32 = 0
    · have hfirst : ∀ {b : Nat}, (∀ i, k + 1 ≤ i → i < b → (p.entry ⟨i, 0⟩).sizeInPages % 2 ^ 32 = 0) →
          ∀ i, k ≤ i → i < b → (p.entry ⟨i, 0⟩).sizeInPages % 2 ^ 32 = 0 := by
        intro b hb i h1 h2
        rcases Nat.eq_or_lt_of_le h1 with rfl | h1
        · exact hzero
        · exact hb i h1 h2
      obtain ⟨r, hends, hr⟩ := ih (k := k + 1) (by omega)
      refine ⟨r, Ends.step rfl (fun n => ?_) hends, ?_⟩
      · rw [hloop n (by omega), if_pos hzero, if_pos (by omega)]
      · rcases hr with ⟨j, hj, h1, h2, h3, h4⟩ | ⟨hj, h1⟩
        · exact .inl ⟨j, hj, by omega, h2, h3, hfirst h4⟩
        · exact .inr ⟨hj, fun i hi1 hi2 =>
            hfirst (b := p.dmaMetadataPages + 1) (fun i h2 h3 => h1 i h2 (by omega)) i hi1 (by omega)⟩
    · refine ⟨.page ⟨k, 0⟩, Ends.step rfl (fun n => ?_) (Ends.const _),
        .inl ⟨k, rfl, Nat.le_refl k, by omega, hzero, fun i h1 h2 => by omega⟩⟩
      rw [hloop n (by omega), if_neg hzero]

/-- **The search for a page with entries left**, from the first page on. -/
theorem room_spec (h : PoolShape p ptrs) : ∃ r, Ends (fun n => p.room n) r ∧
    ((∃ j, r = .page ⟨j, 0⟩ ∧ j ≤ p.dmaMetadataPages ∧ (p.entry ⟨j, 0⟩).sizeInPages % 2 ^ 32 ≠ 0 ∧
      ∀ i, i < j → (p.entry ⟨i, 0⟩).sizeInPages % 2 ^ 32 = 0) ∨
    (r = .full ⟨p.dmaMetadataPages, 0⟩ ∧
      ∀ i, i ≤ p.dmaMetadataPages → (p.entry ⟨i, 0⟩).sizeInPages % 2 ^ 32 = 0)) := by
  obtain ⟨r, hends, hr⟩ := roomLoop_spec h p.dmaMetadataPages (Nat.zero_add _)
  refine ⟨r, hends.congr fun n => by rw [room, h.header, Option.bind_some], ?_⟩
  rcases hr with ⟨j, hj, -, h2, h3, h4⟩ | ⟨hj, h1⟩
  · exact .inl ⟨j, hj, h2, h3, fun i hi => h4 i (Nat.zero_le i) hi⟩
  · exact .inr ⟨hj, fun i hi => h1 i (Nat.zero_le i) hi⟩

/-! ## The extent -/

/-- **A new extent behind the last one**, which must not be at the end of its page. -/
theorem carve_spec {x : EntryPtr} {j size : Nat} (h : PoolShape p ptrs) (hx : p.dmaLatest = some x)
    (hroom : x.slot < 203) (hj : j ≤ p.dmaMetadataPages)
    (hadv : (p.entry ⟨j, 0⟩).sizeInPages % 2 ^ 32 ≠ 203 ∨ p.dmaMetadataPages = 0)
    (hpos : 0 < size) :
    ∃ q, p.carve ⟨j, 0⟩ size = some (x.succ, q) ∧ Grown p ptrs x.succ size j q := by
  obtain ⟨init, x', rfl, hlatest, hpage⟩ := h.latest
  obtain rfl : x' = x := Option.some_inj.mp (hlatest.symm.trans hx)
  have hmem : x' ∈ init ++ [x'] := by simp
  have hslot := (h.slots x' hmem).1
  have hsucc : ∀ z ∈ init ++ [x'], z ≠ x'.succ := fun z hz =>
    (h.before_new (y := x'.succ) (Or.inr ⟨rfl, Nat.lt_succ_self _⟩) z hz).ne
  have hsucc' : ∀ k, (⟨k, 0⟩ : EntryPtr) ≠ x'.succ := by
    intro k hc
    exact absurd (congrArg EntryPtr.slot hc) (Nat.succ_ne_zero _).symm
  have hhead : ∀ k, (⟨k, 0⟩ : EntryPtr) ≠ x' := fun k hc => h.ne_header hmem k hc.symm
  -- the three stores
  let q : DmaPool :=
    { p with
      entry := Function.update (Function.update
        (Function.update p.entry x' { p.entry x' with nextEntry := some x'.succ }) ⟨j, 0⟩
        { p.entry ⟨j, 0⟩ with sizeInPages := ((p.entry ⟨j, 0⟩).sizeInPages + 2 ^ 64 - 1) % 2 ^ 64 })
        x'.succ ⟨.used, size, none⟩
      dmaLatest := some x'.succ
      dmaEntries := p.dmaEntries + 1 }
  have hq : p.carve ⟨j, 0⟩ size = some (x'.succ, q) := by
    have hv1 := h.valid hmem
    have hv2 := h.valid_header hj
    have hv3 : p.Valid x'.succ := ⟨hv1.1, Nat.succ_lt_succ hroom⟩
    rw [carve, get_eq hv2]
    simp only [Option.bind_eq_bind, Option.bind_some, h.limit]
    rw [if_pos hadv, advance, hx]
    simp only [Option.bind_eq_bind, Option.bind_some, modify_eq hv1, Option.pure_def]
    rw [modify_eq, Option.bind_some, modify_eq, Option.bind_some]
    · simp only [q, Function.update_of_ne (hhead j)]
    · exact hv3
    · exact hv2
  have hentry : ∀ z ∈ init ++ [x'], z ≠ x' → q.entry z = p.entry z := by
    intro z hz hne
    show Function.update _ _ _ _ = _
    rw [Function.update_of_ne (hsucc z hz), Function.update_of_ne (h.ne_header hz j),
      Function.update_of_ne hne]
  have hlast : q.entry x' = { p.entry x' with nextEntry := some x'.succ } := by
    show Function.update _ _ _ _ = _
    rw [Function.update_of_ne (hsucc x' hmem), Function.update_of_ne (h.ne_header hmem j),
      Function.update_self]
  have hnew : q.entry x'.succ = ⟨.used, size, none⟩ := Function.update_self _ _ _
  have hheader : ∀ k, q.entry ⟨k, 0⟩ = if k = j then { p.entry ⟨k, 0⟩ with
      sizeInPages := ((p.entry ⟨k, 0⟩).sizeInPages + 2 ^ 64 - 1) % 2 ^ 64 } else p.entry ⟨k, 0⟩ := by
    intro k
    show Function.update _ _ _ _ = _
    rw [Function.update_of_ne (hsucc' k)]
    by_cases hk : k = j
    · rw [hk, Function.update_self, if_pos rfl]
    · rw [Function.update_of_ne (by simpa using hk), Function.update_of_ne (hhead k), if_neg hk]
  have hkept : ∀ z ∈ init ++ [x'], (q.entry z).status = (p.entry z).status ∧
      (q.entry z).sizeInPages = (p.entry z).sizeInPages := by
    intro z hz
    by_cases hne : z = x'
    · rw [hne, hlast]
      exact ⟨rfl, rfl⟩
    · rw [hentry z hz hne]
      exact ⟨rfl, rfl⟩
  have hnodup := h.nodup
  refine ⟨q, hq, ?_, hnew, hkept, fun k hk => ?_, Or.inl ⟨rfl, hj, hpage⟩⟩
  · refine h.snoc (Or.inl ⟨rfl, hpage, rfl, hroom⟩) ⟨rfl, rfl, rfl, rfl, Nat.succ_ne_zero _⟩ h.top
      h.mapped (fun k hk => ?_) ?_ (fun z hz => ?_) hkept hnew hpos
    · have hk' := h.headers k hk
      have hc := h.counters k hk
      rw [next, hheader]
      split
      · exact ⟨hk'.1, hk'.2, Nat.mod_lt _ (by decide)⟩
      · exact ⟨hk'.1, hk'.2, hc⟩
    · rw [next, hlast]
    · rw [next, hentry z (List.mem_append_left _ hz), next]
      rintro rfl
      exact absurd rfl ((List.nodup_append.mp hnodup).2.2 z hz z (by simp))
  · rw [hheader]
    split <;> rfl

/-- **A new extent in a new page.** -/
theorem addPage_spec {size : Nat} (h : PoolShape p ptrs) (fresh : EntryPtr → DmaEntry)
    (hpos : 0 < size) :
    ∃ q₁ q, p.addPage ⟨p.dmaMetadataPages, 0⟩ fresh = some (⟨p.dmaMetadataPages + 1, 0⟩, q₁) ∧
      q₁.carve ⟨p.dmaMetadataPages + 1, 0⟩ size = some (⟨p.dmaMetadataPages + 1, 1⟩, q) ∧
      Grown p ptrs ⟨p.dmaMetadataPages + 1, 1⟩ size (p.dmaMetadataPages + 1) q := by
  obtain ⟨init, x, rfl, hx, hpage⟩ := h.latest
  have hmem : x ∈ init ++ [x] := by simp
  have hpages : ∀ z ∈ init ++ [x], z.page ≠ p.dmaMetadataPages + 1 := fun z hz hc => by
    have := (h.slots z hz).2.2
    omega
  have hne : ∀ z ∈ init ++ [x], ∀ i, z ≠ ⟨p.dmaMetadataPages + 1, i⟩ :=
    fun z hz i hc => hpages z hz (congrArg EntryPtr.page hc)
  generalize hM : p.dmaMetadataPages = M at *
  have hM1 : (⟨M, 0⟩ : EntryPtr) ≠ ⟨M + 1, 0⟩ := by simp
  have hhead : ∀ k, (⟨k, 0⟩ : EntryPtr) ≠ x := fun k hc => h.ne_header hmem k hc.symm
  have hslot : ∀ k, (⟨k, 0⟩ : EntryPtr) ≠ ⟨M + 1, 1⟩ := by simp
  let e₁ : EntryPtr → DmaEntry := fun z => if z.page = M + 1 then fresh z else p.entry z
  have he₁ : ∀ z : EntryPtr, z.page ≠ M + 1 → e₁ z = p.entry z := fun z hz => if_neg hz
  let q₁ : DmaPool :=
    { p with
      entry := Function.update (Function.update (Function.update e₁ ⟨M + 1, 0⟩ ⟨.header, 203, none⟩)
        ⟨M, 0⟩ { p.entry ⟨M, 0⟩ with nextEntry := some ⟨M + 1, 0⟩ })
        x { p.entry x with nextEntry := some ⟨M + 1, 1⟩ }
      mapped := Function.update p.mapped (M + 1) true
      dmaLatest := some ⟨M + 1, 1⟩
      dmaLimit := 203
      dmaMetadataPages := M + 1
      dmaTop := p.dmaTop + 0x1000 }
  have hq₁ : p.addPage ⟨M, 0⟩ fresh = some (⟨M + 1, 0⟩, q₁) := by
    have hpg : (p.dmaTop - dmaPoolBase) / 4096 = M + 1 := by
      rw [h.top, hM, Nat.add_sub_cancel_left, Nat.mul_div_cancel_left _ (by decide)]
    have hmapM : p.mapped M = true := (h.mapped M).mpr (Nat.le_of_eq hM.symm)
    have hv := h.valid hmem
    rw [addPage, hpg, mapPage, modify_eq]
    · simp only [Option.bind_eq_bind, Option.bind_some, h.limit]
      rw [modify_eq, Option.bind_some]
      · simp only [hx, Option.bind_some]
        rw [modify_eq, Option.bind_some]
        · simp only [Option.pure_def, EntryPtr.succ, Nat.zero_add, hM, q₁, e₁,
            Function.update_of_ne hM1, Function.update_of_ne (hhead M).symm,
            Function.update_of_ne (hhead (M + 1)).symm, if_neg (hpages x hmem),
            if_neg (show M ≠ M + 1 by omega)]
        · exact ⟨by
            show Function.update p.mapped (M + 1) true x.page = true
            rw [Function.update_of_ne (hpages x hmem)]
            exact hv.1, hv.2⟩
      · refine ⟨?_, show 0 < 204 by decide⟩
        show Function.update p.mapped (M + 1) true M = true
        rw [Function.update_of_ne (by omega)]
        exact hmapM
    · exact ⟨Function.update_self _ _ _, show 0 < 204 by decide⟩
  let q : DmaPool :=
    { q₁ with
      entry := Function.update (Function.update q₁.entry ⟨M + 1, 0⟩ ⟨.header, 202, none⟩)
        ⟨M + 1, 1⟩ ⟨.used, size, none⟩
      dmaEntries := p.dmaEntries + 1 }
  have hfresh : q₁.entry ⟨M + 1, 0⟩ = ⟨.header, 203, none⟩ := by
    show Function.update _ _ _ _ = _
    rw [Function.update_of_ne (hhead _), Function.update_of_ne hM1.symm, Function.update_self]
  have hq : q₁.carve ⟨M + 1, 0⟩ size = some (⟨M + 1, 1⟩, q) := by
    have hv : ∀ i, i < 204 → q₁.Valid ⟨M + 1, i⟩ := fun i hi => ⟨Function.update_self _ _ _, hi⟩
    have hlimit : q₁.dmaLimit = 203 := rfl
    have hlatest : q₁.dmaLatest = some ⟨M + 1, 1⟩ := rfl
    rw [carve, get_eq (hv 0 (by decide)), hfresh]
    simp only [Option.bind_eq_bind, Option.bind_some, hlimit]
    rw [if_neg (by
      show ¬ (203 % 2 ^ 32 ≠ 203 ∨ M + 1 = 0)
      omega), Option.bind_some, hlatest]
    rw [modify_eq, Option.bind_some, modify_eq, Option.bind_some]
    · simp only [Option.pure_def, q, hfresh]
      rfl
    · exact hv 1 (by decide)
    · exact hv 0 (by decide)
  have hentry : ∀ z ∈ init ++ [x], z ≠ x → q.entry z = p.entry z := by
    intro z hz hzx
    show Function.update _ _ _ _ = _
    rw [Function.update_of_ne (hne z hz 1), Function.update_of_ne (hne z hz 0)]
    show Function.update _ _ _ _ = _
    rw [Function.update_of_ne hzx, Function.update_of_ne (h.ne_header hz M),
      Function.update_of_ne (hne z hz 0), he₁ z (hpages z hz)]
  have hlast : q.entry x = { p.entry x with nextEntry := some ⟨M + 1, 1⟩ } := by
    show Function.update _ _ _ _ = _
    rw [Function.update_of_ne (hne x hmem 1), Function.update_of_ne (hne x hmem 0)]
    exact Function.update_self _ _ _
  have hnew : q.entry ⟨M + 1, 1⟩ = ⟨.used, size, none⟩ := Function.update_self _ _ _
  have htop : q.entry ⟨M + 1, 0⟩ = ⟨.header, 202, none⟩ := by
    show Function.update _ _ _ _ = _
    rw [Function.update_of_ne (hslot _), Function.update_self]
  have hheader : ∀ k, k ≤ M → q.entry ⟨k, 0⟩ = if k = M then
      { p.entry ⟨k, 0⟩ with nextEntry := some ⟨M + 1, 0⟩ } else p.entry ⟨k, 0⟩ := by
    intro k hk
    have hk1 : (⟨k, 0⟩ : EntryPtr) ≠ ⟨M + 1, 0⟩ := by
      simp only [ne_eq, EntryPtr.mk.injEq, and_true]
      omega
    show Function.update _ _ _ _ = _
    rw [Function.update_of_ne (hslot _), Function.update_of_ne hk1]
    show Function.update _ _ _ _ = _
    rw [Function.update_of_ne (hhead k)]
    by_cases hkM : k = M
    · rw [hkM, Function.update_self, if_pos rfl]
    · rw [Function.update_of_ne (by simpa using hkM), Function.update_of_ne hk1, if_neg hkM,
        he₁ _ (show k ≠ M + 1 by omega)]
  have hkept : ∀ z ∈ init ++ [x], (q.entry z).status = (p.entry z).status ∧
      (q.entry z).sizeInPages = (p.entry z).sizeInPages := by
    intro z hz
    by_cases hzx : z = x
    · rw [hzx, hlast]
      exact ⟨rfl, rfl⟩
    · rw [hentry z hz hzx]
      exact ⟨rfl, rfl⟩
  have hnodup := h.nodup
  refine ⟨q₁, q, hq₁, hq, ?_, hnew, hkept, fun k hk => ?_, Or.inr ⟨by rw [hM], by rw [hM], rfl, ?_⟩⟩
  · refine h.snoc (Or.inr ⟨by rw [hM], by rw [hM]⟩) ⟨rfl, h.limit.symm, rfl, rfl, Nat.succ_ne_zero _⟩ ?_
      (fun k => ?_) (fun k hk => ?_) ?_ (fun z hz => ?_) hkept hnew hpos
    · show p.dmaTop + 0x1000 = dmaPoolBase + 4096 * (M + 1 + 1)
      rw [h.top, hM]
      omega
    · show Function.update p.mapped (M + 1) true k = true ↔ k ≤ M + 1
      by_cases hk : k = M + 1
      · rw [hk, Function.update_self]
        simp
      · rw [Function.update_of_ne hk, h.mapped, hM]
        omega
    · have hk' : k ≤ M + 1 := hk
      have hqM : q.dmaMetadataPages = M + 1 := rfl
      rw [next, hqM]
      rcases Nat.lt_or_eq_of_le hk' with hlt | rfl
      · have hh := h.headers k (by omega)
        have hc := h.counters k (by omega)
        rw [hheader k (by omega), if_pos hlt]
        split
        · rename_i hkM
          subst hkM
          exact ⟨hh.1, rfl, hc⟩
        · refine ⟨hh.1, hh.2.trans ?_, hc⟩
          rw [hM, if_pos (by omega)]
      · rw [htop, if_neg (by omega)]
        exact ⟨rfl, rfl, by decide⟩
    · rw [next, hlast]
    · rw [next, hentry z (List.mem_append_left _ hz), next]
      rintro rfl
      exact absurd rfl ((List.nodup_append.mp hnodup).2.2 z hz z (by simp))
  · rw [hM] at hk
    rw [hheader k hk, if_neg (show k ≠ M + 1 by omega)]
    split <;> rfl
  · rw [htop]

end DmaPool

/-! ## What an allocation takes -/

/-- The pool `q`, with the extents `ptrs'`, is `p` after `c` was taken for `pages` pages. -/
structure Claimed (p : DmaPool) (ptrs : List EntryPtr) (pages : Nat) (c : DmaPool.Claim)
    (q : DmaPool) (ptrs' : List EntryPtr) : Prop where
  /-- The extents form a list. -/
  inv : PoolShape q ptrs'
  /-- Extents are added at the end only. -/
  grows : ptrs <+: ptrs'
  /-- The extents taken lie side by side, and this is where. -/
  place : ∃ pre, pre ++ c.extents <+: ptrs' ∧ c.base = dmaBase + 4096 * q.total pre
  /-- There is one at least. -/
  nonempty : c.extents ≠ []
  /-- The first of them is the home of the allocation. -/
  home : c.home = c.extents.head?
  /-- They are large enough. -/
  enough : pages ≤ q.total c.extents
  /-- They are taken. -/
  taken : ∀ x ∈ c.extents, (q.entry x).status = .used
  /-- Those of them that were there were free. -/
  free : ∀ x ∈ ptrs, x ∈ c.extents → (p.entry x).status = .free
  /-- The others keep their status. -/
  others : ∀ x ∈ ptrs, x ∉ c.extents → (q.entry x).status = (p.entry x).status
  /-- All keep their size. -/
  sizes : ∀ x ∈ ptrs, (q.entry x).sizeInPages = (p.entry x).sizeInPages

namespace DmaPool

variable {p : DmaPool} {ptrs pre own rest : List EntryPtr} {n pages : Nat} {s : Search}

/-- **The reuse of a run of free extents.** -/
theorem reuseClaim_spec (h : PoolInv p ptrs) (hf : Found p ptrs pages s pre own rest)
    (hpos : 0 < pages) (henough : ¬ s.freePages < pages) :
    Ends (fun n => p.reuseClaim n pages s)
      (⟨dmaBase + 4096 * p.total pre, own.head?, own⟩, p.mark own .used) ∧
    Claimed p ptrs pages ⟨dmaBase + 4096 * p.total pre, own.head?, own⟩ (p.mark own .used) ptrs := by
  have hres := hf.result
  subst hres
  have hsplit := hf.split
  have hle : pages ≤ p.total own ∧ p.total own.dropLast < pages :=
    hf.size.resolve_right fun hc => henough hc.1
  have hne : own ≠ [] := by
    rintro rfl
    rw [total_nil] at hle
    omega
  have hown : ∀ x ∈ own, x ∈ ptrs := by
    intro x hx
    rw [hsplit]
    simp [hx]
  have htotal := h.total_le
  rw [hsplit, total_append, total_append] at htotal
  -- the links lead through the run
  have hlink := h.linked
  rw [hsplit, List.append_assoc] at hlink
  obtain ⟨b, -, hlink⟩ := Lseg.append_iff.mp hlink
  obtain ⟨b', hlink, -⟩ := Lseg.append_iff.mp hlink
  have hb : b = own.head? := by
    obtain ⟨y, l, rfl⟩ := List.exists_cons_of_ne_nil hne
    exact hlink.1
  subst hb
  have htake : Ends (fun n => takeRun pages n own.head? 0 p) (own, p.mark own .used) :=
    takeRun_spec (fun y hy => h.valid (hown y hy)) hlink (by omega) (fun _ => by omega) (by omega)
  refine ⟨(htake.map fun t => (Claim.mk (dmaBase + 4096 * p.total pre) own.head? t.1, t.2)).congr fun n => ?_, ?_⟩
  · rw [reuseClaim]
    exact Option.map_eq_bind.symm
  · exact
      { inv := h.toPoolShape.mark hown (by decide)
        grows := List.prefix_refl _
        place := ⟨pre, ⟨rest, hsplit.symm⟩, by rw [mark_total]⟩
        nonempty := hne
        home := rfl
        enough := by
          rw [mark_total]
          exact hle.1
        taken := fun x hx => by rw [mark_entry_of_mem hx]
        free := fun x _ hx => hf.free x hx
        others := fun x _ hx => by rw [mark_entry_of_notMem hx]
        sizes := fun x _ => mark_size _ _ _ _ }

/-- **A new extent, together with the free extents in front of it.** -/
theorem growClaim_spec (h : PoolShape p ptrs) (hf : Found p ptrs pages s pre own rest)
    (hless : s.freePages < pages) {p₁ q : DmaPool} {header y : EntryPtr} {j : Nat}
    (hcarve : p₁.carve header (pages - s.freePages) = some (y, q))
    (hg : Grown p ptrs y (pages - s.freePages) j q) :
    Ends (fun n => p₁.growClaim n header pages s)
      (⟨dmaBase + 4096 * p.total pre, (own ++ [y]).head?, own ++ [y]⟩, q.mark own .used) ∧
    Claimed p ptrs pages ⟨dmaBase + 4096 * p.total pre, (own ++ [y]).head?, own ++ [y]⟩
      (q.mark own .used) (ptrs ++ [y]) := by
  have hres := hf.result
  subst hres
  obtain ⟨-, rfl⟩ : p.total own < pages ∧ rest = [] := by
    refine hf.size.resolve_left fun hc => ?_
    have hlt : p.total own < pages := hless
    omega
  have hsplit : ptrs = pre ++ own := by
    rw [hf.split, List.append_nil]
  have hown : ∀ x ∈ own, x ∈ ptrs := by
    intro x hx
    rw [hsplit]
    exact List.mem_append_right _ hx
  have hfresh : ∀ x ∈ ptrs, x ≠ y := by
    intro x hx
    exact ((List.pairwise_append.mp hg.inv.sorted).2.2 x hx y (by simp)).ne
  have hy : y ∉ own := fun hc => hfresh y (hown y hc) rfl
  have hsizes : ∀ x ∈ ptrs, (q.entry x).sizeInPages = (p.entry x).sizeInPages :=
    fun x hx => (hg.kept x hx).2
  have hpre : q.total pre = p.total pre := total_congr fun x hx => hsizes x (by
    rw [hsplit]
    exact List.mem_append_left _ hx)
  have htot : q.total own = p.total own := total_congr fun x hx => hsizes x (hown x hx)
  constructor
  · by_cases hnil : own = []
    · subst hnil
      rw [mark_nil]
      refine (Ends.const _).congr fun n => ?_
      rw [growClaim, hcarve]
      simp only [Option.bind_eq_bind, Option.bind_some]
      rw [total_nil, if_neg (by decide)]
      rfl
    · -- the links lead through the run to the new extent
      have hlink := hg.inv.linked
      rw [hsplit] at hlink
      obtain ⟨hlink, -⟩ := Lseg.concat_iff.mp hlink
      obtain ⟨b, -, hlink⟩ := Lseg.append_iff.mp hlink
      obtain ⟨z, l, rfl⟩ := List.exists_cons_of_ne_nil hnil
      obtain rfl : b = some z := hlink.1
      have htake : Ends (fun n => takeUntil y n (some z) q) (z :: l, q.mark (z :: l) .used) :=
        takeUntil_spec (fun x hx => hg.inv.valid (List.mem_append_left _ (hown x hx))) hlink hy
      refine (htake.map fun t => (Claim.mk (dmaBase + 4096 * p.total pre) (some z) (t.1 ++ [y]), t.2)).congr fun n => ?_
      rw [growClaim, hcarve]
      simp only [Option.bind_eq_bind, Option.bind_some]
      rw [if_pos (total_pos (fun x hx => h.size_pos x (hown x hx)) hnil)]
      exact Option.map_eq_bind.symm
  refine
    { inv := hg.inv.mark (fun x hx => List.mem_append_left _ (hown x hx)) (by decide)
      grows := List.prefix_append _ _
      place := ⟨pre, ⟨[], by rw [hsplit]; simp⟩, by rw [mark_total, hpre]⟩
      nonempty := by simp
      home := rfl
      enough := ?_
      taken := fun x hx => ?_
      free := fun x hx hc => ?_
      others := fun x hx hc => ?_
      sizes := fun x hx => (mark_size _ _ _ _).trans (hsizes x hx) }
  · rw [mark_total, total_append, total_cons, total_nil, hg.new, htot]
    simp only
    omega
  · rcases List.mem_append.mp hx with hx | hx
    · rw [mark_entry_of_mem hx]
    · rw [List.mem_singleton.mp hx, mark_entry_of_notMem hy, hg.new]
  · rcases List.mem_append.mp hc with hc | hc
    · exact hf.free x hc
    · exact absurd (List.mem_singleton.mp hc) (hfresh x hx)
  · rw [mark_entry_of_notMem fun hc' => hc (List.mem_append_left _ hc')]
    exact (hg.kept x hx).1

/-- The pool at boot, when no allocation was made yet. -/
structure Empty (p : DmaPool) : Prop where
  /-- No metadata page is mapped. -/
  mapped : ∀ k, p.mapped k = false
  /-- Not even the first. -/
  header : p.dmaHeader = none
  /-- There is no extent. -/
  entries : p.dmaEntries = 0
  /-- The second page will be the first to be counted. -/
  pages : p.dmaMetadataPages = 0
  /-- The first page goes to `DMA_POOL`. -/
  top : p.dmaTop = dmaPoolBase

/-- **The first extent.** -/
theorem firstClaim_spec (h : p.Empty) (fresh : EntryPtr → DmaEntry) (hpos : 0 < pages) :
    ∃ p₁ q, p.openPool fresh = some p₁ ∧ p₁.dmaEntries = 0 ∧
      p₁.firstClaim pages = some (⟨0, 1⟩, q) ∧
      Claimed p [] pages ⟨dmaBase, some ⟨0, 1⟩, [⟨0, 1⟩]⟩ q [⟨0, 1⟩] ∧
      q.dmaMetadataPages = 0 ∧ q.entry ⟨0, 1⟩ = ⟨.used, pages, none⟩ ∧
      (q.entry ⟨0, 0⟩).sizeInPages = 202 := by
  let p₁ : DmaPool :=
    { p with
      entry := Function.update (fun x => if x.page = 0 then fresh x else p.entry x) ⟨0, 0⟩
        ⟨.header, 203, none⟩
      mapped := Function.update p.mapped 0 true
      dmaTop := p.dmaTop + 0x1000
      dmaHeader := some ⟨0, 0⟩
      dmaLimit := 203 }
  have hvalid : ∀ i, i < 204 → p₁.Valid ⟨0, i⟩ := fun i hi =>
    ⟨Function.update_self 0 true p.mapped, hi⟩
  have hp₁ : p.openPool fresh = some p₁ := by
    rw [openPool, mapPage, modify_eq]
    · rfl
    · exact ⟨Function.update_self 0 true p.mapped, by decide⟩
  have hfirst : ∀ e, Function.update p₁.entry ⟨0, 1⟩ e ⟨0, 0⟩ = ⟨.header, 203, none⟩ := by
    intro e
    rw [Function.update_of_ne (by simp)]
    simp only [p₁]
    rw [Function.update_self]
  let q : DmaPool :=
    { p₁ with
      entry := Function.update (Function.update p₁.entry ⟨0, 1⟩ ⟨.used, pages, none⟩) ⟨0, 0⟩
        ⟨.header, 202, none⟩
      dmaStart := some ⟨0, 1⟩
      dmaLatest := some ⟨0, 1⟩
      dmaEntries := p.dmaEntries + 1 }
  have hq : p₁.firstClaim pages = some (⟨0, 1⟩, q) := by
    have hheader : p₁.dmaHeader = some ⟨0, 0⟩ := rfl
    rw [firstClaim, hheader]
    simp only [Option.bind_eq_bind, Option.bind_some, EntryPtr.succ, Nat.zero_add]
    rw [modify_eq (hvalid 1 (by decide)), Option.bind_some, modify_eq, Option.bind_some]
    · simp only [hfirst]
      rfl
    · exact hvalid 0 (by decide)
  have hnew : q.entry ⟨0, 1⟩ = ⟨.used, pages, none⟩ := by
    simp only [q]
    rw [Function.update_of_ne (by simp), Function.update_self]
  have hhead : q.entry ⟨0, 0⟩ = ⟨.header, 202, none⟩ := by
    simp only [q]
    rw [Function.update_self]
  have hM : q.dmaMetadataPages = 0 := h.pages
  have hinv : PoolShape q [⟨0, 1⟩] :=
    { header := rfl
      limit := rfl
      entries := Nat.succ_ne_zero _
      top := by
        show p.dmaTop + 0x1000 = dmaPoolBase + 4096 * (p.dmaMetadataPages + 1)
        rw [h.top, h.pages]
      mapped := fun k => by
        show Function.update p.mapped 0 true k = true ↔ k ≤ p.dmaMetadataPages
        rw [h.pages]
        by_cases hk : k = 0
        · simp [hk]
        · rw [Function.update_of_ne hk, h.mapped]
          simp [hk]
      headers := fun k hk => by
        obtain rfl : k = 0 := by omega
        rw [next, hhead, hM]
        exact ⟨rfl, rfl⟩
      counters := fun k hk => by
        obtain rfl : k = 0 := by omega
        rw [hhead]
        decide
      linked := ⟨rfl, by rw [next, hnew]; rfl⟩
      latest := ⟨[], ⟨0, 1⟩, rfl, rfl, hM.symm⟩
      sorted := List.pairwise_singleton _ _
      slots := fun x hx => by
        rw [List.mem_singleton.mp hx]
        exact ⟨by decide, by decide, Nat.zero_le _⟩
      filled := fun x hx s h1 h2 => by
        rw [List.mem_singleton.mp hx] at h2
        have h2' : s < 1 := h2
        omega
      first := fun k hk => by
        obtain rfl : k = 0 := by omega
        exact List.mem_singleton.mpr rfl
      status := fun x hx => by
        rw [List.mem_singleton.mp hx, hnew]
        simp
      size_pos := fun x hx => by
        rw [List.mem_singleton.mp hx, hnew]
        exact hpos }
  refine ⟨p₁, q, hp₁, h.entries, hq, ?_, hM, hnew, by rw [hhead]⟩
  exact
    { inv := hinv
      grows := List.nil_prefix
      place := ⟨[], List.prefix_refl _, rfl⟩
      nonempty := by simp
      home := rfl
      enough := by
        rw [total_cons, total_nil, hnew]
        exact Nat.le_refl _
      taken := fun x hx => by rw [List.mem_singleton.mp hx, hnew]
      free := fun x hx => absurd hx (by simp)
      others := fun x hx => absurd hx (by simp)
      sizes := fun x hx => absurd hx (by simp) }

end DmaPool

end Dem64
