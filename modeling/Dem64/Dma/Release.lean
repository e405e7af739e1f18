import Dem64.Dma.Extents

/-!
# Extents given back

`free_dma` marks the extents of an allocation free and counts each of them in the header of its
page, which `find_header` finds by walking back (`releaseLoop_spec`).  A page whose counter has
reached `dma_limit` is then cut off.  For the last page that is what `dropPage_spec` says: all its
extents leave the list, whatever their status is.
-/

set_option autoImplicit false

namespace Dem64

/-- How many extents of a list are in the metadata page `k`. -/
def inPage (l : List EntryPtr) (k : Nat) : Nat := l.countP fun x => x.page = k

/-- `q` is `p` with the extents `own` marked free and counted, in the pages up to the last. -/
structure Released (p : DmaPool) (own : List EntryPtr) (q : DmaPool) : Prop where
  /-- Nothing but entries is written. -/
  same : q = { p with entry := q.entry }
  /-- The extents are free. -/
  freed : ∀ x ∈ own, q.entry x = { p.entry x with status := .free }
  /-- The others are not touched. -/
  others : ∀ x, x ∉ own → x.slot ≠ 0 → q.entry x = p.entry x
  /-- The counters go up. -/
  headers : ∀ k, k ≤ p.dmaMetadataPages → q.entry ⟨k, 0⟩ =
    { p.entry ⟨k, 0⟩ with sizeInPages := ((p.entry ⟨k, 0⟩).sizeInPages + inPage own k) % 2 ^ 64 }

section

variable {p q : DmaPool} {ptrs own : List EntryPtr}

theorem Released.inv (hr : Released p own q) (h : PoolInv p ptrs) : PoolInv q ptrs := by
  refine h.of_status hr.same (fun k hk => ?_) fun x hx => ?_
  · rw [DmaPool.next, hr.headers k hk]
    exact ⟨rfl, rfl, Nat.mod_lt _ (by decide)⟩
  · rw [DmaPool.next]
    by_cases hx' : x ∈ own
    · rw [hr.freed x hx']
      exact ⟨by simp, rfl, rfl⟩
    · rw [hr.others x hx' (by have := (h.slots x hx).1; omega)]
      exact ⟨h.status x hx, rfl, rfl⟩

namespace DmaPool

/-- `find_header` walks back to the header of the page. -/
theorem findHeader_spec (h : PoolInv p ptrs) {k : Nat} (hk : k ≤ p.dmaMetadataPages) :
    ∀ {s : Nat}, (1 ≤ s → (⟨k, s⟩ : EntryPtr) ∈ ptrs) → p.findHeader k s = some ⟨k, 0⟩
  | 0, _ => by
    rw [findHeader, get_eq (h.valid_header hk), Option.bind_eq_bind, Option.bind_some,
      if_neg (by rw [(h.headers k hk).1]; simp)]
    rfl
  | s + 1, hs => by
    have hmem := hs (by omega)
    rw [findHeader, get_eq (h.valid hmem), Option.bind_eq_bind, Option.bind_some,
      if_pos (h.status _ hmem)]
    exact findHeader_spec h hk fun h1 => h.filled _ hmem s h1 (Nat.lt_succ_self s)

/-- One extent is marked free and counted. -/
theorem releaseLoop_step (h : PoolInv p ptrs) {y : EntryPtr} (hy : y ∈ ptrs) (n : Nat) :
    ∃ q, releaseLoop (n + 1) (some y) p = releaseLoop n (p.next y) q ∧ Released p [y] q := by
  have hpage := (h.slots y hy).2.2
  have hslot := (h.slots y hy).1
  have hy0 := h.ne_header hy
  have hvalid := h.valid_header hpage
  have hinv := @PoolInv.mark _ _ [y] h (fun x hx => List.mem_singleton.mp hx ▸ hy) .free (by simp)
  have hhead : ∀ k, (p.mark [y] .free).entry ⟨k, 0⟩ = p.entry ⟨k, 0⟩ := fun k =>
    mark_entry_of_notMem fun hc => hy0 k (List.mem_singleton.mp hc).symm
  let c : DmaEntry :=
    { p.entry ⟨y.page, 0⟩ with sizeInPages := ((p.entry ⟨y.page, 0⟩).sizeInPages + 1) % 2 ^ 64 }
  let q : DmaPool :=
    { p.mark [y] .free with entry := Function.update (p.mark [y] .free).entry ⟨y.page, 0⟩ c }
  have hself : q.entry y = { p.entry y with status := .free } := by
    show Function.update _ _ _ _ = _
    rw [Function.update_of_ne (hy0 _), mark_entry_of_mem List.mem_cons_self]
  have hfind : (p.mark [y] .free).findHeader y.page y.slot = some ⟨y.page, 0⟩ :=
    findHeader_spec hinv hpage fun _ => hy
  refine ⟨q, ?_, rfl, fun x hx => ?_, fun x hx h0 => ?_, fun k hk => ?_⟩
  · rw [releaseLoop]
    simp only [Option.bind_eq_bind, Option.bind_some, get_eq (h.valid hy)]
    rw [if_pos (h.status y hy), modify_status (h.valid hy), Option.bind_some, hfind, Option.bind_some,
      modify_eq, Option.bind_some]
    · simp only [hhead, Function.update_of_ne (hy0 _), mark_entry_of_mem List.mem_cons_self]
      rfl
    · exact hvalid
  · rw [List.mem_singleton.mp hx]
    exact hself
  · show Function.update _ _ _ _ = _
    rw [Function.update_of_ne (by rintro rfl; exact h0 rfl), mark_entry_of_notMem hx]
  · show Function.update _ _ _ _ = _
    by_cases hk' : k = y.page
    · subst hk'
      rw [Function.update_self]
      simp [c, inPage]
    · have hcount : inPage [y] k = 0 := by
        simp [inPage, Ne.symm hk']
      rw [Function.update_of_ne (by simpa using hk'), hhead, hcount, Nat.add_zero,
        Nat.mod_eq_of_lt (h.counters k hk)]

/-- **The extents of an allocation are marked free and counted in their pages.** -/
theorem releaseLoop_spec {b : Option EntryPtr} : ∀ {own : List EntryPtr} {x : Option EntryPtr}
    {p : DmaPool}, PoolInv p ptrs → (∀ y ∈ own, y ∈ ptrs) → own.Nodup → Lseg p.next x own b →
    ∃ q, releaseLoop own.length x p = some q ∧ Released p own q
  | [], x, p, h, _, _, _ => by
    refine ⟨p, rfl, rfl, by simp, fun _ _ _ => rfl, fun k hk => ?_⟩
    rw [inPage, List.countP_nil, Nat.add_zero, Nat.mod_eq_of_lt (h.counters k hk)]
  | y :: own, x, p, h, hown, hnodup, hlink => by
    obtain ⟨rfl, hnext⟩ := hlink
    have hy := hown y List.mem_cons_self
    obtain ⟨hyown, hnodup⟩ := List.nodup_cons.mp hnodup
    obtain ⟨q₁, hstep, hr₁⟩ := releaseLoop_step h hy own.length
    have hinv₁ := hr₁.inv h
    have hrest : ∀ z ∈ own, q₁.entry z = p.entry z := by
      intro z hz
      refine hr₁.others z (fun hc => hyown (List.mem_singleton.mp hc ▸ hz)) ?_
      have := (h.slots z (hown z (List.mem_cons_of_mem _ hz))).1
      omega
    obtain ⟨q, hq, hr⟩ := releaseLoop_spec hinv₁ (fun z hz => hown z (List.mem_cons_of_mem _ hz))
      hnodup (hnext.congr fun z hz => by rw [next, hrest z hz, next])
    have hpages : q₁.dmaMetadataPages = p.dmaMetadataPages := by rw [hr₁.same]
    refine ⟨q, hstep.trans hq, ?_, fun z hz => ?_, fun z hz h0 => ?_, fun k hk => ?_⟩
    · rw [hr.same, hr₁.same]
    · rcases List.mem_cons.mp hz with rfl | hz
      · have hz0 := (h.slots z hy).1
        rw [hr.others z hyown (by omega), hr₁.freed z List.mem_cons_self]
      · rw [hr.freed z hz, hrest z hz]
    · rw [hr.others z (fun hc => hz (List.mem_cons_of_mem _ hc)) h0, hr₁.others z (fun hc => hz (by
        rw [List.mem_singleton.mp hc]
        exact List.mem_cons_self)) h0]
    · rw [hr.headers k (by omega), hr₁.headers k hk]
      have hcount : inPage (y :: own) k = inPage [y] k + inPage own k := by
        rw [inPage, inPage, inPage, ← List.countP_append]
        rfl
      simp only [hcount, DmaEntry.mk.injEq, true_and, and_true]
      omega

/-! ## The last page -/

/-- A list in the order of addresses is cut at a page. -/
theorem sorted_split {l : List EntryPtr} (h : l.Pairwise EntryPtr.Before) (k : Nat) :
    l = l.filter (·.page < k) ++ l.filter (k ≤ ·.page) := by
  induction l with
  | nil => rfl
  | cons x l ih =>
    obtain ⟨hx, hl⟩ := List.pairwise_cons.mp h
    by_cases hk : x.page < k
    · rw [List.filter_cons_of_pos (by simpa using hk), List.filter_cons_of_neg (by simpa using hk),
        List.cons_append, ← ih hl]
    · -- everything behind `x` is in the later pages as well
      have hlater : ∀ y ∈ l, k ≤ y.page := fun y hy => by
        rcases hx y hy with h1 | ⟨h1, -⟩ <;> omega
      rw [List.filter_cons_of_neg (by simpa using hk),
        List.filter_cons_of_pos (by simpa using Nat.not_lt.mp hk),
        List.filter_eq_nil_iff.mpr fun y hy => by simpa using hlater y hy,
        List.filter_eq_self.mpr fun y hy => by simpa using hlater y hy]
      rfl

/-- The entry in front of `first` is found, if the bound is large enough. -/
theorem findPrevious_spec {first z : EntryPtr} : ∀ {l : List EntryPtr} {x : Option EntryPtr} {n : Nat},
    (∀ y ∈ l ++ [z], p.Valid y) → first ∉ l ++ [z] → Lseg p.next x (l ++ [z]) (some first) →
    p.findPrevious first n x = if l.length < n then some z else none
  | l, x, 0, _, _, _ => by rw [findPrevious, if_neg (by omega)]
  | [], x, n + 1, hvalid, _, hlink => by
    obtain ⟨rfl, hnext⟩ := hlink
    rw [findPrevious]
    simp only [Option.bind_eq_bind, Option.bind_some, get_eq (hvalid z (by simp))]
    rw [if_pos (show (p.entry z).nextEntry = some first from hnext), if_pos (by simp)]
    rfl
  | y :: l, x, n + 1, hvalid, hfirst, hlink => by
    obtain ⟨rfl, hnext⟩ := hlink
    have hne : p.next y ≠ some first := by
      -- the next entry is in the list, and `first` is not
      obtain ⟨w, l', hw⟩ := List.exists_cons_of_ne_nil (show l ++ [z] ≠ [] by simp)
      rw [List.append_eq, hw] at hnext
      rw [hnext.1]
      intro hc
      refine hfirst (List.mem_cons_of_mem _ ?_)
      rw [List.append_eq, hw, ← Option.some_inj.mp hc]
      exact List.mem_cons_self
    rw [findPrevious]
    simp only [Option.bind_eq_bind, Option.bind_some, get_eq (hvalid y List.mem_cons_self)]
    rw [if_neg (show ¬ (p.entry y).nextEntry = some first from hne)]
    have hrec := findPrevious_spec (n := n) (fun w hw => hvalid w (List.mem_cons_of_mem _ hw))
      (fun hc => hfirst (List.mem_cons_of_mem _ hc)) hnext
    rw [show (p.entry y).nextEntry = p.next y from rfl, hrec]
    simp

/-- The extents in front of the last page, and those in it. -/
theorem last_split (h : PoolInv p ptrs) (hpos : 0 < p.dmaMetadataPages) :
    ∃ A z B, ptrs = A ++ [z] ++ ⟨p.dmaMetadataPages, 1⟩ :: B ∧
      ptrs.filter (·.page < p.dmaMetadataPages) = A ++ [z] ∧ z.page = p.dmaMetadataPages - 1 := by
  have hsplit := sorted_split h.sorted p.dmaMetadataPages
  have hfront : ∀ k, k < p.dmaMetadataPages →
      (⟨k, 1⟩ : EntryPtr) ∈ ptrs.filter (·.page < p.dmaMetadataPages) := fun k hk =>
    List.mem_filter.mpr ⟨h.first k (by omega), by simpa using hk⟩
  have hback : (⟨p.dmaMetadataPages, 1⟩ : EntryPtr) ∈ ptrs.filter (p.dmaMetadataPages ≤ ·.page) :=
    List.mem_filter.mpr ⟨h.first _ (Nat.le_refl _), by simp⟩
  have hsorted := h.sorted
  rw [hsplit] at hsorted
  obtain ⟨hA, hB, -⟩ := List.pairwise_append.mp hsorted
  have hmemA : ∀ x ∈ ptrs.filter (·.page < p.dmaMetadataPages), x.page < p.dmaMetadataPages :=
    fun x hx => by simpa using (List.mem_filter.mp hx).2
  have hmemB : ∀ x ∈ ptrs.filter (p.dmaMetadataPages ≤ ·.page), x ∈ ptrs ∧
      p.dmaMetadataPages ≤ x.page := fun x hx =>
    ⟨(List.mem_filter.mp hx).1, by simpa using (List.mem_filter.mp hx).2⟩
  generalize ptrs.filter (·.page < p.dmaMetadataPages) = front at *
  generalize ptrs.filter (p.dmaMetadataPages ≤ ·.page) = back at *
  obtain ⟨w, B, rfl⟩ := List.exists_cons_of_ne_nil (List.ne_nil_of_mem hback)
  have hw : w = ⟨p.dmaMetadataPages, 1⟩ := by
    obtain ⟨hwp, hwM⟩ := hmemB w List.mem_cons_self
    have hws := h.slots w hwp
    rcases List.mem_cons.mp hback with hc | hc
    · exact hc.symm
    · rcases (List.pairwise_cons.mp hB).1 _ hc with h1 | ⟨-, h1⟩
      · exact absurd h1 (show ¬ w.page < p.dmaMetadataPages by omega)
      · exact absurd h1 (show ¬ w.slot < 1 by omega)
  subst hw
  obtain ⟨A, z, rfl⟩ := List.eq_nil_or_concat'
    front |>.resolve_left (List.ne_nil_of_mem (hfront 0 hpos))
  refine ⟨A, z, B, hsplit, rfl, ?_⟩
  have hz := hmemA z (by simp)
  rcases List.mem_append.mp (hfront (p.dmaMetadataPages - 1) (by omega)) with hc | hc
  · rcases (List.pairwise_append.mp hA).2.2 _ hc z (by simp) with h1 | ⟨h1, -⟩
    · have h1' : p.dmaMetadataPages - 1 < z.page := h1
      omega
    · exact h1.symm
  · rw [← List.mem_singleton.mp hc]

/-- **The last page is cut off**, and its extents with it. -/
theorem dropPage_spec (h : PoolInv p ptrs) (hpos : 0 < p.dmaMetadataPages) :
    ∃ q N, (∀ n, p.dropPage n ⟨p.dmaMetadataPages, 0⟩ = if N < n then some q else none) ∧
      PoolInv q (ptrs.filter (·.page < p.dmaMetadataPages)) ∧
      q.dmaMetadataPages = p.dmaMetadataPages - 1 ∧
      ∀ x, (q.entry x).status = (p.entry x).status ∧
        (q.entry x).sizeInPages = (p.entry x).sizeInPages := by
  obtain ⟨A, z, B, hsplit, hfront, hz⟩ := last_split h hpos
  have hmem : ∀ x ∈ A ++ [z], x ∈ ptrs := fun x hx => by
    rw [hsplit]
    exact List.mem_append_left _ hx
  have hzp := hmem z (by simp)
  have hpage : ∀ x ∈ A ++ [z], x.page < p.dmaMetadataPages := fun x hx => by
    rw [← hfront] at hx
    simpa using (List.mem_filter.mp hx).2
  have hkept : ∀ x ∈ ptrs, x.page < p.dmaMetadataPages → x ∈ A ++ [z] := fun x hx hp => by
    rw [← hfront]
    exact List.mem_filter.mpr ⟨hx, by simpa using hp⟩
  generalize hM : p.dmaMetadataPages = M at *
  have hlink := h.linked
  rw [hsplit] at hlink
  obtain ⟨c, hlink, rfl, -⟩ := Lseg.append_iff.mp hlink
  have hprev : ∀ n, p.findPrevious ⟨M, 1⟩ n p.dmaStart = if A.length < n then some z else none :=
    fun n => findPrevious_spec (fun x hx => h.valid (hmem x hx))
      (fun hc => absurd (hpage _ hc) (Nat.lt_irrefl M)) hlink
  have hz0 : ∀ k, z ≠ ⟨k, 0⟩ := h.ne_header hzp
  have hvz := h.valid hzp
  have hvh : p.Valid ⟨M - 1, 0⟩ := h.valid_header (by omega)
  let q : DmaPool :=
    { p with
      entry := Function.update (Function.update p.entry z { p.entry z with nextEntry := none })
        ⟨M - 1, 0⟩ { p.entry ⟨M - 1, 0⟩ with nextEntry := none }
      mapped := Function.update p.mapped M false
      dmaEntries := (M - 1 + 1) * p.dmaLimit
      dmaLatest := some z
      dmaMetadataPages := M - 1
      dmaTop := p.dmaTop - 0x1000 }
  have hentry : ∀ x, x ≠ z → x ≠ ⟨M - 1, 0⟩ → q.entry x = p.entry x := fun x h1 h2 => by
    show Function.update _ _ _ _ = _
    rw [Function.update_of_ne h2, Function.update_of_ne h1]
  have hqz : q.entry z = { p.entry z with nextEntry := none } := by
    show Function.update _ _ _ _ = _
    rw [Function.update_of_ne (hz0 _), Function.update_self]
  have hqh : q.entry ⟨M - 1, 0⟩ = { p.entry ⟨M - 1, 0⟩ with nextEntry := none } := by
    simp only [q]
    rw [Function.update_self]
  have hsame : ∀ x, (q.entry x).status = (p.entry x).status ∧
      (q.entry x).sizeInPages = (p.entry x).sizeInPages := fun x => by
    by_cases h1 : x = z
    · rw [h1, hqz]
      exact ⟨rfl, rfl⟩
    · by_cases h2 : x = ⟨M - 1, 0⟩
      · rw [h2, hqh]
        exact ⟨rfl, rfl⟩
      · rw [hentry x h1 h2]
        exact ⟨rfl, rfl⟩
  refine ⟨q, A.length, fun n => ?_, ?_, rfl, hsame⟩
  · rw [dropPage]
    show (p.findPrevious ⟨M, 0 + 1⟩ n p.dmaStart).bind _ = _
    rw [hprev]
    split
    · rw [Option.bind_some, modify_eq hvz]
      simp only [Option.bind_eq_bind, Option.bind_some]
      rw [if_neg (by omega), Option.pure_def, modify_eq, Option.bind_some]
      · simp only [Function.update_of_ne (hz0 (M - 1)).symm, hM]
        rfl
      · exact hvh
    · rfl
  · rw [hfront]
    have hA : ∀ x ∈ A ++ [z], x ≠ z → q.next x = p.next x := fun x hx hne => by
      rw [next, hentry x hne (h.ne_header (hmem x hx) _), next]
    have hnodup := h.nodup
    rw [hsplit] at hnodup
    have hAz := (List.nodup_append.mp (List.nodup_append.mp hnodup).1).2.2
    exact
      { header := h.header
        limit := h.limit
        entries := by
          show (M - 1 + 1) * p.dmaLimit ≠ 0
          rw [h.limit]
          omega
        top := by
          show p.dmaTop - 0x1000 = dmaPoolBase + 4096 * (M - 1 + 1)
          rw [h.top, hM]
          omega
        mapped := fun k => by
          show Function.update p.mapped M false k = true ↔ k ≤ M - 1
          by_cases hk : k = M
          · subst hk
            rw [Function.update_self]
            simp only [Bool.false_eq_true, false_iff]
            omega
          · rw [Function.update_of_ne hk, h.mapped, hM]
            omega
        headers := fun k hk => by
          have hk' : k ≤ M - 1 := hk
          have hh := h.headers k (by omega)
          rw [hM] at hh
          rw [(hsame _).1]
          refine ⟨hh.1, ?_⟩
          show q.next ⟨k, 0⟩ = if k < M - 1 then some ⟨k + 1, 0⟩ else none
          by_cases hkM : k = M - 1
          · subst hkM
            rw [next, hqh, if_neg (Nat.lt_irrefl _)]
          · rw [next, hentry _ (hz0 k).symm (by simpa using hkM), if_pos (by omega)]
            rw [if_pos (by omega)] at hh
            exact hh.2
        counters := fun k hk => by
          have hk' : k ≤ M - 1 := hk
          rw [(hsame _).2]
          exact h.counters k (by omega)
        linked := hlink.cut (fun y hy => hA y (List.mem_append_left _ hy) fun hc =>
          hAz y hy z (by simp) hc) (by rw [next, hqz])
        latest := ⟨A, z, rfl, rfl, hz⟩
        sorted := by
          have hs := h.sorted
          rw [hsplit] at hs
          exact (List.pairwise_append.mp hs).1
        slots := fun x hx => by
          have h1 := h.slots x (hmem x hx)
          have h2 := hpage x hx
          refine ⟨h1.1, h1.2.1, ?_⟩
          show x.page ≤ M - 1
          omega
        filled := fun x hx s h1 h2 => hkept _ (h.filled x (hmem x hx) s h1 h2) (hpage x hx)
        first := fun k hk => by
          have hk' : k ≤ M - 1 := hk
          exact hkept _ (h.first k (by omega)) (show k < M by omega)
        status := fun x hx => by
          rw [(hsame x).1]
          exact h.status x (hmem x hx)
        size_pos := fun x hx => by
          rw [(hsame x).2]
          exact h.size_pos x (hmem x hx)
        total_le := by
          have ht := h.total_le
          rw [hsplit, total_append] at ht
          rw [total_congr fun x _ => (hsame x).2]
          omega }

end DmaPool

end

end Dem64
