import Dem64.Kmalloc.Runs

/-!
# The bookkeeping of the slabs

Between two calls the records of every slab page agree (`books_of_run`): the number of free objects of a
slab is that of the clear bits of its map, a slab is in one of the two caches of its page, and in the one
of the unused slabs if it has no objects in use and no page.

`check_page` takes `max` for the number of slots, which is that of the pages behind the first one; there it
tells whether all slabs are unused.  `kfree` calls it for no other page.
-/

set_option autoImplicit false

namespace Dem64.Kmalloc

open BitRow

namespace Heap

/-- The slab pages, from `shd` on. -/
inductive SlabPage (s : Heap) : Nat → Prop
  | first : s.shd ≠ 0 → SlabPage s s.shd
  | next {p : Nat} : SlabPage s p → (s.hd p).nextPage ≠ 0 → SlabPage s (s.hd p).nextPage

/-- Slab `i` of the page `p` is in the cache of the used slabs, at its index. -/
def InUsed (s : Heap) (p i : Nat) : Prop :=
  getIndex (slabAt p i) < (s.cache (s.hd p).usedCache).index ∧
    (s.cache (s.hd p).usedCache).addresses (getIndex (slabAt p i)) = slabAt p i

/-- It is entry `j` of the cache of the unused slabs. -/
def UnusedAt (s : Heap) (p i j : Nat) : Prop :=
  j < (s.cache (s.hd p).unusedCache).index ∧ (s.cache (s.hd p).unusedCache).addresses j = slabAt p i

/-- It is in the cache of the unused slabs. -/
def InUnused (s : Heap) (p i : Nat) : Prop := ∃ j, s.UnusedAt p i j

/-- The records of the slab page `p` agree. -/
structure Books (s : Heap) (p : Nat) : Prop where
  free : ∀ i < s.carved p, (s.slab (slabAt p i)).freeObs = 128 - ones (s.slab (slabAt p i)).cache2048 128
  /-- A slab is in one cache, and once. -/
  cached : ∀ i < s.carved p, s.InUsed p i ∨ s.InUnused p i
  apart : ∀ i < s.carved p, ¬ (s.InUsed p i ∧ s.InUnused p i)
  once : ∀ i < s.carved p, ∀ j k, s.UnusedAt p i j → s.UnusedAt p i k → j = k
  unused : ∀ i < s.carved p, (s.InUnused p i ↔
    (∀ j < 128, bit (s.slab (slabAt p i)).cache2048 j = false) ∧ (s.slab (slabAt p i)).pageBase = invalidBase)
  /-- The cache of the used slabs has no other entries than slabs of the page. -/
  used : ∀ j < (s.cache (s.hd p).usedCache).index,
    (s.cache (s.hd p).usedCache).addresses j = invalidBase ∨
      ∃ i < s.carved p, (s.cache (s.hd p).usedCache).addresses j = slabAt p i
  entries : (s.hd p).unusedEntries = (s.cache (s.hd p).unusedCache).index

/-- `check_page` tells whether all slabs of the page are unused. -/
def Checks (s : Heap) (p : Nat) : Prop := checkPage p s = true ↔ ∀ i < s.carved p, s.InUnused p i

end Heap

section

variable {L : Layout} {live : Set (Nat × Nat)} {s : Heap} {p i j k : Nat} {u : Nat → Prop} {v : PageView}

/-! ## The list -/

theorem HeapOk.slabPage_iff (h : HeapOk L s) : s.SlabPage p ↔ p ∈ L.pages := by
  constructor
  · intro hp
    induction hp with
    | first hne =>
      have hhead := h.head
      cases hl : L.pages with
      | nil =>
        rw [hl] at hhead
        exact absurd hhead.symm hne
      | cons q l =>
        rw [hl] at hhead
        exact hhead ▸ List.mem_cons_self
    | next _ hne ih =>
      obtain ⟨l, r, hl⟩ := List.append_of_mem ih
      rw [(h.next hl).1] at hne ⊢
      cases r with
      | nil => exact absurd rfl hne
      | cons q r =>
        rw [hl]
        simp
  · intro hp
    obtain ⟨l, r, hl⟩ := List.append_of_mem hp
    induction l using List.reverseRecOn generalizing p r with
    | nil =>
      have hhead := h.head
      rw [hl] at hhead
      have hhead : p = s.shd := hhead
      have hne := (h.aligned p hp).2.1
      rw [hhead] at hne ⊢
      exact .first hne
    | append_singleton l q ih =>
      rw [List.append_assoc, List.singleton_append] at hl
      have hnext : (s.hd q).nextPage = p := (h.next hl).1
      have hq := ih (h.next hl).2.1 (p :: r) hl
      have hstep := hq.next (hnext ▸ (h.aligned p hp).2.1)
      rwa [hnext] at hstep

/-! ## The records -/

/-- A slab is in the stack once. -/
theorem PageOk.stack_inj (h : PageOk p u v) (hj : j < v.unused.index) (hk : k < v.unused.index)
    (heq : v.unused.addresses j = v.unused.addresses k) : j = k := by
  obtain ⟨l, hnd, -, hlen, haddr⟩ := h.stack
  rw [haddr j (by omega), haddr k (by omega), slabAt_inj] at heq
  exact (hnd.getElem_inj_iff).mp heq

theorem HeapOk.inUnused_iff (h : HeapOk L s) (hp : p ∈ L.pages) (hi : i < s.carved p) :
    s.InUnused p i ↔ ¬ (s.view p).InUse i := (h.ok p hp).unused_iff hi

theorem HeapOk.inUsed_iff (h : HeapOk L s) (hp : p ∈ L.pages) (hi : i < s.carved p) :
    s.InUsed p i ↔ (s.view p).InUse i := by
  have hok := h.ok p hp
  rw [Heap.InUsed, getIndex_slabAt (h.aligned p hp).1 (Nat.lt_of_lt_of_le hi (h.carved_le hp))]
  constructor
  · rintro ⟨hlt, heq⟩
    by_contra hu
    have hinvalid : (s.cache (s.hd p).usedCache).addresses i = invalidBase := (hok.used i hlt).2 hu
    rw [heq, invalidBase, slabAt] at hinvalid
    omega
  · intro hu
    have hlt := (hok.used_lt i hu).2
    exact ⟨hlt, (hok.used i hlt).1 hu⟩

theorem HeapOk.books (h : HeapOk L s) (hp : p ∈ L.pages) : s.Books p := by
  have hok := h.ok p hp
  have hslab : ∀ i < s.carved p, (s.view p).slab i = (s.slab (slabAt p i)).view := fun i hi =>
    view_slab (Nat.lt_of_lt_of_le hi (h.carved_le hp))
  refine ⟨fun i hi => ?_, fun i hi => ?_, fun i hi hand => ?_, fun i _ j k hj hk => ?_, fun i hi => ?_,
    fun j hj => ?_, hok.entries⟩
  · have hfree := hok.free i hi
    rwa [hslab i hi] at hfree
  · rw [h.inUsed_iff hp hi, h.inUnused_iff hp hi]
    exact Classical.em _
  · rw [h.inUsed_iff hp hi, h.inUnused_iff hp hi] at hand
    exact hand.2 hand.1
  · exact hok.stack_inj hj.1 hk.1 (hj.2.trans hk.2.symm)
  · rw [h.inUnused_iff hp hi]
    constructor
    · intro hu
      have hidle := hok.idle i hi hu
      rw [hslab i hi] at hidle
      exact ⟨ones_eq_zero.mp hidle.2, hidle.1⟩
    · rintro ⟨hbits, -⟩ hu
      have hones := hu.2
      rw [hslab i hi] at hones
      exact hones (ones_eq_zero.mpr hbits)
  · by_cases hu : (s.view p).InUse j
    · exact .inr ⟨j, hu.1, (hok.used j hj).1 hu⟩
    · exact .inl ((hok.used j hj).2 hu)

theorem HeapOk.checks (h : HeapOk L s) (hp : p ∈ L.pages) (hne : p ≠ s.shd) : s.Checks p := by
  rw [Heap.Checks, h.checkPage_iff hp hne]
  exact forall₂_congr fun i hi => (h.inUnused_iff hp hi).symm

/-- **The records of all slab pages agree in every state of a run.** -/
theorem books_of_run (h : HeapRun Fits s live) :
    ∀ p, s.SlabPage p → s.Books p ∧ (p ≠ s.shd → s.Checks p) := by
  obtain ⟨⟨L, hinv⟩, -⟩ := h.inv
  intro p hp
  have hmem := hinv.ok.slabPage_iff.mp hp
  exact ⟨hinv.ok.books hmem, hinv.ok.checks hmem⟩

end

/-! ## Runs from the heap at boot -/

/-- The end of the pages that were allocated. -/
def brk : List VaCall → Nat
  | [] => 0x100000
  | .alloc base pages :: l => max (base + 4096 * pages) (brk l)
  | .free _ _ :: l => brk l

/-- Pages behind those that were allocated. -/
def brkEnv : HeapEnv where
  va calls pages :=
    let base := 4096 * ((brk calls + 4095) / 4096)
    if base + 4096 * pages ≤ 2 ^ 64 then { status := 0, base := base, pages := pages, attributes := 3 }
    else { status := 1 }
  slab _ := zeroSlab
  hd _ := default
  cache _ := ⟨fun _ => 0, 0⟩
  header _ := default
  slabPid := 0

theorem lt_brk_of_held {x : Nat} : ∀ {calls : List VaCall}, x ∈ held calls → x < brk calls
  | .alloc base pages :: l, hx => by
    rcases hx with hx | hx
    · exact Nat.lt_of_lt_of_le (lt_brk_of_held hx) (Nat.le_max_right _ _)
    · exact Nat.lt_of_lt_of_le hx.2 (Nat.le_max_left _ _)
  | .free base pages :: l, hx => show x < brk l from lt_brk_of_held hx.1

theorem brk_pos : ∀ calls : List VaCall, 0 < brk calls
  | [] => by decide
  | .alloc _ _ :: l => Nat.lt_of_lt_of_le (brk_pos l) (Nat.le_max_right _ _)
  | .free _ _ :: l => brk_pos l

theorem brkEnv_fresh : brkEnv.Fresh := by
  intro calls pages hstatus
  have hpos := brk_pos calls
  have hva : brkEnv.va calls pages = if 4096 * ((brk calls + 4095) / 4096) + 4096 * pages ≤ 2 ^ 64 then
    { status := 0, base := 4096 * ((brk calls + 4095) / 4096), pages := pages, attributes := 3 }
    else { status := 1 } := rfl
  rw [hva] at hstatus ⊢
  split at hstatus
  · rename_i hfits
    rw [if_pos hfits]
    refine ⟨Nat.mul_mod_right _ _, ?_, hfits, Set.disjoint_left.mpr fun x hx hheld => ?_⟩
    · show 4096 * ((brk calls + 4095) / 4096) ≠ 0
      omega
    · have hle : 4096 * ((brk calls + 4095) / 4096) ≤ x := hx.1
      have hlt := lt_brk_of_held hheld
      omega
  · exact absurd hstatus (by decide)

/-- One block of 100 bytes: its slab page is in order, and it is the first one. -/
theorem books_of_run_one : ∃ s p, HeapRun Fits s {(p, 100)} ∧ s.SlabPage s.shd ∧ s.Books s.shd := by
  have heval : passes (fun r => r.1 != 0 && r.2.shd != 0) (kmalloc brkEnv 129 100 bootHeap) = true := by
    decide +kernel
  obtain ⟨⟨p, s⟩, hcall, hend⟩ := exists_of_passes heval
  rw [Bool.and_eq_true, bne_iff_ne, bne_iff_ne] at hend
  have hrun := (HeapRun.boot (P := Fits) (s := bootHeap) ⟨rfl, rfl, rfl⟩).kmalloc brkEnv_fresh
    (by decide : 100 + 40 + 4095 < 2 ^ 64) (by decide) hcall hend.1
  rw [insert_empty_eq] at hrun
  have hpage := Heap.SlabPage.first (s := s) hend.2
  exact ⟨s, p, hrun, hpage, (books_of_run hrun s.shd hpage).1⟩

/-- **Two ways in which the records do not agree.**  A request for 2^64 - 40 bytes leaves an unused slab
among the used ones.  `check_page` does not tell that the slabs of the first page are unused. -/
theorem books_not_kept :
    (¬ ∀ s live, HeapRun (· < 2 ^ 64) s live → ∀ p, s.SlabPage p → s.Books p) ∧
      ¬ ∀ s live, HeapRun Fits s live → ∀ p, s.SlabPage p → s.Checks p := by
  constructor
  · intro hclaim
    have heval : passes (fun r : Nat × Heap => r.1 != 0 && r.2.shd != 0 && r.2.carved r.2.shd != 0 &&
        (r.2.slab (slabAt r.2.shd 0)).pageBase == invalidBase &&
        (r.2.cache (r.2.hd r.2.shd).unusedCache).index == 0 &&
        ones (r.2.slab (slabAt r.2.shd 0)).cache2048 128 == 0)
        (kmalloc brkEnv 129 (2 ^ 64 - 40) bootHeap) = true := by decide +kernel
    obtain ⟨⟨p, s⟩, hcall, hend⟩ := exists_of_passes heval
    simp only [Bool.and_eq_true, bne_iff_ne, beq_iff_eq] at hend
    obtain ⟨⟨⟨⟨⟨hp, hshd⟩, hcarved⟩, hbase⟩, hindex⟩, hbits⟩ := hend
    have hrun := (HeapRun.boot (P := (· < 2 ^ 64)) (s := bootHeap) ⟨rfl, rfl, rfl⟩).kmalloc brkEnv_fresh
      (by decide) (by decide) hcall hp
    obtain ⟨j, hj, -⟩ := ((hclaim s _ hrun _ (.first hshd)).unused 0 (Nat.pos_of_ne_zero hcarved)).mpr
      ⟨ones_eq_zero.mp hbits, hbase⟩
    omega
  · intro hclaim
    have heval : passes (fun r : Nat × Heap => r.1 != 0 && passes (fun s => s.shd != 0 && s.carved s.shd == 1 &&
        (s.cache (s.hd s.shd).unusedCache).index == 1 &&
        (s.cache (s.hd s.shd).unusedCache).addresses 0 == slabAt s.shd 0 && checkPage s.shd s == false)
        (kfree 129 r.1 r.2)) (kmalloc brkEnv 129 100 bootHeap) = true := by decide +kernel
    obtain ⟨⟨p, s⟩, hcall, hend⟩ := exists_of_passes heval
    rw [Bool.and_eq_true, bne_iff_ne] at hend
    obtain ⟨s', hcall', hend'⟩ := exists_of_passes hend.2
    simp only [Bool.and_eq_true, bne_iff_ne, beq_iff_eq] at hend'
    obtain ⟨⟨⟨⟨hshd, hcarved⟩, hindex⟩, haddr⟩, hcheck⟩ := hend'
    have hrun := ((HeapRun.boot (P := Fits) (s := bootHeap) ⟨rfl, rfl, rfl⟩).kmalloc brkEnv_fresh
      (by decide : 100 + 40 + 4095 < 2 ^ 64) (by decide) hcall hend.1).kfree (Set.mem_insert _ _) (by decide) hcall'
    have hall := (hclaim s' _ hrun _ (.first hshd)).mpr fun i hi => ⟨0, by omega, by
      obtain rfl : i = 0 := by omega
      exact haddr⟩
    rw [hcheck] at hall
    exact absurd hall Bool.false_ne_true

end Dem64.Kmalloc
