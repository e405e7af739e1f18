import Dem64.Kmalloc.Heap

/-!
# One slab page

A slab page as its two caches, its counter of unused slabs and the slabs that were carved in it, by index.
`PageOk` is what holds of it, for a given set of used slabs: each slab is in exactly one of the caches, an
unused one has no page and no objects in use, and `FreeObs` counts the clear bits of the map.

What `kmalloc` and `kfree` do to a page is taking objects of a used slab (`PageOk.take`), taking a slab
from the stack of the unused ones (`PageOk.pop`), carving one (`PageOk.carve`), giving objects back
(`PageOk.give`), and putting a slab back on the stack (`PageOk.release`).  Each of them keeps `PageOk`
with the set of used slabs that it should have.
-/

set_option autoImplicit false

namespace Dem64.Kmalloc

open BitRow

/-- A slab, without its link. -/
structure SlabView where
  base : Nat
  free : Int
  map : Nat → BitVec 8

/-- A slab page. -/
structure PageView where
  /-- How many slots were carved. -/
  carved : Nat
  used : SlabCache
  unused : SlabCache
  unusedEntries : Nat
  slab : Nat → SlabView

/-- Change slab `i`. -/
def PageView.update (v : PageView) (i : Nat) (f : SlabView → SlabView) : PageView :=
  { v with slab := fun j => if j = i then f (v.slab i) else v.slab j }

/-- Slab `i` has objects in use. -/
def PageView.InUse (v : PageView) (i : Nat) : Prop := i < v.carved ∧ ones (v.slab i).map 128 ≠ 0

/-- `req` objects are in use from now on, and the map is `map`. -/
def SlabView.take (map : Nat → BitVec 8) (req : Nat) (e : SlabView) : SlabView :=
  { e with map := map, free := e.free - req }

/-- `req` objects are free from now on, and the map is `map`. -/
def SlabView.give (map : Nat → BitVec 8) (req : Nat) (e : SlabView) : SlabView :=
  { e with map := map, free := e.free + req }

/-- The page in order, `u` telling which slabs are used. -/
structure PageOk (page : Nat) (u : Nat → Prop) (v : PageView) : Prop where
  /-- The slots fit in the page. -/
  carved_le : v.carved ≤ 112
  /-- The used slabs were carved, and are in the cache of the used ones. -/
  used_lt : ∀ i, u i → i < v.carved ∧ i < v.used.index
  /-- That cache ends with the carved slots, or before the last of them. -/
  index_le : v.used.index ≤ v.carved
  carved_le_index : v.carved ≤ v.used.index + 1
  /-- It has no other entries. -/
  used : ∀ i, i < v.used.index → (u i → v.used.addresses i = slabAt page i) ∧
    (¬ u i → v.used.addresses i = invalidBase)
  /-- The other slabs are in the stack. -/
  stack : ∃ l : List Nat, l.Nodup ∧ (∀ i, i ∈ l ↔ i < v.carved ∧ ¬ u i) ∧ v.unused.index = l.length ∧
    ∀ (j : Nat) (h : j < l.length), v.unused.addresses j = slabAt page l[j]
  /-- They are counted. -/
  entries : v.unusedEntries = v.unused.index
  /-- `FreeObs` -/
  free : ∀ i, i < v.carved → (v.slab i).free = 128 - ones (v.slab i).map 128
  /-- They have no page and no objects in use. -/
  idle : ∀ i, i < v.carved → ¬ u i → (v.slab i).base = invalidBase ∧ ones (v.slab i).map 128 = 0
  /-- The used ones have some. -/
  busy : ∀ i, u i → ones (v.slab i).map 128 ≠ 0

section

variable {page i req k s : Nat} {u : Nat → Prop} {v : PageView} {m : Nat → BitVec 8}

theorem slabAt_inj {j : Nat} : slabAt page i = slabAt page j ↔ i = j := by
  rw [slabAt, slabAt]
  omega

/-- A page in which nothing was carved. -/
theorem PageOk.empty (hu : ∀ i, ¬ u i) (hcarved : v.carved = 0) (hused : v.used.index = 0)
    (hunused : v.unused.index = 0) (hentries : v.unusedEntries = 0) : PageOk page u v where
  carved_le := by omega
  used_lt i hi := absurd hi (hu i)
  index_le := by omega
  carved_le_index := by omega
  used i hi := by omega
  stack := by
    refine ⟨[], List.nodup_nil, fun i => ?_, hunused, fun j hj => absurd hj (Nat.not_lt_zero j)⟩
    rw [hcarved]
    exact iff_of_false List.not_mem_nil fun h => absurd h.1 (Nat.not_lt_zero i)
  entries := by omega
  free i hi := by omega
  idle i hi := by omega
  busy i hi := absurd hi (hu i)

/-- The used slabs are those with objects in use. -/
theorem PageOk.inUse_iff (h : PageOk page u v) : v.InUse i ↔ u i := by
  refine ⟨fun hi => ?_, fun hu => ⟨(h.used_lt i hu).1, h.busy i hu⟩⟩
  by_contra hu
  exact hi.2 (h.idle i hi.1 hu).2

theorem PageOk.congr {u' : Nat → Prop} (h : PageOk page u v) (hu : ∀ i, u' i ↔ u i) :
    PageOk page u' v := by
  obtain rfl : u' = u := funext fun i => propext (hu i)
  exact h

theorem PageOk.settle (h : PageOk page u v) : PageOk page v.InUse v := h.congr fun _ => h.inUse_iff

/-- A slab is in exactly one of the caches. -/
theorem PageOk.unused_iff (h : PageOk page u v) (hi : i < v.carved) :
    (∃ j, j < v.unused.index ∧ v.unused.addresses j = slabAt page i) ↔ ¬ u i := by
  obtain ⟨l, -, hmem, hlen, haddr⟩ := h.stack
  constructor
  · rintro ⟨j, hj, heq⟩
    rw [haddr j (by omega), slabAt_inj] at heq
    exact ((hmem i).mp (heq ▸ List.getElem_mem _)).2
  · intro hu
    obtain ⟨j, hj, rfl⟩ := List.getElem_of_mem ((hmem i).mpr ⟨hi, hu⟩)
    exact ⟨j, by omega, haddr j hj⟩

/-- All slabs are unused if the stack has all of them. -/
theorem PageOk.unused_eq_iff (h : PageOk page u v) :
    v.unused.index = v.carved ↔ ∀ i, i < v.carved → ¬ u i := by
  obtain ⟨l, hnd, hmem, hlen, -⟩ := h.stack
  have hsub : l.toFinset ⊆ Finset.range v.carved := fun i hi =>
    Finset.mem_range.mpr ((hmem i).mp (List.mem_toFinset.mp hi)).1
  rw [hlen, ← List.toFinset_card_of_nodup hnd]
  constructor
  · intro hcard i hi
    have heq := Finset.eq_of_subset_of_card_le hsub (by rw [Finset.card_range, hcard])
    have hmem' : i ∈ l.toFinset := by rw [heq]; exact Finset.mem_range.mpr hi
    exact ((hmem i).mp (List.mem_toFinset.mp hmem')).2
  · intro hall
    have heq : l.toFinset = Finset.range v.carved := by
      refine Finset.Subset.antisymm hsub fun i hi => ?_
      have hi := Finset.mem_range.mp hi
      exact List.mem_toFinset.mpr ((hmem i).mpr ⟨hi, hall i hi⟩)
    rw [heq, Finset.card_range]

theorem PageOk.unused_le (h : PageOk page u v) : v.unused.index ≤ v.carved := by
  obtain ⟨l, hnd, hmem, hlen, -⟩ := h.stack
  rw [hlen, ← List.toFinset_card_of_nodup hnd, ← Finset.card_range v.carved]
  refine Finset.card_le_card fun i hi => ?_
  exact Finset.mem_range.mpr ((hmem i).mp (List.mem_toFinset.mp hi)).1

/-- Without unused slabs all carved ones are used, and the cache has them all. -/
theorem PageOk.all_used (h : PageOk page u v) (hunused : v.unused.index = 0) :
    (∀ i, i < v.carved → u i) ∧ v.used.index = v.carved := by
  have hall : ∀ i, i < v.carved → u i := by
    intro i hi
    by_contra hu
    obtain ⟨j, hj, -⟩ := (h.unused_iff hi).mpr hu
    omega
  refine ⟨hall, ?_⟩
  have hle := h.index_le
  have hge := h.carved_le_index
  by_contra hne
  have hlast := (h.used_lt _ (hall (v.used.index) (by omega))).2
  omega

/-! ## Changing one slab -/

theorem PageView.update_slab {f : SlabView → SlabView} {j : Nat} :
    (v.update i f).slab j = if j = i then f (v.slab i) else v.slab j := rfl

/-- One slab changes, and stays used. -/
theorem PageOk.update (h : PageOk page u v) (hi : u i) {f : SlabView → SlabView}
    (hfree : (f (v.slab i)).free = 128 - ones (f (v.slab i)).map 128)
    (hbusy : ones (f (v.slab i)).map 128 ≠ 0) : PageOk page u (v.update i f) where
  carved_le := h.carved_le
  used_lt := h.used_lt
  index_le := h.index_le
  carved_le_index := h.carved_le_index
  used := h.used
  stack := h.stack
  entries := h.entries
  free j hj := by
    rw [PageView.update_slab]
    split
    · exact hfree
    · exact h.free j hj
  idle j hj hu := by
    have hji : j ≠ i := fun hji => hu (hji ▸ hi)
    rw [PageView.update_slab, if_neg hji]
    exact h.idle j hj hu
  busy j hu := by
    rw [PageView.update_slab]
    split
    · exact hbusy
    · exact h.busy j hu

/-- Nothing but the page of a used slab is changed. -/
theorem PageOk.setBase (h : PageOk page u v) (hi : u i) (base : Nat) :
    PageOk page u (v.update i fun e => { e with base := base }) :=
  h.update hi (h.free i (h.used_lt i hi).1) (h.busy i hi)

/-- The count after objects were taken. -/
theorem take_free {e : SlabView} (he : e.free = 128 - ones e.map 128) (hreq : 1 ≤ req)
    (hrun : Run (bit e.map) 128 req s) (hfill : Filled e.map m s req true) :
    (e.take m req).free = 128 - ones m 128 ∧ ones m 128 ≠ 0 := by
  have hones := hfill.ones_add hrun
  rw [hones]
  exact ⟨by rw [SlabView.take]; push_cast; omega, by omega⟩

/-- Objects of a used slab are taken. -/
theorem PageOk.take (h : PageOk page u v) (hi : u i) (hreq : 1 ≤ req)
    (hrun : Run (bit (v.slab i).map) 128 req s) (hfill : Filled (v.slab i).map m s req true) :
    PageOk page u (v.update i (SlabView.take m req)) := by
  obtain ⟨hfree, hbusy⟩ := take_free (h.free i (h.used_lt i hi).1) hreq hrun hfill
  exact h.update hi hfree hbusy

/-- The count after objects were given back. -/
theorem give_free {e : SlabView} (he : e.free = 128 - ones e.map 128) (hle : s + req ≤ 128)
    (hset : ∀ j, s ≤ j → j < s + req → bit e.map j = true) (hfill : Filled e.map m s req false) :
    (e.give m req).free = 128 - ones m 128 := by
  have hones := hfill.ones_sub hle hset
  rw [SlabView.give]
  show e.free + req = _
  omega

/-- Objects of a used slab are given back, and it has some more. -/
theorem PageOk.give (h : PageOk page u v) (hi : u i) (hle : s + req ≤ 128)
    (hset : ∀ j, s ≤ j → j < s + req → bit (v.slab i).map j = true)
    (hfill : Filled (v.slab i).map m s req false) (hbusy : ones m 128 ≠ 0) :
    PageOk page u (v.update i (SlabView.give m req)) :=
  h.update hi (give_free (h.free i (h.used_lt i hi).1) hle hset hfill) hbusy

/-! ## The caches -/

/-- A slab goes into the cache of the used ones. -/
theorem record_used {c : SlabCache} (hi : i ≤ c.index)
    (hused : ∀ j, j < c.index → (u j → c.addresses j = slabAt page j) ∧
      (¬ u j → c.addresses j = invalidBase)) :
    ∀ j, j < (c.record i (slabAt page i)).index →
      (j = i ∨ u j → (c.record i (slabAt page i)).addresses j = slabAt page j) ∧
      (¬ (j = i ∨ u j) → (c.record i (slabAt page i)).addresses j = invalidBase) := by
  intro j hj
  have haddr : (c.record i (slabAt page i)).addresses j =
      if j = i then slabAt page i else c.addresses j := rfl
  have hindex : (c.record i (slabAt page i)).index = if i ≥ c.index then i + 1 else c.index := rfl
  rw [hindex] at hj
  rw [haddr]
  by_cases hji : j = i
  · rw [if_pos hji, hji]
    exact ⟨fun _ => rfl, fun hnot => absurd (.inl rfl) hnot⟩
  · rw [if_neg hji]
    have hold := hused j (by split at hj <;> omega)
    exact ⟨fun hor => hold.1 (hor.resolve_left hji), fun hnot => hold.2 fun hu => hnot (.inr hu)⟩

/-- The page with slab `i` taken: it goes into the cache of the used ones, and the stack becomes `c`. -/
def PageView.enter (page i : Nat) (c : SlabCache) (f : SlabView → SlabView) (v : PageView) : PageView :=
  { v.update i f with
    used := v.used.record i (slabAt page i)
    unused := c
    unusedEntries := c.index }

/-- **The top of the stack is taken**, with objects of it. -/
theorem PageOk.pop (h : PageOk page u v) (hk : v.unused.index = k + 1) (hreq : 1 ≤ req) :
    ∃ i, i < v.carved ∧ ¬ u i ∧ v.unused.addresses k = slabAt page i ∧
      ∀ s m, Run (bit (v.slab i).map) 128 req s → Filled (v.slab i).map m s req true →
        PageOk page (fun j => j = i ∨ u j)
          (v.enter page i { v.unused with index := k } (SlabView.take m req)) := by
  obtain ⟨l, hnd, hmem, hlen, haddr⟩ := h.stack
  obtain ⟨l, i, rfl⟩ := (List.eq_nil_or_concat' l).resolve_left fun hnil => by
    rw [hnil, List.length_nil] at hlen
    omega
  rw [List.length_append, List.length_singleton] at hlen
  obtain ⟨hndl, -, hdisj⟩ := List.nodup_append.mp hnd
  have hil : i ∉ l := fun hil => hdisj i hil i List.mem_cons_self rfl
  have hi := (hmem i).mp (List.mem_append_right _ List.mem_cons_self)
  have hle := h.index_le
  have hge := h.carved_le_index
  refine ⟨i, hi.1, hi.2, ?_, fun s m hrun hfill => ?_⟩
  · obtain rfl : k = l.length := by omega
    rw [haddr l.length (by rw [List.length_append, List.length_singleton]; omega),
      List.getElem_concat_length rfl]
  obtain ⟨hfree, hbusy⟩ := take_free (h.free i hi.1) hreq hrun hfill
  have hindex : (v.enter page i { v.unused with index := k } (SlabView.take m req)).used.index =
      if i ≥ v.used.index then i + 1 else v.used.index := rfl
  refine ⟨h.carved_le, ?_, ?_, ?_, record_used (by omega) h.used, ?_, rfl, ?_, ?_, ?_⟩
  · intro j hj
    rw [hindex]
    rcases hj with rfl | hj
    · exact ⟨hi.1, by split <;> omega⟩
    · have hlt := h.used_lt j hj
      exact ⟨hlt.1, by split <;> omega⟩
  · rw [hindex]
    show _ ≤ v.carved
    split <;> omega
  · rw [hindex]
    show v.carved ≤ _
    split <;> omega
  · refine ⟨l, hndl, fun j => ?_, by show k = _; omega, fun j hj => ?_⟩
    · have hj := hmem j
      rw [List.mem_append, List.mem_singleton] at hj
      constructor
      · intro hjl
        have hold := hj.mp (.inl hjl)
        exact ⟨hold.1, fun hor => hor.elim (fun hji => hil (hji ▸ hjl)) hold.2⟩
      · rintro ⟨hlt, hnot⟩
        rw [not_or] at hnot
        exact (hj.mpr ⟨hlt, hnot.2⟩).resolve_right hnot.1
    · exact (haddr j (by rw [List.length_append]; omega)).trans (by rw [List.getElem_append_left hj])
  · intro j hj
    show ((v.update i (SlabView.take m req)).slab j).free = _
    rw [PageView.update_slab]
    split
    · rename_i hji
      show _ = 128 - (ones ((v.update i (SlabView.take m req)).slab j).map 128 : Int)
      rw [PageView.update_slab, if_pos hji]
      exact hfree
    · rename_i hji
      show _ = 128 - (ones ((v.update i (SlabView.take m req)).slab j).map 128 : Int)
      rw [PageView.update_slab, if_neg hji]
      exact h.free j hj
  · intro j hj hnot
    rw [not_or] at hnot
    show ((v.update i (SlabView.take m req)).slab j).base = _ ∧
      ones ((v.update i (SlabView.take m req)).slab j).map 128 = 0
    rw [PageView.update_slab, if_neg hnot.1]
    exact h.idle j hj hnot.2
  · intro j hj
    show ones ((v.update i (SlabView.take m req)).slab j).map 128 ≠ 0
    rw [PageView.update_slab]
    split
    · exact hbusy
    · rename_i hji
      exact h.busy j (hj.resolve_left hji)

/-- The page with a new slab, which is used. -/
def PageView.carve (page : Nat) (e : SlabView) (v : PageView) : PageView :=
  { v.update v.carved fun _ => e with
    carved := v.carved + 1
    used := v.used.record v.carved (slabAt page v.carved) }

/-- **A slab is carved**, if none is unused. -/
theorem PageOk.carve (h : PageOk page u v) (hunused : v.unused.index = 0) (hlt : v.carved < 112)
    {e : SlabView} (hfree : e.free = 128 - ones e.map 128) (hbusy : ones e.map 128 ≠ 0) :
    PageOk page (fun j => j = v.carved ∨ u j) (v.carve page e) := by
  obtain ⟨hall, hindex⟩ := h.all_used hunused
  have hrec : (v.carve page e).used.index = v.carved + 1 := by
    show (if v.carved ≥ v.used.index then v.carved + 1 else v.used.index) = _
    rw [if_pos (Nat.le_of_eq hindex)]
  have hslab : ∀ j, (v.carve page e).slab j = if j = v.carved then e else v.slab j := fun _ => rfl
  refine ⟨hlt, ?_, ?_, ?_, record_used (Nat.le_of_eq hindex.symm) h.used, ?_, h.entries, ?_, ?_, ?_⟩
  · intro j hj
    rw [hrec]
    show j < v.carved + 1 ∧ _
    rcases hj with rfl | hj
    · exact ⟨Nat.lt_succ_self _, Nat.lt_succ_self _⟩
    · have hlt := (h.used_lt j hj).1
      exact ⟨Nat.lt_succ_of_lt hlt, Nat.lt_succ_of_lt hlt⟩
  · exact Nat.le_of_eq hrec
  · rw [hrec]
    exact Nat.le_succ _
  · refine ⟨[], List.nodup_nil, fun j => ?_, hunused, fun j hj => absurd hj (Nat.not_lt_zero j)⟩
    refine iff_of_false List.not_mem_nil ?_
    rintro ⟨hj, hnot⟩
    rw [not_or] at hnot
    have hj : j < v.carved + 1 := hj
    exact hnot.2 (hall j (by omega))
  · intro j hj
    have hj : j < v.carved + 1 := hj
    rw [hslab]
    split
    · exact hfree
    · exact h.free j (by omega)
  · intro j hj hnot
    rw [not_or] at hnot
    have hj : j < v.carved + 1 := hj
    exact absurd (hall j (by omega)) hnot.2
  · intro j hj
    rw [hslab]
    split
    · exact hbusy
    · rename_i hji
      exact h.busy j (hj.resolve_left hji)

/-- The page with its first slab, which is unused. -/
def PageView.first (page : Nat) (e : SlabView) (v : PageView) : PageView :=
  { v.update 0 fun _ => e with
    carved := 1
    unused := v.unused.push (slabAt page 0)
    unusedEntries := v.unusedEntries + 1 }

/-- The first slab is carved, and goes on the stack. -/
theorem PageOk.first (h : PageOk page u v) (hcarved : v.carved = 0) {e : SlabView}
    (hbase : e.base = invalidBase) (hfree : e.free = 128) (hones : ones e.map 128 = 0) :
    PageOk page u (v.first page e) := by
  have hu : ∀ i, ¬ u i := fun i hi => by
    have hlt := (h.used_lt i hi).1
    omega
  have hunused := h.unused_le
  have hindex := h.index_le
  have hslab : (v.first page e).slab 0 = e := rfl
  have hzero : ∀ j, j < (v.first page e).carved → j = 0 := fun j hj => Nat.lt_one_iff.mp hj
  refine ⟨by show 1 ≤ 112; decide, fun i hi => absurd hi (hu i), Nat.le_trans hindex (by omega),
    by show 1 ≤ _; omega, h.used, ?_, ?_, ?_, ?_, fun i hi => absurd hi (hu i)⟩
  · refine ⟨[0], List.nodup_singleton 0, fun i => ?_, ?_, ?_⟩
    · rw [List.mem_singleton]
      exact ⟨fun hi => ⟨hi ▸ Nat.one_pos, hu i⟩, fun hi => hzero i hi.1⟩
    · show v.unused.index + 1 = 1
      omega
    · intro j hj
      obtain rfl : j = 0 := Nat.lt_one_iff.mp hj
      show (if 0 = v.unused.index then slabAt page 0 else _) = _
      rw [if_pos (by omega)]
      rfl
  · show v.unusedEntries + 1 = v.unused.index + 1
    rw [h.entries]
  · intro j hj
    rw [hzero j hj, hslab, hfree, hones]
    rfl
  · intro j hj _
    rw [hzero j hj, hslab]
    exact ⟨hbase, hones⟩

/-- The page with slab `i` back on the stack. -/
def PageView.leave (page i : Nat) (e : SlabView) (v : PageView) : PageView :=
  { v.update i fun _ => e with
    used := v.used.void i
    unused := v.unused.push (slabAt page i)
    unusedEntries := v.unusedEntries + 1 }

/-- **A slab without objects in use is put on the stack.** -/
theorem PageOk.release (h : PageOk page u v) (hi : u i) {e : SlabView} (hbase : e.base = invalidBase)
    (hfree : e.free = 128) (hones : ones e.map 128 = 0) :
    PageOk page (fun j => u j ∧ j ≠ i) (v.leave page i e) := by
  obtain ⟨l, hnd, hmem, hlen, haddr⟩ := h.stack
  have hslab : ∀ j, (v.leave page i e).slab j = if j = i then e else v.slab j := fun _ => rfl
  have hil : i ∉ l := fun hil => ((hmem i).mp hil).2 hi
  refine ⟨h.carved_le, fun j hj => h.used_lt j hj.1, h.index_le, h.carved_le_index, ?_, ?_, ?_, ?_, ?_, ?_⟩
  · intro j hj
    have hold := h.used j hj
    show (_ → (if j = i then invalidBase else v.used.addresses j) = _) ∧
      (_ → (if j = i then invalidBase else v.used.addresses j) = _)
    by_cases hji : j = i
    · rw [if_pos hji]
      exact ⟨fun hj => absurd hji hj.2, fun _ => rfl⟩
    · rw [if_neg hji]
      exact ⟨fun hj => hold.1 hj.1, fun hnot => hold.2 fun hu => hnot ⟨hu, hji⟩⟩
  · refine ⟨l ++ [i], ?_, fun j => ?_, ?_, fun j hj => ?_⟩
    · refine List.nodup_append.mpr ⟨hnd, List.nodup_singleton i, fun a ha b hb => ?_⟩
      rw [List.mem_singleton.mp hb]
      exact fun hai => hil (hai ▸ ha)
    · rw [List.mem_append, List.mem_singleton, hmem j]
      constructor
      · rintro (⟨hj, hnot⟩ | rfl)
        · exact ⟨hj, fun hand => hnot hand.1⟩
        · exact ⟨(h.used_lt j hi).1, fun hand => hand.2 rfl⟩
      · rintro ⟨hj, hnot⟩
        by_cases hji : j = i
        · exact .inr hji
        · exact .inl ⟨hj, fun hu => hnot ⟨hu, hji⟩⟩
    · show v.unused.index + 1 = _
      rw [hlen, List.length_append, List.length_singleton]
    · show (if j = v.unused.index then slabAt page i else v.unused.addresses j) = _
      rw [List.length_append, List.length_singleton] at hj
      split
      · rename_i hji
        rw [List.getElem_concat_length (by omega)]
      · rw [haddr j (by omega), List.getElem_append_left (by omega)]
  · show v.unusedEntries + 1 = v.unused.index + 1
    rw [h.entries]
  · intro j hj
    rw [hslab]
    split
    · rw [hfree, hones]
      rfl
    · exact h.free j hj
  · intro j hj hnot
    rw [hslab]
    split
    · exact ⟨hbase, hones⟩
    · rename_i hji
      exact h.idle j hj fun hu => hnot ⟨hu, hji⟩
  · intro j hj
    rw [hslab, if_neg hj.2]
    exact h.busy j hj.1

end

end Dem64.Kmalloc
