import Dem64.Kmalloc.NewPage

/-!
# Taking objects

`kmalloc` takes a run of objects in one of three ways: in a slab that is used already, in a slab from the
stack of unused ones, or in a slab that is carved for it, possibly in a new slab page.  The outcome is the
same (`Picks`): the heap is in order, one slab has a run of objects more, and nothing else has changed.
-/

set_option autoImplicit false

namespace Dem64.Kmalloc

open BitRow

/-- The slabs in use have pages. -/
def Based (L : Layout) (s : Heap) : Prop :=
  ∀ a, s.InUse L a → (s.slab a).pageBase % 4096 = 0 ∧ (s.slab a).pageBase ≠ 0 ∧
    (s.slab a).pageBase + 4096 ≤ 2 ^ 64

/-- The objects from `sc` on in the slab `a` were free and are in use now. -/
structure Taken (a sc req : Nat) (L : Layout) (s : Heap) (L' : Layout) (s' : Heap) : Prop where
  inUse : s'.InUse L' a
  le : sc + req ≤ 128
  bits : ∀ j, j < 128 → (bit (s'.slab a).cache2048 j = true ↔
    s.InUse L a ∧ bit (s.slab a).cache2048 j = true ∨ sc ≤ j ∧ j < sc + req)
  clear : s.InUse L a → ∀ j, sc ≤ j → j < sc + req → bit (s.slab a).cache2048 j = false
  base : s.InUse L a → (s'.slab a).pageBase = (s.slab a).pageBase

/-- The outcome: the run `q` was taken. -/
structure Picks (req : Nat) (L : Layout) (s : Heap) (q : Pick) (L' : Layout) (s' : Heap) : Prop where
  ok : HeapOk L' s'
  latest : LatestOk L' s'
  start : s'.start = s.start
  shd : s'.shd = s.shd
  own : ∀ x, L.own x ≠ none → L'.own x = L.own x
  pages : ∀ p ∈ L'.pages, p ∈ L.pages ∨ p = q.hd
  frame : ∀ b, Frame q.slab b L s L' s'
  /-- No slab got a page or lost one. -/
  data : ∀ x y, L'.own y = some (.data x) ↔ L.own y = some (.data x)
  hd : q.hd ∈ L'.pages
  slab : q.slab = slabAt q.hd q.slabPid
  pid : q.slabPid < 112
  place : q.place = ((s'.slab q.slab).pageBase + 32 * q.sc) % 2 ^ 64
  taken : Taken q.slab q.sc req L s L' s'
  /-- A slab that was not in use has no page yet, and the run is its first objects. -/
  fresh : ¬ s.InUse L q.slab → (s'.slab q.slab).pageBase = invalidBase ∧ q.sc = 0

section

variable {L L' : Layout} {s s' s₁ : Heap} {p i n req sc m : Nat} {env : HeapEnv} {conreq : Bool}
  {u : Nat → Prop} {map : Nat → BitVec 8}

/-! ## The search in one slab -/

theorem bit_of_ones (hones : ones map 128 = 0) {j : Nat} (hj : j < 128) : bit map j = false :=
  ones_eq_zero.mp hones j hj

/-- A slab without objects in use has every run. -/
theorem findObjs_empty (conreq : Bool) (base : Nat) (hreq : 1 ≤ req ∧ req ≤ 128) (hn : 128 < n)
    (hones : ones map 128 = 0) : ∃ map', findObjs n req 0 base conreq map = some (⟨0, base % 2 ^ 64⟩, map') ∧
      Run (bit map) 128 req 0 ∧ Filled map map' 0 req true := by
  have hrun : Run (bit map) 128 req 0 := ⟨by omega, fun j _ hj => bit_of_ones hones (by omega)⟩
  have hrun' : Run (fun j => bit map (8 * 0 + j)) 128 req 0 := by
    simpa only [Nat.mul_zero, Nat.zero_add] using hrun
  have hload : load64 map 0 = 0 ∧ load64 map (0 + 8) = 0 :=
    ⟨load64_eq_zero fun j hj => bit_of_ones hones (by omega),
      load64_eq_zero fun j hj => bit_of_ones hones (by omega)⟩
  rcases @findObjs_cases map 0 n req base conreq hreq (.inr hload) hn with
    ⟨sc, map', heq, hleast, hfill⟩ | ⟨-, hnone⟩
  · obtain rfl : sc = 0 := Nat.le_zero.mp (hleast.2 hrun')
    exact ⟨map', heq, hrun, hfill⟩
  · exact absurd hrun' (hnone 0)

/-- What the search finds in a slab with a page. -/
theorem findObjs_found {base : Nat} {ret : SearchRet} {map' : Nat → BitVec 8} (hreq : 1 ≤ req ∧ req ≤ 128)
    (hn : 128 < n) (h : findObjs n req 0 base true map = some (ret, map')) (hret : ret.addr ≠ 0) :
    Run (bit map) 128 req ret.sc ∧ Filled map map' ret.sc req true ∧
      ret.addr = (base + 32 * ret.sc) % 2 ^ 64 := by
  rcases @findObjs_cases map 0 n req base true hreq (.inl rfl) hn with
    ⟨sc, map'', heq, hleast, hfill⟩ | ⟨heq, -⟩
  · rw [heq] at h
    cases h
    have hrun : Run (fun j => bit map (8 * 0 + j)) 128 req sc := hleast.1
    refine ⟨?_, ?_, rfl⟩
    · simpa only [Nat.mul_zero, Nat.zero_add] using hrun
    · simpa only [Nat.mul_zero, Nat.zero_add] using hfill
  · rw [heq] at h
    cases h
    exact absurd rfl hret

/-! ## A run in slab `i` of the page `p` -/

/-- The slab before the run was taken: with its objects if it was in use, else without. -/
structure Before (L : Layout) (s : Heap) (a sc : Nat) (e : SlabView) : Prop where
  inUse : s.InUse L a → e = (s.slab a).view
  idle : ¬ s.InUse L a → e.base = invalidBase ∧ ones e.map 128 = 0 ∧ sc = 0

/-- **A run is taken by a change of one page.** -/
theorem HeapOk.taken_of_edit (h : HeapOk L s) (hp : p ∈ L.pages) (hi : i < 112) (he : Edits L p s s')
    (hstart : s'.start = s.start) (hne : s.start ≠ 0) (hv : PageOk p u (s'.view p))
    (hfree : (s'.hd p).freeEntries ≤ (s.hd p).freeEntries) (hui : u i)
    (hu : ∀ j, j ≠ i → (u j ↔ (s.view p).InUse j)) {e : SlabView}
    (hbefore : Before L s (slabAt p i) sc e) (hself : (s'.slab (slabAt p i)).view = e.take map req)
    (hother : ∀ j, j < 112 → j ≠ i → (s'.slab (slabAt p j)).view = (s.slab (slabAt p j)).view)
    (hrun : Run (bit e.map) 128 req sc) (hfill : Filled e.map map sc req true) :
    HeapOk L s' ∧ (∀ b, Frame (slabAt p i) b L s L s') ∧ Taken (slabAt p i) sc req L s L s' ∧
      (¬ s.InUse L (slabAt p i) → (s'.slab (slabAt p i)).pageBase = invalidBase ∧ sc = 0) := by
  have h' : HeapOk L s' := h.edit he hv hfree fun h0 => absurd (hstart ▸ h0) hne
  have hmap : (s'.slab (slabAt p i)).cache2048 = map := congrArg SlabView.map hself
  have hbase : (s'.slab (slabAt p i)).pageBase = e.base := congrArg SlabView.base hself
  refine ⟨h', fun b => h.frame_edit h' he fun j hj hne => ?_, ⟨?_, hrun.1, fun j hj => ?_,
    fun hin j h1 h2 => ?_, fun hin => ?_⟩, fun hout => ?_⟩
  · have hji : j ≠ i := fun hji => hne (hji ▸ rfl)
    exact ⟨hv.inUse_iff.trans (hu j hji), fun _ => hother j hj hji⟩
  · exact (h'.inUse_slabAt hp hi).mpr (hv.inUse_iff.mpr hui)
  · rw [hmap, hfill j]
    split
    · rename_i hjrun
      exact iff_of_true rfl (.inr hjrun)
    · rename_i hjrun
      by_cases hin : s.InUse L (slabAt p i)
      · rw [hbefore.inUse hin]
        exact ⟨fun hbit => .inl ⟨hin, hbit⟩, fun hor => (hor.resolve_right hjrun).2⟩
      · rw [bit_of_ones (hbefore.idle hin).2.1 hj]
        exact iff_of_false Bool.false_ne_true fun hor => hor.elim (fun hand => hin hand.1) hjrun
  · have hclear := hrun.2 j h1 h2
    rw [hbefore.inUse hin] at hclear
    exact hclear
  · rw [hbase, hbefore.inUse hin]
    rfl
  · rw [hbase]
    exact ⟨(hbefore.idle hout).1, (hbefore.idle hout).2.2⟩

/-! ## The used slabs -/

/-- What the loop over the used slabs of a page finds. -/
theorem scanUsed_found {c : SlabCache} {j : Nat} {ret : SearchRet} :
    ∀ {k i : Nat}, scanUsed s n req conreq c k i = .ok (some (j, ret, map)) → i ≤ j ∧ j < i + k ∧
      c.addresses j ≠ invalidBase ∧ ret.addr ≠ 0 ∧
      findObjs n req 0 (s.slab (c.addresses j)).pageBase conreq (s.slab (c.addresses j)).cache2048 =
        some (ret, map)
  | 0, _, h => by cases h
  | k + 1, i, h => by
    have next : scanUsed s n req conreq c k (i + 1) = .ok (some (j, ret, map)) → i ≤ j ∧
        j < i + (k + 1) ∧ c.addresses j ≠ invalidBase ∧ ret.addr ≠ 0 ∧
        findObjs n req 0 (s.slab (c.addresses j)).pageBase conreq (s.slab (c.addresses j)).cache2048 =
          some (ret, map) := by
      intro h
      obtain ⟨h1, h2, h3⟩ := scanUsed_found h
      exact ⟨by omega, by omega, h3⟩
    rw [scanUsed] at h
    dsimp only at h
    split at h
    · rename_i hvalid
      obtain ⟨⟨ret', map'⟩, hfind, h⟩ := bind_eq_ok_iff.mp h
      dsimp only at h
      split at h
      · exact next h
      · cases h
        exact ⟨Nat.le_refl _, by omega, hvalid.1, by assumption, bounded_eq_ok.mp hfind⟩
    · exact next h

theorem readCache_eq_ok {a : Nat} {c : SlabCache} : s.readCache a = .ok c ↔ a ≠ 0 ∧ c = s.cache a := by
  rw [Heap.readCache]
  split
  · exact ⟨nofun, fun hand => absurd (by assumption) hand.1⟩
  · rw [Except.ok.injEq]
    exact ⟨fun heq => ⟨by assumption, heq.symm⟩, fun hand => hand.2.symm⟩

/-- The page behind a page of the list. -/
theorem HeapOk.next (h : HeapOk L s) {l r : List Nat} (hl : L.pages = l ++ p :: r) :
    (s.hd p).nextPage = r.headD 0 ∧ p ∈ L.pages ∧ p ≠ 0 := by
  have hp : p ∈ L.pages := by rw [hl]; exact List.mem_append_right _ List.mem_cons_self
  have hlist := h.list
  rw [hl] at hlist
  exact ⟨hlist.links.2, hp, (h.aligned p hp).2.1⟩

/-- **A run in a used slab.** -/
theorem searchUsed_spec (h : HeapOk L s) (hlatest : LatestOk L s) (hstart : s.start ≠ 0)
    (hreq : 1 ≤ req ∧ req ≤ 128) (hn : 128 < n) {o : Option Pick} :
    ∀ {m : Nat} {l r : List Nat}, L.pages = l ++ r → searchUsed n req true s m (r.headD 0) = .ok (o, s') →
      (o = none → s' = s) ∧ ∀ q, o = some q → Picks req L s q L s' ∧ s.InUse L q.slab
  | 0, _, _, _, h' => by cases h'
  | m + 1, l, [], _, h' => by
    rw [searchUsed, List.headD_nil, if_pos rfl] at h'
    cases h'
    exact ⟨fun _ => rfl, nofun⟩
  | m + 1, l, p :: r, hl, h' => by
    obtain ⟨hnext, hp, hp0⟩ := h.next hl
    rw [searchUsed, List.headD_cons, if_neg hp0] at h'
    obtain ⟨c, hread, h'⟩ := bind_eq_ok_iff.mp h'
    obtain ⟨o', hscan, h'⟩ := bind_eq_ok_iff.mp h'
    obtain ⟨-, rfl⟩ := readCache_eq_ok.mp hread
    rcases o' with _ | ⟨i, ret, map⟩
    · rw [hnext] at h'
      have hl' : L.pages = l ++ [p] ++ r := by rw [hl, List.append_assoc, List.singleton_append]
      exact searchUsed_spec h hlatest hstart hreq hn hl' h'
    obtain ⟨-, hlt, hvalid, hret, hfind⟩ := scanUsed_found hscan
    rw [Nat.zero_add] at hlt
    cases h'
    refine ⟨nofun, ?_⟩
    rintro q ⟨⟩
    have hok := h.ok p hp
    -- an entry that is not `INVALID_BASE` is the slab of its index
    have hu : (s.view p).InUse i := by
      by_contra hu
      exact hvalid ((hok.used i hlt).2 hu)
    have haddr : (s.cache (s.hd p).usedCache).addresses i = slabAt p i := (hok.used i hlt).1 hu
    have hi : i < 112 := Nat.lt_of_lt_of_le hu.1 hok.carved_le
    obtain ⟨hrun, hfill, hplace⟩ := findObjs_found hreq hn hfind hret
    rw [haddr] at hrun hfill hplace ⊢
    have hslab : (s.view p).slab i = (s.slab (slabAt p i)).view := view_slab hi
    have hin := (h.inUse_slabAt hp hi).mpr hu
    have hview := @view_setSlab s p i (fun e => { e with cache2048 := map, freeObs := e.freeObs - req })
      (SlabView.take map req) hi fun _ => rfl
    have hself : ∀ f : SlabObj → SlabObj, (s.setSlab (slabAt p i) f).slab (slabAt p i) =
      f (s.slab (slabAt p i)) := fun f => if_pos rfl
    have htake := hok.take (m := map) (s := ret.sc) hu hreq.1 (by rw [hslab]; exact hrun)
      (by rw [hslab]; exact hfill)
    rw [← hview] at htake
    obtain ⟨h1, h2, h3, h4⟩ := h.taken_of_edit hp hi (Edits.setSlab (.inl (h.own_slab hp hi))) rfl hstart htake
      (Nat.le_refl _) hu (fun _ _ => Iff.rfl) ⟨fun _ => rfl, fun hout => absurd hin hout⟩
      (by rw [hself]; rfl) (fun j _ hji => congrArg SlabObj.view (if_neg fun heq => hji (slabAt_inj.mp heq)))
      hrun hfill
    refine ⟨⟨h1, hlatest, rfl, rfl, fun _ _ => rfl, fun _ hq => .inl hq, h2, fun _ _ => Iff.rfl, hp, rfl, hi, ?_, h3,
      h4⟩, hin⟩
    rw [hself]
    exact hplace

/-! ## The unused slabs -/

theorem HeapOk.unusedPage_spec (h : HeapOk L s) {o : Option Nat} :
    ∀ {m : Nat} {l r : List Nat}, L.pages = l ++ r → unusedPage s m (r.headD 0) = .ok o →
      (o = none → ∀ q ∈ r, (s.view q).unused.index = 0) ∧
        ∀ q, o = some q → q ∈ L.pages ∧ (s.view q).unused.index ≠ 0
  | 0, _, _, _, h' => by cases h'
  | m + 1, l, [], _, h' => by
    rw [unusedPage, List.headD_nil, if_pos rfl] at h'
    cases h'
    exact ⟨fun _ q hq => absurd hq List.not_mem_nil, nofun⟩
  | m + 1, l, p :: r, hl, h' => by
    obtain ⟨hnext, hp, hp0⟩ := h.next hl
    rw [unusedPage, List.headD_cons, if_neg hp0] at h'
    obtain ⟨c, hread, h'⟩ := bind_eq_ok_iff.mp h'
    obtain ⟨-, rfl⟩ := readCache_eq_ok.mp hread
    split at h'
    · cases h'
      refine ⟨nofun, ?_⟩
      rintro q ⟨⟩
      exact ⟨hp, by assumption⟩
    · rename_i hzero
      rw [hnext] at h'
      have hl' : L.pages = l ++ [p] ++ r := by rw [hl, List.append_assoc, List.singleton_append]
      obtain ⟨hnone, hsome⟩ := h.unusedPage_spec hl' h'
      refine ⟨fun ho q hq => ?_, hsome⟩
      rcases List.mem_cons.mp hq with rfl | hq
      · exact not_not.mp hzero
      · exact hnone ho q hq

/-- Objects of a slab that has none in use. -/
theorem takeObjs_empty (conreq : Bool) {slab : Nat} (hreq : 1 ≤ req ∧ req ≤ 128) (hn : 128 < n)
    (hones : ones (s.slab slab).cache2048 128 = 0) :
    ∃ map, takeObjs n req conreq slab s = .ok (⟨0, (s.slab slab).pageBase % 2 ^ 64⟩,
        s.setSlab slab fun e => { e with cache2048 := map, freeObs := e.freeObs - req }) ∧
      Run (bit (s.slab slab).cache2048) 128 req 0 ∧ Filled (s.slab slab).cache2048 map 0 req true := by
  obtain ⟨map, hfind, hrun, hfill⟩ := findObjs_empty conreq (s.slab slab).pageBase hreq hn hones
  refine ⟨map, ?_, hrun, hfill⟩
  rw [takeObjs, hfind]
  rfl

theorem modifyCache_eq_ok {a : Nat} {f : SlabCache → SlabCache} :
    s.modifyCache a f = .ok s' ↔ a ≠ 0 ∧ s' = s.setCache a f := by
  rw [Heap.modifyCache]
  split
  · exact ⟨nofun, fun hand => absurd (by assumption) hand.1⟩
  · rw [Except.ok.injEq]
    exact ⟨fun heq => ⟨by assumption, heq.symm⟩, fun hand => hand.2.symm⟩

/-- The heap after slab `i` of the page `p` left the stack, with objects in use. -/
def popped (p i req : Nat) (map : Nat → BitVec 8) (s : Heap) : Heap :=
  (((s.setCache (s.hd p).unusedCache fun c => { c with index := c.index - 1 }).setHd p fun h =>
      { h with unusedEntries := subU64 h.unusedEntries 1 }).setSlab (slabAt p i) fun e =>
      { e with cache2048 := map, freeObs := e.freeObs - req }).setCache (s.hd p).usedCache
    (SlabCache.record i (slabAt p i))

theorem popped_hd : (popped p i req map s).hd p =
    { s.hd p with unusedEntries := subU64 (s.hd p).unusedEntries 1 } := if_pos rfl

theorem popped_slab : (popped p i req map s).slab (slabAt p i) =
    { s.slab (slabAt p i) with cache2048 := map, freeObs := (s.slab (slabAt p i)).freeObs - req } := if_pos rfl

theorem popped_other {j : Nat} (hji : j ≠ i) :
    (popped p i req map s).slab (slabAt p j) = s.slab (slabAt p j) :=
  if_neg fun heq => hji (slabAt_inj.mp heq)

theorem HeapOk.caches_ne (h : HeapOk L s) (hp : p ∈ L.pages) :
    (s.hd p).usedCache ≠ (s.hd p).unusedCache := by
  intro heq
  have hown := h.own_used hp
  rw [heq, h.own_unused hp] at hown
  cases hown

theorem HeapOk.edits_popped (h : HeapOk L s) (hp : p ∈ L.pages) (hi : i < 112) :
    Edits L p s (popped p i req map s) := by
  refine Edits.trans ?_ (Edits.setCache (.inl (h.own_used hp)))
  refine Edits.trans ?_ (Edits.setSlab (.inl (h.own_slab hp hi)))
  refine Edits.trans ?_ (Edits.setHd (fun _ => rfl) (fun _ => rfl) (fun _ => rfl) fun _ => rfl)
  exact Edits.setCache (.inr (h.own_unused hp))

theorem HeapOk.view_popped (h : HeapOk L s) (hp : p ∈ L.pages) (hi : i < 112) {k : Nat}
    (hk : (s.view p).unused.index = k + 1) : (popped p i req map s).view p =
      (s.view p).enter p i { (s.view p).unused with index := k } (SlabView.take map req) := by
  have hok := h.ok p hp
  have hle := hok.unused_le
  have hcarved := hok.carved_le
  have hentries : (s.hd p).unusedEntries = k + 1 := hok.entries.trans hk
  have hk' : (s.cache (s.hd p).unusedCache).index = k + 1 := hk
  have hne := h.caches_ne hp
  refine view_eq hi ?_ ?_ ?_ ?_ (fun j => rfl) ?_ fun j hji => ?_
  · show s.capacity p - ((popped p i req map s).hd p).freeEntries = s.carved p
    rw [popped_hd]
    rfl
  · rw [popped_hd]
    show (if (s.hd p).usedCache = (s.hd p).usedCache then SlabCache.record i (slabAt p i)
      (if (s.hd p).usedCache = (s.hd p).unusedCache then _ else _) else _) = _
    rw [if_pos rfl, if_neg hne]
    rfl
  · rw [popped_hd]
    show (if (s.hd p).unusedCache = (s.hd p).usedCache then _ else
      if (s.hd p).unusedCache = (s.hd p).unusedCache then _ else _) = _
    rw [if_neg hne.symm, if_pos rfl, hk']
    rfl
  · rw [popped_hd]
    show subU64 (s.hd p).unusedEntries 1 = k
    rw [hentries, subU64_eq (by omega) (by omega)]
    rfl
  · rw [popped_slab, view_slab hi]
    rfl
  · rw [popped_other hji]

/-- **A run in a slab from the stack.** -/
theorem popUnused_spec (h : HeapOk L s) (hlatest : LatestOk L s) (hstart : s.start ≠ 0)
    (hreq : 1 ≤ req ∧ req ≤ 128) (hn : 128 < n) {o : Option Pick}
    (hpop : popUnused n req conreq s = .ok (o, s')) :
    (o = none → s' = s ∧ unusedPage s n s.shd = .ok none) ∧
      ∀ q, o = some q → Picks req L s q L s' ∧ ¬ s.InUse L q.slab ∧ q.place ≠ 0 := by
  obtain ⟨o', hfind, hpop⟩ := bind_eq_ok_iff.mp hpop
  obtain ⟨-, hsome⟩ := h.unusedPage_spec (l := []) rfl (h.head ▸ hfind)
  rcases o' with _ | p
  · cases hpop
    exact ⟨fun _ => ⟨rfl, hfind⟩, nofun⟩
  obtain ⟨hp, hne⟩ := hsome p rfl
  have hok := h.ok p hp
  obtain ⟨k, hk⟩ := Nat.exists_eq_succ_of_ne_zero hne
  obtain ⟨i, hi, hidle, haddr, hpops⟩ := hok.pop hk hreq.1
  have hi112 : i < 112 := Nat.lt_of_lt_of_le hi hok.carved_le
  have hslab : (s.view p).slab i = (s.slab (slabAt p i)).view := view_slab hi112
  obtain ⟨hbase, hones⟩ := hok.idle i hi hidle
  rw [hslab] at hbase hones hpops
  have hout : ¬ s.InUse L (slabAt p i) := fun hin => hidle ((h.inUse_slabAt hp hi112).mp hin)
  have hindex := getIndex_slabAt (h.aligned p hp).1 hi112
  dsimp only at hpop
  have hc : ∀ f, (s.setCache (s.hd p).unusedCache f).cache (s.hd p).unusedCache =
      f (s.cache (s.hd p).unusedCache) := fun f => if_pos rfl
  have htop : (s.cache (s.hd p).unusedCache).addresses ((s.cache (s.hd p).unusedCache).index - 1) =
      slabAt p i := by
    rw [show (s.cache (s.hd p).unusedCache).index = k + 1 from hk]
    exact haddr
  rw [hc] at hpop
  dsimp only at hpop
  rw [htop] at hpop
  obtain ⟨x, htake, hpop⟩ := bind_eq_ok_iff.mp hpop
  obtain ⟨map, htake', hrun, hfill⟩ := takeObjs_empty conreq hreq hn
    (show ones (((s.setCache (s.hd p).unusedCache fun c => { c with index := c.index - 1 }).setHd p fun h =>
      { h with unusedEntries := subU64 h.unusedEntries 1 }).slab (slabAt p i)).cache2048 128 = 0 from hones)
  rw [htake'] at htake
  cases htake
  obtain ⟨s₃, hrec, hpop⟩ := bind_eq_ok_iff.mp hpop
  obtain ⟨-, hs₃⟩ := modifyCache_eq_ok.mp hrec
  have hs' : s₃ = popped p i req map s := by
    rw [hs₃, hindex, popped]
    congr 1
    show SlabHd.usedCache (if p = p then _ else _) = _
    rw [if_pos rfl]
    rfl
  cases hpop
  refine ⟨nofun, ?_⟩
  rintro q ⟨⟩
  rw [hs', hindex]
  have hv := hpops 0 map hrun hfill
  rw [← h.view_popped hp hi112 hk] at hv
  obtain ⟨h1, h2, h3, h4⟩ := h.taken_of_edit hp hi112 (h.edits_popped hp hi112) rfl hstart hv
    (by rw [popped_hd]) (.inl rfl) (fun j hji => ⟨fun hor => hor.resolve_left hji, .inr⟩)
    (e := (s.slab (slabAt p i)).view) ⟨fun _ => rfl, fun _ => ⟨hbase, hones, rfl⟩⟩
    (by rw [popped_slab]; rfl) (fun j _ hji => by rw [popped_other hji]) hrun hfill
  refine ⟨⟨h1, ?_, rfl, rfl, fun _ _ => rfl, fun _ hq => .inl hq, h2, fun _ _ => Iff.rfl, hp, rfl, hi112, ?_,
    h3, h4⟩, hout, ?_⟩
  · exact hlatest.edit (h.edits_popped hp hi112) (by rw [popped_hd]) rfl rfl
  · rw [popped_slab]
    rfl
  · show (s.slab (slabAt p i)).pageBase % 2 ^ 64 ≠ 0
    rw [show (s.slab (slabAt p i)).pageBase = 1 from hbase]
    decide

/-! ## A new slab -/

/-- The heap after slot `i` of the page `p` was carved, with objects in use. -/
def carvedIn (p i req : Nat) (map : Nat → BitVec 8) (s : Heap) : Heap :=
  ((((((moveLatest (slabAt p i) p s).setSlab (slabAt p i) fun e =>
      { e with cache2048 := fun _ => 0, freeObs := 128 }).setHd p fun h =>
      { h with unusedEntries := (h.unusedEntries + 1) % 2 ^ 64 }).setSlab (slabAt p i) fun e =>
      { e with cache2048 := map, freeObs := e.freeObs - req }).setHd p fun h =>
      { h with unusedEntries := subU64 h.unusedEntries 1 }).setCache (s.hd p).usedCache
    (SlabCache.record i (slabAt p i)))

/-- A slab that was just carved. -/
def newSlab : SlabView := ⟨invalidBase, 128, fun _ => 0⟩

theorem ones_newSlab : ones newSlab.map 128 = 0 := ones_eq_zero.mpr fun _ _ => BitVec.getLsbD_zero

theorem setSlab_self {a : Nat} {f : SlabObj → SlabObj} : (s.setSlab a f).slab a = f (s.slab a) := if_pos rfl

theorem setSlab_ne {a b : Nat} {f : SlabObj → SlabObj} (h : b ≠ a) : (s.setSlab a f).slab b = s.slab b :=
  if_neg h

theorem carvedIn_hd : (carvedIn p i req map s).hd p = { s.hd p with
    freeEntries := subU64 (s.hd p).freeEntries 1
    unusedEntries := subU64 (((s.hd p).unusedEntries + 1) % 2 ^ 64) 1 } := by
  simp only [carvedIn, moveLatest, Heap.setSlab, Heap.setHd, Heap.setCache, if_true]

theorem carvedIn_slab : ((carvedIn p i req map s).slab (slabAt p i)).view = newSlab.take map req := by
  simp only [carvedIn, moveLatest, Heap.setSlab, Heap.setHd, Heap.setCache, if_true]
  rfl

theorem carvedIn_other {j : Nat} (hji : j ≠ i) :
    ((carvedIn p i req map s).slab (slabAt p j)).view = (s.slab (slabAt p j)).view := by
  have hne : slabAt p j ≠ slabAt p i := fun heq => hji (slabAt_inj.mp heq)
  simp only [carvedIn, moveLatest, Heap.setSlab, Heap.setHd, Heap.setCache, if_neg hne]
  split
  · rename_i heq
    rw [heq]
    rfl
  · rfl

theorem edits_moveLatest (hslab : L.own (slabAt p i) = some (.page p)) :
    Edits L p s (moveLatest (slabAt p i) p s) := by
  rw [moveLatest]
  refine Edits.trans ?_ (Edits.setHd (fun _ => rfl) (fun _ => rfl) (fun _ => rfl) fun _ => rfl)
  refine Edits.trans ?_ (Edits.setSlab (.inl hslab))
  refine Edits.trans ?_ Edits.setLatest
  exact Edits.setSlab (.inr fun _ => rfl)

theorem HeapOk.edits_carvedIn (h : HeapOk L s) (hp : p ∈ L.pages) (hi : i < 112) :
    Edits L p s (carvedIn p i req map s) := by
  have hslab := h.own_slab hp hi
  refine Edits.trans ?_ (Edits.setCache (.inl (h.own_used hp)))
  refine Edits.trans ?_ (Edits.setHd (fun _ => rfl) (fun _ => rfl) (fun _ => rfl) fun _ => rfl)
  refine Edits.trans ?_ (Edits.setSlab (.inl hslab))
  refine Edits.trans ?_ (Edits.setHd (fun _ => rfl) (fun _ => rfl) (fun _ => rfl) fun _ => rfl)
  refine Edits.trans ?_ (Edits.setSlab (.inl hslab))
  exact edits_moveLatest hslab

/-- What is left to carve in the last page. -/
structure Open (L : Layout) (s : Heap) (p : Nat) : Prop where
  last : L.pages.getLast? = some p
  free : (s.hd p).freeEntries ≠ 0
  unused : (s.view p).unused.index = 0

theorem Open.mem (ho : Open L s p) : p ∈ L.pages := List.mem_of_getLast? ho.last

theorem HeapOk.carved_lt (h : HeapOk L s) (ho : Open L s p) : s.carved p < 112 ∧
    s.carved p + 1 = s.capacity p - subU64 (s.hd p).freeEntries 1 := by
  have hcap := h.capacity p ho.mem
  have hle : s.capacity p ≤ 112 := capacity_le
  have hfree := ho.free
  rw [Heap.carved, subU64_eq (by omega) (by omega)]
  omega

theorem HeapOk.view_carvedIn (h : HeapOk L s) (ho : Open L s p) :
    (carvedIn p (s.carved p) req map s).view p = (s.view p).carve p (newSlab.take map req) := by
  obtain ⟨hlt, hcarved⟩ := h.carved_lt ho
  have hok := h.ok p ho.mem
  have hne := h.caches_ne ho.mem
  have hentries : (s.hd p).unusedEntries = 0 := hok.entries.trans ho.unused
  refine view_eq hlt ?_ ?_ ?_ ?_ (fun j => rfl) carvedIn_slab fun j hji => carvedIn_other hji
  · show s.capacity p - ((carvedIn p (s.carved p) req map s).hd p).freeEntries = s.carved p + 1
    rw [carvedIn_hd, hcarved]
  · rw [carvedIn_hd]
    exact if_pos rfl
  · rw [carvedIn_hd]
    exact if_neg hne.symm
  · rw [carvedIn_hd]
    show subU64 (((s.hd p).unusedEntries + 1) % 2 ^ 64) 1 = (s.hd p).unusedEntries
    rw [hentries]
    rfl

/-- **A run in a new slab.** -/
theorem HeapOk.carvedIn_picks (h : HeapOk L s) (ho : Open L s p) (hstart : s.start ≠ 0)
    (hreq : 1 ≤ req) (hrun : Run (bit newSlab.map) 128 req 0) (hfill : Filled newSlab.map map 0 req true) :
    Picks req L s ⟨invalidBase, slabAt p (s.carved p), p, 0, s.carved p⟩ L
      (carvedIn p (s.carved p) req map s) := by
  obtain ⟨hlt, hcarved⟩ := h.carved_lt ho
  have hok := h.ok p ho.mem
  have hout : ¬ (s.view p).InUse (s.carved p) := fun hin => Nat.lt_irrefl _ hin.1
  obtain ⟨hfree, hbusy⟩ := take_free (e := newSlab) (by rw [ones_newSlab]; rfl) hreq hrun hfill
  have hv := hok.carve ho.unused hlt hfree hbusy
  rw [← h.view_carvedIn ho] at hv
  have hout' : ¬ s.InUse L (slabAt p (s.carved p)) := fun hin => hout ((h.inUse_slabAt ho.mem hlt).mp hin)
  have hfree' := ho.free
  have hcap := h.capacity p ho.mem
  have hle : s.capacity p ≤ 112 := capacity_le
  have he : Edits L p s (carvedIn p (s.carved p) req map s) := h.edits_carvedIn ho.mem hlt
  obtain ⟨h1, h2, h3, h4⟩ := h.taken_of_edit ho.mem hlt he rfl hstart hv
    (by rw [carvedIn_hd]; show subU64 _ 1 ≤ _; rw [subU64_eq (by omega) (by omega)]; omega) (.inl rfl)
    (fun j hji => ⟨fun hor => hor.resolve_left hji, .inr⟩) ⟨fun hin => absurd hin hout', fun _ => ⟨rfl, ones_newSlab, rfl⟩⟩
    carvedIn_slab (fun j _ hji => carvedIn_other hji) hrun hfill
  refine ⟨h1, fun _ => ?_, rfl, rfl, fun _ _ => rfl, fun _ hq => .inl hq, h2, fun _ _ => Iff.rfl, ho.mem, rfl,
    hlt, ?_, h3, h4⟩
  · rw [List.getLastD_eq_getLast?, ho.last]
    refine ⟨List.ne_nil_of_mem ho.mem, findHd_slabAt (h.aligned p ho.mem).1 hlt, fun _ => ?_⟩
    show slabAt p (s.carved p) + 36 = slabAt p (s.capacity p - ((carvedIn p _ req map s).hd p).freeEntries)
    rw [carvedIn_hd]
    show _ = slabAt p (s.capacity p - subU64 (s.hd p).freeEntries 1)
    rw [← hcarved, slabAt_succ]
  · rw [(h4 hout').1]
    rfl

/-- A page with a slot to carve, in a heap that differs at most by this page. -/
structure Ready (L : Layout) (s : Heap) (L' : Layout) (s' : Heap) (p : Nat) : Prop where
  ok : HeapOk L' s'
  openPage : Open L' s' p
  own : ∀ x, L.own x ≠ none → L'.own x = L.own x
  frame : ∀ a b, Frame a b L s L' s'
  start : s'.start = s.start
  shd : s'.shd = s.shd
  pages : ∀ q ∈ L'.pages, q ∈ L.pages ∨ q = p

theorem capacity_ne_zero : s.capacity p ≠ 0 := by
  rw [Heap.capacity]
  split <;> decide

/-- A slab page that was just added. -/
theorem Adds.openPage {unused used : Nat} (ha : Adds L p unused used s s') : Open (L.add p unused used) s' p where
  last := List.getLast?_concat
  free := by
    rw [ha.page]
    exact capacity_ne_zero
  unused := by
    show (s'.cache (s'.hd p).unusedCache).index = 0
    rw [ha.page]
    exact ha.unusedIndex

/-- **`createSlab` carves a slot**, or a call of `va_alloc` fails, if no slab is unused. -/
theorem createSlab_spec (henv : env.Fresh) (h : HeapOk L s) (hl : LatestOk L s) (hstart : s.start ≠ 0)
    (hnone : unusedPage s n s.shd = .ok none) {o : Option Nat} (hc : createSlab env n s = .ok (o, s')) :
    (o = none → env.Refuses) ∧ ∀ a, o = some a → ∃ L₀ s₀ p, Ready L s L₀ s₀ p ∧
      a = slabAt p (s₀.carved p) ∧ s' = moveLatest a p s₀ := by
  obtain ⟨hne, hhd, hlatest⟩ := hl hstart
  have hlast : L.pages.getLast? = some (L.pages.getLastD 0) := by
    rw [List.getLastD_eq_getLast?, List.getLast?_eq_some_getLast hne]
    rfl
  generalize L.pages.getLastD 0 = hd at hhd hlatest hlast
  have hmem := List.mem_of_getLast? hlast
  rw [createSlab, if_neg hstart, hhd] at hc
  dsimp only at hc
  by_cases hfree : (s.hd hd).freeEntries = 0
  · rw [if_pos hfree] at hc
    rcases hcp : createPage env hd s with ⟨o', s₀⟩
    obtain ⟨hfail, hpage⟩ := createPage_spec henv h hlast hcp
    rw [hcp] at hc
    rcases o' with _ | p
    · cases hc
      exact ⟨fun _ => hfail rfl, nofun⟩
    obtain ⟨⟨unused, used, ha⟩, -⟩ := hpage p rfl
    cases hc
    refine ⟨nofun, ?_⟩
    rintro a ⟨⟩
    have hfull : ∀ q ∈ L.pages, (s.hd q).freeEntries = 0 := by
      intro q hq
      have hl := List.dropLast_append_getLast? hd hlast
      rw [← hl, List.mem_append, List.mem_singleton] at hq
      rcases hq with hq | rfl
      · exact h.full q hq
      · exact hfree
    have hshd : s₀.shd = s.shd := by
      rw [ha.shd, ← h.head]
      cases hp : L.pages with
      | nil => exact absurd hp hne
      | cons q r => rfl
    refine ⟨L.add p unused used, s₀, p, ⟨h.add ha hfull (.inr hstart), ha.openPage, fun x hx => ha.room.own hx,
      fun a b => h.frame_add ha a b, ha.start, hshd, fun q hq => ?_⟩, ?_, rfl⟩
    · exact (List.mem_append.mp hq).imp_right List.mem_singleton.mp
    · rw [ha.carved]
  · rw [if_neg hfree] at hc
    obtain ⟨o', hfind, hc⟩ := bind_eq_ok_iff.mp hc
    rw [hnone] at hfind
    cases hfind
    have hunused := (h.unusedPage_spec (l := []) rfl (h.head ▸ hnone)).1 rfl hd hmem
    have ho : Open L s hd := ⟨hlast, hfree, hunused⟩
    have hslab := hlatest hfree
    dsimp only at hc
    rw [hslab, findHd_slabAt (h.aligned hd hmem).1 (h.carved_lt ho).1] at hc
    cases hc
    refine ⟨nofun, ?_⟩
    rintro a ⟨⟩
    exact ⟨L, s, hd, ⟨h, ho, fun _ _ => rfl, fun _ _ => Frame.refl, rfl, rfl, fun _ hq => .inl hq⟩, rfl, rfl⟩

/-- Only the slab of the run matters for what was taken. -/
theorem Taken.of_frame {L₀ : Layout} {s₀ : Heap} {a b : Nat} (hf : ∀ a, Frame a b L s L₀ s₀)
    (ht : Taken a sc req L₀ s₀ L' s') : Taken a sc req L s L' s' := by
  have hiff := (hf (a + 1)).inUse a (by omega)
  have hview := (hf (a + 1)).slab a (by omega)
  have hmap : s.InUse L a → (s₀.slab a).cache2048 = (s.slab a).cache2048 := fun hin =>
    congrArg SlabView.map (hview hin)
  refine ⟨ht.inUse, ht.le, fun j hj => (ht.bits j hj).trans (or_congr_left ?_), fun hin => ?_, fun hin => ?_⟩
  · rw [hiff]
    exact and_congr_right fun hin => by rw [hmap hin]
  · rw [← hmap hin]
    exact ht.clear (hiff.mpr hin)
  · rw [ht.base (hiff.mpr hin)]
    exact congrArg SlabView.base (hview hin)

theorem Ready.picks {L₀ : Layout} {s₀ : Heap} {q : Pick} (hr : Ready L s L₀ s₀ q.hd)
    (hq : Picks req L₀ s₀ q L' s') : Picks req L s q L' s' where
  ok := hq.ok
  latest := hq.latest
  start := hq.start.trans hr.start
  shd := hq.shd.trans hr.shd
  own x hx := by
    have hown := hr.own x hx
    exact (hq.own x (hown ▸ hx)).trans hown
  pages r hr' := (hq.pages r hr').elim (hr.pages r) .inr
  frame b := (hr.frame _ b).trans (hq.frame b) fun x hx => by
    rw [hr.own x hx]
    exact hx
  data x y := (hq.data x y).trans ((hr.frame (x + 1) 0).data x (by omega) y)
  hd := hq.hd
  slab := hq.slab
  pid := hq.pid
  place := hq.place
  taken := hq.taken.of_frame fun a => hr.frame a 0
  fresh hout := hq.fresh fun hin => hout (((hr.frame (q.slab + 1) 0).inUse _ (by omega)).mp hin)

/-- **A run in a slab that `createSlab` carves**, or a call of `va_alloc` fails. -/
theorem carveSlab_spec (henv : env.Fresh) (h : HeapOk L s) (hl : LatestOk L s) (hstart : s.start ≠ 0)
    (hreq : 1 ≤ req ∧ req ≤ 128) (hn : 128 < n) (hnone : unusedPage s n s.shd = .ok none) {o : Option Pick}
    (hc : carveSlab env n req conreq s = .ok (o, s')) :
    (o = none → env.Refuses) ∧ ∀ q, o = some q →
      (∃ L', Picks req L s q L' s') ∧ ¬ s.InUse L q.slab ∧ q.place ≠ 0 := by
  obtain ⟨⟨o', s₁⟩, hcreate, hc⟩ := bind_eq_ok_iff.mp hc
  obtain ⟨hfail, hcarve⟩ := createSlab_spec henv h hl hstart hnone hcreate
  rcases o' with _ | a
  · cases hc
    exact ⟨fun _ => hfail rfl, fun q hq => absurd hq (by simp)⟩
  obtain ⟨L₀, s₀, p, hready, rfl, rfl⟩ := hcarve a rfl
  have ho := hready.openPage
  obtain ⟨hlt, -⟩ := hready.ok.carved_lt ho
  have haligned := (hready.ok.aligned p ho.mem).1
  dsimp only at hc
  rw [findHd_slabAt haligned hlt] at hc
  obtain ⟨x, htake, hc⟩ := bind_eq_ok_iff.mp hc
  have hslab : (((moveLatest (slabAt p (s₀.carved p)) p s₀).setSlab (slabAt p (s₀.carved p)) fun e =>
      { e with cache2048 := fun _ => 0, freeObs := 128 }).setHd p fun h =>
      { h with unusedEntries := (h.unusedEntries + 1) % 2 ^ 64 }).slab (slabAt p (s₀.carved p)) =
      ⟨invalidBase, 128, fun _ => 0, 0⟩ := by
    simp only [moveLatest, Heap.setSlab, Heap.setHd, if_true]
  obtain ⟨map, htake', hrun, hfill⟩ := takeObjs_empty conreq hreq hn
    (by rw [hslab]; exact ones_newSlab)
  rw [htake'] at htake
  cases htake
  obtain ⟨s₃, hrec, hc⟩ := bind_eq_ok_iff.mp hc
  obtain ⟨-, hs₃⟩ := modifyCache_eq_ok.mp hrec
  rw [getIndex_slabAt haligned hlt] at hs₃ hc
  have hs' : s₃ = carvedIn p (s₀.carved p) req map s₀ := by
    rw [hs₃, carvedIn]
    congr 1
    simp only [moveLatest, Heap.setSlab, Heap.setHd, if_true]
  cases hc
  refine ⟨fun hnone => absurd hnone (by simp), ?_⟩
  rintro q ⟨⟩
  rw [hslab] at hrun hfill
  have hout : ¬ s₀.InUse L₀ (slabAt p (s₀.carved p)) := fun hin =>
    Nat.lt_irrefl _ ((hready.ok.inUse_slabAt ho.mem hlt).mp hin).1
  dsimp only
  rw [hslab, hs']
  exact ⟨⟨L₀, hready.picks (hready.ok.carvedIn_picks ho (hready.start ▸ hstart) hreq.1 hrun hfill)⟩,
    fun hin => hout ((hready.frame (slabAt p (s₀.carved p) + 1) 0).inUse _ (by omega) |>.mpr hin), by decide⟩

/-! ## `find_slab` -/

/-- **A run of objects is taken**, or a call of `va_alloc` fails.  Without `conreq` the slab is one that was
not in use. -/
theorem pickObjs_spec (henv : env.Fresh) (h : HeapOk L s) (hl : LatestOk L s) (hstart : s.start ≠ 0)
    (hreq : 1 ≤ req ∧ req ≤ 128) (hn : 128 < n) {o : Option Pick}
    (hpick : pickObjs env n req conreq s = .ok (o, s')) :
    (o = none → env.Refuses) ∧ ∀ q, o = some q →
      (∃ L', Picks req L s q L' s') ∧ (conreq = false → ¬ s.InUse L q.slab) := by
  obtain ⟨⟨o', s₁⟩, hsearch, hrest⟩ := bind_eq_ok_iff.mp hpick
  have hsearched : (o' = none → s₁ = s) ∧
      ∀ q, o' = some q → Picks req L s q L s₁ ∧ conreq = true := by
    cases conreq with
    | false =>
      cases hsearch
      exact ⟨fun _ => rfl, nofun⟩
    | true =>
      obtain ⟨hnone, hsome⟩ := searchUsed_spec h hl hstart hreq hn (l := []) rfl (h.head ▸ hsearch)
      exact ⟨hnone, fun q hq => ⟨(hsome q hq).1, rfl⟩⟩
  rcases o' with _ | q
  · rw [hsearched.1 rfl] at hrest
    obtain ⟨⟨o', s₂⟩, hpop, hc⟩ := bind_eq_ok_iff.mp hrest
    obtain ⟨hnone, hsome⟩ := popUnused_spec h hl hstart hreq hn hpop
    rcases o' with _ | q
    · rw [(hnone rfl).1] at hc
      obtain ⟨hfail, hcarve⟩ := carveSlab_spec henv h hl hstart hreq hn (hnone rfl).2 hc
      exact ⟨hfail, fun q hq => ⟨(hcarve q hq).1, fun _ => (hcarve q hq).2.1⟩⟩
    · obtain ⟨hpicks, hout, hplace⟩ := hsome q rfl
      dsimp only at hc
      rw [if_pos hplace] at hc
      cases hc
      refine ⟨nofun, ?_⟩
      rintro q' ⟨⟩
      exact ⟨⟨L, hpicks⟩, fun _ => hout⟩
  · cases hrest
    refine ⟨nofun, ?_⟩
    rintro q' ⟨⟩
    obtain ⟨hpicks, htrue⟩ := hsearched.2 q rfl
    exact ⟨⟨L, hpicks⟩, fun hfalse => by rw [htrue] at hfalse; cases hfalse⟩

/-- The heap with its first slab. -/
def withFirst (p : Nat) (s : Heap) : Heap :=
  { ((((({ ({ s with start := slabAt p 0 }.setSlab (slabAt p 0) fun _ => zeroSlab).setHd p fun h =>
        { h with freeEntries := subU64 h.freeEntries 1 } with latest := slabAt p 0 }).setSlab (slabAt p 0)
        fun _ => zeroSlab).setSlab (slabAt p 0) fun e =>
        { e with nextObject := 0, pageBase := invalidBase, freeObs := 128 }).setHd p fun h =>
        { h with unusedEntries := (h.unusedEntries + 1) % 2 ^ 64 }).setCache (s.hd p).unusedCache fun c =>
      { c.push (slabAt p 0) with index := if c.index < pageCapacity then c.index + 1 else c.index }) with
    start := slabAt p 0 }

theorem withFirst_hd : (withFirst p s).hd p = { s.hd p with
    freeEntries := subU64 (s.hd p).freeEntries 1
    unusedEntries := ((s.hd p).unusedEntries + 1) % 2 ^ 64 } := by
  simp only [withFirst, Heap.setSlab, Heap.setHd, Heap.setCache, if_true]

theorem withFirst_slab : ((withFirst p s).slab (slabAt p 0)).view = newSlab := by
  simp only [withFirst, Heap.setSlab, Heap.setHd, Heap.setCache, if_true]
  rfl

theorem withFirst_other {j : Nat} (hj : j ≠ 0) : (withFirst p s).slab (slabAt p j) = s.slab (slabAt p j) := by
  have hne : slabAt p j ≠ slabAt p 0 := fun heq => hj (slabAt_inj.mp heq)
  simp only [withFirst, Heap.setSlab, Heap.setHd, Heap.setCache, if_neg hne]

theorem HeapOk.edits_withFirst (h : HeapOk L s) (hp : p ∈ L.pages) : Edits L p s (withFirst p s) := by
  have hslab := h.own_slab hp (i := 0) (by decide)
  refine Edits.trans ?_ Edits.setStart
  refine Edits.trans ?_ (Edits.setCache (.inr (h.own_unused hp)))
  refine Edits.trans ?_ (Edits.setHd (fun _ => rfl) (fun _ => rfl) (fun _ => rfl) fun _ => rfl)
  refine Edits.trans ?_ (Edits.setSlab (.inl hslab))
  refine Edits.trans ?_ (Edits.setSlab (.inl hslab))
  refine Edits.trans ?_ Edits.setLatest
  refine Edits.trans ?_ (Edits.setHd (fun _ => rfl) (fun _ => rfl) (fun _ => rfl) fun _ => rfl)
  refine Edits.trans ?_ (Edits.setSlab (.inl hslab))
  exact Edits.setStart

/-- Before the first slab there is one page, and nothing was carved in it. -/
theorem HeapOk.pages_of_start (h : HeapOk L s) (hne : L.pages ≠ []) (h0 : s.start = 0) :
    L.pages = [s.shd] ∧ (s.hd s.shd).freeEntries = 112 := by
  have hhead := h.head
  have hcap := h.capacity
  have hcarved := h.first h0
  cases hl : L.pages with
  | nil => exact absurd hl hne
  | cons p r =>
    rw [hl, List.headD_cons] at hhead
    subst hhead
    have hp : s.shd ∈ L.pages := hl ▸ List.mem_cons_self
    have hfree : (s.hd s.shd).freeEntries = 112 := by
      have hc := hcarved s.shd hp
      have hle := hcap s.shd hp
      rw [Heap.carved] at hc
      rw [Heap.capacity, if_pos rfl] at hc hle
      rw [firstCapacity_eq] at hc hle
      omega
    refine ⟨?_, hfree⟩
    cases r with
    | nil => rfl
    | cons q r =>
      have hfull := h.full s.shd (by rw [hl]; exact List.mem_cons_self)
      rw [hfull] at hfree
      cases hfree

theorem HeapOk.view_withFirst (h : HeapOk L s) (hne : L.pages ≠ []) (h0 : s.start = 0) :
    (withFirst s.shd s).view s.shd = (s.view s.shd).first s.shd newSlab := by
  obtain ⟨hpages, hfree⟩ := h.pages_of_start hne h0
  have hp : s.shd ∈ L.pages := hpages ▸ List.mem_cons_self
  have hok := h.ok _ hp
  have hcarved : (s.view s.shd).carved = 0 := h.first h0 _ hp
  have hunused : (s.cache (s.hd s.shd).unusedCache).index = 0 :=
    Nat.le_zero.mp (hcarved ▸ hok.unused_le)
  have hentries : (s.hd s.shd).unusedEntries = 0 := hok.entries.trans hunused
  have hcache : (withFirst s.shd s).cache (s.hd s.shd).unusedCache =
      (s.cache (s.hd s.shd).unusedCache).push (slabAt s.shd 0) := by
    refine (if_pos rfl).trans ?_
    show SlabCache.mk _ (if (s.cache (s.hd s.shd).unusedCache).index < pageCapacity then _ else _) = _
    rw [if_pos (by rw [hunused]; decide)]
    rfl
  refine view_eq (i := 0) (by decide) ?_ ?_ ?_ ?_ (fun j => rfl) withFirst_slab fun j hj => ?_
  · show s.capacity s.shd - ((withFirst s.shd s).hd s.shd).freeEntries = 1
    rw [withFirst_hd, Heap.capacity, if_pos rfl]
    show firstCapacity - subU64 (s.hd s.shd).freeEntries 1 = 1
    rw [hfree]
    rfl
  · rw [withFirst_hd]
    exact if_neg (h.caches_ne hp)
  · rw [withFirst_hd]
    exact hcache
  · rw [withFirst_hd]
    show ((s.hd s.shd).unusedEntries + 1) % 2 ^ 64 = (s.hd s.shd).unusedEntries + 1
    rw [hentries]
    rfl
  · rw [withFirst_other hj]

/-- **The first slab is there.** -/
theorem ensureStart_spec (h : HeapOk L s) (hl : LatestOk L s) (hne : L.pages ≠ []) {ok : Bool}
    (hc : ensureStart env n s = .ok (ok, s')) :
    ok = true ∧ Grows L s L s' ∧ s'.start ≠ 0 := by
  rw [ensureStart] at hc
  by_cases h0 : s.start = 0
  · rw [if_pos h0, createSlab, if_pos h0] at hc
    obtain ⟨hpages, hfree⟩ := h.pages_of_start hne h0
    have hp : s.shd ∈ L.pages := hpages ▸ List.mem_cons_self
    obtain ⟨x, hx, hc⟩ := bind_eq_ok_iff.mp hc
    cases hx
    obtain ⟨s₁, hpush, hc⟩ := bind_eq_ok_iff.mp hc
    obtain ⟨-, hs₁⟩ := modifyCache_eq_ok.mp hpush
    cases hc
    have hs' : { s₁ with start := slabAt s.shd 0 } = withFirst s.shd s := by
      rw [hs₁, withFirst]
      simp only [Heap.setSlab, Heap.setHd, Heap.setCache, if_true]
    rw [hs']
    have hok := h.ok _ hp
    have hcarved : s.carved s.shd = 0 := h.first h0 _ hp
    have he := h.edits_withFirst hp
    have hv := hok.first hcarved rfl rfl ones_newSlab
    rw [← h.view_withFirst hne h0] at hv
    have hstart : (withFirst s.shd s).start ≠ 0 := by
      show slabAt s.shd 0 ≠ 0
      rw [slabAt]
      omega
    have h' : HeapOk L (withFirst s.shd s) := by
      refine h.edit he hv ?_ fun hzero => absurd hzero hstart
      rw [withFirst_hd]
      show subU64 (s.hd s.shd).freeEntries 1 ≤ (s.hd s.shd).freeEntries
      rw [hfree]
      decide
    refine ⟨rfl, ⟨h', fun _ => ?_, fun _ _ => rfl, fun a b => h.frame_edit h' he fun j _ _ => ?_,
      fun q hq => .inl hq, fun _ => rfl⟩, hstart⟩
    · rw [hpages]
      refine ⟨List.cons_ne_nil _ _, findHd_slabAt (h.aligned _ hp).1 (by decide), fun _ => ?_⟩
      show slabAt s.shd 0 + 36 = slabAt s.shd (s.capacity s.shd - ((withFirst s.shd s).hd s.shd).freeEntries)
      rw [withFirst_hd, Heap.capacity, if_pos rfl]
      show _ = slabAt s.shd (firstCapacity - subU64 (s.hd s.shd).freeEntries 1)
      rw [hfree]
      rfl
    · have hout : ¬ (s.view s.shd).InUse j := fun hin => by
        have hlt : j < s.carved s.shd := hin.1
        omega
      exact ⟨hv.inUse_iff, fun hin => absurd hin hout⟩
  · rw [if_neg h0] at hc
    cases hc
    exact ⟨rfl, ⟨h, hl, fun _ _ => rfl, fun _ _ => Frame.refl, fun _ hq => .inl hq, fun _ => rfl⟩, h0⟩

end

end Dem64.Kmalloc
