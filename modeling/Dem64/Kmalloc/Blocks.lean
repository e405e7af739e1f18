import Dem64.Kmalloc.Take

/-!
# Blocks

The invariant of the heap with its blocks (`Inv`).  A block is known by the address of its header.  The
header of a block says which objects of which slab the block has; these are in use, no two blocks share
one, and every object in use belongs to a block.  The pages of a large block are its own, and the page of a
slab belongs to the slab.

A block is added by `Inv.addBlock` and taken away by `Inv.dropBlock`, which say what has to hold of the one slab
that is concerned.
-/

set_option autoImplicit false

namespace Dem64.Kmalloc

open BitRow

/-- How many objects a block has in a slab. -/
def KHeader.req (h : KHeader) : Nat := (h.size % 4096 + 31) / 32

/-- The block has objects of the slab `a`. -/
def KHeader.InSlab (h : KHeader) (a : Nat) : Prop := h.size % 4096 ≠ 0 ∧ h.slabOrg = a

/-- Object `j` of its slab is one of the block. -/
def KHeader.Has (h : KHeader) (j : Nat) : Prop := h.sc ≤ j ∧ j < h.sc + h.req

/-- The block with the header at `b` is in order. -/
structure BlockOk (L : Layout) (s : Heap) (b : Nat) : Prop where
  base : (s.header b).base = b
  size : 40 ≤ (s.header b).size
  fits : b + (s.header b).size ≤ 2 ^ 64
  index : ∀ a, (s.header b).InSlab a → (s.header b).index = getIndex a
  /-- Its objects are in use. -/
  le : (s.header b).size % 4096 ≠ 0 → (s.header b).sc + (s.header b).req ≤ 128
  inUse : ∀ a, (s.header b).InSlab a →
    s.InUse L a ∧ ∀ j, (s.header b).Has j → bit (s.slab a).cache2048 j = true
  /-- A small block lies in them, and a large one ends in the first of them. -/
  small : ∀ a, (s.header b).InSlab a → (s.header b).size < 4096 →
    b = (s.slab a).pageBase + 32 * (s.header b).sc
  tail : ∀ a, (s.header b).InSlab a → 4096 ≤ (s.header b).size →
    (s.header b).sc = 0 ∧ (s.slab a).pageBase = b + 4096 * ((s.header b).size / 4096)

/-- The slab pages behind the first one have slabs in use. -/
def Busy (L : Layout) (s : Heap) : Prop :=
  ∀ p ∈ L.pages, p ≠ s.shd → ∃ i < 112, s.InUse L (slabAt p i)

/-- The heap and its blocks are in order. -/
structure Inv (L : Layout) (live : Set Nat) (s : Heap) : Prop where
  ok : HeapOk L s
  latest : LatestOk L s
  based : Based L s
  /-- The pages of the slabs and of the blocks. -/
  data : ∀ a y, L.own y = some (.data a) ↔
    s.InUse L a ∧ (s.slab a).pageBase ≤ y ∧ y < (s.slab a).pageBase + 4096
  body : ∀ b y, L.own y = some (.body b) ↔
    b ∈ live ∧ b ≤ y ∧ y < b + 4096 * ((s.header b).size / 4096)
  busy : Busy L s
  block : ∀ b ∈ live, BlockOk L s b
  /-- Objects are not shared. -/
  apart : ∀ b ∈ live, ∀ b' ∈ live, b ≠ b' → ∀ a, (s.header b).InSlab a → (s.header b').InSlab a →
    ∀ j, (s.header b).Has j → ¬ (s.header b').Has j
  covered : ∀ a, s.InUse L a → ∀ j < 128, bit (s.slab a).cache2048 j = true →
    ∃ b ∈ live, (s.header b).InSlab a ∧ (s.header b).Has j

section

variable {L L' : Layout} {live : Set Nat} {s s' : Heap} {a b p x base pages n : Nat} {env : HeapEnv}
  {o : Owner}

theorem KHeader.req_pos {h : KHeader} (hsize : h.size % 4096 ≠ 0) : 1 ≤ h.req := by
  rw [KHeader.req]
  omega

theorem KHeader.req_le (h : KHeader) : h.req ≤ 128 := by
  rw [KHeader.req]
  omega

/-- The first byte of a live block has an owner. -/
theorem Inv.own_block (h : Inv L live s) (hb : b ∈ live) : L.own b ≠ none := by
  have hblock := h.block b hb
  have hsize := hblock.size
  by_cases hlarge : 4096 ≤ (s.header b).size
  · rw [(h.body b b).mpr ⟨hb, Nat.le_refl b, by omega⟩]
    exact Option.some_ne_none _
  · have hin : (s.header b).InSlab (s.header b).slabOrg := ⟨by omega, rfl⟩
    have hle := hblock.le hin.1
    have hpos := KHeader.req_pos hin.1
    have heq := hblock.small _ hin (by omega)
    rw [(h.data _ b).mpr ⟨(hblock.inUse _ hin).1, by omega, by omega⟩]
    exact Option.some_ne_none _

/-! ## Pages for a slab or a block -/

/-- The owner is a slab or a block. -/
def Owner.Outside (o : Owner) : Prop := ∀ p, o ≠ .page p ∧ o ≠ .used p ∧ o ≠ .unused p

theorem Owner.outside_data (a : Nat) : Owner.Outside (.data a) := fun p => by simp

theorem Owner.outside_body (b : Nat) : Owner.Outside (.body b) := fun p => by simp

theorem HeapOk.granted_hd (h : HeapOk L s) (hv : Vacant L base pages) (hp : p ∈ L.pages) :
    (s.granted env base pages).hd p = s.hd p := by
  refine (granted_same env s hv ?_).2.1
  rw [h.own_page hp]
  exact Option.some_ne_none _

theorem HeapOk.granted_view (h : HeapOk L s) (hv : Vacant L base pages) (hp : p ∈ L.pages) :
    (s.granted env base pages).view p = s.view p := by
  have hown : ∀ {x : Nat} {o : Owner}, L.own x = some o → L.own x ≠ none := fun heq => by
    rw [heq]
    exact Option.some_ne_none _
  have hhd : (s.granted env base pages).hd p = s.hd p := h.granted_hd hv hp
  refine view_congr ?_ hhd (granted_same env s hv (hown (h.own_used hp))).2.2.1
    (granted_same env s hv (hown (h.own_unused hp))).2.2.1 fun i hi => ?_
  · show s.capacity p - _ = s.capacity p - _
    rw [hhd]
  · rw [(granted_same env s hv (hown (h.own_slab hp hi))).1]

/-- **The heap is in order after it got pages for a slab or a block.** -/
theorem HeapOk.granted (h : HeapOk L s) (hv : Vacant L base pages) (ho : o.Outside) :
    HeapOk (L.assign base pages (some o)) (s.granted env base pages) := by
  have hhd : ∀ p ∈ L.pages, (s.granted env base pages).hd p = s.hd p := fun p hp => h.granted_hd hv hp
  refine ⟨h.titles.grant env, h.nodup, ?_, h.head, h.aligned, ?_, ?_, ?_, ?_, ?_, ?_, ?_, ?_, h.kmax⟩
  · exact h.list.congr (fun p hp => congrArg SlabHd.nextPage (hhd p hp))
      fun p hp => congrArg SlabHd.formerPage (hhd p hp)
  · intro p hp
    rw [hhd p hp]
    exact h.caches p hp
  · intro p x
    rw [hv.assign_iff, h.page]
    exact ⟨fun hor => hor.resolve_right fun hand => (ho p).1 hand.1.symm, .inl⟩
  · intro p x
    rw [hv.assign_iff, h.used]
    refine ⟨fun hor => ?_, fun hand => .inl ?_⟩
    · have hand := hor.resolve_right fun hand => (ho p).2.1 hand.1.symm
      rw [hhd p hand.1]
      exact hand
    · rw [hhd p hand.1] at hand
      exact hand
  · intro p x
    rw [hv.assign_iff, h.unused]
    refine ⟨fun hor => ?_, fun hand => .inl ?_⟩
    · have hand := hor.resolve_right fun hand => (ho p).2.2 hand.1.symm
      rw [hhd p hand.1]
      exact hand
    · rw [hhd p hand.1] at hand
      exact hand
  · intro p hp
    rw [hhd p hp]
    exact h.capacity p hp
  · intro p hp
    rw [h.granted_view hv hp]
    exact h.ok p hp
  · intro p hp
    rw [hhd p (List.mem_of_mem_dropLast hp)]
    exact h.full p hp
  · intro h0 p hp
    have hold := h.first h0 p hp
    rw [Heap.carved, hhd p hp]
    exact hold

theorem HeapOk.granted_inUse (h : HeapOk L s) (hv : Vacant L base pages) :
    (s.granted env base pages).InUse (L.assign base pages (some o)) x ↔ s.InUse L x := by
  constructor
  · rintro ⟨p, hp, i, heq, hu⟩
    rw [h.granted_view hv hp] at hu
    exact ⟨p, hp, i, heq, hu⟩
  · rintro ⟨p, hp, i, heq, hu⟩
    rw [← @HeapOk.granted_view L s p base pages env h hv hp] at hu
    exact ⟨p, hp, i, heq, hu⟩

theorem HeapOk.granted_slab (h : HeapOk L s) (hv : Vacant L base pages) (hu : s.InUse L x) :
    (s.granted env base pages).slab x = s.slab x := by
  obtain ⟨p, hp, i, hi, heq, hin, hown⟩ := h.inUse_own hu
  refine (granted_same env s hv ?_).1
  rw [hown]
  exact Option.some_ne_none _

theorem HeapOk.frame_granted (h : HeapOk L s) (hv : Vacant L base pages) (ho : o = .data a ∨ o = .body b) :
    Frame a b L s (L.assign base pages (some o)) (s.granted env base pages) := by
  refine ⟨fun x _ => h.granted_inUse hv, fun x _ hu => by rw [h.granted_slab hv hu], fun x hx y => ?_,
    fun x hx y => ?_, fun x _ hx => (granted_same env s hv hx).2.2.2⟩
  · rw [hv.assign_iff]
    refine ⟨fun hor => hor.resolve_right fun hand => ?_, .inl⟩
    rcases ho with rfl | rfl
    · exact hx (Owner.data.inj hand.1)
    · cases hand.1
  · rw [hv.assign_iff]
    refine ⟨fun hor => hor.resolve_right fun hand => ?_, .inl⟩
    rcases ho with rfl | rfl
    · cases hand.1
    · exact hx (Owner.body.inj hand.1)

theorem LatestOk.granted (hl : LatestOk L s) (h : HeapOk L s) (hv : Vacant L base pages) :
    LatestOk (L.assign base pages (some o)) (s.granted env base pages) := by
  intro hne
  obtain ⟨h1, h2, h3⟩ := hl hne
  have hmem : L.pages.getLastD 0 ∈ L.pages := by
    rw [List.getLastD_eq_getLast?, List.getLast?_eq_some_getLast h1]
    exact List.getLast_mem h1
  have hhd : (s.granted env base pages).hd (L.pages.getLastD 0) = _ := h.granted_hd hv hmem
  refine ⟨h1, h2, ?_⟩
  show ((s.granted env base pages).hd (L.pages.getLastD 0)).freeEntries ≠ 0 →
    s.latest + 36 = slabAt (L.pages.getLastD 0)
      (s.capacity (L.pages.getLastD 0) - ((s.granted env base pages).hd (L.pages.getLastD 0)).freeEntries)
  rw [hhd]
  exact h3

/-! ## The invariant when nothing but the frame changes -/

theorem Grows.inUse (hg : Grows L s L' s') : s'.InUse L' x ↔ s.InUse L x :=
  (hg.frame (x + 1) 0).inUse x (by omega)

theorem Grows.slab (hg : Grows L s L' s') (hu : s.InUse L x) : (s'.slab x).view = (s.slab x).view :=
  (hg.frame (x + 1) 0).slab x (by omega) hu

theorem Grows.header (hg : Grows L s L' s') (hx : L.own x ≠ none) : s'.header x = s.header x :=
  (hg.frame 0 (x + 1)).header x (by omega) hx

/-- A block whose header and slab stay is in order. -/
theorem BlockOk.congr (h : BlockOk L s b) (hheader : s'.header b = s.header b)
    (hslab : ∀ a, (s.header b).InSlab a → s.InUse L a →
      s'.InUse L' a ∧ (s'.slab a).pageBase = (s.slab a).pageBase ∧
        ∀ j, (s.header b).Has j → bit (s.slab a).cache2048 j = true → bit (s'.slab a).cache2048 j = true) :
    BlockOk L' s' b where
  base := by rw [hheader]; exact h.base
  size := by rw [hheader]; exact h.size
  fits := by rw [hheader]; exact h.fits
  index a ha := by
    rw [hheader] at ha ⊢
    exact h.index a ha
  le hsize := by
    rw [hheader] at hsize ⊢
    exact h.le hsize
  inUse a ha := by
    rw [hheader] at ha ⊢
    obtain ⟨hin, hbits⟩ := h.inUse a ha
    obtain ⟨hin', -, hbits'⟩ := hslab a ha hin
    exact ⟨hin', fun j hj => hbits' j hj (hbits j hj)⟩
  small a ha hlt := by
    rw [hheader] at ha hlt ⊢
    rw [(hslab a ha (h.inUse a ha).1).2.1]
    exact h.small a ha hlt
  tail a ha hle := by
    rw [hheader] at ha hle ⊢
    rw [(hslab a ha (h.inUse a ha).1).2.1]
    exact h.tail a ha hle

theorem Busy.grow (hbusy : Busy L s) (h : HeapOk L s) (hg : Grows L s L' s') : Busy L' s' := by
  intro p hp hne
  have hold := (hg.pages p hp).resolve_right hne
  have hshd : s.shd ≠ 0 := fun h0 => by
    rw [h.shd_eq_zero.mp h0] at hold
    exact absurd hold List.not_mem_nil
  rw [hg.shd hshd] at hne
  obtain ⟨i, hi, hu⟩ := hbusy p hold hne
  exact ⟨i, hi, hg.inUse.mpr hu⟩

theorem Busy.granted (hbusy : Busy L s) (h : HeapOk L s) (hv : Vacant L base pages) :
    Busy (L.assign base pages (some o)) (s.granted env base pages) := by
  intro p hp hne
  obtain ⟨i, hi, hu⟩ := hbusy p hp hne
  exact ⟨i, hi, (h.granted_inUse hv).mpr hu⟩

theorem Inv.grow (h : Inv L live s) (hg : Grows L s L' s') : Inv L' live s' := by
  have hheader : ∀ b ∈ live, s'.header b = s.header b := fun b hb => hg.header (h.own_block hb)
  have hbase : ∀ {a}, s.InUse L a → (s'.slab a).pageBase = (s.slab a).pageBase := fun hu =>
    congrArg SlabView.base (hg.slab hu)
  have hmap : ∀ {a}, s.InUse L a → (s'.slab a).cache2048 = (s.slab a).cache2048 := fun hu =>
    congrArg SlabView.map (hg.slab hu)
  refine ⟨hg.ok, hg.latest, fun a ha => ?_, fun a y => ?_, fun b y => ?_, h.busy.grow h.ok hg, fun b hb => ?_,
    fun b hb b' hb' hbb a ha ha' j => ?_, fun a ha j hj hbit => ?_⟩
  · have hu := hg.inUse.mp ha
    rw [hbase hu]
    exact h.based a hu
  · rw [(hg.frame (a + 1) 0).data a (by omega) y, h.data a y, hg.inUse]
    exact and_congr_right fun hu => by rw [hbase hu]
  · rw [(hg.frame 0 (b + 1)).body b (by omega) y, h.body b y]
    exact and_congr_right fun hb => by rw [hheader b hb]
  · refine (h.block b hb).congr (hheader b hb) fun a _ hu => ⟨hg.inUse.mpr hu, hbase hu, fun j _ hbit => ?_⟩
    rw [hmap hu]
    exact hbit
  · rw [hheader b hb] at ha ⊢
    rw [hheader b' hb'] at ha' ⊢
    exact h.apart b hb b' hb' hbb a ha ha' j
  · have hu := hg.inUse.mp ha
    rw [hmap hu] at hbit
    obtain ⟨b, hb, hin, hhas⟩ := h.covered a hu j hj hbit
    refine ⟨b, hb, ?_⟩
    rw [hheader b hb]
    exact ⟨hin, hhas⟩

/-! ## A block more -/

/-- What the slab `a` gave to the block `b`, and that nothing else of it changed. -/
structure Given (a b : Nat) (L : Layout) (s : Heap) (L' : Layout) (s' : Heap) : Prop where
  data : ∀ y, L'.own y = some (.data a) ↔
    s'.InUse L' a ∧ (s'.slab a).pageBase ≤ y ∧ y < (s'.slab a).pageBase + 4096
  body : ∀ y, L'.own y = some (.body b) ↔ b ≤ y ∧ y < b + 4096 * ((s'.header b).size / 4096)
  based : s'.InUse L' a → (s'.slab a).pageBase % 4096 = 0 ∧ (s'.slab a).pageBase ≠ 0 ∧
    (s'.slab a).pageBase + 4096 ≤ 2 ^ 64
  /-- What was in use stays. -/
  inUse : s.InUse L a → s'.InUse L' a ∧ (s'.slab a).pageBase = (s.slab a).pageBase
  bits : s'.InUse L' a → ∀ j < 128, (bit (s'.slab a).cache2048 j = true ↔
    s.InUse L a ∧ bit (s.slab a).cache2048 j = true ∨ (s'.header b).InSlab a ∧ (s'.header b).Has j)
  /-- The block has objects of no other slab, and they were not in use. -/
  slab : ∀ x, (s'.header b).InSlab x → x = a
  clear : s.InUse L a → (s'.header b).InSlab a → ∀ j, (s'.header b).Has j →
    bit (s.slab a).cache2048 j = false

/-- **A block is added.** -/
theorem Inv.addBlock (h : Inv L live s) (hok : HeapOk L' s') (hl : LatestOk L' s')
    (hf : Frame a b L s L' s') (hg : Given a b L s L' s') (hb : b ∉ live) (hblock : BlockOk L' s' b)
    (hbusy : Busy L' s') :
    Inv L' (insert b live) s' := by
  have hne : ∀ b' ∈ live, b' ≠ b := fun b' hb' heq => hb (heq ▸ hb')
  have hheader : ∀ b' ∈ live, s'.header b' = s.header b' := fun b' hb' =>
    hf.header b' (hne b' hb') (h.own_block hb')
  have hold : ∀ x, s.InUse L x → s'.InUse L' x ∧ (s'.slab x).pageBase = (s.slab x).pageBase ∧
      ∀ j < 128, bit (s.slab x).cache2048 j = true → bit (s'.slab x).cache2048 j = true := by
    intro x hu
    by_cases hxa : x = a
    · subst hxa
      obtain ⟨hu', hbase⟩ := hg.inUse hu
      exact ⟨hu', hbase, fun j hj hbit => (hg.bits hu' j hj).mpr (.inl ⟨hu, hbit⟩)⟩
    · have hview := hf.slab x hxa hu
      refine ⟨(hf.inUse x hxa).mpr hu, congrArg SlabView.base hview, fun j _ hbit => ?_⟩
      rw [show (s'.slab x).cache2048 = (s.slab x).cache2048 from congrArg SlabView.map hview]
      exact hbit
  -- an object of an old block was in use
  have hbit : ∀ b' ∈ live, ∀ x, (s.header b').InSlab x → ∀ j, (s.header b').Has j →
      j < 128 ∧ s.InUse L x ∧ bit (s.slab x).cache2048 j = true := by
    intro b' hb' x hx j hj
    have hle := (h.block b' hb').le hx.1
    obtain ⟨hu, hbits⟩ := (h.block b' hb').inUse x hx
    exact ⟨Nat.lt_of_lt_of_le hj.2 hle, hu, hbits j hj⟩
  -- so that the new block does not have it
  have hnew : ∀ b' ∈ live, ∀ x, (s'.header b).InSlab x → (s.header b').InSlab x → ∀ j,
      (s.header b').Has j → ¬ (s'.header b).Has j := by
    intro b' hb' x hx hx' j hj hj'
    obtain rfl := hg.slab x hx
    obtain ⟨-, hu, hset⟩ := hbit b' hb' x hx' j hj
    rw [hg.clear hu hx j hj'] at hset
    exact absurd hset Bool.false_ne_true
  refine ⟨hok, hl, fun x hx => ?_, fun x y => ?_, fun b' y => ?_, hbusy, fun b' hb' => ?_,
    fun b₁ hb₁ b₂ hb₂ hbb x hx hx' j hj hj' => ?_, fun x hx j hj hbits => ?_⟩
  · by_cases hxa : x = a
    · subst hxa
      exact hg.based hx
    · have hu := (hf.inUse x hxa).mp hx
      rw [(hold x hu).2.1]
      exact h.based x hu
  · by_cases hxa : x = a
    · subst hxa
      exact hg.data y
    · rw [hf.data x hxa, h.data, hf.inUse x hxa]
      exact and_congr_right fun hu => by rw [(hold x hu).2.1]
  · by_cases hbb : b' = b
    · subst hbb
      rw [hg.body]
      exact ⟨fun hy => ⟨Set.mem_insert _ _, hy⟩, fun hy => hy.2⟩
    · rw [hf.body b' hbb, h.body, Set.mem_insert_iff, or_iff_right hbb]
      exact and_congr_right fun hb' => by rw [hheader b' hb']
  · rcases hb' with rfl | hb'
    · exact hblock
    · refine (h.block b' hb').congr (hheader b' hb') fun x hx hu => ?_
      obtain ⟨hu', hbase, hbits⟩ := hold x hu
      exact ⟨hu', hbase, fun j hj hset => hbits j (hbit b' hb' x hx j hj).1 hset⟩
  · rcases hb₁ with rfl | hb₁
    · rcases hb₂ with rfl | hb₂
      · exact hbb rfl
      · rw [hheader b₂ hb₂] at hx' hj'
        exact hnew b₂ hb₂ x hx hx' j hj' hj
    · rcases hb₂ with rfl | hb₂
      · rw [hheader b₁ hb₁] at hx hj
        exact hnew b₁ hb₁ x hx' hx j hj hj'
      · rw [hheader b₁ hb₁] at hx hj
        rw [hheader b₂ hb₂] at hx' hj'
        exact h.apart b₁ hb₁ b₂ hb₂ hbb x hx hx' j hj hj'
  · have hcov : s.InUse L x → bit (s.slab x).cache2048 j = true →
        ∃ b' ∈ insert b live, (s'.header b').InSlab x ∧ (s'.header b').Has j := by
      intro hu hset
      obtain ⟨b', hb', hin, hhas⟩ := h.covered x hu j hj hset
      refine ⟨b', Set.mem_insert_of_mem _ hb', ?_⟩
      rw [hheader b' hb']
      exact ⟨hin, hhas⟩
    by_cases hxa : x = a
    · subst hxa
      rcases (hg.bits hx j hj).mp hbits with ⟨hu, hset⟩ | hhas
      · exact hcov hu hset
      · exact ⟨b, Set.mem_insert _ _, hhas⟩
    · have hu := (hf.inUse x hxa).mp hx
      refine hcov hu ?_
      rw [← show (s'.slab x).cache2048 = (s.slab x).cache2048 from congrArg SlabView.map (hf.slab x hxa hu)]
      exact hbits

/-! ## A block less -/

/-- The slab `a` got the objects of the block `b` back, and nothing else of it changed. -/
structure Freed (a b : Nat) (L : Layout) (s : Heap) (L' : Layout) (s' : Heap) : Prop where
  data : ∀ y, L'.own y = some (.data a) ↔
    s'.InUse L' a ∧ (s'.slab a).pageBase ≤ y ∧ y < (s'.slab a).pageBase + 4096
  body : ∀ y, L'.own y ≠ some (.body b)
  /-- It is in use as long as it has objects in use. -/
  inUse : s'.InUse L' a → s.InUse L a ∧ (s'.slab a).pageBase = (s.slab a).pageBase
  stays : s.InUse L a → ∀ j < 128, bit (s'.slab a).cache2048 j = true → s'.InUse L' a
  bits : s.InUse L a → ∀ j < 128, (bit (s'.slab a).cache2048 j = true ↔
    bit (s.slab a).cache2048 j = true ∧ ¬ ((s.header b).InSlab a ∧ (s.header b).Has j))
  /-- The block had objects of no other slab. -/
  slab : ∀ x, (s.header b).InSlab x → x = a

/-- **A block is taken away.** -/
theorem Inv.dropBlock (h : Inv L live s) (hok : HeapOk L' s') (hl : LatestOk L' s')
    (hf : Frame a b L s L' s') (hg : Freed a b L s L' s') (hb : b ∈ live)
    (hbusy : Busy L' s') :
    Inv L' (live \ {b}) s' := by
  have hheader : ∀ b' ∈ live, b' ≠ b → s'.header b' = s.header b' := fun b' hb' hne =>
    hf.header b' hne (h.own_block hb')
  have hbit : ∀ b' ∈ live, ∀ x, (s.header b').InSlab x → ∀ j, (s.header b').Has j →
      j < 128 ∧ s.InUse L x ∧ bit (s.slab x).cache2048 j = true := by
    intro b' hb' x hx j hj
    have hle := (h.block b' hb').le hx.1
    obtain ⟨hu, hbits⟩ := (h.block b' hb').inUse x hx
    exact ⟨Nat.lt_of_lt_of_le hj.2 hle, hu, hbits j hj⟩
  -- the objects of the other blocks stay in use
  have hkeep : ∀ b' ∈ live, b' ≠ b → ∀ x, (s.header b').InSlab x → ∀ j, (s.header b').Has j →
      bit (s'.slab x).cache2048 j = true ∧ s'.InUse L' x := by
    intro b' hb' hne x hx j hj
    obtain ⟨hlt, hu, hset⟩ := hbit b' hb' x hx j hj
    by_cases hxa : x = a
    · subst hxa
      have hset' := (hg.bits hu j hlt).mpr ⟨hset, fun hand => h.apart b hb b' hb' hne.symm x hand.1 hx j hand.2 hj⟩
      exact ⟨hset', hg.stays hu j hlt hset'⟩
    · rw [show (s'.slab x).cache2048 = (s.slab x).cache2048 from congrArg SlabView.map (hf.slab x hxa hu)]
      exact ⟨hset, (hf.inUse x hxa).mpr hu⟩
  have hbase : ∀ x, s'.InUse L' x → s.InUse L x ∧ (s'.slab x).pageBase = (s.slab x).pageBase := by
    intro x hu
    by_cases hxa : x = a
    · subst hxa
      exact hg.inUse hu
    · have hu' := (hf.inUse x hxa).mp hu
      exact ⟨hu', congrArg SlabView.base (hf.slab x hxa hu')⟩
  refine ⟨hok, hl, fun x hx => ?_, fun x y => ?_, fun b' y => ?_, hbusy, ?_, ?_, fun x hx j hj hset => ?_⟩
  · rw [(hbase x hx).2]
    exact h.based x (hbase x hx).1
  · by_cases hxa : x = a
    · subst hxa
      exact hg.data y
    · rw [hf.data x hxa, h.data, hf.inUse x hxa]
      exact and_congr_right fun hu => by rw [(hbase x ((hf.inUse x hxa).mpr hu)).2]
  · by_cases hbb : b' = b
    · subst hbb
      exact iff_of_false (hg.body y) fun hand => hand.1.2 rfl
    · rw [hf.body b' hbb, h.body, Set.mem_sdiff, Set.mem_singleton_iff]
      constructor
      · rintro ⟨hb', hy⟩
        rw [hheader b' hb' hbb]
        exact ⟨⟨hb', hbb⟩, hy⟩
      · rintro ⟨⟨hb', -⟩, hy⟩
        rw [hheader b' hb' hbb] at hy
        exact ⟨hb', hy⟩
  · rintro b' ⟨hb', hne⟩
    have hne : b' ≠ b := hne
    refine (h.block b' hb').congr (hheader b' hb' hne) fun x hx hu => ?_
    have hpos := KHeader.req_pos hx.1
    have hu' := (hkeep b' hb' hne x hx (s.header b').sc ⟨Nat.le_refl _, by omega⟩).2
    exact ⟨hu', (hbase x hu').2, fun j hj _ => (hkeep b' hb' hne x hx j hj).1⟩
  · rintro b₁ ⟨hb₁, hne₁⟩ b₂ ⟨hb₂, hne₂⟩ hbb x hx hx' j hj hj'
    rw [hheader b₁ hb₁ hne₁] at hx hj
    rw [hheader b₂ hb₂ hne₂] at hx' hj'
    exact h.apart b₁ hb₁ b₂ hb₂ hbb x hx hx' j hj hj'
  · obtain ⟨hu, -⟩ := hbase x hx
    have hold : bit (s.slab x).cache2048 j = true ∧ ¬ ((s.header b).InSlab x ∧ (s.header b).Has j) := by
      by_cases hxa : x = a
      · subst hxa
        exact (hg.bits hu j hj).mp hset
      · rw [show (s'.slab x).cache2048 = (s.slab x).cache2048 from congrArg SlabView.map (hf.slab x hxa hu)]
          at hset
        exact ⟨hset, fun hand => hxa (hg.slab x hand.1)⟩
    obtain ⟨b', hb', hin, hhas⟩ := h.covered x hu j hj hold.1
    have hne : b' ≠ b := by
      rintro rfl
      exact hold.2 ⟨hin, hhas⟩
    refine ⟨b', ⟨hb', hne⟩, ?_⟩
    rw [hheader b' hb' hne]
    exact ⟨hin, hhas⟩

end

end Dem64.Kmalloc
