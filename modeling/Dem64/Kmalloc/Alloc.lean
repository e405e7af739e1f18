import Dem64.Kmalloc.Blocks

/-!
# `kmalloc`

The block that `kmalloc` returns is a new one, and the heap with it is in order (`kmalloc_spec`).
-/

set_option autoImplicit false

namespace Dem64.Kmalloc

open BitRow

/-- The objects were taken, and the slab has a page. -/
structure Served (a sc req : Nat) (L : Layout) (s : Heap) (L' : Layout) (s' : Heap) : Prop where
  taken : Taken a sc req L s L' s'
  based : (s'.slab a).pageBase % 4096 = 0 ∧ (s'.slab a).pageBase ≠ 0 ∧ (s'.slab a).pageBase + 4096 ≤ 2 ^ 64
  data : ∀ y, L'.own y = some (.data a) ↔
    (s'.slab a).pageBase ≤ y ∧ y < (s'.slab a).pageBase + 4096

/-- The outcome of the search with the page of the slab: what `Picks` says, and the page. -/
structure Paged (req : Nat) (L : Layout) (s : Heap) (q : Pick) (L' : Layout) (s' : Heap) : Prop where
  ok : HeapOk L' s'
  latest : LatestOk L' s'
  own : ∀ x, L.own x ≠ none → L'.own x = L.own x
  frame : ∀ b, Frame q.slab b L s L' s'
  busy : Busy L' s'
  served : Served q.slab q.sc req L s L' s'
  index : getIndex q.slab = q.slabPid
  place : q.place = (s'.slab q.slab).pageBase + 32 * q.sc

/-- The outcome of `kmalloc`: a new block at `b` of the size that was asked for, and the old blocks. -/
structure Serves (live : Set Nat) (size b : Nat) (s s' : Heap) : Prop where
  new : b ∉ live
  size : (s'.header b).size = size + 40
  header : ∀ x ∈ live, s'.header x = s.header x
  inv : ∃ L, Inv L (insert b live) s'

section

variable {L L' L₁ : Layout} {live : Set Nat} {s s' s₁ : Heap} {a b p i x sc req base n size : Nat}
  {env : HeapEnv} {k : KHeader} {q : Pick}

/-! ## Small changes -/

theorem HeapOk.setHeader {f : KHeader → KHeader} (h : HeapOk L s) : HeapOk L (s.setHeader b f) :=
  ⟨h.titles, h.nodup, h.list, h.head, h.aligned, h.caches, h.page, h.used, h.unused, h.capacity, h.ok, h.full,
    h.first, h.kmax⟩

theorem LatestOk.setHeader {f : KHeader → KHeader} (h : LatestOk L s) : LatestOk L (s.setHeader b f) := h

theorem Frame.setHeader {f : KHeader → KHeader} (h : Frame a b L s L' s') :
    Frame a b L s L' (s'.setHeader b f) :=
  ⟨h.inUse, h.slab, h.data, h.body, fun x hx ho => (if_neg hx).trans (h.header x hx ho)⟩

/-- A slab in use gets another page. -/
theorem HeapOk.setBase (h : HeapOk L s) (hu : s.InUse L a) (base : Nat) :
    HeapOk L (s.setSlab a fun e => { e with pageBase := base }) ∧
      (LatestOk L s → LatestOk L (s.setSlab a fun e => { e with pageBase := base })) ∧
      (∀ x, (s.setSlab a fun e => { e with pageBase := base }).InUse L x ↔ s.InUse L x) ∧
      ∀ b, Frame a b L s L (s.setSlab a fun e => { e with pageBase := base }) := by
  obtain ⟨p, hp, i, hi, rfl, hin, hown⟩ := h.inUse_own hu
  have he : Edits L p s (s.setSlab (slabAt p i) fun e => { e with pageBase := base }) := Edits.setSlab (.inl hown)
  have hview := @view_setSlab s p i (fun e => { e with pageBase := base })
    (fun e => { e with base := base }) hi fun _ => rfl
  have hv := (h.ok p hp).setBase hin base
  rw [← hview] at hv
  have h' := h.edit he hv (Nat.le_refl _) fun h0 => ⟨h0, rfl⟩
  refine ⟨h', fun hl => hl.edit he rfl rfl rfl, fun x => ⟨fun hx => ?_, fun hx => ?_⟩,
    fun b => h.frame_edit h' he fun j hj hne => ⟨hv.inUse_iff, fun _ => ?_⟩⟩
  · obtain ⟨q, hq, j, hj, rfl, hx, -⟩ := h'.inUse_own hx
    refine (h.inUse_slabAt hq hj).mpr ?_
    by_cases hqp : q = p
    · subst hqp
      exact hv.inUse_iff.mp hx
    · rwa [h.edits_view he hq hqp] at hx
  · obtain ⟨q, hq, j, hj, rfl, hx, -⟩ := h.inUse_own hx
    refine (h'.inUse_slabAt hq hj).mpr ?_
    by_cases hqp : q = p
    · subst hqp
      exact hv.inUse_iff.mpr hx
    · rwa [h.edits_view he hq hqp]
  · rw [setSlab_ne hne]

/-! ## The block -/

theorem Served.given (hs : Served a sc req L s L' s') (hin : k.InSlab a) (hsc : k.sc = sc) (hreq : k.req = req)
    (hbody : ∀ y, L'.own y = some (.body b) ↔ b ≤ y ∧ y < b + 4096 * (k.size / 4096)) :
    Given a b L s L' (s'.setHeader b fun _ => k) := by
  have hk : (s'.setHeader b fun _ => k).header b = k := if_pos rfl
  have hhas : ∀ j, k.Has j ↔ sc ≤ j ∧ j < sc + req := fun j => by rw [KHeader.Has, hsc, hreq]
  refine ⟨fun y => (hs.data y).trans ⟨fun hy => ⟨hs.taken.inUse, hy⟩, fun hy => hy.2⟩, fun y => ?_,
    fun _ => hs.based, fun hu => ⟨hs.taken.inUse, hs.taken.base hu⟩, fun _ j hj => ?_, fun x hx => ?_,
    fun hu _ j hj => ?_⟩
  · rw [hk]
    exact hbody y
  · rw [hk, hhas]
    exact (hs.taken.bits j hj).trans (or_congr_right ⟨fun hrun => ⟨hin, hrun⟩, fun hand => hand.2⟩)
  · rw [hk] at hx
    exact hx.2.symm.trans hin.2
  · rw [hk, hhas] at hj
    exact hs.taken.clear hu j hj.1 hj.2

/-- **A block with objects of a slab is added.** -/
theorem Inv.serve (h : Inv L live s) (hok : HeapOk L' s') (hl : LatestOk L' s') (hf : Frame a b L s L' s')
    (hs : Served a sc req L s L' s') (hin : k.InSlab a) (hsc : k.sc = sc) (hreq : k.req = req)
    (hbody : ∀ y, L'.own y = some (.body b) ↔ b ≤ y ∧ y < b + 4096 * (k.size / 4096)) (hb : b ∉ live)
    (hbusy : Busy L' s')
    (hbase : k.base = b) (hsize : 40 ≤ k.size) (hfits : b + k.size ≤ 2 ^ 64) (hindex : k.index = getIndex a)
    (hsmall : k.size < 4096 → b = (s'.slab a).pageBase + 32 * sc)
    (htail : 4096 ≤ k.size → sc = 0 ∧ (s'.slab a).pageBase = b + 4096 * (k.size / 4096)) :
    Inv L' (insert b live) (s'.setHeader b fun _ => k) := by
  have hk : (s'.setHeader b fun _ => k).header b = k := if_pos rfl
  have heq : ∀ x, k.InSlab x → x = a := fun x hx => hx.2.symm.trans hin.2
  refine h.addBlock hok.setHeader hl.setHeader hf.setHeader (hs.given hin hsc hreq hbody) hb ?_ hbusy
  refine ⟨?_, ?_, ?_, fun x hx => ?_, fun _ => ?_, fun x hx => ?_, fun x hx => ?_, fun x hx => ?_⟩ <;> rw [hk] at *
  · exact hbase
  · exact hsize
  · exact hfits
  · rw [heq x hx, hindex]
  · rw [hsc, hreq]
    exact hs.taken.le
  · rw [heq x hx]
    refine ⟨hs.taken.inUse, fun j hj => ?_⟩
    rw [KHeader.Has, hsc, hreq] at hj
    exact (hs.taken.bits j (Nat.lt_of_lt_of_le hj.2 hs.taken.le)).mpr (.inr hj)
  · rw [heq x hx, hsc]
    exact hsmall
  · rw [heq x hx, hsc]
    exact htail

/-- The slab has other links and another page. -/
theorem Taken.congr {L'' : Layout} {s'' : Heap} (ht : Taken a sc req L s L' s') (hu : s''.InUse L'' a)
    (hmap : (s''.slab a).cache2048 = (s'.slab a).cache2048) (hout : ¬ s.InUse L a) :
    Taken a sc req L s L'' s'' := by
  refine ⟨hu, ht.le, fun j hj => ?_, fun hin => absurd hin hout, fun hin => absurd hin hout⟩
  rw [hmap]
  exact ht.bits j hj

/-! ## The page of the slab -/

theorem Picks.inUse_of (hq : Picks req L s q L' s') (hu : s.InUse L x) : s'.InUse L' x := by
  by_cases hx : x = q.slab
  · rw [hx]
    exact hq.taken.inUse
  · exact ((hq.frame 0).inUse x hx).mpr hu

theorem Picks.busy (hq : Picks req L s q L' s') (hbusy : Busy L s) : Busy L' s' := by
  intro p hp hne
  rcases hq.pages p hp with hold | rfl
  · rw [hq.shd] at hne
    obtain ⟨i, hi, hu⟩ := hbusy p hold hne
    exact ⟨i, hi, hq.inUse_of hu⟩
  · exact ⟨q.slabPid, hq.pid, hq.slab ▸ hq.taken.inUse⟩

theorem Picks.index (hq : Picks req L s q L' s') : getIndex q.slab = q.slabPid := by
  rw [hq.slab]
  exact getIndex_slabAt (hq.ok.aligned _ hq.hd).1 hq.pid

/-- **The slab has a page**, or a call of `va_alloc` fails. -/
theorem dataPage_spec (henv : env.Fresh) (h : Inv L live s) (hreq : 1 ≤ req) (hq : Picks req L s q L₁ s₁)
    {o : Option Pick} (hc : dataPage env n req true q s₁ = .ok (o, s')) :
    (o = none → env.Refuses) ∧ ∀ q', o = some q' → q'.slab = q.slab ∧ ∃ L', Paged req L s q' L' s' := by
  have hle := hq.taken.le
  have hplace := hq.place
  rw [dataPage] at hc
  by_cases hin : s.InUse L q.slab
  · -- a slab in use has its page
    obtain ⟨h1, h2, h3⟩ := h.based _ hin
    rw [← hq.taken.base hin] at h1 h2 h3
    have hvalid : ¬ ((s₁.slab q.slab).pageBase = invalidBase ∧ true = true) := by
      rintro ⟨heq, -⟩
      rw [heq] at h1
      exact absurd h1 (by decide)
    rw [if_neg hvalid] at hc
    cases hc
    refine ⟨nofun, ?_⟩
    rintro q' ⟨⟩
    refine ⟨rfl, L₁, hq.ok, hq.latest, hq.own, hq.frame, hq.busy h.busy, ⟨hq.taken, ⟨h1, h2, h3⟩, fun y => ?_⟩,
      hq.index, ?_⟩
    · rw [hq.data, h.data, hq.taken.base hin]
      exact ⟨fun hand => hand.2, fun hy => ⟨hin, hy⟩⟩
    · rw [hplace, Nat.mod_eq_of_lt (by omega)]
  · obtain ⟨hinvalid, hsc⟩ := hq.fresh hin
    rw [if_pos ⟨hinvalid, rfl⟩] at hc
    dsimp only at hc
    rcases vaAlloc_cases 1 henv hq.ok.titles with ⟨hs, hr⟩ | ⟨hs, base, hv, hbase, hstate⟩
    · rw [if_pos hs] at hc
      obtain ⟨s₂, -, hc⟩ := bind_eq_ok_iff.mp hc
      cases hc
      exact ⟨fun _ => hr, nofun⟩
    · rw [if_neg (not_not.mpr hs), hbase, hstate] at hc
      cases hc
      refine ⟨nofun, ?_⟩
      rintro q' ⟨⟩
      have ho : Owner.Outside (.data q.slab) := Owner.outside_data _
      have hok : HeapOk (L₁.assign base 1 (some (.data q.slab))) (s₁.granted env base 1) := hq.ok.granted hv ho
      have hu : (s₁.granted env base 1).InUse (L₁.assign base 1 (some (.data q.slab))) q.slab :=
        (hq.ok.granted_inUse hv).mpr hq.taken.inUse
      obtain ⟨h1, h2, h3, h4⟩ := hok.setBase hu base
      have hslab : ((s₁.granted env base 1).setSlab q.slab fun e => { e with pageBase := base }).slab q.slab =
          { s₁.slab q.slab with pageBase := base } := by
        rw [setSlab_self, hq.ok.granted_slab hv hq.taken.inUse]
      refine ⟨rfl, _, h1, h2 (hq.latest.granted hq.ok hv), fun x hx => ?_, fun b => ?_, fun p hp hne => ?_,
        ⟨hq.taken.congr ((h3 _).mpr hu) (by rw [hslab]) hin, ?_, fun y => ?_⟩, hq.index, ?_⟩
      · have hown := hq.own x hx
        exact (hv.assign_own (hown ▸ hx)).trans hown
      · refine ((hq.frame b).trans (hq.ok.frame_granted hv (.inl rfl)) fun x hx => ?_).trans (h4 b) fun x hx => ?_
        · rw [hq.own x hx]
          exact hx
        · rw [hv.assign_own (hq.own x hx ▸ hx), hq.own x hx]
          exact hx
      · obtain ⟨i, hi, hu'⟩ := hq.busy h.busy p hp hne
        exact ⟨i, hi, (h3 _).mpr ((hq.ok.granted_inUse hv).mpr hu')⟩
      · rw [hslab]
        exact ⟨hv.1, hv.2.1, hv.2.2.1⟩
      · rw [hslab, hv.assign_iff, hq.data, h.data]
        exact ⟨fun hor => (hor.resolve_left fun hand => hin hand.1).2, fun hy => .inr ⟨rfl, hy⟩⟩
      · rw [hslab]
        show (subU64 q.place 1 + base) % 2 ^ 64 = base + 32 * q.sc
        have hfits := hv.2.2.1
        rw [hplace, hinvalid, hsc]
        show (0 + base) % 2 ^ 64 = base + 32 * 0
        omega

/-! ## Small blocks -/

/-- What is written in front of a block. -/
def headerOf (b size : Nat) (q : Pick) : KHeader := ⟨b, size, 0x03, q.sc, q.slabPid, q.slab⟩

theorem finish_eq {place : Nat} (hplace : place ≠ 0) :
    finish place size q s = ((place + 40) % 2 ^ 64, s.setHeader place fun _ => headerOf place size q) :=
  if_neg hplace

/-- Where the objects of a slab in use lie there is no other block. -/
theorem Paged.not_live (hq : Paged req L s q L' s') (h : Inv L live s) (hreq : 1 ≤ req) : q.place ∉ live := by
  intro hb
  have hown := h.own_block hb
  have hle := hq.served.taken.le
  have hdata : L.own q.place = some (.data q.slab) := by
    rw [← hq.own _ hown]
    exact (hq.served.data _).mpr ⟨by rw [hq.place]; omega, by rw [hq.place]; omega⟩
  obtain ⟨hu, -, -⟩ := (h.data _ _).mp hdata
  have hblock := h.block _ hb
  have hsize := hblock.size
  by_cases hlarge : 4096 ≤ (s.header q.place).size
  · rw [(h.body q.place q.place).mpr ⟨hb, Nat.le_refl _, by omega⟩] at hdata
    cases hdata
  · have hin : (s.header q.place).InSlab (s.header q.place).slabOrg := ⟨by omega, rfl⟩
    have hle' := hblock.le hin.1
    have hpos := KHeader.req_pos hin.1
    have heq := hblock.small _ hin (by omega)
    have hown' := (h.data (s.header q.place).slabOrg q.place).mpr
      ⟨(hblock.inUse _ hin).1, by omega, by omega⟩
    rw [hdata] at hown'
    have ha : q.slab = (s.header q.place).slabOrg := Owner.data.inj (Option.some.inj hown')
    rw [← ha] at hin heq
    have hset := (hblock.inUse _ hin).2 q.sc ⟨?_, ?_⟩
    · rw [hq.served.taken.clear hu q.sc (Nat.le_refl _) (by omega)] at hset
      cases hset
    all_goals
      have hplace := hq.place
      rw [hq.served.taken.base hu] at hplace
      omega

/-- **A small block**, or a call of `va_alloc` fails. -/
theorem findSlab_small (henv : env.Fresh) (h : Inv L live s) (hne : L.pages ≠ []) (hn : 128 < n)
    (hsize : 40 ≤ size) (hlt : size < 4096) {o : Option Pick} (hc : findSlab env n size true s = .ok (o, s')) :
    (o = none → env.Refuses) ∧ ∀ q, o = some q → q.place ≠ 0 ∧ q.place + 64 ≤ 2 ^ 64 ∧ q.place ∉ live ∧
      (∀ x ∈ live, s'.header x = s.header x) ∧
      ∃ L', Inv L' (insert q.place live) (s'.setHeader q.place fun _ => headerOf q.place size q) := by
  obtain ⟨⟨ok, s₁⟩, hstart, hc⟩ := bind_eq_ok_iff.mp hc
  obtain ⟨rfl, hgrows, hstart⟩ := ensureStart_spec h.ok h.latest hne hstart
  have h₁ := h.grow hgrows
  have hreq : (size + 31) >>> 5 = (size + 31) / 32 := Nat.shiftRight_eq_div_pow _ 5
  dsimp only at hc
  rw [if_neg (by decide), hreq] at hc
  obtain ⟨⟨o', s₂⟩, hpick, hc⟩ := bind_eq_ok_iff.mp hc
  obtain ⟨hfail, hpicks⟩ := pickObjs_spec henv hgrows.ok hgrows.latest hstart (by omega) hn hpick
  rcases o' with _ | q₀
  · cases hc
    exact ⟨fun _ => hfail rfl, nofun⟩
  obtain ⟨⟨L₂, hq₀⟩, -⟩ := hpicks q₀ rfl
  obtain ⟨hfail, hpaged⟩ := dataPage_spec henv h₁ (by omega) hq₀ hc
  refine ⟨hfail, fun q hq => ?_⟩
  obtain ⟨-, L₃, hq⟩ := hpaged q hq
  have hle := hq.served.taken.le
  obtain ⟨hb1, hb2, hb3⟩ := hq.served.based
  have hplace := hq.place
  have hlive := hq.not_live h₁ (by omega)
  have hheader : ∀ x ∈ live, s'.header x = s.header x := fun x hx =>
    ((hq.frame (x + 1)).header x (by omega) (h₁.own_block hx)).trans (hgrows.header (h.own_block hx))
  refine ⟨by omega, by omega, hlive, hheader, L₃, ?_⟩
  refine h₁.serve (k := headerOf q.place size q) hq.ok hq.latest (hq.frame _) hq.served ⟨?_, rfl⟩ rfl ?_
    (fun y => ?_) hlive hq.busy rfl hsize (by show q.place + size ≤ _; omega) hq.index.symm (fun _ => hplace)
    (fun hle => ?_)
  · show size % 4096 ≠ 0
    omega
  · show (size % 4096 + 31) / 32 = _
    rw [Nat.mod_eq_of_lt hlt]
  · rw [(hq.frame (q.place + 1)).body q.place (by omega), h₁.body]
    show _ ↔ _ ∧ y < q.place + 4096 * (size / 4096)
    exact ⟨fun hand => absurd hand.1 hlive, fun hand => by omega⟩
  · have hle : 4096 ≤ size := hle
    omega

/-! ## Large blocks -/

theorem not_inUse_zero : ¬ s.InUse L 0 := by
  rintro ⟨p, -, i, heq, -⟩
  rw [slabAt] at heq
  omega

/-- **A large block that fills its pages.** -/
theorem Inv.aligned (h : Inv L live s) (env : HeapEnv) (q : Pick) (size : Nat) {pages : Nat}
    (hv : Vacant L base pages) (hpages : 1 ≤ pages)
    (hsize : size = 4096 * pages) : base ∉ live ∧ Inv (L.assign base pages (some (.body base))) (insert base live)
      ((s.granted env base pages).setHeader base fun _ => headerOf base size q) := by
  have hlive : base ∉ live := fun hb =>
    h.own_block hb (hv.2.2.2 base (Nat.le_refl _) (by omega))
  have ho : Owner.Outside (.body base) := Owner.outside_body _
  have hok : HeapOk (L.assign base pages (some (.body base))) (s.granted env base pages) := h.ok.granted hv ho
  have hk : ((s.granted env base pages).setHeader base fun _ => headerOf base size q).header base =
      headerOf base size q := if_pos rfl
  have hout : ∀ x, ¬ (headerOf base size q).InSlab x := fun x hx => hx.1 (by show size % 4096 = 0; omega)
  have hzero : ∀ {t}, ¬ Heap.InUse t (L.assign base pages (some (.body base))) 0 := not_inUse_zero
  refine ⟨hlive, h.addBlock (a := 0) hok.setHeader (h.latest.granted h.ok hv)
    (h.ok.frame_granted hv (.inr rfl)).setHeader ?_ hlive ?_ (h.busy.granted h.ok hv)⟩
  · refine ⟨fun y => ?_, fun y => ?_, fun hu => absurd hu hzero, fun hu => absurd hu not_inUse_zero,
      fun hu => absurd hu hzero, fun x hx => absurd (hk ▸ hx) (hout x), fun hu => absurd hu not_inUse_zero⟩
    · show (L.assign base pages (some (.body base))).own y = _ ↔ _
      rw [hv.assign_iff, h.data]
      exact iff_of_false (fun hor => hor.elim (fun hand => not_inUse_zero hand.1) fun hand => by cases hand.1)
        fun hand => hzero hand.1
    · show (L.assign base pages (some (.body base))).own y = _ ↔ _
      rw [hv.assign_iff, h.body, hk]
      show _ ↔ _ ∧ y < base + 4096 * (size / 4096)
      rw [hsize, Nat.mul_div_cancel_left _ (by decide)]
      exact ⟨fun hor => (hor.resolve_left fun hand => hlive hand.1).2, fun hy => .inr ⟨rfl, hy⟩⟩
  · have hfits := hv.2.2.1
    refine ⟨?_, ?_, ?_, fun x hx => ?_, fun hx => ?_, fun x hx => ?_, fun x hx => ?_, fun x hx => ?_⟩ <;> rw [hk] at *
    · rfl
    · show 40 ≤ size
      omega
    · show base + size ≤ _
      omega
    · exact absurd hx (hout x)
    · exact absurd ⟨hx, rfl⟩ (hout _)
    · exact absurd hx (hout x)
    · exact absurd hx (hout x)
    · exact absurd hx (hout x)

/-- The bytes of a block become the page of the slab `a`. -/
theorem HeapOk.reassign (h : HeapOk L s)
    (hold : ∀ x, base ≤ x → x < base + 4096 * 1 → L.own x = some (.body b)) :
    HeapOk (L.assign base 1 (some (.data a))) s ∧
      Frame a b L s (L.assign base 1 (some (.data a))) s := by
  have hiff : ∀ (o : Owner) (x : Nat), o ≠ .data a → o ≠ .body b →
      ((L.assign base 1 (some (.data a))).own x = some o ↔ L.own x = some o) := by
    intro o x ha hb
    show (if _ then _ else _) = _ ↔ _
    split
    · rename_i hx
      rw [hold x hx.1 hx.2, Option.some.injEq, Option.some.injEq]
      exact iff_of_false ha.symm hb.symm
    · rfl
  refine ⟨⟨fun x => ?_, h.nodup, h.list, h.head, h.aligned, h.caches,
    fun p x => (hiff (.page p) x nofun nofun).trans (h.page p x),
    fun p x => (hiff (.used p) x nofun nofun).trans (h.used p x),
    fun p x => (hiff (.unused p) x nofun nofun).trans (h.unused p x),
    h.capacity, h.ok, h.full, h.first, h.kmax⟩, ⟨fun _ _ => Iff.rfl, fun _ _ _ => rfl, fun x hx y => ?_,
    fun x hx y => ?_, fun _ _ _ => rfl⟩⟩
  · rw [h.titles]
    show _ ↔ (if _ then _ else _) ≠ none
    split
    · rename_i hx
      rw [hold x hx.1 hx.2]
      exact iff_of_true (Option.some_ne_none _) (Option.some_ne_none _)
    · rfl
  · exact hiff _ y (fun heq => hx (Owner.data.inj heq)) nofun
  · exact hiff _ y nofun fun heq => hx (Owner.body.inj heq)

/-- **A large block whose last page is the page of a slab**, or a call of `va_alloc` fails. -/
theorem findSlab_tail (size : Nat) (henv : env.Fresh) (h : Inv L live s) (hne : L.pages ≠ []) (hn : 128 < n) {m r : Nat}
    (hm : 1 ≤ m) (hr : 1 ≤ r) (hlt : r < 4096) (hv : Vacant L base (m + 1)) (hsize : size = 4096 * m + r)
    {o : Option Pick} (hc : findSlab env n r false (s.granted env base (m + 1)) = .ok (o, s')) :
    (o = none → env.Refuses) ∧ ∀ q, o = some q → base ∉ live ∧ (∀ x ∈ live, s'.header x = s.header x) ∧
      ∃ L', Inv L' (insert base live) ((s'.setSlab q.slab fun e =>
        { e with pageBase := base + 4096 * m }).setHeader base fun _ => headerOf base size q) := by
  have hlive : base ∉ live := fun hb =>
    h.own_block hb (hv.2.2.2 base (Nat.le_refl _) (by omega))
  have ho : Owner.Outside (.body base) := Owner.outside_body _
  have hok₁ : HeapOk (L.assign base (m + 1) (some (.body base))) (s.granted env base (m + 1)) :=
    h.ok.granted hv ho
  have hframe₁ : ∀ a, Frame a base L s (L.assign base (m + 1) (some (.body base))) (s.granted env base (m + 1)) :=
    fun a => h.ok.frame_granted hv (.inr rfl)
  have hown₁ : ∀ x, L.own x ≠ none → (L.assign base (m + 1) (some (.body base))).own x = L.own x := fun x hx =>
    hv.assign_own hx
  have hbody₁ : ∀ y, (L.assign base (m + 1) (some (.body base))).own y = some (.body base) ↔
      base ≤ y ∧ y < base + 4096 * (m + 1) := by
    intro y
    rw [hv.assign_iff, h.body]
    exact ⟨fun hor => (hor.resolve_left fun hand => hlive hand.1).2, fun hy => .inr ⟨rfl, hy⟩⟩
  have hbusy₁ : Busy (L.assign base (m + 1) (some (.body base))) (s.granted env base (m + 1)) :=
    h.busy.granted h.ok hv
  obtain ⟨⟨ok, s₂⟩, hstart, hc⟩ := bind_eq_ok_iff.mp hc
  obtain ⟨rfl, hgrows, hstart⟩ := ensureStart_spec hok₁ (h.latest.granted h.ok hv) hne hstart
  have hreq : (r + 31) >>> 5 = (r + 31) / 32 := Nat.shiftRight_eq_div_pow _ 5
  dsimp only at hc
  rw [if_neg (by decide), hreq] at hc
  obtain ⟨⟨o', s₃⟩, hpick, hc⟩ := bind_eq_ok_iff.mp hc
  obtain ⟨hfail, hpicks⟩ := pickObjs_spec henv hgrows.ok hgrows.latest hstart (by omega) hn hpick
  rcases o' with _ | q
  · cases hc
    exact ⟨fun _ => hfail rfl, nofun⟩
  have hc : dataPage env n ((r + 31) / 32) false q s₃ = .ok (o, s') := hc
  rw [dataPage, if_neg (fun hand => absurd hand.2 Bool.false_ne_true)] at hc
  cases hc
  refine ⟨nofun, ?_⟩
  rintro q' ⟨⟩
  obtain ⟨⟨L₃, hq⟩, hout⟩ := hpicks q rfl
  have hout₂ := hout rfl
  -- the heap before the call and the one before the search agree on the slabs
  have hframe₂ : ∀ a, Frame a base L s _ s₂ := fun a =>
    (hframe₁ a).trans (hgrows.frame a base) fun x hx => by
      rw [hown₁ x hx]
      exact hx
  have hout : ¬ s.InUse L q.slab := fun hin => hout₂ (((hframe₂ (q.slab + 1)).inUse _ (by omega)).mpr hin)
  have hown₂ : ∀ x, L.own x ≠ none → _ := fun x hx =>
    (hgrows.own x ((hown₁ x hx).symm ▸ hx)).trans (hown₁ x hx)
  have hown₃ : ∀ x, L.own x ≠ none → L₃.own x = L.own x := fun x hx =>
    (hq.own x ((hown₂ x hx).symm ▸ hx)).trans (hown₂ x hx)
  have hbody₃ : ∀ y, L₃.own y = some (.body base) ↔ base ≤ y ∧ y < base + 4096 * (m + 1) := fun y => by
    rw [(hq.frame (base + 1)).body base (by omega), (hgrows.frame 0 (base + 1)).body base (by omega), hbody₁]
  have hdata₃ : ∀ y, L₃.own y ≠ some (.data q.slab) := fun y => by
    rw [ne_eq, hq.data, (hgrows.frame (q.slab + 1) 0).data _ (by omega), (hframe₁ (q.slab + 1)).data _ (by omega),
      h.data]
    exact fun hand => hout hand.1
  have hlast : ∀ x, base + 4096 * m ≤ x → x < base + 4096 * m + 4096 * 1 → L₃.own x = some (.body base) :=
    fun x hx hx' => (hbody₃ x).mpr (by omega)
  obtain ⟨hok₄, hframe₄⟩ := hq.ok.reassign (a := q.slab) hlast
  obtain ⟨h1, h2, h3, h4⟩ := hok₄.setBase (a := q.slab) hq.taken.inUse (base + 4096 * m)
  have hown₄ : ∀ x, L₃.own x ≠ none →
      (L₃.assign (base + 4096 * m) 1 (some (.data q.slab))).own x ≠ none := by
    intro x hx
    rw [assign_own]
    split
    · exact Option.some_ne_none _
    · exact hx
  have hframe₃ : Frame q.slab base L s L₃ s' := (hframe₂ q.slab).trans (hq.frame base) fun x hx => by
    rw [hown₂ x hx]
    exact hx
  have hframe : Frame q.slab base L s _ _ := (hframe₃.trans hframe₄ fun x hx => by
    rw [hown₃ x hx]
    exact hx).trans (h4 base) fun x hx => hown₄ x (hown₃ x hx ▸ hx)
  have hsc : q.sc = 0 := (hq.fresh hout₂).2
  have hmod : size % 4096 = r := by omega
  have hdiv : size / 4096 = m := by omega
  obtain ⟨hv1, hv2, hv3, -⟩ := hv
  have hslab : (s'.setSlab q.slab fun e => { e with pageBase := base + 4096 * m }).slab q.slab =
      { s'.slab q.slab with pageBase := base + 4096 * m } := setSlab_self
  have hserved : Served q.slab q.sc ((r + 31) / 32) L s (L₃.assign (base + 4096 * m) 1 (some (.data q.slab)))
      (s'.setSlab q.slab fun e => { e with pageBase := base + 4096 * m }) := by
    refine ⟨(hq.taken.of_frame hframe₂).congr ((h3 _).mpr hq.taken.inUse) (by rw [hslab]) hout, ?_, fun y => ?_⟩
    · rw [hslab]
      show (base + 4096 * m) % 4096 = 0 ∧ base + 4096 * m ≠ 0 ∧ base + 4096 * m + 4096 ≤ 2 ^ 64
      omega
    · rw [hslab, assign_own]
      show _ ↔ base + 4096 * m ≤ y ∧ y < base + 4096 * m + 4096
      split
      · rename_i hy
        exact iff_of_true rfl hy
      · rename_i hy
        exact iff_of_false (hdata₃ y) hy
  have hheader : ∀ x ∈ live, s'.header x = s.header x := fun x hx =>
    hframe₃.header x (fun heq => hlive (heq ▸ hx)) (h.own_block hx)
  refine ⟨hlive, hheader, _, h.serve (k := headerOf base size q) h1 (h2 hq.latest) hframe hserved
    ⟨?_, rfl⟩ rfl ?_ (fun y => ?_) hlive ?_ rfl ?_ ?_ hq.index.symm (fun hlt => ?_) fun _ => ⟨hsc, ?_⟩⟩
  · show size % 4096 ≠ 0
    omega
  · show (size % 4096 + 31) / 32 = _
    rw [hmod]
  · show _ ↔ _ ∧ y < base + 4096 * (size / 4096)
    rw [assign_own, hdiv]
    split
    · exact iff_of_false nofun (by omega)
    · rw [hbody₃]
      omega
  · intro p hp hne
    obtain ⟨i, hi, hu⟩ := hq.busy (hbusy₁.grow hok₁ hgrows) p hp hne
    exact ⟨i, hi, (h3 _).mpr hu⟩
  · show 40 ≤ size
    omega
  · show base + size ≤ 2 ^ 64
    omega
  · have hlt : size < 4096 := hlt
    omega
  · rw [hslab]
    show _ = base + 4096 * (size / 4096)
    rw [hdiv]

/-! ## The call -/

/-- The result for a block at `b`. -/
theorem finish_block (hb : b ≠ 0) (hfits : b + 64 ≤ 2 ^ 64) (hlive : b ∉ live)
    (hheader : ∀ x ∈ live, s₁.header x = s.header x)
    (hinv : ∃ L', Inv L' (insert b live) (s₁.setHeader b fun _ => headerOf b (size + 40) q))
    (hc : (Except.ok (finish b (size + 40) q s₁) : Except Fault (Nat × Heap)) = .ok (p, s')) :
    (p = 0 → env.Refuses) ∧ (p ≠ 0 → ∃ b, p = b + 40 ∧ Serves live size b s s') := by
  rw [finish_eq hb] at hc
  cases hc
  refine ⟨fun h0 => by omega, fun _ => ⟨b, Nat.mod_eq_of_lt (by omega), hlive, ?_, fun x hx => ?_, hinv⟩⟩
  · exact congrArg KHeader.size (if_pos rfl)
  · have hne : x ≠ b := fun heq => hlive (heq ▸ hx)
    exact (if_neg hne).trans (hheader x hx)

/-- **`kmalloc` adds a block**, or a call of `va_alloc` fails and the result is `NULL`. -/
theorem kmalloc_spec (henv : env.Fresh) (h : Inv L live s) (hn : 128 < n) (hfits : size + 4135 < 2 ^ 64)
    (hc : kmalloc env n size s = .ok (p, s')) : (p = 0 → env.Refuses) ∧
      (p ≠ 0 → ∃ b, p = b + 40 ∧ Serves live size b s s') := by
  have hsize : blockSize size = size + 40 := Nat.mod_eq_of_lt (by omega)
  rw [kmalloc, hsize] at hc
  dsimp only at hc
  rcases hi : initShd env s with ⟨ok, s₁⟩
  obtain ⟨hrefuse, hinit⟩ := initShd_spec henv h.ok h.latest hi
  rw [hi] at hc
  dsimp only at hc
  cases ok with
  | false =>
    rw [if_pos rfl] at hc
    cases hc
    exact ⟨fun _ => hrefuse rfl, fun hne => absurd rfl hne⟩
  | true =>
    obtain ⟨L₁, hgrows, hne, -⟩ := hinit rfl
    have h₁ := h.grow hgrows
    have hheader₁ : ∀ x ∈ live, s₁.header x = s.header x := fun x hx => hgrows.header (h.own_block hx)
    have hmask : (size + 40) &&& 0xFFF = (size + 40) % 4096 := Nat.and_two_pow_sub_one_eq_mod _ 12
    rw [if_neg (by decide), hmask, Nat.shiftRight_eq_div_pow, Nat.shiftRight_eq_div_pow] at hc
    by_cases hsmall : size + 40 < 4096
    · rw [if_pos hsmall] at hc
      obtain ⟨⟨o, s₂⟩, hfind, hc⟩ := bind_eq_ok_iff.mp hc
      obtain ⟨hrefuse, hfound⟩ := findSlab_small henv h₁ hne hn (by omega) hsmall hfind
      rcases o with _ | q
      · cases hc
        exact ⟨fun _ => hrefuse rfl, fun hne => absurd rfl hne⟩
      · obtain ⟨hb, hfits, hlive, hheader, hinv⟩ := hfound q rfl
        exact finish_block hb hfits hlive (fun x hx => (hheader x hx).trans (hheader₁ x hx)) hinv hc
    · rw [if_neg hsmall] at hc
      by_cases hpages : (size + 40) % 4096 = 0
      · rw [if_pos hpages] at hc
        rcases vaAlloc_cases ((size + 40) / 2 ^ 12) henv h₁.ok.titles with ⟨hs, hr⟩ | ⟨hs, base, hv, hbase, hstate⟩
        · rw [if_pos hs] at hc
          cases hc
          exact ⟨fun _ => hr, fun hne => absurd rfl hne⟩
        · rw [if_neg (not_not.mpr hs), hbase, hstate] at hc
          obtain ⟨hlive, hinv⟩ := h₁.aligned env ⟨base, 0, 0, 0, env.slabPid⟩ (size + 40) hv (by omega) (by omega)
          have hfits := hv.2.2.1
          exact finish_block hv.2.1 (by omega) hlive
            (fun x hx => (granted_same env s₁ hv (h₁.own_block hx)).2.2.2.trans (hheader₁ x hx)) ⟨_, hinv⟩ hc
      · rw [if_neg hpages, Nat.mod_eq_of_lt (show size + 40 + 4095 < 2 ^ 64 by omega),
          show (size + 40 + 4095) / 2 ^ 12 = (size + 40) / 4096 + 1 by omega] at hc
        rcases vaAlloc_cases ((size + 40) / 4096 + 1) henv h₁.ok.titles with
          ⟨hs, hr⟩ | ⟨hs, base, hv, hbase, hstate⟩
        · rw [if_pos hs] at hc
          cases hc
          exact ⟨fun _ => hr, fun hne => absurd rfl hne⟩
        · rw [if_neg (not_not.mpr hs), hbase, hstate] at hc
          obtain ⟨⟨o, s₂⟩, hfind, hc⟩ := bind_eq_ok_iff.mp hc
          obtain ⟨hrefuse, hfound⟩ := findSlab_tail (size + 40) henv h₁ hne hn (by omega) (by omega)
            (Nat.mod_lt _ (by decide)) hv (by omega) hfind
          rcases o with _ | q
          · cases hc
            exact ⟨fun _ => hrefuse rfl, fun hne => absurd rfl hne⟩
          · obtain ⟨hlive, hheader, hinv⟩ := hfound q rfl
            obtain ⟨hv1, hv2, hv3, -⟩ := hv
            have haddr : addrOf ((base + (size + 40)) % 2 ^ 64) = base + 4096 * ((size + 40) / 4096) := by
              rw [addrOf_eq]
              omega
            dsimp only at hc
            rw [haddr] at hc
            refine finish_block hv2 (by omega) hlive ?_ hinv hc
            exact fun x hx => (hheader x hx).trans (hheader₁ x hx)

end

end Dem64.Kmalloc
