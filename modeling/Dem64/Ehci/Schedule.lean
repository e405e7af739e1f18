import Dem64.Ehci.Driver
import Dem64.Lib.Lseg
import Dem64.Lib.Run

/-!
# The asynchronous schedule of EHCI

The driver takes a queue head out of the ring by writing back the link that `async_head` had when the queue
head came in.  This is right because the transfers come one after the other: a queue head that is inserted
later is behind `async_head` only until its own transfer ends, and when it stays there, because it could not
be unlinked, so does everything behind it.

The memory of a queue head is given back only after the controller has acknowledged that it advanced.  If
it does not, the block stays allocated and is recorded, in the ring or not.
-/

set_option autoImplicit false

namespace Dem64.Ehci

/-! ## The ring -/

/-- The queue head that a link points to.  None if the link ends the list or is not one of a queue head. -/
def linkTarget (link : BitVec 32) : Option Nat :=
  if link.getLsbD 0 = false ∧ link.extractLsb' 1 2 = 1 then some (link.toNat / 32 * 32) else none

/-- The queue head that the controller finds behind another. -/
def Schedule.next (r : Schedule) (qh : Nat) : Option Nat := linkTarget (r.links qh)

/-- A queue head is in memory that has not been freed. -/
def Schedule.Allocated (r : Schedule) (qh : Nat) : Prop :=
  ∃ b ∈ r.live, b.physicalAddress ≤ qh ∧ qh + sizeofQh ≤ b.physicalAddress + 4096 * b.sizeInPages

/-- What is to hold at every moment: the links from `async_head` go through distinct queue heads and back to
it, these are in memory that has not been freed, and so are all queue heads that the controller may still
know. -/
structure Schedule.Sound (head : Nat) (r : Schedule) : Prop where
  /-- The ring. -/
  ring : ∃ qs, LinkRing r.next head qs ∧ ∀ q ∈ qs, r.Allocated q ∧ q ∈ r.unacknowledged
  /-- The memory of `async_head`. -/
  first : r.Allocated head
  /-- The memory of the other queue heads. -/
  kept : ∀ q ∈ r.unacknowledged, r.Allocated q

/-- From one moment to the next: a block is freed only if the controller does without its queue head. -/
def FreedRightly (y x : Schedule) : Prop := ∀ b ∈ x.live, b ∉ y.live → b.physicalAddress ∉ x.unacknowledged

/-- What is to hold of the whole past: every moment was sound, and blocks were freed rightly.  `r` is now. -/
structure Past (head : Nat) (r : Schedule) (history : List Schedule) : Prop where
  /-- The history goes on to now. -/
  now : ∃ older, history = r :: older
  /-- Every moment was sound. -/
  sound : ∀ y ∈ history, y.Sound head
  /-- Blocks were freed rightly. -/
  freed : history.IsChain FreedRightly

/-- What holds between two calls.  The queue heads that the controller may still know are those of the
blocks in `controller.cached`. -/
structure Settled (head : Nat) (r : Schedule) (history : List Schedule) : Prop where
  /-- The ring. -/
  ring : ∃ qs, LinkRing r.next head qs ∧ ∀ q ∈ qs, q ∈ r.unacknowledged
  /-- The memory of `async_head`. -/
  first : r.Allocated head
  /-- The other queue heads are recorded, and allocated. -/
  recorded : ∀ q ∈ r.unacknowledged, ∃ b ∈ r.cached, b ∈ r.live ∧ 0 < b.sizeInPages ∧ q = b.physicalAddress
  /-- What has been. -/
  past : Past head r history

/-- In a call, the queue head of `alloc` is in the ring.  `r` was the schedule before. -/
structure Inserted (head : Nat) (alloc : DmaRet) (r x : Schedule) (history : List Schedule)
    (state : LinkState) : Prop where
  /-- The ring. -/
  ring : ∃ qs, LinkRing x.next head (alloc.physicalAddress :: qs) ∧ ∀ q ∈ qs, q ∈ r.unacknowledged
  /-- The blocks. -/
  live : x.live = alloc :: r.live
  /-- The blocks in `controller.cached`. -/
  cached : x.cached = r.cached
  /-- The queue heads that the controller may know. -/
  unacknowledged : x.unacknowledged = alloc.physicalAddress :: r.unacknowledged
  /-- The queue head was linked. -/
  linked : state.linked = true
  /-- It was linked behind `async_head`. -/
  previous : state.previous = head
  /-- The link that was saved is the one that it got. -/
  link : x.links alloc.physicalAddress = state.oldNext
  /-- What has been. -/
  past : Past head x history

section

variable {head q : Nat} {qs : List Nat} {r x : Schedule} {history : List Schedule} {alloc : DmaRet}
  {link : BitVec 32} {s : EhciState} {h0 : List Schedule} {state : LinkState}

theorem linkTarget_queueHead (h32 : 32 ∣ alloc.physicalAddress) (hbig : alloc.tooBig = false) :
    linkTarget (BitVec.ofNat 32 alloc.physicalAddress ||| 2) = some alloc.physicalAddress := by
  have hor : (BitVec.ofNat 32 alloc.physicalAddress ||| 2).toNat = alloc.physicalAddress + 2 :=
    @DmaRet.toNat_or_flags alloc 5 2 h32 hbig (by decide)
  have h0 : (BitVec.ofNat 32 alloc.physicalAddress ||| 2).getLsbD 0 = false := by
    rw [← BitVec.testBit_toNat, hor, Nat.testBit_zero]
    simp
    omega
  have h1 : (BitVec.ofNat 32 alloc.physicalAddress ||| 2).extractLsb' 1 2 = 1 := by
    apply BitVec.eq_of_toNat_eq
    rw [BitVec.extractLsb'_toNat, hor, Nat.shiftRight_eq_div_pow]
    show (alloc.physicalAddress + 2) / 2 ^ 1 % 2 ^ 2 = 1
    omega
  rw [linkTarget, if_pos ⟨h0, h1⟩, hor]
  congr 1
  omega

theorem next_update_self : ({ r with links := Function.update r.links q link } : Schedule).next q =
    linkTarget link :=
  congrArg linkTarget (Function.update_self ..)

theorem next_update_of_ne {q' : Nat} (h : q' ≠ q) :
    ({ r with links := Function.update r.links q link } : Schedule).next q' = r.next q' :=
  congrArg linkTarget (Function.update_of_ne h ..)

theorem Schedule.Allocated.mono (h : r.Allocated q) (hlive : ∀ b ∈ r.live, b ∈ x.live) : x.Allocated q := by
  obtain ⟨b, hb, hin⟩ := h
  exact ⟨b, hlive b hb, hin⟩

theorem allocated_of_page (hb : alloc ∈ r.live) (hpage : 0 < alloc.sizeInPages) :
    r.Allocated alloc.physicalAddress := by
  refine ⟨alloc, hb, le_refl _, ?_⟩
  rw [sizeofQh]
  omega

/-- The queue head of a new block is nobody else's. -/
theorem not_allocated_of_fresh (hf : FreshBlock r.live alloc) (h : r.Allocated q) :
    q ≠ alloc.physicalAddress := by
  rintro rfl
  obtain ⟨b, hb, h1, h2⟩ := h
  rw [sizeofQh] at h2
  exact hf.apart b hb _ ⟨h1, by omega⟩ hf.holds

theorem freedRightly_of_live (h : ∀ b ∈ r.live, b ∈ x.live) : FreedRightly x r :=
  fun b hb hb' => absurd (h b hb) hb'

theorem Past.cons (h : Past head r history) (hsound : x.Sound head) (hfreed : FreedRightly x r) :
    Past head x (x :: history) where
  now := ⟨history, rfl⟩
  sound := List.forall_mem_cons.mpr ⟨hsound, h.sound⟩
  freed := by
    obtain ⟨older, rfl⟩ := h.now
    exact List.isChain_cons_cons.mpr ⟨hfreed, h.freed⟩

namespace Settled

variable (h : Settled head r history)

include h

theorem kept : ∀ q ∈ r.unacknowledged, r.Allocated q := by
  intro q hq
  obtain ⟨b, -, hlive, hpage, rfl⟩ := h.recorded q hq
  exact allocated_of_page hlive hpage

theorem sound : r.Sound head := by
  obtain ⟨qs, hring, hqs⟩ := h.ring
  exact ⟨⟨qs, hring, fun q hq => ⟨h.kept q (hqs q hq), hqs q hq⟩⟩, h.first, h.kept⟩

/-- `allocate_dma` has returned a block. -/
theorem allocate : Settled head { r with live := allocateBlock r.live alloc }
    ({ r with live := allocateBlock r.live alloc } :: history) := by
  have hlive : ∀ b ∈ r.live, b ∈ allocateBlock r.live alloc := by
    intro b hb
    rw [allocateBlock]
    split
    · exact List.mem_cons_of_mem _ hb
    · exact hb
  obtain ⟨qs, hring, hqs⟩ := h.ring
  have hkept : ∀ q ∈ r.unacknowledged, Schedule.Allocated { r with live := allocateBlock r.live alloc } q :=
    fun q hq => (h.kept q hq).mono hlive
  exact
    { ring := ⟨qs, hring, hqs⟩
      first := h.first.mono hlive
      recorded := by
        intro q hq
        obtain ⟨b, hb, hb', hpage, rfl⟩ := h.recorded q hq
        exact ⟨b, hb, hlive b hb', hpage, rfl⟩
      past := h.past.cons
        ⟨⟨qs, hring, fun q hq => ⟨hkept q (hqs q hq), hqs q hq⟩⟩, h.first.mono hlive, hkept⟩
        (freedRightly_of_live hlive) }

end Settled

theorem Schedule.Sound.congr_cached {cached : List DmaRet} (h : x.Sound head) :
    ({ x with cached } : Schedule).Sound head := ⟨h.ring, h.first, h.kept⟩

/-- In a call, the ring and what the controller may know have grown by the queue head of the call at most. -/
theorem Settled.sound_of_ring (h : Settled head r history) (hf : FreshBlock r.live alloc)
    (hlive : x.live = alloc :: r.live) (hring : LinkRing x.next head qs) (hqs : ∀ q ∈ qs, q ∈ x.unacknowledged)
    (hunack : ∀ q ∈ x.unacknowledged, q = alloc.physicalAddress ∨ q ∈ r.unacknowledged) : x.Sound head := by
  have hmono : ∀ {q}, r.Allocated q → x.Allocated q := fun hq =>
    hq.mono fun b hb => hlive ▸ List.mem_cons_of_mem _ hb
  have hkept : ∀ q ∈ x.unacknowledged, x.Allocated q := by
    intro q hq
    rcases hunack q hq with rfl | hq
    · exact allocated_of_page (hlive ▸ List.mem_cons_self) hf.page
    · exact hmono (h.kept q hq)
  exact ⟨⟨qs, hring, fun q hq => ⟨hkept q (hqs q hq), hqs q hq⟩⟩, hmono h.first, hkept⟩

/-- The block of the call is given up. -/
theorem Settled.quarantine (h : Settled head r h0) (hf : FreshBlock r.live alloc)
    (hlive : x.live = alloc :: r.live) (hring : LinkRing x.next head qs) (hqs : ∀ q ∈ qs, q ∈ x.unacknowledged)
    (hunack : ∀ q ∈ x.unacknowledged, q = alloc.physicalAddress ∨ q ∈ r.unacknowledged)
    (hcached : x.cached = r.cached) (hpast : Past head x history) :
    Settled head { x with cached := x.cached ++ [alloc] } ({ x with cached := x.cached ++ [alloc] } :: history) := by
  have hsound := h.sound_of_ring hf hlive hring hqs hunack
  refine ⟨⟨qs, hring, hqs⟩, hsound.first, fun q hq => ?_,
    hpast.cons hsound.congr_cached (freedRightly_of_live fun _ hb => hb)⟩
  rcases hunack q hq with rfl | hq
  · exact ⟨alloc, by simp, hlive ▸ List.mem_cons_self, hf.page, rfl⟩
  · obtain ⟨b, hb, hb', hpage, rfl⟩ := h.recorded q hq
    exact ⟨b, by simp [hcached, hb], hlive ▸ List.mem_cons_of_mem _ hb', hpage, rfl⟩

variable (x history) in
/-- The block of the call is given back, when its queue head is not in the ring and the controller does
without it. -/
theorem Settled.free (h : Settled head r h0) (hf : FreshBlock r.live alloc) (hlive : x.live = alloc :: r.live)
    (hring : LinkRing x.next head qs) (hqs : ∀ q ∈ qs, q ∈ r.unacknowledged)
    (hunack : x.unacknowledged = r.unacknowledged) (hcached : x.cached = r.cached)
    (hpast : Past head x history) :
    Settled head { x with live := freeBlock x.live alloc } ({ x with live := freeBlock x.live alloc } :: history) := by
  have hfree : freeBlock x.live alloc = r.live := by rw [hlive, hf.freeBlock_cons]
  have hmono : ∀ {q}, r.Allocated q → Schedule.Allocated { x with live := freeBlock x.live alloc } q :=
    fun hq => hq.mono fun b hb => hfree ▸ hb
  have hsound : Schedule.Sound head { x with live := freeBlock x.live alloc } := by
    refine ⟨⟨qs, hring, fun q hq => ⟨hmono (h.kept q (hqs q hq)), hunack ▸ hqs q hq⟩⟩, hmono h.first, ?_⟩
    exact fun q hq => hmono (h.kept q (hunack ▸ hq))
  refine ⟨⟨qs, hring, hunack ▸ hqs⟩, hsound.first, ?_, hpast.cons hsound ?_⟩
  · show ∀ q ∈ x.unacknowledged, ∃ b ∈ x.cached, b ∈ freeBlock x.live alloc ∧ _
    rw [hunack, hcached, hfree]
    exact h.recorded
  · -- the block that goes is the one of the call, and its queue head is not among those before
    intro b hb hb' hm
    rw [show ({ x with live := freeBlock x.live alloc } : Schedule).live = r.live from hfree] at hb'
    rw [hlive] at hb
    rcases List.mem_cons.mp hb with rfl | hb
    · exact not_allocated_of_fresh hf (h.kept _ (hunack ▸ hm)) rfl
    · exact hb' hb

/-- **The queue head comes in.**  At every moment of `*qh = {}` and `insert_async_qh`, there is a ring. -/
theorem insert_inserted (h : Settled head r h0) (hf : FreshBlock r.live alloc)
    (hbig : alloc.tooBig = false) (hs : s.schedule = { r with live := alloc :: r.live })
    (hhead : s.asyncHeadPhys.toNat = head) (hpast : Past head s.schedule s.history) :
    let out := (s.storeLink alloc.physicalAddress 0).insertAsyncQh alloc.physicalAddress
      (BitVec.ofNat 32 alloc.physicalAddress)
    Inserted head alloc r out.2.schedule out.2.history out.1 := by
  obtain ⟨qs, hring, hqs⟩ := h.ring
  have hne : alloc.physicalAddress ≠ head := (not_allocated_of_fresh hf h.first).symm
  have hnotin : alloc.physicalAddress ∉ head :: qs := by
    intro hm
    rcases List.mem_cons.mp hm with hm | hm
    · exact hne hm
    · exact not_allocated_of_fresh hf (h.kept _ (hqs _ hm)) rfl
  have hlinks : s.schedule.links = r.links := by rw [hs]
  -- the three stores
  generalize hr1 : { s.schedule with links := Function.update s.schedule.links alloc.physicalAddress 0 } = r1
  generalize hr2 : { r1 with links := Function.update r1.links alloc.physicalAddress (r1.links head) } = r2
  generalize hr3 : ({ r2 with
    links := Function.update r2.links head (BitVec.ofNat 32 alloc.physicalAddress ||| 2)
    unacknowledged := alloc.physicalAddress :: r2.unacknowledged } : Schedule) = r3
  have hout : (s.storeLink alloc.physicalAddress 0).insertAsyncQh alloc.physicalAddress
      (BitVec.ofNat 32 alloc.physicalAddress) =
      (⟨head, r1.links head, true⟩, { s with schedule := r3, history := r3 :: r2 :: r1 :: s.history }) := by
    subst hr3 hr2 hr1 hhead
    rfl
  -- the first two do not touch the ring
  have hnext1 : ∀ y, y ≠ alloc.physicalAddress → r1.next y = r.next y := by
    intro y hy
    rw [← hr1, next_update_of_ne hy, Schedule.next, hlinks, Schedule.next]
  have hnext2 : ∀ y, y ≠ alloc.physicalAddress → r2.next y = r.next y := by
    intro y hy
    rw [← hr2, next_update_of_ne hy, hnext1 y hy]
  have hold : ∀ y ∈ head :: qs, y ≠ alloc.physicalAddress := fun y hy hyq => hnotin (hyq ▸ hy)
  have hsound1 : r1.Sound head :=
    h.sound_of_ring hf (by rw [← hr1, hs]) (hring.congr fun y hy => hnext1 y (hold y hy))
      (by rw [← hr1, hs]; exact hqs) (by rw [← hr1, hs]; exact fun q hq => .inr hq)
  have hsound2 : r2.Sound head :=
    h.sound_of_ring hf (by rw [← hr2, ← hr1, hs]) (hring.congr fun y hy => hnext2 y (hold y hy))
      (by rw [← hr2, ← hr1, hs]; exact hqs) (by rw [← hr2, ← hr1, hs]; exact fun q hq => .inr hq)
  -- the third lets the queue head in
  have hnew : r3.links alloc.physicalAddress = r1.links head := by
    have h2 : r2.links alloc.physicalAddress = r1.links head := by
      rw [← hr2]
      exact Function.update_self ..
    rw [← hr3, ← h2]
    exact Function.update_of_ne hne ..
  have hring3 : LinkRing r3.next head (alloc.physicalAddress :: qs) := by
    refine hring.push hnotin ?_ ?_ fun y hy => ?_
    · rw [← hr3]
      exact next_update_self.trans (linkTarget_queueHead (Dvd.dvd.trans (by decide) hf.aligned) hbig)
    · rw [Schedule.next, hnew]
      exact hnext1 head hne.symm
    · have hyh : y ≠ head := fun hyh => (List.nodup_cons.mp hring.nodup).1 (hyh ▸ hy)
      rw [← hnext2 y (hold y (List.mem_cons_of_mem _ hy)), ← hr3]
      exact next_update_of_ne hyh
  have hlive3 : r3.live = alloc :: r.live := by rw [← hr3, ← hr2, ← hr1, hs]
  have hunack3 : r3.unacknowledged = alloc.physicalAddress :: r.unacknowledged := by
    rw [← hr3, ← hr2, ← hr1, hs]
  have hsound3 : r3.Sound head := by
    refine h.sound_of_ring hf hlive3 hring3 ?_ fun q hq => List.mem_cons.mp (hunack3 ▸ hq)
    rw [hunack3]
    exact List.forall_mem_cons.mpr ⟨List.mem_cons_self, fun q hq => List.mem_cons_of_mem _ (hqs q hq)⟩
  rw [hout]
  exact
    { ring := ⟨qs, hring3, hqs⟩
      live := hlive3
      cached := by
        show r3.cached = r.cached
        rw [← hr3, ← hr2, ← hr1, hs]
      unacknowledged := hunack3
      linked := rfl
      previous := rfl
      link := hnew
      past := by
        refine ((hpast.cons hsound1 ?_).cons hsound2 ?_).cons hsound3 ?_
        · exact freedRightly_of_live fun b hb => by rw [← hr1]; exact hb
        · exact freedRightly_of_live fun b hb => by rw [← hr2]; exact hb
        · exact freedRightly_of_live fun b hb => by rw [← hr3]; exact hb }

variable (s) in
/-- **The queue head goes out.**  If it was unlinked, the block can be freed; if not, it can be given up.
There is a ring at every moment, whatever the controller does. -/
theorem unlink_settled (u : Unlink) (active : Bool) (h : Settled head r h0) (hf : FreshBlock r.live alloc)
    (hi : Inserted head alloc r s.schedule s.history state) :
    let out := s.unlinkAsyncQh u state alloc.physicalAddress active
    (out.1 = true → Settled head (out.2.freeDma alloc).schedule (out.2.freeDma alloc).history) ∧
    (out.1 = false → Settled head (out.2.quarantine alloc).schedule (out.2.quarantine alloc).history) := by
  obtain ⟨qs, hring, hqs⟩ := hi.ring
  have hunack : ∀ q ∈ s.schedule.unacknowledged, q = alloc.physicalAddress ∨ q ∈ r.unacknowledged :=
    fun q hq => List.mem_cons.mp (hi.unacknowledged ▸ hq)
  have hin : ∀ q ∈ qs, q ∈ s.schedule.unacknowledged := fun q hq =>
    hi.unacknowledged ▸ List.mem_cons_of_mem _ (hqs q hq)
  -- the driver does nothing, and the queue head stays in the ring
  have hstays : Settled head (s.quarantine alloc).schedule (s.quarantine alloc).history := by
    refine h.quarantine hf hi.live hring ?_ hunack hi.cached hi.past
    exact List.forall_mem_cons.mpr ⟨hi.unacknowledged ▸ List.mem_cons_self, hin⟩
  simp only [EhciState.unlinkAsyncQh, hi.linked, Bool.not_true, Bool.false_eq_true, if_false]
  cases active with
  | true => exact ⟨fun hc => Bool.noConfusion hc, fun _ => hstays⟩
  | false =>
    by_cases hbusy : u.command &&& ehciUsbcmdIaad ≠ 0
    · rw [if_neg Bool.false_ne_true, if_pos hbusy]
      exact ⟨fun hc => Bool.noConfusion hc, fun _ => hstays⟩
    · rw [if_neg Bool.false_ne_true, if_neg hbusy, hi.previous]
      -- the two stores
      generalize hr1 : { s.schedule with links := Function.update s.schedule.links head state.oldNext } = r1
      generalize hr2 : { r1 with links := Function.update r1.links alloc.physicalAddress state.oldNext } = r2
      have hstores : (s.storeLink head state.oldNext).storeLink alloc.physicalAddress state.oldNext =
          { s with schedule := r2, history := r2 :: r1 :: s.history } := by
        subst hr2 hr1
        rfl
      obtain ⟨hhead, hnodup⟩ := List.nodup_cons.mp hring.nodup
      have hne : alloc.physicalAddress ≠ head := fun he => hhead (he ▸ List.mem_cons_self)
      have hring1 : LinkRing r1.next head qs := by
        refine hring.pop ?_ fun y hy => ?_
        · rw [← hr1]
          exact next_update_self.trans (congrArg linkTarget hi.link.symm)
        · rw [← hr1]
          exact next_update_of_ne fun he => hhead (he ▸ List.mem_cons_of_mem _ hy)
      have hring2 : LinkRing r2.next head qs := by
        refine hring1.congr fun y hy => ?_
        rw [← hr2]
        refine next_update_of_ne fun he => ?_
        rcases List.mem_cons.mp hy with hy | hy
        · exact hne (he.symm.trans hy)
        · exact (List.nodup_cons.mp hnodup).1 (he ▸ hy)
      have hlive1 : r1.live = alloc :: r.live := by rw [← hr1, ← hi.live]
      have hlive2 : r2.live = alloc :: r.live := by rw [← hr2, ← hlive1]
      have hunack1 : r1.unacknowledged = s.schedule.unacknowledged := by rw [← hr1]
      have hunack2 : r2.unacknowledged = s.schedule.unacknowledged := by rw [← hr2, ← hunack1]
      have hcached2 : r2.cached = r.cached := by rw [← hr2, ← hr1, ← hi.cached]
      have hsound1 := h.sound_of_ring hf hlive1 hring1 (hunack1 ▸ hin) (hunack1 ▸ hunack)
      have hsound2 := h.sound_of_ring hf hlive2 hring2 (hunack2 ▸ hin) (hunack2 ▸ hunack)
      have hpast2 : Past head r2 (r2 :: r1 :: s.history) :=
        (hi.past.cons hsound1 (freedRightly_of_live (by rw [hlive1, hi.live]; exact fun _ hb => hb))).cons hsound2
          (freedRightly_of_live (by rw [hlive1, hlive2]; exact fun _ hb => hb))
      rw [hstores]
      cases hack : u.acknowledged with
      | false =>
        rw [if_neg Bool.false_ne_true]
        exact ⟨fun hc => Bool.noConfusion hc, fun _ =>
          h.quarantine hf hlive2 hring2 (hunack2 ▸ hin) (hunack2 ▸ hunack) hcached2 hpast2⟩
      | true =>
        rw [if_pos rfl]
        refine ⟨fun _ => ?_, fun hc => Bool.noConfusion hc⟩
        -- the controller does without the queue head, as with all before this call
        have hfilter : r2.unacknowledged.filter (fun a => a ≠ alloc.physicalAddress) = r.unacknowledged := by
          rw [hunack2, hi.unacknowledged, List.filter_cons_of_neg (by simp), List.filter_eq_self]
          exact fun q hq => decide_eq_true (not_allocated_of_fresh hf (h.kept q hq))
        generalize hr3 : ({ r2 with
          unacknowledged := r2.unacknowledged.filter fun a => a ≠ alloc.physicalAddress } : Schedule) = r3
        have hlive3 : r3.live = alloc :: r.live := by rw [← hr3, ← hlive2]
        have hunack3 : r3.unacknowledged = r.unacknowledged := by rw [← hr3, ← hfilter]
        have hring3 : LinkRing r3.next head qs := by rw [← hr3]; exact hring2
        have hsound3 : r3.Sound head :=
          h.sound_of_ring hf hlive3 hring3 (hunack3 ▸ hqs) (hunack3 ▸ fun q hq => .inr hq)
        have hcached3 : r3.cached = r.cached := by rw [← hr3, ← hcached2]
        have hpast3 : Past head r3 (r3 :: r2 :: r1 :: s.history) :=
          hpast2.cons hsound3 (freedRightly_of_live (by rw [hlive2, hlive3]; exact fun _ hb => hb))
        exact h.free _ _ hf hlive3 hring3 hqs hunack3 hcached3 hpast3

end

/-! ## The calls -/

/-- What holds of the driver between two calls. -/
def EhciState.Settled (s : EhciState) : Prop :=
  Ehci.Settled s.asyncHeadPhys.toNat s.schedule s.history

/-- The states have the same schedule, and the same history of it. -/
structure SameSchedule (s s' : EhciState) : Prop where
  /-- The schedule. -/
  schedule : s'.schedule = s.schedule
  /-- What it has been. -/
  history : s'.history = s.history
  /-- `async_head`. -/
  head : s'.asyncHeadPhys = s.asyncHeadPhys

/-- From `s` on, a call has allocated a block. -/
structure Opened (s s1 : EhciState) (alloc : DmaRet) : Prop where
  /-- What holds between two calls. -/
  settled : s.Settled
  /-- The block is new. -/
  fresh : FreshBlock s.schedule.live alloc
  /-- The schedule has the block, and is the same otherwise. -/
  schedule : s1.schedule = { s.schedule with live := alloc :: s.schedule.live }
  /-- What has been. -/
  past : Past s.asyncHeadPhys.toNat s1.schedule s1.history
  /-- `async_head`. -/
  head : s1.asyncHeadPhys = s.asyncHeadPhys

section

variable {s s1 s2 : EhciState} {alloc : DmaRet} {state : LinkState} {qh : Nat} {u : Unlink} {active : Bool}

theorem unlink_asyncHeadPhys : (s.unlinkAsyncQh u state qh active).2.asyncHeadPhys = s.asyncHeadPhys := by
  simp only [EhciState.unlinkAsyncQh]
  split_ifs <;> rfl

theorem reset_sameSchedule {port : BitVec 8} {p : PortReset} : SameSchedule s (s.reset port p).2 := by
  simp only [EhciState.reset]
  split <;> exact ⟨rfl, rfl, rfl⟩

theorem SameSchedule.settled (h : SameSchedule s s1) (hs : s.Settled) : s1.Settled := by
  rw [EhciState.Settled, h.schedule, h.history, h.head]
  exact hs

theorem SameSchedule.freeDma (h : SameSchedule s s1) : SameSchedule (s.freeDma alloc) (s1.freeDma alloc) where
  schedule := by rw [EhciState.freeDma, EhciState.freeDma, h.schedule]; rfl
  history := by rw [EhciState.freeDma, EhciState.freeDma, EhciState.change, h.history, h.schedule]; rfl
  head := h.head

theorem EhciState.Settled.allocate (h : s.Settled) : (s.allocateDma alloc).Settled := Ehci.Settled.allocate h

theorem EhciState.Settled.opened (h : s.Settled) (hf : FreshBlock s.schedule.live alloc) (h0 : alloc.status = 0) :
    Opened s (s.allocateDma alloc) alloc where
  settled := h
  fresh := hf
  schedule := congrArg (fun live => { s.schedule with live }) (allocateBlock_of_eq h0)
  past := h.allocate.past
  head := rfl

/-- The block is freed before it was used. -/
theorem Opened.free (h : Opened s s1 alloc) : (s1.freeDma alloc).Settled := by
  obtain ⟨qs, hring, hqs⟩ := h.settled.ring
  have hfree := h.settled.free s1.schedule s1.history h.fresh (by rw [h.schedule])
    (by rw [h.schedule]; exact hring) hqs (by rw [h.schedule]) (by rw [h.schedule]) h.past
  rw [EhciState.Settled]
  rw [← h.head] at hfree
  exact hfree

variable (u active) in
/-- **A transfer.**  The block of a queue head that was unlinked can be freed; the block of one that could
not is given up. -/
theorem Opened.transfer (h : Opened s s1 alloc) (hbig : alloc.tooBig = false) :
    let out := (s1.storeLink alloc.physicalAddress 0).insertAsyncQh alloc.physicalAddress
      (BitVec.ofNat 32 alloc.physicalAddress)
    SameSchedule out.2 s2 →
      let un := s2.unlinkAsyncQh u out.1 alloc.physicalAddress active
      (un.1 = true → ∀ s3, SameSchedule un.2 s3 → (s3.freeDma alloc).Settled) ∧
      (un.1 = false → (un.2.quarantine alloc).Settled) := by
  intro out h2
  have hinserted := insert_inserted h.settled h.fresh hbig h.schedule (congrArg _ h.head) h.past
  have hhead : s2.asyncHeadPhys = s.asyncHeadPhys := h2.head.trans h.head
  obtain ⟨hfreed, hgiven⟩ := unlink_settled s2 u active h.settled h.fresh
    (by rw [h2.schedule, h2.history]; exact hinserted)
  generalize hun : s2.unlinkAsyncQh u out.1 alloc.physicalAddress active = un at hfreed hgiven ⊢
  have hunhead : un.2.asyncHeadPhys = s.asyncHeadPhys := by rw [← hun, unlink_asyncHeadPhys, hhead]
  refine ⟨fun htrue s3 h3 => h3.freeDma.settled ?_, fun hfalse => ?_⟩
  · rw [EhciState.Settled, show (un.2.freeDma alloc).asyncHeadPhys = s.asyncHeadPhys from hunhead]
    exact hfreed htrue
  · rw [EhciState.Settled, show (un.2.quarantine alloc).asyncHeadPhys = s.asyncHeadPhys from hunhead]
    exact hgiven hfalse

theorem unlink_live : (s.unlinkAsyncQh u state qh active).2.schedule.live = s.schedule.live := by
  simp only [EhciState.unlinkAsyncQh]
  split_ifs <;> rfl

theorem physicalOf_qh {length : Nat} : alloc.physicalOf (transferLayout alloc length).qh = alloc.physicalAddress := by
  rw [DmaRet.physicalOf, show (transferLayout alloc length).qh = alloc.virtualAddress from rfl, Nat.sub_self,
    Nat.add_zero]

theorem usbSendPacket_settled {r : SendPacket} {packet : UsbSetupPacket} {maxpacketsize length : Nat}
    {address : BitVec 8} {former : Nat → BitVec 8} (h : s.Settled) (hf : FreshBlock s.schedule.live r.alloc) :
    (usbSendPacket r packet maxpacketsize length address former s).2.Settled := by
  simp only [usbSendPacket, physicalOf_qh]
  split
  · exact h
  by_cases h0 : r.alloc.status = 0
  swap
  · rw [if_pos h0]
    exact h.allocate
  have hopen := h.opened hf h0
  rw [if_neg (not_not.mpr h0)]
  cases hbig : r.alloc.tooBig with
  | true => exact hopen.free
  | false =>
    simp only [Bool.false_eq_true, if_false]
    generalize waitForDescriptor _ _ _ _ = out
    generalize stillActive _ _ _ _ = still
    obtain ⟨hfreed, hgiven⟩ := hopen.transfer r.unlink still.1 hbig ⟨rfl, rfl, rfl⟩
    rw [show (transferLayout r.alloc length).qhPhys = BitVec.ofNat 32 r.alloc.physicalAddress from rfl]
    generalize EhciState.unlinkAsyncQh _ _ _ _ _ = un at hfreed hgiven ⊢
    cases hun : un.1 with
    | false => exact hgiven hun
    | true =>
      have hsettled := hfreed hun un.2 ⟨rfl, rfl, rfl⟩
      simp only [Bool.not_true, Bool.false_eq_true, if_false]
      split_ifs <;> exact hsettled

theorem getDescriptor_settled {r : SetAddress} {desc : Nat → BitVec 8} {port address : BitVec 8}
    {device : UsbDevice} (h : s.Settled) (hf : FreshBlock s.schedule.live r.descriptorAlloc) :
    (getDescriptor r desc port address device s).2.Settled := by
  simp only [getDescriptor]
  by_cases h0 : r.descriptorAlloc.status = 0
  swap
  · rw [if_pos h0]
    exact h.allocate
  have hopen := h.opened hf h0
  rw [if_neg (not_not.mpr h0)]
  cases hbig : r.descriptorAlloc.tooBig with
  | true => exact hopen.free
  | false =>
    simp only [Bool.false_eq_true, if_false]
    obtain ⟨hfreed, hgiven⟩ := hopen.transfer r.descriptorUnlink r.descriptorActive hbig
      ⟨rfl, rfl, rfl⟩
    generalize EhciState.unlinkAsyncQh _ _ _ _ _ = un at hfreed hgiven ⊢
    cases hun : un.1 with
    | false => exact hgiven hun
    | true =>
      simp only [Bool.not_true, Bool.false_eq_true, if_false]
      have hreset := @reset_sameSchedule un.2 port r.portReset
      split
      · refine hfreed hun _ ?_
        split
        · exact hreset
        · exact ⟨hreset.schedule, hreset.history, hreset.head⟩
      · exact hfreed hun _ ⟨rfl, rfl, rfl⟩

theorem setAddress_settled {r : SetAddress} {desc : Nat → BitVec 8} {port : BitVec 8} (h : s.Settled)
    (hf : FreshBlock s.schedule.live r.alloc) (hd : FreshBlock s.schedule.live r.descriptorAlloc) :
    (setAddress r desc port s).2.Settled := by
  simp only [setAddress]
  split
  · exact h
  by_cases h0 : r.alloc.status = 0
  swap
  · rw [if_pos h0]
    exact h.allocate
  have hopen := h.opened hf h0
  rw [if_neg (not_not.mpr h0)]
  cases hbig : r.alloc.tooBig with
  | true => exact hopen.free
  | false =>
    simp only [Bool.false_eq_true, if_false]
    generalize allocateUsbAddress (s.allocateDma r.alloc).nextUsbAddress = out
    generalize hs1 : ({ s.allocateDma r.alloc with nextUsbAddress := out.2 } : EhciState) = s1
    have hopen1 : Opened s s1 r.alloc := by
      rw [← hs1]
      exact ⟨hopen.settled, hopen.fresh, hopen.schedule, hopen.past, hopen.head⟩
    split
    · exact hopen1.free
    generalize hins : (s1.storeLink r.alloc.physicalAddress 0).insertAsyncQh r.alloc.physicalAddress
      (BitVec.ofNat 32 r.alloc.physicalAddress) = ins
    generalize hs2 : ins.2.take r.takes out.1 = s2
    have hsame : SameSchedule ins.2 s2 := by
      rw [← hs2]
      exact ⟨rfl, rfl, rfl⟩
    obtain ⟨hfreed, hgiven⟩ := hopen1.transfer r.unlink r.active hbig (hins ▸ hsame)
    rw [hins] at hfreed hgiven
    have hlive : (s2.unlinkAsyncQh r.unlink ins.1 r.alloc.physicalAddress r.active).2.schedule.live =
        r.alloc :: s.schedule.live := by
      rw [unlink_live, hsame.schedule, ← hins]
      exact (congrArg Schedule.live hopen1.schedule)
    generalize s2.unlinkAsyncQh _ _ _ _ = un at hfreed hgiven hlive ⊢
    cases hun : un.1 with
    | false => exact hgiven hun
    | true =>
      simp only [Bool.not_true, Bool.false_eq_true, if_false]
      split
      · exact hfreed hun _ ⟨rfl, rfl, rfl⟩
      · refine getDescriptor_settled (hfreed hun _ ⟨rfl, rfl, rfl⟩) ?_
        show FreshBlock (freeBlock un.2.schedule.live r.alloc) r.descriptorAlloc
        rw [hlive, hf.freeBlock_cons]
        exact hd

end

theorem getDescriptor_asyncHeadPhys {s : EhciState} {r : SetAddress} {desc : Nat → BitVec 8}
    {port address : BitVec 8} {device : UsbDevice} :
    (getDescriptor r desc port address device s).2.asyncHeadPhys = s.asyncHeadPhys := by
  simp only [getDescriptor]
  split_ifs
  · rfl
  · rfl
  · exact unlink_asyncHeadPhys
  · exact reset_sameSchedule.head.trans unlink_asyncHeadPhys
  · exact reset_sameSchedule.head.trans unlink_asyncHeadPhys
  · exact unlink_asyncHeadPhys
  · exact unlink_asyncHeadPhys

/-- A call, with its arguments and what it meets. -/
inductive Call where
  /-- `set_address`. -/
  | setAddress (r : SetAddress) (desc : Nat → BitVec 8) (port : BitVec 8)
  /-- `usb_send_packet`. -/
  | usbSendPacket (r : SendPacket) (packet : UsbSetupPacket) (maxpacketsize length : Nat)
      (address : BitVec 8) (former : Nat → BitVec 8)

/-- The state after a call. -/
def Call.run (s : EhciState) : Call → EhciState
  | setAddress r desc port => (Ehci.setAddress r desc port s).2
  | usbSendPacket r packet maxpacketsize length address former =>
    (Ehci.usbSendPacket r packet maxpacketsize length address former s).2

/-- The blocks that `allocate_dma` returns in a call are new. -/
def Call.Fresh (live : List DmaRet) : Call → Prop
  | setAddress r _ _ => FreshBlock live r.alloc ∧ FreshBlock live r.descriptorAlloc
  | usbSendPacket r _ _ _ _ _ => FreshBlock live r.alloc

/-- A call, whatever the controller does in it. -/
def Step (s s' : EhciState) : Prop := ∃ c : Call, c.Fresh s.schedule.live ∧ s' = c.run s

theorem Call.run_asyncHeadPhys {s : EhciState} (c : Call) : (c.run s).asyncHeadPhys = s.asyncHeadPhys := by
  cases c with
  | setAddress r desc port =>
    simp only [Call.run, Ehci.setAddress]
    split_ifs
    · rfl
    · rfl
    · rfl
    · rfl
    · exact unlink_asyncHeadPhys
    · exact unlink_asyncHeadPhys
    · exact getDescriptor_asyncHeadPhys.trans unlink_asyncHeadPhys
  | usbSendPacket r packet maxpacketsize length address former =>
    simp only [Call.run, Ehci.usbSendPacket]
    split_ifs
    · rfl
    · rfl
    · rfl
    all_goals exact unlink_asyncHeadPhys
theorem Step.settled {s s' : EhciState} (h : Step s s') (hs : s.Settled) : s'.Settled := by
  obtain ⟨c, hfresh, rfl⟩ := h
  cases c with
  | setAddress r desc port => exact setAddress_settled hs hfresh.1 hfresh.2
  | usbSendPacket r packet maxpacketsize length address former => exact usbSendPacket_settled hs hfresh

/-- `controller_init` leaves a ring of `async_head` alone. -/
theorem initAsyncHead_settled {s s0 : EhciState} {alloc : DmaRet} (hf : FreshBlock s.schedule.live alloc)
    (hnone : s.schedule.unacknowledged = []) (h : s.initAsyncHead alloc = some s0) :
    s0.Settled ∧ s0.asyncHeadPhys.toNat = alloc.physicalAddress := by
  simp only [EhciState.initAsyncHead] at h
  split at h
  · cases h
  rename_i hok
  obtain ⟨h0, hok⟩ := not_or.mp hok
  have hbig : alloc.tooBig = false := Bool.eq_false_iff.mpr (not_or.mp hok).1
  have hphys : (BitVec.ofNat 32 alloc.physicalAddress).toNat = alloc.physicalAddress := by
    rw [BitVec.toNat_ofNat, Nat.mod_eq_of_lt (DmaRet.lt_of_tooBig hbig)]
  obtain rfl := Option.some.inj h
  refine ⟨?_, hphys⟩
  rw [EhciState.Settled]
  show Settled (BitVec.ofNat 32 alloc.physicalAddress).toNat _ [_]
  rw [hphys]
  generalize hr : EhciState.schedule _ = r
  have hlive : r.live = alloc :: s.schedule.live := by
    rw [← hr]
    exact allocateBlock_of_eq (not_not.mp h0)
  have hunack : r.unacknowledged = [] := by rw [← hr]; exact hnone
  have hring : LinkRing r.next alloc.physicalAddress [] := by
    refine LinkRing.single ?_
    rw [← hr]
    refine (congrArg linkTarget ?_).trans (linkTarget_queueHead (Dvd.dvd.trans (by decide) hf.aligned) hbig)
    exact Function.update_self ..
  have hfirst : r.Allocated alloc.physicalAddress := allocated_of_page (hlive ▸ List.mem_cons_self) hf.page
  have hsound : r.Sound alloc.physicalAddress := ⟨⟨[], hring, by simp⟩, hfirst, by simp [hunack]⟩
  exact
    { ring := ⟨[], hring, by simp⟩
      first := hfirst
      recorded := by simp [hunack]
      past := ⟨⟨[], rfl⟩, by simpa using hsound, List.isChain_singleton _⟩ }

/-- **The EHCI asynchronous schedule.**  After `controller_init` and any sequence of `usb_send_packet` and
`set_address`, whatever the controller does in them: at every moment so far, after every store of the
driver, the links from `async_head` go through distinct queue heads and back to it, all in memory that was
not freed then, and so was the memory of every queue head that the controller had not acknowledged to do
without.  From one moment to the next, a block was freed only after that; and the blocks of the queue heads
that are not acknowledged now are in `controller.cached`. -/
theorem async_schedule {boot s0 s : EhciState} {head : DmaRet} (hf : FreshBlock boot.schedule.live head)
    (hnone : boot.schedule.unacknowledged = []) (hinit : boot.initAsyncHead head = some s0)
    (h : Relation.ReflTransGen Step s0 s) :
    (∃ older, s.history = s.schedule :: older) ∧ (∀ r ∈ s.history, r.Sound head.physicalAddress) ∧
    s.history.IsChain FreedRightly ∧
    ∀ q ∈ s.schedule.unacknowledged, ∃ b ∈ s.schedule.cached, b ∈ s.schedule.live ∧ q = b.physicalAddress := by
  have hs : s.Settled ∧ s.asyncHeadPhys.toNat = head.physicalAddress := by
    refine h.invariant (P := fun y => y.Settled ∧ y.asyncHeadPhys.toNat = head.physicalAddress)
      (fun x y hstep hx => ⟨hstep.settled hx.1, ?_⟩) (initAsyncHead_settled hf hnone hinit)
    obtain ⟨c, -, rfl⟩ := hstep
    rw [c.run_asyncHeadPhys]
    exact hx.2
  obtain ⟨hsettled, hhead⟩ := hs
  have hpast := hsettled.past
  rw [hhead] at hpast
  refine ⟨hpast.now, hpast.sound, hpast.freed, fun q hq => ?_⟩
  obtain ⟨b, hb, hlive, -, rfl⟩ := hsettled.recorded q hq
  exact ⟨b, hb, hlive, rfl⟩

/-- A driver before `controller_init`. -/
def bootState : EhciState where
  schedule := { links := fun _ => 0, live := [], cached := [], unacknowledged := [] }
  history := []
  asyncHeadPhys := 0
  nextUsbAddress := 1
  needsReinit := false
  devices := fun _ => 0

/-- One page at 1 MiB. -/
def headPage : DmaRet where
  sizeInPages := 1
  virtualAddress := 0x7000
  physicalAddress := 0x100000

/-- The next page. -/
def requestPage : DmaRet where
  sizeInPages := 1
  virtualAddress := 0x8000
  physicalAddress := 0x101000

/-- The driver after `controller_init`. -/
def initState : EhciState :=
  let schedule : Schedule :=
    { links := Function.update (Function.update (fun _ => 0) 0x100000 0) 0x100000 0x100002
      live := [headPage]
      cached := []
      unacknowledged := [] }
  { bootState with schedule, history := [schedule], asyncHeadPhys := 0x100000 }

/-- A request of which the controller takes its time: the queue head stays in the ring. -/
def slowRequest : Call :=
  .setAddress
    { alloc := requestPage
      result := .timeout
      active := true
      unlink := { command := 0, status := fun _ => 0 }
      takes := fun _ => false
      descriptorAlloc := requestPage
      descriptor := { result := .timeout }
      descriptorActive := true
      descriptorUnlink := { command := 0, status := fun _ => 0 }
      portReset := { portsCount := 4, usbsts := 0, read := fun _ => 0 } }
    (fun i => if i = 0 then 18 else if i = 1 then 1 else if i = 7 then 64 else 0) 1

theorem requestPage_fresh : FreshBlock [headPage] requestPage where
  page := by decide
  aligned := by decide
  apart := by
    simp only [List.mem_singleton, forall_eq, DmaRet.Holds, headPage, requestPage]
    omega
  virtual := by
    simp only [List.mem_singleton, forall_eq]
    decide

theorem async_schedule_slow :
    (∃ older, (slowRequest.run initState).history = (slowRequest.run initState).schedule :: older) ∧
    (∀ r ∈ (slowRequest.run initState).history, r.Sound headPage.physicalAddress) ∧
    (slowRequest.run initState).history.IsChain FreedRightly ∧
    ∀ q ∈ (slowRequest.run initState).schedule.unacknowledged,
      ∃ b ∈ (slowRequest.run initState).schedule.cached,
        b ∈ (slowRequest.run initState).schedule.live ∧ q = b.physicalAddress :=
  @async_schedule bootState initState (slowRequest.run initState) headPage
    ⟨by decide, by decide, by simp [bootState], by simp [bootState]⟩ rfl rfl
    (.single ⟨slowRequest, ⟨requestPage_fresh, requestPage_fresh⟩, rfl⟩)

end Dem64.Ehci
