import Dem64.Uhci.Driver

/-!
# The queue heads of the UHCI endpoints

For every transfer `usb_transfer` puts the queue head of the endpoint behind `anchor`, waits, and takes it
out again.  For both the controller is halted and started, and each of these waits can fail.

The list is what the controller follows: from the link of `anchor` through the links of the queue heads, by
physical address (`Reaches`).  The driver goes the same way in `unlink_qh`, and asks `dma_phys_to_virt`
for the queue head at an address; this function either finds it or fails.  The contents of the transfer
descriptor and of the buffer are not modelled, and the value of its status word after the wait is an input.
-/

set_option autoImplicit false

namespace Dem64.Uhci

variable {ι : Type} [DecidableEq ι]

/-- The queue heads of the endpoints and `anchor`.  The address of a queue head is 0 if its allocation has
failed. -/
structure QueueHeads (ι : Type) where
  anchor : Nat
  /-- `ep.qh` -/
  qh : ι → Nat
  /-- `ep.qh_phys` -/
  qhPhys : ι → BitVec 32
  /-- Each is an allocation of its own, with the alignment of queue heads. -/
  aligned : ∀ e, qh e ≠ 0 → qhPhys e &&& 0x0F = 0
  phys_inj : ∀ e e', qh e ≠ 0 → qh e' ≠ 0 → qhPhys e = qhPhys e' → e = e'
  qh_inj : ∀ e e', qh e ≠ 0 → qh e' ≠ 0 → qh e = qh e' → e = e'
  anchor_ne : ∀ e, qh e ≠ 0 → qh e ≠ anchor

/-- The links of the queue heads, by address, and the flags of the endpoints. -/
structure QhState (ι : Type) where
  headLink : Nat → BitVec 32
  scheduled : ι → Bool

/-- `qh->head_link = link;` -/
def QhState.setLink (s : QhState ι) (qh : Nat) (link : BitVec 32) : QhState ι :=
  { s with headLink := fun x => if x = qh then link else s.headLink x }

/-- `ep.scheduled = value;` -/
def QhState.setScheduled (s : QhState ι) (e : ι) (value : Bool) : QhState ι :=
  { s with scheduled := fun x => if x = e then value else s.scheduled x }

/-- What the waits for the controller give. -/
structure Waits where
  /-- `wait_for_halted` -/
  halted : Bool
  /-- `wait_for_start` -/
  started : Bool
deriving DecidableEq, Repr

/-- `link_qh` -/
def linkQh (q : QueueHeads ι) (w : Waits) (e : ι) (s : QhState ι) : Bool × QhState ι :=
  if q.anchor = 0 ∨ q.qh e = 0 then (false, s)
  else if w.halted = false then (false, s)
  else
    let s := s.setLink (q.qh e) (s.headLink q.anchor)
    let s := s.setLink q.anchor (q.qhPhys e ||| 0x02)
    let s := s.setScheduled e true
    if w.started = false then (false, s.setScheduled e false) else (true, s)

/-- The loop of `unlink_qh`, for at most `n` rounds. -/
def unlinkLoop (q : QueueHeads ι) (dmaPhysToVirt : BitVec 32 → Nat) (started : Bool) (e : ι) (s : QhState ι) :
    Nat → Nat → Option (Bool × QhState ι)
  | 0, _ => none
  | n + 1, previous =>
    let link := s.headLink previous
    if link &&& 1 ≠ 0 then some (false, s)
    else if link &&& 2 = 0 then some (false, s)
    else
      let nextPhys := link &&& ~~~0x0F
      if nextPhys = q.qhPhys e then
        let s := s.setLink previous (s.headLink (q.qh e))
        let s := s.setLink (q.qh e) 1
        some (started, s.setScheduled e false)
      else
        let nextVirt := dmaPhysToVirt nextPhys
        if nextVirt = 0 ∨ nextVirt = 1 then some (false, s)
        else unlinkLoop q dmaPhysToVirt started e s n nextVirt

/-- `unlink_qh`, for at most `n` rounds of its loop. -/
def unlinkQh (q : QueueHeads ι) (dmaPhysToVirt : BitVec 32 → Nat) (w : Waits) (n : Nat) (e : ι) (s : QhState ι) :
    Option (Bool × QhState ι) :=
  if q.anchor = 0 ∨ q.qh e = 0 then some (false, s)
  else if s.scheduled e = false then some (true, s)
  else if w.halted = false then some (false, s)
  else unlinkLoop q dmaPhysToVirt w.started e s n q.anchor

/-- `usb_transfer_result::status_code` -/
inductive TransferCode where
  | success
  | notConnected
  | notDiscovered
  | noAddress
  | linkError
  | unlinkError
  | timeout
  | failed
  | invalidLength
deriving DecidableEq, Repr

/-- A call of `usb_transfer`, with what it finds. -/
structure TransferCall (q : QueueHeads ι) where
  /-- The endpoint at the address. -/
  endpoint : ι
  connected : Bool
  discovered : Bool
  /-- There is an address state of the device. -/
  hasState : Bool
  length : Nat
  maxPacketSize : Nat
  bufferNull : Bool
  transferType : BitVec 8
  /-- The waits of `link_qh` and of `unlink_qh`. -/
  link : Waits
  unlink : Waits
  /-- `dma_phys_to_virt`: it finds a queue head, or fails. -/
  dmaPhysToVirt : BitVec 32 → Nat
  finds : ∀ e, q.qh e ≠ 0 → dmaPhysToVirt (q.qhPhys e) = q.qh e ∨ dmaPhysToVirt (q.qhPhys e) ≤ 1
  /-- The status word of the descriptor after the wait. -/
  status : BitVec 32

/-- The checks before the queue head is linked. -/
def TransferCall.rejected {q : QueueHeads ι} (c : TransferCall q) : Option TransferCode :=
  if c.connected = false then some .notConnected
  else if c.discovered = false then some .notDiscovered
  else if c.hasState = false then some .noAddress
  else if c.length > c.maxPacketSize then some .invalidLength
  else if c.length > 0 ∧ c.bufferNull = true then some .failed
  else if c.transferType ≠ 2 ∧ c.transferType ≠ 3 then some .failed
  else none

/-- `terminal_errors` -/
def terminalErrors : BitVec 32 := 1#32 <<< 17 ||| 1#32 <<< 18 ||| 1#32 <<< 20 ||| 1#32 <<< 21 ||| 1#32 <<< 22

/-- The result by the status word. -/
def TransferCall.outcome {q : QueueHeads ι} (c : TransferCall q) : TransferCode :=
  if c.status &&& uhciTdActive ≠ 0 then .timeout
  else if c.status &&& terminalErrors ≠ 0 then .failed
  else if (uhciActualLength c.status).toNat > c.length then .failed
  else .success

/-- What a call does: its result, and the states after `link_qh` and after `unlink_qh` where they are
called. -/
structure TransferDone (ι : Type) where
  code : TransferCode
  linked : Option (QhState ι)
  unlinked : Option (QhState ι)

/-- The state after the call. -/
def TransferDone.state (d : TransferDone ι) (s : QhState ι) : QhState ι :=
  d.unlinked.getD (d.linked.getD s)

/-- `usb_transfer`, for at most `n` rounds of the loop in `unlink_qh`. -/
def usbTransfer (q : QueueHeads ι) (n : Nat) (c : TransferCall q) (s : QhState ι) : Option (TransferDone ι) :=
  match c.rejected with
  | some code => some ⟨code, none, none⟩
  | none =>
    match linkQh q c.link c.endpoint s with
    | (false, linked) => some ⟨.linkError, some linked, none⟩
    | (true, linked) =>
      match unlinkQh q c.dmaPhysToVirt c.unlink n c.endpoint linked with
      | none => none
      | some (false, unlinked) => some ⟨.unlinkError, some linked, some unlinked⟩
      | some (true, unlinked) => some ⟨c.outcome, some linked, some unlinked⟩

/-- The calls one after the other: what each of them does. -/
def usbTransfers (q : QueueHeads ι) (n : Nat) : List (TransferCall q) → QhState ι → Option (List (TransferDone ι))
  | [], _ => some []
  | c :: cs, s =>
    match usbTransfer q n c s with
    | none => none
    | some d => (usbTransfers q n cs (d.state s)).map (d :: ·)

/-! ## The list -/

/-- From this link on the controller meets these queue heads, and then the end. -/
def Reaches (q : QueueHeads ι) (s : QhState ι) : BitVec 32 → List ι → Prop
  | link, [] => link &&& 1 ≠ 0
  | link, e :: l =>
    link &&& 1 = 0 ∧ link &&& 2 ≠ 0 ∧ q.qh e ≠ 0 ∧ link &&& ~~~0x0F = q.qhPhys e ∧
      Reaches q s (s.headLink (q.qh e)) l

/-- The list behind `anchor`, if there is one, is `l`. -/
def Listed (q : QueueHeads ι) (s : QhState ι) (l : List ι) : Prop :=
  if q.anchor = 0 then l = [] else Reaches q s (s.headLink q.anchor) l

/-- The list ends, has no queue head twice, and has those of the endpoints that are scheduled. -/
structure Sched (q : QueueHeads ι) (s : QhState ι) (l : List ι) : Prop where
  listed : Listed q s l
  nodup : l.Nodup
  mem_iff : ∀ e, e ∈ l ↔ s.scheduled e = true

/-- In every state of the call the schedule is in order, and `unlink_qh` took out its queue head or
nothing. -/
structure TransferDone.Kept (q : QueueHeads ι) (e : ι) (d : TransferDone ι) : Prop where
  linked : ∀ s, d.linked = some s → ∃ l, Sched q s l
  unlinked : ∀ s s', d.linked = some s → d.unlinked = some s' →
    ∃ l l', Sched q s l ∧ Sched q s' l' ∧ (l' = l ∨ l' = l.erase e)

/-- The condition: if the queue head of the call is linked, then it was not scheduled, and the controller
starts again. -/
def TransferCall.Clean {q : QueueHeads ι} (c : TransferCall q) (s : QhState ι) : Prop :=
  c.rejected = none → q.anchor ≠ 0 → q.qh c.endpoint ≠ 0 → c.link.halted = true →
    c.link.started = true ∧ s.scheduled c.endpoint = false

section

variable {q : QueueHeads ι} {s s' : QhState ι} {l l' r t : List ι} {e : ι} {k p : BitVec 32} {n previous : Nat}
  {w : Waits} {started : Bool} {dmaPhysToVirt : BitVec 32 → Nat}

/-! ## Links -/

section

omit [DecidableEq ι]

theorem setLink_self {qh : Nat} : (s.setLink qh k).headLink qh = k := if_pos rfl

theorem setLink_ne {qh x : Nat} (h : x ≠ qh) : (s.setLink qh k).headLink x = s.headLink x := if_neg h

/-- The link to a queue head. -/
theorem link_bits (hp : p &&& 0x0F = 0) :
    (p ||| 0x02) &&& 1 = 0 ∧ (p ||| 0x02) &&& 2 ≠ 0 ∧ (p ||| 0x02) &&& ~~~0x0F = p := by
  have hlow : ∀ m : BitVec 32, 0x0F &&& m = m → p &&& m = 0 := by
    intro m hm
    rw [← hm, ← BitVec.and_assoc, hp]
    exact BitVec.zero_and
  refine ⟨?_, ?_, ?_⟩
  · rw [BitVec.and_or_distrib_right, hlow 1 (by decide)]
    decide
  · rw [BitVec.and_or_distrib_right, hlow 2 (by decide)]
    decide
  · rw [BitVec.and_or_distrib_right, show (0x02 : BitVec 32) &&& ~~~0x0F = 0 by decide]
    calc (p &&& ~~~0x0F) ||| 0 = (p &&& ~~~0x0F) ||| (p &&& 0x0F) := by rw [hp]
      _ = p := by rw [← BitVec.and_or_distrib_left, show ~~~0x0F ||| 0x0F = BitVec.allOnes 32 by decide,
        BitVec.and_allOnes]

/-- The links of other queue heads do not matter. -/
theorem Reaches.congr (h : Reaches q s k l) (hl : ∀ x ∈ l, s'.headLink (q.qh x) = s.headLink (q.qh x)) :
    Reaches q s' k l := by
  induction l generalizing k with
  | nil => exact h
  | cons x l ih =>
    obtain ⟨h1, h2, h3, h4, h5⟩ := h
    refine ⟨h1, h2, h3, h4, ?_⟩
    rw [hl x List.mem_cons_self]
    exact ih h5 fun y hy => hl y (List.mem_cons_of_mem _ hy)

theorem Reaches.qh_ne_zero (h : Reaches q s k l) : ∀ x ∈ l, q.qh x ≠ 0 := by
  induction l generalizing k with
  | nil => exact fun x hx => absurd hx List.not_mem_nil
  | cons x l ih =>
    obtain ⟨-, -, h3, -, h5⟩ := h
    exact List.forall_mem_cons.mpr ⟨h3, ih h5⟩

/-- A link leads to one queue head. -/
theorem Reaches.head (h : Reaches q s k (e :: l)) (h' : Reaches q s' k l') :
    ∃ l₁, l' = e :: l₁ ∧ Reaches q s' (s'.headLink (q.qh e)) l₁ := by
  obtain ⟨h1, -, h3, h4, -⟩ := h
  cases l' with
  | nil => exact absurd h1 h'
  | cons e' l₁ =>
    obtain ⟨-, -, h3', h4', h5'⟩ := h'
    obtain rfl : e' = e := q.phys_inj e' e h3' h3 (h4'.symm.trans h4)
    exact ⟨l₁, rfl, h5'⟩

/-- The way to a queue head is the same as long as the links before it stay. -/
theorem Reaches.mem_of_prefix (h : Reaches q s k (r ++ e :: t)) (h' : Reaches q s' k l')
    (hr : ∀ x ∈ r, s'.headLink (q.qh x) = s.headLink (q.qh x)) : e ∈ l' := by
  induction r generalizing k l' with
  | nil =>
    obtain ⟨l₁, rfl, -⟩ := Reaches.head h h'
    exact List.mem_cons_self
  | cons x r ih =>
    obtain ⟨l₁, rfl, h₁⟩ := Reaches.head h h'
    rw [hr x List.mem_cons_self] at h₁
    exact List.mem_cons_of_mem _ (ih h.2.2.2.2 h₁ fun y hy => hr y (List.mem_cons_of_mem _ hy))

end

/-! ## Linking -/

/-- The state after the stores of `link_qh`. -/
def linkedState (q : QueueHeads ι) (e : ι) (s : QhState ι) (value : Bool) : QhState ι :=
  ((s.setLink (q.qh e) (s.headLink q.anchor)).setLink q.anchor (q.qhPhys e ||| 0x02)).setScheduled e value

theorem linkedState_anchor {value : Bool} :
    (linkedState q e s value).headLink q.anchor = q.qhPhys e ||| 0x02 := setLink_self

theorem linkedState_qh {value : Bool} (he : q.qh e ≠ 0) :
    (linkedState q e s value).headLink (q.qh e) = s.headLink q.anchor :=
  (setLink_ne (q.anchor_ne e he)).trans setLink_self

theorem linkedState_ne {value : Bool} {x : ι} (hx : q.qh x ≠ 0) (he : q.qh e ≠ 0) (hne : x ≠ e) :
    (linkedState q e s value).headLink (q.qh x) = s.headLink (q.qh x) :=
  (setLink_ne (q.anchor_ne x hx)).trans (setLink_ne fun heq => hne (q.qh_inj x e hx he heq))

/-- What `link_qh` does. -/
theorem linkQh_eq (hanchor : q.anchor ≠ 0) (he : q.qh e ≠ 0) (hhalted : w.halted = true) :
    linkQh q w e s = (w.started, linkedState q e s w.started) := by
  rw [linkQh, if_neg (by rw [not_or]; exact ⟨hanchor, he⟩), if_neg (by rw [hhalted]; decide)]
  cases hs : w.started with
  | false =>
    rw [if_pos rfl]
    refine congrArg (Prod.mk false) ?_
    rw [linkedState, QhState.setScheduled, QhState.setScheduled, QhState.setScheduled]
    congr 1
    funext x
    dsimp only
    split <;> rfl
  | true => rfl

/-- **A queue head that was not scheduled is put in front.** -/
theorem Sched.linked (h : Sched q s l) (hanchor : q.anchor ≠ 0) (he : q.qh e ≠ 0) (hs : s.scheduled e = false) :
    Sched q (linkedState q e s true) (e :: l) := by
  have hel : e ∉ l := fun hmem => by
    rw [(h.mem_iff e).mp hmem] at hs
    cases hs
  have hreach : Reaches q s (s.headLink q.anchor) l := by
    have hlisted := h.listed
    rwa [Listed, if_neg hanchor] at hlisted
  obtain ⟨h1, h2, h3⟩ := link_bits (q.aligned e he)
  refine ⟨?_, List.nodup_cons.mpr ⟨hel, h.nodup⟩, fun x => ?_⟩
  · rw [Listed, if_neg hanchor, linkedState_anchor]
    refine ⟨h1, h2, he, h3, ?_⟩
    rw [linkedState_qh he]
    refine hreach.congr fun x hx => linkedState_ne (hreach.qh_ne_zero x hx) he ?_
    rintro rfl
    exact hel hx
  · show x ∈ e :: l ↔ (if x = e then true else s.scheduled x) = true
    rw [List.mem_cons, h.mem_iff]
    split
    · rename_i hx
      exact iff_of_true (.inl hx) rfl
    · rename_i hx
      exact or_iff_right hx

/-- What is reached after `link_qh` begins with its queue head. -/
theorem Sched.linked_head (hanchor : q.anchor ≠ 0) (he : q.qh e ≠ 0) {value : Bool}
    (h' : Sched q (linkedState q e s value) l') :
    ∃ l₁, l' = e :: l₁ ∧ Reaches q (linkedState q e s value) (s.headLink q.anchor) l₁ := by
  have hlisted := h'.listed
  rw [Listed, if_neg hanchor, linkedState_anchor] at hlisted
  obtain ⟨h1, h2, h3⟩ := link_bits (q.aligned e he)
  cases l' with
  | nil => exact absurd h1 hlisted
  | cons e' l₁ =>
    obtain ⟨-, -, he', h4, h5⟩ := hlisted
    obtain rfl : e' = e := q.phys_inj e' e he' he (h4.symm.trans h3)
    rw [linkedState_qh he] at h5
    exact ⟨l₁, rfl, h5⟩

/-- **If the schedule is in order after the stores of `link_qh`, then the queue head was not scheduled and
the controller has started.** -/
theorem Sched.of_linked (h : Sched q s l) (hanchor : q.anchor ≠ 0) (he : q.qh e ≠ 0) {value : Bool}
    (h' : Sched q (linkedState q e s value) l') : value = true ∧ s.scheduled e = false := by
  obtain ⟨l₁, rfl, hreach'⟩ := Sched.linked_head hanchor he h'
  constructor
  · have hflag := (h'.mem_iff e).mp List.mem_cons_self
    rwa [show (linkedState q e s value).scheduled e = value from if_pos rfl] at hflag
  · by_contra hs
    rw [Bool.not_eq_false, ← h.mem_iff] at hs
    obtain ⟨r, t, rfl⟩ := List.append_of_mem hs
    have hreach := h.listed
    rw [Listed, if_neg hanchor] at hreach
    have her : e ∉ r := fun hr => (List.nodup_append.mp h.nodup).2.2 e hr e List.mem_cons_self rfl
    -- the way to the place where it was leads back to it
    refine (List.nodup_cons.mp h'.nodup).1 (hreach.mem_of_prefix hreach' fun x hx => ?_)
    refine linkedState_ne (hreach.qh_ne_zero x (List.mem_append_left _ hx)) he ?_
    rintro rfl
    exact her hx

/-! ## Unlinking -/

/-- The loop of `unlink_qh` on the way to `e`, behind `previous`: it gives up and changes nothing, or it
takes `e` out. -/
theorem unlinkLoop_spec (hfinds : ∀ e, q.qh e ≠ 0 → dmaPhysToVirt (q.qhPhys e) = q.qh e ∨ dmaPhysToVirt (q.qhPhys e) ≤ 1)
    (h : Reaches q s (s.headLink previous) (r ++ e :: t)) (hnd : (r ++ e :: t).Nodup)
    (hprevious : ∀ x ∈ r ++ e :: t, q.qh x ≠ previous) (hn : r.length < n) :
    ∃ b s', unlinkLoop q dmaPhysToVirt started e s n previous = some (b, s') ∧
      (s' = s ∨ (∀ x, s'.scheduled x = if x = e then false else s.scheduled x) ∧
        Reaches q s' (s'.headLink previous) (r ++ t) ∧
        ∀ y, (∀ x ∈ r ++ [e], y ≠ q.qh x) → y ≠ previous → s'.headLink y = s.headLink y) := by
  induction r generalizing n previous with
  | nil =>
    obtain ⟨n, rfl⟩ := Nat.exists_eq_succ_of_ne_zero (show n ≠ 0 by omega)
    obtain ⟨h1, h2, h3, h4, h5⟩ := h
    have hne := hprevious e List.mem_cons_self
    rw [unlinkLoop, if_neg (not_not.mpr h1), if_neg h2]
    dsimp only
    rw [if_pos h4]
    refine ⟨_, _, rfl, .inr ⟨fun x => rfl, ?_, fun y hy hy' => ?_⟩⟩
    · show Reaches q _ (if previous = q.qh e then (1 : BitVec 32) else if previous = previous then _ else _) t
      rw [if_neg hne.symm, if_pos rfl]
      have hqh := Reaches.qh_ne_zero h5
      refine h5.congr fun x hx => (setLink_ne fun heq => ?_).trans (setLink_ne ?_)
      · obtain rfl := q.qh_inj x e (hqh x hx) h3 heq
        exact (List.nodup_cons.mp hnd).1 hx
      · exact hprevious x (List.mem_cons_of_mem _ hx)
    · exact (setLink_ne (hy e List.mem_cons_self)).trans (setLink_ne hy')
  | cons x r ih =>
    obtain ⟨n, rfl⟩ := Nat.exists_eq_succ_of_ne_zero (show n ≠ 0 by omega)
    obtain ⟨h1, h2, h3, h4, h5⟩ := h
    have hqh := Reaches.qh_ne_zero h5
    have hnd' := List.nodup_cons.mp hnd
    have he : q.qh e ≠ 0 := hqh e (List.mem_append_right _ List.mem_cons_self)
    rw [unlinkLoop, if_neg (not_not.mpr h1), if_neg h2]
    dsimp only
    have hother : q.qhPhys x ≠ q.qhPhys e := fun heq => by
      obtain rfl := q.phys_inj x e h3 he heq
      exact hnd'.1 (List.mem_append_right _ List.mem_cons_self)
    rw [h4, if_neg hother]
    split
    · exact ⟨false, s, rfl, .inl rfl⟩
    · rename_i hfound
      have hvirt : dmaPhysToVirt (q.qhPhys x) = q.qh x := (hfinds x h3).resolve_right fun hle => by omega
      have hx : ∀ y ∈ r ++ e :: t, q.qh y ≠ q.qh x := fun y hy heq => by
        obtain rfl := q.qh_inj y x (hqh y hy) h3 heq
        exact hnd'.1 hy
      rw [hvirt]
      obtain ⟨b, s', heq, hs'⟩ := ih h5 hnd'.2 hx (Nat.lt_of_succ_lt_succ hn)
      refine ⟨b, s', heq, hs'.imp_right fun ⟨hflags, hreach, hlinks⟩ => ⟨hflags, ?_, fun y hy hy' => ?_⟩⟩
      · have hsame : s'.headLink previous = s.headLink previous := by
          refine hlinks previous (fun y hy heq => ?_) (hprevious x List.mem_cons_self).symm
          refine hprevious y (List.mem_cons_of_mem _ ?_) heq.symm
          rcases List.mem_append.mp hy with hy | hy
          · exact List.mem_append_left _ hy
          · exact List.mem_append_right _ (List.mem_singleton.mp hy ▸ List.mem_cons_self)
        rw [hsame]
        exact ⟨h1, h2, h3, h4, hreach⟩
      · exact hlinks y (fun z hz => hy z (List.mem_cons_of_mem _ hz)) (hy x List.mem_cons_self)

/-- **`unlink_qh` ends, and takes out its own queue head or nothing.** -/
theorem unlinkQh_spec (hfinds : ∀ e, q.qh e ≠ 0 → dmaPhysToVirt (q.qhPhys e) = q.qh e ∨ dmaPhysToVirt (q.qhPhys e) ≤ 1)
    (h : Sched q s l) (w : Waits) (e : ι) (hn : l.idxOf e < n) :
    ∃ b s', unlinkQh q dmaPhysToVirt w n e s = some (b, s') ∧ ∃ l', Sched q s' l' ∧ (l' = l ∨ l' = l.erase e) := by
  rw [unlinkQh]
  split
  · exact ⟨_, _, rfl, l, h, .inl rfl⟩
  rename_i hnull
  rw [not_or] at hnull
  split
  · exact ⟨_, _, rfl, l, h, .inl rfl⟩
  rename_i hflag
  split
  · exact ⟨_, _, rfl, l, h, .inl rfl⟩
  rw [Bool.not_eq_false, ← h.mem_iff] at hflag
  obtain ⟨r, t, her, rfl, herase⟩ := List.exists_erase_eq hflag
  have hreach := h.listed
  rw [Listed, if_neg hnull.1] at hreach
  rw [List.idxOf_append_of_notMem her, List.idxOf_cons_self] at hn
  obtain ⟨b, s', heq, hs'⟩ := @unlinkLoop_spec _ _ _ _ _ _ _ _ _ w.started _ hfinds hreach h.nodup
    (fun x hx => q.anchor_ne x (hreach.qh_ne_zero x hx)) hn
  refine ⟨b, s', heq, ?_⟩
  rcases hs' with rfl | ⟨hflags, hreach', -⟩
  · exact ⟨_, h, .inl rfl⟩
  refine ⟨r ++ t, ⟨?_, ?_, fun x => ?_⟩, .inr herase.symm⟩
  · rw [Listed, if_neg hnull.1]
    exact hreach'
  · exact (List.nodup_middle.mp h.nodup).of_cons
  · have hmem := h.mem_iff x
    have hnd := List.nodup_middle.mp h.nodup
    rw [hflags, ← herase, h.nodup.mem_erase_iff, hmem]
    split
    · rename_i hx
      exact iff_of_false (fun hand => hand.1 hx) Bool.false_ne_true
    · rename_i hx
      exact and_iff_right hx

/-! ## Transfers -/

/-- A call in a state in order. -/
theorem usbTransfer_spec (h : Sched q s l) (c : TransferCall q) :
    (c.Clean s → ∃ d, usbTransfer q (n + 1) c s = some d ∧ d.Kept q c.endpoint ∧ ∃ l', Sched q (d.state s) l') ∧
      ∀ d, usbTransfer q (n + 1) c s = some d → d.Kept q c.endpoint → c.Clean s := by
  rw [usbTransfer]
  cases hrej : c.rejected with
  | some code =>
    refine ⟨fun _ => ⟨_, rfl, ⟨nofun, nofun⟩, l, h⟩, fun d _ _ hnone => ?_⟩
    rw [hrej] at hnone
    cases hnone
  | none =>
    by_cases hlinks : q.anchor ≠ 0 ∧ q.qh c.endpoint ≠ 0 ∧ c.link.halted = true
    · obtain ⟨hanchor, he, hhalted⟩ := hlinks
      rw [linkQh_eq hanchor he hhalted]
      refine ⟨fun hclean => ?_, fun d hd hkept _ _ _ _ => ?_⟩
      · obtain ⟨hstarted, hflag⟩ := hclean hrej hanchor he hhalted
        rw [hstarted]
        have hlinked := h.linked hanchor he hflag
        obtain ⟨b, s', heq, l', hs', hl'⟩ := unlinkQh_spec c.finds hlinked c.unlink c.endpoint
          (show (c.endpoint :: l).idxOf c.endpoint < n + 1 by rw [List.idxOf_cons_self]; omega)
        dsimp only
        rw [heq]
        have hkept : ∀ code, TransferDone.Kept q c.endpoint
            ⟨code, some (linkedState q c.endpoint s true), some s'⟩ := by
          refine fun code => ⟨?_, ?_⟩
          · rintro _ ⟨⟩
            exact ⟨_, hlinked⟩
          · rintro _ _ ⟨⟩ ⟨⟩
            exact ⟨_, _, hlinked, hs', hl'⟩
        cases b with
        | false => exact ⟨_, rfl, hkept _, l', hs'⟩
        | true => exact ⟨_, rfl, hkept _, l', hs'⟩
      · have hlinked : d.linked = some (linkedState q c.endpoint s c.link.started) := by
          cases hstarted : c.link.started with
          | false =>
            rw [hstarted] at hd
            cases hd
            rfl
          | true =>
            rw [hstarted] at hd
            dsimp only at hd
            split at hd <;> cases hd <;> rfl
        obtain ⟨l', hl'⟩ := hkept.linked _ hlinked
        exact h.of_linked hanchor he hl'
    · have hfail : linkQh q c.link c.endpoint s = (false, s) := by
        rw [linkQh]
        split
        · rfl
        · rename_i hnull
          rw [not_or] at hnull
          split
          · rfl
          · rename_i hhalted
            exact absurd ⟨hnull.1, hnull.2, Bool.not_eq_false _ ▸ hhalted⟩ hlinks
      rw [hfail]
      refine ⟨fun _ => ⟨_, rfl, ⟨?_, ?_⟩, l, h⟩, fun d _ _ _ hanchor he hhalted =>
        absurd ⟨hanchor, he, hhalted⟩ hlinks⟩
      · rintro _ ⟨⟩
        exact ⟨l, h⟩
      · exact fun _ _ _ => nofun

end

/-- All calls meet the condition in the states in which they are made. -/
def CleanRun (q : QueueHeads ι) (n : Nat) : List (TransferCall q) → QhState ι → Prop
  | [], _ => True
  | c :: cs, s => c.Clean s ∧ ∀ d, usbTransfer q n c s = some d → CleanRun q n cs (d.state s)

/-- **The schedule is in order in every state of a run, and the run ends, if and only if no queue head is
linked that is scheduled, or that the controller does not start with.** -/
theorem transfers_kept_iff {q : QueueHeads ι} {s : QhState ι} {l : List ι} (n : Nat) (calls : List (TransferCall q))
    (h : Sched q s l) :
    (∃ ds, usbTransfers q (n + 1) calls s = some ds ∧ List.Forall₂ (fun c d => d.Kept q c.endpoint) calls ds) ↔
      CleanRun q (n + 1) calls s := by
  induction calls generalizing s l with
  | nil => exact iff_of_true ⟨[], rfl, .nil⟩ trivial
  | cons c cs ih =>
    obtain ⟨hkeeps, hclean⟩ := usbTransfer_spec (n := n) h c
    rw [usbTransfers, CleanRun]
    constructor
    · rintro ⟨ds, hds, hkept⟩
      cases hd : usbTransfer q (n + 1) c s with
      | none =>
        rw [hd] at hds
        cases hds
      | some d =>
        rw [hd] at hds
        obtain ⟨ds, hrest, rfl⟩ := Option.map_eq_some_iff.mp hds
        cases hkept with
        | cons hd' hds' =>
          have hc := hclean d hd hd'
          obtain ⟨d', heq, -, l', hl'⟩ := hkeeps hc
          obtain rfl : d = d' := Option.some.inj (hd.symm.trans heq)
          refine ⟨hc, ?_⟩
          rintro _ ⟨⟩
          exact (ih hl').mp ⟨ds, hrest, hds'⟩
    · rintro ⟨hc, hrest⟩
      obtain ⟨d, heq, hkept, l', hl'⟩ := hkeeps hc
      obtain ⟨ds, hds, hall⟩ := (ih hl').mpr (hrest d heq)
      refine ⟨d :: ds, ?_, .cons hkept hall⟩
      rw [heq]
      dsimp only
      rw [hds]
      rfl

/-! ## One endpoint -/

/-- A controller with one endpoint. -/
def oneEndpoint : QueueHeads Unit where
  anchor := 0x1000
  qh _ := 0x2000
  qhPhys _ := 0x3000
  aligned _ _ := by decide
  phys_inj _ _ _ _ _ := rfl
  qh_inj _ _ _ _ _ := rfl
  anchor_ne _ _ := by decide

/-- Nothing is scheduled. -/
def idleState : QhState Unit := ⟨fun _ => 1, fun _ => false⟩

/-- A bulk transfer of 8 bytes, where these waits give `link` and `unlink`. -/
def bulkCall (link unlink : Waits) : TransferCall oneEndpoint where
  endpoint := ()
  connected := true
  discovered := true
  hasState := true
  length := 8
  maxPacketSize := 64
  bufferNull := false
  transferType := 2
  link := link
  unlink := unlink
  dmaPhysToVirt _ := 0x2000
  finds _ _ := .inl rfl
  status := 7

theorem sched_idleState : Sched oneEndpoint idleState [] where
  listed := by
    rw [Listed, if_neg (by decide)]
    exact (by decide : (1 : BitVec 32) &&& 1 ≠ 0)
  nodup := List.nodup_nil
  mem_iff _ := iff_of_false List.not_mem_nil Bool.false_ne_true

/-- One transfer, with a controller that stops and starts. -/
theorem transfers_kept_one : ∃ ds, usbTransfers oneEndpoint 1 [bulkCall ⟨true, true⟩ ⟨true, true⟩] idleState = some ds ∧
    List.Forall₂ (fun c d => d.Kept oneEndpoint c.endpoint) [bulkCall ⟨true, true⟩ ⟨true, true⟩] ds :=
  (transfers_kept_iff 0 _ sched_idleState).mpr ⟨fun _ _ _ _ => ⟨rfl, rfl⟩, fun _ _ => trivial⟩

/-- **The controller does not start after the queue head was linked**: the queue head is in the list, and the
flag says that it is not. -/
theorem transfers_not_kept : ¬ ∀ calls : List (TransferCall oneEndpoint), ∃ n ds,
    usbTransfers oneEndpoint n calls idleState = some ds ∧
      List.Forall₂ (fun c d => d.Kept oneEndpoint c.endpoint) calls ds := by
  intro hclaim
  obtain ⟨n, ds, hds, hkept⟩ := hclaim [bulkCall ⟨true, false⟩ ⟨true, true⟩]
  have hlinked : usbTransfers oneEndpoint n [bulkCall ⟨true, false⟩ ⟨true, true⟩] idleState =
      some [⟨.linkError, some (linkedState oneEndpoint () idleState false), none⟩] := by
    have hreject : (bulkCall ⟨true, false⟩ ⟨true, true⟩).rejected = none := by decide
    rw [usbTransfers, usbTransfer, hreject, linkQh_eq (by decide) (by decide) rfl]
    rfl
  rw [hlinked] at hds
  cases hds
  cases hkept with
  | cons hd _ =>
    obtain ⟨l, hl⟩ := hd.linked _ rfl
    have hstarted := (sched_idleState.of_linked (e := ()) (by decide) (by decide) hl).1
    cases hstarted

end Dem64.Uhci
