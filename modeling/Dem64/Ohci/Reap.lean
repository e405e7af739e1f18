import Dem64.Host.Chains
import Dem64.Ohci.DoneQueue

/-!
# What is left in the done queue

The descriptors of a transfer are retired in their order, and the driver takes them off the queue in this
order too, since it takes all that it finds.  So what is left of them are the latest ones (`Inv`), and
nothing is left if the very latest has come back.  The driver knows this if it watches the very latest;
among the data descriptors it watches the first one only.
-/

set_option autoImplicit false

namespace Dem64.Ohci.DoneQueue

open ByteMemory

/-- A descriptor in one of the queues: the links lead to it, from the queue of the controller or from the one
that was handed over and not taken. -/
def InDoneQueue (w : World) (a : Nat) : Prop :=
  (∃ l, Lseg w.next (pointer w.doneHead) l (some a)) ∨
    w.wdh = true ∧ ∃ l, Lseg w.next (pointer w.hccaDoneHead) l (some a)

/-- The latest descriptor in the queues. -/
def newest (w : World) : Option Nat :=
  match pointer w.doneHead with
  | some a => some a
  | none => if w.wdh then pointer w.hccaDoneHead else none

/-- The controller does not retire descriptors of the transfer, and will not. -/
def Idle (w : World) : Prop := w.scheduled = false ∨ w.running = false ∧ w.cle = false

/-- Where the descriptors of a transfer are: SETUP, data, status and the dummy. -/
def tdAddress (alloc : DmaRet) (i : Nat) : Nat := alloc.physicalAddress + 16 + 16 * i

/-- What has been retired, the latest first, if `before` was in the queues before and `k` descriptors of the
transfer have been retired since. -/
def history (alloc : DmaRet) (before : List Nat) (k : Nat) : List Nat :=
  ((List.range k).map (tdAddress alloc)).reverse ++ before

/-- The queues, during a transfer with `n` data descriptors of which `k` descriptors have been retired.  In
`queue` is all that the driver has not taken, and in `handed` what was handed over; `taken` are descriptors
that it has taken. -/
structure Inv (alloc : DmaRet) (n : Nat) (before : List Nat) (taken : Set Nat) (queue handed : List Nat)
    (k : Nat) (w : World) : Prop where
  /-- The endpoint has this many descriptors. -/
  le : k ≤ n + 2
  /-- The next one. -/
  head : (w.headp &&& ohciEdHeadMask).toNat = tdAddress alloc k
  /-- The dummy. -/
  tail : (w.tailp &&& ohciEdHeadMask).toNat = tdAddress alloc (n + 2)
  /-- The descriptors that were not retired are linked. -/
  next : ∀ i, k ≤ i → i < n + 2 → w.next (tdAddress alloc i) = some (tdAddress alloc (i + 1))
  /-- The others have condition codes. -/
  codes : ∀ i, i < k → conditionCode (w.tds (tdAddress alloc i)).control ≠ ohciTdCcNotAccessed
  /-- The queue of the controller, and the one that was handed over. -/
  links : ∃ internal, queue = internal ++ handed ∧ Lseg w.next (pointer w.doneHead) internal none
  /-- Nothing is handed over without WDH. -/
  wdh : if w.wdh then Lseg w.next (pointer w.hccaDoneHead) handed none else handed = []
  /-- What was not taken is the latest part. -/
  latest : queue <+: history alloc before k
  /-- What was taken is not in the queues. -/
  taken : ∀ a ∈ taken, a ∈ history alloc before k ∧ a ∉ queue

/-! ## Words -/

theorem pointer_of_eq {word : BitVec 32} {a : Nat} (h : (word &&& ohciEdHeadMask).toNat = a) (ha : a ≠ 0) :
    pointer word = some a := by
  rw [pointer, if_neg fun h0 => ha (by rw [← h, h0]; rfl), h]

theorem toNat_of_pointer {word : BitVec 32} {a : Nat} (h : pointer word = some a) :
    (word &&& ohciEdHeadMask).toNat = a := by
  rw [pointer] at h
  split at h
  · cases h
  · exact Option.some.inj h

theorem pointer_zero : pointer 0 = none := if_pos BitVec.zero_and

theorem mask_mask (word : BitVec 32) : word &&& ohciEdHeadMask &&& ohciEdHeadMask = word &&& ohciEdHeadMask := by
  rw [BitVec.and_assoc, BitVec.and_self]

theorem pointer_mask (word : BitVec 32) : pointer (word &&& ohciEdHeadMask) = pointer word := by
  rw [pointer, pointer, mask_mask]

theorem mask_or {word flags : BitVec 32} (h : flags &&& ohciEdHeadMask = 0) :
    (word ||| flags) &&& ohciEdHeadMask = word &&& ohciEdHeadMask := by
  have hor : (word ||| flags) &&& ohciEdHeadMask =
      (word &&& ohciEdHeadMask) ||| (flags &&& ohciEdHeadMask) := by
    apply BitVec.eq_of_getLsbD_eq
    intro i _
    simp only [BitVec.getLsbD_and, BitVec.getLsbD_or, Bool.and_or_distrib_right]
  rw [hor, h]
  exact BitVec.or_zero

theorem pointer_or {word flags : BitVec 32} (h : flags &&& ohciEdHeadMask = 0) :
    pointer (word ||| flags) = pointer word := by
  rw [pointer, pointer, mask_or h]

theorem conditionCode_retired {code : BitVec 4} {control : BitVec 32} (h : code < 14) :
    conditionCode (code.setWidth 32 <<< 28 ||| control &&& 0x0FFFFFFF) ≠ ohciTdCcNotAccessed := by
  have heq : conditionCode (code.setWidth 32 <<< 28 ||| control &&& 0x0FFFFFFF) = code.setWidth 32 := by
    have hmask : ∀ i, i < 4 → (0x0FFFFFFF : BitVec 32).getLsbD (28 + i) = false := by decide
    apply BitVec.eq_of_getLsbD_eq
    intro i hi
    rw [conditionCode, BitVec.getLsbD_ushiftRight, BitVec.getLsbD_or, BitVec.getLsbD_shiftLeft,
      BitVec.getLsbD_and, BitVec.getLsbD_setWidth, BitVec.getLsbD_setWidth, Nat.add_sub_cancel_left]
    by_cases h4 : i < 4
    · rw [hmask i h4]
      simp [hi, show 28 + i < 32 by omega]
    · rw [BitVec.getLsbD_of_ge _ _ (show 32 ≤ 28 + i by omega), BitVec.getLsbD_of_ge code i (by omega)]
      simp [show ¬ 28 + i < 32 by omega]
  have hall : ∀ c : BitVec 4, c < 14 → c.setWidth 32 ≠ ohciTdCcNotAccessed := by decide
  rw [heq]
  exact hall code h

/-! ## The controller -/

section

variable {alloc : DmaRet} {n k : Nat} {before queue handed : List Nat} {taken : Set Nat} {w : World}
  {hc : Nat → List HcAction} {valid : BitVec 32 → Bool}

theorem history_succ : history alloc before (k + 1) = tdAddress alloc k :: history alloc before k := by
  rw [history, List.range_succ, List.map_append, List.reverse_append]
  rfl

theorem tdAddress_inj {i j : Nat} (h : tdAddress alloc i = tdAddress alloc j) : i = j := by
  simp only [tdAddress] at h
  omega

theorem tdAddress_ne_zero (i : Nat) : tdAddress alloc i ≠ 0 := by
  simp only [tdAddress]
  omega

theorem mem_history {a : Nat} :
    a ∈ history alloc before k ↔ (∃ i, i < k ∧ a = tdAddress alloc i) ∨ a ∈ before := by
  simp only [history, List.mem_append, List.mem_reverse, List.mem_map, List.mem_range, eq_comm (a := a)]

/-- What was in the queues before is apart from the transfer. -/
structure Apart (alloc : DmaRet) (n : Nat) (before : List Nat) : Prop where
  /-- No descriptor is there twice. -/
  nodup : before.Nodup
  /-- None is one of the transfer. -/
  apart : ∀ i, i < n + 2 → tdAddress alloc i ∉ before

theorem Apart.nodup_history (h : Apart alloc n before) (hk : k ≤ n + 2) : (history alloc before k).Nodup := by
  induction k with
  | zero => exact h.nodup
  | succ k ih =>
    rw [history_succ]
    refine List.nodup_cons.mpr ⟨fun hmem => ?_, ih (by omega)⟩
    rcases mem_history.mp hmem with ⟨i, hi, heq⟩ | hmem
    · exact absurd (tdAddress_inj heq) (by omega)
    · exact h.apart k (by omega) hmem

/-- The next descriptor comes to the queue of the controller. -/
theorem Inv.push (h : Inv alloc n before taken queue handed k w) (hF : Apart alloc n before) {w' : World}
    (hk : k < n + 2) (hhead : (w'.headp &&& ohciEdHeadMask).toNat = tdAddress alloc (k + 1))
    (htail : w'.tailp = w.tailp) (hdone : pointer w'.doneHead = some (tdAddress alloc k))
    (hnext : w'.next (tdAddress alloc k) = pointer w.doneHead)
    (hsame : ∀ a, a ≠ tdAddress alloc k → w'.tds a = w.tds a)
    (hcode : conditionCode (w'.tds (tdAddress alloc k)).control ≠ ohciTdCcNotAccessed)
    (hwdh : w'.wdh = w.wdh) (hhcca : w'.hccaDoneHead = w.hccaDoneHead) :
    Inv alloc n before taken (tdAddress alloc k :: queue) handed (k + 1) w' := by
  have hlater : ∀ i, i ≠ k → w'.tds (tdAddress alloc i) = w.tds (tdAddress alloc i) :=
    fun i hi => hsame _ fun heq => hi (tdAddress_inj heq)
  obtain ⟨internal, rfl, hlinks⟩ := h.links
  have hnew : tdAddress alloc k ∉ history alloc before k := by
    have hnodup := hF.nodup_history (show k + 1 ≤ n + 2 from hk)
    rw [history_succ] at hnodup
    exact (List.nodup_cons.mp hnodup).1
  -- the links of what is in the queues stay
  have hqueue : ∀ a ∈ internal ++ handed, w'.next a = w.next a := fun a ha => by
    rw [World.next, World.next, hsame a fun heq => hnew (heq ▸ h.latest.subset ha)]
  refine ⟨hk, hhead, by rw [htail, h.tail], fun i h1 h2 => ?_, fun i hi => ?_, ?_, ?_, ?_, fun a ha => ?_⟩
  · rw [World.next, hlater i (by omega)]
    exact h.next i (by omega) h2
  · rcases Nat.lt_succ_iff_lt_or_eq.mp hi with hi | rfl
    · rw [hlater i (by omega)]
      exact h.codes i hi
    · exact hcode
  · refine ⟨tdAddress alloc k :: internal, rfl, hdone, ?_⟩
    rw [hnext]
    exact hlinks.congr fun a ha => hqueue a (List.mem_append_left _ ha)
  · have hold := h.wdh
    rw [hwdh, hhcca]
    split at hold
    · rename_i hset
      rw [if_pos hset]
      exact hold.congr fun a ha => hqueue a (List.mem_append_right _ ha)
    · rename_i hclear
      rwa [if_neg hclear]
  · rw [history_succ]
    exact (List.prefix_cons_inj _).mpr h.latest
  · obtain ⟨h1, h2⟩ := h.taken a ha
    rw [history_succ]
    refine ⟨List.mem_cons_of_mem _ h1, fun hmem => ?_⟩
    rcases List.mem_cons.mp hmem with rfl | hmem
    · exact hnew h1
    · exact h2 hmem

/-- The queues do not depend on the rest. -/
theorem Inv.keep (h : Inv alloc n before taken queue handed k w) (cle running : Bool) (frameNumber : BitVec 16)
    (scheduled : Bool) (clock : Nat) :
    Inv alloc n before taken queue handed k { w with cle, running, frameNumber, scheduled, clock } :=
  ⟨h.le, h.head, h.tail, h.next, h.codes, h.links, h.wdh, h.latest, h.taken⟩

/-- What the controller does to the queues, whatever it does. -/
theorem Inv.act (h : Inv alloc n before taken queue handed k w) (hF : Apart alloc n before) (a : HcAction) :
    ∃ queue' handed' k', Inv alloc n before taken queue' handed' k' (w.act a) ∧
      (w.wdh = true → handed' = handed) ∧ (Idle w → queue' = queue ∧ k' = k) := by
  have hstays : Inv alloc n before taken queue handed k w → ∃ queue' handed' k',
      Inv alloc n before taken queue' handed' k' w ∧ (w.wdh = true → handed' = handed) ∧
      (Idle w → queue' = queue ∧ k' = k) :=
    fun h => ⟨queue, handed, k, h, fun _ => rfl, fun _ => ⟨rfl, rfl⟩⟩
  cases a with
  | retire code cbp carry =>
    rw [World.act, World.retire]
    split
    swap
    · exact hstays h
    rename_i hcond
    obtain ⟨hrunning, hscheduled, -, htail, hcode⟩ := hcond
    have hk : k < n + 2 := by
      refine lt_of_le_of_ne h.le fun hk => htail (BitVec.eq_of_toNat_eq ?_)
      rw [h.head, h.tail, hk]
    have hhead : pointer (w.headp &&& ohciEdHeadMask) = some (tdAddress alloc k) := by
      rw [pointer_mask]
      exact pointer_of_eq h.head (tdAddress_ne_zero k)
    refine ⟨tdAddress alloc k :: queue, handed, k + 1, h.push hF hk ?_ rfl hhead ?_ ?_ ?_ rfl rfl,
      fun _ => rfl, fun hidle => ?_⟩
    · simp only
      rw [h.head, mask_or (by split <;> decide), mask_or (by cases carry <;> decide), mask_mask]
      exact toNat_of_pointer (h.next k (le_refl k) hk)
    · rw [World.next, h.head]
      simp only [Function.update_self]
    · intro a ha
      rw [h.head]
      exact Function.update_of_ne ha _ _
    · rw [h.head]
      simp only [Function.update_self]
      exact conditionCode_retired hcode
    · rcases hidle with hidle | ⟨hidle, -⟩
      · rw [hidle] at hscheduled
        cases hscheduled
      · rw [hidle] at hrunning
        cases hrunning
  | publish other =>
    rw [World.act, World.publish]
    split
    swap
    · exact hstays h
    rename_i hcond
    obtain ⟨hwdh, hdone⟩ := hcond
    obtain ⟨internal, rfl, hlinks⟩ := h.links
    have hempty : handed = [] := by
      have hold := h.wdh
      rwa [hwdh] at hold
    subst hempty
    refine ⟨internal ++ [], internal, k, ⟨h.le, h.head, h.tail, h.next, h.codes, ⟨[], by simp, ?_⟩, ?_, h.latest,
      h.taken⟩, fun hset => ?_, fun _ => ⟨rfl, rfl⟩⟩
    · exact pointer_zero
    · rw [if_pos rfl]
      simp only
      rw [pointer_or (by cases other <;> decide)]
      exact hlinks
    · rw [hwdh] at hset
      cases hset
  | frame => exact ⟨queue, handed, k, h.keep _ _ _ _ _, fun _ => rfl, fun _ => ⟨rfl, rfl⟩⟩

theorem act_control (w : World) (a : HcAction) :
    (w.act a).cle = w.cle ∧ (w.act a).scheduled = w.scheduled ∧
      (w.wdh = true → (w.act a).wdh = true ∧ (w.act a).hccaDoneHead = w.hccaDoneHead) ∧
      (a ≠ .frame → (w.act a).running = w.running ∧ (w.act a).frameNumber = w.frameNumber) ∧
      (a = .frame → (w.act a).running = w.cle) := by
  cases a with
  | retire code cbp carry =>
    rw [World.act, World.retire]
    split <;> exact ⟨rfl, rfl, fun h => ⟨h, rfl⟩, fun _ => ⟨rfl, rfl⟩, fun h => (by cases h)⟩
  | publish other =>
    rw [World.act, World.publish]
    split
    · rename_i hcond
      refine ⟨rfl, rfl, fun h => ?_, fun _ => ⟨rfl, rfl⟩, fun h => (by cases h)⟩
      rw [hcond.1] at h
      cases h
    · exact ⟨rfl, rfl, fun h => ⟨h, rfl⟩, fun _ => ⟨rfl, rfl⟩, fun h => (by cases h)⟩
  | frame => exact ⟨rfl, rfl, fun h => ⟨h, rfl⟩, fun h => absurd rfl h, fun _ => rfl⟩

theorem Idle.act (h : Idle w) (a : HcAction) : Idle (w.act a) := by
  obtain ⟨hcle, hscheduled, -, hother, hframe⟩ := act_control w a
  rcases h with h | ⟨h1, h2⟩
  · exact .inl (hscheduled.trans h)
  · refine .inr ⟨?_, hcle.trans h2⟩
    by_cases ha : a = .frame
    · exact (hframe ha).trans h2
    · exact (hother ha).1.trans h1

variable (hc) in
/-- **What every action keeps, the driver finds when it looks.** -/
theorem look_keeps {P : World → Prop} (hclock : ∀ v c, P v → P { v with clock := c })
    (hact : ∀ v, P v → ∀ a ∈ hc w.clock, P (v.act a)) (hw : P w) : P (w.look hc) :=
  hclock _ _ (List.foldlRecOn (hc w.clock) World.act hw hact)

@[simp] theorem look_cle : (w.look hc).cle = w.cle :=
  look_keeps hc (P := fun v => v.cle = w.cle) (fun _ _ h => h)
    (fun v h a _ => (act_control v a).1.trans h) rfl

theorem look_scheduled : (w.look hc).scheduled = w.scheduled :=
  look_keeps hc (P := fun v => v.scheduled = w.scheduled) (fun _ _ h => h)
    (fun v h a _ => (act_control v a).2.1.trans h) rfl

variable (hc) in
theorem look_wdh (h : w.wdh = true) : (w.look hc).wdh = true ∧ (w.look hc).hccaDoneHead = w.hccaDoneHead :=
  look_keeps hc (P := fun v => v.wdh = true ∧ v.hccaDoneHead = w.hccaDoneHead) (fun _ _ h => h)
    (fun v h a _ => ⟨((act_control v a).2.2.1 h.1).1, ((act_control v a).2.2.1 h.1).2.trans h.2⟩) ⟨h, rfl⟩

theorem Idle.look (h : Idle w) : Idle (w.look hc) :=
  look_keeps hc (P := Idle) (fun _ _ h => h) (fun _ h a _ => h.act a) h

variable (hc) in
/-- **What a look does to the queues.** -/
theorem Inv.look (h : Inv alloc n before taken queue handed k w) (hF : Apart alloc n before) :
    ∃ queue' handed' k', Inv alloc n before taken queue' handed' k' (w.look hc) ∧
      (w.wdh = true → handed' = handed) ∧ (Idle w → queue' = queue ∧ k' = k) := by
  have hkeeps := look_keeps hc (w := w) (P := fun v => ∃ queue' handed' k',
      Inv alloc n before taken queue' handed' k' v ∧ (w.wdh = true → v.wdh = true ∧ handed' = handed) ∧
      (Idle w → Idle v ∧ queue' = queue ∧ k' = k)) ?_ ?_ ⟨queue, handed, k, h, fun h => ⟨h, rfl⟩,
      fun h => ⟨h, rfl, rfl⟩⟩
  · obtain ⟨queue', handed', k', h1, h2, h3⟩ := hkeeps
    exact ⟨queue', handed', k', h1, fun h => (h2 h).2, fun h => (h3 h).2⟩
  · rintro v c ⟨queue', handed', k', h1, h2, h3⟩
    exact ⟨queue', handed', k', h1.keep _ _ _ _ _, h2, h3⟩
  · rintro v ⟨queue', handed', k', h1, h2, h3⟩ a -
    obtain ⟨queue'', handed'', k'', h1', h2', h3'⟩ := h1.act hF a
    refine ⟨queue'', handed'', k'', h1', fun hw => ?_, fun hw => ?_⟩
    · obtain ⟨hv, rfl⟩ := h2 hw
      exact ⟨((act_control v a).2.2.1 hv).1, h2' hv⟩
    · obtain ⟨hv, rfl, rfl⟩ := h3 hw
      exact ⟨hv.act a, h3' hv⟩

variable (hc) in
/-- When the controller is idle, nothing comes to the queues. -/
theorem Inv.look_idle (h : Inv alloc n before taken queue handed k w) (hF : Apart alloc n before)
    (hidle : Idle w) : ∃ handed', Inv alloc n before taken queue handed' k (w.look hc) := by
  obtain ⟨queue', handed', k', h1, -, h2⟩ := h.look hc hF
  obtain ⟨rfl, rfl⟩ := h2 hidle
  exact ⟨handed', h1⟩

theorem newest_eq (h : Inv alloc n before taken queue handed k w) : newest w = queue.head? := by
  obtain ⟨internal, rfl, hlinks⟩ := h.links
  have hwdh := h.wdh
  rw [newest, hlinks.head?_eq]
  cases internal with
  | cons a internal => rfl
  | nil =>
    simp only [List.head?_nil, List.nil_append]
    split at hwdh
    · rename_i hset
      rw [if_pos hset, hwdh.head?_eq]
    · rename_i hclear
      rw [if_neg hclear, hwdh]
      rfl

theorem inDoneQueue_iff (h : Inv alloc n before taken queue handed k w) {a : Nat} :
    InDoneQueue w a ↔ a ∈ queue := by
  obtain ⟨internal, rfl, hlinks⟩ := h.links
  have hwdh := h.wdh
  rw [InDoneQueue, hlinks.reaches_iff, List.mem_append]
  refine or_congr_right ?_
  split at hwdh
  · rename_i hset
    rw [hwdh.reaches_iff]
    exact ⟨fun h => h.2, fun h => ⟨hset, h⟩⟩
  · rename_i hclear
    rw [hwdh]
    exact ⟨fun h => absurd h.1 hclear, fun h => absurd h List.not_mem_nil⟩

/-! ## The driver -/

/-- The descriptors that are noted in a watch. -/
def Watch.marked (watch : Watch) : Set Nat :=
  {a | watch.retiredMask &&& ohciTdSetupDone ≠ 0 ∧ a = watch.setupPhys.toNat ∨
    watch.retiredMask &&& ohciTdDataDone ≠ 0 ∧ a = watch.dataPhys.toNat ∨
    watch.retiredMask &&& ohciTdStatusDone ≠ 0 ∧ a = watch.statusPhys.toNat}

/-- The watch of a transfer. -/
structure Watches (alloc : DmaRet) (n : Nat) (watch : Watch) : Prop where
  /-- It watches the SETUP descriptor. -/
  setup : watch.setupPhys.toNat = tdAddress alloc 0
  /-- It watches the first data descriptor. -/
  data : n ≠ 0 → watch.dataPhys.toNat = tdAddress alloc 1
  /-- It watches the status descriptor. -/
  status : watch.statusPhys.toNat = tdAddress alloc (n + 1)

theorem or_and_of_and_eq_zero {m d e : BitVec 8} (h : d &&& e = 0) : (m ||| d) &&& e = m &&& e := by
  have hor : (m ||| d) &&& e = (m &&& e) ||| (d &&& e) := by
    apply BitVec.eq_of_getLsbD_eq
    intro i _
    simp only [BitVec.getLsbD_and, BitVec.getLsbD_or, Bool.and_or_distrib_right]
  rw [hor, h]
  exact BitVec.or_zero

theorem Watches.mark {watch : Watch} {phys : BitVec 32} (h : Watches alloc n watch) :
    Watches alloc n (watch.mark phys) := by
  rw [Watch.mark]
  split
  · exact ⟨h.setup, h.data, h.status⟩
  split
  · exact ⟨h.setup, h.data, h.status⟩
  split
  · exact ⟨h.setup, h.data, h.status⟩
  · exact h

theorem marked_mark {watch : Watch} {phys : BitVec 32} {a : Nat} (h : a ∈ (watch.mark phys).marked) :
    a ∈ watch.marked ∨ a = phys.toNat := by
  rw [Watch.mark] at h
  split at h
  · rename_i heq
    rcases h with ⟨-, h⟩ | h | h
    · exact .inr (h.trans (congrArg BitVec.toNat heq.symm))
    · rw [or_and_of_and_eq_zero (by decide)] at h
      exact .inl (.inr (.inl h))
    · rw [or_and_of_and_eq_zero (by decide)] at h
      exact .inl (.inr (.inr h))
  split at h
  · rename_i heq
    rcases h with h | ⟨-, h⟩ | h
    · rw [or_and_of_and_eq_zero (by decide)] at h
      exact .inl (.inl h)
    · exact .inr (h.trans (congrArg BitVec.toNat heq.symm))
    · rw [or_and_of_and_eq_zero (by decide)] at h
      exact .inl (.inr (.inr h))
  split at h
  · rename_i heq
    rcases h with h | h | ⟨-, h⟩
    · rw [or_and_of_and_eq_zero (by decide)] at h
      exact .inl (.inl h)
    · rw [or_and_of_and_eq_zero (by decide)] at h
      exact .inl (.inr (.inl h))
    · exact .inr (h.trans (congrArg BitVec.toNat heq.symm))
  · exact .inl h

theorem foldl_mark (entries : List (BitVec 32)) {watch : Watch} (h : Watches alloc n watch) :
    Watches alloc n (entries.foldl Watch.mark watch) ∧
    ∀ a ∈ (entries.foldl Watch.mark watch).marked, a ∈ watch.marked ∨ a ∈ entries.map BitVec.toNat := by
  induction entries generalizing watch with
  | nil => exact ⟨h, fun a ha => .inl ha⟩
  | cons phys entries ih =>
    obtain ⟨h1, h2⟩ := ih h.mark
    refine ⟨h1, fun a ha => ?_⟩
    rcases h2 a ha with ha | ha
    · rcases marked_mark ha with ha | rfl
      · exact .inl ha
      · exact .inr List.mem_cons_self
    · exact .inr (List.mem_cons_of_mem _ ha)

/-- The driver takes what was handed over. -/
theorem Inv.consume (h : Inv alloc n before taken queue handed k w) (hF : Apart alloc n before)
    (hset : w.wdh = true) {taken' : Set Nat} (htaken : ∀ a ∈ taken', a ∈ taken ∨ a ∈ handed) :
    ∃ queue', Inv alloc n before taken' queue' [] k { w with hccaDoneHead := 0 } := by
  obtain ⟨internal, rfl, hlinks⟩ := h.links
  have hnodup := h.latest.sublist.nodup (hF.nodup_history h.le)
  refine ⟨internal, h.le, h.head, h.tail, h.next, h.codes, ⟨internal, by simp, hlinks⟩, ?_,
    (List.prefix_append internal handed).trans h.latest, fun a ha => ?_⟩
  · rw [if_pos hset]
    exact pointer_zero
  · rcases htaken a ha with ha | ha
    · obtain ⟨h1, h2⟩ := h.taken a ha
      exact ⟨h1, fun hmem => h2 (List.mem_append_left _ hmem)⟩
    · exact ⟨h.latest.subset (List.mem_append_right _ ha),
        fun hmem => (List.nodup_append.mp hnodup).2.2 a hmem a ha rfl⟩

theorem entries_end {tdPhys : BitVec 32} {rest : List Nat} (hpointer : pointer tdPhys = rest.head?)
    (h0 : tdPhys = 0) : ∀ entries ∈ some ([] : List (BitVec 32)), entries.map BitVec.toNat = rest := by
  rintro entries ⟨⟩
  rw [h0, pointer_zero] at hpointer
  exact (List.head?_eq_none_iff.mp hpointer.symm).symm

variable (hc valid) in
/-- **The first pass finds what was handed over**, whatever the controller does meanwhile. -/
theorem collect_spec (hF : Apart alloc n before) {m : Nat} {tdPhys : BitVec 32} (pre : List Nat) {rest : List Nat}
    (h : Inv alloc n before taken queue (pre ++ rest) k w) (hset : w.wdh = true)
    (hmask : tdPhys &&& ohciEdHeadMask = tdPhys) (hpointer : pointer tdPhys = rest.head?) :
    ∃ queue' k', Inv alloc n before taken queue' (pre ++ rest) k' (collect hc valid m tdPhys w).2 ∧
      (collect hc valid m tdPhys w).2.wdh = true ∧ (collect hc valid m tdPhys w).2.cle = w.cle ∧
      (Idle w → Idle (collect hc valid m tdPhys w).2 ∧ k' = k) ∧
      ∀ entries ∈ (collect hc valid m tdPhys w).1, entries.map BitVec.toNat = rest := by
  induction m generalizing tdPhys pre rest queue k w with
  | zero =>
    rw [collect]
    split
    · rename_i h0
      exact ⟨queue, k, h, hset, rfl, fun h => ⟨h, rfl⟩, entries_end hpointer h0⟩
    · exact ⟨queue, k, h, hset, rfl, fun h => ⟨h, rfl⟩, fun entries hentries => by cases hentries⟩
  | succ m ih =>
    rw [collect]
    split
    · rename_i h0
      exact ⟨queue, k, h, hset, rfl, fun h => ⟨h, rfl⟩, entries_end hpointer h0⟩
    rename_i h0
    split
    · exact ⟨queue, k, h, hset, rfl, fun h => ⟨h, rfl⟩, fun entries hentries => by cases hentries⟩
    -- the descriptor is the next one of what was handed over
    obtain ⟨r, rfl⟩ : ∃ r, rest = tdPhys.toNat :: r := by
      rw [pointer, if_neg (by rwa [hmask]), hmask] at hpointer
      exact ⟨rest.tail, List.eq_cons_of_mem_head? hpointer.symm⟩
    obtain ⟨queue1, handed1, k1, h1, hsame, hidle⟩ := h.look hc hF
    obtain rfl := hsame hset
    have hset1 := (look_wdh hc hset).1
    have hlinks := h1.wdh
    rw [if_pos hset1] at hlinks
    have hnext : pointer ((((w.look hc).tds tdPhys.toNat).nextTd) &&& ohciEdHeadMask) = r.head? := by
      rw [pointer_mask]
      exact hlinks.next_eq
    rw [List.append_cons] at h1
    obtain ⟨queue2, k2, h2, hset2, hcle, hidle2, hentries⟩ := ih _ h1 hset1 (mask_mask _) hnext
    rw [← List.append_cons] at h2
    refine ⟨queue2, k2, h2, hset2, hcle.trans look_cle, fun hw => ?_, fun entries he => ?_⟩
    · obtain ⟨hq, rfl⟩ := hidle hw
      exact hidle2 hw.look
    · obtain ⟨rest, hrest, rfl⟩ := Option.mem_map.mp he
      exact congrArg (tdPhys.toNat :: ·) (hentries rest hrest)

variable (hc valid) in
/-- **`process_done_queue` takes what was handed over, and notes it.** -/
theorem processDoneQueue_spec (hF : Apart alloc n before) {watch : Watch} (hW : Watches alloc n watch)
    (h : Inv alloc n before watch.marked queue handed k w) :
    ∃ queue' handed' k', Inv alloc n before (processDoneQueue hc valid watch w).2.1.marked queue' handed' k'
        (processDoneQueue hc valid watch w).2.2 ∧
      Watches alloc n (processDoneQueue hc valid watch w).2.1 ∧
      (processDoneQueue hc valid watch w).2.2.cle = w.cle ∧
      (Idle w → Idle (processDoneQueue hc valid watch w).2.2 ∧ k' = k) := by
  obtain ⟨queue1, handed1, k1, h1, -, hidle1⟩ := h.look hc hF
  have hk1 : Idle w → Idle (w.look hc) ∧ k1 = k := fun hw => ⟨hw.look, (hidle1 hw).2⟩
  simp only [processDoneQueue]
  by_cases hset : (w.look hc).wdh = true
  swap
  · rw [if_pos (by simpa using hset)]
    exact ⟨queue1, handed1, k1, h1, hW, look_cle, hk1⟩
  rw [if_neg (by simpa using hset)]
  obtain ⟨queue2, handed2, k2, h2, hsame, hidle2⟩ := h1.look hc hF
  obtain rfl := hsame hset
  have hset2 := (look_wdh hc hset).1
  have hlinks := h2.wdh
  rw [if_pos hset2] at hlinks
  have hcle2 : ((w.look hc).look hc).cle = w.cle := by rw [look_cle, look_cle]
  have hk2 : Idle w → Idle ((w.look hc).look hc) ∧ k2 = k := fun hw => by
    obtain ⟨hw1, rfl⟩ := hk1 hw
    exact ⟨hw1.look, (hidle2 hw1).2⟩
  generalize (w.look hc).look hc = w2 at h2 hset2 hlinks hcle2 hk2 ⊢
  obtain ⟨queue3, k3, h3, hset3, hcle3, hidle3, hentries⟩ := collect_spec hc valid hF
    (m := 128) [] h2 hset2 (mask_mask w2.hccaDoneHead) (by rw [pointer_mask]; exact hlinks.head?_eq)
  have hk3 : Idle w → Idle (collect hc valid 128 (w2.hccaDoneHead &&& ohciEdHeadMask) w2).2 ∧ k3 = k :=
    fun hw => by
      obtain ⟨hw2, rfl⟩ := hk2 hw
      exact hidle3 hw2
  generalize collect hc valid 128 (w2.hccaDoneHead &&& ohciEdHeadMask) w2 = out at h3 hset3 hcle3 hentries hk3 ⊢
  obtain ⟨found, w3⟩ := out
  cases found with
  | none => exact ⟨queue3, _, k3, h3, hW, hcle3.trans hcle2, hk3⟩
  | some entries =>
    simp only [Option.mem_def, List.nil_append] at h3 hset3 hcle3 hk3 hentries ⊢
    -- with the first store, what was handed over is taken
    obtain ⟨queue4, handed4, k4, h4, hsame4, hidle4⟩ := h3.look hc hF
    obtain rfl := hsame4 hset3
    have hset4 := (look_wdh hc hset3).1
    obtain ⟨hW', hmarked⟩ := foldl_mark entries hW
    rw [hentries entries rfl] at hmarked
    obtain ⟨queue5, h5⟩ := h4.consume hF hset4 hmarked
    obtain ⟨queue6, handed6, k6, h6, hsame6, hidle6⟩ := h5.look hc hF
    obtain rfl := hsame6 hset4
    refine ⟨queue6, [], k6, ?_, hW', ?_, fun hw => ?_⟩
    · exact ⟨h6.le, h6.head, h6.tail, h6.next, h6.codes, h6.links, rfl, h6.latest, h6.taken⟩
    · show (World.look hc { w3.look hc with hccaDoneHead := 0 }).cle = w.cle
      rw [look_cle]
      exact look_cle.trans (hcle3.trans hcle2)
    · obtain ⟨hw3, rfl⟩ := hk3 hw
      have hw5 : Idle { w3.look hc with hccaDoneHead := 0 } := hw3.look
      exact ⟨hw5.look, (hidle6 hw5).2.trans (hidle4 hw3).2⟩

/-- Some descriptors were retired, some of them are in the queues, and the watch is right. -/
def Tracked (alloc : DmaRet) (n : Nat) (before : List Nat) (watch : Watch) (w : World) : Prop :=
  Watches alloc n watch ∧ ∃ queue handed k, Inv alloc n before watch.marked queue handed k w

variable (hc) in
theorem Tracked.look {watch : Watch} (h : Tracked alloc n before watch w) (hF : Apart alloc n before) :
    Tracked alloc n before watch (w.look hc) := by
  obtain ⟨hW, queue, handed, k, h⟩ := h
  obtain ⟨queue', handed', k', h', -, -⟩ := h.look hc hF
  exact ⟨hW, queue', handed', k', h'⟩

variable (hc valid) in
theorem Tracked.process {watch : Watch} (h : Tracked alloc n before watch w) (hF : Apart alloc n before) :
    Tracked alloc n before (processDoneQueue hc valid watch w).2.1 (processDoneQueue hc valid watch w).2.2 ∧
    (processDoneQueue hc valid watch w).2.2.cle = w.cle := by
  obtain ⟨hW, queue, handed, k, h⟩ := h
  obtain ⟨queue', handed', k', h', hW', hcle, -⟩ := processDoneQueue_spec hc valid hF hW h
  exact ⟨⟨hW', queue', handed', k', h'⟩, hcle⟩

variable (hc) in
theorem finishedTransfer_spec {watch : Watch} {t : TransferTds} (h : Tracked alloc n before watch w)
    (hF : Apart alloc n before) : Tracked alloc n before watch (finishedTransfer hc t w).2.2 ∧
      (finishedTransfer hc t w).2.2.cle = w.cle := by
  simp only [finishedTransfer]
  split
  · split <;> exact ⟨(h.look hc hF).look hc hF, by simp⟩
  split
  · exact ⟨((h.look hc hF).look hc hF).look hc hF, by simp⟩
  split <;> exact ⟨(((h.look hc hF).look hc hF).look hc hF).look hc hF, by simp⟩

variable (hc valid) in
/-- `wait_for_descriptor` loses nothing. -/
theorem waitRounds_spec {m : Nat} {watch : Watch} {t : TransferTds} (h : Tracked alloc n before watch w)
    (hF : Apart alloc n before) :
    Tracked alloc n before (waitRounds hc valid t m watch w).2.1 (waitRounds hc valid t m watch w).2.2 ∧
      (waitRounds hc valid t m watch w).2.2.cle = w.cle := by
  induction m generalizing watch w with
  | zero => exact ⟨h, rfl⟩
  | succ m ih =>
    simp only [waitRounds]
    obtain ⟨h1, hcle1⟩ : Tracked alloc n before
        (if (w.look hc).wdh then (processDoneQueue hc valid watch (w.look hc)).2 else (watch, w.look hc)).1
        (if (w.look hc).wdh then (processDoneQueue hc valid watch (w.look hc)).2 else (watch, w.look hc)).2 ∧
      (if (w.look hc).wdh then (processDoneQueue hc valid watch (w.look hc)).2 else (watch, w.look hc)).2.cle =
        w.cle := by
      split
      · obtain ⟨h2, hcle⟩ := (h.look hc hF).process hc valid hF
        exact ⟨h2, hcle.trans look_cle⟩
      · exact ⟨h.look hc hF, look_cle⟩
    generalize (if (w.look hc).wdh then (processDoneQueue hc valid watch (w.look hc)).2
      else (watch, w.look hc)) = out at h1 hcle1 ⊢
    split
    · exact ⟨h1.look hc hF, look_cle.trans hcle1⟩
    split
    · obtain ⟨h2, hcle2⟩ := finishedTransfer_spec hc (t := t) (h1.look hc hF) hF
      exact ⟨h2, hcle2.trans (look_cle.trans hcle1)⟩
    · obtain ⟨h2, hcle2⟩ := ih (h1.look hc hF)
      exact ⟨h2, hcle2.trans (look_cle.trans hcle1)⟩

/-! ## Stopping the list -/

/-- With the list disabled, a new frame stops the controller. -/
theorem waitForNextFrame_spec {m : Nat} {previousFrame : BitVec 16} {watch : Watch}
    (h : Tracked alloc n before watch w) (hF : Apart alloc n before) (hcle : w.cle = false)
    (hframe : w.frameNumber = previousFrame ∨ w.running = false)
    (hstopped : (waitForNextFrame hc previousFrame m w).1 = true) :
    Tracked alloc n before watch (waitForNextFrame hc previousFrame m w).2 ∧
      Idle (waitForNextFrame hc previousFrame m w).2 := by
  induction m generalizing w with
  | zero => cases hstopped
  | succ m ih =>
    obtain ⟨hcle1, hframe1⟩ : (w.look hc).cle = false ∧
        ((w.look hc).frameNumber = previousFrame ∨ (w.look hc).running = false) := by
      refine look_keeps hc (P := fun v => v.cle = false ∧ (v.frameNumber = previousFrame ∨ v.running = false))
        (fun _ _ h => h) (fun v hv a _ => ?_) ⟨hcle, hframe⟩
      obtain ⟨hcle', -, -, hother, hnew⟩ := act_control v a
      refine ⟨hcle'.trans hv.1, ?_⟩
      by_cases ha : a = .frame
      · exact .inr ((hnew ha).trans hv.1)
      · rw [(hother ha).1, (hother ha).2]
        exact hv.2
    simp only [waitForNextFrame] at hstopped ⊢
    split at hstopped
    · rename_i hne
      rw [if_pos hne]
      exact ⟨h.look hc hF, .inr ⟨hframe1.resolve_left hne, hcle1⟩⟩
    · rename_i heq
      rw [if_neg heq]
      exact ih (h.look hc hF) hcle1 hframe1 hstopped

/-- **The list is stopped**, if no frame begins between the read of the frame number and the store. -/
theorem stopControlSchedule_spec {watch : Watch} (h : Tracked alloc n before watch w)
    (hF : Apart alloc n before) (hcle : w.cle = true) (hquiet : HcAction.frame ∉ hc (w.clock + 2))
    (hstopped : (stopControlSchedule hc w).1 = true) :
    Tracked alloc n before watch (stopControlSchedule hc w).2 ∧ Idle (stopControlSchedule hc w).2 := by
  have hcle1 : (w.look hc).cle = true := look_cle.trans hcle
  simp only [stopControlSchedule, hcle1, Bool.not_true, Bool.false_eq_true, if_false] at hstopped ⊢
  have hframe : (((w.look hc).look hc).look hc).frameNumber = ((w.look hc).look hc).frameNumber := by
    refine look_keeps hc (P := fun v => v.frameNumber = ((w.look hc).look hc).frameNumber) (fun _ _ h => h)
      (fun v hv a ha => ?_) rfl
    have hne : a ≠ .frame := by
      rintro rfl
      exact hquiet ha
    exact ((act_control v a).2.2.2.1 hne).2.trans hv
  obtain ⟨hW, queue, handed, k, h3⟩ := ((h.look hc hF).look hc hF).look hc hF
  exact waitForNextFrame_spec ⟨hW, queue, handed, k, h3.keep _ _ _ _ _⟩ hF rfl (.inl hframe) hstopped

/-! ## Reaping -/

/-- The descriptors that the driver looks at. -/
structure Looks (alloc : DmaRet) (n : Nat) (t : TransferTds) : Prop where
  /-- SETUP. -/
  setup : t.setupTd = tdAddress alloc 0
  /-- The first data descriptor. -/
  data : t.dataTd = if n ≠ 0 then some (tdAddress alloc 1) else none
  /-- Status. -/
  status : t.statusTd = tdAddress alloc (n + 1)

theorem mask_of_reaped {code : BitVec 32} {watch : Watch} {done : BitVec 8} (h : reaped code watch done = true)
    (hcode : code ≠ ohciTdCcNotAccessed) : watch.retiredMask &&& done ≠ 0 := by
  rw [reaped, Bool.or_eq_true, beq_iff_eq, bne_iff_ne] at h
  exact h.resolve_left hcode

variable (hc) in
theorem dataCode_spec (hF : Apart alloc n before) {t : TransferTds} (ht : Looks alloc n t)
    (h : Inv alloc n before taken queue handed k w) (hidle : Idle w) :
    (∃ handed', Inv alloc n before taken queue handed' k (dataCode hc t w).2) ∧ Idle (dataCode hc t w).2 ∧
      (n ≠ 0 → 1 < k → (dataCode hc t w).1 ≠ ohciTdCcNotAccessed) := by
  rw [dataCode, ht.data]
  by_cases hn : n = 0
  · rw [if_neg (not_not.mpr hn)]
    exact ⟨⟨handed, h⟩, hidle, fun h => absurd hn h⟩
  · rw [if_pos hn]
    obtain ⟨handed', h'⟩ := h.look_idle hc hF hidle
    exact ⟨⟨handed', h'⟩, hidle.look, fun _ hk => h'.codes 1 hk⟩

variable (hc valid) in
/-- **What `wait_for_transfer_reap` has made sure of**: the SETUP, the first data and the status descriptor have
come back if they were retired. -/
theorem reapRounds_spec (hF : Apart alloc n before) {m : Nat} {watch : Watch} {t : TransferTds}
    (ht : Looks alloc n t) (hW : Watches alloc n watch) (h : Inv alloc n before watch.marked queue handed k w)
    (hidle : Idle w) (hreaped : (reapRounds hc valid t m watch w).1 = true) :
    ∃ queue' handed', Inv alloc n before (reapRounds hc valid t m watch w).2.1.marked queue' handed' k
        (reapRounds hc valid t m watch w).2.2 ∧
      Idle (reapRounds hc valid t m watch w).2.2 ∧
      ∀ i, i < k → i = 0 ∨ i = 1 ∨ i = n + 1 →
        tdAddress alloc i ∈ (reapRounds hc valid t m watch w).2.1.marked := by
  induction m generalizing watch queue handed w with
  | zero => cases hreaped
  | succ m ih =>
    obtain ⟨queue1, handed1, k1, h1, hW1, -, hidle1⟩ := processDoneQueue_spec hc valid hF hW h
    obtain ⟨hw1, rfl⟩ := hidle1 hidle
    simp only [reapRounds] at hreaped ⊢
    generalize processDoneQueue hc valid watch w = out at hreaped h1 hW1 hw1 ⊢
    obtain ⟨processed, watch1, w1⟩ := out
    simp only at hreaped h1 hW1 hw1 ⊢
    cases processed with
    | false => cases hreaped
    | true =>
      simp only [Bool.not_true, Bool.false_eq_true, if_false] at hreaped ⊢
      -- the three looks; the controller is idle
      obtain ⟨handed2, h2⟩ := h1.look_idle hc hF hw1
      have hw2 : Idle (w1.look hc) := hw1.look
      obtain ⟨⟨handed3, h3⟩, hw3, hdata⟩ := dataCode_spec hc hF ht h2 hw2
      generalize dataCode hc t (w1.look hc) = out at hreaped h3 hw3 hdata ⊢
      obtain ⟨dataCc, w3⟩ := out
      simp only at hreaped h3 hw3 hdata ⊢
      obtain ⟨handed4, h4⟩ := h3.look_idle hc hF hw3
      split at hreaped
      swap
      · rename_i hagain
        rw [if_neg hagain]
        exact ih hW1 h4 hw3.look hreaped
      rename_i hcodes
      rw [if_pos hcodes]
      simp only [Bool.and_eq_true] at hcodes
      obtain ⟨⟨hsetup, hdata'⟩, hstatus⟩ := hcodes
      refine ⟨queue1, handed4, h4, hw3.look, fun i hi hwatched => ?_⟩
      have hsetupMask (hk : 0 < k1) : watch1.retiredMask &&& ohciTdSetupDone ≠ 0 :=
        mask_of_reaped hsetup (by rw [ht.setup]; exact h2.codes 0 hk)
      have hstatusMask (hk : n + 1 < k1) : watch1.retiredMask &&& ohciTdStatusDone ≠ 0 :=
        mask_of_reaped hstatus (by rw [ht.status]; exact h4.codes (n + 1) hk)
      by_cases h0 : i = 0
      · rw [h0] at hi ⊢
        exact .inl ⟨hsetupMask hi, hW1.setup.symm⟩
      by_cases hlast : i = n + 1
      · rw [hlast] at hi ⊢
        exact .inr (.inr ⟨hstatusMask hi, hW1.status.symm⟩)
      · have hi1 : i = 1 := by omega
        have hn : n ≠ 0 := by omega
        rw [hi1] at hi ⊢
        exact .inr (.inl ⟨mask_of_reaped hdata' (hdata hn hi), (hW1.data hn).symm⟩)

/-! ## Restoring the old list -/

/-- What is left of a transfer when the driver goes on: nothing, unless the latest descriptor in the queues is
one that the driver does not watch. -/
theorem Inv.none_left_iff (hF : Apart alloc n before) (h : Inv alloc n before taken queue handed k w)
    (hwatched : ∀ i, i < k → i = 0 ∨ i = 1 ∨ i = n + 1 → tdAddress alloc i ∈ taken) :
    (∀ i, i < n + 2 → tdAddress alloc i ∉ queue) ↔
      ∀ j, 0 < j → j < n → queue.head? ≠ some (tdAddress alloc (j + 1)) := by
  constructor
  · intro hnone j h1 h2 hhead
    exact hnone (j + 1) (by omega) (List.mem_of_mem_head? hhead)
  · intro hnewest
    cases hq : queue with
    | nil => exact fun i _ => List.not_mem_nil
    | cons a queue =>
      rw [hq] at hnewest
      have hlatest := h.latest
      rw [hq] at hlatest
      cases k with
      | zero =>
        intro i hi hmem
        exact hF.apart i hi (hlatest.subset hmem)
      | succ k =>
        rw [history_succ] at hlatest
        obtain ⟨rfl, -⟩ := List.cons_prefix_cons.mp hlatest
        have hk := h.le
        -- the latest one is watched and has come back, or it is not watched
        by_cases hw : k = 0 ∨ k = 1 ∨ k = n + 1
        · exact absurd (by rw [hq]; exact List.mem_cons_self)
            (h.taken _ (hwatched k (Nat.lt_succ_self k) hw)).2
        · refine absurd ?_ (hnewest (k - 1) (by omega) (by omega))
          rw [List.head?_cons, Nat.sub_add_cancel (by omega)]

/-- When `restore_control_schedule` returns true. -/
theorem restoreControlSchedule_eq_true {t : TransferTds} {watch : Watch} {oldCle : Bool}
    (h : (restoreControlSchedule hc valid t watch oldCle w).1 = true) :
    (stopControlSchedule hc w).1 = true ∧
    (waitForTransferReap hc valid t watch (stopControlSchedule hc w).2).1 = true ∧
    (restoreControlSchedule hc valid t watch oldCle w).2 =
      World.look hc { World.look hc
        { (waitForTransferReap hc valid t watch (stopControlSchedule hc w).2).2.2.look hc with scheduled := false }
        with cle := oldCle } := by
  simp only [restoreControlSchedule] at h ⊢
  generalize stopControlSchedule hc w = stopped at h ⊢
  obtain ⟨stopped, w1⟩ := stopped
  cases stopped with
  | false => cases h
  | true =>
    simp only [Bool.not_true, Bool.false_eq_true, if_false, true_and] at h ⊢
    generalize waitForTransferReap hc valid t watch w1 = reaped at h ⊢
    obtain ⟨reaped, watch', w2⟩ := reaped
    cases reaped with
    | false => cases h
    | true => exact ⟨rfl, rfl⟩

variable (hc) in
/-- What `restore_control_schedule` does behind `wait_for_transfer_reap` does not touch the queues. -/
theorem restore_spec (hF : Apart alloc n before) (h : Inv alloc n before taken queue handed k w) (hidle : Idle w)
    (oldCle : Bool) : ∃ handed', Inv alloc n before taken queue handed' k
      (World.look hc { World.look hc { w.look hc with scheduled := false } with cle := oldCle }) := by
  obtain ⟨handed1, h1⟩ := h.look_idle hc hF hidle
  have h2 : Inv alloc n before taken queue handed1 k { w.look hc with scheduled := false } := h1.keep _ _ _ _ _
  obtain ⟨handed3, h3⟩ := h2.look_idle hc hF (.inl rfl)
  have h4 : Inv alloc n before taken queue handed3 k
      { World.look hc { w.look hc with scheduled := false } with cle := oldCle } := h3.keep _ _ _ _ _
  refine h4.look_idle hc hF (.inl ?_)
  exact look_scheduled (w := { w.look hc with scheduled := false })

end

/-! ## A transfer -/

/-- The descriptors of a transfer. -/
def transferDescriptors (alloc : DmaRet) (dataTdCount : Nat) : List Nat :=
  let l := transferLayout alloc dataTdCount
  alloc.physicalOf l.setupTd ::
    ((List.range dataTdCount).map fun j => alloc.physicalOf (l.dataTd + sizeofTd * j)) ++
    [alloc.physicalOf l.statusTd]

/-- `usb_send_packet` has written the transfer and started the control list.  There may be descriptors in the
queues, but none in the block. -/
structure Installed (alloc : DmaRet) (packet : UsbSetupPacket) (maxpacketsize length : Nat) (address : BitVec 8)
    (lowSpeed : Bool) (former : Nat → BitVec 8) (w : World) : Prop where
  /-- Memory. -/
  tds : w.tds = tdAt (writeTransfer alloc packet maxpacketsize length address lowSpeed former)
  /-- `ed->headp`. -/
  headp : w.headp = load32 (writeTransfer alloc packet maxpacketsize length address lowSpeed former)
    (alloc.physicalAddress + 8)
  /-- `ed->tailp`. -/
  tailp : w.tailp = load32 (writeTransfer alloc packet maxpacketsize length address lowSpeed former)
    (alloc.physicalAddress + 4)
  /-- `control_head_ed`. -/
  scheduled : w.scheduled = true
  /-- `control`. -/
  cle : w.cle = true
  /-- The queues. -/
  queues : ∃ internal handed, Lseg w.next (pointer w.doneHead) internal none ∧
    (if w.wdh then Lseg w.next (pointer w.hccaDoneHead) handed none else handed = []) ∧
    (internal ++ handed).Nodup ∧ ∀ a ∈ internal ++ handed, ¬ alloc.Holds a

section

variable {alloc : DmaRet} {packet : UsbSetupPacket} {maxpacketsize length n : Nat} {address : BitVec 8}
  {lowSpeed : Bool} {former : Nat → BitVec 8} {w : World}

theorem physicalOf_dataTd (j : Nat) :
    alloc.physicalOf ((transferLayout alloc n).dataTd + sizeofTd * j) = tdAddress alloc (j + 1) := by
  simp only [transferLayout, sizeofTd, sizeofEd, DmaRet.physicalOf, tdAddress]
  omega

theorem physicalOf_statusTd : alloc.physicalOf (transferLayout alloc n).statusTd = tdAddress alloc (n + 1) := by
  simp only [transferLayout, sizeofTd, sizeofEd, DmaRet.physicalOf, tdAddress]
  omega

theorem physicalOf_setupTd : alloc.physicalOf (transferLayout alloc n).setupTd = tdAddress alloc 0 :=
  alloc.physicalOf_add 16

theorem mem_transferDescriptors {a : Nat} :
    a ∈ transferDescriptors alloc n ↔ ∃ i, i < n + 2 ∧ a = tdAddress alloc i := by
  simp only [transferDescriptors, List.cons_append, List.mem_cons, List.mem_append, List.mem_map, List.mem_range,
    List.not_mem_nil, or_false, physicalOf_dataTd, physicalOf_statusTd, physicalOf_setupTd]
  constructor
  · rintro (rfl | ⟨j, hj, rfl⟩ | rfl)
    · exact ⟨0, by omega, rfl⟩
    · exact ⟨j + 1, by omega, rfl⟩
    · exact ⟨n + 1, by omega, rfl⟩
  · rintro ⟨i, hi, rfl⟩
    by_cases h0 : i = 0
    · exact .inl (by rw [h0])
    by_cases hlast : i = n + 1
    · exact .inr (.inr (by rw [hlast]))
    · exact .inr (.inl ⟨i - 1, by omega, by rw [Nat.sub_add_cancel (by omega)]⟩)

theorem looks_transferTds : Looks alloc n (transferTds alloc n length) where
  setup := physicalOf_setupTd
  data := by
    rw [transferTds]
    simp only
    rw [show (transferLayout alloc n).dataTd = (transferLayout alloc n).dataTd + sizeofTd * 0 from rfl,
      physicalOf_dataTd]
  status := physicalOf_statusTd

theorem mask_of_dvd {word : BitVec 32} (h : 16 ∣ word.toNat) : word &&& ohciEdHeadMask = word := by
  obtain ⟨q, hq⟩ := h
  have hhigh : ∀ i, i < 32 → ¬ i < 4 → ohciEdHeadMask.getLsbD i = true := by decide
  apply BitVec.eq_of_getLsbD_eq
  intro i hi
  rw [BitVec.getLsbD_and]
  by_cases h4 : i < 4
  · have hlow : word.getLsbD i = false := by
      rw [← BitVec.testBit_toNat, hq, show 16 = 2 ^ 4 from rfl, Nat.testBit_two_pow_mul]
      simp [show ¬ 4 ≤ i by omega]
    rw [hlow, Bool.false_and]
  · rw [hhigh i hi h4, Bool.and_true]

/-- A link to a descriptor of the transfer. -/
theorem pointer_tdAddress {word : BitVec 32} {i : Nat} (halign : 16 ∣ alloc.physicalAddress)
    (h : word.toNat = tdAddress alloc i) :
    (word &&& ohciEdHeadMask).toNat = tdAddress alloc i ∧ pointer word = some (tdAddress alloc i) := by
  have hmask : word &&& ohciEdHeadMask = word := by
    refine mask_of_dvd ?_
    rw [h, tdAddress]
    omega
  have htoNat : (word &&& ohciEdHeadMask).toNat = tdAddress alloc i := by rw [hmask, h]
  exact ⟨htoNat, pointer_of_eq htoNat (tdAddress_ne_zero i)⟩

/-- The links that `usb_send_packet` has written. -/
theorem nextTd_of_inMemory {bytes : Nat → BitVec 8}
    (h : InMemory alloc packet maxpacketsize length address lowSpeed n bytes)
    (hfit : alloc.physicalAddress + 72 + 16 * n + length ≤ 2 ^ 32) {i : Nat} (hi : i < n + 2) :
    (tdAt bytes (tdAddress alloc i)).nextTd.toNat = tdAddress alloc (i + 1) := by
  obtain ⟨-, hdataPhys, hstatusPhys, hdummyPhys, -, -⟩ := transferLayout_toNat hfit
  by_cases h0 : i = 0
  · rw [h0, show tdAddress alloc 0 = alloc.physicalAddress + 16 from rfl, tdAt_of_hasWords h.setup, setupTd]
    simp only
    split
    · rw [hdataPhys, tdAddress]
    · rw [hstatusPhys, tdAddress]
      omega
  by_cases hlast : i = n + 1
  · have haddress : tdAddress alloc i = alloc.physicalAddress + 32 + 16 * n := by
      rw [tdAddress, hlast]
      omega
    rw [haddress, tdAt_of_hasWords h.status, statusTd]
    simp only
    rw [hdummyPhys, tdAddress, hlast]
    omega
  · obtain ⟨j, rfl⟩ : ∃ j, i = j + 1 := ⟨i - 1, by omega⟩
    have haddress : tdAddress alloc (j + 1) = alloc.physicalAddress + 32 + 16 * j := by
      rw [tdAddress]
      omega
    rw [haddress, tdAt_of_hasWords (h.data j (by omega)), dataTdOf, dataTd]
    simp only
    split
    · rw [hstatusPhys, tdAddress]
      omega
    · rw [BitVec.toNat_add, hdataPhys, BitVec.toNat_ofNat, sizeofTd, tdAddress]
      omega

theorem marked_transferWatch : (transferWatch alloc n).marked = ∅ := by
  apply Set.eq_empty_of_forall_notMem
  rintro a (⟨h, -⟩ | ⟨h, -⟩ | ⟨h, -⟩)
  · exact h BitVec.zero_and
  · exact h BitVec.zero_and
  · exact h BitVec.zero_and

theorem tracked_of_installed (hr : rejects packet maxpacketsize length = false)
    (hbelow : alloc.Below4GiB (transferSize (packetCount length maxpacketsize) length))
    (hsize : transferSize (packetCount length maxpacketsize) length ≤ 4096 * alloc.sizeInPages)
    (h : Installed alloc packet maxpacketsize length address lowSpeed former w) :
    ∃ before, Apart alloc (packetCount length maxpacketsize) before ∧
      Tracked alloc (packetCount length maxpacketsize) before
        (transferWatch alloc (packetCount length maxpacketsize)) w := by
  generalize hn : packetCount length maxpacketsize = n at hbelow hsize
  obtain ⟨internal, handed, hlinks, hwdh, hnodup, houtside⟩ := h.queues
  obtain ⟨hmem, -⟩ := writeTransfer_spec alloc address lowSpeed former hr hn.symm
  obtain ⟨halign, hfit⟩ := hbelow
  simp only [transferSize, sizeofTd, sizeofEd] at hfit hsize
  have halign16 : 16 ∣ alloc.physicalAddress := by omega
  obtain ⟨hsetupPhys, hdataPhys, hstatusPhys, hdummyPhys, -, -⟩ :=
    @transferLayout_toNat alloc n length (by omega)
  have hhead : w.headp.toNat = tdAddress alloc 0 := by
    rw [h.headp, hmem.ed.tail.tail.load32, hsetupPhys, tdAddress]
  have htail : w.tailp.toNat = tdAddress alloc (n + 2) := by
    rw [h.tailp, hmem.ed.tail.load32, hdummyPhys, tdAddress]
    omega
  refine ⟨internal ++ handed, ⟨hnodup, fun i hi hin => houtside _ hin ?_⟩, ⟨hsetupPhys, fun hn0 => ?_, ?_⟩,
    internal ++ handed, handed, 0, ?_⟩
  · rw [tdAddress]
    constructor <;> omega
  · show (if n ≠ 0 then _ else _ : BitVec 32).toNat = _
    rw [if_pos hn0, hdataPhys, tdAddress]
  · show (transferLayout alloc n).statusTdPhys.toNat = _
    rw [hstatusPhys, tdAddress]
    omega
  · refine ⟨Nat.zero_le _, (pointer_tdAddress halign16 hhead).1, (pointer_tdAddress halign16 htail).1,
      fun i _ hi => ?_, fun i hi => absurd hi (Nat.not_lt_zero i), ⟨internal, rfl, hlinks⟩, hwdh,
      List.prefix_refl _, fun a ha => ?_⟩
    · rw [World.next, h.tds]
      exact (pointer_tdAddress halign16 (nextTd_of_inMemory hmem (by omega) hi)).2
    · rw [marked_transferWatch] at ha
      exact absurd ha (Set.notMem_empty a)

/-- **Done-queue reaping.**  In every run of a transfer, with any number of data descriptors, any results and any
interleaving of what the controller and the driver do: if `restore_control_schedule` returns true, and no
frame began between the read of the frame number and the store that disables the list, then none of the
descriptors of the transfer is in a queue if and only if, when `wait_for_transfer_reap` looked at the condition
codes for the last time, the latest descriptor in the queues was not a data descriptor behind the first. -/
theorem done_queue_reaped (hr : rejects packet maxpacketsize length = false)
    (hbelow : alloc.Below4GiB (transferSize (packetCount length maxpacketsize) length))
    (hsize : transferSize (packetCount length maxpacketsize) length ≤ 4096 * alloc.sizeInPages)
    (h : Installed alloc packet maxpacketsize length address lowSpeed former w)
    (hc : Nat → List HcAction) (valid : BitVec 32 → Bool) (oldCle : Bool) :
    let n := packetCount length maxpacketsize
    let t := transferTds alloc n length
    let waited := (waitForDescriptor hc valid t (transferWatch alloc n) w).2
    let stopped := stopControlSchedule hc waited.2
    let reaped := waitForTransferReap hc valid t waited.1 stopped.2
    let restored := restoreControlSchedule hc valid t waited.1 oldCle waited.2
    HcAction.frame ∉ hc (waited.2.clock + 2) → restored.1 = true →
      ((∀ a ∈ transferDescriptors alloc n, ¬ InDoneQueue restored.2 a) ↔
        ∀ j, 0 < j → j < n →
          newest reaped.2.2 ≠ some (alloc.physicalOf ((transferLayout alloc n).dataTd + sizeofTd * j))) := by
  intro n t waited stopped reaped restored hquiet hrestored
  obtain ⟨before, hF, h0⟩ := tracked_of_installed hr hbelow hsize h
  obtain ⟨h1, hcle⟩ := waitRounds_spec hc valid (m := 100) (t := t) h0 hF
  obtain ⟨hstopped, hreaped, heq⟩ := restoreControlSchedule_eq_true hrestored
  obtain ⟨⟨hW, queue, handed, k, h2⟩, hidle⟩ := stopControlSchedule_spec h1 hF (hcle.trans h.cle) hquiet hstopped
  obtain ⟨queue3, handed3, h3, hidle3, hwatched⟩ := reapRounds_spec hc valid hF
    looks_transferTds hW h2 hidle hreaped
  obtain ⟨handed4, h4⟩ := restore_spec hc hF h3 hidle3 oldCle
  have hleft : ∀ a, InDoneQueue restored.2 a ↔ a ∈ queue3 := fun a => by
    rw [show restored.2 = _ from heq]
    exact inDoneQueue_iff h4
  have hnewest : newest reaped.2.2 = queue3.head? := newest_eq h3
  simp only [mem_transferDescriptors, hleft, hnewest, physicalOf_dataTd, forall_exists_index, and_imp]
  rw [← h3.none_left_iff hF hwatched]
  exact ⟨fun hnone i hi => hnone _ i hi rfl, fun hnone a i hi heq => heq ▸ hnone i hi⟩

end

/-! ## A request with three data descriptors -/

/-- A page. -/
def requestBlock : DmaRet := { sizeInPages := 1, virtualAddress := 0x7000, physicalAddress := 0x100000 }

/-- A request for 24 bytes of a configuration descriptor. -/
def configurationRequest : UsbSetupPacket := ⟨0x80, 6, 0x200, 0, 24⟩

/-- The control list is started, and the queues are empty. -/
def startedRequest : World :=
  let bytes := writeTransfer requestBlock configurationRequest 8 24 1 false fun _ => 0
  { tds := tdAt bytes
    headp := load32 bytes 0x100008
    tailp := load32 bytes 0x100004
    doneHead := 0
    hccaDoneHead := 0
    wdh := false
    cle := true
    running := false
    frameNumber := 0
    scheduled := true
    clock := 0 }

theorem installed_startedRequest :
    Installed requestBlock configurationRequest 8 24 1 false (fun _ => 0) startedRequest where
  tds := rfl
  headp := rfl
  tailp := rfl
  scheduled := rfl
  cle := rfl
  queues := ⟨[], [], pointer_zero, rfl, List.nodup_nil, fun _ h => absurd h List.not_mem_nil⟩

/-- The SETUP and the first data descriptor are retired and handed over.  The second data descriptor stalls
when the driver has taken them. -/
def stalls : Nat → List HcAction
  | 0 => [.frame, .retire 0 0 false, .retire 0 0 true, .publish false]
  | 7 => [.retire 4 0x100078 false]
  | 11 => [.frame]
  | _ => []

/-- The controller retires all descriptors and hands them over. -/
def completes : Nat → List HcAction
  | 0 => [.frame, .retire 0 0 false, .retire 0 0 true, .retire 0 0 false, .retire 0 0 true, .retire 0 0 false,
      .publish false]
  | 18 => [.frame]
  | _ => []

/-- `wait_for_descriptor` on the request. -/
def requestWaited (hc : Nat → List HcAction) : Watch × World :=
  (waitForDescriptor hc (fun _ => true) (transferTds requestBlock (packetCount 24 8) 24)
    (transferWatch requestBlock (packetCount 24 8)) startedRequest).2

/-- `restore_control_schedule` after it. -/
def requestRestored (hc : Nat → List HcAction) : Bool × World :=
  restoreControlSchedule hc (fun _ => true) (transferTds requestBlock (packetCount 24 8) 24)
    (requestWaited hc).1 false (requestWaited hc).2

/-- `restore_control_schedule` returns true, and the second data descriptor is in the queue of the controller. -/
theorem stalled_descriptor_left :
    HcAction.frame ∉ stalls ((requestWaited stalls).2.clock + 2) ∧ (requestRestored stalls).1 = true ∧
    0x100030 ∈ transferDescriptors requestBlock (packetCount 24 8) ∧
    InDoneQueue (requestRestored stalls).2 0x100030 := by
  refine ⟨by decide +kernel, by decide +kernel, by decide, .inl ⟨[], ?_⟩⟩
  have hhead : pointer (requestRestored stalls).2.doneHead = some 0x100030 := by decide +kernel
  exact hhead

theorem done_queue_reaped_complete : ¬ ∃ a ∈ transferDescriptors requestBlock (packetCount 24 8),
    InDoneQueue (requestRestored completes).2 a := by
  rintro ⟨a, ha, hin⟩
  have h := @done_queue_reaped requestBlock configurationRequest 8 24 1 false (fun _ => 0) startedRequest
    (by decide) ⟨by decide, by decide⟩ (by decide) installed_startedRequest completes (fun _ => true) false
  unfold requestRestored requestWaited at hin
  refine (h ?_ ?_).mpr (fun j _ _ => ?_) a ha hin
  · decide +kernel
  · decide +kernel
  · have hnone : newest (waitForTransferReap completes (fun _ => true)
        (transferTds requestBlock (packetCount 24 8) 24) (requestWaited completes).1
        (stopControlSchedule completes (requestWaited completes).2).2).2.2 = none := by
      decide +kernel
    unfold requestWaited at hnone
    exact fun heq => Option.some_ne_none _ (heq.symm.trans hnone)

end Dem64.Ohci.DoneQueue
