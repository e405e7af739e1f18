import Dem64.Usb.Configure
import Mathlib.Data.List.Perm.Basic
import Mathlib.Data.List.Nodup

/-!
# `configure_endpoints` is atomic

Between two endpoints everything is as the endpoints so far say (`Added`): their DCIs are distinct, the Add flags
are theirs, and each has a ring.  So at an exit that fails the buffers that are left are the ones `discard_pending`
frees, and at the end the slot gets exactly these rings.
-/

set_option autoImplicit false

namespace Dem64

namespace Xhci

open Usb

section

variable {dma : DmaOracle} {c : Controller} {slot : DeviceSlot} {e : UsbEndpoint} {s : Pending}
  {done : List UsbEndpoint} {log : DmaLog} {l : List Nat} {dci : Nat}

/-! ## Words and bits -/

theorem Controller.words_cases (c : Controller) : c.words = 8 ∨ c.words = 16 := by
  rw [Controller.words]
  split
  · exact .inr rfl
  · exact .inl rfl

theorem storeWords_eq {words w : Nat} {l : List (BitVec 32)} {input : Nat → BitVec 32}
    (h : w + l.length ≤ 33 * words) : storeWords words w l input =
      some fun x => if w ≤ x ∧ x < w + l.length then l.getD (x - w) 0 else input x := by
  induction l generalizing w input with
  | nil =>
    rw [storeWords]
    congr 1
    funext x
    rw [if_neg (by simp)]
  | cons v l ih =>
    rw [List.length_cons] at h
    rw [storeWords, if_pos (by omega), ih (by omega)]
    congr 1
    funext x
    rw [List.length_cons]
    rcases Nat.lt_trichotomy x w with hlt | rfl | hgt
    · rw [if_neg (by omega), if_neg (by omega), Function.update_of_ne (by omega)]
    · rw [if_neg (by omega), if_pos (by omega), Function.update_self, Nat.sub_self]
      rfl
    · rw [show x - w = x - (w + 1) + 1 by omega, List.getD_cons_succ]
      by_cases hin : x < w + (l.length + 1)
      · rw [if_pos (by omega), if_pos (by omega)]
      · rw [if_neg (by omega), if_neg (by omega), Function.update_of_ne (by omega)]

/-- An endpoint context and an Add flag are written: other contexts stay as they are. -/
theorem storeContext (hrange : 2 ≤ dci ∧ dci < 32) (c : Controller) {l : List (BitVec 32)} (hl : l.length = 5)
    (input : Nat → BitVec 32) : ∃ input', ((storeWords c.words ((dci + 1) * c.words) l input).bind fun i =>
      storeWords c.words 1 [i 1 ||| (1#32 <<< dci)] i) = some input' ∧ input' 1 = input 1 ||| (1#32 <<< dci) ∧
      (∀ k, k < 5 → input' ((dci + 1) * c.words + k) = l.getD k 0) ∧
      ∀ dci', 2 ≤ dci' → dci' ≠ dci → ∀ k, k < 5 →
        input' ((dci' + 1) * c.words + k) = input ((dci' + 1) * c.words + k) := by
  have hplace : (dci + 1) * c.words + 5 ≤ 33 * c.words ∧ 1 + 1 ≤ 33 * c.words ∧ 1 < (dci + 1) * c.words ∧
      ∀ dci', 2 ≤ dci' → 1 < (dci' + 1) * c.words ∧ (dci' ≠ dci →
        (dci' + 1) * c.words + 5 ≤ (dci + 1) * c.words ∨ (dci + 1) * c.words + 5 ≤ (dci' + 1) * c.words) := by
    rcases c.words_cases with hw | hw
    · rw [hw]
      refine ⟨by omega, by omega, by omega, fun dci' _ => ⟨by omega, by omega⟩⟩
    · rw [hw]
      refine ⟨by omega, by omega, by omega, fun dci' _ => ⟨by omega, by omega⟩⟩
  obtain ⟨h1, h2, h3, h4⟩ := hplace
  rw [storeWords_eq (by rw [hl]; exact h1), Option.bind_some, storeWords_eq h2]
  refine ⟨_, rfl, ?_, fun k hk => ?_, fun dci' hdci' hne k hk => ?_⟩
  · simp only [List.length_singleton]
    rw [if_pos (by omega), if_neg (by omega)]
    rfl
  · simp only [List.length_singleton]
    rw [if_neg (by omega), if_pos (by omega), Nat.add_sub_cancel_left]
  · obtain ⟨h5, h6⟩ := h4 dci' hdci'
    have := h6 hne
    simp only [List.length_singleton]
    rw [if_neg (by omega), if_neg (by omega)]

theorem getLsbD_flag (h : dci < 32) (b : Nat) : (1#32 <<< dci).getLsbD b = decide (b = dci) := by
  rw [← BitVec.twoPow_eq, BitVec.getLsbD_twoPow]
  simp [h, eq_comm]

theorem and_flag_eq_zero {x : BitVec 32} (h : dci < 32) :
    x &&& (1#32 <<< dci) = 0 ↔ x.getLsbD dci = false := by
  constructor
  · intro h0
    have hbit := congrArg (fun y => y.getLsbD dci) h0
    simpa [getLsbD_flag h] using hbit
  · intro hbit
    apply BitVec.eq_of_getLsbD_eq
    intro i hi
    rw [BitVec.getLsbD_and, getLsbD_flag h]
    by_cases hid : i = dci
    · simp [hid, hbit]
    · simp [hid]

/-- What Context Entries is set to. -/
theorem entries_toNat {n : Nat} {x : BitVec 32} (h : n < 32) :
    (((x &&& ~~~((0x1f : BitVec 32) <<< 27)) ||| (BitVec.ofNat 32 n <<< 27)) >>> 27).toNat = n := by
  have hold : (~~~((0x1f : BitVec 32) <<< 27)) >>> 27 = 0#32 := by decide
  rw [BitVec.ushiftRight_or_distrib, BitVec.ushiftRight_and_distrib, hold]
  rw [BitVec.and_zero, BitVec.zero_or, BitVec.toNat_ushiftRight, BitVec.toNat_shiftLeft, BitVec.toNat_ofNat,
    Nat.mod_eq_of_lt (show n < 2 ^ 32 by omega), Nat.shiftLeft_eq, Nat.mod_eq_of_lt (by omega), Nat.shiftRight_eq_div_pow]
  exact Nat.mul_div_cancel n (by decide)

/-- The DCI of a supported endpoint. -/
theorem dciOf_range (h : unsupported e = false) : 2 ≤ dciOf e ∧ dciOf e < 32 := by
  simp only [unsupported, Bool.or_eq_false_iff] at h
  have hne : e.address &&& 0x0f ≠ 0 := by simpa using h.1.1.1.1
  have hpos : (e.address &&& 0x0f).toNat ≠ 0 := fun h0 => hne (BitVec.eq_of_toNat_eq h0)
  have hlt : (e.address &&& 0x0f).toNat < 16 := by
    rw [BitVec.toNat_and]
    exact Nat.lt_of_le_of_lt Nat.and_le_right (by decide)
  have hbool := Bool.toNat_le (isIn e || e.transferType == 0)
  rw [dciOf]
  omega

/-! ## Freeing -/

theorem allocated_foldl_free : (l.foldl DmaLog.free log).allocated = log.allocated := by
  induction l generalizing log with
  | nil => rfl
  | cons va l ih => rw [List.foldl_cons, ih, DmaLog.allocated_free]

theorem freed_foldl_free : (l.foldl DmaLog.free log).freed = log.freed ++ l := by
  induction l generalizing log with
  | nil => exact (List.append_nil _).symm
  | cons va l ih => rw [List.foldl_cons, ih, DmaLog.freed_free, List.append_assoc, List.singleton_append]

/-- What is allocated and not freed is the input context and the rings. -/
def Pending.Accounted (s : Pending) : Prop :=
  s.log.allocated.Perm (s.log.freed ++ s.inputContext.virtualAddress :: s.held)

/-- Then `discard_pending` frees all of it. -/
theorem Pending.Accounted.discard (h : s.Accounted) : s.discard.freed.Perm s.discard.allocated := by
  rw [Pending.discard, DmaLog.freed_free, DmaLog.allocated_free, freed_foldl_free, allocated_foldl_free,
    List.append_assoc]
  exact (List.perm_append_comm.append_left s.log.freed).trans h.symm

/-! ## One endpoint -/

/-- Some endpoints were added. -/
structure Added (c : Controller) (slot : DeviceSlot) (done : List UsbEndpoint) (s : Pending) : Prop where
  /-- Their DCIs are new. -/
  range : ∀ e ∈ done, 2 ≤ dciOf e ∧ dciOf e < 32 ∧ (slot.endpointRings (dciOf e)).configured = false
  /-- And distinct. -/
  distinct : (done.map dciOf).Nodup
  /-- They have a ring each. -/
  rings : ∀ dci, (s.pendingRings dci).virtualAddress ≠ 0 ↔ dci ∈ done.map dciOf
  /-- The Add flags are theirs and that of the slot. -/
  flags : ∀ b, (s.input 1).getLsbD b = true ↔ b = 0 ∨ b ∈ done.map dciOf
  /-- The highest DCI. -/
  highest : s.highestDci = (done.map dciOf).foldl max 1
  /-- Each has its context. -/
  contexts : ∀ e ∈ done, ∃ interval maxBurst maxEsitPayload, intervalOf slot e = some interval ∧
    burstOf slot e = some (maxBurst, maxEsitPayload) ∧ ∀ k, k < 5 → s.input ((dciOf e + 1) * c.words + k) =
      (epWords e interval maxBurst maxEsitPayload
        (BitVec.ofNat 64 (s.pendingRings (dciOf e)).physicalAddress)).getD k 0
  /-- The buffers. -/
  allocated : s.log.allocated =
    s.inputContext.virtualAddress :: done.map fun e => (s.pendingRings (dciOf e)).virtualAddress
  /-- None was freed. -/
  freed : s.log.freed = []

theorem Added.held (h : Added c slot done s) :
    s.held.Perm (done.map fun e => (s.pendingRings (dciOf e)).virtualAddress) := by
  have hperm : ((List.range' 2 30).filter fun dci => (s.pendingRings dci).virtualAddress ≠ 0).Perm
      (done.map dciOf) := by
    refine (List.perm_ext_iff_of_nodup ((List.nodup_range' 1 Nat.one_pos).filter _) h.distinct).mpr fun dci => ?_
    rw [List.mem_filter, decide_eq_true_eq, h.rings, List.mem_range'_1, and_iff_right_iff_imp]
    intro hmem
    obtain ⟨e, he, rfl⟩ := List.mem_map.mp hmem
    have := h.range e he
    omega
  have := hperm.map fun dci => (s.pendingRings dci).virtualAddress
  rwa [List.map_map] at this

theorem Added.accounted (h : Added c slot done s) : s.Accounted := by
  rw [Pending.Accounted, h.allocated, h.freed, List.nil_append]
  exact h.held.symm.cons _

/-- The next endpoint is added, or the call gives up. -/
theorem addEndpoint_spec (h : Added c slot done s) : ∃ r, addEndpoint dma c slot e s = some r ∧
    (r.1 = true → Added c slot (done ++ [e]) r.2) ∧ (r.1 = false → r.2.Accounted) := by
  have hgive : ∃ r : Bool × Pending, some (false, s) = some r ∧ (r.1 = true → Added c slot (done ++ [e]) r.2) ∧
      (r.1 = false → r.2.Accounted) :=
    ⟨(false, s), rfl, fun hr => (Bool.false_ne_true hr).elim, fun _ => h.accounted⟩
  rw [addEndpoint]
  by_cases huns : unsupported e = true
  · rw [if_pos huns]
    exact hgive
  · have hrange := dciOf_range (Bool.eq_false_iff.mpr huns)
    rw [if_neg huns]
    simp only [if_neg (show ¬ 32 ≤ dciOf e by omega)]
    by_cases hdup : s.input 1 &&& (1#32 <<< dciOf e) ≠ 0 ∨ (slot.endpointRings (dciOf e)).configured = true
    · rw [if_pos hdup]
      exact hgive
    · rw [if_neg hdup]
      rw [not_or, not_not, and_flag_eq_zero hrange.2, Bool.not_eq_true] at hdup
      obtain ⟨hflag, hconf⟩ := hdup
      have hnew : dciOf e ∉ done.map dciOf := fun hmem => by
        rw [(h.flags _).mpr (.inr hmem)] at hflag
        cases hflag
      cases hint : intervalOf slot e with
      | none => exact hgive
      | some interval =>
        cases hburst : burstOf slot e with
        | none => exact hgive
        | some burst =>
          obtain ⟨maxBurst, maxEsitPayload⟩ := burst
          simp only
          rcases xhciDmaAlloc_cases dma 4096 c.addr64 s.log with
            ⟨ring, log, hcall, hva, halloc, hfreed⟩ | ⟨ring, log, hcall, hva, l, halloc, hfreed⟩
          · -- the ring is there
            obtain ⟨input, hstore, hflags, hwords, hothers⟩ := storeContext hrange c
              (l := epWords e interval maxBurst maxEsitPayload (BitVec.ofNat 64 ring.physicalAddress)) rfl s.input
            obtain ⟨input₁, hinput₁, hinput⟩ := Option.bind_eq_some_iff.mp hstore
            have hother : ∀ e' ∈ done, dciOf e' ≠ dciOf e := fun e' he' heq =>
              hnew (by rw [← heq]; exact List.mem_map_of_mem he')
            have hkept : ∀ e' ∈ done, Function.update s.pendingRings (dciOf e) ring (dciOf e') =
                s.pendingRings (dciOf e') := fun e' he' => Function.update_of_ne (hother e' he') _ _
            have hbuffers : (done.map fun e' =>
                (Function.update s.pendingRings (dciOf e) ring (dciOf e')).virtualAddress) =
                done.map fun e' => (s.pendingRings (dciOf e')).virtualAddress :=
              List.map_congr_left fun e' he' => by rw [hkept e' he']
            simp only [hcall, Bool.true_eq_false, if_false, hinput₁, Option.bind_eq_bind, Option.bind_some, hinput]
            refine ⟨_, rfl, fun _ => ?_, fun hr => (Bool.false_ne_true hr.symm).elim⟩
            constructor
            · intro e' he'
              rcases List.mem_append.mp he' with he' | he'
              · exact h.range e' he'
              · rw [List.mem_singleton.mp he']
                exact ⟨hrange.1, hrange.2, hconf⟩
            · rw [List.map_append, List.nodup_append_comm]
              exact List.nodup_cons.mpr ⟨hnew, h.distinct⟩
            · intro d
              rw [List.map_append, List.mem_append, List.map_singleton, List.mem_singleton, ← h.rings]
              by_cases hd : d = dciOf e
              · rw [hd]
                simp only [Function.update_self]
                exact iff_of_true hva (.inr trivial)
              · simp only [Function.update_of_ne hd]
                exact (or_iff_left hd).symm
            · intro b
              simp only [hflags, BitVec.getLsbD_or, getLsbD_flag hrange.2, Bool.or_eq_true, h.flags, decide_eq_true_eq,
                List.map_append, List.mem_append, List.map_singleton, List.mem_singleton, or_assoc]
            · simp only [List.map_append, List.foldl_append, List.map_singleton, List.foldl_cons, List.foldl_nil,
                ← h.highest]
              split
              · exact (Nat.max_eq_right (by omega)).symm
              · exact (Nat.max_eq_left (by omega)).symm
            · intro e' he'
              rcases List.mem_append.mp he' with he' | he'
              · obtain ⟨i, b, p, hi, hb, hw⟩ := h.contexts e' he'
                refine ⟨i, b, p, hi, hb, fun k hk => ?_⟩
                simp only [hkept e' he']
                rw [hothers _ (h.range e' he').1 (hother e' he') k hk, hw k hk]
              · rw [List.mem_singleton.mp he']
                refine ⟨interval, maxBurst, maxEsitPayload, hint, hburst, fun k hk => ?_⟩
                simp only [Function.update_self]
                exact hwords k hk
            · simp only [halloc, h.allocated, List.map_append, List.map_singleton, Function.update_self, hbuffers,
                List.cons_append]
            · exact hfreed.trans h.freed
          · -- there is no ring
            have hheld : ({ s with log := log, pendingRings := Function.update s.pendingRings (dciOf e) ring } :
                Pending).held = s.held := by
              have hsame : ∀ d, (Function.update s.pendingRings (dciOf e) ring d).virtualAddress =
                  (s.pendingRings d).virtualAddress := fun d => by
                by_cases hd : d = dciOf e
                · rw [hd, Function.update_self, hva]
                  by_contra hne
                  exact hnew ((h.rings _).mp (Ne.symm hne))
                · rw [Function.update_of_ne hd]
              simp only [Pending.held, hsame]
            simp only [hcall]
            refine ⟨_, rfl, fun hr => (Bool.false_ne_true hr).elim, fun _ => ?_⟩
            have haccounted := h.accounted
            rw [Pending.Accounted] at haccounted ⊢
            rw [hheld]
            simp only [halloc, hfreed, List.append_assoc]
            refine (haccounted.append_right l).trans ?_
            rw [List.append_assoc]
            exact List.perm_append_comm.append_left s.log.freed

/-! ## The loops -/

theorem addEndpoints_spec (l : List UsbEndpoint) (h : Added c slot done s) :
    ∃ r, addEndpoints dma c slot l s = some r ∧ (r.1 = true → Added c slot (done ++ l) r.2) ∧
      (r.1 = false → r.2.Accounted) := by
  induction l generalizing done s with
  | nil =>
    rw [List.append_nil]
    exact ⟨(true, s), rfl, fun _ => h, fun hr => (Bool.false_ne_true hr.symm).elim⟩
  | cons e l ih =>
    obtain ⟨⟨ok, s₁⟩, hcall, hgood, hbad⟩ := @addEndpoint_spec dma c slot e s done h
    rw [addEndpoints, hcall]
    simp only [Option.bind_eq_bind, Option.bind_some]
    cases ok with
    | false => exact ⟨(false, s₁), rfl, fun hr => (Bool.false_ne_true hr).elim, fun _ => hbad rfl⟩
    | true =>
      obtain ⟨r, hr, h'⟩ := ih (hgood rfl)
      rw [List.append_assoc, List.singleton_append] at h'
      exact ⟨r, hr, h'⟩

/-- The endpoints of alternate setting 0. -/
def wanted (interfaces : List UsbInterface) : List UsbEndpoint :=
  (interfaces.filter fun i => i.descriptor.bAlternateSetting = 0).flatMap endpointsOf

theorem addInterfaces_spec (dma : DmaOracle) (l : List UsbInterface) (h : Added c slot done s) :
    ∃ r, addInterfaces dma c slot l s = some r ∧ (r.1 = true → Added c slot (done ++ wanted l) r.2) ∧
      (r.1 = false → r.2.Accounted) := by
  induction l generalizing done s with
  | nil =>
    rw [wanted, List.filter_nil, List.flatMap_nil, List.append_nil]
    exact ⟨(true, s), rfl, fun _ => h, fun hr => (Bool.false_ne_true hr.symm).elim⟩
  | cons interface l ih =>
    rw [addInterfaces]
    by_cases halt : interface.descriptor.bAlternateSetting = 0
    · rw [if_neg (not_not.mpr halt), wanted, List.filter_cons_of_pos (by simpa using halt), List.flatMap_cons]
      by_cases hnull : interface.endpointCount ≠ 0 ∧ interface.endpoints = none
      · rw [if_pos hnull]
        exact ⟨(false, s), rfl, fun hr => (Bool.false_ne_true hr).elim, fun _ => h.accounted⟩
      · obtain ⟨⟨ok, s₁⟩, hcall, hgood, hbad⟩ :=
          @addEndpoints_spec dma c slot s done (endpointsOf interface) h
        rw [if_neg hnull, hcall]
        simp only [Option.bind_eq_bind, Option.bind_some]
        cases ok with
        | false => exact ⟨(false, s₁), rfl, fun hr => (Bool.false_ne_true hr).elim, fun _ => hbad rfl⟩
        | true =>
          obtain ⟨r, hr, h'⟩ := ih (hgood rfl)
          rw [List.append_assoc] at h'
          exact ⟨r, hr, h'⟩
    · rw [if_pos halt, wanted, List.filter_cons_of_neg (by simpa using halt)]
      exact ih h

/-! ## The end of a call -/

theorem commitRing_apply (rings : Nat → EndpointRing) (d d' : Nat) : commitRing c s rings d' d =
    if d = d' ∧ (s.pendingRings d).virtualAddress ≠ 0 then s.newRing c d else rings d := by
  rw [commitRing]
  by_cases hva : (s.pendingRings d').virtualAddress ≠ 0
  · rw [if_pos hva]
    by_cases hd : d = d'
    · rw [hd, Function.update_self, if_pos ⟨rfl, hva⟩]
    · rw [Function.update_of_ne hd, if_neg fun h => hd h.1]
  · rw [if_neg hva, if_neg]
    rintro ⟨rfl, h⟩
    exact hva h

theorem foldl_commitRing (l : List Nat) (rings : Nat → EndpointRing) (d : Nat) :
    l.foldl (commitRing c s) rings d =
      if d ∈ l ∧ (s.pendingRings d).virtualAddress ≠ 0 then s.newRing c d else rings d := by
  induction l generalizing rings with
  | nil => simp
  | cons d' l ih =>
    rw [List.foldl_cons, ih, commitRing_apply]
    simp only [List.mem_cons]
    split_ifs <;> tauto

theorem le_foldl_max (l : List Nat) (m : Nat) : m ≤ l.foldl max m ∧ ∀ d ∈ l, d ≤ l.foldl max m := by
  induction l generalizing m with
  | nil => exact ⟨le_refl m, by simp⟩
  | cons d l ih =>
    obtain ⟨h1, h2⟩ := ih (max m d)
    exact ⟨(Nat.le_max_left m d).trans h1, List.forall_mem_cons.mpr ⟨(Nat.le_max_right m d).trans h1, h2⟩⟩

theorem foldl_max_mem (l : List Nat) (m : Nat) : l.foldl max m = m ∨ l.foldl max m ∈ l := by
  induction l generalizing m with
  | nil => exact .inl rfl
  | cons d l ih =>
    rw [List.foldl_cons]
    rcases ih (max m d) with h | h
    · rw [h]
      rcases Nat.le_total m d with hle | hle
      · rw [Nat.max_eq_right hle]
        exact .inr List.mem_cons_self
      · exact .inl (Nat.max_eq_left hle)
    · exact .inr (List.mem_cons_of_mem d h)

/-- What a call leaves behind that returns 0. -/
structure ExactlyConfigured (c : Controller) (slot : DeviceSlot) (eps : List UsbEndpoint) (r : Configured) : Prop where
  /-- The DCIs of the endpoints were not configured. -/
  range : ∀ e ∈ eps, 2 ≤ dciOf e ∧ dciOf e < 32 ∧ (slot.endpointRings (dciOf e)).configured = false
  /-- They are distinct. -/
  distinct : (eps.map dciOf).Nodup
  /-- Now they are configured. -/
  configured : ∀ e ∈ eps, (r.endpointRings (dciOf e)).configured = true
  /-- No other is touched. -/
  others : ∀ dci, dci ∉ eps.map dciOf → r.endpointRings dci = slot.endpointRings dci
  /-- Each has its own ring: the buffers are the input context and the rings, and the input context is freed. -/
  buffers : ∃ va, r.log.allocated = va :: eps.map (fun e => (r.endpointRings (dciOf e)).dma.virtualAddress) ∧
    r.log.freed = [va]
  /-- The Add flags. -/
  flags : ∀ b, (r.input 1).getLsbD b = true ↔ b = 0 ∨ b ∈ eps.map dciOf
  /-- Context Entries. -/
  entries : eps ≠ [] → ∃ highest ∈ eps.map dciOf, (∀ dci ∈ eps.map dciOf, dci ≤ highest) ∧
    (r.input c.words >>> 27).toNat = highest
  /-- The contexts, each of which has what its endpoint says. -/
  contexts : ∀ e ∈ eps, ∃ interval maxBurst maxEsitPayload, intervalOf slot e = some interval ∧
    burstOf slot e = some (maxBurst, maxEsitPayload) ∧ ∀ k, k < 5 → r.input ((dciOf e + 1) * c.words + k) =
      (epWords e interval maxBurst maxEsitPayload
        (BitVec.ofNat 64 (r.endpointRings (dciOf e)).dma.physicalAddress)).getD k 0

theorem Added.highest_cases (h : Added c slot done s) : (s.highestDci = 1 ∧ done = []) ∨
    (done ≠ [] ∧ s.highestDci ≠ 1 ∧ s.highestDci < 32 ∧ s.highestDci ∈ done.map dciOf ∧
      ∀ dci ∈ done.map dciOf, dci ≤ s.highestDci) := by
  rw [h.highest]
  cases done with
  | nil => exact .inl ⟨rfl, rfl⟩
  | cons e l =>
    obtain ⟨-, hle⟩ := le_foldl_max ((e :: l).map dciOf) 1
    have hone := (h.range e List.mem_cons_self).1.trans (hle _ (List.mem_map_of_mem List.mem_cons_self))
    have hmem := (foldl_max_mem ((e :: l).map dciOf) 1).resolve_left (by omega)
    obtain ⟨e', he', heq⟩ := List.mem_map.mp hmem
    have hlt := (h.range e' he').2.1
    exact .inr ⟨by simp, by omega, by omega, hmem, hle⟩

theorem submitConfigure_spec (code : BitVec 8) (h : Added c slot done s) :
    ∃ r, submitConfigure c slot (some code) s = some r ∧
      ((r.ret = 1 ∧ r.log.freed.Perm r.log.allocated ∧ r.endpointRings = slot.endpointRings) ∨
        (r.ret = 0 ∧ ExactlyConfigured c slot done r)) := by
  rw [submitConfigure]
  rcases h.highest_cases with ⟨hone, rfl⟩ | ⟨hne, hone, hlt, hmem, hle⟩
  · -- there is no endpoint
    rw [if_pos hone]
    have hheld : s.held = [] := List.perm_nil.mp h.held
    refine ⟨_, rfl, .inr ⟨rfl, ⟨by simp, List.nodup_nil, by simp, fun _ _ => rfl,
      ⟨s.inputContext.virtualAddress, ?_, ?_⟩, h.flags, fun hno => absurd rfl hno, by simp⟩⟩⟩
    · simp only [Pending.discard, hheld, DmaLog.allocated_free, List.foldl_nil, h.allocated, List.map_nil]
    · simp only [Pending.discard, hheld, DmaLog.freed_free, List.foldl_nil, h.freed, List.nil_append]
  · rw [if_neg hone]
    have hplace : c.words + 1 ≤ 33 * c.words ∧ 1 < c.words ∧ ∀ d, 2 ≤ d → ∀ k, (d + 1) * c.words + k ≠ c.words := by
      rcases c.words_cases with hw | hw
      · rw [hw]
        exact ⟨by omega, by omega, fun d _ k => by omega⟩
      · rw [hw]
        exact ⟨by omega, by omega, fun d _ k => by omega⟩
    obtain ⟨hfits, hone', hapart⟩ := hplace
    obtain ⟨input, hstore, hentries, hkept⟩ : ∃ input, storeWords c.words c.words
        [(s.input c.words &&& ~~~((0x1f : BitVec 32) <<< 27)) ||| (BitVec.ofNat 32 s.highestDci <<< 27)] s.input =
          some input ∧
        input c.words = (s.input c.words &&& ~~~((0x1f : BitVec 32) <<< 27)) |||
          (BitVec.ofNat 32 s.highestDci <<< 27) ∧ ∀ x, x ≠ c.words → input x = s.input x := by
      refine ⟨_, storeWords_eq hfits, ?_, fun x hx => ?_⟩
      · simp
      · rw [if_neg (by simp only [List.length_singleton]; omega)]
    simp only [hstore, Option.bind_eq_bind, Option.bind_some]
    by_cases hcode : code = 1
    · -- the rings become those of the slot
      rw [if_neg (not_not.mpr hcode)]
      have hring : ∀ e ∈ done, (List.range' 2 30).foldl (commitRing c { s with input := input }) slot.endpointRings
          (dciOf e) = Pending.newRing c { s with input := input } (dciOf e) := fun e he => by
        obtain ⟨h1, h2, -⟩ := h.range e he
        rw [foldl_commitRing, if_pos]
        exact ⟨List.mem_range'_1.mpr (by omega), (h.rings _).mpr (List.mem_map_of_mem he)⟩
      refine ⟨_, rfl, .inr ⟨rfl, ⟨h.range, h.distinct, fun e he => ?_, fun d hd => ?_,
        ⟨s.inputContext.virtualAddress, ?_, ?_⟩, fun b => ?_, fun _ => ⟨s.highestDci, hmem, hle, ?_⟩, fun e he => ?_⟩⟩⟩
      · simp only [hring e he]
        rfl
      · simp only [foldl_commitRing]
        rw [if_neg fun hno => hd ((h.rings d).mp hno.2)]
      · rw [DmaLog.allocated_free, h.allocated]
        congr 1
        exact List.map_congr_left fun e he => by simp only [hring e he]; rfl
      · rw [DmaLog.freed_free, h.freed, List.nil_append]
      · simp only [hkept 1 hone'.ne, h.flags]
      · simp only [hentries]
        exact entries_toNat hlt
      · obtain ⟨i, b, p, hi, hb, hw⟩ := h.contexts e he
        refine ⟨i, b, p, hi, hb, fun k hk => ?_⟩
        simp only [hring e he]
        rw [hkept _ (hapart _ (h.range e he).1 k), hw k hk]
        rfl
    · rw [if_pos hcode]
      exact ⟨_, rfl, .inl ⟨rfl, Pending.Accounted.discard h.accounted, rfl⟩⟩

/-- Before the loops. -/
theorem added_nil (c : Controller) (slot : DeviceSlot) (inputContext : DmaRet) (outputContext : Nat → BitVec 32)
    (links : Nat → XhciTrb)
    (halloc : log.allocated = [inputContext.virtualAddress]) (hfreed : log.freed = []) :
    Added c slot [] ⟨log, inputContext, initialInput c outputContext, fun _ => {}, links, 1⟩ := by
  refine ⟨by simp, List.nodup_nil, by simp, fun b => ?_, rfl, by simp, halloc, hfreed⟩
  have hone : initialInput c outputContext 1 = 1#32 <<< 0 := rfl
  simp only [hone, getLsbD_flag (Nat.zero_lt_succ 31), decide_eq_true_eq, List.map_nil, List.not_mem_nil, or_false]

theorem configureSlot_spec (dma : DmaOracle) (c : Controller) (slot : DeviceSlot) (code : BitVec 8)
    (interfaces : List UsbInterface) : ∃ r, configureSlot dma c slot (some code) interfaces = some r ∧
      ((r.ret = 1 ∧ r.log.freed.Perm r.log.allocated ∧ r.endpointRings = slot.endpointRings) ∨
        (r.ret = 0 ∧ ExactlyConfigured c slot (wanted interfaces) r)) := by
  rw [configureSlot]
  rcases xhciDmaAlloc_cases dma (4 * c.words * 33) c.addr64 {} with
    ⟨inputContext, log, hcall, hva, halloc, hfreed⟩ | ⟨inputContext, log, hcall, hva, l, halloc, hfreed⟩
  · simp only [hcall, Bool.true_eq_false, if_false]
    obtain ⟨⟨ok, s⟩, hloops, hgood, hbad⟩ := addInterfaces_spec dma interfaces
      (added_nil c slot inputContext (c.outputContext slot.outputContextVirtual)
        (fun _ => ⟨0, 0, 0, 0⟩) halloc hfreed)
    rw [hloops, Option.bind_eq_bind, Option.bind_some]
    cases ok with
    | false => exact ⟨_, rfl, .inl ⟨rfl, (hbad rfl).discard, rfl⟩⟩
    | true => exact submitConfigure_spec code (hgood rfl)
  · simp only [hcall, if_true]
    refine ⟨_, rfl, .inl ⟨rfl, ?_, rfl⟩⟩
    rw [halloc, hfreed]
    exact List.Perm.refl _

/-- **`configure_endpoints` is atomic.**  Whatever the device says, whatever the slot has and however allocations and
the command come out, the call stays inside the input context and the tables, and either fails with all its buffers
freed and the rings as they were, or configures exactly the endpoints of alternate setting 0. -/
theorem configureEndpoints_atomic (dma : DmaOracle) (c : Controller) (code : BitVec 8) (device : UsbDevice)
    (bConfigurationValue : BitVec 16) (maxpacketsize : BitVec 32) (address : BitVec 8) :
    ∃ ret r, configureEndpoints dma c (some code) device bConfigurationValue maxpacketsize address = some (ret, r) ∧
      ((ret = 1 ∧ ∀ slots r', c.slots = some slots → r = some r' → r'.log.freed.Perm r'.log.allocated ∧
          r'.endpointRings = (slots (device.portNumber.toNat - 1)).endpointRings) ∨
        (ret = 0 ∧ ∃ slots interfaces r', c.slots = some slots ∧ device.interfaces = some interfaces ∧ r = some r' ∧
          ExactlyConfigured c (slots (device.portNumber.toNat - 1)) (wanted interfaces) r')) := by
  rw [configureEndpoints]
  split
  · rename_i slots dcbaa interfaces hslots hdcbaa hinterfaces
    dsimp only
    split
    · exact ⟨1, none, rfl, .inl ⟨rfl, fun _ _ _ hno => nomatch hno⟩⟩
    · split
      · exact ⟨1, none, rfl, .inl ⟨rfl, fun _ _ _ hno => nomatch hno⟩⟩
      · obtain ⟨r, hcall, hr⟩ := configureSlot_spec dma c (slots (device.portNumber.toNat - 1)) code interfaces
        refine ⟨r.ret, some r, by rw [hcall]; rfl, ?_⟩
        rcases hr with ⟨hret, hfreed, hrings⟩ | ⟨hret, hdone⟩
        · refine .inl ⟨hret, fun slots' r' hslots' hr' => ?_⟩
          cases hslots.symm.trans hslots'
          cases hr'
          exact ⟨hfreed, hrings⟩
        · exact .inr ⟨hret, slots, interfaces, r, hslots, hinterfaces, rfl, hdone⟩
  · exact ⟨1, none, rfl, .inl ⟨rfl, fun _ _ _ hno => nomatch hno⟩⟩

end

end Xhci

end Dem64
