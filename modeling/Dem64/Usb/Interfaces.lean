import Dem64.Lib.Ends
import Dem64.Usb.ConfigTree

/-!
# The interfaces of a configuration tree

The loops of `count_tree` and `fill_interfaces` go from record to record.  What is left of the tree is
`recordsFrom` of the offset, so each loop is an induction on these records; the endpoints of an interface are
the ones of `ownEndpoints`, and a loop over them does not step over an interface record.
-/

set_option autoImplicit false

namespace Dem64

namespace Usb

section

variable {tree : Nat → BitVec 8} {maxLength offset i j n : Nat}

/-! ## Records -/

theorem recordsFrom_of_isRecord (h : IsRecord tree maxLength offset) : recordsFrom tree maxLength offset =
    ⟨offset, (tree offset).toNat, tree (offset + 1)⟩ :: recordsFrom tree maxLength (offset + (tree offset).toNat) := by
  rw [recordsFrom, if_pos h]

theorem recordsFrom_of_not (h : ¬ IsRecord tree maxLength offset) : recordsFrom tree maxLength offset = [] := by
  rw [recordsFrom, if_neg h]

/-- A record has two bytes at least. -/
theorem length_recordsFrom_le (tree : Nat → BitVec 8) (maxLength offset : Nat) :
    2 * (recordsFrom tree maxLength offset).length ≤ maxLength - offset := by
  induction offset using recordsFrom.induct tree maxLength with
  | case1 offset h ih =>
    obtain ⟨h1, h2, h3⟩ := id h
    rw [recordsFrom_of_isRecord h, List.length_cons]
    omega
  | case2 offset h =>
    rw [recordsFrom_of_not h]
    exact Nat.zero_le _

theorem interfaceRecords_fst (l : List TreeRecord) :
    (interfaceRecords l).map Prod.fst = l.filter fun r => r.type = 0x04 := by
  induction l with
  | nil => rfl
  | cons r l ih =>
    rw [interfaceRecords]
    split
    · rename_i h
      rw [List.map_cons, ih, List.filter_cons_of_pos (by simpa using h)]
    · rename_i h
      rw [ih, List.filter_cons_of_neg (by simpa using h)]

theorem length_interfaceRecords (l : List TreeRecord) :
    (interfaceRecords l).length = (l.filter fun r => r.type = 0x04).length := by
  rw [← interfaceRecords_fst, List.length_map]

theorem interfaceRecords_cons_of_ne {r : TreeRecord} {l : List TreeRecord} (h : r.type ≠ 0x04) :
    interfaceRecords (r :: l) = interfaceRecords l := by
  rw [interfaceRecords, if_neg h]

theorem ownEndpoints_interface {r : TreeRecord} {l : List TreeRecord} (h : r.type = 0x04) :
    ownEndpoints (r :: l) = [] := by
  rw [ownEndpoints, List.takeWhile_cons_of_neg (by simpa using h)]
  rfl

theorem ownEndpoints_endpoint {r : TreeRecord} {l : List TreeRecord} (h : r.type = 0x05) :
    ownEndpoints (r :: l) = r :: ownEndpoints l := by
  rw [ownEndpoints, List.takeWhile_cons_of_pos (by simp [h]), List.filter_cons_of_pos (by simpa using h)]
  rfl

theorem ownEndpoints_other {r : TreeRecord} {l : List TreeRecord} (h4 : r.type ≠ 0x04) (h5 : r.type ≠ 0x05) :
    ownEndpoints (r :: l) = ownEndpoints l := by
  rw [ownEndpoints, List.takeWhile_cons_of_pos (by simpa using h4), List.filter_cons_of_neg (by simpa using h5)]
  rfl

/-! ## Reads -/

theorem readTree_eq (h : i < maxLength) : readTree tree maxLength i = some (tree i) := if_pos h

theorem readHeader_eq : readHeader tree maxLength offset =
    some (if IsRecord tree maxLength offset then some ((tree offset).toNat, tree (offset + 1)) else none) := by
  rw [readHeader]
  by_cases hshort : maxLength - offset < 2
  · rw [if_pos hshort, if_neg fun h => absurd h.1 (by omega)]
  · rw [if_neg hshort, readTree_eq (by omega), readTree_eq (by omega)]
    simp only [Option.bind_eq_bind, Option.bind_some]
    by_cases hrec : IsRecord tree maxLength offset
    · obtain ⟨-, h2, h3⟩ := id hrec
      rw [if_pos hrec, if_neg (by omega)]
      rfl
    · rw [if_neg hrec, if_pos]
      · rfl
      · by_contra hno
        exact hrec ⟨by omega, by omega, by omega⟩

theorem readHeader_of_isRecord (h : IsRecord tree maxLength offset) : readHeader tree maxLength offset =
    some (some ((tree offset).toNat, tree (offset + 1))) := by
  rw [readHeader_eq, if_pos h]

theorem readHeader_of_not (h : ¬ IsRecord tree maxLength offset) :
    readHeader tree maxLength offset = some none := by
  rw [readHeader_eq, if_neg h]

theorem readInterface_eq (h : i + 9 ≤ maxLength) : readInterface tree maxLength i = some (interfaceAt tree i) := by
  have hread : ∀ k, k < 9 → readTree tree maxLength (i + k) = some (tree (i + k)) := fun k hk =>
    readTree_eq (by omega)
  simp only [readInterface, readTree_eq (show i < maxLength by omega), hread 1 (by decide), hread 2 (by decide),
    hread 3 (by decide), hread 4 (by decide), hread 5 (by decide), hread 6 (by decide), hread 7 (by decide),
    hread 8 (by decide)]
  rfl

theorem readWord_eq (h : i + 2 ≤ maxLength) : readWord tree maxLength i = some (treeWord tree i) := by
  rw [readWord, readTree_eq (by omega), readTree_eq (by omega)]
  rfl

theorem readEndpoint_eq (h : i + 7 ≤ maxLength) : readEndpoint tree maxLength i = some (endpointAt tree i) := by
  simp only [readEndpoint, readTree_eq (show i < maxLength by omega), readTree_eq (show i + 1 < maxLength by omega),
    readTree_eq (show i + 2 < maxLength by omega), readTree_eq (show i + 3 < maxLength by omega),
    readTree_eq (show i + 6 < maxLength by omega), readWord_eq (show i + 4 + 2 ≤ maxLength by omega)]
  rfl

theorem readSsCompanion_eq (h : i + 6 ≤ maxLength) :
    readSsCompanion tree maxLength i = some (ssCompanionAt tree i) := by
  simp only [readSsCompanion, readTree_eq (show i < maxLength by omega),
    readTree_eq (show i + 1 < maxLength by omega), readTree_eq (show i + 2 < maxLength by omega),
    readTree_eq (show i + 3 < maxLength by omega), readWord_eq (show i + 4 + 2 ≤ maxLength by omega)]
  rfl

/-- The look-ahead, for a place that may be the end of the tree. -/
theorem readCompanion_eq : readCompanion tree maxLength i = some
    (if CompanionAt tree maxLength i then
      if 6 ≤ (tree i).toNat ∧ (tree i).toNat ≤ maxLength - i then .present (ssCompanionAt tree i) else .malformed
    else .absent) := by
  rw [readCompanion]
  by_cases hshort : 2 ≤ maxLength - i
  · rw [if_pos hshort, readTree_eq (show i + 1 < maxLength by omega)]
    simp only [Option.bind_eq_bind, Option.bind_some]
    by_cases htype : tree (i + 1) = 0x30
    · rw [if_pos htype, if_pos (show CompanionAt tree maxLength i from ⟨hshort, htype⟩),
        readTree_eq (show i < maxLength by omega)]
      simp only [Option.bind_some]
      by_cases hlen : 6 ≤ (tree i).toNat ∧ (tree i).toNat ≤ maxLength - i
      · rw [if_pos hlen, if_neg (by omega), readSsCompanion_eq (by omega)]
        rfl
      · rw [if_neg hlen, if_pos (by omega)]
        rfl
    · rw [if_neg htype, if_neg fun h => htype h.2]
      rfl
  · rw [if_neg hshort, if_neg fun h => hshort h.1]

/-! ## Counting -/

theorem countLoop_spec (hmax : maxLength < 2 ^ 16) (case : BitVec 8) (offset count : Nat)
    (hcount : count + (recordsFrom tree maxLength offset).length < 2 ^ 16) :
    Ends (fun n => countLoop tree maxLength case n offset count)
      (count + ((recordsFrom tree maxLength offset).filter fun r => r.type = case).length) := by
  induction offset using recordsFrom.induct tree maxLength generalizing count with
  | case1 offset h ih =>
    obtain ⟨h1, h2, h3⟩ := id h
    rw [recordsFrom_of_isRecord h] at hcount ⊢
    rw [List.length_cons] at hcount
    have hnext : (offset + (tree offset).toNat) % 2 ^ 16 = offset + (tree offset).toNat :=
      Nat.mod_eq_of_lt (by omega)
    have hstep : ∀ n, countLoop tree maxLength case (n + 1) offset count =
        countLoop tree maxLength case n (offset + (tree offset).toNat)
          (if tree (offset + 1) = case then (count + 1) % 2 ^ 16 else count) := fun n => by
      rw [countLoop, if_pos (by omega), readHeader_of_isRecord h]
      simp only [Option.bind_eq_bind, Option.bind_some, hnext]
    rw [Nat.mod_eq_of_lt (show count + 1 < 2 ^ 16 by omega)] at hstep
    by_cases htype : tree (offset + 1) = case
    · rw [List.filter_cons_of_pos (by simpa using htype), List.length_cons, Nat.add_comm _ 1, ← Nat.add_assoc]
      simp only [if_pos htype] at hstep
      exact Ends.step rfl hstep (ih (count + 1) (by omega))
    · rw [List.filter_cons_of_neg (by simpa using htype)]
      simp only [if_neg htype] at hstep
      exact Ends.step rfl hstep (ih count (by omega))
  | case2 offset h =>
    rw [recordsFrom_of_not h, List.filter_nil, List.length_nil, Nat.add_zero]
    refine Ends.step rfl (fun n => ?_) (Ends.const count)
    rw [countLoop, readHeader_of_not h]
    split
    · rfl
    · rfl

/-! ## Writes -/

variable {base interfaces : List UsbInterface} {d : InterfaceDescriptor} {endpoints : List UsbEndpoint}
  {count : BitVec 8} {f : UsbEndpoint → UsbEndpoint}

theorem modifyEndpoint_eq (hi : i < base.length) (hj : j < endpoints.length) :
    modifyEndpoint (base.set i ⟨d, some endpoints, count⟩) i j f =
      some (base.set i ⟨d, some (endpoints.set j (f endpoints[j])), count⟩) := by
  rw [modifyEndpoint, List.getElem?_set_self hi]
  simp only [Option.bind_eq_bind, Option.bind_some, List.getElem?_eq_getElem hj, List.set_set]
  rfl

theorem modifyEndpoint_set {e : UsbEndpoint} (hi : i < base.length) (hj : j < endpoints.length) :
    modifyEndpoint (base.set i ⟨d, some (endpoints.set j e), count⟩) i j f =
      some (base.set i ⟨d, some (endpoints.set j (f e)), count⟩) := by
  rw [modifyEndpoint_eq hi (by rwa [List.length_set]), List.getElem_set_self, List.set_set]

/-- An endpoint record, whose endpoint is still blank. -/
theorem fillEndpoint_spec (hmax : maxLength < 2 ^ 16) (h : IsRecord tree maxLength offset) (hi : i < base.length)
    (hj : j < endpoints.length) (hblank : endpoints[j] = {}) : ∃ r : Bool × List UsbInterface,
    fillEndpoint tree maxLength d i j offset (tree offset).toNat (base.set i ⟨d, some endpoints, count⟩) = some r ∧
      (EndpointOk tree maxLength ⟨offset, (tree offset).toNat, tree (offset + 1)⟩ →
        r = (true, base.set i ⟨d, some (endpoints.set j (endpointOf tree maxLength d
          ⟨offset, (tree offset).toNat, tree (offset + 1)⟩)), count⟩)) ∧
      (¬ EndpointOk tree maxLength ⟨offset, (tree offset).toNat, tree (offset + 1)⟩ → r.1 = false) := by
  obtain ⟨h1, h2, h3⟩ := id h
  have hnext : (offset + (tree offset).toNat) % 2 ^ 16 = offset + (tree offset).toNat :=
    Nat.mod_eq_of_lt (by omega)
  rw [fillEndpoint]
  by_cases hshort : (tree offset).toNat < 7
  · rw [if_pos hshort]
    exact ⟨_, rfl, fun hok => absurd hok.1 (by simp only; omega), fun _ => rfl⟩
  · rw [if_neg hshort, readEndpoint_eq (by omega), hnext]
    simp only [Option.bind_eq_bind, Option.bind_some, modifyEndpoint_eq hi hj, hblank, readCompanion_eq]
    by_cases hcomp : CompanionAt tree maxLength (offset + (tree offset).toNat)
    · simp only [if_pos hcomp]
      by_cases hlen : 6 ≤ (tree (offset + (tree offset).toNat)).toNat ∧
          (tree (offset + (tree offset).toNat)).toNat ≤ maxLength - (offset + (tree offset).toNat)
      · simp only [if_pos hlen, modifyEndpoint_set hi hj, Option.bind_some]
        refine ⟨_, rfl, fun _ => ?_, fun hno => absurd ⟨by simp only; omega, fun _ => hlen⟩ hno⟩
        simp only [endpointOf, if_pos hcomp]
      · simp only [if_neg hlen]
        exact ⟨_, rfl, fun hok => absurd (hok.2 hcomp) hlen, fun _ => rfl⟩
    · simp only [if_neg hcomp, modifyEndpoint_set hi hj, Option.bind_some]
      refine ⟨_, rfl, fun _ => ?_, fun hno => absurd ⟨by simp only; omega, fun hc => absurd hc hcomp⟩ hno⟩
      simp only [endpointOf, if_neg hcomp]

/-! ## The endpoints of an interface -/

/-- The first `need` endpoint records are there and as they should be. -/
def Enough (tree : Nat → BitVec 8) (maxLength need : Nat) (own : List TreeRecord) : Prop :=
  need ≤ own.length ∧ ∀ e ∈ own.take need, EndpointOk tree maxLength e

theorem not_enough_nil {need : Nat} (h : 0 < need) : ¬ Enough tree maxLength need [] := fun hno => by
  have := hno.1
  rw [List.length_nil] at this
  omega

theorem enough_cons {need : Nat} {r : TreeRecord} {own : List TreeRecord} :
    Enough tree maxLength (need + 1) (r :: own) ↔ EndpointOk tree maxLength r ∧ Enough tree maxLength need own := by
  rw [Enough, Enough, List.length_cons, List.take_succ_cons, List.forall_mem_cons, Nat.add_le_add_iff_right]
  exact and_left_comm

/-- The interfaces when some endpoints of number `i` are filled in. -/
def partly (base : List UsbInterface) (i : Nat) (d : InterfaceDescriptor) (done : List UsbEndpoint) :
    List UsbInterface :=
  base.set i ⟨d, some (done ++ List.replicate (d.bNumEndpoints.toNat - done.length) ({} : UsbEndpoint)), d.bNumEndpoints⟩

/-- What the loop over the endpoints makes of the endpoint records that it finds. -/
structure EndpointsFilled (tree : Nat → BitVec 8) (maxLength : Nat) (base : List UsbInterface) (i : Nat)
    (d : InterfaceDescriptor) (done : List UsbEndpoint) (offset : Nat) (r : Option Nat × List UsbInterface) : Prop where
  /-- If there are enough of them, they are filled in, and the loop ends in front of the next interface. -/
  good : Enough tree maxLength (d.bNumEndpoints.toNat - done.length) (ownEndpoints (recordsFrom tree maxLength offset)) →
    ∃ offset', offset < offset' ∧
      interfaceRecords (recordsFrom tree maxLength offset') = interfaceRecords (recordsFrom tree maxLength offset) ∧
      r = (some offset', partly base i d (done ++ ((ownEndpoints (recordsFrom tree maxLength offset)).take
        (d.bNumEndpoints.toNat - done.length)).map (endpointOf tree maxLength d)))
  /-- If not, it gives up. -/
  bad : ¬ Enough tree maxLength (d.bNumEndpoints.toNat - done.length)
    (ownEndpoints (recordsFrom tree maxLength offset)) → r.1 = none

theorem endpointLoop_spec (hmax : maxLength < 2 ^ 16) (hi : i < base.length) (offset : Nat) (done : List UsbEndpoint)
    (h : IsRecord tree maxLength offset) (hdone : done.length < d.bNumEndpoints.toNat) :
    ∃ r, Ends (fun n => endpointLoop tree maxLength d i d.bNumEndpoints.toNat n done.length offset
      (tree offset).toNat (tree (offset + 1)) (partly base i d done)) r ∧
      EndpointsFilled tree maxLength base i d done offset r := by
  induction offset using recordsFrom.induct tree maxLength generalizing done with
  | case2 offset hno => exact absurd h hno
  | case1 offset _ ih =>
    obtain ⟨h1, h2, h3⟩ := id h
    have hnext : (offset + (tree offset).toNat) % 2 ^ 16 = offset + (tree offset).toNat :=
      Nat.mod_eq_of_lt (by omega)
    have hrecs := recordsFrom_of_isRecord h
    obtain ⟨need, hneed⟩ : ∃ need, d.bNumEndpoints.toNat - done.length = need + 1 :=
      ⟨d.bNumEndpoints.toNat - done.length - 1, by omega⟩
    -- the record behind it, if there is one
    have hgo : ∀ (done' : List UsbEndpoint) (loop : Nat → Option (Option Nat × List UsbInterface)),
        done'.length < d.bNumEndpoints.toNat → loop 0 = none →
        (∀ n, loop (n + 1) = (readHeader tree maxLength (offset + (tree offset).toNat)).bind fun header =>
          header.elim (some (none, partly base i d done')) fun x =>
            endpointLoop tree maxLength d i d.bNumEndpoints.toNat n done'.length
              (offset + (tree offset).toNat) x.1 x.2 (partly base i d done')) →
        ∃ r, Ends loop r ∧ EndpointsFilled tree maxLength base i d done' (offset + (tree offset).toNat) r := by
      intro done' loop hdone' hzero hsucc
      by_cases hrec : IsRecord tree maxLength (offset + (tree offset).toNat)
      · obtain ⟨r, hends, hr⟩ := ih done' hrec hdone'
        rw [readHeader_of_isRecord hrec] at hsucc
        exact ⟨r, Ends.step hzero hsucc hends, hr⟩
      · rw [readHeader_of_not hrec] at hsucc
        refine ⟨(none, partly base i d done'), Ends.step hzero hsucc (Ends.const _), ⟨fun hgood => ?_, fun _ => rfl⟩⟩
        rw [recordsFrom_of_not hrec] at hgood
        exact absurd hgood (not_enough_nil (by omega))
    by_cases h4 : tree (offset + 1) = 0x04
    · -- the next interface
      refine ⟨(none, partly base i d done), Ends.step rfl (fun n => ?_) (Ends.const _), fun hgood => ?_, fun _ => rfl⟩
      · rw [endpointLoop, if_pos hdone, if_pos h4]
      · rw [hrecs, ownEndpoints_interface h4] at hgood
        exact absurd hgood (not_enough_nil (by omega))
    · by_cases h5 : tree (offset + 1) = 0x05
      · -- an endpoint
        obtain ⟨r, hfill, hgood, hbad⟩ := @fillEndpoint_spec tree maxLength offset i done.length base d
          (done ++ List.replicate (d.bNumEndpoints.toNat - done.length) ({} : UsbEndpoint)) d.bNumEndpoints hmax h hi
          (by rw [List.length_append, List.length_replicate]; omega)
          (by rw [List.getElem_append_right (le_refl _), List.getElem_replicate])
        have hstep : ∀ n, endpointLoop tree maxLength d i d.bNumEndpoints.toNat (n + 1) done.length offset
            (tree offset).toNat (tree (offset + 1)) (partly base i d done) =
            if r.1 = false then some (none, r.2)
            else if done.length + 1 = d.bNumEndpoints.toNat then some (some (offset + (tree offset).toNat), r.2)
            else (readHeader tree maxLength (offset + (tree offset).toNat)).bind fun header =>
              header.elim (some (none, r.2)) fun x =>
                endpointLoop tree maxLength d i d.bNumEndpoints.toNat n (done.length + 1)
                  (offset + (tree offset).toNat) x.1 x.2 r.2 := fun n => by
          rw [endpointLoop, if_pos hdone, if_neg h4, if_pos h5, partly, hfill]
          simp only [Option.bind_eq_bind, Option.bind_some, if_pos h5, hnext,
            Nat.mod_eq_of_lt (show done.length + 1 < 2 ^ 8 by have := d.bNumEndpoints.isLt; omega)]
          rcases readHeader tree maxLength (offset + (tree offset).toNat) with _ | _ | _ <;> rfl
        let e := endpointOf tree maxLength d ⟨offset, (tree offset).toNat, tree (offset + 1)⟩
        have hown : ownEndpoints (recordsFrom tree maxLength offset) = ⟨offset, (tree offset).toNat, tree (offset + 1)⟩ ::
            ownEndpoints (recordsFrom tree maxLength (offset + (tree offset).toNat)) := by
          rw [hrecs, ownEndpoints_endpoint h5]
        have hifs : interfaceRecords (recordsFrom tree maxLength offset) =
            interfaceRecords (recordsFrom tree maxLength (offset + (tree offset).toNat)) := by
          rw [hrecs, interfaceRecords_cons_of_ne h4]
        by_cases hok : EndpointOk tree maxLength ⟨offset, (tree offset).toNat, tree (offset + 1)⟩
        · have hlen : (done ++ [e]).length = done.length + 1 := by rw [List.length_append, List.length_singleton]
          have hneed' : d.bNumEndpoints.toNat - (done ++ [e]).length = need := by omega
          have hr : r = (true, partly base i d (done ++ [e])) := by
            rw [hgood hok, partly, hneed', hneed, List.set_append_right _ _ (le_refl _), Nat.sub_self,
              List.replicate_succ, List.set_cons_zero, List.append_assoc, List.singleton_append]
          subst hr
          simp only [Bool.true_eq_false, if_false] at hstep
          by_cases hlast : done.length + 1 = d.bNumEndpoints.toNat
          · -- the last one
            simp only [if_pos hlast] at hstep
            refine ⟨_, Ends.step rfl hstep (Ends.const _), fun hen => ?_, fun hno => ?_⟩
            · refine ⟨offset + (tree offset).toNat, by omega, hifs.symm, ?_⟩
              rw [hneed, hown, List.take_succ_cons, show need = 0 by omega, List.take_zero]
              rfl
            · rw [hneed, hown, enough_cons] at hno
              exact absurd ⟨hok, by omega, by simp [show need = 0 by omega]⟩ hno
          · -- not the last one
            simp only [if_neg hlast] at hstep
            rw [← hlen] at hstep
            obtain ⟨r, hends, hgood', hbad'⟩ := hgo (done ++ [e]) (fun n => endpointLoop tree maxLength d i
              d.bNumEndpoints.toNat n done.length offset (tree offset).toNat (tree (offset + 1)) (partly base i d done))
              (by omega) rfl hstep
            rw [hneed'] at hgood' hbad'
            refine ⟨r, hends, fun hen => ?_, fun hno => ?_⟩
            · rw [hneed, hown, enough_cons] at hen
              obtain ⟨offset', hlt, hifs', hr⟩ := hgood' hen.2
              refine ⟨offset', by omega, hifs'.trans hifs.symm, ?_⟩
              rw [hr, hneed, hown, List.take_succ_cons, List.map_cons, List.append_assoc, List.singleton_append]
            · rw [hneed, hown, enough_cons] at hno
              exact hbad' fun hen => hno ⟨hok, hen⟩
        · simp only [if_pos (hbad hok)] at hstep
          refine ⟨_, Ends.step rfl hstep (Ends.const _), fun hen => ?_, fun _ => rfl⟩
          rw [hneed, hown, enough_cons] at hen
          exact absurd hen.1 hok
      · -- another record
        have hstep : ∀ n, endpointLoop tree maxLength d i d.bNumEndpoints.toNat (n + 1) done.length offset
            (tree offset).toNat (tree (offset + 1)) (partly base i d done) =
            (readHeader tree maxLength (offset + (tree offset).toNat)).bind fun header =>
              header.elim (some (none, partly base i d done)) fun x =>
                endpointLoop tree maxLength d i d.bNumEndpoints.toNat n done.length
                  (offset + (tree offset).toNat) x.1 x.2 (partly base i d done) := fun n => by
          rw [endpointLoop, if_pos hdone, if_neg h4, if_neg h5]
          simp only [Option.bind_eq_bind, Option.bind_some, if_neg h5, hnext, if_neg (Nat.ne_of_lt hdone)]
          rcases readHeader tree maxLength (offset + (tree offset).toNat) with _ | _ | _ <;> rfl
        obtain ⟨r, hends, hgood, hbad⟩ := hgo done (fun n => endpointLoop tree maxLength d i d.bNumEndpoints.toNat n
          done.length offset (tree offset).toNat (tree (offset + 1)) (partly base i d done)) hdone rfl hstep
        have hown : ownEndpoints (recordsFrom tree maxLength offset) =
            ownEndpoints (recordsFrom tree maxLength (offset + (tree offset).toNat)) := by
          rw [hrecs, ownEndpoints_other h4 h5]
        refine ⟨r, hends, ⟨fun hen => ?_, fun hno => hbad (by rwa [← hown])⟩⟩
        rw [hown] at hen ⊢
        obtain ⟨offset', hlt, hifs, hr⟩ := hgood hen
        exact ⟨offset', by omega, by rw [hifs, hrecs, interfaceRecords_cons_of_ne h4], hr⟩

/-- The loop up to the first endpoint record, from the record in front of `next` on. -/
theorem skipLoop_spec (hmax : maxLength < 2 ^ 16) {c : Nat} (hc : c ≠ 0) (next : Nat) {length : Nat} {type : BitVec 8}
    (htype : type ≠ 0x05) (hnext : (offset + length) % 2 ^ 16 = next) :
    ∃ r, Ends (fun n => skipLoop tree maxLength c n offset length type) r ∧
      ((ownEndpoints (recordsFrom tree maxLength next) = [] ∧ r = none) ∨
      ∃ offset', next ≤ offset' ∧ IsRecord tree maxLength offset' ∧ tree (offset' + 1) = 0x05 ∧
        ownEndpoints (recordsFrom tree maxLength offset') = ownEndpoints (recordsFrom tree maxLength next) ∧
        interfaceRecords (recordsFrom tree maxLength offset') = interfaceRecords (recordsFrom tree maxLength next) ∧
        r = some (offset', (tree offset').toNat, tree (offset' + 1))) := by
  induction next using recordsFrom.induct tree maxLength generalizing offset length type with
  | case1 next h ih =>
    obtain ⟨h1, h2, h3⟩ := id h
    have hstep : ∀ n, skipLoop tree maxLength c (n + 1) offset length type =
        if tree (next + 1) = 0x04 then some none
        else skipLoop tree maxLength c n next (tree next).toNat (tree (next + 1)) := fun n => by
      rw [skipLoop, if_pos ⟨htype, hc⟩, hnext]
      simp only [readHeader_of_isRecord h]
      rfl
    rw [recordsFrom_of_isRecord h]
    by_cases h4 : tree (next + 1) = 0x04
    · simp only [if_pos h4] at hstep
      exact ⟨none, Ends.step rfl hstep (Ends.const _), .inl ⟨ownEndpoints_interface h4, rfl⟩⟩
    · simp only [if_neg h4] at hstep
      by_cases h5 : tree (next + 1) = 0x05
      · have hfound : ∀ n, skipLoop tree maxLength c (n + 1) next (tree next).toNat (tree (next + 1)) =
            some (some (next, (tree next).toNat, tree (next + 1))) := fun n => by
          rw [skipLoop, if_neg fun h => h.1 h5]
        refine ⟨_, Ends.step rfl hstep (Ends.step rfl hfound (Ends.const _)), .inr ⟨next, le_refl _, h, h5, ?_, ?_, rfl⟩⟩
        · rw [recordsFrom_of_isRecord h]
        · rw [recordsFrom_of_isRecord h]
      · obtain ⟨r, hends, hr⟩ := @ih next (tree next).toNat (tree (next + 1)) h5 (Nat.mod_eq_of_lt (by omega))
        rw [ownEndpoints_other h4 h5, interfaceRecords_cons_of_ne h4]
        refine ⟨r, Ends.step rfl hstep hends, hr.imp_right ?_⟩
        rintro ⟨offset', hle, h'⟩
        exact ⟨offset', by omega, h'⟩
  | case2 next h =>
    have hstep : ∀ n, skipLoop tree maxLength c (n + 1) offset length type = some none := fun n => by
      rw [skipLoop, if_pos ⟨htype, hc⟩, hnext]
      simp only [readHeader_of_not h]
      rfl
    rw [recordsFrom_of_not h]
    exact ⟨none, Ends.step rfl hstep (Ends.const _), .inl ⟨rfl, rfl⟩⟩

/-- The endpoints of the interface record at `offset`. -/
theorem fillEndpoints_spec (hmax : maxLength < 2 ^ 16) (hi : i < base.length) (h : IsRecord tree maxLength offset)
    (h4 : tree (offset + 1) = 0x04) (hpos : 0 < d.bNumEndpoints.toNat) :
    ∃ r, Ends (fun n => fillEndpoints tree maxLength n d i offset (tree offset).toNat (tree (offset + 1))
      (partly base i d [])) r ∧
      EndpointsFilled tree maxLength base i d [] (offset + (tree offset).toNat) r := by
  obtain ⟨h1, h2, h3⟩ := id h
  obtain ⟨s, hskip, hs⟩ := @skipLoop_spec tree maxLength offset hmax _ hpos.ne' (offset + (tree offset).toNat)
    (tree offset).toNat (tree (offset + 1)) (by rw [h4]; decide) (Nat.mod_eq_of_lt (by omega))
  rcases hs with ⟨hnil, rfl⟩ | ⟨offset', hle, hrec, h5, hown, hifs, rfl⟩
  · refine ⟨_, hskip.andThen (fun n => rfl) (Ends.const (none, partly base i d [])), fun hen => ?_, fun _ => rfl⟩
    rw [hnil] at hen
    exact absurd hen (not_enough_nil hpos)
  · obtain ⟨r, hends, hgood, hbad⟩ := endpointLoop_spec hmax hi offset' [] hrec hpos
    refine ⟨r, hskip.andThen (fun n => rfl) hends, fun hen => ?_, fun hno => hbad (by rwa [hown])⟩
    rw [← hown] at hen
    obtain ⟨offset'', hlt, hifs', hr⟩ := hgood hen
    exact ⟨offset'', by omega, hifs'.trans hifs, by rw [hr, hown]⟩

/-! ## All interfaces -/

/-- All endpoints of an interface are filled in. -/
theorem partly_all {g : TreeRecord × List TreeRecord} (hd : d = interfaceAt tree g.1.offset)
    (hpos : d.bNumEndpoints ≠ 0) (hlen : d.bNumEndpoints.toNat ≤ g.2.length) :
    partly base i d ((g.2.take d.bNumEndpoints.toNat).map (endpointOf tree maxLength d)) =
      base.set i (interfaceOf tree maxLength g) := by
  rw [partly, List.length_map, List.length_take, Nat.min_eq_left hlen, Nat.sub_self, List.replicate_zero,
    List.append_nil, interfaceOf, ← hd]
  simp only [if_neg hpos]

/-- One interface more. -/
theorem take_succ_set {x : UsbInterface} (hi : i < base.length) (l : List UsbInterface) :
    (base.set i x).take (i + 1) ++ l = base.take i ++ x :: l := by
  rw [List.take_add_one, List.take_set_of_le (le_refl i), List.getElem?_set_self hi, Option.toList_some, List.append_assoc,
    List.singleton_append]

/-- What `fill_interfaces` makes of the interface records that it finds. -/
structure InterfacesFilled (tree : Nat → BitVec 8) (maxLength i : Nat) (gs : List (TreeRecord × List TreeRecord))
    (interfaces : List UsbInterface) (r : Bool × List UsbInterface) : Prop where
  good : (∀ g ∈ gs, InterfaceOk tree maxLength g) →
    r = (true, interfaces.take i ++ gs.map (interfaceOf tree maxLength))
  bad : ¬ (∀ g ∈ gs, InterfaceOk tree maxLength g) → r.1 = false

theorem fillLoop_spec (hmax : maxLength < 2 ^ 16) {new : Nat → Bool} (hnew : ∀ i, new i = true) {total : Nat}
    (htotal : total < 2 ^ 16) (hlen : interfaces.length = total)
    (hi : i + (interfaceRecords (recordsFrom tree maxLength offset)).length = total) :
    ∃ r, Ends (fun n => fillLoop tree maxLength new total n offset i interfaces) r ∧
      InterfacesFilled tree maxLength i (interfaceRecords (recordsFrom tree maxLength offset)) interfaces r := by
  induction hm : maxLength - offset using Nat.strong_induction_on generalizing offset i interfaces with
  | _ m ih =>
    subst hm
    by_cases hnil : interfaceRecords (recordsFrom tree maxLength offset) = []
    · -- no interface is left
      rw [hnil, List.length_nil, Nat.add_zero] at hi
      rw [hnil]
      refine ⟨(true, interfaces), Ends.step rfl (fun n => ?_) (Ends.const _), fun _ => ?_, fun hno => absurd (by simp) hno⟩
      · rw [fillLoop, if_neg (by omega)]
        simp only [hi, decide_true]
        rfl
      · rw [List.take_of_length_le (by omega), List.map_nil, List.append_nil]
    · have h : IsRecord tree maxLength offset := by
        by_contra hno
        rw [recordsFrom_of_not hno] at hnil
        exact hnil rfl
      obtain ⟨h1, h2, h3⟩ := id h
      have hpos := List.length_pos_iff.mpr hnil
      have hnext : (offset + (tree offset).toNat) % 2 ^ 16 = offset + (tree offset).toNat :=
        Nat.mod_eq_of_lt (by omega)
      have hgoes : offset < maxLength ∧ i < total := by omega
      have hi' : i < interfaces.length := by omega
      have hsucc : (i + 1) % 2 ^ 16 = i + 1 := Nat.mod_eq_of_lt (by omega)
      have hrecs := recordsFrom_of_isRecord h
      by_cases h4 : tree (offset + 1) = 0x04
      · -- an interface
        let g : TreeRecord × List TreeRecord := (⟨offset, (tree offset).toNat, tree (offset + 1)⟩,
          ownEndpoints (recordsFrom tree maxLength (offset + (tree offset).toNat)))
        let d := interfaceAt tree offset
        have hgs : interfaceRecords (recordsFrom tree maxLength offset) =
            g :: interfaceRecords (recordsFrom tree maxLength (offset + (tree offset).toNat)) := by
          rw [hrecs, interfaceRecords, if_pos h4]
        rw [hgs, List.length_cons] at hi
        rw [hgs]
        -- the rest of the tree, when the interface is filled in
        have hrest : ∀ offset', offset < offset' → interfaceRecords (recordsFrom tree maxLength offset') =
            interfaceRecords (recordsFrom tree maxLength (offset + (tree offset).toNat)) →
            InterfaceOk tree maxLength g → ∃ r, Ends (fun n => fillLoop tree maxLength new total n offset' (i + 1)
              (interfaces.set i (interfaceOf tree maxLength g))) r ∧ InterfacesFilled tree maxLength i
                (g :: interfaceRecords (recordsFrom tree maxLength (offset + (tree offset).toNat))) interfaces r := by
          intro offset' hlt hifs hok
          obtain ⟨r, hends, hgood, hbad⟩ := @ih _ (by omega) offset' (i + 1)
            (interfaces.set i (interfaceOf tree maxLength g)) (by rw [List.length_set, hlen])
            (by rw [hifs]; omega) rfl
          rw [hifs] at hgood hbad
          refine ⟨r, hends, fun hall => ?_, fun hno => ?_⟩
          · rw [hgood fun g' hg' => hall g' (List.mem_cons_of_mem g hg'), take_succ_set hi', List.map_cons]
          · exact hbad fun hall => hno (List.forall_mem_cons.mpr ⟨hok, hall⟩)
        by_cases hshort : (tree offset).toNat < 9
        · have hstep : ∀ n, fillLoop tree maxLength new total (n + 1) offset i interfaces =
              some (false, interfaces) := fun n => by
            rw [fillLoop, if_pos hgoes, readHeader_of_isRecord h]
            simp only [Option.bind_eq_bind, Option.bind_some, if_pos h4, if_pos hshort]
            rfl
          refine ⟨_, Ends.step rfl hstep (Ends.const _), fun hall => ?_, fun _ => rfl⟩
          exact absurd (hall g List.mem_cons_self).1 (Nat.not_le.mpr (by omega))
        · by_cases hzero : d.bNumEndpoints = 0
          · -- without endpoints
            have hstep : ∀ n, fillLoop tree maxLength new total (n + 1) offset i interfaces =
                fillLoop tree maxLength new total n (offset + (tree offset).toNat) (i + 1)
                  (interfaces.set i (interfaceOf tree maxLength g)) := fun n => by
              rw [fillLoop, if_pos hgoes, readHeader_of_isRecord h]
              simp only [Option.bind_eq_bind, Option.bind_some, if_pos h4, if_neg hshort,
                readInterface_eq (show offset + 9 ≤ maxLength by omega), setInterface, if_pos hi', hnext,
                hsucc, interfaceOf, g]
              rw [show (interfaceAt tree offset).bNumEndpoints = 0 from hzero]
              rfl
            have hok : InterfaceOk tree maxLength g := by
              refine ⟨by simp only [g]; omega, ?_⟩
              simp only [g, show (interfaceAt tree offset).bNumEndpoints = 0 from hzero]
              exact ⟨Nat.zero_le _, by simp⟩
            obtain ⟨r, hends, hr⟩ := hrest _ (by omega) rfl hok
            exact ⟨r, Ends.step rfl hstep hends, hr⟩
          · -- with endpoints
            have hstep : ∀ n, fillLoop tree maxLength new total (n + 1) offset i interfaces =
                (fillEndpoints tree maxLength n d i offset (tree offset).toNat (tree (offset + 1))
                  (partly interfaces i d [])).bind fun r => r.1.elim (some (false, r.2)) fun offset =>
                    fillLoop tree maxLength new total n offset (i + 1) r.2 := fun n => by
              rw [fillLoop, if_pos hgoes, readHeader_of_isRecord h]
              simp only [Option.bind_eq_bind, Option.bind_some, if_pos h4, if_neg hshort,
                readInterface_eq (show offset + 9 ≤ maxLength by omega), hnew, Bool.true_eq_false, if_false,
                setInterface, if_pos hi', hsucc]
              rw [if_neg hzero]
              refine congrArg _ (funext fun r => ?_)
              rcases r with ⟨_ | _, _⟩
              · rfl
              · rfl
            have hpos : 0 < d.bNumEndpoints.toNat := Nat.pos_of_ne_zero fun h0 => hzero (BitVec.eq_of_toNat_eq h0)
            obtain ⟨⟨o, interfaces'⟩, hends, hgood, hbad⟩ := fillEndpoints_spec hmax hi' h h4 hpos
            by_cases hen : Enough tree maxLength d.bNumEndpoints.toNat g.2
            · obtain ⟨offset', hlt, hifs, hr⟩ := hgood hen
              rw [List.nil_append, List.length_nil, Nat.sub_zero, partly_all (g := g) rfl hzero hen.1] at hr
              cases hr
              obtain ⟨r, hends', hr⟩ := hrest offset' (by omega) hifs ⟨Nat.le_of_not_lt hshort, hen⟩
              exact ⟨r, Ends.step rfl hstep (hends.bind hends'), hr⟩
            · obtain rfl : o = none := hbad hen
              refine ⟨(false, interfaces'), Ends.step rfl hstep (hends.bind (Ends.const _)), fun hall => ?_, fun _ => rfl⟩
              exact absurd (hall g List.mem_cons_self).2 hen
      · have hstep : ∀ n, fillLoop tree maxLength new total (n + 1) offset i interfaces =
            fillLoop tree maxLength new total n (offset + (tree offset).toNat) i interfaces := fun n => by
          rw [fillLoop, if_pos hgoes, readHeader_of_isRecord h]
          simp only [Option.bind_eq_bind, Option.bind_some, if_neg h4, hnext]
        rw [hrecs, interfaceRecords_cons_of_ne h4] at hi ⊢
        obtain ⟨r, hends, hr⟩ := ih _ (by omega) hlen hi rfl
        exact ⟨r, Ends.step rfl hstep hends, hr⟩

/-- **The configuration tree is read as its records say.**  Whatever the bytes are, both loops end without an access
outside the tree or the arrays.  All interfaces are filled in if and only if each interface record is long enough
and has enough endpoint records in front of the next one, which are long enough like their companions; and then
the arrays have what the records say, in their order. -/
theorem fillInterfaces_spec (tree : Nat → BitVec 8) (hmax : maxLength < 2 ^ 16) {new : Nat → Bool}
    (hnew : ∀ i, new i = true) : ∃ total, Ends (fun n => countTree tree maxLength n 0x04) total ∧
      total = ((recordsFrom tree maxLength 0).filter fun r => r.type = 0x04).length ∧
      ∀ interfaces : List UsbInterface, interfaces.length = total →
        ∃ r, Ends (fun n => fillInterfaces tree maxLength n new total interfaces) r ∧
          (r.1 = true ↔ ∀ g ∈ interfaceRecords (recordsFrom tree maxLength 0), InterfaceOk tree maxLength g) ∧
          (r.1 = true →
            r.2 = (interfaceRecords (recordsFrom tree maxLength 0)).map (interfaceOf tree maxLength)) := by
  have hle := length_recordsFrom_le tree maxLength 0
  have hfilter := List.length_filter_le (fun r : TreeRecord => decide (r.type = 0x04)) (recordsFrom tree maxLength 0)
  have hcount := @countLoop_spec tree _ hmax 0x04 0 0 (by omega)
  rw [Nat.zero_add] at hcount
  refine ⟨_, hcount, rfl, fun interfaces hlen => ?_⟩
  obtain ⟨r, hends, hgood, hbad⟩ := fillLoop_spec hmax hnew (by omega) hlen
    (show 0 + (interfaceRecords (recordsFrom tree maxLength 0)).length = _ by
      rw [Nat.zero_add, length_interfaceRecords])
  refine ⟨r, hends, ⟨fun hr => ?_, fun hall => ?_⟩, fun hr => ?_⟩
  · by_contra hno
    rw [hbad hno] at hr
    cases hr
  · rw [hgood hall]
  · have hall : ∀ g ∈ interfaceRecords (recordsFrom tree maxLength 0), InterfaceOk tree maxLength g := by
      by_contra hno
      rw [hbad hno] at hr
      cases hr
    rw [hgood hall]
    rfl

end

/-- A configuration, an interface, its endpoint and the companion of that. -/
def tinyTree : List (BitVec 8) :=
  [9, 2, 31, 0, 1, 1, 0, 0x80, 50, 9, 4, 0, 0, 1, 8, 6, 0x50, 0, 7, 5, 0x81, 2, 0, 4, 0, 6, 0x30, 3, 0, 0, 0]

/-- The endpoint of it has its companion. -/
theorem fillInterfaces_tiny : ∃ r,
    Ends (fun n => fillInterfaces (tinyTree.getD · 0) 31 n (fun _ => true) 1 [{}]) r ∧ r.1 = true ∧
      r.2.map (fun i => i.endpoints.map fun l => l.map fun e => (e.address, e.hasSsCompanion)) =
        [some [(0x81, true)]] := by
  obtain ⟨total, hcount, -, hfill⟩ := @fillInterfaces_spec 31 (tinyTree.getD · 0) (by decide) (fun _ => true)
    (fun _ => rfl)
  obtain rfl : 1 = total := hcount.2 10 1 (by decide)
  obtain ⟨r, hends, -, -⟩ := hfill [{}] rfl
  have hcall : ((fillInterfaces (tinyTree.getD · 0) 31 10 (fun _ => true) 1 [{}]).any fun r =>
      decide (r.1 = true ∧ r.2.map (fun i => i.endpoints.map fun l => l.map fun e => (e.address, e.hasSsCompanion)) =
        [some [(0x81, true)]])) = true := by
    decide
  obtain ⟨r', hr', hgood⟩ := (Option.any_eq_true _ _).mp hcall
  obtain rfl := hends.2 10 r' hr'
  exact ⟨r', hends, of_decide_eq_true hgood⟩

end Usb

end Dem64
