import Dem64.Pci.Capability

/-!
# Taking an EHCI controller from the firmware

`controller_init` (`ehci.cpp`) follows the capabilities of the controller in its configuration space, from the pointer
in HCCPARAMS on, and takes the ownership at the one with id 1.  Nothing counts the nodes: the loop ends where
the list does (`ownership_right_iff`).
-/

set_option autoImplicit false

namespace Dem64.Ehci

open Interaction Interaction.Prog Pci

/-! ## `ehci.cpp` -/

section

variable (regions : List PciEcamRegion) (address : PciAddress)

/-- How the loop over the capabilities is left. -/
inductive WalkEnd
  /-- `eecp` is 0. -/
  | absent
  /-- A capability cannot be read. -/
  | unreadable
  /-- The capability with id 1. -/
  | found (eecp : BitVec 8)
deriving DecidableEq

/-- The loop up to the capability that it takes the ownership at, which leaves it on every path. -/
def ownershipWalk : Nat → BitVec 8 → PciM (Option WalkEnd)
  | 0, eecp => if eecp = 0 then pure (some .absent) else pure none
  | fuel + 1, eecp =>
    if eecp = 0 then pure (some .absent)
    else do
      let (status, stored) ← pciConfigRead regions address (eecp.setWidth 16) 4 true
      if status ≠ PCI_STATUS_SUCCESS then pure (some .unreadable)
      else
        let header := stored.getD 0
        if header.setWidth 8 = (1 : BitVec 8) then pure (some (.found eecp))
        else ownershipWalk fuel ((header >>> 8).setWidth 8)

/-- The polls, with the waits of 1 ms that are left; a wait asks the timer only. -/
def pollOwned (eecp : BitVec 8) : Nat → PciM Unit
  | 0 => do
    let _ ← pciRead8M regions address (eecp.setWidth 16 + 2)
    pure ()
  | left + 1 => do
    let owned ← pciRead8M regions address (eecp.setWidth 16 + 2)
    if owned &&& 1 = 0 then pure () else pollOwned eecp left

/-- The branch of the capability with id 1: 0 goes on behind the loop, 1 is returned. -/
def takeOwnership (eecp : BitVec 8) : PciM Nat := do
  let status ← pciWrite8M regions address (eecp.setWidth 16 + 3) 1
  if status ≠ PCI_STATUS_SUCCESS then pure 1
  else do
    pollOwned regions address eecp 1000
    let owned ← pciRead8M regions address (eecp.setWidth 16 + 2)
    if owned &&& 1 = 0 then do
      let status ← pciWrite32M regions address (eecp.setWidth 16 + 4) 0
      if status ≠ PCI_STATUS_SUCCESS then pure 1 else pure 0
    else pure 1

/-- The part of `controller_init` that takes the ownership; without a result the fuel was not enough. -/
def ownership (fuel : Nat) (hccParams : BitVec 32) : PciM (Option Nat) := do
  let walkEnd ← ownershipWalk regions address fuel ((hccParams >>> 8).setWidth 8)
  match walkEnd with
  | none => pure none
  | some .absent => pure (some 0)
  | some .unreadable => pure (some 1)
  | some (.found eecp) => some <$> takeOwnership regions address eecp

end

/-! ## The list -/

/-- A pointer of 0 leads to no node. -/
def eecpNode (eecp : BitVec 8) : Option (BitVec 8) := if eecp = 0 then none else some eecp

/-- The node behind a node. -/
def eecpLink (space : Space) (eecp : BitVec 8) : Option (BitVec 8) := eecpNode (space (eecp.toNat + 1))

/-- The list starts behind a field of HCCPARAMS. -/
def eecpStart (hccParams : BitVec 32) : Option (BitVec 8) := eecpNode ((hccParams >>> 8).setWidth 8)

/-- One of the mechanisms reaches the function. -/
def FunctionReachable (regions : List PciEcamRegion) (address : PciAddress) : Prop :=
  address.device < 32 ∧ address.function < 8 ∧
    (findEcamRegion regions address.segment address.bus ≠ none ∨ address.segment = 0)

/-- The dword of a capability can be read. -/
def EecpReadable (regions : List PciEcamRegion) (address : PciAddress) (eecp : BitVec 8) : Prop :=
  FunctionReachable regions address ∧ eecp.toNat % 4 = 0

/-- What the loop stops at: a capability that it cannot read, or the one that it looks for. -/
def StopsAt (regions : List PciEcamRegion) (address : PciAddress) (space : Space) (eecp : BitVec 8) : Prop :=
  ¬ EecpReadable regions address eecp ∨ space eecp.toNat = 1

instance (regions : List PciEcamRegion) (address : PciAddress) : Decidable (FunctionReachable regions address) :=
  inferInstanceAs (Decidable (_ ∧ _ ∧ (¬ _ ∨ _)))

instance (regions : List PciEcamRegion) (address : PciAddress) (eecp : BitVec 8) :
    Decidable (EecpReadable regions address eecp) := inferInstanceAs (Decidable (_ ∧ _))

instance (regions : List PciEcamRegion) (address : PciAddress) (space : Space) :
    DecidablePred (StopsAt regions address space) := fun _ => inferInstanceAs (Decidable (¬ _ ∨ _))

/-! ## The walk -/

section

variable {regions : List PciEcamRegion} {address : PciAddress} {fallback : PciEcamRegion} {layouts : Place → Layout}
  {P : Seen → Prop} {v : Seen} {eecp : BitVec 8}

/-- What the loop returns when it has stopped so. -/
def walkEnd (regions : List PciEcamRegion) (address : PciAddress) : Option (BitVec 8) → WalkEnd
  | none => .absent
  | some eecp => if EecpReadable regions address eecp then .found eecp else .unreadable

theorem exec_readEecp (hr : EecpReadable regions address eecp) (hP : P v) :
    Exec (watchedHost (regionOf regions address fallback) layouts) seen P
      (pciConfigRead regions address (eecp.setWidth 16) 4 true) v
      (PCI_STATUS_SUCCESS, some (dwordAt (v.spaces address.place) eecp.toNat)) v := by
  obtain ⟨hwidth, -⟩ := toNat_setWidth_pointer eecp
  have haligned : eecp.setWidth 16 &&& 3 = 0 := by
    apply BitVec.eq_of_toNat_eq
    rw [toNat_and_three, hwidth, hr.2]
    rfl
  have hv : ValidAccess address (eecp.setWidth 16) 4 PCI_CONFIG_LEGACY_SIZE := by
    refine ⟨hr.1.1, hr.1.2.1, .inr (.inr rfl), ?_, fun h => absurd h.1 (by decide), fun h => h.2 haligned⟩
    have hlt := eecp.isLt
    have hmod := hr.2
    have hfour : (4 : BitVec 8).toNat = 4 := rfl
    rw [hwidth, hfour, PCI_CONFIG_LEGACY_SIZE]
    omega
  rw [← hwidth]
  exact exec_pciConfigRead (reaches_regionOf_iff.mpr hr.1) hv hP

theorem exec_readEecp_refused (hr : ¬ EecpReadable regions address eecp) (hP : P v) :
    Exec (watchedHost (regionOf regions address fallback) layouts) seen P
      (pciConfigRead regions address (eecp.setWidth 16) 4 true) v (PCI_STATUS_INVALID_ADDRESS, none) v := by
  by_cases hreach : FunctionReachable regions address
  · obtain ⟨hwidth, -⟩ := toNat_setWidth_pointer eecp
    have hinvalid : ∀ n, ¬ ValidAccess address (eecp.setWidth 16) 4 n := by
      intro n hv
      have hmod := hv.aligned.2.2 rfl
      rw [hwidth] at hmod
      exact hr ⟨hreach, hmod⟩
    rw [pciConfigRead, if_neg (by decide)]
    cases findEcamRegion regions address.segment address.bus with
    | some region =>
      dsimp only
      rw [if_pos (hinvalid _)]
      exact .pure hP
    | none =>
      dsimp only
      rw [if_pos (.inr (hinvalid _))]
      exact .pure hP
  · have hrefused : ¬ Reaches regions (regionOf regions address fallback) address :=
      fun h => hreach (reaches_regionOf_iff.mp h)
    rw [pciConfigRead_refused hrefused eq_regionOf]
    exact .pure hP

theorem dwordAt_fields (space : Space) (k : Nat) :
    (dwordAt space k).setWidth 8 = space k ∧ (dwordAt space k >>> 8).setWidth 8 = space (k + 1) := by
  constructor
  · apply BitVec.eq_of_getLsbD_eq
    intro i hi
    rw [BitVec.getLsbD_setWidth, decide_eq_true hi, Bool.true_and, getLsbD_dwordAt (by omega), Nat.div_eq_of_lt hi,
      Nat.mod_eq_of_lt hi, Nat.add_zero]
  · apply BitVec.eq_of_getLsbD_eq
    intro i hi
    rw [BitVec.getLsbD_setWidth, decide_eq_true hi, Bool.true_and, BitVec.getLsbD_ushiftRight,
      getLsbD_dwordAt (by omega), show (8 + i) / 8 = 1 by omega, show (8 + i) % 8 = i by omega]

/-- **The loop is a search of the list**, with the fuel as its bound. -/
theorem exec_ownershipWalk {fuel : Nat} (hP : P v) :
    Exec (watchedHost (regionOf regions address fallback) layouts) seen P (ownershipWalk regions address fuel eecp) v
      ((Chain.search (eecpLink (v.spaces address.place)) (StopsAt regions address (v.spaces address.place)) fuel
        (eecpNode eecp)).map (walkEnd regions address)) v := by
  induction fuel generalizing eecp with
  | zero =>
    rw [ownershipWalk, eecpNode]
    split
    next => exact .pure hP
    next => exact .pure hP
  | succ fuel ih =>
    rw [ownershipWalk, eecpNode]
    split
    next =>
      rw [Chain.search_none]
      exact .pure hP
    next =>
      rw [Chain.search]
      by_cases hr : EecpReadable regions address eecp
      · refine Exec.bind (exec_readEecp hr hP) ?_
        dsimp only
        rw [if_neg (not_not.mpr rfl), Option.getD_some, (dwordAt_fields _ _).1, (dwordAt_fields _ _).2]
        by_cases hid : v.spaces address.place eecp.toNat = 1
        · rw [if_pos hid, if_pos (show StopsAt _ _ _ _ from .inr hid), Option.map_some, walkEnd, if_pos hr]
          exact .pure hP
        · rw [if_neg hid, if_neg (show ¬ StopsAt _ _ _ _ from fun h => h.elim (fun h => h hr) hid)]
          exact ih
      · refine Exec.bind (exec_readEecp_refused hr hP) ?_
        dsimp only
        rw [if_pos (by decide), if_pos (show StopsAt _ _ _ _ from .inl hr), Option.map_some, walkEnd, if_neg hr]
        exact .pure hP

end

/-! ## When the loop is right -/

section

variable (regions : List PciEcamRegion) (address : PciAddress) (fallback : PciEcamRegion) (layouts : Place → Layout)
  (h : Host) (hccParams : BitVec 32)

/-- The list leads to 0, to a pointer that cannot be read, or to a capability with id 1. -/
def EecpListEnds : Prop :=
  let space := h.spaces address.place
  (∃ eecp, Chain.First (eecpLink space) (StopsAt regions address space) (eecpStart hccParams) eecp) ∨
    Chain.Stops (eecpLink space) (eecpStart hccParams)

/-- A list of capabilities that can be read, with a last one. -/
def EecpListOk : Prop :=
  let space := h.spaces address.place
  (∀ n eecp, Chain.node (eecpLink space) (eecpStart hccParams) n = some eecp → EecpReadable regions address eecp) ∧
    Chain.Stops (eecpLink space) (eecpStart hccParams)

/-- The loop ends with this. -/
def WalksTo (r : WalkEnd) : Prop :=
  ∃ fuel, (run (host (regionOf regions address fallback) layouts)
    (ownershipWalk regions address fuel ((hccParams >>> 8).setWidth 8)) h).1 = some r

/-- The ownership is taken, or not, in finite time, and at the first capability with id 1 of a good list. -/
structure OwnershipRight : Prop where
  terminates : ∃ fuel, (run (host (regionOf regions address fallback) layouts)
    (ownership regions address fuel hccParams) h).1 ≠ none
  first : EecpListOk regions address h hccParams → ∀ eecp,
    WalksTo regions address fallback layouts h hccParams (.found eecp) ↔
      Chain.First (eecpLink (h.spaces address.place)) (fun eecp => h.spaces address.place eecp.toNat = 1)
        (eecpStart hccParams) eecp
  absent : EecpListOk regions address h hccParams →
    (∀ eecp, ¬ Chain.First (eecpLink (h.spaces address.place)) (fun eecp => h.spaces address.place eecp.toNat = 1)
      (eecpStart hccParams) eecp) → WalksTo regions address fallback layouts h hccParams .absent

variable {regions address fallback layouts h hccParams}

theorem run_ownershipWalk {fuel : Nat} {eecp : BitVec 8} :
    (run (host (regionOf regions address fallback) layouts) (ownershipWalk regions address fuel eecp) h).1 =
      (Chain.search (eecpLink (h.spaces address.place)) (StopsAt regions address (h.spaces address.place)) fuel
        (eecpNode eecp)).map (walkEnd regions address) :=
  run_of_exec (exec_ownershipWalk trivial)

/-- The capability with id 1 ends the loop, whatever the firmware answers. -/
theorem run_ownership_ne_none {fuel : Nat} :
    (run (host (regionOf regions address fallback) layouts) (ownership regions address fuel hccParams) h).1 ≠ none ↔
      Chain.search (eecpLink (h.spaces address.place)) (StopsAt regions address (h.spaces address.place)) fuel
        (eecpStart hccParams) ≠ none := by
  rw [ownership, run_bind, run_ownershipWalk, eecpStart]
  cases Chain.search (eecpLink (h.spaces address.place)) (StopsAt regions address (h.spaces address.place)) fuel
      (eecpNode ((hccParams >>> 8).setWidth 8)) with
  | none => simp
  | some r =>
    rw [Option.map_some]
    refine ⟨fun _ => Option.some_ne_none r, fun _ => ?_⟩
    cases walkEnd regions address r with
    | absent => exact Option.some_ne_none _
    | unreadable => exact Option.some_ne_none _
    | found eecp =>
      dsimp only
      rw [map_eq_pure_bind, run_bind]
      exact Option.some_ne_none _

theorem terminates_iff_listEnds : (∃ fuel, (run (host (regionOf regions address fallback) layouts)
    (ownership regions address fuel hccParams) h).1 ≠ none) ↔ EecpListEnds regions address h hccParams := by
  simp only [run_ownership_ne_none]
  exact Chain.exists_search_iff

/-- In such a list the loop stops at an id of 1 only. -/
theorem EecpListOk.stopsAt_iff (hok : EecpListOk regions address h hccParams) (n : Nat) (eecp : BitVec 8)
    (hn : Chain.node (eecpLink (h.spaces address.place)) (eecpStart hccParams) n = some eecp) :
    StopsAt regions address (h.spaces address.place) eecp ↔ h.spaces address.place eecp.toNat = 1 :=
  ⟨fun hs => hs.resolve_left (not_not.mpr (hok.1 n eecp hn)), .inr⟩

theorem EecpListOk.walksTo_found (hok : EecpListOk regions address h hccParams) (eecp : BitVec 8) :
    WalksTo regions address fallback layouts h hccParams (.found eecp) ↔
      Chain.First (eecpLink (h.spaces address.place)) (fun eecp => h.spaces address.place eecp.toNat = 1)
        (eecpStart hccParams) eecp := by
  rw [← Chain.First.congr hok.stopsAt_iff]
  constructor
  · rintro ⟨fuel, hfuel⟩
    rw [run_ownershipWalk, Option.map_eq_some_iff] at hfuel
    obtain ⟨r, hr, hend⟩ := hfuel
    cases r with
    | none => cases hend
    | some e =>
      rw [walkEnd] at hend
      split at hend
      · cases hend
        exact Chain.exists_search_eq_iff.mp ⟨fuel, hr⟩
      · cases hend
  · intro hfirst
    obtain ⟨fuel, hfuel⟩ := Chain.exists_search_eq_iff.mpr hfirst
    obtain ⟨n, hn, -⟩ := hfirst
    refine ⟨fuel, ?_⟩
    rw [run_ownershipWalk, show eecpNode _ = eecpStart hccParams from rfl, hfuel, Option.map_some, walkEnd,
      if_pos (hok.1 n eecp hn)]

theorem EecpListOk.walksTo_absent (hok : EecpListOk regions address h hccParams)
    (hnone : ∀ eecp, ¬ Chain.First (eecpLink (h.spaces address.place))
      (fun eecp => h.spaces address.place eecp.toNat = 1) (eecpStart hccParams) eecp) :
    WalksTo regions address fallback layouts h hccParams .absent := by
  obtain ⟨fuel, hfuel⟩ :=
    Chain.exists_search_iff (p := StopsAt regions address (h.spaces address.place)).mpr (.inr hok.2)
  obtain ⟨r, hr⟩ := Option.ne_none_iff_exists'.mp hfuel
  refine ⟨fuel, ?_⟩
  rw [run_ownershipWalk, show eecpNode _ = eecpStart hccParams from rfl, hr]
  cases r with
  | none => rfl
  | some e =>
    have hfirst := (Chain.First.congr hok.stopsAt_iff).mp (Chain.exists_search_eq_iff.mp ⟨fuel, hr⟩)
    exact absurd hfirst (hnone e)

/-- **The loop over the capabilities is right exactly when the list ends.** -/
theorem ownership_right_iff : OwnershipRight regions address fallback layouts h hccParams ↔
    EecpListEnds regions address h hccParams :=
  ⟨fun hright => terminates_iff_listEnds.mp hright.terminates,
    fun hends => ⟨terminates_iff_listEnds.mpr hends, fun hok => hok.walksTo_found, fun hok => hok.walksTo_absent⟩⟩

end

end Dem64.Ehci
