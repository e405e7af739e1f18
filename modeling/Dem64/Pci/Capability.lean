import Dem64.Lib.Chain
import Dem64.Pci.Access
import Mathlib.Order.Interval.Finset.Nat

/-!
# The capabilities of a function

`pci_find_capability` and `pci_find_extended_capability` (`pci.c`) follow the links that a function has in its
configuration space.  The links are hardware's, so they may run in cycles or leave the list; the loops count the nodes.

What they look for is the first node with an id on a chain (`capabilityLink`, `extendedLink`).  The nodes of a chain are
dwords of the space, 48 and 960 of them, so the bounds of the loops cut nothing off.
-/

set_option autoImplicit false

namespace Dem64

namespace Pci

open Interaction Interaction.Prog

/-! ## `pci.c` -/

def PCI_STATUS_UNSUPPORTED : Nat := 5
def PCI_STATUS_NOT_FOUND : Nat := 6

/-- A bit of the status register. -/
def PCI_STATUS_CAPABILITIES : BitVec 16 := 1 <<< 4

section

variable (regions : List PciEcamRegion) (address : PciAddress)

/-- The loop of `pci_find_capability`, with the iterations that are left: the node it has found. -/
def findCapabilityLoop (capabilityId : BitVec 8) : Nat → BitVec 8 → PciM (Option (BitVec 8))
  | 0, _ => pure none
  | left + 1, pointer =>
    if 0x40 ≤ pointer then do
      let id ← pciRead8M regions address (pointer.setWidth 16)
      if id = capabilityId then pure (some pointer)
      else do
        let next ← pciRead8M regions address (pointer.setWidth 16 + 1)
        findCapabilityLoop capabilityId left (next &&& 0xfc)
    else pure none

/-- `pci_find_capability`: the status, and what is stored through the pointer, which may be null. -/
def pciFindCapability (capabilityId : BitVec 8) (offsetGiven : Bool) : PciM (Nat × Option (BitVec 16)) :=
  if offsetGiven = false then pure (PCI_STATUS_NOT_FOUND, none)
  else do
    let status ← pciRead16M regions address 0x06
    if status &&& PCI_STATUS_CAPABILITIES = 0 then pure (PCI_STATUS_NOT_FOUND, none)
    else do
      let headerType ← pciRead8M regions address 0x0e
      let pointer ← pciRead8M regions address (if headerType &&& 0x7f = 2 then 0x14 else 0x34)
      let found ← findCapabilityLoop regions address capabilityId 48 (pointer &&& 0xfc)
      match found with
      | some pointer => pure (PCI_STATUS_SUCCESS, some (pointer.setWidth 16))
      | none => pure (PCI_STATUS_NOT_FOUND, none)

/-- The loop of `pci_find_extended_capability`. -/
def findExtendedLoop (capabilityId : BitVec 16) : Nat → BitVec 16 → PciM (Option (BitVec 16))
  | 0, _ => pure none
  | left + 1, pointer =>
    if 0x100 ≤ pointer ∧ pointer < 0x1000 then do
      let header ← pciRead32M regions address pointer
      if header = 0 ∨ header = 0xffffffff then pure none
      else if header &&& 0xffff = capabilityId.setWidth 32 then pure (some pointer)
      else
        let next : BitVec 16 := ((header >>> 20) &&& 0xffc).setWidth 16
        if next = 0 ∨ next = pointer then pure none
        else findExtendedLoop capabilityId left next
    else pure none

/-- `pci_find_extended_capability`. -/
def pciFindExtendedCapability (capabilityId : BitVec 16) (offsetGiven : Bool) : PciM (Nat × Option (BitVec 16)) :=
  if offsetGiven = false ∨ findEcamRegion regions address.segment address.bus = none then
    pure (PCI_STATUS_UNSUPPORTED, none)
  else do
    let found ← findExtendedLoop regions address capabilityId 960 0x100
    match found with
    | some pointer => pure (PCI_STATUS_SUCCESS, some pointer)
    | none => pure (PCI_STATUS_NOT_FOUND, none)

end

/-! ## What the searches are for -/

section

variable (space : Space)

/-- A pointer below 0x40 leads to no node. -/
def capabilityNode (pointer : BitVec 8) : Option (BitVec 8) := if 0x40 ≤ pointer then some pointer else none

/-- The list starts behind the pointer of the header. -/
def capabilityStart : Option (BitVec 8) :=
  capabilityNode (space (if space 0x0e &&& 0x7f = 2 then 0x14 else 0x34) &&& 0xfc)

/-- The node behind a node. -/
def capabilityLink (pointer : BitVec 8) : Option (BitVec 8) := capabilityNode (space (pointer.toNat + 1) &&& 0xfc)

/-- The function says that it has a list. -/
def HasCapabilities : Prop := (space 7 ++ space 6) &&& PCI_STATUS_CAPABILITIES ≠ 0

instance : Decidable (HasCapabilities space) := inferInstanceAs (Decidable (_ ≠ _))

/-- The first capability with an id. -/
def FirstCapability (capabilityId pointer : BitVec 8) : Prop :=
  Chain.First (capabilityLink space) (fun pointer => space pointer.toNat = capabilityId) (capabilityStart space) pointer

/-- The header of an extended capability. -/
def extendedHeader (pointer : BitVec 16) : BitVec 32 := dwordAt space pointer.toNat

/-- A pointer below 0x100 leads to no node. -/
def extendedNode (pointer : BitVec 16) : Option (BitVec 16) := if 0x100 ≤ pointer then some pointer else none

/-- The node behind a node. -/
def extendedLink (pointer : BitVec 16) : Option (BitVec 16) :=
  extendedNode (((extendedHeader space pointer >>> 20) &&& 0xffc).setWidth 16)

/-- The header has an id. -/
def HasId (capabilityId pointer : BitVec 16) : Prop :=
  extendedHeader space pointer &&& 0xffff = capabilityId.setWidth 32

instance (capabilityId pointer : BitVec 16) : Decidable (HasId space capabilityId pointer) :=
  inferInstanceAs (Decidable (_ = _))

/-- A header of zeros or ones is none. -/
def Present (pointer : BitVec 16) : Prop := extendedHeader space pointer ≠ 0 ∧ extendedHeader space pointer ≠ 0xffffffff

instance (pointer : BitVec 16) : Decidable (Present space pointer) := inferInstanceAs (Decidable (_ ∧ _))

/-- Where there is no header there is no node. -/
def presentNode (pointer : BitVec 16) : Option (BitVec 16) := (extendedNode pointer).filter (Present space ·)

/-- The node behind a node, if it has a header. -/
def presentLink (pointer : BitVec 16) : Option (BitVec 16) := (extendedLink space pointer).filter (Present space ·)

/-- The first extended capability with an id, on the chain that ends where there is no header. -/
def FirstExtended (capabilityId pointer : BitVec 16) : Prop :=
  Chain.First (presentLink space) (HasId space capabilityId) (presentNode space 0x100) pointer

end

/-! ## What a read gives -/

section

variable (regions : List PciEcamRegion) (address : PciAddress)

/-- The region behind the accesses; where there is none, any will do. -/
def regionOf (fallback : PciEcamRegion) : PciEcamRegion :=
  (findEcamRegion regions address.segment address.bus).getD fallback

/-- The function as reads show it: one that no mechanism reaches has all ones. -/
def visibleSpace (spaces : Place → Space) : Space :=
  if address.device < 32 ∧ address.function < 8 ∧
      (findEcamRegion regions address.segment address.bus ≠ none ∨ address.segment = 0) then spaces address.place
  else fun _ => 0xff

end

section

variable {regions : List PciEcamRegion} {address : PciAddress} {fallback : PciEcamRegion} {layouts : Place → Layout}
  {offset : BitVec 16} {P : Seen → Prop} {v : Seen}

theorem reaches_regionOf_iff : Reaches regions (regionOf regions address fallback) address ↔
    address.device < 32 ∧ address.function < 8 ∧
      (findEcamRegion regions address.segment address.bus ≠ none ∨ address.segment = 0) := by
  rw [Reaches, regionOf]
  cases findEcamRegion regions address.segment address.bus with
  | none => simp
  | some r => simp

theorem eq_regionOf (r : PciEcamRegion) (h : findEcamRegion regions address.segment address.bus = some r) :
    r = regionOf regions address fallback := by
  rw [regionOf, h, Option.getD_some]

/-- Every byte of the first 256 can be read. -/
theorem exec_read8 (ho : offset.toNat < 256) (hP : P v) :
    Exec (watchedHost (regionOf regions address fallback) layouts) seen P (pciRead8M regions address offset) v
      (visibleSpace regions address v.spaces offset.toNat) v := by
  by_cases hr : Reaches regions (regionOf regions address fallback) address
  · rw [visibleSpace, if_pos (reaches_regionOf_iff.mp hr)]
    exact exec_pciRead8M hr
      ⟨hr.1, hr.2.1, .inl rfl, ho, fun h => absurd h.1 (by decide), fun h => absurd h.1 (by decide)⟩ hP
  · rw [visibleSpace, if_neg (fun h => hr (reaches_regionOf_iff.mpr h))]
    exact exec_pciRead8M_refused hr eq_regionOf hP

/-- The status register. -/
theorem exec_readStatus (hP : P v) :
    Exec (watchedHost (regionOf regions address fallback) layouts) seen P (pciRead16M regions address 0x06) v
      (visibleSpace regions address v.spaces 7 ++ visibleSpace regions address v.spaces 6) v := by
  by_cases hr : Reaches regions (regionOf regions address fallback) address
  · rw [visibleSpace, if_pos (reaches_regionOf_iff.mp hr)]
    exact exec_pciRead16M hr ⟨hr.1, hr.2.1, .inr (.inl rfl), by decide, by decide, by decide⟩ hP
  · rw [visibleSpace, if_neg (fun h => hr (reaches_regionOf_iff.mpr h))]
    exact (exec_pciReadOr_refused hr eq_regionOf hP).bind (.pure hP)

/-- Every dword of a function in a region can be read. -/
theorem exec_read32 (hfind : findEcamRegion regions address.segment address.bus ≠ none) (h4 : offset.toNat % 4 = 0)
    (ho : offset.toNat < 4096) (hP : P v) :
    Exec (watchedHost (regionOf regions address fallback) layouts) seen P (pciRead32M regions address offset) v
      (extendedHeader (visibleSpace regions address v.spaces) offset) v := by
  rw [extendedHeader]
  by_cases hr : Reaches regions (regionOf regions address fallback) address
  · rw [visibleSpace, if_pos (reaches_regionOf_iff.mp hr)]
    obtain ⟨r, hsome⟩ := Option.ne_none_iff_exists'.mp hfind
    have haligned : offset &&& 3 = 0 := by
      apply BitVec.eq_of_toNat_eq
      rw [toNat_and_three, h4]
      rfl
    have hv : ValidAccess address offset 4 PCI_CONFIG_PCIE_SIZE := by
      refine ⟨hr.1, hr.2.1, .inr (.inr rfl), ?_, fun h => absurd h.1 (by decide), fun h => h.2 haligned⟩
      have h4' : (4 : BitVec 8).toNat = 4 := rfl
      rw [PCI_CONFIG_PCIE_SIZE]
      omega
    rw [← eq_regionOf r hsome]
    exact (exec_pciConfigRead_ecam hsome hv hP).bind (.pure hP)
  · have hones : dwordAt (fun _ => 0xff) offset.toNat = 0xffffffff := by
      rw [dwordAt]
      rfl
    rw [visibleSpace, if_neg (fun h => hr (reaches_regionOf_iff.mpr h)), hones]
    exact exec_pciReadOr_refused hr eq_regionOf hP

end

/-! ## The loops are walks -/

section

variable {regions : List PciEcamRegion} {address : PciAddress} {fallback : PciEcamRegion} {layouts : Place → Layout}
  {P : Seen → Prop} {v : Seen} {n : Nat}

theorem capabilityNode_some {pointer p : BitVec 8} (h : capabilityNode pointer = some p) :
    0x40 ≤ pointer ∧ pointer = p := by
  rw [capabilityNode] at h
  split at h
  next hle => exact ⟨hle, Option.some.inj h⟩
  next => cases h

theorem toNat_setWidth_pointer (pointer : BitVec 8) :
    (pointer.setWidth 16 : BitVec 16).toNat = pointer.toNat ∧
      (pointer.setWidth 16 + 1 : BitVec 16).toNat = pointer.toNat + 1 := by
  have hwidth : (pointer.setWidth 16 : BitVec 16).toNat = pointer.toNat := by
    rw [BitVec.toNat_setWidth]
    omega
  have hone : (1 : BitVec 16).toNat = 1 := rfl
  refine ⟨hwidth, ?_⟩
  rw [BitVec.toNat_add, hwidth, hone]
  exact Nat.mod_eq_of_lt (by omega)

theorem toNat_mask_pointer (x : BitVec 8) : (x &&& 0xfc).toNat % 4 = 0 := by
  rw [BitVec.toNat_and, show (4 : Nat) = 2 ^ 2 from rfl, Nat.and_mod_two_pow]
  exact Nat.and_zero _

theorem exec_findCapabilityLoop {capabilityId pointer : BitVec 8} (h4 : pointer.toNat % 4 = 0) (hP : P v) :
    Exec (watchedHost (regionOf regions address fallback) layouts) seen P
      (findCapabilityLoop regions address capabilityId n pointer) v
      (Chain.search (capabilityLink (visibleSpace regions address v.spaces))
        (fun pointer => visibleSpace regions address v.spaces pointer.toNat = capabilityId) n
        (capabilityNode pointer)).join v := by
  induction n generalizing pointer with
  | zero =>
    rw [findCapabilityLoop, capabilityNode]
    split
    · exact .pure hP
    · exact .pure hP
  | succ n ih =>
    rw [findCapabilityLoop, capabilityNode]
    split
    next hle =>
      obtain ⟨hwidth, hsucc⟩ := toNat_setWidth_pointer pointer
      refine Exec.bind (exec_read8 (by omega) hP) ?_
      rw [hwidth, Chain.search]
      split
      next => exact .pure hP
      next =>
        refine Exec.bind (exec_read8 (by omega) hP) ?_
        rw [hsucc]
        exact ih (toNat_mask_pointer _)
    next =>
      rw [Chain.search_none]
      exact .pure hP

theorem toNat_mask_header (x : BitVec 32) :
    (((x >>> 20) &&& 0xffc).setWidth 16 : BitVec 16).toNat % 4 = 0 ∧
      (((x >>> 20) &&& 0xffc).setWidth 16 : BitVec 16).toNat < 0x1000 := by
  have hle : ((x >>> 20) &&& 0xffc).toNat ≤ 0xffc := by
    rw [BitVec.toNat_and]
    exact Nat.and_le_right
  have hmod : ((x >>> 20) &&& 0xffc).toNat % 4 = 0 := by
    rw [BitVec.toNat_and, show (4 : Nat) = 2 ^ 2 from rfl, Nat.and_mod_two_pow]
    exact Nat.and_zero _
  have hlt : ((x >>> 20) &&& 0xffc).toNat < 2 ^ 16 := Nat.lt_of_le_of_lt hle (by decide)
  rw [BitVec.toNat_setWidth, Nat.mod_eq_of_lt hlt]
  exact ⟨hmod, Nat.lt_of_le_of_lt hle (by decide)⟩

theorem presentNode_of_present {space : Space} {pointer : BitVec 16} (hle : 0x100 ≤ pointer)
    (hpresent : Present space pointer) : presentNode space pointer = some pointer := by
  rw [presentNode, extendedNode, if_pos hle]
  exact Option.filter_some_pos (decide_eq_true hpresent)

theorem presentNode_of_not_present {space : Space} {pointer : BitVec 16} (hpresent : ¬ Present space pointer) :
    presentNode space pointer = none := by
  rw [presentNode, extendedNode]
  split
  · exact Option.filter_some_neg (by simpa using hpresent)
  · rfl

theorem presentNode_of_lt {space : Space} {pointer : BitVec 16} (hle : ¬ 0x100 ≤ pointer) :
    presentNode space pointer = none := by
  rw [presentNode, extendedNode, if_neg hle]
  rfl

theorem exec_findExtendedLoop {capabilityId pointer : BitVec 16}
    (hfind : findEcamRegion regions address.segment address.bus ≠ none) (h4 : pointer.toNat % 4 = 0)
    (hlt : pointer.toNat < 0x1000) (hP : P v) :
    Exec (watchedHost (regionOf regions address fallback) layouts) seen P
      (findExtendedLoop regions address capabilityId n pointer) v
      (Chain.search (presentLink (visibleSpace regions address v.spaces))
        (HasId (visibleSpace regions address v.spaces) capabilityId) n
        (presentNode (visibleSpace regions address v.spaces) pointer)).join v := by
  generalize hspace : visibleSpace regions address v.spaces = space
  induction n generalizing pointer with
  | zero =>
    have hnone : (Chain.search (presentLink space) (HasId space capabilityId) 0 (presentNode space pointer)).join =
        none := by
      cases presentNode space pointer <;> rfl
    rw [hnone]
    exact .pure hP
  | succ n ih =>
    rw [findExtendedLoop]
    by_cases hle : 0x100 ≤ pointer
    · rw [if_pos ⟨hle, BitVec.lt_def.mpr hlt⟩]
      refine Exec.bind (exec_read32 hfind h4 hlt hP) ?_
      rw [hspace]
      by_cases hpresent : Present space pointer
      · rw [if_neg (not_or.mpr hpresent), presentNode_of_present hle hpresent, Chain.search]
        by_cases hid : extendedHeader space pointer &&& 0xffff = capabilityId.setWidth 32
        · have hid' : HasId space capabilityId pointer := hid
          rw [if_pos hid, if_pos hid']
          exact .pure hP
        · have hid' : ¬ HasId space capabilityId pointer := hid
          rw [if_neg hid, if_neg hid']
          have hlink : presentLink space pointer =
              presentNode space (((extendedHeader space pointer >>> 20) &&& 0xffc).setWidth 16) := rfl
          -- the two reasons to stop early lose no node: zero leads to none, and a self link to the same one
          dsimp only
          split
          next hstop =>
            rcases hstop with hzero | hself
            · rw [hlink, hzero, presentNode_of_lt (by decide), Chain.search_none]
              exact .pure hP
            · rw [hself, presentNode_of_present hle hpresent] at hlink
              rw [hlink, Chain.join_search_self hlink hid']
              exact .pure hP
          next =>
            rw [hlink]
            exact ih (toNat_mask_header _).1 (toNat_mask_header _).2
      · have habsent : extendedHeader space pointer = 0 ∨ extendedHeader space pointer = 0xffffffff := by
          by_contra h
          exact hpresent (not_or.mp h)
        rw [if_pos habsent, presentNode_of_not_present hpresent, Chain.search_none]
        exact .pure hP
    · rw [if_neg (fun h => hle h.1), presentNode_of_lt hle, Chain.search_none]
      exact .pure hP

end

/-! ## The bounds -/

section

variable {w lo hi : Nat}

/-- The offsets of dwords. -/
def dwordOffsets (w lo hi : Nat) : Finset (BitVec w) := (Finset.Ico lo hi).image fun i => BitVec.ofNat w (4 * i)

theorem card_dwordOffsets_le : (dwordOffsets w lo hi).card ≤ hi - lo :=
  Finset.card_image_le.trans (Nat.card_Ico lo hi).le

theorem mem_dwordOffsets {x : BitVec w} (h4 : x.toNat % 4 = 0) (hlo : 4 * lo ≤ x.toNat) (hhi : x.toNat < 4 * hi) :
    x ∈ dwordOffsets w lo hi := by
  refine Finset.mem_image.mpr ⟨x.toNat / 4, Finset.mem_Ico.mpr (by omega), ?_⟩
  apply BitVec.eq_of_toNat_eq
  rw [BitVec.toNat_ofNat, Nat.mul_div_cancel' (Nat.dvd_of_mod_eq_zero h4), Nat.mod_eq_of_lt x.isLt]

end

section

variable {space : Space}

/-- There are 48 dwords from 0x40 on. -/
theorem search_capability_iff {capabilityId pointer : BitVec 8} :
    (Chain.search (capabilityLink space) (fun pointer => space pointer.toNat = capabilityId) 48
      (capabilityStart space)).join = some pointer ↔ FirstCapability space capabilityId pointer := by
  have hnode : ∀ x b : BitVec 8, capabilityNode (x &&& 0xfc) = some b → b ∈ dwordOffsets 8 16 64 := by
    intro x b hb
    obtain ⟨hle, rfl⟩ := capabilityNode_some hb
    exact mem_dwordOffsets (toNat_mask_pointer x) (BitVec.le_def.mp hle) (x &&& 0xfc).isLt
  have hmem : ∀ m b, Chain.node (capabilityLink space) (capabilityStart space) m = some b → b ∈ dwordOffsets 8 16 64 :=
    fun m b h => Chain.node_all (fun b h => hnode _ b h) (fun a b h => hnode _ b h) h
  rw [Option.join_eq_some_iff]
  exact Chain.search_eq_iff_first hmem card_dwordOffsets_le

/-- There are 960 dwords from 0x100 on. -/
theorem search_extended_iff {capabilityId pointer : BitVec 16} :
    (Chain.search (presentLink space) (HasId space capabilityId) 960 (presentNode space 0x100)).join = some pointer ↔
      FirstExtended space capabilityId pointer := by
  have hnode : ∀ x b : BitVec 16, x.toNat % 4 = 0 → x.toNat < 0x1000 → presentNode space x = some b →
      b ∈ dwordOffsets 16 64 1024 := by
    intro x b h4 hlt hb
    by_cases hle : 0x100 ≤ x
    · rw [presentNode, extendedNode, if_pos hle] at hb
      obtain rfl := Option.some.inj (Option.filter_eq_some_iff.mp hb).1
      exact mem_dwordOffsets h4 (BitVec.le_def.mp hle) hlt
    · rw [presentNode_of_lt hle] at hb
      cases hb
  have hmem : ∀ m b, Chain.node (presentLink space) (presentNode space 0x100) m = some b →
      b ∈ dwordOffsets 16 64 1024 :=
    fun m b h => Chain.node_all (fun b h => hnode _ b (by decide) (by decide) h)
      (fun a b h => hnode _ b (toNat_mask_header _).1 (toNat_mask_header _).2 h) h
  rw [Option.join_eq_some_iff]
  exact Chain.search_eq_iff_first hmem card_dwordOffsets_le

end

/-! ## What the searches ask -/

section

variable (regions : List PciEcamRegion) (address : PciAddress)

/-- The operation reads the first `n` bytes of the function's space. -/
def ReadsWithin (n : Nat) : PciOp → Prop
  | .load a size => ∃ region, findEcamRegion regions address.segment address.bus = some region ∧
      (windowPlace region a).1 = address.place ∧ (windowPlace region a).2 + size ≤ n
  | .outl port value => port = 0xcf8 ∧ selectedPlace value = address.place ∧ selectedOffset value + 4 ≤ n
  | .inl port => port = 0xcfc
  | .store .. => False
  | .lock => True
  | .unlock => True

/-- Whatever it is answered, the program reads the first `n` bytes only, and asks `m` operations at most. -/
def Reads {α : Type} (n m : Nat) (p : PciM α) : Prop := p.Asks (ReadsWithin regions address n) ∧ p.Within m

variable {regions address} {offset : BitVec 16} {size : BitVec 8} {value : BitVec 32} {n m k : Nat} {α β : Type}

theorem Reads.pure (a : α) : Reads regions address n m (pure a : PciM α) := ⟨trivial, within_pure a⟩

theorem Reads.bind {p : PciM α} {f : α → PciM β} (hp : Reads regions address n m p)
    (hf : ∀ a, Reads regions address n k (f a)) : Reads regions address n (m + k) (p >>= f) :=
  ⟨hp.1.bind fun a => (hf a).1, hp.2.bind fun a => (hf a).2⟩

theorem Reads.call {o : PciOp} (h : ReadsWithin regions address n o) : Reads regions address n 1 (Prog.call o) :=
  ⟨asks_call.mpr h, within_call o⟩

theorem Reads.ite {c : Prop} [Decidable c] {p q : PciM α} (hp : c → Reads regions address n m p)
    (hq : ¬ c → Reads regions address n m q) : Reads regions address n m (if c then p else q) := by
  by_cases hc : c
  · rw [if_pos hc]
    exact hp hc
  · rw [if_neg hc]
    exact hq hc

theorem reads_pciConfigRead (hn : n % 4 = 0) (ho : offset.toNat + size.toNat ≤ n) :
    Reads regions address n 4 (pciConfigRead regions address offset size true) := by
  rw [pciConfigRead, if_neg (by decide)]
  cases hfind : findEcamRegion regions address.segment address.bus with
  | some region =>
    refine .ite (fun _ => .pure _) fun hv => ?_
    have hv := not_not.mp hv
    have hwindow := windowPlace_ecamPointer hv.toNat.1 hv.toNat.2 hv.offset_lt (findEcamRegion_some hfind)
    have hload : ReadsWithin regions address n (.load (ecamPointer region address offset) size.toNat) := by
      refine ⟨region, hfind, ?_, ?_⟩
      · rw [hwindow]
      · rw [hwindow]
        exact ho
    exact Reads.bind (m := 1) (k := 3) (.call hload) fun _ => .pure _
  | none =>
    refine .ite (fun _ => .pure _) fun hv => ?_
    have hv := not_not.mp (not_or.mp hv).2
    have haligned := hv.aligned.1
    have hsize : 0 < size.toNat := by
      obtain h | h | h := hv.2.2.1
      all_goals
        rw [h]
        decide
    have hselect : ReadsWithin regions address n (.outl 0xcf8 (configAddress address offset)) := by
      refine ⟨rfl, selectedPlace_configAddress hv.toNat.1 hv.toNat.2, ?_⟩
      rw [selectedOffset_configAddress hv.offset_lt]
      omega
    refine Reads.bind (m := 1) (k := 3) (.call trivial) fun _ => ?_
    refine Reads.bind (m := 1) (k := 2) (.call hselect) fun _ => ?_
    refine Reads.bind (m := 1) (k := 1) (.call rfl) fun data => ?_
    refine Reads.bind (m := 1) (k := 0) (.call trivial) fun _ => ?_
    exact .ite (fun _ => .pure _) fun _ => .ite (fun _ => .pure _) fun _ => .pure _

theorem reads_pciReadOr (hn : n % 4 = 0) (ho : offset.toNat + size.toNat ≤ n) :
    Reads regions address n 4 (pciReadOr regions address offset size value) :=
  Reads.bind (k := 0) (reads_pciConfigRead hn ho) fun _ => .pure _

theorem reads_pciRead8M (ho : offset.toNat < 256) : Reads regions address 256 4 (pciRead8M regions address offset) :=
  Reads.bind (k := 0) (reads_pciReadOr (by decide) ho) fun _ => .pure _

theorem reads_findCapabilityLoop {capabilityId pointer : BitVec 8} (h4 : pointer.toNat % 4 = 0) {left : Nat} :
    Reads regions address 256 (8 * left) (findCapabilityLoop regions address capabilityId left pointer) := by
  induction left generalizing pointer with
  | zero => exact .pure _
  | succ left ih =>
    obtain ⟨hwidth, hsucc⟩ := toNat_setWidth_pointer pointer
    rw [findCapabilityLoop, show 8 * (left + 1) = 4 + (4 + 8 * left) by omega]
    refine .ite (fun _ => ?_) fun _ => .pure _
    refine Reads.bind (reads_pciRead8M (by omega)) fun id => .ite (fun _ => .pure _) fun _ => ?_
    exact Reads.bind (reads_pciRead8M (by omega)) fun next => ih (toNat_mask_pointer next)

theorem reads_pciFindCapability {capabilityId : BitVec 8} {offsetGiven : Bool} :
    Reads regions address 256 396 (pciFindCapability regions address capabilityId offsetGiven) := by
  refine .ite (fun _ => .pure _) fun _ => ?_
  refine Reads.bind (m := 4) (k := 392) (.bind (k := 0) (reads_pciReadOr (by decide) (by decide)) fun _ => .pure _)
    fun status => .ite (fun _ => .pure _) fun _ => ?_
  refine Reads.bind (m := 4) (k := 388) (reads_pciRead8M (by decide)) fun headerType => ?_
  have hstart : (if headerType &&& 0x7f = 2 then 0x14 else 0x34 : BitVec 16).toNat < 256 := by
    split
    · decide
    · decide
  refine Reads.bind (m := 4) (k := 384) (reads_pciRead8M hstart) fun pointer => ?_
  refine Reads.bind (m := 384) (k := 0) (reads_findCapabilityLoop (toNat_mask_pointer pointer)) fun found => ?_
  cases found with
  | none => exact .pure _
  | some pointer => exact .pure _

theorem reads_findExtendedLoop {capabilityId pointer : BitVec 16} (h4 : pointer.toNat % 4 = 0) {left : Nat} :
    Reads regions address 4096 (4 * left) (findExtendedLoop regions address capabilityId left pointer) := by
  induction left generalizing pointer with
  | zero => exact .pure _
  | succ left ih =>
    rw [findExtendedLoop, show 4 * (left + 1) = 4 + 4 * left by omega]
    refine .ite (fun hle => ?_) fun _ => .pure _
    have hlt : pointer.toNat < 4096 := BitVec.lt_def.mp hle.2
    have hfour : (4 : BitVec 8).toNat = 4 := rfl
    refine Reads.bind (reads_pciReadOr (by decide) (by omega)) fun header => ?_
    refine .ite (fun _ => .pure _) fun _ => .ite (fun _ => .pure _) fun _ => .ite (fun _ => .pure _) fun _ => ?_
    exact ih (toNat_mask_header header).1

theorem reads_pciFindExtendedCapability {capabilityId : BitVec 16} {offsetGiven : Bool} :
    Reads regions address 4096 3840 (pciFindExtendedCapability regions address capabilityId offsetGiven) := by
  refine .ite (fun _ => .pure _) fun _ => ?_
  refine Reads.bind (m := 3840) (k := 0) (reads_findExtendedLoop (by decide)) fun found => ?_
  cases found with
  | none => exact .pure _
  | some pointer => exact .pure _

end

/-! ## What they return -/

section

variable {regions : List PciEcamRegion} {address : PciAddress} {fallback : PciEcamRegion} {layouts : Place → Layout}
  {h : Host} {α : Type}

/-- What a program returns does not depend on being watched. -/
theorem run_of_exec {p : PciM α} {a : α}
    (hp : Exec (watchedHost (regionOf regions address fallback) layouts) seen (fun _ => True) p ⟨h.spaces, []⟩ a
      ⟨h.spaces, []⟩) : (run (host (regionOf regions address fallback) layouts) p h).1 = a := by
  rw [← (hp (h, []) rfl).1]
  exact (run_logging _ _ p h []).1.symm

/-- The result of a search that has got to the loop. -/
def searchResult : Option (BitVec 16) → Nat × Option (BitVec 16)
  | some offset => (PCI_STATUS_SUCCESS, some offset)
  | none => (PCI_STATUS_NOT_FOUND, none)

theorem run_pciFindCapability {capabilityId : BitVec 8} {offsetGiven : Bool} {space : Space}
    (hspace : visibleSpace regions address h.spaces = space) :
    (run (host (regionOf regions address fallback) layouts)
      (pciFindCapability regions address capabilityId offsetGiven) h).1 =
      if offsetGiven = true ∧ HasCapabilities space then
        searchResult ((Chain.search (capabilityLink space) (fun pointer => space pointer.toNat = capabilityId) 48
          (capabilityStart space)).join.map (·.setWidth 16))
      else (PCI_STATUS_NOT_FOUND, none) := by
  subst hspace
  apply run_of_exec
  rw [pciFindCapability]
  cases offsetGiven with
  | false => exact .pure trivial
  | true =>
    rw [if_neg (by decide)]
    refine Exec.bind (exec_readStatus trivial) ?_
    by_cases hlist : HasCapabilities (visibleSpace regions address h.spaces)
    · rw [if_neg hlist, if_pos ⟨rfl, hlist⟩]
      refine Exec.bind (exec_read8 (by decide) trivial) ?_
      have hstart :
          (if visibleSpace regions address h.spaces (0x0e : BitVec 16).toNat &&& 0x7f = 2 then 0x14 else 0x34 :
            BitVec 16).toNat = if visibleSpace regions address h.spaces 0x0e &&& 0x7f = 2 then 0x14 else 0x34 :=
        apply_ite BitVec.toNat _ _ _
      refine Exec.bind (exec_read8 (by rw [hstart]; split <;> decide) trivial) ?_
      rw [hstart]
      refine Exec.bind (exec_findCapabilityLoop (toNat_mask_pointer _) trivial) ?_
      rw [capabilityStart]
      cases (Chain.search (capabilityLink (visibleSpace regions address h.spaces))
        (fun pointer => visibleSpace regions address h.spaces pointer.toNat = capabilityId) 48 _).join with
      | some pointer => exact .pure trivial
      | none => exact .pure trivial
    · rw [if_pos (not_not.mp hlist), if_neg (fun h => hlist h.2)]
      exact .pure trivial

theorem run_pciFindExtendedCapability {capabilityId : BitVec 16} {offsetGiven : Bool} {space : Space}
    (hspace : visibleSpace regions address h.spaces = space) :
    (run (host (regionOf regions address fallback) layouts)
      (pciFindExtendedCapability regions address capabilityId offsetGiven) h).1 =
      if offsetGiven = true ∧ findEcamRegion regions address.segment address.bus ≠ none then
        searchResult
          (Chain.search (presentLink space) (HasId space capabilityId) 960 (presentNode space 0x100)).join
      else (PCI_STATUS_UNSUPPORTED, none) := by
  subst hspace
  apply run_of_exec
  rw [pciFindExtendedCapability]
  by_cases hgo : offsetGiven = true ∧ findEcamRegion regions address.segment address.bus ≠ none
  · rw [if_pos hgo, if_neg (fun h => h.elim (fun h => Bool.noConfusion (h.symm.trans hgo.1)) hgo.2)]
    refine Exec.bind (exec_findExtendedLoop hgo.2 (by decide) (by decide) trivial) ?_
    cases (Chain.search (presentLink (visibleSpace regions address h.spaces))
      (HasId (visibleSpace regions address h.spaces) capabilityId) 960 _).join with
    | some pointer => exact .pure trivial
    | none => exact .pure trivial
  · have hstop : offsetGiven = false ∨ findEcamRegion regions address.segment address.bus = none := by
      rcases Bool.eq_false_or_eq_true offsetGiven with hgiven | hgiven
      · exact .inr (not_not.mp fun h => hgo ⟨hgiven, h⟩)
      · exact .inl hgiven
    rw [if_neg hgo, if_pos hstop]
    exact .pure trivial

/-- A search with this result has found what has `P`, or has failed because nothing has. -/
def Finds (result : Nat × Option (BitVec 16)) (failed : Nat) (P : BitVec 16 → Prop) : Prop :=
  (∀ offset, result = (PCI_STATUS_SUCCESS, some offset) ↔ P offset) ∧ ((∀ offset, ¬ P offset) → result = (failed, none))

theorem finds_searchResult {found : Option (BitVec 16)} {P : BitVec 16 → Prop}
    (hP : ∀ offset, found = some offset ↔ P offset) :
    Finds (searchResult found) PCI_STATUS_NOT_FOUND P := by
  cases found with
  | some o =>
    refine ⟨fun offset => ?_, fun h => absurd ((hP o).mp rfl) (h o)⟩
    rw [← hP offset]
    simp [searchResult]
  | none =>
    refine ⟨fun offset => ?_, fun _ => rfl⟩
    rw [← hP offset]
    simp [searchResult, PCI_STATUS_NOT_FOUND, PCI_STATUS_SUCCESS]

theorem finds_of_failed {failed : Nat} {P : BitVec 16 → Prop} (hf : failed ≠ PCI_STATUS_SUCCESS)
    (hP : ∀ offset, ¬ P offset) :
    Finds (failed, none) failed P :=
  ⟨fun offset => ⟨fun h => absurd (Prod.mk.inj h).1 hf, fun h => absurd h (hP offset)⟩, fun _ => rfl⟩

/-- **Both searches find the first capability with the id**, wherever the links lead, and read nothing outside the
space.  The list of a function is there if the status register says so, the extended one if there is a region; an
extended header of zeros or ones ends the chain. -/
theorem pciFindCapability_first (regions : List PciEcamRegion) (address : PciAddress) (fallback : PciEcamRegion)
    (layouts : Place → Layout) (h : Host) (offsetGiven : Bool) :
    (∀ capabilityId,
      Reads regions address PCI_CONFIG_LEGACY_SIZE 396 (pciFindCapability regions address capabilityId offsetGiven) ∧
      Finds (run (host (regionOf regions address fallback) layouts)
          (pciFindCapability regions address capabilityId offsetGiven) h).1 PCI_STATUS_NOT_FOUND fun offset =>
        offsetGiven = true ∧ HasCapabilities (visibleSpace regions address h.spaces) ∧
          ∃ pointer, offset = pointer.setWidth 16 ∧
            FirstCapability (visibleSpace regions address h.spaces) capabilityId pointer) ∧
    ∀ capabilityId,
      Reads regions address PCI_CONFIG_PCIE_SIZE 3840
        (pciFindExtendedCapability regions address capabilityId offsetGiven) ∧
      Finds (run (host (regionOf regions address fallback) layouts)
          (pciFindExtendedCapability regions address capabilityId offsetGiven) h).1
        (if offsetGiven = true ∧ findEcamRegion regions address.segment address.bus ≠ none then PCI_STATUS_NOT_FOUND
          else PCI_STATUS_UNSUPPORTED) fun offset =>
        offsetGiven = true ∧ findEcamRegion regions address.segment address.bus ≠ none ∧
          FirstExtended (visibleSpace regions address h.spaces) capabilityId offset := by
  refine ⟨fun capabilityId => ⟨reads_pciFindCapability, ?_⟩,
    fun capabilityId => ⟨reads_pciFindExtendedCapability, ?_⟩⟩
  · rw [run_pciFindCapability rfl]
    split
    next hgo =>
      apply finds_searchResult
      intro offset
      rw [Option.map_eq_some_iff]
      constructor
      · rintro ⟨pointer, hp, rfl⟩
        exact ⟨hgo.1, hgo.2, pointer, rfl, search_capability_iff.mp hp⟩
      · rintro ⟨-, -, pointer, rfl, hp⟩
        exact ⟨pointer, search_capability_iff.mpr hp, rfl⟩
    next hgo => exact finds_of_failed (by decide) fun offset h => hgo ⟨h.1, h.2.1⟩
  · rw [run_pciFindExtendedCapability rfl]
    split
    next hgo =>
      apply finds_searchResult
      intro offset
      rw [search_extended_iff]
      exact ⟨fun hp => ⟨hgo.1, hgo.2, hp⟩, fun hp => hp.2.2⟩
    next hgo => exact finds_of_failed (by decide) fun offset h => hgo ⟨h.1, h.2.1⟩

end

/-- A function with an entry at 0x40 and an extended one at 0x100. -/
def unlistedSpace : Space := fun x => if x = 0x34 then 0x40 else if x = 0x40 then 5 else if x = 0x100 then 1 else 0

/-- A function with ones where the extended list starts. -/
def blankSpace : Space := fun x => if 0x100 ≤ x ∧ x < 0x104 then 0xff else if x = 0xffc then 1 else 0

/-- Its bits are read-only. -/
def readOnly : Layout := ⟨fun _ => 0, fun _ => 0, fun _ => rfl⟩

/-- A chain alone does not make a capability. -/
theorem not_first_on_chain :
    (FirstCapability unlistedSpace 5 0x40 ∧
      (run (host ⟨0, 0, 0, 0⟩ fun _ => readOnly) (pciFindCapability [] ⟨0, 0, 0, 0⟩ 5 true)
        ⟨fun _ => unlistedSpace, 0⟩).1 = (PCI_STATUS_NOT_FOUND, none)) ∧
    (Chain.First (extendedLink unlistedSpace) (HasId unlistedSpace 1) (extendedNode 0x100) 0x100 ∧
      (run (host ⟨0, 0, 0, 0⟩ fun _ => readOnly) (pciFindExtendedCapability [] ⟨0, 0, 0, 0⟩ 1 true)
        ⟨fun _ => unlistedSpace, 0⟩).1 = (PCI_STATUS_UNSUPPORTED, none)) ∧
    Chain.First (extendedLink blankSpace) (HasId blankSpace 1) (extendedNode 0x100) 0xffc ∧
      (run (host ⟨0, 0, 0, 0⟩ fun _ => readOnly) (pciFindExtendedCapability [⟨0, 0, 0, 0⟩] ⟨0, 0, 0, 0⟩ 1 true)
        ⟨fun _ => blankSpace, 0⟩).1 = (PCI_STATUS_NOT_FOUND, none) := by
  refine ⟨⟨⟨0, Chain.firstAt_zero.mpr ⟨?_, ?_⟩⟩, ?_⟩, ⟨⟨0, Chain.firstAt_zero.mpr ⟨?_, ?_⟩⟩, ?_⟩,
    ⟨1, Chain.firstAt_succ.mpr ⟨?_, Chain.firstAt_zero.mpr ⟨?_, ?_⟩⟩⟩, ?_⟩
  all_goals decide
end Pci

end Dem64
