import Dem64.Lib.Interaction
import Dem64.Pci.Enumerate

/-!
# The path of the boot device

`Discover_BootDevice` (`pci.c`) reads a device path of the firmware: nodes one behind the other, each with its length,
up to an END node.  The PCI nodes name functions, where the bus is the one behind the last bridge that was named.

What a buffer says is `PathNodes`; `Discovered` is what is made of it.
-/

set_option autoImplicit false

namespace Dem64

namespace Pci

open Interaction Interaction.Prog

/-! ## `path.h` and `pci.c` -/

def PCI_STATUS_TOO_MANY_DEVICES : Nat := 4
def PCI_PATH_MAX_DEVICES : Nat := 32

def EFI_DEVICE_PATH_TYPE_HARDWARE : BitVec 8 := 0x01
def EFI_DEVICE_PATH_SUBTYPE_PCI : BitVec 8 := 0x01
def EFI_DEVICE_PATH_TYPE_END : BitVec 8 := 0x7f
def EFI_DEVICE_PATH_SUBTYPE_END_ENTIRE : BitVec 8 := 0xff

/-- `sizeof(EFI_DEVICE_PATH_PROTOCOL)` -/
def sizeofPathHeader : Nat := 4

/-- `sizeof(PCI_DEVICE_PATH)` -/
def sizeofPciPath : Nat := 6

/-- A program that reads the bytes of the buffer. -/
abbrev PathM := Prog Nat fun _ => BitVec 8

def pathByte (offset : Nat) : PathM (BitVec 8) := .call offset

/-- `device_path_node_length` -/
def devicePathNodeLength (offset : Nat) : PathM Nat := do
  let low ← pathByte (offset + 2)
  let high ← pathByte (offset + 3)
  pure (low.setWidth 16 ||| high.setWidth 16 <<< 8 : BitVec 16).toNat

/-- `PCI_PATH_RET`; `DeviceCount` is the number of the devices. -/
structure PciPathRet where
  status : Nat := PCI_STATUS_NOT_PRESENT
  devices : List PciRet := []

section

variable (t : Topology)

/-- `header1.secondary_bus` of a function. -/
def secondaryBus (address : PciAddress) : BitVec 8 := t address 0x19

/-- The loop of `Discover_BootDevice`; without a result the fuel was not enough. -/
def discoverLoop (size : Nat) : Nat → Nat → BitVec 8 → PciPathRet → PathM (Option PciPathRet)
  | 0, offset, _, result => if offset + sizeofPathHeader ≤ size then pure none else pure (some result)
  | fuel + 1, offset, bus, result =>
    if offset + sizeofPathHeader ≤ size then do
      let length ← devicePathNodeLength offset
      if length < sizeofPathHeader ∨ size < offset + length then
        pure (some { result with status := PCI_STATUS_INVALID_ADDRESS })
      else do
        let type ← pathByte offset
        let subType ← pathByte (offset + 1)
        if type = EFI_DEVICE_PATH_TYPE_END ∧ subType = EFI_DEVICE_PATH_SUBTYPE_END_ENTIRE then pure (some result)
        else if type = EFI_DEVICE_PATH_TYPE_HARDWARE ∧ subType = EFI_DEVICE_PATH_SUBTYPE_PCI then
          if length < sizeofPciPath then pure (some { result with status := PCI_STATUS_INVALID_ADDRESS })
          else if PCI_PATH_MAX_DEVICES ≤ result.devices.length then
            pure (some { result with status := PCI_STATUS_TOO_MANY_DEVICES })
          else do
            let device ← pathByte (offset + 5)
            let function ← pathByte (offset + 4)
            let info := pciGetInfo t ⟨0, bus, device, function⟩
            if info.status ≠ PCI_STATUS_SUCCESS then pure (some { result with status := info.status })
            else
              discoverLoop size fuel (offset + length) (if info.type = 1 then secondaryBus t info.address else bus)
                ⟨PCI_STATUS_SUCCESS, result.devices ++ [info]⟩
        else discoverLoop size fuel (offset + length) bus result
    else pure (some result)

/-- `Discover_BootDevice` of a buffer, which may be null. -/
def discoverBootDevice (pathGiven : Bool) (size : BitVec 32) (fuel : Nat) : PathM (Option PciPathRet) :=
  if pathGiven = false ∨ size.toInt < sizeofPathHeader then pure (some { status := PCI_STATUS_INVALID_ADDRESS })
  else discoverLoop t size.toNat fuel 0 0 {}

end

/-! ## What a buffer says -/

/-- How the nodes end. -/
inductive PathEnd
  /-- The buffer has no room for another node. -/
  | exhausted
  /-- An END node. -/
  | endNode
  /-- A node that is shorter than its header, too short for its kind, or longer than the buffer. -/
  | malformed
deriving DecidableEq

/-- The function that a PCI node names, without its bus. -/
structure PathFunction where
  device : BitVec 8
  function : BitVec 8

section

variable (bytes : Nat → BitVec 8) (size : Nat)

/-- The length of a node. -/
def nodeLength (offset : Nat) : Nat := (bytes (offset + 3) ++ bytes (offset + 2)).toNat

/-- The node ends the path. -/
def IsEndNode (offset : Nat) : Prop :=
  bytes offset = EFI_DEVICE_PATH_TYPE_END ∧ bytes (offset + 1) = EFI_DEVICE_PATH_SUBTYPE_END_ENTIRE

/-- The node names a PCI function. -/
def IsPciNode (offset : Nat) : Prop :=
  bytes offset = EFI_DEVICE_PATH_TYPE_HARDWARE ∧ bytes (offset + 1) = EFI_DEVICE_PATH_SUBTYPE_PCI

/-- The length of the node is wrong. -/
def IsMalformed (offset : Nat) : Prop :=
  nodeLength bytes offset < sizeofPathHeader ∨ size < offset + nodeLength bytes offset ∨
    IsPciNode bytes offset ∧ nodeLength bytes offset < sizeofPciPath

instance (offset : Nat) : Decidable (IsEndNode bytes offset) := inferInstanceAs (Decidable (_ ∧ _))

instance (offset : Nat) : Decidable (IsPciNode bytes offset) := inferInstanceAs (Decidable (_ ∧ _))

instance (offset : Nat) : Decidable (IsMalformed bytes size offset) := inferInstanceAs (Decidable (_ ∨ _ ∨ _ ∧ _))

/-- From the offset on the nodes name these functions, and end so. -/
inductive PathNodes : Nat → List PathFunction → PathEnd → Prop
  | exhausted {offset : Nat} (h : size < offset + sizeofPathHeader) : PathNodes offset [] .exhausted
  | malformed {offset : Nat} (h : offset + sizeofPathHeader ≤ size) (hbad : IsMalformed bytes size offset) :
      PathNodes offset [] .malformed
  | endNode {offset : Nat} (h : offset + sizeofPathHeader ≤ size) (hgood : ¬ IsMalformed bytes size offset)
      (hend : IsEndNode bytes offset) : PathNodes offset [] .endNode
  | pci {offset : Nat} {named : List PathFunction} {e : PathEnd} (h : offset + sizeofPathHeader ≤ size)
      (hgood : ¬ IsMalformed bytes size offset) (hpci : IsPciNode bytes offset)
      (hrest : PathNodes (offset + nodeLength bytes offset) named e) :
      PathNodes offset (⟨bytes (offset + 5), bytes (offset + 4)⟩ :: named) e
  | other {offset : Nat} {named : List PathFunction} {e : PathEnd} (h : offset + sizeofPathHeader ≤ size)
      (hgood : ¬ IsMalformed bytes size offset) (hend : ¬ IsEndNode bytes offset) (hpci : ¬ IsPciNode bytes offset)
      (hrest : PathNodes (offset + nodeLength bytes offset) named e) : PathNodes offset named e

variable {bytes size}

theorem not_isMalformed {offset : Nat} (h : ¬ IsMalformed bytes size offset) :
    sizeofPathHeader ≤ nodeLength bytes offset ∧ offset + nodeLength bytes offset ≤ size := by
  rw [IsMalformed, not_or, not_or] at h
  omega

theorem not_isEndNode_of_isPciNode {offset : Nat} (h : IsPciNode bytes offset) : ¬ IsEndNode bytes offset := by
  intro hend
  have htype := h.1.symm.trans hend.1
  exact absurd htype (by decide)

/-- Every buffer has nodes. -/
theorem exists_pathNodes (offset : Nat) : ∃ named e, PathNodes bytes size offset named e := by
  by_cases h : offset + sizeofPathHeader ≤ size
  · by_cases hbad : IsMalformed bytes size offset
    · exact ⟨[], .malformed, .malformed h hbad⟩
    · have hless : size - (offset + nodeLength bytes offset) < size - offset := by
        have hlength := not_isMalformed hbad
        rw [sizeofPathHeader] at h hlength
        omega
      obtain ⟨named, e, hrest⟩ := exists_pathNodes (offset + nodeLength bytes offset)
      by_cases hpci : IsPciNode bytes offset
      · exact ⟨_, e, .pci h hbad hpci hrest⟩
      · by_cases hend : IsEndNode bytes offset
        · exact ⟨[], .endNode, .endNode h hbad hend⟩
        · exact ⟨named, e, .other h hbad hend hpci hrest⟩
  · exact ⟨[], .exhausted, .exhausted (by omega)⟩
termination_by size - offset

end

/-! ## What is made of it -/

section

variable (t : Topology)

/-- The secondary bus of the last bridge, or 0. -/
def lastBus (devices : List PciRet) : BitVec 8 :=
  ((devices.filter (·.type = 1)).getLast?.map fun bridge => secondaryBus t bridge.address).getD 0

/-- The function that a node names behind these devices. -/
def PathFunction.info (devices : List PciRet) (n : PathFunction) : PciRet :=
  pciGetInfo t ⟨0, lastBus t devices, n.device, n.function⟩

/-- `r` is what there is to find: the functions that are named, in their order, up to a limit of 32 or to one that is
missing, and a status that says why there are no more. -/
structure Discovered (named : List PathFunction) (e : PathEnd) (r : PciPathRet) : Prop where
  count_le : r.devices.length ≤ PCI_PATH_MAX_DEVICES
  count_le_named : r.devices.length ≤ named.length
  device : ∀ i (d : PciRet), r.devices[i]? = some d → d.status = PCI_STATUS_SUCCESS ∧
    ∃ n : PathFunction, named[i]? = some n ∧ d = n.info t (r.devices.take i)
  stopped : ∀ n : PathFunction, named[r.devices.length]? = some n →
    if r.devices.length = PCI_PATH_MAX_DEVICES then r.status = PCI_STATUS_TOO_MANY_DEVICES
    else r.status = (n.info t r.devices).status ∧ r.status ≠ PCI_STATUS_SUCCESS
  ended : named[r.devices.length]? = none → r.status =
    if e = .malformed then PCI_STATUS_INVALID_ADDRESS
    else if r.devices = [] then PCI_STATUS_NOT_PRESENT else PCI_STATUS_SUCCESS

/-- The devices of the nodes, one after the other. -/
def resolve (e : PathEnd) : List PathFunction → BitVec 8 → PciPathRet → PciPathRet
  | [], _, result => if e = .malformed then { result with status := PCI_STATUS_INVALID_ADDRESS } else result
  | n :: named, bus, result =>
    if PCI_PATH_MAX_DEVICES ≤ result.devices.length then { result with status := PCI_STATUS_TOO_MANY_DEVICES }
    else
      let info := pciGetInfo t ⟨0, bus, n.device, n.function⟩
      if info.status ≠ PCI_STATUS_SUCCESS then { result with status := info.status }
      else resolve e named (if info.type = 1 then secondaryBus t info.address else bus)
        ⟨PCI_STATUS_SUCCESS, result.devices ++ [info]⟩

variable {t} {named before : List PathFunction} {e : PathEnd} {result : PciPathRet}

theorem lastBus_append (devices : List PciRet) (d : PciRet) :
    lastBus t (devices ++ [d]) = if d.type = 1 then secondaryBus t d.address else lastBus t devices := by
  rw [lastBus, List.filter_append]
  by_cases hd : d.type = 1
  · rw [List.filter_cons_of_pos (by simpa using hd), List.filter_nil, List.getLast?_concat, if_pos hd]
    rfl
  · rw [List.filter_cons_of_neg (by simpa using hd), List.filter_nil, List.append_nil, if_neg hd, lastBus]

/-- Part of a discovery: these nodes have their devices. -/
structure Found (t : Topology) (before : List PathFunction) (result : PciPathRet) : Prop where
  length : result.devices.length = before.length
  count_le : result.devices.length ≤ PCI_PATH_MAX_DEVICES
  device : ∀ i (d : PciRet), result.devices[i]? = some d → d.status = PCI_STATUS_SUCCESS ∧
    ∃ n : PathFunction, before[i]? = some n ∧ d = n.info t (result.devices.take i)
  status : result.status = if result.devices = [] then PCI_STATUS_NOT_PRESENT else PCI_STATUS_SUCCESS

/-- One more device. -/
theorem Found.append (h : Found t before result) {n : PathFunction} (hlt : result.devices.length < PCI_PATH_MAX_DEVICES)
    (hstatus : (n.info t result.devices).status = PCI_STATUS_SUCCESS) :
    Found t (before ++ [n]) ⟨PCI_STATUS_SUCCESS, result.devices ++ [n.info t result.devices]⟩ := by
  refine ⟨by simp [h.length], ?_, fun i d hd => ?_, ?_⟩
  · rw [List.length_append]
    exact hlt
  · dsimp only at hd
    rcases Nat.lt_trichotomy i result.devices.length with hi | hi | hi
    · rw [List.getElem?_append_left hi] at hd
      obtain ⟨hs, n', hn', hd'⟩ := h.device i d hd
      refine ⟨hs, n', ?_, ?_⟩
      · rw [List.getElem?_append_left (h.length ▸ hi), hn']
      · rw [List.take_append_of_le_length (Nat.le_of_lt hi), hd']
    · subst hi
      rw [List.getElem?_concat_length] at hd
      cases hd
      refine ⟨hstatus, n, ?_, ?_⟩
      · rw [h.length, List.getElem?_concat_length]
      · rw [List.take_left]
    · rw [List.getElem?_eq_none (by simp; omega)] at hd
      cases hd
  · simp

/-- The nodes that are left are resolved. -/
theorem Found.resolve (h : Found t before result) :
    Discovered t (before ++ named) e (resolve t e named (lastBus t result.devices) result) := by
  induction named generalizing before result with
  | nil =>
    rw [Pci.resolve, List.append_nil]
    have hnone : before[result.devices.length]? = none := List.getElem?_eq_none (Nat.le_of_eq h.length.symm)
    split
    next he =>
      refine ⟨h.count_le, Nat.le_of_eq h.length, h.device, fun n hn => ?_, fun _ => (if_pos he).symm⟩
      cases hnone.symm.trans hn
    next he =>
      refine ⟨h.count_le, Nat.le_of_eq h.length, h.device, fun n hn => ?_, fun _ => ?_⟩
      · cases hnone.symm.trans hn
      · rw [if_neg he]
        exact h.status
  | cons n named ih =>
    have hnext : (before ++ n :: named)[result.devices.length]? = some n := by
      rw [h.length, List.getElem?_append_right (Nat.le_refl _), Nat.sub_self]
      rfl
    have hlength : result.devices.length ≤ (before ++ n :: named).length := by
      rw [List.length_append, h.length]
      omega
    have hdevice : ∀ i (d : PciRet), result.devices[i]? = some d → d.status = PCI_STATUS_SUCCESS ∧
        ∃ n' : PathFunction, (before ++ n :: named)[i]? = some n' ∧ d = n'.info t (result.devices.take i) := by
      intro i d hd
      obtain ⟨hs, n', hn', hd'⟩ := h.device i d hd
      have hi : i < before.length := (List.getElem?_eq_some_iff.mp hn').1
      exact ⟨hs, n', by rw [List.getElem?_append_left hi, hn'], hd'⟩
    rw [Pci.resolve]
    split
    next hfull =>
      have heq : result.devices.length = PCI_PATH_MAX_DEVICES := Nat.le_antisymm h.count_le hfull
      refine ⟨h.count_le, hlength, hdevice, fun n' _ => ?_, fun hnone => ?_⟩
      · exact if_pos heq ▸ rfl
      · cases hnone.symm.trans hnext
    next hroom =>
      have hlt : result.devices.length < PCI_PATH_MAX_DEVICES := Nat.lt_of_not_le hroom
      dsimp only
      split
      next hmissing =>
        refine ⟨h.count_le, hlength, hdevice, fun n' hn' => ?_, fun hnone => ?_⟩
        · cases hnext.symm.trans hn'
          rw [if_neg (Nat.ne_of_lt hlt)]
          exact ⟨rfl, hmissing⟩
        · cases hnone.symm.trans hnext
      next hsuccess =>
        have hmore := ih (h.append hlt (not_not.mp hsuccess))
        rw [lastBus_append, List.append_assoc] at hmore
        exact hmore

end

/-! ## The run -/

section

variable {t : Topology} {bytes : Nat → BitVec 8} {size offset fuel : Nat} {bus : BitVec 8} {result : PciPathRet}
  {named : List PathFunction} {e : PathEnd}

/-- The buffer, which reading does not change. -/
def buffer (bytes : Nat → BitVec 8) : Handler Nat (fun _ => BitVec 8) Unit := fun i s => (bytes i, s)

theorem or_shiftLeft_byte (low high : BitVec 8) :
    (low.setWidth 16 ||| high.setWidth 16 <<< 8 : BitVec 16) = high ++ low := by
  apply BitVec.eq_of_getLsbD_eq
  intro i hi
  rw [BitVec.getLsbD_append, BitVec.getLsbD_or, BitVec.getLsbD_shiftLeft, BitVec.getLsbD_setWidth,
    BitVec.getLsbD_setWidth, decide_eq_true hi, decide_eq_true (show i - 8 < 16 by omega)]
  by_cases h8 : i < 8
  · simp [h8]
  · simp [h8, BitVec.getLsbD_of_ge low i (by omega)]

theorem run_devicePathNodeLength :
    run (buffer bytes) (devicePathNodeLength offset) () = (nodeLength bytes offset, ()) := by
  rw [nodeLength, ← or_shiftLeft_byte]
  rfl

/-- One node. -/
theorem run_discoverLoop_succ (h : offset + sizeofPathHeader ≤ size) :
    (run (buffer bytes) (discoverLoop t size (fuel + 1) offset bus result) ()).1 =
      if IsMalformed bytes size offset then some { result with status := PCI_STATUS_INVALID_ADDRESS }
      else if IsEndNode bytes offset then some result
      else if IsPciNode bytes offset then
        if PCI_PATH_MAX_DEVICES ≤ result.devices.length then
          some { result with status := PCI_STATUS_TOO_MANY_DEVICES }
        else
          let info := pciGetInfo t ⟨0, bus, bytes (offset + 5), bytes (offset + 4)⟩
          if info.status ≠ PCI_STATUS_SUCCESS then some { result with status := info.status }
          else (run (buffer bytes) (discoverLoop t size fuel (offset + nodeLength bytes offset)
            (if info.type = 1 then secondaryBus t info.address else bus)
            ⟨PCI_STATUS_SUCCESS, result.devices ++ [info]⟩) ()).1
      else (run (buffer bytes) (discoverLoop t size fuel (offset + nodeLength bytes offset) bus result) ()).1 := by
  rw [discoverLoop, if_pos h, run_bind, run_devicePathNodeLength]
  by_cases hlength : nodeLength bytes offset < sizeofPathHeader ∨ size < offset + nodeLength bytes offset
  · have hbad : IsMalformed bytes size offset := by
      rw [IsMalformed, ← or_assoc]
      exact .inl hlength
    rw [if_pos hlength, if_pos hbad]
    rfl
  · rw [if_neg hlength, run_bind, run_bind]
    show (run (buffer bytes) (if IsEndNode bytes offset then _ else if IsPciNode bytes offset then _ else _) ()).1 = _
    by_cases hpci : IsPciNode bytes offset
    · rw [if_neg (not_isEndNode_of_isPciNode hpci), if_pos hpci]
      by_cases hshort : nodeLength bytes offset < sizeofPciPath
      · rw [if_pos hshort, if_pos (show IsMalformed _ _ _ from .inr (.inr ⟨hpci, hshort⟩))]
        rfl
      · have hgood : ¬ IsMalformed bytes size offset := by
          rw [IsMalformed, ← or_assoc]
          exact fun hbad => hbad.elim hlength fun h => hshort h.2
        rw [if_neg hshort, if_neg hgood, if_neg (not_isEndNode_of_isPciNode hpci), if_pos hpci]
        split
        next => rfl
        next =>
          rw [run_bind, run_bind]
          show (run (buffer bytes) (if (pciGetInfo t ⟨0, bus, bytes (offset + 5), bytes (offset + 4)⟩).status ≠
            PCI_STATUS_SUCCESS then _ else _) ()).1 = _
          dsimp only
          split
          next => rfl
          next => rfl
    · have hgood : ¬ IsMalformed bytes size offset := by
        rw [IsMalformed, ← or_assoc]
        exact fun hbad => hbad.elim hlength fun h => hpci h.1
      rw [if_neg hpci, if_neg hgood, if_neg hpci]
      by_cases hend : IsEndNode bytes offset
      · rw [if_pos hend, if_pos hend]
        rfl
      · rw [if_neg hend, if_neg hend]

/-- **One pass does what the nodes say**, as soon as the fuel is enough for the rest of the buffer. -/
theorem run_discoverLoop (h : PathNodes bytes size offset named e) (hfuel : size < offset + 4 * (fuel + 1)) :
    (run (buffer bytes) (discoverLoop t size fuel offset bus result) ()).1 =
      some (resolve t e named bus result) := by
  have hpos : ∀ {fuel offset}, offset + sizeofPathHeader ≤ size → size < offset + 4 * (fuel + 1) →
      ∃ left, fuel = left + 1 := by
    intro fuel offset h hfuel
    rw [sizeofPathHeader] at h
    exact ⟨fuel - 1, by omega⟩
  have hless : ∀ {left offset}, ¬ IsMalformed bytes size offset → size < offset + 4 * (left + 1 + 1) →
      size < offset + nodeLength bytes offset + 4 * (left + 1) := by
    intro left offset hgood hfuel
    have hlength := (not_isMalformed hgood).1
    rw [sizeofPathHeader] at hlength
    omega
  induction h generalizing fuel bus result with
  | exhausted h =>
    cases fuel with
    | zero => rw [discoverLoop, if_neg (Nat.not_le.mpr h)]; rfl
    | succ fuel => rw [discoverLoop, if_neg (Nat.not_le.mpr h)]; rfl
  | malformed h hbad =>
    obtain ⟨left, rfl⟩ := hpos h hfuel
    rw [run_discoverLoop_succ h, if_pos hbad]
    rfl
  | endNode h hgood hend =>
    obtain ⟨left, rfl⟩ := hpos h hfuel
    rw [run_discoverLoop_succ h, if_neg hgood, if_pos hend]
    rfl
  | pci h hgood hpci _ ih =>
    obtain ⟨left, rfl⟩ := hpos h hfuel
    rw [run_discoverLoop_succ h, if_neg hgood, if_neg (not_isEndNode_of_isPciNode hpci), if_pos hpci, resolve]
    split
    next => rfl
    next =>
      dsimp only
      split
      next => rfl
      next => exact ih (hless hgood hfuel)
  | other h hgood hend hpci _ ih =>
    obtain ⟨left, rfl⟩ := hpos h hfuel
    rw [run_discoverLoop_succ h, if_neg hgood, if_neg hend, if_neg hpci]
    exact ih (hless hgood hfuel)

/-- Whatever is in the buffer, only its bytes are read. -/
theorem asks_discoverLoop : (discoverLoop t size fuel offset bus result).Asks (· < size) := by
  induction fuel generalizing offset bus result with
  | zero =>
    rw [discoverLoop]
    split
    · trivial
    · trivial
  | succ fuel ih =>
    rw [discoverLoop]
    split
    next h =>
      rw [sizeofPathHeader] at h
      have hlength : (devicePathNodeLength offset).Asks (· < size) :=
        Asks.bind (asks_call.mpr (by omega)) fun _ => Asks.bind (asks_call.mpr (by omega)) fun _ => trivial
      refine hlength.bind fun length => ?_
      split
      next => trivial
      next hgood =>
        refine Asks.bind (asks_call.mpr (by omega)) fun type => Asks.bind (asks_call.mpr (by omega)) fun subType => ?_
        split
        next => trivial
        next =>
          split
          next =>
            split
            next => trivial
            next h6 =>
              rw [sizeofPciPath] at h6
              split
              next => trivial
              next =>
                refine Asks.bind (asks_call.mpr (by omega)) fun device =>
                  Asks.bind (asks_call.mpr (by omega)) fun function => ?_
                dsimp only
                split
                next => trivial
                next => exact ih
          next => exact ih
    next => trivial

theorem discovered_resolve : Discovered t named e (resolve t e named 0 {}) := by
  have hfound : Found t [] {} := ⟨rfl, Nat.zero_le _, fun i d hd => absurd hd (by simp), rfl⟩
  exact hfound.resolve

end

/-- **`Discover_BootDevice` finds the functions that the path names.**  It ends, it reads no byte outside the buffer, and
its result is what the nodes of the buffer say. -/
theorem discoverBootDevice_exact (t : Topology) (bytes : Nat → BitVec 8) (pathGiven : Bool) (size : BitVec 32) :
    (∀ fuel, (discoverBootDevice t pathGiven size fuel).Asks fun i : Nat => (i : Int) < size.toInt) ∧
    ∃ r, (∀ fuel, size.toNat ≤ fuel →
        (run (buffer bytes) (discoverBootDevice t pathGiven size fuel) ()).1 = some r) ∧
      r.devices.length ≤ PCI_PATH_MAX_DEVICES ∧
      if pathGiven = false ∨ size.toInt < sizeofPathHeader then r = ⟨PCI_STATUS_INVALID_ADDRESS, []⟩
      else (∃ named e, PathNodes bytes size.toNat 0 named e) ∧
        ∀ named e, PathNodes bytes size.toNat 0 named e → Discovered t named e r := by
  by_cases hinvalid : pathGiven = false ∨ size.toInt < sizeofPathHeader
  · refine ⟨fun fuel => ?_, ⟨PCI_STATUS_INVALID_ADDRESS, []⟩, fun fuel _ => ?_, Nat.zero_le _, ?_⟩
    · rw [discoverBootDevice, if_pos hinvalid]
      trivial
    · rw [discoverBootDevice, if_pos hinvalid]
      rfl
    · rw [if_pos hinvalid]
  · have hsize : size.toInt = size.toNat := by
      have hle : ¬ size.toInt < 4 := (not_or.mp hinvalid).2
      rw [BitVec.toInt] at hle ⊢
      split at hle
      next h => rw [if_pos h]
      next h =>
        have := size.isLt
        omega
    obtain ⟨named, e, hnodes⟩ := @exists_pathNodes bytes size.toNat 0
    refine ⟨fun fuel => ?_, resolve t e named 0 {}, fun fuel hfuel => ?_, discovered_resolve.count_le, ?_⟩
    · rw [discoverBootDevice, if_neg hinvalid, hsize]
      simpa only [Int.ofNat_lt] using asks_discoverLoop
    · rw [discoverBootDevice, if_neg hinvalid]
      exact run_discoverLoop hnodes (by omega)
    · rw [if_neg hinvalid]
      refine ⟨⟨named, e, hnodes⟩, fun named' e' hnodes' => ?_⟩
      -- the run is the same, so the other nodes lead to the same result
      have hrun : ∀ {named e}, PathNodes bytes size.toNat 0 named e →
          (run (buffer bytes) (discoverLoop t size.toNat size.toNat 0 0 {}) ()).1 = some (resolve t e named 0 {}) :=
        fun hnodes => run_discoverLoop hnodes (by omega)
      rw [Option.some.inj ((hrun hnodes).symm.trans (hrun hnodes'))]
      exact discovered_resolve

end Pci

end Dem64
