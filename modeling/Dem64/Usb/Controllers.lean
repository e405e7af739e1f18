import Dem64.Lib.Picks
import Dem64.Pci.Enumerate

/-!
# The controller objects

`GlobalUSB::GlobalUSB` (`usb.cpp`) counts the controllers of a programming interface and makes as many objects.
Each of them runs through the PCI functions again (`discover_controller`) and takes the first one whose address
is not in the four arrays; `construct_controller` adds the address at its end.

The outcomes of `pci_enable_device`, `pci_enable_bus_mastering` and `controller_init` are inputs.
-/

set_option autoImplicit false

namespace Dem64

namespace Usb

open Pci

/-- `USBCount`. -/
structure UsbCount where
  classCode : BitVec 8
  subclass : BitVec 8
  progIf : BitVec 8
  count : BitVec 8

/-- `usb_count_controllers`. -/
def usbCountControllers (device : PciRet) (m : UsbCount) : UsbCount :=
  if device.status ≠ PCI_STATUS_SUCCESS then m
  else if device.common.classCode ≠ m.classCode ∨ device.common.subclass ≠ m.subclass ∨
      device.common.progIf ≠ m.progIf then m
  else { m with count := m.count + 1 }

/-- The part of `usb_controller_t` that the search is about. -/
structure UsbController where
  found : Bool := false
  pciAddress : PciAddress := ⟨0, 0, 0, 0⟩
  classCode : BitVec 8
  subclass : BitVec 8
  progIf : BitVec 8
  index : BitVec 8

/-- The global variables of `usb.cpp`. -/
structure Globals where
  segment : List (BitVec 16)
  bus : List (BitVec 8)
  device : List (BitVec 8)
  function : List (BitVec 8)
  addrCount : BitVec 8
  currentIndex : BitVec 8

/-- The address of the `PCI_ret` is entry `i` of the arrays. -/
def Globals.has (g : Globals) (device : PciRet) (i : Nat) : Bool :=
  g.segment[i]? = some device.segment && g.bus[i]? = some device.bus && g.device[i]? = some device.device &&
    g.function[i]? = some device.function

/-- `usb_find_callback`. -/
def usbFindCallback (g : Globals) (device : PciRet) (controller : UsbController) : UsbController :=
  if controller.found = true ∨ device.status ≠ PCI_STATUS_SUCCESS then controller
  else if device.common.classCode ≠ controller.classCode ∨ device.common.subclass ≠ controller.subclass ∨
      device.common.progIf ≠ controller.progIf then controller
  else if (List.range g.addrCount.toNat).any (g.has device) then controller
  else { controller with
    pciAddress := ⟨device.segment, device.bus, device.device, device.function⟩, found := true }

/-- The address is written behind the others; `none` is a write behind the end of an array. -/
def Globals.record (g : Globals) (address : PciAddress) : Option Globals :=
  let i := g.addrCount.toNat
  if i < g.segment.length ∧ i < g.bus.length ∧ i < g.device.length ∧ i < g.function.length then
    some { g with
      segment := g.segment.set i address.segment
      bus := g.bus.set i address.bus
      device := g.device.set i address.device
      function := g.function.set i address.function
      addrCount := g.addrCount + 1 }
  else none

/-- What the calls of a constructor return. -/
structure Attempt where
  pciEnableDevice : Nat
  pciEnableBusMastering : Nat
  controllerInit : Int

/-- A controller object. -/
structure UsbObject where
  controller : UsbController
  status : Int

section

variable (t : Topology) (regions : List PciEcamRegion)

/-- `discover_controller`. -/
def discoverController (classCode subclass progIf : BitVec 8) (g : Globals) : Bool × UsbController × Globals :=
  let controller : UsbController :=
    { classCode := classCode, subclass := subclass, progIf := progIf, index := g.currentIndex }
  let g := { g with currentIndex := g.currentIndex + 1 }
  let controller := (pciEnumerate t (usbFindCallback g) regions controller).2
  (controller.found, controller, g)

/-- `construct_controller`. -/
def constructController (classCode subclass progIf : BitVec 8) (attempt : Attempt) (g : Globals) :
    Option (UsbObject × Globals) :=
  let (dists, controller, g) := discoverController t regions classCode subclass progIf g
  if dists = false then some (⟨controller, 1⟩, g)
  else if attempt.pciEnableDevice ≠ PCI_STATUS_SUCCESS then some (⟨controller, 1⟩, g)
  else if attempt.pciEnableBusMastering ≠ PCI_STATUS_SUCCESS then some (⟨controller, 1⟩, g)
  else do
    let g ← g.record controller.pciAddress
    return (⟨controller, attempt.controllerInit⟩, g)

/-- The constructors of an array of `n` controllers, one after the other. -/
def newControllers (classCode subclass progIf : BitVec 8) (attempts : Nat → Attempt) :
    Nat → Globals → Option (List UsbObject × Globals)
  | 0, g => some ([], g)
  | n + 1, g => do
    let (objects, g) ← newControllers classCode subclass progIf attempts n g
    let (object, g) ← constructController t regions classCode subclass progIf (attempts n) g
    return (objects ++ [object], g)

/-- The four arrays for `n` addresses, with whatever was in their memory. -/
def Globals.new (garbage : Nat → PciAddress) (n : Nat) : Globals where
  segment := (List.range n).map fun i => (garbage i).segment
  bus := (List.range n).map fun i => (garbage i).bus
  device := (List.range n).map fun i => (garbage i).device
  function := (List.range n).map fun i => (garbage i).function
  addrCount := 0
  currentIndex := 0

/-- The body of the loop of `GlobalUSB::GlobalUSB`: the objects of one programming interface. -/
def controllersOf (attempts : Nat → Attempt) (garbage : Nat → PciAddress) (progIf : BitVec 8) :
    Option (List UsbObject) :=
  let m := (pciEnumerate t usbCountControllers regions ⟨0x0c, 0x03, progIf, 0⟩).2
  if m.count = 0 then some []
  else do
    let (objects, _) ← newControllers t regions 0x0c 0x03 progIf attempts m.count.toNat
      (Globals.new garbage m.count.toNat)
    return objects

/-- `controller_order`. -/
def controllerOrder : List (BitVec 8) := [0x20, 0x00, 0x10, 0x30]

/-- `GlobalUSB::GlobalUSB`.  The arrays and their count are new for each interface. -/
def globalUsb (attempts : BitVec 8 → Nat → Attempt) (garbage : BitVec 8 → Nat → PciAddress) :
    Option (List (BitVec 8 × List UsbObject)) :=
  controllerOrder.mapM fun progIf => do
    let objects ← controllersOf t regions (attempts progIf) (garbage progIf) progIf
    return (progIf, objects)

/-! ## What it is for -/

/-- The function is a USB controller with the programming interface. -/
def IsController (progIf : BitVec 8) (address : PciAddress) : Prop :=
  (pciGetInfo t address).status = PCI_STATUS_SUCCESS ∧ (pciGetInfo t address).common.classCode = 0x0c ∧
    (pciGetInfo t address).common.subclass = 0x03 ∧ (pciGetInfo t address).common.progIf = progIf

instance (progIf : BitVec 8) (address : PciAddress) : Decidable (IsController t progIf address) :=
  inferInstanceAs (Decidable (_ ∧ _ ∧ _ ∧ _))

/-- The USB controllers with the programming interface, as the enumeration comes to them. -/
def usbFunctions (progIf : BitVec 8) : List PciAddress :=
  (enumerated t regions).filter (IsController t progIf)

/-- The functions that `discover_controller` bound the objects to. -/
def boundTo (objects : List UsbObject) : List PciAddress :=
  (objects.filter (·.controller.found)).map (·.controller.pciAddress)

/-- Both calls of the PCI driver succeed. -/
def Attempt.enables (attempt : Attempt) : Bool :=
  attempt.pciEnableDevice = PCI_STATUS_SUCCESS && attempt.pciEnableBusMastering = PCI_STATUS_SUCCESS

/-- One object for each function: no write behind the arrays, the objects of the interface are bound to distinct
functions, and each function is tried. -/
def BoundOnce (attempts : BitVec 8 → Nat → Attempt) (garbage : BitVec 8 → Nat → PciAddress) (progIf : BitVec 8) :
    Prop :=
  ∃ built, globalUsb t regions attempts garbage = some built ∧ ∀ objects, (progIf, objects) ∈ built →
    (boundTo objects).Nodup ∧ ∀ address ∈ usbFunctions t regions progIf, address ∈ boundTo objects

end

/-! ## The search -/

section

variable {t : Topology} {regions : List PciEcamRegion} {g g' : Globals} {recorded : List PciAddress}
  {progIf : BitVec 8} {n k : Nat} {a : PciAddress} {attempt : Attempt} {attempts : Nat → Attempt}

/-- The arrays have `n` entries, the first of which are the addresses of `recorded`. -/
structure Recorded (n : Nat) (g : Globals) (recorded : List PciAddress) : Prop where
  count : g.addrCount.toNat = recorded.length
  sizes : g.segment.length = n ∧ g.bus.length = n ∧ g.device.length = n ∧ g.function.length = n
  entries : ∀ (i : Nat) (a : PciAddress), recorded[i]? = some a → g.segment[i]? = some a.segment ∧
    g.bus[i]? = some a.bus ∧ g.device[i]? = some a.device ∧ g.function[i]? = some a.function

theorem Recorded.new (garbage : Nat → PciAddress) (n : Nat) : Recorded n (Globals.new garbage n) [] :=
  ⟨rfl, by simp [Globals.new], fun i a h => by simp at h⟩

theorem Recorded.has_iff (h : Recorded n g recorded) {i : Nat} (hi : recorded[i]? = some a) {device : PciRet} :
    g.has device i = true ↔ device.address = a := by
  obtain ⟨h1, h2, h3, h4⟩ := h.entries i a hi
  rw [Globals.has, h1, h2, h3, h4, @eq_comm _ device.address]
  obtain ⟨segment, bus, slot, function⟩ := a
  simp only [Option.some.injEq, Bool.and_eq_true, decide_eq_true_eq, PciRet.address, PciAddress.mk.injEq, and_assoc]

/-- The loop of the callback finds the addresses on record. -/
theorem Recorded.any_iff (h : Recorded n g recorded) {device : PciRet} :
    (List.range g.addrCount.toNat).any (g.has device) = true ↔ device.address ∈ recorded := by
  rw [List.any_eq_true, h.count]
  constructor
  · rintro ⟨i, hi, hhas⟩
    have hget := List.getElem?_eq_getElem (List.mem_range.mp hi)
    rw [(h.has_iff hget).mp hhas]
    exact List.getElem_mem _
  · intro hmem
    obtain ⟨i, hi, hget⟩ := List.getElem_of_mem hmem
    exact ⟨i, List.mem_range.mpr hi, (h.has_iff (List.getElem?_eq_getElem hi)).mpr hget.symm⟩

/-- An address is added. -/
theorem Recorded.record (h : Recorded n g recorded) (hlt : recorded.length < n) (hn : n < 256) (a : PciAddress) :
    ∃ g', g.record a = some g' ∧ Recorded n g' (recorded ++ [a]) := by
  obtain ⟨h1, h2, h3, h4⟩ := h.sizes
  have hcount := h.count
  refine ⟨_, by rw [Globals.record, if_pos (by omega)], ?_, by simp [h1, h2, h3, h4], fun i b hb => ?_⟩
  · rw [List.length_append, List.length_singleton, BitVec.toNat_add, hcount]
    exact Nat.mod_eq_of_lt (show recorded.length + 1 < 256 by omega)
  · simp only [hcount]
    rcases Nat.lt_or_ge i recorded.length with hi | hi
    · rw [List.getElem?_append_left hi] at hb
      simp only [List.getElem?_set_ne (Nat.ne_of_gt hi)]
      exact h.entries i b hb
    · rw [List.getElem?_append_right hi] at hb
      obtain ⟨hi', hb'⟩ := List.getElem?_eq_some_iff.mp hb
      rw [List.length_singleton] at hi'
      obtain rfl : i = recorded.length := by omega
      obtain rfl : a = b := by simpa using hb'
      have hset : ∀ {β : Type} {l : List β} (x : β), l.length = n →
          (l.set recorded.length x)[recorded.length]? = some x := fun x hl => List.getElem?_set_self (by omega)
      exact ⟨hset _ h1, hset _ h2, hset _ h3, hset _ h4⟩

/-- What the callbacks look at is wrong in a function that is no controller. -/
theorem mismatch_of_not_isController (h : ¬ IsController t progIf a)
    (hs : (pciGetInfo t a).status = PCI_STATUS_SUCCESS) : (pciGetInfo t a).common.classCode ≠ 0x0c ∨
      (pciGetInfo t a).common.subclass ≠ 0x03 ∨ (pciGetInfo t a).common.progIf ≠ progIf := by
  by_contra hno
  simp only [not_or, not_not] at hno
  exact h ⟨hs, hno⟩

theorem usbFindCallback_skip (h : ¬ IsController t progIf a) {c : UsbController} (hclass : c.classCode = 0x0c)
    (hsub : c.subclass = 0x03) (hprog : c.progIf = progIf) : usbFindCallback g (pciGetInfo t a) c = c := by
  rw [usbFindCallback]
  split
  · rfl
  · rename_i hs
    rw [not_or, not_not] at hs
    rw [hclass, hsub, hprog, if_pos (mismatch_of_not_isController h hs.2)]

theorem usbCountControllers_skip (h : ¬ IsController t progIf a) {m : UsbCount} (hclass : m.classCode = 0x0c)
    (hsub : m.subclass = 0x03) (hprog : m.progIf = progIf) : usbCountControllers (pciGetInfo t a) m = m := by
  rw [usbCountControllers]
  split
  · rfl
  · rename_i hs
    rw [hclass, hsub, hprog, if_pos (mismatch_of_not_isController h (not_not.mp hs))]

/-- A found controller stays as it is. -/
theorem foldl_usbFindCallback_found (l : List PciAddress) {c : UsbController} (hc : c.found = true) :
    l.foldl (fun c a => usbFindCallback g (pciGetInfo t a) c) c = c := by
  induction l with
  | nil => rfl
  | cons a l ih =>
    rw [List.foldl_cons, usbFindCallback, if_pos (.inl hc)]
    exact ih

/-- The first controller that is not on record is found. -/
theorem foldl_usbFindCallback (h : Recorded n g recorded) (l : List PciAddress) {c : UsbController}
    (hc : c.found = false) (hclass : c.classCode = 0x0c) (hsub : c.subclass = 0x03) (hprog : c.progIf = progIf) :
    l.foldl (fun c a => usbFindCallback g (pciGetInfo t a) c) c =
      match pick (l.filter (IsController t progIf)) recorded with
      | none => c
      | some a => { c with pciAddress := a, found := true } := by
  induction l with
  | nil => rfl
  | cons a l ih =>
    have hrec := @Recorded.any_iff _ _ _ h (pciGetInfo t a)
    rw [pciGetInfo_address] at hrec
    rw [List.foldl_cons]
    by_cases hctl : IsController t progIf a
    · obtain ⟨h1, h2, h3, h4⟩ := hctl
      rw [List.filter_cons_of_pos (by simpa using ⟨h1, h2, h3, h4⟩), usbFindCallback,
        if_neg (by rw [hc]; simp [h1]), if_neg (by rw [hclass, hsub, hprog]; simp [h2, h3, h4])]
      by_cases hmem : a ∈ recorded
      · rw [if_pos (hrec.mpr hmem), ih, pick, pick, List.find?_cons_of_neg (by simpa using hmem)]
      · rw [if_neg (fun hany => hmem (hrec.mp hany)), foldl_usbFindCallback_found _ rfl, pick,
          List.find?_cons_of_pos (by simpa using hmem)]
        simp only
        rw [show (⟨(pciGetInfo t a).segment, (pciGetInfo t a).bus, (pciGetInfo t a).device,
          (pciGetInfo t a).function⟩ : PciAddress) = a from pciGetInfo_address t a]
    · rw [List.filter_cons_of_neg (by simpa using hctl), usbFindCallback_skip hctl hclass hsub hprog]
      exact ih

/-! ## The constructors -/

/-- `discover_controller` picks the first function that is not on record. -/
theorem discoverController_spec (h : Recorded n g recorded) :
    ∃ c g', discoverController t regions 0x0c 0x03 progIf g = (c.found, c, g') ∧ Recorded n g' recorded ∧
      match pick (usbFunctions t regions progIf) recorded with
      | none => c.found = false
      | some a => c.found = true ∧ c.pciAddress = a := by
  have hrec : Recorded n { g with currentIndex := g.currentIndex + 1 } recorded := ⟨h.count, h.sizes, h.entries⟩
  refine ⟨_, _, rfl, hrec, ?_⟩
  rw [pciEnumerate_eq]
  simp only
  rw [foldl_usbFindCallback hrec _ rfl rfl rfl rfl, usbFunctions]
  split <;> simp_all

theorem constructController_none (h : Recorded n g recorded) (hp : pick (usbFunctions t regions progIf) recorded = none) :
    ∃ o g', constructController t regions 0x0c 0x03 progIf attempt g = some (o, g') ∧ o.controller.found = false ∧
      Recorded n g' recorded := by
  obtain ⟨c, g', hd, hg', hc⟩ := @discoverController_spec t regions g recorded progIf n h
  rw [hp] at hc
  refine ⟨⟨c, 1⟩, g', ?_, hc, hg'⟩
  rw [constructController, hd]
  exact if_pos hc

theorem constructController_some (h : Recorded n g recorded) (hlt : recorded.length < n) (hn : n < 256)
    (hp : pick (usbFunctions t regions progIf) recorded = some a) :
    ∃ o g', constructController t regions 0x0c 0x03 progIf attempt g = some (o, g') ∧ o.controller.found = true ∧
      o.controller.pciAddress = a ∧ Recorded n g' (if attempt.enables then recorded ++ [a] else recorded) := by
  obtain ⟨c, g', hd, hg', hc⟩ := @discoverController_spec t regions g recorded progIf n h
  rw [hp] at hc
  obtain ⟨hfound, haddr⟩ := hc
  rw [constructController, hd]
  simp only [if_neg (show ¬ c.found = false by simp [hfound])]
  by_cases hdev : attempt.pciEnableDevice = PCI_STATUS_SUCCESS
  · rw [if_neg (not_not.mpr hdev)]
    by_cases hbus : attempt.pciEnableBusMastering = PCI_STATUS_SUCCESS
    · obtain ⟨g'', hrec, hg''⟩ := hg'.record hlt hn c.pciAddress
      rw [if_neg (not_not.mpr hbus), hrec, if_pos (by simp [Attempt.enables, hdev, hbus]), ← haddr]
      exact ⟨_, g'', rfl, hfound, rfl, hg''⟩
    · rw [if_pos hbus, if_neg (by simp [Attempt.enables, hbus])]
      exact ⟨_, g', rfl, hfound, haddr, hg'⟩
  · rw [if_pos hdev, if_neg (by simp [Attempt.enables, hdev])]
    exact ⟨_, g', rfl, hfound, haddr, hg'⟩

theorem boundTo_concat (objects : List UsbObject) (o : UsbObject) : boundTo (objects ++ [o]) =
    boundTo objects ++ if o.controller.found = true then [o.controller.pciAddress] else [] := by
  rw [boundTo, boundTo, List.filter_append, List.map_append]
  cases h : o.controller.found <;> simp [h]

/-- The objects of an array pick one after the other. -/
theorem newControllers_spec (h : Recorded n g []) (hn : n < 256) (hk : k ≤ n) :
    ∃ objects g', newControllers t regions 0x0c 0x03 progIf attempts k g = some (objects, g') ∧
      objects.length = k ∧
      boundTo objects = (picks (usbFunctions t regions progIf) (fun i => (attempts i).enables) k).2 ∧
      Recorded n g' (picks (usbFunctions t regions progIf) (fun i => (attempts i).enables) k).1 := by
  induction k with
  | zero => exact ⟨[], g, rfl, rfl, rfl, h⟩
  | succ k ih =>
    obtain ⟨objects, g₁, hnew, hlen, hbound, hg₁⟩ := ih (by omega)
    rw [newControllers, hnew]
    simp only [Option.bind_eq_bind, Option.bind_some]
    have hle := length_recorded_le (usbFunctions t regions progIf) (fun i => (attempts i).enables) k
    cases hp : pick (usbFunctions t regions progIf)
      (picks (usbFunctions t regions progIf) (fun i => (attempts i).enables) k).1 with
    | none =>
      obtain ⟨o, g', hcall, hfound, hg'⟩ := @constructController_none _ _ _ _ _ _ (attempts k) hg₁ hp
      rw [hcall, picks_succ_none hp]
      refine ⟨_, g', rfl, by rw [List.length_append, hlen]; rfl, ?_, hg'⟩
      rw [boundTo_concat, hbound, if_neg (by simp [hfound]), List.append_nil]
    | some a =>
      obtain ⟨o, g', hcall, hfound, haddr, hg'⟩ :=
        @constructController_some _ _ _ _ _ _ _ (attempts k) hg₁ (by omega) hn hp
      rw [hcall, picks_succ_some hp]
      refine ⟨_, g', rfl, by rw [List.length_append, hlen]; rfl, ?_, hg'⟩
      rw [boundTo_concat, hbound, if_pos hfound, haddr]

/-! ## All of them -/

theorem foldl_usbCountControllers (l : List PciAddress) (m : UsbCount) (hclass : m.classCode = 0x0c)
    (hsub : m.subclass = 0x03) (hprog : m.progIf = progIf) :
    (l.foldl (fun m a => usbCountControllers (pciGetInfo t a) m) m).count =
      m.count + BitVec.ofNat 8 (l.filter (IsController t progIf)).length := by
  induction l generalizing m with
  | nil => simp
  | cons a l ih =>
    rw [List.foldl_cons]
    by_cases hctl : IsController t progIf a
    · obtain ⟨h1, h2, h3, h4⟩ := hctl
      rw [List.filter_cons_of_pos (by simpa using ⟨h1, h2, h3, h4⟩), usbCountControllers, if_neg (not_not.mpr h1),
        if_neg (by rw [hclass, hsub, hprog]; simp [h2, h3, h4]), ih { m with count := m.count + 1 } hclass hsub hprog,
        List.length_cons, BitVec.ofNat_add]
      rw [BitVec.add_assoc]
      exact congrArg (m.count + ·) (BitVec.add_comm _ _)
    · rw [List.filter_cons_of_neg (by simpa using hctl), usbCountControllers_skip hctl hclass hsub hprog]
      exact ih m hclass hsub hprog

/-- The number of objects: the counter of the loop has eight bits. -/
def objectCount (t : Topology) (regions : List PciEcamRegion) (progIf : BitVec 8) : Nat :=
  (usbFunctions t regions progIf).length % 256

theorem controllersOf_spec (garbage : Nat → PciAddress) : ∃ objects,
    controllersOf t regions attempts garbage progIf = some objects ∧
      objects.length = objectCount t regions progIf ∧
      boundTo objects = (picks (usbFunctions t regions progIf) (fun i => (attempts i).enables)
        (objectCount t regions progIf)).2 := by
  have hcount : ((pciEnumerate t usbCountControllers regions ⟨0x0c, 0x03, progIf, 0⟩).2).count.toNat =
      objectCount t regions progIf := by
    rw [pciEnumerate_eq]
    simp only
    rw [foldl_usbCountControllers _ _ rfl rfl rfl, BitVec.toNat_add]
    simp [objectCount, usbFunctions]
  rw [controllersOf]
  simp only [hcount]
  split
  · rename_i hzero
    rw [hzero] at hcount
    refine ⟨[], rfl, by simpa using hcount, ?_⟩
    rw [← hcount]
    rfl
  · obtain ⟨objects, g', hnew, hlen, hbound, -⟩ := @newControllers_spec t regions _ progIf _ _ attempts
      (Recorded.new garbage (objectCount t regions progIf)) (Nat.mod_lt _ (by decide)) (le_refl _)
    rw [hnew]
    exact ⟨objects, rfl, hlen, hbound⟩

end

section

variable (t : Topology) (regions : List PciEcamRegion) (attempts : BitVec 8 → Nat → Attempt)
  (garbage : BitVec 8 → Nat → PciAddress)

/-- There are objects for each interface, and no write behind the arrays. -/
theorem globalUsb_spec : ∃ objects : BitVec 8 → List UsbObject,
    globalUsb t regions attempts garbage = some (controllerOrder.map fun p => (p, objects p)) ∧
      ∀ p, boundTo (objects p) = (picks (usbFunctions t regions p) (fun i => (attempts p i).enables)
        (objectCount t regions p)).2 := by
  choose objects hall hlen hbound using fun p => @controllersOf_spec t regions p (attempts p) (garbage p)
  refine ⟨objects, ?_, hbound⟩
  simp only [globalUsb, controllerOrder, hall, List.mapM_cons, List.mapM_nil]
  rfl

/-- What the objects are bound to is what they pick. -/
theorem boundOnce_picks {progIf : BitVec 8} (hp : progIf ∈ controllerOrder) :
    BoundOnce t regions attempts garbage progIf ↔
      (picks (usbFunctions t regions progIf) (fun i => (attempts progIf i).enables)
        (objectCount t regions progIf)).2.Nodup ∧
      ∀ a ∈ usbFunctions t regions progIf, a ∈ (picks (usbFunctions t regions progIf)
        (fun i => (attempts progIf i).enables) (objectCount t regions progIf)).2 := by
  obtain ⟨objects, hall, hbound⟩ := globalUsb_spec t regions attempts garbage
  rw [← hbound]
  constructor
  · rintro ⟨built, hbuilt, hobjects⟩
    rw [hall] at hbuilt
    cases hbuilt
    exact hobjects (objects progIf) (List.mem_map_of_mem hp)
  · intro h
    refine ⟨_, hall, fun objects' hmem => ?_⟩
    obtain ⟨p, -, heq⟩ := List.mem_map.mp hmem
    cases heq
    exact h

/-- **One object for each function**, exactly if the calls of the PCI driver succeed for each object but the last
one, and the count has not wrapped around.  An object whose calls fail leaves its function to the next one. -/
theorem boundOnce_iff {progIf : BitVec 8} (hp : progIf ∈ controllerOrder) :
    BoundOnce t regions attempts garbage progIf ↔
      (usbFunctions t regions progIf).toFinset.card ≤ objectCount t regions progIf ∧
      ∀ j, j + 1 < objectCount t regions progIf → j < (usbFunctions t regions progIf).toFinset.card →
        (attempts progIf j).enables = true := by
  rw [boundOnce_picks t regions attempts garbage hp, picks_iff]

end

/-! ## Two controllers -/

/-- One device with two UHCI functions. -/
def twoUhci : Topology := fun address offset =>
  if address.bus = 0 ∧ address.device = 1 ∧ address.function.toNat < 2 then
    match offset with
    | 0x00 => 0x86
    | 0x01 => 0x80
    | 0x0a => 0x03
    | 0x0b => 0x0c
    | 0x0e => 0x80
    | _ => 0
  else 0xff

/-- The table of the ECAM regions has bus 0. -/
def busZero : List PciEcamRegion := [⟨0xffff900000000000, 0, 0, 0⟩]

theorem usbFunctions_twoUhci : usbFunctions twoUhci busZero 0x00 = [⟨0, 0, 1, 0⟩, ⟨0, 0, 1, 1⟩] := by
  decide +kernel

/-- Two objects whose calls succeed. -/
theorem boundOnce_twoUhci : BoundOnce twoUhci busZero (fun _ _ => ⟨0, 0, 0⟩) (fun _ _ => ⟨0, 0, 0, 0⟩) 0x00 :=
  (boundOnce_iff twoUhci busZero _ _ (by decide)).mpr
    ⟨by rw [objectCount, usbFunctions_twoUhci]; decide, fun _ _ _ => rfl⟩

/-- **Two objects for one function.**  The first function is not enabled, and the second object takes it again. -/
theorem not_boundOnce_failed : ¬ ∀ (t : Topology) (regions : List PciEcamRegion)
    (attempts : BitVec 8 → Nat → Attempt) (garbage : BitVec 8 → Nat → PciAddress) (progIf : BitVec 8),
    progIf ∈ controllerOrder → (usbFunctions t regions progIf).length ≤ 255 →
    BoundOnce t regions attempts garbage progIf := by
  intro hclaim
  let attempts : BitVec 8 → Nat → Attempt := fun _ j => if j = 0 then ⟨PCI_STATUS_NOT_PRESENT, 0, 0⟩ else ⟨0, 0, 0⟩
  have hfew : (usbFunctions twoUhci busZero 0x00).length ≤ 255 := by
    rw [usbFunctions_twoUhci]
    decide
  have h := hclaim twoUhci busZero attempts (fun _ _ => ⟨0, 0, 0, 0⟩) 0x00 (by decide) hfew
  have hrec := records_of_nodup ((boundOnce_picks _ _ _ _ (by decide)).mp h).1 0
    (by rw [objectCount, usbFunctions_twoUhci]; decide) (by rw [usbFunctions_twoUhci]; decide)
  exact absurd hrec (by decide)

end Usb

end Dem64
