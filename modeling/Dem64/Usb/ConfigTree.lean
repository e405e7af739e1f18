import Mathlib.Algebra.Group.Nat.Defs
import Mathlib.Data.List.TakeWhile
import Mathlib.Tactic.Push

/-!
# The configuration tree

`count_tree` and `fill_interfaces` (`usb.cpp`) on the bytes that a device sent.  The tree is a row of records,
each of which starts with its length and its type.

A loop has a bound on its iterations.  `none` is a bound that is too small, a read at `max_length` or behind it,
or a write outside the arrays.  That `new` returns a null pointer is an input.
-/

set_option autoImplicit false

namespace Dem64

namespace Usb

/-! ## Data -/

/-- `usb_interface_descriptor`. -/
structure InterfaceDescriptor where
  bLength : BitVec 8 := 0
  bDescriptorType : BitVec 8 := 0
  bInterfaceNumber : BitVec 8 := 0
  bAlternateSetting : BitVec 8 := 0
  bNumEndpoints : BitVec 8 := 0
  bInterfaceClass : BitVec 8 := 0
  bInterfaceSubClass : BitVec 8 := 0
  bInterfaceProtocol : BitVec 8 := 0
  iInterface : BitVec 8 := 0
  deriving DecidableEq

/-- `usb_endpoint_descriptor`. -/
structure EndpointDescriptor where
  bLength : BitVec 8 := 0
  bDescriptorType : BitVec 8 := 0
  bEndpointAddress : BitVec 8 := 0
  bmAttributes : BitVec 8 := 0
  wMaxPacketSize : BitVec 16 := 0
  bInterval : BitVec 8 := 0
  deriving DecidableEq

/-- `usb_ss_endpoint_companion_descriptor`. -/
structure SsCompanion where
  bLength : BitVec 8 := 0
  bDescriptorType : BitVec 8 := 0
  bMaxBurst : BitVec 8 := 0
  bmAttributes : BitVec 8 := 0
  wBytesPerInterval : BitVec 16 := 0
  deriving DecidableEq

/-- `usb_endpoint`. -/
structure UsbEndpoint where
  address : BitVec 8 := 0
  transferType : BitVec 8 := 0
  maxPacketSize : BitVec 16 := 0
  interval : BitVec 8 := 0
  dataToggle : BitVec 8 := 0
  interfaceNumber : BitVec 8 := 0
  alternateSetting : BitVec 8 := 0
  descriptor : EndpointDescriptor := {}
  hasSsCompanion : Bool := false
  ssCompanion : SsCompanion := {}
  deriving DecidableEq

/-- `usb_interface`; `none` is a null pointer. -/
structure UsbInterface where
  descriptor : InterfaceDescriptor := {}
  endpoints : Option (List UsbEndpoint) := none
  endpointCount : BitVec 8 := 0
  deriving DecidableEq

/-! ## The functions -/

section

variable (tree : Nat → BitVec 8) (maxLength : Nat)

/-- `tree[i]`. -/
def readTree (i : Nat) : Option (BitVec 8) := if i < maxLength then some (tree i) else none

/-- The length and the type at `offset`.  The inner `none` is the branch that gives up. -/
def readHeader (offset : Nat) : Option (Option (Nat × BitVec 8)) :=
  if maxLength - offset < 2 then some none
  else do
    let length ← readTree tree maxLength offset
    let type ← readTree tree maxLength (offset + 1)
    if length.toNat < 2 ∨ maxLength - offset < length.toNat then return none
    else return some (length.toNat, type)

/-- `count_tree`, from `offset` on. -/
def countLoop (case : BitVec 8) : Nat → Nat → Nat → Option Nat
  | 0, _, _ => none
  | n + 1, offset, count =>
    if offset < maxLength then do
      match ← readHeader tree maxLength offset with
      | none => return count
      | some (length, type) =>
        countLoop case n ((offset + length) % 2 ^ 16) (if type = case then (count + 1) % 2 ^ 16 else count)
    else some count

/-- `count_tree`. -/
def countTree (n : Nat) (case : BitVec 8) : Option Nat := countLoop tree maxLength case n 0 0

/-- `memcpy` of an interface descriptor. -/
def readInterface (i : Nat) : Option InterfaceDescriptor := do
  return { bLength := ← readTree tree maxLength i
           bDescriptorType := ← readTree tree maxLength (i + 1)
           bInterfaceNumber := ← readTree tree maxLength (i + 2)
           bAlternateSetting := ← readTree tree maxLength (i + 3)
           bNumEndpoints := ← readTree tree maxLength (i + 4)
           bInterfaceClass := ← readTree tree maxLength (i + 5)
           bInterfaceSubClass := ← readTree tree maxLength (i + 6)
           bInterfaceProtocol := ← readTree tree maxLength (i + 7)
           iInterface := ← readTree tree maxLength (i + 8) }

/-- Two bytes, the low one first. -/
def readWord (i : Nat) : Option (BitVec 16) := do
  let low ← readTree tree maxLength i
  let high ← readTree tree maxLength (i + 1)
  return high ++ low

/-- `memcpy` of an endpoint descriptor. -/
def readEndpoint (i : Nat) : Option EndpointDescriptor := do
  return { bLength := ← readTree tree maxLength i
           bDescriptorType := ← readTree tree maxLength (i + 1)
           bEndpointAddress := ← readTree tree maxLength (i + 2)
           bmAttributes := ← readTree tree maxLength (i + 3)
           wMaxPacketSize := ← readWord tree maxLength (i + 4)
           bInterval := ← readTree tree maxLength (i + 6) }

/-- `memcpy` of a companion descriptor. -/
def readSsCompanion (i : Nat) : Option SsCompanion := do
  return { bLength := ← readTree tree maxLength i
           bDescriptorType := ← readTree tree maxLength (i + 1)
           bMaxBurst := ← readTree tree maxLength (i + 2)
           bmAttributes := ← readTree tree maxLength (i + 3)
           wBytesPerInterval := ← readWord tree maxLength (i + 4) }

/-- What is behind an endpoint record. -/
inductive Companion
  | absent
  | malformed
  | present (descriptor : SsCompanion)

/-- The look-ahead for a companion. -/
def readCompanion (nextOffset : Nat) : Option Companion :=
  if 2 ≤ maxLength - nextOffset then do
    let type ← readTree tree maxLength (nextOffset + 1)
    if type = 0x30 then
      let length ← readTree tree maxLength nextOffset
      if length.toNat < 6 ∨ maxLength - nextOffset < length.toNat then return .malformed
      else return .present (← readSsCompanion tree maxLength nextOffset)
    else return .absent
  else some .absent

/-- A write to `interfaces[i].endpoints[j]`. -/
def modifyEndpoint (interfaces : List UsbInterface) (i j : Nat) (f : UsbEndpoint → UsbEndpoint) :
    Option (List UsbInterface) := do
  let interface ← interfaces[i]?
  let endpoints ← interface.endpoints
  let endpoint ← endpoints[j]?
  return interfaces.set i { interface with endpoints := some (endpoints.set j (f endpoint)) }

/-- The fields of an endpoint that come from descriptors. -/
def UsbEndpoint.fill (e : UsbEndpoint) (interface : InterfaceDescriptor) : UsbEndpoint :=
  { e with
    address := e.descriptor.bEndpointAddress
    alternateSetting := interface.bAlternateSetting
    dataToggle := 0
    interfaceNumber := interface.bInterfaceNumber
    interval := e.descriptor.bInterval
    maxPacketSize := e.descriptor.wMaxPacketSize &&& 0x07ff
    transferType := e.descriptor.bmAttributes &&& 0x03 }

/-- The branch of the loop over the endpoints for an endpoint record.  `false` is `return false`. -/
def fillEndpoint (interface : InterfaceDescriptor) (i j offset length : Nat) (interfaces : List UsbInterface) :
    Option (Bool × List UsbInterface) :=
  if length < 7 then some (false, interfaces)
  else do
    let descriptor ← readEndpoint tree maxLength offset
    let interfaces ← modifyEndpoint interfaces i j fun e => { e with descriptor := descriptor }
    match ← readCompanion tree maxLength ((offset + length) % 2 ^ 16) with
    | .malformed => return (false, interfaces)
    | .present companion =>
      let interfaces ← modifyEndpoint interfaces i j fun e =>
        { e with ssCompanion := companion, hasSsCompanion := true }
      let interfaces ← modifyEndpoint interfaces i j (·.fill interface)
      return (true, interfaces)
    | .absent =>
      let interfaces ← modifyEndpoint interfaces i j (·.fill interface)
      return (true, interfaces)

/-- The loop up to the first endpoint of an interface.  The inner `none` is `return false`. -/
def skipLoop (endpointCount : Nat) : Nat → Nat → Nat → BitVec 8 → Option (Option (Nat × Nat × BitVec 8))
  | 0, _, _, _ => none
  | n + 1, offset, length, type =>
    if type ≠ 0x05 ∧ endpointCount ≠ 0 then do
      let offset := (offset + length) % 2 ^ 16
      match ← readHeader tree maxLength offset with
      | none => return none
      | some (length, type) =>
        if type = 0x04 then return none else skipLoop endpointCount n offset length type
    else some (some (offset, length, type))

/-- The loop over the endpoints of an interface.  It gives the offset behind the last one. -/
def endpointLoop (interface : InterfaceDescriptor) (i endpointCount : Nat) :
    Nat → Nat → Nat → Nat → BitVec 8 → List UsbInterface → Option (Option Nat × List UsbInterface)
  | 0, _, _, _, _, _ => none
  | n + 1, j, offset, length, type, interfaces =>
    if j < endpointCount then
      if type = 0x04 then some (none, interfaces)
      else do
        let (ok, interfaces) ←
          if type = 0x05 then fillEndpoint tree maxLength interface i j offset length interfaces
          else some (true, interfaces)
        if ok = false then return (none, interfaces)
        else
          let j := if type = 0x05 then (j + 1) % 2 ^ 8 else j
          let offset := (offset + length) % 2 ^ 16
          if j = endpointCount then return (some offset, interfaces)
          else
            match ← readHeader tree maxLength offset with
            | none => return (none, interfaces)
            | some (length, type) => endpointLoop interface i endpointCount n j offset length type interfaces
    else some (some offset, interfaces)

/-- The endpoints of `interfaces[i]`, whose record is at `offset`.  They are given to `new`. -/
def fillEndpoints (n : Nat) (interface : InterfaceDescriptor) (i offset length : Nat) (type : BitVec 8)
    (interfaces : List UsbInterface) : Option (Option Nat × List UsbInterface) := do
  let endpointCount := interface.bNumEndpoints.toNat
  match ← skipLoop tree maxLength endpointCount n offset length type with
  | none => return (none, interfaces)
  | some (offset, length, type) =>
    endpointLoop tree maxLength interface i endpointCount n 0 offset length type interfaces

/-- `interfaces[i]` is written. -/
def setInterface (interfaces : List UsbInterface) (i : Nat) (interface : UsbInterface) : Option (List UsbInterface) :=
  if i < interfaces.length then some (interfaces.set i interface) else none

/-- The loop of `fill_interfaces`.  `new i` says whether the array of interface `i` can be had. -/
def fillLoop (new : Nat → Bool) (interfacesCount : Nat) :
    Nat → Nat → Nat → List UsbInterface → Option (Bool × List UsbInterface)
  | 0, _, _, _ => none
  | n + 1, offset, i, interfaces =>
    if offset < maxLength ∧ i < interfacesCount then do
      match ← readHeader tree maxLength offset with
      | none => return (false, interfaces)
      | some (length, type) =>
        if type = 0x04 then
          if length < 9 then return (false, interfaces)
          else
            let descriptor ← readInterface tree maxLength offset
            let count := descriptor.bNumEndpoints
            if count = 0 then
              let interfaces ← setInterface interfaces i ⟨descriptor, none, 0⟩
              fillLoop new interfacesCount n ((offset + length) % 2 ^ 16) ((i + 1) % 2 ^ 16) interfaces
            else if new i = false then
              let old ← interfaces[i]?
              let interfaces ← setInterface interfaces i { old with descriptor := descriptor, endpoints := none }
              return (false, interfaces)
            else
              let interfaces ← setInterface interfaces i ⟨descriptor, some (.replicate count.toNat {}), count⟩
              match ← fillEndpoints tree maxLength n descriptor i offset length type interfaces with
              | (none, interfaces) => return (false, interfaces)
              | (some offset, interfaces) =>
                fillLoop new interfacesCount n offset ((i + 1) % 2 ^ 16) interfaces
        else fillLoop new interfacesCount n ((offset + length) % 2 ^ 16) i interfaces
    else return (i = interfacesCount, interfaces)

/-- `fill_interfaces`. -/
def fillInterfaces (n : Nat) (new : Nat → Bool) (interfacesCount : Nat) (interfaces : List UsbInterface) :
    Option (Bool × List UsbInterface) :=
  fillLoop tree maxLength new interfacesCount n 0 0 interfaces

end

/-! ## What a tree says -/

/-- A record of the tree. -/
structure TreeRecord where
  offset : Nat
  length : Nat
  type : BitVec 8

section

variable (tree : Nat → BitVec 8) (maxLength : Nat)

/-- There is a record at `offset`: its header and its bytes are inside the tree. -/
def IsRecord (offset : Nat) : Prop :=
  2 ≤ maxLength - offset ∧ 2 ≤ (tree offset).toNat ∧ (tree offset).toNat ≤ maxLength - offset

instance (offset : Nat) : Decidable (IsRecord tree maxLength offset) := inferInstanceAs (Decidable (_ ∧ _ ∧ _))

/-- The records from `offset` on, up to the end of the tree or the first bytes that are no record. -/
def recordsFrom (offset : Nat) : List TreeRecord :=
  if IsRecord tree maxLength offset then
    ⟨offset, (tree offset).toNat, tree (offset + 1)⟩ :: recordsFrom (offset + (tree offset).toNat)
  else []
termination_by maxLength - offset
decreasing_by
  rename_i h
  obtain ⟨h1, h2, -⟩ := h
  omega

/-- The endpoint records in front of the next interface record. -/
def ownEndpoints (l : List TreeRecord) : List TreeRecord :=
  (l.takeWhile fun r => r.type ≠ 0x04).filter fun r => r.type = 0x05

/-- The interface records, each with the endpoint records that are its own. -/
def interfaceRecords : List TreeRecord → List (TreeRecord × List TreeRecord)
  | [] => []
  | r :: l => if r.type = 0x04 then (r, ownEndpoints l) :: interfaceRecords l else interfaceRecords l

/-- A word of the tree. -/
def treeWord (i : Nat) : BitVec 16 := tree (i + 1) ++ tree i

/-- The interface descriptor at `i`. -/
def interfaceAt (i : Nat) : InterfaceDescriptor :=
  ⟨tree i, tree (i + 1), tree (i + 2), tree (i + 3), tree (i + 4), tree (i + 5), tree (i + 6), tree (i + 7),
    tree (i + 8)⟩

/-- The endpoint descriptor at `i`. -/
def endpointAt (i : Nat) : EndpointDescriptor :=
  ⟨tree i, tree (i + 1), tree (i + 2), tree (i + 3), treeWord tree (i + 4), tree (i + 6)⟩

/-- The companion descriptor at `i`. -/
def ssCompanionAt (i : Nat) : SsCompanion :=
  ⟨tree i, tree (i + 1), tree (i + 2), tree (i + 3), treeWord tree (i + 4)⟩

/-- There is the header of a companion at `i`. -/
def CompanionAt (i : Nat) : Prop := 2 ≤ maxLength - i ∧ tree (i + 1) = 0x30

instance (i : Nat) : Decidable (CompanionAt tree maxLength i) := inferInstanceAs (Decidable (_ ∧ _))

/-- An endpoint record is long enough, and so is a companion right behind it. -/
def EndpointOk (r : TreeRecord) : Prop :=
  7 ≤ r.length ∧ (CompanionAt tree maxLength (r.offset + r.length) → 6 ≤ (tree (r.offset + r.length)).toNat ∧
    (tree (r.offset + r.length)).toNat ≤ maxLength - (r.offset + r.length))

/-- An interface record is long enough, and so are as many endpoint records as it says. -/
def InterfaceOk (g : TreeRecord × List TreeRecord) : Prop :=
  9 ≤ g.1.length ∧ (interfaceAt tree g.1.offset).bNumEndpoints.toNat ≤ g.2.length ∧
    ∀ e ∈ g.2.take (interfaceAt tree g.1.offset).bNumEndpoints.toNat, EndpointOk tree maxLength e

/-- The endpoint of a record, with the companion if there is one. -/
def endpointOf (interface : InterfaceDescriptor) (r : TreeRecord) : UsbEndpoint :=
  let e : UsbEndpoint := { descriptor := endpointAt tree r.offset }
  let next := r.offset + r.length
  (if CompanionAt tree maxLength next then
    { e with hasSsCompanion := true, ssCompanion := ssCompanionAt tree next } else e).fill interface

/-- The interface of a record. -/
def interfaceOf (g : TreeRecord × List TreeRecord) : UsbInterface :=
  let interface := interfaceAt tree g.1.offset
  ⟨interface, if interface.bNumEndpoints = 0 then none
    else some ((g.2.take interface.bNumEndpoints.toNat).map (endpointOf tree maxLength interface)),
    interface.bNumEndpoints⟩

end

end Usb

end Dem64
