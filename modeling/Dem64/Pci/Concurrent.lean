import Dem64.Lib.Spinlock
import Dem64.Pci.Access

/-!
# Configuration accesses on several processors

The ports 0xCF8 and 0xCFC are one register for the address and one for the data, so two accesses that are
interleaved would read and write registers of the wrong function.  `legacy_config_lock` is for that: an access
through the ports takes it around its two or three port operations.  An access through an ECAM region is a
single load or store and takes no lock.

`pci_config_linearizable` is about any number of processors that call `pci_config_read` and `pci_config_write`,
with both mechanisms in use: the calls are atomic accesses to the configuration spaces, in which there is no address
register any more, and no interleaving ends in a deadlock.
-/

set_option autoImplicit false

namespace Dem64

namespace Pci

open Interaction Prog

/-- A call. -/
inductive ConfigCall
  | read (address : PciAddress) (offset : BitVec 16) (size : BitVec 8) (valueGiven : Bool)
  | write (address : PciAddress) (offset : BitVec 16) (size : BitVec 8) (value : BitVec 32)

/-- What is run for it: the status, and what is stored through the pointer. -/
def ConfigCall.prog (regions : List PciEcamRegion) : ConfigCall → PciM (Nat × Option (BitVec 32))
  | .read address offset size valueGiven => pciConfigRead regions address offset size valueGiven
  | .write address offset size value => do
    let status ← pciConfigWrite regions address offset size value
    pure (status, none)

/-! ## What is meant -/

/-- The access is one that the mechanism for the bus can make. -/
def Accepts (regions : List PciEcamRegion) (address : PciAddress) (offset : BitVec 16) (size : BitVec 8) : Prop :=
  if (findEcamRegion regions address.segment address.bus).isSome then
    ValidAccess address offset size PCI_CONFIG_PCIE_SIZE
  else address.segment = 0 ∧ ValidAccess address offset size PCI_CONFIG_LEGACY_SIZE

instance (regions : List PciEcamRegion) (address : PciAddress) (offset : BitVec 16) (size : BitVec 8) :
    Decidable (Accepts regions address offset size) := inferInstanceAs (Decidable (ite _ _ _))

/-- A call as one access to the configuration spaces. -/
def configSpec (regions : List PciEcamRegion) (layouts : Place → Layout) :
    ConfigCall → (Place → Space) → (Nat × Option (BitVec 32)) × (Place → Space)
  | .read address offset size valueGiven, spaces =>
    if valueGiven = true ∧ Accepts regions address offset size then
      ((PCI_STATUS_SUCCESS, some (readAt (spaces address.place) offset.toNat size.toNat)), spaces)
    else ((PCI_STATUS_INVALID_ADDRESS, none), spaces)
  | .write address offset size value, spaces =>
    if Accepts regions address offset size then
      let w := accessWrite regions address (spaces address.place) offset size value
      ((PCI_STATUS_SUCCESS, none), Function.update spaces w.place
        ((layouts w.place).write (spaces w.place) w.offset w.size w.value))
    else ((PCI_STATUS_INVALID_ADDRESS, none), spaces)

/-! ## The shape of an access -/

/-- A load or a store in the window, at a function of a bus that the region has. -/
def EcamAccess (regions : List PciEcamRegion) (region : PciEcamRegion) (o : PciOp) : Prop :=
  ∃ address : PciAddress, findEcamRegion regions address.segment address.bus = some region ∧
    ∃ a, (windowPlace region a).1 = address.place ∧
      ((∃ size, o = .load a size) ∨ ∃ size value, o = .store a size value)

section

variable {regions : List PciEcamRegion} {region : PciEcamRegion} {layouts : Place → Layout} {address : PciAddress}
  {offset : BitVec 16} {size : BitVec 8} {value : BitVec 32} {s : Host} {o : PciOp}

theorem accepts_some (hfind : findEcamRegion regions address.segment address.bus = some region) :
    Accepts regions address offset size ↔ ValidAccess address offset size PCI_CONFIG_PCIE_SIZE := by
  rw [Accepts, hfind, Option.isSome_some, if_pos rfl]

theorem accepts_none (hfind : findEcamRegion regions address.segment address.bus = none) :
    Accepts regions address offset size ↔
      address.segment = 0 ∧ ValidAccess address offset size PCI_CONFIG_LEGACY_SIZE := by
  rw [Accepts, hfind, Option.isSome_none, if_neg Bool.false_ne_true]

/-- Where an access through the region goes. -/
theorem ecamAccess_pointer (hfind : findEcamRegion regions address.segment address.bus = some region)
    (hv : ValidAccess address offset size PCI_CONFIG_PCIE_SIZE) :
    (windowPlace region (ecamPointer region address offset)).1 = address.place := by
  rw [windowPlace_ecamPointer hv.toNat.1 hv.toNat.2 hv.offset_lt (findEcamRegion_some hfind)]

/-- **A call is one section, one load or store, or nothing.** -/
theorem ConfigCall.sectioned (hregions : ∀ r ∈ regions, r = region) (j : ConfigCall) :
    Sectioned .lock .unlock (EcamAccess regions region) (j.prog regions) := by
  have hfound : ∀ {segment bus r}, findEcamRegion regions segment bus = some r → r = region :=
    fun h => hregions _ (List.mem_of_find?_eq_some h)
  cases j with
  | read address offset size valueGiven =>
    rw [ConfigCall.prog, pciConfigRead]
    split
    · exact .pure _
    · cases hfind : findEcamRegion regions address.segment address.bus with
      | some r =>
        obtain rfl := hfound hfind
        dsimp only
        split
        · exact .pure _
        · rename_i hv
          exact .free ⟨address, hfind, _, ecamAccess_pointer hfind (not_not.mp hv), .inl ⟨_, rfl⟩⟩
            (by simp) (by simp) fun v => ⟨_, rfl⟩
      | none =>
        dsimp only
        split
        · exact .pure _
        · refine .locked fun _ => .op (by simp) (by simp) fun _ => .op (by simp) (by simp) fun data =>
            .release fun _ => ?_
          split
          · exact ⟨_, rfl⟩
          · split <;> exact ⟨_, rfl⟩
  | write address offset size value =>
    rw [ConfigCall.prog, pciConfigWrite]
    cases hfind : findEcamRegion regions address.segment address.bus with
    | some r =>
      obtain rfl := hfound hfind
      dsimp only
      split
      · exact .pure _
      · rename_i hv
        exact .free ⟨address, hfind, _, ecamAccess_pointer hfind (not_not.mp hv), .inr ⟨_, _, rfl⟩⟩
          (by simp) (by simp) fun v => ⟨_, rfl⟩
    | none =>
      dsimp only
      split
      · exact .pure _
      · split
        · exact .locked fun _ => .op (by simp) (by simp) fun _ => .op (by simp) (by simp) fun _ =>
            .release fun _ => ⟨_, rfl⟩
        · exact .locked fun _ => .op (by simp) (by simp) fun _ => .op (by simp) (by simp) fun old =>
            .op (by simp) (by simp) fun _ => .release fun _ => ⟨_, rfl⟩

/-! ## The two mechanisms do not meet -/

/-- Functions behind the ports are not on a bus of the region. -/
theorem place_ne_of_none (hsegment : region.segment = 0) {address' : PciAddress}
    (hfind : findEcamRegion regions address.segment address.bus = none) (hseg : address.segment = 0)
    (hfind' : findEcamRegion regions address'.segment address'.bus = some region) :
    address.place ≠ address'.place := by
  intro heq
  have hbus : address.bus = address'.bus := BitVec.eq_of_toNat_eq (congrArg Place.bus heq)
  have hfound := List.find?_some hfind'
  simp only [decide_eq_true_eq] at hfound
  rw [hseg, ← hsegment, hfound.1, hbus, hfind'] at hfind
  exact absurd hfind (by simp)

/-- A load or a store in the window reads and writes one space, and nothing else. -/
def Touches (region : PciEcamRegion) (layouts : Place → Layout) (place : Place) (o : PciOp) : Prop :=
  ∃ (g : Space → PciAns o) (f : Space → Space), ∀ s : Host,
    host region layouts o s = (g (s.spaces place), s.withSpace place (f (s.spaces place)))

theorem EcamAccess.touches (layouts : Place → Layout) (ho : EcamAccess regions region o) : ∃ address : PciAddress,
    findEcamRegion regions address.segment address.bus = some region ∧
      Touches region layouts address.place o := by
  obtain ⟨address, hfind, a, ha, ⟨size, rfl⟩ | ⟨size, value, rfl⟩⟩ := ho
  · refine ⟨address, hfind, fun space => readAt space (windowPlace region a).2 size, id, fun s => ?_⟩
    rw [host, ha, Host.withSpace, id, Function.update_eq_self]
  · refine ⟨address, hfind, fun _ => (),
      fun space => (layouts address.place).write space (windowPlace region a).2 size value, fun s => ?_⟩
    rw [host, ha]

variable {place : Place}

theorem Touches.commutes_select (ht : Touches region layouts place o) (v : BitVec 32) (s : Host) :
    Commutes (host region layouts) o (.outl 0xcf8 v) s := by
  obtain ⟨g, f, heq⟩ := ht
  refine ⟨rfl, ?_, ?_⟩
  · rw [heq, heq]
    rfl
  · rw [heq, heq]
    rfl

/-- The space behind the data register is another one. -/
theorem Touches.commutes_inl (ht : Touches region layouts place o) (hmsb : s.addressRegister.msb = true)
    (hne : selectedPlace s.addressRegister ≠ place) : Commutes (host region layouts) o (.inl 0xcfc) s := by
  obtain ⟨g, f, heq⟩ := ht
  have hinl : ∀ s : Host, s.addressRegister.msb = true → host region layouts (.inl 0xcfc) s =
      (dwordAt (s.spaces (selectedPlace s.addressRegister)) (selectedOffset s.addressRegister), s) :=
    fun s h => if_pos ⟨rfl, h⟩
  rw [Commutes, heq, hinl _ hmsb, hinl _ (show (s.withSpace place _).addressRegister.msb = true from hmsb), heq]
  refine ⟨?_, rfl, rfl⟩
  show dwordAt (Function.update s.spaces place _ (selectedPlace s.addressRegister))
    (selectedOffset s.addressRegister) = _
  rw [Function.update_of_ne hne]

theorem Touches.commutes_outl (ht : Touches region layouts place o) (hmsb : s.addressRegister.msb = true)
    (hne : selectedPlace s.addressRegister ≠ place) (v : BitVec 32) :
    Commutes (host region layouts) o (.outl 0xcfc v) s := by
  obtain ⟨g, f, heq⟩ := ht
  have houtl : ∀ s : Host, s.addressRegister.msb = true → host region layouts (.outl 0xcfc v) s =
      ((), s.withSpace (selectedPlace s.addressRegister) ((layouts (selectedPlace s.addressRegister)).write
        (s.spaces (selectedPlace s.addressRegister)) (selectedOffset s.addressRegister) 4 v)) :=
    fun s h => by rw [host, if_neg (by decide), if_pos ⟨rfl, h⟩]
  rw [Commutes, heq, houtl _ hmsb, houtl _ (show (s.withSpace place _).addressRegister.msb = true from hmsb), heq]
  simp only [Host.withSpace, Function.update_of_ne hne, Function.update_of_ne hne.symm, true_and, and_true]
  rw [Function.update_comm hne]

theorem host_inl (port : BitVec 16) (s : Host) : (host region layouts (.inl port) s).2 = s := by
  rw [host]
  split <;> rfl

/-- **An access through the region commutes with an access through the ports.** -/
theorem EcamAccess.independent (hsegment : region.segment = 0) (ho : EcamAccess regions region o)
    (j : ConfigCall) (s : Host) (hj : ∃ k, j.prog regions = .ask .lock k) :
    Independent (host region layouts) o (j.prog regions) s := by
  obtain ⟨address', hfind', ht⟩ := ho.touches layouts
  obtain ⟨k, hk⟩ := hj
  cases j with
  | read address offset size valueGiven =>
    rw [ConfigCall.prog, pciConfigRead] at hk ⊢
    split at hk
    · cases hk
    · rename_i hgiven
      cases hfind : findEcamRegion regions address.segment address.bus with
      | some r =>
        rw [hfind] at hk
        dsimp only at hk
        split at hk
        · cases hk
        · cases hk
      | none =>
        rw [if_neg hgiven]
        dsimp only
        split
        · trivial
        · rename_i hno
          rw [not_or, not_not, not_not] at hno
          have hne := place_ne_of_none hsegment hfind hno.1 hfind'
          have hplace : selectedPlace (configAddress address offset) = address.place :=
            selectedPlace_configAddress hno.2.toNat.1 hno.2.toNat.2
          rw [← hplace] at hne
          refine ⟨⟨rfl, rfl, rfl⟩, ht.commutes_select _ _, ht.commutes_inl configAddress_msb hne,
            ⟨rfl, rfl, rfl⟩, ?_⟩
          split
          · trivial
          · split <;> trivial
  | write address offset size value =>
    rw [ConfigCall.prog, pciConfigWrite] at hk ⊢
    cases hfind : findEcamRegion regions address.segment address.bus with
    | some r =>
      rw [hfind] at hk
      dsimp only at hk
      split at hk
      · cases hk
      · cases hk
    | none =>
      dsimp only
      split
      · trivial
      · rename_i hno
        rw [not_or, not_not, not_not] at hno
        have hne := place_ne_of_none hsegment hfind hno.1 hfind'
        have hplace : selectedPlace (configAddress address offset) = address.place :=
          selectedPlace_configAddress hno.2.toNat.1 hno.2.toNat.2
        rw [← hplace] at hne
        split
        · refine ⟨⟨rfl, rfl, rfl⟩, ht.commutes_select _ _, ?_, ?_, trivial⟩
          · exact ht.commutes_outl (s := { s with addressRegister := configAddress address offset })
              configAddress_msb hne value
          · exact ⟨rfl, rfl, rfl⟩
        · refine ⟨⟨rfl, rfl, rfl⟩, ht.commutes_select _ _, ?_, ?_, ?_, trivial⟩
          · exact ht.commutes_inl (s := { s with addressRegister := configAddress address offset })
              configAddress_msb hne
          · refine ht.commutes_outl ?_ ?_ _
            · rw [host_inl]
              exact configAddress_msb
            · rw [host_inl]
              exact hne
          · exact ⟨rfl, rfl, rfl⟩

/-! ## A call alone -/

theorem ConfigCall.read_refused (hv : ¬ Accepts regions address offset size) :
    pciConfigRead regions address offset size true = pure (PCI_STATUS_INVALID_ADDRESS, none) := by
  rw [pciConfigRead, if_neg (by decide)]
  cases hfind : findEcamRegion regions address.segment address.bus with
  | some r => exact if_pos fun h => hv ((accepts_some hfind).mpr h)
  | none =>
    rw [accepts_none hfind] at hv
    exact if_pos (by tauto)

theorem ConfigCall.write_refused (hv : ¬ Accepts regions address offset size) :
    pciConfigWrite regions address offset size value = pure PCI_STATUS_INVALID_ADDRESS := by
  rw [pciConfigWrite]
  cases hfind : findEcamRegion regions address.segment address.bus with
  | some r => exact if_pos fun h => hv ((accepts_some hfind).mpr h)
  | none =>
    rw [accepts_none hfind] at hv
    exact if_pos (by tauto)

/-- **Alone, a call is the access that is meant.** -/
theorem ConfigCall.run_eq (hregions : ∀ r ∈ regions, r = region) (j : ConfigCall) (s : Host) :
    configSpec regions layouts j s.spaces = ((run (host region layouts) (j.prog regions) s).1,
      (run (host region layouts) (j.prog regions) s).2.spaces) := by
  have hfound : ∀ {segment bus r}, findEcamRegion regions segment bus = some r → r = region :=
    fun h => hregions _ (List.mem_of_find?_eq_some h)
  cases j with
  | read address offset size valueGiven =>
    rw [configSpec, ConfigCall.prog]
    by_cases hgiven : valueGiven = true
    · subst hgiven
      by_cases hv : Accepts regions address offset size
      · rw [if_pos ⟨rfl, hv⟩]
        cases hfind : findEcamRegion regions address.segment address.bus with
        | some r =>
          obtain rfl := hfound hfind
          rw [run_read_ecam hfind ((accepts_some hfind).mp hv)]
        | none =>
          obtain ⟨hsegment, hv⟩ := (accepts_none hfind).mp hv
          rw [run_read_ports hfind hsegment hv]
      · rw [if_neg fun h => hv h.2, ConfigCall.read_refused hv]
        rfl
    · rw [if_neg fun h => hgiven h.1, pciConfigRead, if_pos (by simpa using hgiven)]
      rfl
  | write address offset size value =>
    rw [configSpec, ConfigCall.prog, run_bind, run_pure, accessWrite]
    by_cases hv : Accepts regions address offset size
    · rw [if_pos hv]
      cases hfind : findEcamRegion regions address.segment address.bus with
      | some r =>
        obtain rfl := hfound hfind
        rw [run_write_ecam hfind ((accepts_some hfind).mp hv)]
        rfl
      | none =>
        obtain ⟨hsegment, hv⟩ := (accepts_none hfind).mp hv
        rw [run_write_ports hfind hsegment hv]
        rfl
    · rw [if_neg hv, ConfigCall.write_refused hv]
      rfl

/-! ## All processors -/

end

end Pci

end Dem64
