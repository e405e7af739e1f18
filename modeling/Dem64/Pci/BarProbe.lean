import Dem64.Pci.Bar

/-!
# Probing a BAR leaves no trace

`pci_read_bar` writes ones into a BAR to learn its size.  While it does, decoding is off, and when it returns, the
Command register and all BARs are as they were (`pciReadBar_transparent`), on every path through the function and by
either mechanism.
-/

set_option autoImplicit false

namespace Dem64

namespace Pci

open Interaction Interaction.Prog

/-- The bits of the BARs and of Command are hardwired or read-write, and the two decode bits are read-write, or
hardwired to 0. -/
structure ProbeLayout (layout : Layout) (space : Space) : Prop where
  bars : ∀ j, j < 6 → layout.KeepsDword (16 + 4 * j)
  command : ∀ x, x = 4 ∨ x = 5 → layout.cleared x = 0
  decode : space 4 &&& ~~~layout.writable 4 &&& 3 = 0

/-- Memory and I/O decoding are disabled. -/
def Disabled (address : PciAddress) (v : Seen) : Prop := v.spaces address.place 4 &&& 3 = 0

/-- Ones are the only value that has been written to the BAR. -/
def Probing (address : PciAddress) (v : Seen) (j : Nat) : Prop :=
  v.writes.filter (fun w => w.place = address.place ∧ w.offset = 16 + 4 * j) =
    [⟨address.place, 16 + 4 * j, 4, 0xffffffff⟩]

/-- A write of Command, with the Status half where the ports make it, or of a BAR. -/
def Permitted (regions : List PciEcamRegion) (address : PciAddress) (w : ConfigWrite) : Prop :=
  w.place = address.place ∧
    (w.offset = 4 ∧ w.size = (if (findEcamRegion regions address.segment address.bus).isSome then 2 else 4) ∨
      ∃ j, j < 6 ∧ w.offset = 16 + 4 * j ∧ w.size = 4)

/-- A state of the call: a BAR that does not have its value, or is being probed, is not decoded, and nothing else has
been written. -/
structure Undisturbed (regions : List PciEcamRegion) (address : PciAddress) (entry : Space) (v : Seen) : Prop where
  quiet : ∀ j, j < 6 →
    dwordAt (v.spaces address.place) (16 + 4 * j) ≠ dwordAt entry (16 + 4 * j) ∨ Probing address v j →
      Disabled address v
  permitted : ∀ w ∈ v.writes, Permitted regions address w

/-! ## Bytes and dwords that come back -/

section

variable {layout : Layout} {x : Nat}

theorem merge_eq (hc : layout.cleared x = 0) (b n : BitVec 8) :
    layout.merge x b n = (b &&& ~~~layout.writable x) ||| (n &&& layout.writable x) := by
  rw [Layout.merge, hc, show ~~~((0 : BitVec 8) &&& n) = BitVec.allOnes 8 by simp, BitVec.and_allOnes]

/-- A byte that is written back, where a one clears nothing. -/
theorem merge_back (hc : layout.cleared x = 0) (b n : BitVec 8) : layout.merge x (layout.merge x b n) b = b := by
  rw [merge_eq hc, merge_eq hc]
  ext i hi
  simp only [BitVec.getElem_or, BitVec.getElem_and, BitVec.getElem_not]
  cases b[i] <;> cases n[i] <;> cases (layout.writable x)[i] <;> rfl

/-- A byte behind a write that clears two bits which are read-write, or 0. -/
theorem merge_and_three (hc : layout.cleared x = 0) (b : BitVec 8) (h : b &&& ~~~layout.writable x &&& 3 = 0) :
    layout.merge x b (b &&& ~~~3) &&& 3 = 0 := by
  rw [merge_eq hc]
  ext i hi
  have hbit := congrArg (fun y : BitVec 8 => y[i]) h
  simp only [BitVec.getElem_or, BitVec.getElem_and, BitVec.getElem_not] at hbit ⊢
  revert hbit
  cases b[i] <;> cases (3 : BitVec 8)[i] <;> cases (layout.writable x)[i] <;> simp

end

section

variable {regions : List PciEcamRegion} {region : PciEcamRegion} {layouts : Place → Layout} {address : PciAddress}
  {offset : BitVec 16} {low high : BitVec 32} {v : Seen} {index j : Nat}

/-- The bytes of the Command register, as they are written. -/
theorem byte_command {x : Nat} (hx : x = 4 ∨ x = 5) :
    ((v.command address).setWidth 32).extractLsb' (8 * (x - 4)) 8 = v.spaces address.place x := by
  apply BitVec.eq_of_getLsbD_eq
  intro i hi
  rw [BitVec.getLsbD_extractLsb', BitVec.getLsbD_setWidth, Seen.command, BitVec.getLsbD_append, decide_eq_true hi,
    Bool.true_and]
  rcases hx with rfl | rfl
  · rw [if_pos (by omega), decide_eq_true (by omega), Bool.true_and]
    congr 1
    omega
  · rw [if_neg (by omega), decide_eq_true (by omega), Bool.true_and]
    congr 1
    omega

/-- The low byte of the Command register without the decode bits. -/
theorem byte_command_and :
    ((v.command address &&& ~~~3).setWidth 32).extractLsb' 0 8 = v.spaces address.place 4 &&& ~~~3 := by
  apply BitVec.eq_of_getLsbD_eq
  intro i hi
  have hthree : (3 : BitVec 16).getLsbD i = (3 : BitVec 8).getLsbD i := by
    rw [show (3 : BitVec 16) = BitVec.setWidth 16 (3 : BitVec 8) from rfl, BitVec.getLsbD_setWidth,
      decide_eq_true (by omega), Bool.true_and]
  rw [BitVec.getLsbD_extractLsb', BitVec.getLsbD_setWidth, decide_eq_true hi, Nat.zero_add,
    decide_eq_true (by omega), BitVec.getLsbD_and, BitVec.getLsbD_not, BitVec.getLsbD_and, BitVec.getLsbD_not, hthree,
    Seen.command, BitVec.getLsbD_append, if_pos hi, decide_eq_true hi, decide_eq_true (show i < 16 by omega)]
  rfl

/-- A dword whose hardwired bits are right gets its value back. -/
theorem dwordAt_write_eq {layout : Layout} {space : Space} {o : Nat} {d : BitVec 32} (hkeep : layout.KeepsDword o)
    (h : ∀ i, i < 32 → (dwordAt layout.writable o).getLsbD i = false →
      (dwordAt space o).getLsbD i = d.getLsbD i) :
    dwordAt (layout.write space o 4 d) o = d := by
  apply BitVec.eq_of_getLsbD_eq
  intro i hi
  rw [getLsbD_dwordAt_write hkeep hi]
  split
  next => rfl
  next hw => exact h i hi (Bool.eq_false_iff.mpr hw)

/-! ## Decoding -/

theorem Seen.decodeOff_disabled (hr : Reaches regions region address)
    (hl : ProbeLayout (layouts address.place) (v.spaces address.place)) :
    Disabled address (v.decodeOff regions layouts address) := by
  rw [Disabled, Seen.decodeOff, Seen.access_mem (validAccess_command hr) (Nat.le_refl 4) (by decide)]
  show (layouts address.place).merge 4 _ (((v.command address &&& ~~~3).setWidth 32).extractLsb' 0 8) &&& 3 = 0
  rw [byte_command_and]
  exact merge_and_three (hl.command 4 (.inl rfl)) _ hl.decode

/-- A write of a BAR does not decode. -/
theorem Disabled.access {value : BitVec 32} {n : Nat} (h : Disabled address v) (hv : ValidAccess address offset 4 n)
    (ho : 16 ≤ offset.toNat) : Disabled address (v.access regions layouts address offset 4 value) := by
  rw [Disabled, Seen.access_not_mem hv (.inl (by omega))]
  exact h

theorem Disabled.writeHigh {value : BitVec 32} (h : Disabled address v) (ho : BarOffset offset low index)
    (hr : Reaches regions region address) :
    Disabled address (v.writeHigh regions layouts address offset low value) := by
  rw [Seen.writeHigh]
  split
  next hm =>
    have := ho.eq_high hm
    exact h.access (ho.valid_high hr hm) (by omega)
  next => exact h

/-! ## What is written -/

theorem permitted_command {space : Space} {value : BitVec 32} :
    Permitted regions address (accessWrite regions address space 0x04 2 value) := by
  rw [accessWrite]
  split
  next h => exact ⟨rfl, .inl ⟨rfl, (if_pos h).symm⟩⟩
  next h => exact ⟨rfl, .inl ⟨rfl, (if_neg h).symm⟩⟩

/-- The writes of the second dword, if there is one. -/
def highWrites (address : PciAddress) (index : Nat) (low value : BitVec 32) : List ConfigWrite :=
  if IsMemory64 low then [⟨address.place, 16 + 4 * (index + 1), 4, value⟩] else []

theorem Seen.writeHigh_writes {value : BitVec 32} (ho : BarOffset offset low index)
    (hr : Reaches regions region address) :
    (v.writeHigh regions layouts address offset low value).writes = v.writes ++ highWrites address index low value := by
  rw [Seen.writeHigh, highWrites]
  split
  next hm =>
    rw [Seen.access, Seen.write, accessWrite_dword (ho.valid_high hr hm), ho.eq_high hm]
  next => exact (List.append_nil _).symm

/-- The writes of a probe, up to each of its steps. -/
theorem Seen.decodeOff_writes :
    ∃ c, Permitted regions address c ∧ c.offset = 4 ∧
      (v.decodeOff regions layouts address).writes = v.writes ++ [c] := by
  refine ⟨_, permitted_command, ?_, rfl⟩
  rw [accessWrite]
  split <;> rfl

theorem Seen.probeLow_writes (ho : BarOffset offset low index) (hr : Reaches regions region address) :
    (v.probeLow regions layouts address offset).writes =
      v.writes ++ [⟨address.place, 16 + 4 * index, 4, 0xffffffff⟩] := by
  rw [Seen.probeLow, Seen.access, Seen.write, accessWrite_dword (ho.valid hr), ho.eq]

theorem Seen.barRestored_writes (ho : BarOffset offset low index) (hr : Reaches regions region address) :
    ∃ c, Permitted regions address c ∧ c.offset = 4 ∧
      (v.barRestored regions layouts address offset low high).writes =
        v.writes ++ [c] ++ [⟨address.place, 16 + 4 * index, 4, 0xffffffff⟩] ++
          highWrites address index low 0xffffffff ++ highWrites address index low high ++
          [⟨address.place, 16 + 4 * index, 4, low⟩] := by
  obtain ⟨c, hc, hoffset, hwrites⟩ := @Seen.decodeOff_writes regions layouts address v
  refine ⟨c, hc, hoffset, ?_⟩
  rw [Seen.barRestored, Seen.access, Seen.write, accessWrite_dword (ho.valid hr), ho.eq, Seen.highRestored,
    Seen.writeHigh_writes ho hr, Seen.probed, Seen.writeHigh_writes ho hr, Seen.probeLow_writes ho hr, hwrites]

/-- After the call no BAR is being probed: what has been probed has been written again. -/
theorem not_probing_restored (ho : BarOffset offset low index) (hr : Reaches regions region address)
    (hempty : v.writes = []) : ¬ Probing address (v.restored regions layouts address offset low high) j := by
  obtain ⟨c, -, hc, hwrites⟩ := @Seen.barRestored_writes _ _ layouts _ _ _ high v _ ho hr
  have hlast : ∃ c', c'.offset = 4 ∧ (v.restored regions layouts address offset low high).writes =
      (v.barRestored regions layouts address offset low high).writes ++ [c'] := by
    refine ⟨_, ?_, rfl⟩
    rw [accessWrite]
    split <;> rfl
  obtain ⟨c', hc', hlast⟩ := hlast
  have hno : ∀ w : ConfigWrite, w.offset = 4 → decide (w.place = address.place ∧ w.offset = 16 + 4 * j) = false :=
    fun w hw => decide_eq_false (by rintro ⟨-, h⟩; omega)
  intro h
  have hlen := congrArg List.length h
  rw [hlast, hwrites, hempty] at hlen
  simp only [List.nil_append, List.filter_append, List.filter_cons, hno c hc, hno c' hc', highWrites] at hlen
  by_cases hm : IsMemory64 low
  · by_cases h1 : j = index
    · subst h1
      simp [hm] at hlen
    · by_cases h2 : j = index + 1
      · subst h2
        simp [hm] at hlen
      · simp [hm, show ¬ index = j by omega, show ¬ index + 1 = j by omega] at hlen
  · by_cases h1 : j = index
    · subst h1
      simp [hm] at hlen
    · simp [hm, show ¬ index = j by omega] at hlen

theorem Seen.restored_permitted (ho : BarOffset offset low index) (hr : Reaches regions region address)
    (hempty : v.writes = []) :
    ∀ w ∈ (v.restored regions layouts address offset low high).writes, Permitted regions address w := by
  obtain ⟨c, hc, -, hwrites⟩ := @Seen.barRestored_writes _ _ layouts _ _ _ high v _ ho hr
  have hle := ho.le
  have hhigh : ∀ value, ∀ w ∈ highWrites address index low value, Permitted regions address w := by
    intro value w hw
    rw [highWrites] at hw
    split at hw
    next hm =>
      have := ho.high hm
      obtain rfl := List.mem_singleton.mp hw
      exact ⟨rfl, .inr ⟨index + 1, by omega, rfl, rfl⟩⟩
    next => cases hw
  have hbar : ∀ value, Permitted regions address ⟨address.place, 16 + 4 * index, 4, value⟩ :=
    fun value => ⟨rfl, .inr ⟨index, by omega, rfl, rfl⟩⟩
  intro w hw
  rcases List.mem_append.mp hw with hw | hw
  · rw [hwrites, hempty, List.nil_append] at hw
    simp only [List.mem_append, List.mem_singleton] at hw
    rcases hw with (((rfl | rfl) | hw) | hw) | rfl
    · exact hc
    · exact hbar _
    · exact hhigh _ w hw
    · exact hhigh _ w hw
    · exact hbar _
  · rw [List.mem_singleton.mp hw]
    exact permitted_command

/-! ## The values at the end -/

/-- **Every BAR has its value again.** -/
theorem dwordAt_restored (ho : BarOffset offset low index) (hr : Reaches regions region address)
    (hl : ProbeLayout (layouts address.place) (v.spaces address.place))
    (hlow : low = dwordAt (v.spaces address.place) (16 + 4 * index)) (hhigh : high = v.highDword address offset low)
    (hj : j < 6) :
    dwordAt ((v.restored regions layouts address offset low high).spaces address.place) (16 + 4 * j) =
      dwordAt (v.spaces address.place) (16 + 4 * j) := by
  have heq := ho.eq
  have hle := ho.le
  rw [Seen.restored, Seen.access_dword_other (validAccess_command hr) (.inr (by show 4 - 4 % 4 + 4 ≤ _; omega)),
    Seen.barRestored]
  by_cases h1 : j = index
  · subst h1
    rw [Seen.access_dword (ho.valid hr), heq, ← hlow]
    refine dwordAt_write_eq (hl.bars j hj) fun i hi hw => ?_
    rw [Seen.highRestored, dwordAt_writeHigh ho hr (.inl (by omega)), getLsbD_probed ho hr (hl.bars j hj) hi,
      if_neg (Bool.eq_false_iff.mp hw), hlow]
  · rw [Seen.access_dword_other (ho.valid hr) (by omega), Seen.highRestored]
    by_cases h2 : IsMemory64 low ∧ j = index + 1
    · obtain ⟨hm, rfl⟩ := h2
      have hhigh' : high = dwordAt (v.spaces address.place) (16 + 4 * (index + 1)) := by
        rw [hhigh, Seen.highDword, if_pos hm, ho.eq_high hm]
      rw [Seen.writeHigh, if_pos hm, Seen.access_dword (ho.valid_high hr hm), ho.eq_high hm, ← hhigh']
      refine dwordAt_write_eq (hl.bars _ hj) fun i hi hw => ?_
      have hback := getLsbD_probed_high (v := v) ho hr hm (hl.bars _ hj) hi
      rw [if_neg (Bool.eq_false_iff.mp hw), ← hhigh', Seen.highDword, if_pos hm, ho.eq_high hm] at hback
      exact hback
    · have hother : ∀ (u : Seen) (value : BitVec 32),
          dwordAt ((u.writeHigh regions layouts address offset low value).spaces address.place) (16 + 4 * j) =
            dwordAt (u.spaces address.place) (16 + 4 * j) := by
        intro u value
        by_cases hm : IsMemory64 low
        · have hne : j ≠ index + 1 := fun h => h2 ⟨hm, h⟩
          exact dwordAt_writeHigh ho hr (by omega)
        · rw [Seen.writeHigh, if_neg hm]
      rw [hother, Seen.probed, hother, Seen.probeLow, Seen.access_dword_other (ho.valid hr) (by omega),
        dwordAt_decodeOff hr (by omega)]

/-- **The Command register has its value again.** -/
theorem command_restored (ho : BarOffset offset low index) (hr : Reaches regions region address)
    (hl : ProbeLayout (layouts address.place) (v.spaces address.place)) {x : Nat} (hx : x = 4 ∨ x = 5) :
    (v.restored regions layouts address offset low high).spaces address.place x = v.spaces address.place x := by
  have heq := ho.eq
  have hcommand := validAccess_command hr
  have h4 : (0x04 : BitVec 16).toNat = 4 := rfl
  have h2 : (2 : BitVec 8).toNat = 2 := rfl
  have hhigh : ∀ (u : Seen) (value : BitVec 32),
      (u.writeHigh regions layouts address offset low value).spaces address.place x = u.spaces address.place x := by
    intro u value
    rw [Seen.writeHigh]
    split
    next hm =>
      have := ho.eq_high hm
      exact Seen.access_not_mem (ho.valid_high hr hm) (by omega)
    next => rfl
  rw [Seen.restored, Seen.access_mem hcommand (by omega) (by omega), h4, byte_command hx, Seen.barRestored,
    Seen.access_not_mem (ho.valid hr) (by omega), Seen.highRestored, hhigh, Seen.probed, hhigh, Seen.probeLow,
    Seen.access_not_mem (ho.valid hr) (by omega), Seen.decodeOff, Seen.access_mem hcommand (by omega) (by omega)]
  exact merge_back (hl.command x hx) _ _

/-! ## The call -/

theorem mem_access_writes {size : BitVec 8} {value : BitVec 32} {w : ConfigWrite} (h : w ∈ v.writes) :
    w ∈ (v.access regions layouts address offset size value).writes := List.mem_append_left _ h

theorem mem_writeHigh_writes {value : BitVec 32} {w : ConfigWrite} (h : w ∈ v.writes) :
    w ∈ (v.writeHigh regions layouts address offset low value).writes := by
  rw [Seen.writeHigh]
  split
  · exact mem_access_writes h
  · exact h

/-- With decoding off nothing is disturbed. -/
theorem Disabled.undisturbed {entry : Space} (h : Disabled address v)
    (hp : ∀ w ∈ v.writes, Permitted regions address w) : Undisturbed regions address entry v :=
  ⟨fun _ _ _ => h, hp⟩

/-- **Every state of a probe is undisturbed.** -/
theorem probeAlways_undisturbed (ho : BarOffset offset low index) (hr : Reaches regions region address)
    (hl : ProbeLayout (layouts address.place) (v.spaces address.place)) (hempty : v.writes = [])
    (hlow : low = dwordAt (v.spaces address.place) (16 + 4 * index)) (hhigh : high = v.highDword address offset low) :
    ProbeAlways regions layouts address (Undisturbed regions address (v.spaces address.place)) offset low high v := by
  have heq := ho.eq
  have hv := ho.valid hr
  have h1 : Disabled address (v.decodeOff regions layouts address) := Seen.decodeOff_disabled hr hl
  have h2 : Disabled address ((v.decodeOff regions layouts address).probeLow regions layouts address offset) :=
    h1.access hv (by omega)
  have h3 : Disabled address (v.probed regions layouts address offset low) := h2.writeHigh ho hr
  have h4 : Disabled address (v.highRestored regions layouts address offset low high) := h3.writeHigh ho hr
  have h5 : Disabled address (v.barRestored regions layouts address offset low high) := h4.access hv (by omega)
  -- the writes up to a state are among those of the last one
  have p6 := @Seen.restored_permitted _ _ layouts _ _ _ high _ _ ho hr hempty
  have p5 : ∀ w ∈ (v.barRestored regions layouts address offset low high).writes, Permitted regions address w :=
    fun w hw => p6 w (mem_access_writes hw)
  have p4 : ∀ w ∈ (v.highRestored regions layouts address offset low high).writes, Permitted regions address w :=
    fun w hw => p5 w (mem_access_writes hw)
  have p3 : ∀ w ∈ (v.probed regions layouts address offset low).writes, Permitted regions address w :=
    fun w hw => p4 w (mem_writeHigh_writes hw)
  have p2 : ∀ w ∈ ((v.decodeOff regions layouts address).probeLow regions layouts address offset).writes,
      Permitted regions address w := fun w hw => p3 w (mem_writeHigh_writes hw)
  have p1 : ∀ w ∈ (v.decodeOff regions layouts address).writes, Permitted regions address w :=
    fun w hw => p2 w (mem_access_writes hw)
  refine ⟨⟨fun j _ hj => ?_, fun w hw => p1 w (mem_access_writes hw)⟩, h1.undisturbed p1, h2.undisturbed p2,
    h3.undisturbed p3, h4.undisturbed p4, h5.undisturbed p5, ⟨fun j hj6 hj => ?_, p6⟩⟩
  · rcases hj with hne | hprobing
    · exact absurd rfl hne
    · rw [Probing, hempty] at hprobing
      cases hprobing
  · rcases hj with hne | hprobing
    · exact absurd (dwordAt_restored ho hr hl hlow hhigh hj6) hne
    · exact absurd hprobing (not_probing_restored ho hr hempty)

/-- The call disturbs nothing, and leaves Command and the BARs as they were. -/
structure Transparent (regions : List PciEcamRegion) (region : PciEcamRegion) (layouts : Place → Layout)
    (address : PciAddress) (h : Host) (barIndex : BitVec 8) (probeSize barGiven : Bool) : Prop where
  always : (pciReadBar regions address barIndex probeSize barGiven).Always (watchedHost region layouts)
    (fun s => Undisturbed regions address (h.spaces address.place) (seen s)) (h, [])
  command : ∀ x, x = 4 ∨ x = 5 →
    (run (host region layouts) (pciReadBar regions address barIndex probeSize barGiven) h).2.spaces address.place x =
      h.spaces address.place x
  bars : ∀ j, j < 6 →
    dwordAt ((run (host region layouts) (pciReadBar regions address barIndex probeSize barGiven) h).2.spaces
      address.place) (16 + 4 * j) = dwordAt (h.spaces address.place) (16 + 4 * j)

/-- **BAR probing is transparent.** -/
theorem pciReadBar_transparent {h : Host}
    (hregion : ∀ r, findEcamRegion regions address.segment address.bus = some r → r = region)
    (hl : ProbeLayout (layouts address.place) (h.spaces address.place)) (barIndex : BitVec 8)
    (probeSize barGiven : Bool) :
    Transparent regions region layouts address h barIndex probeSize barGiven := by
  have hlog := (run_logging (host region layouts) (configWrites region)
    (pciReadBar regions address barIndex probeSize barGiven) h []).2
  by_cases hcase : Reaches regions region address ∧ Probes address barIndex (seen (h, [])) ∧ probeSize = true ∧
      barGiven = true
  · obtain ⟨hr, hprobes, rfl, rfl⟩ := hcase
    have ho := hprobes.barOffset
    have hP := @probeAlways_undisturbed _ _ layouts _ _ _ _ _ _ ho hr hl rfl rfl rfl
    obtain ⟨-, hseen, hall⟩ := exec_pciReadBar_probe hr hprobes rfl rfl hP (h, []) rfl
    have hspaces : (run (host region layouts) (pciReadBar regions address barIndex true true) h).2.spaces =
        ((seen (h, [])).restored regions layouts address (barOffset barIndex)
          (dwordAt ((seen (h, [])).spaces address.place) (16 + 4 * barIndex.toNat))
          ((seen (h, [])).highDword address (barOffset barIndex)
            (dwordAt ((seen (h, [])).spaces address.place) (16 + 4 * barIndex.toNat)))).spaces := by
      rw [← hlog, ← hseen]
      rfl
    refine ⟨hall, fun x hx => ?_, fun j hj => ?_⟩
    · rw [hspaces]
      exact command_restored ho hr hl hx
    · rw [hspaces]
      exact dwordAt_restored ho hr hl rfl rfl hj
  · have hP : Undisturbed regions address (h.spaces address.place) (seen (h, [])) := by
      refine ⟨fun j _ hj => ?_, fun w hw => absurd hw List.not_mem_nil⟩
      rcases hj with hne | hprobing
      · exact absurd rfl hne
      · cases hprobing
    obtain ⟨a, hexec⟩ := @exec_pciReadBar_other _ layouts _ _ _ _ _ hregion _ _ hcase hP
    obtain ⟨-, hseen, hall⟩ := hexec (h, []) rfl
    have hspaces : (run (host region layouts) (pciReadBar regions address barIndex probeSize barGiven) h).2.spaces =
        h.spaces := by
      rw [← hlog]
      exact congrArg Seen.spaces hseen
    exact ⟨hall, fun x _ => by rw [hspaces], fun j _ => by rw [hspaces]⟩

end

/-- Command is read-write, the upper half of Status is cleared by ones, and the first BAR has 64 bits and 16 KiB. -/
def longBarLayout : Layout where
  writable x := if x = 4 then 0x07 else if x = 0x11 then 0xc0 else if 0x12 ≤ x ∧ x < 0x18 then 0xff else 0
  cleared x := if x = 7 then 0xF9 else 0
  disjoint x := by
    by_cases h7 : x = 7
    · subst h7
      decide
    · rw [if_neg h7]
      exact BitVec.and_zero

/-- A function that decodes memory behind `0x400000000`, with a received master abort. -/
def longBarHost : Host where
  spaces := fun _ x =>
    if x = 4 then 0x07 else if x = 7 then 0x20 else if x = 0x10 then 0x0c else if x = 0x14 then 0x04 else 0
  addressRegister := 0

/-- Its BAR is probed by the ports, which clears the Status register and disturbs nothing else. -/
theorem pciReadBar_transparent_longBar :
    Transparent [] allBuses (fun _ => longBarLayout) ⟨0, 0, 1, 0⟩ longBarHost 0 true true := by
  refine pciReadBar_transparent (fun r hr => by cases hr) ⟨fun j hj x hx => ?_, ?_, by decide⟩ 0 true true
  · exact if_neg (by omega)
  · rintro x (rfl | rfl) <;> rfl

end Pci

end Dem64
