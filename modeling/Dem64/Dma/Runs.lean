import Dem64.Dma.Live

/-!
# Runs of `allocate_dma` and `free_dma`

Calls follow each other in any order, and in between the owners of the live buffers write to them (`DmaRun`).
What the steps may do is a parameter: `Unhindered` steps are those whose frames and page tables can be had, and
`Regular` ones are those in which nothing goes wrong.  In a run of regular steps the live allocations have their
extents and their frames at any time (`DmaRun.state`).
-/

set_option autoImplicit false

namespace Dem64

open ByteMemory

/-! ## Runs -/

/-- A step of a run. -/
inductive DmaStep where
  /-- A call of `allocate_dma`; `fresh` is what the frame of a new metadata page holds, `n` bounds the loops. -/
  | allocate (fresh : EntryPtr → DmaEntry) (n size : Nat)
  /-- A call of `free_dma`. -/
  | free (a : Allocation)
  /-- Bytes are written. -/
  | write (bytes : Nat → BitVec 8)

section

variable (pml4 : Nat) (meets : List Allocation → DmaWorld → DmaStep → Prop)

/-- Calls of `allocate_dma`, and of `free_dma` for live allocations, with what is written to the buffers in
between.  All steps meet a condition. -/
inductive DmaRun (w₀ : DmaWorld) : List Allocation → DmaWorld → Prop
  /-- No call yet. -/
  | boot : DmaRun w₀ [] w₀
  /-- A call of `allocate_dma`. -/
  | allocate {live : List Allocation} {w w' : DmaWorld} {fresh : EntryPtr → DmaEntry} {n size : Nat} {ret : DmaRet}
      {own : List EntryPtr} (h : DmaRun w₀ live w) (hm : meets live w (.allocate fresh n size))
      (hcall : allocateDma pml4 n fresh w size = some (ret, own, w')) (hstatus : ret.status = 0) :
      DmaRun w₀ (⟨size, ret, own⟩ :: live) w'
  /-- A call that fails. -/
  | fail {live : List Allocation} {w w' : DmaWorld} {fresh : EntryPtr → DmaEntry} {n size : Nat} {ret : DmaRet}
      {own : List EntryPtr} (h : DmaRun w₀ live w) (hm : meets live w (.allocate fresh n size))
      (hcall : allocateDma pml4 n fresh w size = some (ret, own, w')) (hstatus : ret.status ≠ 0) : DmaRun w₀ live w'
  /-- A call of `free_dma`. -/
  | free {live live' : List Allocation} {w w' : DmaWorld} {n : Nat} {a : Allocation} (h : DmaRun w₀ live w)
      (hm : meets live w (.free a)) (hlive : live.Perm (a :: live'))
      (hcall : freeDma pml4 n w a.ret.virtualAddress = some w') : DmaRun w₀ live' w'
  /-- The owners write to the bytes they have asked for, and the rest of the kernel to its own memory. -/
  | write {live : List Allocation} {w : DmaWorld} {bytes : Nat → BitVec 8} (h : DmaRun w₀ live w)
      (hm : meets live w (.write bytes)) (hkept : ∀ a ∈ live, ∀ i, a.size ≤ i → i < 4096 * a.ret.sizeInPages →
        bytes (a.ret.physicalAddress + i) = w.bytes (a.ret.physicalAddress + i)) :
      DmaRun w₀ live { w with bytes := bytes }

/-- The page tables that a call needs can be had. -/
def HasTables (fresh : EntryPtr → DmaEntry) (n : Nat) (w : DmaWorld) (size : Nat) : Prop :=
  ∀ ret own w', allocateDma pml4 n fresh w size = some (ret, own, w') → NoFail w.machine w'.machine

/-- Steps that succeed: there are frames and page tables, and the owners write no signatures. -/
def Unhindered (_ : List Allocation) (w : DmaWorld) : DmaStep → Prop
  | .allocate fresh n size => ∀ ret own w', allocateDma pml4 n fresh w size = some (ret, own, w') →
      ret.status = 0 ∧ NoFail w.machine w'.machine
  | .free _ => True
  | .write bytes => ∀ a, HasBytes bytes a dmaSign → HasBytes w.bytes a dmaSign

/-- The steps in which nothing goes wrong: a size that does not wrap around, for which there is a place, and page
tables; a free that finds its own descriptor, and gives back no metadata page that is in use. -/
def Regular (_ : List Allocation) (w : DmaWorld) : DmaStep → Prop
  | .allocate fresh n size => size + 4123 < 2 ^ 64 ∧ w.pool.Places (dmaPages size) ∧ HasTables pml4 fresh n w size
  | .free a => a.NoSignBefore w ∧ w.pool.LastPages a.extents
  | .write _ => True

/-- The state of a run: nothing was allocated yet, or there are extents. -/
inductive DmaState (base : Set Nat) : List Allocation → DmaWorld → Prop
  /-- No extents. -/
  | boot {w : DmaWorld} (h : DmaBoot pml4 base w) : DmaState base [] w
  /-- Some. -/
  | pool {live : List Allocation} {w : DmaWorld} {ptrs : List EntryPtr} {f : Nat → Nat}
      (h : DmaInv pml4 base live w ptrs f) : DmaState base live w

end

section

open DmaPool

variable {base : Set Nat} {pml4 n size pages : Nat} {fresh : EntryPtr → DmaEntry} {w w' w₀ : DmaWorld}
  {live live' : List Allocation} {ret : DmaRet} {own : List EntryPtr} {a : Allocation}

/-- Extents are taken without a change of the bytes, and failures are not forgotten. -/
theorem claimExtents_rest {c : Option Claim} (h : claimExtents pml4 n fresh w pages = some (c, w')) :
    w.machine.failures ≤ w'.machine.failures ∧ w'.bytes = w.bytes := by
  by_cases he : w.pool.dmaEntries = 0
  · rw [claimExtents, if_pos he] at h
    obtain ⟨⟨x, q⟩, -, h⟩ := Option.bind_eq_some_iff.mp h
    cases h
    exact ⟨le_refl _, rfl⟩
  · rw [claimExtents_eq he] at h
    obtain ⟨s, -, h⟩ := Option.bind_eq_some_iff.mp h
    split at h
    · rw [growExtents_eq] at h
      obtain ⟨r, -, h⟩ := Option.bind_eq_some_iff.mp h
      cases r with
      | page x =>
        obtain ⟨cq, -, hr⟩ := Option.map_eq_some_iff.mp h
        cases hr
        exact ⟨le_refl _, rfl⟩
      | full last =>
        obtain ⟨⟨d, m⟩, hv, h⟩ := Option.bind_eq_some_iff.mp h
        dsimp only at h
        split at h
        · cases h
          exact ⟨vmalloc_failures_le hv, rfl⟩
        · obtain ⟨xp, -, h⟩ := Option.bind_eq_some_iff.mp h
          obtain ⟨cq, -, hr⟩ := Option.map_eq_some_iff.mp h
          cases hr
          exact ⟨vmalloc_failures_le hv, rfl⟩
    · obtain ⟨cq, -, hr⟩ := Option.map_eq_some_iff.mp h
      cases hr
      exact ⟨le_refl _, rfl⟩

theorem backClaim_failures_le {c : Claim} (h : backClaim pml4 w pages c = some (ret, w')) :
    w.machine.failures ≤ w'.machine.failures := by
  rcases backClaim_machine h with ⟨-, rfl, -⟩ | ⟨-, hm⟩
  · exact le_refl _
  · rw [hm]
    exact (le_refl w.machine.failures).trans (createMapping_noFail c.base _ pages 0x03 pml4
      { w.machine with frames := (allocFrame w.machine.frames pages).2 })

/-- Frames are put behind a claim, or not; the state is that of a run either way. -/
theorem DmaState.back {ptrs : List EntryPtr} {f : Nat → Nat} {c : Claim} (h : DmaInv pml4 base live w ptrs f)
    (hpml4 : pml4 ≠ 0) (hc : Placed w.pool ptrs c.base (dmaPages size) c.extents) (hhome : c.home = c.extents.head?)
    (hapart : ∀ a ∈ live, c.extents.Disjoint a.extents) (hsize : size + 4123 < 2 ^ 64)
    (hback : backClaim pml4 w (dmaPages size) c = some (ret, w')) (hno : NoFail w.machine w'.machine) :
    ret.status = 0 ∧ DmaState pml4 base (⟨size, ret, c.extents⟩ :: live) w' ∧ w'.bytes = putBytes w.bytes
        (⟨size, ret, c.extents⟩ : Allocation).descriptor
        (descriptorBytes c.extents.length ret.sizeInPages c.extents.head?) ∨
      ret.status ≠ 0 ∧ DmaState pml4 base live w' := by
  have hbytes : size + 28 ≤ 4096 * dmaPages size := by
    rw [dmaPages, Nat.shiftRight_eq_div_pow, Nat.mod_eq_of_lt (by omega)]
    omega
  rcases h.back hpml4 (by omega) hc hhome hapart hbytes hback hno with ⟨hstatus, rfl⟩ | ⟨hstatus, h', hput⟩
  · exact .inr ⟨by rw [hstatus]; exact Nat.one_ne_zero, .pool h⟩
  · exact .inl ⟨hstatus, .pool h', hput⟩

/-- **A regular call of `allocate_dma`.** -/
theorem DmaState.allocate (h : DmaState pml4 base live w) (hpml4 : pml4 ≠ 0)
    (hm : Regular pml4 live w (.allocate fresh n size))
    (hcall : allocateDma pml4 n fresh w size = some (ret, own, w')) :
    ret.status = 0 ∧ DmaState pml4 base (⟨size, ret, own⟩ :: live) w' ∧ w'.bytes = putBytes w.bytes
        (⟨size, ret, own⟩ : Allocation).descriptor (descriptorBytes own.length ret.sizeInPages own.head?) ∨
      ret.status ≠ 0 ∧ DmaState pml4 base live w' := by
  obtain ⟨hsize, hplaces, htables⟩ := hm
  have hno := htables _ _ _ hcall
  have hpos : 0 < dmaPages size := by
    rw [dmaPages, Nat.shiftRight_eq_div_pow, Nat.mod_eq_of_lt (by omega)]
    omega
  obtain ⟨ok, w₁, hens, hcase⟩ := allocateDma_parts hcall
  cases h with
  | boot hboot =>
    rw [ensureHeader, if_pos hboot.pool.header] at hens
    obtain ⟨⟨d, m⟩, hv, hens⟩ := Option.bind_eq_some_iff.mp hens
    dsimp only at hens
    split at hens
    · rename_i hd
      cases hens
      obtain ⟨-, rfl, hstatus⟩ | ⟨hok, -⟩ := hcase
      · obtain rfl := vmalloc_failed hv hd
        exact .inr ⟨by rw [hstatus]; exact Nat.one_ne_zero, .boot hboot⟩
      · cases hok
    · rename_i hd
      obtain ⟨p₁, q, hopen, hentries, hclaim, hc, hM, hnew, -⟩ := firstClaim_spec hboot.pool fresh hpos
      rw [hopen] at hens
      cases hens
      obtain ⟨hok, -⟩ | ⟨-, c, w₂, hclaim₂, hcase⟩ := hcase
      · cases hok
      · have hfirst : claimExtents pml4 n fresh { w with machine := m, pool := p₁ } (dmaPages size) =
            some (some ⟨dmaBase, some ⟨0, 1⟩, [⟨0, 1⟩]⟩, { w with machine := m, pool := q }) :=
          claimExtents_first hentries hclaim
        rw [hfirst] at hclaim₂
        cases hclaim₂
        obtain ⟨hc', -⟩ | ⟨c', hc', rfl, hback⟩ := hcase
        · cases hc'
        · cases hc'
          have hle₂ : m.failures ≤ w'.machine.failures := backClaim_failures_le hback
          obtain ⟨hno₁, hno₂⟩ := hno.split (vmalloc_failures_le hv) hle₂
          have hempty : Arena (pml4 >>> 12) dmaLo dmaHi w.machine (metaRegions (fun _ => 0) 0 ++ []) := hboot.arena
          have hv' : vmalloc n w.machine (dmaPoolBase + 4096 * 0) 1 0x03 pml4 = some (d, m) := hv
          obtain ⟨f, hA, hS⟩ := vmalloc_metaPage hempty hboot.stock hpml4 (by decide) (by simp) hv' (not_not.mp hd) hno₁
          have hinv : DmaInv pml4 base [] { w with machine := m, pool := q } [⟨0, 1⟩] f := by
            refine ⟨⟨?_, ?_⟩, ⟨hc.inv, ?_⟩, by simp, List.Pairwise.nil, by simp, by simp⟩
            · show Arena _ _ _ m (metaRegions f (q.dmaMetadataPages + 1) ++ _)
              rw [hM]
              exact hA
            · show Stock _ _ m (metaRegions f (q.dmaMetadataPages + 1) ++ _)
              rw [hM]
              exact hS
            · rw [total_cons, total_nil, hnew]
              exact hplaces.first hboot.pool.entries
          have hstate := DmaState.back hinv hpml4 hc.placed hc.home (by simp) hsize hback hno₂
          exact hstate
  | @pool live w ptrs f h =>
    rw [ensureHeader_eq h.pool.header] at hens
    cases hens
    obtain ⟨hok, -⟩ | ⟨-, c, w₂, hclaim, hcase⟩ := hcase
    · cases hok
    · have hle₂ := (claimExtents_rest hclaim).1
      obtain ⟨rfl, rfl, hstatus⟩ | ⟨c', rfl, rfl, hback⟩ := hcase
      · rcases h.claim hpml4 hpos hplaces hclaim hno with ⟨-, rfl⟩ | ⟨c, ptrs', f', hc, -⟩
        · exact .inr ⟨by rw [hstatus]; exact Nat.one_ne_zero, .pool h⟩
        · cases hc
      · obtain ⟨hno₁, hno₂⟩ := hno.split hle₂ (backClaim_failures_le hback)
        rcases h.claim hpml4 hpos hplaces hclaim hno₁ with ⟨hc, -⟩ | ⟨c, ptrs', f', hc, hcl, htotal, hbytes, hb⟩
        · cases hc
        · cases hc
          have hstate := DmaState.back (h.claimed hcl htotal hbytes hb) hpml4 hcl.placed hcl.home
            (fun a ha => hcl.disjoint (h.placed a ha)) hsize hback hno₂
          rwa [hbytes] at hstate

/-- **A regular run keeps the state.** -/
theorem DmaRun.state (h₀ : DmaBoot pml4 base w₀) (h : DmaRun pml4 (Regular pml4) w₀ live w) :
    DmaState pml4 base live w := by
  have hpml4 := h₀.pml4_ne
  induction h with
  | boot => exact .boot h₀
  | allocate h hm hcall hstatus ih =>
    rcases ih.allocate hpml4 hm hcall with ⟨-, h', -⟩ | ⟨hne, -⟩
    · exact h'
    · exact absurd hstatus hne
  | fail h hm hcall hstatus ih =>
    rcases ih.allocate hpml4 hm hcall with ⟨hzero, -⟩ | ⟨-, h'⟩
    · exact absurd hzero hstatus
    · exact h'
  | free h hm hlive hcall ih =>
    cases ih with
    | boot => exact absurd hlive.length_eq (by simp)
    | pool h =>
      obtain ⟨w', s, q, r, hends, -, h'⟩ := (h.perm hlive).free hpml4 hm.1 hm.2
      cases hends.2 _ _ hcall
      exact .pool h'
  | @write live w bytes h hm hkept ih =>
    cases ih with
    | boot h => exact .boot ⟨h.pool, h.start, h.pml4_ne, h.arena, h.stock⟩
    | pool h =>
      refine .pool ⟨⟨h.arena, h.stock⟩, h.pool, h.placed, h.apart, h.sound, fun a ha => (h.descriptor a ha).congr ?_⟩
      intro x h1 h2
      rw [length_descriptorBytes] at h2
      rw [Allocation.descriptor] at h1 h2
      have hsize := (h.sound a ha).1
      have hx := hkept a ha (x - a.ret.physicalAddress) (by omega) (by omega)
      rwa [Nat.add_sub_cancel' (by omega)] at hx

end

end Dem64
