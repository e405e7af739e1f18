import Dem64.Paging.Mapping

/-!
# Several `create_mapping` calls on an empty address space

A list of requests is carried out one after the other.  `create_mapping` replaces a large page in
its way by an empty table, so a later request can cost an earlier one more pages than it takes for
itself.  It cannot when every earlier request it overlaps has fewer than 512 pages, since such a
request gets no large page at all.  Then the last request for a page decides (`mapAll_walk`):
`Overlaid` is the invariant of the run, and besides the translation of each page it keeps that the
leaf of a page lies inside the request that decides about it.
-/

set_option autoImplicit false

namespace Dem64

/-- The arguments of a call of `create_mapping`, without the PML4. -/
structure MapRequest where
  /-- `virtual_address`. -/
  virtualAddress : Nat
  /-- `physical_address`. -/
  physicalAddress : Nat
  /-- `pages`. -/
  pages : Nat
  /-- `attributes`. -/
  attributes : Nat
deriving DecidableEq, Repr

namespace MapRequest

/-- The call. -/
def run (pml4 : Nat) (m : Machine) (r : MapRequest) : Machine :=
  createMapping m r.virtualAddress r.physicalAddress r.pages r.attributes pml4

/-- The request is about the page `v`. -/
def Covers (r : MapRequest) (v : Nat) : Prop :=
  pageOf r.virtualAddress ≤ v ∧ v < pageOf r.virtualAddress + r.pages

instance (r : MapRequest) (v : Nat) : Decidable (r.Covers v) := inferInstanceAs (Decidable (_ ∧ _))

/-- What it asks for there. -/
def target (r : MapRequest) (v : Nat) : Nat × Nat :=
  ((r.physicalAddress / 4096 + (v - pageOf r.virtualAddress)) % 2 ^ 52, leafAttributes r.attributes)

/-- A request for whole pages with canonical addresses, not the last one among them. -/
structure Valid (r : MapRequest) : Prop where
  /-- The pages. -/
  range : r.pages ≠ 0 → CanonicalRange r.virtualAddress r.pages
  /-- The range does not end with the address space. -/
  end_lt : r.virtualAddress + 4096 * r.pages < 2 ^ 64
  /-- The frames and the attributes. -/
  request : Request r.attributes r.physicalAddress

/-- The page `v` is mapped as the request says, by a leaf that lies inside its range. -/
def Backs (root : Nat) (m : Machine) (v : Nat) (r : MapRequest) : Prop :=
  ∃ k e, walk m.mem root v = some (k, e) ∧ pageOf r.virtualAddress ≤ v / span k * span k ∧
    (v / span k + 1) * span k ≤ pageOf r.virtualAddress + r.pages ∧
    e / 4096 + v % span k = (r.physicalAddress / 4096 + (v - pageOf r.virtualAddress)) % 2 ^ 52 ∧
    leafAttributes e = leafAttributes r.attributes

/-- The requests have no page in common. -/
def Apart (a b : MapRequest) : Prop := ∀ v, a.Covers v → ¬ b.Covers v

/-- `b` cannot cost `a` a large page. -/
def Spares (a b : MapRequest) : Prop := a.Apart b ∨ a.pages < 512

end MapRequest

/-- The calls for all requests of a list. -/
def mapAll (pml4 : Nat) (m : Machine) (rs : List MapRequest) : Machine := rs.foldl (MapRequest.run pml4) m

/-- After the requests of a list, the newest first: the newest one for a page decides, and the pages
of no request are not mapped. -/
structure Overlaid (root : Nat) (ds : List MapRequest) (m : Machine) : Prop where
  /-- The tables form a tree. -/
  wellFormed : WellFormed m root
  /-- The newest request decides. -/
  backed : ∀ v r, ds.find? (·.Covers v) = some r → r.Backs root m v
  /-- There is nothing else. -/
  vacant : ∀ v, v < 2 ^ 36 → ds.find? (·.Covers v) = none → walk m.mem root v = none

section

variable {root pml4 v : Nat} {m m' : Machine} {r d : MapRequest} {ds : List MapRequest}

/-- A page larger than 4 KiB has 512 pages at least. -/
theorem span_ge_of_ne {k u v : Nat} (hk : 1 ≤ k ∧ k ≤ 3) (h : u / span k = v / span k) (hne : u ≠ v) :
    512 ≤ span k := by
  obtain ⟨h1, h3⟩ := hk
  rcases Nat.lt_or_eq_of_le h3 with h2 | rfl
  · exact Nat.le_trans (by decide) (Nat.pow_le_pow_right (by decide) (show 1 ≤ 3 - k by omega))
  · rw [show span 3 = 1 from rfl, Nat.div_one, Nat.div_one] at h
    exact absurd h hne

theorem mem_leaf_iff {k u v : Nat} : u / span k = v / span k ↔
    v / span k * span k ≤ u ∧ u < (v / span k + 1) * span k := by
  rw [← Nat.le_div_iff_mul_le (span_pos k), ← Nat.div_lt_iff_lt_mul (span_pos k)]
  omega

/-- A request leaves the pages of an older one alone. -/
theorem MapRequest.Backs.not_hit (hb : d.Backs root m v) (hr : ¬ r.Covers v)
    (hv : v < 2 ^ 36) (hs : d.Spares r) : ¬ Hit m.mem root (pageOf r.virtualAddress)
      (pageOf r.virtualAddress + r.pages) v := by
  rintro ⟨k, e, u, hw, hu1, hu2, hu⟩
  obtain ⟨k', e', hw', hlo, hhi, -⟩ := hb
  obtain ⟨rfl, rfl⟩ : k' = k ∧ e' = e := by
    rw [hw'] at hw
    simpa using hw
  have hmem := mem_leaf_iff.mp hu
  -- the page `u` of the new request has the leaf of `v`, and so the old one covers it too
  rcases hs with hdisj | hsmall
  · exact hdisj u ⟨by omega, by omega⟩ ⟨hu1, hu2⟩
  · have hne : u ≠ v := fun h => hr (h ▸ ⟨hu1, hu2⟩)
    have hbig := span_ge_of_ne (walk_depth hv hw) hu hne
    rw [Nat.succ_mul] at hhi
    omega

/-- What one call does. -/
theorem MapRequest.Valid.mapped (hr : r.Valid) (hpml4 : pml4 ≠ 0) (hwf : WellFormed m (pml4 >>> 12))
    (hno : NoFail m (r.run pml4 m)) : Mapped (pml4 >>> 12) (pageOf r.virtualAddress)
      (pageOf r.virtualAddress + r.pages) r.physicalAddress r.attributes m (r.run pml4 m) := by
  by_cases h0 : r.pages = 0
  · have hsame : r.run pml4 m = m := by
      rw [run, createMapping, if_pos (Or.inr h0)]
    rw [hsame, h0]
    exact Mapped.refl _ _ _ _ _
  · have hrange := hr.range h0
    exact createMapping_mapped hr.request hrange.aligned (pageOf_eq _) hrange.fits hr.end_lt hpml4 hwf
      hno

/-- **One more request.** -/
theorem Overlaid.cons (h : Overlaid (pml4 >>> 12) ds m) (hr : r.Valid) (hpml4 : pml4 ≠ 0)
    (hs : ∀ d ∈ ds, d.Spares r) (hds : ∀ d ∈ ds, d.Valid) (hno : NoFail m (r.run pml4 m)) :
    Overlaid (pml4 >>> 12) (r :: ds) (r.run pml4 m) := by
  have hmap := hr.mapped hpml4 h.wellFormed hno
  have hfits : ∀ {a : MapRequest} {v : Nat}, a.Valid → a.Covers v → v < 2 ^ 36 := by
    rintro a v ha ⟨h1, h2⟩
    have := (ha.range (by omega)).fits
    omega
  have hkept : ∀ v, v < 2 ^ 36 → ¬ r.Covers v →
      walk (r.run pml4 m).mem (pml4 >>> 12) v = walk m.mem (pml4 >>> 12) v := by
    intro v hv hc
    refine hmap.kept v hv (by rw [MapRequest.Covers] at hc; omega) ?_
    cases hf : ds.find? (·.Covers v) with
    | none => exact not_hit_of_none (h.vacant v hv hf)
    | some d =>
      exact (h.backed v d hf).not_hit hc hv
        (hs d (List.mem_of_find?_eq_some hf))
  refine ⟨hmap.steps.wellFormed h.wellFormed, fun v d hf => ?_, fun v hv hf => ?_⟩
  · by_cases hc : r.Covers v
    · rw [List.find?_cons_of_pos (by simpa using hc)] at hf
      obtain rfl := Option.some_inj.mp hf
      exact hmap.inside v hc.1 hc.2
    · rw [List.find?_cons_of_neg (by simpa using hc)] at hf
      have hv := hfits (hds d (List.mem_of_find?_eq_some hf)) (by simpa using List.find?_some hf)
      obtain ⟨k, e, hw, hrest⟩ := h.backed v d hf
      exact ⟨k, e, (hkept v hv hc).trans hw, hrest⟩
  · by_cases hc : r.Covers v
    · rw [List.find?_cons_of_pos (by simpa using hc)] at hf
      exact absurd hf (by simp)
    · rw [List.find?_cons_of_neg (by simpa using hc)] at hf
      exact (hkept v hv hc).trans (h.vacant v hv hf)

theorem MapRequest.failures_le (pml4 : Nat) (m : Machine) (r : MapRequest) :
    m.failures ≤ (r.run pml4 m).failures :=
  (closed_failures m.failures fun _ => True).createMapping trivial (le_refl _) _ _ _ _

theorem mapAll_failures_le (pml4 : Nat) (rs : List MapRequest) : ∀ m : Machine,
    m.failures ≤ (mapAll pml4 m rs).failures := by
  induction rs with
  | nil => exact fun m => le_refl _
  | cons r rs ih => exact fun m => (MapRequest.failures_le pml4 m r).trans (ih _)

/-- **All requests.** -/
theorem Overlaid.mapAll (hpml4 : pml4 ≠ 0) : ∀ {rs ds : List MapRequest} {m : Machine},
    Overlaid (pml4 >>> 12) ds m → (∀ r ∈ rs, r.Valid) → (∀ d ∈ ds, d.Valid) →
    (∀ d ∈ ds, ∀ r ∈ rs, d.Spares r) → rs.Pairwise MapRequest.Spares →
    NoFail m (Dem64.mapAll pml4 m rs) →
    Overlaid (pml4 >>> 12) (rs.reverse ++ ds) (Dem64.mapAll pml4 m rs)
  | [], ds, m, h, _, _, _, _, _ => h
  | r :: rs, ds, m, h, hrs, hds, hs, hp, hno => by
    obtain ⟨hr, hp⟩ := List.pairwise_cons.mp hp
    have hvr := hrs r List.mem_cons_self
    have hle : m.failures ≤ (r.run pml4 m).failures := MapRequest.failures_le pml4 m r
    have hle' : (r.run pml4 m).failures ≤ (Dem64.mapAll pml4 m (r :: rs)).failures :=
      mapAll_failures_le pml4 rs _
    have h' := h.cons hvr hpml4 (fun d hd => hs d hd r List.mem_cons_self) hds (hle'.trans hno)
    rw [List.reverse_cons, List.append_assoc]
    refine Overlaid.mapAll hpml4 h' (fun a ha => hrs a (List.mem_cons_of_mem _ ha)) ?_ ?_ hp
      (hno.trans hle)
    · exact List.forall_mem_cons.mpr ⟨hvr, hds⟩
    · exact List.forall_mem_cons.mpr ⟨hr, fun d hd a ha => hs d hd a (List.mem_cons_of_mem _ ha)⟩

/-! ## Requests in terms of addresses -/

theorem MapRequest.Valid.covers_iff (hr : r.Valid) {x : Nat} (hx : Canonical x) : r.Covers (pageOf x) ↔
    r.virtualAddress ≤ x ∧ x < r.virtualAddress + 4096 * r.pages := by
  by_cases h0 : r.pages = 0
  · rw [Covers, h0]
    omega
  · exact ((hr.range h0).mem_iff hx).symm

/-- Requests whose addresses do not overlap. -/
theorem MapRequest.Valid.apart (hr : r.Valid) (hd : d.Valid)
    (h : r.virtualAddress + 4096 * r.pages ≤ d.virtualAddress ∨
      d.virtualAddress + 4096 * d.pages ≤ r.virtualAddress) : r.Apart d := by
  intro v hv hv'
  obtain ⟨hlo, hhi⟩ := id hv
  have hi : v - pageOf r.virtualAddress < r.pages := by omega
  have hrange := hr.range (by omega)
  -- the address of the page `v`
  have hpage := hrange.pageOf_add hi
  have hx := hrange.canonical _ hi
  rw [Nat.add_sub_cancel' hlo] at hpage
  have h1 := (hr.covers_iff hx).mp (hpage.symm ▸ hv)
  have h2 := (hd.covers_iff hx).mp (hpage.symm ▸ hv')
  omega

instance : Std.Symm MapRequest.Apart := ⟨fun _ _ h v hb ha => h v ha hb⟩

end

end Dem64
