import Dem64.Dma.Claim
import Dem64.Dma.Descriptor
import Dem64.Memory.Vmalloc
import Dem64.Memory.Scan

/-!
# Pages and frames of a call

`vmalloc` of a metadata page ends, whatever the bitmap looks like (`vmalloc_one_ends`).  The frames behind a
claim are a region of the arena, with the descriptor in its last bytes (`backClaim_spec`).
-/

set_option autoImplicit false

namespace Dem64

section

variable {attributes pml4 va : Nat} {m : Machine}

/-- `vmalloc` of one page ends. -/
theorem vmalloc_one_ends (attributes pml4 va : Nat) (m : Machine) :
    ∃ r, Ends (fun n => vmalloc n m va 1 attributes pml4) r := by
  by_cases hsim : runSimulation m.frames m.frames.formerCount 1 = 1
  · refine ⟨_, (Ends.const ({ attr := 1 }, m)).congr fun n => ?_⟩
    rw [vmalloc, if_neg (by decide)]
    exact if_pos hsim
  · obtain ⟨f, hle, -, hf⟩ := runSimulation_one hsim
    obtain ⟨c, hc, hcf, hused, hfree⟩ := first_free m.frames.bitmap hle
    have hfree : used m.frames.bitmap c = false := by
      rcases Nat.eq_or_lt_of_le hcf with rfl | hlt
      · exact hf
      · exact hfree hlt
    have htake : ∀ {n va : Nat} {m' : Machine}, used m'.frames.bitmap c = false →
        ∃ r, vmallocLoop attributes pml4 (n + 2) 1 ⟨c, c, va, 0⟩ m' = some r := by
      intro n va m' h
      rw [vmallocLoop, if_pos Nat.one_pos, if_pos h, vmallocLoop, if_neg (by decide)]
      exact ⟨_, rfl⟩
    have hloop : ∃ n r, vmallocLoop attributes pml4 n 1 ⟨m.frames.formerCount, m.frames.formerCount, va, 0⟩ m =
        some r := by
      rcases Nat.eq_or_lt_of_le hc with heq | hlt
      · rw [heq]
        exact ⟨2, htake hfree⟩
      · have hsame := (mapRun_empty attributes pml4 m.frames.formerCount va m).used
        have hskip := skipTaken_eq hc (fun p h1 h2 => (hsame p).trans (hused p h1 h2))
          ((hsame c).trans hfree) (c - m.frames.formerCount + 2)
        rw [if_pos (by omega)] at hskip
        refine ⟨c - m.frames.formerCount + 2 + 1, ?_⟩
        rw [vmallocLoop, if_pos Nat.one_pos, if_neg (by rw [hused _ (le_refl _) hlt]; decide)]
        simp only [hskip]
        exact htake ((hsame c).trans hfree)
    obtain ⟨n, ⟨c', m'⟩, hn⟩ := hloop
    have hcall : ∃ r, vmalloc n m va 1 attributes pml4 = some r := by
      rw [vmalloc, if_neg (by decide)]
      simp only [if_neg hsim, hn]
      exact ⟨_, rfl⟩
    obtain ⟨r, hr⟩ := hcall
    exact ⟨r, Ends.of_mono vmalloc_mono hr⟩

/-! ## The frames behind a claim -/

end

section

open DmaPool

variable {base : Set Nat} {pml4 pages k : Nat} {w : DmaWorld} {rs : List Region} {c : Claim}

/-- **Frames are put behind a claim.**  They are a new region, and the descriptor is in its last bytes. -/
theorem backClaim_spec (hA : Arena (pml4 >>> 12) dmaLo dmaHi w.machine rs)
    (hS : Stock base (pml4 >>> 12) w.machine rs) (hpml4 : pml4 ≠ 0) (hpos : 0 < pages)
    (hbase : c.base = dmaBase + 4096 * k) (hk : k + pages ≤ 2 ^ 18)
    (hfree : ∀ r ∈ rs, ∀ v ∈ r.pages, v < dmaLo + k ∨ dmaLo + k + pages ≤ v)
    (hattr : (allocFrame w.machine.frames pages).1.attr = 0)
    (hno : NoFail w.machine (createMapping { w.machine with frames := (allocFrame w.machine.frames pages).2 }
      c.base (allocFrame w.machine.frames pages).1.physicalStart pages 0x03 pml4)) :
    ∃ f w', backClaim pml4 w pages c = some (⟨0, pages, c.base, 4096 * f⟩, w') ∧ w'.pool = w.pool ∧
      w'.bytes = ByteMemory.putBytes w.bytes (4096 * f + (4096 * pages - 28))
        (descriptorBytes c.extents.length pages c.home) ∧
      Arena (pml4 >>> 12) dmaLo dmaHi w'.machine (⟨dmaLo + k, pages, f⟩ :: rs) ∧
      Stock base (pml4 >>> 12) w'.machine (⟨dmaLo + k, pages, f⟩ :: rs) := by
  have halloc := (allocFrame_cases w.machine.frames pages).resolve_left fun h => h.1 hattr
  obtain ⟨-, hlen, -, hal, hlt, hin, hdisj, hmarks⟩ := halloc
  generalize hd : allocFrame w.machine.frames pages = da at *
  obtain ⟨d, s⟩ := da
  dsimp only at *
  obtain ⟨f, hf⟩ : ∃ f, d.physicalStart = 4096 * f := ⟨d.physicalStart / 4096, by omega⟩
  let r : Region := ⟨dmaLo + k, pages, f⟩
  have hframes : r.frames = d.pages := by
    rw [Region.frames, MemoryDescriptor.pages, hlen, hf, Nat.mul_div_cancel_left f (by decide)]
  rw [← hframes] at hin hdisj
  have hmarks' : ∀ p, p ∈ s.usedPages ↔ p ∈ r.frames ∨ p ∈ w.machine.frames.usedPages := by
    rw [hframes]
    exact hmarks
  obtain ⟨hrange, hpage, hend⟩ := dma_range (k := k) (n := pages) hpos (by omega)
  have hlast : f + pages ≤ 2 ^ 52 := by
    have hmem : f + (pages - 1) ∈ r.frames := ⟨Nat.le_add_right _ _, by simp only [r]; omega⟩
    have := hin hmem
    have := w.machine.frames.bitmapSize_le
    simp only [Set.mem_Iio] at *
    omega
  have hsmall : k + pages ≤ 2 ^ 19 := by omega
  have hinside : dmaLo ≤ dmaLo + k ∧ dmaLo + k + pages ≤ dmaHi :=
    ⟨Nat.le_add_right _ _, (Nat.add_assoc _ _ _).trans_le (Nat.add_le_add_left hsmall _)⟩
  rw [hbase] at hno ⊢
  obtain ⟨hsteps, hA'⟩ := Arena.create (r := r) (hA.take hmarks') hpml4 ⟨by decide, by decide, hal, hlt⟩ hrange hpage
    (by rw [hf]; exact Nat.mul_div_cancel_left f (by decide)) hend
    hinside hlast
    (fun t ht => Set.disjoint_left.mpr fun v hv hvt => by
      obtain ⟨h1, h2⟩ := hv
      rcases hfree t ht v hvt with h3 | h3 <;> simp only [r] at h1 h2 <;> omega) hno
  have hS' := (hS.take hdisj hmarks').steps (hA.take hmarks').wellFormed hsteps
  let m' := createMapping { w.machine with frames := s } (dmaBase + 4096 * k) d.physicalStart pages 0x03 pml4
  let w₁ : DmaWorld := { w with machine := m' }
  have hcont : Contiguous pml4 w₁ (dmaBase + 4096 * k) (4096 * f) (4096 * pages) :=
    (hA'.backed r List.mem_cons_self).contiguous (w := w₁) rfl hsmall
  have hstore := DmaWorld.storeBytes_spec (i := 4096 * pages - 28)
    (l := descriptorBytes c.extents.length pages c.home) hcont (by rw [length_descriptorBytes]; omega)
  let bytes := ByteMemory.putBytes w.bytes (4096 * f + (4096 * pages - 28))
    (descriptorBytes c.extents.length pages c.home)
  refine ⟨f, { w₁ with bytes := bytes }, ?_, rfl, rfl, hA', hS'⟩
  rw [backClaim, hd]
  dsimp only
  rw [if_neg (not_not.mpr hattr), hbase, show dmaBase + 4096 * k + pages <<< 12 - 28 =
    dmaBase + 4096 * k + (4096 * pages - 28) by rw [Nat.shiftLeft_eq]; omega]
  exact (congrArg (Option.bind · _) hstore).trans (by rw [Option.bind_some, hf]; rfl)

end

end Dem64
