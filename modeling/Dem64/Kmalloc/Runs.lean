import Dem64.Kmalloc.Free
import Dem64.Memory.Sizes

/-!
# Runs of `kmalloc` and `kfree`

A run starts with the heap before the first call, and each of its steps is a call of `kmalloc` that returns
a block or one of `kfree` for a block that is live.  The live blocks are known by their pointers and the
sizes that were asked for.  In every state of a run the heap and its blocks are in order (`HeapRun.inv`).

The requests of a run are those that satisfy a predicate.  The invariant needs `Fits`: what `kmalloc` adds
to the size does not wrap around.
-/

set_option autoImplicit false

namespace Dem64.Kmalloc

/-- The heap before the first call. -/
def Heap.Empty (s : Heap) : Prop := s.shd = 0 ∧ s.start = 0 ∧ s.calls = []

/-- The header and the rounding do not wrap around. -/
def Fits (size : Nat) : Prop := size + 40 + 4095 < 2 ^ 64

/-- The states that runs reach, with the live blocks, as pointers and sizes.  What `va_alloc` and the
memory answer may differ from call to call. -/
inductive HeapRun (P : Nat → Prop) : Heap → Set (Nat × Nat) → Prop
  | boot {s : Heap} : s.Empty → HeapRun P s ∅
  | kmalloc {env : HeapEnv} {n size p : Nat} {s s' : Heap} {live : Set (Nat × Nat)} : HeapRun P s live →
      env.Fresh → P size → 128 < n → kmalloc env n size s = .ok (p, s') → p ≠ 0 →
      HeapRun P s' (insert (p, size) live)
  | kfree {n p size : Nat} {s s' : Heap} {live : Set (Nat × Nat)} : HeapRun P s live → (p, size) ∈ live →
      128 < n → kfree n p s = .ok s' → HeapRun P s' (live \ {(p, size)})

/-- Where the headers of the live blocks are. -/
def heads (live : Set (Nat × Nat)) : Set Nat := { b | ∃ size, (b + 40, size) ∈ live }

/-- The live blocks have headers with their sizes. -/
def Sized (live : Set (Nat × Nat)) (s : Heap) : Prop :=
  ∀ p size, (p, size) ∈ live → ∃ b, p = b + 40 ∧ (s.header b).size = size + 40

section

variable {live : Set (Nat × Nat)} {s s' : Heap} {b p size : Nat} {L : Layout}

theorem heads_insert : heads (insert (b + 40, size) live) = insert b (heads live) := by
  ext b'
  rw [Set.mem_insert_iff]
  constructor
  · rintro ⟨size', heq | hmem⟩
    · exact .inl (Nat.add_right_cancel (congrArg Prod.fst heq))
    · exact .inr ⟨size', hmem⟩
  · rintro (rfl | ⟨size', hmem⟩)
    · exact ⟨size, Set.mem_insert _ _⟩
    · exact ⟨size', Set.mem_insert_of_mem _ hmem⟩

/-- A pointer has one size. -/
theorem Sized.unique (h : Sized live s) {size' : Nat} (hp : (p, size) ∈ live) (hp' : (p, size') ∈ live) :
    size' = size := by
  obtain ⟨b, hb, hsize⟩ := h p size hp
  obtain ⟨b', hb', hsize'⟩ := h p size' hp'
  obtain rfl : b = b' := by omega
  omega

theorem Sized.heads_diff (h : Sized live s) (hb : (b + 40, size) ∈ live) :
    heads (live \ {(b + 40, size)}) = heads live \ {b} := by
  ext b'
  rw [Set.mem_sdiff, Set.mem_singleton_iff]
  constructor
  · rintro ⟨size', hmem, hne⟩
    refine ⟨⟨size', hmem⟩, ?_⟩
    rintro rfl
    exact hne (Prod.ext rfl (h.unique hb hmem))
  · rintro ⟨⟨size', hmem⟩, hne⟩
    exact ⟨size', hmem, fun heq => hne (Nat.add_right_cancel (congrArg Prod.fst heq))⟩

/-- A heap without pages. -/
theorem Heap.Empty.inv (h : s.Empty) : Inv ⟨fun _ => none, []⟩ ∅ s := by
  obtain ⟨hshd, hstart, hcalls⟩ := h
  have hno : ∀ x, ¬ s.InUse ⟨fun _ => none, []⟩ x := by
    rintro x ⟨p, hp, -⟩
    exact absurd hp List.not_mem_nil
  have hnone : ∀ {o : Owner} {x : Nat} {P : Prop}, ¬ P →
      ((⟨fun _ => none, []⟩ : Layout).own x = some o ↔ P) := fun hP => iff_of_false nofun hP
  refine ⟨⟨fun x => ?_, List.nodup_nil, trivial, hshd.symm, nofun, nofun, fun _ _ => hnone nofun,
    fun _ _ => hnone nofun, fun _ _ => hnone nofun, nofun, nofun, nofun, fun _ => nofun, fun hne => absurd rfl hne⟩,
    fun hne => absurd hstart hne, fun a ha => absurd ha (hno a), fun a y => hnone fun hand => hno a hand.1,
    fun b y => hnone fun hand => hand.1, nofun, nofun, nofun, fun a ha => absurd ha (hno a)⟩
  rw [hcalls]
  exact iff_of_false (Set.notMem_empty x) fun hne => hne rfl

/-- **The heap and its blocks are in order in every state of a run.** -/
theorem HeapRun.inv (h : HeapRun Fits s live) : (∃ L, Inv L (heads live) s) ∧ Sized live s := by
  induction h with
  | boot h =>
    refine ⟨⟨⟨fun _ => none, []⟩, ?_⟩, fun p size hp => absurd hp (Set.notMem_empty _)⟩
    rw [show heads ∅ = ∅ from Set.eq_empty_iff_forall_notMem.mpr fun b hb => hb.elim fun _ h => h]
    exact h.inv
  | kmalloc _ henv hfits hn hcall hp ih =>
    obtain ⟨⟨L, hinv⟩, hsized⟩ := ih
    obtain ⟨b, rfl, hs⟩ := (kmalloc_spec henv hinv hn hfits hcall).2 hp
    refine ⟨heads_insert ▸ hs.inv, ?_⟩
    rintro p size (heq | hmem)
    · cases heq
      exact ⟨b, rfl, hs.size⟩
    · obtain ⟨b', rfl, hsize⟩ := hsized p size hmem
      exact ⟨b', rfl, by rw [hs.header b' ⟨size, hmem⟩, hsize]⟩
  | kfree _ hp hn hcall ih =>
    obtain ⟨⟨L, hinv⟩, hsized⟩ := ih
    obtain ⟨b, rfl, -⟩ := hsized _ _ hp
    obtain ⟨hheader, hinv'⟩ := kfree_spec hinv hn ⟨_, hp⟩ hcall
    refine ⟨hsized.heads_diff hp ▸ hinv', ?_⟩
    rintro p size ⟨hmem, hne⟩
    obtain ⟨b', rfl, hsize⟩ := hsized p size hmem
    refine ⟨b', rfl, ?_⟩
    have hbb : b' ≠ b := by
      rintro rfl
      exact hne (Prod.ext rfl (hsized.unique hp hmem))
    rw [hheader b' ⟨size, hmem⟩ hbb, hsize]

end

end Dem64.Kmalloc
