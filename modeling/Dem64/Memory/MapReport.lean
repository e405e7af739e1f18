import Dem64.Lib.Segments
import Dem64.Memory.Hint
import Mathlib.Data.List.Basic

/-!
# The report of the memory map

`print_physical_map` (`memory_diagnostics.c`) prints the memory map as ranges of free memory, of ACPI NVS and of the
rest.  The firmware gives the descriptors in any order; the loop picks them by their addresses, each time by a search
through the whole map, and joins a descriptor to the range in front of it if it can.

`printPhysicalMap_normal` says that what is printed is the normal form of the map: the one list of ranges in order that
says the same of every address, and of which no two could be one.  So it depends on the memory only, and neither on the
order of the descriptors nor on how the firmware has cut it (`printPhysicalMap_congr`).
-/

set_option autoImplicit false

namespace Dem64

open Segments

/-! ## The code -/

/-- `map_kind`. -/
inductive MapKind
  | free
  | reserved
  | acpiNvs
  deriving DecidableEq

/-- `descriptor_kind`; 10 is `EfiACPIMemoryNVS`. -/
def descriptorKind (desc : MapEntry) : MapKind :=
  if desc.type = efiConventionalMemory then .free else if desc.type = 10 then .acpiNvs else .reserved

/-- The end of a descriptor, as the loop computes it. -/
def descriptorEnd (desc : MapEntry) : Nat :=
  (desc.physicalStart + desc.numberOfPages * 4096 % 2 ^ 64) % 2 ^ 64

/-- One round of the search: a descriptor that is not empty and does not start in front of the cursor, and that starts
in front of what was found before. -/
def nextStep (cursor : Option Nat) (next : Option MapEntry) (candidate : MapEntry) : Option MapEntry :=
  if candidate.numberOfPages = 0 then next
  else if ∃ c ∈ cursor, candidate.physicalStart < c then next
  else
    match next with
    | none => some candidate
    | some n => if candidate.physicalStart < n.physicalStart then some candidate else next

/-- The inner loop. -/
def nextDescriptor (cursor : Option Nat) (memoryMap : List MapEntry) : Option MapEntry :=
  memoryMap.foldl (nextStep cursor) none

/-- The rounds left in the outer loop; a segment stands for a line: its bounds, its kind and its size. -/
def mapLoop (memoryMap : List MapEntry) : Nat → Option Nat → Option (Segment MapKind) → List (Segment MapKind)
  | 0, _, run => run.toList
  | rounds + 1, cursor, run =>
    match nextDescriptor cursor memoryMap with
    | none => run.toList
    | some next =>
      let start := next.physicalStart
      let stop := descriptorEnd next
      let kind := descriptorKind next
      match run with
      | none => mapLoop memoryMap rounds (some stop) (some ⟨start, stop, kind⟩)
      | some r =>
        if r.kind = kind ∧ r.hi = start then mapLoop memoryMap rounds (some stop) (some { r with hi := stop })
        else r :: mapLoop memoryMap rounds (some stop) (some ⟨start, stop, kind⟩)

/-- `print_physical_map`: the lines. -/
def printPhysicalMap (memoryMap : List MapEntry) : List (Segment MapKind) :=
  mapLoop memoryMap memoryMap.length none none

/-! ## The map -/

/-- The addresses of a descriptor. -/
def MapEntry.segment (desc : MapEntry) : Segment MapKind :=
  ⟨desc.physicalStart, desc.physicalStart + 4096 * desc.numberOfPages, descriptorKind desc⟩

/-- The kind of an address in a map. -/
def kindAt (memoryMap : List MapEntry) (a : Nat) : Option MapKind := meaning (memoryMap.map MapEntry.segment) a

/-- The descriptors lie below `2 ^ 64`, and no two have an address in common. -/
structure SoundMap (memoryMap : List MapEntry) : Prop where
  below : ∀ d ∈ memoryMap, d.physicalStart + 4096 * d.numberOfPages < 2 ^ 64
  apart : memoryMap.Pairwise fun d e => Apart d.segment e.segment

/-- The descriptor is not printed yet. -/
def Remains (cursor : Option Nat) (d : MapEntry) : Prop :=
  d.numberOfPages ≠ 0 ∧ ∀ c, cursor = some c → c ≤ d.physicalStart

instance (cursor : Option Nat) (d : MapEntry) : Decidable (Remains cursor d) :=
  match cursor with
  | none => decidable_of_iff (d.numberOfPages ≠ 0)
      ⟨fun h => ⟨h, fun _ hc => absurd hc.symm (Option.some_ne_none _)⟩, fun h => h.1⟩
  | some c => decidable_of_iff (d.numberOfPages ≠ 0 ∧ c ≤ d.physicalStart)
      ⟨fun h => ⟨h.1, fun _ hc => Option.some_inj.mp hc ▸ h.2⟩, fun h => ⟨h.1, h.2 c rfl⟩⟩

/-- The descriptors that are not printed yet. -/
def remaining (memoryMap : List MapEntry) (cursor : Option Nat) : List MapEntry :=
  memoryMap.filter fun d => Remains cursor d

/-- The first of the descriptors that are not printed yet. -/
structure IsNext (memoryMap : List MapEntry) (cursor : Option Nat) (m : MapEntry) : Prop where
  mem : m ∈ memoryMap
  remains : Remains cursor m
  least : ∀ d ∈ memoryMap, Remains cursor d → m.physicalStart ≤ d.physicalStart

variable {memoryMap memoryMap' : List MapEntry} {cursor : Option Nat} {d m : MapEntry} {a : Nat} {k : MapKind}

theorem mem_remaining : d ∈ remaining memoryMap cursor ↔ d ∈ memoryMap ∧ Remains cursor d := by
  rw [remaining, List.mem_filter, decide_eq_true_iff]

theorem SoundMap.descriptorEnd_eq (h : SoundMap memoryMap) (hd : d ∈ memoryMap) :
    descriptorEnd d = d.physicalStart + 4096 * d.numberOfPages := by
  have hlt := h.below d hd
  rw [descriptorEnd, Nat.mul_comm, Nat.mod_eq_of_lt (show 4096 * d.numberOfPages < 2 ^ 64 by omega),
    Nat.mod_eq_of_lt hlt]

/-- Two descriptors of a map that are not empty lie one behind the other. -/
theorem SoundMap.behind (h : SoundMap memoryMap) (hd : d ∈ memoryMap) (hm : m ∈ memoryMap) (hne : d ≠ m)
    (hpos : d.numberOfPages ≠ 0) (hle : m.physicalStart ≤ d.physicalStart) :
    m.physicalStart + 4096 * m.numberOfPages ≤ d.physicalStart := by
  have hsymm : Std.Symm fun d e : MapEntry => Apart d.segment e.segment := ⟨fun _ _ h => h.symm⟩
  have hapart := h.apart.forall hm hd (Ne.symm hne)
  by_contra hlt
  exact hapart d.physicalStart hle (by simpa [MapEntry.segment] using hlt)
    ⟨Nat.le_refl _, by simp only [MapEntry.segment]; omega⟩

/-! ## The search -/

theorem nextStep_cases (cursor : Option Nat) (d : MapEntry) (next : Option MapEntry) :
    nextStep cursor next d = some d ∧ Remains cursor d ∧ (∀ n, next = some n → d.physicalStart ≤ n.physicalStart) ∨
    nextStep cursor next d = next ∧ (Remains cursor d → ∃ n, next = some n ∧ n.physicalStart ≤ d.physicalStart) := by
  unfold nextStep
  split
  · next hempty => exact .inr ⟨rfl, fun h => absurd hempty h.1⟩
  · next hpos =>
    split
    · next hbefore =>
      obtain ⟨c, hc, hlt⟩ := hbefore
      exact .inr ⟨rfl, fun h => absurd (h.2 c hc) (by omega)⟩
    · next hbehind =>
      have hr : Remains cursor d := ⟨hpos, fun c hc => by
        by_contra hlt
        exact hbehind ⟨c, hc, by omega⟩⟩
      cases next with
      | none => exact .inl ⟨rfl, hr, nofun⟩
      | some n =>
        dsimp only
        split
        · next hlt => exact .inl ⟨rfl, hr, fun _ hn => Option.some_inj.mp hn ▸ Nat.le_of_lt hlt⟩
        · next hge => exact .inr ⟨rfl, fun _ => ⟨n, rfl, by omega⟩⟩

/-- **The search finds the first of the descriptors that are left**, or of those and the one it has. -/
theorem foldl_nextStep (memoryMap : List MapEntry) (cursor : Option Nat) (next : Option MapEntry) :
    memoryMap.foldl (nextStep cursor) next = none ∧ next = none ∧ (∀ d ∈ memoryMap, ¬ Remains cursor d) ∨
    ∃ m, memoryMap.foldl (nextStep cursor) next = some m ∧ (next = some m ∨ m ∈ memoryMap ∧ Remains cursor m) ∧
      (∀ n, next = some n → m.physicalStart ≤ n.physicalStart) ∧
      ∀ d ∈ memoryMap, Remains cursor d → m.physicalStart ≤ d.physicalStart := by
  induction memoryMap generalizing next with
  | nil =>
    cases next with
    | none => exact .inl ⟨rfl, rfl, fun _ h => absurd h List.not_mem_nil⟩
    | some n =>
      exact .inr ⟨n, rfl, .inl rfl, fun _ h => Option.some_inj.mp h ▸ Nat.le_refl _,
        fun _ h => absurd h List.not_mem_nil⟩
  | cons d l ih =>
    rw [List.foldl_cons]
    rcases nextStep_cases cursor d next with ⟨hstep, hr, hle⟩ | ⟨hstep, hd⟩
    · rw [hstep]
      obtain ⟨-, hnone, -⟩ | ⟨m, hm, hfrom, hacc, hleast⟩ := ih (some d)
      · exact absurd hnone nofun
      · refine .inr ⟨m, hm, ?_, fun n hn => (hacc d rfl).trans (hle n hn), fun e he hre => ?_⟩
        · rcases hfrom with h | ⟨h, hr'⟩
          · cases h
            exact .inr ⟨List.mem_cons_self, hr⟩
          · exact .inr ⟨List.mem_cons_of_mem _ h, hr'⟩
        · rcases List.mem_cons.mp he with rfl | he
          · exact hacc _ rfl
          · exact hleast e he hre
    · rw [hstep]
      obtain ⟨hfold, hnone, hall⟩ | ⟨m, hm, hfrom, hacc, hleast⟩ := ih next
      · refine .inl ⟨hfold, hnone, fun e he hre => ?_⟩
        rcases List.mem_cons.mp he with rfl | he
        · obtain ⟨n, hn, -⟩ := hd hre
          rw [hnone] at hn
          exact absurd hn nofun
        · exact hall e he hre
      · refine .inr ⟨m, hm, hfrom.imp_right fun h => ⟨List.mem_cons_of_mem _ h.1, h.2⟩, hacc, fun e he hre => ?_⟩
        rcases List.mem_cons.mp he with rfl | he
        · obtain ⟨n, hn, hle⟩ := hd hre
          exact (hacc n hn).trans hle
        · exact hleast e he hre

/-- **The search**: the first of the descriptors that are left. -/
theorem nextDescriptor_cases (memoryMap : List MapEntry) (cursor : Option Nat) :
    nextDescriptor cursor memoryMap = none ∧ (∀ d ∈ memoryMap, ¬ Remains cursor d) ∨
    ∃ m, nextDescriptor cursor memoryMap = some m ∧ IsNext memoryMap cursor m := by
  obtain ⟨hnone, -, hleft⟩ | ⟨m, hm, hfrom, -, hleast⟩ := foldl_nextStep memoryMap cursor none
  · exact .inl ⟨hnone, hleft⟩
  · obtain ⟨hmem, hr⟩ := hfrom.resolve_left nofun
    exact .inr ⟨m, hm, hmem, hr, hleast⟩

/-! ## The loop -/

/-- What is left behind the first of the descriptors that are left. -/
theorem SoundMap.remains_iff (h : SoundMap memoryMap) (hm : IsNext memoryMap cursor m) (hd : d ∈ memoryMap) :
    Remains (some (m.physicalStart + 4096 * m.numberOfPages)) d ↔ Remains cursor d ∧ d ≠ m := by
  constructor
  · rintro ⟨hpos, hle⟩
    have hle := hle _ rfl
    refine ⟨⟨hpos, fun c hc => ?_⟩, ?_⟩
    · have hcm := hm.remains.2 c hc
      omega
    · rintro rfl
      omega
  · rintro ⟨hrd, hne⟩
    refine ⟨hrd.1, fun c hc => ?_⟩
    rw [← Option.some_inj.mp hc]
    exact h.behind hd hm.mem hne hrd.1 (hm.least d hd hrd)

theorem SoundMap.length_remaining (h : SoundMap memoryMap) (hm : IsNext memoryMap cursor m) :
    (remaining memoryMap (some (m.physicalStart + 4096 * m.numberOfPages))).length <
      (remaining memoryMap cursor).length := by
  classical
  have hfilter : remaining memoryMap (some (m.physicalStart + 4096 * m.numberOfPages)) =
      (remaining memoryMap cursor).filter fun d => decide (d ≠ m) := by
    rw [remaining, remaining, List.filter_filter]
    refine List.filter_congr fun d hd => ?_
    rw [decide_eq_decide.mpr (h.remains_iff hm hd), Bool.decide_and, Bool.and_comm]
  have hmem : m ∈ remaining memoryMap cursor := mem_remaining.mpr ⟨hm.mem, hm.remains⟩
  rw [hfilter]
  exact List.length_filter_lt_length_iff_exists.mpr ⟨m, hmem, by simp⟩

/-- The address is one of the descriptor, which is of this kind. -/
def MapEntry.Has (d : MapEntry) (a : Nat) (k : MapKind) : Prop :=
  d.physicalStart ≤ a ∧ a < d.physicalStart + 4096 * d.numberOfPages ∧ descriptorKind d = k

/-- The address is one of the range that is not printed yet, or of a descriptor behind it. -/
def Open (memoryMap : List MapEntry) (cursor : Option Nat) (run : Option (Segment MapKind)) (a : Nat) (k : MapKind) :
    Prop :=
  (∃ r, run = some r ∧ r.lo ≤ a ∧ a < r.hi ∧ r.kind = k) ∨ ∃ d ∈ memoryMap, Remains cursor d ∧ d.Has a k

theorem open_none : Open memoryMap cursor none a k ↔ ∃ d ∈ memoryMap, Remains cursor d ∧ d.Has a k := by
  simp [Open]

theorem open_some {r : Segment MapKind} : Open memoryMap cursor (some r) a k ↔
    (r.lo ≤ a ∧ a < r.hi ∧ r.kind = k) ∨ ∃ d ∈ memoryMap, Remains cursor d ∧ d.Has a k := by
  simp [Open]

/-- What the loop prints: the normal form of what is open, which starts with the range it has. -/
structure Prints (memoryMap : List MapEntry) (cursor : Option Nat) (run : Option (Segment MapKind))
    (lines : List (Segment MapKind)) : Prop where
  normal : Normal lines
  meaning : ∀ a k, meaning lines a = some k ↔ Open memoryMap cursor run a k
  first : ∀ r, run = some r → ∃ t, lines.head? = some t ∧ t.lo = r.lo ∧ t.kind = r.kind

/-- Nothing is left. -/
theorem Prints.last {run : Option (Segment MapKind)} (hrun : ∀ r, run = some r → r.lo < r.hi)
    (hleft : ∀ d ∈ memoryMap, ¬ Remains cursor d) : Prints memoryMap cursor run run.toList := by
  have hopen : ∀ a k, Open memoryMap cursor run a k ↔ ∃ r, run = some r ∧ r.lo ≤ a ∧ a < r.hi ∧ r.kind = k :=
    fun a k => or_iff_left fun ⟨d, hd, hr, _⟩ => hleft d hd hr
  cases run with
  | none =>
    refine ⟨trivial, fun a k => ?_, nofun⟩
    rw [hopen]
    exact ⟨nofun, nofun⟩
  | some r =>
    refine ⟨⟨hrun r rfl, nofun, trivial⟩, fun a k => ?_, fun _ h => ⟨r, rfl, by rw [Option.some_inj.mp h], by
      rw [Option.some_inj.mp h]⟩⟩
    rw [hopen, Option.toList_some, meaning_eq_some_iff (List.pairwise_singleton ..)]
    simp

/-- The first descriptor that is left, and the others. -/
theorem SoundMap.left_iff (h : SoundMap memoryMap) (hm : IsNext memoryMap cursor m) :
    (∃ d ∈ memoryMap, Remains cursor d ∧ d.Has a k) ↔ m.Has a k ∨
      ∃ d ∈ memoryMap, Remains (some (m.physicalStart + 4096 * m.numberOfPages)) d ∧ d.Has a k := by
  constructor
  · rintro ⟨d, hd, hrd, hhas⟩
    by_cases hdm : d = m
    · exact .inl (hdm ▸ hhas)
    · exact .inr ⟨d, hd, (h.remains_iff hm hd).mpr ⟨hrd, hdm⟩, hhas⟩
  · rintro (hhas | ⟨d, hd, hrd, hhas⟩)
    · exact ⟨m, hm.mem, hm.remains, hhas⟩
    · exact ⟨d, hd, ((h.remains_iff hm hd).mp hrd).1, hhas⟩

section Round

variable {r : Segment MapKind} {lines : List (Segment MapKind)}

/-- The first descriptor of all starts a range. -/
theorem Prints.start (h : SoundMap memoryMap) (hm : IsNext memoryMap cursor m)
    (hp : Prints memoryMap (some (m.physicalStart + 4096 * m.numberOfPages)) (some m.segment) lines) :
    Prints memoryMap cursor none lines := by
  refine ⟨hp.normal, fun a k => ?_, nofun⟩
  rw [hp.meaning, open_some, open_none, h.left_iff hm]
  rfl

/-- A descriptor of the same kind that starts where the range ends is joined to it. -/
theorem Prints.join (h : SoundMap memoryMap) (hm : IsNext memoryMap cursor m) (hr : r.lo < r.hi)
    (hkind : r.kind = descriptorKind m) (hend : r.hi = m.physicalStart)
    (hp : Prints memoryMap (some (m.physicalStart + 4096 * m.numberOfPages))
      (some { r with hi := m.physicalStart + 4096 * m.numberOfPages }) lines) :
    Prints memoryMap cursor (some r) lines := by
  refine ⟨hp.normal, fun a k => ?_, fun r' hr' => ?_⟩
  · rw [hp.meaning, open_some, open_some, h.left_iff hm, ← or_assoc]
    refine or_congr_left ⟨?_, ?_⟩
    · rintro ⟨hlo, hhi, hk⟩
      rcases Nat.lt_or_ge a r.hi with hlt | hge
      · exact .inl ⟨hlo, hlt, hk⟩
      · exact .inr ⟨hend ▸ hge, hhi, hkind.symm.trans hk⟩
    · rintro (⟨hlo, hhi, hk⟩ | ⟨hlo, hhi, hk⟩)
      · exact ⟨hlo, by dsimp only; omega, hk⟩
      · exact ⟨by dsimp only; omega, hhi, hkind.trans hk⟩
  · obtain ⟨t, ht, hlo, hk⟩ := hp.first _ rfl
    rw [← Option.some_inj.mp hr']
    exact ⟨t, ht, hlo, hk⟩

/-- Any other descriptor starts a range of its own, and the one in front of it is printed. -/
theorem Prints.emit (h : SoundMap memoryMap) (hm : IsNext memoryMap cursor m) (hcursor : cursor = some r.hi)
    (hr : r.lo < r.hi) (hjoin : ¬ (r.kind = descriptorKind m ∧ r.hi = m.physicalStart))
    (hp : Prints memoryMap (some (m.physicalStart + 4096 * m.numberOfPages)) (some m.segment) lines) :
    Prints memoryMap cursor (some r) (r :: lines) := by
  refine ⟨⟨hr, fun t ht => ?_, hp.normal⟩, fun a k => ?_, fun r' hr' => ?_⟩
  · obtain ⟨t', ht', hlo, hkind⟩ := hp.first _ rfl
    rw [ht'] at ht
    cases ht
    exact ⟨hlo ▸ hm.remains.2 r.hi hcursor, fun heq hk => hjoin ⟨hk.trans hkind, heq.trans hlo⟩⟩
  · rw [meaning_cons, open_some]
    split
    · next hin =>
      -- nothing that is left starts in front of the cursor, where the range ends
      have hnone : ¬ ∃ d ∈ memoryMap, Remains cursor d ∧ d.Has a k := by
        rintro ⟨d, hd, hrd, hhas, -⟩
        have hle := hrd.2 r.hi hcursor
        omega
      simp [hnone, hin]
    · next hout =>
      refine .trans ?_ (or_iff_right fun hr => hout ⟨hr.1, hr.2.1⟩).symm
      rw [h.left_iff hm, hp.meaning, open_some]
      rfl
  · rw [← Option.some_inj.mp hr']
    exact ⟨r, rfl, rfl, rfl⟩

end Round

theorem SoundMap.mapLoop_prints (h : SoundMap memoryMap) (rounds : Nat) (cursor : Option Nat)
    (run : Option (Segment MapKind)) (hrounds : (remaining memoryMap cursor).length ≤ rounds)
    (hcursor : cursor = run.map (·.hi)) (hrun : ∀ r, run = some r → r.lo < r.hi) :
    Prints memoryMap cursor run (mapLoop memoryMap rounds cursor run) := by
  induction rounds generalizing cursor run with
  | zero =>
    have hnil := List.eq_nil_of_length_eq_zero (Nat.le_zero.mp hrounds)
    refine .last hrun fun d hd hr => ?_
    exact absurd (mem_remaining.mpr ⟨hd, hr⟩) (by rw [hnil]; exact List.not_mem_nil)
  | succ rounds ih =>
    rw [mapLoop]
    obtain ⟨hnone, hleft⟩ | ⟨m, hfound, hm⟩ := nextDescriptor_cases memoryMap cursor
    · rw [hnone]
      exact .last hrun hleft
    · have hshorter := h.length_remaining hm
      have hpos := hm.remains.1
      have hstart := ih (some (m.physicalStart + 4096 * m.numberOfPages)) (some m.segment) (by omega) rfl
        fun r hr => by cases hr; simp only [MapEntry.segment]; omega
      rw [hfound]
      dsimp only
      rw [h.descriptorEnd_eq hm.mem]
      cases run with
      | none => exact .start h hm hstart
      | some r =>
        have hr := hrun r rfl
        dsimp only
        split
        · next hjoin =>
          have hbehind := hm.remains.2 r.hi hcursor
          exact .join h hm hr hjoin.1 hjoin.2 (ih _ _ (by omega) rfl fun r' hr' => by cases hr'; dsimp only; omega)
        · next hjoin => exact .emit h hm hcursor hr hjoin hstart

/-- The whole loop. -/
theorem SoundMap.prints (h : SoundMap memoryMap) :
    Normal (printPhysicalMap memoryMap) ∧ ∀ a, meaning (printPhysicalMap memoryMap) a = kindAt memoryMap a := by
  obtain ⟨hnormal, hmeaning, -⟩ := h.mapLoop_prints memoryMap.length none none (List.length_filter_le _ _) rfl nofun
  refine ⟨hnormal, fun a => Option.ext fun k => ?_⟩
  have hall : kindAt memoryMap a = some k ↔ ∃ d ∈ memoryMap, d.Has a k := by
    rw [kindAt, meaning_eq_some_iff (List.pairwise_map.mpr h.apart)]
    simp [MapEntry.Has, MapEntry.segment]
  rw [printPhysicalMap, hmeaning, open_none, hall]
  refine exists_congr fun d => and_congr_right fun _ => and_iff_right_of_imp fun hhas => ⟨fun hempty => ?_, nofun⟩
  have hlo := hhas.1
  have hhi := hhas.2.1
  omega

/-- **What is printed is the normal form of the map**: the only lines in order that say the same of every address, and
of which no two in a row could be one. -/
theorem printPhysicalMap_normal (memoryMap : List MapEntry) (h : SoundMap memoryMap) (lines : List (Segment MapKind)) :
    lines = printPhysicalMap memoryMap ↔ Normal lines ∧ ∀ a, meaning lines a = kindAt memoryMap a := by
  obtain ⟨hnormal, hmeaning⟩ := h.prints
  constructor
  · rintro rfl
    exact ⟨hnormal, hmeaning⟩
  · rintro ⟨hlines, hsame⟩
    exact hlines.ext hnormal fun a => by rw [hsame, hmeaning]

/-- Three descriptors, which are not in order; two of them are printed as one range. -/
def threeEntries : List MapEntry := [⟨7, 0x200000, 1⟩, ⟨10, 0x100000, 1⟩, ⟨7, 0x201000, 2⟩]

theorem printPhysicalMap_normal_three :
    Normal [⟨0x100000, 0x101000, MapKind.acpiNvs⟩, ⟨0x200000, 0x203000, MapKind.free⟩] ∧
      ∀ a, meaning [⟨0x100000, 0x101000, MapKind.acpiNvs⟩, ⟨0x200000, 0x203000, MapKind.free⟩] a =
        kindAt threeEntries a := by
  refine (printPhysicalMap_normal threeEntries ⟨by simp [threeEntries], ?_⟩ _).mp rfl
  simp only [threeEntries, List.pairwise_cons, List.mem_cons, List.not_mem_nil, or_false, forall_eq_or_imp, forall_eq,
    Apart, MapEntry.segment, false_implies, implies_true, List.Pairwise.nil, and_true]
  refine ⟨⟨?_, ?_⟩, ?_⟩ <;> (intros; omega)

/-- **The report depends on the memory only**: neither on the order of the descriptors nor on how the firmware has cut
the ranges. -/
theorem printPhysicalMap_congr (h : SoundMap memoryMap) (h' : SoundMap memoryMap')
    (heq : ∀ a, kindAt memoryMap a = kindAt memoryMap' a) :
    printPhysicalMap memoryMap = printPhysicalMap memoryMap' :=
  h.prints.1.ext h'.prints.1 fun a => by rw [h.prints.2, h'.prints.2, heq]

end Dem64
