import Dem64.Bios.Services

/-!
# Looking up a path

`open_path` reads 32 sectors from the first sector of a directory and goes through what it has read, one
record of 32 bytes after the other, until a record has the name or starts with a zero.  Nothing else ends it:
a directory without a zero in these 16 KiB takes it on into whatever is in memory behind them.  It follows no
chain, and it takes every record with the name for the entry, also a deleted one or the label of the volume.

`openPath_finds_iff` is exactly when the answer is right all the same, and `finds_of_plain` the directories
one has in mind: in one piece, ended within the 16 KiB, and without another record of that name.
-/

set_option autoImplicit false

namespace Dem64.Bios

open ByteMemory

/-! ## The code -/

/-- How many of the first bytes are equal, counted as `cmpstr` does. -/
def equalBytes (ptr0 ptr1 : Nat → BitVec 8) : Nat → Nat
  | 0 => 0
  | i + 1 => if ptr0 i = ptr1 i then equalBytes ptr0 ptr1 i + 1 else equalBytes ptr0 ptr1 i

/-- `cmpstr`. -/
def cmpstr (ptr0 ptr1 : Nat → BitVec 8) (length : Nat) : Bool := equalBytes ptr0 ptr1 length == length

/-- How `open_path` has ended. -/
structure Lookup where
  result : BitVec 32
  /-- The addresses that were read. -/
  reads : List Nat

/-- The loop of `open_path`, for as many records as the first argument says. -/
def scanRecords (path memory : Nat → BitVec 8) : Nat → BitVec 32 → Option Lookup
  | 0, _ => none
  | n + 1, ptr =>
    if memory ptr.toNat = 0 then some ⟨1, [ptr.toNat]⟩
    else
      let reads := ptr.toNat :: (List.range 11).map fun i => ptr.toNat + i
      if cmpstr (fun i => memory (ptr.toNat + i)) path 11 then some ⟨ptr, reads⟩
      else (scanRecords path memory n (ptr + 32)).map fun l => ⟨l.result, reads ++ l.reads⟩

/-- `open_path`, with what it leaves in memory. -/
def openPath (v : Volume) (path : Nat → BitVec 8) (sector : BitVec 32) (n : Nat) (s : Stage) :
    Option Lookup × Stage :=
  let s := biosDiskServices v sector 0x90000 32 s
  (scanRecords path s.memory n 0x90000, s)

/-! ## Directories -/

/-- A directory on a FAT volume: a chain of data clusters with its end. -/
structure Directory (v : Volume) where
  first : BitVec 32
  /-- How many clusters the chain has. -/
  clusters : Nat
  fat : v.IsFat
  pos : 0 < clusters
  data : ∀ i < clusters, 2 ≤ ((nextCluster v)^[i] first).toNat ∧ ((nextCluster v)^[i] first).toNat < 0x0FFFFFF7
  ends : 0x0FFFFFF8 ≤ ((nextCluster v)^[clusters] first).toNat

variable {v : Volume}

/-- A record of the chain. -/
def Directory.record (d : Directory v) (i : Nat) : List (BitVec 8) := getBytes (chainByte v d.first) (32 * i) 32

/-- The entries of a directory are its records in front of the first one that starts with a zero. -/
def Directory.Has (d : Directory v) (e : List (BitVec 8)) : Prop :=
  ∃ i, 32 * (i + 1) ≤ d.clusters * v.clusterSize ∧ e = d.record i ∧ ∀ k ≤ i, (d.record k).getD 0 0 ≠ 0

/-- The record is in use, and neither a volume label nor a part of a long name. -/
def IsFileOrDirectory (e : List (BitVec 8)) : Prop := e.getD 0 0 ≠ 0xE5 ∧ e.getD 11 0 &&& 0x08 = 0

/-- The record has the name. -/
def Named (path : Nat → BitVec 8) (e : List (BitVec 8)) : Prop := ∀ i < 11, e.getD i 0 = path i

instance {path : Nat → BitVec 8} {e : List (BitVec 8)} : Decidable (Named path e) :=
  inferInstanceAs (Decidable (∀ i < 11, e.getD i 0 = path i))

instance {e : List (BitVec 8)} : Decidable (IsFileOrDirectory e) :=
  inferInstanceAs (Decidable (_ ∧ _))

/-- The record is an entry of the directory, of a file or directory with the name. -/
structure Directory.Contains (d : Directory v) (path : Nat → BitVec 8) (e : List (BitVec 8)) : Prop where
  has : d.Has e
  kind : IsFileOrDirectory e
  named : Named path e

/-! ## What a lookup is to do -/

/-- The lookup has read only the buffer, and its answer is right. -/
structure Lookup.Right (d : Directory v) (path memory : Nat → BitVec 8) (l : Lookup) : Prop where
  reads : ∀ x ∈ l.reads, 0x90000 ≤ x ∧ x < 0x94000
  found : (∃ e, d.Contains path e) →
    ∃ e, d.Contains path e ∧ 0x90000 ≤ l.result.toNat ∧ l.result.toNat + 32 ≤ 0x94000 ∧
      HasBytes memory l.result.toNat e
  missing : (¬ ∃ e, d.Contains path e) → l.result = 1

/-- `open_path` ends, with the right answer. -/
def Finds (d : Directory v) (path : Nat → BitVec 8) (s : Stage) : Prop :=
  ∃ n l, (openPath v path (convertClusterToLba v d.first) n s).1 = some l ∧
    l.Right d path (openPath v path (convertClusterToLba v d.first) n s).2.memory

/-- A record of the 32 sectors from the first sector of the directory on. -/
def Directory.sectorRecord (d : Directory v) (j : Nat) : List (BitVec 8) :=
  getBytes v.disk (512 * (convertClusterToLba v d.first).toNat + 32 * j) 32

/-- The record starts with a zero or has the name. -/
def Stops (path : Nat → BitVec 8) (e : List (BitVec 8)) : Prop := e.getD 0 0 = 0 ∨ Named path e

/-- Of the 512 records in the 32 sectors, the first one that starts with a zero or has the name is what is
looked for, or starts with a zero while the directory does not contain what is looked for. -/
def Directory.EndsWell (d : Directory v) (path : Nat → BitVec 8) : Prop :=
  ∃ j < 512, (∀ i < j, ¬ Stops path (d.sectorRecord i)) ∧
    (d.Contains path (d.sectorRecord j) ∨
      (d.sectorRecord j).getD 0 0 = 0 ∧ ¬ ∃ e, d.Contains path e)

section

variable {d : Directory v} {path memory : Nat → BitVec 8} {s : Stage} {ptr : BitVec 32} {l : Lookup}
  {n i j hi : Nat}

/-! ## A record -/

theorem getD_getBytes {bytes : Nat → BitVec 8} {a : Nat} (h : i < n) :
    (getBytes bytes a n).getD i 0 = bytes (a + i) := by
  rw [List.getD_eq_getElem?_getD, getElem?_getBytes h, Option.getD_some]

theorem equalBytes_le {ptr0 ptr1 : Nat → BitVec 8} : equalBytes ptr0 ptr1 n ≤ n := by
  induction n with
  | zero => exact Nat.le_refl 0
  | succ n ih =>
    rw [equalBytes]
    split <;> omega

theorem equalBytes_eq_iff {ptr0 ptr1 : Nat → BitVec 8} :
    equalBytes ptr0 ptr1 n = n ↔ ∀ i < n, ptr0 i = ptr1 i := by
  induction n with
  | zero => simp [equalBytes]
  | succ n ih =>
    have hle := @equalBytes_le n ptr0 ptr1
    rw [Nat.forall_lt_succ_right, ← ih, equalBytes]
    split
    · rename_i h
      simp [h]
    · rename_i h
      simp only [h, and_false, iff_false]
      omega

/-- A record in memory. -/
def recordAt (memory : Nat → BitVec 8) (a : Nat) : List (BitVec 8) := getBytes memory a 32

theorem zero_recordAt {a : Nat} : memory a = 0 ↔ (recordAt memory a).getD 0 0 = 0 := by
  rw [recordAt, getD_getBytes (by decide), Nat.add_zero]

theorem cmpstr_recordAt {a : Nat} :
    cmpstr (fun i => memory (a + i)) path 11 = true ↔ Named path (recordAt memory a) := by
  rw [cmpstr, beq_iff_eq, equalBytes_eq_iff]
  refine forall₂_congr fun i hi => ?_
  rw [recordAt, getD_getBytes (by omega)]

/-! ## The loop -/

/-- What `open_path` returns for the record that ends the loop. -/
def answer (memory : Nat → BitVec 8) (ptr : BitVec 32) : BitVec 32 := if memory ptr.toNat = 0 then 1 else ptr

theorem scanRecords_of_stops (h : Stops path (recordAt memory ptr.toNat)) :
    ∃ l, scanRecords path memory (n + 1) ptr = some l ∧ l.result = answer memory ptr ∧ ptr.toNat ∈ l.reads ∧
      ∀ x ∈ l.reads, ptr.toNat ≤ x ∧ x < ptr.toNat + 32 := by
  rw [scanRecords, answer]
  by_cases h0 : memory ptr.toNat = 0
  · rw [if_pos h0, if_pos h0]
    refine ⟨_, rfl, rfl, List.mem_singleton_self _, fun x hx => ?_⟩
    obtain rfl := List.mem_singleton.mp hx
    omega
  · have hname := cmpstr_recordAt.mpr (h.resolve_left fun h => h0 (zero_recordAt.mpr h))
    rw [if_neg h0, if_neg h0]
    dsimp only
    rw [if_pos hname]
    refine ⟨_, rfl, rfl, List.mem_cons_self, fun x hx => ?_⟩
    rcases List.mem_cons.mp hx with rfl | hx
    · omega
    · obtain ⟨i, hi, rfl⟩ := List.mem_map.mp hx
      have := List.mem_range.mp hi
      omega

theorem scanRecords_of_not_stops (h : ¬ Stops path (recordAt memory ptr.toNat)) :
    ∃ reads : List Nat, (∀ x ∈ reads, ptr.toNat ≤ x ∧ x < ptr.toNat + 32) ∧ ptr.toNat ∈ reads ∧
      scanRecords path memory (n + 1) ptr =
        (scanRecords path memory n (ptr + 32)).map fun l => ⟨l.result, reads ++ l.reads⟩ := by
  have h0 : ¬ memory ptr.toNat = 0 := fun h0 => h (.inl (zero_recordAt.mp h0))
  have hname : ¬ cmpstr (fun i => memory (ptr.toNat + i)) path 11 = true :=
    fun hname => h (.inr (cmpstr_recordAt.mp hname))
  refine ⟨ptr.toNat :: (List.range 11).map fun i => ptr.toNat + i, fun x hx => ?_, List.mem_cons_self, ?_⟩
  · rcases List.mem_cons.mp hx with rfl | hx
    · omega
    · obtain ⟨i, hi, rfl⟩ := List.mem_map.mp hx
      have := List.mem_range.mp hi
      omega
  · rw [scanRecords, if_neg h0]
    dsimp only
    rw [if_neg hname]

theorem toNat_next (h : ptr.toNat + 32 < 2 ^ 32) : (ptr + 32).toNat + 32 * i = ptr.toNat + 32 * (i + 1) := by
  rw [BitVec.toNat_add, show (32 : BitVec 32).toNat = 32 from rfl, Nat.mod_eq_of_lt h, Nat.mul_succ]
  omega

theorem next_add : ptr + 32 + BitVec.ofNat 32 (32 * j) = ptr + BitVec.ofNat 32 (32 * (j + 1)) := by
  rw [BitVec.add_assoc, Nat.mul_succ, Nat.add_comm (32 * j), BitVec.ofNat_add]
  rfl

/-- The loop ends at the first record that ends it. -/
theorem scanRecords_eq_some (hroom : ptr.toNat + 32 * (j + 1) < 2 ^ 32)
    (hskip : ∀ i < j, ¬ Stops path (recordAt memory (ptr.toNat + 32 * i)))
    (hstop : Stops path (recordAt memory (ptr.toNat + 32 * j))) :
    ∃ l, scanRecords path memory (j + 1) ptr = some l ∧
      l.result = answer memory (ptr + BitVec.ofNat 32 (32 * j)) ∧
      ∀ x ∈ l.reads, ptr.toNat ≤ x ∧ x < ptr.toNat + 32 * (j + 1) := by
  induction j generalizing ptr with
  | zero =>
    obtain ⟨l, hl, hresult, -, hreads⟩ := @scanRecords_of_stops path memory ptr 0 hstop
    exact ⟨l, hl, by rw [hresult, Nat.mul_zero, BitVec.add_zero], hreads⟩
  | succ j ih =>
    have hnext : ∀ i, (ptr + 32).toNat + 32 * i = ptr.toNat + 32 * (i + 1) := fun i => toNat_next (by omega)
    obtain ⟨reads, hreads, -, hscan⟩ := @scanRecords_of_not_stops path memory ptr (j + 1) (hskip 0 (by omega))
    obtain ⟨l, hl, hresult, hrest⟩ := @ih (ptr + 32) (by rw [hnext]; exact hroom)
      (fun i hi => by rw [hnext]; exact hskip (i + 1) (by omega)) (by rw [hnext]; exact hstop)
    refine ⟨⟨l.result, reads ++ l.reads⟩, by rw [hscan, hl]; rfl, ?_, fun x hx => ?_⟩
    · rw [← next_add]
      exact hresult
    · rcases List.mem_append.mp hx with hx | hx
      · have := hreads x hx
        omega
      · have := hrest x hx
        have := hnext 0
        have := hnext (j + 1)
        omega

/-- A loop that has read nothing behind `hi` has ended at a record in front of it. -/
theorem exists_stops (hhi : hi + 32 < 2 ^ 32) (hscan : scanRecords path memory n ptr = some l)
    (hreads : ∀ x ∈ l.reads, x < hi) :
    ∃ j, ptr.toNat + 32 * j < hi ∧ (∀ i < j, ¬ Stops path (recordAt memory (ptr.toNat + 32 * i))) ∧
      Stops path (recordAt memory (ptr.toNat + 32 * j)) ∧
      l.result = answer memory (ptr + BitVec.ofNat 32 (32 * j)) := by
  induction n generalizing ptr l with
  | zero => exact absurd hscan (by simp [scanRecords])
  | succ n ih =>
    by_cases hstop : Stops path (recordAt memory ptr.toNat)
    · obtain ⟨l', hl', hresult, hmem, -⟩ := @scanRecords_of_stops path memory ptr n hstop
      obtain rfl : l' = l := Option.some.inj (hl'.symm.trans hscan)
      exact ⟨0, hreads _ hmem, fun i hi => absurd hi (Nat.not_lt_zero i), hstop,
        by rw [hresult, Nat.mul_zero, BitVec.add_zero]⟩
    · obtain ⟨reads, -, hmem, hstep⟩ := @scanRecords_of_not_stops path memory ptr n hstop
      rw [hstep, Option.map_eq_some_iff] at hscan
      obtain ⟨l', hl', rfl⟩ := hscan
      have hlt : ptr.toNat < hi := hreads _ (List.mem_append_left _ hmem)
      have hnext : ∀ i, (ptr + 32).toNat + 32 * i = ptr.toNat + 32 * (i + 1) := fun i => toNat_next (by omega)
      obtain ⟨j, hj, hskip, hend, hresult⟩ := ih hl' fun x hx => hreads x (List.mem_append_right _ hx)
      rw [hnext] at hj hend
      refine ⟨j + 1, hj, fun i hi => ?_, hend, by rw [← next_add]; exact hresult⟩
      cases i with
      | zero => exact hstop
      | succ i =>
        rw [← hnext]
        exact hskip i (Nat.lt_of_succ_lt_succ hi)

/-! ## The lookup -/

/-- With the limit of the wrapper, 32 sectors are read. -/
theorem openPath_eq (hlimit : v.limit = edd) {sector : BitVec 32} :
    ((openPath v path sector n s).1 =
      scanRecords path (readSectors v sector 0x90000 32 s.memory) n 0x90000) ∧
    (openPath v path sector n s).2.memory = readSectors v sector 0x90000 32 s.memory := by
  have hread := @biosDiskServices_of_le v s sector 0x90000 32 (by decide) (by rw [hlimit]; decide) (by decide)
  have hptr : (0x90000 : BitVec 32).toNat = 0x90000 := rfl
  rw [hptr] at hread
  constructor
  · simp only [openPath, hread]
  · simp only [openPath, hread]

/-- The buffer has the records of the 32 sectors. -/
theorem recordAt_readSectors (hj : j < 512) :
    recordAt (readSectors v (convertClusterToLba v d.first) 0x90000 32 memory) (0x90000 + 32 * j) =
      d.sectorRecord j := by
  refine getBytes_eq_getBytes_iff.mpr fun i hi => ?_
  rw [readSectors, Nat.add_assoc, putBytes_getBytes (by omega), Nat.add_assoc]

theorem length_record : (d.record i).length = 32 := length_getBytes

/-- An entry of the directory that is in memory at an address is the record there. -/
theorem Directory.Has.eq_recordAt {e : List (BitVec 8)} {a : Nat} (h : d.Has e) (hmem : HasBytes memory a e) :
    e = recordAt memory a := by
  obtain ⟨i, -, rfl, -⟩ := h
  have hlength := @length_record v d i
  rw [recordAt, hmem.getBytes_eq hlength.ge, List.take_of_length_le hlength.le]

theorem hasBytes_recordAt {a : Nat} : HasBytes memory a (recordAt memory a) :=
  hasBytes_getBytes

/-- An entry does not start with a zero. -/
theorem Directory.Has.ne_zero {e : List (BitVec 8)} (h : d.Has e) : e.getD 0 0 ≠ 0 := by
  obtain ⟨i, -, rfl, hne⟩ := h
  exact hne i (Nat.le_refl i)

/-- The records of the 32 sectors are such that the right answer is found. -/
theorem Directory.EndsWell.finds (h : d.EndsWell path) (hlimit : v.limit = edd) : Finds d path s := by
  obtain ⟨j, hj, hskip, hwell⟩ := h
  obtain ⟨hscan, hmemory⟩ := @openPath_eq v path s (j + 1) hlimit (convertClusterToLba v d.first)
  set memory := readSectors v (convertClusterToLba v d.first) 0x90000 32 s.memory with hm
  have hrecord : ∀ i, i < 512 → recordAt memory (0x90000 + 32 * i) = d.sectorRecord i :=
    fun i hi => recordAt_readSectors hi
  have hstop : Stops path (d.sectorRecord j) := by
    rcases hwell with hwell | hwell
    · exact .inr hwell.named
    · exact .inl hwell.1
  have hptr : (0x90000 : BitVec 32).toNat = 0x90000 := rfl
  obtain ⟨l, hl, hresult, hreads⟩ := @scanRecords_eq_some path memory 0x90000 j (by rw [hptr]; omega)
    (fun i hi => by rw [hptr, hrecord i (by omega)]; exact hskip i hi) (by rw [hptr, hrecord j hj]; exact hstop)
  have haddr : ((0x90000 : BitVec 32) + BitVec.ofNat 32 (32 * j)).toNat = 0x90000 + 32 * j := by
    rw [BitVec.toNat_add, hptr, BitVec.toNat_ofNat]
    omega
  have hzero : memory (0x90000 + 32 * j) = 0 ↔ (d.sectorRecord j).getD 0 0 = 0 := by
    rw [← hrecord j hj]
    exact zero_recordAt
  rw [answer, haddr] at hresult
  refine ⟨j + 1, l, hscan.trans hl, fun x hx => ?_, fun hex => ?_, fun hno => ?_⟩
  · have := hreads x hx
    omega
  · rcases hwell with hwell | ⟨-, hno⟩
    · rw [if_neg (mt hzero.mp hwell.has.ne_zero)] at hresult
      refine ⟨_, hwell, ?_⟩
      rw [hmemory, hresult, haddr, ← hrecord j hj]
      exact ⟨by omega, by omega, hasBytes_recordAt⟩
    · exact absurd hex hno
  · rcases hwell with hwell | ⟨h0, -⟩
    · exact absurd ⟨_, hwell⟩ hno
    · rw [hresult, if_pos (hzero.mpr h0)]

/-- The right answer is only found with such records. -/
theorem Finds.endsWell (h : Finds d path s) (hlimit : v.limit = edd) : d.EndsWell path := by
  obtain ⟨n, l, hrun, hright⟩ := h
  obtain ⟨hscan, hmemory⟩ := @openPath_eq v path s n hlimit (convertClusterToLba v d.first)
  rw [hscan] at hrun
  rw [hmemory] at hright
  set memory := readSectors v (convertClusterToLba v d.first) 0x90000 32 s.memory with hm
  have hrecord : ∀ i, i < 512 → recordAt memory (0x90000 + 32 * i) = d.sectorRecord i :=
    fun i hi => recordAt_readSectors hi
  have hptr : (0x90000 : BitVec 32).toNat = 0x90000 := rfl
  obtain ⟨j, hj, hskip, hstop, hresult⟩ := @exists_stops path memory 0x90000 l n 0x94000 (by decide) hrun
    fun x hx => (hright.reads x hx).2
  rw [hptr] at hj hskip hstop
  have hj' : j < 512 := by omega
  have haddr : ((0x90000 : BitVec 32) + BitVec.ofNat 32 (32 * j)).toNat = 0x90000 + 32 * j := by
    rw [BitVec.toNat_add, hptr, BitVec.toNat_ofNat]
    omega
  rw [answer, haddr] at hresult
  refine ⟨j, hj', fun i hi => by rw [← hrecord i (by omega)]; exact hskip i hi, ?_⟩
  by_cases h0 : memory (0x90000 + 32 * j) = 0
  · -- the answer is 1, which is no address of the buffer
    rw [if_pos h0] at hresult
    refine .inr ⟨by rw [← hrecord j hj']; exact zero_recordAt.mp h0, fun hex => ?_⟩
    obtain ⟨e, -, hle, -⟩ := hright.found hex
    rw [hresult, show (1 : BitVec 32).toNat = 1 from rfl] at hle
    omega
  · -- the answer is an address, so that the directory contains the record there
    rw [if_neg h0] at hresult
    by_cases hex : ∃ e, d.Contains path e
    · obtain ⟨e, he, -, -, hmem⟩ := hright.found hex
      rw [hresult, haddr] at hmem
      rw [← hrecord j hj', ← he.has.eq_recordAt hmem]
      exact .inl he
    · have h1 := congrArg BitVec.toNat (hresult.symm.trans (hright.missing hex))
      rw [haddr, show (1 : BitVec 32).toNat = 1 from rfl] at h1
      omega

/-- A directory as one has it in mind: the 32 sectors have its records, one of them ends it, and no other
record has the name. -/
structure Directory.Plain (d : Directory v) (path : Nat → BitVec 8) : Prop where
  inPlace : ∀ j < 512, 32 * (j + 1) ≤ d.clusters * v.clusterSize → d.sectorRecord j = d.record j
  short : ∃ j < 512, 32 * (j + 1) ≤ d.clusters * v.clusterSize ∧ (d.record j).getD 0 0 = 0
  only : ∀ i, Named path (d.record i) → IsFileOrDirectory (d.record i)

/-- In such a directory every name is looked up rightly. -/
theorem Directory.Plain.finds (h : d.Plain path) (hlimit : v.limit = edd) : Finds d path s := by
  classical
  obtain ⟨k, hk, hfits, hk0⟩ := h.short
  have hex : ∃ j, Stops path (d.record j) := ⟨k, .inl hk0⟩
  -- the first record that ends the scan
  obtain ⟨j, hj, hfirst⟩ : ∃ j, Stops path (d.record j) ∧ ∀ i < j, ¬ Stops path (d.record i) :=
    ⟨Nat.find hex, Nat.find_spec hex, fun i hi => Nat.find_min hex hi⟩
  have hjk : j ≤ k := Nat.le_of_not_lt fun hlt => hfirst k hlt (.inl hk0)
  have hsame : ∀ i ≤ j, d.sectorRecord i = d.record i := fun i hi => h.inPlace i (by omega) (by omega)
  refine Directory.EndsWell.finds ⟨j, by omega, fun i hi => ?_, ?_⟩ hlimit
  · rw [hsame i hi.le]
    exact hfirst i hi
  · rw [hsame j (Nat.le_refl j)]
    by_cases h0 : (d.record j).getD 0 0 = 0
    · refine .inr ⟨h0, ?_⟩
      rintro ⟨e, ⟨i, -, rfl, hne⟩, -, hnamed⟩
      -- an entry is in front of the zero, where no record has the name
      have hij : i < j := Nat.lt_of_not_le fun hle => hne j hle h0
      exact hfirst i hij (.inr hnamed)
    · have hnamed : Named path (d.record j) := hj.resolve_left h0
      refine .inl ⟨⟨j, by omega, rfl, fun i hi => ?_⟩, h.only j hnamed, hnamed⟩
      rcases Nat.lt_or_eq_of_le hi with hi | rfl
      · exact fun h0 => hfirst i hi (.inl h0)
      · exact h0

end

/-! ## The result -/

/-- **BIOS directory lookup.**  `open_path` ends, reads nothing but its buffer and has the right answer exactly
if, of the 512 records in the 32 sectors from the first sector of the directory on, the first one that starts
with a zero or has the name is an entry of the directory for a file or directory with that name, or starts with
a zero while the directory has no such entry. -/
theorem openPath_finds_iff (d : Directory v) (path : Nat → BitVec 8) (s : Stage) (hlimit : v.limit = edd) :
    Finds d path s ↔ d.EndsWell path :=
  ⟨fun h => h.endsWell hlimit, fun h => h.finds hlimit⟩

/-- `BOOT       `. -/
def bootName : List (BitVec 8) := [0x42, 0x4F, 0x4F, 0x54, 0x20, 0x20, 0x20, 0x20, 0x20, 0x20, 0x20]

def bootPath (i : Nat) : BitVec 8 := bootName.getD i 0

/-- A record with the name `BOOT       `. -/
def bootRecord (attributes cluster : BitVec 8) : List (BitVec 8) :=
  bootName ++ [attributes] ++ List.replicate 14 0 ++ [cluster, 0, 0, 0, 0, 0]

/-- A volume with clusters of 4 KiB whose root directory, cluster 2 alone, starts with these bytes. -/
def rootVolume (root : List (BitVec 8)) : Volume where
  disk x := if x < 0x8000 then if 0x4008 ≤ x then [0xFF, 0xFF, 0xFF, 0x0F].getD (x - 0x4008) 0 else 0
    else root.getD (x - 0x8000) 0
  limit := edd
  sectorsPerCluster := 8
  fatStart := 32
  firstDataLba := 64

theorem nextCluster_rootVolume (root : List (BitVec 8)) : nextCluster (rootVolume root) 2 = 0x0FFFFFFF := by
  have haddr : 512 * (fatSector (rootVolume root) 2).toNat + (fatOffset 2).toNat = 0x4008 := rfl
  have hdisk : ∀ i < 4, (rootVolume root).disk (0x4008 + i) = [0xFF, 0xFF, 0xFF, 0x0F].getD i 0 := by
    intro i hi
    interval_cases i <;> rfl
  rw [nextCluster, haddr, load32, hdisk 3 (by decide), hdisk 2 (by decide), hdisk 1 (by decide),
    show (rootVolume root).disk 0x4008 = _ from hdisk 0 (by decide)]
  rfl

/-- Its root directory. -/
def rootDirectory (root : List (BitVec 8)) : Directory (rootVolume root) where
  first := 2
  clusters := 1
  fat := ⟨3, by decide, rfl⟩
  pos := by decide
  data i hi := by
    obtain rfl := Nat.lt_one_iff.mp hi
    change 2 ≤ (2 : BitVec 32).toNat ∧ (2 : BitVec 32).toNat < 0x0FFFFFF7
    decide
  ends := by
    change 0x0FFFFFF8 ≤ (nextCluster (rootVolume root) 2).toNat
    rw [nextCluster_rootVolume]
    decide

def blankStage : Stage := ⟨fun _ => 0, 0x80000, [], []⟩

/-- A root directory with the directory `BOOT` in it. -/
theorem openPath_finds_boot : Finds (rootDirectory (bootRecord 0x10 3)) bootPath blankStage :=
  (openPath_finds_iff (rootDirectory (bootRecord 0x10 3)) bootPath blankStage rfl).mpr
    ⟨0, by decide, fun _ hi => absurd hi (Nat.not_lt_zero _), .inl
      ⟨⟨0, by decide, by decide, fun k hk => by obtain rfl := Nat.le_zero.mp hk; decide⟩, by decide, by decide⟩⟩

/-- On a volume with the label `BOOT` the label is taken for the directory. -/
theorem not_openPath_finds_label :
    ¬ ∀ (v : Volume) (d : Directory v) (path : Nat → BitVec 8) (s : Stage), v.limit = edd → Finds d path s := by
  intro h
  obtain ⟨j, -, hskip, hwell⟩ :=
    (h _ (rootDirectory (bootRecord 0x08 0 ++ bootRecord 0x10 3)) bootPath blankStage rfl).endsWell rfl
  obtain rfl : j = 0 := by
    refine Nat.eq_zero_of_not_pos fun hpos => hskip 0 hpos (.inr ?_)
    decide
  rcases hwell with hwell | hwell
  · exact absurd hwell.kind (by decide)
  · exact absurd hwell.1 (by decide)

end Dem64.Bios
