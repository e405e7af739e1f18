import Dem64.Lib.ByteMemory
import Mathlib.Algebra.Order.Group.Nat
import Mathlib.Data.List.Basic

/-!
# A segment of the kernel, under UEFI

`load_segment` of `bootloader.c` reads a segment of the kernel's file through a buffer of 4096 bytes,
which held the program headers and gets them back at the end.  It reads as many bytes at a time as the
segment's alignment says, copies as many, and goes on 4096 bytes behind in memory.  The three agree for
an alignment of 4096; any other does if the segment is a single chunk.

A chunk larger than the buffer is written behind its end, unless the file ends before.
-/

set_option autoImplicit false

namespace Dem64.Efi

open ByteMemory

/-- What `load_segment` works on. -/
structure Loader where
  /-- Where the file is read next. -/
  position : Nat
  /-- `size`. -/
  size : Nat
  /-- The memory from `file_buffer` on. -/
  fileBuffer : Nat → BitVec 8
  /-- The memory the kernel is loaded to. -/
  memory : Nat → BitVec 8
  /-- How many bytes each call of `Read` has written to `file_buffer`. -/
  reads : List Nat

/-- `file->SetPosition`. -/
def setPosition (position : Nat) (s : Loader) : Loader := { s with position := position }

/-- `file->Read` of `size` bytes to `file_buffer`: as many as the file has left, whose number is stored in
`size`. -/
def read (file : List (BitVec 8)) (s : Loader) : Loader :=
  let next := (file.drop s.position).take s.size
  { position := s.position + next.length
    size := next.length
    fileBuffer := putBytes s.fileBuffer 0 next
    memory := s.memory
    reads := s.reads ++ [next.length] }

/-- `memcpy` from `file_buffer`. -/
def memcpy (buf count : Nat) (s : Loader) : Loader :=
  { s with memory := putBytes s.memory buf (getBytes s.fileBuffer 0 count) }

@[simp] theorem memcpy_position (buf count : Nat) (s : Loader) : (memcpy buf count s).position = s.position :=
  rfl

@[simp] theorem memcpy_size (buf count : Nat) (s : Loader) : (memcpy buf count s).size = s.size :=
  rfl

/-- The bytes that iteration `i` copies. -/
def copySize (pFilesz pAlign i : BitVec 64) : BitVec 64 :=
  if pFilesz - i * pAlign > pAlign then pAlign else pFilesz - i * pAlign

/-- The loop of `load_segment`, from iteration `i` on. -/
def loadLoop (file : List (BitVec 8)) (pFilesz pAlign : BitVec 64) :
    Nat → BitVec 64 → Nat → Loader → Loader
  | 0, _, _, s => s
  | n + 1, i, buf, s =>
    loadLoop file pFilesz pAlign n (i + 1) (buf + 4096)
      (memcpy buf (copySize pFilesz pAlign i).toNat (read file s))

/-- `load_segment`. -/
def loadSegment (file : List (BitVec 8)) (pOffset pFilesz pAlign : BitVec 64) (buf : Nat) (s : Loader) :
    Loader :=
  let s := setPosition pOffset.toNat s
  let (iterations, size, pAlign) : BitVec 64 × BitVec 64 × BitVec 64 :=
    if pAlign = 0 ∨ pAlign = 1 then (pFilesz, 1, 1)
    else ((pFilesz + (pAlign - 1)) / pAlign, pAlign, pAlign)
  let s := loadLoop file pFilesz pAlign iterations.toNat 0 buf { s with size := size.toNat }
  let s := setPosition 0 { s with size := 4096 }
  read file s

/-! ## What is meant -/

/-- The bytes of the segment, as many as the file has. -/
def segmentBytes (file : List (BitVec 8)) (pOffset pFilesz : BitVec 64) : List (BitVec 8) :=
  (file.drop pOffset.toNat).take pFilesz.toNat

/-- The segment is at `buf`, no read was larger than the buffer, and the buffer holds the beginning of the
file. -/
structure Loads (file : List (BitVec 8)) (pOffset pFilesz : BitVec 64) (buf : Nat) (s : Loader) : Prop where
  stored : HasBytes s.memory buf (segmentBytes file pOffset pFilesz)
  bounded : ∀ n ∈ s.reads, n ≤ 4096
  restored : HasBytes s.fileBuffer 0 (file.take 4096)

/-- The alignments a program header may have. -/
def Alignment (pAlign : BitVec 64) : Prop := pAlign = 0 ∨ ∃ k, pAlign.toNat = 2 ^ k

/-- The bytes that are read at a time. -/
def chunk (pAlign : BitVec 64) : BitVec 64 := if pAlign = 0 then 1 else pAlign

/-- The file has nothing of the segment, or it is a single chunk, or the chunks are pages; the number of
chunks is computed without overflow; and no chunk is larger than the buffer, as far as the file goes. -/
def Chunked (file : List (BitVec 8)) (pOffset pFilesz pAlign : BitVec 64) : Prop :=
  segmentBytes file pOffset pFilesz = [] ∨
    ((segmentBytes file pOffset pFilesz).length ≤ (chunk pAlign).toNat ∨ chunk pAlign = 4096) ∧
      pFilesz.toNat + ((chunk pAlign).toNat - 1) < 2 ^ 64 ∧
      min (chunk pAlign).toNat (file.length - pOffset.toNat) ≤ 4096

/-- How often the loop is run. -/
def iterations (pFilesz a : BitVec 64) : Nat := ((pFilesz + (a - 1)) / a).toNat

/-- The state the loop starts from. -/
def sought (pOffset a : BitVec 64) (s : Loader) : Loader :=
  { setPosition pOffset.toNat s with size := a.toNat }

/-! ## What one iteration does -/

section

variable {file : List (BitVec 8)} {pOffset pFilesz pAlign a i : BitVec 64} {buf n x p b : Nat} {s : Loader}

theorem iterations_one : iterations pFilesz 1 = pFilesz.toNat := by
  rw [iterations, BitVec.sub_self, BitVec.add_zero, show pFilesz / 1 = pFilesz from BitVec.udiv_one]

theorem loadSegment_eq : loadSegment file pOffset pFilesz pAlign buf s =
    read file (setPosition 0
      { loadLoop file pFilesz (chunk pAlign) (iterations pFilesz (chunk pAlign)) 0 buf
          (sought pOffset (chunk pAlign) s) with size := 4096 }) := by
  by_cases h0 : pAlign = 0
  · rw [loadSegment, chunk, if_pos h0, if_pos (.inl h0), iterations_one]
    rfl
  by_cases h1 : pAlign = 1
  · rw [loadSegment, chunk, if_neg h0, if_pos (.inr h1), h1, iterations_one]
    rfl
  · rw [loadSegment, chunk, if_neg h0, if_neg (not_or.mpr ⟨h0, h1⟩)]
    rfl

theorem chunk_pos : 0 < (chunk pAlign).toNat := by
  rw [chunk]
  split
  · decide
  · rename_i h
    exact Nat.pos_of_ne_zero fun h0 => h (BitVec.eq_of_toNat_eq h0)

/-- A chunk is a power of two, so that two of them still have 64 bits. -/
theorem Alignment.two_mul_chunk_le (h : Alignment pAlign) : 2 * (chunk pAlign).toNat ≤ 2 ^ 64 := by
  rcases h with rfl | ⟨k, hk⟩
  · decide
  · rw [chunk, if_neg (fun h0 => by rw [h0] at hk; exact absurd hk.symm (Nat.two_pow_pos k).ne'), hk]
    have hlt : 2 ^ k < 2 ^ 64 := hk ▸ pAlign.isLt
    rw [← Nat.pow_succ']
    exact Nat.pow_le_pow_right (by decide) (Nat.pow_lt_pow_iff_right (by decide) |>.mp hlt)

theorem iterations_eq (ha : 0 < a.toNat) :
    iterations pFilesz a = (pFilesz.toNat + (a.toNat - 1)) % 2 ^ 64 / a.toNat := by
  have h1 : (a - 1).toNat = a.toNat - 1 := BitVec.toNat_sub_of_le (by
    rw [BitVec.le_def]
    exact ha)
  rw [iterations, BitVec.toNat_udiv, BitVec.toNat_add, h1]

theorem copySize_le : (copySize pFilesz a i).toNat ≤ a.toNat := by
  rw [copySize]
  split
  · exact le_rfl
  · rename_i h
    exact Nat.le_of_not_lt h

/-- An iteration copies a chunk, or what is left of the segment. -/
theorem copySize_eq (h : i.toNat * a.toNat < pFilesz.toNat) :
    (copySize pFilesz a i).toNat = min a.toNat (pFilesz.toNat - i.toNat * a.toNat) := by
  have hmul : (i * a).toNat = i.toNat * a.toNat := by
    rw [BitVec.toNat_mul, Nat.mod_eq_of_lt (h.trans pFilesz.isLt)]
  have hleft : (pFilesz - i * a).toNat = pFilesz.toNat - i.toNat * a.toNat := by
    rw [BitVec.toNat_sub_of_le (by rw [BitVec.le_def, hmul]; exact h.le), hmul]
  rw [copySize]
  split
  · rename_i hgt
    rw [gt_iff_lt, BitVec.lt_def, hleft] at hgt
    exact (min_eq_left hgt.le).symm
  · rename_i hgt
    rw [gt_iff_lt, BitVec.lt_def, hleft] at hgt
    rw [hleft, min_eq_right (by omega)]

@[simp] theorem length_next {p k : Nat} : ((file.drop p).take k).length = min k (file.length - p) := by
  rw [List.length_take, List.length_drop]

/-- What an iteration stores. -/
theorem hasBytes_memcpy_read (h : b ≤ s.size) :
    HasBytes (memcpy buf b (read file s)).memory buf ((file.drop s.position).take b) := by
  have hread : HasBytes (read file s).fileBuffer 0 ((file.drop s.position).take s.size) := hasBytes_putBytes
  have htake : (file.drop s.position).take b = ((file.drop s.position).take s.size).take b := by
    rw [List.take_take, min_eq_left h]
  rw [htake]
  exact hread.copy

/-! ## What the loop does -/

/-- Chunks smaller than a page leave gaps. -/
theorem memory_loadLoop (h : x < buf ∨ a.toNat ≤ (x - buf) % 4096) :
    (loadLoop file pFilesz a n i buf s).memory x = s.memory x := by
  induction n generalizing i buf s with
  | zero => rfl
  | succ n ih =>
    have hle : (copySize pFilesz a i).toNat ≤ a.toNat := copySize_le
    have hnext : x < buf + 4096 ∨ a.toNat ≤ (x - (buf + 4096)) % 4096 := by omega
    rw [loadLoop, ih hnext]
    rcases h with h | h
    · exact putBytes_of_lt h
    · by_cases hx : x < buf
      · exact putBytes_of_lt hx
      · exact putBytes_of_ge (by rw [length_getBytes]; omega)

/-- The reads so far are still listed. -/
theorem reads_loadLoop : ∀ m ∈ s.reads, m ∈ (loadLoop file pFilesz a n i buf s).reads := by
  induction n generalizing i buf s with
  | zero => exact fun _ hm => hm
  | succ n ih => exact fun m hm => ih m (List.mem_append_left _ hm)

/-- No read is larger than the first one could be. -/
theorem reads_loadLoop_le (hsize : s.size ≤ a.toNat) (hposition : p ≤ s.position)
    (hreads : ∀ m ∈ s.reads, m ≤ min a.toNat (file.length - p)) :
    ∀ m ∈ (loadLoop file pFilesz a n i buf s).reads, m ≤ min a.toNat (file.length - p) := by
  induction n generalizing i buf s with
  | zero => exact hreads
  | succ n ih =>
    have hnext : ((file.drop s.position).take s.size).length ≤ min a.toNat (file.length - p) := by
      rw [length_next]
      omega
    refine ih (hnext.trans (min_le_left _ _)) (le_add_right hposition) fun m hm => ?_
    rcases List.mem_append.mp hm with hm | hm
    · exact hreads m hm
    · rw [List.mem_singleton.mp hm]
      exact hnext

/-- **The loop stores what is left of the segment.** -/
theorem hasBytes_loadLoop {left : Nat} (ha : 0 < a.toNat) (hroom : min a.toNat (file.length - p) ≤ 4096)
    (hleft : i.toNat * a.toNat + left = pFilesz.toNat)
    (hchunk : min left (file.length - p) ≤ a.toNat ∨ a.toNat = 4096)
    (hn : n = (left + (a.toNat - 1)) / a.toNat)
    (hsize : 0 < left → s.size = a.toNat) (hposition : 0 < left → s.position = p) :
    HasBytes (loadLoop file pFilesz a n i buf s).memory buf ((file.drop p).take left) := by
  induction n generalizing i buf s p left with
  | zero =>
    obtain rfl : left = 0 := by
      have := (Nat.div_eq_zero_iff_lt ha).mp hn.symm
      omega
    rw [List.take_zero]
    trivial
  | succ n ih =>
    have hpos : 0 < left := by
      by_contra hnot
      rw [Nat.eq_zero_of_not_pos hnot, Nat.zero_add, Nat.div_eq_of_lt (by omega)] at hn
      exact absurd hn n.succ_ne_zero
    have hcopy : (copySize pFilesz a i).toNat = min a.toNat left := by
      rw [copySize_eq (by omega), ← hleft, Nat.add_sub_cancel_left]
    have hfirst : HasBytes (memcpy buf (min a.toNat left) (read file s)).memory buf
        ((file.drop p).take (min a.toNat left)) := by
      rw [← hposition hpos]
      exact hasBytes_memcpy_read ((min_le_left _ _).trans (hsize hpos).ge)
    -- the other iterations go on behind the page
    have hkept : HasBytes (loadLoop file pFilesz a (n + 1) i buf s).memory buf
        ((file.drop p).take (min a.toNat left)) := by
      rw [loadLoop, hcopy]
      refine hfirst.congr fun x _ hx => memory_loadLoop (.inl ?_)
      rw [length_next] at hx
      omega
    by_cases hone : min left (file.length - p) ≤ a.toNat
    · have hall : (file.drop p).take left = (file.drop p).take (min a.toNat left) := by
        rw [← List.take_take]
        apply (List.take_of_length_le _).symm
        rwa [length_next]
      rwa [hall]
    · have h4096 : a.toNat = 4096 := hchunk.resolve_left hone
      obtain ⟨rest, rfl⟩ : ∃ rest, left = 4096 + rest := ⟨left - 4096, by omega⟩
      rw [h4096, min_eq_left (by omega)] at hkept hcopy
      have hi : (i + 1).toNat = i.toNat + 1 := by
        have := pFilesz.isLt
        rw [h4096] at hleft
        rw [BitVec.toNat_add, show (1 : BitVec 64).toNat = 1 from rfl, Nat.mod_eq_of_lt (by omega)]
      have hdone : (i + 1).toNat * a.toNat = i.toNat * a.toNat + 4096 := by rw [hi, Nat.succ_mul, h4096]
      -- a page has been read, since the file has at least that much
      have hnext : ((file.drop s.position).take s.size).length = 4096 := by
        rw [length_next, hsize hpos, hposition hpos]
        omega
      have hsize' : (read file s).size = a.toNat := by rw [read, hnext, h4096]
      have hposition' : (read file s).position = p + 4096 := by rw [read, hnext, hposition hpos]
      have hrest : HasBytes
          (loadLoop file pFilesz a n (i + 1) (buf + 4096) (memcpy buf 4096 (read file s))).memory
          (buf + 4096) ((file.drop (p + 4096)).take rest) := by
        apply ih
        · omega
        · rw [hdone, ← hleft, Nat.add_assoc]
        · exact .inr h4096
        · rw [h4096] at hn ⊢
          omega
        · intro _
          rw [memcpy_size, hsize']
        · intro _
          rw [memcpy_position, hposition']
      have hsplit : (file.drop p).take (4096 + rest) =
          (file.drop p).take 4096 ++ (file.drop (p + 4096)).take rest := by
        rw [← List.drop_drop, ← List.take_add]
      have hlen : ((file.drop p).take 4096).length = 4096 := by
        rw [length_next]
        omega
      rw [hsplit, HasBytes.append_iff, hlen]
      refine ⟨hkept, ?_⟩
      rw [loadLoop, hcopy]
      exact hrest

/-! ## The segment -/

theorem hasBytes_loadSegment_fileBuffer :
    HasBytes (loadSegment file pOffset pFilesz pAlign buf s).fileBuffer 0 (file.take 4096) := by
  rw [loadSegment_eq]
  exact hasBytes_putBytes

theorem memory_loadSegment : (loadSegment file pOffset pFilesz pAlign buf s).memory =
    (loadLoop file pFilesz (chunk pAlign) (iterations pFilesz (chunk pAlign)) 0 buf
      (sought pOffset (chunk pAlign) s)).memory := by
  rw [loadSegment_eq]
  rfl

theorem reads_loadSegment : (loadSegment file pOffset pFilesz pAlign buf s).reads =
    (loadLoop file pFilesz (chunk pAlign) (iterations pFilesz (chunk pAlign)) 0 buf
      (sought pOffset (chunk pAlign) s)).reads ++ [min 4096 file.length] := by
  rw [loadSegment_eq, ← Nat.sub_zero file.length, ← length_next]
  rfl

/-- If the segment is loaded whatever was in memory before, each of its bytes is written. -/
theorem exists_memory_ne (h : ∀ s : Loader, s.reads = [] →
    Loads file pOffset pFilesz 0 (loadSegment file pOffset pFilesz pAlign 0 s))
    (hx : x < (segmentBytes file pOffset pFilesz).length) :
    ∃ s, (loadSegment file pOffset pFilesz pAlign 0 s).memory x ≠ s.memory x := by
  set v := (segmentBytes file pOffset pFilesz)[x] with hv
  refine ⟨{ position := 0, size := 0, fileBuffer := fun _ => 0, memory := fun _ => v + 1, reads := [] }, ?_⟩
  have hbyte := (h { position := 0, size := 0, fileBuffer := fun _ => 0, memory := fun _ => v + 1, reads := [] }
    rfl).stored.getBytes_eq le_rfl
  have hget := congrArg (fun l => l[x]?) hbyte
  simp only [getElem?_getBytes hx, List.take_length, List.getElem?_eq_getElem hx, Nat.zero_add,
    Option.some.injEq] at hget
  rw [hget, ← hv]
  bv_omega

end

/-- **Which segments are loaded.**  For an alignment that is 0 or a power of two, `load_segment` does its
work if and only if the segment is a single chunk, or the alignment is 4096; and no chunk overruns the
buffer. -/
theorem loadSegment_loads_iff {file : List (BitVec 8)} {pOffset pFilesz pAlign : BitVec 64}
    (halign : Alignment pAlign) :
    (∀ (buf : Nat) (s : Loader), s.reads = [] →
      Loads file pOffset pFilesz buf (loadSegment file pOffset pFilesz pAlign buf s)) ↔
    Chunked file pOffset pFilesz pAlign := by
  have ha := @chunk_pos pAlign
  have htwo := halign.two_mul_chunk_le
  have hiter := @iterations_eq pFilesz (chunk pAlign) ha
  have hlength : (segmentBytes file pOffset pFilesz).length = min pFilesz.toNat (file.length - pOffset.toNat) :=
    length_next
  constructor
  · intro h
    by_cases hempty : segmentBytes file pOffset pFilesz = []
    · exact .inl hempty
    have hpos := List.length_pos_iff.mpr hempty
    -- the loop is run, since otherwise nothing is written
    obtain ⟨n, hn⟩ : ∃ n, iterations pFilesz (chunk pAlign) = n + 1 := by
      refine Nat.exists_eq_succ_of_ne_zero fun h0 => ?_
      obtain ⟨s, hs⟩ := exists_memory_ne (h 0) hpos
      exact hs (by rw [memory_loadSegment, h0]; rfl)
    have hroom : min (chunk pAlign).toNat (file.length - pOffset.toNat) ≤ 4096 := by
      refine (h 0 { position := 0, size := 0, fileBuffer := fun _ => 0, memory := fun _ => 0, reads := [] }
        rfl).bounded _ ?_
      rw [reads_loadSegment, hn, loadLoop]
      refine List.mem_append_left _ (reads_loadLoop _ (List.mem_append_right _ ?_))
      rw [length_next]
      exact List.mem_singleton_self _
    have hlt : pFilesz.toNat + ((chunk pAlign).toNat - 1) < 2 ^ 64 := by
      by_contra hover
      rw [hn, Nat.mod_eq_sub_mod (by omega), Nat.mod_eq_of_lt (by omega), Nat.div_eq_of_lt (by omega)] at hiter
      exact absurd hiter n.succ_ne_zero
    refine .inr ⟨?_, hlt, hroom⟩
    by_cases hone : (segmentBytes file pOffset pFilesz).length ≤ (chunk pAlign).toNat
    · exact .inl hone
    refine .inr (BitVec.eq_of_toNat_eq (?_ : _ = 4096))
    by_contra hne
    -- the byte behind the first chunk is in the gap
    obtain ⟨s, hs⟩ := exists_memory_ne (h 0) (Nat.lt_of_not_le hone)
    exact hs (by rw [memory_loadSegment]; exact memory_loadLoop (.inr (by omega)))
  · intro h buf s hreads
    have hlast : min 4096 file.length ≤ 4096 := min_le_left _ _
    have hle : ∀ m ∈ (loadLoop file pFilesz (chunk pAlign) (iterations pFilesz (chunk pAlign)) 0 buf
        (sought pOffset (chunk pAlign) s)).reads,
        m ≤ min (chunk pAlign).toNat (file.length - pOffset.toNat) :=
      reads_loadLoop_le le_rfl le_rfl fun m hm => by
        rw [sought, setPosition, hreads] at hm
        exact absurd hm List.not_mem_nil
    refine ⟨?_, fun m hm => ?_, hasBytes_loadSegment_fileBuffer⟩
    · rcases h with h | ⟨hchunk, hlt, hroom⟩
      · rw [h]
        trivial
      rw [Nat.mod_eq_of_lt hlt] at hiter
      rw [memory_loadSegment]
      refine hasBytes_loadLoop ha hroom ?_ ?_ hiter (fun _ => rfl) fun _ => rfl
      · rw [show (0 : BitVec 64).toNat = 0 from rfl, Nat.zero_mul, Nat.zero_add]
      · rw [← hlength]
        exact hchunk.imp id (congrArg BitVec.toNat)
    · rw [reads_loadSegment] at hm
      rcases List.mem_append.mp hm with hm | hm
      · rcases h with h | ⟨-, -, hroom⟩
        · rw [h, List.length_nil] at hlength
          rcases Nat.eq_zero_or_pos pFilesz.toNat with hzero | hpos
          · rw [hiter, hzero, Nat.zero_add, Nat.mod_eq_of_lt (by omega), Nat.div_eq_of_lt (by omega), loadLoop,
              sought, setPosition, hreads] at hm
            exact absurd hm List.not_mem_nil
          · have := hle m hm
            omega
        · exact (hle m hm).trans hroom
      · rwa [List.mem_singleton.mp hm]

/-- Seventeen bytes. -/
def unevenFile : List (BitVec 8) := List.replicate 17 1

/-- A loader that has not read anything. -/
def blankLoader : Loader where
  position := 0
  size := 4096
  fileBuffer _ := 0
  memory _ := 0
  reads := []

/-- With an alignment of 4096 they are a single chunk. -/
theorem loadSegment_loads_uneven :
    Loads unevenFile 0 17 0 (loadSegment unevenFile 0 17 4096 0 blankLoader) :=
  (loadSegment_loads_iff (.inr ⟨12, rfl⟩)).mpr (.inr ⟨.inl (by decide), by decide, by decide⟩) 0 blankLoader rfl

/-- With one of 16 the last byte is stored 4096 bytes behind the first. -/
theorem not_loads_uneven : ¬ ∀ (file : List (BitVec 8)) (pOffset pFilesz pAlign : BitVec 64),
    Alignment pAlign → ∀ (buf : Nat) (s : Loader), s.reads = [] →
      Loads file pOffset pFilesz buf (loadSegment file pOffset pFilesz pAlign buf s) := by
  intro h
  have hstored := (h unevenFile 0 17 16 (.inr ⟨4, rfl⟩) 0 blankLoader rfl).stored
  exact absurd hstored (by decide +kernel)

end Dem64.Efi
