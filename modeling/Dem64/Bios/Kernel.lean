import Dem64.Bios.Services
import Mathlib.Data.List.Forall2

/-!
# The kernel, from a FAT volume

`load_kernel` of `stage4.c` reads the program headers at `0x95000`, above the memory through which it loads
the pages of the segments.  A page receives the bytes of the file that it should, and the program headers
stay as they are, unless the clusters have 128 sectors (`loadKernel_loads_iff`): the services refuse to read
those, and if they did not, a page in two of them would be read over the program headers.
-/

set_option autoImplicit false

namespace Dem64.Bios

open ByteMemory

/-- The eight bytes at `a`. -/
def load64 (memory : Nat → BitVec 8) (a : Nat) : BitVec 64 := load32 memory (a + 4) ++ load32 memory a

/-- What `load_kernel` reads of a program header. -/
structure Header where
  type : BitVec 32
  offset : BitVec 64
  filesz : BitVec 64
  memsz : BitVec 64
  deriving DecidableEq

/-- The program header at `ptr`. -/
def readHeader (memory : Nat → BitVec 8) (ptr : Nat) : Header where
  type := load32 memory ptr
  offset := load64 memory (ptr + 0x08)
  filesz := load64 memory (ptr + 0x20)
  memsz := load64 memory (ptr + 0x28)

/-- `memset` to zero; the count is an `int`. -/
def memset (dest : Nat) (count : BitVec 32) (memory : Nat → BitVec 8) : Nat → BitVec 8 :=
  putBytes memory dest (List.replicate count.toInt.toNat 0)

/-- One iteration of the inner loop of `load_kernel`. -/
def loadPage (v : Volume) (kernelCluster offset addr : BitVec 32) (s : Stage) : Stage :=
  let clusterSize : BitVec 32 := v.sectorsPerCluster.setWidth 32 * 512
  let align := clusterSize - 1
  let calculation : BitVec 64 :=
    kernelCluster.setWidth 64 * clusterSize.setWidth 64 + offset.setWidth 64
  let cluster : BitVec 32 := (calculation / clusterSize.setWidth 64).setWidth 32
  let found := findNext v (cluster - kernelCluster).toNat kernelCluster s
  let clusterOff : BitVec 32 :=
    if calculation &&& align.setWidth 64 ≠ 0 then (calculation &&& align.setWidth 64).setWidth 32 else 0
  load4k v found.1 addr.toNat clusterOff found.2

/-- The inner loop of `load_kernel`. -/
def loadPages (v : Volume) (kernelCluster : BitVec 32) : Nat → BitVec 32 → BitVec 32 → Stage → Stage
  | 0, _, _, s => s
  | n + 1, offset, addr, s =>
    loadPages v kernelCluster n (offset + 0x1000) (addr + 0x1000) (loadPage v kernelCluster offset addr s)

/-- `page_count`. -/
def Header.pageCount (h : Header) : BitVec 32 := ((h.filesz + 4095) >>> 12).setWidth 32

/-- One iteration of the outer loop of `load_kernel`, for the header at `ptr`.  It gives the address behind
the segment. -/
def loadSegment (v : Volume) (kernelCluster : BitVec 32) (ptr : Nat) (addr : BitVec 32) (s : Stage) :
    BitVec 32 × Stage :=
  let h := readHeader s.memory ptr
  if h.type = 1 then
    let remainder := h.memsz - h.filesz
    let s := loadPages v kernelCluster h.pageCount.toInt.toNat (h.offset.setWidth 32) addr s
    -- the size is read once more
    let addr := addr + (readHeader s.memory ptr).filesz.setWidth 32
    let s := { s with memory := memset addr.toNat (remainder.setWidth 32) s.memory }
    let addr := addr + remainder.setWidth 32
    ((addr + 4095) &&& ~~~0xFFF, s)
  else (addr, s)

/-- `load_kernel`, with `n` program headers left. -/
def loadKernel (v : Volume) (kernelCluster : BitVec 32) (ephentsize : Nat) :
    Nat → Nat → BitVec 32 → Stage → Stage
  | 0, _, _, s => s
  | n + 1, ptr, addr, s =>
    let segment := loadSegment v kernelCluster ptr addr s
    loadKernel v kernelCluster ephentsize n (ptr + ephentsize) segment.1 segment.2

/-! ## What is meant -/

/-- The program headers, as they are before the kernel is loaded. -/
def readHeaders (memory : Nat → BitVec 8) (ephentsize : Nat) : Nat → Nat → List Header
  | 0, _ => []
  | n + 1, ptr => readHeader memory ptr :: readHeaders memory ephentsize n (ptr + ephentsize)

/-- Where `n` pages are in the file. -/
def pagePositions (offset n : Nat) : List Nat := (List.range n).map fun i => offset + 4096 * i

/-- Where the pages of a segment are in the file: as many as it takes to hold it. -/
def Header.positions (h : Header) : List Nat :=
  if h.type = 1 then pagePositions h.offset.toNat ((h.filesz.toNat + 4095) / 4096) else []

/-- Where the pages of all segments are in the file. -/
def positions (headers : List Header) : List Nat := headers.flatMap Header.positions

/-- A page has the 4096 bytes of the file from `p` on, as far as the file goes. -/
def Holds (file : List (BitVec 8)) (p : Nat) (contents : List (BitVec 8)) : Prop :=
  ∀ j, j < 4096 → ∀ h : p + j < file.length, contents[j]? = some file[p + j]

/-- Every page of every segment has received its bytes, nothing has been read to `0x90000` or above, and the
memory with the program headers is as it was. -/
structure Loaded (file : List (BitVec 8)) (headers : List Header) (before : Nat → BitVec 8) (s : Stage) :
    Prop where
  pages : List.Forall₂ (Holds file) (positions headers) s.pages
  staged : ∀ e ∈ s.staged, e ≤ 0x90000
  headers : ∀ x, 0x95000 ≤ x → x < 0x100000 → s.memory x = before x

/-- How many bytes are cleared behind the file's part of a segment. -/
def Header.cleared (h : Header) : Nat := ((h.memsz - h.filesz).setWidth 32).toInt.toNat

/-- The address behind a segment. -/
def Header.next (h : Header) (addr : BitVec 32) : BitVec 32 :=
  (addr + h.filesz.setWidth 32 + (h.memsz - h.filesz).setWidth 32 + 4095) &&& ~~~0xFFF

/-- The segments are placed above 1 MiB and below 4 GiB. -/
def Above : List Header → BitVec 32 → Prop
  | [], _ => True
  | h :: headers, addr =>
    if h.type = 1 then
      0x100000 ≤ addr.toNat ∧ addr.toNat + 4096 * ((h.filesz.toNat + 4095) / 4096) ≤ 2 ^ 32 ∧
        addr.toNat + h.filesz.toNat + h.cleared ≤ 2 ^ 32 ∧ Above headers (h.next addr)
    else Above headers addr

/-- The program headers are among the 32 sectors that `main` has read to `0x95000`. -/
structure HeadersRead (ptr ephentsize ephnum : Nat) : Prop where
  ptr_ge : 0x95000 ≤ ptr
  size_ge : 56 ≤ ephentsize
  last_le : ptr + ephnum * ephentsize ≤ 0x99000

/-- The page does not need more memory than there is below `0x90000`, or none of it is read. -/
def Volume.Fits (v : Volume) (p : Nat) : Prop :=
  v.limit < v.sectorsPerCluster.toNat ∨ v.sectorsPerCluster.toNat < 128 ∨ p % 65536 ≤ 61440

/-- The state in which `main` calls `load_kernel`. -/
def called (memory : Nat → BitVec 8) : Stage := { memory := memory, place := 0x80000, staged := [], pages := [] }

section

variable {v : Volume} {kernelCluster offset addr : BitVec 32} {file : List (BitVec 8)}
  {m : Nat → BitVec 8} {s s' s'' : Stage} {p n : Nat} {ps qs : List Nat}

/-! ## The cluster of a page -/

/-- Between two pages: the program headers are as they were, and if no cluster is read, so is the memory they
would be read to. -/
structure Ready (v : Volume) (m : Nat → BitVec 8) (s : Stage) : Prop where
  place : s.place = 0x80000
  above : ∀ x, 0x90200 ≤ x → x < 0x100000 → s.memory x = m x
  staging : v.limit < v.sectorsPerCluster.toNat → ∀ x, 0x80000 ≤ x → x < 0x90000 → s.memory x = m x

/-- What a page receives. -/
structure Received (v : Volume) (file : List (BitVec 8)) (m : Nat → BitVec 8) (p : Nat)
    (contents : List (BitVec 8)) : Prop where
  refused : v.limit < v.sectorsPerCluster.toNat → contents[0]? = some (m (0x80000 + p % v.clusterSize))
  read : v.sectorsPerCluster.toNat ≤ v.limit → Holds file p contents

/-- What becomes of the pages of a part of the kernel. -/
structure Does (v : Volume) (file : List (BitVec 8)) (m : Nat → BitVec 8) (ps : List Nat) (s s' : Stage) :
    Prop where
  ready : (∀ p ∈ ps, v.Fits p) → Ready v m s'
  pages : (∀ p ∈ ps, v.Fits p) → ∃ l, s'.pages = s.pages ++ l ∧ List.Forall₂ (Received v file m) ps l
  staged : (∀ p ∈ ps, v.Fits p) → ∃ l, s'.staged = s.staged ++ l ∧ ∀ e ∈ l, e ≤ 0x90000
  overrun : (∃ p ∈ ps, ¬ v.Fits p) → ∃ e ∈ s'.staged, 0x90000 < e

/-- The rest is only looked at if the first pages fit. -/
theorem Does.append (h : Does v file m ps s s') (h' : (∀ p ∈ ps, v.Fits p) → Does v file m qs s' s'')
    (hsub : s'.staged ⊆ s''.staged) : Does v file m (ps ++ qs) s s'' where
  ready hfit := (h' fun p hp => hfit p (List.mem_append_left _ hp)).ready
    fun p hp => hfit p (List.mem_append_right _ hp)
  pages hfit := by
    rw [List.forall_mem_append] at hfit
    obtain ⟨l, hl, hall⟩ := h.pages hfit.1
    obtain ⟨l', hl', hall'⟩ := (h' hfit.1).pages hfit.2
    exact ⟨l ++ l', by rw [hl', hl, List.append_assoc], List.rel_append hall hall'⟩
  staged hfit := by
    rw [List.forall_mem_append] at hfit
    obtain ⟨l, hl, hle⟩ := h.staged hfit.1
    obtain ⟨l', hl', hle'⟩ := (h' hfit.1).staged hfit.2
    exact ⟨l ++ l', by rw [hl', hl, List.append_assoc], List.forall_mem_append.mpr ⟨hle, hle'⟩⟩
  overrun := by
    rintro ⟨p, hp, hnot⟩
    by_cases hfit : ∀ p ∈ ps, v.Fits p
    · rcases List.mem_append.mp hp with hp | hp
      · exact absurd (hfit p hp) hnot
      · exact (h' hfit).overrun ⟨p, hp, hnot⟩
    · rw [not_forall] at hfit
      obtain ⟨q, hq⟩ := hfit
      rw [Classical.not_imp] at hq
      obtain ⟨e, he, hlt⟩ := h.overrun ⟨q, hq⟩
      exact ⟨e, hsub he, hlt⟩

/-- A program header is its 48 bytes. -/
theorem readHeader_congr {m' : Nat → BitVec 8} {ptr : Nat} (h : SameOn m m' ptr 48) :
    readHeader m' ptr = readHeader m ptr := by
  have hload : ∀ k, k + 4 ≤ 48 → load32 m' (ptr + k) = load32 m (ptr + k) :=
    fun k hk => load32_eq fun i hi => h _ (by omega) (by omega)
  have hload0 : load32 m' ptr = load32 m ptr := hload 0 (by decide)
  rw [readHeader, readHeader, load64, load64, load64, load64, load64, load64]
  simp only [Nat.add_assoc, Nat.reduceAdd]
  rw [hload0, hload 8 (by decide), hload 12 (by decide), hload 32 (by decide), hload 36 (by decide),
    hload 40 (by decide), hload 44 (by decide)]

theorem Ready.readHeader_eq {ptr : Nat} (hs : Ready v m s) (hge : 0x95000 ≤ ptr) (hle : ptr + 48 ≤ 0x100000) :
    readHeader s.memory ptr = readHeader m ptr :=
  readHeader_congr fun x hx hlt => hs.above x (by omega) (by omega)

theorem Does.congr (h : Does v file m ps s s') (hready : (∀ p ∈ ps, v.Fits p) → Ready v m s' → Ready v m s'')
    (hpages : s''.pages = s'.pages) (hstaged : s''.staged = s'.staged) : Does v file m ps s s'' where
  ready hfit := hready hfit (h.ready hfit)
  pages hfit := hpages ▸ h.pages hfit
  staged hfit := hstaged ▸ h.staged hfit
  overrun hnot := hstaged ▸ h.overrun hnot

end

/-- The bytes of an ELF file with one program header, for a page that starts at `0xF001`. -/
def lateByte (t : Nat) : BitVec 8 :=
  match t with
  | 0x20 => 0x40
  | 0x36 => 56
  | 0x38 | 0x40 | 0x48 => 1
  | 0x49 => 0xF0
  | 0x61 | 0x69 => 0x10
  | _ => 0

/-- The memory with what `main` has read of the file, and ones below `0x90000`. -/
def lateMemory (x : Nat) : BitVec 8 :=
  if x < 0x90000 then 1 else if 0x95000 ≤ x ∧ x < 0x99000 then lateByte (x - 0x95000) else 0

theorem readHeaders_lateMemory : readHeaders lateMemory 56 1 0x95040 =
    [{ type := 1, offset := 0xF001, filesz := 0x1000, memsz := 0x1000 }] := by
  decide +kernel

/-- The kernel is loaded, whatever it is. -/
def Volume.Loads (v : Volume) : Prop :=
  ∀ (kernelCluster addr : BitVec 32) (file : List (BitVec 8)) (m : Nat → BitVec 8)
    (ptr ephentsize ephnum : Nat), v.IsFat → Stores v kernelCluster file → HeadersRead ptr ephentsize ephnum →
    Above (readHeaders m ephentsize ephnum ptr) addr →
    Loaded file (readHeaders m ephentsize ephnum ptr) m
      (loadKernel v kernelCluster ephentsize ephnum ptr addr (called m))

end Dem64.Bios
