import Dem64.Lib.ByteMemory
import Mathlib.Algebra.Order.Group.Nat
import Mathlib.Logic.Function.Iterate
import Mathlib.Tactic.IntervalCases

/-!
# A page of the kernel, from a FAT volume

Under BIOS, stage 4 reads the kernel through the real-mode services of stage 3.  `load_4k` reads the
clusters that a page lies in to `0x80000`, one behind the other, and copies the page from there.  A page is
in the middle of its clusters, so that one more cluster may be read than the page has room for; up to
64 sectors in a cluster, this still ends at `0x90000` (`clusterCount_spec`).

A cluster of 128 sectors is not read at all: `RealModeWrapper` takes 127 at most (`edd`).  How many it
takes is part of the volume here, so that it is also seen what would happen if it took them.

The services have the BIOS read the FAT to `0x90000`, one sector at a time.
-/

set_option autoImplicit false

namespace Dem64.Bios

open ByteMemory

/-- A FAT volume, and what `bios_services` says of it. -/
structure Volume where
  /-- The bytes of the disk. -/
  disk : Nat → BitVec 8
  /-- How many sectors `RealModeWrapper` has the BIOS read at most. -/
  limit : Nat
  sectorsPerCluster : BitVec 8
  fatStart : BitVec 32
  firstDataLba : BitVec 32

/-- The limit in `.disk_args` of `RealModeWrapper`. -/
def edd : Nat := 127

/-- What stage 4 works on. -/
structure Stage where
  memory : Nat → BitVec 8
  place : BitVec 32
  /-- Where the sectors that `load_clusters` reads have ended in memory. -/
  staged : List Nat
  /-- What the pages have received. -/
  pages : List (List (BitVec 8))

/-! ## The real-mode services -/

/-- `int 13h`, which is taken to read the sectors. -/
def readSectors (v : Volume) (lba : BitVec 32) (buffer sectors : Nat) (memory : Nat → BitVec 8) :
    Nat → BitVec 8 :=
  putBytes memory buffer (getBytes v.disk (512 * lba.toNat) (512 * sectors))

/-- `RealModeWrapper` with `bios_disk_services`. -/
def biosDiskServices (v : Volume) (lba buffer : BitVec 32) (sectors : Nat) (s : Stage) : Stage :=
  if 0x100000 ≤ buffer.toNat ∨ sectors = 0 ∨ v.limit < sectors ∨ 0x100000 < buffer.toNat + 512 * sectors then s
  else { s with
    memory := readSectors v lba buffer.toNat sectors s.memory
    staged := s.staged ++ [buffer.toNat + 512 * sectors] }

/-- `convert_cluster_to_lba`. -/
def convertClusterToLba (v : Volume) (cluster : BitVec 32) : BitVec 32 :=
  (cluster - 2) * v.sectorsPerCluster.setWidth 32 + v.firstDataLba

/-- The sector of the FAT with the entry of a cluster. -/
def fatSector (v : Volume) (cluster : BitVec 32) : BitVec 32 := ((cluster <<< 2) >>> 9) + v.fatStart

/-- Where the entry is in its sector. -/
def fatOffset (cluster : BitVec 32) : BitVec 16 := (cluster.setWidth 16 <<< 2) &&& 511

/-- `find_next_cluster`. -/
def findNextCluster (v : Volume) (cluster : BitVec 32) (s : Stage) : BitVec 32 × Stage :=
  let memory := readSectors v (fatSector v cluster) 0x90000 1 s.memory
  let eax := load32 memory (0x90000 + (fatOffset cluster).toNat)
  (if eax = 0x0FFFFFFF then eax else eax &&& 0x0FFFFFFF, { s with memory := memory })

/-! ## Stage 4 -/

/-- `memcpy`. -/
def memcpy (dst src : Nat) : Nat → (Nat → BitVec 8) → Nat → BitVec 8
  | 0, memory => memory
  | n + 1, memory => memcpy (dst + 1) (src + 1) n (Function.update memory dst (memory src))

/-- `load_clusters`. -/
def loadClusters (v : Volume) : Nat → BitVec 32 → Stage → Stage
  | 0, _, s => s
  | n + 1, cluster, s =>
    let s := biosDiskServices v (convertClusterToLba v cluster) s.place v.sectorsPerCluster.toNat s
    let next := findNextCluster v cluster
      { s with place := s.place + 512 * v.sectorsPerCluster.setWidth 32 }
    loadClusters v n next.1 next.2

/-- `cluster_count` in `load_4k`. -/
def clusterCount (v : Volume) (clusterOff : BitVec 32) : Nat :=
  let sectors := (4096 + clusterOff + 511) >>> 9
  (sectors.toNat + (v.sectorsPerCluster.toNat - 1)) / v.sectorsPerCluster.toNat

/-- `load_4k`. -/
def load4k (v : Volume) (cluster : BitVec 32) (destination : Nat) (clusterOff : BitVec 32) (s : Stage) : Stage :=
  let s := loadClusters v (clusterCount v clusterOff) cluster s
  let memory := memcpy destination (0x80000 + clusterOff.toNat) 4096 s.memory
  { memory := memory
    place := 0x80000
    staged := s.staged
    pages := s.pages ++ [getBytes memory destination 4096] }

/-- `find_next`. -/
def findNext (v : Volume) : Nat → BitVec 32 → Stage → BitVec 32 × Stage
  | 0, cluster, s => (cluster, s)
  | n + 1, cluster, s =>
    let next := findNextCluster v cluster s
    findNext v n next.1 next.2

/-! ## The chain of a file -/

/-- The bytes of a cluster. -/
def Volume.clusterSize (v : Volume) : Nat := 512 * v.sectorsPerCluster.toNat

/-- What the FAT has for a cluster. -/
def nextCluster (v : Volume) (cluster : BitVec 32) : BitVec 32 :=
  load32 v.disk (512 * (fatSector v cluster).toNat + (fatOffset cluster).toNat) &&& 0x0FFFFFFF

/-- Byte `t` of the chain that starts at a cluster. -/
def chainByte (v : Volume) (cluster : BitVec 32) (t : Nat) : BitVec 8 :=
  v.disk (512 * (convertClusterToLba v ((nextCluster v)^[t / v.clusterSize] cluster)).toNat + t % v.clusterSize)

/-- The file is on the volume, and starts at the cluster.  Its size has 32 bits in the directory. -/
structure Stores (v : Volume) (first : BitVec 32) (file : List (BitVec 8)) : Prop where
  length_lt : file.length < 2 ^ 32
  byte : ∀ t (h : t < file.length), chainByte v first t = file[t]

/-- The cluster sizes of FAT. -/
def Volume.IsFat (v : Volume) : Prop := ∃ k, k ≤ 7 ∧ v.sectorsPerCluster.toNat = 2 ^ k

section

variable {v : Volume} {cluster : BitVec 32} {t n q x dst src : Nat} {s : Stage} {memory : Nat → BitVec 8}

theorem Volume.IsFat.pos (h : v.IsFat) : 0 < v.clusterSize := by
  obtain ⟨k, -, hk⟩ := h
  rw [Volume.clusterSize, hk]
  exact Nat.mul_pos (by decide) (Nat.two_pow_pos k)

theorem biosDiskServices_of_le {lba buffer : BitVec 32} {sectors : Nat} (hsectors : 0 < sectors)
    (hlimit : sectors ≤ v.limit) (h : buffer.toNat + 512 * sectors ≤ 0x100000) :
    biosDiskServices v lba buffer sectors s = { s with
      memory := readSectors v lba buffer.toNat sectors s.memory
      staged := s.staged ++ [buffer.toNat + 512 * sectors] } :=
  if_neg (by omega)

/-- The clusters are in memory one behind the other, below `0x90000`. -/
structure Filled (v : Volume) (cluster : BitVec 32) (n : Nat) (s s' : Stage) : Prop where
  byte : ∀ t, t < n * v.clusterSize → s'.memory (s.place.toNat + t) = chainByte v cluster t
  memory : ∀ x, x < s.place.toNat ∨ 0x90200 ≤ x → s'.memory x = s.memory x
  pages : s'.pages = s.pages
  staged : ∃ l, s'.staged = s.staged ++ l ∧ ∀ e ∈ l, e ≤ 0x90000

end

end Dem64.Bios
