import Vmdk.Error
import Vmdk.Lib.Word

/-! # Extent headers and grain directories

The headers of the three binary extent formats, each parsed from the first 512
bytes of its file, and the directories the COWD and seSparse openers load. A
parsed header carries the bounds its parser checked. `checked_mul(..).ok_or(e)?`
is the check that the product is below `u64Size`. -/

open Bytes Word

def sectorSize : Nat := 512

/-- The index of an extent of 4-byte entries: which table a grain is in, and where in it. -/
structure GrainGeometry where
  /-- First sector of each grain table; 0 where there is none. -/
  grainDir : List Nat
  grainSizeBytes : Nat
  numGtesPerGt : Nat
  grainSizeBytes_pos : 0 < grainSizeBytes
  numGtesPerGt_pos : 0 < numGtesPerGt
  grainDir_lt : ∀ sector ∈ grainDir, sector < 2 ^ 32

theorem GrainGeometry.table_lt (geom : GrainGeometry) (gdIdx : Nat) :
    geom.grainDir.getD gdIdx 0 < 2 ^ 32 := by
  rw [List.getD_eq_getElem?_getD]
  cases hget : geom.grainDir[gdIdx]? with
  | none => exact Nat.two_pow_pos 32
  | some sector => exact geom.grainDir_lt sector (List.mem_of_getElem? hget)

/-- The numbers of a directory as it is read. -/
theorem directory_lt (bs : List UInt8) : ∀ sector ∈ leTable 4 bs, sector < 2 ^ 32 :=
  fun _ h => leTable_lt h

/-! ## VMDK4 -/

namespace Header

def magic : Nat := 0x564D444B
def version : Nat := 1
def versionZeroedGrain : Nat := 2
def versionStreamOpt : Nat := 3
def maxNumGtesPerGt : Nat := 512
def maxGrainSizeSectors : Nat := 0x10000
/-- `gdOffset` of a primary header whose directory offset is in the footer. -/
def gdAtEnd : Nat := 0xffffffffffffffff

end Header

structure SparseExtentHeader where
  version : Nat
  capacity : Nat
  grainSize : Nat
  descriptorOffset : Nat
  descriptorSize : Nat
  numGtesPerGt : Nat
  rgdOffset : Nat
  gdOffset : Nat
  compressed : Bool
  grainSize_ge : 8 ≤ grainSize
  grainSize_le : grainSize ≤ Header.maxGrainSizeSectors
  numGtesPerGt_pos : 0 < numGtesPerGt
  numGtesPerGt_le : numGtesPerGt ≤ Header.maxNumGtesPerGt

namespace SparseExtentHeader
open Header

theorem grainBytes_pos (hdr : SparseExtentHeader) : 0 < hdr.grainSize * sectorSize :=
  Nat.mul_pos (Nat.lt_of_lt_of_le (by decide) hdr.grainSize_ge) (by decide)

/-- Version 1 and 2 extents are uncompressed, version 3 extents deflated. -/
def compressionFits (ver compressAlgorithm : Nat) : Bool :=
  ((ver == Header.version || ver == versionZeroedGrain) && compressAlgorithm == 0) ||
    (ver == versionStreamOpt && compressAlgorithm == 1)

def parse (data : List UInt8) : Except VmdkError SparseExtentHeader := do
  let _ ← ensure (512 ≤ data.length) .fileTooSmall
  let _ ← ensure (leNat (slice data 0 4) = magic) .badMagic
  let ver := leNat (slice data 4 4)
  let _ ← ensure (ver = Header.version ∨ ver = versionZeroedGrain ∨ ver = versionStreamOpt)
    (.unsupportedVersion ver)
  let grainSize := leNat (slice data 20 8)
  let numGtesPerGt := leNat (slice data 44 4)
  let compressAlgorithm := leNat (slice data 77 2)
  let _ ← ensure (compressionFits ver compressAlgorithm = true) .compressedNotSupported
  let hlo ← ensure (8 ≤ grainSize)
    (.fieldOutOfRange "grain_size" grainSize "must be >= 8 sectors (VDF 1.1 §4.1)")
  let hhi ← ensure (grainSize ≤ maxGrainSizeSectors)
    (.fieldOutOfRange "grain_size" grainSize "exceeds the maximum supported grain size (32 MiB)")
  let hpos ← ensure (0 < numGtesPerGt)
    (.fieldOutOfRange "num_gtes_per_gt" numGtesPerGt "must be > 0")
  let hle ← ensure (numGtesPerGt ≤ maxNumGtesPerGt)
    (.fieldOutOfRange "num_gtes_per_gt" numGtesPerGt "exceeds the spec maximum of 512")
  return {
    version := ver
    capacity := leNat (slice data 12 8)
    grainSize
    descriptorOffset := leNat (slice data 28 8)
    descriptorSize := leNat (slice data 36 8)
    numGtesPerGt
    rgdOffset := leNat (slice data 48 8)
    gdOffset := leNat (slice data 56 8)
    compressed := compressAlgorithm != 0
    grainSize_ge := hlo.down
    grainSize_le := hhi.down
    numGtesPerGt_pos := hpos.down
    numGtesPerGt_le := hle.down }

/-- The offsets of an accepted header are the numbers at their places. -/
structure ReadFrom (hdr : SparseExtentHeader) (data : List UInt8) : Prop where
  capacity : hdr.capacity = leNat (slice data 12 8)
  grainSize : hdr.grainSize = leNat (slice data 20 8)
  descriptorOffset : hdr.descriptorOffset = leNat (slice data 28 8)
  descriptorSize : hdr.descriptorSize = leNat (slice data 36 8)
  numGtesPerGt : hdr.numGtesPerGt = leNat (slice data 44 4)
  rgdOffset : hdr.rgdOffset = leNat (slice data 48 8)
  gdOffset : hdr.gdOffset = leNat (slice data 56 8)
  compressed : hdr.compressed = (leNat (slice data 77 2) != 0)

theorem parse_ok {data : List UInt8} {hdr : SparseExtentHeader} (h : parse data = .ok hdr) :
    ReadFrom hdr data := by
  unfold parse at h
  simp only [bind_eq_ok] at h
  obtain ⟨_, _, _, _, _, _, _, _, _, _, _, _, _, _, _, _, h⟩ := h
  cases h
  exact ⟨rfl, rfl, rfl, rfl, rfl, rfl, rfl, rfl⟩

end SparseExtentHeader

/-! ## COWD -/

namespace Cowd

/-- `"COWD"`, read big-endian. -/
def magic : Nat := 0x434F5744
def gdSector : Nat := 4
def gtesPerGt : Nat := 4096

end Cowd

structure CowdHeader where
  capacity : Nat
  grainSize : Nat
  grainSize_pos : 0 < grainSize
  capacity_lt : capacity < 2 ^ 32
  grainSize_lt : grainSize < 2 ^ 32

namespace CowdHeader
open Cowd

def parse (data : List UInt8) : Except VmdkError CowdHeader := do
  let _ ← ensure (32 ≤ data.length) .fileTooSmall
  let _ ← ensure (beNat (slice data 0 4) = magic) .badMagic
  let version := leNat (slice data 4 4)
  let _ ← ensure (version = 1) (.unsupportedVersion version)
  let grainSize := leNat (slice data 16 4)
  let hpos ← ensure (0 < grainSize) (.fieldOutOfRange "grain_size" grainSize "must be > 0")
  return {
    capacity := leNat (slice data 12 4)
    grainSize
    grainSize_pos := hpos.down
    capacity_lt := leNat_slice_lt 4 12 data
    grainSize_lt := leNat_slice_lt 4 16 data }

theorem parse_ok {data : List UInt8} {hdr : CowdHeader} (h : parse data = .ok hdr) :
    hdr.capacity = leNat (slice data 12 4) ∧ hdr.grainSize = leNat (slice data 16 4) := by
  unfold parse at h
  simp only [bind_eq_ok] at h
  obtain ⟨_, _, _, _, _, _, _, _, h⟩ := h
  cases h
  exact ⟨rfl, rfl⟩

end CowdHeader

/-- `cowd::open_cowd`. The sizes are products of `u32` values, so the plain multiplications cannot
overflow a `u64`. -/
def openCowd (file : Source) : Except VmdkError GrainGeometry := do
  let hdrBytes ← fromIo (file.readExactAt 0 512)
  let hdr ← CowdHeader.parse hdrBytes
  let _ ← ensure (hdr.grainSize * sectorSize < u64Size) (.geometryOverflow "grain_size")
  let numGrains := divCeil hdr.capacity hdr.grainSize
  let numGts := divCeil numGrains Cowd.gtesPerGt
  let buf ← fromIo (file.readExactAt (Cowd.gdSector * sectorSize) (numGts * 4))
  return {
    grainDir := leTable 4 buf
    grainSizeBytes := hdr.grainSize * sectorSize
    numGtesPerGt := Cowd.gtesPerGt
    grainSizeBytes_pos := Nat.mul_pos hdr.grainSize_pos (by decide)
    numGtesPerGt_pos := by decide
    grainDir_lt := directory_lt buf }

/-! ## seSparse -/

namespace SeSparse

def constMagic : Nat := 0xCAFEBABE
def version : Nat := 0x0000000200000001
def grainSectors : Nat := 8
def gtSectors : Nat := 64
def gtesPerGt : Nat := 4096
/-- `entry & SE_GD_ALLOC_MASK`, without its low 32 zero bits. -/
def gdAllocField (entry : Nat) : Nat := entry / 2 ^ 32
def gdAllocFlag : Nat := 0x10000000
/-- `entry & SE_GD_INDEX_MASK`. -/
def gdIndex (entry : Nat) : Nat := entry % 2 ^ 32
/-- `gte & SE_GTE_TYPE_MASK`, without its low 60 zero bits. -/
def gteType (gte : Nat) : Nat := gte / 2 ^ 60
def gteTypeUnmapped : Nat := 1
def gteTypeZero : Nat := 2
def gteTypeAllocated : Nat := 3

/-- `se_gte_grain_index`: bits 48 to 59 are the low 12 bits of the index, bits 0 to 47 the rest. -/
def gteGrainIndex (gte : Nat) : Nat := gte / 2 ^ 48 % 2 ^ 12 + gte % 2 ^ 48 * 2 ^ 12

def maxGd : Nat := 16 * 1024 * 1024

theorem eight_sectors : 8 = grainSectors := rfl

end SeSparse

structure SeConstHeader where
  capacity : Nat
  grainSize : Nat
  gdOffset : Nat
  gtOffset : Nat
  grainsOffset : Nat
  grainSize_eq : grainSize = SeSparse.grainSectors

namespace SeConstHeader
open SeSparse

def parse (data : List UInt8) : Except VmdkError SeConstHeader := do
  let _ ← ensure (208 ≤ data.length) .fileTooSmall
  let _ ← ensure (leNat (slice data 0 8) = constMagic) .badMagic
  let ver := leNat (slice data 8 8)
  let _ ← ensure (ver = SeSparse.version) (.unsupportedVersion (ver % 2 ^ 32))
  let grainSize := leNat (slice data 24 8)
  let hgs ← ensure (grainSize = grainSectors)
    (.fieldOutOfRange "grain_size" grainSize
      "must equal the seSparse fixed grain size (8 sectors)")
  let grainTableSize := leNat (slice data 32 8)
  let _ ← ensure (grainTableSize = gtSectors)
    (.fieldOutOfRange "grain_table_size" grainTableSize
      "must equal the seSparse fixed grain-table size")
  return {
    capacity := leNat (slice data 16 8)
    grainSize
    gdOffset := leNat (slice data 128 8)
    gtOffset := leNat (slice data 144 8)
    grainsOffset := leNat (slice data 192 8)
    grainSize_eq := hgs.down }

/-- The offsets of an accepted header are the numbers at their places. -/
structure ReadFrom (hdr : SeConstHeader) (data : List UInt8) : Prop where
  capacity : hdr.capacity = leNat (slice data 16 8)
  gdOffset : hdr.gdOffset = leNat (slice data 128 8)
  gtOffset : hdr.gtOffset = leNat (slice data 144 8)
  grainsOffset : hdr.grainsOffset = leNat (slice data 192 8)

theorem parse_ok {data : List UInt8} {hdr : SeConstHeader} (h : parse data = .ok hdr) :
    ReadFrom hdr data := by
  unfold parse at h
  simp only [bind_eq_ok] at h
  obtain ⟨_, _, _, _, _, _, _, _, _, _, h⟩ := h
  cases h
  exact ⟨rfl, rfl, rfl, rfl⟩

end SeConstHeader

/-- The index of a seSparse extent; the directory holds its raw 8-byte entries. -/
structure SeSparseFormat where
  grainDir : List Nat
  grainSizeBytes : Nat
  gtOffsetSectors : Nat
  grainsOffsetSectors : Nat
  grainSizeBytes_pos : 0 < grainSizeBytes

/-- `sesparse::open_sesparse`. `num_gts` is at most `2 ^ 49`, so `num_gts * 8` cannot overflow; the
directory offset can, and wraps. -/
def openSesparse (file : Source) : Except VmdkError SeSparseFormat := do
  let hdrBytes ← fromIo (file.readExactAt 0 512)
  let hdr ← SeConstHeader.parse hdrBytes
  let numGrains := divCeil hdr.capacity hdr.grainSize
  let numGts := max (divCeil numGrains SeSparse.gtesPerGt) 1
  let gdBytes := numGts * 8
  let _ ← ensure (gdBytes ≤ SeSparse.maxGd)
    (.fieldOutOfRange "grain_directory" gdBytes "exceeds the 16 MiB cap")
  let gdOffsetBytes := wrapMul hdr.gdOffset sectorSize
  let buf ← fromIo (file.readExactAt gdOffsetBytes gdBytes)
  return {
    grainDir := leTable 8 buf
    grainSizeBytes := hdr.grainSize * sectorSize
    gtOffsetSectors := hdr.gtOffset
    grainsOffsetSectors := hdr.grainsOffset
    grainSizeBytes_pos := by rw [hdr.grainSize_eq]; decide }

/-- The VMDK4 magic number is not that of another format. -/
theorem magic_ne {data : List UInt8} (h : leNat (slice data 0 4) = Header.magic) :
    beNat (slice data 0 4) ≠ Cowd.magic ∧ leNat (slice data 0 8) ≠ SeSparse.constMagic := by
  have hlen : 4 ≤ data.length := by
    by_contra hshort
    have hlt := leNat_lt (slice data 0 4)
    rw [h, length_slice] at hlt
    have hpow : 256 ^ min 4 (data.length - 0) ≤ 256 ^ 3 := Nat.pow_le_pow_right (by decide) (by omega)
    unfold Header.magic at hlt
    omega
  match data, hlen with
  | a :: b :: c :: d :: rest, _ =>
    have := a.toNat_lt
    have := b.toNat_lt
    have := c.toNat_lt
    have := d.toNat_lt
    simp only [slice, List.drop_zero, List.take_succ_cons, List.take_zero, leNat, beNat,
      List.reverse_cons, List.reverse_nil, List.nil_append, List.cons_append, Header.magic, Cowd.magic,
      SeSparse.constMagic] at h ⊢
    omega
  | [], h | [_], h | [_, _], h | [_, _, _], h => simp at h

/-- The seSparse magic number is not that of COWD. -/
theorem seMagic_ne {data : List UInt8} (h : leNat (slice data 0 8) = SeSparse.constMagic) :
    beNat (slice data 0 4) ≠ Cowd.magic := by
  have hlen : 4 ≤ data.length := by
    by_contra hshort
    have hlt := leNat_lt (slice data 0 8)
    rw [h, length_slice] at hlt
    have hpow : 256 ^ min 8 (data.length - 0) ≤ 256 ^ 3 := Nat.pow_le_pow_right (by decide) (by omega)
    unfold SeSparse.constMagic at hlt
    omega
  match data, hlen with
  | a :: b :: c :: d :: rest, _ =>
    have := a.toNat_lt
    have := b.toNat_lt
    have := c.toNat_lt
    have := d.toNat_lt
    simp only [slice, List.drop_zero, List.take_succ_cons, List.take_zero, leNat, beNat,
      List.reverse_cons, List.reverse_nil, List.nil_append, List.cons_append, Cowd.magic,
      SeSparse.constMagic] at h ⊢
    omega
  | [], h | [_], h | [_, _], h | [_, _, _], h => simp at h

/-- An accepted header has its magic number. -/
theorem SparseExtentHeader.parse_magic {data : List UInt8} {hdr : SparseExtentHeader}
    (h : SparseExtentHeader.parse data = .ok hdr) : leNat (slice data 0 4) = Header.magic := by
  unfold SparseExtentHeader.parse at h
  simp only [bind_eq_ok] at h
  obtain ⟨_, _, hmagic, _, _⟩ := h
  exact hmagic.down
