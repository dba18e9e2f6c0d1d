import Vmdk.Flat
import Vmdk.Header

/-! # Sparse extents laid end to end

Every extent is a binary file with its own grain directory. A chunk of a VMDK4
file is as long as its descriptor line says, a chunk of a COWD file as long as
its header says. The bits that mark compression and a directory at the end of
the file are not looked at here. -/

open Bytes Word

structure SparseChunk extends GrainGeometry where
  byteStart : Nat
  byteEnd : Nat
  file : Source

structure MultiSparseReader where
  chunks : List SparseChunk
  totalBytes : Nat

namespace MultiSparseReader

def maxGd : Nat := 16 * 1024 * 1024

/-- The chunk of a COWD file. -/
def cowdChunk (file : Source) (hdrBytes : List UInt8) (byteOffset : Nat) :
    Except IoError SparseChunk := do
  let geom ← asInvalidData (openCowd file)
  let hdr ← asInvalidData (CowdHeader.parse hdrBytes)
  let byteEnd := wrapAdd byteOffset (hdr.capacity * sectorSize)
  return { geom with byteStart := byteOffset, byteEnd, file }

/-- The grain directory of a VMDK4 file; `grain_size` is at least 8, so `num_gts * 4` cannot
overflow. -/
def vmdk4Geometry (file : Source) (hdr : SparseExtentHeader) : Except IoError GrainGeometry := do
  let _ ← ensure (hdr.grainSize * sectorSize < u64Size) (invalidData "grain_size overflow")
  let _ ← ensure (hdr.capacity + (hdr.grainSize - 1) < u64Size) (invalidData "capacity overflow")
  let numGrains := (hdr.capacity + (hdr.grainSize - 1)) / hdr.grainSize
  let _ ← ensure (numGrains + (hdr.numGtesPerGt - 1) < u64Size) (invalidData "num_gts overflow")
  let numGts := (numGrains + (hdr.numGtesPerGt - 1)) / hdr.numGtesPerGt
  let gdByteLen := numGts * 4
  let _ ← ensure (gdByteLen ≤ maxGd) (invalidData "GD too large")
  let _ ← ensure (hdr.gdOffset * sectorSize < u64Size) (invalidData "gd_offset overflow")
  let gdBytes ← file.readExactAt (hdr.gdOffset * sectorSize) gdByteLen
  return {
    grainDir := leTable 4 gdBytes
    grainSizeBytes := hdr.grainSize * sectorSize
    numGtesPerGt := hdr.numGtesPerGt
    grainSizeBytes_pos := hdr.grainBytes_pos
    numGtesPerGt_pos := hdr.numGtesPerGt_pos
    grainDir_lt := directory_lt gdBytes }

/-- The chunk of one extent file, from virtual byte `byteOffset` on. -/
def chunkOf (file : Source) (sizeSectors byteOffset : Nat) : Except IoError SparseChunk := do
  let hdrBytes ← file.readExactAt 0 512
  if beNat (slice hdrBytes 0 4) = Cowd.magic then cowdChunk file hdrBytes byteOffset
  else do
    let hdr ← asInvalidData (SparseExtentHeader.parse hdrBytes)
    let geom ← vmdk4Geometry file hdr
    let sizeBytes := wrapMul sizeSectors sectorSize
    return { geom with byteStart := byteOffset, byteEnd := wrapAdd byteOffset sizeBytes, file }

/-- The loop of `open` from virtual byte `byteOffset` on: the chunks, and where they end. -/
def openFrom (fs : FileSystem) (dir : FilePath) (byteOffset : Nat) :
    List SparseEntry → Opens IoError (List SparseChunk × Nat)
  | [] => pure ([], byteOffset)
  | entry :: rest => do
    let path ← Opens.lift (resolveExtentPath dir entry.filename)
    let file ← Opens.openFile fs (.named dir entry.filename) path
    let chunk ← Opens.lift (chunkOf file entry.sizeSectors byteOffset)
    let (chunks, total) ← openFrom fs dir chunk.byteEnd rest
    return (chunk :: chunks, total)

def «open» (fs : FileSystem) (dir : FilePath) (entries : List SparseEntry) :
    Opens IoError MultiSparseReader := do
  let (chunks, total) ← openFrom fs dir 0 entries
  return { chunks, totalBytes := total }

/-- The chunk that covers virtual byte `pos`. -/
def chunkFor (self : MultiSparseReader) (pos : Nat) : Option SparseChunk :=
  self.chunks.find? fun c => c.byteStart ≤ pos && pos < c.byteEnd

/-- The grain-table entry of a chunk for its own byte `localPos`; `none` where the directory holds
no table. -/
def entryAt (chunk : SparseChunk) (localPos : Nat) : Except IoError (Option Nat) :=
  let grainIdx := localPos / chunk.grainSizeBytes
  let gdIdx := grainIdx / chunk.numGtesPerGt
  let gteLocalIdx := grainIdx % chunk.numGtesPerGt
  let gtSector := chunk.grainDir.getD gdIdx 0
  if gtSector = 0 then .ok none
  else (chunk.file.readExactAt (gtSector * sectorSize + gteLocalIdx * 4) 4).map
    fun gteBytes => some (leNat gteBytes)

/-- One `read` of `len` bytes at `pos`. -/
def readHere (self : MultiSparseReader) (pos len : Nat) : Except IoError (List UInt8) :=
  if self.totalBytes ≤ pos ∨ len = 0 then .ok [] else
  match self.chunkFor pos with
  | none => .error ⟨.invalidInput, "position out of virtual range"⟩
  | some chunk => do
    let localPos := pos - chunk.byteStart
    let remainingInGrain := chunk.grainSizeBytes - localPos % chunk.grainSizeBytes
    let toRead := min (min (min len (self.totalBytes - pos)) remainingInGrain) (chunk.byteEnd - pos)
    let offsetInGrain := localPos % chunk.grainSizeBytes
    match ← entryAt chunk localPos with
    | none => return List.replicate toRead 0
    | some gte =>
      if gte ≤ 1 then return List.replicate toRead 0
      else chunk.file.readAt (gte * sectorSize + offsetInGrain) toRead

def readAt (self : MultiSparseReader) (pos len : Nat) : Except IoError (List UInt8) := do
  let pos ← Cursor.seek 0 self.totalBytes (.start (UInt64.ofNat pos))
  self.readHere pos len

end MultiSparseReader
