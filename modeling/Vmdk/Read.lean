import Vmdk.Recovery
import Vmdk.Lib.Memo

/-! # Reading

A virtual offset is resolved to the place of its bytes (`GrainLookup`), and one
`read` stops at the end of the buffer, of the grain and of the disk. Resolving
may fill the cache of grain tables and may count a recovered grain; both stay
when a later step of the same call fails. Numbers that a `u64` may not hold
arise in seSparse addresses only, which wrap. -/

open Bytes Word

/-- Where the bytes for a virtual offset live. -/
inductive GrainLookup where
  | sparse
  | fileOffset (off : Nat)
  | compressed (dataOffset dataSize offsetInGrain : Nat)
deriving DecidableEq, Repr

/-- `flate2`'s zlib decoder: what `ZlibDecoder::new(compressed).take(limit).read_to_end` returns. -/
class ZlibDecoder where
  readToEnd : (compressed : List UInt8) → (limit : Nat) → Except IoError (List UInt8)
  length_le : ∀ {compressed limit out}, readToEnd compressed limit = .ok out → out.length ≤ limit

namespace GrainLookup

/-- The place of byte `offsetInGrain` of the uncompressed or compressed grain at entry `gte`. -/
def ofEntry (inner : Source) (geom : SparseFormat) (gte offsetInGrain : Nat) :
    Except IoError GrainLookup :=
  if geom.compressed then do
    let markerOffset := gte * sectorSize
    let markerHdr ← inner.readExactAt markerOffset 12
    let dataSize := leNat (slice markerHdr 8 4)
    let maxData := satAdd geom.grainSizeBytes 65536
    let _ ← ensure (dataSize ≤ maxData)
      (invalidData ("compressed grain data_size " ++ toString dataSize ++ " exceeds limit "
        ++ toString maxData ++ ": likely a crafted or corrupt VMDK"))
    return .compressed (markerOffset + 12) dataSize offsetInGrain
  else .ok (.fileOffset (gte * sectorSize + offsetInGrain))

/-- The decoded grain of a payload; it is at most one grain long. -/
def decodeGrain [ZlibDecoder] (inner : Source) (grainSizeBytes dataOffset dataSize : Nat) :
    Except IoError (List UInt8) := do
  let compressed ← inner.readExactAt dataOffset dataSize
  let grainData ← ZlibDecoder.readToEnd compressed (grainSizeBytes + 1)
  let _ ← ensure (grainData.length ≤ grainSizeBytes)
    (invalidData
      "compressed grain decompresses beyond its grain size (possible decompression bomb)")
  return grainData

/-- `read_compressed_grain`: the part of the decoded grain that is asked for. -/
def readCompressedGrain [ZlibDecoder] (inner : Source) (grainSizeBytes len : Nat)
    (dataOffset dataSize offsetInGrain : Nat) : Except IoError (List UInt8) :=
  (decodeGrain inner grainSizeBytes dataOffset dataSize).map (slice · offsetInGrain len)

/-- The bytes at a place; `len` does not reach past the grain. -/
def fetch [ZlibDecoder] (inner : Source) (grainSizeBytes len : Nat) :
    GrainLookup → Except IoError (List UInt8)
  | .sparse => .ok (List.replicate len 0)
  | .fileOffset off => inner.readAt off len
  | .compressed dataOffset dataSize offsetInGrain =>
    readCompressedGrain inner grainSizeBytes len dataOffset dataSize offsetInGrain

end GrainLookup

/-- A whole grain table. -/
def readGt (inner : Source) (numGtesPerGt gtSector : Nat) : Except IoError (List Nat) :=
  (inner.readExactAt (gtSector * sectorSize) (numGtesPerGt * 4)).map (leTable 4)

namespace Image

/-- Content-level recovery: a sparse entry whose redundant copy is not sparse is replaced by it.
The flag says whether the result comes from the redundant directory. -/
def recoverEntry (im : Image) (fallback : Bool) (inner : Source) (geom : SparseFormat)
    (gdIdx gteIdx gte : Nat) (fromRgd : Bool) : Except IoError (Nat × Bool) :=
  if fallback && gte ≤ 1 then do
    let rgdGte ← im.rgdGte inner gdIdx gteIdx geom.numGtesPerGt
    return if rgdGte > 1 then (rgdGte, true) else (gte, fromRgd)
  else .ok (gte, fromRgd)

/-- The part of `grain_location` after the grain table `gt` at `gtSector` is at hand: the place of
the bytes, and whether the grain counts as recovered. -/
def locateIn (im : Image) (fallback : Bool) (inner : Source) (geom : SparseFormat)
    (virtualOffset gtSector : Nat) (gt : List Nat) : Except IoError GrainLookup × Bool :=
  let grainIdx := virtualOffset / geom.grainSizeBytes
  let offsetInGrain := virtualOffset % geom.grainSizeBytes
  let gdIdx := grainIdx / geom.numGtesPerGt
  let gteIdx := grainIdx % geom.numGtesPerGt
  -- the table itself is recovered when the fallback swapped in another pointer
  let fromRgd := fallback && gtSector != geom.grainDir.getD gdIdx 0 && gtSector != 0
  match im.recoverEntry fallback inner geom gdIdx gteIdx (gt.getD gteIdx 0) fromRgd with
  | .error e => (.error e, false)
  | .ok (gte, fromRgd) =>
    if gte ≤ 1 then (.ok .sparse, false)
    else (GrainLookup.ofEntry inner geom gte offsetInGrain, fromRgd)

/-- `se_read_gte`: the entry of the grain table that directory entry `gdEntry` points to. -/
def seReadGte (inner : Source) (gdEntry gtOffsetSectors gteIdx : Nat) :
    Except IoError (Option Nat) :=
  if gdEntry = 0 then .ok none
  else if SeSparse.gdAllocField gdEntry ≠ SeSparse.gdAllocFlag then
    .error (invalidData "seSparse GD entry has invalid allocated marker")
  else
    let gtSector := wrapAdd gtOffsetSectors (SeSparse.gdIndex gdEntry * SeSparse.gtSectors)
    let gtePos := wrapAdd (wrapMul gtSector sectorSize) (gteIdx * 8)
    (inner.readExactAt gtePos 8).map fun b => some (leNat b)

/-- `grain_location` of a seSparse extent. -/
def grainLocationSesparse (inner : Source) (geom : SeSparseFormat) (virtualOffset : Nat) :
    Except IoError GrainLookup := do
  let grainSectors := geom.grainSizeBytes / sectorSize
  let grainIdx := virtualOffset / geom.grainSizeBytes
  let offsetInGrain := virtualOffset % geom.grainSizeBytes
  let gdIdx := grainIdx / SeSparse.gtesPerGt
  let gteIdx := grainIdx % SeSparse.gtesPerGt
  let gdEntry := geom.grainDir.getD gdIdx 0
  match ← seReadGte inner gdEntry geom.gtOffsetSectors gteIdx with
  | none => return .sparse
  | some gte =>
    let type := SeSparse.gteType gte
    if gte = 0 then return .sparse
    else if type = SeSparse.gteTypeUnmapped ∨ type = SeSparse.gteTypeZero then return .sparse
    else if type = SeSparse.gteTypeAllocated then
      let clusterSector :=
        wrapAdd geom.grainsOffsetSectors (wrapMul (SeSparse.gteGrainIndex gte) grainSectors)
      return .fileOffset (wrapAdd (wrapMul clusterSector sectorSize) offsetInGrain)
    else .error (invalidData "seSparse grain entry has unsupported type nibble")

end Image

namespace VmdkReader

/-- `grain_location` of a VMDK4 or COWD extent. -/
def grainLocationSparse (self : VmdkReader) (inner : Source) (geom : SparseFormat)
    (virtualOffset : Nat) : Except IoError GrainLookup × VmdkReader :=
  let gdIdx := virtualOffset / geom.grainSizeBytes / geom.numGtesPerGt
  match self.gtSectorFor self.rgdFallback inner geom gdIdx with
  | .error e => (.error e, self)
  | .ok gtSector =>
    if gtSector = 0 then (.ok .sparse, self) else
    let (gt, gtCache) := Memo.fetch (readGt inner geom.numGtesPerGt) self.gtCache gtSector
    match gt with
    | .error e => (.error e, { self with gtCache })
    | .ok gt =>
      let (location, recovered) :=
        self.locateIn self.rgdFallback inner geom virtualOffset gtSector gt
      let rgdRecoveryCount := self.rgdRecoveryCount + recovered.toNat
      (location, { self with gtCache, rgdRecoveryCount })

def grainLocation (self : VmdkReader) (virtualOffset : Nat) :
    Except IoError GrainLookup × VmdkReader :=
  match self.fmt with
  | .seSparse inner geom => (Image.grainLocationSesparse inner geom virtualOffset, self)
  | .sparse inner geom => self.grainLocationSparse inner geom virtualOffset
  | .flat _ => (.ok .sparse, self)

/-- The end of `read`: the cursor moves over the bytes delivered. -/
def advance (self : VmdkReader) (r : Except IoError (List UInt8)) :
    Except IoError (List UInt8) × VmdkReader :=
  match r with
  | .ok bs => (.ok bs, { self with pos := self.pos + bs.length })
  | .error e => (.error e, self)

/-- `read` into a buffer of `len` bytes. -/
def read [ZlibDecoder] (self : VmdkReader) (len : Nat) :
    Except IoError (List UInt8) × VmdkReader :=
  if self.virtualDiskSize ≤ self.pos ∨ len = 0 then (.ok [], self) else
  let remainingVirtual := self.virtualDiskSize - self.pos
  match self.fmt with
  | .flat inner => self.advance (inner.readAt self.pos (min len remainingVirtual))
  | .sparse inner geom =>
    let remainingInGrain := geom.grainSizeBytes - self.pos % geom.grainSizeBytes
    let toRead := min (min len remainingVirtual) remainingInGrain
    let (location, self) := self.grainLocationSparse inner geom self.pos
    self.advance (location >>= GrainLookup.fetch inner geom.grainSizeBytes toRead)
  | .seSparse inner geom =>
    let remainingInGrain := geom.grainSizeBytes - self.pos % geom.grainSizeBytes
    let toRead := min (min len remainingVirtual) remainingInGrain
    let location := Image.grainLocationSesparse inner geom self.pos
    self.advance (location >>= GrainLookup.fetch inner geom.grainSizeBytes toRead)

def seek (self : VmdkReader) (f : SeekFrom) : Except IoError Nat × VmdkReader :=
  match Cursor.seek self.pos self.virtualDiskSize f with
  | .ok t => (.ok t, { self with pos := t })
  | .error e => (.error e, self)

end VmdkReader
