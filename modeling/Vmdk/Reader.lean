import Vmdk.SparseMulti

/-! # The reader and how it is opened

An `Image` is what opening a file fixes; a `VmdkReader` adds what reading
changes: the cursor, the cache of grain tables and the recovery counter. A
format carries the reader of its bytes. Every access of the inner reader seeks
first, so the inner cursor is no part of the state. -/

open Bytes Word

/-- The index of a VMDK4 or COWD extent. -/
structure SparseFormat extends GrainGeometry where
  compressed : Bool

/-- The reader behind a text descriptor. -/
inductive ExtentReader where
  | multiExtent (r : MultiExtentReader)
  | multiSparse (r : MultiSparseReader)

namespace ExtentReader

def readAt : ExtentReader → (pos len : Nat) → Except IoError (List UInt8)
  | .multiExtent r, pos, len => r.readAt pos len
  | .multiSparse r, pos, len => r.readAt pos len

end ExtentReader

inductive FormatState where
  | sparse (inner : Source) (geom : SparseFormat)
  | seSparse (inner : Source) (geom : SeSparseFormat)
  | flat (inner : ExtentReader)

namespace FormatState

/-- The grain size `info()` reports. -/
def infoGrainSizeBytes : FormatState → Nat
  | .sparse _ geom => geom.grainSizeBytes
  | .seSparse _ geom => geom.grainSizeBytes
  | .flat _ => 0

end FormatState

structure Image where
  fmt : FormatState
  virtualDiskSize : Nat
  diskType : Text
  version : Nat
  cid : Nat
  parentCid : Nat
  descriptorText : Text
  /-- First sector of the redundant grain directory; 0 where there is none. -/
  rgdOffset : Nat
  gdEntryCount : Nat

structure VmdkReader extends Image where
  pos : Nat
  /-- Grain tables read so far, by their first sector. -/
  gtCache : List (Nat × List Nat)
  rgdFallback : Bool
  rgdRecoveryCount : Nat

namespace Image

/-- A reader as every constructor returns it. -/
def reader (im : Image) : VmdkReader :=
  { im with pos := 0, gtCache := [], rgdFallback := false, rgdRecoveryCount := 0 }

def diskDatabase (im : Image) : DiskDatabase := DiskDatabase.parse im.descriptorText

end Image

namespace VmdkReader

def maxDescriptorBytes : Nat := 64 * 1024

def maxGdBytes : Nat := 16 * 1024 * 1024

/-- The embedded descriptor; an absent one reads as the empty text. -/
def readDescriptor (inner : Source) (hdr : SparseExtentHeader) : Except IoError TextDescriptor :=
  if hdr.descriptorOffset = 0 ∨ hdr.descriptorSize = 0 then asInvalidData (parseTextDescriptor [])
  else do
    let _ ← ensure (hdr.descriptorOffset * sectorSize < u64Size)
      (invalidData "descriptor_offset overflow")
    let byteLen :=
      min ((checkedMul hdr.descriptorSize sectorSize).getD maxDescriptorBytes) maxDescriptorBytes
    let buf ← inner.readExactAt (hdr.descriptorOffset * sectorSize) byteLen
    asInvalidData (parseTextDescriptor (decodeDescriptor buf))

/-- The directory's sector: a header that says `gdAtEnd` defers to the footer. -/
def footerGdOffset (inner : Source) (hdr : SparseExtentHeader) : Except VmdkError Nat :=
  if hdr.gdOffset = Header.gdAtEnd then do
    let footer ← fromIo (inner.seekEnd 1024)
    let footerBytes ← fromIo (inner.readExactAt footer 512)
    let footerHdr ← SparseExtentHeader.parse footerBytes
    return footerHdr.gdOffset
  else .ok hdr.gdOffset

/-- How many grain tables a VMDK4 header asks for. -/
def numGts (hdr : SparseExtentHeader) : Nat :=
  let numGrains := (hdr.capacity + (hdr.grainSize - 1)) / hdr.grainSize
  (numGrains + (hdr.numGtesPerGt - 1)) / hdr.numGtesPerGt

/-- The index of a VMDK4 extent whose directory is `gdBytes`. -/
def vmdk4Format (hdr : SparseExtentHeader) (gdBytes : List UInt8) : SparseFormat where
  grainDir := leTable 4 gdBytes
  grainSizeBytes := hdr.grainSize * sectorSize
  numGtesPerGt := hdr.numGtesPerGt
  compressed := hdr.compressed
  grainSizeBytes_pos := hdr.grainBytes_pos
  numGtesPerGt_pos := hdr.numGtesPerGt_pos
  grainDir_lt := directory_lt gdBytes

def vmdk4Image (inner : Source) (hdr : SparseExtentHeader) (desc : TextDescriptor)
    (gdBytes : List UInt8) : Image where
  fmt := .sparse inner (vmdk4Format hdr gdBytes)
  virtualDiskSize := hdr.capacity * sectorSize
  diskType := desc.createType
  version := hdr.version
  cid := desc.cid
  parentCid := desc.parentCid
  descriptorText := desc.rawText
  rgdOffset := hdr.rgdOffset
  gdEntryCount := numGts hdr

/-- The VMDK4 part of `open`. -/
def openVmdk4 (inner : Source) (hdrBytes : List UInt8) : Except VmdkError VmdkReader := do
  let hdr ← SparseExtentHeader.parse hdrBytes
  let _ ← ensure (hdr.grainSize * sectorSize < u64Size) (.geometryOverflow "grain_size")
  let _ ← ensure (hdr.capacity * sectorSize < u64Size) (.geometryOverflow "capacity")
  let desc ← fromIo (readDescriptor inner hdr)
  let _ ← ensure (hdr.capacity + (hdr.grainSize - 1) < u64Size) (.geometryOverflow "capacity")
  let numGrains := (hdr.capacity + (hdr.grainSize - 1)) / hdr.grainSize
  let _ ← ensure (numGrains + (hdr.numGtesPerGt - 1) < u64Size) (.geometryOverflow "num_grains")
  let gdByteLen := numGts hdr * 4
  let _ ← ensure (gdByteLen < u64Size) (.geometryOverflow "gd_byte_len")
  let _ ← ensure (gdByteLen ≤ maxGdBytes)
    (.fieldOutOfRange "grain_directory" gdByteLen "exceeds the 16 MiB cap")
  let gdOffset ← footerGdOffset inner hdr
  let _ ← ensure (gdOffset * sectorSize < u64Size) (.geometryOverflow "gd_offset")
  let gdBytes ← fromIo (inner.readExactAt (gdOffset * sectorSize) gdByteLen)
  return (vmdk4Image inner hdr desc gdBytes).reader

/-- `open_sesparse`. -/
def openSesparseExtent (inner : Source) (hdrBytes : List UInt8) : Except VmdkError VmdkReader := do
  let geom ← openSesparse inner
  let seHdr ← SeConstHeader.parse hdrBytes
  let _ ← ensure (seHdr.capacity * sectorSize < u64Size) (.geometryOverflow "capacity")
  let im : Image := {
    fmt := .seSparse inner { geom with gtOffsetSectors := seHdr.gtOffset }
    virtualDiskSize := seHdr.capacity * sectorSize
    diskType := "seSparse".toList
    version := 0
    cid := noCid
    parentCid := noCid
    descriptorText := []
    rgdOffset := 0
    gdEntryCount := 0 }
  return im.reader

/-- `open_cowd`. -/
def openCowdExtent (inner : Source) (hdrBytes : List UInt8) : Except VmdkError VmdkReader := do
  let geom ← openCowd inner
  let cowdHdr ← CowdHeader.parse hdrBytes
  let _ ← ensure (cowdHdr.capacity * sectorSize < u64Size) (.geometryOverflow "capacity")
  let im : Image := {
    fmt := .sparse inner { geom with compressed := false }
    virtualDiskSize := cowdHdr.capacity * sectorSize
    diskType := "vmfsSparse".toList
    version := 1
    cid := noCid
    parentCid := noCid
    descriptorText := []
    rgdOffset := 0
    gdEntryCount := 0 }
  return im.reader

/-- Open a binary extent; its magic selects the format. -/
def «open» (inner : Source) : Except VmdkError VmdkReader := do
  let hdrBytes ← fromIo (inner.readExactAt 0 512)
  if beNat (slice hdrBytes 0 4) = Cowd.magic then openCowdExtent inner hdrBytes
  else if leNat (slice hdrBytes 0 8) = SeSparse.constMagic then openSesparseExtent inner hdrBytes
  else openVmdk4 inner hdrBytes

end VmdkReader
