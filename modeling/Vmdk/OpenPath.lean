import Vmdk.Alloc

/-! # Opening by path

The first byte tells a text descriptor from a binary extent. A descriptor is
routed by its `createType`; every branch but `seSparse` builds the reader from
the descriptor's metadata. `extractParentFileName` and `VmdkChainReader.open`
follow the parent hints from a delta down to its base image. -/

open Word

namespace VmdkReader

/-- `path.parent().unwrap_or(FilePath::new("."))`. -/
def directoryOf (path : FilePath) : FilePath := (FilePath.parent path).getD ['.']

/-- Flat and device-passthrough formats. -/
def flatCreateTypes : List Text :=
  ["vmfs", "vmfsPreallocated", "vmfsEagerZeroedThick", "vmfsRDM", "vmfsRaw", "vmfsRawDeviceMap",
    "vmfsPassthroughRawDeviceMap", "fullDevice", "partitionedDevice", "twoGbMaxExtentFlat",
    "monolithicFlat"].map String.toList

/-- Formats of VMDK4 or COWD extents. -/
def sparseCreateTypes : List Text :=
  ["vmfsSparse", "vmfsThin", "twoGbMaxExtentSparse"].map String.toList

/-- The image of a descriptor whose extents `inner` reads. -/
def descriptorImage (desc : TextDescriptor) (inner : ExtentReader) (virtualDiskSize : Nat) :
    Image where
  fmt := .flat inner
  virtualDiskSize := virtualDiskSize
  diskType := desc.createType
  version := 0
  cid := desc.cid
  parentCid := desc.parentCid
  descriptorText := desc.rawText
  rgdOffset := 0
  gdEntryCount := 0

def openFlatExtents (fs : FileSystem) (dir : FilePath) (desc : TextDescriptor) :
    Opens VmdkError VmdkReader := do
  let multi ← (MultiExtentReader.open fs dir desc.extents).mapError .io
  let _ ← Opens.lift
    (ensure (desc.capacitySectors * sectorSize < u64Size) (.geometryOverflow "capacity"))
  return (descriptorImage desc (.multiExtent multi) (desc.capacitySectors * sectorSize)).reader

def openSparseExtents (fs : FileSystem) (dir : FilePath) (desc : TextDescriptor) :
    Opens VmdkError VmdkReader := do
  let multi ← (MultiSparseReader.open fs dir desc.sparseExtents).mapError .io
  let _ ← Opens.lift
    (ensure (desc.sparseCapacitySectors * sectorSize < u64Size) (.geometryOverflow "capacity"))
  return (descriptorImage desc (.multiSparse multi)
    (desc.sparseCapacitySectors * sectorSize)).reader

/-- The `seSparse` branch: the first sparse extent alone, by its plain joined name, with the
metadata of that file. -/
def openSesparseDescriptor (fs : FileSystem) (dir : FilePath) (desc : TextDescriptor) :
    Opens VmdkError VmdkReader :=
  match desc.sparseExtents.head? with
  | none =>
    Opens.lift (.error (.malformedDescriptor "seSparse createType without a SESPARSE extent"))
  | some entry => do
    let file ← (Opens.openFile fs (.named dir entry.filename)
      (FilePath.join dir entry.filename)).mapError .io
    Opens.lift (VmdkReader.open file)

/-- The `custom` branch: flat extents or sparse extents, not both. -/
def openCustom (fs : FileSystem) (dir : FilePath) (desc : TextDescriptor) :
    Opens VmdkError VmdkReader :=
  if desc.extents ≠ [] ∧ desc.sparseExtents ≠ [] then
    Opens.lift (.error (.malformedDescriptor
      "custom createType mixes flat and sparse extents, which is not supported"))
  else if desc.extents ≠ [] then openFlatExtents fs dir desc
  else if desc.sparseExtents ≠ [] then openSparseExtents fs dir desc
  else Opens.lift (.error (.malformedDescriptor "custom createType without recognised extents"))

/-- The reader a parsed descriptor in directory `dir` asks for. -/
def openDescriptor (fs : FileSystem) (dir : FilePath) (desc : TextDescriptor) :
    Opens VmdkError VmdkReader :=
  if desc.createType ∈ flatCreateTypes then openFlatExtents fs dir desc
  else if desc.createType ∈ sparseCreateTypes then openSparseExtents fs dir desc
  else if desc.createType = "seSparse".toList then openSesparseDescriptor fs dir desc
  else if desc.createType = "custom".toList then openCustom fs dir desc
  else Opens.lift (.error (.unsupportedDiskType desc.createType))

/-- Open any image from a path; `origin` is where the path comes from. -/
def openPath (fs : FileSystem) (origin : Origin) (path : FilePath) : Opens VmdkError VmdkReader := do
  let peek ← (Opens.openFile fs origin path).mapError .io
  let firstByte ← Opens.lift (fromIo (peek.readExactAt 0 1))
  let file ← (Opens.openFile fs origin path).mapError .io
  if firstByte = [35] then do
    let desc ← Opens.lift (parseTextDescriptor (decodeDescriptor file.bytes))
    openDescriptor fs (directoryOf path) desc
  else Opens.lift (VmdkReader.open file)

end VmdkReader
