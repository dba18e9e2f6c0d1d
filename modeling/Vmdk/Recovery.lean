import Vmdk.Reader

/-! # Resolving through the redundant grain directory

With the fallback off none of these is called. A redundant entry or table that
would lie outside the file counts as absent. -/

open Bytes Word

namespace Image

/-- `usable`: the sector can hold a whole grain table. -/
def usable (numGtesPerGt fileLen sector : Nat) : Bool :=
  sector != 0 && satAdd (satMul sector sectorSize) (numGtesPerGt * 4) ≤ fileLen

/-- Entry `gdIdx` of the redundant directory, 0 where it is absent. -/
def rgdDirEntry (im : Image) (inner : Source) (gdIdx fileLen : Nat) : Except IoError Nat :=
  if im.rgdOffset = 0 ∨ im.rgdOffset = Header.gdAtEnd then .ok 0
  else if im.gdEntryCount ≤ gdIdx then .ok 0
  else
    let entryByte := satAdd (satMul im.rgdOffset sectorSize) (gdIdx * 4)
    if fileLen < satAdd entryByte 4 then .ok 0
    else (inner.readExactAt entryByte 4).map leNat

/-- The sector of grain table `gdIdx`: the primary one where it is usable, else the redundant one
where that is, else the primary one as it stands. -/
def resilientGtSector (im : Image) (inner : Source) (gdIdx primary numGtesPerGt : Nat) :
    Except IoError Nat := do
  let fileLen ← inner.seekEnd 0
  if usable numGtesPerGt fileLen primary then return primary
  let rgd ← im.rgdDirEntry inner gdIdx fileLen
  if usable numGtesPerGt fileLen rgd then return rgd
  return primary

/-- The whole redundant grain table of entry `gdIdx`. -/
def readRedundantGt (im : Image) (inner : Source) (gdIdx numGtesPerGt : Nat) :
    Except IoError (Option (List UInt8)) := do
  let fileLen ← inner.seekEnd 0
  let sector ← im.rgdDirEntry inner gdIdx fileLen
  if sector = 0 then return none
  let gtByte := sector * sectorSize
  let gtByteLen := numGtesPerGt * 4
  if fileLen < satAdd gtByte gtByteLen then return none
  let b ← inner.readExactAt gtByte gtByteLen
  return some b

/-- Entry `gteIdx` of the redundant grain table of entry `gdIdx`, 0 where it is absent. -/
def rgdGte (im : Image) (inner : Source) (gdIdx gteIdx numGtesPerGt : Nat) :
    Except IoError Nat := do
  let fileLen ← inner.seekEnd 0
  let rgdGtSector ← im.rgdDirEntry inner gdIdx fileLen
  if rgdGtSector = 0 then return 0
  let gtByte := rgdGtSector * sectorSize
  let gtByteLen := numGtesPerGt * 4
  if fileLen < satAdd gtByte gtByteLen then return 0
  let entryByte := gtByte + gteIdx * 4
  if fileLen < satAdd entryByte 4 then return 0
  let b ← inner.readExactAt entryByte 4
  return leNat b

/-- The sector of the grain table a lookup or a scan goes to. -/
def gtSectorFor (im : Image) (fallback : Bool) (inner : Source) (geom : SparseFormat)
    (gdIdx : Nat) : Except IoError Nat :=
  let primary := geom.grainDir.getD gdIdx 0
  if fallback then im.resilientGtSector inner gdIdx primary geom.numGtesPerGt else .ok primary

/-- The redundant grain table a scan takes lost entries from; none outside recovery mode. -/
def redundantGtFor (im : Image) (fallback : Bool) (inner : Source) (gdIdx numGtesPerGt : Nat) :
    Except IoError (Option (List UInt8)) :=
  if fallback then im.readRedundantGt inner gdIdx numGtesPerGt else .ok none

end Image

namespace VmdkReader

def enableRgdFallback (self : VmdkReader) : VmdkReader := { self with rgdFallback := true }

end VmdkReader
