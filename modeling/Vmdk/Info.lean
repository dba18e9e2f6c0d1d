import Vmdk.Reader
import Vmdk.Lib.Number

/-! # What a reader says of its image

`info()` is a snapshot of the header and the descriptor. `change_track_path()`
and `effective_content_id()` read the descriptor's text. -/

open Bytes Text Word

/-- The value of the first `changeTrackPath` line that has one. -/
def changeTrackPathIn (text : Text) : Option Text :=
  (lines text).findSome? fun line =>
    (stripPrefix "changeTrackPath".toList (trim line)).bind fun rest =>
      let v := trimMatches '"' (trim ((trimStart rest).dropWhile (· == '=')))
      if v.isEmpty then none else some v

/-- The identifier that stands for the long one. -/
def longCid : Nat := 0xfffffffe

structure VmdkInfo where
  diskType : Text
  version : Nat
  cid : Nat
  parentCid : Nat
  grainSizeSectors : Nat
  grainSizeBytes : Nat
  virtualDiskSize : Nat
  sectorCount : Nat
  compressed : Bool
  descriptorText : Text
  diskDatabase : DiskDatabase
deriving DecidableEq, Repr

namespace FormatState

def infoCompressed : FormatState → Bool
  | .sparse _ geom => geom.compressed
  | .seSparse _ _ => false
  | .flat _ => false

end FormatState

namespace Image

def sectorCount (im : Image) : Nat := im.virtualDiskSize / sectorSize

def changeTrackPath (im : Image) : Option Text := changeTrackPathIn im.descriptorText

/-- The long identifier where the short one stands for it, and the short one in hexadecimal. -/
def effectiveContentId (im : Image) : Text :=
  if im.cid = longCid then im.diskDatabase.longContentId.getD (padded 16 8 im.cid)
  else padded 16 8 im.cid

def info (im : Image) : VmdkInfo where
  diskType := im.diskType
  version := im.version
  cid := im.cid
  parentCid := im.parentCid
  grainSizeSectors := im.fmt.infoGrainSizeBytes / sectorSize
  grainSizeBytes := im.fmt.infoGrainSizeBytes
  virtualDiskSize := im.virtualDiskSize
  sectorCount := im.sectorCount
  compressed := im.fmt.infoCompressed
  descriptorText := im.descriptorText
  diskDatabase := DiskDatabase.parse im.descriptorText

end Image
