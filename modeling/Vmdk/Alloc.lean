import Vmdk.Read

/-! # Which grains are allocated

`isAllocated` looks up the entry of one sector in the file; it does not go
through the cache, nor through the redundant directory. `iterAllocatedGrains`
scans every grain table, and in recovery mode takes tables and entries from the
redundant directory where the primary ones are lost. -/

open Bytes Word

/-- A contiguous range of allocated sectors. -/
structure AllocatedGrain where
  startLba : Nat
  sectorCount : Nat
deriving DecidableEq, Repr

namespace Image

/-- Whether the 512-byte sector at `lba` is allocated; beyond the disk no sector is. -/
def isAllocated (im : Image) (lba : Nat) : Except IoError Bool :=
  if im.virtualDiskSize / sectorSize ≤ lba then .ok false else
  let virtualOffset := lba * sectorSize
  match im.fmt with
  | .flat _ => .ok true
  | .sparse inner geom =>
    let grainIdx := virtualOffset / geom.grainSizeBytes
    let gdIdx := grainIdx / geom.numGtesPerGt
    let gteIdx := grainIdx % geom.numGtesPerGt
    let gtSector := geom.grainDir.getD gdIdx 0
    if gtSector = 0 then .ok false
    else (inner.readExactAt (gtSector * sectorSize + gteIdx * 4) 4).map fun b => leNat b > 1
  | .seSparse inner geom =>
    let grainIdx := virtualOffset / geom.grainSizeBytes
    let gdIdx := grainIdx / SeSparse.gtesPerGt
    let gteIdx := grainIdx % SeSparse.gtesPerGt
    let gdEntry := geom.grainDir.getD gdIdx 0
    (seReadGte inner gdEntry geom.gtOffsetSectors gteIdx).map fun entry =>
      entry.any fun gte => SeSparse.gteType gte == SeSparse.gteTypeAllocated

/-- The allocated grain of index `grainIdx`, if the disk reaches it. -/
def allocatedGrain (im : Image) (grainSizeBytes grainIdx : Nat) : List AllocatedGrain :=
  let grainSectors := grainSizeBytes / sectorSize
  if grainIdx * grainSectors < im.virtualDiskSize / sectorSize then
    [{ startLba := grainIdx * grainSectors, sectorCount := grainSectors }]
  else []

/-- The entry the scan uses for entry `gteIdx` of a table, and whether it is the redundant one. -/
def scanEntry (gtBytes : List UInt8) (redundantGt : Option (List UInt8)) (gteIdx : Nat) :
    Nat × Bool :=
  let gte := leNat (slice gtBytes (gteIdx * 4) 4)
  let rgte := match redundantGt with
    | some rgt => leNat (slice rgt (gteIdx * 4) 4)
    | none => 0
  if gte ≤ 1 ∧ rgte > 1 then (rgte, true) else (gte, false)

/-- One round of the scan: the allocated grains of table `gdIdx`, and how many were recovered. -/
def scanTable (im : Image) (fallback : Bool) (inner : Source) (geom : SparseFormat) (gdIdx : Nat) :
    Except IoError (List AllocatedGrain × Nat) := do
  let gtSector ← im.gtSectorFor fallback inner geom gdIdx
  let redundantGt ← im.redundantGtFor fallback inner gdIdx geom.numGtesPerGt
  if gtSector = 0 then return ([], 0)
  let gtBytes ← inner.readExactAt (gtSector * sectorSize) (geom.numGtesPerGt * 4)
  let pointerRecovered := fallback && gtSector != geom.grainDir.getD gdIdx 0 && gtSector != 0
  let allocated := (List.range geom.numGtesPerGt).filter fun gteIdx =>
    (scanEntry gtBytes redundantGt gteIdx).1 > 1
  let recovered := allocated.countP fun gteIdx =>
    pointerRecovered || (scanEntry gtBytes redundantGt gteIdx).2
  return (allocated.flatMap fun gteIdx =>
    im.allocatedGrain geom.grainSizeBytes (gdIdx * geom.numGtesPerGt + gteIdx), recovered)

/-- One round of the scan of a seSparse extent; a malformed directory entry is skipped. -/
def scanTableSesparse (im : Image) (inner : Source) (geom : SeSparseFormat) (gdIdx : Nat) :
    Except IoError (List AllocatedGrain × Nat) :=
  let gdEntry := geom.grainDir.getD gdIdx 0
  if gdEntry = 0 then .ok ([], 0)
  else if SeSparse.gdAllocField gdEntry ≠ SeSparse.gdAllocFlag then .ok ([], 0)
  else do
    let gtSector :=
      wrapAdd geom.gtOffsetSectors (SeSparse.gdIndex gdEntry * SeSparse.gtSectors)
    let gtBytes ← inner.readExactAt (wrapMul gtSector sectorSize) (SeSparse.gtesPerGt * 8)
    let allocated := (List.range SeSparse.gtesPerGt).filter fun gteIdx =>
      SeSparse.gteType (leNat (slice gtBytes (gteIdx * 8) 8)) == SeSparse.gteTypeAllocated
    return (allocated.flatMap fun gteIdx =>
      im.allocatedGrain geom.grainSizeBytes (gdIdx * SeSparse.gtesPerGt + gteIdx), 0)

/-- The scan of the tables `gdIdx, …`: their grains in order, and how many were recovered up to
the first failure. -/
def scanTables (table : Nat → Except IoError (List AllocatedGrain × Nat)) :
    (gdIdx tables : Nat) → Except IoError (List AllocatedGrain) × Nat
  | _, 0 => (.ok [], 0)
  | gdIdx, tables + 1 =>
    match table gdIdx with
    | .error e => (.error e, 0)
    | .ok (grains, recovered) =>
      let rest := scanTables table (gdIdx + 1) tables
      (rest.1.map (grains ++ ·), recovered + rest.2)

/-- The allocated grains of an image, and how many of them were recovered. -/
def allocatedGrains (im : Image) (fallback : Bool) :
    Except IoError (List AllocatedGrain) × Nat :=
  match im.fmt with
  | .flat _ =>
    let sectorCount := im.virtualDiskSize / sectorSize
    (.ok (if sectorCount = 0 then [] else [{ startLba := 0, sectorCount }]), 0)
  | .sparse inner geom =>
    scanTables (im.scanTable fallback inner geom) 0 geom.grainDir.length
  | .seSparse inner geom =>
    scanTables (im.scanTableSesparse inner geom) 0 geom.grainDir.length

end Image

namespace VmdkReader

def iterAllocatedGrains (self : VmdkReader) :
    Except IoError (List AllocatedGrain) × VmdkReader :=
  let (grains, recovered) := self.allocatedGrains self.rgdFallback
  (grains, { self with rgdRecoveryCount := self.rgdRecoveryCount + recovered })

/-! ## The reader as a device -/

/-- The calls that only look. -/
inductive Query where
  | isAllocated (lba : Nat)
  | iterAllocatedGrains

inductive Reply where
  | allocated (r : Except IoError Bool)
  | grains (r : Except IoError (List AllocatedGrain))

/-- What a query says of an image outside recovery mode. -/
def answer (im : Image) : Query → Reply
  | .isAllocated lba => .allocated (im.isAllocated lba)
  | .iterAllocatedGrains => .grains (im.allocatedGrains false).1

/-- One call to the reader. -/
def step [ZlibDecoder] (self : VmdkReader) : Disk.Request Query → Disk.Answer Reply × VmdkReader
  | .seek f => (.sought (self.seek f).1, (self.seek f).2)
  | .read len => (.data (self.read len).1, (self.read len).2)
  | .query (.isAllocated lba) => (.answer (.allocated (self.isAllocated lba)), self)
  | .query .iterAllocatedGrains =>
    (.answer (.grains self.iterAllocatedGrains.1), self.iterAllocatedGrains.2)

/-- One call of a caller that only seeks and reads. -/
def stepIo [ZlibDecoder] (self : VmdkReader) :
    Disk.Request Empty → Disk.Answer Empty × VmdkReader
  | .seek f => (.sought (self.seek f).1, (self.seek f).2)
  | .read len => (.data (self.read len).1, (self.read len).2)

end VmdkReader
