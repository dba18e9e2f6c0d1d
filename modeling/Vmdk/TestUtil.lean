import Vmdk.SnapshotChain

/-! # The builders of `testutil.rs`

The files with which the crate and its dependants test the reader. The sparse
ones are written disks of one allocated grain (`TestUtil.file_disk`), so what
holds of every written disk holds of them, for every payload. -/

open Bytes Text Word

namespace TestUtil

def descriptorOffset : Nat := 1
def descriptorSectors : Nat := 20
def gdSector : Nat := descriptorOffset + descriptorSectors
def rgdSector : Nat := gdSector + 1
def gtSector : Nat := rgdSector + 1
def gtSectors : Nat := 4
def grainSector : Nat := gtSector + gtSectors
def grainSizeSectors : Nat := 8
def grainSizeBytes : Nat := grainSizeSectors * sectorSize
def numGtesPerGt : Nat := 512

/-- `sector_data`, padded with zeros or cut to a grain. -/
def grain (sectorData : List UInt8) : List UInt8 :=
  padTo grainSizeBytes (sectorData.take grainSizeBytes)

/-- The header sector, for a disk of `capacity` sectors. -/
def sparseHeader (capacity : Nat) : List UInt8 :=
  record [(4, Header.magic), (4, Header.version), (4, 0), (8, capacity), (8, grainSizeSectors),
    (8, descriptorOffset), (8, descriptorSectors), (4, numGtesPerGt), (8, rgdSector), (8, gdSector),
    (8, grainSector), (1, 0), (1, 10), (1, 32), (1, 13), (1, 10), (2, 0), (433, 0)]

/-- What the sparse builders have in common: one grain, stored for the last of the entries. -/
def sparseVmdk (capacity : Nat) (gtes : List Nat) (descriptorText sectorData : List UInt8) :
    List UInt8 :=
  let desc := padTo (descriptorSectors * sectorSize)
    (descriptorText.take (descriptorSectors * sectorSize))
  let gd := padTo sectorSize (record [(4, gtSector)])
  let gt := padTo (gtSectors * sectorSize) (record (gtes.map fun e => (4, e)))
  sparseHeader capacity ++ (desc ++ (gd ++ (gd ++ (gt ++ grain sectorData))))

/-- The descriptor of a disk that has no parent. -/
def plainText : Text :=
  "# Disk DescriptorFile\nversion=1\nCID=fffffffe\nparentCID=ffffffff\ncreateType=\"monolithicSparse\"\n".toList

/-- `test_sparse_vmdk`. -/
def testSparseVmdk (sectorData : List UInt8) : List UInt8 :=
  sparseVmdk grainSizeSectors [grainSector] (utf8Encode plainText) sectorData

/-- `test_sparse_vmdk_sparse_then_allocated`. -/
def testSparseVmdkSparseThenAllocated (grain1Data : List UInt8) : List UInt8 :=
  sparseVmdk (2 * grainSizeSectors) [0, grainSector] (utf8Encode plainText) grain1Data

/-- `test_sparse_vmdk_with_descriptor`. -/
def testSparseVmdkWithDescriptor (sectorData : List UInt8) (descriptorText : Text) : List UInt8 :=
  sparseVmdk grainSizeSectors [grainSector] (utf8Encode descriptorText) sectorData

/-! ## The sparse builders write disks -/

theorem length_grain (sectorData : List UInt8) : (grain sectorData).length = grainSizeBytes := by
  unfold grain
  rw [length_padTo, List.length_take]
  omega

/-- The disk of the grains `holes`, none of which is stored, and one that is. -/
def disk (holes : Nat) (descriptorText sectorData trailer : List UInt8) : SparseDisk where
  grainSectors := grainSizeSectors
  grains := List.replicate holes none ++ [some (grain sectorData)]
  descriptor := descriptorText.take (descriptorSectors * sectorSize)
  deflate := none
  trailer := trailer
  grainSectors_ge := by decide
  grainSectors_le := by decide
  whole := by
    intro g hg bs hbs
    rcases List.mem_append.mp hg with hg | hg
    · rw [List.eq_of_mem_replicate hg] at hbs
      exact absurd hbs (Option.not_mem_none bs)
    · rw [List.mem_singleton.mp hg] at hbs
      cases hbs
      exact length_grain sectorData
  descriptor_le := by
    rw [List.length_take]
    exact Nat.min_le_left _ _

theorem mapIdx_holes {α β : Type} (f : Nat → Option α → β) {b : β} (hb : ∀ j, f j none = b)
    (holes : Nat) (g : Option α) : (List.replicate holes none ++ [g]).mapIdx f =
      List.replicate holes b ++ [f holes g] := by
  have hblank : ∀ i (h : i < (List.replicate holes (none : Option α)).length),
      f i (List.replicate holes none)[i] = b := by
    intro i h
    rw [List.getElem_replicate]
    exact hb i
  have hmap := List.mapIdx_eq_replicate_iff.mpr hblank
  rw [List.length_replicate] at hmap
  rw [List.mapIdx_concat, List.length_replicate, hmap]

section OneTable
variable {d : SparseDisk} (htables : d.tables = 1)
include htables

theorem grainSector_of_tables : d.grainSector = grainSector := by
  unfold SparseDisk.grainSector SparseDisk.gtSector SparseDisk.rgdSector SparseDisk.gdSectors
  rw [htables]
  rfl

/-- The file of a disk of small grains that has one table. -/
theorem file_of_tables (hgrain : d.grainSectors = grainSizeSectors) (hplain : d.deflate = none) :
    d.file = sparseHeader (d.grains.length * grainSizeSectors) ++
      (padTo (descriptorSectors * sectorSize) d.descriptor ++
        (padTo sectorSize (record [(4, gtSector)]) ++ (padTo sectorSize (record [(4, gtSector)]) ++
          (padTo (gtSectors * sectorSize) (record (d.entries.map fun e => (4, e))) ++
            (d.blobs.flatten ++ d.trailer))))) := by
  have hgd : d.directory = padTo sectorSize (record [(4, gtSector)]) := by
    unfold SparseDisk.directory SparseDisk.directoryEntries SparseDisk.gtSector SparseDisk.rgdSector
      SparseDisk.gdSectors
    rw [htables]
    rfl
  have hgt : d.tableBytes =
      padTo (gtSectors * sectorSize) (record (d.entries.map fun e => (4, e))) := by
    unfold SparseDisk.tableBytes entryTable
    rw [htables]
    rfl
  have hheader : d.header.sector grainSector =
      sparseHeader (d.grains.length * grainSizeSectors) := by
    have hversion : d.header.version = Header.version := by
      show (if d.deflate.isSome then Header.versionStreamOpt else Header.version) = _
      rw [hplain]
      rfl
    have hcompressed : d.header.compressed = false := by
      show d.deflate.isSome = false
      rw [hplain]
      rfl
    have hcapacity : d.header.capacity = d.grains.length * grainSizeSectors := by
      rw [← hgrain]
      rfl
    have hrgd : d.header.rgdOffset = rgdSector := by
      show d.rgdSector = rgdSector
      unfold SparseDisk.rgdSector SparseDisk.gdSectors
      rw [htables]
      rfl
    unfold SparseExtentHeader.sector SparseExtentHeader.sectorFields
    rw [hversion, hcompressed, hcapacity, hrgd, show d.header.grainSize = _ from hgrain]
    rfl
  unfold SparseDisk.file
  rw [grainSector_of_tables htables, hheader, hgd, hgt]
  rfl

end OneTable

section Disk
variable {holes : Nat} (hholes : holes < numGtesPerGt) (descriptorText sectorData trailer : List UInt8)
include hholes

theorem tables_disk : (disk holes descriptorText sectorData trailer).tables = 1 := by
  have hlength : (disk holes descriptorText sectorData trailer).grains.length = holes + 1 := by
    show (List.replicate holes none ++ [some (grain sectorData)]).length = holes + 1
    rw [List.length_append, List.length_replicate, List.length_singleton]
  unfold numGtesPerGt at hholes
  unfold SparseDisk.tables divCeil Header.maxNumGtesPerGt
  rw [hlength]
  split <;> omega

omit hholes in
theorem blobs_disk : (disk holes descriptorText sectorData trailer).blobs =
    List.replicate holes [] ++ [grain sectorData] :=
  mapIdx_holes _ (fun _ => rfl) holes (some (grain sectorData))

theorem entries_disk : (disk holes descriptorText sectorData trailer).entries =
    List.replicate holes 0 ++ [grainSector] := by
  have hstart : Pack.start (disk holes descriptorText sectorData trailer).blobs holes = 0 := by
    rw [blobs_disk]
    unfold Pack.start
    rw [List.take_append_of_le_length (by rw [List.length_replicate]), List.take_replicate,
      List.flatten_replicate_nil]
    rfl
  have hsector : (disk holes descriptorText sectorData trailer).blobSector holes = grainSector := by
    unfold SparseDisk.blobSector
    rw [hstart, grainSector_of_tables (tables_disk hholes descriptorText sectorData trailer)]
    rfl
  rw [← hsector]
  exact mapIdx_holes _ (fun _ => rfl) holes (some (grain sectorData))

/-- **The file of such a disk is what the builders build**, and what follows. -/
theorem file_disk : (disk holes descriptorText sectorData trailer).file =
    sparseVmdk ((holes + 1) * grainSizeSectors) (List.replicate holes 0 ++ [grainSector])
      descriptorText sectorData ++ trailer := by
  have hlength : (disk holes descriptorText sectorData trailer).grains.length = holes + 1 := by
    show (List.replicate holes none ++ [some (grain sectorData)]).length = holes + 1
    rw [List.length_append, List.length_replicate, List.length_singleton]
  rw [file_of_tables (tables_disk hholes descriptorText sectorData trailer) rfl rfl, hlength,
    entries_disk hholes, blobs_disk]
  unfold sparseVmdk
  simp only [List.flatten_append, List.flatten_replicate_nil, List.flatten_singleton,
    List.nil_append, List.append_assoc]
  rfl

end Disk

/-! ## What the sparse builders build -/

section Sound
variable [ZlibDecoder]

/-- The file is opened, is the disk of these bytes in either mode, and has nothing wrong with it. -/
structure Sound (file : Source) (bytes : List UInt8) : Prop where
  reads : ∃ r, VmdkReader.open file = .ok r ∧ r.Presents bytes ∧ r.enableRgdFallback.Presents bytes
  rgd : VmdkIntegrity.validateRgd file = .ok true
  integrity : ∃ report, VmdkIntegrity.checkIntegrity file = .ok report ∧ report.isOk = true
  findings : VmdkIntegrity.analyse file = .ok []

theorem writable_disk {holes : Nat} (hholes : holes < numGtesPerGt)
    (descriptorText sectorData trailer : List UInt8) :
    (disk holes descriptorText sectorData trailer).Writable := by
  refine SparseDisk.writable_of_plain rfl ?_ ?_
  · rw [tables_disk hholes]
    decide
  · have hend : Pack.start (disk holes descriptorText sectorData trailer).blobs
        (disk holes descriptorText sectorData trailer).grains.length = grainSizeBytes := by
      rw [← SparseDisk.length_blobs, Pack.start_length, blobs_disk, List.flatten_append,
        List.flatten_replicate_nil, List.nil_append, List.flatten_singleton, length_grain]
    unfold SparseDisk.blobSector
    rw [hend, grainSector_of_tables (tables_disk hholes descriptorText sectorData trailer)]
    decide

omit [ZlibDecoder] in
theorem content_disk (holes : Nat) (descriptorText sectorData trailer : List UInt8) :
    (disk holes descriptorText sectorData trailer).content =
      List.replicate (holes * grainSizeBytes) 0 ++ grain sectorData := by
  show ((List.replicate holes none ++ [some (grain sectorData)]).map
    fun g : Option (List UInt8) => g.getD (List.replicate grainSizeBytes 0)).flatten = _
  rw [List.map_append, List.map_replicate, List.flatten_append, Option.getD_none,
    List.flatten_replicate_replicate, List.map_singleton, List.flatten_singleton]
  rfl

/-- A file that the builders build is sound when its descriptor can be parsed. -/
theorem sound_file {holes : Nat} (hholes : holes < numGtesPerGt)
    {descriptorText sectorData : List UInt8} {file : Source}
    (hfile : file.bytes = sparseVmdk ((holes + 1) * grainSizeSectors)
      (List.replicate holes 0 ++ [grainSector]) descriptorText sectorData)
    (hparse : (parseTextDescriptor (decodeDescriptor (padTo (descriptorSectors * sectorSize)
      (descriptorText.take (descriptorSectors * sectorSize))))).isOk = true) :
    Sound file (List.replicate (holes * grainSizeBytes) 0 ++ grain sectorData) := by
  have hw := writable_disk hholes descriptorText sectorData []
  have hdisk : file.bytes = (disk holes descriptorText sectorData []).file := by
    rw [file_disk hholes, List.append_nil, hfile]
  obtain ⟨desc, hdesc⟩ := exists_of_isOk hparse
  have hopen := (SparseDisk.open_iff hw hdisk).mpr ⟨desc, hdesc, rfl⟩
  rw [← content_disk holes descriptorText sectorData []]
  exact {
    reads := ⟨_, hopen, SparseDisk.presents_file hw hdisk hopen⟩
    rgd := SparseDisk.validateRgd_file hw hdisk
    integrity := SparseDisk.checkIntegrity_file hw hdisk rfl
    findings := SparseDisk.analyse_file hw hdisk rfl }

omit [ZlibDecoder] in
theorem parses_plainText : (parseTextDescriptor (decodeDescriptor
    (padTo (descriptorSectors * sectorSize)
      ((utf8Encode plainText).take (descriptorSectors * sectorSize))))).isOk = true := by
  decide +kernel

/-- What the sparse builders build from a payload. -/
structure SparseBuilders (sectorData : List UInt8) : Prop where
  single : ∀ file : Source, file.bytes = testSparseVmdk sectorData → Sound file (grain sectorData)
  sparseThenAllocated : ∀ file : Source,
    file.bytes = testSparseVmdkSparseThenAllocated sectorData →
      Sound file (List.replicate grainSizeBytes 0 ++ grain sectorData)
  withDescriptor : ∀ (file : Source) (text : Text),
    file.bytes = testSparseVmdkWithDescriptor sectorData text →
      (parseTextDescriptor (decodeDescriptor (padTo (descriptorSectors * sectorSize)
        ((utf8Encode text).take (descriptorSectors * sectorSize))))).isOk = true →
          Sound file (grain sectorData)

/-- **The sparse builders build sound disks of their payload**, padded or cut to a grain. -/
theorem sparse_builders (sectorData : List UInt8) : SparseBuilders sectorData where
  single := fun _ hfile =>
    sound_file (show 0 < numGtesPerGt by decide) hfile parses_plainText
  sparseThenAllocated := fun _ hfile =>
    sound_file (show 1 < numGtesPerGt by decide) hfile parses_plainText
  withDescriptor := fun _ _ hfile hparse =>
    sound_file (show 0 < numGtesPerGt by decide) hfile hparse

end Sound

/-! ## A chain of two files -/

/-- `bytes[at..at + new.len()].copy_from_slice(new)`. -/
def copyFromSlice (bytes : List UInt8) (off : Nat) (new : List UInt8) : List UInt8 :=
  bytes.take off ++ (new ++ bytes.drop (off + new.length))

def baseDesc : Text :=
  "# Disk DescriptorFile\nversion=1\nCID=00000001\nparentCID=ffffffff\ncreateType=\"monolithicSparse\"\n".toList

def deltaDesc : Text :=
  "# Disk DescriptorFile\nversion=1\nCID=00000002\nparentCID=00000001\nparentFileNameHint=\"base.vmdk\"\ncreateType=\"monolithicSparse\"\n".toList

def baseBytes (baseData : List UInt8) : List UInt8 :=
  testSparseVmdkWithDescriptor baseData baseDesc

/-- The entry of the one grain is overwritten with zero. -/
def deltaBytes : List UInt8 :=
  copyFromSlice (testSparseVmdkWithDescriptor [] deltaDesc) (gtSector * sectorSize) (leBytes 4 0)

/-- `write_chain_to_dir` was called on `dir` and `baseData`: what it leaves in the directory. -/
structure WriteChainToDir (fs : FileSystem) (dir : FilePath) (baseData : List UInt8) : Prop where
  base : ∃ file, fs (FilePath.join dir "base.vmdk".toList) = .ok file ∧
    file.bytes = baseBytes baseData
  delta : ∃ file, fs (FilePath.join dir "delta.vmdk".toList) = .ok file ∧ file.bytes = deltaBytes

theorem copyFromSlice_append {pre old new : List UInt8} (h : new.length = old.length) {off : Nat}
    (hoff : pre.length = off) (rest : List UInt8) :
    copyFromSlice (pre ++ (old ++ rest)) off new = pre ++ (new ++ rest) := by
  unfold copyFromSlice
  rw [← hoff, List.take_left, ← List.drop_drop, List.drop_left, h, List.drop_left]

theorem length_sparseHeader (capacity : Nat) : (sparseHeader capacity).length = 512 := by
  unfold sparseHeader
  rw [length_record]
  simp [recordWidth]

/-- Overwriting the entry of the grain. -/
theorem copyFromSlice_gte (descriptorText sectorData : List UInt8) (e e' : Nat) :
    copyFromSlice (sparseVmdk grainSizeSectors [e] descriptorText sectorData)
      (gtSector * sectorSize) (leBytes 4 e') =
        sparseVmdk grainSizeSectors [e'] descriptorText sectorData := by
  have htable (v : Nat) : padTo (gtSectors * sectorSize) (record ([v].map fun e => (4, e))) =
      leBytes 4 v ++ List.replicate 2044 0 := by
    unfold padTo
    rw [length_record]
    show (leBytes 4 v ++ []) ++ List.replicate 2044 0 = _
    rw [List.append_nil]
  have hlength (desc gd : List UInt8) (hdesc : desc.length = 10240) (hgd : gd.length = 512) :
      (sparseHeader grainSizeSectors ++ (desc ++ (gd ++ gd))).length = gtSector * sectorSize := by
    simp only [List.length_append, length_sparseHeader, hdesc, hgd]
    rfl
  have hsplit (desc gd table data : List UInt8) :
      sparseHeader grainSizeSectors ++ (desc ++ (gd ++ (gd ++ (table ++ data)))) =
        (sparseHeader grainSizeSectors ++ (desc ++ (gd ++ gd))) ++ (table ++ data) := by
    simp only [List.append_assoc]
  unfold sparseVmdk
  simp only [hsplit, htable]
  simp only [List.append_assoc (leBytes 4 _)]
  refine copyFromSlice_append (by rw [length_leBytes, length_leBytes]) (hlength _ _ ?_ ?_) _
  · rw [length_padTo, List.length_take]
    show max (min 10240 _) 10240 = 10240
    omega
  · rw [length_padTo, length_record]
    rfl

/-- The disk of one grain that is not stored. -/
def holeDisk (descriptorText trailer : List UInt8) : SparseDisk where
  grainSectors := grainSizeSectors
  grains := [none]
  descriptor := descriptorText.take (descriptorSectors * sectorSize)
  deflate := none
  trailer := trailer
  grainSectors_ge := by decide
  grainSectors_le := by decide
  whole := by
    intro g hg bs hbs
    rw [List.mem_singleton.mp hg] at hbs
    exact absurd hbs (Option.not_mem_none bs)
  descriptor_le := by
    rw [List.length_take]
    exact Nat.min_le_left _ _

theorem tables_holeDisk (descriptorText trailer : List UInt8) :
    (holeDisk descriptorText trailer).tables = 1 := by
  show divCeil 1 Header.maxNumGtesPerGt = 1
  decide

/-- A grain that no entry points to stands behind the disk. -/
theorem file_holeDisk (descriptorText sectorData : List UInt8) :
    (holeDisk descriptorText (grain sectorData)).file =
      sparseVmdk grainSizeSectors [0] descriptorText sectorData := by
  rw [file_of_tables (tables_holeDisk descriptorText (grain sectorData)) rfl rfl]
  rfl

theorem writable_holeDisk [ZlibDecoder] (descriptorText trailer : List UInt8) :
    (holeDisk descriptorText trailer).Writable := by
  have htables := tables_holeDisk descriptorText trailer
  refine SparseDisk.writable_of_plain rfl ?_ ?_
  · rw [htables]
    decide
  · unfold SparseDisk.blobSector
    rw [grainSector_of_tables htables]
    show grainSector + 0 / sectorSize < _
    decide

def baseDoc : DescriptorDoc where
  createType := "monolithicSparse".toList
  cid := 1
  parentCid := noCid
  parentFileNameHint := none
  changeTrackPath := none
  extents := []
  ddb := []

def deltaDoc : DescriptorDoc :=
  { baseDoc with cid := 2, parentCid := 1, parentFileNameHint := some "base.vmdk".toList }

theorem wellFormed_baseDoc : baseDoc.WellFormed where
  createType := by decide
  cid := by decide
  parentCid := by decide
  hint := by decide
  track := by decide
  extents := by decide
  ddb := by decide
  flatFits := by decide
  sparseFits := by decide

theorem wellFormed_deltaDoc : deltaDoc.WellFormed :=
  { wellFormed_baseDoc with
    cid := by decide
    parentCid := by decide
    hint := by decide }

theorem saysUtf8_baseDoc : SaysUtf8 (baseDoc.text .lf) := by decide

theorem saysUtf8_deltaDoc : SaysUtf8 (deltaDoc.text .lf) := by decide

/-- The text of the base is the one that its document stands for. -/
theorem utf8Encode_baseDoc : (utf8Encode baseDesc).take (descriptorSectors * sectorSize) =
    utf8Encode (baseDoc.text .lf) := by decide

theorem utf8Encode_deltaDoc : (utf8Encode deltaDesc).take (descriptorSectors * sectorSize) =
    utf8Encode (deltaDoc.text .lf) := by decide +kernel

section Chain
variable (dir : FilePath) (baseData : List UInt8)

def deltaPath : FilePath := FilePath.join dir "delta.vmdk".toList

def baseSnapshot : Snapshot where
  path := FilePath.join (VmdkReader.directoryOf (deltaPath dir)) "base.vmdk".toList
  disk := disk 0 (utf8Encode baseDesc) baseData []
  doc := baseDoc
  eol := .lf

def deltaSnapshot : Snapshot where
  path := deltaPath dir
  disk := holeDisk (utf8Encode deltaDesc) (grain [])
  doc := deltaDoc
  eol := .lf

theorem linked : Snapshot.Linked (deltaSnapshot dir) [baseSnapshot dir baseData] := by
  have hcid : deltaDoc.parentCid ≠ noCid := by decide
  have hnamed : deltaDoc.parentFileNameHint.getD [] ≠ [] := by decide
  refine .delta { parentCid := hcid, named := hnamed, resolved := ?_ } (.base rfl)
  have hconfined : ¬ (FilePath.components "base.vmdk".toList).any FilePath.Component.escapes = true := by
    decide
  exact if_neg hconfined

theorem baseSnapshot_descriptor :
    (baseSnapshot dir baseData).disk.descriptor = utf8Encode (baseDoc.text .lf) := by
  rw [← utf8Encode_baseDoc]
  unfold baseSnapshot disk
  generalize utf8Encode baseDesc = text
  rfl

theorem deltaSnapshot_descriptor :
    (deltaSnapshot dir).disk.descriptor = utf8Encode (deltaDoc.text .lf) := by
  rw [← utf8Encode_deltaDoc]
  unfold deltaSnapshot holeDisk
  generalize utf8Encode deltaDesc = text
  rfl

/-- The directory of the delta is the one that both files are in. -/
theorem names_directoryOf : FilePath.names dir =
    FilePath.names (VmdkReader.directoryOf (deltaPath dir)) := by
  have hnames : FilePath.names (deltaPath dir) =
      FilePath.names dir ++ FilePath.below "delta.vmdk".toList :=
    FilePath.names_join (by decide)
  have hbelow : FilePath.below "delta.vmdk".toList = [.normal "delta.vmdk".toList] := by
    decide
  unfold VmdkReader.directoryOf
  rw [FilePath.names_parent, hnames, hbelow, List.dropLast_concat]

theorem stored [ZlibDecoder] {fs : FileSystem} (hfs : fs.Resolves) {dir : FilePath}
    {baseData : List UInt8} (h : WriteChainToDir fs dir baseData) :
    ∀ t ∈ [deltaSnapshot dir, baseSnapshot dir baseData], t.StoredIn fs := by
  obtain ⟨base, hbase, hbaseBytes⟩ := h.base
  obtain ⟨delta, hdelta, hdeltaBytes⟩ := h.delta
  intro t ht
  simp only [List.mem_cons, List.not_mem_nil, or_false] at ht
  rcases ht with rfl | rfl
  · exact {
      file := by
        refine ⟨delta, hdelta, ?_⟩
        rw [hdeltaBytes]
        exact (copyFromSlice_gte _ _ _ _).trans (file_holeDisk _ _).symm
      writable := writable_holeDisk _ _
      doc := wellFormed_deltaDoc
      utf8 := saysUtf8_deltaDoc
      descriptor := deltaSnapshot_descriptor dir }
  · exact {
      file := by
        refine ⟨base, hfs.join (names_directoryOf dir) hbase, ?_⟩
        rw [hbaseBytes]
        have hfile := file_disk (show 0 < numGtesPerGt by decide) (utf8Encode baseDesc) baseData []
        rw [List.append_nil] at hfile
        exact hfile.symm
      writable := writable_disk (by decide) _ _ _
      doc := wellFormed_baseDoc
      utf8 := saysUtf8_baseDoc
      descriptor := baseSnapshot_descriptor dir baseData }

end Chain

/-- What opening the delta gives: a chain of two layers that is the disk of these bytes. -/
structure ReadsBase [ZlibDecoder] (fs : FileSystem) (dir : FilePath) (baseData : List UInt8)
    (c : VmdkChainReader) : Prop where
  opened : (VmdkChainReader.open fs (deltaPath dir)).result = .ok c
  depth : c.layers.length = 2
  presents : c.Presents (grain baseData)

/-- **The chain that `write_chain_to_dir` writes reads as the payload of its base**, wherever it was
written. -/
theorem write_chain_reads_back [ZlibDecoder] {fs : FileSystem} (hfs : fs.Resolves) {dir : FilePath}
    {baseData : List UInt8} (h : WriteChainToDir fs dir baseData) :
    ∃ c, ReadsBase fs dir baseData c := by
  have hshape : ∀ t ∈ [deltaSnapshot dir, baseSnapshot dir baseData],
      SparseDisk.Shaped grainSizeBytes 1 t.disk := by
    intro t ht
    simp only [List.mem_cons, List.not_mem_nil, or_false] at ht
    rcases ht with rfl | rfl
    · exact ⟨rfl, rfl⟩
    · exact ⟨rfl, rfl⟩
  have hbytes : SparseDisk.stacked [(deltaSnapshot dir).disk, (baseSnapshot dir baseData).disk]
      grainSizeBytes 1 = grain baseData := by
    show (grain baseData ++ []) = grain baseData
    rw [List.append_nil]
  have hdepth : 1 < VmdkChainReader.maxChainDepth := by decide
  obtain ⟨ims, hopen, hlength, hstack⟩ :=
    Snapshot.open_stack (linked dir baseData) (stored hfs h) hshape hdepth
  refine ⟨_, hopen, ?_, hbytes ▸ hstack.presents⟩
  show (ims.map Image.reader).length = _
  rw [List.length_map, hlength]
  rfl

theorem length_sparseVmdk (capacity gte : Nat) (descriptorText sectorData : List UInt8) :
    (sparseVmdk capacity [gte] descriptorText sectorData).length = 35 * sectorSize := by
  unfold sparseVmdk
  simp only [List.length_append, length_sparseHeader, length_padTo, List.length_take, length_record,
    length_grain, List.map_singleton, recordWidth, List.sum_singleton]
  show 512 + (max (min 10240 _) 10240 + (512 + (512 + (2048 + 4096)))) = 17920
  omega

theorem length_baseBytes : (baseBytes [1, 2, 3]).length < 2 ^ 63 := by
  unfold baseBytes testSparseVmdkWithDescriptor
  rw [length_sparseVmdk]
  decide

theorem length_deltaBytes : deltaBytes.length < 2 ^ 63 := by
  unfold deltaBytes testSparseVmdkWithDescriptor
  rw [copyFromSlice_gte, length_sparseVmdk]
  decide

/-- The file system in which a call has written its two files to `case`. -/
def caseFiles : FileSystem := .ofNames fun names =>
  if names = [.normal "case".toList, .normal "base.vmdk".toList] then
    .ok (Source.ofBytes (baseBytes [1, 2, 3]) length_baseBytes)
  else .ok (Source.ofBytes deltaBytes length_deltaBytes)

theorem writeChainToDir_caseFiles : WriteChainToDir caseFiles "case".toList [1, 2, 3] where
  base := by
    refine ⟨_, (FileSystem.ofNames_eq (by decide)).trans (if_pos rfl), rfl⟩
  delta := by
    have hname : FilePath.HasFileName (deltaPath "case".toList) ∧
        FilePath.names (deltaPath "case".toList) =
          [.normal "case".toList, .normal "delta.vmdk".toList] := by
      decide
    exact ⟨_, (FileSystem.ofNames_eq hname).trans (if_neg (by decide)), rfl⟩

theorem write_chain_reads_back_caseFiles : let _ := Stored.decoder
    ∃ c, ReadsBase caseFiles "case".toList [1, 2, 3] c :=
  letI := Stored.decoder
  write_chain_reads_back (FileSystem.resolves_ofNames _) writeChainToDir_caseFiles

/-! ## A COWD extent and a seSparse extent -/

/-- What stands in front of a part of a file is read as it is. -/
theorem slice_head {head rest : List UInt8} {off n : Nat} (h : off + n ≤ head.length) :
    slice (head ++ rest) off n = slice head off n := by
  unfold slice
  rw [List.drop_append_of_le_length (by omega), List.take_append_of_le_length]
  rw [List.length_drop]
  omega

/-- The sectors of the COWD extent in front of its grain: the header, three sectors of padding, the
directory and the table. -/
def cowdHead : List UInt8 :=
  let grainSize := 8
  let gtesPerGt := 4096
  let gtSector := 5
  let grainSector := gtSector + gtesPerGt * 4 / 512
  let hdr := (leBytes 4 0x434F5744).reverse ++ record [(4, 1), (4, 3), (4, grainSize), (4, grainSize),
    (4, 4), (4, 1), (4, grainSector + grainSize), (480, 0)]
  let padding := List.replicate (3 * sectorSize) 0
  let gd := padTo sectorSize (leBytes 4 gtSector)
  let gt := padTo (gtesPerGt * 4) (leBytes 4 grainSector)
  hdr ++ (padding ++ (gd ++ gt))

/-- `test_cowd_vmdk`. -/
def testCowdVmdk (sectorData : List UInt8) : List UInt8 := cowdHead ++ grain sectorData

def seSparseHead : List UInt8 :=
  let grainSectors := 8
  let constHdr := record [(8, SeSparse.constMagic), (8, SeSparse.version), (8, grainSectors),
    (8, grainSectors), (8, SeSparse.gtSectors), (40, 0), (8, 1), (8, 1), (32, 0), (8, 2), (8, 1),
    (8, 3), (8, SeSparse.gtSectors), (32, 0), (8, 3 + SeSparse.gtSectors), (8, grainSectors),
    (304, 0)]
  let volHdr := padTo sectorSize (leBytes 8 0xCAFECAFE)
  let gd := padTo sectorSize (leBytes 8 0x1000000000000000)
  let gt := padTo (SeSparse.gtesPerGt * 8) (leBytes 8 0x3000000000000000)
  constHdr ++ (volHdr ++ (gd ++ gt))

/-- `test_sesparse_vmdk`. -/
def testSesparseVmdk (sectorData : List UInt8) : List UInt8 := seSparseHead ++ grain sectorData

theorem length_cowdHead : cowdHead.length = 37 * sectorSize := by
  unfold cowdHead
  simp only [List.length_append, length_padTo, length_record, List.length_reverse, length_leBytes,
    List.length_replicate, recordWidth, List.map_cons, List.map_nil, List.sum_cons, List.sum_nil]
  rfl

theorem length_seSparseHead : seSparseHead.length = 67 * sectorSize := by
  unfold seSparseHead
  simp only [List.length_append, length_padTo, length_record, length_leBytes, recordWidth,
    List.map_cons, List.map_nil, List.sum_cons, List.sum_nil]
  rfl

/-- The numbers in front of the grain, as the reader finds them in the file. -/
theorem numAt_head {head rest : List UInt8} {w off v : Nat} (h : numAt w head off = v)
    (hin : off + w ≤ head.length) : numAt w (head ++ rest) off = v := by
  unfold numAt at h ⊢
  rw [slice_head hin, h]

theorem cowd_numbers : numAt 4 cowdHead 12 = 8 ∧ numAt 4 cowdHead 16 = 8 ∧
    numAt 4 cowdHead 2048 = 5 ∧ numAt 4 cowdHead 2560 = 37 := by decide +kernel

theorem seSparse_numbers : numAt 8 seSparseHead 16 = 8 ∧ numAt 8 seSparseHead 128 = 2 ∧
    numAt 8 seSparseHead 144 = 3 ∧ numAt 8 seSparseHead 192 = 67 ∧
      numAt 8 seSparseHead 1024 = 0x1000000000000000 ∧
        numAt 8 seSparseHead 1536 = 0x3000000000000000 := by decide +kernel

section Extents
variable {file : Source} {sectorData : List UInt8}

/-- Where the tables of the COWD extent are. -/
def cowdTables : TableLayout where
  capacity := 8
  grainSectors := 8
  numGtesPerGt := 4096
  gdByte := 4 * sectorSize
  compressed := false

/-- Where the tables of the seSparse extent are. -/
def seTables : SeLayout where
  capacity := 8
  gdByte := 2 * sectorSize
  gtSector := 3
  grainsSector := 67

theorem layoutOf_cowd (hfile : file.bytes = testCowdVmdk sectorData) :
    layoutOf file.bytes = .tables cowdTables := by
  obtain ⟨hcap, hgs, -, -⟩ := cowd_numbers
  have hmagic : beNat (slice file.bytes 0 4) = Cowd.magic := by
    rw [hfile, testCowdVmdk, slice_head (by rw [length_cowdHead]; decide)]
    decide
  unfold layoutOf cowdLayout
  rw [if_pos hmagic, hfile, testCowdVmdk,
    numAt_head hcap (by rw [length_cowdHead]; decide),
    numAt_head hgs (by rw [length_cowdHead]; decide)]
  rfl

theorem grain_byte {head : List UInt8} {sectors o : Nat} (hhead : head.length = sectors * sectorSize) :
    (head ++ grain sectorData)[sectors * sectorSize + o]? = (grain sectorData)[o]? := by
  rw [List.getElem?_append_right (by omega), hhead, Nat.add_sub_cancel_left]

theorem content_cowd [ZlibDecoder] (hfile : file.bytes = testCowdVmdk sectorData) {o : Nat} (ho : o < 4096) :
    cowdTables.content file.bytes o = (grain sectorData)[o]? ∧
      cowdTables.TableWhole file.bytes o := by
  obtain ⟨-, -, hgd, hgt⟩ := cowd_numbers
  have hlength : file.bytes.length = 45 * sectorSize := by
    rw [hfile, testCowdVmdk, List.length_append, length_cowdHead, length_grain]
    rfl
  have hidx : o / 4096 = 0 := Nat.div_eq_of_lt ho
  have htable : cowdTables.table file.bytes o = 5 := by
    show numAt 4 file.bytes (2048 + o / 4096 / 4096 * 4) = 5
    rw [hidx, hfile, testCowdVmdk]
    exact numAt_head hgd (by rw [length_cowdHead]; decide)
  have hentry : cowdTables.entry file.bytes o = some 37 := by
    unfold TableLayout.entry
    rw [htable, if_neg (by decide)]
    show leAt 4 file.bytes (2560 + o / 4096 % 4096 * 4) = some 37
    have hplace : 2560 + o / 4096 % 4096 * 4 = 2560 := by rw [hidx]
    have hnum : numAt 4 (cowdHead ++ grain sectorData) 2560 = 37 :=
      numAt_head hgt (by rw [length_cowdHead]; decide)
    rw [hplace]
    refine leAt_eq_some.mpr ⟨by rw [hlength]; decide, ?_⟩
    rw [hfile, testCowdVmdk]
    exact hnum.symm
  constructor
  · unfold TableLayout.content
    rw [hentry]
    show file.bytes[37 * sectorSize + o % 4096]? = _
    rw [Nat.mod_eq_of_lt ho, hfile, testCowdVmdk]
    exact grain_byte length_cowdHead
  · refine .inr ⟨?_, fun gte hgte hlt hcompressed => ?_⟩
    · rw [htable, hlength]
      decide
    · cases hcompressed

/-- The place of the directory entry, of the table entry and of the byte for `o`. -/
theorem seSparse_places (hfile : file.bytes = testSesparseVmdk sectorData) {o : Nat} (ho : o < 4096) :
    seTables.directory file.bytes o = 0x1000000000000000 ∧
      seTables.entryByte 0x1000000000000000 o = 1536 ∧
        leAt 8 file.bytes 1536 = some 0x3000000000000000 ∧
          seTables.dataByte 0x3000000000000000 o = 67 * sectorSize + o := by
  obtain ⟨-, -, -, -, hgd, hgt⟩ := seSparse_numbers
  have hidx : o / 4096 = 0 := Nat.div_eq_of_lt ho
  have hlength : file.bytes.length = 75 * sectorSize := by
    rw [hfile, testSesparseVmdk, List.length_append, length_seSparseHead, length_grain]
    rfl
  refine ⟨?_, ?_, ?_, ?_⟩
  · show numAt 8 file.bytes (1024 + o / 4096 / 4096 * 8) = _
    rw [hidx, hfile, testSesparseVmdk]
    exact numAt_head hgd (by rw [length_seSparseHead]; decide)
  · unfold SeLayout.entryByte
    rw [hidx]
    decide
  · have hnum : numAt 8 (seSparseHead ++ grain sectorData) 1536 = 0x3000000000000000 :=
      numAt_head hgt (by rw [length_seSparseHead]; decide)
    refine leAt_eq_some.mpr ⟨by rw [hlength]; decide, ?_⟩
    rw [hfile, testSesparseVmdk]
    exact hnum.symm
  · have hindex : 0x3000000000000000 / 2 ^ 48 % 2 ^ 12 + 0x3000000000000000 % 2 ^ 48 * 2 ^ 12 = 0 := by
      decide
    unfold SeLayout.dataByte
    rw [hindex, Nat.mod_eq_of_lt ho, Nat.zero_mul, Nat.add_zero]
    rfl

theorem layoutOf_seSparse (hfile : file.bytes = testSesparseVmdk sectorData) :
    layoutOf file.bytes = .seSparse seTables := by
  obtain ⟨hcap, hgdOffset, hgtOffset, hgrains, -, -⟩ := seSparse_numbers
  have hcowd : beNat (slice seSparseHead 0 4) ≠ Cowd.magic := by decide
  have hmagic : numAt 8 seSparseHead 0 = SeSparse.constMagic := by decide
  have hin {off : Nat} (h : off + 8 ≤ 34304) : off + 8 ≤ seSparseHead.length := by
    rw [length_seSparseHead]
    exact h
  unfold layoutOf seLayout
  rw [hfile, testSesparseVmdk, slice_head (by rw [length_seSparseHead]; decide), if_neg hcowd,
    numAt_head hmagic (hin (by decide)), if_pos rfl, numAt_head hcap (hin (by decide)),
    numAt_head hgdOffset (hin (by decide)), numAt_head hgtOffset (hin (by decide)),
    numAt_head hgrains (hin (by decide))]
  rfl

theorem addressesFit_seSparse (hfile : file.bytes = testSesparseVmdk sectorData) :
    seTables.AddressesFit file.bytes where
  directory := by decide
  entry := by
    intro o ho
    obtain ⟨hgd, hplace, -, -⟩ := seSparse_places hfile ho
    rw [hgd, hplace]
    decide
  data := by
    intro o ho gte hgte htype
    obtain ⟨hgd, hplace, hentry, hdata⟩ := seSparse_places hfile ho
    rw [hgd, hplace, hentry] at hgte
    cases hgte
    rw [hdata]
    have ho' : o < 4096 := ho
    unfold sectorSize
    omega

theorem content_seSparse (hfile : file.bytes = testSesparseVmdk sectorData) {o : Nat}
    (ho : o < 4096) : seTables.content file.bytes o = (grain sectorData)[o]? := by
  obtain ⟨hgd, hplace, hentry, hdata⟩ := seSparse_places hfile ho
  unfold SeLayout.content
  simp only [hgd, hplace, hentry]
  show (if 0x3000000000000000 = 0 ∨ 0x3000000000000000 / 2 ^ 60 = 1 ∨ 0x3000000000000000 / 2 ^ 60 = 2
    then some 0 else if 0x3000000000000000 / 2 ^ 60 = 3 then
      file.bytes[seTables.dataByte 0x3000000000000000 o]? else none) = _
  rw [if_neg (by decide), if_pos (by decide), hdata, hfile, testSesparseVmdk]
  exact grain_byte length_seSparseHead

end Extents

/-! ## Opening the two -/

section Opened
variable {file : Source} {sectorData : List UInt8}

/-- A read in front of the grain. -/
theorem readExactAt_head {head : List UInt8} (hfile : file.bytes = head ++ grain sectorData)
    {off n : Nat} (h : off + n ≤ head.length) : file.readExactAt off n = .ok (slice head off n) := by
  have hin : off + n ≤ file.bytes.length := by
    rw [hfile, List.length_append]
    omega
  rw [Source.readExactAt_of_le hin, hfile, slice_head h]

theorem open_cowd (hfile : file.bytes = testCowdVmdk sectorData) :
    ∃ r, VmdkReader.open file = .ok r := by
  have hread : file.readExactAt 0 512 = .ok (slice cowdHead 0 512) :=
    readExactAt_head hfile (by rw [length_cowdHead]; decide)
  have hmagic : beNat (slice (slice cowdHead 0 512) 0 4) = Cowd.magic := by decide
  obtain ⟨hdr, hparse, hfields⟩ : ∃ hdr, CowdHeader.parse (slice cowdHead 0 512) = .ok hdr ∧
      (hdr.capacity, hdr.grainSize) = (8, 8) := exists_of_map_eq (by decide +kernel)
  obtain ⟨hcap, hgs⟩ := Prod.mk.inj hfields
  have hgd : file.readExactAt (Cowd.gdSector * sectorSize)
      (divCeil (divCeil hdr.capacity hdr.grainSize) Cowd.gtesPerGt * 4) =
      .ok (slice cowdHead 2048 4) := by
    rw [hcap, hgs]
    exact readExactAt_head hfile (by rw [length_cowdHead]; decide)
  have hgrain : hdr.grainSize * sectorSize < u64Size := by
    rw [hgs]
    decide
  have hcapacity : hdr.capacity * sectorSize < u64Size := by
    rw [hcap]
    decide
  obtain ⟨geom, hgeom⟩ : ∃ geom, openCowd file = .ok geom := by
    unfold openCowd
    simp only [bind_eq_ok, fromIo_eq_ok]
    exact ⟨_, _, hread, hdr, hparse, _, ensure_of hgrain, _, hgd, rfl⟩
  have hopen : ∃ r, VmdkReader.openCowdExtent file (slice cowdHead 0 512) = .ok r := by
    unfold VmdkReader.openCowdExtent
    simp only [bind_eq_ok]
    exact ⟨_, geom, hgeom, hdr, hparse, _, ensure_of hcapacity, rfl⟩
  obtain ⟨r, hr⟩ := hopen
  exact ⟨r, bind_eq_ok.mpr ⟨_, fromIo_eq_ok.mpr hread, (if_pos hmagic).trans hr⟩⟩

theorem open_seSparse (hfile : file.bytes = testSesparseVmdk sectorData) :
    ∃ r, VmdkReader.open file = .ok r := by
  have hread : file.readExactAt 0 512 = .ok (slice seSparseHead 0 512) :=
    readExactAt_head hfile (by rw [length_seSparseHead]; decide)
  have hcowd : beNat (slice (slice seSparseHead 0 512) 0 4) ≠ Cowd.magic := by decide
  have hmagic : leNat (slice (slice seSparseHead 0 512) 0 8) = SeSparse.constMagic := by
    decide
  obtain ⟨hdr, hparse, hfields⟩ : ∃ hdr, SeConstHeader.parse (slice seSparseHead 0 512) = .ok hdr ∧
      (hdr.capacity, hdr.gdOffset) = (8, 2) := exists_of_map_eq (by decide +kernel)
  obtain ⟨hcap, hoffset⟩ := Prod.mk.inj hfields
  have hcount : max (divCeil (divCeil hdr.capacity hdr.grainSize) SeSparse.gtesPerGt) 1 * 8 = 8 := by
    rw [hcap, hdr.grainSize_eq]
    decide
  have hgd : file.readExactAt (wrapMul hdr.gdOffset sectorSize)
      (max (divCeil (divCeil hdr.capacity hdr.grainSize) SeSparse.gtesPerGt) 1 * 8) =
      .ok (slice seSparseHead 1024 8) := by
    rw [hcount, hoffset]
    exact readExactAt_head hfile (by rw [length_seSparseHead]; decide)
  have hmax : max (divCeil (divCeil hdr.capacity hdr.grainSize) SeSparse.gtesPerGt) 1 * 8 ≤
      SeSparse.maxGd := by
    rw [hcount]
    decide
  have hcapacity : hdr.capacity * sectorSize < u64Size := by
    rw [hcap]
    decide
  obtain ⟨geom, hgeom⟩ : ∃ geom, openSesparse file = .ok geom := by
    unfold openSesparse
    simp only [bind_eq_ok, fromIo_eq_ok]
    exact ⟨_, _, hread, hdr, hparse, _, ensure_of hmax, _, hgd, rfl⟩
  have hopen : ∃ r, VmdkReader.openSesparseExtent file (slice seSparseHead 0 512) = .ok r := by
    unfold VmdkReader.openSesparseExtent
    simp only [bind_eq_ok]
    exact ⟨_, geom, hgeom, hdr, hparse, _, ensure_of hcapacity, rfl⟩
  obtain ⟨r, hr⟩ := hopen
  exact ⟨r, bind_eq_ok.mpr ⟨_, fromIo_eq_ok.mpr hread,
    (if_neg hcowd).trans ((if_pos hmagic).trans hr)⟩⟩

variable [ZlibDecoder]

/-- The file is opened, and is the disk of these bytes in either mode. -/
def ReadsBack (file : Source) (bytes : List UInt8) : Prop :=
  ∃ r, VmdkReader.open file = .ok r ∧ r.Presents bytes ∧ r.enableRgdFallback.Presents bytes

/-- A file of one grain of 4 KiB is opened and read back when its layout says so. -/
theorem readsBack_of_layout {L : Layout} (hopen : ∃ r, VmdkReader.open file = .ok r)
    (hlayout : layoutOf file.bytes = L) (hcap : L.capacity * sectorSize = 4096)
    (hfit : L.AddressesFit file.bytes) (hsound : SoundImage file)
    (hcontent : ∀ o < 4096, L.content file.bytes o = (grain sectorData)[o]? ∧
      L.TableWhole file.bytes o) : ReadsBack file (grain sectorData) := by
  obtain ⟨r, hopen⟩ := hopen
  obtain ⟨im, rfl, hharmless⟩ := open_harmless hopen hsound
  obtain ⟨im', heq, him⟩ := open_loads hopen
  obtain ⟨_, heq', hshaped⟩ := open_shaped hopen
  have hsame : im' = im := (congrArg VmdkReader.toImage heq).symm
  have hsame' : _ = im := (congrArg VmdkReader.toImage heq').symm
  subst hsame hsame'
  refine ⟨_, hopen, (him.holds hshaped ?_ ?_ ?_).presents hharmless⟩
  · rw [hlayout]
    exact hfit
  · rw [hlayout, hcap, length_grain]
    rfl
  · rw [hlayout, hcap]
    exact hcontent

/-- What the builders of the other two formats build. -/
structure ExtentBuilders (sectorData : List UInt8) : Prop where
  cowd : ∀ file : Source, file.bytes = testCowdVmdk sectorData → ReadsBack file (grain sectorData)
  seSparse : ∀ file : Source,
    file.bytes = testSesparseVmdk sectorData → ReadsBack file (grain sectorData)

/-- **The COWD and the seSparse builder build extents of their payload.** -/
theorem extent_builders (sectorData : List UInt8) : ExtentBuilders sectorData where
  cowd := by
    intro file hfile
    have hmagic : beNat (slice file.bytes 0 4) = Cowd.magic := by
      rw [hfile, testCowdVmdk, slice_head (by rw [length_cowdHead]; decide)]
      decide
    exact readsBack_of_layout (open_cowd hfile) (layoutOf_cowd hfile) rfl trivial (.inl hmagic)
      fun o ho => content_cowd hfile ho
  seSparse := by
    intro file hfile
    have hmagic : numAt 8 file.bytes 0 = SeSparse.constMagic := by
      rw [hfile, testSesparseVmdk]
      exact numAt_head (by decide) (by rw [length_seSparseHead]; decide)
    exact readsBack_of_layout (open_seSparse hfile) (layoutOf_seSparse hfile) rfl
      (addressesFit_seSparse hfile) (.inr (.inl hmagic))
      fun o ho => ⟨content_seSparse hfile ho, trivial⟩

end Opened
end TestUtil
