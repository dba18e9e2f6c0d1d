import Vmdk.DiskBytes
import Vmdk.Encode
import Vmdk.IntegritySound
import Vmdk.Lib.Pack

/-! # Writing a sparse extent

A disk in grains, some of them holes, laid out as a hosted sparse extent: the
header, the descriptor, the grain directory twice, the grain tables, and the
grains that are no holes, deflated behind a marker where the extent is
compressed. The files of `testutil.rs` are of this kind (`TestUtil.file_disk`). -/

open Bytes Word

/-- A directory or table of 4-byte entries, filled up with zeros to `n` bytes. -/
def entryTable (n : Nat) (entries : List Nat) : List UInt8 :=
  padTo n (record (entries.map fun e => (4, e)))

/-- A block filled up with zeros to whole sectors. -/
def padSector (bs : List UInt8) : List UInt8 := padTo (divCeil bs.length sectorSize * sectorSize) bs

/-! ## Parts of a file -/

section Parts
variable {entries : List Nat} {n i v : Nat}

theorem recordWidth_entries (entries : List Nat) :
    recordWidth (entries.map fun e => (4, e)) = entries.length * 4 := by
  simp [recordWidth, Function.comp_def]

theorem length_entryTable (h : entries.length * 4 ≤ n) : (entryTable n entries).length = n := by
  rw [entryTable, length_padTo, length_record, recordWidth_entries]
  omega

/-- Entry `i` of a table stands at its place, whatever stands before and behind the table. -/
theorem numAt_entryTable {pre rest : List UInt8} {off : Nat} (hpre : pre.length = off)
    (hi : entries[i]? = some v) (hv : v < 2 ^ 32) :
    numAt 4 (pre ++ (entryTable n entries ++ rest)) (off + i * 4) = v := by
  have hwidth : recordWidth ((entries.map fun e => (4, e)).take i) = i * 4 := by
    have hlt : i < entries.length := (List.getElem?_eq_some_iff.mp hi).1
    rw [← List.map_take, recordWidth_entries, List.length_take, Nat.min_eq_left (Nat.le_of_lt hlt)]
  have hfield : (entries.map fun e => (4, e))[i]? = some (4, v) := by
    rw [List.getElem?_map, hi]
    rfl
  unfold numAt entryTable padTo
  rw [slice_append_right hpre, List.append_assoc]
  exact leNat_record i _ hfield hwidth hv

theorem leNat_replicate_zero (n : Nat) : leNat (List.replicate n 0) = 0 := by
  induction n with
  | zero => rfl
  | succ n ih =>
    rw [List.replicate_succ, leNat, ih]
    rfl

/-- Behind its entries a table reads as zero. -/
theorem numAt_entryTable_beyond {pre rest : List UInt8} {off : Nat} (hpre : pre.length = off)
    (hi : entries.length ≤ i) (hn : i * 4 + 4 ≤ n) :
    numAt 4 (pre ++ (entryTable n entries ++ rest)) (off + i * 4) = 0 := by
  have hrecord : (record (entries.map fun e => (4, e))).length = entries.length * 4 := by
    rw [length_record, recordWidth_entries]
  have hzeros : slice (List.replicate (n - entries.length * 4) (0 : UInt8) ++ rest)
      (i * 4 - entries.length * 4) 4 = List.replicate 4 0 := by
    unfold slice
    rw [List.drop_append_of_le_length (by rw [List.length_replicate]; omega), List.drop_replicate,
      List.take_append_of_le_length (by rw [List.length_replicate]; omega), List.take_replicate,
      Nat.min_eq_left (by omega)]
  unfold numAt entryTable padTo
  rw [slice_append_right hpre, List.append_assoc, hrecord,
    show i * 4 = entries.length * 4 + (i * 4 - entries.length * 4) by omega,
    slice_append_right hrecord, hzeros, leNat_replicate_zero]

theorem dvd_length_padSector (bs : List UInt8) : sectorSize ∣ (padSector bs).length := by
  have hle : bs.length ≤ divCeil bs.length sectorSize * sectorSize := le_divCeil_mul (by decide)
  unfold padSector
  rw [length_padTo, Nat.max_eq_right hle]
  exact Nat.dvd_mul_left _ _

end Parts

namespace SparseExtentHeader

def sectorFields (hdr : SparseExtentHeader) (overHead : Nat) : List (Nat × Nat) :=
  [(4, Header.magic), (4, hdr.version), (4, 0), (8, hdr.capacity), (8, hdr.grainSize),
    (8, hdr.descriptorOffset), (8, hdr.descriptorSize), (4, hdr.numGtesPerGt), (8, hdr.rgdOffset),
    (8, hdr.gdOffset), (8, overHead), (1, 0), (1, 10), (1, 32), (1, 13), (1, 10),
    (2, hdr.compressed.toNat), (433, 0)]

/-- The sector of a header that was closed cleanly, with the four characters by which a transfer in
text mode is detected. -/
def sector (hdr : SparseExtentHeader) (overHead : Nat) : List UInt8 :=
  record (hdr.sectorFields overHead)

@[simp] theorem length_sector (hdr : SparseExtentHeader) (overHead : Nat) :
    (hdr.sector overHead).length = 512 := by
  simp [sector, sectorFields, recordWidth]

theorem readFrom_sector {hdr : SparseExtentHeader} (h : hdr.Fits) (overHead : Nat)
    (rest : List UInt8) : hdr.ReadFrom (hdr.sector overHead ++ rest) := by
  have hcomp : hdr.compressed.toNat < 256 ^ 2 := by cases hdr.compressed <;> decide
  have hgs : hdr.grainSize < 256 ^ 8 := Nat.lt_of_le_of_lt hdr.grainSize_le (by decide)
  have hng : hdr.numGtesPerGt < 256 ^ 4 := Nat.lt_of_le_of_lt hdr.numGtesPerGt_le (by decide)
  have halg : leNat (slice (hdr.sector overHead ++ rest) 77 2) = hdr.compressed.toNat :=
    leNat_record 16 rest rfl (by simp [sectorFields, recordWidth]) hcomp
  exact {
    capacity := (leNat_record 3 rest rfl rfl h.capacity).symm
    grainSize := (leNat_record 4 rest rfl rfl hgs).symm
    descriptorOffset := (leNat_record 5 rest rfl rfl h.descriptorOffset).symm
    descriptorSize := (leNat_record 6 rest rfl rfl h.descriptorSize).symm
    numGtesPerGt := (leNat_record 7 rest rfl rfl hng).symm
    rgdOffset := (leNat_record 8 rest rfl rfl h.rgdOffset).symm
    gdOffset := (leNat_record 9 rest rfl rfl h.gdOffset).symm
    compressed := by rw [halg]; cases hdr.compressed <;> rfl }

/-- **A header is read back from its sector**, whatever follows it. -/
theorem parse_sector {hdr : SparseExtentHeader} (h : hdr.Fits) (overHead : Nat)
    (rest : List UInt8) : parse (hdr.sector overHead ++ rest) = .ok hdr := by
  have hver : hdr.version < 256 ^ 4 := by rcases h.version with h | h | h <;> rw [h] <;> decide
  have hcomp : hdr.compressed.toNat < 256 ^ 2 := by cases hdr.compressed <;> decide
  refine parse_of_readFrom h (readFrom_sector h overHead rest) ?_ ?_ ?_ ?_
  · rw [List.length_append, length_sector]
    omega
  · exact leNat_record 0 rest rfl rfl (by decide)
  · exact leNat_record 1 rest rfl rfl hver
  · exact leNat_record 16 rest rfl (by simp [sectorFields, recordWidth]) hcomp

end SparseExtentHeader

/-! ## The disk and its file -/

/-- A disk in grains of one size, to be written with a descriptor; a grain that is `none` is a hole. -/
structure SparseDisk where
  grainSectors : Nat
  grains : List (Option (List UInt8))
  descriptor : List UInt8
  /-- How grains are compressed, where the extent is streamOptimized. -/
  deflate : Option (List UInt8 → List UInt8)
  /-- What stands behind the last grain. -/
  trailer : List UInt8
  grainSectors_ge : 8 ≤ grainSectors
  grainSectors_le : grainSectors ≤ Header.maxGrainSizeSectors
  whole : ∀ g ∈ grains, ∀ bs ∈ g, bs.length = grainSectors * sectorSize
  descriptor_le : descriptor.length ≤ 20 * sectorSize

namespace SparseDisk

def grainBytes (d : SparseDisk) : Nat := d.grainSectors * sectorSize

/-- The bytes of the disk. -/
def content (d : SparseDisk) : List UInt8 :=
  (d.grains.map (·.getD (List.replicate d.grainBytes 0))).flatten

/-- How many grain tables of 512 entries there are. -/
def tables (d : SparseDisk) : Nat := divCeil d.grains.length Header.maxNumGtesPerGt

/-- How many sectors a directory takes. -/
def gdSectors (d : SparseDisk) : Nat := divCeil (d.tables * 4) sectorSize

def gdSector : Nat := 21

def rgdSector (d : SparseDisk) : Nat := gdSector + d.gdSectors

def gtSector (d : SparseDisk) : Nat := d.rgdSector + d.gdSectors

/-- Where the first grain begins. -/
def grainSector (d : SparseDisk) : Nat := d.gtSector + d.tables * 4

/-- What is stored for grain `j` of bytes `bs`. A deflated grain stands behind its first sector on
the disk and its length. -/
def blob (d : SparseDisk) (j : Nat) (bs : List UInt8) : List UInt8 :=
  match d.deflate with
  | none => bs
  | some f =>
    padSector (leBytes 8 (j * d.grainSectors) ++ (leBytes 4 (f bs).length ++ f bs))

def blobs (d : SparseDisk) : List (List UInt8) := d.grains.mapIdx fun j g => g.elim [] (d.blob j)

/-- The sector at which grain `j` is stored. -/
def blobSector (d : SparseDisk) (j : Nat) : Nat := d.grainSector + Pack.start d.blobs j / sectorSize

/-- The entries of the grain tables. -/
def entries (d : SparseDisk) : List Nat :=
  d.grains.mapIdx fun j g => g.elim 0 fun _ => d.blobSector j

def header (d : SparseDisk) : SparseExtentHeader where
  version := if d.deflate.isSome then Header.versionStreamOpt else Header.version
  capacity := d.grains.length * d.grainSectors
  grainSize := d.grainSectors
  descriptorOffset := 1
  descriptorSize := 20
  numGtesPerGt := Header.maxNumGtesPerGt
  rgdOffset := d.rgdSector
  gdOffset := gdSector
  compressed := d.deflate.isSome
  grainSize_ge := d.grainSectors_ge
  grainSize_le := d.grainSectors_le
  numGtesPerGt_pos := by decide
  numGtesPerGt_le := by decide

def directoryEntries (d : SparseDisk) : List Nat :=
  (List.range d.tables).map fun k => d.gtSector + k * 4

def directory (d : SparseDisk) : List UInt8 :=
  entryTable (d.gdSectors * sectorSize) d.directoryEntries

def tableBytes (d : SparseDisk) : List UInt8 :=
  entryTable (d.tables * 4 * sectorSize) d.entries

/-- The file. -/
def file (d : SparseDisk) : List UInt8 :=
  d.header.sector d.grainSector ++ (padTo (20 * sectorSize) d.descriptor ++
    (d.directory ++ (d.directory ++ (d.tableBytes ++ (d.blobs.flatten ++ d.trailer)))))

/-- The file keeps to the limits of its format, and what was deflated can be inflated. -/
structure Writable [ZlibDecoder] (d : SparseDisk) : Prop where
  tables_le : d.tables * 4 ≤ VmdkReader.maxGdBytes
  sectors_lt : d.blobSector d.grains.length < 2 ^ 32
  inflates : ∀ f ∈ d.deflate, ∀ g ∈ d.grains, ∀ bs ∈ g,
    ZlibDecoder.readToEnd (f bs) (d.grainBytes + 1) = .ok bs ∧ (f bs).length ≤ d.grainBytes + 65536

/-! ## Where its parts are -/

section Layout
variable {d : SparseDisk}

theorem grainBytes_pos (d : SparseDisk) : 0 < d.grainBytes :=
  Nat.mul_pos (Nat.lt_of_lt_of_le (by decide) d.grainSectors_ge) (by decide)

theorem length_entries (d : SparseDisk) : d.entries.length = d.grains.length := by
  unfold entries
  exact List.length_mapIdx

theorem length_blobs (d : SparseDisk) : d.blobs.length = d.grains.length := by
  unfold blobs
  exact List.length_mapIdx

theorem length_directory (d : SparseDisk) : d.directory.length = d.gdSectors * sectorSize := by
  refine length_entryTable ?_
  unfold directoryEntries
  rw [List.length_map, List.length_range]
  exact le_divCeil_mul (by decide)

theorem length_tableBytes (d : SparseDisk) : d.tableBytes.length = d.tables * 4 * sectorSize := by
  refine length_entryTable ?_
  rw [length_entries, Nat.mul_assoc, show 4 * sectorSize = Header.maxNumGtesPerGt * 4 from rfl,
    ← Nat.mul_assoc]
  exact Nat.mul_le_mul_right 4 (le_divCeil_mul (by decide))

/-- The header and the descriptor. -/
def head (d : SparseDisk) : List UInt8 :=
  d.header.sector d.grainSector ++ padTo (20 * sectorSize) d.descriptor

theorem length_head (d : SparseDisk) : d.head.length = gdSector * sectorSize := by
  have hle := d.descriptor_le
  unfold head
  rw [List.length_append, SparseExtentHeader.length_sector, length_padTo, Nat.max_eq_right hle]
  rfl

theorem file_eq_directory (d : SparseDisk) :
    d.file = d.head ++ (d.directory ++ (d.directory ++
      (d.tableBytes ++ (d.blobs.flatten ++ d.trailer)))) := by
  unfold file head
  rw [List.append_assoc]

theorem file_eq_tables (d : SparseDisk) :
    d.file = (d.head ++ (d.directory ++ d.directory)) ++
      (d.tableBytes ++ (d.blobs.flatten ++ d.trailer)) := by
  rw [file_eq_directory]
  simp only [List.append_assoc]

theorem file_eq_blobs (d : SparseDisk) :
    d.file = (d.head ++ (d.directory ++ (d.directory ++ d.tableBytes))) ++
      (d.blobs.flatten ++ d.trailer) := by
  rw [file_eq_directory]
  simp only [List.append_assoc]

theorem length_before_tables (d : SparseDisk) :
    (d.head ++ (d.directory ++ d.directory)).length = d.gtSector * sectorSize := by
  rw [List.length_append, List.length_append, length_head, length_directory]
  unfold gtSector rgdSector
  simp only [Nat.add_mul]
  omega

theorem length_before_blobs (d : SparseDisk) :
    (d.head ++ (d.directory ++ (d.directory ++ d.tableBytes))).length =
      d.grainSector * sectorSize := by
  rw [← List.append_assoc d.directory, ← List.append_assoc, List.length_append,
    length_before_tables, length_tableBytes]
  unfold grainSector
  rw [Nat.add_mul]

theorem dvd_length_blob {b : List UInt8} (h : b ∈ d.blobs) : sectorSize ∣ b.length := by
  obtain ⟨j, hj⟩ := List.mem_iff_getElem?.mp h
  unfold blobs at hj
  rw [List.getElem?_mapIdx] at hj
  obtain ⟨g, hg, rfl⟩ := Option.map_eq_some_iff.mp hj
  cases g with
  | none => exact Nat.dvd_zero _
  | some bs =>
    show sectorSize ∣ (d.blob j bs).length
    unfold blob
    cases d.deflate with
    | none =>
      rw [d.whole _ (List.mem_of_getElem? hg) bs rfl]
      exact Nat.dvd_mul_left _ _
    | some f => exact dvd_length_padSector _

/-- The sector of a grain is where its bytes begin. -/
theorem blobSector_mul (d : SparseDisk) (j : Nat) :
    d.blobSector j * sectorSize = d.grainSector * sectorSize + Pack.start d.blobs j := by
  have hdvd := Pack.dvd_start (fun b hb => dvd_length_blob (d := d) hb) j
  unfold blobSector
  rw [Nat.add_mul, Nat.div_mul_cancel hdvd]

theorem length_file (d : SparseDisk) :
    d.file.length = d.blobSector d.grains.length * sectorSize + d.trailer.length := by
  rw [file_eq_blobs, List.length_append, length_before_blobs, List.length_append, blobSector_mul,
    ← length_blobs, Pack.start_length, Nat.add_assoc]

theorem blobSector_mono {i j : Nat} (h : i ≤ j) : d.blobSector i ≤ d.blobSector j := by
  have hstart : Pack.start d.blobs i ≤ Pack.start d.blobs j := Pack.start_mono h
  unfold blobSector
  exact Nat.add_le_add_left (Nat.div_le_div_right hstart) _

theorem one_lt_blobSector (d : SparseDisk) (j : Nat) : 1 < d.blobSector j := by
  have hgrain : 1 < d.grainSector := by
    unfold grainSector gtSector rgdSector gdSector
    omega
  exact Nat.lt_of_lt_of_le hgrain (Nat.le_add_right _ _)

/-- An entry of the grain tables, counted through all of them. -/
theorem numAt_table {i e : Nat} (he : d.entries[i]? = some e) (hlt : e < 2 ^ 32) :
    numAt 4 d.file (d.gtSector * sectorSize + i * 4) = e := by
  rw [file_eq_tables]
  exact numAt_entryTable (length_before_tables d) he hlt

theorem numAt_table_beyond {i : Nat} (hi : d.grains.length ≤ i)
    (hroom : i * 4 + 4 ≤ d.tables * 4 * sectorSize) :
    numAt 4 d.file (d.gtSector * sectorSize + i * 4) = 0 := by
  rw [← length_entries] at hi
  rw [file_eq_tables]
  exact numAt_entryTable_beyond (length_before_tables d) hi hroom

end Layout

/-! ## What its file describes -/

/-- The layout of the file. -/
def layout (d : SparseDisk) : TableLayout where
  capacity := d.grains.length * d.grainSectors
  grainSectors := d.grainSectors
  numGtesPerGt := Header.maxNumGtesPerGt
  gdByte := gdSector * sectorSize
  compressed := d.deflate.isSome

section Describes
variable [ZlibDecoder] {d : SparseDisk} (h : d.Writable)
include h

theorem Writable.tables_lt : d.tables ≤ 2 ^ 22 := by
  have hle := h.tables_le
  unfold VmdkReader.maxGdBytes at hle
  omega

theorem Writable.grains_lt : d.grains.length ≤ 2 ^ 31 := by
  have htables := h.tables_lt
  have hle : d.grains.length ≤ d.tables * Header.maxNumGtesPerGt := le_divCeil_mul (by decide)
  unfold Header.maxNumGtesPerGt at hle
  omega

theorem Writable.capacity_lt : d.grains.length * d.grainSectors < 2 ^ 48 :=
  calc d.grains.length * d.grainSectors ≤ 2 ^ 31 * Header.maxGrainSizeSectors :=
        Nat.mul_le_mul h.grains_lt d.grainSectors_le
    _ < 2 ^ 48 := by decide

theorem Writable.grainSector_lt : d.grainSector < 2 ^ 32 :=
  Nat.lt_of_le_of_lt (Nat.le_add_right _ _) h.sectors_lt

/-- The file is no longer than a file can be. -/
theorem Writable.length_lt (htrailer : d.trailer.length < 2 ^ 32) : d.file.length < 2 ^ 63 := by
  have hlt := h.sectors_lt
  rw [length_file]
  unfold sectorSize
  omega

theorem Writable.header_fits : d.header.Fits where
  version := by
    show (if d.deflate.isSome then 3 else 1) = 1 ∨ (if d.deflate.isSome then 3 else 1) = 2 ∨
      (if d.deflate.isSome then 3 else 1) = 3
    cases d.deflate.isSome <;> decide
  compressed := by
    show d.deflate.isSome =
      ((if d.deflate.isSome then Header.versionStreamOpt else Header.version) == 3)
    cases d.deflate <;> rfl
  capacity := Nat.lt_trans h.capacity_lt (by decide)
  descriptorOffset := by show 1 < _; decide
  descriptorSize := by show 20 < _; decide
  rgdOffset := by
    have hlt := h.grainSector_lt
    unfold grainSector gtSector at hlt
    show d.rgdSector < _
    omega
  gdOffset := by show gdSector < _; decide

omit [ZlibDecoder] h in
theorem magic (d : SparseDisk) : numAt 4 d.file 0 = Header.magic :=
  leNat_record 0 _ rfl rfl (by decide)

/-- **The file describes the layout of the disk.** -/
theorem Writable.layoutOf_file {file : Source} (hfile : file.bytes = d.file) :
    layoutOf file.bytes = .tables d.layout := by
  have hread : d.header.ReadFrom d.file :=
    SparseExtentHeader.readFrom_sector h.header_fits d.grainSector _
  have hgd : numAt 8 d.file 56 = gdSector := hread.gdOffset.symm
  have hmagic : numAt 4 file.bytes 0 = Header.magic := by
    rw [hfile]
    exact d.magic
  rw [layoutOf_vmdk4 hmagic, hfile]
  unfold vmdk4Layout layout
  simp only [Layout.tables.injEq, TableLayout.mk.injEq]
  refine ⟨hread.capacity.symm, hread.grainSize.symm, hread.numGtesPerGt.symm, ?_,
    hread.compressed.symm⟩
  rw [hgd, if_neg (by decide)]

omit h [ZlibDecoder] in
/-- An offset on the disk lies in one of its grains. -/
theorem grain_lt {o : Nat} (ho : o < d.layout.capacity * sectorSize) :
    o / d.grainBytes < d.grains.length := by
  refine (Nat.div_lt_iff_lt_mul d.grainBytes_pos).mpr ?_
  unfold grainBytes
  rw [← Nat.mul_assoc]
  exact ho

theorem Writable.table_eq {o : Nat} (ho : o < d.layout.capacity * sectorSize) :
    d.layout.table d.file o = d.gtSector + o / d.grainBytes / Header.maxNumGtesPerGt * 4 := by
  have hidx : o / d.grainBytes / Header.maxNumGtesPerGt < d.tables :=
    lt_divCeil_mul (by decide) (grain_lt ho)
  have hentry : d.directoryEntries[o / d.grainBytes / Header.maxNumGtesPerGt]? =
      some (d.gtSector + o / d.grainBytes / Header.maxNumGtesPerGt * 4) := by
    unfold directoryEntries
    rw [List.getElem?_map, List.getElem?_range hidx]
    rfl
  have hlt := h.grainSector_lt
  unfold grainSector at hlt
  unfold TableLayout.table
  rw [file_eq_directory]
  exact numAt_entryTable (length_head d) hentry (by omega)

theorem Writable.entry_eq {o e : Nat} (ho : o < d.layout.capacity * sectorSize)
    (he : d.entries[o / d.grainBytes]? = some e) : d.layout.entry d.file o = some e := by
  have hn := grain_lt ho
  have htables : d.grains.length * 4 ≤ d.tables * 4 * sectorSize := by
    have hle := length_tableBytes d
    have hlen : d.grains.length ≤ d.tables * Header.maxNumGtesPerGt := le_divCeil_mul (by decide)
    unfold Header.maxNumGtesPerGt at hlen
    unfold sectorSize
    omega
  have hplace : d.layout.table d.file o * sectorSize +
      o / d.layout.grainBytes % d.layout.numGtesPerGt * 4 =
        d.gtSector * sectorSize + o / d.grainBytes * 4 := by
    rw [h.table_eq ho]
    show _ + o / d.grainBytes % Header.maxNumGtesPerGt * 4 = _
    have hdm := Nat.div_add_mod (o / d.grainBytes) Header.maxNumGtesPerGt
    unfold Header.maxNumGtesPerGt at hdm ⊢
    unfold sectorSize
    omega
  have hlength : d.gtSector * sectorSize + d.tables * 4 * sectorSize ≤ d.file.length := by
    rw [file_eq_blobs, List.length_append, length_before_blobs]
    unfold grainSector
    rw [Nat.add_mul]
    exact Nat.le_add_right _ _
  have hbound : e < 2 ^ 32 := by
    unfold entries at he
    rw [List.getElem?_mapIdx] at he
    obtain ⟨g, -, rfl⟩ := Option.map_eq_some_iff.mp he
    cases g with
    | none => exact Nat.two_pow_pos 32
    | some bs => exact Nat.lt_of_le_of_lt (blobSector_mono (Nat.le_of_lt hn)) h.sectors_lt
  unfold TableLayout.entry
  rw [if_neg, hplace]
  · refine leAt_eq_some.mpr ⟨by omega, ?_⟩
    exact (numAt_table he hbound).symm
  · rw [h.table_eq ho]
    unfold gtSector rgdSector gdSector
    omega

omit h [ZlibDecoder] in
/-- A part of a stored grain stands at its place in the file. -/
theorem slice_blob {i off n : Nat} {b : List UInt8} (hb : d.blobs[i]? = some b)
    (hin : off + n ≤ b.length) : slice d.file (d.blobSector i * sectorSize + off) n = slice b off n := by
  rw [blobSector_mul, file_eq_blobs, Nat.add_assoc, slice_append_right (length_before_blobs d),
    Pack.slice_within hb _ hin]

omit h [ZlibDecoder] in
theorem blob_end {i : Nat} {b : List UInt8} (hb : d.blobs[i]? = some b) :
    d.blobSector i * sectorSize + b.length ≤ d.file.length := by
  have hend := Pack.start_le d.blobs (i + 1)
  rw [Pack.start_succ hb] at hend
  rw [file_eq_blobs, List.length_append, length_before_blobs, List.length_append, blobSector_mul]
  omega

omit h [ZlibDecoder] in
theorem getElem?_blobs {i : Nat} {bs : List UInt8} (hg : d.grains[i]? = some (some bs)) :
    d.blobs[i]? = some (d.blob i bs) := by
  unfold blobs
  rw [List.getElem?_mapIdx, hg]
  rfl

omit h [ZlibDecoder] in
theorem getElem?_entries {i : Nat} {g : Option (List UInt8)} (hg : d.grains[i]? = some g) :
    d.entries[i]? = some (g.elim 0 fun _ => d.blobSector i) := by
  unfold entries
  rw [List.getElem?_mapIdx, hg]
  rfl

omit h [ZlibDecoder] in
/-- What stands behind the marker of a deflated grain. -/
theorem blob_parts {f : List UInt8 → List UInt8} (hf : d.deflate = some f) (i : Nat)
    (bs : List UInt8) : slice (d.blob i bs) 8 4 = leBytes 4 (f bs).length ∧
      slice (d.blob i bs) 12 (f bs).length = f bs ∧ 12 + (f bs).length ≤ (d.blob i bs).length := by
  have hlba : (leBytes 8 (i * d.grainSectors)).length = 8 := length_leBytes _ _
  have hlen : (leBytes 4 (f bs).length).length = 4 := length_leBytes _ _
  obtain ⟨zeros, hblob⟩ : ∃ zeros, d.blob i bs =
      (leBytes 8 (i * d.grainSectors) ++ (leBytes 4 (f bs).length ++ f bs)) ++ zeros := by
    unfold blob
    rw [hf]
    exact ⟨_, rfl⟩
  rw [hblob]
  simp only [List.append_assoc]
  refine ⟨?_, ?_, ?_⟩
  · rw [show (8 : Nat) = 8 + 0 from rfl, slice_append_right hlba, slice_append_left hlen]
  · rw [show (12 : Nat) = 8 + (4 + 0) from rfl, slice_append_right hlba, slice_append_right hlen,
      slice_append_left rfl]
  · simp only [List.length_append, hlba, hlen]
    omega

/-- The length behind a marker is read back, and keeps to the limit of the reader. -/
theorem Writable.marker {f : List UInt8 → List UInt8} (hf : d.deflate = some f) {i : Nat}
    {bs : List UInt8} (hg : d.grains[i]? = some (some bs)) :
    leAt 4 d.file (d.blobSector i * sectorSize + 8) = some (f bs).length ∧
      (f bs).length ≤ d.grainBytes + 65536 := by
  obtain ⟨-, hle⟩ := h.inflates f hf _ (List.mem_of_getElem? hg) bs rfl
  obtain ⟨hlength, -, hin⟩ := blob_parts hf i bs
  have hb := getElem?_blobs hg
  have hend := blob_end hb
  have hgs : d.grainBytes ≤ Header.maxGrainSizeSectors * sectorSize :=
    Nat.mul_le_mul_right _ d.grainSectors_le
  have hlt : (f bs).length < 256 ^ 4 := by
    have hmax : Header.maxGrainSizeSectors * sectorSize = 2 ^ 25 := by decide
    omega
  refine ⟨leAt_eq_some.mpr ⟨by omega, ?_⟩, hle⟩
  rw [slice_blob hb (by omega), hlength, leNat_leBytes hlt]

/-- A deflated grain is inflated from its payload. -/
theorem Writable.payload_eq {f : List UInt8 → List UInt8} (hf : d.deflate = some f) {i : Nat}
    {bs : List UInt8} (hg : d.grains[i]? = some (some bs)) :
    d.layout.payload d.file (d.blobSector i) = some bs := by
  obtain ⟨hinflate, -⟩ := h.inflates f hf _ (List.mem_of_getElem? hg) bs rfl
  obtain ⟨-, hpayload, hin⟩ := blob_parts hf i bs
  have hb := getElem?_blobs hg
  have hend := blob_end hb
  have hbytes : slice d.file (d.blobSector i * sectorSize + 12) (f bs).length = f bs := by
    rw [slice_blob hb hin, hpayload]
  have hguard : (f bs).length = 0 ∨
      d.blobSector i * sectorSize + 12 + (f bs).length ≤ d.file.length := by omega
  have hwhole : bs.length ≤ d.grainBytes :=
    Nat.le_of_eq (d.whole _ (List.mem_of_getElem? hg) bs rfl)
  unfold TableLayout.payload
  rw [(h.marker hf hg).1]
  simp only [bind, Option.bind_some, guard, if_pos hguard, pure, hbytes]
  change ZlibDecoder.readToEnd (f bs) (d.layout.grainBytes + 1) = .ok bs at hinflate
  rw [hinflate]
  exact if_pos hwhole

/-- The stored byte of a grain. -/
theorem Writable.dataByte_eq {o : Nat} {bs : List UInt8}
    (hg : d.grains[o / d.grainBytes]? = some (some bs)) :
    d.layout.dataByte d.file (d.blobSector (o / d.grainBytes)) o = bs[o % d.grainBytes]? := by
  have hgrain : d.layout.grainBytes = d.grainBytes := rfl
  unfold TableLayout.dataByte
  rw [hgrain]
  cases hf : d.deflate with
  | none =>
    have hplain : ¬ d.layout.compressed = true := by
      show ¬ d.deflate.isSome = true
      rw [hf]
      decide
    have hb : d.blobs[o / d.grainBytes]? = some bs := by
      have hblob : d.blob (o / d.grainBytes) bs = bs := by
        unfold blob
        rw [hf]
      rw [getElem?_blobs hg, hblob]
    have hlen : bs.length = d.grainBytes := d.whole _ (List.mem_of_getElem? hg) bs rfl
    have hr : o % d.grainBytes < bs.length :=
      Nat.lt_of_lt_of_eq (Nat.mod_lt o d.grainBytes_pos) hlen.symm
    rw [if_neg hplain, blobSector_mul, file_eq_blobs, ← length_before_blobs,
      List.getElem?_append_right (by omega), Nat.add_assoc, Nat.add_sub_cancel_left,
      Pack.getElem?_flatten hb hr _]
  | some f =>
    have hcompressed : d.layout.compressed = true := by
      show d.deflate.isSome = true
      rw [hf]
      rfl
    rw [if_pos hcompressed, h.payload_eq hf hg]
    rfl

omit h [ZlibDecoder] in
theorem length_block (d : SparseDisk) :
    ∀ b ∈ d.grains.map (·.getD (List.replicate d.grainBytes 0)), b.length = d.grainBytes := by
  intro b hb
  obtain ⟨g, hg, rfl⟩ := List.mem_map.mp hb
  cases g with
  | none => exact List.length_replicate
  | some bs => exact d.whole _ hg bs rfl

omit h [ZlibDecoder] in
theorem length_content (d : SparseDisk) :
    d.content.length = d.layout.capacity * sectorSize := by
  unfold content
  rw [Pack.length_uniform d.length_block, List.length_map]
  exact (Nat.mul_assoc ..).symm

omit h [ZlibDecoder] in
theorem getElem?_content {o : Nat} {g : Option (List UInt8)}
    (hg : d.grains[o / d.grainBytes]? = some g) :
    d.content[o]? = (g.getD (List.replicate d.grainBytes 0))[o % d.grainBytes]? := by
  unfold content
  refine Pack.getElem?_uniform d.length_block d.grainBytes_pos ?_
  rw [List.getElem?_map, hg]
  rfl

/-- **The content that the file describes is the disk's.** -/
theorem Writable.content_eq {o : Nat} (ho : o < d.layout.capacity * sectorSize) :
    d.layout.content d.file o = d.content[o]? := by
  obtain ⟨g, hg⟩ : ∃ g, d.grains[o / d.grainBytes]? = some g :=
    ⟨_, List.getElem?_eq_getElem (grain_lt ho)⟩
  unfold TableLayout.content
  rw [h.entry_eq ho (getElem?_entries hg), getElem?_content hg, Option.bind_some]
  cases g with
  | none =>
    refine (if_pos (Nat.zero_le 1)).trans ?_
    exact (List.getElem?_replicate_of_lt (Nat.mod_lt o d.grainBytes_pos)).symm
  | some bs =>
    have hgte := one_lt_blobSector d (o / d.grainBytes)
    refine (if_neg (Nat.not_le.mpr hgte)).trans ?_
    exact h.dataByte_eq hg

theorem Writable.tableWhole {o : Nat} (ho : o < d.layout.capacity * sectorSize) :
    d.layout.TableWhole d.file o := by
  obtain ⟨g, hg⟩ : ∃ g, d.grains[o / d.grainBytes]? = some g :=
    ⟨_, List.getElem?_eq_getElem (grain_lt ho)⟩
  have hidx : o / d.grainBytes / Header.maxNumGtesPerGt < d.tables :=
    lt_divCeil_mul (by decide) (grain_lt ho)
  refine .inr ⟨?_, fun gte hgte hlt hcompressed => ?_⟩
  · have hlength : d.gtSector * sectorSize + d.tables * 4 * sectorSize ≤ d.file.length := by
      rw [file_eq_blobs, List.length_append, length_before_blobs]
      unfold grainSector
      rw [Nat.add_mul]
      exact Nat.le_add_right _ _
    have hnext : d.gtSector + o / d.grainBytes / Header.maxNumGtesPerGt * 4 + 4 ≤
        d.gtSector + d.tables * 4 := by omega
    rw [h.table_eq ho]
    calc (d.gtSector + o / d.grainBytes / Header.maxNumGtesPerGt * 4) * sectorSize +
          Header.maxNumGtesPerGt * 4
        = (d.gtSector + o / d.grainBytes / Header.maxNumGtesPerGt * 4 + 4) * sectorSize :=
          (Nat.add_mul _ 4 sectorSize).symm
      _ ≤ (d.gtSector + d.tables * 4) * sectorSize := Nat.mul_le_mul_right _ hnext
      _ ≤ d.file.length := by rw [Nat.add_mul]; exact hlength
  · rw [h.entry_eq ho (getElem?_entries hg)] at hgte
    cases g with
    | none =>
      cases hgte
      exact absurd (show 1 < 0 from hlt) (by decide)
    | some bs =>
      cases hgte
      obtain ⟨f, hf⟩ := Option.isSome_iff_exists.mp hcompressed
      obtain ⟨hmarker, hle⟩ := h.marker hf hg
      show leNat (slice d.file (d.blobSector (o / d.grainBytes) * sectorSize + 8) 4) ≤ _
      rw [← (leAt_eq_some.mp hmarker).2]
      exact hle

end Describes

end SparseDisk
