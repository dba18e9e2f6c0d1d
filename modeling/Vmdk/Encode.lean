import Vmdk.Header
import Vmdk.Lib.Text

/-! # Headers as bytes

A header written field by field is read back by its parser
(`SparseExtentHeader.parse_toBytes`, `CowdHeader.parse_toBytes`,
`SeConstHeader.parse_toBytes`), whatever follows it in the file. -/

open Bytes

/-- A block of a file, filled up with zeros to `n` bytes. -/
def padTo (n : Nat) (bs : List UInt8) : List UInt8 := bs ++ List.replicate (n - bs.length) 0

@[simp] theorem length_padTo (n : Nat) (bs : List UInt8) :
    (padTo n bs).length = max bs.length n := by
  rw [padTo, List.length_append, List.length_replicate]
  omega

/-- The sectors of a directory or table of 4-byte entries that fits in one. -/
def tableSector (entries : List Nat) : List UInt8 :=
  padTo sectorSize (record (entries.map fun e => (4, e)))

namespace VmdkReader

def textBytes (text : Text) : List UInt8 := text.map fun c => UInt8.ofNat c.toNat

/-- The file of a short text. -/
def textFile (text : Text) (h : text.length < 2 ^ 63) : Source :=
  .ofBytes (textBytes text) (by rwa [textBytes, List.length_map])

end VmdkReader

namespace SparseExtentHeader

/-- The fields fit where they are written, and the compression is that of the version. -/
structure Fits (hdr : SparseExtentHeader) : Prop where
  version : hdr.version = 1 ∨ hdr.version = 2 ∨ hdr.version = 3
  compressed : hdr.compressed = (hdr.version == 3)
  capacity : hdr.capacity < 2 ^ 64
  descriptorOffset : hdr.descriptorOffset < 2 ^ 64
  descriptorSize : hdr.descriptorSize < 2 ^ 64
  rgdOffset : hdr.rgdOffset < 2 ^ 64
  gdOffset : hdr.gdOffset < 2 ^ 64

instance (hdr : SparseExtentHeader) : Decidable hdr.Fits :=
  decidable_of_iff (_ ∧ _ ∧ _ ∧ _ ∧ _ ∧ _ ∧ _)
    ⟨fun ⟨a, b, c, d, e, f, g⟩ => ⟨a, b, c, d, e, f, g⟩,
      fun ⟨a, b, c, d, e, f, g⟩ => ⟨a, b, c, d, e, f, g⟩⟩

def fields (hdr : SparseExtentHeader) : List (Nat × Nat) :=
  [(4, Header.magic), (4, hdr.version), (4, 0), (8, hdr.capacity), (8, hdr.grainSize),
    (8, hdr.descriptorOffset), (8, hdr.descriptorSize), (4, hdr.numGtesPerGt), (8, hdr.rgdOffset),
    (8, hdr.gdOffset), (13, 0), (2, hdr.compressed.toNat), (433, 0)]

/-- The 512 bytes of a header. -/
def toBytes (hdr : SparseExtentHeader) : List UInt8 := record hdr.fields

@[simp] theorem length_toBytes (hdr : SparseExtentHeader) : hdr.toBytes.length = 512 := by
  simp [toBytes, fields, recordWidth]

/-- A header is what its bytes are parsed to, when each field is the number at its place. -/
theorem parse_of_readFrom {hdr : SparseExtentHeader} {data : List UInt8} (h : hdr.Fits)
    (hr : hdr.ReadFrom data) (hlen : 512 ≤ data.length)
    (hmagic : leNat (slice data 0 4) = Header.magic) (hver : leNat (slice data 4 4) = hdr.version)
    (halg : leNat (slice data 77 2) = hdr.compressed.toNat) : parse data = .ok hdr := by
  have hversion := h.version
  rw [← hver] at hversion
  have hfits : compressionFits (leNat (slice data 4 4)) (leNat (slice data 77 2)) = true := by
    rw [hver, halg, h.compressed]
    rcases h.version with h | h | h <;> rw [h] <;> decide
  have hlo := hr.grainSize ▸ hdr.grainSize_ge
  have hhi := hr.grainSize ▸ hdr.grainSize_le
  have hpos := hr.numGtesPerGt ▸ hdr.numGtesPerGt_pos
  have hle := hr.numGtesPerGt ▸ hdr.numGtesPerGt_le
  unfold parse
  simp only [bind_eq_ok]
  refine ⟨⟨hlen⟩, ensure_of _, ⟨hmagic⟩, ensure_of _, ⟨hversion⟩, ensure_of _, ⟨hfits⟩, ensure_of _,
    ⟨hlo⟩, ensure_of _, ⟨hhi⟩, ensure_of _, ⟨hpos⟩, ensure_of _, ⟨hle⟩, ensure_of _, ?_⟩
  refine congrArg Except.ok ?_
  obtain ⟨hc, hg, hdo, hds, hn, hrgd, hgd, hco⟩ := hr
  cases hdr
  simp only [SparseExtentHeader.mk.injEq]
  exact ⟨hver, hc.symm, hg.symm, hdo.symm, hds.symm, hn.symm, hrgd.symm, hgd.symm, hco.symm⟩

theorem readFrom_toBytes {hdr : SparseExtentHeader} (h : hdr.Fits) (rest : List UInt8) :
    hdr.ReadFrom (hdr.toBytes ++ rest) := by
  have hcomp : hdr.compressed.toNat < 256 ^ 2 := by cases hdr.compressed <;> decide
  have hgs : hdr.grainSize < 256 ^ 8 := Nat.lt_of_le_of_lt hdr.grainSize_le (by decide)
  have hng : hdr.numGtesPerGt < 256 ^ 4 := Nat.lt_of_le_of_lt hdr.numGtesPerGt_le (by decide)
  have halg : leNat (slice (hdr.toBytes ++ rest) 77 2) = hdr.compressed.toNat :=
    leNat_record 11 rest rfl (by simp [fields, recordWidth]) hcomp
  exact {
    capacity := (leNat_record 3 rest rfl rfl h.capacity).symm
    grainSize := (leNat_record 4 rest rfl rfl hgs).symm
    descriptorOffset := (leNat_record 5 rest rfl rfl h.descriptorOffset).symm
    descriptorSize := (leNat_record 6 rest rfl rfl h.descriptorSize).symm
    numGtesPerGt := (leNat_record 7 rest rfl rfl hng).symm
    rgdOffset := (leNat_record 8 rest rfl rfl h.rgdOffset).symm
    gdOffset := (leNat_record 9 rest rfl rfl h.gdOffset).symm
    compressed := by rw [halg]; cases hdr.compressed <;> rfl }

/-- **A VMDK4 header is read back from its bytes.** -/
theorem parse_toBytes {hdr : SparseExtentHeader} (h : hdr.Fits) (rest : List UInt8) :
    parse (hdr.toBytes ++ rest) = .ok hdr := by
  have hver : hdr.version < 256 ^ 4 := by rcases h.version with h | h | h <;> rw [h] <;> decide
  have hcomp : hdr.compressed.toNat < 256 ^ 2 := by cases hdr.compressed <;> decide
  refine parse_of_readFrom h (readFrom_toBytes h rest) ?_ ?_ ?_ ?_
  · rw [List.length_append, length_toBytes]
    omega
  · exact leNat_record 0 rest rfl rfl (by decide)
  · exact leNat_record 1 rest rfl rfl hver
  · exact leNat_record 11 rest rfl (by simp [fields, recordWidth]) hcomp

/-- An uncompressed disk in grains of 8 sectors and tables of 4 entries, without a descriptor. -/
def plain (capacity rgdOffset gdOffset : Nat) : SparseExtentHeader where
  version := 1
  capacity
  grainSize := 8
  descriptorOffset := 0
  descriptorSize := 0
  numGtesPerGt := 4
  rgdOffset
  gdOffset
  compressed := false
  grainSize_ge := by decide
  grainSize_le := by decide
  numGtesPerGt_pos := by decide
  numGtesPerGt_le := by decide

end SparseExtentHeader

/-- A disk of 16 sectors with both directories: the redundant one and its table in sectors 1 and 2,
a grain in sector 3, and last the primary table and directory, in sectors 11 and 12. -/
def mirroredDisk (gdEntry gtEntry : Nat) : Source :=
  .ofBytes ((SparseExtentHeader.plain 16 1 12).toBytes ++ tableSector [2] ++ tableSector [3] ++
    padTo 4096 [7] ++ (tableSector [gtEntry] ++ tableSector [gdEntry])) (by
      simp [tableSector, recordWidth, sectorSize])

theorem mirroredDisk_reads (gdEntry gtEntry : Nat) :
    (mirroredDisk gdEntry gtEntry).chunk = (fun _ want => want) ∧
      (mirroredDisk gdEntry gtEntry).seekable = fun _ => true :=
  ⟨rfl, rfl⟩

namespace CowdHeader

def fields (hdr : CowdHeader) : List (Nat × Nat) :=
  [(4, 0x44574F43), (4, 1), (4, 3), (4, hdr.capacity), (4, hdr.grainSize), (492, 0)]

/-- The 512 bytes of a header; the magic number is written big-endian. -/
def toBytes (hdr : CowdHeader) : List UInt8 := record hdr.fields

/-- **A COWD header is read back from its bytes.** -/
theorem parse_toBytes (hdr : CowdHeader) (rest : List UInt8) :
    parse (hdr.toBytes ++ rest) = .ok hdr := by
  have hcap : leNat (slice (hdr.toBytes ++ rest) 12 4) = hdr.capacity :=
    leNat_record 3 rest rfl rfl hdr.capacity_lt
  have hgs : leNat (slice (hdr.toBytes ++ rest) 16 4) = hdr.grainSize :=
    leNat_record 4 rest rfl rfl hdr.grainSize_lt
  have hver : leNat (slice (hdr.toBytes ++ rest) 4 4) = 1 :=
    leNat_record 1 rest rfl rfl (by decide)
  have hmagic : beNat (slice (hdr.toBytes ++ rest) 0 4) = Cowd.magic := by
    have hsplit : hdr.toBytes ++ rest = leBytes 4 0x44574F43 ++ (record hdr.fields.tail ++ rest) := by
      rw [toBytes, ← List.append_assoc]
      rfl
    rw [hsplit, slice_append_left (length_leBytes _ _)]
    decide
  have hlen : 32 ≤ (hdr.toBytes ++ rest).length := by
    rw [toBytes, List.length_append, length_record]
    simp [fields, recordWidth]
    omega
  unfold parse
  simp only [bind_eq_ok]
  refine ⟨⟨hlen⟩, ensure_of _, ⟨hmagic⟩, ensure_of _, ⟨hver⟩, ensure_of _,
    ⟨hgs ▸ hdr.grainSize_pos⟩, ensure_of _, congrArg Except.ok ?_⟩
  cases hdr
  simp only [CowdHeader.mk.injEq]
  exact ⟨hcap, hgs⟩

end CowdHeader

namespace SeConstHeader

def fields (hdr : SeConstHeader) : List (Nat × Nat) :=
  [(8, SeSparse.constMagic), (8, SeSparse.version), (8, hdr.capacity), (8, hdr.grainSize),
    (8, SeSparse.gtSectors), (88, 0), (8, hdr.gdOffset), (8, 0), (8, hdr.gtOffset), (40, 0),
    (8, hdr.grainsOffset), (312, 0)]

/-- The 512 bytes of a header. -/
def toBytes (hdr : SeConstHeader) : List UInt8 := record hdr.fields

/-- **A seSparse header is read back from its bytes.** -/
theorem parse_toBytes {hdr : SeConstHeader} (rest : List UInt8) (hcap : hdr.capacity < 2 ^ 64)
    (hgd : hdr.gdOffset < 2 ^ 64) (hgt : hdr.gtOffset < 2 ^ 64) (hgr : hdr.grainsOffset < 2 ^ 64) :
    parse (hdr.toBytes ++ rest) = .ok hdr := by
  have hgs : hdr.grainSize < 256 ^ 8 := by rw [hdr.grainSize_eq]; decide
  have fcap : leNat (slice (hdr.toBytes ++ rest) 16 8) = hdr.capacity :=
    leNat_record 2 rest rfl rfl hcap
  have fgs : leNat (slice (hdr.toBytes ++ rest) 24 8) = hdr.grainSize :=
    leNat_record 3 rest rfl rfl hgs
  have fgd : leNat (slice (hdr.toBytes ++ rest) 128 8) = hdr.gdOffset :=
    leNat_record 6 rest rfl (by simp [fields, recordWidth]) hgd
  have fgt : leNat (slice (hdr.toBytes ++ rest) 144 8) = hdr.gtOffset :=
    leNat_record 8 rest rfl (by simp [fields, recordWidth]) hgt
  have fgr : leNat (slice (hdr.toBytes ++ rest) 192 8) = hdr.grainsOffset :=
    leNat_record 10 rest rfl (by simp [fields, recordWidth]) hgr
  have hlen : 208 ≤ (hdr.toBytes ++ rest).length := by
    rw [toBytes, List.length_append, length_record]
    simp [fields, recordWidth]
    omega
  unfold parse
  simp only [bind_eq_ok]
  refine ⟨⟨hlen⟩, ensure_of _, ⟨leNat_record 0 rest rfl rfl (by decide)⟩, ensure_of _,
    ⟨leNat_record 1 rest rfl rfl (by decide)⟩, ensure_of _, ⟨fgs ▸ hdr.grainSize_eq⟩, ensure_of _,
    ⟨leNat_record 4 rest rfl rfl (by decide)⟩, ensure_of _, congrArg Except.ok ?_⟩
  cases hdr
  simp only [SeConstHeader.mk.injEq]
  exact ⟨fcap, fgs, fgd, fgt, fgr⟩

end SeConstHeader
