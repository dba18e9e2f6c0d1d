import Vmdk.RecoverySound

/-! # Recovery of a damaged image

Damage spoils entries of the primary directory and of the primary tables, and
leaves every byte that recovery depends on in place (`Damaged`). In recovery
mode the damaged image then resolves each offset to the entry that the sound
image has for it (`Recovers.locateSparse`), so its reads are the same
(`VmdkReader.recovery_exact`). -/

open Bytes Word

/-! ## The damage -/

namespace TableLayout

def tables (L : TableLayout) : Nat :=
  divCeil (divCeil L.capacity L.grainSectors) L.numGtesPerGt

/-- Entry `i` of the primary directory. -/
def dirEntry (L : TableLayout) (bytes : List UInt8) (i : Nat) : Nat :=
  numAt 4 bytes (L.gdByte + i * 4)

/-- How many bytes a grain occupies from sector `gte` on; a compressed one starts with its
marker. -/
def storedBytes (L : TableLayout) (bytes : List UInt8) (gte : Nat) : Nat :=
  if L.compressed then 12 + numAt 4 bytes (gte * sectorSize + 8) else L.grainBytes

/-- No whole grain table starts at the sector. -/
def Unusable (L : TableLayout) (bytes : List UInt8) (sector : Nat) : Prop :=
  sector = 0 ∨ bytes.length < sector * sectorSize + L.numGtesPerGt * 4

instance (L : TableLayout) (bytes : List UInt8) (sector : Nat) :
    Decidable (L.Unusable bytes sector) :=
  inferInstanceAs (Decidable (_ ∨ _))

end TableLayout

/-- Entry `j` of the grain table at `sector`. -/
def tableEntry (bytes : List UInt8) (sector j : Nat) : Nat :=
  numAt 4 bytes (sector * sectorSize + j * 4)

def rgdByte (bytes : List UInt8) : Nat := numAt 8 bytes 48 * sectorSize

/-- Entry `i` of the redundant directory of a VMDK4 file. -/
def rgdEntry (bytes : List UInt8) (i : Nat) : Nat := numAt 4 bytes (rgdByte bytes + i * 4)

/-- `file'` is the VMDK4 extent `file`, laid out as `L`, with spoilt primary entries. The headers,
the descriptor, the redundant directory and its tables, and the grains that the primary tables
point to are untouched; a directory entry is as it was, or was in use and has become unusable; a
table entry is as it was, or has become 0 or 1. -/
structure Damaged (L : TableLayout) (file file' : Source) : Prop where
  length : file'.bytes.length = file.bytes.length
  chunk : file'.chunk = file.chunk
  seekable : file'.seekable = file.seekable
  header : AgreeOn file.bytes file'.bytes 0 512
  footer : numAt 8 file.bytes 56 = Header.gdAtEnd →
    AgreeOn file.bytes file'.bytes (file.bytes.length - 1024) 512
  descriptor : AgreeOn file.bytes file'.bytes (numAt 8 file.bytes 28 * sectorSize)
    (min (numAt 8 file.bytes 36 * sectorSize) VmdkReader.maxDescriptorBytes)
  redundantDirectory : AgreeOn file.bytes file'.bytes (rgdByte file.bytes) (L.tables * 4)
  redundantTables : ∀ i < L.tables, rgdEntry file.bytes i ≠ 0 →
    AgreeOn file.bytes file'.bytes (rgdEntry file.bytes i * sectorSize) (L.numGtesPerGt * 4)
  grains : ∀ i < L.tables, ∀ j < L.numGtesPerGt, L.dirEntry file.bytes i ≠ 0 →
    ∀ gte, gte = tableEntry file.bytes (L.dirEntry file.bytes i) j → 1 < gte →
      AgreeOn file.bytes file'.bytes (gte * sectorSize) (L.storedBytes file.bytes gte)
  directory : ∀ i < L.tables, L.dirEntry file'.bytes i = L.dirEntry file.bytes i ∨
    L.dirEntry file.bytes i ≠ 0 ∧ L.Unusable file'.bytes (L.dirEntry file'.bytes i)
  entries : ∀ i < L.tables, ∀ j < L.numGtesPerGt, ∀ p, p = L.dirEntry file.bytes i → p ≠ 0 →
    tableEntry file'.bytes p j = tableEntry file.bytes p j ∨ tableEntry file'.bytes p j ≤ 1

/-! ## The header and the parts of the damaged image -/

/-- A VMDK4 header is neither a COWD nor a seSparse one, so `open` takes it for VMDK4. -/
theorem open_vmdk4 {file : Source} {hdrBytes : List UInt8} {hdr : SparseExtentHeader}
    (hread : file.readExactAt 0 512 = .ok hdrBytes)
    (hparse : SparseExtentHeader.parse hdrBytes = .ok hdr) :
    VmdkReader.open file = VmdkReader.openVmdk4 file hdrBytes := by
  obtain ⟨hcowd, hse⟩ := magic_ne (SparseExtentHeader.parse_magic hparse)
  unfold VmdkReader.open
  rw [hread]
  simp only [fromIo, Except.mapError, bind, Except.bind]
  rw [if_neg hcowd, if_neg hse]

section Damage
variable {L : TableLayout} {file file' : Source}

/-- What `open` read of a file with the VMDK4 magic. -/
theorem open_of_magic {r : VmdkReader} (hmagic : numAt 4 file.bytes 0 = Header.magic)
    (hopen : VmdkReader.open file = .ok r) :
    ∃ hdrBytes hdr desc gdOffset gdBytes, file.readExactAt 0 512 = .ok hdrBytes ∧
      SparseExtentHeader.parse hdrBytes = .ok hdr ∧ Vmdk4Parts file hdr desc gdOffset gdBytes ∧
      r = (VmdkReader.vmdk4Image file hdr desc gdBytes).reader := by
  obtain ⟨hcowd, hse⟩ := magic_ne hmagic
  obtain ⟨hdrBytes, hread, ⟨h, -⟩ | ⟨-, ⟨h, -⟩ | ⟨-, hvmdk4⟩⟩⟩ := open_cases hopen
  · exact absurd h hcowd
  · exact absurd h hse
  · obtain ⟨hdr, desc, gdOffset, gdBytes, hparse, hp, rfl⟩ := openVmdk4_eq_ok.mp hvmdk4
    exact ⟨hdrBytes, hdr, desc, gdOffset, gdBytes, hread, hparse, hp, rfl⟩

/-- An image that passes the forensic check is VMDK4. -/
theorem open_validated {r : VmdkReader} (hopen : VmdkReader.open file = .ok r)
    (hvalid : VmdkIntegrity.validateRgd file = .ok true) :
    ∃ hdrBytes hdr desc gdOffset gdBytes, file.readExactAt 0 512 = .ok hdrBytes ∧
      SparseExtentHeader.parse hdrBytes = .ok hdr ∧ Vmdk4Parts file hdr desc gdOffset gdBytes ∧
      r = (VmdkReader.vmdk4Image file hdr desc gdBytes).reader := by
  have hlayout := hvalid
  unfold VmdkIntegrity.validateRgd at hlayout
  obtain ⟨layout, hlayout, hrest⟩ := bind_eq_ok.mp hlayout
  cases layout with
  | none => cases hrest
  | some layout =>
    obtain ⟨hdr, gdOffset, gd, hparts, rfl⟩ := VmdkIntegrity.sparseLayout_eq_some.mp hlayout
    obtain ⟨hdrBytes, hread, hparse⟩ := hparts.header
    rw [open_vmdk4 hread hparse] at hopen
    obtain ⟨hdr', desc, gdOffset, gdBytes, hparse', hp, rfl⟩ := openVmdk4_eq_ok.mp hopen
    rw [hparse] at hparse'
    cases hparse'
    exact ⟨hdrBytes, hdr, desc, gdOffset, gdBytes, hread, hparse, hp, rfl⟩

/-- The descriptor is read from its first sectors only, 64 KiB at most. -/
theorem readDescriptor_length (sectors : Nat) :
    min ((checkedMul sectors sectorSize).getD VmdkReader.maxDescriptorBytes)
        VmdkReader.maxDescriptorBytes =
      min (sectors * sectorSize) VmdkReader.maxDescriptorBytes := by
  unfold checkedMul VmdkReader.maxDescriptorBytes u64Size
  split
  · rfl
  · rw [Option.getD_none]
    omega

theorem readDescriptor_congr {hdr : SparseExtentHeader} (hdamage : Damaged L file file')
    (h : AgreeOn file.bytes file'.bytes (hdr.descriptorOffset * sectorSize)
      (min (hdr.descriptorSize * sectorSize) VmdkReader.maxDescriptorBytes)) :
    VmdkReader.readDescriptor file' hdr = VmdkReader.readDescriptor file hdr := by
  unfold VmdkReader.readDescriptor
  simp only [readDescriptor_length, Source.readExactAt_congr hdamage.length hdamage.seekable h]

theorem footerGdOffset_congr {hdr : SparseExtentHeader} (hdamage : Damaged L file file')
    (h : hdr.gdOffset = Header.gdAtEnd →
      AgreeOn file.bytes file'.bytes (file.bytes.length - 1024) 512) :
    VmdkReader.footerGdOffset file' hdr = VmdkReader.footerGdOffset file hdr := by
  unfold VmdkReader.footerGdOffset Source.seekEnd Source.len
  rw [hdamage.length]
  split
  · next hend =>
    split
    · simp only [fromIo, Except.mapError, bind, Except.bind,
        Source.readExactAt_congr hdamage.length hdamage.seekable (h hend)]
    · rfl
  · rfl

variable {hdrBytes : List UInt8} {hdr : SparseExtentHeader} {desc : TextDescriptor}
  {gdOffset : Nat} {gdBytes : List UInt8}

/-- **The damaged image opens**, with the header and the descriptor of the sound one. -/
theorem Damaged.opens (hdamage : Damaged L file file')
    (hread : file.readExactAt 0 512 = .ok hdrBytes)
    (hparse : SparseExtentHeader.parse hdrBytes = .ok hdr)
    (hp : Vmdk4Parts file hdr desc gdOffset gdBytes) :
    ∃ gdBytes', Vmdk4Parts file' hdr desc gdOffset gdBytes' ∧
      VmdkReader.open file' = .ok (VmdkReader.vmdk4Image file' hdr desc gdBytes').reader := by
  have hfields := SparseExtentHeader.parse_ok hparse
  have hread' : file'.readExactAt 0 512 = .ok hdrBytes := by
    rw [Source.readExactAt_congr hdamage.length hdamage.seekable hdamage.header, hread]
  have hdesc : VmdkReader.readDescriptor file' hdr = .ok desc := by
    rw [← hp.descriptor]
    refine readDescriptor_congr hdamage ?_
    rw [hfields.descriptorOffset, hfields.descriptorSize, header_field hread (by decide),
      header_field hread (by decide)]
    exact hdamage.descriptor
  have hfooter : VmdkReader.footerGdOffset file' hdr = .ok gdOffset := by
    rw [← hp.directoryAt]
    refine footerGdOffset_congr hdamage fun hend => hdamage.footer ?_
    rw [← hend, hfields.gdOffset, header_field hread (by decide)]
  have hgd : file'.readExactAt (gdOffset * sectorSize) (VmdkReader.numGts hdr * 4) =
      .ok (slice file'.bytes (gdOffset * sectorSize) (VmdkReader.numGts hdr * 4)) :=
    Source.readExactAt_ok_of_same_length hdamage.length hdamage.seekable hp.gdRead
  refine ⟨_, ⟨hp.grainSize, hp.capacity, hdesc, hp.grains, hp.tables, hp.gdLen, hp.gdLen_le,
    hfooter, hp.gdStart, hgd⟩, ?_⟩
  rw [open_vmdk4 hread' hparse, openVmdk4_eq_ok]
  exact ⟨hdr, desc, gdOffset, _, hparse, ⟨hp.grainSize, hp.capacity, hdesc, hp.grains, hp.tables,
    hp.gdLen, hp.gdLen_le, hfooter, hp.gdStart, hgd⟩, rfl⟩

end Damage

/-! ## Lookups -/

namespace GrainLookup

/-- The place of a byte of the grain with entry `gte`. -/
def ofGte (inner : Source) (geom : SparseFormat) (gte offsetInGrain : Nat) :
    Except IoError GrainLookup :=
  if gte ≤ 1 then .ok .sparse else ofEntry inner geom gte offsetInGrain

end GrainLookup

namespace Image
variable {im : Image} {inner : Source} {geom : SparseFormat} {i idx e : Nat}

theorem usable_iff {n fileLen sector : Nat} (hn : n < 2 ^ 32) (hs : sector < 2 ^ 32) :
    usable n fileLen sector = true ↔ sector ≠ 0 ∧ sector * sectorSize + n * 4 ≤ fileLen := by
  simp only [usable, bne_iff_ne, ne_eq, Bool.and_eq_true, decide_eq_true_eq]
  unfold satAdd satMul u64Max u64Size sectorSize
  omega

/-- The entry of a table that lies in the file. -/
theorem readGt_of_le {n sector : Nat} (hidx : idx < n)
    (hin : sector * sectorSize + n * 4 ≤ inner.len) :
    ∃ gt, readGt inner n sector = .ok gt ∧ gt.getD idx 0 = tableEntry inner.bytes sector idx := by
  have hgt : readGt inner n sector =
      .ok (leTable 4 (slice inner.bytes (sector * sectorSize) (n * 4))) := by
    unfold readGt
    rw [Source.readExactAt_of_le hin]
    rfl
  exact ⟨_, hgt, readGt_getD hidx hgt⟩

/-- What recovery has at hand for entry `idx` of table `i` where the sound image has entry `e`:
neither directory has a table, or the redundant table is whole and has `e`, and the primary one is
unusable or has `e`, 0 or 1. -/
def Recovers (im : Image) (inner : Source) (geom : SparseFormat) (i idx e : Nat) : Prop :=
  let p := geom.grainDir.getD i 0
  let len := geom.numGtesPerGt * 4
  ∃ r, im.rgdDirEntry inner i inner.len = .ok r ∧
    (r = 0 ∧ p = 0 ∧ e = 0 ∨
      r ≠ 0 ∧ r < 2 ^ 32 ∧ r * sectorSize + len ≤ inner.len ∧ tableEntry inner.bytes r idx = e ∧
        (p = 0 ∨ inner.len < p * sectorSize + len ∨
          tableEntry inner.bytes p idx = e ∨ tableEntry inner.bytes p idx ≤ 1))

/-- The table that recovery settles on is whole, and has `e`, 0 or 1. -/
theorem resilientGtSector_recovers {p r n : Nat} (hn : n < 2 ^ 32) (hp : p < 2 ^ 32)
    (hr : im.rgdDirEntry inner i inner.len = .ok r) (h0 : r ≠ 0) (hr32 : r < 2 ^ 32)
    (hin : r * sectorSize + n * 4 ≤ inner.len) (he : tableEntry inner.bytes r idx = e)
    (hcase : p = 0 ∨ inner.len < p * sectorSize + n * 4 ∨
      tableEntry inner.bytes p idx = e ∨ tableEntry inner.bytes p idx ≤ 1) :
    ∃ s, im.resilientGtSector inner i p n = .ok s ∧ s ≠ 0 ∧ s * sectorSize + n * 4 ≤ inner.len ∧
      (tableEntry inner.bytes s idx = e ∨ tableEntry inner.bytes s idx ≤ 1) := by
  unfold resilientGtSector
  simp only [seekEnd_zero, hr, bind, Except.bind, (usable_iff hn hr32).mpr ⟨h0, hin⟩, if_true]
  split
  · next husable =>
    obtain ⟨hp0, hpin⟩ := (usable_iff hn hp).mp husable
    exact ⟨p, rfl, hp0, hpin, by omega⟩
  · exact ⟨r, rfl, h0, hin, .inl he⟩

/-- A lost entry is replaced by its redundant copy, and an entry at hand is kept. -/
theorem locateIn_recovers {r s o : Nat} {gt : List Nat}
    (hi : i = o / geom.grainSizeBytes / geom.numGtesPerGt)
    (hidx : idx = o / geom.grainSizeBytes % geom.numGtesPerGt)
    (hr : im.rgdDirEntry inner i inner.len = .ok r) (h0 : r ≠ 0)
    (hin : r * sectorSize + geom.numGtesPerGt * 4 ≤ inner.len)
    (he : tableEntry inner.bytes r idx = e) (hgt : gt.getD idx 0 = e ∨ gt.getD idx 0 ≤ 1) :
    (im.locateIn true inner geom o s gt).1 =
      GrainLookup.ofGte inner geom e (o % geom.grainSizeBytes) := by
  have hlt : idx < geom.numGtesPerGt := hidx ▸ Nat.mod_lt _ geom.numGtesPerGt_pos
  have hred : im.rgdGte inner i idx geom.numGtesPerGt = .ok e := by
    rw [rgdGte_present hr h0 hin hlt, ← he]
    rfl
  unfold locateIn recoverEntry GrainLookup.ofGte
  simp only [← hi, ← hidx, hred, Bool.true_and, bind, Except.bind, decide_eq_true_eq]
  by_cases hlost : gt.getD idx 0 ≤ 1
  · rw [if_pos hlost]
    by_cases hcopy : e ≤ 1
    · rw [if_neg (Nat.not_lt.mpr hcopy), if_pos hcopy]
      simp only [pure, Except.pure, if_pos hlost]
    · rw [if_pos (Nat.not_le.mp hcopy), if_neg hcopy]
      simp only [pure, Except.pure, if_neg hcopy]
  · have hkept := hgt.resolve_right hlost
    rw [if_neg hlost]
    simp only [hkept]
    split <;> rfl

/-- **A lookup in recovery mode finds the entry of the sound image.** -/
theorem Recovers.locateSparse {o : Nat} (hn : geom.numGtesPerGt < 2 ^ 32)
    (hi : i = o / geom.grainSizeBytes / geom.numGtesPerGt)
    (hidx : idx = o / geom.grainSizeBytes % geom.numGtesPerGt)
    (h : im.Recovers inner geom i idx e) :
    (im.locateSparse true inner geom o).1 =
      GrainLookup.ofGte inner geom e (o % geom.grainSizeBytes) := by
  have hlt : idx < geom.numGtesPerGt := hidx ▸ Nat.mod_lt _ geom.numGtesPerGt_pos
  obtain ⟨r, hr, ⟨rfl, hp, rfl⟩ | ⟨h0, hr32, hin, he, hcase⟩⟩ := h
  · unfold Image.locateSparse gtSectorFor resilientGtSector
    simp only [← hi, hp, seekEnd_zero, hr, usable_zero, bind, Except.bind]
    rfl
  · obtain ⟨s, hs, hs0, hsin, hentry⟩ :=
      resilientGtSector_recovers hn (geom.table_lt i) hr h0 hr32 hin he hcase
    obtain ⟨gt, hgt, hgetD⟩ := readGt_of_le hlt hsin
    unfold Image.locateSparse gtSectorFor
    simp only [← hi, if_true, hs, if_neg hs0, hgt]
    exact locateIn_recovers hi hidx hr h0 hin he (hgetD ▸ hentry)

/-- The lookup outside recovery mode, in a file that holds the table whole. -/
theorem locateSparse_whole {o p : Nat}
    (hi : geom.grainDir.getD (o / geom.grainSizeBytes / geom.numGtesPerGt) 0 = p)
    (hidx : idx = o / geom.grainSizeBytes % geom.numGtesPerGt)
    (h : p = 0 ∧ e = 0 ∨ p ≠ 0 ∧ p * sectorSize + geom.numGtesPerGt * 4 ≤ inner.len ∧
      tableEntry inner.bytes p idx = e) :
    (im.locateSparse false inner geom o).1 =
      GrainLookup.ofGte inner geom e (o % geom.grainSizeBytes) := by
  have hlt : idx < geom.numGtesPerGt := hidx ▸ Nat.mod_lt _ geom.numGtesPerGt_pos
  unfold Image.locateSparse gtSectorFor GrainLookup.ofGte
  simp only [Bool.false_eq_true, if_false, hi]
  rcases h with ⟨rfl, rfl⟩ | ⟨h0, hin, he⟩
  · rfl
  · obtain ⟨gt, hgt, hgetD⟩ := readGt_of_le hlt hin
    simp only [if_neg h0, hgt, locateIn, recoverEntry, Bool.false_and, Bool.false_eq_true, if_false,
      ← hidx, hgetD, he]
    split <;> rfl

end Image

/-! ## The damaged image against the sound one -/

namespace TableLayout

/-- The entry for grain `idx` of table `i`; 0 where there is no table. -/
def gte (L : TableLayout) (bytes : List UInt8) (i idx : Nat) : Nat :=
  if L.dirEntry bytes i = 0 then 0 else tableEntry bytes (L.dirEntry bytes i) idx

end TableLayout

/-- The layout of a VMDK4 extent in the terms of its header. -/
def headerLayout (hdr : SparseExtentHeader) (gdOffset : Nat) : TableLayout where
  capacity := hdr.capacity
  grainSectors := hdr.grainSize
  numGtesPerGt := hdr.numGtesPerGt
  gdByte := gdOffset * sectorSize
  compressed := hdr.compressed

theorem headerLayout_tables (hdr : SparseExtentHeader) (gdOffset : Nat) :
    (headerLayout hdr gdOffset).tables = VmdkReader.numGts hdr := (numGts_eq hdr).symm

section Exact
variable {file file' : Source} {hdrBytes gdBytes gdBytes' : List UInt8} {hdr : SparseExtentHeader}
  {desc : TextDescriptor} {gdOffset : Nat}

theorem vmdk4Layout_eq (hread : file.readExactAt 0 512 = .ok hdrBytes)
    (hparse : SparseExtentHeader.parse hdrBytes = .ok hdr)
    (hp : Vmdk4Parts file hdr desc gdOffset gdBytes) :
    vmdk4Layout file.bytes = headerLayout hdr gdOffset := by
  have hfields := SparseExtentHeader.parse_ok hparse
  have hcomp := hfields.compressed
  have hgd := footerGdOffset_ok hread hparse hp.directoryAt
  unfold headerLayout
  rw [hcomp, hfields.capacity, hfields.grainSize, hfields.numGtesPerGt, hgd,
    header_field hread (by decide), header_field hread (by decide),
    header_field hread (by decide), header_field hread (by decide)]
  rfl

/-- An entry of the loaded directory is the one in the file. -/
theorem Vmdk4Parts.dirEntry (hp : Vmdk4Parts file hdr desc gdOffset gdBytes) {i : Nat}
    (hi : i < VmdkReader.numGts hdr) :
    (leTable 4 gdBytes).getD i 0 = (headerLayout hdr gdOffset).dirEntry file.bytes i := by
  rw [(Source.readExactAt_ok hp.gdRead).1,
    getD_leTable_slice (by decide) (Source.readExactAt_ok_le (by omega) hp.gdRead) hi]
  rfl

theorem tableEntry_congr {s n j : Nat} (hj : j < n)
    (h : AgreeOn file.bytes file'.bytes (s * sectorSize) (n * 4)) :
    tableEntry file'.bytes s j = tableEntry file.bytes s j := by
  unfold tableEntry numAt
  rw [(h.mono (by omega) (by omega)).slice_eq]

/-- What the forensic check establishes of the sound image, in terms of its bytes. -/
theorem validated_copies (hread : file.readExactAt 0 512 = .ok hdrBytes)
    (hparse : SparseExtentHeader.parse hdrBytes = .ok hdr)
    (hp : Vmdk4Parts file hdr desc gdOffset gdBytes)
    (hvalid : VmdkIntegrity.validateRgd file = .ok true) :
    hdr.rgdOffset ≠ 0 ∧ hdr.rgdOffset ≠ Header.gdAtEnd ∧
      ∃ rgdBytes, file.readExactAt (satMul hdr.rgdOffset sectorSize)
          (VmdkReader.numGts hdr * 4) = .ok rgdBytes ∧
        ∀ i < VmdkReader.numGts hdr, (leTable 4 rgdBytes).getD i 0 = rgdEntry file.bytes i ∧
          satMul hdr.rgdOffset sectorSize = rgdByte file.bytes ∧
          Copies file hdr.numGtesPerGt ((headerLayout hdr gdOffset).dirEntry file.bytes i)
            (rgdEntry file.bytes i) := by
  obtain ⟨h0, hend, rgdBytes, hrgdRead, hcopies⟩ := copies_of_validated hread hparse hp hvalid
  refine ⟨h0, hend, rgdBytes, hrgdRead, fun i hi => ?_⟩
  have hbyte : satMul hdr.rgdOffset sectorSize = rgdByte file.bytes := by
    rw [satMul_of_read (by omega) hrgdRead, (SparseExtentHeader.parse_ok hparse).rgdOffset,
      header_field hread (by decide)]
    rfl
  have hentry : (leTable 4 rgdBytes).getD i 0 = rgdEntry file.bytes i := by
    rw [hbyte] at hrgdRead
    rw [(Source.readExactAt_ok hrgdRead).1,
      getD_leTable_slice (by decide) (Source.readExactAt_ok_le (by omega) hrgdRead) hi]
    rfl
  have hcopy := hcopies i hi
  rw [hp.dirEntry hi, hentry] at hcopy
  exact ⟨hentry, hbyte, hcopy⟩

/-- **Recovery has the entry of the sound image at hand**, whatever was damaged. -/
theorem Damaged.recovers (hdamage : Damaged (headerLayout hdr gdOffset) file file')
    (hread : file.readExactAt 0 512 = .ok hdrBytes)
    (hparse : SparseExtentHeader.parse hdrBytes = .ok hdr)
    (hp : Vmdk4Parts file hdr desc gdOffset gdBytes)
    (hp' : Vmdk4Parts file' hdr desc gdOffset gdBytes')
    (hvalid : VmdkIntegrity.validateRgd file = .ok true) {i idx : Nat}
    (hi : i < VmdkReader.numGts hdr) (hidx : idx < hdr.numGtesPerGt) :
    (VmdkReader.vmdk4Image file' hdr desc gdBytes').Recovers file'
      (VmdkReader.vmdk4Format hdr gdBytes') i idx
      ((headerLayout hdr gdOffset).gte file.bytes i idx) := by
  obtain ⟨h0, hend, rgdBytes, hrgdRead, hcopies⟩ := validated_copies hread hparse hp hvalid
  obtain ⟨hentry, hbyte, hcopy⟩ := hcopies i hi
  have hi' : i < (headerLayout hdr gdOffset).tables := by rwa [headerLayout_tables]
  have hrgdRead' : file'.readExactAt (satMul hdr.rgdOffset sectorSize)
      (VmdkReader.numGts hdr * 4) = .ok rgdBytes := by
    have hagree := hdamage.redundantDirectory
    rw [headerLayout_tables, ← hbyte] at hagree
    rw [Source.readExactAt_congr hdamage.length hdamage.seekable hagree, hrgdRead]
  have hlen : file'.len = file.len := hdamage.length
  refine ⟨_, rgdDirEntry_eq h0 hend rfl hrgdRead' hi, ?_⟩
  rw [hentry, hlen]
  unfold VmdkReader.vmdk4Format TableLayout.gte
  simp only [hp'.dirEntry hi]
  rcases hcopy with ⟨hr, hzero⟩ | ⟨hr, hused, -, hrin, heq⟩
  · refine .inl ⟨hr, ?_, if_pos hzero⟩
    rcases hdamage.directory i hi' with hsame | ⟨hused, -⟩
    · exact hsame.trans hzero
    · exact absurd hzero hused
  · rw [if_neg hused]
    have he : tableEntry file.bytes (rgdEntry file.bytes i) idx =
        tableEntry file.bytes ((headerLayout hdr gdOffset).dirEntry file.bytes i) idx :=
      congrArg leNat (Image.slice_entry hidx heq).symm
    refine .inr ⟨hr, leNat_slice_lt 4 _ _, hrin, ?_, ?_⟩
    · rw [tableEntry_congr hidx (hdamage.redundantTables i hi' hr), he]
    · rcases hdamage.directory i hi' with hsame | ⟨-, hzero | hout⟩
      · rw [hsame]
        exact .inr (.inr (hdamage.entries i hi' idx hidx _ rfl hused))
      · exact .inl hzero
      · exact .inr (.inl (hlen ▸ hout))

section Grain
variable {L : TableLayout} {geom geom' : SparseFormat} {gte off : Nat}

/-- The entry of an untouched grain leads to the same place in both files. -/
theorem ofEntry_congr (hdamage : Damaged L file file') (hcomp : geom.compressed = L.compressed)
    (hcomp' : geom'.compressed = L.compressed)
    (hsize : geom'.grainSizeBytes = geom.grainSizeBytes)
    (h : AgreeOn file.bytes file'.bytes (gte * sectorSize) (L.storedBytes file.bytes gte)) :
    GrainLookup.ofEntry file' geom' gte off = GrainLookup.ofEntry file geom gte off := by
  unfold TableLayout.storedBytes at h
  unfold GrainLookup.ofEntry
  rw [hcomp, hcomp', hsize]
  by_cases hc : L.compressed = true
  · rw [if_pos hc] at h
    have hmarker : AgreeOn file.bytes file'.bytes (gte * sectorSize) 12 :=
      h.mono (Nat.le_refl _) (by omega)
    simp only [if_pos hc, Source.readExactAt_congr hdamage.length hdamage.seekable hmarker]
  · rw [if_neg hc, if_neg hc]

/-- An untouched grain is read alike from both files. -/
theorem fetch_congr [ZlibDecoder] (hdamage : Damaged L file file')
    (hcomp : geom.compressed = L.compressed) {loc : GrainLookup} {n : Nat}
    (hn : off + n ≤ L.grainBytes)
    (h : AgreeOn file.bytes file'.bytes (gte * sectorSize) (L.storedBytes file.bytes gte))
    (hloc : GrainLookup.ofEntry file geom gte off = .ok loc) :
    loc.fetch file' L.grainBytes n = loc.fetch file L.grainBytes n := by
  unfold TableLayout.storedBytes at h
  unfold GrainLookup.ofEntry at hloc
  rw [hcomp] at hloc
  split at hloc
  · next hc =>
    rw [if_pos hc] at h
    simp only [bind_eq_ok] at hloc
    obtain ⟨marker, hread, _, _, hloc⟩ := hloc
    cases hloc
    have hdata : leNat (slice marker 8 4) = numAt 4 file.bytes (gte * sectorSize + 8) := by
      rw [(Source.readExactAt_ok hread).1, slice_slice _ _ _ _ _ (by decide)]
      rfl
    have hpayload : AgreeOn file.bytes file'.bytes (gte * sectorSize + 12)
        (leNat (slice marker 8 4)) := h.mono (by omega) (by rw [hdata]; omega)
    simp only [GrainLookup.fetch, GrainLookup.readCompressedGrain, GrainLookup.decodeGrain,
      Source.readExactAt_congr hdamage.length hdamage.seekable hpayload]
  · next hc =>
    rw [if_neg hc] at h
    cases hloc
    exact Source.readAt_congr hdamage.chunk hdamage.seekable (h.mono (by omega) (by omega))

theorem ofGte_fetch_congr [ZlibDecoder] (hdamage : Damaged L file file') {n : Nat}
    (hcomp : geom.compressed = L.compressed) (hcomp' : geom'.compressed = L.compressed)
    (hsize : geom'.grainSizeBytes = geom.grainSizeBytes) (hn : off + n ≤ L.grainBytes)
    (h : 1 < gte →
      AgreeOn file.bytes file'.bytes (gte * sectorSize) (L.storedBytes file.bytes gte)) :
    GrainLookup.ofGte file' geom' gte off >>= GrainLookup.fetch file' L.grainBytes n =
      GrainLookup.ofGte file geom gte off >>= GrainLookup.fetch file L.grainBytes n := by
  unfold GrainLookup.ofGte
  split
  · rfl
  · next hgte =>
    have hgrain := h (Nat.not_le.mp hgte)
    rw [ofEntry_congr hdamage hcomp hcomp' hsize hgrain]
    cases hloc : GrainLookup.ofEntry file geom gte off with
    | error e => rfl
    | ok loc => exact fetch_congr hdamage hcomp hn hgrain hloc

end Grain

/-- In the sound image a table is absent or whole. -/
theorem validated_whole (hread : file.readExactAt 0 512 = .ok hdrBytes)
    (hparse : SparseExtentHeader.parse hdrBytes = .ok hdr)
    (hp : Vmdk4Parts file hdr desc gdOffset gdBytes)
    (hvalid : VmdkIntegrity.validateRgd file = .ok true) (i idx : Nat)
    (hi : i < VmdkReader.numGts hdr) :
    let p := (headerLayout hdr gdOffset).dirEntry file.bytes i
    let e := (headerLayout hdr gdOffset).gte file.bytes i idx
    p = 0 ∧ e = 0 ∨
      p ≠ 0 ∧ p * sectorSize + hdr.numGtesPerGt * 4 ≤ file.len ∧ tableEntry file.bytes p idx = e := by
  obtain ⟨-, -, _, -, hcopies⟩ := validated_copies hread hparse hp hvalid
  obtain ⟨-, -, hcopy⟩ := hcopies i hi
  unfold TableLayout.gte
  rcases hcopy with ⟨-, hzero⟩ | ⟨-, hused, hin, -, -⟩
  · exact .inl ⟨hzero, if_pos hzero⟩
  · exact .inr ⟨hused, hin, (if_neg hused).symm⟩

theorem readAt_sparse [ZlibDecoder] {im : Image} {inner : Source} {geom : SparseFormat}
    (hfmt : im.fmt = .sparse inner geom) (fallback : Bool) {pos len : Nat}
    (hend : ¬ (im.virtualDiskSize ≤ pos ∨ len = 0)) :
    im.readAt fallback pos len = (im.locateSparse fallback inner geom pos).1 >>=
      GrainLookup.fetch inner geom.grainSizeBytes
        (min (min len (im.virtualDiskSize - pos))
          (geom.grainSizeBytes - pos % geom.grainSizeBytes)) := by
  unfold Image.readAt Image.readAtCounting
  rw [if_neg hend, hfmt]

/-- **Every read of the damaged image in recovery mode is the sound image's.** -/
theorem Damaged.readAt [ZlibDecoder] (hdamage : Damaged (headerLayout hdr gdOffset) file file')
    (hread : file.readExactAt 0 512 = .ok hdrBytes)
    (hparse : SparseExtentHeader.parse hdrBytes = .ok hdr)
    (hp : Vmdk4Parts file hdr desc gdOffset gdBytes)
    (hp' : Vmdk4Parts file' hdr desc gdOffset gdBytes')
    (hvalid : VmdkIntegrity.validateRgd file = .ok true) (pos len : Nat) :
    (VmdkReader.vmdk4Image file' hdr desc gdBytes').readAt true pos len =
      (VmdkReader.vmdk4Image file hdr desc gdBytes).readAt false pos len := by
  by_cases hend : hdr.capacity * sectorSize ≤ pos ∨ len = 0
  · unfold Image.readAt Image.readAtCounting
    exact (congrArg Prod.fst (if_pos hend)).trans (congrArg Prod.fst (if_pos hend)).symm
  have hgpos : 0 < hdr.grainSize := Nat.lt_of_lt_of_le (by decide) hdr.grainSize_ge
  have hgb : 0 < hdr.grainSize * sectorSize := Nat.mul_pos hgpos (by decide)
  obtain ⟨i, hieq⟩ : ∃ i, i = pos / (hdr.grainSize * sectorSize) / hdr.numGtesPerGt := ⟨_, rfl⟩
  obtain ⟨idx, hidxeq⟩ : ∃ j, j = pos / (hdr.grainSize * sectorSize) % hdr.numGtesPerGt := ⟨_, rfl⟩
  obtain ⟨e, heq⟩ : ∃ e, e = (headerLayout hdr gdOffset).gte file.bytes i idx := ⟨_, rfl⟩
  have hi : i < VmdkReader.numGts hdr := by
    rw [hieq, numGts_eq]
    exact table_lt_divCeil hgpos hdr.numGtesPerGt_pos (by decide) (by omega)
  have hidx : idx < hdr.numGtesPerGt := hidxeq ▸ Nat.mod_lt _ hdr.numGtesPerGt_pos
  have hwhole := validated_whole hread hparse hp hvalid i idx hi
  have hfound : ((VmdkReader.vmdk4Image file hdr desc gdBytes).locateSparse false file
      (VmdkReader.vmdk4Format hdr gdBytes) pos).1 = GrainLookup.ofGte file
        (VmdkReader.vmdk4Format hdr gdBytes) e (pos % (hdr.grainSize * sectorSize)) :=
    Image.locateSparse_whole (hieq ▸ hp.dirEntry hi) hidxeq (hieq ▸ heq ▸ hwhole)
  have hrecovered : ((VmdkReader.vmdk4Image file' hdr desc gdBytes').locateSparse true file'
      (VmdkReader.vmdk4Format hdr gdBytes') pos).1 = GrainLookup.ofGte file'
        (VmdkReader.vmdk4Format hdr gdBytes') e (pos % (hdr.grainSize * sectorSize)) :=
    heq ▸ (hdamage.recovers hread hparse hp hp' hvalid hi hidx).locateSparse
      (Nat.lt_of_le_of_lt hdr.numGtesPerGt_le (by decide)) hieq hidxeq
  -- an allocated entry points to a grain that the damage left alone
  have hgrain (hgte : 1 < e) : AgreeOn file.bytes file'.bytes (e * sectorSize)
      ((headerLayout hdr gdOffset).storedBytes file.bytes e) := by
    obtain ⟨-, h0⟩ | ⟨hused, -, hentry⟩ := hwhole
    · omega
    · exact hdamage.grains i (by rwa [headerLayout_tables]) idx hidx hused e
        (heq.trans hentry.symm) hgte
  rw [readAt_sparse rfl true hend, readAt_sparse rfl false hend, hfound, hrecovered]
  exact ofGte_fetch_congr hdamage rfl rfl rfl (Blocks.mod_add_min_le hgb) hgrain

end Exact

/-! ## Runs -/

section Runs
variable {im im' : Image}

/-- `r'` is the damaged reader in recovery mode beside the sound reader `r`. -/
structure Mirrors (im im' : Image) (r r' : VmdkReader) : Prop where
  image : r.toImage = im
  image' : r'.toImage = im'
  fallback : r.rgdFallback = false
  fallback' : r'.rgdFallback = true
  coherent : r.Coherent
  coherent' : r'.Coherent
  pos : r'.pos = r.pos

theorem Mirrors.moves {r r' s s' : VmdkReader} {pos c c' : Nat} (h : Mirrors im im' r r')
    (hm : VmdkReader.Moves r s pos c) (hm' : VmdkReader.Moves r' s' pos c') : Mirrors im im' s s' :=
  ⟨hm.image.trans h.image, hm'.image.trans h.image', hm.fallback.trans h.fallback,
    hm'.fallback.trans h.fallback', hm.coherent, hm'.coherent, hm'.pos.trans hm.pos.symm⟩

theorem mirrors_reader (im im' : Image) : Mirrors im im' im.reader im'.reader.enableRgdFallback :=
  ⟨rfl, rfl, rfl, rfl, VmdkReader.coherent_reader im, VmdkReader.coherent_reader im', rfl⟩

variable [ZlibDecoder]

/-- Readers whose images are read alike answer alike, and stay beside each other. -/
theorem Mirrors.stepIo {r r' : VmdkReader} (h : Mirrors im im' r r')
    (hreads : ∀ pos len, im'.readAt true pos len = im.readAt false pos len)
    (hsize : im'.virtualDiskSize = im.virtualDiskSize) (q : Disk.Request Empty) :
    (r.stepIo q).1 = (r'.stepIo q).1 ∧ Mirrors im im' (r.stepIo q).2 (r'.stepIo q).2 := by
  cases q with
  | seek f =>
    obtain ⟨hans, hm⟩ := VmdkReader.seek_spec h.coherent f
    obtain ⟨hans', hm'⟩ := VmdkReader.seek_spec h.coherent' f
    rw [h.pos, h.image', hsize, ← h.image] at hans' hm'
    exact ⟨congrArg Disk.Answer.sought (hans.trans hans'.symm), h.moves hm hm'⟩
  | read len =>
    obtain ⟨hans, hm⟩ := VmdkReader.read_spec h.coherent len
    obtain ⟨hans', hm'⟩ := VmdkReader.read_spec h.coherent' len
    rw [h.image, h.fallback] at hans hm
    rw [h.image', h.fallback', h.pos, hreads] at hans' hm'
    exact ⟨congrArg Disk.Answer.data (hans.trans hans'.symm), h.moves hm hm'⟩
  | query q => cases q

/-- **Recovery restores a damaged image**: where the sound image passes the forensic check, the
damaged one opens, and in recovery mode answers every seek and read as the sound one does. -/
theorem VmdkReader.recovery_exact {file file' : Source} {r : VmdkReader}
    (hopen : VmdkReader.open file = .ok r) (hvalid : VmdkIntegrity.validateRgd file = .ok true)
    (hdamage : Damaged (vmdk4Layout file.bytes) file file') :
    ∃ r', VmdkReader.open file' = .ok r' ∧ ∀ reqs : List (Disk.Request Empty),
      Machine.run VmdkReader.stepIo r'.enableRgdFallback reqs =
        Machine.run VmdkReader.stepIo r reqs := by
  obtain ⟨hdrBytes, hdr, desc, gdOffset, gdBytes, hread, hparse, hp, rfl⟩ :=
    open_validated hopen hvalid
  rw [vmdk4Layout_eq hread hparse hp] at hdamage
  obtain ⟨gdBytes', hp', hopen'⟩ := hdamage.opens hread hparse hp
  refine ⟨_, hopen', fun reqs => ?_⟩
  have hreads := hdamage.readAt hread hparse hp hp' hvalid
  have hstep (s s' : VmdkReader) (q) (h : Mirrors (VmdkReader.vmdk4Image file hdr desc gdBytes)
      (VmdkReader.vmdk4Image file' hdr desc gdBytes') s s') := h.stepIo hreads rfl q
  exact (Machine.run_eq hstep (mirrors_reader _ _) reqs).symm

end Runs

/-- A directory entry set to 0 and a table entry set to 1, both at the end of the file. -/
theorem damaged_mirroredDisk :
    Damaged (vmdk4Layout (mirroredDisk 11 3).bytes) (mirroredDisk 11 3) (mirroredDisk 0 1) := by
  have hsame {off n : Nat} (h : off + n ≤ 5632) :
      AgreeOn (mirroredDisk 11 3).bytes (mirroredDisk 0 1).bytes off n := by
    refine agreeOn_append ?_
    simp only [List.length_append, SparseExtentHeader.length_toBytes, tableSector, length_padTo,
      length_record]
    simpa [recordWidth, sectorSize] using h
  exact {
    length := by decide +kernel
    chunk := by rw [(mirroredDisk_reads 0 1).1, (mirroredDisk_reads 11 3).1]
    seekable := by rw [(mirroredDisk_reads 0 1).2, (mirroredDisk_reads 11 3).2]
    header := hsame (Nat.le_of_ble_eq_true rfl)
    footer := by decide +kernel
    descriptor := by decide +kernel
    redundantDirectory := by decide +kernel
    redundantTables := by decide +kernel
    grains := by
      have hentries : ∀ i < (vmdk4Layout (mirroredDisk 11 3).bytes).tables,
          ∀ j < (vmdk4Layout (mirroredDisk 11 3).bytes).numGtesPerGt,
            tableEntry (mirroredDisk 11 3).bytes
                ((vmdk4Layout (mirroredDisk 11 3).bytes).dirEntry (mirroredDisk 11 3).bytes i) j ≤ 3 ∧
              (vmdk4Layout (mirroredDisk 11 3).bytes).grainBytes = 4096 ∧
              (vmdk4Layout (mirroredDisk 11 3).bytes).compressed = false := by
        decide +kernel
      intro i hi j hj _ gte hgte _
      obtain ⟨hle, hgrain, hcomp⟩ := hentries i hi j hj
      rw [← hgte] at hle
      refine hsame ?_
      rw [TableLayout.storedBytes, hcomp, hgrain]
      simp only [sectorSize, Bool.false_eq_true, if_false]
      omega
    directory := by decide +kernel
    entries := by
      have hentries : ∀ i < (vmdk4Layout (mirroredDisk 11 3).bytes).tables,
          ∀ j < (vmdk4Layout (mirroredDisk 11 3).bytes).numGtesPerGt,
            tableEntry (mirroredDisk 0 1).bytes
              ((vmdk4Layout (mirroredDisk 11 3).bytes).dirEntry (mirroredDisk 11 3).bytes i) j ≤ 1 := by
        decide +kernel
      intro i hi j hj p hp _
      exact .inr (hp ▸ hentries i hi j hj) }

theorem VmdkReader.recovery_exact_mirroredDisk :
    letI := Stored.decoder
    ∃ r r', VmdkReader.open (mirroredDisk 11 3) = .ok r ∧
      VmdkReader.open (mirroredDisk 0 1) = .ok r' ∧
      ∀ reqs : List (Disk.Request Empty),
        Machine.run VmdkReader.stepIo r'.enableRgdFallback reqs =
          Machine.run VmdkReader.stepIo r reqs := by
  let _ := Stored.decoder
  obtain ⟨r, hr⟩ := exists_of_isOk (x := VmdkReader.open (mirroredDisk 11 3)) (by decide +kernel)
  have hvalid : VmdkIntegrity.validateRgd (mirroredDisk 11 3) = .ok true := by decide +kernel
  obtain ⟨r', hr', hruns⟩ := VmdkReader.recovery_exact hr hvalid damaged_mirroredDisk
  exact ⟨r, r', hr, hr', hruns⟩
