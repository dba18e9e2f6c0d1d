import Vmdk.DescriptorBytes
import Vmdk.Reports
import Vmdk.SparseWriter
import Vmdk.Stored
import Vmdk.Verify

/-! # A written extent is opened

The reader opens the file of a disk exactly when the descriptor in it parses,
and then presents the disk, with and without recovery. The forensic crate finds
nothing wrong with it. -/

open Bytes Text Word

namespace SparseDisk

/-- What the forensic crate finds of the layout. -/
structure Reparsed (d : SparseDisk) (file : Source) (layout : SparseLayout) : Prop where
  grainDir : layout.grainDir = leTable 4 (slice d.directory 0 (d.tables * 4))
  rgdOffset : layout.rgdOffset = d.rgdSector
  gdEntryCount : layout.gdEntryCount = d.tables
  numGtesPerGt : layout.numGtesPerGt = Header.maxNumGtesPerGt
  grainSizeBytes : layout.grainSizeBytes = d.grainBytes
  fileLen : layout.fileLen = file.len

section Opened
variable [ZlibDecoder] {d : SparseDisk} (h : d.Writable) {file : Source} (hfile : file.bytes = d.file)
include h hfile

/-! ## Opening -/

omit h [ZlibDecoder] in
theorem header_read : file.readExactAt 0 512 = .ok (d.header.sector d.grainSector) := by
  have hsector : (d.header.sector d.grainSector).length = 512 :=
    SparseExtentHeader.length_sector _ _
  have hin : 0 + 512 ≤ file.bytes.length := by
    rw [hfile, SparseDisk.file, List.length_append, hsector]
    omega
  rw [Source.readExactAt_of_le hin, hfile, SparseDisk.file, slice_append_left hsector]

omit hfile in
theorem header_parse : SparseExtentHeader.parse (d.header.sector d.grainSector) = .ok d.header := by
  have hparse := SparseExtentHeader.parse_sector h.header_fits d.grainSector []
  rwa [List.append_nil] at hparse

omit h hfile [ZlibDecoder] in
theorem numGts_header (d : SparseDisk) : VmdkReader.numGts d.header = d.tables := by
  have hgrains : divCeil (d.grains.length * d.grainSectors) d.grainSectors = d.grains.length := by
    have hpos : 0 < d.grainSectors := Nat.lt_of_lt_of_le (by decide) d.grainSectors_ge
    unfold divCeil
    rw [if_pos (Nat.mul_mod_left _ _), Nat.mul_div_cancel _ hpos]
  rw [numGts_eq]
  show divCeil (divCeil (d.grains.length * d.grainSectors) d.grainSectors) _ = _
  rw [hgrains]
  rfl

omit h [ZlibDecoder] in
/-- A window at the front of either directory. -/
theorem directory_read {sector : Nat} (hsector : sector = gdSector ∨ sector = d.rgdSector) :
    sector * sectorSize + d.tables * 4 ≤ file.bytes.length ∧
      slice file.bytes (sector * sectorSize) (d.tables * 4) = slice d.directory 0 (d.tables * 4) := by
  have hle : d.tables * 4 ≤ d.directory.length := by
    rw [length_directory]
    exact le_divCeil_mul (by decide)
  have hwindow {pre rest : List UInt8} (hpre : pre.length = sector * sectorSize) :
      sector * sectorSize + d.tables * 4 ≤ (pre ++ (d.directory ++ rest)).length ∧
        slice (pre ++ (d.directory ++ rest)) (sector * sectorSize) (d.tables * 4) =
          slice d.directory 0 (d.tables * 4) := by
    refine ⟨by simp only [List.length_append]; omega, ?_⟩
    rw [← Nat.add_zero (sector * sectorSize), slice_append_right hpre]
    unfold slice
    rw [List.drop_zero, List.drop_zero, List.take_append_of_le_length hle]
  rw [hfile]
  rcases hsector with rfl | rfl
  · rw [file_eq_directory]
    exact hwindow (length_head d)
  · rw [file_eq_directory, ← List.append_assoc]
    refine hwindow ?_
    rw [List.length_append, length_head, length_directory]
    unfold rgdSector
    rw [Nat.add_mul]

/-- What the reparse of the forensic crate finds in the file. -/
theorem layoutParts : VmdkIntegrity.LayoutParts file d.header gdSector
    (slice d.directory 0 (d.tables * 4)) := by
  have hread := header_read hfile
  have hlen : 0 + 512 ≤ file.bytes.length := Source.readExactAt_ok_le (by decide) hread
  obtain ⟨hin, hslice⟩ := directory_read hfile (.inl rfl)
  have htables := h.tables_lt
  have hgts : VmdkIntegrity.layoutNumGts d.header = d.tables := by
    rw [layoutNumGts_eq, numGts_header]
  have hbytes : satMul (VmdkIntegrity.layoutNumGts d.header) 4 = d.tables * 4 := by
    rw [hgts]
    exact satMul_eq (by unfold u64Size; omega)
  have hgd : satMul gdSector sectorSize = gdSector * sectorSize := by decide
  refine ⟨by unfold Source.len sectorSize; omega, ⟨_, hread, header_parse h⟩, ?_, ?_, ?_, ?_⟩
  · rw [hbytes]
    exact h.tables_le
  · exact if_neg (by show ¬ gdSector = Header.gdAtEnd; decide)
  · rw [hbytes, hgd]
    exact Nat.le_trans (Image.satAdd_le _ _) hin
  · rw [hbytes, hgd, Source.readExactAt_of_le hin, hslice]

omit h [ZlibDecoder] in
/-- The reader takes the whole room of the descriptor. -/
theorem readDescriptor_eq : VmdkReader.readDescriptor file d.header =
    asInvalidData (parseTextDescriptor
      (decodeDescriptor (padTo (20 * sectorSize) d.descriptor))) := by
  have hle := d.descriptor_le
  have hroom : (padTo (20 * sectorSize) d.descriptor).length = 20 * sectorSize := by
    rw [length_padTo, Nat.max_eq_right hle]
  have hsector : (d.header.sector d.grainSector).length = 1 * sectorSize :=
    SparseExtentHeader.length_sector _ _
  have hread : file.readExactAt (1 * sectorSize) (20 * sectorSize) =
      .ok (padTo (20 * sectorSize) d.descriptor) := by
    have hin : 1 * sectorSize + 20 * sectorSize ≤ file.bytes.length := by
      rw [hfile, SparseDisk.file]
      simp only [List.length_append, hsector, hroom]
      omega
    rw [Source.readExactAt_of_le hin, hfile, SparseDisk.file, ← Nat.add_zero (1 * sectorSize),
      slice_append_right hsector, slice_append_left hroom]
  have hlength : min ((checkedMul 20 sectorSize).getD VmdkReader.maxDescriptorBytes)
      VmdkReader.maxDescriptorBytes = 20 * sectorSize := by decide
  have hfits : 1 * sectorSize < u64Size := by decide
  unfold VmdkReader.readDescriptor
  rw [show d.header.descriptorOffset = 1 from rfl, show d.header.descriptorSize = 20 from rfl,
    if_neg (by decide), hlength]
  simp only [ensure_of hfits, hread, bind, Except.bind]

/-- **The file is opened exactly when its descriptor parses.** -/
theorem open_iff {r : VmdkReader} : VmdkReader.open file = .ok r ↔ ∃ desc,
    parseTextDescriptor (decodeDescriptor (padTo (20 * sectorSize) d.descriptor)) = .ok desc ∧
      r = (VmdkReader.vmdk4Image file d.header desc (slice d.directory 0 (d.tables * 4))).reader := by
  have hdescriptor (desc : TextDescriptor) : VmdkReader.readDescriptor file d.header = .ok desc ↔
      parseTextDescriptor (decodeDescriptor (padTo (20 * sectorSize) d.descriptor)) =
        .ok desc := by
    rw [readDescriptor_eq hfile]
    exact mapError_eq_ok
  have hparse := header_parse h
  have hparts := layoutParts h hfile
  rw [open_vmdk4 (header_read hfile) hparse, openVmdk4_eq_ok]
  constructor
  · rintro ⟨hdr, desc, gdOffset, gdBytes, hparse', hp, rfl⟩
    rw [hparse] at hparse'
    cases hparse'
    have hat := layoutGdOffset_eq_some.mp hparts.directoryAt
    rw [hp.directoryAt] at hat
    cases hat
    have hgd := (layoutParts_vmdk4Parts hparts hp.descriptor).gdRead
    rw [hp.gdRead] at hgd
    cases hgd
    exact ⟨desc, (hdescriptor desc).mp hp.descriptor, rfl⟩
  · rintro ⟨desc, hdesc, rfl⟩
    exact ⟨_, _, _, _, hparse, layoutParts_vmdk4Parts hparts ((hdescriptor desc).mpr hdesc), rfl⟩

/-- **A file with a written descriptor is opened** with what the descriptor says. -/
theorem open_written {doc : DescriptorDoc} (hdoc : doc.WellFormed) {eol : LineEnd}
    (hutf8 : SaysUtf8 (doc.text eol)) (hstored : d.descriptor = utf8Encode (doc.text eol)) :
    VmdkReader.open file = .ok (VmdkReader.vmdk4Image file d.header (doc.parsed eol)
      (slice d.directory 0 (d.tables * 4))).reader := by
  have hdecode : decodeDescriptor (padTo (20 * sectorSize) d.descriptor) = doc.text eol := by
    rw [hstored]
    exact doc.decode_text hdoc hutf8 _
  have hparse : parseTextDescriptor (decodeDescriptor (padTo (20 * sectorSize) d.descriptor)) =
      .ok (doc.parsed eol) := by
    rw [hdecode]
    exact DescriptorDoc.parse_text hdoc eol
  exact (open_iff h hfile).mpr ⟨_, hparse, rfl⟩

/-! ## Reading -/

theorem holds {im : Image} (hopen : VmdkReader.open file = .ok im.reader) :
    im.Holds false d.content := by
  obtain ⟨im', heq, him⟩ := open_loads hopen
  obtain ⟨_, heq', hshaped⟩ := open_shaped hopen
  have hsame : im' = im := (congrArg VmdkReader.toImage heq).symm
  have hsame' : _ = im := (congrArg VmdkReader.toImage heq').symm
  subst hsame hsame'
  have hlayout := h.layoutOf_file hfile
  refine him.holds hshaped ?_ ?_ ?_
  · rw [hlayout]
    trivial
  · rw [hlayout]
    exact length_content d
  · rw [hlayout, hfile]
    exact fun o ho => ⟨h.content_eq ho, h.tableWhole ho⟩

/-! ## The forensic reports -/

omit h hfile [ZlibDecoder] in
theorem entriesMatch_of_forall {check : Nat → Except IoError Bool} {entries : Nat} (i : Nat)
    (hcheck : ∀ j, i ≤ j → j < i + entries → check j = .ok true) :
    VmdkIntegrity.entriesMatch check i entries = .ok true := by
  induction entries generalizing i with
  | zero => rfl
  | succ entries ih =>
    unfold VmdkIntegrity.entriesMatch
    rw [hcheck i (Nat.le_refl i) (by omega)]
    exact ih (i + 1) fun j hle hlt => hcheck j (by omega) (by omega)

theorem sparseLayout_file : ∃ layout, VmdkIntegrity.sparseLayout file = .ok (some layout) ∧
    Reparsed d file layout := by
  refine ⟨_, VmdkIntegrity.sparseLayout_eq_some.mpr ⟨_, _, _, layoutParts h hfile, rfl⟩, ?_⟩
  refine ⟨rfl, rfl, ?_, rfl, ?_, rfl⟩
  · show VmdkIntegrity.layoutNumGts d.header = _
    rw [layoutNumGts_eq, numGts_header]
  · have hle := d.grainSectors_le
    unfold Header.maxGrainSizeSectors at hle
    exact satMul_eq (by show d.grainSectors * sectorSize < _; unfold sectorSize u64Size; omega)

omit h hfile [ZlibDecoder] in
/-- An entry of the directory, as both copies of it are read. -/
theorem directory_getD {i : Nat} (hi : i < d.tables) (hlt : d.gtSector + i * 4 < 2 ^ 32) :
    (leTable 4 (slice d.directory 0 (d.tables * 4))).getD i 0 = d.gtSector + i * 4 := by
  have hle : 0 + d.tables * 4 ≤ d.directory.length := by
    rw [length_directory, Nat.zero_add]
    exact le_divCeil_mul (by decide)
  have hentry : d.directoryEntries[i]? = some (d.gtSector + i * 4) := by
    unfold directoryEntries
    rw [List.getElem?_map, List.getElem?_range hi]
    rfl
  have hnum : numAt 4 ([] ++ (d.directory ++ [])) (0 + i * 4) = d.gtSector + i * 4 :=
    numAt_entryTable rfl hentry hlt
  rw [List.nil_append, List.append_nil] at hnum
  rw [getD_leTable_slice (by decide) hle hi]
  exact hnum

section Layout
variable {layout : SparseLayout} (hlayout : Reparsed d file layout)
include hlayout

theorem readRgd_file : VmdkIntegrity.readRgd file layout =
    .ok (some (leTable 4 (slice d.directory 0 (d.tables * 4)))) := by
  have hlt := h.grainSector_lt
  have htables := h.tables_lt
  obtain ⟨hin, hslice⟩ := directory_read hfile (.inr rfl)
  have habsent : ¬ (d.rgdSector = 0 ∨ d.rgdSector = Header.gdAtEnd) := by
    unfold grainSector gtSector at hlt
    unfold rgdSector gdSector at hlt ⊢
    unfold Header.gdAtEnd
    omega
  have hbytes : satMul d.tables 4 = d.tables * 4 := satMul_eq (by unfold u64Size; omega)
  have hstart : satMul d.rgdSector sectorSize = d.rgdSector * sectorSize := by
    unfold grainSector gtSector at hlt
    exact satMul_eq (by unfold sectorSize u64Size; omega)
  have hfits : ¬ satAdd (d.rgdSector * sectorSize) (d.tables * 4) > file.len :=
    Nat.not_lt.mpr (Nat.le_trans (Image.satAdd_le _ _) hin)
  unfold VmdkIntegrity.readRgd
  rw [hlayout.rgdOffset, hlayout.gdEntryCount, hlayout.fileLen, if_neg habsent]
  simp only [hbytes, hstart, if_neg hfits, Source.readExactAt_of_le hin, hslice]
  rfl

omit h [ZlibDecoder] in
/-- The tables lie in the file. -/
theorem readGrainTableBytes_file {i : Nat} (hi : i < d.tables) :
    (d.gtSector + i * 4) * sectorSize + Header.maxNumGtesPerGt * 4 ≤ file.bytes.length ∧
      ∃ gt, VmdkIntegrity.readGrainTableBytes file (d.gtSector + i * 4) (layout.numGtesPerGt * 4)
        layout.fileLen = .ok (some gt) := by
  have hend : (d.gtSector + i * 4) * sectorSize + Header.maxNumGtesPerGt * 4 ≤
      file.bytes.length := by
    have hnext : d.gtSector + i * 4 + 4 ≤ d.grainSector := by
      unfold grainSector
      omega
    have hle := Nat.mul_le_mul_right sectorSize hnext
    rw [Nat.add_mul _ 4] at hle
    rw [hfile, file_eq_blobs, List.length_append, length_before_blobs]
    exact Nat.le_trans hle (Nat.le_add_right _ _)
  have hfits : ¬ satAdd ((d.gtSector + i * 4) * sectorSize) (Header.maxNumGtesPerGt * 4) >
      file.len := Nat.not_lt.mpr (Nat.le_trans (Image.satAdd_le _ _) hend)
  refine ⟨hend, slice file.bytes ((d.gtSector + i * 4) * sectorSize)
    (Header.maxNumGtesPerGt * 4), ?_⟩
  rw [hlayout.numGtesPerGt, hlayout.fileLen]
  unfold VmdkIntegrity.readGrainTableBytes
  rw [if_neg hfits, Source.readExactAt_of_le hend]
  rfl

theorem entryMatches_file {i : Nat} (hi : i < d.tables) : VmdkIntegrity.entryMatches file layout
    (leTable 4 (slice d.directory 0 (d.tables * 4))) i = .ok true := by
  have hlt := h.grainSector_lt
  have hentry := directory_getD hi (by unfold grainSector at hlt; omega)
  have hne : d.gtSector + i * 4 ≠ 0 := by
    unfold gtSector rgdSector gdSector
    omega
  obtain ⟨-, gt, hgt⟩ := readGrainTableBytes_file hfile hlayout hi
  unfold VmdkIntegrity.entryMatches
  simp only [hlayout.grainDir, hentry, hne, hgt, false_and, or_false, if_false, bind, Except.bind,
    beq_self_eq_true]
  rfl

end Layout

/-- **The redundant directory of the file passes the check.** -/
theorem validateRgd_file : VmdkIntegrity.validateRgd file = .ok true := by
  obtain ⟨layout, hsparse, hlayout⟩ := sparseLayout_file h hfile
  unfold VmdkIntegrity.validateRgd
  simp only [hsparse, readRgd_file h hfile hlayout, bind, Except.bind]
  refine entriesMatch_of_forall 0 fun i _ hi => entryMatches_file h hfile hlayout ?_
  rwa [Nat.zero_add, hlayout.gdEntryCount] at hi

omit h [ZlibDecoder] in
/-- The grains that a table of an uncompressed extent points to lie in the file. -/
theorem grainsInside_file (hplain : d.deflate = none) {layout : SparseLayout}
    (hlayout : Reparsed d file layout) {k : Nat} (hk : k < d.tables)
    (hlt : d.blobSector d.grains.length < 2 ^ 32) :
    (VmdkIntegrity.vmdk4Walk layout).GrainsInside file (d.gtSector + k * 4) := by
  refine (VmdkIntegrity.vmdk4Walk_grainsInside hlayout.fileLen).mpr fun _ _ j hj hgte => ?_
  rw [hlayout.numGtesPerGt] at hj
  rw [hlayout.grainSizeBytes]
  have hplace : (d.gtSector + k * 4) * sectorSize + j * 4 =
      d.gtSector * sectorSize + (k * Header.maxNumGtesPerGt + j) * 4 := by
    unfold Header.maxNumGtesPerGt sectorSize
    omega
  have hentry : tableEntry file.bytes (d.gtSector + k * 4) j =
      numAt 4 d.file (d.gtSector * sectorSize + (k * Header.maxNumGtesPerGt + j) * 4) := by
    unfold tableEntry numAt
    rw [hfile, hplace]
  rw [hentry] at hgte ⊢
  rcases Nat.lt_or_ge (k * Header.maxNumGtesPerGt + j) d.grains.length with hin | hout
  · obtain ⟨g, hg⟩ : ∃ g, d.grains[k * Header.maxNumGtesPerGt + j]? = some g :=
      ⟨_, List.getElem?_eq_getElem hin⟩
    have he := getElem?_entries hg
    cases g with
    | none =>
      rw [numAt_table he (Nat.two_pow_pos 32)] at hgte
      exact absurd (show 1 < 0 from hgte) (by decide)
    | some bs =>
      have hsector : d.blobSector (k * Header.maxNumGtesPerGt + j) < 2 ^ 32 :=
        Nat.lt_of_le_of_lt (blobSector_mono (Nat.le_of_lt hin)) hlt
      have hblob : d.blob (k * Header.maxNumGtesPerGt + j) bs = bs := by
        unfold blob
        rw [hplain]
      have hend := blob_end (getElem?_blobs hg)
      rw [hblob, d.whole _ (List.mem_of_getElem? hg) bs rfl] at hend
      rw [numAt_table he hsector]
      show _ ≤ file.bytes.length
      rw [hfile]
      exact hend
  · have hroom : (k * Header.maxNumGtesPerGt + j) * 4 + 4 ≤ d.tables * 4 * sectorSize := by
      unfold Header.maxNumGtesPerGt at hj ⊢
      unfold sectorSize
      omega
    rw [numAt_table_beyond hout hroom] at hgte
    exact absurd hgte (by decide)

/-- **The integrity report of an uncompressed extent is clean.** -/
theorem checkIntegrity_file (hplain : d.deflate = none) :
    ∃ report, VmdkIntegrity.checkIntegrity file = .ok report ∧ report.isOk = true := by
  obtain ⟨layout, rgd, hvalid⟩ := validated_of_true (validateRgd_file h hfile)
  obtain ⟨report, hreport, htables⟩ := VmdkIntegrity.integrity_of_validated hvalid
  obtain ⟨layout', hsparse, hlayout⟩ := sparseLayout_file h hfile
  have hsame : layout' = layout := by
    have heq := hvalid.layoutRead
    rw [hsparse] at heq
    exact Option.some.inj (Except.ok.inj heq)
  subst hsame
  refine ⟨report, hreport, IntegrityReport.isOk_iff.mpr ⟨htables, ?_⟩⟩
  rw [VmdkIntegrity.checkIntegrity_layout hsparse] at hreport
  refine (VmdkIntegrity.Walk.run_spec hreport).2.mpr fun gdEntry hmem => ?_
  obtain ⟨i, hi, rfl⟩ := List.mem_iff_getElem.mp hmem
  have hi' : i < d.tables := by
    rw [← hlayout.gdEntryCount, ← VmdkIntegrity.length_grainDir hsparse]
    exact hi
  have hlt := h.grainSector_lt
  have hentry := directory_getD hi' (by unfold grainSector at hlt; omega)
  rw [← hlayout.grainDir, List.getD_eq_getElem?_getD, List.getElem?_eq_getElem hi,
    Option.getD_some] at hentry
  rw [hentry]
  exact grainsInside_file hfile hplain hlayout hi' h.sectors_lt

omit [ZlibDecoder] h in
/-- The header says that it was closed cleanly and not converted. -/
theorem headerProvenance_file : ∃ provenance, VmdkIntegrity.headerProvenance file =
    .ok (some provenance) ∧ VmdkIntegrity.provenanceKinds (some provenance) = [] := by
  have hlength : ¬ file.len < sectorSize := by
    have hin := Source.readExactAt_ok_le (by decide) (header_read hfile)
    show ¬ file.bytes.length < 512
    omega
  have hmagic : leNat (slice (d.header.sector d.grainSector) 0 4) = Header.magic := by
    have hfirst : leNat (slice (d.header.sector d.grainSector ++ []) 0 4) = Header.magic :=
      leNat_record 0 [] rfl rfl (by decide)
    rwa [List.append_nil] at hfirst
  have hclean : slice (d.header.sector d.grainSector) 72 1 = [0] := rfl
  have hnewlines : slice (d.header.sector d.grainSector) 73 4 = [0x0A, 0x20, 0x0D, 0x0A] := rfl
  unfold VmdkIntegrity.headerProvenance
  rw [if_neg hlength, show sectorSize = 512 from rfl, header_read hfile]
  simp only [bind, Except.bind, hmagic, ne_eq, not_true_eq_false, if_false, hclean, hnewlines]
  exact ⟨_, rfl, rfl⟩

/-- **The analysis of an uncompressed extent finds nothing.** -/
theorem analyse_file (hplain : d.deflate = none) : VmdkIntegrity.analyse file = .ok [] := by
  have hvalid := validateRgd_file h hfile
  obtain ⟨layout, rgd, hvalidated⟩ := validated_of_true hvalid
  obtain ⟨recovery, hrecovery, -, hdamaged⟩ := VmdkIntegrity.recovery_of_validated hvalidated
  have hsum := (VmdkIntegrity.balanced_of_recovery hrecovery).damaged
  obtain ⟨integrity, hintegrity, hok⟩ := checkIntegrity_file h hfile hplain
  obtain ⟨htables, hgrains⟩ := IntegrityReport.isOk_iff.mp hok
  obtain ⟨provenance, hprovenance, hheader⟩ := headerProvenance_file (d := d) hfile
  have hmismatch : VmdkIntegrity.rgdMismatch file recovery = .ok false := by
    unfold VmdkIntegrity.rgdMismatch
    rw [hvalid]
    split <;> rfl
  have hrecovered : VmdkIntegrity.recoveryKinds recovery false = [] := by
    unfold VmdkIntegrity.recoveryKinds VmdkIntegrity.findIf
    simp [show recovery.recoverableViaRgd = 0 by omega, show recovery.unrecoverable = 0 by omega]
  have hwalked : VmdkIntegrity.integrityKinds integrity = [] := by
    unfold VmdkIntegrity.integrityKinds VmdkIntegrity.findIf
    simp [htables, hgrains]
  unfold VmdkIntegrity.analyse
  simp only [hprovenance, hrecovery, hmismatch, hintegrity, hheader, hrecovered, hwalked, bind,
    Except.bind]
  rfl

/-! ## Results -/

/-- Recovery changes nothing about an opened file. -/
theorem presents_file {r : VmdkReader} (hopen : VmdkReader.open file = .ok r) :
    r.Presents d.content ∧ r.enableRgdFallback.Presents d.content := by
  obtain ⟨im, rfl, hharmless⟩ :=
    open_harmless hopen (.inr (.inr (.inr (.inr (validateRgd_file h hfile)))))
  exact (holds h hfile hopen).presents hharmless

end Opened

/-- The file can be opened exactly when its descriptor can be parsed, and a caller of its reader sees
the bytes of the disk, in either mode. -/
structure Reopens [ZlibDecoder] (d : SparseDisk) (file : Source) : Prop where
  accepted : (∃ r, VmdkReader.open file = .ok r) ↔ ∃ desc,
    parseTextDescriptor (decodeDescriptor (padTo (20 * sectorSize) d.descriptor)) = .ok desc
  presents : ∀ r, VmdkReader.open file = .ok r →
    r.Presents d.content ∧ r.enableRgdFallback.Presents d.content

/-- The descriptor of a disk of two grains. -/
def sampleDoc : DescriptorDoc where
  createType := "streamOptimized".toList
  cid := 0x7a5cd291
  parentCid := 0xffffffff
  parentFileNameHint := none
  changeTrackPath := some "disk-ctk.vmdk".toList
  extents := [.inr ⟨16, "disk.vmdk".toList⟩]
  ddb := DiskDatabase.thinDisk.toPairs

theorem wellFormed_sampleDoc : sampleDoc.WellFormed where
  createType := by decide
  cid := by decide
  parentCid := by decide
  hint := by decide
  track := by decide
  extents := by decide
  ddb := by decide
  flatFits := by decide
  sparseFits := by decide

theorem length_sampleDoc : (utf8Encode (sampleDoc.text .crlf)).length ≤ 20 * sectorSize := by
  decide +kernel

theorem length_hole (n : Nat) : ∀ bs ∈ (none : Option (List UInt8)), bs.length = n :=
  fun bs hbs => absurd hbs (Option.not_mem_none bs)

theorem length_filled (b : UInt8) :
    ∀ bs ∈ some (List.replicate 4096 b), bs.length = 8 * sectorSize := by
  intro bs hbs
  cases hbs
  exact List.length_replicate

theorem eight_ge : 8 ≤ 8 := Nat.le_refl 8

theorem eight_le : 8 ≤ Header.maxGrainSizeSectors := by decide

theorem whole_sample : ∀ g ∈ [none, some (List.replicate 4096 (7 : UInt8))], ∀ bs ∈ g,
    bs.length = 8 * sectorSize :=
  List.forall_mem_cons.mpr ⟨length_hole _, List.forall_mem_singleton.mpr (length_filled 7)⟩

/-- A disk of two grains, of which the first is not allocated. -/
def sample (deflate : Option (List UInt8 → List UInt8)) : SparseDisk where
  grainSectors := 8
  grains := [none, some (List.replicate 4096 7)]
  descriptor := utf8Encode (sampleDoc.text .crlf)
  deflate := deflate
  trailer := List.replicate 1024 0
  grainSectors_ge := eight_ge
  grainSectors_le := eight_le
  whole := whole_sample
  descriptor_le := length_sampleDoc

theorem trailer_lt (deflate : Option (List UInt8 → List UInt8)) :
    (sample deflate).trailer.length < 2 ^ 32 := by
  show (List.replicate 1024 (0 : UInt8)).length < _
  rw [List.length_replicate]
  decide

/-- An uncompressed disk of moderate size can be written. -/
theorem writable_of_plain [ZlibDecoder] {d : SparseDisk} (hplain : d.deflate = none)
    (htables : d.tables * 4 ≤ VmdkReader.maxGdBytes)
    (hsectors : d.blobSector d.grains.length < 2 ^ 32) : d.Writable where
  tables_le := htables
  sectors_lt := hsectors
  inflates := by
    intro f hf
    rw [hplain] at hf
    exact absurd hf (Option.not_mem_none f)

theorem writable_plain [ZlibDecoder] : (sample none).Writable :=
  writable_of_plain rfl (by decide) (by decide +kernel)

theorem writable_stored : let _ := Stored.decoder
    (sample (some Stored.store)).Writable :=
  letI := Stored.decoder
  { tables_le := by decide
    sectors_lt := by decide +kernel
    inflates := by
      intro f hf g hg bs hbs
      have hlen : bs.length = 4096 := (sample (some Stored.store)).whole g hg bs hbs
      have hread : Stored.readToEnd (Stored.store bs) 4097 = .ok (bs.take 4097) :=
        Stored.readToEnd_store (by omega) 4097
      cases hf
      rw [List.take_of_length_le (by omega)] at hread
      refine ⟨hread, ?_⟩
      show (Stored.store bs).length ≤ 4096 + 65536
      rw [Stored.length_store]
      omega }

/-- **A written disk is opened, and read back byte for byte**, compressed or not. -/
theorem reopens [ZlibDecoder] {d : SparseDisk} (h : d.Writable) {file : Source}
    (hfile : file.bytes = d.file) : Reopens d file where
  accepted := by
    constructor
    · rintro ⟨r, hopen⟩
      obtain ⟨desc, hdesc, -⟩ := (open_iff h hfile).mp hopen
      exact ⟨desc, hdesc⟩
    · rintro ⟨desc, hdesc⟩
      exact ⟨_, (open_iff h hfile).mpr ⟨desc, hdesc, rfl⟩⟩
  presents := fun _ hopen => presents_file h hfile hopen

theorem reopens_sample : let _ := Stored.decoder
    Reopens (sample (some Stored.store)) (Source.ofBytes (sample (some Stored.store)).file
      (writable_stored.length_lt (trailer_lt _))) :=
  letI := Stored.decoder
  reopens writable_stored rfl

/-- What the reader says of a disk with the descriptor `doc`. -/
structure Described (d : SparseDisk) (doc : DescriptorDoc) (eol : LineEnd) (r : VmdkReader) : Prop where
  diskType : r.info.diskType = doc.createType
  cid : r.info.cid = doc.cid
  parentCid : r.info.parentCid = doc.parentCid
  grainSizeSectors : r.info.grainSizeSectors = d.grainSectors
  virtualDiskSize : r.info.virtualDiskSize = d.content.length
  sectorCount : r.info.sectorCount = d.grains.length * d.grainSectors
  compressed : r.info.compressed = d.deflate.isSome
  descriptorText : r.info.descriptorText = doc.text eol
  ddbEntries : r.info.diskDatabase.entries = doc.ddb.map fun e => ("ddb.".toList ++ e.1, e.2)
  diskDatabase : ∀ db : DiskDatabase, doc.ddb = db.toPairs →
    (∀ g ∈ db.geometry, DiskDatabase.GeometryFits g) →
      (∀ g ∈ db.biosGeometry, DiskDatabase.GeometryFits g) →
        r.info.diskDatabase =
          { db with entries := doc.ddb.map fun e => ("ddb.".toList ++ e.1, e.2) }
  changeTrackPath : r.changeTrackPath = doc.changeTrackPath
  parentHint : VmdkChainReader.extractParentFileName r.descriptorText =
    doc.parentFileNameHint.getD []

/-- **A disk written with a descriptor is opened, and says of itself what the descriptor says.** -/
theorem described [ZlibDecoder] {d : SparseDisk} (h : d.Writable) {file : Source}
    (hfile : file.bytes = d.file) {doc : DescriptorDoc} (hdoc : doc.WellFormed) {eol : LineEnd}
    (hutf8 : SaysUtf8 (doc.text eol)) (hstored : d.descriptor = utf8Encode (doc.text eol)) :
    ∃ r, VmdkReader.open file = .ok r ∧ Described d doc eol r := by
  refine ⟨_, open_written h hfile hdoc hutf8 hstored, ?_⟩
  have hentries : (DiskDatabase.parse (doc.text eol)).entries =
      doc.ddb.map fun e => ("ddb.".toList ++ e.1, e.2) := by
    rw [← DescriptorDoc.pairs_text hdoc eol]
    rfl
  exact {
    diskType := rfl
    cid := rfl
    parentCid := rfl
    grainSizeSectors := Nat.mul_div_cancel _ (by decide)
    virtualDiskSize := (length_content d).symm
    sectorCount := Nat.mul_div_cancel _ (by decide)
    compressed := rfl
    descriptorText := rfl
    ddbEntries := hentries
    diskDatabase := by
      intro db hddb hgeometry hbios
      have hpairs := (DescriptorDoc.pairs_text hdoc eol).trans hddb
      rw [hddb]
      exact DiskDatabase.parse_of_pairs hpairs hgeometry hbios
    changeTrackPath := DescriptorDoc.changeTrackPath_text hdoc eol
    parentHint := DescriptorDoc.parentHint_text hdoc eol }

theorem described_sample : let _ := Stored.decoder
    ∃ r, VmdkReader.open (Source.ofBytes (sample (some Stored.store)).file
      (writable_stored.length_lt (trailer_lt _))) = .ok r ∧
      Described (sample (some Stored.store)) sampleDoc .crlf r :=
  letI := Stored.decoder
  described writable_stored rfl wellFormed_sampleDoc (by decide) rfl

/-- The forensic crate finds nothing wrong with a file. -/
structure Clean (file : Source) : Prop where
  rgd : VmdkIntegrity.validateRgd file = .ok true
  integrity : ∃ report, VmdkIntegrity.checkIntegrity file = .ok report ∧ report.isOk = true
  findings : VmdkIntegrity.analyse file = .ok []
  verify : ∀ (reader : VmdkReader) recover, (Cli.verifyImage reader file recover).failed = false

/-- **The forensic crate finds nothing wrong with a written disk** that is not compressed. -/
theorem clean [ZlibDecoder] {d : SparseDisk} (h : d.Writable) (hplain : d.deflate = none)
    {file : Source} (hfile : file.bytes = d.file) : Clean file where
  rgd := validateRgd_file h hfile
  integrity := checkIntegrity_file h hfile hplain
  findings := analyse_file h hfile hplain
  verify := by
    intro reader recover
    obtain ⟨report, hreport, hok⟩ := checkIntegrity_file h hfile hplain
    show Cli.integrityFails recover _ (VmdkIntegrity.checkIntegrity file) = false
    rw [hreport]
    exact if_pos hok

theorem clean_sample : let _ := Stored.decoder
    Clean (Source.ofBytes (sample none).file (writable_plain.length_lt (trailer_lt _))) :=
  letI := Stored.decoder
  clean writable_plain rfl rfl

end SparseDisk
