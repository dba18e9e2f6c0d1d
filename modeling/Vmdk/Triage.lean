import Vmdk.RecoveryExact

/-! # The forensic crate's picture of an image

The forensic crate parses the layout of a VMDK4 file once more, with its own
arithmetic and bounds checks. It finds the index that `open` loads
(`VmdkReader.open_agrees_sparseLayout`). Its triage predicts which directory
entries recovery replaces, as long as the redundant directory is not cut off by
the end of the file (`VmdkReader.triage_predicts`). -/

open Bytes Word

/-! ## One layout, parsed twice -/

/-- The reader of a VMDK4 file holds the layout that the forensic crate found. -/
structure SameLayout (file : Source) (r : VmdkReader) (layout : SparseLayout) : Prop where
  index : ∃ geom, r.fmt = .sparse file geom ∧ geom.grainDir = layout.grainDir ∧
    geom.numGtesPerGt = layout.numGtesPerGt ∧ geom.grainSizeBytes = layout.grainSizeBytes
  entries : r.gdEntryCount = layout.gdEntryCount
  rgdOffset : r.rgdOffset = layout.rgdOffset

/-- The embedded descriptor, where the header names one: the bytes the reader takes of it are in the
file, and parse. -/
def DescriptorReadable (file : Source) : Prop :=
  let start := numAt 8 file.bytes 28 * sectorSize
  let length := min (numAt 8 file.bytes 36 * sectorSize) VmdkReader.maxDescriptorBytes
  numAt 8 file.bytes 28 = 0 ∨ numAt 8 file.bytes 36 = 0 ∨
    start + length ≤ file.len ∧
      (parseTextDescriptor (decodeDescriptor (slice file.bytes start length))).isOk = true

section Layout
variable {file : Source} {hdrBytes gdBytes : List UInt8} {hdr : SparseExtentHeader}
  {gdOffset : Nat}

theorem layoutWith_sameLayout (desc : TextDescriptor) :
    SameLayout file (VmdkReader.vmdk4Image file hdr desc gdBytes).reader
      (VmdkIntegrity.layoutWith file hdr gdBytes) := by
  have hgrain : satMul hdr.grainSize sectorSize = hdr.grainSize * sectorSize := by
    have hle := hdr.grainSize_le
    unfold Header.maxGrainSizeSectors at hle
    exact satMul_eq (by unfold sectorSize u64Size; omega)
  exact ⟨⟨_, rfl, rfl, rfl, hgrain.symm⟩, (layoutNumGts_eq hdr).symm, rfl⟩

/-- What `open` read is what the reparse reads, when there is a table to look for. -/
theorem Vmdk4Parts.layoutParts {desc : TextDescriptor}
    (hread : file.readExactAt 0 512 = .ok hdrBytes)
    (hparse : SparseExtentHeader.parse hdrBytes = .ok hdr)
    (hp : Vmdk4Parts file hdr desc gdOffset gdBytes) (hcap : hdr.capacity ≠ 0) :
    VmdkIntegrity.LayoutParts file hdr gdOffset gdBytes := by
  have htables : 0 < VmdkReader.numGts hdr := by
    rw [numGts_eq]
    have h := lt_divCeil_mul hdr.numGtesPerGt_pos
      (lt_divCeil_mul (Nat.lt_of_lt_of_le (by decide) hdr.grainSize_ge) (Nat.pos_of_ne_zero hcap))
    exact Nat.zero_lt_of_lt h
  have hlen : satMul (VmdkIntegrity.layoutNumGts hdr) 4 = VmdkReader.numGts hdr * 4 := by
    rw [layoutNumGts_eq, satMul_eq hp.gdLen]
  have hin := Source.readExactAt_ok_le (by omega) hp.gdRead
  refine ⟨Source.readExactAt_ok_le (by decide) hread, ⟨hdrBytes, hread, hparse⟩, ?_,
    layoutGdOffset_eq_some.mpr hp.directoryAt, ?_, ?_⟩
  · rw [hlen]
    exact hp.gdLen_le
  · rw [hlen, satMul_eq hp.gdStart]
    exact Nat.le_trans (Image.satAdd_le _ _) hin
  · rw [hlen, satMul_eq hp.gdStart]
    exact hp.gdRead

/-- The descriptor of a file whose header names a readable one. -/
theorem readDescriptor_of_readable (hread : file.readExactAt 0 512 = .ok hdrBytes)
    (hparse : SparseExtentHeader.parse hdrBytes = .ok hdr) (h : DescriptorReadable file) :
    ∃ desc, VmdkReader.readDescriptor file hdr = .ok desc := by
  have hfields := SparseExtentHeader.parse_ok hparse
  have hoff := hfields.descriptorOffset.trans (header_field hread (by decide))
  have hsize := hfields.descriptorSize.trans (header_field hread (by decide))
  unfold VmdkReader.readDescriptor
  by_cases habsent : hdr.descriptorOffset = 0 ∨ hdr.descriptorSize = 0
  · rw [if_pos habsent]
    exact ⟨_, rfl⟩
  rw [not_or] at habsent
  unfold DescriptorReadable at h
  rw [← hoff, ← hsize] at h
  obtain ⟨hin, hok⟩ := (h.resolve_left habsent.1).resolve_left habsent.2
  obtain ⟨desc, hdesc⟩ := exists_of_isOk hok
  have hlt := file.length_lt
  have hfits : hdr.descriptorOffset * sectorSize < u64Size := by
    change _ ≤ file.bytes.length at hin
    unfold u64Size
    omega
  rw [if_neg (not_or.mpr habsent), readDescriptor_length]
  simp only [ensure_of hfits, Source.readExactAt_of_le hin, bind, Except.bind, hdesc]
  exact ⟨desc, rfl⟩

/-- What the reparse read is enough for `open`, when the descriptor can be read too. -/
theorem layoutParts_vmdk4Parts (hp : VmdkIntegrity.LayoutParts file hdr gdOffset gdBytes)
    {desc : TextDescriptor} (hdesc : VmdkReader.readDescriptor file hdr = .ok desc) :
    Vmdk4Parts file hdr desc gdOffset gdBytes := by
  have hfile : file.bytes.length < 2 ^ 63 := file.length_lt
  have hlen : VmdkReader.numGts hdr * 4 ≤ VmdkReader.maxGdBytes := by
    have h := hp.gdLen_le
    rw [layoutNumGts_eq] at h
    exact (satMul_le_iff (by decide)).mp h
  have hcap := capacity_le_of_tables hlen
  have hgrain := hdr.grainSize_le
  have htables := hdr.numGtesPerGt_le
  have hgrains : (hdr.capacity + (hdr.grainSize - 1)) / hdr.grainSize ≤
      hdr.capacity + (hdr.grainSize - 1) := Nat.div_le_self _ _
  have hgdLen : VmdkReader.numGts hdr * 4 < u64Size := Nat.lt_of_le_of_lt hlen (by decide)
  have hexact : satMul (VmdkIntegrity.layoutNumGts hdr) 4 = VmdkReader.numGts hdr * 4 := by
    rw [layoutNumGts_eq, satMul_eq hgdLen]
  have hin := hp.gdInside
  rw [hexact] at hin
  have hstart : gdOffset * sectorSize < u64Size := by
    change satAdd _ _ ≤ file.bytes.length at hin
    unfold satAdd satMul u64Max u64Size at hin
    unfold u64Size
    omega
  have hread := hp.gdRead
  rw [hexact, satMul_eq hstart] at hread
  unfold Header.maxGrainSizeSectors at hgrain
  unfold Header.maxNumGtesPerGt at htables
  have hgrainFits : hdr.grainSize * sectorSize < u64Size :=
    Nat.lt_of_le_of_lt (Nat.mul_le_mul_right _ hgrain) (by decide)
  have hcapFits : hdr.capacity * sectorSize < u64Size := Nat.lt_trans hcap (by decide)
  have hsmall : hdr.capacity + (hdr.grainSize - 1) + (hdr.numGtesPerGt - 1) < u64Size := by
    have hsize : u64Size = 2 ^ 64 := rfl
    unfold sectorSize at hcap
    omega
  exact ⟨hgrainFits, hcapFits, hdesc, by omega, by omega, hgdLen, hlen,
    layoutGdOffset_eq_some.mp hp.directoryAt, hstart, hread⟩

end Layout

/-- **The reader and the forensic crate agree on the layout.** Of a file with the VMDK4 magic and a
capacity, the reparse finds what `open` loads; and `open` loads what the reparse finds, when the
descriptor can be read. -/
theorem VmdkReader.open_agrees_sparseLayout {file : Source}
    (hmagic : numAt 4 file.bytes 0 = Header.magic) (hcap : numAt 8 file.bytes 12 ≠ 0) :
    (∀ r, VmdkReader.open file = .ok r →
      ∃ layout, VmdkIntegrity.sparseLayout file = .ok (some layout) ∧ SameLayout file r layout) ∧
    (∀ layout, VmdkIntegrity.sparseLayout file = .ok (some layout) → DescriptorReadable file →
      ∃ r, VmdkReader.open file = .ok r ∧ SameLayout file r layout) := by
  constructor
  · intro r hopen
    obtain ⟨hdrBytes, hdr, desc, gdOffset, gdBytes, hread, hparse, hp, rfl⟩ :=
      open_of_magic hmagic hopen
    have hcapacity : hdr.capacity ≠ 0 := by
      rw [(SparseExtentHeader.parse_ok hparse).capacity, header_field hread (by decide)]
      exact hcap
    exact ⟨_, VmdkIntegrity.sparseLayout_eq_some.mpr
      ⟨hdr, gdOffset, gdBytes, hp.layoutParts hread hparse hcapacity, rfl⟩,
      layoutWith_sameLayout desc⟩
  · intro layout hlayout hreadable
    obtain ⟨hdr, gdOffset, gdBytes, hp, rfl⟩ := VmdkIntegrity.sparseLayout_eq_some.mp hlayout
    obtain ⟨hdrBytes, hread, hparse⟩ := hp.header
    obtain ⟨desc, hdesc⟩ := readDescriptor_of_readable hread hparse hreadable
    refine ⟨_, ?_, layoutWith_sameLayout desc⟩
    rw [open_vmdk4 hread hparse, openVmdk4_eq_ok]
    exact ⟨hdr, desc, gdOffset, gdBytes, hparse, layoutParts_vmdk4Parts hp hdesc, rfl⟩

theorem VmdkReader.open_agrees_sparseLayout_mirroredDisk :
    (∃ r layout, VmdkReader.open (mirroredDisk 11 3) = .ok r ∧
      VmdkIntegrity.sparseLayout (mirroredDisk 11 3) = .ok (some layout) ∧
      SameLayout (mirroredDisk 11 3) r layout) ∧
    ∀ layout, VmdkIntegrity.sparseLayout (mirroredDisk 11 3) = .ok (some layout) →
      DescriptorReadable (mirroredDisk 11 3) →
      ∃ r, VmdkReader.open (mirroredDisk 11 3) = .ok r ∧ SameLayout (mirroredDisk 11 3) r layout := by
  have hmagic : numAt 4 (mirroredDisk 11 3).bytes 0 = Header.magic := by decide +kernel
  have hcap : numAt 8 (mirroredDisk 11 3).bytes 12 ≠ 0 := by decide +kernel
  obtain ⟨hload, hconverse⟩ := VmdkReader.open_agrees_sparseLayout hmagic hcap
  obtain ⟨r, hr⟩ := exists_of_isOk (x := VmdkReader.open (mirroredDisk 11 3)) (by decide +kernel)
  obtain ⟨layout, hlayout, hsame⟩ := hload r hr
  exact ⟨⟨r, layout, hr, hlayout, hsame⟩, hconverse⟩

/-! ## Which entries recovery replaces -/

namespace Image
variable {im : Image} {file : Source} {geom : SparseFormat} {i : Nat}

/-- Recovery resolves entry `i` of the directory to another table than the primary one. -/
def recovers (im : Image) (inner : Source) (geom : SparseFormat) (i : Nat) : Bool :=
  match im.resilientGtSector inner i (geom.grainDir.getD i 0) geom.numGtesPerGt with
  | .ok sector => sector != geom.grainDir.getD i 0
  | .error _ => false

/-- Entry `i` of the redundant directory as it stands in the file; 0 where it is cut off. -/
def redundantEntry (im : Image) (file : Source) (i : Nat) : Nat :=
  if im.rgdOffset * sectorSize + i * 4 + 4 ≤ file.len then
    numAt 4 file.bytes (im.rgdOffset * sectorSize + i * 4)
  else 0

theorem rgdDirEntry_present (h0 : im.rgdOffset ≠ 0) (hend : im.rgdOffset ≠ Header.gdAtEnd)
    (hi : i < im.gdEntryCount) :
    im.rgdDirEntry file i file.len = .ok (im.redundantEntry file i) := by
  have hlt : file.len < 2 ^ 63 := file.length_lt
  have hsize : u64Size = 2 ^ 64 := rfl
  unfold rgdDirEntry redundantEntry
  rw [if_neg (not_or.mpr ⟨h0, hend⟩), if_neg (Nat.not_le.mpr hi)]
  simp only
  by_cases hin : im.rgdOffset * sectorSize + i * 4 + 4 ≤ file.len
  · have hbyte : satAdd (satMul im.rgdOffset sectorSize) (i * 4) =
        im.rgdOffset * sectorSize + i * 4 := by
      unfold satAdd satMul u64Max
      omega
    have hcut : ¬ file.len < satAdd (im.rgdOffset * sectorSize + i * 4) 4 := by
      have := satAdd_le (im.rgdOffset * sectorSize + i * 4) 4
      omega
    rw [hbyte, if_neg hcut, if_pos hin, Source.readExactAt_of_le hin]
    rfl
  · have hcut : file.len < satAdd (satAdd (satMul im.rgdOffset sectorSize) (i * 4)) 4 := by
      unfold satAdd satMul u64Max
      omega
    rw [if_pos hcut, if_neg hin]

/-- Recovery replaces an unusable entry by a usable redundant one, and no other. -/
theorem recovers_iff (h0 : im.rgdOffset ≠ 0) (hend : im.rgdOffset ≠ Header.gdAtEnd)
    (hi : i < im.gdEntryCount) :
    im.recovers file geom i = true ↔
      usable geom.numGtesPerGt file.len (geom.grainDir.getD i 0) = false ∧
        usable geom.numGtesPerGt file.len (im.redundantEntry file i) = true := by
  have hr : im.rgdDirEntry file i file.len = .ok (im.redundantEntry file i) :=
    rgdDirEntry_present h0 hend hi
  unfold recovers resilientGtSector
  simp only [seekEnd_zero, hr, bind, Except.bind]
  by_cases hp : usable geom.numGtesPerGt file.len (geom.grainDir.getD i 0) = true
  · simp only [hp, if_true, pure, Except.pure, bne_self_eq_false, Bool.false_eq_true,
      Bool.true_eq_false, false_and]
  · rw [Bool.not_eq_true] at hp
    simp only [hp, Bool.false_eq_true, if_false, true_and]
    by_cases hused : usable geom.numGtesPerGt file.len (im.redundantEntry file i) = true
    · have hne : im.redundantEntry file i ≠ geom.grainDir.getD i 0 := by
        intro heq
        rw [heq, hp] at hused
        cases hused
      simp only [hused, if_true, pure, Except.pure, bne_iff_ne, ne_eq, hne, not_false_eq_true]
    · simp only [hused, if_false, pure, Except.pure, bne_self_eq_false, Bool.false_eq_true]

end Image

/-- The forensic report foretells recovery: entry `i` is classified as recoverable exactly when
recovery replaces it, and the report counts the entries that recovery replaces. -/
def TriagePredicts (file : Source) (im : Image) (geom : SparseFormat) : Prop :=
  ∃ found report, VmdkIntegrity.entryClasses file = .ok found ∧
    VmdkIntegrity.grainDirectoryRecovery file = .ok report ∧
    (∀ i < im.gdEntryCount, im.recovers file geom i = true ↔
      found.bind (·.2[i]?) = some .recoverable) ∧
    report.recoverableViaRgd = (List.range im.gdEntryCount).countP (im.recovers file geom)

/-- The redundant directory is in the file whole, or what is left of it has no use. -/
def RgdWholeOrUnneeded (file : Source) (im : Image) (geom : SparseFormat) : Prop :=
  im.rgdOffset * sectorSize + im.gdEntryCount * 4 ≤ file.len ∨
    ∀ i < im.gdEntryCount,
      Image.usable geom.numGtesPerGt file.len (geom.grainDir.getD i 0) = true ∨
        (im.rgdOffset * sectorSize + i * 4 + 4 ≤ file.len →
          Image.usable geom.numGtesPerGt file.len
            (numAt 4 file.bytes (im.rgdOffset * sectorSize + i * 4)) = false)

section Triage
variable {file : Source} {hdr : SparseExtentHeader} {gdBytes : List UInt8}

/-- The directory of the redundant copy as the forensic crate reads it. -/
theorem readRgd_eq (h0 : hdr.rgdOffset ≠ 0) (hend : hdr.rgdOffset ≠ Header.gdAtEnd)
    (hlen : VmdkReader.numGts hdr * 4 < u64Size) :
    VmdkIntegrity.readRgd file (VmdkIntegrity.layoutWith file hdr gdBytes) =
      if hdr.rgdOffset * sectorSize + VmdkReader.numGts hdr * 4 ≤ file.len then
        .ok (some (leTable 4 (slice file.bytes (hdr.rgdOffset * sectorSize)
          (VmdkReader.numGts hdr * 4))))
      else .ok none := by
  have hcount : (VmdkIntegrity.layoutWith file hdr gdBytes).gdEntryCount =
      VmdkReader.numGts hdr := layoutNumGts_eq hdr
  unfold VmdkIntegrity.readRgd
  simp only [hcount, satMul_eq hlen]
  change (if hdr.rgdOffset = 0 ∨ hdr.rgdOffset = Header.gdAtEnd then _
    else if satAdd (satMul hdr.rgdOffset sectorSize) _ > file.len then _ else _) = _
  rw [if_neg (not_or.mpr ⟨h0, hend⟩)]
  by_cases hin : satAdd (satMul hdr.rgdOffset sectorSize) (VmdkReader.numGts hdr * 4) ≤ file.len
  · obtain ⟨hexact, hwindow⟩ := VmdkIntegrity.sat_window hin
    rw [if_neg (Nat.not_lt.mpr hin), if_pos hwindow]
    change Except.map _ (file.readExactAt (satMul hdr.rgdOffset sectorSize) _) = _
    rw [hexact, Source.readExactAt_of_le hwindow]
    rfl
  · have hout : ¬ hdr.rgdOffset * sectorSize + VmdkReader.numGts hdr * 4 ≤ file.len := by
      intro hle
      exact hin (Nat.le_trans (Nat.le_trans (Image.satAdd_le _ _)
        (Nat.add_le_add_right (Nat.min_le_left _ _) _)) hle)
    rw [if_pos (Nat.not_le.mp hin), if_neg hout]

/-- Entry `i` of the redundant directory, read with the rest of it. -/
theorem redundantEntry_whole {im : Image} {n i : Nat}
    (hin : im.rgdOffset * sectorSize + n * 4 ≤ file.len) (hi : i < n) :
    (leTable 4 (slice file.bytes (im.rgdOffset * sectorSize) (n * 4))).getD i 0 =
      im.redundantEntry file i := by
  unfold Image.redundantEntry
  rw [getD_leTable_slice (by decide) hin hi, if_pos (by omega)]
  rfl

/-- The classes of an image that names a redundant directory: beside a whole directory each entry
is classified with its copy, beside a cut one by itself. -/
theorem layoutClasses_eq {im : Image} (h0 : hdr.rgdOffset ≠ 0)
    (hend : hdr.rgdOffset ≠ Header.gdAtEnd) (hlen : VmdkReader.numGts hdr * 4 < u64Size)
    (him : im.rgdOffset = hdr.rgdOffset) :
    let layout := VmdkIntegrity.layoutWith file hdr gdBytes
    VmdkIntegrity.layoutClasses file layout = .ok (some (
      if hdr.rgdOffset * sectorSize + VmdkReader.numGts hdr * 4 ≤ file.len then
        (List.range (VmdkReader.numGts hdr)).map fun i =>
          VmdkIntegrity.classify layout ((leTable 4 gdBytes).getD i 0) (im.redundantEntry file i)
      else (leTable 4 gdBytes).map (VmdkIntegrity.classifyAlone layout))) := by
  intro layout
  have hcount : layout.gdEntryCount = VmdkReader.numGts hdr := layoutNumGts_eq hdr
  have hoff : ¬ (layout.rgdOffset = 0 ∨ layout.rgdOffset = Header.gdAtEnd) := not_or.mpr ⟨h0, hend⟩
  unfold VmdkIntegrity.layoutClasses
  rw [readRgd_eq h0 hend hlen, hcount]
  split
  · next hin =>
    simp only [bind, Except.bind, pure, Except.pure]
    refine congrArg (fun l => Except.ok (some l)) (List.map_congr_left fun i hi => ?_)
    rw [← him] at hin ⊢
    rw [redundantEntry_whole hin (List.mem_range.mp hi)]
    rfl
  · simp only [bind, Except.bind, pure, Except.pure]
    rfl

theorem classify_recoverable {layout : SparseLayout} {p r : Nat} :
    VmdkIntegrity.classify layout p r = .recoverable ↔
      Image.usable layout.numGtesPerGt layout.fileLen p = false ∧
        Image.usable layout.numGtesPerGt layout.fileLen r = true := by
  have hsame (s : Nat) : VmdkIntegrity.inBounds s layout.numGtesPerGt layout.fileLen =
      Image.usable layout.numGtesPerGt layout.fileLen s := rfl
  unfold VmdkIntegrity.classify
  simp only [hsame]
  by_cases hp : Image.usable layout.numGtesPerGt layout.fileLen p = true
  · simp only [hp, true_or, if_true, reduceCtorEq, Bool.true_eq_false, false_and]
  rw [Bool.not_eq_true] at hp
  by_cases hr : Image.usable layout.numGtesPerGt layout.fileLen r = true
  · have hr0 : r ≠ 0 := by
      intro h0
      rw [h0, Image.usable_zero] at hr
      cases hr
    simp only [hp, hr, hr0, and_false, or_false, Bool.false_eq_true, if_false, if_true, and_self]
  · simp only [hp, hr, Bool.false_eq_true, if_false, false_or, and_false, iff_false]
    split <;> exact fun h => by cases h

theorem classifyAlone_ne {layout : SparseLayout} {p : Nat} :
    VmdkIntegrity.classifyAlone layout p ≠ .recoverable := by
  unfold VmdkIntegrity.classifyAlone
  split <;> exact fun h => by cases h

/-- The report of classified entries counts the recoverable and the unrecoverable ones. -/
theorem report_of_classes {n : Nat} {classes : List VmdkIntegrity.EntryClass}
    (h : VmdkIntegrity.entryClasses file = .ok (some (n, classes))) :
    ∃ report, VmdkIntegrity.grainDirectoryRecovery file = .ok report ∧
      report.recoverableViaRgd = classes.count .recoverable ∧
      report.unrecoverable = classes.count .unrecoverable := by
  unfold VmdkIntegrity.grainDirectoryRecovery
  rw [h]
  refine ⟨_, rfl, ?_⟩
  rw [GdRecoveryReport.count_foldl]
  exact ⟨Nat.zero_add _, Nat.zero_add _⟩

theorem entryClasses_eq {classes : List VmdkIntegrity.EntryClass}
    (hlayout : VmdkIntegrity.sparseLayout file =
      .ok (some (VmdkIntegrity.layoutWith file hdr gdBytes)))
    (h : VmdkIntegrity.layoutClasses file (VmdkIntegrity.layoutWith file hdr gdBytes) =
      .ok (some classes)) :
    VmdkIntegrity.entryClasses file = .ok (some (VmdkReader.numGts hdr, classes)) := by
  unfold VmdkIntegrity.entryClasses
  rw [hlayout]
  simp only [bind, Except.bind, h]
  rw [← layoutNumGts_eq]
  rfl

/-- A prediction in terms of the classes that were found. -/
theorem triagePredicts_iff {im : Image} {geom : SparseFormat} {n : Nat}
    {classes : List VmdkIntegrity.EntryClass}
    (h : VmdkIntegrity.entryClasses file = .ok (some (n, classes))) :
    TriagePredicts file im geom ↔
      (∀ i < im.gdEntryCount, im.recovers file geom i = true ↔ classes[i]? = some .recoverable) ∧
        classes.count .recoverable =
          (List.range im.gdEntryCount).countP (im.recovers file geom) := by
  obtain ⟨report, hreport, hcount, -⟩ := report_of_classes h
  constructor
  · rintro ⟨found, report', hfound, hreport', hentries, htotal⟩
    rw [h] at hfound
    cases hfound
    rw [hreport] at hreport'
    cases hreport'
    exact ⟨hentries, hcount ▸ htotal⟩
  · rintro ⟨hentries, htotal⟩
    exact ⟨_, report, h, hreport, hentries, hcount.trans htotal⟩

variable {im : Image} {geom : SparseFormat}

/-- Beside a whole directory both sides look at the same two entries. -/
theorem predicts_of_whole {layout : SparseLayout} (h0 : im.rgdOffset ≠ 0)
    (hend : im.rgdOffset ≠ Header.gdAtEnd) (hn : layout.numGtesPerGt = geom.numGtesPerGt)
    (hlen : layout.fileLen = file.len) {classes : List VmdkIntegrity.EntryClass}
    (hclasses : classes = (List.range im.gdEntryCount).map fun i =>
      VmdkIntegrity.classify layout (geom.grainDir.getD i 0) (im.redundantEntry file i)) :
    (∀ i < im.gdEntryCount, im.recovers file geom i = true ↔ classes[i]? = some .recoverable) ∧
      classes.count .recoverable =
        (List.range im.gdEntryCount).countP (im.recovers file geom) := by
  have hsame (i : Nat) (hi : i < im.gdEntryCount) : im.recovers file geom i = true ↔
      VmdkIntegrity.classify layout (geom.grainDir.getD i 0) (im.redundantEntry file i) =
        .recoverable := by
    rw [Image.recovers_iff h0 hend hi, classify_recoverable, hn, hlen]
  subst hclasses
  constructor
  · intro i hi
    rw [hsame i hi, List.getElem?_map, List.getElem?_range hi, Option.map_some, Option.some.injEq]
  · rw [List.count, List.countP_map]
    refine List.countP_congr fun i hi => ?_
    rw [hsame i (List.mem_range.mp hi)]
    exact beq_iff_eq

/-- An entry that recovery leaves alone. -/
theorem not_recovers_iff (h0 : im.rgdOffset ≠ 0) (hend : im.rgdOffset ≠ Header.gdAtEnd) {i : Nat}
    (hi : i < im.gdEntryCount) :
    ¬ im.recovers file geom i = true ↔
      Image.usable geom.numGtesPerGt file.len (geom.grainDir.getD i 0) = true ∨
        (im.rgdOffset * sectorSize + i * 4 + 4 ≤ file.len →
          Image.usable geom.numGtesPerGt file.len
            (numAt 4 file.bytes (im.rgdOffset * sectorSize + i * 4)) = false) := by
  rw [Image.recovers_iff h0 hend hi, not_and_or, Bool.not_eq_false, Bool.not_eq_true]
  refine or_congr_right ?_
  unfold Image.redundantEntry
  split
  · next hin => exact ⟨fun h _ => h, fun h => h hin⟩
  · next hcut => exact ⟨fun _ h => absurd h hcut, fun _ => Image.usable_zero _ _⟩

/-- Where no entry is classified as recoverable, the prediction is that none is replaced. -/
theorem predicts_of_none {classes : List VmdkIntegrity.EntryClass}
    (hnone : ∀ c ∈ classes, c ≠ .recoverable) :
    ((∀ i < im.gdEntryCount, im.recovers file geom i = true ↔ classes[i]? = some .recoverable) ∧
        classes.count .recoverable =
          (List.range im.gdEntryCount).countP (im.recovers file geom)) ↔
      ∀ i < im.gdEntryCount, ¬ im.recovers file geom i = true := by
  have hget (i : Nat) : ¬ classes[i]? = some .recoverable :=
    fun h => hnone _ (List.mem_of_getElem? h) rfl
  constructor
  · rintro ⟨hentries, -⟩ i hi hrec
    exact hget i ((hentries i hi).mp hrec)
  · intro hrec
    refine ⟨fun i hi => ⟨fun h => absurd h (hrec i hi), fun h => absurd h (hget i)⟩, ?_⟩
    rw [List.count_eq_zero.mpr fun h => hnone _ h rfl, eq_comm, List.countP_eq_zero]
    exact fun i hi => hrec i (List.mem_range.mp hi)

end Triage

/-- **Triage predicts recovery exactly when the redundant directory is in the file whole**, or what
the end of the file left of it has no use. -/
theorem VmdkReader.triage_predicts {file : Source} {r : VmdkReader} {geom : SparseFormat}
    (hmagic : numAt 4 file.bytes 0 = Header.magic) (hopen : VmdkReader.open file = .ok r)
    (hfmt : r.fmt = .sparse file geom) (h0 : r.rgdOffset ≠ 0)
    (hend : r.rgdOffset ≠ Header.gdAtEnd) :
    TriagePredicts file r.toImage geom ↔ RgdWholeOrUnneeded file r.toImage geom := by
  obtain ⟨hdrBytes, hdr, desc, gdOffset, gdBytes, hread, hparse, hp, rfl⟩ :=
    open_of_magic hmagic hopen
  cases hfmt
  generalize him : (VmdkReader.vmdk4Image file hdr desc gdBytes).reader.toImage = im
  have hrgd : im.rgdOffset = hdr.rgdOffset := by rw [← him]; rfl
  have hcount : im.gdEntryCount = VmdkReader.numGts hdr := by rw [← him]; rfl
  change hdr.rgdOffset ≠ 0 at h0
  change hdr.rgdOffset ≠ Header.gdAtEnd at hend
  rw [← hrgd] at h0 hend
  obtain ⟨layout, hlayout⟩ := VmdkIntegrity.sparseLayout_ok file
  cases layout with
  | none =>
    -- the reparse finds the layout of every image with a table
    have hzero : im.gdEntryCount = 0 := by
      by_contra hne
      have hcap : hdr.capacity ≠ 0 := by
        intro hcap
        rw [hcount, numGts_eq, hcap, divCeil_zero, divCeil_zero] at hne
        exact hne rfl
      have hparts := hp.layoutParts hread hparse hcap
      rw [VmdkIntegrity.sparseLayout_eq_some.mpr ⟨hdr, gdOffset, gdBytes, hparts, rfl⟩] at hlayout
      cases hlayout
    have hnone : VmdkIntegrity.entryClasses file = .ok none := by
      unfold VmdkIntegrity.entryClasses
      rw [hlayout]
      rfl
    have hreport : VmdkIntegrity.grainDirectoryRecovery file = .ok .default := by
      unfold VmdkIntegrity.grainDirectoryRecovery
      rw [hnone]
      rfl
    refine iff_of_true ⟨none, _, hnone, hreport, fun i hi => ?_, ?_⟩ (.inr fun i hi => ?_)
    · omega
    · rw [hzero]
      rfl
    · omega
  | some layout =>
    obtain rfl := sparseLayout_eq hread hparse hp hlayout
    rw [triagePredicts_iff (entryClasses_eq hlayout
      (layoutClasses_eq (hrgd ▸ h0) (hrgd ▸ hend) hp.gdLen hrgd))]
    by_cases hwhole : hdr.rgdOffset * sectorSize + VmdkReader.numGts hdr * 4 ≤ file.len
    · rw [if_pos hwhole]
      have hclasses := congrArg (fun n => (List.range n).map fun i =>
        VmdkIntegrity.classify (VmdkIntegrity.layoutWith file hdr gdBytes)
          ((leTable 4 gdBytes).getD i 0) (im.redundantEntry file i)) hcount.symm
      exact iff_of_true (predicts_of_whole h0 hend rfl rfl hclasses) (.inl (by rwa [hcount, hrgd]))
    · rw [if_neg hwhole, predicts_of_none]
      · have hcut : ¬ im.rgdOffset * sectorSize + im.gdEntryCount * 4 ≤ file.len := by
          rwa [hcount, hrgd]
        rw [RgdWholeOrUnneeded, or_iff_right hcut]
        exact forall₂_congr fun i hi => not_recovers_iff h0 hend hi
      · intro c hc
        obtain ⟨p, -, rfl⟩ := List.mem_map.mp hc
        exact classifyAlone_ne

/-- A VMDK4 image has an index of 4-byte entries, and its redundant directory where byte 48 says. -/
theorem open_of_magic_index {file : Source} {r : VmdkReader}
    (hmagic : numAt 4 file.bytes 0 = Header.magic) (hopen : VmdkReader.open file = .ok r) :
    ∃ geom, r.fmt = .sparse file geom ∧ r.rgdOffset = numAt 8 file.bytes 48 := by
  obtain ⟨hdrBytes, hdr, desc, gdOffset, gdBytes, hread, hparse, -, rfl⟩ :=
    open_of_magic hmagic hopen
  refine ⟨_, rfl, ?_⟩
  change hdr.rgdOffset = _
  rw [(SparseExtentHeader.parse_ok hparse).rgdOffset, header_field hread (by decide)]

theorem VmdkReader.triage_predicts_mirroredDisk :
    ∃ r geom, VmdkReader.open (mirroredDisk 0 3) = .ok r ∧ r.fmt = .sparse (mirroredDisk 0 3) geom ∧
      (TriagePredicts (mirroredDisk 0 3) r.toImage geom ↔
        RgdWholeOrUnneeded (mirroredDisk 0 3) r.toImage geom) := by
  have hmagic : numAt 4 (mirroredDisk 0 3).bytes 0 = Header.magic := by decide +kernel
  have hrgd : numAt 8 (mirroredDisk 0 3).bytes 48 = 1 := by decide +kernel
  obtain ⟨r, hr⟩ := exists_of_isOk (x := VmdkReader.open (mirroredDisk 0 3)) (by decide +kernel)
  obtain ⟨geom, hfmt, hoffset⟩ := open_of_magic_index hmagic hr
  refine ⟨r, geom, hr, hfmt, VmdkReader.triage_predicts hmagic hr hfmt ?_ ?_⟩
  · rw [hoffset, hrgd]
    decide
  · rw [hoffset, hrgd]
    decide

/-- A disk of two tables whose redundant directory, in sector 3, is cut off after its first entry.
That entry points to the table in sector 2; the primary directory is lost. -/
def cutDirectory : Source :=
  .ofBytes ((SparseExtentHeader.plain 40 3 1).toBytes ++ tableSector [0, 0] ++ tableSector [] ++
    leBytes 4 2) (by simp [tableSector, recordWidth, sectorSize])

/-- Recovery replaces the first entry, which the triage takes for intact. -/
theorem triage_misses_cutDirectory :
    ∃ r geom, VmdkReader.open cutDirectory = .ok r ∧ r.fmt = .sparse cutDirectory geom ∧
      r.rgdOffset = 3 ∧ r.recovers cutDirectory geom 0 = true ∧
      VmdkIntegrity.entryClasses cutDirectory = .ok (some (2, [.intact, .intact])) ∧
      ¬ TriagePredicts cutDirectory r.toImage geom := by
  have hmagic : numAt 4 cutDirectory.bytes 0 = Header.magic := by decide +kernel
  have hrgd : numAt 8 cutDirectory.bytes 48 = 3 := by decide +kernel
  have hclasses : VmdkIntegrity.entryClasses cutDirectory = .ok (some (2, [.intact, .intact])) := by
    decide +kernel
  have hrun : (VmdkReader.open cutDirectory).toOption.any (fun r =>
      r.fmt.casesOn (fun inner geom => r.gdEntryCount == 2 && r.recovers inner geom 0)
        (fun _ _ => false) fun _ => false) = true := by decide +kernel
  obtain ⟨r, hr⟩ := exists_of_isOk (x := VmdkReader.open cutDirectory) (by decide +kernel)
  obtain ⟨geom, hfmt, hoffset⟩ := open_of_magic_index hmagic hr
  rw [hr] at hrun
  simp only [Except.toOption, Option.any_some, hfmt, Bool.and_eq_true, beq_iff_eq] at hrun
  obtain ⟨hcount, hrec⟩ := hrun
  refine ⟨r, geom, hr, hfmt, hoffset.trans hrgd, hrec, hclasses, ?_⟩
  rintro ⟨found, report, hfound, -, hentries, -⟩
  rw [hclasses] at hfound
  cases hfound
  exact absurd ((hentries 0 (by omega)).mp hrec) (by decide)
