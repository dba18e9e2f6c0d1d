import Vmdk.Triage
import Vmdk.IntegritySound

/-! # The forensic reports beside each other

`validate_rgd`, `grain_directory_recovery` and `check_integrity` walk the same
directory, each with exits and bounds tests of its own. The triage puts every
entry in one class. A comparison that succeeds has seen a table in the file
behind every entry, so the two other walks have nothing to report
(`VmdkIntegrity.reports_consistent`). -/

open Bytes Word

/-! ## The sums of a triage -/

namespace GdRecoveryReport
open VmdkIntegrity

/-- The sums that the counters of a report keep to. -/
structure Balanced (report : GdRecoveryReport) : Prop where
  entries : report.primaryIntact + report.primaryDamaged = report.totalEntries
  damaged : report.recoverableViaRgd + report.unrecoverable = report.primaryDamaged

/-- Every entry has one of three classes. -/
theorem count_classes (classes : List EntryClass) :
    classes.count .intact + (classes.count .recoverable + classes.count .unrecoverable) =
      classes.length := by
  induction classes with
  | nil => rfl
  | cons c classes ih =>
    rw [List.length_cons, ← ih]
    cases c <;> simp <;> omega

/-- A report that counts one class for each of its entries is balanced. -/
theorem balanced_foldl {classes : List EntryClass} {total : Nat} (h : classes.length = total) :
    (classes.foldl count { default with hasRgd := true, totalEntries := total }).Balanced := by
  rw [count_foldl]
  constructor
  · show 0 + _ + (0 + _) = total
    rw [Nat.zero_add, Nat.zero_add, count_classes, h]
  · show 0 + _ + (0 + _) = 0 + _
    rw [Nat.zero_add, Nat.zero_add, Nat.zero_add]

/-- No entry is damaged where every entry is intact. -/
theorem primaryDamaged_foldl {classes : List EntryClass} {report : GdRecoveryReport}
    (h : ∀ c ∈ classes, c = .intact) :
    (classes.foldl count report).primaryDamaged = report.primaryDamaged := by
  have hnone (c : EntryClass) (hc : c ≠ .intact) : classes.count c = 0 :=
    List.count_eq_zero.mpr fun hmem => hc (h c hmem)
  rw [count_foldl, hnone .recoverable (by simp), hnone .unrecoverable (by simp)]
  rfl

end GdRecoveryReport

namespace VmdkIntegrity

section Reports
variable {file : Source} {layout : SparseLayout}

/-- The reparse reads as many directory entries as the header asks for. -/
theorem length_grainDir (h : sparseLayout file = .ok (some layout)) :
    layout.grainDir.length = layout.gdEntryCount := by
  obtain ⟨hdr, gdOffset, gd, hp, rfl⟩ := sparseLayout_eq_some.mp h
  have hexact : satMul (layoutNumGts hdr) 4 = layoutNumGts hdr * 4 := by
    have hle := (satMul_le_iff (by decide)).mp hp.gdLen_le
    exact satMul_eq (Nat.lt_of_le_of_lt hle (by decide))
  have hgd := hp.gdRead
  rw [hexact] at hgd
  exact directory_length (by decide) hgd

/-- There is a class for each entry, whichever exit the triage takes. -/
theorem length_layoutClasses {classes : List EntryClass}
    (hlayout : sparseLayout file = .ok (some layout))
    (h : layoutClasses file layout = .ok (some classes)) :
    classes.length = layout.gdEntryCount := by
  unfold layoutClasses at h
  obtain ⟨rgd, -, h⟩ := bind_eq_ok.mp h
  cases rgd with
  | none =>
    simp only at h
    split at h
    · cases h
    · cases h
      rw [List.length_map, length_grainDir hlayout]
  | some rgd =>
    cases h
    rw [List.length_map, List.length_range]

theorem length_entryClasses {total : Nat} {classes : List EntryClass}
    (h : entryClasses file = .ok (some (total, classes))) : classes.length = total := by
  unfold entryClasses at h
  obtain ⟨layout, hlayout, h⟩ := bind_eq_ok.mp h
  cases layout with
  | none => cases h
  | some layout =>
    obtain ⟨found, hclasses, h⟩ := bind_eq_ok.mp h
    cases found with
    | none => cases h
    | some found =>
      cases h
      exact length_layoutClasses hlayout hclasses

/-- **The counters of a triage add up.** -/
theorem balanced_of_recovery {report : GdRecoveryReport}
    (h : grainDirectoryRecovery file = .ok report) : report.Balanced := by
  unfold grainDirectoryRecovery at h
  obtain ⟨found, hfound, h⟩ := bind_eq_ok.mp h
  cases found with
  | none =>
    cases h
    exact ⟨rfl, rfl⟩
  | some found =>
    cases h
    exact GdRecoveryReport.balanced_foldl (length_entryClasses hfound)

/-! ## What the comparison leaves for the other walks -/

/-- Where the tables of two entries are copies, the triage finds the primary one intact. -/
theorem classify_of_copies {p r : Nat} (hlen : layout.fileLen = file.len)
    (h : Copies file layout.numGtesPerGt p r) : classify layout p r = .intact := by
  unfold classify
  rcases h with ⟨hr, hp⟩ | ⟨-, hp, hin, -, -⟩
  · exact if_pos (.inr ⟨hp, hr⟩)
  · refine if_pos (.inl ?_)
    have hwindow : satAdd (satMul p sectorSize) (layout.numGtesPerGt * 4) ≤ layout.fileLen := by
      have hmul : satMul p sectorSize ≤ p * sectorSize := Nat.min_le_left _ _
      have hadd := Image.satAdd_le (satMul p sectorSize) (layout.numGtesPerGt * 4)
      omega
    unfold inBounds
    rw [Bool.and_eq_true, bne_iff_ne]
    exact ⟨hp, decide_eq_true hwindow⟩

/-- The integrity walk finds the table of such an entry inside the file. -/
theorem tableInside_of_copies {p r : Nat} (hlen : layout.fileLen = file.len)
    (h : Copies file layout.numGtesPerGt p r) : (vmdk4Walk layout).TableInside p := by
  unfold Walk.TableInside
  rcases h with ⟨-, rfl⟩ | ⟨-, hp, hin, -, -⟩
  · trivial
  · have href : (vmdk4Walk layout).tableRef p = .table (p * sectorSize) := if_neg hp
    have hadd := Image.satAdd_le (p * sectorSize) (layout.numGtesPerGt * 4)
    rw [href]
    show satAdd (p * sectorSize) (layout.numGtesPerGt * 4) ≤ layout.fileLen
    omega

/-- A file with a layout is no seSparse file, and its check walks the layout. -/
theorem checkIntegrity_layout (h : sparseLayout file = .ok (some layout)) :
    checkIntegrity file = (vmdk4Walk layout).run file layout.grainDir := by
  obtain ⟨hdr, _, _, hp, -⟩ := sparseLayout_eq_some.mp h
  obtain ⟨hdrBytes, hread, hparse⟩ := hp.header
  have hmagic : numAt 4 file.bytes 0 = Header.magic := by
    rw [← SparseExtentHeader.parse_magic hparse]
    exact (header_field hread (by decide)).symm
  exact checkIntegrity_vmdk4 hmagic h

/-- **The triage after a comparison that succeeded** counts no damaged entry. -/
theorem recovery_of_validated {rgd : List Nat} (hvalid : Validated file layout rgd) :
    ∃ report, grainDirectoryRecovery file = .ok report ∧
      report.hasRgd = true ∧ report.primaryDamaged = 0 := by
  have hlen : layout.fileLen = file.len := by
    obtain ⟨_, _, _, -, rfl⟩ := sparseLayout_eq_some.mp hvalid.layoutRead
    rfl
  let classes := (List.range layout.gdEntryCount).map fun i =>
    classify layout (layout.grainDir.getD i 0) (rgd.getD i 0)
  have hclasses : entryClasses file = .ok (some (layout.gdEntryCount, classes)) := by
    unfold entryClasses layoutClasses
    rw [hvalid.layoutRead]
    simp only [bind, Except.bind, hvalid.rgdRead]
    rfl
  have hintact : ∀ c ∈ classes, c = .intact := by
    intro c hc
    obtain ⟨i, hi, rfl⟩ := List.mem_map.mp hc
    exact classify_of_copies hlen (hvalid.copies i (List.mem_range.mp hi))
  unfold grainDirectoryRecovery
  rw [hclasses]
  refine ⟨_, rfl, ?_, GdRecoveryReport.primaryDamaged_foldl hintact⟩
  rw [GdRecoveryReport.count_foldl]

/-- **The integrity walk after a comparison that succeeded** finds every table in the file. -/
theorem integrity_of_validated {rgd : List Nat} (hvalid : Validated file layout rgd) :
    ∃ report, checkIntegrity file = .ok report ∧ report.outOfBoundsGrainTables = 0 := by
  have hlen : layout.fileLen = file.len := by
    obtain ⟨_, _, _, -, rfl⟩ := sparseLayout_eq_some.mp hvalid.layoutRead
    rfl
  obtain ⟨report, hrun⟩ := @Walk.run_ok (vmdk4Walk layout) file hlen layout.grainDir
  refine ⟨report, (checkIntegrity_layout hvalid.layoutRead).trans hrun, ?_⟩
  refine (Walk.run_spec hrun).1.mpr fun gdEntry hmem => ?_
  obtain ⟨i, hi, rfl⟩ := List.mem_iff_getElem.mp hmem
  have hcopies := hvalid.copies i (by rwa [← length_grainDir hvalid.layoutRead])
  rw [List.getD_eq_getElem?_getD, List.getElem?_eq_getElem hi] at hcopies
  exact tableInside_of_copies hlen hcopies

end Reports

/-- The reports on a file contradict neither themselves nor each other. -/
structure ReportsConsistent (file : Source) : Prop where
  balanced : ∀ report, grainDirectoryRecovery file = .ok report → report.Balanced
  recovery : validateRgd file = .ok true → ∃ report, grainDirectoryRecovery file = .ok report ∧
    report.hasRgd = true ∧ report.primaryDamaged = 0
  integrity : validateRgd file = .ok true → ∃ report, checkIntegrity file = .ok report ∧
    report.outOfBoundsGrainTables = 0

/-- **The forensic reports on any file are consistent**: the counters of the triage add up, and where
the comparison succeeds, the triage finds a redundant directory and no damage, and the integrity
walk no table outside the file. -/
theorem reports_consistent (file : Source) : ReportsConsistent file where
  balanced := fun _ h => balanced_of_recovery h
  recovery := by
    intro h
    obtain ⟨layout, rgd, hvalid⟩ := validated_of_true h
    exact recovery_of_validated hvalid
  integrity := by
    intro h
    obtain ⟨layout, rgd, hvalid⟩ := validated_of_true h
    exact integrity_of_validated hvalid

/-- The comparison does succeed: on a disk whose second directory mirrors the first, at a report with
an entry in it. -/
theorem reports_consistent_mirroredDisk :
    validateRgd (mirroredDisk 11 3) = .ok true ∧
      ∃ report, grainDirectoryRecovery (mirroredDisk 11 3) = .ok report ∧ report.totalEntries = 1 ∧
        report.primaryDamaged = 0 := by
  have hvalid : validateRgd (mirroredDisk 11 3) = .ok true := by decide +kernel
  have htotal : (grainDirectoryRecovery (mirroredDisk 11 3)).map (·.totalEntries) = .ok 1 := by
    decide +kernel
  obtain ⟨report, hreport, -, hdamaged⟩ := (reports_consistent (mirroredDisk 11 3)).recovery hvalid
  rw [hreport] at htotal
  exact ⟨hvalid, report, hreport, Except.ok.inj htotal, hdamaged⟩

end VmdkIntegrity
