import Vmdk.Companions
import Vmdk.Info
import Vmdk.Reports
import Vmdk.Truncation
import Vmdk.Verify

/-! # The default view

`examine` gathers what the reader and the forensic crate say of an image, and
fails on a finding of high severity. The analysis of a file never fails, and
finds each anomaly exactly where there is cause for it (`VmdkIntegrity.analyse_spec`);
what passes `examine` passes `verify` (`Cli.examine_exact`). -/

open Bytes Text Word

namespace VmdkIntegrity

/-- The cause of a finding, in terms of the reports. -/
def Cause (file : Source) : AnomalyKind → Prop
  | .uncleanShutdown => ∃ p, headerProvenance file = .ok (some p) ∧ p.uncleanShutdown = true
  | .ftpAsciiMangled => ∃ p, headerProvenance file = .ok (some p) ∧ p.newlineCheckIntact = false
  | .redundantGdMismatch => ∃ report, grainDirectoryRecovery file = .ok report ∧
      report.hasRgd = true ∧ validateRgd file = .ok false
  | .primaryGdRecoverableViaRgd damaged total recoverable => ∃ report,
      grainDirectoryRecovery file = .ok report ∧ 0 < report.recoverableViaRgd ∧
        damaged = report.primaryDamaged ∧ total = report.totalEntries ∧
          recoverable = report.recoverableViaRgd
  | .primaryGdUnrecoverable unrecoverable => ∃ report, grainDirectoryRecovery file = .ok report ∧
      0 < report.unrecoverable ∧ unrecoverable = report.unrecoverable
  | .danglingGrainTable count => ∃ report, checkIntegrity file = .ok report ∧
      0 < report.outOfBoundsGrainTables ∧ count = report.outOfBoundsGrainTables
  | .danglingGrain count => ∃ report, checkIntegrity file = .ok report ∧
      0 < report.outOfBoundsGrains ∧ count = report.outOfBoundsGrains

/-! ## No analysis fails -/

section Total
variable {file : Source} {layout : SparseLayout}

theorem headerProvenance_ok (file : Source) : ∃ provenance, headerProvenance file = .ok provenance := by
  unfold headerProvenance
  split
  · exact ⟨none, rfl⟩
  · next hlen =>
    have hhead : 0 + sectorSize ≤ file.bytes.length := by
      change _ ≤ file.len
      omega
    rw [Source.readExactAt_of_le hhead]
    simp only [bind, Except.bind]
    split <;> exact ⟨_, rfl⟩

theorem fileLen_eq (h : sparseLayout file = .ok (some layout)) : layout.fileLen = file.len := by
  obtain ⟨_, _, _, -, rfl⟩ := sparseLayout_eq_some.mp h
  rfl

theorem readRgd_ok (h : layout.fileLen = file.len) : ∃ rgd, readRgd file layout = .ok rgd := by
  unfold readRgd
  split
  · exact ⟨none, rfl⟩
  simp only
  split
  · exact ⟨none, rfl⟩
  · next hin =>
    rw [h, Nat.not_lt] at hin
    obtain ⟨hplace, hend⟩ := sat_window hin
    rw [hplace, Source.readExactAt_of_le hend]
    exact ⟨_, rfl⟩

theorem readGrainTableBytes_ok (sector len : Nat) :
    ∃ table, readGrainTableBytes file sector len file.len = .ok table := by
  unfold readGrainTableBytes
  simp only
  split
  · exact ⟨none, rfl⟩
  · next hin =>
    have hlt : file.len < 2 ^ 63 := file.length_lt
    have hsize : u64Size = 2 ^ 64 := rfl
    have hend : sector * sectorSize + len ≤ file.bytes.length := by
      change _ ≤ file.len
      unfold satAdd u64Max at hin
      omega
    rw [Source.readExactAt_of_le hend]
    exact ⟨_, rfl⟩

theorem entryMatches_ok (h : layout.fileLen = file.len) (rgd : List Nat) (i : Nat) :
    ∃ same, entryMatches file layout rgd i = .ok same := by
  unfold entryMatches
  rw [h]
  simp only
  split
  · exact ⟨true, rfl⟩
  split
  · exact ⟨false, rfl⟩
  obtain ⟨p, hp⟩ := @readGrainTableBytes_ok file (layout.grainDir.getD i 0) (layout.numGtesPerGt * 4)
  obtain ⟨r, hr⟩ := @readGrainTableBytes_ok file (rgd.getD i 0) (layout.numGtesPerGt * 4)
  rw [hp, hr]
  simp only [bind, Except.bind]
  split <;> exact ⟨_, rfl⟩

theorem entriesMatch_ok {check : Nat → Except IoError Bool} (h : ∀ i, ∃ same, check i = .ok same)
    (i entries : Nat) : ∃ same, entriesMatch check i entries = .ok same := by
  induction entries generalizing i with
  | zero => exact ⟨true, rfl⟩
  | succ entries ih =>
    unfold entriesMatch
    obtain ⟨same, hsame⟩ := h i
    rw [hsame]
    cases same with
    | true => exact ih (i + 1)
    | false => exact ⟨false, rfl⟩

theorem validateRgd_ok (file : Source) : ∃ same, validateRgd file = .ok same := by
  unfold validateRgd
  obtain ⟨found, hfound⟩ := sparseLayout_ok file
  rw [hfound]
  cases found with
  | none => exact ⟨false, rfl⟩
  | some layout =>
    have hlen := fileLen_eq hfound
    obtain ⟨rgd, hrgd⟩ := readRgd_ok hlen
    simp only [bind, Except.bind, hrgd]
    cases rgd with
    | none => exact ⟨false, rfl⟩
    | some rgd => exact entriesMatch_ok (entryMatches_ok hlen rgd) 0 layout.gdEntryCount

theorem layoutClasses_ok (h : layout.fileLen = file.len) :
    ∃ classes, layoutClasses file layout = .ok classes := by
  obtain ⟨rgd, hrgd⟩ := readRgd_ok h
  unfold layoutClasses
  rw [hrgd]
  cases rgd with
  | some rgd => exact ⟨_, rfl⟩
  | none =>
    simp only [bind, Except.bind]
    split <;> exact ⟨_, rfl⟩

theorem entryClasses_ok (file : Source) : ∃ found, entryClasses file = .ok found := by
  unfold entryClasses
  obtain ⟨found, hfound⟩ := sparseLayout_ok file
  rw [hfound]
  cases found with
  | none => exact ⟨none, rfl⟩
  | some layout =>
    obtain ⟨classes, hclasses⟩ := layoutClasses_ok (fileLen_eq hfound)
    simp only [bind, Except.bind, hclasses]
    exact ⟨_, rfl⟩

theorem grainDirectoryRecovery_ok (file : Source) :
    ∃ report, grainDirectoryRecovery file = .ok report := by
  unfold grainDirectoryRecovery
  obtain ⟨found, hfound⟩ := entryClasses_ok file
  rw [hfound]
  cases found with
  | none => exact ⟨.default, rfl⟩
  | some found => exact ⟨_, rfl⟩

theorem checkIntegritySesparse_ok (hlen : sectorSize ≤ file.len) :
    ∃ report, checkIntegritySesparse file = .ok report := by
  unfold checkIntegritySesparse
  rw [Source.readExactAt_of_le (show 0 + sectorSize ≤ file.bytes.length by
    change _ ≤ file.len
    omega)]
  simp only [bind, Except.bind]
  split
  · exact ⟨.default, rfl⟩
  next hdr _ =>
  split
  · exact ⟨.default, rfl⟩
  split
  · exact ⟨.default, rfl⟩
  next hin =>
  obtain ⟨-, hinside⟩ := not_or.mp hin
  obtain ⟨hplace, hend⟩ := sat_window (Nat.not_lt.mp hinside)
  rw [hplace, Source.readExactAt_of_le hend]
  exact Walk.run_ok rfl _

theorem checkIntegrity_ok (file : Source) : ∃ report, checkIntegrity file = .ok report := by
  unfold checkIntegrity
  split
  · exact ⟨.default, rfl⟩
  next hlen =>
  have hhead : 0 + 8 ≤ file.bytes.length := by
    change _ ≤ file.len
    unfold sectorSize at hlen
    omega
  rw [Source.readExactAt_of_le hhead]
  simp only [bind, Except.bind]
  split
  · exact checkIntegritySesparse_ok (Nat.not_lt.mp hlen)
  obtain ⟨found, hfound⟩ := sparseLayout_ok file
  rw [hfound]
  cases found with
  | none => exact ⟨.default, rfl⟩
  | some layout => exact Walk.run_ok (fileLen_eq hfound) _

end Total

/-! ## What is found -/

/-- The findings are those for which there is cause, most severe first, and no two of a kind. -/
structure AnalyseExact (file : Source) (findings : List AnomalyKind) : Prop where
  mem : ∀ k, k ∈ findings ↔ Cause file k
  sorted : findings.Pairwise fun a b => b.severity.rank ≤ a.severity.rank
  codes : (findings.map AnomalyKind.code).Nodup

theorem code_findIf (cause : Bool) (kind : AnomalyKind) :
    ((findIf cause kind).map AnomalyKind.code).Sublist [kind.code] := by
  unfold findIf
  cases cause with
  | true => exact .refl _
  | false => exact List.nil_sublist _

theorem codes_provenanceKinds (provenance : Option HeaderProvenance) :
    ((provenanceKinds provenance).map AnomalyKind.code).Sublist
      ["VMDK-UNCLEAN-SHUTDOWN", "VMDK-FTP-ASCII-MANGLED"] := by
  cases provenance with
  | none => exact List.nil_sublist _
  | some p =>
    unfold provenanceKinds
    rw [List.map_append]
    exact (code_findIf _ .uncleanShutdown).append (code_findIf _ .ftpAsciiMangled)

theorem codes_recoveryKinds (recovery : GdRecoveryReport) (mismatch : Bool) :
    ((recoveryKinds recovery mismatch).map AnomalyKind.code).Sublist
      ["VMDK-RGD-MISMATCH", "VMDK-PRIMARY-GD-RECOVERABLE", "VMDK-PRIMARY-GD-UNRECOVERABLE"] := by
  unfold recoveryKinds
  rw [List.map_append, List.map_append]
  exact ((code_findIf _ .redundantGdMismatch).append
    (code_findIf _ (.primaryGdRecoverableViaRgd _ _ _))).append
      (code_findIf _ (.primaryGdUnrecoverable _))

theorem codes_integrityKinds (integrity : IntegrityReport) :
    ((integrityKinds integrity).map AnomalyKind.code).Sublist
      ["VMDK-DANGLING-GT", "VMDK-DANGLING-GRAIN"] := by
  unfold integrityKinds
  rw [List.map_append]
  exact (code_findIf _ (.danglingGrainTable _)).append (code_findIf _ (.danglingGrain _))

theorem mem_provenanceKinds {provenance : Option HeaderProvenance} {k : AnomalyKind} :
    k ∈ provenanceKinds provenance ↔ ∃ p, provenance = some p ∧
      (p.uncleanShutdown = true ∧ k = .uncleanShutdown ∨
        p.newlineCheckIntact = false ∧ k = .ftpAsciiMangled) := by
  cases provenance with
  | none => simp [provenanceKinds]
  | some p => simp [provenanceKinds, mem_findIf]

theorem mem_recoveryKinds {recovery : GdRecoveryReport} {mismatch : Bool} {k : AnomalyKind} :
    k ∈ recoveryKinds recovery mismatch ↔ mismatch = true ∧ k = .redundantGdMismatch ∨
      0 < recovery.recoverableViaRgd ∧ k = .primaryGdRecoverableViaRgd recovery.primaryDamaged
        recovery.totalEntries recovery.recoverableViaRgd ∨
      0 < recovery.unrecoverable ∧ k = .primaryGdUnrecoverable recovery.unrecoverable := by
  simp [recoveryKinds, mem_findIf]

theorem mem_integrityKinds {integrity : IntegrityReport} {k : AnomalyKind} :
    k ∈ integrityKinds integrity ↔
      0 < integrity.outOfBoundsGrainTables ∧
        k = .danglingGrainTable integrity.outOfBoundsGrainTables ∨
      0 < integrity.outOfBoundsGrains ∧ k = .danglingGrain integrity.outOfBoundsGrains := by
  simp [integrityKinds, mem_findIf]

/-- **The analysis of a file never fails**, and finds what there is cause for. -/
theorem analyse_spec (file : Source) :
    ∃ findings, analyse file = .ok findings ∧ AnalyseExact file findings := by
  obtain ⟨provenance, hprovenance⟩ := headerProvenance_ok file
  obtain ⟨recovery, hrecovery⟩ := grainDirectoryRecovery_ok file
  obtain ⟨same, hsame⟩ := validateRgd_ok file
  obtain ⟨integrity, hintegrity⟩ := checkIntegrity_ok file
  have hmismatch : rgdMismatch file recovery = .ok (recovery.hasRgd && !same) := by
    unfold rgdMismatch
    rw [hsame]
    cases recovery.hasRgd with
    | true => rfl
    | false => rfl
  let kinds := provenanceKinds provenance ++ recoveryKinds recovery (recovery.hasRgd && !same) ++
    integrityKinds integrity
  have hanalyse : analyse file =
      .ok (kinds.insertionSort fun a b => b.severity.rank ≤ a.severity.rank) := by
    unfold analyse
    rw [hprovenance, hrecovery, hintegrity]
    simp only [bind, Except.bind, hmismatch]
    rfl
  have hcodes : (kinds.map AnomalyKind.code).Nodup := by
    have hall : ["VMDK-UNCLEAN-SHUTDOWN", "VMDK-FTP-ASCII-MANGLED", "VMDK-RGD-MISMATCH",
      "VMDK-PRIMARY-GD-RECOVERABLE", "VMDK-PRIMARY-GD-UNRECOVERABLE", "VMDK-DANGLING-GT",
      "VMDK-DANGLING-GRAIN"].Nodup := by decide
    refine hall.sublist ?_
    show ((provenanceKinds provenance ++ _ ++ _).map AnomalyKind.code).Sublist _
    rw [List.map_append, List.map_append]
    exact ((codes_provenanceKinds _).append (codes_recoveryKinds _ _)).append
      (codes_integrityKinds _)
  refine ⟨_, hanalyse, ?_, ?_, ?_⟩
  · intro k
    show k ∈ kinds.insertionSort _ ↔ _
    rw [List.mem_insertionSort]
    show k ∈ provenanceKinds provenance ++ _ ++ _ ↔ _
    rw [List.mem_append, List.mem_append, mem_provenanceKinds, mem_recoveryKinds, mem_integrityKinds]
    cases k <;> simp [Cause, hprovenance, hrecovery, hsame, hintegrity]
  · exact List.pairwise_insertionSort _ _
  · exact ((List.perm_insertionSort _ kinds).map _).nodup_iff.mpr hcodes

end VmdkIntegrity

namespace Cli
variable [ZlibDecoder]

/-- What `examine` is asked for beside the findings. -/
structure ExamineOpts where
  fingerprint : Bool
  recover : Bool
deriving DecidableEq, Repr

/-- What `examine` has gathered when it prints. -/
structure ExamineReport where
  info : VmdkInfo
  provenance : Option HeaderProvenance
  findings : List AnomalyKind
  analyseErr : Option IoError
  contentId : Text
  changeTrackPath : Option Text
  deps : List FilePath
  /-- The bytes that are digested, if they are asked for. -/
  fingerprint : Option (Except IoError (List UInt8))
  failed : Bool

/-- Whether a fingerprint was asked for and could not be taken. -/
def fingerprintFails : Option (Except IoError (List UInt8)) → Bool
  | some (.error _) => true
  | _ => false

def errorOf : Except IoError (List AnomalyKind) → Option IoError
  | .ok _ => none
  | .error e => some e

def examineReport (fs : FileSystem) (path : FilePath) (opts : ExamineOpts) :
    Except VmdkError ExamineReport := do
  let reader ← (VmdkReader.openPath fs .caller path).result
  let reader := if opts.recover then reader.enableRgdFallback else reader
  let file ← fromIo (fs path)
  let analysed := VmdkIntegrity.analyse file
  let findings := analysed.toOption.getD []
  let fingerprint :=
    if opts.fingerprint then (reader.seek (.start 0)).2.hash.map Prod.fst else none
  return {
    info := reader.info
    provenance := (VmdkIntegrity.headerProvenance file).toOption.join
    findings
    analyseErr := errorOf analysed
    contentId := reader.effectiveContentId
    changeTrackPath := reader.changeTrackPath
    deps := (VmdkReader.extentDependencies fs path).result.toOption.getD []
    fingerprint
    failed := (errorOf analysed).isSome || findings.any (Severity.high.rank ≤ ·.severity.rank) ||
      fingerprintFails fingerprint }

/-- Whether the command exits successfully. -/
def examineSucceeds : Except VmdkError ExamineReport → Bool
  | .ok report => !report.failed
  | .error _ => false

section Verdict
variable {fs : FileSystem} {path : FilePath} {opened : VmdkReader} {file : Source}

/-- The reader that takes the fingerprint. -/
def fingerprintReader (opened : VmdkReader) (recover : Bool) : VmdkReader :=
  ((if recover then opened.enableRgdFallback else opened).seek (.start 0)).2

/-- The fingerprint is asked for, and some read on the way through the disk fails. -/
def FingerprintFails (opened : VmdkReader) (opts : ExamineOpts) : Prop :=
  opts.fingerprint = true ∧
    ∃ e r, (fingerprintReader opened opts.recover).hash = some (.error e, r)

/-- `examine` reports every anomaly and nothing else, fails exactly for a grave one or for want of a
fingerprint, and what passes it passes `verify`. -/
structure ExamineExact (fs : FileSystem) (path : FilePath) (opts : ExamineOpts) (opened : VmdkReader)
    (file : Source) : Prop where
  report : ∃ report, examineReport fs path opts = .ok report ∧ report.analyseErr = none ∧
    VmdkIntegrity.AnalyseExact file report.findings
  verdict : examineSucceeds (examineReport fs path opts) = false ↔
    (∃ k, VmdkIntegrity.Cause file k ∧ k.severity = .high) ∨ FingerprintFails opened opts
  verify : examineSucceeds (examineReport fs path opts) = true →
    ∀ recover, succeeds (cmdVerify fs path recover) = true

omit [ZlibDecoder] in
theorem rank_high_le {k : AnomalyKind} : Severity.high.rank ≤ k.severity.rank ↔ k.severity = .high := by
  cases k.severity <;> decide

/-- A fingerprint that was asked for fails where a read does. -/
theorem fingerprintFails_iff (opts : ExamineOpts) :
    fingerprintFails (if opts.fingerprint then
        (fingerprintReader opened opts.recover).hash.map Prod.fst else none) = true ↔
      FingerprintFails opened opts := by
  unfold FingerprintFails
  cases opts.fingerprint with
  | false => exact iff_of_false (fun h => by cases h) fun h => by cases h.1
  | true =>
    simp only [if_true, true_and]
    rcases (fingerprintReader opened opts.recover).hash with _ | ⟨e | bytes, r⟩
    · exact iff_of_false (fun h => by cases h) fun ⟨_, _, h⟩ => by cases h
    · exact iff_of_true rfl ⟨e, r, rfl⟩
    · exact iff_of_false (fun h => by cases h) fun ⟨_, _, h⟩ => by cases h

omit [ZlibDecoder] in
/-- Without cause for a dangling pointer the integrity report is clean. -/
theorem isOk_of_not_dangling {report : IntegrityReport}
    (hreport : VmdkIntegrity.checkIntegrity file = .ok report)
    (h : ∀ k, VmdkIntegrity.Cause file k → k.severity ≠ .high) : report.isOk = true := by
  rw [IntegrityReport.isOk_iff]
  constructor
  · refine Nat.eq_zero_of_not_pos fun hpos => ?_
    exact h (.danglingGrainTable _) ⟨report, hreport, hpos, rfl⟩ rfl
  · refine Nat.eq_zero_of_not_pos fun hpos => ?_
    exact h (.danglingGrain _) ⟨report, hreport, hpos, rfl⟩ rfl

/-- **The verdict of the default view is exact.** -/
theorem examine_exact (hfile : fs path = .ok file)
    (hopen : (VmdkReader.openPath fs .caller path).result = .ok opened) (opts : ExamineOpts) :
    ExamineExact fs path opts opened file := by
  obtain ⟨findings, hanalyse, hexact⟩ := VmdkIntegrity.analyse_spec file
  obtain ⟨report, hreport, hfindings, herr, hfailed⟩ : ∃ report,
      examineReport fs path opts = .ok report ∧ report.findings = findings ∧
        report.analyseErr = none ∧ report.failed =
          (findings.any (Severity.high.rank ≤ ·.severity.rank) ||
            fingerprintFails (if opts.fingerprint then
              (fingerprintReader opened opts.recover).hash.map Prod.fst else none)) := by
    unfold examineReport
    rw [hopen, hfile]
    refine ⟨_, rfl, ?_, ?_, ?_⟩
    · show (VmdkIntegrity.analyse file).toOption.getD [] = findings
      rw [hanalyse]
      rfl
    · show errorOf (VmdkIntegrity.analyse file) = none
      rw [hanalyse]
      rfl
    · show ((errorOf (VmdkIntegrity.analyse file)).isSome ||
        ((VmdkIntegrity.analyse file).toOption.getD []).any (Severity.high.rank ≤ ·.severity.rank) ||
          _) = _
      rw [hanalyse]
      rfl
  have hverdict : examineSucceeds (examineReport fs path opts) = false ↔
      (∃ k, VmdkIntegrity.Cause file k ∧ k.severity = .high) ∨ FingerprintFails opened opts := by
    rw [hreport]
    show (!report.failed) = false ↔ _
    rw [hfailed, Bool.not_eq_false', Bool.or_eq_true, fingerprintFails_iff, List.any_eq_true]
    refine or_congr_left (exists_congr fun k => ?_)
    rw [hexact.mem, decide_eq_true_iff, rank_high_le]
  refine ⟨⟨report, hreport, herr, hfindings ▸ hexact⟩, hverdict, fun hpass recover => ?_⟩
  have hnone : ∀ k, VmdkIntegrity.Cause file k → k.severity ≠ .high := by
    intro k hk hhigh
    rw [hverdict.mpr (.inl ⟨k, hk, hhigh⟩)] at hpass
    cases hpass
  obtain ⟨integrity, hintegrity⟩ := VmdkIntegrity.checkIntegrity_ok file
  have hok := isOk_of_not_dangling hintegrity hnone
  unfold cmdVerify
  rw [hopen, hfile]
  show (!integrityFails recover _ (VmdkIntegrity.checkIntegrity file)) = true
  rw [hintegrity]
  unfold integrityFails
  simp only [hok, if_true]
  rfl

end Verdict
end Cli

namespace Cli

theorem examine_exact_mirroredDisk :
    letI := Stored.decoder
    ∃ r, VmdkReader.open (mirroredDisk 11 3) = .ok r ∧
      ExamineExact (fun _ => .ok (mirroredDisk 11 3)) [] ⟨true, false⟩ r (mirroredDisk 11 3) := by
  let _ := Stored.decoder
  obtain ⟨r, hr⟩ := exists_of_isOk (x := VmdkReader.open (mirroredDisk 11 3)) (by decide +kernel)
  exact ⟨r, hr, examine_exact rfl (VmdkReader.openPath_binary rfl hr) ⟨true, false⟩⟩

end Cli
