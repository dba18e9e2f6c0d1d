import Mathlib.Data.List.Sort
import Vmdk.Integrity
import Vmdk.OpenPath

/-! # The verdicts of `analyse` and `verify`

`analyse` turns the reports of the forensic crate into findings, most severe
first. The command `verify` opens the image with the reader, asks the forensic
crate for its reports, and fails when the integrity report is not clean; with
`--recover` it excuses damage it takes to be recoverable. -/

open Bytes Word

/-- Fields of the sparse header that readers discard. -/
structure HeaderProvenance where
  version : Nat
  uncleanShutdown : Bool
  newlineCheckIntact : Bool
  usesRedundantGd : Bool
  compressed : Bool
  hasMarkers : Bool
deriving DecidableEq, Repr

/-- The grades that findings carry. -/
inductive Severity where
  | low
  | medium
  | high
deriving DecidableEq, Repr

namespace Severity

def rank : Severity → Nat
  | .low => 0
  | .medium => 1
  | .high => 2

end Severity

inductive AnomalyKind where
  | uncleanShutdown
  | ftpAsciiMangled
  | redundantGdMismatch
  | primaryGdRecoverableViaRgd (damaged total recoverable : Nat)
  | primaryGdUnrecoverable (unrecoverable : Nat)
  | danglingGrainTable (count : Nat)
  | danglingGrain (count : Nat)
deriving DecidableEq, Repr

namespace AnomalyKind

def severity : AnomalyKind → Severity
  | .uncleanShutdown => .low
  | .primaryGdRecoverableViaRgd _ _ _ => .medium
  | .ftpAsciiMangled | .redundantGdMismatch | .primaryGdUnrecoverable _ | .danglingGrainTable _
  | .danglingGrain _ => .high

def code : AnomalyKind → String
  | .uncleanShutdown => "VMDK-UNCLEAN-SHUTDOWN"
  | .ftpAsciiMangled => "VMDK-FTP-ASCII-MANGLED"
  | .redundantGdMismatch => "VMDK-RGD-MISMATCH"
  | .primaryGdRecoverableViaRgd _ _ _ => "VMDK-PRIMARY-GD-RECOVERABLE"
  | .primaryGdUnrecoverable _ => "VMDK-PRIMARY-GD-UNRECOVERABLE"
  | .danglingGrainTable _ => "VMDK-DANGLING-GT"
  | .danglingGrain _ => "VMDK-DANGLING-GRAIN"

end AnomalyKind

namespace VmdkIntegrity

def headerProvenance (file : Source) : Except IoError (Option HeaderProvenance) :=
  if file.len < sectorSize then .ok none
  else do
    let hdr ← file.readExactAt 0 sectorSize
    if leNat (slice hdr 0 4) ≠ Header.magic then return none
    let flags := leNat (slice hdr 8 4)
    return some {
      version := leNat (slice hdr 4 4)
      uncleanShutdown := slice hdr 72 1 != [0]
      newlineCheckIntact := slice hdr 73 4 == [0x0A, 0x20, 0x0D, 0x0A]
      usesRedundantGd := flags / 2 % 2 == 1
      compressed := flags / 2 ^ 16 % 2 == 1
      hasMarkers := flags / 2 ^ 17 % 2 == 1 }

/-- The finding, if there is cause for it. -/
def findIf (cause : Bool) (kind : AnomalyKind) : List AnomalyKind := if cause then [kind] else []

/-- What the header says. -/
def provenanceKinds : Option HeaderProvenance → List AnomalyKind
  | some p => findIf p.uncleanShutdown .uncleanShutdown ++
    findIf (!p.newlineCheckIntact) .ftpAsciiMangled
  | none => []

/-- What the redundant directory says. -/
def recoveryKinds (recovery : GdRecoveryReport) (mismatch : Bool) : List AnomalyKind :=
  findIf mismatch .redundantGdMismatch ++
    findIf (recovery.recoverableViaRgd > 0) (.primaryGdRecoverableViaRgd recovery.primaryDamaged
      recovery.totalEntries recovery.recoverableViaRgd) ++
    findIf (recovery.unrecoverable > 0) (.primaryGdUnrecoverable recovery.unrecoverable)

/-- What the integrity walk says. -/
def integrityKinds (integrity : IntegrityReport) : List AnomalyKind :=
  findIf (integrity.outOfBoundsGrainTables > 0)
      (.danglingGrainTable integrity.outOfBoundsGrainTables) ++
    findIf (integrity.outOfBoundsGrains > 0) (.danglingGrain integrity.outOfBoundsGrains)

/-- Whether there is a redundant directory that differs. -/
def rgdMismatch (file : Source) (recovery : GdRecoveryReport) : Except IoError Bool :=
  if recovery.hasRgd then (validateRgd file).map (!·) else .ok false

/-- All findings, most severe first; the sort is stable. -/
def analyse (file : Source) : Except IoError (List AnomalyKind) := do
  let provenance ← headerProvenance file
  let recovery ← grainDirectoryRecovery file
  let mismatch ← rgdMismatch file recovery
  let integrity ← checkIntegrity file
  let kinds := provenanceKinds provenance ++ recoveryKinds recovery mismatch ++
    integrityKinds integrity
  return kinds.insertionSort fun a b => b.severity.rank ≤ a.severity.rank

end VmdkIntegrity

namespace Cli

/-- What `verify` prints and returns. -/
structure VerifyReport where
  recovery : GdRecoveryReport
  rgd : Except IoError Bool
  grains : Except IoError (List AllocatedGrain)
  integrity : Except IoError IntegrityReport
  failed : Bool

/-- Whether the integrity report fails the verdict. -/
def integrityFails (recover : Bool) (recovery : GdRecoveryReport) :
    Except IoError IntegrityReport → Bool
  | .ok report =>
    if report.isOk then false
    else if recover && recovery.unrecoverable == 0 && report.outOfBoundsGrains == 0 then false
    else true
  | .error _ => true

/-- `verify` of an image that could be opened: `reader` reads it, `file` is reparsed. -/
def verifyImage (reader : VmdkReader) (file : Source) (recover : Bool) : VerifyReport :=
  let reader := if recover then reader.enableRgdFallback else reader
  let recovery := (VmdkIntegrity.grainDirectoryRecovery file).toOption.getD .default
  let integrity := VmdkIntegrity.checkIntegrity file
  { recovery
    rgd := VmdkIntegrity.validateRgd file
    grains := reader.iterAllocatedGrains.1
    integrity
    failed := integrityFails recover recovery integrity }

def cmdVerify (fs : FileSystem) (path : FilePath) (recover : Bool) : Except VmdkError VerifyReport := do
  let reader ← (VmdkReader.openPath fs .caller path).result
  let file ← fromIo (fs path)
  return verifyImage reader file recover

/-- Whether the command exits successfully. -/
def succeeds : Except VmdkError VerifyReport → Bool
  | .ok report => !report.failed
  | .error _ => false

end Cli

/-! ## What the verdicts depend on -/

namespace VmdkIntegrity

theorem mem_findIf {cause : Bool} {kind k : AnomalyKind} :
    k ∈ findIf cause kind ↔ cause = true ∧ k = kind := by
  unfold findIf
  split
  · next h => simp [h]
  · next h => simp [h]

/-- **A clean integrity report** leaves no finding of a dangling pointer. -/
theorem analyse_not_dangling {file : Source} {report : IntegrityReport} {findings : List AnomalyKind}
    (hreport : checkIntegrity file = .ok report) (hok : report.isOk = true)
    (h : analyse file = .ok findings) :
    ∀ k ∈ findings, k.code ≠ "VMDK-DANGLING-GRAIN" ∧ k.code ≠ "VMDK-DANGLING-GT" := by
  obtain ⟨htables, hgrains⟩ := IntegrityReport.isOk_iff.mp hok
  unfold analyse at h
  obtain ⟨provenance, -, h⟩ := bind_eq_ok.mp h
  obtain ⟨recovery, -, h⟩ := bind_eq_ok.mp h
  obtain ⟨mismatch, -, h⟩ := bind_eq_ok.mp h
  obtain ⟨integrity, hintegrity, h⟩ := bind_eq_ok.mp h
  rw [hreport] at hintegrity
  cases hintegrity
  cases h
  intro k hk
  rw [List.mem_insertionSort] at hk
  have hnone : integrityKinds report = [] := by
    unfold integrityKinds findIf
    simp [htables, hgrains]
  rw [hnone, List.append_nil, List.mem_append] at hk
  rcases hk with hk | hk
  · unfold provenanceKinds at hk
    split at hk
    · rcases List.mem_append.mp hk with hk | hk
      · obtain ⟨-, rfl⟩ := mem_findIf.mp hk
        decide
      · obtain ⟨-, rfl⟩ := mem_findIf.mp hk
        decide
    · cases hk
  · unfold recoveryKinds at hk
    rcases List.mem_append.mp hk with hk | hk
    · rcases List.mem_append.mp hk with hk | hk
      · obtain ⟨-, rfl⟩ := mem_findIf.mp hk
        simp [AnomalyKind.code]
      · obtain ⟨-, rfl⟩ := mem_findIf.mp hk
        simp [AnomalyKind.code]
    · obtain ⟨-, rfl⟩ := mem_findIf.mp hk
      simp [AnomalyKind.code]

end VmdkIntegrity
