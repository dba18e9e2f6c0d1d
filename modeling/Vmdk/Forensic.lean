import Vmdk.Reader

/-! # Checking the redundant grain directory

The forensic crate reparses a VMDK4 file by itself, compares the grain tables
that both directories point to, byte for byte, and classifies the entries of
the primary directory. A layout it cannot parse is `none`, never an error. -/

open Bytes Word

structure SparseLayout where
  grainDir : List Nat
  rgdOffset : Nat
  numGtesPerGt : Nat
  grainSizeBytes : Nat
  gdEntryCount : Nat
  fileLen : Nat

namespace VmdkIntegrity

def maxGdBytes : Nat := 16 * 1024 * 1024

/-- The directory's sector, `none` where the footer cannot be parsed. -/
def layoutGdOffset (file : Source) (hdr : SparseExtentHeader) : Except IoError (Option Nat) :=
  if hdr.gdOffset = Header.gdAtEnd then
    if file.len < 1024 then .ok none
    else do
      let footer ← file.readExactAt (file.len - 1024) sectorSize
      match SparseExtentHeader.parse footer with
      | .ok footerHdr => return some footerHdr.gdOffset
      | .error _ => return none
  else .ok (some hdr.gdOffset)

/-- How many grain tables the header asks for, by the forensic crate's own arithmetic. -/
def layoutNumGts (hdr : SparseExtentHeader) : Nat :=
  divCeil (divCeil hdr.capacity hdr.grainSize) hdr.numGtesPerGt

/-- The layout under a header whose directory is `gd`. -/
def layoutWith (file : Source) (hdr : SparseExtentHeader) (gd : List UInt8) : SparseLayout where
  grainDir := leTable 4 gd
  rgdOffset := hdr.rgdOffset
  numGtesPerGt := hdr.numGtesPerGt
  grainSizeBytes := satMul hdr.grainSize sectorSize
  gdEntryCount := layoutNumGts hdr
  fileLen := file.len

def sparseLayout (file : Source) : Except IoError (Option SparseLayout) :=
  if file.len < sectorSize then .ok none
  else do
    let hdrBytes ← file.readExactAt 0 sectorSize
    match SparseExtentHeader.parse hdrBytes with
    | .error _ => return none
    | .ok hdr =>
      let gdByteLen := satMul (layoutNumGts hdr) 4
      if gdByteLen > maxGdBytes then return none
      match ← layoutGdOffset file hdr with
      | none => return none
      | some gdOffset =>
        let gdByte := satMul gdOffset sectorSize
        if satAdd gdByte gdByteLen > file.len then return none
        let gd ← file.readExactAt gdByte gdByteLen
        return some (layoutWith file hdr gd)

/-- What the reparse reads of a file it accepts, and the bounds it checks. -/
structure LayoutParts (file : Source) (hdr : SparseExtentHeader) (gdOffset : Nat)
    (gd : List UInt8) : Prop where
  length : sectorSize ≤ file.len
  header : ∃ hdrBytes, file.readExactAt 0 sectorSize = .ok hdrBytes ∧
    SparseExtentHeader.parse hdrBytes = .ok hdr
  gdLen_le : satMul (layoutNumGts hdr) 4 ≤ maxGdBytes
  directoryAt : layoutGdOffset file hdr = .ok (some gdOffset)
  gdInside : satAdd (satMul gdOffset sectorSize) (satMul (layoutNumGts hdr) 4) ≤ file.len
  gdRead : file.readExactAt (satMul gdOffset sectorSize) (satMul (layoutNumGts hdr) 4) = .ok gd

/-- The reparse succeeds exactly with these parts. -/
theorem sparseLayout_eq_some {file : Source} {layout : SparseLayout} :
    sparseLayout file = .ok (some layout) ↔
      ∃ hdr gdOffset gd, LayoutParts file hdr gdOffset gd ∧ layout = layoutWith file hdr gd := by
  unfold sparseLayout
  constructor
  · intro h
    split at h
    case isTrue => cases h
    next hlen =>
    obtain ⟨hdrBytes, hread, h⟩ := bind_eq_ok.mp h
    split at h
    case h_1 => cases h
    next hdr hparse =>
    simp only at h
    split at h
    case isTrue => cases h
    next hle =>
    obtain ⟨gdOffset, hat, h⟩ := bind_eq_ok.mp h
    split at h
    case h_1 => cases h
    next gdOffset =>
    split at h
    case isTrue => cases h
    next hin =>
    obtain ⟨gd, hgd, h⟩ := bind_eq_ok.mp h
    cases h
    exact ⟨hdr, gdOffset, gd, ⟨Nat.not_lt.mp hlen, ⟨hdrBytes, hread, hparse⟩, Nat.not_lt.mp hle, hat,
      Nat.not_lt.mp hin, hgd⟩, rfl⟩
  · rintro ⟨hdr, gdOffset, gd, hp, rfl⟩
    obtain ⟨hdrBytes, hread, hparse⟩ := hp.header
    rw [if_neg (Nat.not_lt.mpr hp.length), hread]
    simp only [bind, Except.bind, hparse]
    rw [if_neg (Nat.not_lt.mpr hp.gdLen_le), hp.directoryAt]
    simp only
    rw [if_neg (Nat.not_lt.mpr hp.gdInside), hp.gdRead]
    rfl

/-- The bytes of a grain table, `none` where they lie outside the file. -/
def readGrainTableBytes (file : Source) (gtSector gtByteLen fileLen : Nat) :
    Except IoError (Option (List UInt8)) :=
  let gtByte := gtSector * sectorSize
  if satAdd gtByte gtByteLen > fileLen then .ok none
  else (file.readExactAt gtByte gtByteLen).map some

/-- The redundant grain directory, `none` where it is absent or lies outside the file. -/
def readRgd (file : Source) (layout : SparseLayout) : Except IoError (Option (List Nat)) :=
  if layout.rgdOffset = 0 ∨ layout.rgdOffset = Header.gdAtEnd then .ok none
  else
    let rgdByte := satMul layout.rgdOffset sectorSize
    let len := satMul layout.gdEntryCount 4
    if satAdd rgdByte len > layout.fileLen then .ok none
    else (file.readExactAt rgdByte len).map fun bytes => some (leTable 4 bytes)

/-- One round of the comparison: whether entry `i` of both directories agrees. -/
def entryMatches (file : Source) (layout : SparseLayout) (rgd : List Nat) (i : Nat) :
    Except IoError Bool :=
  let p := layout.grainDir.getD i 0
  let r := rgd.getD i 0
  let gtByteLen := layout.numGtesPerGt * 4
  if p = 0 ∧ r = 0 then .ok true
  else if p = 0 ∨ r = 0 then .ok false
  else do
    let pgt ← readGrainTableBytes file p gtByteLen layout.fileLen
    let rgt ← readGrainTableBytes file r gtByteLen layout.fileLen
    match pgt, rgt with
    | some a, some b => return a == b
    | _, _ => return false

/-- The comparison of entries `i, …`; it stops at the first that differs. -/
def entriesMatch (check : Nat → Except IoError Bool) : (i entries : Nat) → Except IoError Bool
  | _, 0 => .ok true
  | i, entries + 1 => do
    if ← check i then entriesMatch check (i + 1) entries
    else return false

/-- Whether the redundant directory is there and its grain tables equal the primary ones. -/
def validateRgd (file : Source) : Except IoError Bool := do
  match ← sparseLayout file with
  | none => return false
  | some layout =>
    match ← readRgd file layout with
    | none => return false
    | some rgd => entriesMatch (entryMatches file layout rgd) 0 layout.gdEntryCount

/-! ## Triage -/

/-- The sector holds a whole grain table. -/
def inBounds (ptr numGtesPerGt fileLen : Nat) : Bool :=
  ptr != 0 && satAdd (satMul ptr sectorSize) (numGtesPerGt * 4) ≤ fileLen

inductive EntryClass where
  | intact
  | recoverable
  | unrecoverable
deriving DecidableEq, Repr

/-- The class of the primary entry `p` beside the redundant entry `r`. -/
def classify (layout : SparseLayout) (p r : Nat) : EntryClass :=
  if inBounds p layout.numGtesPerGt layout.fileLen ∨ p = 0 ∧ r = 0 then .intact
  else if inBounds r layout.numGtesPerGt layout.fileLen then .recoverable
  else .unrecoverable

/-- The class of the primary entry `p` where the redundant directory is out of bounds. -/
def classifyAlone (layout : SparseLayout) (p : Nat) : EntryClass :=
  if inBounds p layout.numGtesPerGt layout.fileLen ∨ p = 0 then .intact else .unrecoverable

/-- The classes of the entries of a layout; `none` where it names no redundant directory. -/
def layoutClasses (file : Source) (layout : SparseLayout) :
    Except IoError (Option (List EntryClass)) := do
  match ← readRgd file layout with
  | none =>
    if layout.rgdOffset = 0 ∨ layout.rgdOffset = Header.gdAtEnd then return none
    else return some (layout.grainDir.map (classifyAlone layout))
  | some rgd =>
    return some ((List.range layout.gdEntryCount).map fun i =>
      classify layout (layout.grainDir.getD i 0) (rgd.getD i 0))

/-- How many entries there are, and their classes; `none` where there is nothing to classify. -/
def entryClasses (file : Source) : Except IoError (Option (Nat × List EntryClass)) := do
  match ← sparseLayout file with
  | none => return none
  | some layout =>
    return (← layoutClasses file layout).map fun classes => (layout.gdEntryCount, classes)

end VmdkIntegrity

structure GdRecoveryReport where
  hasRgd : Bool
  totalEntries : Nat
  primaryIntact : Nat
  primaryDamaged : Nat
  recoverableViaRgd : Nat
  unrecoverable : Nat
deriving DecidableEq, Repr

namespace GdRecoveryReport

/-- `GdRecoveryReport::default()`. -/
def default : GdRecoveryReport := ⟨false, 0, 0, 0, 0, 0⟩

/-- The report with one more entry counted. -/
def count (report : GdRecoveryReport) : VmdkIntegrity.EntryClass → GdRecoveryReport
  | .intact => { report with primaryIntact := report.primaryIntact + 1 }
  | .recoverable =>
    { report with
      primaryDamaged := report.primaryDamaged + 1
      recoverableViaRgd := report.recoverableViaRgd + 1 }
  | .unrecoverable =>
    { report with
      primaryDamaged := report.primaryDamaged + 1
      unrecoverable := report.unrecoverable + 1 }

/-- The counters of a report count its classes. -/
theorem count_foldl (report : GdRecoveryReport) (classes : List VmdkIntegrity.EntryClass) :
    classes.foldl count report = { report with
      primaryIntact := report.primaryIntact + classes.count .intact
      primaryDamaged := report.primaryDamaged +
        (classes.count .recoverable + classes.count .unrecoverable)
      recoverableViaRgd := report.recoverableViaRgd + classes.count .recoverable
      unrecoverable := report.unrecoverable + classes.count .unrecoverable } := by
  induction classes generalizing report with
  | nil => rfl
  | cons c classes ih =>
    rw [List.foldl_cons, ih]
    cases c <;> simp [count] <;> omega

end GdRecoveryReport

namespace VmdkIntegrity

def grainDirectoryRecovery (file : Source) : Except IoError GdRecoveryReport := do
  match ← entryClasses file with
  | none => return .default
  | some (totalEntries, classes) =>
    return classes.foldl GdRecoveryReport.count
      { GdRecoveryReport.default with hasRgd := true, totalEntries }

/-! ## What the comparison establishes -/

theorem entriesMatch_true {check : Nat → Except IoError Bool} {i entries : Nat}
    (h : entriesMatch check i entries = .ok true) :
    ∀ j, i ≤ j → j < i + entries → check j = .ok true := by
  induction entries generalizing i with
  | zero => intro j h1 h2; omega
  | succ entries ih =>
    unfold entriesMatch at h
    obtain ⟨b, hb, h⟩ := bind_eq_ok.mp h
    cases b with
    | false => cases h
    | true =>
      intro j h1 h2
      rcases Nat.eq_or_lt_of_le h1 with rfl | hlt
      · exact hb
      · exact ih h j hlt (by omega)

/-- A table that passed the bounds check is a window of the file. -/
theorem readGrainTableBytes_some {file : Source} {sector len : Nat} {bs : List UInt8}
    (hlen : 0 < len) (h : readGrainTableBytes file sector len file.len = .ok (some bs)) :
    sector * sectorSize + len ≤ file.len ∧ bs = slice file.bytes (sector * sectorSize) len := by
  unfold readGrainTableBytes at h
  simp only at h
  split at h
  · cases h
  · cases hr : file.readExactAt (sector * sectorSize) len with
    | error e => rw [hr] at h; cases h
    | ok b =>
      rw [hr] at h
      cases h
      exact ⟨Source.readExactAt_ok_le hlen hr, (Source.readExactAt_ok hr).1⟩

/-- A window that passed a saturating bounds check lies in the file, at its exact place: no file
reaches the largest `u64`. -/
theorem sat_window {file : Source} {a n : Nat} (h : satAdd (satMul a sectorSize) n ≤ file.len) :
    satMul a sectorSize = a * sectorSize ∧ a * sectorSize + n ≤ file.len := by
  have hlt : file.len < 2 ^ 63 := file.length_lt
  have hsize : u64Size = 2 ^ 64 := rfl
  unfold satAdd satMul u64Max at h
  unfold satMul u64Max
  omega

/-- The directory is found or not; looking for it does not fail. -/
theorem layoutGdOffset_ok (file : Source) (hdr : SparseExtentHeader) :
    ∃ found, layoutGdOffset file hdr = .ok found := by
  unfold layoutGdOffset
  split
  · split
    · exact ⟨_, rfl⟩
    · next hshort =>
      have hin : file.len - 1024 + sectorSize ≤ file.bytes.length := by
        change _ ≤ file.len
        unfold sectorSize
        omega
      rw [Source.readExactAt_of_le hin]
      simp only [bind, Except.bind]
      split <;> exact ⟨_, rfl⟩
  · exact ⟨_, rfl⟩

/-- The reparse does not fail: it checks every window before it reads. -/
theorem sparseLayout_ok (file : Source) : ∃ layout, sparseLayout file = .ok layout := by
  unfold sparseLayout
  split
  · exact ⟨_, rfl⟩
  next hlen =>
  have hhead : 0 + sectorSize ≤ file.bytes.length := by
    change _ ≤ file.len
    omega
  rw [Source.readExactAt_of_le hhead]
  simp only [bind, Except.bind]
  split
  · exact ⟨_, rfl⟩
  next hdr hparse =>
  split
  · exact ⟨_, rfl⟩
  obtain ⟨found, hat⟩ := layoutGdOffset_ok file hdr
  rw [hat]
  cases found with
  | none => exact ⟨_, rfl⟩
  | some gdOffset =>
    simp only
    split
    · exact ⟨_, rfl⟩
    · next hin =>
      obtain ⟨hexact, hwindow⟩ := sat_window (Nat.not_lt.mp hin)
      rw [hexact, Source.readExactAt_of_le hwindow]
      exact ⟨_, rfl⟩

end VmdkIntegrity
