import Vmdk.Forensic

/-! # The integrity walk

The forensic crate walks the grain directory and counts the pointers that leave
the file. VMDK4 and seSparse differ in how an entry is decoded only, so one
walk serves both. A clean report says that every pointer it saw stays inside
(`Walk.run_spec`). -/

open Bytes Word

structure IntegrityReport where
  grainsChecked : Nat
  outOfBoundsGrains : Nat
  outOfBoundsGrainTables : Nat
deriving DecidableEq, Repr

namespace IntegrityReport

/-- `IntegrityReport::default()`. -/
def default : IntegrityReport := ⟨0, 0, 0⟩

def isOk (report : IntegrityReport) : Bool :=
  report.outOfBoundsGrains == 0 && report.outOfBoundsGrainTables == 0

theorem isOk_iff {report : IntegrityReport} :
    report.isOk = true ↔ report.outOfBoundsGrainTables = 0 ∧ report.outOfBoundsGrains = 0 := by
  rw [isOk, Bool.and_eq_true, beq_iff_eq, beq_iff_eq, and_comm]

end IntegrityReport

namespace VmdkIntegrity

/-- What a directory entry points to. -/
inductive TableRef where
  | absent
  | malformed
  | table (byte : Nat)

/-- How a format encodes its pointers. -/
structure Walk where
  tableRef : Nat → TableRef
  /-- First byte of the grain of a table entry, if it has one. -/
  grainByte : Nat → Option Nat
  /-- Bytes of a table entry. -/
  width : Nat
  gtByteLen : Nat
  grainSizeBytes : Nat
  fileLen : Nat

namespace Walk

/-- The report with one more table entry counted. -/
def checkGrain (w : Walk) (report : IntegrityReport) (gte : Nat) : IntegrityReport :=
  match w.grainByte gte with
  | none => report
  | some grainByte =>
    { report with
      grainsChecked := report.grainsChecked + 1
      outOfBoundsGrains := report.outOfBoundsGrains +
        if satAdd grainByte w.grainSizeBytes > w.fileLen then 1 else 0 }

/-- The report with one more directory entry counted. -/
def checkTable (w : Walk) (file : Source) (report : IntegrityReport) (gdEntry : Nat) :
    Except IoError IntegrityReport :=
  let dangling := { report with outOfBoundsGrainTables := report.outOfBoundsGrainTables + 1 }
  match w.tableRef gdEntry with
  | .absent => .ok report
  | .malformed => .ok dangling
  | .table gtByte =>
    if satAdd gtByte w.gtByteLen > w.fileLen then .ok dangling
    else (file.readExactAt gtByte w.gtByteLen).map fun gt =>
      (leTable w.width gt).foldl w.checkGrain report

def run (w : Walk) (file : Source) (grainDir : List Nat) : Except IoError IntegrityReport :=
  grainDir.foldlM (w.checkTable file) .default

end Walk

def vmdk4Walk (layout : SparseLayout) : Walk where
  tableRef gtSector := if gtSector = 0 then .absent else .table (gtSector * sectorSize)
  grainByte gte := if gte ≤ 1 then none else some (gte * sectorSize)
  width := 4
  gtByteLen := layout.numGtesPerGt * 4
  grainSizeBytes := layout.grainSizeBytes
  fileLen := layout.fileLen

def seSparseWalk (hdr : SeConstHeader) (fileLen : Nat) : Walk where
  tableRef gdEntry :=
    if gdEntry = 0 then .absent
    else if SeSparse.gdAllocField gdEntry ≠ SeSparse.gdAllocFlag then .malformed
    else .table (satMul
      (satAdd hdr.gtOffset (satMul (SeSparse.gdIndex gdEntry) SeSparse.gtSectors)) sectorSize)
  grainByte gte :=
    if SeSparse.gteType gte ≠ SeSparse.gteTypeAllocated then none
    else some (satMul
      (satAdd hdr.grainsOffset (satMul (SeSparse.gteGrainIndex gte) hdr.grainSize)) sectorSize)
  width := 8
  gtByteLen := SeSparse.gtesPerGt * 8
  grainSizeBytes := satMul hdr.grainSize sectorSize
  fileLen := fileLen

def checkIntegritySesparse (file : Source) : Except IoError IntegrityReport := do
  let hdrBytes ← file.readExactAt 0 sectorSize
  match SeConstHeader.parse hdrBytes with
  | .error _ => return .default
  | .ok hdr =>
    if hdr.grainSize = 0 then return .default
    let numGrains := divCeil hdr.capacity hdr.grainSize
    let numGts := max (divCeil numGrains SeSparse.gtesPerGt) 1
    let gdLen := satMul numGts 8
    let gdByte := satMul hdr.gdOffset sectorSize
    if gdLen > maxGdBytes ∨ satAdd gdByte gdLen > file.len then return .default
    let gd ← file.readExactAt gdByte gdLen
    (seSparseWalk hdr file.len).run file (leTable 8 gd)

/-- The pointers of a file that leave it. A layout that cannot be parsed has none. -/
def checkIntegrity (file : Source) : Except IoError IntegrityReport :=
  if file.len < sectorSize then .ok .default
  else do
    let head ← file.readExactAt 0 8
    if leNat head = SeSparse.constMagic then checkIntegritySesparse file
    else
      match ← sparseLayout file with
      | none => return .default
      | some layout => (vmdk4Walk layout).run file layout.grainDir

/-! ## What a walk establishes -/

namespace Walk
variable {w : Walk} {file : Source} {report report' : IntegrityReport}

/-- The grain of a table entry, where it has one, lies in the file. -/
def GrainInside (w : Walk) (gte : Nat) : Prop :=
  ∀ grainByte, w.grainByte gte = some grainByte → satAdd grainByte w.grainSizeBytes ≤ w.fileLen

/-- The table of a directory entry, where it has one, lies in the file. -/
def TableInside (w : Walk) (gdEntry : Nat) : Prop :=
  match w.tableRef gdEntry with
  | .absent => True
  | .malformed => False
  | .table gtByte => satAdd gtByte w.gtByteLen ≤ w.fileLen

/-- The grains of a table that lies in the file lie there too. -/
def GrainsInside (w : Walk) (file : Source) (gdEntry : Nat) : Prop :=
  match w.tableRef gdEntry with
  | .table gtByte => satAdd gtByte w.gtByteLen ≤ w.fileLen →
    ∀ gte ∈ leTable w.width (slice file.bytes gtByte w.gtByteLen), w.GrainInside gte
  | _ => True

theorem checkGrain_spec (gte : Nat) :
    (w.checkGrain report gte).outOfBoundsGrainTables = report.outOfBoundsGrainTables ∧
      ((w.checkGrain report gte).outOfBoundsGrains = 0 ↔
        report.outOfBoundsGrains = 0 ∧ w.GrainInside gte) := by
  unfold checkGrain GrainInside
  cases hgrain : w.grainByte gte with
  | none => exact ⟨rfl, by simp⟩
  | some grainByte =>
    refine ⟨rfl, ?_⟩
    simp only [Option.some.injEq, forall_eq']
    split <;> omega

theorem checkGrains_spec (gtes : List Nat) (report : IntegrityReport) :
    (gtes.foldl w.checkGrain report).outOfBoundsGrainTables = report.outOfBoundsGrainTables ∧
      ((gtes.foldl w.checkGrain report).outOfBoundsGrains = 0 ↔
        report.outOfBoundsGrains = 0 ∧ ∀ gte ∈ gtes, w.GrainInside gte) := by
  induction gtes generalizing report with
  | nil => exact ⟨rfl, by simp⟩
  | cons gte gtes ih =>
    obtain ⟨htables, hgrains⟩ := ih (w.checkGrain report gte)
    obtain ⟨htable, hgrain⟩ := @checkGrain_spec w report gte
    rw [List.foldl_cons]
    refine ⟨htables.trans htable, ?_⟩
    rw [hgrains, hgrain, List.forall_mem_cons, and_assoc]

/-- **One directory entry**: the counters stay 0 when its table and its grains are inside. -/
theorem checkTable_spec {gdEntry : Nat} (h : w.checkTable file report gdEntry = .ok report') :
    (report'.outOfBoundsGrainTables = 0 ↔
        report.outOfBoundsGrainTables = 0 ∧ w.TableInside gdEntry) ∧
      (report'.outOfBoundsGrains = 0 ↔
        report.outOfBoundsGrains = 0 ∧ w.GrainsInside file gdEntry) := by
  unfold checkTable at h
  unfold TableInside GrainsInside
  simp only at h
  cases href : w.tableRef gdEntry with
  | absent =>
    rw [href] at h
    cases h
    simp
  | malformed =>
    rw [href] at h
    cases h
    simp
  | table gtByte =>
    rw [href] at h
    simp only at h
    split at h
    · next hout =>
      cases h
      have hin := Nat.not_le.mpr hout
      simp [hin]
    · next hin =>
      have hle := Nat.not_lt.mp hin
      cases hread : file.readExactAt gtByte w.gtByteLen with
      | error e => rw [hread] at h; cases h
      | ok gt =>
        rw [hread] at h
        cases h
        obtain ⟨htables, hgrains⟩ := checkGrains_spec (w := w) (leTable w.width gt) report
        rw [htables, hgrains, (Source.readExactAt_ok hread).1]
        simp [hle]

/-- **A whole walk** counts nothing exactly when every table, or every grain, is inside. -/
theorem run_spec {grainDir : List Nat} (h : w.run file grainDir = .ok report) :
    (report.outOfBoundsGrainTables = 0 ↔ ∀ gdEntry ∈ grainDir, w.TableInside gdEntry) ∧
      (report.outOfBoundsGrains = 0 ↔ ∀ gdEntry ∈ grainDir, w.GrainsInside file gdEntry) := by
  have hfold : ∀ (dir : List Nat) (start : IntegrityReport),
      dir.foldlM (w.checkTable file) start = .ok report →
        (report.outOfBoundsGrainTables = 0 ↔
            start.outOfBoundsGrainTables = 0 ∧ ∀ gdEntry ∈ dir, w.TableInside gdEntry) ∧
          (report.outOfBoundsGrains = 0 ↔
            start.outOfBoundsGrains = 0 ∧ ∀ gdEntry ∈ dir, w.GrainsInside file gdEntry) := by
    intro dir
    induction dir with
    | nil =>
      intro start hstart
      cases hstart
      simp
    | cons gdEntry dir ih =>
      intro start hstart
      rw [List.foldlM_cons] at hstart
      obtain ⟨next, hnext, hrest⟩ := bind_eq_ok.mp hstart
      obtain ⟨htables, hgrains⟩ := ih next hrest
      obtain ⟨htable, hgrain⟩ := checkTable_spec hnext
      rw [htables, hgrains, htable, hgrain, List.forall_mem_cons, List.forall_mem_cons, and_assoc,
        and_assoc]
      exact ⟨Iff.rfl, Iff.rfl⟩
  obtain ⟨htables, hgrains⟩ := hfold grainDir .default h
  refine ⟨htables.trans (and_iff_right rfl), hgrains.trans (and_iff_right rfl)⟩

/-- A walk over the file it was laid out for does not fail: tables are read after their check. -/
theorem run_ok (hlen : w.fileLen = file.len) (grainDir : List Nat) :
    ∃ report, w.run file grainDir = .ok report := by
  have hfold : ∀ (dir : List Nat) (start : IntegrityReport),
      ∃ report, dir.foldlM (w.checkTable file) start = .ok report := by
    intro dir
    induction dir with
    | nil => exact fun start => ⟨start, rfl⟩
    | cons gdEntry dir ih =>
      intro start
      have hone : ∃ next, w.checkTable file start gdEntry = .ok next := by
        unfold checkTable
        cases w.tableRef gdEntry with
        | absent => exact ⟨_, rfl⟩
        | malformed => exact ⟨_, rfl⟩
        | table gtByte =>
          simp only
          split
          · exact ⟨_, rfl⟩
          · next hin =>
            have hlt : file.len < u64Max := Nat.lt_trans file.length_lt (by decide)
            rw [hlen] at hin
            have hwindow := (satAdd_le_iff hlt).mp (Nat.not_lt.mp hin)
            rw [Source.readExactAt_of_le hwindow]
            exact ⟨_, rfl⟩
      obtain ⟨next, hnext⟩ := hone
      obtain ⟨report, hreport⟩ := ih next
      refine ⟨report, ?_⟩
      rw [List.foldlM_cons, hnext]
      exact hreport
  exact hfold grainDir .default

end Walk

end VmdkIntegrity
