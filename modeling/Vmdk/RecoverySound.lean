import Vmdk.OpenSound
import Vmdk.Forensic
import Vmdk.Stored
import Vmdk.Lib.Machine

/-! # Recovery on a sound image

The redundant directory agrees with the primary one when every entry of it is
absent, or points to a table with the bytes of the primary one (`RgdAgrees`).
Then recovery mode resolves every pointer and every entry to the primary ones,
in lookups and in scans (`readAtCounting_agrees`, `allocatedGrains_agrees`). An
image without a redundant directory agrees, and so does one that `validateRgd`
passes (`open_agrees`). -/

open Bytes Word

namespace Image

/-- Redundant entry `i` is absent, or its table is the primary one byte for byte. -/
def RgdAgreesAt (im : Image) (inner : Source) (geom : SparseFormat) (i : Nat) : Prop :=
  let p := geom.grainDir.getD i 0
  let len := geom.numGtesPerGt * 4
  ∃ r, im.rgdDirEntry inner i inner.len = .ok r ∧
    (r = 0 ∨ p ≠ 0 ∧ p * sectorSize + len ≤ inner.len ∧ r * sectorSize + len ≤ inner.len ∧
      slice inner.bytes (p * sectorSize) len = slice inner.bytes (r * sectorSize) len)

def RgdAgrees (im : Image) (inner : Source) (geom : SparseFormat) : Prop :=
  ∀ i, im.RgdAgreesAt inner geom i

variable {im : Image} {inner : Source} {geom : SparseFormat}

theorem satAdd_le (a b : Nat) : satAdd a b ≤ a + b := Nat.min_le_left _ _

/-- A sector whose table lies in the file is usable. -/
theorem usable_of_le {n fileLen sector : Nat} (h0 : sector ≠ 0)
    (h : sector * sectorSize + n * 4 ≤ fileLen) : usable n fileLen sector = true := by
  have hmul : satMul sector sectorSize ≤ sector * sectorSize := Nat.min_le_left _ _
  have hadd := satAdd_le (satMul sector sectorSize) (n * 4)
  simp only [usable, bne_iff_ne, ne_eq, h0, not_false_eq_true, Bool.and_eq_true,
    decide_eq_true_eq, true_and]
  omega

theorem usable_zero (n fileLen : Nat) : usable n fileLen 0 = false := rfl

theorem seekEnd_zero (inner : Source) : inner.seekEnd 0 = .ok inner.len := rfl

/-- What fits in a file by saturating addition is in it. -/
theorem le_of_not_lt_satAdd {inner : Source} {a b : Nat} (h : ¬ inner.len < satAdd a b) :
    a + b ≤ inner.bytes.length :=
  (satAdd_le_iff (Nat.lt_trans inner.length_lt (by decide))).mp (Nat.not_lt.mp h)

/-- The redundant directory never fails: what is not in the file counts as absent. -/
theorem rgdDirEntry_total (im : Image) (inner : Source) (i : Nat) :
    ∃ sector, im.rgdDirEntry inner i inner.len = .ok sector := by
  unfold rgdDirEntry
  split
  · exact ⟨0, rfl⟩
  split
  · exact ⟨0, rfl⟩
  simp only
  split
  · exact ⟨0, rfl⟩
  · next hin =>
    rw [Source.readExactAt_of_le (le_of_not_lt_satAdd hin)]
    exact ⟨_, rfl⟩

theorem redundantGtFor_total (im : Image) (fallback : Bool) (inner : Source) (i n : Nat) :
    ∃ redundant, im.redundantGtFor fallback inner i n = .ok redundant := by
  unfold redundantGtFor
  cases fallback with
  | false => exact ⟨none, rfl⟩
  | true =>
    obtain ⟨sector, hsector⟩ := im.rgdDirEntry_total inner i
    unfold readRedundantGt
    simp only [if_true, seekEnd_zero, hsector, bind, Except.bind]
    split
    · exact ⟨none, rfl⟩
    split
    · exact ⟨none, rfl⟩
    · next hin =>
      rw [Source.readExactAt_of_le (le_of_not_lt_satAdd hin)]
      exact ⟨_, rfl⟩

/-- Recovery keeps every primary pointer. -/
theorem gtSectorFor_agrees (h : im.RgdAgrees inner geom) (fallback : Bool) (i : Nat) :
    im.gtSectorFor fallback inner geom i = .ok (geom.grainDir.getD i 0) := by
  unfold gtSectorFor
  cases fallback with
  | false => rfl
  | true =>
    obtain ⟨r, hr, hcase⟩ := h i
    simp only [if_true, resilientGtSector, seekEnd_zero, hr, bind, Except.bind]
    rcases hcase with rfl | ⟨hp, hpin, -⟩
    · rw [usable_zero]
      split <;> rfl
    · rw [usable_of_le hp hpin]
      rfl

section RedundantTable
variable {i r idx n : Nat}

theorem rgdGte_absent (hr : im.rgdDirEntry inner i inner.len = .ok 0) :
    im.rgdGte inner i idx n = .ok 0 := by
  simp only [rgdGte, seekEnd_zero, hr, bind, Except.bind, if_true]
  rfl

/-- An entry of a redundant table that lies in the file. -/
theorem rgdGte_present (hr : im.rgdDirEntry inner i inner.len = .ok r) (h0 : r ≠ 0)
    (hin : r * sectorSize + n * 4 ≤ inner.len) (hidx : idx < n) :
    im.rgdGte inner i idx n = .ok (leNat (slice inner.bytes (r * sectorSize + idx * 4) 4)) := by
  have h1 := satAdd_le (r * sectorSize) (n * 4)
  have h2 := satAdd_le (r * sectorSize + idx * 4) 4
  have hentry : r * sectorSize + idx * 4 + 4 ≤ inner.bytes.length := by
    change _ ≤ inner.len
    omega
  simp only [rgdGte, seekEnd_zero, hr, bind, Except.bind, if_neg h0]
  rw [if_neg (by omega), if_neg (by omega), Source.readExactAt_of_le hentry]
  rfl

theorem readRedundantGt_absent (hr : im.rgdDirEntry inner i inner.len = .ok 0) :
    im.readRedundantGt inner i n = .ok none := by
  simp only [readRedundantGt, seekEnd_zero, hr, bind, Except.bind, if_true]
  rfl

theorem readRedundantGt_present (hr : im.rgdDirEntry inner i inner.len = .ok r) (h0 : r ≠ 0)
    (hin : r * sectorSize + n * 4 ≤ inner.len) :
    im.readRedundantGt inner i n = .ok (some (slice inner.bytes (r * sectorSize) (n * 4))) := by
  have h1 := satAdd_le (r * sectorSize) (n * 4)
  simp only [readRedundantGt, seekEnd_zero, hr, bind, Except.bind, if_neg h0]
  rw [if_neg (by omega), Source.readExactAt_of_le hin]
  rfl

end RedundantTable

/-- An entry of a whole table is the number at its place. -/
theorem readGt_getD {n idx sector : Nat} {gt : List Nat} (hidx : idx < n)
    (h : readGt inner n sector = .ok gt) :
    gt.getD idx 0 = leNat (slice inner.bytes (sector * sectorSize + idx * 4) 4) :=
  (leAt_eq_some.mp (TableLayout.readGt_getD hidx h)).2

/-- Windows of equal windows are equal. -/
theorem slice_entry {bytes : List UInt8} {p r n idx : Nat} (hidx : idx < n)
    (h : slice bytes p (n * 4) = slice bytes r (n * 4)) :
    slice bytes (p + idx * 4) 4 = slice bytes (r + idx * 4) 4 := by
  rw [← slice_slice bytes p (n * 4) (idx * 4) 4 (by omega), h, slice_slice _ _ _ _ _ (by omega)]

/-- Recovery keeps every primary entry: a sparse one has a sparse copy. -/
theorem recoverEntry_agrees (h : im.RgdAgrees inner geom) {fallback fromRgd : Bool} {i idx : Nat}
    {gt : List Nat} (hidx : idx < geom.numGtesPerGt)
    (hgt : readGt inner geom.numGtesPerGt (geom.grainDir.getD i 0) = .ok gt) :
    im.recoverEntry fallback inner geom i idx (gt.getD idx 0) fromRgd =
      .ok (gt.getD idx 0, fromRgd) := by
  unfold recoverEntry
  split
  · next hcond =>
    have hle : gt.getD idx 0 ≤ 1 := by
      simp only [Bool.and_eq_true, decide_eq_true_eq] at hcond
      exact hcond.2
    obtain ⟨r, hr, hcase⟩ := h i
    by_cases h0 : r = 0
    · subst h0
      rw [rgdGte_absent hr]
      rfl
    · obtain ⟨-, -, hrin, heq⟩ := hcase.resolve_left h0
      rw [rgdGte_present hr h0 hrin hidx, ← slice_entry hidx heq, ← readGt_getD hidx hgt]
      simp only [bind, Except.bind, if_neg (Nat.not_lt.mpr hle)]
      rfl
  · rfl

/-- **On an agreeing image recovery mode finds what the plain lookup finds**, and counts nothing. -/
theorem locateSparse_agrees (h : im.RgdAgrees inner geom) (fallback : Bool) (o : Nat) :
    im.locateSparse fallback inner geom o = ((im.locateSparse false inner geom o).1, false) := by
  have hidx : o / geom.grainSizeBytes % geom.numGtesPerGt < geom.numGtesPerGt :=
    Nat.mod_lt _ geom.numGtesPerGt_pos
  unfold locateSparse
  simp only [gtSectorFor_agrees h]
  split
  · rfl
  · cases hgt : readGt inner geom.numGtesPerGt
        (geom.grainDir.getD (o / geom.grainSizeBytes / geom.numGtesPerGt) 0) with
    | error e => rfl
    | ok gt =>
      simp only [locateIn, recoverEntry_agrees h hidx hgt, bne_self_eq_false, Bool.and_false,
        Bool.false_and]
      split <;> rfl

theorem readAtCounting_agrees [ZlibDecoder] (hfmt : im.fmt = .sparse inner geom)
    (h : im.RgdAgrees inner geom) (fallback : Bool) (pos len : Nat) :
    im.readAtCounting fallback pos len = (im.readAt false pos len, false) := by
  unfold readAt readAtCounting
  simp only [hfmt]
  split
  · rfl
  · rw [locateSparse_agrees h]

/-- The entry a scan uses is the primary one. -/
theorem scanEntry_agrees {gtBytes : List UInt8} {redundant : Option (List UInt8)}
    (h : ∀ rgt, redundant = some rgt → rgt = gtBytes) (idx : Nat) :
    scanEntry gtBytes redundant idx = (leNat (slice gtBytes (idx * 4) 4), false) := by
  unfold scanEntry
  cases redundant with
  | none => simp
  | some rgt =>
    rw [h rgt rfl]
    simp only
    rw [if_neg (by omega)]

/-- What the scan of a table finds without a redundant directory. -/
def scanPlain (im : Image) (inner : Source) (geom : SparseFormat) (i : Nat) :
    Except IoError (List AllocatedGrain × Nat) :=
  let p := geom.grainDir.getD i 0
  if p = 0 then .ok ([], 0)
  else (inner.readExactAt (p * sectorSize) (geom.numGtesPerGt * 4)).map fun gtBytes =>
    (((List.range geom.numGtesPerGt).filter fun idx => leNat (slice gtBytes (idx * 4) 4) > 1).flatMap
      fun idx => im.allocatedGrain geom.grainSizeBytes (i * geom.numGtesPerGt + idx), 0)

/-- The redundant table a scan loads is none or the primary one. -/
theorem redundant_agrees (h : im.RgdAgrees inner geom) (fallback : Bool) (i : Nat) :
    ∃ redundant, im.redundantGtFor fallback inner i geom.numGtesPerGt = .ok redundant ∧
      ∀ rgt, redundant = some rgt →
        rgt = slice inner.bytes (geom.grainDir.getD i 0 * sectorSize) (geom.numGtesPerGt * 4) := by
  cases fallback with
  | false => exact ⟨none, rfl, fun _ h => by cases h⟩
  | true =>
    obtain ⟨r, hr, hcase⟩ := h i
    by_cases h0 : r = 0
    · subst h0
      exact ⟨none, readRedundantGt_absent hr, fun _ h => by cases h⟩
    · obtain ⟨-, -, hrin, heq⟩ := hcase.resolve_left h0
      exact ⟨_, readRedundantGt_present hr h0 hrin, fun rgt h => by cases h; exact heq.symm⟩

/-- **On an agreeing image a scan in recovery mode is the plain scan**, and counts nothing. -/
theorem scanTable_agrees (h : im.RgdAgrees inner geom) (fallback : Bool) (i : Nat) :
    im.scanTable fallback inner geom i = im.scanPlain inner geom i := by
  obtain ⟨redundant, hred, heq⟩ := redundant_agrees h fallback i
  unfold scanTable scanPlain
  simp only [gtSectorFor_agrees h, hred, bind, Except.bind]
  split
  · rfl
  · cases hread : inner.readExactAt (geom.grainDir.getD i 0 * sectorSize)
        (geom.numGtesPerGt * 4) with
    | error e => rfl
    | ok gtBytes =>
      have hbytes := (Source.readExactAt_ok hread).1
      have hscan := scanEntry_agrees fun rgt hr => (heq rgt hr).trans hbytes.symm
      simp only [hscan, bne_self_eq_false, Bool.and_false, Bool.false_and, Bool.or_false,
        List.countP_false]
      rfl

theorem scanTables_congr {f g : Nat → Except IoError (List AllocatedGrain × Nat)}
    (h : ∀ i, f i = g i) (i tables : Nat) : scanTables f i tables = scanTables g i tables := by
  rw [funext h]

/-- A scan whose tables recover nothing counts nothing. -/
theorem scanTables_count {f : Nat → Except IoError (List AllocatedGrain × Nat)}
    (h : ∀ i grains recovered, f i = .ok (grains, recovered) → recovered = 0) (i tables : Nat) :
    (scanTables f i tables).2 = 0 := by
  induction tables generalizing i with
  | zero => rfl
  | succ tables ih =>
    unfold scanTables
    cases hf : f i with
    | error e => rfl
    | ok r =>
      obtain ⟨grains, recovered⟩ := r
      simp only [h i grains recovered hf, ih]

theorem scanPlain_count {i : Nat} {grains : List AllocatedGrain} {recovered : Nat}
    (h : im.scanPlain inner geom i = .ok (grains, recovered)) : recovered = 0 := by
  unfold scanPlain at h
  simp only at h
  split at h
  · cases h; rfl
  · cases hread : inner.readExactAt (geom.grainDir.getD i 0 * sectorSize)
        (geom.numGtesPerGt * 4) with
    | error e => rw [hread] at h; cases h
    | ok b => rw [hread] at h; cases h; rfl

theorem allocatedGrains_agrees (hfmt : im.fmt = .sparse inner geom) (h : im.RgdAgrees inner geom)
    (fallback : Bool) : im.allocatedGrains fallback = ((im.allocatedGrains false).1, 0) := by
  have hplain (fb : Bool) : im.allocatedGrains fb =
      scanTables (im.scanPlain inner geom) 0 geom.grainDir.length := by
    unfold allocatedGrains
    simp only [hfmt]
    exact scanTables_congr (fun i => scanTable_agrees h fb i) 0 _
  rw [hplain fallback, hplain false]
  exact Prod.ext rfl (scanTables_count (fun i _ _ => scanPlain_count) 0 _)

end Image

/-! ## Which images agree -/

section Agree
variable {file : Source} {im : Image}

theorem rgdAgrees_of_absent {geom : SparseFormat}
    (h : im.rgdOffset = 0 ∨ im.rgdOffset = Header.gdAtEnd) : im.RgdAgrees file geom := by
  intro i
  refine ⟨0, ?_, .inl rfl⟩
  unfold Image.rgdDirEntry
  rw [if_pos h]

theorem layoutNumGts_eq (hdr : SparseExtentHeader) :
    VmdkIntegrity.layoutNumGts hdr = VmdkReader.numGts hdr :=
  (numGts_eq hdr).symm

/-- The forensic parser and the opener look for the directory in the same place. -/
theorem layoutGdOffset_eq_some {hdr : SparseExtentHeader} {gdOffset : Nat} :
    VmdkIntegrity.layoutGdOffset file hdr = .ok (some gdOffset) ↔
      VmdkReader.footerGdOffset file hdr = .ok gdOffset := by
  unfold VmdkIntegrity.layoutGdOffset VmdkReader.footerGdOffset Source.seekEnd
  split
  · by_cases hlen : file.len < 1024
    · rw [if_pos hlen, if_neg (Nat.not_le.mpr hlen)]
      exact ⟨(fun h => by cases h), (fun h => by cases h)⟩
    · rw [if_neg hlen, if_pos (Nat.not_lt.mp hlen)]
      simp only [fromIo, Except.mapError, bind, Except.bind]
      rw [show (512 : Nat) = sectorSize from rfl]
      cases file.readExactAt (file.len - 1024) sectorSize with
      | error e => exact ⟨(fun h => by cases h), (fun h => by cases h)⟩
      | ok footer =>
        simp only
        cases SparseExtentHeader.parse footer with
        | error e => exact ⟨(fun h => by cases h), (fun h => by cases h)⟩
        | ok footerHdr =>
          exact ⟨(fun h => by cases h; rfl), (fun h => by cases h; rfl)⟩
  · exact ⟨(fun h => by cases h; rfl), (fun h => by cases h; rfl)⟩

/-- The forensic parser finds the index that `open` loads. -/
theorem sparseLayout_eq {hdrBytes gdBytes : List UInt8} {hdr : SparseExtentHeader}
    {desc : TextDescriptor} {gdOffset : Nat} (hread : file.readExactAt 0 512 = .ok hdrBytes)
    (hparse : SparseExtentHeader.parse hdrBytes = .ok hdr)
    (hp : Vmdk4Parts file hdr desc gdOffset gdBytes) {layout : SparseLayout}
    (h : VmdkIntegrity.sparseLayout file = .ok (some layout)) :
    layout = VmdkIntegrity.layoutWith file hdr gdBytes := by
  obtain ⟨hdr', gdOffset', gd, hparts, rfl⟩ := VmdkIntegrity.sparseLayout_eq_some.mp h
  obtain ⟨hdrBytes', hread', hparse'⟩ := hparts.header
  rw [show sectorSize = 512 from rfl, hread] at hread'
  cases hread'
  rw [hparse] at hparse'
  cases hparse'
  have hat := layoutGdOffset_eq_some.mp hparts.directoryAt
  rw [hp.directoryAt] at hat
  cases hat
  have hmul : satMul (VmdkReader.numGts hdr) 4 = VmdkReader.numGts hdr * 4 := satMul_eq hp.gdLen
  have hgd := hparts.gdRead
  rw [layoutNumGts_eq, hmul, satMul_eq hp.gdStart, hp.gdRead] at hgd
  cases hgd
  rfl

theorem rgdDirEntry_beyond {i fileLen : Nat} (h : im.gdEntryCount ≤ i) :
    im.rgdDirEntry file i fileLen = .ok 0 := by
  unfold Image.rgdDirEntry
  split <;> rfl

/-- A saturated offset that something was read at is exact: no file reaches the largest `u64`. -/
theorem satMul_of_read {a n : Nat} {b : List UInt8} (hn : 0 < n)
    (h : file.readExactAt (satMul a sectorSize) n = .ok b) : satMul a sectorSize = a * sectorSize := by
  have hle := Source.readExactAt_ok_le hn h
  have hlt := file.length_lt
  unfold satMul u64Max u64Size at *
  omega

/-- The whole redundant directory lies in the file, and its entries are what recovery looks up. -/
theorem rgdDirEntry_eq {count i : Nat} {rgdBytes : List UInt8} (h0 : im.rgdOffset ≠ 0)
    (hend : im.rgdOffset ≠ Header.gdAtEnd) (hcount : im.gdEntryCount = count)
    (hread : file.readExactAt (satMul im.rgdOffset sectorSize) (count * 4) = .ok rgdBytes)
    (hi : i < count) :
    im.rgdDirEntry file i file.len = .ok ((leTable 4 rgdBytes).getD i 0) := by
  have hexact := satMul_of_read (by omega) hread
  rw [hexact] at hread
  have hle := Source.readExactAt_ok_le (by omega) hread
  have hlt := file.length_lt
  have hbyte : satAdd (im.rgdOffset * sectorSize) (i * 4) = im.rgdOffset * sectorSize + i * 4 := by
    unfold satAdd u64Max u64Size
    omega
  have hentry : im.rgdOffset * sectorSize + i * 4 + 4 ≤ file.bytes.length := by omega
  have hend4 : ¬ file.len < satAdd (im.rgdOffset * sectorSize + i * 4) 4 := by
    have := Image.satAdd_le (im.rgdOffset * sectorSize + i * 4) 4
    change ¬ file.bytes.length < _
    omega
  unfold Image.rgdDirEntry
  rw [if_neg (not_or.mpr ⟨h0, hend⟩), if_neg (by omega), hexact]
  simp only [hbyte]
  rw [if_neg hend4, Source.readExactAt_of_le hentry, (Source.readExactAt_ok hread).1,
    getD_leTable_slice (by decide) hle hi]
  rfl

/-- Entries `p` and `r` of the two directories are copies: both are absent, or both tables lie in
the file and hold the same bytes. -/
def Copies (file : Source) (n p r : Nat) : Prop :=
  r = 0 ∧ p = 0 ∨
    r ≠ 0 ∧ p ≠ 0 ∧ p * sectorSize + n * 4 ≤ file.len ∧ r * sectorSize + n * 4 ≤ file.len ∧
      slice file.bytes (p * sectorSize) (n * 4) = slice file.bytes (r * sectorSize) (n * 4)

/-- What the forensic comparison says of one entry. -/
theorem entryMatches_true {layout : SparseLayout} {rgd : List Nat} {i : Nat}
    (hn : 0 < layout.numGtesPerGt) (hlen : layout.fileLen = file.len)
    (h : VmdkIntegrity.entryMatches file layout rgd i = .ok true) :
    Copies file layout.numGtesPerGt (layout.grainDir.getD i 0) (rgd.getD i 0) := by
  unfold VmdkIntegrity.entryMatches at h
  simp only [hlen] at h
  split at h
  · next h0 => exact .inl ⟨h0.2, h0.1⟩
  · split at h
    · cases h
    · next h0 =>
      obtain ⟨pgt, hpgt, h⟩ := bind_eq_ok.mp h
      obtain ⟨rgt, hrgt, h⟩ := bind_eq_ok.mp h
      cases pgt with
      | none => cases h
      | some a =>
        cases rgt with
        | none => cases h
        | some b =>
          obtain ⟨hpin, ha⟩ := VmdkIntegrity.readGrainTableBytes_some (by omega) hpgt
          obtain ⟨hrin, hb⟩ := VmdkIntegrity.readGrainTableBytes_some (by omega) hrgt
          have hab : a = b := by simpa [pure, Except.pure] using h
          rw [not_or] at h0
          exact .inr ⟨h0.2, h0.1, hpin, hrin, by rw [← ha, ← hb, hab]⟩

theorem readRgd_some {layout : SparseLayout} {rgd : List Nat}
    (h : VmdkIntegrity.readRgd file layout = .ok (some rgd)) :
    layout.rgdOffset ≠ 0 ∧ layout.rgdOffset ≠ Header.gdAtEnd ∧
      ∃ rgdBytes, file.readExactAt (satMul layout.rgdOffset sectorSize)
        (satMul layout.gdEntryCount 4) = .ok rgdBytes ∧ rgd = leTable 4 rgdBytes := by
  unfold VmdkIntegrity.readRgd at h
  simp only at h
  split at h
  · cases h
  · next hoff =>
    rw [not_or] at hoff
    split at h
    · cases h
    · cases hread : file.readExactAt (satMul layout.rgdOffset sectorSize)
          (satMul layout.gdEntryCount 4) with
      | error e => rw [hread] at h; cases h
      | ok b =>
        rw [hread] at h
        cases h
        exact ⟨hoff.1, hoff.2, b, rfl, rfl⟩

/-- What a comparison that succeeds has read: both directories, with a copy behind every entry. -/
structure Validated (file : Source) (layout : SparseLayout) (rgd : List Nat) : Prop where
  layoutRead : VmdkIntegrity.sparseLayout file = .ok (some layout)
  rgdRead : VmdkIntegrity.readRgd file layout = .ok (some rgd)
  copies : ∀ i < layout.gdEntryCount,
    Copies file layout.numGtesPerGt (layout.grainDir.getD i 0) (rgd.getD i 0)

theorem validated_of_true (h : VmdkIntegrity.validateRgd file = .ok true) :
    ∃ layout rgd, Validated file layout rgd := by
  unfold VmdkIntegrity.validateRgd at h
  obtain ⟨layout, hlayout, h⟩ := bind_eq_ok.mp h
  cases layout with
  | none => cases h
  | some layout =>
    obtain ⟨rgd, hrgd, h⟩ := bind_eq_ok.mp h
    cases rgd with
    | none => cases h
    | some rgd =>
      refine ⟨layout, rgd, hlayout, hrgd, fun i hi => ?_⟩
      obtain ⟨hdr, _, _, -, rfl⟩ := VmdkIntegrity.sparseLayout_eq_some.mp hlayout
      have hentry := VmdkIntegrity.entriesMatch_true h i (Nat.zero_le _) (by rwa [Nat.zero_add])
      exact entryMatches_true hdr.numGtesPerGt_pos rfl hentry

/-- **What the forensic check establishes**: the redundant directory is in the file, and each of its
entries is a copy of the primary one. -/
theorem copies_of_validated {hdrBytes gdBytes : List UInt8} {hdr : SparseExtentHeader}
    {desc : TextDescriptor} {gdOffset : Nat} (hread : file.readExactAt 0 512 = .ok hdrBytes)
    (hparse : SparseExtentHeader.parse hdrBytes = .ok hdr)
    (hp : Vmdk4Parts file hdr desc gdOffset gdBytes)
    (h : VmdkIntegrity.validateRgd file = .ok true) :
    hdr.rgdOffset ≠ 0 ∧ hdr.rgdOffset ≠ Header.gdAtEnd ∧
      ∃ rgdBytes, file.readExactAt (satMul hdr.rgdOffset sectorSize)
          (VmdkReader.numGts hdr * 4) = .ok rgdBytes ∧
        ∀ i < VmdkReader.numGts hdr, Copies file hdr.numGtesPerGt
          ((leTable 4 gdBytes).getD i 0) ((leTable 4 rgdBytes).getD i 0) := by
  obtain ⟨layout, rgd, hvalid⟩ := validated_of_true h
  obtain rfl := sparseLayout_eq hread hparse hp hvalid.layoutRead
  obtain ⟨h0, hend, rgdBytes, hrgdRead, rfl⟩ := readRgd_some hvalid.rgdRead
  have hcount : (VmdkIntegrity.layoutWith file hdr gdBytes).gdEntryCount =
      VmdkReader.numGts hdr := layoutNumGts_eq hdr
  rw [hcount, satMul_eq hp.gdLen] at hrgdRead
  exact ⟨h0, hend, rgdBytes, hrgdRead, fun i hi => hvalid.copies i (by rwa [hcount])⟩

/-- An image that the forensic check passes agrees. -/
theorem rgdAgrees_of_validated {hdrBytes gdBytes : List UInt8} {hdr : SparseExtentHeader}
    {desc : TextDescriptor} {gdOffset : Nat} (hread : file.readExactAt 0 512 = .ok hdrBytes)
    (hparse : SparseExtentHeader.parse hdrBytes = .ok hdr)
    (hp : Vmdk4Parts file hdr desc gdOffset gdBytes)
    (h : VmdkIntegrity.validateRgd file = .ok true) :
    (VmdkReader.vmdk4Image file hdr desc gdBytes).RgdAgrees file
      (VmdkReader.vmdk4Format hdr gdBytes) := by
  obtain ⟨h0, hend, rgdBytes, hrgdRead, hcopies⟩ := copies_of_validated hread hparse hp h
  intro i
  by_cases hi : i < VmdkReader.numGts hdr
  · refine ⟨_, rgdDirEntry_eq h0 hend rfl hrgdRead hi, ?_⟩
    rcases hcopies i hi with ⟨hr, -⟩ | ⟨-, hcopy⟩
    · exact .inl hr
    · exact .inr hcopy
  · exact ⟨0, rgdDirEntry_beyond (Nat.not_lt.mp hi), .inl rfl⟩

/-- The images the recovery mode must leave alone: COWD, seSparse, a VMDK4 image without a redundant
directory, and one whose redundant directory passes the forensic check. -/
def SoundImage (file : Source) : Prop :=
  beNat (slice file.bytes 0 4) = Cowd.magic ∨ numAt 8 file.bytes 0 = SeSparse.constMagic ∨
    numAt 8 file.bytes 48 = 0 ∨ numAt 8 file.bytes 48 = Header.gdAtEnd ∨
    VmdkIntegrity.validateRgd file = .ok true

/-- Recovery mode changes no answer of an image and counts nothing. -/
structure Harmless [ZlibDecoder] (im : Image) : Prop where
  read : ∀ fallback pos len, im.readAtCounting fallback pos len = (im.readAt false pos len, false)
  scan : ∀ fallback, im.allocatedGrains fallback = ((im.allocatedGrains false).1, 0)

theorem harmless_of_agrees [ZlibDecoder] {geom : SparseFormat} (hfmt : im.fmt = .sparse file geom)
    (h : im.RgdAgrees file geom) : Harmless im :=
  ⟨Image.readAtCounting_agrees hfmt h, Image.allocatedGrains_agrees hfmt h⟩

/-- Only the tables of VMDK4 and COWD extents are ever recovered. -/
theorem harmless_of_seSparse [ZlibDecoder] {geom : SeSparseFormat}
    (hfmt : im.fmt = .seSparse file geom) : Harmless im := by
  refine ⟨fun fallback pos len => ?_, fun fallback => ?_⟩
  · unfold Image.readAt Image.readAtCounting
    simp only [hfmt]
    split <;> rfl
  · unfold Image.allocatedGrains
    simp only [hfmt]
    refine Prod.ext rfl (Image.scanTables_count (fun i grains recovered h => ?_) 0 _)
    unfold Image.scanTableSesparse at h
    simp only at h
    split at h
    · cases h; rfl
    · split at h
      · cases h; rfl
      · obtain ⟨b, -, h⟩ := bind_eq_ok.mp h
        exact (congrArg Prod.snd (Except.ok.inj h)).symm

/-- **Recovery mode is harmless on every sound image that `open` accepts.** -/
theorem open_harmless [ZlibDecoder] {r : VmdkReader} (hopen : VmdkReader.open file = .ok r)
    (hsound : SoundImage file) : ∃ im : Image, r = im.reader ∧ Harmless im := by
  obtain ⟨hdrBytes, hread, ⟨hcowd, h⟩ | ⟨hcowd, ⟨hse, h⟩ | ⟨hse, h⟩⟩⟩ := open_cases hopen
  · obtain ⟨im, geom, rfl, hfmt, hrgd, -⟩ := openCowdExtent_ok hread h
    exact ⟨im, rfl, harmless_of_agrees hfmt (rgdAgrees_of_absent (.inl hrgd))⟩
  · obtain ⟨im, geom, rfl, hfmt, -⟩ := openSesparseExtent_ok hread h
    exact ⟨im, rfl, harmless_of_seSparse hfmt⟩
  · obtain ⟨hdr, desc, gdOffset, gdBytes, hparse, hp, rfl⟩ := openVmdk4_eq_ok.mp h
    have hrgd : hdr.rgdOffset = numAt 8 file.bytes 48 :=
      (SparseExtentHeader.parse_ok hparse).rgdOffset.trans (header_field hread (by decide))
    refine ⟨_, rfl, harmless_of_agrees rfl ?_⟩
    rcases hsound with hs | hs | hs | hs | hs
    · exact absurd hs hcowd
    · exact absurd hs hse
    · exact rgdAgrees_of_absent (.inl (hrgd.trans hs))
    · exact rgdAgrees_of_absent (.inr (hrgd.trans hs))
    · exact rgdAgrees_of_validated hread hparse hp hs

end Agree

/-! ## Runs -/

section Runs
variable {im : Image}

/-- `r'` is `r` in recovery mode, and has recovered nothing. -/
structure Twins (im : Image) (r r' : VmdkReader) : Prop where
  image : r.toImage = im
  image' : r'.toImage = im
  fallback : r.rgdFallback = false
  coherent : r.Coherent
  coherent' : r'.Coherent
  pos : r'.pos = r.pos
  count : r'.rgdRecoveryCount = 0

theorem Twins.moves {r r' s s' : VmdkReader} {pos c : Nat} (h : Twins im r r')
    (hm : VmdkReader.Moves r s pos c) (hm' : VmdkReader.Moves r' s' pos 0) : Twins im s s' :=
  ⟨hm.image.trans h.image, hm'.image.trans h.image', hm.fallback.trans h.fallback, hm.coherent,
    hm'.coherent, hm'.pos.trans hm.pos.symm, hm'.count.trans h.count⟩

theorem twins_reader (im : Image) : Twins im im.reader im.reader.enableRgdFallback :=
  ⟨rfl, rfl, rfl, VmdkReader.coherent_reader im, VmdkReader.coherent_reader im, rfl, rfl⟩

variable [ZlibDecoder]

/-- Twins answer alike and stay twins. -/
theorem Harmless.step_twins (him : Harmless im) {r r' : VmdkReader} (h : Twins im r r')
    (q : Disk.Request VmdkReader.Query) :
    (r.step q).1 = (r'.step q).1 ∧ Twins im (r.step q).2 (r'.step q).2 := by
  cases q with
  | seek f =>
    obtain ⟨hans, hm⟩ := VmdkReader.seek_spec h.coherent f
    obtain ⟨hans', hm'⟩ := VmdkReader.seek_spec h.coherent' f
    rw [h.pos, h.image', ← h.image] at hans' hm'
    exact ⟨congrArg Disk.Answer.sought (hans.trans hans'.symm), h.moves hm hm'⟩
  | read len =>
    obtain ⟨hans, hm⟩ := VmdkReader.read_spec h.coherent len
    obtain ⟨hans', hm'⟩ := VmdkReader.read_spec h.coherent' len
    rw [h.image, h.fallback] at hans hm
    rw [h.image', h.pos, Image.readAt, him.read] at hans' hm'
    exact ⟨congrArg Disk.Answer.data (hans.trans hans'.symm), h.moves hm hm'⟩
  | query q =>
    cases q with
    | isAllocated lba =>
      refine ⟨congrArg (Disk.Answer.answer ∘ VmdkReader.Reply.allocated) ?_, h⟩
      rw [h.image, h.image']
    | iterAllocatedGrains =>
      obtain ⟨hans, hm⟩ := VmdkReader.iterAllocatedGrains_spec h.coherent
      obtain ⟨hans', hm'⟩ := VmdkReader.iterAllocatedGrains_spec h.coherent'
      rw [h.image, h.fallback] at hans hm
      rw [h.image', him.scan] at hans' hm'
      rw [h.pos] at hm'
      exact ⟨congrArg (Disk.Answer.answer ∘ VmdkReader.Reply.grains) (hans.trans hans'.symm),
        h.moves hm hm'⟩

/-- **Recovery never changes a sound image**: every call of every run gives the same answer with
and without it, and no grain is ever counted as recovered. -/
theorem VmdkReader.fallback_changes_nothing {file : Source} {r : VmdkReader}
    (hopen : VmdkReader.open file = .ok r) (hsound : SoundImage file)
    (reqs : List (Disk.Request VmdkReader.Query)) :
    Machine.run VmdkReader.step r.enableRgdFallback reqs = Machine.run VmdkReader.step r reqs ∧
      (Machine.final VmdkReader.step r.enableRgdFallback reqs).rgdRecoveryCount = 0 := by
  obtain ⟨im, rfl, him⟩ := open_harmless hopen hsound
  have hstep (r r' : VmdkReader) (q) (h : Twins im r r') := him.step_twins h q
  exact ⟨(Machine.run_eq hstep (twins_reader im) reqs).symm,
    (Machine.final_related hstep (twins_reader im) reqs).count⟩

end Runs

theorem VmdkReader.fallback_changes_nothing_mirroredDisk :
    letI := Stored.decoder
    ∃ r, VmdkReader.open (mirroredDisk 11 3) = .ok r ∧
      ∀ reqs : List (Disk.Request VmdkReader.Query),
        Machine.run VmdkReader.step r.enableRgdFallback reqs =
            Machine.run VmdkReader.step r reqs ∧
          (Machine.final VmdkReader.step r.enableRgdFallback reqs).rgdRecoveryCount = 0 := by
  let _ := Stored.decoder
  obtain ⟨r, hr⟩ := exists_of_isOk (x := VmdkReader.open (mirroredDisk 11 3)) (by decide +kernel)
  have hvalid : VmdkIntegrity.validateRgd (mirroredDisk 11 3) = .ok true := by decide +kernel
  exact ⟨r, hr, VmdkReader.fallback_changes_nothing hr (.inr (.inr (.inr (.inr hvalid))))⟩
