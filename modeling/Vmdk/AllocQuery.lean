import Vmdk.AllocSound
import Vmdk.Triage

/-! # Allocation queries against lookups

`isAllocated` reads one primary entry and knows nothing of the redundant
directory. Outside recovery mode it agrees with every lookup that succeeds. In
recovery mode it does as long as the primary entry says what recovery finds
(`VmdkReader.query_agrees`). -/

open Bytes Word

/-! ## What recovery finds -/

namespace Image
variable {im : Image} {file : Source} {geom : SparseFormat} {n i j o : Nat}

/-- A table is usable when all of it lies in the file. -/
theorem usable_iff_fits {sector : Nat} :
    usable n file.len sector = true ↔ sector ≠ 0 ∧ sector * sectorSize + n * 4 ≤ file.len := by
  have hlt : file.len < 2 ^ 63 := file.length_lt
  have hsize : u64Size = 2 ^ 64 := rfl
  simp only [usable, bne_iff_ne, ne_eq, Bool.and_eq_true, decide_eq_true_eq]
  unfold satAdd satMul u64Max
  omega

/-- A table that was read lies in the file. -/
theorem readGt_ok_le {sector : Nat} {gt : List Nat} (hn : 0 < n)
    (h : readGt file n sector = .ok gt) : sector * sectorSize + n * 4 ≤ file.len := by
  unfold readGt at h
  cases hread : file.readExactAt (sector * sectorSize) (n * 4) with
  | error e => rw [hread] at h; cases h
  | ok b => exact Source.readExactAt_ok_le (by omega) hread

/-- Entry `i` of the redundant directory; 0 where there is none, or the file ends before it. -/
def redundantPtr (im : Image) (file : Source) (i : Nat) : Nat :=
  if im.rgdOffset = 0 ∨ im.rgdOffset = Header.gdAtEnd ∨ im.gdEntryCount ≤ i then 0
  else im.redundantEntry file i

theorem rgdDirEntry_eq_redundantPtr (i : Nat) :
    im.rgdDirEntry file i file.len = .ok (im.redundantPtr file i) := by
  unfold redundantPtr
  split
  · next habsent =>
    rcases habsent with h | h | h
    · rw [rgdDirEntry, if_pos (.inl h)]
    · rw [rgdDirEntry, if_pos (.inr h)]
    · exact rgdDirEntry_beyond h
  · next hpresent =>
    obtain ⟨h0, hend, hi⟩ : im.rgdOffset ≠ 0 ∧ im.rgdOffset ≠ Header.gdAtEnd ∧
        i < im.gdEntryCount := by omega
    exact rgdDirEntry_present h0 hend hi

/-- The redundant copy of entry `j` of table `i`; 0 where that table is not whole. -/
def redundantCopy (im : Image) (file : Source) (n i j : Nat) : Nat :=
  if usable n file.len (im.redundantPtr file i) then
    tableEntry file.bytes (im.redundantPtr file i) j
  else 0

theorem rgdGte_eq_redundantCopy (hj : j < n) :
    im.rgdGte file i j n = .ok (im.redundantCopy file n i j) := by
  have hr := @rgdDirEntry_eq_redundantPtr im file i
  unfold redundantCopy
  split
  · next husable =>
    obtain ⟨h0, hin⟩ := usable_iff_fits.mp husable
    rw [rgdGte_present hr h0 hin hj]
    rfl
  · next hunusable =>
    by_cases h0 : im.redundantPtr file i = 0
    · exact rgdGte_absent (h0 ▸ hr)
    · have hout : file.len < satAdd (im.redundantPtr file i * sectorSize) (n * 4) := by
        have hlt : file.len < u64Max := Nat.lt_trans file.length_lt (by decide)
        rw [← Nat.not_le, satAdd_le_iff hlt]
        exact fun hin => hunusable (usable_iff_fits.mpr ⟨h0, hin⟩)
      simp only [rgdGte, seekEnd_zero, hr, bind, Except.bind, if_neg h0, if_pos hout]
      rfl

/-- The entry that a lookup in recovery mode settles on for entry `j` of table `i`; none where it
fails. -/
def resilientEntry (im : Image) (file : Source) (geom : SparseFormat) (i j : Nat) : Option Nat :=
  let primary := geom.grainDir.getD i 0
  let gte := tableEntry file.bytes primary j
  let copy := im.redundantCopy file geom.numGtesPerGt i j
  if usable geom.numGtesPerGt file.len primary then some (if gte ≤ 1 ∧ 1 < copy then copy else gte)
  else if usable geom.numGtesPerGt file.len (im.redundantPtr file i) then some copy
  else if primary = 0 then some 0 else none

/-- The part of a recovering lookup that follows the table. -/
theorem locateIn_recovering {s gte : Nat} {gt : List Nat}
    (hgt : gt.getD (o / geom.grainSizeBytes % geom.numGtesPerGt) 0 = gte) :
    (im.locateIn true file geom o s gt).1 =
      let copy := im.redundantCopy file geom.numGtesPerGt
        (o / geom.grainSizeBytes / geom.numGtesPerGt) (o / geom.grainSizeBytes % geom.numGtesPerGt)
      GrainLookup.ofGte file geom (if gte ≤ 1 ∧ 1 < copy then copy else gte)
        (o % geom.grainSizeBytes) := by
  have hcopy := @rgdGte_eq_redundantCopy im file _ (o / geom.grainSizeBytes / geom.numGtesPerGt) _
    (Nat.mod_lt (o / geom.grainSizeBytes) geom.numGtesPerGt_pos)
  unfold locateIn recoverEntry GrainLookup.ofGte
  simp only [hgt, hcopy, Bool.true_and, bind, Except.bind, decide_eq_true_eq]
  generalize im.redundantCopy file geom.numGtesPerGt _ _ = copy
  by_cases hlost : gte ≤ 1
  · simp only [hlost, if_true, true_and]
    by_cases hfound : 1 < copy
    · simp only [pure, Except.pure, gt_iff_lt, if_pos hfound, if_neg (Nat.not_le.mpr hfound)]
    · simp only [pure, Except.pure, gt_iff_lt, if_neg hfound, if_pos hlost]
  · simp only [hlost, if_false, false_and]

/-- **A lookup in recovery mode**, as far as it succeeds. -/
theorem locateSparse_recovering (o : Nat) :
    (im.locateSparse true file geom o).1.toOption =
      (im.resilientEntry file geom (o / geom.grainSizeBytes / geom.numGtesPerGt)
        (o / geom.grainSizeBytes % geom.numGtesPerGt)).bind fun gte =>
          (GrainLookup.ofGte file geom gte (o % geom.grainSizeBytes)).toOption := by
  have hj : o / geom.grainSizeBytes % geom.numGtesPerGt < geom.numGtesPerGt :=
    Nat.mod_lt _ geom.numGtesPerGt_pos
  have hr := @rgdDirEntry_eq_redundantPtr im file (o / geom.grainSizeBytes / geom.numGtesPerGt)
  unfold locateSparse gtSectorFor resilientGtSector resilientEntry
  simp only [if_true, seekEnd_zero, hr, bind, Except.bind, pure, Except.pure]
  by_cases hp : usable geom.numGtesPerGt file.len
      (geom.grainDir.getD (o / geom.grainSizeBytes / geom.numGtesPerGt) 0) = true
  · obtain ⟨h0, hin⟩ := usable_iff_fits.mp hp
    obtain ⟨gt, hgt, hgetD⟩ := readGt_of_le hj hin
    simp only [hp, if_true, if_neg h0, hgt, locateIn_recovering hgetD, Option.bind_some]
  · simp only [hp, if_false, Bool.false_eq_true]
    by_cases hused : usable geom.numGtesPerGt file.len
        (im.redundantPtr file (o / geom.grainSizeBytes / geom.numGtesPerGt)) = true
    · obtain ⟨h0, hin⟩ := usable_iff_fits.mp hused
      obtain ⟨gt, hgt, hgetD⟩ := readGt_of_le hj hin
      have hcopy : im.redundantCopy file geom.numGtesPerGt
          (o / geom.grainSizeBytes / geom.numGtesPerGt)
          (o / geom.grainSizeBytes % geom.numGtesPerGt) =
          tableEntry file.bytes
            (im.redundantPtr file (o / geom.grainSizeBytes / geom.numGtesPerGt))
            (o / geom.grainSizeBytes % geom.numGtesPerGt) := if_pos hused
      simp only [hused, if_true, if_neg h0, hgt, locateIn_recovering (hgetD.trans hcopy.symm),
        Option.bind_some]
      split <;> rfl
    · simp only [hused, if_false, Bool.false_eq_true]
      split
      · next h0 => simp [GrainLookup.ofGte, Except.toOption]
      · next h0 =>
        cases hgt : readGt file geom.numGtesPerGt
            (geom.grainDir.getD (o / geom.grainSizeBytes / geom.numGtesPerGt) 0) with
        | error e => rfl
        | ok gt =>
          exact absurd (usable_iff_fits.mpr ⟨h0, readGt_ok_le geom.numGtesPerGt_pos hgt⟩) hp

/-- The entry that a lookup outside recovery mode settles on; none where it fails. -/
def plainEntry (file : Source) (geom : SparseFormat) (i j : Nat) : Option Nat :=
  let primary := geom.grainDir.getD i 0
  if primary = 0 then some 0
  else if primary * sectorSize + geom.numGtesPerGt * 4 ≤ file.len then
    some (tableEntry file.bytes primary j)
  else none

/-- **A lookup outside recovery mode**, as far as it succeeds. -/
theorem locateSparse_plain (o : Nat) :
    (im.locateSparse false file geom o).1.toOption =
      (plainEntry file geom (o / geom.grainSizeBytes / geom.numGtesPerGt)
        (o / geom.grainSizeBytes % geom.numGtesPerGt)).bind fun gte =>
          (GrainLookup.ofGte file geom gte (o % geom.grainSizeBytes)).toOption := by
  unfold plainEntry
  simp only
  split
  · next h0 =>
    rw [locateSparse_whole rfl rfl (.inl ⟨h0, rfl⟩)]
    rfl
  next h0 =>
  split
  · next hin =>
    rw [locateSparse_whole rfl rfl (.inr ⟨h0, hin, rfl⟩)]
    rfl
  · next hout =>
    unfold locateSparse gtSectorFor
    simp only [Bool.false_eq_true, if_false, if_neg h0]
    cases hgt : readGt file geom.numGtesPerGt
        (geom.grainDir.getD (o / geom.grainSizeBytes / geom.numGtesPerGt) 0) with
    | error e => rfl
    | ok gt => exact absurd (readGt_ok_le geom.numGtesPerGt_pos hgt) hout

/-! ## What a query finds -/

/-- The primary entry that a query reads; none where it lies outside the file. -/
def queriedEntry (file : Source) (geom : SparseFormat) (i j : Nat) : Option Nat :=
  let primary := geom.grainDir.getD i 0
  if primary = 0 then some 0
  else if primary * sectorSize + j * 4 + 4 ≤ file.len then
    some (tableEntry file.bytes primary j)
  else none

/-- **A query** about a sector of a VMDK4 or COWD disk. -/
theorem isAllocated_sparse {lba : Nat} (hfmt : im.fmt = .sparse file geom)
    (hlba : lba < im.virtualDiskSize / sectorSize) :
    (im.isAllocated lba).toOption =
      (queriedEntry file geom (lba * sectorSize / geom.grainSizeBytes / geom.numGtesPerGt)
        (lba * sectorSize / geom.grainSizeBytes % geom.numGtesPerGt)).map (decide <| 1 < ·) := by
  unfold isAllocated queriedEntry
  rw [if_neg (Nat.not_le.mpr hlba), hfmt]
  simp only
  split
  · rfl
  · split
    · next hin =>
      rw [Source.readExactAt_of_le hin]
      rfl
    · next hout =>
      cases hread : file.readExactAt
          (geom.grainDir.getD (lba * sectorSize / geom.grainSizeBytes / geom.numGtesPerGt) 0 *
            sectorSize + lba * sectorSize / geom.grainSizeBytes % geom.numGtesPerGt * 4) 4 with
      | error e => rfl
      | ok b => exact absurd (Source.readExactAt_ok_le (by decide) hread) hout

end Image

/-- The marker of a compressed grain lies in the file, and its payload is not longer than the
reader allows. -/
def GrainLookup.MarkerFits (file : Source) (geom : SparseFormat) (gte : Nat) : Prop :=
  geom.compressed = true → gte * sectorSize + 12 ≤ file.len ∧
    numAt 4 file.bytes (gte * sectorSize + 8) ≤ satAdd geom.grainSizeBytes 65536

/-- The place of a grain is found when its marker fits. -/
theorem GrainLookup.ofEntry_isOk {file : Source} {geom : SparseFormat} {gte off : Nat} :
    (∃ loc, GrainLookup.ofEntry file geom gte off = .ok loc) ↔
      GrainLookup.MarkerFits file geom gte := by
  unfold GrainLookup.ofEntry GrainLookup.MarkerFits
  split
  · next hcomp =>
    simp only [hcomp, true_imp_iff, bind_eq_ok]
    constructor
    · rintro ⟨loc, hdr, hread, ⟨hlimit⟩, -, -⟩
      refine ⟨Source.readExactAt_ok_le (by decide) hread, ?_⟩
      rw [(Source.readExactAt_ok hread).1, slice_slice _ _ _ _ _ (by decide)] at hlimit
      exact hlimit
    · rintro ⟨hin, hlimit⟩
      have hsize : leNat (slice (slice file.bytes (gte * sectorSize) 12) 8 4) ≤
          satAdd geom.grainSizeBytes 65536 := by
        rw [slice_slice _ _ _ _ _ (by decide)]
        exact hlimit
      exact ⟨_, _, Source.readExactAt_of_le hin, ⟨hsize⟩, ensure_of hsize, rfl⟩
  · next hcomp => exact ⟨fun _ h => absurd h hcomp, fun _ => ⟨_, rfl⟩⟩

/-! ## Where the two agree -/

/-- The primary entry `j` of table `i` says by itself what recovery finds. -/
structure Image.PrimarySuffices (im : Image) (file : Source) (geom : SparseFormat) (i j : Nat) :
    Prop where
  /-- An entry that is lost from a usable table has no copy with a grain. -/
  entry : Image.usable geom.numGtesPerGt file.len (geom.grainDir.getD i 0) = true →
    tableEntry file.bytes (geom.grainDir.getD i 0) j ≤ 1 →
    1 < im.redundantCopy file geom.numGtesPerGt i j →
    ¬ GrainLookup.MarkerFits file geom (im.redundantCopy file geom.numGtesPerGt i j)
  /-- A table that is replaced leaves its entry in the file, and the entry agrees with the copy. -/
  table : Image.usable geom.numGtesPerGt file.len (geom.grainDir.getD i 0) = false →
    Image.usable geom.numGtesPerGt file.len (im.redundantPtr file i) = true →
    (1 < im.redundantCopy file geom.numGtesPerGt i j →
      GrainLookup.MarkerFits file geom (im.redundantCopy file geom.numGtesPerGt i j)) →
    geom.grainDir.getD i 0 = 0 ∧ im.redundantCopy file geom.numGtesPerGt i j ≤ 1 ∨
      geom.grainDir.getD i 0 ≠ 0 ∧
        geom.grainDir.getD i 0 * sectorSize + j * 4 + 4 ≤ file.len ∧
        (1 < tableEntry file.bytes (geom.grainDir.getD i 0) j ↔
          1 < im.redundantCopy file geom.numGtesPerGt i j)

section Agree
variable {im : Image} {file : Source} {geom : SparseFormat} {i j : Nat}

/-- A usable table has the entry that a query reads. -/
theorem Image.queriedEntry_usable (hj : j < geom.numGtesPerGt)
    (h : Image.usable geom.numGtesPerGt file.len (geom.grainDir.getD i 0) = true) :
    Image.queriedEntry file geom i j = some (tableEntry file.bytes (geom.grainDir.getD i 0) j) := by
  obtain ⟨h0, hin⟩ := Image.usable_iff_fits.mp h
  unfold Image.queriedEntry
  simp only
  rw [if_neg h0, if_pos (by omega)]

/-- A table that a lookup reads whole has the entry that a query reads. -/
theorem Image.queriedEntry_of_plain {gte : Nat} (hj : j < geom.numGtesPerGt)
    (h : Image.plainEntry file geom i j = some gte) :
    Image.queriedEntry file geom i j = some gte := by
  unfold Image.plainEntry at h
  unfold Image.queriedEntry
  simp only at h ⊢
  split at h
  · next h0 => rw [if_pos h0, h]
  next h0 =>
  split at h
  · next hin => rw [if_neg h0, if_pos (by omega), h]
  · cases h

/-- A query about a sector of a seSparse disk agrees with every lookup that succeeds. -/
theorem Image.isAllocated_seSparse {geom : SeSparseFormat} {lba : Nat} {loc : GrainLookup}
    (hfmt : im.fmt = .seSparse file geom) (hlba : lba < im.virtualDiskSize / sectorSize)
    (hloc : Image.grainLocationSesparse file geom (lba * sectorSize) = .ok loc) :
    im.isAllocated lba = .ok (decide (loc ≠ .sparse)) := by
  unfold Image.isAllocated
  rw [if_neg (Nat.not_le.mpr hlba), hfmt]
  simp only
  cases hentry : Image.seReadGte file
      (geom.grainDir.getD (lba * sectorSize / geom.grainSizeBytes / SeSparse.gtesPerGt) 0)
      geom.gtOffsetSectors (lba * sectorSize / geom.grainSizeBytes % SeSparse.gtesPerGt) with
  | error e =>
    unfold Image.grainLocationSesparse at hloc
    simp only [hentry, bind, Except.bind] at hloc
    cases hloc
  | ok entry =>
    cases entry with
    | none =>
      unfold Image.grainLocationSesparse at hloc
      simp only [hentry, bind, Except.bind] at hloc
      cases hloc
      rfl
    | some gte =>
      have hplace := Image.grainLocationSesparse_some hentry hloc
      refine congrArg Except.ok ?_
      change (SeSparse.gteType gte == SeSparse.gteTypeAllocated) = decide (loc ≠ .sparse)
      rw [Bool.eq_iff_iff, beq_iff_eq, decide_eq_true_iff]
      exact hplace

/-- The entry a query reads stands for the one that recovery settles on. -/
theorem Image.queriedEntry_agrees (hj : j < geom.numGtesPerGt) :
    (∀ gte, im.resilientEntry file geom i j = some gte →
        (1 < gte → GrainLookup.MarkerFits file geom gte) →
        (Image.queriedEntry file geom i j).map (decide <| 1 < ·) = some (decide (1 < gte))) ↔
      im.PrimarySuffices file geom i j := by
  cases hp : Image.usable geom.numGtesPerGt file.len (geom.grainDir.getD i 0) with
  | true =>
    have hfound : im.resilientEntry file geom i j =
        some (if tableEntry file.bytes (geom.grainDir.getD i 0) j ≤ 1 ∧
            1 < im.redundantCopy file geom.numGtesPerGt i j then
          im.redundantCopy file geom.numGtesPerGt i j
        else tableEntry file.bytes (geom.grainDir.getD i 0) j) := by
      unfold Image.resilientEntry
      simp only [hp, if_true]
    rw [hfound, Image.queriedEntry_usable hj hp]
    simp only [Option.some.injEq, forall_eq', Option.map_some, decide_eq_decide]
    constructor
    · intro h
      refine ⟨fun _ hlost hcopy hfits => ?_, fun hp' => absurd (hp.symm.trans hp') (by decide)⟩
      rw [if_pos ⟨hlost, hcopy⟩] at h
      exact absurd ((h fun _ => hfits).mpr hcopy) (Nat.not_lt.mpr hlost)
    · intro h
      split
      · next hlost => exact fun hfits => absurd (hfits hlost.2) (h.entry hp hlost.1 hlost.2)
      · exact fun _ => Iff.rfl
  | false =>
    cases hr : Image.usable geom.numGtesPerGt file.len (im.redundantPtr file i) with
    | true =>
      have hfound : im.resilientEntry file geom i j =
          some (im.redundantCopy file geom.numGtesPerGt i j) := by
        unfold Image.resilientEntry
        simp only [hp, hr, Bool.false_eq_true, if_false, if_true]
      rw [hfound]
      simp only [Option.some.injEq, forall_eq']
      unfold Image.queriedEntry
      simp only
      constructor
      · intro h
        refine ⟨fun hp' => absurd (hp.symm.trans hp') (by decide), fun _ _ hfits => ?_⟩
        have hquery := h hfits
        split at hquery
        · next h0 =>
          refine .inl ⟨h0, ?_⟩
          simpa using hquery
        next h0 =>
        split at hquery
        · next hin =>
          refine .inr ⟨h0, hin, ?_⟩
          simpa using hquery
        · cases hquery
      · intro h hfits
        rcases h.table hp hr hfits with ⟨h0, hcopy⟩ | ⟨h0, hin, hsame⟩
        · rw [if_pos h0]
          simpa using hcopy
        · rw [if_neg h0, if_pos hin]
          simpa using hsame
    | false =>
      refine ⟨fun _ => ⟨fun hp' => absurd (hp.symm.trans hp') (by decide),
        fun _ hr' => absurd (hr.symm.trans hr') (by decide)⟩, fun _ gte hfound _ => ?_⟩
      unfold Image.resilientEntry at hfound
      simp only [hp, hr, Bool.false_eq_true, if_false] at hfound
      split at hfound
      · next h0 =>
        cases hfound
        unfold Image.queriedEntry
        simp only [h0, if_true]
        rfl
      · cases hfound

/-- A lookup of an entry succeeds when its marker fits, and is sparse when the entry is 0 or 1. -/
theorem GrainLookup.ofGte_toOption {gte off : Nat} {P : Option Bool → Prop} :
    (∀ loc, GrainLookup.ofGte file geom gte off = .ok loc → P (some (decide (loc ≠ .sparse)))) ↔
      ((1 < gte → GrainLookup.MarkerFits file geom gte) → P (some (decide (1 < gte)))) := by
  unfold GrainLookup.ofGte
  split
  · next hle =>
    have hlt := Nat.not_lt.mpr hle
    simp [hlt]
  · next hgt =>
    have hlt := Nat.not_le.mp hgt
    simp only [hlt, true_imp_iff, decide_true]
    constructor
    · intro h hfits
      obtain ⟨loc, hloc⟩ := GrainLookup.ofEntry_isOk.mpr hfits
      have := h loc hloc
      rwa [decide_eq_true (Image.ofEntry_ne_sparse hloc)] at this
    · intro h loc hloc
      rw [decide_eq_true (Image.ofEntry_ne_sparse hloc)]
      exact h (GrainLookup.ofEntry_isOk.mp ⟨loc, hloc⟩)

/-- The places of a lookup that settles on `entry`. -/
theorem GrainLookup.eq_ok_of_entry {located : Except IoError GrainLookup} {entry : Option Nat}
    {off : Nat} {loc : GrainLookup} (h : located.toOption =
      entry.bind fun gte => (GrainLookup.ofGte file geom gte off).toOption) :
    located = .ok loc ↔ ∃ gte, entry = some gte ∧ GrainLookup.ofGte file geom gte off = .ok loc := by
  rw [← toOption_eq_some, h, Option.bind_eq_some_iff]
  simp only [toOption_eq_some]

end Agree

namespace VmdkReader
variable {file : Source} {r : VmdkReader} {lba : Nat}

/-- Where the lookup of a sector succeeds, the query about it does too, and tells whether the place
is a grain's. -/
def QueryAgrees (r : VmdkReader) (lba : Nat) : Prop :=
  ∀ loc, (r.grainLocation (lba * sectorSize)).1 = .ok loc →
    r.isAllocated lba = .ok (decide (loc ≠ .sparse))

/-- In recovery mode the primary entry of the sector says by itself what recovery finds. -/
def PrimarySuffices (r : VmdkReader) (lba : Nat) : Prop :=
  match r.fmt with
  | .sparse inner geom => r.rgdFallback = true →
    r.toImage.PrimarySuffices inner geom
      (lba * sectorSize / geom.grainSizeBytes / geom.numGtesPerGt)
      (lba * sectorSize / geom.grainSizeBytes % geom.numGtesPerGt)
  | _ => True

/-- A query stands for a lookup when its entry stands for the one the lookup settles on. -/
theorem queryAgrees_of_entry {inner : Source} {geom : SparseFormat} {entry : Option Nat}
    (hc : r.Coherent) (hfmt : r.fmt = .sparse inner geom)
    (hlba : lba < r.virtualDiskSize / sectorSize)
    (hentry : (r.locateSparse r.rgdFallback inner geom (lba * sectorSize)).1.toOption =
      entry.bind fun gte =>
        (GrainLookup.ofGte inner geom gte (lba * sectorSize % geom.grainSizeBytes)).toOption) :
    r.QueryAgrees lba ↔ ∀ gte, entry = some gte →
      (1 < gte → GrainLookup.MarkerFits inner geom gte) →
      (Image.queriedEntry inner geom (lba * sectorSize / geom.grainSizeBytes / geom.numGtesPerGt)
        (lba * sectorSize / geom.grainSizeBytes % geom.numGtesPerGt)).map (decide <| 1 < ·) =
          some (decide (1 < gte)) := by
  unfold QueryAgrees
  rw [grainLocation_fst hc]
  unfold Image.locate
  simp only [hfmt]
  have hplaces {loc : GrainLookup} :
      (r.locateSparse r.rgdFallback inner geom (lba * sectorSize)).1 = .ok loc ↔ _ :=
    GrainLookup.eq_ok_of_entry hentry
  have hquery := Image.isAllocated_sparse hfmt hlba
  constructor
  · intro h gte hgte
    refine (@GrainLookup.ofGte_toOption _ _ _ (lba * sectorSize % geom.grainSizeBytes)
      (Option.map _ _ = ·)).mp fun loc hloc => ?_
    rw [← hquery, toOption_eq_some]
    exact h loc (hplaces.mpr ⟨gte, hgte, hloc⟩)
  · intro h loc hloc
    obtain ⟨gte, hgte, hloc⟩ := hplaces.mp hloc
    rw [← toOption_eq_some, hquery]
    exact (GrainLookup.ofGte_toOption (P := (Option.map _ _ = ·))).mpr (h gte hgte) loc hloc

variable [ZlibDecoder]

/-- **Allocation queries agree with lookups**, in every reachable state, exactly where recovery
finds what the primary entry says. -/
theorem query_agrees (h : Reachable file r) (hlba : lba < r.virtualDiskSize / sectorSize) :
    r.QueryAgrees lba ↔ r.PrimarySuffices lba := by
  obtain ⟨⟨r₀, hopen, himage⟩, hc⟩ := h.inv
  have hcovered := open_covered hopen
  rw [← himage] at hcovered
  unfold Image.Covered at hcovered
  unfold PrimarySuffices
  cases hfmt : r.fmt with
  | flat inner =>
    rw [hfmt] at hcovered
    exact hcovered.elim
  | seSparse inner geom =>
    simp only [iff_true]
    intro loc hloc
    rw [grainLocation_fst hc] at hloc
    unfold Image.locate at hloc
    simp only [hfmt] at hloc
    exact Image.isAllocated_seSparse hfmt hlba hloc
  | sparse inner geom =>
    have hj : lba * sectorSize / geom.grainSizeBytes % geom.numGtesPerGt < geom.numGtesPerGt :=
      Nat.mod_lt _ geom.numGtesPerGt_pos
    simp only
    cases hmode : r.rgdFallback with
    | true =>
      simp only [true_imp_iff]
      rw [queryAgrees_of_entry hc hfmt hlba (hmode ▸ Image.locateSparse_recovering _)]
      exact Image.queriedEntry_agrees hj
    | false =>
      simp only [Bool.false_eq_true, false_imp_iff, iff_true]
      rw [queryAgrees_of_entry hc hfmt hlba (hmode ▸ Image.locateSparse_plain _)]
      intro gte hgte _
      rw [Image.queriedEntry_of_plain hj hgte]
      rfl

end VmdkReader

/-- With the first directory entry lost, recovery finds a grain that a query denies. -/
theorem VmdkReader.query_misses_mirroredDisk :
    letI := Stored.decoder
    ∃ r, Reachable (mirroredDisk 0 3) r ∧ (r.grainLocation 0).1 = .ok (.fileOffset 1536) ∧
      r.isAllocated 0 = .ok false ∧ ¬ r.QueryAgrees 0 := by
  let _ := Stored.decoder
  have hlookup : (VmdkReader.open (mirroredDisk 0 3) >>= fun r =>
      fromIo (r.enableRgdFallback.grainLocation 0).1) = .ok (.fileOffset 1536) := by decide +kernel
  have hquery : (VmdkReader.open (mirroredDisk 0 3) >>= fun r =>
      fromIo (r.enableRgdFallback.isAllocated 0)) = .ok false := by decide +kernel
  obtain ⟨r, hr, hplace⟩ := bind_eq_ok.mp hlookup
  obtain ⟨r', hr', hanswer⟩ := bind_eq_ok.mp hquery
  rw [hr] at hr'
  cases hr'
  rw [fromIo_eq_ok] at hplace hanswer
  refine ⟨r.enableRgdFallback, .enableRgdFallback (.opened hr), hplace, hanswer, fun hagrees => ?_⟩
  have hfound := hagrees _ hplace
  rw [hanswer] at hfound
  cases hfound

theorem VmdkReader.query_agrees_mirroredDisk :
    letI := Stored.decoder
    ∃ r, Reachable (mirroredDisk 11 3) r ∧ 0 < r.virtualDiskSize / sectorSize ∧
      (r.QueryAgrees 0 ↔ r.PrimarySuffices 0) := by
  let _ := Stored.decoder
  have hsize : (VmdkReader.open (mirroredDisk 11 3)).map
      (fun r => decide (0 < r.virtualDiskSize / sectorSize)) = .ok true := by decide +kernel
  obtain ⟨r, hr, hsize⟩ := exists_of_map_eq hsize
  have hpos : 0 < r.virtualDiskSize / sectorSize := of_decide_eq_true hsize
  exact ⟨r.enableRgdFallback, .enableRgdFallback (.opened hr), hpos,
    VmdkReader.query_agrees (.enableRgdFallback (.opened hr)) hpos⟩
