import Vmdk.IntegritySound
import Vmdk.Bytewise

/-! # seSparse addresses

The offsets of a seSparse header are 64-bit numbers that nothing checks, and a
directory or table entry adds to them by plain operations. The numbers below are
the results of these operations before the width of a `u64` cuts them: of
opening the file (`openNumbers`) and of one call to the reader (`callNumbers`).
They all fit exactly when the file asks for no address beyond a `u64`
(`VmdkReader.sesparse_addresses`). -/

open Bytes Word

namespace SeSparse

/-- The directory entry leads to a table. -/
def Flagged (gdEntry : Nat) : Prop := gdAllocField gdEntry = gdAllocFlag

instance (gdEntry : Nat) : Decidable (Flagged gdEntry) := Nat.decEq _ _

/-- `open_sesparse`: the size of a grain, and the length and the place of the directory. -/
def openNumbers (file : Source) : List Nat :=
  match file.readExactAt 0 512 with
  | .error _ => []
  | .ok hdrBytes =>
    match SeConstHeader.parse hdrBytes with
    | .error _ => []
    | .ok hdr =>
      let numGts := max (divCeil (divCeil hdr.capacity hdr.grainSize) gtesPerGt) 1
      hdr.grainSize * sectorSize :: numGts * 8 ::
        if numGts * 8 ≤ maxGd then [hdr.gdOffset * sectorSize] else []

/-- The sector of the table of a directory entry, and the first byte of that sector. -/
def tableNumbers (gdEntry gtOffsetSectors : Nat) : List Nat :=
  [gdIndex gdEntry * gtSectors, gtOffsetSectors + gdIndex gdEntry * gtSectors,
    wrapAdd gtOffsetSectors (gdIndex gdEntry * gtSectors) * sectorSize]

/-- `se_read_gte`. -/
def entryNumbers (gdEntry gtOffsetSectors gteIdx : Nat) : List Nat :=
  if Flagged gdEntry then
    let gtSector := wrapAdd gtOffsetSectors (gdIndex gdEntry * gtSectors)
    tableNumbers gdEntry gtOffsetSectors ++
      [gteIdx * 8, wrapMul gtSector sectorSize + gteIdx * 8]
  else []

/-- The place of a byte under an allocated entry. -/
def grainNumbers (gte grainsOffsetSectors grainSectors offsetInGrain : Nat) : List Nat :=
  let sectors := wrapMul (gteGrainIndex gte) grainSectors
  let clusterSector := wrapAdd grainsOffsetSectors sectors
  [gteGrainIndex gte * grainSectors, grainsOffsetSectors + sectors, clusterSector * sectorSize,
    wrapMul clusterSector sectorSize + offsetInGrain]

/-- `grain_location_sesparse`. -/
def locationNumbers (inner : Source) (geom : SeSparseFormat) (virtualOffset : Nat) : List Nat :=
  let grainIdx := virtualOffset / geom.grainSizeBytes
  let gteIdx := grainIdx % gtesPerGt
  let gdEntry := geom.grainDir.getD (grainIdx / gtesPerGt) 0
  entryNumbers gdEntry geom.gtOffsetSectors gteIdx ++
    match Image.seReadGte inner gdEntry geom.gtOffsetSectors gteIdx with
    | .ok (some gte) =>
      if gteType gte = gteTypeAllocated then
        grainNumbers gte geom.grainsOffsetSectors (geom.grainSizeBytes / sectorSize)
          (virtualOffset % geom.grainSizeBytes)
      else []
    | _ => []

/-- The sectors of the allocated grains of table `gdIdx`. -/
def sectorNumbers (geom : SeSparseFormat) (gdIdx : Nat) (gtBytes : List UInt8) : List Nat :=
  ((List.range gtesPerGt).filter fun gteIdx =>
    gteType (leNat (slice gtBytes (gteIdx * 8) 8)) == gteTypeAllocated).flatMap fun gteIdx =>
      [gdIdx * gtesPerGt, gdIdx * gtesPerGt + gteIdx,
        (gdIdx * gtesPerGt + gteIdx) * (geom.grainSizeBytes / sectorSize)]

/-- The scan of the tables of a directory from entry `gdIdx` on. -/
def scanNumbers (inner : Source) (geom : SeSparseFormat) : (gdIdx : Nat) → List Nat → List Nat
  | _, [] => []
  | gdIdx, gdEntry :: rest =>
    if Flagged gdEntry then
      let gtSector := wrapAdd geom.gtOffsetSectors (gdIndex gdEntry * gtSectors)
      tableNumbers gdEntry geom.gtOffsetSectors ++
        match inner.readExactAt (wrapMul gtSector sectorSize) (gtesPerGt * 8) with
        | .ok gtBytes => sectorNumbers geom gdIdx gtBytes ++ scanNumbers inner geom (gdIdx + 1) rest
        | .error _ => []
    else scanNumbers inner geom (gdIdx + 1) rest

/-! ## What fits -/

section Fit
variable {gdEntry gtOffsetSectors gteIdx gte grainsOffsetSectors grainSectors offsetInGrain : Nat}

theorem tableNumbers_fit : (∀ n ∈ tableNumbers gdEntry gtOffsetSectors, n < u64Size) ↔
    (gtOffsetSectors + gdIndex gdEntry * gtSectors) * sectorSize < u64Size := by
  have hle := Nat.le_mul_of_pos_right (gtOffsetSectors + gdIndex gdEntry * gtSectors)
    (show 0 < sectorSize by decide)
  unfold tableNumbers
  simp only [List.forall_mem_cons, List.not_mem_nil, false_implies, implies_true, and_true]
  constructor
  · rintro ⟨-, hsum, hbyte⟩
    rwa [wrapAdd_eq hsum] at hbyte
  · intro h
    have hsum := Nat.lt_of_le_of_lt hle h
    exact ⟨Nat.lt_of_le_of_lt (Nat.le_add_left _ _) hsum, hsum, by rwa [wrapAdd_eq hsum]⟩

theorem entryNumbers_fit : (∀ n ∈ entryNumbers gdEntry gtOffsetSectors gteIdx, n < u64Size) ↔
    (Flagged gdEntry →
      (gtOffsetSectors + gdIndex gdEntry * gtSectors) * sectorSize + gteIdx * 8 < u64Size) := by
  unfold entryNumbers
  by_cases hflag : Flagged gdEntry
  · have hle := Nat.le_mul_of_pos_right (gtOffsetSectors + gdIndex gdEntry * gtSectors)
      (show 0 < sectorSize by decide)
    rw [if_pos hflag]
    simp only [List.forall_mem_append, tableNumbers_fit, List.forall_mem_cons, List.not_mem_nil,
      false_implies, implies_true, and_true, hflag, forall_const]
    constructor
    · rintro ⟨htable, -, hentry⟩
      have hsum := Nat.lt_of_le_of_lt hle htable
      rwa [wrapAdd_eq hsum, wrapMul_eq htable] at hentry
    · intro h
      have htable := Nat.lt_of_le_of_lt (Nat.le_add_right _ _) h
      have hsum := Nat.lt_of_le_of_lt hle htable
      rw [wrapAdd_eq hsum, wrapMul_eq htable]
      exact ⟨htable, Nat.lt_of_le_of_lt (Nat.le_add_left _ _) h, h⟩
  · rw [if_neg hflag]
    exact ⟨fun _ h => absurd h hflag, fun _ n hn => by cases hn⟩

theorem grainNumbers_fit :
    (∀ n ∈ grainNumbers gte grainsOffsetSectors grainSectors offsetInGrain, n < u64Size) ↔
      (grainsOffsetSectors + gteGrainIndex gte * grainSectors) * sectorSize + offsetInGrain <
        u64Size := by
  have hle := Nat.le_mul_of_pos_right (grainsOffsetSectors + gteGrainIndex gte * grainSectors)
    (show 0 < sectorSize by decide)
  unfold grainNumbers
  simp only [List.forall_mem_cons, List.not_mem_nil, false_implies, implies_true, and_true]
  constructor
  · rintro ⟨hidx, hsum, hbyte, hplace⟩
    rw [wrapMul_eq hidx] at hsum hbyte hplace
    rw [wrapAdd_eq hsum] at hbyte hplace
    rwa [wrapMul_eq hbyte] at hplace
  · intro h
    have hbyte := Nat.lt_of_le_of_lt (Nat.le_add_right _ _) h
    have hsum := Nat.lt_of_le_of_lt hle hbyte
    have hidx := Nat.lt_of_le_of_lt (Nat.le_add_left _ _) hsum
    rw [wrapMul_eq hidx, wrapAdd_eq hsum, wrapMul_eq hbyte]
    exact ⟨hidx, hsum, hbyte, h⟩

end Fit

/-- A table that is not flagged has no entry, and a flagged one those of the file. -/
theorem seReadGte_flagged {inner : Source} {gdEntry gtOffsetSectors gteIdx : Nat} {gte : Nat}
    (h : Image.seReadGte inner gdEntry gtOffsetSectors gteIdx = .ok (some gte)) :
    Flagged gdEntry := by
  unfold Image.seReadGte at h
  split at h
  · cases h
  · split at h
    · cases h
    · next hflag => exact not_not.mp hflag

end SeSparse

namespace SeLayout

/-- No address that a call can come to exceeds a `u64`: under every directory entry that leads to a
table, and every grain-table entry that leads to data. A disk without capacity has one table, which
only the scan comes to. -/
structure Addressable (L : SeLayout) (bytes : List UInt8) : Prop where
  entry : ∀ o, o < L.capacity * sectorSize ∨ o = 0 → SeSparse.Flagged (L.directory bytes o) →
    L.entryByte (L.directory bytes o) o < u64Size
  data : ∀ o < L.capacity * sectorSize, SeSparse.Flagged (L.directory bytes o) → ∀ gte,
    leAt 8 bytes (L.entryByte (L.directory bytes o) o) = some gte →
      SeSparse.gteType gte = SeSparse.gteTypeAllocated → L.dataByte gte o < u64Size

end SeLayout

/-! ## The calls -/

namespace VmdkReader

/-- What one call to the reader of a seSparse image computes on the way to its bytes. -/
def callNumbers (self : VmdkReader) (q : Disk.Request Query) : List Nat :=
  match self.fmt with
  | .seSparse inner geom =>
    match q with
    | .seek _ => []
    | .read len =>
      if self.virtualDiskSize ≤ self.pos ∨ len = 0 then []
      else SeSparse.locationNumbers inner geom self.pos
    | .query (.isAllocated lba) =>
      if self.virtualDiskSize / sectorSize ≤ lba then []
      else
        let grainIdx := lba * sectorSize / geom.grainSizeBytes
        lba * sectorSize :: SeSparse.entryNumbers (geom.grainDir.getD (grainIdx / SeSparse.gtesPerGt) 0)
          geom.gtOffsetSectors (grainIdx % SeSparse.gtesPerGt)
    | .query .iterAllocatedGrains => SeSparse.scanNumbers inner geom 0 geom.grainDir
  | _ => []

/-- Nothing that opening a seSparse file or any sequence of calls computes is above a `u64`. -/
structure ExactAddresses [ZlibDecoder] (file : Source) : Prop where
  opening : ∀ n ∈ SeSparse.openNumbers file, n < u64Size
  calls : ∀ r, VmdkReader.open file = .ok r → ∀ requests,
    Machine.Steps VmdkReader.step (fun s q => ∀ n ∈ s.callNumbers q, n < u64Size) r requests

/-- The header is accepted and asks for a directory under the cap. -/
def DirectoryAsked (file : Source) (hdr : SeConstHeader) : Prop :=
  ∃ hdrBytes, file.readExactAt 0 512 = .ok hdrBytes ∧ SeConstHeader.parse hdrBytes = .ok hdr ∧
    max (divCeil (divCeil hdr.capacity hdr.grainSize) SeSparse.gtesPerGt) 1 * 8 ≤ SeSparse.maxGd

/-- The place of the directory fits where it is asked for, and every later address where the file
opens. -/
structure AddressesFit (file : Source) : Prop where
  directory : ∀ hdr, DirectoryAsked file hdr → hdr.gdOffset * sectorSize < u64Size
  image : (VmdkReader.open file).isOk = true → (seLayout file.bytes).Addressable file.bytes

/-- An opened seSparse image: its index is that of the layout, and every entry of its directory is
one of the layout. -/
structure SeOpened (file : Source) (im : Image) (geom : SeSparseFormat) : Prop where
  fmt : im.fmt = .seSparse file geom
  size : im.virtualDiskSize = (seLayout file.bytes).capacity * sectorSize
  size_lt : im.virtualDiskSize < 2 ^ 63
  loaded : (seLayout file.bytes).Loaded file.bytes geom
  tables : geom.grainDir.length ≤ 2 ^ 21
  nonempty : geom.grainDir ≠ []
  entries : ∀ i e, geom.grainDir[i]? = some e → ∃ o,
    (o < (seLayout file.bytes).capacity * sectorSize ∨ o = 0) ∧ o / 4096 / 4096 = i ∧
      o / 4096 % 4096 = 0 ∧ (seLayout file.bytes).directory file.bytes o = e

section Opened
variable {file : Source} {r : VmdkReader}

theorem open_seSparse (hmagic : numAt 8 file.bytes 0 = SeSparse.constMagic)
    (hopen : VmdkReader.open file = .ok r)
    (hfit : ∀ hdr, DirectoryAsked file hdr → hdr.gdOffset * sectorSize < u64Size) :
    ∃ im geom, r = im.reader ∧ SeOpened file im geom := by
  obtain ⟨hdrBytes, hdr, buf, geom, hread, hparse, hmax, hgd, hfmt, hdir⟩ :=
    open_of_seMagic hmagic hopen
  have hexact := hfit hdr ⟨hdrBytes, hread, hparse, hmax⟩
  have hfields := SeConstHeader.parse_ok hparse
  have hcap := hfields.capacity.trans (header_field hread (by decide))
  have hgdo := hfields.gdOffset.trans (header_field hread (by decide))
  have hgdByte : (seLayout file.bytes).gdByte = hdr.gdOffset * sectorSize := by
    rw [hgdo]
    rfl
  obtain ⟨hdrBytes', hread', ⟨h, -⟩ | ⟨-, ⟨-, h⟩ | ⟨h, -⟩⟩⟩ := open_cases hopen
  · exact absurd h (seMagic_ne hmagic)
  · obtain ⟨im, geom', rfl, hfmt', hsize, hlt, -, hload⟩ := openSesparseExtent_ok hread' h
    rw [show im.reader.fmt = im.fmt from rfl, hfmt'] at hfmt
    cases hfmt
    have hlength : geom.grainDir.length =
        max (divCeil (divCeil hdr.capacity hdr.grainSize) SeSparse.gtesPerGt) 1 := by
      rw [hdir, directory_length (by decide) hgd]
    refine ⟨im, geom, rfl, hfmt', hsize, hlt, hload (hgdByte ▸ hexact), ?_, ?_, ?_⟩
    · unfold SeSparse.maxGd at hmax
      omega
    · intro hnil
      rw [hnil, List.length_nil] at hlength
      omega
    · intro i e he
      have hi : i < max (divCeil (divCeil hdr.capacity hdr.grainSize) SeSparse.gtesPerGt) 1 := by
        obtain ⟨hi, -⟩ := List.getElem?_eq_some_iff.mp he
        rwa [hlength] at hi
      have hentry : numAt 8 file.bytes (hdr.gdOffset * sectorSize + i * 8) = e := by
        rw [wrapMul_eq hexact] at hgd
        have hget := getD_leTable_slice (w := 8) (by decide)
          (Source.readExactAt_ok_le (by omega) hgd) hi
        rw [← (Source.readExactAt_ok hgd).1, ← hdir, List.getD_eq_getElem?_getD, he] at hget
        exact hget.symm
      have hplace : i * (4096 * 4096) / 4096 / 4096 = i := by omega
      refine ⟨i * (4096 * 4096), ?_, hplace, by omega, ?_⟩
      · rcases Nat.eq_zero_or_pos i with rfl | hpos
        · exact .inr rfl
        · have hlt : i < divCeil (divCeil hdr.capacity hdr.grainSize) SeSparse.gtesPerGt := by omega
          rw [lt_divCeil_iff (by decide), hdr.grainSize_eq, lt_divCeil_iff (by decide)] at hlt
          refine .inl ?_
          show _ < numAt 8 file.bytes 16 * sectorSize
          rw [← hcap]
          unfold SeSparse.gtesPerGt SeSparse.grainSectors at hlt
          unfold sectorSize
          omega
      · unfold SeLayout.directory
        rw [hplace, hgdByte]
        exact hentry
  · exact absurd hmagic h

end Opened

namespace SeOpened
variable {file : Source} {im : Image} {geom : SeSparseFormat} {o : Nat}

/-- The numbers of a lookup fit exactly when its entry and its byte have a place. -/
theorem location_fit (h : SeOpened file im geom) (ho : o < im.virtualDiskSize) :
    (∀ n ∈ SeSparse.locationNumbers file geom o, n < u64Size) ↔
      (SeSparse.Flagged ((seLayout file.bytes).directory file.bytes o) →
        (seLayout file.bytes).entryByte ((seLayout file.bytes).directory file.bytes o) o < u64Size ∧
        ∀ gte, leAt 8 file.bytes ((seLayout file.bytes).entryByte
          ((seLayout file.bytes).directory file.bytes o) o) = some gte →
          SeSparse.gteType gte = SeSparse.gteTypeAllocated →
            (seLayout file.bytes).dataByte gte o < u64Size) := by
  have hdir := h.loaded.grainDir o (h.size ▸ ho)
  unfold SeSparse.locationNumbers
  rw [h.loaded.grainSizeBytes, h.loaded.gtOffsetSectors, h.loaded.grainsOffsetSectors]
  simp only [show SeSparse.gtesPerGt = 4096 from rfl, hdir, List.forall_mem_append,
    SeSparse.entryNumbers_fit]
  generalize hgd : (seLayout file.bytes).directory file.bytes o = gd
  constructor
  · rintro ⟨hentry, hgrain⟩ hflag
    have hfits : (seLayout file.bytes).entryByte gd o < u64Size := hentry hflag
    refine ⟨hfits, fun gte hgte htype => ?_⟩
    have hread : Image.seReadGte file gd (seLayout file.bytes).gtSector (o / 4096 % 4096) =
        .ok (some gte) := by
      obtain ⟨hin, rfl⟩ := leAt_eq_some.mp hgte
      have h0 : gd ≠ 0 := by
        rintro rfl
        exact absurd hflag (by decide)
      have heq := @SeLayout.seReadGte_eq _ file _ _ hfits
      rw [if_neg h0, if_pos (show gd / 2 ^ 32 = 0x10000000 from hflag),
        Source.readExactAt_of_le hin] at heq
      exact heq
    rw [hread] at hgrain
    simp only [if_pos htype, SeSparse.grainNumbers_fit] at hgrain
    exact hgrain
  · intro hfits
    refine ⟨fun hflag => (hfits hflag).1, ?_⟩
    split
    · next gte hread =>
      have hflag := SeSparse.seReadGte_flagged hread
      obtain ⟨hentry, hdata⟩ := hfits hflag
      split
      · next htype =>
        rw [SeSparse.grainNumbers_fit]
        exact hdata gte (SeLayout.seReadGte_some hentry hread).2.2 htype
      · exact fun n hn => by cases hn
    · exact fun n hn => by cases hn

/-- The sectors of the grains of a directory are small. -/
theorem sectorNumbers_lt (h : SeOpened file im geom) {gdIdx : Nat} (hidx : gdIdx < 2 ^ 21)
    (gtBytes : List UInt8) : ∀ n ∈ SeSparse.sectorNumbers geom gdIdx gtBytes, n < u64Size := by
  intro n hn
  unfold SeSparse.sectorNumbers at hn
  rw [h.loaded.grainSizeBytes] at hn
  obtain ⟨gteIdx, hgte, hn⟩ := List.mem_flatMap.mp hn
  have hlt := List.mem_range.mp (List.mem_filter.mp hgte).1
  simp only [List.mem_cons, List.not_mem_nil, or_false] at hn
  unfold SeSparse.gtesPerGt at hlt hn
  unfold u64Size
  rcases hn with rfl | rfl | rfl
  · omega
  · omega
  · unfold sectorSize
    omega

/-- The scan computes nothing above a `u64` where no table of the directory is. -/
theorem scan_fit (h : SeOpened file im geom) {dir : List Nat} {gdIdx : Nat}
    (hdir : ∀ e ∈ dir, SeSparse.Flagged e →
      (geom.gtOffsetSectors + SeSparse.gdIndex e * SeSparse.gtSectors) * sectorSize < u64Size)
    (hidx : gdIdx + dir.length ≤ 2 ^ 21) :
    ∀ n ∈ SeSparse.scanNumbers file geom gdIdx dir, n < u64Size := by
  induction dir generalizing gdIdx with
  | nil => exact fun n hn => by cases hn
  | cons e dir ih =>
    rw [List.length_cons] at hidx
    have hrest := @ih (gdIdx + 1) (fun e' he' => hdir e' (List.mem_cons_of_mem _ he')) (by omega)
    unfold SeSparse.scanNumbers
    split
    · next hflag =>
      rw [List.forall_mem_append]
      refine ⟨SeSparse.tableNumbers_fit.mpr (hdir e List.mem_cons_self hflag), ?_⟩
      split
      · exact List.forall_mem_append.mpr ⟨h.sectorNumbers_lt (by omega) _, hrest⟩
      · exact fun n hn => by cases hn
    · exact hrest

/-- The scan comes to the first table. -/
theorem first_fit (h : SeOpened file im geom)
    (hscan : ∀ n ∈ SeSparse.scanNumbers file geom 0 geom.grainDir, n < u64Size)
    (hflag : SeSparse.Flagged ((seLayout file.bytes).directory file.bytes 0)) :
    (seLayout file.bytes).entryByte ((seLayout file.bytes).directory file.bytes 0) 0 < u64Size := by
  obtain ⟨e, rest, hdir⟩ := List.exists_cons_of_ne_nil h.nonempty
  obtain ⟨o, -, hplace, -, hentry⟩ := h.entries 0 e (by rw [hdir]; rfl)
  have hfirst : (seLayout file.bytes).directory file.bytes 0 = e := by
    rw [← hentry]
    unfold SeLayout.directory
    rw [hplace]
  rw [hfirst] at hflag ⊢
  rw [hdir] at hscan
  unfold SeSparse.scanNumbers at hscan
  rw [if_pos hflag] at hscan
  have htable := SeSparse.tableNumbers_fit.mp (List.forall_mem_append.mp hscan).1
  rw [h.loaded.gtOffsetSectors] at htable
  unfold SeLayout.entryByte
  rw [show 0 / 4096 % 4096 * 8 = 0 from rfl, Nat.add_zero]
  exact htable

/-- Every call to a reader of an addressable image stays exact. -/
theorem call_fit (h : SeOpened file im geom)
    (hfit : (seLayout file.bytes).Addressable file.bytes) {s : VmdkReader} (him : s.toImage = im)
    (q : Disk.Request Query) : ∀ n ∈ s.callNumbers q, n < u64Size := by
  have hfmt : s.fmt = .seSparse file geom := him ▸ h.fmt
  have hsize : s.virtualDiskSize = im.virtualDiskSize := congrArg Image.virtualDiskSize him
  have hplace : ∀ o < im.virtualDiskSize, ∀ n ∈ SeSparse.locationNumbers file geom o, n < u64Size :=
    fun o ho => (h.location_fit ho).mpr fun hflag =>
      ⟨hfit.entry o (.inl (h.size ▸ ho)) hflag, hfit.data o (h.size ▸ ho) hflag⟩
  unfold callNumbers
  rw [hfmt]
  cases q with
  | seek f => exact fun n hn => by cases hn
  | read len =>
    simp only
    split
    · exact fun n hn => by cases hn
    · next hend => exact hplace s.pos (by omega)
  | query q =>
    cases q with
    | isAllocated lba =>
      simp only
      split
      · exact fun n hn => by cases hn
      next hlba =>
      have hlt : lba * sectorSize < im.virtualDiskSize := by
        rw [hsize] at hlba
        unfold sectorSize at *
        omega
      have h63 := h.size_lt
      refine List.forall_mem_cons.mpr ⟨by unfold u64Size; omega, fun n hn => ?_⟩
      refine hplace _ hlt n ?_
      unfold SeSparse.locationNumbers
      exact List.mem_append_left _ hn
    | iterAllocatedGrains =>
      refine h.scan_fit (fun e he hflag => ?_) (by have := h.tables; omega)
      obtain ⟨i, hi⟩ := List.getElem?_of_mem he
      obtain ⟨o, ho, -, hfirst, hentry⟩ := h.entries i e hi
      have hbyte := hfit.entry o ho (hentry.symm ▸ hflag)
      rw [hentry] at hbyte
      unfold SeLayout.entryByte at hbyte
      rw [hfirst, Nat.zero_mul, Nat.add_zero] at hbyte
      rw [h.loaded.gtOffsetSectors]
      exact hbyte

end SeOpened

/-- The numbers of an opening fit exactly when the place of the directory does. -/
theorem openNumbers_fit {file : Source} : (∀ n ∈ SeSparse.openNumbers file, n < u64Size) ↔
    ∀ hdr, DirectoryAsked file hdr → hdr.gdOffset * sectorSize < u64Size := by
  unfold SeSparse.openNumbers DirectoryAsked
  cases hread : file.readExactAt 0 512 with
  | error e => simp
  | ok hdrBytes =>
    cases hparse : SeConstHeader.parse hdrBytes with
    | error e => simp [hparse]
    | ok hdr =>
      have hcap : hdr.capacity < u64Size := by
        rw [(SeConstHeader.parse_ok hparse).capacity]
        exact leNat_slice_lt 8 16 hdrBytes
      have htables : max (divCeil (divCeil hdr.capacity hdr.grainSize) SeSparse.gtesPerGt) 1 * 8 <
          u64Size := by
        have hgrains := @divCeil_mul_lt hdr.capacity SeSparse.grainSectors (by decide)
        have hcount := @divCeil_mul_lt (divCeil hdr.capacity SeSparse.grainSectors)
          SeSparse.gtesPerGt (by decide)
        rw [hdr.grainSize_eq]
        unfold SeSparse.grainSectors SeSparse.gtesPerGt at *
        unfold u64Size at *
        omega
      have hgrain : hdr.grainSize * sectorSize < u64Size := by
        rw [hdr.grainSize_eq]
        decide
      simp only [hparse, List.forall_mem_cons, htables, hgrain, true_and]
      constructor
      · rintro hfits hdr' ⟨hdrBytes', hread', hparse', hmax⟩
        cases hread'
        rw [hparse] at hparse'
        cases hparse'
        rw [if_pos hmax] at hfits
        exact hfits _ (List.mem_singleton_self _)
      · intro hfits n hn
        split at hn
        · next hmax =>
          obtain rfl := List.mem_singleton.mp hn
          exact hfits hdr ⟨hdrBytes, rfl, hparse, hmax⟩
        · cases hn

section Addresses
variable [ZlibDecoder] {file : Source}

/-- **seSparse addresses are exact** where the file asks for none beyond a `u64`, and only there. -/
theorem sesparse_addresses (hmagic : numAt 8 file.bytes 0 = SeSparse.constMagic) :
    ExactAddresses file ↔ AddressesFit file := by
  have hopening : (∀ n ∈ SeSparse.openNumbers file, n < u64Size) ↔
      ∀ hdr, DirectoryAsked file hdr → hdr.gdOffset * sectorSize < u64Size := openNumbers_fit
  constructor
  · rintro ⟨hnumbers, hcalls⟩
    have hdirectory := hopening.mp hnumbers
    refine ⟨hdirectory, fun hok => ?_⟩
    obtain ⟨r, hopen⟩ := exists_of_isOk hok
    obtain ⟨im, geom, rfl, hse⟩ := open_seSparse hmagic hopen hdirectory
    have hlookup : ∀ o < im.virtualDiskSize,
        ∀ n ∈ SeSparse.locationNumbers file geom o, n < u64Size := by
      intro o ho
      have h63 := Nat.lt_trans ho hse.size_lt
      obtain ⟨-, hread, -⟩ := hcalls _ hopen [.seek (.start (UInt64.ofNat o)), .read 1]
      rw [step_seek_start h63] at hread
      unfold callNumbers at hread
      have hfmt : ({ im.reader with pos := o } : VmdkReader).fmt = .seSparse file geom := hse.fmt
      rw [hfmt] at hread
      simp only at hread
      rw [if_neg (by simp; exact ho)] at hread
      exact hread
    constructor
    · intro o ho hflag
      by_cases hin : o < (seLayout file.bytes).capacity * sectorSize
      · rw [← hse.size] at hin
        exact ((hse.location_fit hin).mp (hlookup o hin) hflag).1
      · obtain rfl := ho.resolve_left hin
        obtain ⟨hscan, -⟩ := hcalls _ hopen [.query .iterAllocatedGrains]
        unfold callNumbers at hscan
        rw [show im.reader.fmt = .seSparse file geom from hse.fmt] at hscan
        exact hse.first_fit hscan hflag
    · intro o ho hflag gte hgte htype
      rw [← hse.size] at ho
      exact ((hse.location_fit ho).mp (hlookup o ho) hflag).2 gte hgte htype
  · rintro ⟨hdirectory, himage⟩
    refine ⟨hopening.mpr hdirectory, fun r hopen requests => ?_⟩
    obtain ⟨im, geom, rfl, hse⟩ := open_seSparse hmagic hopen hdirectory
    have hfit := himage (by rw [hopen]; rfl)
    exact steps_of_image (fun s him _ q => hse.call_fit hfit him q) requests

end Addresses

def wrappedGrainBytes : List UInt8 :=
  SeConstHeader.toBytes {
    capacity := 8
    grainSize := 8
    gdOffset := 1
    gtOffset := 2
    grainsOffset := 2 ^ 55
    grainSize_eq := SeSparse.eight_sectors } ++
      padTo 512 (leBytes 8 (SeSparse.gdAllocFlag * 2 ^ 32)) ++
      leBytes 8 (SeSparse.gteTypeAllocated * 2 ^ 60)

theorem length_wrappedGrainBytes : wrappedGrainBytes.length < 2 ^ 63 := by
  simp [wrappedGrainBytes, SeConstHeader.toBytes, SeConstHeader.fields, recordWidth]

/-- A seSparse disk of one grain, whose data lies at sector `2 ^ 55`. -/
def wrappedGrain : Source := .ofBytes wrappedGrainBytes length_wrappedGrainBytes

/-- **The place of the first byte wraps around** to the header: the read delivers its magic
number. -/
theorem wraps_wrappedGrain : let _ := Stored.decoder
    ∃ r, VmdkReader.open wrappedGrain = .ok r ∧ 2 ^ 64 ∈ r.callNumbers (.read 4) ∧
      (r.read 4).1 = .ok (leBytes 4 SeSparse.constMagic) ∧ ¬ ExactAddresses wrappedGrain := by
  intro _
  have hrun : (VmdkReader.open wrappedGrain).map (fun r =>
      (decide (2 ^ 64 ∈ r.callNumbers (.read 4)), (r.read 4).1)) =
        .ok (true, .ok (leBytes 4 SeSparse.constMagic)) := by
    decide +kernel
  obtain ⟨r, hr, hrun⟩ := exists_of_map_eq hrun
  obtain ⟨hnumbers, hread⟩ := Prod.mk.inj hrun
  refine ⟨r, hr, of_decide_eq_true hnumbers, hread, fun hexact => ?_⟩
  obtain ⟨hsteps, -⟩ := hexact.calls r hr [.read 4]
  exact Nat.lt_irrefl _ (hsteps _ (of_decide_eq_true hnumbers))

theorem sesparse_addresses_wrappedGrain : let _ := Stored.decoder
    ExactAddresses wrappedGrain ↔ AddressesFit wrappedGrain := by
  intro _
  exact sesparse_addresses (by decide +kernel)

end VmdkReader
