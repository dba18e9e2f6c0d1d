import Vmdk.Integrity
import Vmdk.AllocQuery

/-! # Reads under a clean integrity report

A clean report promises that no lookup leaves the file, at addresses that are
the exact ones. The walk and the reader decode the same directory, except that
the reader wraps the address of a seSparse directory where the walk gives up
and reports nothing (`VmdkReader.clean_report_sound`). -/

open Bytes Word

/-! ## Lookups that stay inside the file -/

namespace TableLayout

/-- The table and the whole grain that `o` leads to lie in the file. -/
def Inside (L : TableLayout) (bytes : List UInt8) (o : Nat) : Prop :=
  L.table bytes o ≠ 0 →
    L.table bytes o * sectorSize + L.numGtesPerGt * 4 ≤ bytes.length ∧
      ∀ gte, L.entry bytes o = some gte → 1 < gte → gte * sectorSize + L.grainBytes ≤ bytes.length

/-- The exact place of the byte for `o` in an uncompressed extent. -/
def place (L : TableLayout) (bytes : List UInt8) (o : Nat) : Option Nat :=
  (L.entry bytes o).bind fun gte =>
    if gte ≤ 1 then none else some (gte * sectorSize + o % L.grainBytes)

end TableLayout

namespace SeLayout

/-- First byte of the table under the directory entry `gd`. -/
def tableByte (L : SeLayout) (gd : Nat) : Nat := (L.gtSector + gd % 2 ^ 32 * 64) * sectorSize

/-- First byte of the grain that the allocated entry `gte` points to. -/
def grainByte (L : SeLayout) (gte : Nat) : Nat :=
  (L.grainsSector + (gte / 2 ^ 48 % 2 ^ 12 + gte % 2 ^ 48 * 2 ^ 12) * 8) * sectorSize

/-- The directory entry, the table and the whole grain that `o` leads to lie in the file. -/
structure Inside (L : SeLayout) (bytes : List UInt8) (o : Nat) : Prop where
  directory : L.gdByte + o / 4096 / 4096 * 8 + 8 ≤ bytes.length
  table : L.directory bytes o ≠ 0 →
    L.tableByte (L.directory bytes o) + 4096 * 8 ≤ bytes.length
  grain : L.directory bytes o ≠ 0 →
    ∀ gte, leAt 8 bytes (L.entryByte (L.directory bytes o) o) = some gte → gte / 2 ^ 60 = 3 →
      L.grainByte gte + 4096 ≤ bytes.length

/-- The exact place of the byte for `o`. -/
def place (L : SeLayout) (bytes : List UInt8) (o : Nat) : Option Nat :=
  if L.directory bytes o = 0 then none
  else (leAt 8 bytes (L.entryByte (L.directory bytes o) o)).bind fun gte =>
    if gte / 2 ^ 60 = 3 then some (L.dataByte gte o) else none

theorem entryByte_le (L : SeLayout) (gd o : Nat) :
    L.entryByte gd o + 8 ≤ L.tableByte gd + 4096 * 8 := by
  have hidx : o / 4096 % 4096 < 4096 := Nat.mod_lt _ (by decide)
  unfold entryByte tableByte
  omega

theorem dataByte_lt (L : SeLayout) (gte o : Nat) : L.dataByte gte o < L.grainByte gte + 4096 :=
  Nat.add_lt_add_left (Nat.mod_lt _ (by decide)) _

end SeLayout

namespace Layout

def Inside (bytes : List UInt8) : Layout → Nat → Prop
  | .tables L => L.Inside bytes
  | .seSparse L => L.Inside bytes

def place (bytes : List UInt8) : Layout → Nat → Option Nat
  | .tables L => L.place bytes
  | .seSparse L => L.place bytes

end Layout

/-- A lookup that does not lead out of the file: it fails for another reason than the file's end, or
finds a place in the file, which is the exact one. -/
def LocatedInside (file : Source) (place : Option Nat) : Except IoError GrainLookup → Prop
  | .error e => e.kind ≠ .unexpectedEof
  | .ok .sparse => True
  | .ok (.fileOffset off) => off < file.len ∧ place = some off
  | .ok (.compressed _ _ _) => False

section Lookup
variable {file : Source} {o : Nat}

/-- **Lookups of an uncompressed VMDK4 extent** stay in the file where its tables and grains do. -/
theorem TableLayout.Loaded.locatedInside {L : TableLayout} {geom : SparseFormat}
    (hload : L.Loaded file.bytes geom) (im : Image) (hplain : L.compressed = false)
    (ho : o < L.capacity * sectorSize) (h : L.Inside file.bytes o) :
    LocatedInside file (L.place file.bytes o) (im.locateSparse false file geom o).1 := by
  have hn : 0 < L.numGtesPerGt := hload.numGtesPerGt ▸ geom.numGtesPerGt_pos
  have hg : 0 < L.grainBytes := hload.grainSizeBytes ▸ geom.grainSizeBytes_pos
  rw [hload.locateSparse im ho]
  split
  · trivial
  next h0 =>
  obtain ⟨htable, hgrain⟩ := h h0
  obtain ⟨gt, hgt, -⟩ := Image.readGt_of_le (Nat.mod_lt (o / L.grainBytes) hn) htable
  have hentry : L.entry file.bytes o = some (gt.getD (o / L.grainBytes % L.numGtesPerGt) 0) := by
    rw [TableLayout.entry, if_neg h0, TableLayout.readGt_getD (Nat.mod_lt _ hn) hgt]
  simp only [hgt, bind, Except.bind]
  split
  · trivial
  · next hgte =>
    have hin := hgrain _ hentry (Nat.not_le.mp hgte)
    have hmod := Nat.mod_lt o hg
    unfold GrainLookup.ofEntry
    rw [hload.compressed, hplain]
    refine ⟨?_, ?_⟩
    · change _ < file.bytes.length
      omega
    · rw [TableLayout.place, hentry, Option.bind_some, if_neg hgte]

/-- **Lookups of a seSparse extent** stay in the file where its tables and grains do. -/
theorem SeLayout.Loaded.locatedInside {L : SeLayout} {geom : SeSparseFormat}
    (hload : L.Loaded file.bytes geom) (ho : o < L.capacity * sectorSize)
    (h : L.Inside file.bytes o) :
    LocatedInside file (L.place file.bytes o) (Image.grainLocationSesparse file geom o) := by
  have hfile : file.bytes.length < u64Size := Nat.lt_trans file.length_lt (by decide)
  by_cases h0 : L.directory file.bytes o = 0
  · have hdir : geom.grainDir.getD (o / 4096 / SeSparse.gtesPerGt) 0 = 0 :=
      (hload.grainDir o ho).trans h0
    unfold Image.grainLocationSesparse Image.seReadGte
    simp only [hload.grainSizeBytes, hdir, if_true, bind, Except.bind]
    trivial
  have htable := h.table h0
  have hle := L.entryByte_le (L.directory file.bytes o) o
  have hentry : L.entryByte (L.directory file.bytes o) o < u64Size := by omega
  have hdata : ∀ gte, leAt 8 file.bytes (L.entryByte (L.directory file.bytes o) o) = some gte →
      gte / 2 ^ 60 = 3 → L.dataByte gte o < file.bytes.length := fun gte hgte h3 =>
    Nat.lt_of_lt_of_le (L.dataByte_lt gte o) (h.grain h0 gte hgte h3)
  rw [hload.grainLocation_at ho hentry fun gte hgte h3 => Nat.lt_trans (hdata gte hgte h3) hfile,
    SeLayout.seReadGte_eq hentry, if_neg h0]
  split
  · rw [Source.readExactAt_of_le (by omega)]
    have hgte : leAt 8 file.bytes (L.entryByte (L.directory file.bytes o) o) =
        some (leNat (slice file.bytes (L.entryByte (L.directory file.bytes o) o) 8)) :=
      leAt_eq_some.mpr ⟨by omega, rfl⟩
    change LocatedInside _ _ (L.entryPlace _ o)
    unfold SeLayout.entryPlace
    split
    · trivial
    split
    · next h3 =>
      refine ⟨hdata _ hgte h3, ?_⟩
      rw [SeLayout.place, if_neg h0, hgte, Option.bind_some, if_pos h3]
    · exact fun h => by cases h
  · exact fun h => by cases h

end Lookup

/-! ## Reads at places inside the file -/

section Reads
variable [ZlibDecoder] {im : Image} {file : Source} {pos len gs : Nat}

/-- The extent in `file` with grains of `gs` bytes. -/
def Image.GrainsIn (im : Image) (file : Source) (gs : Nat) : Prop :=
  (∃ geom, im.fmt = .sparse file geom ∧ geom.grainSizeBytes = gs) ∨
    ∃ geom, im.fmt = .seSparse file geom ∧ geom.grainSizeBytes = gs

/-- A read fetches at the place of its position. -/
theorem Image.readAt_eq_fetch (h : im.GrainsIn file gs) (fallback : Bool)
    (hpos : pos < im.virtualDiskSize) (hlen : 0 < len) :
    ∃ n, 0 < n ∧ n ≤ len ∧ n ≤ gs - pos % gs ∧ im.readAt fallback pos len =
      im.locate fallback pos >>= GrainLookup.fetch file gs n := by
  have hgs : 0 < gs := by
    rcases h with ⟨geom, -, rfl⟩ | ⟨geom, -, rfl⟩
    · exact geom.grainSizeBytes_pos
    · exact geom.grainSizeBytes_pos
  have hmod := Nat.mod_lt pos hgs
  refine ⟨min (min len (im.virtualDiskSize - pos)) (gs - pos % gs), by omega, by omega, by omega,
    ?_⟩
  have hgo : ¬ (im.virtualDiskSize ≤ pos ∨ len = 0) := by omega
  unfold Image.readAt Image.readAtCounting Image.locate
  rw [if_neg hgo]
  rcases h with ⟨geom, hfmt, rfl⟩ | ⟨geom, hfmt, rfl⟩
  · rw [hfmt]
  · rw [hfmt]

/-- A read that delivers a byte, or fails for another reason than the file's end. -/
def Delivers (result : Except IoError (List UInt8)) : Prop :=
  result ≠ .ok [] ∧ ∀ e, result = .error e → e.kind ≠ .unexpectedEof

/-- A read at a place inside the file. -/
theorem Image.readAt_delivers {place : Option Nat} {fallback : Bool} (h : im.GrainsIn file gs)
    (hpos : pos < im.virtualDiskSize) (hlen : 0 < len)
    (hplace : LocatedInside file place (im.locate fallback pos)) :
    Delivers (im.readAt fallback pos len) := by
  obtain ⟨n, hn, -, -, hread⟩ := Image.readAt_eq_fetch h fallback hpos hlen
  rw [hread]
  cases hloc : im.locate fallback pos with
  | error e =>
    rw [hloc] at hplace
    refine ⟨(fun hok => by cases hok), fun e' he' => ?_⟩
    cases he'
    exact hplace
  | ok loc =>
    rw [hloc] at hplace
    cases loc with
    | sparse =>
      refine ⟨fun hok => ?_, fun e he => by cases he⟩
      have hnil := congrArg List.length (Except.ok.inj hok)
      rw [List.length_replicate] at hnil
      exact absurd hnil (Nat.ne_of_gt hn)
    | fileOffset off =>
      obtain ⟨b, bs, hbs⟩ := Source.readAt_progress file hplace.1 hn
      change Delivers (file.readAt off n)
      rw [hbs]
      exact ⟨(fun hok => by cases hok), fun e he => by cases he⟩
    | compressed dataOffset dataSize offsetInGrain => exact hplace.elim

end Reads

/-! ## Reads of one entry -/

/-- A read at a place delivers a byte when the place is in the file. -/
theorem Source.readAt_delivers_iff {file : Source} {off n : Nat} (hn : 0 < n) :
    (∃ b bs, file.readAt off n = .ok (b :: bs)) ↔ off < file.len := by
  refine ⟨fun ⟨b, bs, h⟩ => ?_, fun hoff => Source.readAt_progress file hoff hn⟩
  have hbyte := Source.readAt_getElem? (i := 0) h (by simp)
  exact (List.getElem?_eq_some_iff.mp hbyte.symm).1

section Entries
variable [ZlibDecoder] {im : Image} {file : Source} {geom : SparseFormat} {o len : Nat}
  {fallback : Bool} {entry : Option Nat}

/-- A read that succeeds fetches at the place of its entry. -/
theorem readAt_entry (hfmt : im.fmt = .sparse file geom) (ho : o < im.virtualDiskSize)
    (hlen : 0 < len)
    (hentry : (im.locateSparse fallback file geom o).1.toOption =
      entry.bind fun gte => (GrainLookup.ofGte file geom gte (o % geom.grainSizeBytes)).toOption) :
    ∃ n, 0 < n ∧ ∀ bs, im.readAt fallback o len = .ok bs ↔ ∃ gte, entry = some gte ∧
      ∃ loc, GrainLookup.ofGte file geom gte (o % geom.grainSizeBytes) = .ok loc ∧
        GrainLookup.fetch file geom.grainSizeBytes n loc = .ok bs := by
  obtain ⟨n, hn, -, -, hread⟩ := Image.readAt_eq_fetch (.inl ⟨geom, hfmt, rfl⟩) fallback ho hlen
  have hlocate : im.locate fallback o = (im.locateSparse fallback file geom o).1 := by
    unfold Image.locate
    rw [hfmt]
  refine ⟨n, hn, fun bs => ?_⟩
  rw [hread, hlocate, bind_eq_ok]
  constructor
  · rintro ⟨loc, hloc, hbs⟩
    obtain ⟨gte, hgte, hplace⟩ := (GrainLookup.eq_ok_of_entry hentry).mp hloc
    exact ⟨gte, hgte, loc, hplace, hbs⟩
  · rintro ⟨gte, hgte, loc, hplace, hbs⟩
    exact ⟨loc, (GrainLookup.eq_ok_of_entry hentry).mpr ⟨gte, hgte, hplace⟩, hbs⟩

/-- **A read of an uncompressed disk** delivers a byte exactly when its entry is found, and the byte
is in the file. -/
theorem readAt_uncompressed (hfmt : im.fmt = .sparse file geom) (hplain : geom.compressed = false)
    (ho : o < im.virtualDiskSize) (hlen : 0 < len)
    (hentry : (im.locateSparse fallback file geom o).1.toOption =
      entry.bind fun gte => (GrainLookup.ofGte file geom gte (o % geom.grainSizeBytes)).toOption) :
    (∃ b bs, im.readAt fallback o len = .ok (b :: bs)) ↔ ∃ gte, entry = some gte ∧
      (1 < gte → gte * sectorSize + o % geom.grainSizeBytes < file.len) := by
  obtain ⟨n, hn, hread⟩ := readAt_entry hfmt ho hlen hentry
  simp only [hread]
  constructor
  · rintro ⟨b, bs, gte, hgte, loc, hplace, hbs⟩
    refine ⟨gte, hgte, fun hbig => ?_⟩
    unfold GrainLookup.ofGte GrainLookup.ofEntry at hplace
    rw [if_neg (Nat.not_le.mpr hbig), hplain] at hplace
    cases hplace
    exact (Source.readAt_delivers_iff hn).mp ⟨b, bs, hbs⟩
  · rintro ⟨gte, hgte, hin⟩
    unfold GrainLookup.ofGte GrainLookup.ofEntry
    rw [hplain]
    by_cases hle : gte ≤ 1
    · obtain ⟨k, rfl⟩ : ∃ k, n = k + 1 := ⟨n - 1, by omega⟩
      exact ⟨0, List.replicate k 0, gte, hgte, .sparse, if_pos hle, rfl⟩
    · obtain ⟨b, bs, hbs⟩ := (Source.readAt_delivers_iff hn).mpr (hin (Nat.not_le.mp hle))
      exact ⟨b, bs, gte, hgte, _, if_neg hle, hbs⟩

end Entries

/-! ## What the walks establish -/

namespace VmdkIntegrity
variable {file : Source} {layout : SparseLayout} {sector j : Nat}

theorem vmdk4Walk_tableInside (hlen : layout.fileLen = file.len) :
    (vmdk4Walk layout).TableInside sector ↔
      (sector ≠ 0 → sector * sectorSize + layout.numGtesPerGt * 4 ≤ file.len) := by
  have hlt : file.len < u64Max := Nat.lt_trans file.length_lt (by decide)
  unfold Walk.TableInside vmdk4Walk
  simp only [hlen]
  by_cases h0 : sector = 0
  · simp [h0]
  · simp only [ne_eq, h0, not_false_eq_true, true_imp_iff]
    exact satAdd_le_iff hlt

theorem vmdk4Walk_grainInside (hlen : layout.fileLen = file.len) {gte : Nat} :
    (vmdk4Walk layout).GrainInside gte ↔
      (1 < gte → gte * sectorSize + layout.grainSizeBytes ≤ file.len) := by
  have hlt : file.len < u64Max := Nat.lt_trans file.length_lt (by decide)
  unfold Walk.GrainInside vmdk4Walk
  simp only [hlen]
  by_cases hle : gte ≤ 1
  · simp [hle]
  · simp only [if_neg hle, Option.some.injEq, forall_eq', Nat.not_le.mp hle, true_imp_iff]
    exact satAdd_le_iff hlt

theorem vmdk4Walk_grainsInside (hlen : layout.fileLen = file.len) :
    (vmdk4Walk layout).GrainsInside file sector ↔
      (sector ≠ 0 → sector * sectorSize + layout.numGtesPerGt * 4 ≤ file.len →
        ∀ j < layout.numGtesPerGt, 1 < tableEntry file.bytes sector j →
          tableEntry file.bytes sector j * sectorSize + layout.grainSizeBytes ≤ file.len) := by
  have hlt : file.len < u64Max := Nat.lt_trans file.length_lt (by decide)
  unfold Walk.GrainsInside
  by_cases h0 : sector = 0
  · have href : (vmdk4Walk layout).tableRef sector = .absent := if_pos h0
    rw [href]
    simp [h0]
  have href : (vmdk4Walk layout).tableRef sector = .table (sector * sectorSize) := if_neg h0
  have hbound : satAdd (sector * sectorSize) (vmdk4Walk layout).gtByteLen ≤
      (vmdk4Walk layout).fileLen ↔ sector * sectorSize + layout.numGtesPerGt * 4 ≤ file.len := by
    change satAdd _ (layout.numGtesPerGt * 4) ≤ layout.fileLen ↔ _
    rw [hlen]
    exact satAdd_le_iff hlt
  rw [href]
  simp only [hbound, ne_eq, h0, not_false_eq_true, true_imp_iff]
  refine imp_congr_right fun hin => ?_
  constructor
  · intro h j hj
    exact (vmdk4Walk_grainInside hlen).mp
      (h _ ((mem_leTable_slice (show 0 < 4 by decide) hin).mpr ⟨j, hj, rfl⟩))
  · intro h gte hgte
    obtain ⟨j, hj, rfl⟩ := (mem_leTable_slice (show 0 < 4 by decide) hin).mp hgte
    exact (vmdk4Walk_grainInside hlen).mpr (h j hj)

/-- A window that passed the walk's saturating arithmetic lies in the file, at its exact place. -/
theorem sat_address {a b c n : Nat}
    (h : satAdd (satMul (satAdd a (satMul b c)) sectorSize) n ≤ file.len) :
    satMul (satAdd a (satMul b c)) sectorSize = (a + b * c) * sectorSize ∧
      (a + b * c) * sectorSize + n ≤ file.len := by
  have hlt : file.len < 2 ^ 63 := file.length_lt
  have hsize : u64Size = 2 ^ 64 := rfl
  generalize hbc : b * c = m at h ⊢
  unfold satAdd satMul u64Max sectorSize at h
  unfold satAdd satMul u64Max sectorSize
  rw [hbc] at h ⊢
  omega

variable {hdr : SeConstHeader} {gd : Nat}

theorem seSparseWalk_tableInside (h : (seSparseWalk hdr file.len).TableInside gd) (h0 : gd ≠ 0) :
    (seSparseWalk hdr file.len).tableRef gd =
        .table ((hdr.gtOffset + SeSparse.gdIndex gd * SeSparse.gtSectors) * sectorSize) ∧
      (hdr.gtOffset + SeSparse.gdIndex gd * SeSparse.gtSectors) * sectorSize +
        SeSparse.gtesPerGt * 8 ≤ file.len := by
  unfold Walk.TableInside at h
  unfold seSparseWalk at h ⊢
  simp only [if_neg h0] at h ⊢
  split at h
  · next hmarker =>
    split at hmarker <;> cases hmarker
  · next hmarker =>
    split at hmarker
    · exact h.elim
    · cases hmarker
  · next byte hbyte =>
    split at hbyte
    · cases hbyte
    · next hmarker =>
      rw [if_neg hmarker]
      cases hbyte
      obtain ⟨hexact, hin⟩ := sat_address h
      exact ⟨by rw [hexact], hin⟩

theorem seSparseWalk_entry (h0 : gd ≠ 0) (htable : (seSparseWalk hdr file.len).TableInside gd)
    (h : (seSparseWalk hdr file.len).GrainsInside file gd) (hj : j < SeSparse.gtesPerGt) {gte : Nat}
    (hgte : leAt 8 file.bytes
      ((hdr.gtOffset + SeSparse.gdIndex gd * SeSparse.gtSectors) * sectorSize + j * 8) = some gte)
    (htype : SeSparse.gteType gte = SeSparse.gteTypeAllocated) :
    (hdr.grainsOffset + SeSparse.gteGrainIndex gte * hdr.grainSize) * sectorSize +
      satMul hdr.grainSize sectorSize ≤ file.len := by
  have hlt : file.len < u64Max := Nat.lt_trans file.length_lt (by decide)
  obtain ⟨href, hin⟩ := seSparseWalk_tableInside htable h0
  unfold Walk.GrainsInside at h
  rw [href] at h
  have hmem : gte ∈ leTable 8 (slice file.bytes
      ((hdr.gtOffset + SeSparse.gdIndex gd * SeSparse.gtSectors) * sectorSize)
      (SeSparse.gtesPerGt * 8)) := by
    rw [(leAt_eq_some.mp hgte).2]
    exact (mem_leTable_slice (by decide) hin).mpr ⟨j, hj, rfl⟩
  have hall := h ((satAdd_le_iff hlt).mpr hin) gte hmem
  unfold Walk.GrainInside seSparseWalk at hall
  simp only [htype, ne_eq, not_true_eq_false, if_false, Option.some.injEq, forall_eq'] at hall
  exact (sat_address hall).2

end VmdkIntegrity

/-! ## The walk over the directory that `open` loaded -/

namespace TableLayout.Loaded
variable {L : TableLayout} {bytes : List UInt8} {geom : SparseFormat}

theorem numGtesPerGt_pos (hload : L.Loaded bytes geom) : 0 < L.numGtesPerGt :=
  hload.numGtesPerGt ▸ geom.numGtesPerGt_pos

theorem grainBytes_pos (hload : L.Loaded bytes geom) : 0 < L.grainBytes :=
  hload.grainSizeBytes ▸ geom.grainSizeBytes_pos

theorem grainSectors_pos (hload : L.Loaded bytes geom) : 0 < L.grainSectors :=
  Nat.pos_of_mul_pos_right hload.grainBytes_pos

theorem table_lt (hload : L.Loaded bytes geom) {o : Nat} (ho : o < L.capacity * sectorSize) :
    o / L.grainBytes / L.numGtesPerGt < L.tables :=
  table_lt_divCeil hload.grainSectors_pos hload.numGtesPerGt_pos (by decide) ho

end TableLayout.Loaded

section Walks
variable {file : Source} {r : VmdkReader} {report : IntegrityReport}

theorem getD_eq_zero_or_mem (l : List Nat) (i : Nat) : l.getD i 0 = 0 ∨ l.getD i 0 ∈ l := by
  rw [List.getD_eq_getElem?_getD]
  cases hget : l[i]? with
  | none => exact .inl rfl
  | some v => exact .inr (List.mem_of_getElem? hget)

/-- The check of a VMDK4 file walks the layout of the reparse. -/
theorem VmdkIntegrity.checkIntegrity_vmdk4 {found : Option SparseLayout}
    (hmagic : numAt 4 file.bytes 0 = Header.magic)
    (hlayout : VmdkIntegrity.sparseLayout file = .ok found) :
    VmdkIntegrity.checkIntegrity file =
      match found with
      | none => .ok .default
      | some layout => (VmdkIntegrity.vmdk4Walk layout).run file layout.grainDir := by
  unfold VmdkIntegrity.checkIntegrity
  split
  · next hshort =>
    unfold VmdkIntegrity.sparseLayout at hlayout
    rw [if_pos hshort] at hlayout
    cases hlayout
    rfl
  · next hlong =>
    have hread : file.readExactAt 0 8 = .ok (slice file.bytes 0 8) := by
      refine Source.readExactAt_of_le (Nat.le_trans ?_ (Nat.not_lt.mp hlong))
      decide
    have hhead : leNat (slice file.bytes 0 8) ≠ SeSparse.constMagic := (magic_ne hmagic).2
    rw [hread]
    simp only [bind, Except.bind, if_neg hhead, hlayout]
    cases found with
    | none => rfl
    | some layout => rfl

/-- The check of a VMDK4 file does not fail. -/
theorem VmdkIntegrity.checkIntegrity_vmdk4_ok (hmagic : numAt 4 file.bytes 0 = Header.magic) :
    ∃ report, VmdkIntegrity.checkIntegrity file = .ok report := by
  obtain ⟨found, hlayout⟩ := VmdkIntegrity.sparseLayout_ok file
  rw [VmdkIntegrity.checkIntegrity_vmdk4 hmagic hlayout]
  cases found with
  | none => exact ⟨_, rfl⟩
  | some layout =>
    obtain ⟨hdr, gdOffset, gd, -, rfl⟩ := VmdkIntegrity.sparseLayout_eq_some.mp hlayout
    exact VmdkIntegrity.Walk.run_ok rfl _

/-- The image of the VMDK4 file with layout `L`. -/
structure Vmdk4View (file : Source) (im : Image) (geom : SparseFormat) (L : TableLayout) : Prop where
  fmt : im.fmt = .sparse file geom
  loaded : L.Loaded file.bytes geom
  size : im.virtualDiskSize = L.capacity * sectorSize
  tables : geom.grainDir.length = L.tables
  directory : ∀ i < L.tables, geom.grainDir.getD i 0 = L.dirEntry file.bytes i
  rgdOffset : im.rgdOffset = numAt 8 file.bytes 48
  gdEntryCount : im.gdEntryCount = L.tables

theorem open_vmdk4View (hmagic : numAt 4 file.bytes 0 = Header.magic)
    (hopen : VmdkReader.open file = .ok r) :
    ∃ geom, Vmdk4View file r.toImage geom (vmdk4Layout file.bytes) := by
  obtain ⟨hdrBytes, hdr, desc, gdOffset, gdBytes, hread, hparse, hp, rfl⟩ :=
    open_of_magic hmagic hopen
  obtain ⟨hcap, hload⟩ := vmdk4Image_loaded hread hparse hp
  have hlayout := vmdk4Layout_eq hread hparse hp
  have htables : (vmdk4Layout file.bytes).tables = VmdkReader.numGts hdr := by
    rw [hlayout, headerLayout_tables]
  refine ⟨_, rfl, hload, congrArg (· * sectorSize) hcap, ?_, fun i hi => ?_, ?_, htables.symm⟩
  · rw [htables]
    change (leTable 4 gdBytes).length = _
    rw [length_leTable, (Source.readExactAt_ok hp.gdRead).2.1, Nat.mul_div_cancel _ (by decide)]
  · rw [htables] at hi
    rw [hlayout]
    exact hp.dirEntry hi
  · change hdr.rgdOffset = _
    rw [(SparseExtentHeader.parse_ok hparse).rgdOffset, header_field hread (by decide)]

/-- The sectors in the directory are its entries. -/
theorem Vmdk4View.forall_sector {im : Image} {geom : SparseFormat} {L : TableLayout}
    (hview : Vmdk4View file im geom L) {P : Nat → Prop} :
    (∀ sector ∈ geom.grainDir, P sector) ↔ ∀ i < L.tables, P (L.dirEntry file.bytes i) := by
  have hentry {i : Nat} (hi : i < geom.grainDir.length) :
      geom.grainDir[i] = L.dirEntry file.bytes i := by
    rw [← hview.directory i (hview.tables ▸ hi), List.getD_eq_getElem?_getD,
      List.getElem?_eq_getElem hi, Option.getD_some]
  constructor
  · intro h i hi
    rw [← hview.tables] at hi
    exact hentry hi ▸ h _ (List.getElem_mem hi)
  · intro h sector hsector
    obtain ⟨i, hi, rfl⟩ := List.getElem_of_mem hsector
    exact hentry hi ▸ h i (hview.tables ▸ hi)

/-- What an integrity report says of an extent with layout `L`: its counters are 0 when the tables
lie in the file, and when the grains of the tables in the file do. -/
structure TableLayout.Reported (L : TableLayout) (file : Source) (report : IntegrityReport) :
    Prop where
  tables : report.outOfBoundsGrainTables = 0 ↔ ∀ i < L.tables, L.dirEntry file.bytes i ≠ 0 →
    L.dirEntry file.bytes i * sectorSize + L.numGtesPerGt * 4 ≤ file.len
  grains : report.outOfBoundsGrains = 0 ↔ ∀ i < L.tables, L.dirEntry file.bytes i ≠ 0 →
    L.dirEntry file.bytes i * sectorSize + L.numGtesPerGt * 4 ≤ file.len →
      ∀ j < L.numGtesPerGt, 1 < tableEntry file.bytes (L.dirEntry file.bytes i) j →
        tableEntry file.bytes (L.dirEntry file.bytes i) j * sectorSize + L.grainBytes ≤ file.len

/-- A VMDK4 file without a capacity has no tables to walk. -/
theorem vmdk4_empty (hmagic : numAt 4 file.bytes 0 = Header.magic)
    (hcap : numAt 8 file.bytes 12 = 0)
    (hreport : VmdkIntegrity.checkIntegrity file = .ok report) :
    report.outOfBoundsGrainTables = 0 ∧ report.outOfBoundsGrains = 0 := by
  obtain ⟨found, hlayout⟩ := VmdkIntegrity.sparseLayout_ok file
  rw [VmdkIntegrity.checkIntegrity_vmdk4 hmagic hlayout] at hreport
  cases found with
  | none =>
    cases hreport
    exact ⟨rfl, rfl⟩
  | some layout =>
    obtain ⟨hdr, gdOffset, gd, hp, rfl⟩ := VmdkIntegrity.sparseLayout_eq_some.mp hlayout
    obtain ⟨hdrBytes, hread, hparse⟩ := hp.header
    have hzero : hdr.capacity = 0 := by
      rw [(SparseExtentHeader.parse_ok hparse).capacity, header_field hread (by decide)]
      exact hcap
    have hlen : satMul (VmdkIntegrity.layoutNumGts hdr) 4 = 0 := by
      unfold VmdkIntegrity.layoutNumGts
      rw [hzero, divCeil_zero, divCeil_zero]
      rfl
    have hgd := hp.gdRead
    rw [hlen] at hgd
    have hnil : gd = [] := List.length_eq_zero_iff.mp (Source.readExactAt_ok hgd).2.1
    subst hnil
    cases hreport
    exact ⟨rfl, rfl⟩

/-- **What the walk of a VMDK4 file says** of the tables in its directory. -/
theorem vmdk4_reported (hmagic : numAt 4 file.bytes 0 = Header.magic)
    (hopen : VmdkReader.open file = .ok r)
    (hreport : VmdkIntegrity.checkIntegrity file = .ok report) :
    (vmdk4Layout file.bytes).Reported file report := by
  by_cases hcap : numAt 8 file.bytes 12 = 0
  · have hnone : (vmdk4Layout file.bytes).tables = 0 := by
      change divCeil (divCeil (numAt 8 file.bytes 12) _) _ = 0
      rw [hcap, divCeil_zero, divCeil_zero]
    obtain ⟨htables, hgrains⟩ := vmdk4_empty hmagic hcap hreport
    exact ⟨by simp [hnone, htables], by simp [hnone, hgrains]⟩
  obtain ⟨geom, hview⟩ := open_vmdk4View hmagic hopen
  obtain ⟨layout, hlayout, hsame⟩ :=
    (VmdkReader.open_agrees_sparseLayout hmagic hcap).1 r hopen
  obtain ⟨geom', hfmt, hdir, hn, hgs⟩ := hsame.index
  rw [hview.fmt] at hfmt
  cases hfmt
  rw [VmdkIntegrity.checkIntegrity_vmdk4 hmagic hlayout] at hreport
  have hlen : layout.fileLen = file.len := by
    obtain ⟨hdr, gdOffset, gd, -, rfl⟩ := VmdkIntegrity.sparseLayout_eq_some.mp hlayout
    rfl
  obtain ⟨htables, hgrains⟩ := VmdkIntegrity.Walk.run_spec hreport
  have hngtes := hn.symm.trans hview.loaded.numGtesPerGt
  have hgrain := hgs.symm.trans hview.loaded.grainSizeBytes
  rw [← hdir] at htables hgrains
  constructor
  · rw [htables, hview.forall_sector]
    simp only [VmdkIntegrity.vmdk4Walk_tableInside hlen, hngtes]
  · rw [hgrains, hview.forall_sector]
    simp only [VmdkIntegrity.vmdk4Walk_grainsInside hlen, hngtes, hgrain]

/-- A clean report on a VMDK4 file bounds the tables and the grains of its layout. -/
theorem vmdk4_inside (hmagic : numAt 4 file.bytes 0 = Header.magic)
    (hopen : VmdkReader.open file = .ok r)
    (hreport : VmdkIntegrity.checkIntegrity file = .ok report) (hok : report.isOk = true) {o : Nat}
    (ho : o < (vmdk4Layout file.bytes).capacity * sectorSize) :
    (vmdk4Layout file.bytes).Inside file.bytes o := by
  obtain ⟨geom, hview⟩ := open_vmdk4View hmagic hopen
  obtain ⟨htables, hgrains⟩ := vmdk4_reported hmagic hopen hreport
  obtain ⟨hnoTable, hnoGrain⟩ := IntegrityReport.isOk_iff.mp hok
  have hi := hview.loaded.table_lt ho
  intro h0
  have hin := htables.mp hnoTable _ hi h0
  refine ⟨hin, fun gte hgte hbig => ?_⟩
  rw [TableLayout.entry, if_neg h0] at hgte
  rw [(leAt_eq_some.mp hgte).2] at hbig ⊢
  exact hgrains.mp hnoGrain _ hi h0 hin _ (Nat.mod_lt _ hview.loaded.numGtesPerGt_pos) hbig

/-- What `open` read of a seSparse file, and the reader's directory. -/
theorem open_of_seMagic (hmagic : numAt 8 file.bytes 0 = SeSparse.constMagic)
    (hopen : VmdkReader.open file = .ok r) :
    ∃ hdrBytes hdr buf geom, file.readExactAt 0 512 = .ok hdrBytes ∧
      SeConstHeader.parse hdrBytes = .ok hdr ∧
      max (divCeil (divCeil hdr.capacity hdr.grainSize) SeSparse.gtesPerGt) 1 * 8 ≤ SeSparse.maxGd ∧
      file.readExactAt (wrapMul hdr.gdOffset sectorSize)
        (max (divCeil (divCeil hdr.capacity hdr.grainSize) SeSparse.gtesPerGt) 1 * 8) = .ok buf ∧
      r.fmt = .seSparse file geom ∧ geom.grainDir = leTable 8 buf := by
  obtain ⟨hdrBytes, hread, ⟨h, -⟩ | ⟨-, ⟨-, h⟩ | ⟨h, -⟩⟩⟩ := open_cases hopen
  · exact absurd h (seMagic_ne hmagic)
  · unfold VmdkReader.openSesparseExtent openSesparse at h
    simp only [bind_eq_ok, fromIo_eq_ok, hread, Except.ok.injEq] at h
    obtain ⟨geom, ⟨_, rfl, hdr, hparse, hmax, _, buf, hgd, hgeom⟩, hdr', hparse', _, _, h⟩ := h
    rw [hparse] at hparse'
    cases hparse'
    cases hgeom
    cases h
    exact ⟨hdrBytes, hdr, buf, _, hread, hparse, hmax.down, hgd, rfl, rfl⟩
  · exact absurd hmagic h

/-- The check of a seSparse file whose directory address does not wrap walks the directory. -/
theorem VmdkIntegrity.checkIntegrity_seSparse {hdrBytes buf : List UInt8} {hdr : SeConstHeader}
    (hmagic : numAt 8 file.bytes 0 = SeSparse.constMagic)
    (hread : file.readExactAt 0 512 = .ok hdrBytes) (hparse : SeConstHeader.parse hdrBytes = .ok hdr)
    (hmax : max (divCeil (divCeil hdr.capacity hdr.grainSize) SeSparse.gtesPerGt) 1 * 8 ≤
      SeSparse.maxGd)
    (hgd : file.readExactAt (wrapMul hdr.gdOffset sectorSize)
      (max (divCeil (divCeil hdr.capacity hdr.grainSize) SeSparse.gtesPerGt) 1 * 8) = .ok buf)
    (hexact : hdr.gdOffset * sectorSize < u64Size) :
    VmdkIntegrity.checkIntegrity file =
      (VmdkIntegrity.seSparseWalk hdr file.len).run file (leTable 8 buf) := by
  have hlength : 512 ≤ file.bytes.length := by
    have := Source.readExactAt_ok_le (by decide) hread
    omega
  have hhead : file.readExactAt 0 8 = .ok (slice file.bytes 0 8) :=
    Source.readExactAt_of_le (by omega)
  have hgrain : hdr.grainSize ≠ 0 := by
    rw [hdr.grainSize_eq]
    decide
  have hpos : 0 < max (divCeil (divCeil hdr.capacity hdr.grainSize) SeSparse.gtesPerGt) 1 := by
    omega
  generalize htables : max (divCeil (divCeil hdr.capacity hdr.grainSize) SeSparse.gtesPerGt) 1 =
    tables at hmax hgd hpos
  rw [wrapMul_eq hexact] at hgd
  have hin := Source.readExactAt_ok_le (by omega) hgd
  have hlen : satMul tables 8 = tables * 8 :=
    satMul_eq (Nat.lt_of_le_of_lt hmax (by decide))
  unfold VmdkIntegrity.checkIntegrity VmdkIntegrity.checkIntegritySesparse
  have hhdr : file.readExactAt 0 sectorSize = .ok hdrBytes := hread
  have hbyte : satMul hdr.gdOffset sectorSize = hdr.gdOffset * sectorSize := satMul_eq hexact
  have hlarge : ¬ (tables * 8 > VmdkIntegrity.maxGdBytes ∨
      satAdd (hdr.gdOffset * sectorSize) (tables * 8) > file.len) := by
    have hsat := Image.satAdd_le (hdr.gdOffset * sectorSize) (tables * 8)
    exact not_or.mpr ⟨Nat.not_lt.mpr hmax, Nat.not_lt.mpr (Nat.le_trans hsat hin)⟩
  rw [if_neg (show ¬ file.len < sectorSize from Nat.not_lt.mpr hlength), hhead]
  have hse : leNat (slice file.bytes 0 8) = SeSparse.constMagic := hmagic
  simp only [bind, Except.bind, hhdr, hparse, if_neg hgrain, if_pos hse, htables, hlen, hbyte,
    if_neg hlarge, hgd]

/-- A clean report on a seSparse file bounds the tables and the grains of its layout. -/
theorem seSparse_inside (hmagic : numAt 8 file.bytes 0 = SeSparse.constMagic)
    (hopen : VmdkReader.open file = .ok r)
    (hreport : VmdkIntegrity.checkIntegrity file = .ok report) (hok : report.isOk = true) {o : Nat}
    (ho : o < (seLayout file.bytes).capacity * sectorSize)
    (hexact : (seLayout file.bytes).gdByte < u64Size) {geom : SeSparseFormat}
    (hfmt : r.fmt = .seSparse file geom) (hload : (seLayout file.bytes).Loaded file.bytes geom) :
    (seLayout file.bytes).Inside file.bytes o := by
  obtain ⟨hdrBytes, hdr, buf, geom', hread, hparse, hmax, hgd, hfmt', hdir⟩ :=
    open_of_seMagic hmagic hopen
  rw [hfmt] at hfmt'
  cases hfmt'
  have hfields := SeConstHeader.parse_ok hparse
  have hcap := hfields.capacity.trans (header_field hread (by decide))
  have hgdo := hfields.gdOffset.trans (header_field hread (by decide))
  have hgto := hfields.gtOffset.trans (header_field hread (by decide))
  have hgro := hfields.grainsOffset.trans (header_field hread (by decide))
  have hgdByte : hdr.gdOffset * sectorSize = (seLayout file.bytes).gdByte :=
    congrArg (· * sectorSize) hgdo
  rw [VmdkIntegrity.checkIntegrity_seSparse hmagic hread hparse hmax hgd (hgdByte ▸ hexact)]
    at hreport
  obtain ⟨htables, hgrains⟩ := VmdkIntegrity.Walk.run_spec hreport
  obtain ⟨hnoTable, hnoGrain⟩ := IntegrityReport.isOk_iff.mp hok
  have hidx : o / 4096 / 4096 <
      max (divCeil (divCeil hdr.capacity hdr.grainSize) SeSparse.gtesPerGt) 1 := by
    have hlt := table_lt_divCeil (show 0 < SeSparse.grainSectors by decide)
      (show 0 < SeSparse.gtesPerGt by decide) (show 0 < sectorSize by decide) ho
    rw [hcap, hdr.grainSize_eq]
    exact Nat.lt_of_lt_of_le hlt (Nat.le_max_left _ _)
  have hdirectory := Source.readExactAt_ok_le (by omega) hgd
  rw [wrapMul_eq (hgdByte ▸ hexact), hgdByte] at hdirectory
  have hmem (h0 : (seLayout file.bytes).directory file.bytes o ≠ 0) :
      (seLayout file.bytes).directory file.bytes o ∈ leTable 8 buf := by
    rw [← hload.grainDir o ho, ← hdir] at *
    exact (getD_eq_zero_or_mem _ _).resolve_left h0
  refine ⟨by omega, fun h0 => ?_, fun h0 gte hgte htype => ?_⟩
  · have hin := (VmdkIntegrity.seSparseWalk_tableInside (htables.mp hnoTable _ (hmem h0)) h0).2
    rw [hgto] at hin
    exact hin
  · have hin := VmdkIntegrity.seSparseWalk_entry h0 (htables.mp hnoTable _ (hmem h0))
      (hgrains.mp hnoGrain _ (hmem h0)) (Nat.mod_lt (o / 4096) (show 0 < 4096 by decide))
      (by rw [hgto]; exact hgte) htype
    rw [hgro, hdr.grainSize_eq] at hin
    exact hin

end Walks

/-! ## Clean reports -/

/-- A VMDK4 extent that is not streamOptimized. -/
def UncompressedVmdk4 (file : Source) : Prop :=
  numAt 4 file.bytes 0 = Header.magic ∧ (vmdk4Layout file.bytes).compressed = false

/-- The address of a seSparse directory that is used fits a `u64`. -/
def DirectoryFits (file : Source) : Prop :=
  numAt 8 file.bytes 0 = SeSparse.constMagic →
    numAt 8 file.bytes 16 = 0 ∨ numAt 8 file.bytes 128 * sectorSize < u64Size

section Layouts
variable {file : Source}

theorem layoutOf_vmdk4 (hmagic : numAt 4 file.bytes 0 = Header.magic) :
    layoutOf file.bytes = .tables (vmdk4Layout file.bytes) := by
  obtain ⟨hcowd, hse⟩ := magic_ne hmagic
  have hse' : numAt 8 file.bytes 0 ≠ SeSparse.constMagic := hse
  rw [layoutOf, if_neg hcowd, if_neg hse']

theorem layoutOf_seSparse (hmagic : numAt 8 file.bytes 0 = SeSparse.constMagic) :
    layoutOf file.bytes = .seSparse (seLayout file.bytes) := by
  rw [layoutOf, if_neg (seMagic_ne hmagic), if_pos hmagic]

/-- Under a clean report every lookup of the image `open` returns stays inside. -/
theorem clean_report_locates {r : VmdkReader} {report : IntegrityReport} {o : Nat}
    (hopen : VmdkReader.open file = .ok r)
    (hkind : UncompressedVmdk4 file ∨ numAt 8 file.bytes 0 = SeSparse.constMagic)
    (hreport : VmdkIntegrity.checkIntegrity file = .ok report) (hok : report.isOk = true)
    (hfits : DirectoryFits file) (ho : o < r.virtualDiskSize) :
    (layoutOf file.bytes).Inside file.bytes o ∧ (∃ gs, r.GrainsIn file gs) ∧
      LocatedInside file ((layoutOf file.bytes).place file.bytes o) (r.locate false o) := by
  obtain ⟨im, rfl, him⟩ := open_loads hopen
  have hindex := him.index
  have hsize := him.size
  have ho' : o < im.virtualDiskSize := ho
  rw [hsize] at ho'
  unfold Image.GrainsIn Image.locate
  rcases hkind with ⟨hmagic, hplain⟩ | hmagic
  · rw [layoutOf_vmdk4 hmagic] at hindex ho' ⊢
    obtain ⟨geom, hfmt, hload⟩ := hindex
    have hinside := vmdk4_inside hmagic hopen hreport hok ho'
    refine ⟨hinside, ⟨_, .inl ⟨geom, hfmt, rfl⟩⟩, ?_⟩
    have hreader : im.reader.fmt = .sparse file geom := hfmt
    rw [hreader]
    exact hload.locatedInside im hplain ho' hinside
  · rw [layoutOf_seSparse hmagic] at hindex ho' ⊢
    obtain ⟨geom, hfmt, hgs, hload⟩ := hindex
    have hcap : numAt 8 file.bytes 16 ≠ 0 := by
      intro h0
      have hzero : (Layout.seSparse (seLayout file.bytes)).capacity = 0 := h0
      rw [hzero, Nat.zero_mul] at ho'
      exact Nat.not_lt_zero o ho'
    have hexact := (hfits hmagic).resolve_left hcap
    have hload := hload hexact
    have hinside := seSparse_inside hmagic hopen hreport hok ho' hexact hfmt hload
    refine ⟨hinside, ⟨_, .inr ⟨geom, hfmt, rfl⟩⟩, ?_⟩
    have hreader : im.reader.fmt = .seSparse file geom := hfmt
    rw [hreader]
    exact hload.locatedInside ho' hinside

end Layouts

namespace VmdkReader
variable [ZlibDecoder]

/-- No read runs off the file. Whatever was asked before, a read below the disk's end outside
recovery mode delivers a byte or fails for another reason than the file's end; the tables and the
grains that offsets lead to lie in the file whole; and the places found are the exact ones. -/
structure StaysInside (file : Source) : Prop where
  reads : ∀ r, Reachable file r → r.rgdFallback = false → r.pos < r.virtualDiskSize →
    ∀ len, 0 < len → Delivers (r.read len).1
  inside : ∀ r, Reachable file r → ∀ o < r.virtualDiskSize,
    (layoutOf file.bytes).Inside file.bytes o
  addresses : ∀ r, Reachable file r → r.rgdFallback = false → ∀ o < r.virtualDiskSize, ∀ off,
    (r.grainLocation o).1 = .ok (.fileOffset off) →
      (layoutOf file.bytes).place file.bytes o = some off

/-- **A clean integrity report** means that no read runs off the file, exactly when the address of
the directory is not one that wraps. -/
theorem clean_report_sound {file : Source} {r : VmdkReader} {report : IntegrityReport}
    (hopen : VmdkReader.open file = .ok r)
    (hkind : UncompressedVmdk4 file ∨ numAt 8 file.bytes 0 = SeSparse.constMagic)
    (hreport : VmdkIntegrity.checkIntegrity file = .ok report) (hok : report.isOk = true) :
    StaysInside file ↔ DirectoryFits file := by
  constructor
  · intro h hmagic
    by_contra hwraps
    obtain ⟨hcap, hlarge⟩ := not_or.mp hwraps
    obtain ⟨im, rfl, him⟩ := open_loads hopen
    have hsize := him.size
    rw [layoutOf_seSparse hmagic] at hsize
    have hpos : 0 < im.virtualDiskSize := by
      rw [hsize]
      exact Nat.mul_pos (Nat.pos_of_ne_zero hcap) (by decide)
    have hinside := h.inside _ (.opened hopen) 0 hpos
    rw [layoutOf_seSparse hmagic] at hinside
    have hin : numAt 8 file.bytes 128 * sectorSize + 0 / 4096 / 4096 * 8 + 8 ≤ file.bytes.length :=
      hinside.directory
    have hlt := file.length_lt
    have hsize64 : u64Size = 2 ^ 64 := rfl
    omega
  · intro hfits
    have hlocated : ∀ r', Reachable file r' → r'.Coherent ∧ ∀ o < r'.virtualDiskSize,
        (layoutOf file.bytes).Inside file.bytes o ∧ (∃ gs, r'.GrainsIn file gs) ∧
          LocatedInside file ((layoutOf file.bytes).place file.bytes o) (r'.locate false o) := by
      intro r' hr'
      obtain ⟨⟨r₀, hopen₀, himage⟩, hc⟩ := hr'.inv
      rw [hopen] at hopen₀
      cases hopen₀
      rw [himage]
      exact ⟨hc, fun o ho => clean_report_locates hopen hkind hreport hok hfits ho⟩
    refine ⟨fun r' hr' hmode hpos len hlen => ?_, fun r' hr' o ho => ((hlocated r' hr').2 o ho).1,
      fun r' hr' hmode o ho off hoff => ?_⟩
    · obtain ⟨hc, hall⟩ := hlocated r' hr'
      obtain ⟨-, ⟨gs, hgrains⟩, hplace⟩ := hall r'.pos hpos
      rw [(read_spec hc len).1, hmode]
      exact Image.readAt_delivers hgrains hpos hlen hplace
    · obtain ⟨hc, hall⟩ := hlocated r' hr'
      obtain ⟨-, -, hplace⟩ := hall o ho
      rw [grainLocation_fst hc, hmode] at hoff
      rw [hoff] at hplace
      exact hplace.2

end VmdkReader

theorem VmdkReader.clean_report_sound_mirroredDisk :
    letI := Stored.decoder
    VmdkReader.StaysInside (mirroredDisk 11 3) ↔ DirectoryFits (mirroredDisk 11 3) := by
  let _ := Stored.decoder
  obtain ⟨r, hr⟩ := exists_of_isOk (x := VmdkReader.open (mirroredDisk 11 3)) (by decide +kernel)
  have hreport : VmdkIntegrity.checkIntegrity (mirroredDisk 11 3) = .ok ⟨1, 0, 0⟩ := by
    decide +kernel
  exact VmdkReader.clean_report_sound hr (.inl ⟨by decide +kernel, by decide +kernel⟩) hreport rfl

def wrappedDirectoryBytes : List UInt8 :=
  SeConstHeader.toBytes {
    capacity := 8
    grainSize := 8
    gdOffset := 2 ^ 55 + 1
    gtOffset := 1000
    grainsOffset := 0
    grainSize_eq := SeSparse.eight_sectors } ++
      leBytes 8 (SeSparse.gdAllocFlag * 2 ^ 32)

theorem length_wrappedDirectoryBytes : wrappedDirectoryBytes.length < 2 ^ 63 := by
  simp [wrappedDirectoryBytes, SeConstHeader.toBytes, SeConstHeader.fields, recordWidth]

/-- A seSparse disk of one grain. The address of its directory wraps to sector 1, whose entry leads
to a table beyond the end of the file. -/
def wrappedDirectory : Source := .ofBytes wrappedDirectoryBytes length_wrappedDirectoryBytes

/-- The report is clean, and the first read runs off the file. -/
theorem VmdkReader.clean_report_misses_wrappedDirectory :
    letI := Stored.decoder
    ∃ r, VmdkReader.open wrappedDirectory = .ok r ∧
      VmdkIntegrity.checkIntegrity wrappedDirectory = .ok .default ∧
      (r.read 1).1 = .error Source.eofError ∧ ¬ StaysInside wrappedDirectory := by
  let _ := Stored.decoder
  have hreport : VmdkIntegrity.checkIntegrity wrappedDirectory = .ok .default := by decide +kernel
  have hread : ((VmdkReader.open wrappedDirectory).map fun r =>
      (decide (0 < r.virtualDiskSize ∧ r.pos = 0 ∧ r.rgdFallback = false), (r.read 1).1)) =
      .ok (true, .error Source.eofError) := by decide +kernel
  obtain ⟨r, hr, hread⟩ := exists_of_map_eq hread
  obtain ⟨hstate, heof⟩ := Prod.mk.inj hread
  obtain ⟨hsize, hpos, hmode⟩ := of_decide_eq_true hstate
  refine ⟨r, hr, hreport, heof, fun hinside => ?_⟩
  exact (hinside.reads r (.opened hr) hmode (hpos ▸ hsize) 1 Nat.one_pos).2 _ heof rfl
