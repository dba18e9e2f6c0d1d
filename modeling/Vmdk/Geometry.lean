import Vmdk.AllocQuery
import Vmdk.Lib.Checked

/-! # Geometry

The bounds that the openers leave on a loaded index, and what they are for:
beside each function of the reader stands the list of operations it goes through
on its way, and on an opened VMDK4 or COWD image every operation of every call is
safe (`VmdkReader.geometry_sound`). The recovery counter is listed apart. -/

open Bytes Word Checked

/-- The tables of an index are small, and the grains they can count have places far below the end
of a `u64`. -/
structure GrainGeometry.Bounded (geom : GrainGeometry) : Prop where
  entries : geom.numGtesPerGt ≤ 4096
  grain : geom.grainSizeBytes < 2 ^ 41
  span : geom.grainDir.length * geom.numGtesPerGt * geom.grainSizeBytes < 2 ^ 57

theorem openCowd_bounded {file : Source} {geom : GrainGeometry} (h : openCowd file = .ok geom) :
    geom.Bounded := by
  unfold openCowd at h
  simp only [bind_eq_ok, fromIo_eq_ok] at h
  obtain ⟨hdrBytes, -, hdr, -, -, -, buf, hread, h⟩ := h
  cases h
  have hgs := hdr.grainSize_lt
  have hcap := hdr.capacity_lt
  refine ⟨Nat.le_refl _, ?_, ?_⟩
  · show hdr.grainSize * sectorSize < _
    unfold sectorSize
    omega
  · show (leTable 4 buf).length * Cowd.gtesPerGt * (hdr.grainSize * sectorSize) < _
    have hlen := (Source.readExactAt_ok hread).2.1
    rw [length_leTable, hlen, Nat.mul_div_cancel _ (by decide)]
    have htables := @divCeil_mul_lt (divCeil hdr.capacity hdr.grainSize) Cowd.gtesPerGt (by decide)
    have hgrains := @divCeil_mul_lt hdr.capacity hdr.grainSize hdr.grainSize_pos
    calc divCeil (divCeil hdr.capacity hdr.grainSize) Cowd.gtesPerGt * Cowd.gtesPerGt *
          (hdr.grainSize * sectorSize)
        ≤ (divCeil hdr.capacity hdr.grainSize + Cowd.gtesPerGt) * (hdr.grainSize * sectorSize) :=
          Nat.mul_le_mul_right _ (Nat.le_of_lt htables)
      _ = (divCeil hdr.capacity hdr.grainSize * hdr.grainSize + Cowd.gtesPerGt * hdr.grainSize) *
            sectorSize := by
          rw [← Nat.mul_assoc, Nat.add_mul]
      _ < 2 ^ 57 := by
          unfold sectorSize Cowd.gtesPerGt
          omega

/-- The index of a VMDK4 directory under the cap. -/
theorem vmdk4_bounded {hdr : SparseExtentHeader} {tables : Nat} {gdBytes : List UInt8}
    (hcap : tables * 4 ≤ VmdkReader.maxGdBytes) (hlen : gdBytes.length = tables * 4) :
    (VmdkReader.vmdk4Format hdr gdBytes).Bounded := by
  have hentries := hdr.numGtesPerGt_le
  have hgrain := hdr.grainSize_le
  refine ⟨Nat.le_trans hentries (by decide), ?_, ?_⟩
  · show hdr.grainSize * sectorSize < _
    unfold sectorSize
    unfold Header.maxGrainSizeSectors at hgrain
    omega
  · show (leTable 4 gdBytes).length * hdr.numGtesPerGt * (hdr.grainSize * sectorSize) < _
    rw [length_leTable, hlen, Nat.mul_div_cancel _ (by decide)]
    have htables : tables ≤ 2 ^ 22 := by
      unfold VmdkReader.maxGdBytes at hcap
      omega
    calc tables * hdr.numGtesPerGt * (hdr.grainSize * sectorSize)
        ≤ 2 ^ 22 * Header.maxNumGtesPerGt * (Header.maxGrainSizeSectors * sectorSize) :=
          Nat.mul_le_mul (Nat.mul_le_mul htables hentries) (Nat.mul_le_mul_right _ hgrain)
      _ < 2 ^ 57 := by decide

/-! ## The operations of the reader -/

def maxTableBytes : Nat := 16 * 1024

def maxPayloadBytes : Nat := 32 * 1024 * 1024 + 64 * 1024

namespace Image

/-- `rgd_dir_entry`; its other sums saturate. -/
def rgdDirEntryOps (im : Image) (gdIdx : Nat) : List Op :=
  if im.rgdOffset = 0 ∨ im.rgdOffset = Header.gdAtEnd then []
  else if im.gdEntryCount ≤ gdIdx then []
  else [.result (gdIdx * 4)]

/-- `resilient_gt_sector`. -/
def resilientGtSectorOps (im : Image) (gdIdx numGtesPerGt : Nat) : List Op :=
  .result (numGtesPerGt * 4) :: im.rgdDirEntryOps gdIdx

/-- `read_redundant_gt`. -/
def readRedundantGtOps (im : Image) (inner : Source) (gdIdx numGtesPerGt : Nat) : List Op :=
  im.rgdDirEntryOps gdIdx ++
    match im.rgdDirEntry inner gdIdx inner.len with
    | .error _ => []
    | .ok sector =>
      if sector = 0 then []
      else [.result (sector * sectorSize), .result (numGtesPerGt * 4)] ++
        if inner.len < satAdd (sector * sectorSize) (numGtesPerGt * 4) then []
        else [.buffer (numGtesPerGt * 4) maxTableBytes]

/-- `rgd_gte`. -/
def rgdGteOps (im : Image) (inner : Source) (gdIdx gteIdx numGtesPerGt : Nat) : List Op :=
  im.rgdDirEntryOps gdIdx ++
    match im.rgdDirEntry inner gdIdx inner.len with
    | .error _ => []
    | .ok sector =>
      if sector = 0 then []
      else [.result (sector * sectorSize), .result (numGtesPerGt * 4)] ++
        if inner.len < satAdd (sector * sectorSize) (numGtesPerGt * 4) then []
        else [.result (gteIdx * 4), .result (sector * sectorSize + gteIdx * 4)]

/-- The place of a grain whose entry is `gte`: its marker, or its first byte. -/
def grainOps (geom : SparseFormat) (gte offsetInGrain : Nat) : List Op :=
  if geom.compressed then [.result (gte * sectorSize), .result (gte * sectorSize + 12)]
  else [.result (gte * sectorSize), .result (gte * sectorSize + offsetInGrain)]

/-- `grain_location_sparse` where no table is cached. -/
def locateSparseOps (im : Image) (fallback : Bool) (inner : Source) (geom : SparseFormat)
    (virtualOffset : Nat) : List Op :=
  let grainIdx := virtualOffset / geom.grainSizeBytes
  let gdIdx := grainIdx / geom.numGtesPerGt
  let gteIdx := grainIdx % geom.numGtesPerGt
  [.divisor geom.grainSizeBytes, .divisor geom.numGtesPerGt, .window (gdIdx + 1) geom.grainDir.length]
    ++ (if fallback then im.resilientGtSectorOps gdIdx geom.numGtesPerGt else []) ++
    match im.gtSectorFor fallback inner geom gdIdx with
    | .error _ => []
    | .ok gtSector =>
      if gtSector = 0 then []
      else [.result (gtSector * sectorSize), .result (geom.numGtesPerGt * 4),
          .buffer (geom.numGtesPerGt * 4) maxTableBytes] ++
        match readGt inner geom.numGtesPerGt gtSector with
        | .error _ => []
        | .ok gt =>
          let gte := gt.getD gteIdx 0
          .window (gteIdx + 1) gt.length ::
            (if fallback && gte ≤ 1 then im.rgdGteOps inner gdIdx gteIdx geom.numGtesPerGt else []) ++
            match im.recoverEntry fallback inner geom gdIdx gteIdx gte false with
            | .error _ => []
            | .ok (gte, _) =>
              if gte ≤ 1 then [] else grainOps geom gte (virtualOffset % geom.grainSizeBytes)

/-- `read_compressed_grain` into `toRead` bytes. -/
def readCompressedGrainOps [ZlibDecoder] (inner : Source) (grainSizeBytes toRead : Nat)
    (dataOffset dataSize offsetInGrain : Nat) : List Op :=
  [.buffer dataSize maxPayloadBytes, .result (grainSizeBytes + 1), .result (offsetInGrain + toRead)] ++
    match GrainLookup.decodeGrain inner grainSizeBytes dataOffset dataSize with
    | .error _ => []
    | .ok grainData =>
      let stop := min (offsetInGrain + toRead) grainData.length
      let n := stop - offsetInGrain
      if 0 < n then [.window n toRead, .window stop grainData.length, .window offsetInGrain stop]
      else []

/-- `read` of `len` bytes at `pos`. -/
def readOps [ZlibDecoder] (im : Image) (fallback : Bool) (inner : Source) (geom : SparseFormat)
    (pos len : Nat) : List Op :=
  if im.virtualDiskSize ≤ pos ∨ len = 0 then [] else
  let remainingInGrain := geom.grainSizeBytes - pos % geom.grainSizeBytes
  let toRead := min (min len (im.virtualDiskSize - pos)) remainingInGrain
  let location := (im.locateSparse fallback inner geom pos).1
  [.difference im.virtualDiskSize pos, .divisor geom.grainSizeBytes,
      .difference geom.grainSizeBytes (pos % geom.grainSizeBytes), .window toRead len] ++
    im.locateSparseOps fallback inner geom pos ++
    (match location with
      | .ok (.compressed dataOffset dataSize offsetInGrain) =>
        readCompressedGrainOps inner geom.grainSizeBytes toRead dataOffset dataSize offsetInGrain
      | _ => []) ++
    match location >>= GrainLookup.fetch inner geom.grainSizeBytes toRead with
    | .error _ => []
    | .ok bs => [.result (pos + bs.length)]

/-- `is_allocated`. -/
def isAllocatedOps (im : Image) (geom : SparseFormat) (lba : Nat) : List Op :=
  if im.virtualDiskSize / sectorSize ≤ lba then [] else
  let grainIdx := lba * sectorSize / geom.grainSizeBytes
  let gdIdx := grainIdx / geom.numGtesPerGt
  let gteIdx := grainIdx % geom.numGtesPerGt
  let gtSector := geom.grainDir.getD gdIdx 0
  [.result (lba * sectorSize), .divisor geom.grainSizeBytes, .divisor geom.numGtesPerGt,
      .window (gdIdx + 1) geom.grainDir.length] ++
    if gtSector = 0 then []
    else [.result (gtSector * sectorSize), .result (gteIdx * 4),
      .result (gtSector * sectorSize + gteIdx * 4)]

/-- One entry of a scanned table. -/
def scanEntryOps (geom : SparseFormat) (gdIdx : Nat) (gtBytes : List UInt8)
    (redundantGt : Option (List UInt8)) (gteIdx : Nat) : List Op :=
  [.result (gteIdx * 4 + 4), .window (gteIdx * 4 + 4) gtBytes.length] ++
    (match redundantGt with
      | some rgt =>
        if leNat (slice gtBytes (gteIdx * 4) 4) ≤ 1 then [.window (gteIdx * 4 + 4) rgt.length] else []
      | none => []) ++
    if (scanEntry gtBytes redundantGt gteIdx).1 ≤ 1 then []
    else [.result (gdIdx * geom.numGtesPerGt), .result (gdIdx * geom.numGtesPerGt + gteIdx),
      .result ((gdIdx * geom.numGtesPerGt + gteIdx) * (geom.grainSizeBytes / sectorSize))]

/-- One round of the scan. -/
def scanTableOps (im : Image) (fallback : Bool) (inner : Source) (geom : SparseFormat) (gdIdx : Nat) :
    List Op :=
  (if fallback then im.resilientGtSectorOps gdIdx geom.numGtesPerGt else []) ++
    match im.gtSectorFor fallback inner geom gdIdx with
    | .error _ => []
    | .ok gtSector =>
      (if fallback then im.readRedundantGtOps inner gdIdx geom.numGtesPerGt else []) ++
        match im.redundantGtFor fallback inner gdIdx geom.numGtesPerGt with
        | .error _ => []
        | .ok redundantGt =>
          if gtSector = 0 then []
          else [.result (geom.numGtesPerGt * 4), .result (gtSector * sectorSize),
              .buffer (geom.numGtesPerGt * 4) maxTableBytes] ++
            match inner.readExactAt (gtSector * sectorSize) (geom.numGtesPerGt * 4) with
            | .error _ => []
            | .ok gtBytes =>
              (List.range geom.numGtesPerGt).flatMap (scanEntryOps geom gdIdx gtBytes redundantGt)

/-- `iter_allocated_grains`, with the rounds behind one that fails. -/
def scanOps (im : Image) (fallback : Bool) (inner : Source) (geom : SparseFormat) : List Op :=
  (List.range geom.grainDir.length).flatMap (im.scanTableOps fallback inner geom)

end Image

/-! ## Why they are safe -/

/-- What opening leaves of an image of 4-byte entries. -/
structure Image.Geometric (im : Image) (geom : SparseFormat) : Prop where
  bounded : geom.toGrainGeometry.Bounded
  payload : geom.compressed = true → geom.grainSizeBytes ≤ 32 * 1024 * 1024
  size_lt : im.virtualDiskSize < 2 ^ 63
  covered : ∀ o < im.virtualDiskSize,
    o / geom.grainSizeBytes / geom.numGtesPerGt < geom.grainDir.length

theorem GrainGeometry.Bounded.tables {geom : GrainGeometry} (h : geom.Bounded) :
    geom.grainDir.length < 2 ^ 57 := by
  have hle := Nat.le_mul_of_pos_right geom.grainDir.length
    (Nat.mul_pos geom.numGtesPerGt_pos geom.grainSizeBytes_pos)
  rw [← Nat.mul_assoc] at hle
  exact Nat.lt_of_le_of_lt hle h.span

section Entries
variable {im : Image} {inner : Source} {geom : SparseFormat} {fallback : Bool}
  {gdIdx gteIdx n v : Nat}

/-- A number of 4 bytes read from a file. -/
theorem read_four_lt {off : Nat} {bs : List UInt8} (h : inner.readExactAt off 4 = .ok bs) :
    leNat bs < 2 ^ 32 := by
  have hlt := leNat_lt bs
  rwa [(Source.readExactAt_ok h).2.1] at hlt

theorem rgdDirEntry_lt {fileLen : Nat} (h : im.rgdDirEntry inner gdIdx fileLen = .ok v) :
    v < 2 ^ 32 := by
  unfold Image.rgdDirEntry at h
  simp only at h
  split at h
  · cases h
    exact Nat.two_pow_pos 32
  split at h
  · cases h
    exact Nat.two_pow_pos 32
  split at h
  · cases h
    exact Nat.two_pow_pos 32
  cases hread : inner.readExactAt (satAdd (satMul im.rgdOffset sectorSize) (gdIdx * 4)) 4 with
  | error e =>
    rw [hread] at h
    cases h
  | ok bs =>
    rw [hread] at h
    cases h
    exact read_four_lt hread

theorem gtSectorFor_lt (h : im.gtSectorFor fallback inner geom gdIdx = .ok v) : v < 2 ^ 32 := by
  unfold Image.gtSectorFor at h
  split at h
  · unfold Image.resilientGtSector at h
    obtain ⟨fileLen, -, h⟩ := bind_eq_ok.mp h
    split at h
    · cases h
      exact geom.table_lt gdIdx
    obtain ⟨rgd, hrgd, h⟩ := bind_eq_ok.mp h
    split at h
    · cases h
      exact rgdDirEntry_lt hrgd
    · cases h
      exact geom.table_lt gdIdx
  · cases h
    exact geom.table_lt gdIdx

theorem rgdGte_lt (h : im.rgdGte inner gdIdx gteIdx n = .ok v) : v < 2 ^ 32 := by
  unfold Image.rgdGte at h
  obtain ⟨fileLen, -, h⟩ := bind_eq_ok.mp h
  obtain ⟨sector, -, h⟩ := bind_eq_ok.mp h
  split at h
  · cases h
    exact Nat.two_pow_pos 32
  simp only at h
  split at h
  · cases h
    exact Nat.two_pow_pos 32
  split at h
  · cases h
    exact Nat.two_pow_pos 32
  obtain ⟨bs, hread, h⟩ := bind_eq_ok.mp h
  cases h
  exact read_four_lt hread

theorem recoverEntry_lt {gte : Nat} {fromRgd flag : Bool} (hgte : gte < 2 ^ 32)
    (h : im.recoverEntry fallback inner geom gdIdx gteIdx gte fromRgd = .ok (v, flag)) :
    v < 2 ^ 32 := by
  unfold Image.recoverEntry at h
  split at h
  · obtain ⟨rgdGte, hread, h⟩ := bind_eq_ok.mp h
    split at h
    · cases h
      exact rgdGte_lt hread
    · cases h
      exact hgte
  · cases h
    exact hgte

theorem redundantGtFor_length {rgt : List UInt8}
    (h : im.redundantGtFor fallback inner gdIdx n = .ok (some rgt)) : rgt.length = n * 4 := by
  unfold Image.redundantGtFor at h
  split at h
  · unfold Image.readRedundantGt at h
    obtain ⟨fileLen, -, h⟩ := bind_eq_ok.mp h
    obtain ⟨sector, -, h⟩ := bind_eq_ok.mp h
    split at h
    · cases h
    simp only at h
    split at h
    · cases h
    obtain ⟨bs, hread, h⟩ := bind_eq_ok.mp h
    cases h
    exact (Source.readExactAt_ok hread).2.1
  · cases h

theorem readGt_lt {gtSector : Nat} {gt : List Nat} (h : readGt inner n gtSector = .ok gt) :
    gt.length = n ∧ gt.getD gteIdx 0 < 2 ^ 32 := by
  unfold readGt at h
  cases hread : inner.readExactAt (gtSector * sectorSize) (n * 4) with
  | error e =>
    rw [hread] at h
    cases h
  | ok bs =>
    rw [hread] at h
    cases h
    refine ⟨directory_length (by decide) hread, ?_⟩
    rw [List.getD_eq_getElem?_getD]
    cases hget : (leTable 4 bs)[gteIdx]? with
    | none => exact Nat.two_pow_pos 32
    | some gte => exact leTable_lt (List.mem_of_getElem? hget)

end Entries

/-! ### Safety of each list -/

section Safe
variable {im : Image} {inner : Source} {geom : SparseFormat} {fallback : Bool}
  {gdIdx gteIdx : Nat}

theorem rgdDirEntryOps_safe (hidx : gdIdx < 2 ^ 57) : Safe (im.rgdDirEntryOps gdIdx) := by
  unfold Image.rgdDirEntryOps
  refine safe_ite (fun _ => safe_nil) fun _ => safe_ite (fun _ => safe_nil) fun _ => ?_
  simp only [safe_cons, safe_nil, Op.Safe, and_true]
  unfold u64Size
  omega

theorem resilientGtSectorOps_safe (hb : geom.toGrainGeometry.Bounded) (hidx : gdIdx < 2 ^ 57) :
    Safe (im.resilientGtSectorOps gdIdx geom.numGtesPerGt) := by
  have hn := hb.entries
  refine safe_cons.mpr ⟨?_, rgdDirEntryOps_safe hidx⟩
  simp only [Op.Safe]
  unfold u64Size
  omega

theorem readRedundantGtOps_safe (hb : geom.toGrainGeometry.Bounded) (hidx : gdIdx < 2 ^ 57) :
    Safe (im.readRedundantGtOps inner gdIdx geom.numGtesPerGt) := by
  have hn := hb.entries
  unfold Image.readRedundantGtOps
  refine safe_append.mpr ⟨rgdDirEntryOps_safe hidx, ?_⟩
  cases hrgd : im.rgdDirEntry inner gdIdx inner.len with
  | error e => exact safe_nil
  | ok sector =>
    have hsector := rgdDirEntry_lt hrgd
    refine safe_ite (fun _ => safe_nil) fun _ => safe_append.mpr ⟨?_, safe_ite (fun _ => safe_nil)
      fun _ => ?_⟩
    · simp only [safe_cons, safe_nil, Op.Safe, and_true]
      unfold sectorSize u64Size
      omega
    · simp only [safe_cons, safe_nil, Op.Safe, and_true]
      unfold maxTableBytes
      omega

theorem rgdGteOps_safe (hb : geom.toGrainGeometry.Bounded) (hidx : gdIdx < 2 ^ 57)
    (hgte : gteIdx < geom.numGtesPerGt) :
    Safe (im.rgdGteOps inner gdIdx gteIdx geom.numGtesPerGt) := by
  have hn := hb.entries
  unfold Image.rgdGteOps
  refine safe_append.mpr ⟨rgdDirEntryOps_safe hidx, ?_⟩
  cases hrgd : im.rgdDirEntry inner gdIdx inner.len with
  | error e => exact safe_nil
  | ok sector =>
    have hsector := rgdDirEntry_lt hrgd
    refine safe_ite (fun _ => safe_nil) fun _ => safe_append.mpr ⟨?_, safe_ite (fun _ => safe_nil)
      fun _ => ?_⟩
    · simp only [safe_cons, safe_nil, Op.Safe, and_true]
      unfold sectorSize u64Size
      omega
    · simp only [safe_cons, safe_nil, Op.Safe, and_true]
      unfold sectorSize u64Size
      omega

theorem grainOps_safe {gte offsetInGrain : Nat} (hb : geom.toGrainGeometry.Bounded)
    (hgte : gte < 2 ^ 32) (hoff : offsetInGrain < geom.grainSizeBytes) :
    Safe (Image.grainOps geom gte offsetInGrain) := by
  have hgrain := hb.grain
  unfold Image.grainOps
  refine safe_ite (fun _ => ?_) fun _ => ?_
  · simp only [safe_cons, safe_nil, Op.Safe, and_true]
    unfold sectorSize u64Size
    omega
  · simp only [safe_cons, safe_nil, Op.Safe, and_true]
    unfold sectorSize u64Size
    omega

/-- A lookup of an offset of the disk. -/
theorem locateSparseOps_safe (hg : im.Geometric geom) {o : Nat} (ho : o < im.virtualDiskSize) :
    Safe (im.locateSparseOps fallback inner geom o) := by
  have hn := hg.bounded.entries
  have hcovered := hg.covered o ho
  have hidx := Nat.lt_trans hcovered hg.bounded.tables
  have hgteIdx := Nat.mod_lt (o / geom.grainSizeBytes) geom.numGtesPerGt_pos
  have hoff := Nat.mod_lt o geom.grainSizeBytes_pos
  unfold Image.locateSparseOps
  refine safe_append.mpr ⟨safe_append.mpr ⟨?_, safe_ite
    (fun _ => resilientGtSectorOps_safe hg.bounded hidx) fun _ => safe_nil⟩, ?_⟩
  · simp only [safe_cons, safe_nil, Op.Safe, and_true]
    exact ⟨geom.grainSizeBytes_pos, geom.numGtesPerGt_pos, hcovered⟩
  cases hsector : im.gtSectorFor fallback inner geom (o / geom.grainSizeBytes / geom.numGtesPerGt) with
  | error e => exact safe_nil
  | ok gtSector =>
    have hlt := gtSectorFor_lt hsector
    refine safe_ite (fun _ => safe_nil) fun _ => safe_append.mpr ⟨?_, ?_⟩
    · simp only [safe_cons, safe_nil, Op.Safe, and_true]
      unfold sectorSize u64Size maxTableBytes
      omega
    cases hgt : readGt inner geom.numGtesPerGt gtSector with
    | error e => exact safe_nil
    | ok gt =>
      obtain ⟨hlen, hgte⟩ := @readGt_lt inner (o / geom.grainSizeBytes % geom.numGtesPerGt) _ _ _ hgt
      refine safe_cons.mpr ⟨by rw [hlen]; exact hgteIdx, safe_append.mpr ⟨safe_ite
        (fun _ => rgdGteOps_safe hg.bounded hidx hgteIdx) fun _ => safe_nil, ?_⟩⟩
      split
      · exact safe_nil
      · next gte flag hentry =>
        refine safe_ite (fun _ => safe_nil) fun _ => grainOps_safe hg.bounded ?_ hoff
        exact recoverEntry_lt hgte hentry

/-- What is found is the place of some entry. -/
theorem locateSparse_ofGte {o : Nat} {loc : GrainLookup}
    (h : (im.locateSparse fallback inner geom o).1 = .ok loc) :
    ∃ gte, GrainLookup.ofGte inner geom gte (o % geom.grainSizeBytes) = .ok loc := by
  have hfound {entry : Option Nat}
      (heq : (im.locateSparse fallback inner geom o).1.toOption = entry.bind fun gte =>
        (GrainLookup.ofGte inner geom gte (o % geom.grainSizeBytes)).toOption) :
      ∃ gte, GrainLookup.ofGte inner geom gte (o % geom.grainSizeBytes) = .ok loc := by
    rw [toOption_eq_some.mpr h] at heq
    obtain ⟨gte, -, hgte⟩ := Option.bind_eq_some_iff.mp heq.symm
    exact ⟨gte, toOption_eq_some.mp hgte⟩
  cases fallback with
  | false => exact hfound (Image.locateSparse_plain o)
  | true => exact hfound (Image.locateSparse_recovering o)

/-- A payload is at most a grain and 64 KiB long. -/
theorem ofGte_compressed {gte off dataOffset dataSize offsetInGrain : Nat}
    (h : GrainLookup.ofGte inner geom gte off = .ok (.compressed dataOffset dataSize offsetInGrain)) :
    geom.compressed = true ∧ dataSize ≤ satAdd geom.grainSizeBytes 65536 ∧ offsetInGrain = off := by
  unfold GrainLookup.ofGte GrainLookup.ofEntry at h
  split at h
  · cases h
  split at h
  · next hcomp =>
    simp only [bind_eq_ok] at h
    obtain ⟨markerHdr, -, hsize, -, h⟩ := h
    cases h
    exact ⟨hcomp, hsize.down, rfl⟩
  · cases h

theorem readCompressedGrainOps_safe [ZlibDecoder] {dataOffset dataSize offsetInGrain toRead : Nat}
    (hsize : dataSize ≤ maxPayloadBytes) (hgrain : geom.grainSizeBytes < 2 ^ 41)
    (hstop : offsetInGrain + toRead ≤ geom.grainSizeBytes) :
    Safe (Image.readCompressedGrainOps inner geom.grainSizeBytes toRead dataOffset dataSize
      offsetInGrain) := by
  unfold Image.readCompressedGrainOps
  refine safe_append.mpr ⟨?_, ?_⟩
  · simp only [safe_cons, safe_nil, Op.Safe, and_true]
    unfold u64Size
    omega
  split
  · exact safe_nil
  · refine safe_ite (fun hn => ?_) fun _ => safe_nil
    simp only [safe_cons, safe_nil, Op.Safe, and_true]
    omega

theorem readOps_safe [ZlibDecoder] (hg : im.Geometric geom) {pos len : Nat} :
    Safe (im.readOps fallback inner geom pos len) := by
  have hgrain := hg.bounded.grain
  have hlt := hg.size_lt
  have hoff := Nat.mod_lt pos geom.grainSizeBytes_pos
  unfold Image.readOps
  refine safe_ite (fun _ => safe_nil) fun hend => ?_
  obtain ⟨hpos, hlen⟩ := not_or.mp hend
  refine safe_append.mpr ⟨safe_append.mpr ⟨safe_append.mpr ⟨?_,
    locateSparseOps_safe hg (Nat.not_le.mp hpos)⟩, ?_⟩, ?_⟩
  · simp only [safe_cons, safe_nil, Op.Safe, and_true]
    have := geom.grainSizeBytes_pos
    omega
  · split
    · next dataOffset dataSize offsetInGrain hloc =>
      obtain ⟨gte, hgte⟩ := locateSparse_ofGte hloc
      obtain ⟨hcomp, hsize, rfl⟩ := ofGte_compressed hgte
      have hpayload := hg.payload hcomp
      refine readCompressedGrainOps_safe ?_ hgrain (by omega)
      unfold satAdd at hsize
      unfold maxPayloadBytes
      omega
    · exact safe_nil
  · split
    · exact safe_nil
    · next bs hread =>
      obtain ⟨loc, -, hfetch⟩ := bind_eq_ok.mp hread
      have hbs := (GrainLookup.fetch_ok hfetch).1
      simp only [safe_cons, safe_nil, Op.Safe, and_true]
      unfold u64Size
      omega

theorem isAllocatedOps_safe (hg : im.Geometric geom) {lba : Nat} :
    Safe (im.isAllocatedOps geom lba) := by
  have hn := hg.bounded.entries
  have hlt := hg.size_lt
  unfold Image.isAllocatedOps
  refine safe_ite (fun _ => safe_nil) fun hlba => ?_
  have ho : lba * sectorSize < im.virtualDiskSize := by
    unfold sectorSize at *
    omega
  have hsector := geom.table_lt (lba * sectorSize / geom.grainSizeBytes / geom.numGtesPerGt)
  have hidx := Nat.mod_lt (lba * sectorSize / geom.grainSizeBytes) geom.numGtesPerGt_pos
  refine safe_append.mpr ⟨?_, safe_ite (fun _ => safe_nil) fun _ => ?_⟩
  · simp only [safe_cons, safe_nil, Op.Safe, and_true]
    refine ⟨?_, geom.grainSizeBytes_pos, geom.numGtesPerGt_pos, hg.covered _ ho⟩
    unfold u64Size
    omega
  · simp only [safe_cons, safe_nil, Op.Safe, and_true]
    unfold sectorSize u64Size at *
    omega

theorem scanEntryOps_safe (hb : geom.toGrainGeometry.Bounded) {gtBytes : List UInt8}
    {redundantGt : Option (List UInt8)} (hlen : gtBytes.length = geom.numGtesPerGt * 4)
    (hred : ∀ rgt, redundantGt = some rgt → rgt.length = geom.numGtesPerGt * 4)
    (hidx : gdIdx < geom.grainDir.length) (hgte : gteIdx < geom.numGtesPerGt) :
    Safe (Image.scanEntryOps geom gdIdx gtBytes redundantGt gteIdx) := by
  have hn := hb.entries
  have hspan := hb.span
  unfold Image.scanEntryOps
  refine safe_append.mpr ⟨safe_append.mpr ⟨?_, ?_⟩, safe_ite (fun _ => safe_nil) fun _ => ?_⟩
  · simp only [safe_cons, safe_nil, Op.Safe, and_true]
    unfold u64Size
    omega
  · cases redundantGt with
    | none => exact safe_nil
    | some rgt =>
      have hrlen := hred rgt rfl
      refine safe_ite (fun _ => ?_) fun _ => safe_nil
      simp only [safe_cons, safe_nil, Op.Safe, and_true]
      omega
  · -- the grain is one of those that the whole directory can count
    have hrow : gdIdx * geom.numGtesPerGt + gteIdx < geom.grainDir.length * geom.numGtesPerGt :=
      calc gdIdx * geom.numGtesPerGt + gteIdx
          < (gdIdx + 1) * geom.numGtesPerGt := by rw [Nat.succ_mul]; omega
        _ ≤ geom.grainDir.length * geom.numGtesPerGt := Nat.mul_le_mul_right _ hidx
    have hcount : geom.grainDir.length * geom.numGtesPerGt < 2 ^ 57 :=
      Nat.lt_of_le_of_lt (Nat.le_mul_of_pos_right _ geom.grainSizeBytes_pos) hspan
    have hlba : (gdIdx * geom.numGtesPerGt + gteIdx) * (geom.grainSizeBytes / sectorSize) < 2 ^ 57 :=
      Nat.lt_of_le_of_lt (Nat.mul_le_mul (Nat.le_of_lt hrow) (Nat.div_le_self _ _)) hspan
    simp only [safe_cons, safe_nil, Op.Safe, and_true]
    unfold u64Size
    omega

theorem scanTableOps_safe (hb : geom.toGrainGeometry.Bounded) (hidx : gdIdx < geom.grainDir.length) :
    Safe (im.scanTableOps fallback inner geom gdIdx) := by
  have hn := hb.entries
  have hlt := Nat.lt_trans hidx hb.tables
  unfold Image.scanTableOps
  refine safe_append.mpr ⟨safe_ite (fun _ => resilientGtSectorOps_safe hb hlt) fun _ => safe_nil, ?_⟩
  cases hsector : im.gtSectorFor fallback inner geom gdIdx with
  | error e => exact safe_nil
  | ok gtSector =>
    have hsec := gtSectorFor_lt hsector
    refine safe_append.mpr ⟨safe_ite (fun _ => readRedundantGtOps_safe hb hlt) fun _ => safe_nil, ?_⟩
    cases hred : im.redundantGtFor fallback inner gdIdx geom.numGtesPerGt with
    | error e => exact safe_nil
    | ok redundantGt =>
      refine safe_ite (fun _ => safe_nil) fun _ => safe_append.mpr ⟨?_, ?_⟩
      · simp only [safe_cons, safe_nil, Op.Safe, and_true]
        unfold sectorSize u64Size maxTableBytes
        omega
      cases hread : inner.readExactAt (gtSector * sectorSize) (geom.numGtesPerGt * 4) with
      | error e => exact safe_nil
      | ok gtBytes =>
        refine safe_flatMap fun gteIdx hgte => scanEntryOps_safe hb
          (Source.readExactAt_ok hread).2.1 (fun rgt hrgt => ?_) hidx (List.mem_range.mp hgte)
        exact redundantGtFor_length (hrgt ▸ hred)

theorem scanOps_safe (hb : geom.toGrainGeometry.Bounded) :
    Safe (im.scanOps fallback inner geom) :=
  safe_flatMap fun _ hidx => scanTableOps_safe hb (List.mem_range.mp hidx)

end Safe

/-! ## The calls of a reader -/

namespace VmdkReader

/-- What one call goes through, the recovery counter apart. -/
def callOps [ZlibDecoder] (self : VmdkReader) (q : Disk.Request Query) : List Op :=
  match self.fmt with
  | .sparse inner geom =>
    match q with
    | .seek _ => []
    | .read len => self.readOps self.rgdFallback inner geom self.pos len
    | .query (.isAllocated lba) => self.isAllocatedOps geom lba
    | .query .iterAllocatedGrains => self.scanOps self.rgdFallback inner geom
  | _ => []

/-- The increments of the recovery counter in one call. -/
def counterOps [ZlibDecoder] (self : VmdkReader) (q : Disk.Request Query) : List Op :=
  (List.range ((self.step q).2.rgdRecoveryCount - self.rgdRecoveryCount)).map fun i =>
    .result (self.rgdRecoveryCount + i + 1)

/-- `open` of a VMDK4 file whose header is `hdr`; its other sums and products are checked. -/
def openVmdk4Ops (hdrBytes : List UInt8) (hdr : SparseExtentHeader) : List Op :=
  [.window 79 hdrBytes.length, .difference hdr.grainSize 1, .divisor hdr.grainSize,
    .difference hdr.numGtesPerGt 1, .divisor hdr.numGtesPerGt, .buffer (numGts hdr * 4) maxGdBytes]

/-- `open_cowd`. -/
def openCowdOps (hdrBytes : List UInt8) (hdr : CowdHeader) : List Op :=
  [.window 20 hdrBytes.length, .divisor hdr.grainSize,
    .result (divCeil (divCeil hdr.capacity hdr.grainSize) Cowd.gtesPerGt * 4),
    .result (Cowd.gdSector * sectorSize)]

/-- `open`, up to a header that is not accepted. -/
def openOps (file : Source) : List Op :=
  match file.readExactAt 0 512 with
  | .error _ => []
  | .ok hdrBytes =>
    .window 8 hdrBytes.length ::
      if beNat (slice hdrBytes 0 4) = Cowd.magic then
        match CowdHeader.parse hdrBytes with
        | .error _ => []
        | .ok hdr => openCowdOps hdrBytes hdr
      else
        match SparseExtentHeader.parse hdrBytes with
        | .error _ => []
        | .ok hdr => openVmdk4Ops hdrBytes hdr

section Opened
variable {file inner : Source} {r : VmdkReader} {geom : SparseFormat}

theorem open_geometric (hopen : VmdkReader.open file = .ok r) (hfmt : r.fmt = .sparse inner geom) :
    r.toImage.Geometric geom := by
  have hcovered := open_covered hopen
  unfold Image.Covered at hcovered
  rw [hfmt] at hcovered
  obtain ⟨hdrBytes, hread, ⟨-, h⟩ | ⟨-, ⟨-, h⟩ | ⟨-, h⟩⟩⟩ := open_cases hopen
  · obtain ⟨im, -, rfl, -, -, -, hlt, -⟩ := openCowdExtent_ok hread h
    unfold openCowdExtent at h
    obtain ⟨geom', hgeom, h⟩ := bind_eq_ok.mp h
    obtain ⟨hdr, -, h⟩ := bind_eq_ok.mp h
    obtain ⟨_, -, h⟩ := bind_eq_ok.mp h
    cases h
    cases hfmt
    exact ⟨openCowd_bounded hgeom, (fun h => by cases h), hlt, hcovered.2⟩
  · obtain ⟨im, geom', rfl, hfmt', -⟩ := openSesparseExtent_ok hread h
    rw [show im.reader.fmt = im.fmt from rfl, hfmt'] at hfmt
    cases hfmt
  · obtain ⟨hdr, desc, gdOffset, gdBytes, -, hp, rfl⟩ := openVmdk4_eq_ok.mp h
    cases hfmt
    refine ⟨vmdk4_bounded hp.gdLen_le (Source.readExactAt_ok hp.gdRead).2.1, fun _ => ?_,
      Nat.lt_trans (capacity_le_of_tables hp.gdLen_le) (by decide), hcovered.2⟩
    exact Nat.le_trans (Nat.mul_le_mul_right sectorSize hdr.grainSize_le) (by decide)

theorem openOps_safe (hopen : VmdkReader.open file = .ok r) (hfmt : r.fmt = .sparse inner geom) :
    Safe (openOps file) := by
  obtain ⟨hdrBytes, hread, hcase⟩ := open_cases hopen
  have hlen := (Source.readExactAt_ok hread).2.1
  have hmagic : beNat (slice hdrBytes 0 4) = beNat (slice file.bytes 0 4) := by
    rw [(Source.readExactAt_ok hread).1, slice_slice _ _ _ _ _ (by decide)]
  unfold openOps
  rw [hread]
  simp only [hmagic]
  refine safe_cons.mpr ⟨by simp only [Op.Safe]; omega, ?_⟩
  rcases hcase with ⟨hcowd, -⟩ | ⟨hcowd, ⟨-, h⟩ | ⟨-, h⟩⟩
  · rw [if_pos hcowd]
    cases CowdHeader.parse hdrBytes with
    | error e => exact safe_nil
    | ok hdr =>
      have hcap := hdr.capacity_lt
      have hgrains := @divCeil_mul_lt hdr.capacity hdr.grainSize hdr.grainSize_pos
      have hcount := @divCeil_mul_lt (divCeil hdr.capacity hdr.grainSize) Cowd.gtesPerGt (by decide)
      have hdiv := Nat.le_mul_of_pos_right (divCeil hdr.capacity hdr.grainSize) hdr.grainSize_pos
      have hgs := hdr.grainSize_lt
      simp only [openCowdOps, safe_cons, safe_nil, Op.Safe, and_true]
      refine ⟨by omega, hdr.grainSize_pos, ?_, by decide⟩
      unfold Cowd.gtesPerGt at *
      unfold u64Size
      omega
  · obtain ⟨im, geom', rfl, hfmt', -⟩ := openSesparseExtent_ok hread h
    rw [show im.reader.fmt = im.fmt from rfl, hfmt'] at hfmt
    cases hfmt
  · rw [if_neg hcowd]
    obtain ⟨hdr, desc, gdOffset, gdBytes, hparse, hp, rfl⟩ := openVmdk4_eq_ok.mp h
    have hgs := hdr.grainSize_ge
    have hn := hdr.numGtesPerGt_pos
    rw [hparse]
    simp only [openVmdk4Ops, safe_cons, safe_nil, Op.Safe, and_true]
    exact ⟨by omega, by omega, by omega, hn, hn, hp.gdLen_le⟩

variable [ZlibDecoder] {s : VmdkReader}

theorem callOps_safe (hg : s.toImage.Geometric geom) (hfmt : s.fmt = .sparse inner geom)
    (q : Disk.Request Query) : Safe (s.callOps q) := by
  unfold callOps
  rw [hfmt]
  cases q with
  | seek f => exact safe_nil
  | read len => exact readOps_safe hg
  | query q =>
    cases q with
    | isAllocated lba => exact isAllocatedOps_safe hg
    | iterAllocatedGrains => exact scanOps_safe hg.bounded

theorem counterOps_safe {q : Disk.Request Query} (h : (s.step q).2.rgdRecoveryCount < u64Size) :
    Safe (s.counterOps q) := by
  intro op hop
  obtain ⟨i, hi, rfl⟩ := List.mem_map.mp hop
  have hlt := List.mem_range.mp hi
  show s.rgdRecoveryCount + i + 1 < u64Size
  omega

/-- **VMDK4 and COWD geometry is sound.** -/
theorem geometry_sound (hopen : VmdkReader.open file = .ok r) (hfmt : r.fmt = .sparse inner geom) :
    Safe (openOps file) ∧
      (∀ o < r.virtualDiskSize, o / geom.grainSizeBytes / geom.numGtesPerGt < geom.grainDir.length) ∧
      ∀ s, Reachable file s → ∀ q, Safe (s.callOps q) ∧
        ((s.step q).2.rgdRecoveryCount < u64Size → Safe (s.counterOps q)) := by
  have hg := open_geometric hopen hfmt
  refine ⟨openOps_safe hopen hfmt, hg.covered, fun s hs q => ⟨?_, counterOps_safe⟩⟩
  obtain ⟨⟨r₀, hr₀, himage⟩, -⟩ := hs.inv
  rw [hopen] at hr₀
  cases hr₀
  exact callOps_safe (himage ▸ hg) (himage ▸ hfmt) q

end Opened

end VmdkReader

theorem VmdkReader.geometry_sound_mirroredDisk :
    letI := Stored.decoder
    ∃ r geom, VmdkReader.open (mirroredDisk 11 3) = .ok r ∧
      r.fmt = .sparse (mirroredDisk 11 3) geom ∧ Safe (openOps (mirroredDisk 11 3)) ∧
      (∀ o < r.virtualDiskSize,
        o / geom.grainSizeBytes / geom.numGtesPerGt < geom.grainDir.length) ∧
      ∀ s, Reachable (mirroredDisk 11 3) s → ∀ q, Safe (s.callOps q) ∧
        ((s.step q).2.rgdRecoveryCount < u64Size → Safe (s.counterOps q)) := by
  let _ := Stored.decoder
  obtain ⟨r, hr⟩ := exists_of_isOk (x := VmdkReader.open (mirroredDisk 11 3)) (by decide +kernel)
  have hlayout : layoutOf (mirroredDisk 11 3).bytes =
      .tables (vmdk4Layout (mirroredDisk 11 3).bytes) := by
    rw [layoutOf, if_neg (by decide +kernel), if_neg (by decide +kernel)]
  obtain ⟨geom, hfmt⟩ : ∃ geom, r.fmt = .sparse (mirroredDisk 11 3) geom := by
    obtain ⟨im, rfl, hload⟩ := open_loads hr
    have hindex := hload.index
    rw [hlayout] at hindex
    obtain ⟨geom, hfmt, -⟩ := hindex
    exact ⟨geom, hfmt⟩
  exact ⟨r, geom, hr, hfmt, VmdkReader.geometry_sound hr hfmt⟩

/-- Each scan of a disk with a lost directory entry counts one recovered grain. -/
theorem VmdkReader.scan_counts_mirroredDisk :
    letI := Stored.decoder
    ∀ n, ∃ s, Reachable (mirroredDisk 0 3) s ∧ s.rgdFallback = true ∧ s.rgdRecoveryCount = n ∧
      (s.step (.query .iterAllocatedGrains)).2.rgdRecoveryCount = n + 1 := by
  let _ := Stored.decoder
  have hscan : (VmdkReader.open (mirroredDisk 0 3)).map (fun r => (r.rgdRecoveryCount,
      (r.toImage.allocatedGrains true).2)) = .ok (0, 1) := by
    decide +kernel
  obtain ⟨r, hr, hscan⟩ := exists_of_map_eq hscan
  obtain ⟨hzero, hone⟩ := Prod.mk.inj hscan
  have hstep : ∀ s : VmdkReader, s.toImage = r.toImage → s.rgdFallback = true →
      (s.step (.query .iterAllocatedGrains)).2.rgdRecoveryCount = s.rgdRecoveryCount + 1 := by
    intro s him hfallback
    show s.rgdRecoveryCount + (s.toImage.allocatedGrains s.rgdFallback).2 = _
    rw [him, hfallback, hone]
  have hreach : ∀ n, ∃ s, Reachable (mirroredDisk 0 3) s ∧ s.toImage = r.toImage ∧
      s.rgdFallback = true ∧ s.rgdRecoveryCount = n := by
    intro n
    induction n with
    | zero => exact ⟨r.enableRgdFallback, .enableRgdFallback (.opened hr), rfl, rfl, hzero⟩
    | succ n ih =>
      obtain ⟨s, hs, him, hfallback, rfl⟩ := ih
      exact ⟨(s.step (.query .iterAllocatedGrains)).2, .step hs _, him, hfallback,
        hstep s him hfallback⟩
  intro n
  obtain ⟨s, hs, him, hfallback, rfl⟩ := hreach n
  exact ⟨s, hs, hfallback, rfl, hstep s him hfallback⟩

/-- **The recovery counter overflows**, after `2 ^ 64 - 1` scans that recovered a grain. -/
theorem VmdkReader.counter_overflows_mirroredDisk :
    letI := Stored.decoder
    ∃ s, Reachable (mirroredDisk 0 3) s ∧ s.rgdRecoveryCount = u64Max ∧
      .result u64Size ∈ s.counterOps (.query .iterAllocatedGrains) ∧
      ¬ Safe (s.counterOps (.query .iterAllocatedGrains)) := by
  let _ := Stored.decoder
  obtain ⟨s, hs, -, hcount, hnext⟩ := VmdkReader.scan_counts_mirroredDisk u64Max
  have hmem : Op.result u64Size ∈ s.counterOps (.query .iterAllocatedGrains) := by
    unfold VmdkReader.counterOps
    rw [hnext, hcount, Nat.add_sub_cancel_left]
    exact List.mem_singleton_self _
  exact ⟨s, hs, hcount, hmem, fun hsafe => Nat.lt_irrefl _ (hsafe _ hmem)⟩
