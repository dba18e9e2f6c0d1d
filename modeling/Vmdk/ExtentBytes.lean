import Vmdk.FlatSound
import Vmdk.SparseMultiSound

/-! # The bytes of an extent

What a read in the middle of a disk of several extents starts with: in a flat
extent the byte of its file at the place that the line says
(`MultiExtentReader.readHere_placed`), in a sparse one the byte that the tables
of its file lead to, as it is stored (`MultiSparseReader.readHere_stored`). Where
there is no such byte the read delivers none. -/

open Bytes Word

/-- A read starts with the byte at its place, if the file has one there. -/
theorem Source.readAt_first {file : Source} {off n : Nat} (hn : 0 < n) {b : UInt8} :
    (∃ bs, file.readAt off n = .ok (b :: bs)) ↔ file.bytes[off]? = some b := by
  constructor
  · rintro ⟨bs, h⟩
    have hbyte := Source.readAt_getElem? (i := 0) h (by simp)
    exact hbyte.symm
  · intro hbyte
    obtain ⟨c, cs, h⟩ := file.readAt_progress (List.getElem?_eq_some_iff.mp hbyte).1 hn
    have hc : some c = file.bytes[off]? := Source.readAt_getElem? (i := 0) h (by simp)
    rw [hbyte] at hc
    cases hc
    exact ⟨cs, h⟩

theorem replicate_first {n : Nat} (hn : 0 < n) {b : UInt8} :
    (∃ bs, (Except.ok (List.replicate n 0) : Except IoError (List UInt8)) = .ok (b :: bs)) ↔
      some 0 = some b := by
  obtain ⟨k, rfl⟩ : ∃ k, n = k + 1 := Nat.exists_eq_succ_of_ne_zero (Nat.pos_iff_ne_zero.mp hn)
  simp [List.replicate_succ]

/-! ## Flat extents -/

namespace MultiExtentReader

/-- Byte `k` of an extent that starts at `offset` in its file, as a `u64`; zero without a file. -/
def placedByte (file : Option Source) (offset k : Nat) : Option UInt8 :=
  match file with
  | some file => file.bytes[wrapAdd offset k]?
  | none => some 0

/-- **A read of a flat extent** starts with the byte at its place. -/
theorem readHere_placed {m : MultiExtentReader} {flat : FlatExtent} {o len : Nat} {b : UInt8}
    (hfind : m.extentFor o = some flat) (ho : o < m.totalBytes) (hlen : 0 < len) :
    (∃ bs, m.readHere o len = .ok (b :: bs)) ↔
      placedByte flat.file flat.fileOffset (o - flat.byteStart) = some b := by
  obtain ⟨-, -, hhi⟩ := Intervals.covering_mem hfind
  have hn : 0 < min (min len (flat.byteEnd - o)) (m.totalBytes - o) := by omega
  unfold readHere placedByte
  rw [if_neg (by omega), hfind]
  simp only
  cases flat.file with
  | some file => exact Source.readAt_first hn
  | none => exact replicate_first hn

end MultiExtentReader

/-! ## Sparse extents -/

namespace TableLayout

/-- Byte `k` of the extent as its grains are stored: the content that it has without compression, and
zero where the directory has no table. -/
def storedByte [ZlibDecoder] (L : TableLayout) (bytes : List UInt8) (k : Nat) : Option UInt8 :=
  if L.tables ≤ k / L.grainBytes / L.numGtesPerGt then some 0
  else { L with compressed := false }.content bytes k

end TableLayout

namespace MultiSparseReader
variable {file : Source} {chunk : SparseChunk} {L : TableLayout} {sizeSectors byteOffset : Nat}

/-- The chunk has loaded the index that the layout `L` describes. -/
structure IndexedBy (chunk : SparseChunk) (L : TableLayout) : Prop where
  grainSizeBytes : chunk.grainSizeBytes = L.grainBytes
  numGtesPerGt : chunk.numGtesPerGt = L.numGtesPerGt
  directory : ∀ i, chunk.grainDir.getD i 0 =
    if i < L.tables then L.dirEntry chunk.file.bytes i else 0

/-- Entries of a directory that was read whole are those in the file; there are no others. -/
theorem getD_directory {off tables : Nat} {buf : List UInt8}
    (h : file.readExactAt off (tables * 4) = .ok buf) (i : Nat) :
    (leTable 4 buf).getD i 0 = if i < tables then numAt 4 file.bytes (off + i * 4) else 0 := by
  split
  · next hi =>
    rw [(Source.readExactAt_ok h).1,
      getD_leTable_slice (by decide) (Source.readExactAt_ok_le (by omega) h) hi]
    rfl
  · next hi =>
    have hlen : (leTable 4 buf).length = tables := by
      rw [length_leTable, (Source.readExactAt_ok h).2.1, Nat.mul_div_cancel _ (by decide)]
    rw [List.getD_eq_getElem?_getD, List.getElem?_eq_none (by omega)]
    rfl

theorem cowdChunk_indexed {hdrBytes : List UInt8} (hread : file.readExactAt 0 512 = .ok hdrBytes)
    (h : cowdChunk file hdrBytes byteOffset = .ok chunk) :
    IndexedBy chunk (cowdLayout file.bytes) := by
  unfold cowdChunk openCowd at h
  simp only [bind_eq_ok, fromIo_eq_ok, asInvalidData_eq_ok, hread, Except.ok.injEq] at h
  obtain ⟨geom, ⟨_, rfl, hdr, hparse, -, -, buf, hgd, hgeom⟩, hdr', -, h⟩ := h
  cases hgeom
  cases h
  obtain ⟨hcap, hgs⟩ := CowdHeader.parse_ok hparse
  rw [header_field hread (by decide)] at hcap hgs
  refine ⟨congrArg (· * sectorSize) hgs, rfl, fun i => ?_⟩
  have htables : (cowdLayout file.bytes).tables =
      divCeil (divCeil hdr.capacity hdr.grainSize) Cowd.gtesPerGt := by
    rw [hcap, hgs]
    rfl
  rw [htables]
  exact getD_directory hgd i

theorem vmdk4Geometry_indexed {hdrBytes : List UInt8} {hdr : SparseExtentHeader}
    {geom : GrainGeometry} (hread : file.readExactAt 0 512 = .ok hdrBytes)
    (hparse : SparseExtentHeader.parse hdrBytes = .ok hdr)
    (h : vmdk4Geometry file hdr = .ok geom) (byteStart byteEnd : Nat) :
    IndexedBy { geom with byteStart, byteEnd, file } (vmdk4Layout file.bytes) := by
  have hfields := SparseExtentHeader.parse_ok hparse
  have hcap := hfields.capacity.trans (header_field hread (by decide))
  have hgs := hfields.grainSize.trans (header_field hread (by decide))
  have hng := hfields.numGtesPerGt.trans (header_field hread (by decide))
  have hgd := hfields.gdOffset.trans (header_field hread (by decide))
  unfold vmdk4Geometry at h
  simp only [bind_eq_ok] at h
  obtain ⟨-, -, -, -, -, -, -, -, hstart, -, buf, hbuf, h⟩ := h
  cases h
  have hnear : numAt 8 file.bytes 56 ≠ Header.gdAtEnd := by
    intro hend
    rw [hgd, hend] at hstart
    exact absurd hstart.down (by decide)
  have htables : (vmdk4Layout file.bytes).tables = VmdkReader.numGts hdr := by
    rw [numGts_eq, hcap, hgs, hng]
    rfl
  have hgdByte : (vmdk4Layout file.bytes).gdByte = hdr.gdOffset * sectorSize := by
    unfold vmdk4Layout
    rw [if_neg hnear, hgd]
  refine ⟨congrArg (· * sectorSize) hgs, hng, fun i => ?_⟩
  unfold TableLayout.dirEntry
  rw [htables, hgdByte]
  exact getD_directory hbuf i

/-- **A chunk loads the index its file describes.** -/
theorem chunkOf_indexed (h : chunkOf file sizeSectors byteOffset = .ok chunk) :
    ∃ L, layoutOf file.bytes = .tables L ∧ IndexedBy chunk L := by
  unfold chunkOf at h
  obtain ⟨hdrBytes, hread, h⟩ := bind_eq_ok.mp h
  have hmagic : beNat (slice hdrBytes 0 4) = beNat (slice file.bytes 0 4) := by
    rw [(Source.readExactAt_ok hread).1, slice_slice _ _ _ _ _ (by decide)]
  rw [hmagic] at h
  unfold layoutOf
  split at h
  · next hcowd =>
    rw [if_pos hcowd]
    exact ⟨_, rfl, cowdChunk_indexed hread h⟩
  · next hcowd =>
    simp only [bind_eq_ok, asInvalidData_eq_ok] at h
    obtain ⟨hdr, hparse, geom, hgeom, h⟩ := h
    cases h
    have hse : numAt 8 file.bytes 0 ≠ SeSparse.constMagic := fun hse =>
      (magic_ne (SparseExtentHeader.parse_magic hparse)).2
        ((header_field hread (by decide)).trans hse)
    rw [if_neg hcowd, if_neg hse]
    exact ⟨_, rfl, vmdk4Geometry_indexed hread hparse hgeom _ _⟩

theorem openFrom_indexed {fs : FileSystem} {dir : FilePath} {entries : List SparseEntry}
    {chunks : List SparseChunk} {total : Nat}
    (h : (openFrom fs dir byteOffset entries).result = .ok (chunks, total)) :
    ∀ chunk ∈ chunks, ∃ L, layoutOf chunk.file.bytes = .tables L ∧ IndexedBy chunk L := by
  induction entries generalizing byteOffset chunks with
  | nil =>
    cases h
    exact fun chunk hchunk => nomatch hchunk
  | cons entry entries ih =>
    unfold openFrom at h
    simp only [Opens.result_bind, bind_eq_ok, Opens.result_pure, Opens.result_lift] at h
    obtain ⟨path, -, file, -, chunk, hchunk, ⟨rest, total'⟩, hrest, h⟩ := h
    cases h
    refine List.forall_mem_cons.mpr ⟨?_, ih hrest⟩
    rw [chunkOf_file hchunk]
    exact chunkOf_indexed hchunk

/-- An entry that can be read is that of the layout. -/
theorem entryAt_indexed (hL : IndexedBy chunk L) {k : Nat}
    (hwithin : k / L.grainBytes / L.numGtesPerGt < L.tables) :
    (entryAt chunk k).toOption.map (fun entry => entry.getD 0) = L.entry chunk.file.bytes k := by
  have hj := Nat.mod_lt (k / L.grainBytes) (hL.numGtesPerGt ▸ chunk.numGtesPerGt_pos)
  unfold entryAt TableLayout.entry TableLayout.table
  simp only [hL.grainSizeBytes, hL.numGtesPerGt, hL.directory, if_pos hwithin,
    TableLayout.dirEntry]
  split
  · rfl
  · unfold leAt
    split
    · next hin =>
      rw [Source.readExactAt_of_le hin]
      rfl
    · next hout =>
      cases hread : chunk.file.readExactAt
          (numAt 4 chunk.file.bytes (L.gdByte + k / L.grainBytes / L.numGtesPerGt * 4) * sectorSize +
            k / L.grainBytes % L.numGtesPerGt * 4) 4 with
      | error e => rfl
      | ok buf => exact absurd (Source.readExactAt_ok_le (by decide) hread) hout

/-- **A read of a chunk** starts with the byte as it is stored. -/
theorem readHere_stored [ZlibDecoder] {m : MultiSparseReader} {o len : Nat} {b : UInt8}
    (hfind : m.chunkFor o = some chunk) (hL : IndexedBy chunk L) (ho : o < m.totalBytes)
    (hlen : 0 < len) : (∃ bs, m.readHere o len = .ok (b :: bs)) ↔
      L.storedByte chunk.file.bytes (o - chunk.byteStart) = some b := by
  obtain ⟨-, -, hhi⟩ := Intervals.covering_mem hfind
  have hrest := Nat.mod_lt (o - chunk.byteStart) chunk.grainSizeBytes_pos
  have hn : 0 < min (min (min len (m.totalBytes - o))
      (chunk.grainSizeBytes - (o - chunk.byteStart) % chunk.grainSizeBytes)) (chunk.byteEnd - o) := by
    omega
  unfold readHere
  rw [if_neg (by omega), hfind]
  simp only
  generalize hcount : min (min (min len (m.totalBytes - o))
    (chunk.grainSizeBytes - (o - chunk.byteStart) % chunk.grainSizeBytes)) (chunk.byteEnd - o) = n
    at hn
  generalize o - chunk.byteStart = k
  unfold TableLayout.storedByte
  split
  · next hbeyond =>
    have hnone : entryAt chunk k = .ok none := by
      unfold entryAt
      simp only [hL.grainSizeBytes, hL.numGtesPerGt, hL.directory, if_neg (Nat.not_lt.mpr hbeyond),
        if_true]
    rw [hnone]
    exact replicate_first hn
  · next hwithin =>
    have hcontent : ({ L with compressed := false } : TableLayout).content chunk.file.bytes k =
        (L.entry chunk.file.bytes k).bind fun gte =>
          if gte ≤ 1 then some 0 else chunk.file.bytes[gte * sectorSize + k % L.grainBytes]? := rfl
    rw [hcontent, ← entryAt_indexed hL (Nat.not_le.mp hwithin), ← hL.grainSizeBytes]
    cases entryAt chunk k with
    | error e => exact iff_of_false (fun ⟨bs, h⟩ => nomatch h) (fun h => nomatch h)
    | ok entry =>
      cases entry with
      | none => exact replicate_first hn
      | some gte =>
        simp only [bind, Except.bind, Except.toOption, Option.map_some, Option.getD_some,
          Option.bind_some]
        split
        · exact replicate_first hn
        · exact Source.readAt_first hn

end MultiSparseReader

/-! ## Right answers -/

/-- One read of the extents at `pos`. -/
def ExtentReader.readHere : ExtentReader → (pos len : Nat) → Except IoError (List UInt8)
  | .multiExtent m => m.readHere
  | .multiSparse m => m.readHere

namespace ExtentReader
variable {inner : ExtentReader} {pos len i : Nat} {b : UInt8} {bs : List UInt8}

theorem readAt_eq_readHere (h : pos < 2 ^ 63) : inner.readAt pos len = inner.readHere pos len := by
  cases inner with
  | multiExtent m =>
    change (Cursor.seek 0 m.totalBytes (.start (UInt64.ofNat pos)) >>= fun p => m.readHere p len) = _
    rw [Cursor.seek_start_nat h]
    rfl
  | multiSparse m =>
    change (Cursor.seek 0 m.totalBytes (.start (UInt64.ofNat pos)) >>= fun p => m.readHere p len) = _
    rw [Cursor.seek_start_nat h]
    rfl

theorem readHere_byte (hinner : inner.EndToEnd) (h : inner.readHere pos len = .ok bs)
    (hb : bs[i]? = some b) : inner.readHere (pos + i) 1 = .ok [b] := by
  cases inner with
  | multiExtent m => exact (MultiExtentReader.readHere_byte hinner h hb).1
  | multiSparse m => exact (MultiSparseReader.readHere_byte hinner h hb).1

theorem readHere_length_le (h : inner.readHere pos len = .ok bs) : bs.length ≤ len := by
  cases inner with
  | multiExtent m => exact Nat.le_trans (MultiExtentReader.readHere_length h) (Nat.min_le_left _ _)
  | multiSparse m => exact Nat.le_trans (MultiSparseReader.readHere_length h) (Nat.min_le_left _ _)

end ExtentReader

namespace Image
variable [ZlibDecoder] {Q A : Type} {d : Disk Q A} {im : Image}

/-- Reads of extents are right for a disk when they start with its bytes. -/
theorem Shaped.readRight_flat {inner : ExtentReader} (him : im.Shaped) (hfmt : im.fmt = .flat inner)
    (hsize : d.size = im.virtualDiskSize)
    (hserved : ∀ o, d.served o → (d.byte o).isSome = true ∧ o < 2 ^ 63)
    (hbyte : ∀ o < im.virtualDiskSize, ∀ len, 0 < len → ∀ b,
      (∃ bs, inner.readHere o len = .ok (b :: bs)) ↔ d.byte o = some b) (pos len : Nat) :
    ReadRight d pos len (im.readAt false pos len) := by
  have hends : inner.EndToEnd := by
    have hshape := him.fmt
    rwa [hfmt] at hshape
  unfold readAt readAtCounting
  by_cases hend : im.virtualDiskSize ≤ pos ∨ len = 0
  · rw [if_pos hend]
    exact Disk.delivers_nil_at_end (by rwa [hsize])
  rw [if_neg hend]
  simp only [hfmt]
  obtain ⟨hpos, hlen⟩ := not_or.mp hend
  have hn : 0 < min len (im.virtualDiskSize - pos) := by omega
  have hstarts (hs : d.served pos) :
      pos < 2 ^ 63 ∧ ∃ b bs, inner.readHere pos (min len (im.virtualDiskSize - pos)) = .ok (b :: bs) := by
    obtain ⟨hsome, h63⟩ := hserved pos hs
    obtain ⟨b, hb⟩ := Option.isSome_iff_exists.mp hsome
    exact ⟨h63, b, (hbyte pos (Nat.not_le.mp hpos) _ hn b).mpr hb⟩
  cases hread : inner.readAt pos (min len (im.virtualDiskSize - pos)) with
  | error e =>
    intro hs
    obtain ⟨h63, b, bs, hok⟩ := hstarts hs
    rw [ExtentReader.readAt_eq_readHere h63, hok] at hread
    cases hread
  | ok bs =>
    have h63 := ExtentReader.readAt_lt (Nat.lt_trans (Nat.not_le.mp hpos) him.size_lt) hread
    rw [ExtentReader.readAt_eq_readHere h63] at hread
    have hle := ExtentReader.readHere_length_le hread
    refine ⟨by omega, .inr (by rw [hsize]; omega), fun i b hb => ?_, fun _ _ hs => ?_⟩
    · have hi := (List.getElem?_eq_some_iff.mp hb).1
      exact (hbyte (pos + i) (by omega) 1 Nat.one_pos b).mp
        ⟨[], ExtentReader.readHere_byte hends hread hb⟩
    · obtain ⟨-, b, rest, hok⟩ := hstarts hs
      rw [hread] at hok
      exact Except.ok.inj hok ▸ List.cons_ne_nil b rest

/-- Reads of a single file are right for a disk of its bytes. -/
theorem Shaped.readRight_single (him : im.Shaped) (hfmt : ∀ inner, im.fmt ≠ .flat inner)
    (h63 : im.virtualDiskSize < 2 ^ 63) (hsize : d.size = im.virtualDiskSize)
    (hserved : ∀ o, d.served o → (d.byte o).isSome = true)
    (hbyte : ∀ o < im.virtualDiskSize, d.byte o = im.byteAt o) (pos len : Nat) :
    ReadRight d pos len (im.readAt false pos len) := by
  rcases Nat.lt_or_ge pos im.virtualDiskSize with hpos | hpos
  · have hstarts (hlen : 0 < len) (hs : d.served pos) :
        ∃ b bs, im.readAt false pos len = .ok (b :: bs) := by
      obtain ⟨b, hb⟩ := Option.isSome_iff_exists.mp (hserved pos hs)
      exact ⟨b, readAt_first hfmt hlen (hbyte pos hpos ▸ hb)⟩
    cases hread : im.readAt false pos len with
    | error e =>
      intro hs
      rcases Nat.eq_zero_or_pos len with rfl | hlen
      · unfold readAt readAtCounting at hread
        rw [if_pos (.inr rfl)] at hread
        cases hread
      · obtain ⟨b, bs, hok⟩ := hstarts hlen hs
        rw [hread] at hok
        cases hok
    | ok bs =>
      have hle := him.length_le hpos hread
      refine ⟨by omega, .inr (by rw [hsize]; omega), fun i b hb => ?_, fun hlen _ hs => ?_⟩
      · have hin := (him.readAt_stretch hread hb).2
        rw [hbyte (pos + i) hin]
        exact him.readAt_byte (by omega) hread hb
      · obtain ⟨b, rest, hok⟩ := hstarts hlen hs
        rw [hread] at hok
        exact Except.ok.inj hok ▸ List.cons_ne_nil b rest
  · rw [readAt_at_end hpos]
    exact Disk.delivers_nil_at_end (.inl (by rwa [hsize]))

end Image
