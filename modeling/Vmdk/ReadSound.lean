import Vmdk.Content

/-! # Lookups lead to the content

`Locates` says once what a lookup must do for reads to be right: where it
succeeds, the place it gives holds the content of the rest of the grain, and
where it fails, the disk does not promise a byte. A read through such a lookup
is right (`Locates.read_right`), and the lookups of both table formats are such
(`TableLayout.Loaded.locates`, `SeLayout.Loaded.locates`). -/

open Bytes Word

namespace GrainLookup

variable [ZlibDecoder] {inner : Source} {gs : Nat}

/-- The byte a place holds `i` bytes on. -/
def byteAt (inner : Source) (gs : Nat) : GrainLookup → Nat → Option UInt8
  | .sparse, _ => some 0
  | .fileOffset off, i => inner.bytes[off + i]?
  | .compressed dataOffset dataSize offsetInGrain, i =>
    (decodeGrain inner gs dataOffset dataSize).toOption.bind fun out => out[offsetInGrain + i]?

/-- A fetch delivers bytes of the place, in order. -/
theorem fetch_ok {loc : GrainLookup} {n : Nat} {bs : List UInt8}
    (h : loc.fetch inner gs n = .ok bs) :
    bs.length ≤ n ∧ ∀ i b, bs[i]? = some b → loc.byteAt inner gs i = some b := by
  cases loc with
  | sparse =>
    cases h
    refine ⟨by simp, fun i b hb => ?_⟩
    rw [List.getElem?_replicate] at hb
    split at hb
    · exact hb
    · cases hb
  | fileOffset off =>
    refine ⟨Source.readAt_length_le h, fun i b hb => ?_⟩
    have hi : i < bs.length := (List.getElem?_eq_some_iff.mp hb).1
    rw [byteAt, ← Source.readAt_getElem? h hi, hb]
  | compressed d s o =>
    cases hdec : decodeGrain inner gs d s with
    | error e => simp [fetch, readCompressedGrain, hdec, Except.map] at h
    | ok out =>
      simp only [fetch, readCompressedGrain, hdec, Except.map, Except.ok.injEq] at h
      subst h
      refine ⟨by rw [length_slice]; omega, fun i b hb => ?_⟩
      rw [getElem?_slice] at hb
      split at hb
      · simpa [byteAt, hdec, Except.toOption] using hb
      · cases hb

/-- A fetch delivers something where the place holds something. -/
theorem fetch_progress {loc : GrainLookup} {n : Nat} {b : UInt8} (hn : 0 < n)
    (hb : loc.byteAt inner gs 0 = some b) : ∃ c cs, loc.fetch inner gs n = .ok (c :: cs) := by
  cases loc with
  | sparse =>
    obtain ⟨m, rfl⟩ : ∃ m, n = m + 1 := ⟨n - 1, by omega⟩
    exact ⟨0, List.replicate m 0, by rw [fetch, List.replicate_succ]⟩
  | fileOffset off =>
    have hoff : off < inner.bytes.length := (List.getElem?_eq_some_iff.mp hb).1
    exact Source.readAt_progress inner hoff hn
  | compressed d s o =>
    cases hdec : decodeGrain inner gs d s with
    | error e => simp [byteAt, hdec, Except.toOption] at hb
    | ok out =>
      simp only [byteAt, hdec, Except.toOption, Option.bind_some, Nat.add_zero] at hb
      have ho : o < out.length := (List.getElem?_eq_some_iff.mp hb).1
      cases hs : slice out o n with
      | nil =>
        have := slice_eq_nil_iff.mp hs
        omega
      | cons c cs => exact ⟨c, cs, by rw [fetch, readCompressedGrain, hdec]; exact congrArg _ hs⟩

end GrainLookup

/-! ## What a lookup must do -/

/-- A lookup over grains of `gs` bytes leads to the content of a disk. -/
structure Locates [ZlibDecoder] (byte : Nat → Option UInt8) (served : Nat → Prop)
    (inner : Source) (gs size : Nat) (locate : Nat → Except IoError GrainLookup) : Prop where
  ok : ∀ o < size, ∀ loc, locate o = .ok loc →
    ∀ i < gs - o % gs, byte (o + i) = loc.byteAt inner gs i
  error : ∀ o < size, ∀ e, locate o = .error e → ¬ served o
  served : ∀ o, served o → (byte o).isSome

/-- A result of reading `len` bytes at `pos` that is right for a disk. -/
def ReadRight {Q A : Type} (d : Disk Q A) (pos len : Nat) (res : Except IoError (List UInt8)) :
    Prop :=
  match res with
  | .ok bs => d.Delivers pos len bs
  | .error _ => ¬ d.served pos

namespace Locates

variable [ZlibDecoder] {Q A : Type} {d : Disk Q A} {inner : Source} {gs : Nat}
  {locate : Nat → Except IoError GrainLookup}

/-- One read through a right lookup: right bytes, or an error where none was promised. -/
theorem read_right (h : Locates d.byte d.served inner gs d.size locate) (hgs : 0 < gs)
    {pos len : Nat} (hpos : pos < d.size) (hlen : len ≠ 0) :
    ReadRight d pos len (locate pos >>=
      GrainLookup.fetch inner gs (min (min len (d.size - pos)) (gs - pos % gs))) := by
  have hrest : 0 < gs - pos % gs := Blocks.rest_pos hgs
  cases hloc : locate pos with
  | error e => exact h.error pos hpos e hloc
  | ok loc =>
    have hbyte := h.ok pos hpos loc hloc
    have hserved : d.served pos → ∃ b, loc.byteAt inner gs 0 = some b := fun hs => by
      rw [← hbyte 0 hrest]
      exact Option.isSome_iff_exists.mp (h.served pos hs)
    change ReadRight d pos len (loc.fetch inner gs _)
    cases hf : loc.fetch inner gs (min (min len (d.size - pos)) (gs - pos % gs)) with
    | error e =>
      intro hs
      obtain ⟨b, hb⟩ := hserved hs
      obtain ⟨c, cs, hc⟩ := GrainLookup.fetch_progress
        (n := min (min len (d.size - pos)) (gs - pos % gs)) (by omega) hb
      rw [hc] at hf
      cases hf
    | ok bs =>
      obtain ⟨hle, hbs⟩ := GrainLookup.fetch_ok hf
      refine ⟨by omega, .inr (by omega), fun i b hb => ?_, fun _ _ hs => ?_⟩
      · have hi : i < bs.length := (List.getElem?_eq_some_iff.mp hb).1
        rw [hbyte i (by omega)]
        exact hbs i b hb
      · obtain ⟨b, hb⟩ := hserved hs
        obtain ⟨c, cs, hc⟩ := GrainLookup.fetch_progress
          (n := min (min len (d.size - pos)) (gs - pos % gs)) (by omega) hb
        rw [hc] at hf
        cases hf
        simp

end Locates

/-! ## Tables of 4-byte entries -/

namespace TableLayout

/-- The reader's index is the one the layout describes. -/
structure Loaded (L : TableLayout) (bytes : List UInt8) (geom : SparseFormat) : Prop where
  grainSizeBytes : geom.grainSizeBytes = L.grainBytes
  numGtesPerGt : geom.numGtesPerGt = L.numGtesPerGt
  compressed : geom.compressed = L.compressed
  grainDir : ∀ o < L.capacity * sectorSize,
    geom.grainDir.getD (o / L.grainBytes / L.numGtesPerGt) 0 = L.table bytes o

variable {L : TableLayout} {bytes : List UInt8} {o i gte : Nat}

theorem table_add (hg : 0 < L.grainBytes) (hi : i < L.grainBytes - o % L.grainBytes) :
    L.table bytes (o + i) = L.table bytes o := by
  unfold table
  rw [Blocks.div_add hg hi]

/-- The offsets of one grain have one entry. -/
theorem entry_add (hg : 0 < L.grainBytes) (hi : i < L.grainBytes - o % L.grainBytes) :
    L.entry bytes (o + i) = L.entry bytes o := by
  unfold entry
  rw [table_add hg hi, Blocks.div_add hg hi]

variable {inner : Source}

/-- An entry of a table in the file is what the file holds at its place. -/
theorem readGt_getD {n idx sector : Nat} {gt : List Nat} (hidx : idx < n)
    (h : readGt inner n sector = .ok gt) :
    leAt 4 inner.bytes (sector * sectorSize + idx * 4) = some (gt.getD idx 0) := by
  unfold readGt at h
  cases hr : inner.readExactAt (sector * sectorSize) (n * 4) with
  | error e => rw [hr] at h; cases h
  | ok bs =>
    rw [hr] at h
    cases h
    have hle := Source.readExactAt_ok_le (by omega) hr
    rw [(Source.readExactAt_ok hr).1, getD_leTable_slice (by decide) hle hidx]
    exact leAt_eq_some.mpr ⟨by omega, rfl⟩

/-- The lookup outside recovery mode: the directory, the table and the entry, in turn. -/
theorem Loaded.locateSparse {geom : SparseFormat} (hload : L.Loaded inner.bytes geom)
    (im : Image) (ho : o < L.capacity * sectorSize) :
    (im.locateSparse false inner geom o).1 =
      if L.table inner.bytes o = 0 then .ok .sparse
      else readGt inner L.numGtesPerGt (L.table inner.bytes o) >>= fun gt =>
        if gt.getD (o / L.grainBytes % L.numGtesPerGt) 0 ≤ 1 then .ok .sparse
        else GrainLookup.ofEntry inner geom (gt.getD (o / L.grainBytes % L.numGtesPerGt) 0)
          (o % L.grainBytes) := by
  unfold Image.locateSparse Image.gtSectorFor
  simp only [Bool.false_eq_true, if_false, hload.grainSizeBytes, hload.numGtesPerGt,
    hload.grainDir o ho]
  split
  · rfl
  · cases readGt inner L.numGtesPerGt (L.table inner.bytes o) with
    | error e => rfl
    | ok gt =>
      simp only [Image.locateIn, Image.recoverEntry, Bool.false_and, Bool.false_eq_true, if_false,
        bind, Except.bind, hload.grainSizeBytes, hload.numGtesPerGt]
      split <;> rfl

variable [ZlibDecoder]

/-- The payload of the layout is the grain the reader decodes. -/
theorem payload_eq {d : Nat} (hmarker : gte * sectorSize + 12 ≤ inner.bytes.length)
    (hd : d = numAt 4 inner.bytes (gte * sectorSize + 8)) :
    (GrainLookup.decodeGrain inner L.grainBytes (gte * sectorSize + 12) d).toOption =
      L.payload inner.bytes gte := by
  have hsize : leAt 4 inner.bytes (gte * sectorSize + 8) = some d :=
    leAt_eq_some.mpr ⟨by omega, hd⟩
  unfold payload GrainLookup.decodeGrain
  rw [hsize, Source.readExactAt_eq, if_pos (inner.seekable_of_le _ hmarker)]
  simp only [Option.bind_some, bind, Except.bind]
  by_cases hin : d = 0 ∨ gte * sectorSize + 12 + d ≤ inner.bytes.length
  · simp only [if_pos hin, guard, Option.bind_some, pure]
    cases ZlibDecoder.readToEnd (slice inner.bytes (gte * sectorSize + 12) d)
        (L.grainBytes + 1) with
    | error e => rfl
    | ok out =>
      by_cases hlen : out.length ≤ L.grainBytes
      · simp only [ensure_of hlen, if_pos hlen]
        rfl
      · simp only [ensure_not hlen, if_neg hlen]
        rfl
  · simp only [if_neg hin, guard]
    rfl

/-- The place of a data entry holds the data bytes of its grain. -/
theorem ofEntry_ok {geom : SparseFormat} (hload : L.Loaded inner.bytes geom)
    (hg : 0 < L.grainBytes) {loc : GrainLookup}
    (h : GrainLookup.ofEntry inner geom gte (o % L.grainBytes) = .ok loc)
    (hi : i < L.grainBytes - o % L.grainBytes) :
    loc.byteAt inner L.grainBytes i = L.dataByte inner.bytes gte (o + i) := by
  unfold GrainLookup.ofEntry at h
  rw [hload.compressed] at h
  unfold dataByte
  rw [Blocks.mod_add hg hi]
  split at h
  · next hcomp =>
    rw [if_pos hcomp]
    simp only [bind_eq_ok] at h
    obtain ⟨marker, hmarker, _, _, h⟩ := h
    cases h
    have hle := Source.readExactAt_ok_le (by decide) hmarker
    rw [(Source.readExactAt_ok hmarker).1, slice_slice _ _ _ _ _ (by decide)]
    have hpay : (GrainLookup.decodeGrain inner L.grainBytes (gte * sectorSize + 12)
        (numAt 4 inner.bytes (gte * sectorSize + 8))).toOption = L.payload inner.bytes gte :=
      payload_eq hle rfl
    rw [← hpay]
    rfl
  · next hcomp =>
    rw [if_neg hcomp]
    cases h
    simp only [GrainLookup.byteAt]
    rw [Nat.add_assoc]

/-- Where the place of a data entry cannot be found, the disk does not promise its bytes. -/
theorem ofEntry_error {geom : SparseFormat} (hload : L.Loaded inner.bytes geom) {e : IoError}
    (hgte : 1 < gte) (hentry : L.entry inner.bytes o = some gte)
    (h : GrainLookup.ofEntry inner geom gte (o % L.grainBytes) = .error e) :
    ¬ ((L.content inner.bytes o).isSome ∧ L.TableWhole inner.bytes o) := by
  rintro ⟨hsome, hwhole⟩
  unfold GrainLookup.ofEntry at h
  rw [hload.compressed, hload.grainSizeBytes] at h
  split at h
  case isFalse => cases h
  next hcomp =>
  have hmarker : gte * sectorSize + 12 ≤ inner.bytes.length := by
    by_contra hshort
    have hnone : leAt 4 inner.bytes (gte * sectorSize + 8) = none := if_neg (by omega)
    rw [content, hentry, Option.bind_some, if_neg (by omega), dataByte, if_pos hcomp, payload,
      hnone] at hsome
    simp at hsome
  simp only [Source.readExactAt_of_le hmarker] at h
  have hcap : numAt 4 inner.bytes (gte * sectorSize + 8) ≤ L.grainBytes + 65536 := by
    rcases hwhole with h0 | ⟨_, hcap⟩
    · rw [entry, if_pos h0] at hentry
      cases hentry
      omega
    · exact hcap gte hentry hgte hcomp
  have hlt : numAt 4 inner.bytes (gte * sectorSize + 8) < 256 ^ 4 := leNat_slice_lt _ _ _
  have hfits : leNat (slice (slice inner.bytes (gte * sectorSize) 12) 8 4) ≤
      satAdd L.grainBytes 65536 := by
    rw [slice_slice _ _ _ _ _ (by decide)]
    unfold numAt at hcap hlt
    unfold satAdd u64Max u64Size
    omega
  simp only [bind, Except.bind, ensure_of hfits] at h
  cases h

/-- **The lookup of VMDK4 and COWD extents is right.** -/
theorem Loaded.locates {geom : SparseFormat} (hload : L.Loaded inner.bytes geom) (im : Image) :
    Locates (L.content inner.bytes)
      (fun o => (L.content inner.bytes o).isSome ∧ L.TableWhole inner.bytes o) inner L.grainBytes
      (L.capacity * sectorSize) (fun o => (im.locateSparse false inner geom o).1) := by
  have hg : 0 < L.grainBytes := hload.grainSizeBytes ▸ geom.grainSizeBytes_pos
  have hn : 0 < L.numGtesPerGt := hload.numGtesPerGt ▸ geom.numGtesPerGt_pos
  have hidx (o : Nat) : o / L.grainBytes % L.numGtesPerGt < L.numGtesPerGt := Nat.mod_lt _ hn
  refine ⟨fun o ho loc h i hi => ?_, fun o ho e h => ?_, fun o h => h.1⟩
  · rw [hload.locateSparse im ho] at h
    unfold content
    rw [entry_add hg hi]
    split at h
    · next h0 =>
      cases h
      rw [entry, if_pos h0]
      rfl
    · next h0 =>
      obtain ⟨gt, hgt, h⟩ := bind_eq_ok.mp h
      rw [entry, if_neg h0, readGt_getD (hidx o) hgt, Option.bind_some]
      split at h
      · next hle =>
        cases h
        rw [if_pos hle]
        rfl
      · next hgte =>
        rw [if_neg hgte]
        exact (ofEntry_ok hload hg h hi).symm
  · rw [hload.locateSparse im ho] at h
    split at h
    · cases h
    · next h0 =>
      cases hgt : readGt inner L.numGtesPerGt (L.table inner.bytes o) with
      | error e' =>
        rintro ⟨_, h1 | ⟨hwhole, _⟩⟩
        · exact h0 h1
        · unfold readGt at hgt
          rw [Source.readExactAt_of_le hwhole] at hgt
          cases hgt
      | ok gt =>
        have hentry : L.entry inner.bytes o =
            some (gt.getD (o / L.grainBytes % L.numGtesPerGt) 0) := by
          rw [entry, if_neg h0, readGt_getD (hidx o) hgt]
        rw [hgt] at h
        change (if _ then _ else _) = _ at h
        split at h
        · cases h
        · next hgte => exact ofEntry_error hload (by omega) hentry h

end TableLayout

/-! ## seSparse -/

namespace SeLayout

/-- The reader's index is the one the layout describes. -/
structure Loaded (L : SeLayout) (bytes : List UInt8) (geom : SeSparseFormat) : Prop where
  grainSizeBytes : geom.grainSizeBytes = 4096
  gtOffsetSectors : geom.gtOffsetSectors = L.gtSector
  grainsOffsetSectors : geom.grainsOffsetSectors = L.grainsSector
  grainDir : ∀ o < L.capacity * sectorSize,
    geom.grainDir.getD (o / 4096 / 4096) 0 = L.directory bytes o

variable {L : SeLayout} {inner : Source} {gd gte o i : Nat}

/-- The address of an entry does not wrap where it fits. -/
theorem entryByte_eq (h : L.entryByte gd o < u64Size) :
    wrapAdd (wrapMul (wrapAdd L.gtSector (SeSparse.gdIndex gd * SeSparse.gtSectors)) sectorSize)
      (o / 4096 % SeSparse.gtesPerGt * 8) = L.entryByte gd o :=
  wrap_address (by decide) h

/-- The address of a data byte does not wrap where it fits. -/
theorem dataByte_eq (h : L.dataByte gte o < u64Size) :
    wrapAdd (wrapMul (wrapAdd L.grainsSector (wrapMul (SeSparse.gteGrainIndex gte)
      (4096 / sectorSize))) sectorSize) (o % 4096) = L.dataByte gte o := by
  have hidx : SeSparse.gteGrainIndex gte * (4096 / sectorSize) ≤ L.dataByte gte o := by
    unfold SeSparse.gteGrainIndex dataByte sectorSize
    omega
  have hmul : wrapMul (SeSparse.gteGrainIndex gte) (4096 / sectorSize) =
      SeSparse.gteGrainIndex gte * (4096 / sectorSize) := wrapMul_eq (by omega)
  rw [hmul]
  exact wrap_address (by decide) h

/-- The entry the reader looks up is the one at its place. -/
theorem seReadGte_eq (h : L.entryByte gd o < u64Size) :
    Image.seReadGte inner gd L.gtSector (o / 4096 % SeSparse.gtesPerGt) =
      if gd = 0 then .ok none
      else if gd / 2 ^ 32 = 0x10000000 then
        (inner.readExactAt (L.entryByte gd o) 8).map fun b => some (leNat b)
      else .error (invalidData "seSparse GD entry has invalid allocated marker") := by
  unfold Image.seReadGte SeSparse.gdAllocField SeSparse.gdAllocFlag
  simp only [entryByte_eq h, ite_not]

theorem directory_add {bytes : List UInt8} (hi : i < 4096 - o % 4096) :
    L.directory bytes (o + i) = L.directory bytes o := by
  unfold directory
  rw [Blocks.div_add (by decide) hi]

theorem entryByte_add (hi : i < 4096 - o % 4096) : L.entryByte gd (o + i) = L.entryByte gd o := by
  unfold entryByte
  rw [Blocks.div_add (by decide) hi]

theorem dataByte_add (hi : i < 4096 - o % 4096) : L.dataByte gte (o + i) = L.dataByte gte o + i := by
  unfold dataByte
  rw [Blocks.mod_add (by decide) hi]
  omega

/-- An entry the reader found is the one the file holds, under an allocated directory entry. -/
theorem seReadGte_some (h : L.entryByte gd o < u64Size)
    (hr : Image.seReadGte inner gd L.gtSector (o / 4096 % SeSparse.gtesPerGt) = .ok (some gte)) :
    gd ≠ 0 ∧ gd / 2 ^ 32 = 0x10000000 ∧ leAt 8 inner.bytes (L.entryByte gd o) = some gte := by
  rw [seReadGte_eq h] at hr
  split at hr
  · cases hr
  · next h0 =>
    split at hr
    · next hflag =>
      cases hx : inner.readExactAt (L.entryByte gd o) 8 with
      | error e => rw [hx] at hr; cases hr
      | ok b =>
        rw [hx] at hr
        cases hr
        rw [(Source.readExactAt_ok hx).1]
        exact ⟨h0, hflag, leAt_eq_some.mpr ⟨Source.readExactAt_ok_le (by decide) hx, rfl⟩⟩
    · cases hr

/-- The place of the byte for `o` under the entry `gte`. -/
def entryPlace (L : SeLayout) (gte o : Nat) : Except IoError GrainLookup :=
  if gte = 0 ∨ gte / 2 ^ 60 = 1 ∨ gte / 2 ^ 60 = 2 then .ok .sparse
  else if gte / 2 ^ 60 = 3 then .ok (.fileOffset (L.dataByte gte o))
  else .error (invalidData "seSparse grain entry has unsupported type nibble")

/-- The reader's lookup of one offset, on exact addresses. -/
theorem Loaded.grainLocation_at {geom : SeSparseFormat} (hload : L.Loaded inner.bytes geom)
    (ho : o < L.capacity * sectorSize)
    (hentry : L.entryByte (L.directory inner.bytes o) o < u64Size)
    (hdata : ∀ gte, leAt 8 inner.bytes (L.entryByte (L.directory inner.bytes o) o) = some gte →
      gte / 2 ^ 60 = 3 → L.dataByte gte o < u64Size) :
    Image.grainLocationSesparse inner geom o =
      (Image.seReadGte inner (L.directory inner.bytes o) L.gtSector
          (o / 4096 % SeSparse.gtesPerGt) >>= fun r =>
        match r with
        | none => .ok .sparse
        | some gte => L.entryPlace gte o) := by
  have hdir : geom.grainDir.getD (o / 4096 / SeSparse.gtesPerGt) 0 = L.directory inner.bytes o :=
    hload.grainDir o ho
  unfold Image.grainLocationSesparse
  simp only [hload.grainSizeBytes, hload.gtOffsetSectors, hload.grainsOffsetSectors, hdir]
  cases hr : Image.seReadGte inner (L.directory inner.bytes o) L.gtSector
      (o / 4096 % SeSparse.gtesPerGt) with
  | error e => rfl
  | ok r =>
    cases r with
    | none => rfl
    | some gte =>
      have hgte := (seReadGte_some hentry hr).2.2
      simp only [bind, Except.bind, entryPlace, SeSparse.gteType, SeSparse.gteTypeUnmapped,
        SeSparse.gteTypeZero, SeSparse.gteTypeAllocated]
      by_cases h0 : gte = 0
      · simp only [h0, if_true, true_or]
        rfl
      by_cases h12 : gte / 2 ^ 60 = 1 ∨ gte / 2 ^ 60 = 2
      · simp only [h0, h12, if_true, if_false, or_true]
        rfl
      by_cases h3 : gte / 2 ^ 60 = 3
      · simp only [h0, h3, if_true, if_false]
        rw [dataByte_eq (hdata gte hgte h3)]
        rfl
      · simp only [h0, h12, h3, if_false, or_false]

/-- The reader's lookup, on exact addresses. -/
theorem Loaded.grainLocation {geom : SeSparseFormat} (hload : L.Loaded inner.bytes geom)
    (hfit : L.AddressesFit inner.bytes) (ho : o < L.capacity * sectorSize) :
    Image.grainLocationSesparse inner geom o =
      (Image.seReadGte inner (L.directory inner.bytes o) L.gtSector
          (o / 4096 % SeSparse.gtesPerGt) >>= fun r =>
        match r with
        | none => .ok .sparse
        | some gte => L.entryPlace gte o) :=
  hload.grainLocation_at ho (hfit.entry o ho) (hfit.data o ho)

theorem seReadGte_none (h : L.entryByte gd o < u64Size)
    (hr : Image.seReadGte inner gd L.gtSector (o / 4096 % SeSparse.gtesPerGt) = .ok none) :
    gd = 0 := by
  rw [seReadGte_eq h] at hr
  split at hr
  · assumption
  · split at hr
    · cases hx : inner.readExactAt (L.entryByte gd o) 8 with
      | error e => rw [hx] at hr; cases hr
      | ok b => rw [hx] at hr; cases hr
    · cases hr

/-- Where an entry cannot be read, the content is not defined. -/
theorem seReadGte_error {e : IoError} (h : L.entryByte gd o < u64Size)
    (hr : Image.seReadGte inner gd L.gtSector (o / 4096 % SeSparse.gtesPerGt) = .error e) :
    gd ≠ 0 ∧ (gd / 2 ^ 32 ≠ 0x10000000 ∨ leAt 8 inner.bytes (L.entryByte gd o) = none) := by
  rw [seReadGte_eq h] at hr
  split at hr
  · cases hr
  · next h0 =>
    refine ⟨h0, ?_⟩
    split at hr
    · right
      refine if_neg fun hle => ?_
      rw [Source.readExactAt_of_le hle] at hr
      cases hr
    · next hflag => exact .inl hflag

/-- The place of an entry holds the content of the rest of the grain. -/
theorem entryPlace_ok [ZlibDecoder] {loc : GrainLookup} (h : L.entryPlace gte o = .ok loc)
    (hi : i < 4096 - o % 4096) :
    L.entryContent inner.bytes gte (o + i) = loc.byteAt inner 4096 i := by
  unfold entryPlace at h
  unfold entryContent
  split at h
  · next h012 =>
    cases h
    rw [if_pos h012]
    rfl
  · next h012 =>
    rw [if_neg h012]
    split at h
    · next h3 =>
      cases h
      rw [if_pos h3, dataByte_add hi]
      rfl
    · cases h

theorem entryPlace_error {e : IoError} (h : L.entryPlace gte o = .error e) :
    L.entryContent inner.bytes gte o = none := by
  unfold entryPlace at h
  unfold entryContent
  split at h
  · cases h
  · next h012 =>
    split at h
    · cases h
    · next h3 => rw [if_neg h012, if_neg h3]

/-- **The lookup of seSparse extents is right.** -/
theorem Loaded.locates [ZlibDecoder] {geom : SeSparseFormat} (hload : L.Loaded inner.bytes geom)
    (hfit : L.AddressesFit inner.bytes) :
    Locates (L.content inner.bytes) (fun o => (L.content inner.bytes o).isSome ∧ True) inner 4096
      (L.capacity * sectorSize) (Image.grainLocationSesparse inner geom) := by
  refine ⟨fun o ho loc h i hi => ?_, fun o ho e h => ?_, fun o h => h.1⟩
  · rw [hload.grainLocation hfit ho] at h
    obtain ⟨r, hr, h⟩ := bind_eq_ok.mp h
    unfold content
    simp only [directory_add hi, entryByte_add hi]
    cases r with
    | none =>
      cases h
      rw [if_pos (seReadGte_none (hfit.entry o ho) hr)]
      rfl
    | some gte =>
      obtain ⟨h0, hflag, hgte⟩ := seReadGte_some (hfit.entry o ho) hr
      rw [if_neg h0, if_pos hflag, hgte]
      exact entryPlace_ok h hi
  · rintro ⟨hsome, -⟩
    rw [hload.grainLocation hfit ho] at h
    unfold content at hsome
    cases hr : Image.seReadGte inner (L.directory inner.bytes o) L.gtSector
        (o / 4096 % SeSparse.gtesPerGt) with
    | error e' =>
      obtain ⟨h0, hflag | hnone⟩ := seReadGte_error (hfit.entry o ho) hr
      · simp only [h0, hflag, if_false, Option.isSome_none, Bool.false_eq_true] at hsome
      · simp [h0, hnone] at hsome
    | ok r =>
      rw [hr] at h
      cases r with
      | none => cases h
      | some gte =>
        obtain ⟨h0, hflag, hgte⟩ := seReadGte_some (hfit.entry o ho) hr
        simp only [h0, hflag, hgte, if_true, if_false, Option.bind_some, entryPlace_error h,
          Option.isSome_none, Bool.false_eq_true] at hsome

end SeLayout
