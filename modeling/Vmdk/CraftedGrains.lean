import Vmdk.Stored
import Vmdk.TestUtil

/-! # Crafted compressed grains

Two builders of `testutil.rs` make streamOptimized extents of one grain whose
marker lies about its payload, or whose payload expands beyond the grain. Every
read of such a disk is refused with the error that says which it is
(`TestUtil.crafted_grains`). -/

open Bytes Text Word

namespace TestUtil

def comCapacity : Nat := 128
def comGrainSize : Nat := 128
def comNumGtes : Nat := 512
def comGdSector : Nat := 26
def comGtSector : Nat := 27
def comGrainSector : Nat := 128

/-- The extent up to the length in the marker. -/
def comHead : List UInt8 :=
  let hdr := record [(4, Header.magic), (4, Header.versionStreamOpt), (4, 0), (8, comCapacity),
    (8, comGrainSize), (8, 0), (8, 0), (4, comNumGtes), (8, 0), (8, comGdSector),
    (8, comGrainSector), (1, 0), (1, 10), (1, 32), (1, 13), (1, 10), (2, 1), (433, 0)]
  let gd := leBytes 4 comGtSector
  let gt := leBytes 4 comGrainSector
  padTo (comGdSector * sectorSize) hdr ++ (padTo sectorSize gd ++
    (padTo ((comGrainSector - comGtSector) * sectorSize) gt ++ leBytes 8 0))

/-- What the two builders have in common: the marker of the grain, and what follows it. -/
def compressedVmdk (markerDataSize : Nat) (payload : List UInt8) : List UInt8 :=
  comHead ++ (leBytes 4 markerDataSize ++ payload)

/-- `compressed_vmdk_with_oversized_marker`. -/
def compressedVmdkWithOversizedMarker (markerDataSize : Nat) : List UInt8 :=
  compressedVmdk markerDataSize []

/-- `compressed_vmdk_with_bomb_grain`, for what the encoder makes of the zeros. -/
def compressedVmdkWithBombGrain (payload : List UInt8) : List UInt8 :=
  compressedVmdk payload.length payload

theorem length_comHead : comHead.length = comGrainSector * sectorSize + 8 := by
  unfold comHead
  simp only [List.length_append, length_padTo, length_record, length_leBytes, recordWidth,
    List.map_cons, List.map_nil, List.sum_cons, List.sum_nil]
  rfl

def comHeader : SparseExtentHeader where
  version := Header.versionStreamOpt
  capacity := comCapacity
  grainSize := comGrainSize
  descriptorOffset := 0
  descriptorSize := 0
  numGtesPerGt := comNumGtes
  rgdOffset := 0
  gdOffset := comGdSector
  compressed := true
  grainSize_ge := by decide
  grainSize_le := by decide
  numGtesPerGt_pos := by decide
  numGtesPerGt_le := by decide

theorem com_directory : slice comHead (comGdSector * sectorSize) 4 = leBytes 4 comGtSector := by
  unfold comHead
  show slice (_ ++ (padTo sectorSize _ ++ _)) (comGdSector * sectorSize + 0) 4 = _
  rw [slice_append_right (by rw [length_padTo, length_record]; rfl), padTo, List.append_assoc]
  exact slice_append_left (length_leBytes 4 comGtSector)

theorem com_table : slice comHead (comGtSector * sectorSize) 4 = leBytes 4 comGrainSector := by
  unfold comHead
  show slice (_ ++ (_ ++ (padTo _ (leBytes 4 comGrainSector) ++ _)))
    (comGdSector * sectorSize + (sectorSize + 0)) 4 = _
  rw [slice_append_right (by rw [length_padTo, length_record]; rfl),
    slice_append_right (by rw [length_padTo, length_leBytes]; rfl), padTo, List.append_assoc]
  exact slice_append_left (length_leBytes 4 comGrainSector)

theorem com_entry : numAt 4 comHead (comGtSector * sectorSize) = comGrainSector := by
  unfold numAt
  rw [com_table, leNat_leBytes (by decide)]

section Crafted
variable {file : Source} {size : Nat} {payload : List UInt8}

theorem readExactAt_comHead (hfile : file.bytes = compressedVmdk size payload) {off n : Nat}
    (h : off + n ≤ comHead.length) : file.readExactAt off n = .ok (slice comHead off n) := by
  have hin : off + n ≤ file.bytes.length := by
    rw [hfile, compressedVmdk, List.length_append]
    omega
  rw [Source.readExactAt_of_le hin, hfile, compressedVmdk, slice_head h]

/-- The image that is opened. -/
def craftedImage (file : Source) : Image :=
  VmdkReader.vmdk4Image file comHeader (TextDescriptor.empty [])
    (slice comHead (comGdSector * sectorSize) 4)

theorem open_crafted (hfile : file.bytes = compressedVmdk size payload) :
    VmdkReader.open file = .ok (craftedImage file).reader := by
  have hread : file.readExactAt 0 512 = .ok (slice comHead 0 512) :=
    readExactAt_comHead hfile (by rw [length_comHead]; decide)
  have hparse : SparseExtentHeader.parse (slice comHead 0 512) = .ok comHeader := by
    have hheader : slice comHead 0 512 = comHeader.sector comGrainSector := by
      unfold comHead padTo
      simp only [List.append_assoc]
      exact slice_append_left (SparseExtentHeader.length_sector comHeader comGrainSector)
    have hfits : comHeader.Fits := by decide
    have hsector := SparseExtentHeader.parse_sector hfits comGrainSector []
    rwa [List.append_nil, ← hheader] at hsector
  have hgd : file.readExactAt (comGdSector * sectorSize) 4 =
      .ok (slice comHead (comGdSector * sectorSize) 4) :=
    readExactAt_comHead hfile (by rw [length_comHead]; decide)
  rw [open_vmdk4 hread hparse, openVmdk4_eq_ok]
  refine ⟨comHeader, TextDescriptor.empty [], comGdSector, _, hparse, ?_, rfl⟩
  exact {
    grainSize := by decide
    capacity := by decide
    descriptor := rfl
    grains := by decide
    tables := by decide
    gdLen := by decide
    gdLen_le := by decide
    directoryAt := rfl
    gdStart := by decide
    gdRead := hgd }

/-- The index of the image. -/
def craftedFormat : SparseFormat :=
  VmdkReader.vmdk4Format comHeader (slice comHead (comGdSector * sectorSize) 4)

theorem directory_crafted : craftedFormat.grainDir.getD 0 0 = comGtSector := by
  unfold craftedFormat
  rw [com_directory]
  decide

/-- What is said of a marker that claims too much. -/
def sizeError (size : Nat) : IoError :=
  invalidData ("compressed grain data_size " ++ toString size ++ " exceeds limit "
    ++ toString 131072 ++ ": likely a crafted or corrupt VMDK")

theorem length_crafted (hfile : file.bytes = compressedVmdk size payload) :
    file.bytes.length = comGrainSector * sectorSize + 12 + payload.length := by
  rw [hfile, compressedVmdk, List.length_append, length_comHead, List.length_append, length_leBytes]
  omega

/-- The place of a byte of the grain. -/
theorem ofEntry_crafted (hfile : file.bytes = compressedVmdk size payload) (hsize : size < 2 ^ 32)
    (off : Nat) : GrainLookup.ofEntry file craftedFormat comGrainSector off =
      if size ≤ 131072 then .ok (.compressed (comGrainSector * sectorSize + 12) size off)
      else .error (sizeError size) := by
  have hlength := length_crafted hfile
  have hmarker : file.readExactAt (comGrainSector * sectorSize) 12 =
      .ok (slice file.bytes (comGrainSector * sectorSize) 12) :=
    Source.readExactAt_of_le (by omega)
  have hclaim : leNat (slice (slice file.bytes (comGrainSector * sectorSize) 12) 8 4) = size := by
    rw [slice_slice _ _ _ _ _ (by decide), hfile, compressedVmdk, ← length_comHead,
      ← Nat.add_zero comHead.length, slice_append_right rfl, slice_append_left (length_leBytes _ _),
      leNat_leBytes hsize]
  have hlimit : satAdd craftedFormat.grainSizeBytes 65536 = 131072 := by decide
  have hcompressed : craftedFormat.compressed = true := rfl
  have hbound : leNat (slice (slice file.bytes (comGrainSector * sectorSize) 12) 8 4) ≤
      satAdd craftedFormat.grainSizeBytes 65536 ↔ size ≤ 131072 := by rw [hclaim, hlimit]
  unfold GrainLookup.ofEntry
  simp only [if_pos hcompressed, hmarker, bind, Except.bind, hclaim, hlimit]
  by_cases hle : size ≤ 131072
  · rw [ensure_of (hbound.mpr hle), if_pos hle]
    rfl
  · rw [ensure_not fun h => hle (hbound.mp h), if_neg hle]
    rfl

variable [ZlibDecoder]

/-- The image has no redundant directory. -/
theorem harmless_crafted (file : Source) : Harmless (craftedImage file) := by
  have hfmt : (craftedImage file).fmt = .sparse file craftedFormat := rfl
  exact harmless_of_agrees hfmt (rgdAgrees_of_absent (.inl rfl))

/-- **A read of the grain** fails for the claim of its marker, or decodes the payload. -/
theorem readAt_crafted (hfile : file.bytes = compressedVmdk size payload) (hsize : size < 2 ^ 32)
    (fallback : Bool) {pos len : Nat} (hpos : pos < 65536) (hlen : 0 < len) :
    (craftedImage file).readAt fallback pos len =
      if size ≤ 131072 then
        (GrainLookup.decodeGrain file 65536 (comGrainSector * sectorSize + 12) size).map
          (slice · pos (min (min len (65536 - pos)) (65536 - pos)))
      else .error (sizeError size) := by
  have hfmt : (craftedImage file).fmt = .sparse file craftedFormat := rfl
  have hlength := length_crafted hfile
  have hharmless := harmless_crafted file
  have hidx : pos / 65536 = 0 := Nat.div_eq_of_lt hpos
  have hoff : pos % 65536 = pos := Nat.mod_eq_of_lt hpos
  have hentry : tableEntry file.bytes comGtSector 0 = comGrainSector := by
    show numAt 4 file.bytes (comGtSector * sectorSize + 0 * 4) = comGrainSector
    rw [Nat.zero_mul, Nat.add_zero, hfile, compressedVmdk]
    exact numAt_head com_entry (by rw [length_comHead]; decide)
  have hlocate : ((craftedImage file).locateSparse false file craftedFormat pos).1 =
      GrainLookup.ofEntry file craftedFormat comGrainSector pos := by
    have hdir : craftedFormat.grainDir.getD
        (pos / craftedFormat.grainSizeBytes / craftedFormat.numGtesPerGt) 0 = comGtSector := by
      show craftedFormat.grainDir.getD (pos / 65536 / 512) 0 = _
      rw [hidx]
      exact directory_crafted
    have hzero : 0 = pos / craftedFormat.grainSizeBytes % craftedFormat.numGtesPerGt := by
      show 0 = pos / 65536 % 512
      rw [hidx]
    have hinside : comGtSector * sectorSize + craftedFormat.numGtesPerGt * 4 ≤ file.len := by
      show comGtSector * sectorSize + 512 * 4 ≤ file.bytes.length
      rw [hlength]
      unfold comGtSector comGrainSector sectorSize
      omega
    rw [Image.locateSparse_whole hdir hzero (.inr ⟨by decide, hinside, hentry⟩)]
    show (if comGrainSector ≤ 1 then _ else GrainLookup.ofEntry file craftedFormat comGrainSector
      (pos % 65536)) = _
    rw [if_neg (by decide), hoff]
  have hread : (craftedImage file).readAt fallback pos len =
      (craftedImage file).readAt false pos len := by
    show ((craftedImage file).readAtCounting fallback pos len).1 = _
    rw [hharmless.read]
  have hin : ¬ ((craftedImage file).virtualDiskSize ≤ pos ∨ len = 0) := by
    show ¬ (65536 ≤ pos ∨ len = 0)
    omega
  rw [hread]
  unfold Image.readAt Image.readAtCounting
  rw [if_neg hin, hfmt]
  show (((craftedImage file).locateSparse false file craftedFormat pos).1 >>=
    GrainLookup.fetch file 65536 (min (min len (65536 - pos)) (65536 - pos % 65536))) = _
  rw [hlocate, hoff, ofEntry_crafted hfile hsize]
  split
  · rfl
  · rfl

/-- The payload is decoded when it is all there. -/
theorem decodeGrain_crafted (hfile : file.bytes = compressedVmdk size payload) :
    GrainLookup.decodeGrain file 65536 (comGrainSector * sectorSize + 12) size =
      if size = 0 ∨ size ≤ payload.length then do
        let grainData ← ZlibDecoder.readToEnd (payload.take size) 65537
        let _ ← ensure (grainData.length ≤ 65536) (invalidData
          "compressed grain decompresses beyond its grain size (possible decompression bomb)")
        return grainData
      else .error Source.eofError := by
  have hlength := length_crafted hfile
  have hstart : (comHead ++ leBytes 4 size).length = comGrainSector * sectorSize + 12 := by
    rw [List.length_append, length_comHead, length_leBytes]
  have hbytes : slice file.bytes (comGrainSector * sectorSize + 12) size = payload.take size := by
    rw [hfile, compressedVmdk, ← List.append_assoc, ← Nat.add_zero (comGrainSector * sectorSize + 12),
      slice_append_right hstart]
    rfl
  unfold GrainLookup.decodeGrain
  rw [Source.readExactAt_eq, if_pos (file.seekable_of_le _ (by omega)), hbytes]
  by_cases hall : size = 0 ∨ size ≤ payload.length
  · rw [if_pos hall, if_pos (hall.imp_right fun hle => by omega)]
    rfl
  · rw [if_neg hall, if_neg fun h => hall (h.imp_right fun hle => by omega)]
    rfl

/-- What is said of a payload that expands beyond the grain. -/
def bombError : IoError := invalidData
  "compressed grain decompresses beyond its grain size (possible decompression bomb)"

/-! ## What becomes of the crafted extents -/

/-- The file is opened as a disk of one grain, of which every read fails with this error. -/
def Refuses (file : Source) (e : IoError) : Prop :=
  ∃ im : Image, VmdkReader.open file = .ok im.reader ∧ im.virtualDiskSize = 65536 ∧
    ∀ fallback pos len, pos < 65536 → 0 < len → im.readAt fallback pos len = .error e

/-- What the reader makes of the files of the two builders. The length of a marker is a `u32`. -/
structure CraftedGrains : Prop where
  oversized : ∀ size, 131072 < size → size < 2 ^ 32 → ∀ file : Source,
    file.bytes = compressedVmdkWithOversizedMarker size → Refuses file (sizeError size)
  absent : ∀ size, 0 < size → size ≤ 131072 → ∀ file : Source,
    file.bytes = compressedVmdkWithOversizedMarker size → Refuses file Source.eofError
  /-- A payload above the limit is not decoded. -/
  overlong : ∀ payload : List UInt8, 131072 < payload.length → payload.length < 2 ^ 32 →
    ∀ file : Source, file.bytes = compressedVmdkWithBombGrain payload →
      Refuses file (sizeError payload.length)
  bomb : ∀ payload out, payload.length ≤ 131072 → ZlibDecoder.readToEnd payload 65537 = .ok out →
    65536 < out.length → ∀ file : Source,
      file.bytes = compressedVmdkWithBombGrain payload → Refuses file bombError
  genuine : ∀ payload out, payload.length ≤ 131072 →
    ZlibDecoder.readToEnd payload 65537 = .ok out → out.length = 65536 → ∀ file : Source,
      file.bytes = compressedVmdkWithBombGrain payload → ReadsBack file out

/-- A marker that claims more than the limit is refused, whatever follows it. -/
theorem refuses_oversized (hgt : 131072 < size) (hlt : size < 2 ^ 32)
    (hfile : file.bytes = compressedVmdk size payload) : Refuses file (sizeError size) := by
  refine ⟨_, open_crafted hfile, rfl, fun fallback pos len hpos hlen => ?_⟩
  rw [readAt_crafted hfile hlt fallback hpos hlen, if_neg (Nat.not_le.mpr hgt)]

/-- A grain whose payload is all there, and is decoded. -/
theorem decodeGrain_whole {out : List UInt8}
    (hout : ZlibDecoder.readToEnd payload 65537 = .ok out)
    (hfile : file.bytes = compressedVmdk payload.length payload) :
    GrainLookup.decodeGrain file 65536 (comGrainSector * sectorSize + 12) payload.length =
      if out.length ≤ 65536 then .ok out else .error bombError := by
  rw [decodeGrain_crafted hfile, if_pos (.inr (Nat.le_refl _)), List.take_length, hout]
  split
  · next hfits =>
    simp only [bind, Except.bind, ensure_of hfits]
    rfl
  · next hbig =>
    simp only [bind, Except.bind, ensure_not hbig]
    rfl

/-- **A crafted grain is refused**, by the claim of its marker before the payload is looked at, and
by the size of what is decoded; a genuine one is read back. -/
theorem crafted_grains : CraftedGrains where
  oversized := fun _ hgt hlt _ hfile => refuses_oversized hgt hlt hfile
  absent := by
    intro size hpos hle file hfile
    have hmissing : ¬ (size = 0 ∨ size ≤ ([] : List UInt8).length) := by
      rw [List.length_nil]
      omega
    refine ⟨_, open_crafted hfile, rfl, fun fallback pos len hpos' hlen => ?_⟩
    rw [readAt_crafted hfile (by omega) fallback hpos' hlen, if_pos hle, decodeGrain_crafted hfile,
      if_neg hmissing]
    rfl
  overlong := fun _ hgt hlt _ hfile => refuses_oversized hgt hlt hfile
  bomb := by
    intro payload out hle hout hbig file hfile
    refine ⟨_, open_crafted hfile, rfl, fun fallback pos len hpos hlen => ?_⟩
    rw [readAt_crafted hfile (by omega) fallback hpos hlen, if_pos hle,
      decodeGrain_whole hout hfile, if_neg (Nat.not_le.mpr hbig)]
    rfl
  genuine := by
    intro payload out hle hout hsize file hfile
    have hopen := open_crafted hfile
    obtain ⟨_, heq, hshaped⟩ := open_shaped hopen
    have hsame : _ = craftedImage file := (congrArg VmdkReader.toImage heq).symm
    subst hsame
    have hlt : (craftedImage file).virtualDiskSize < 2 ^ 63 := by
      show 65536 < 2 ^ 63
      decide
    refine ⟨_, hopen, (Image.Holds.of_readAt hshaped hsize hlt ?_).presents (harmless_crafted file)⟩
    intro o ho len hlen
    have ho' : o < 65536 := ho
    have hout' : o < out.length := by omega
    obtain ⟨k, hk⟩ : ∃ k, min (min len (65536 - o)) (65536 - o) = k + 1 :=
      Nat.exists_eq_add_one.mpr (by omega)
    refine ⟨out[o], (out.drop (o + 1)).take k, ?_, List.getElem?_eq_getElem hout'⟩
    rw [readAt_crafted hfile (by omega) false ho' hlen, if_pos hle,
      decodeGrain_whole hout hfile, if_pos (Nat.le_of_eq hsize), hk]
    show Except.ok (slice out o (k + 1)) = _
    unfold slice
    rw [List.drop_eq_getElem_cons hout', List.take_succ_cons]

end Crafted

/-- The stream of `2 * n` zeros. -/
def zeroStream (n : Nat) : List UInt8 :=
  Stored.storeBlocks [List.replicate n 0] (List.replicate n 0)

theorem length_zeroStream (n : Nat) : (zeroStream n).length = 16 + 2 * n := by
  unfold zeroStream
  rw [Stored.length_storeBlocks, List.flatten_singleton, List.length_replicate,
    List.length_singleton]
  omega

theorem readToEnd_zeroStream {n : Nat} (h : n < 65536) (limit : Nat) :
    Stored.readToEnd (zeroStream n) limit = .ok (List.replicate (min limit (2 * n)) 0) := by
  have hn : (List.replicate n (0 : UInt8)).length < 65536 := by rwa [List.length_replicate]
  unfold zeroStream
  rw [Stored.readToEnd_storeBlocks (fun bs hbs => List.mem_singleton.mp hbs ▸ hn) hn,
    List.flatten_singleton, List.replicate_append_replicate, List.take_replicate, Nat.two_mul]

theorem length_zeroFile {n : Nat} (h : n < 65536) :
    (compressedVmdkWithBombGrain (zeroStream n)).length < 2 ^ 63 := by
  unfold compressedVmdkWithBombGrain compressedVmdk
  rw [List.length_append, length_comHead, List.length_append, length_leBytes, length_zeroStream]
  unfold comGrainSector sectorSize
  omega

/-- A grain of zeros is read back, and 80000 zeros are not decoded into a grain. -/
theorem crafted_grains_zeros :
    letI := Stored.decoder
    ReadsBack (.ofBytes (compressedVmdkWithBombGrain (zeroStream 32768)) (length_zeroFile (by decide)))
        (List.replicate 65536 0) ∧
      Refuses (.ofBytes (compressedVmdkWithBombGrain (zeroStream 40000))
        (length_zeroFile (by decide))) bombError := by
  let _ := Stored.decoder
  have hgrain : (zeroStream 32768).length ≤ 131072 ∧ (zeroStream 40000).length ≤ 131072 := by
    rw [length_zeroStream, length_zeroStream]
    decide
  have hbig : 65536 < (List.replicate (min 65537 (2 * 40000)) (0 : UInt8)).length := by
    rw [List.length_replicate]
    decide
  exact ⟨crafted_grains.genuine _ _ hgrain.1 (readToEnd_zeroStream (by decide : 32768 < 65536) _)
      List.length_replicate _ rfl,
    crafted_grains.bomb _ _ hgrain.2 (readToEnd_zeroStream (by decide : 40000 < 65536) _) hbig _ rfl⟩

end TestUtil
