import Vmdk.DescriptorBytes
import Vmdk.DiskBytes
import Vmdk.FlatSound
import Vmdk.Info
import Vmdk.Lib.Pack
import Vmdk.OpenCases
import Vmdk.Stored

/-! # A disk in flat extents

A descriptor names files, and a part of each file is a part of the disk. Where
every part lies whole in its file, the descriptor is opened, and what it opens
presents the parts one after another (`FlatDisk.reads_back`). -/

open Bytes Text Word

namespace FlatDisk

/-- The part of the disk that the line of an extent stands for. -/
structure PartOf (fs : FileSystem) (dir : FilePath) (ext : ExtentEntry) (part : List UInt8) : Prop where
  length : part.length = ext.sizeSectors * sectorSize
  zero : ext.isZero = true → part = List.replicate (ext.sizeSectors * sectorSize) 0
  stored : ext.isZero = false → ∃ path file, resolveExtentPath dir ext.filename = .ok path ∧
    fs path = .ok file ∧ slice file.bytes ext.fileByteOffset part.length = part ∧
    ext.fileByteOffset + part.length ≤ file.bytes.length

section Extents
variable {fs : FileSystem} {dir : FilePath} {ext : ExtentEntry} {exts : List ExtentEntry}
  {part : List UInt8} {parts : List (List UInt8)} {m : MultiExtentReader} {file : Source}
  {k n o virt : Nat}

theorem openExtent_of_partOf (h : PartOf fs dir ext part) :
    ∃ file, (MultiExtentReader.openExtent fs dir ext).result = .ok file := by
  unfold MultiExtentReader.openExtent
  cases hzero : ext.isZero with
  | true => exact ⟨none, rfl⟩
  | false =>
    obtain ⟨path, file, hpath, hfile, -⟩ := h.stored hzero
    refine ⟨some file, ?_⟩
    simp only [Bool.false_eq_true, if_false, Opens.result_bind, bind_eq_ok, Opens.result_lift,
      Opens.result_mapError, mapError_eq_ok, Opens.result_pure]
    exact ⟨path, hpath, file, hfile, rfl⟩

/-- Extents whose parts are there are opened. -/
theorem openFrom_of_parts (h : List.Forall₂ (PartOf fs dir) exts parts) :
    ∃ out, (MultiExtentReader.openFrom fs dir virt exts).result = .ok out := by
  induction h generalizing virt with
  | nil => exact ⟨([], virt), rfl⟩
  | @cons ext part exts parts hpart _ ih =>
    obtain ⟨file, hfile⟩ := openExtent_of_partOf hpart
    obtain ⟨⟨flats, total⟩, hrest⟩ := @ih (wrapAdd virt (wrapMul ext.sizeSectors 512))
    unfold MultiExtentReader.openFrom
    simp only [Opens.result_bind, bind_eq_ok, Opens.result_pure]
    exact ⟨_, file, hfile, (flats, total), hrest, rfl⟩

theorem open_of_parts (h : List.Forall₂ (PartOf fs dir) exts parts) :
    ∃ m, (MultiExtentReader.open fs dir exts).result = .ok m := by
  obtain ⟨out, hout⟩ := @openFrom_of_parts _ _ _ _ 0 h
  unfold MultiExtentReader.open
  simp only [Opens.result_bind, bind_eq_ok, Opens.result_pure]
  exact ⟨_, out, hout, rfl⟩

/-- The lines ask for the lengths of the parts. -/
theorem extentBytes_eq (h : List.Forall₂ (PartOf fs dir) exts parts) :
    MultiExtentReader.extentBytes exts = parts.map List.length := by
  induction h with
  | nil => rfl
  | @cons ext part exts parts hpart _ ih =>
    show ext.sizeSectors * 512 :: MultiExtentReader.extentBytes exts = _
    rw [ih, List.map_cons, hpart.length]
    rfl

theorem startOf_eq (h : List.Forall₂ (PartOf fs dir) exts parts) (i : Nat) :
    MultiExtentReader.startOf exts i = Pack.start parts i := by
  unfold MultiExtentReader.startOf Pack.start
  rw [extentBytes_eq h, ← List.map_take, List.length_flatten]

theorem sectors_eq (h : List.Forall₂ (PartOf fs dir) exts parts) :
    (exts.map ExtentEntry.sizeSectors).sum * sectorSize = parts.flatten.length := by
  induction h with
  | nil => rfl
  | cons hpart _ ih =>
    rw [List.map_cons, List.sum_cons, Nat.add_mul, ih, List.flatten_cons, List.length_append,
      hpart.length]

/-- The bytes of a part are those of its extent. -/
theorem PartOf.byte (h : PartOf fs dir ext part) (hk : k < part.length) :
    MultiExtentReader.extentByte fs dir ext k = part[k]? := by
  unfold MultiExtentReader.extentByte MultiExtentReader.extentFile
  cases hzero : ext.isZero with
  | true =>
    rw [h.length] at hk
    rw [if_pos rfl, h.zero hzero, List.getElem?_replicate_of_lt hk]
  | false =>
    obtain ⟨path, file, hpath, hfile, hslice, -⟩ := h.stored hzero
    rw [hpath]
    simp only [Bool.false_eq_true, if_false, Except.toOption, Option.bind_some, hfile]
    have hget := getElem?_slice file.bytes ext.fileByteOffset part.length k
    rw [if_pos hk, hslice] at hget
    exact hget.symm

/-- A read of an extent delivers bytes as long as any are left. -/
theorem PartOf.readAt {flat : FlatExtent} (h : PartOf fs dir ext part)
    (hmade : MultiExtentReader.ExtentFrom fs dir ext flat) (hfile : flat.file = some file)
    (hk : k < part.length) (hn : 0 < n) :
    ∃ b bs, file.readAt (wrapAdd flat.fileOffset k) n = .ok (b :: bs) := by
  have hzero : ext.isZero = false := by
    by_contra hzero
    have hnone := hmade.file
    unfold MultiExtentReader.extentFile at hnone
    rw [if_pos (Bool.eq_true_of_not_eq_false hzero), hfile] at hnone
    cases hnone
  obtain ⟨path, file', hpath, hopen, -, hin⟩ := h.stored hzero
  have hsame : file = file' := by
    have hmade := hmade.file
    unfold MultiExtentReader.extentFile at hmade
    rw [hzero, hpath, hfile] at hmade
    simp only [Bool.false_eq_true, if_false, Except.toOption, Option.bind_some, hopen] at hmade
    exact Option.some.inj hmade
  subst hsame
  have hlt := file.length_lt
  rw [hmade.fileOffset, wrapAdd_eq (by unfold u64Size; omega)]
  unfold Source.readAt
  rw [if_pos (file.seekable_of_le _ (by omega))]
  have hchunk := file.chunk_pos (ext.fileByteOffset + k) n (by omega) hn
  cases hread : file.read (ext.fileByteOffset + k) n with
  | cons b bs => exact ⟨b, bs, rfl⟩
  | nil =>
    have hlen := length_slice file.bytes (ext.fileByteOffset + k)
      (file.chunk (ext.fileByteOffset + k) n)
    unfold Source.read at hread
    rw [hread, List.length_nil] at hlen
    omega

/-- A read inside the disk delivers, and first the byte of the parts. -/
theorem readHere_of_parts (h : List.Forall₂ (PartOf fs dir) exts parts)
    (hopen : (MultiExtentReader.open fs dir exts).result = .ok m)
    (hfits : parts.flatten.length < 2 ^ 63) (ho : o < parts.flatten.length) (hn : 0 < n) :
    ∃ b bs, m.readHere o n = .ok (b :: bs) ∧ parts.flatten[o]? = some b := by
  have hsum : (MultiExtentReader.extentBytes exts).sum = parts.flatten.length := by
    rw [extentBytes_eq h, List.length_flatten]
  have hcat := MultiExtentReader.open_concatenated hopen (by unfold u64Size; omega)
  have htotal := hcat.total.trans hsum
  obtain ⟨i, flat, hi, hfind, hlaid, hge, hlt⟩ := hcat.covered o (by omega)
  obtain ⟨ext, hext, hmade⟩ := hlaid.made
  obtain ⟨part, hpart, hof⟩ : ∃ part, parts[i]? = some part ∧ PartOf fs dir ext part := by
    have hi' : i < parts.length := h.length_eq ▸ hi
    refine ⟨parts[i], List.getElem?_eq_getElem hi', ?_⟩
    rw [List.getElem?_eq_getElem hi] at hext
    exact Option.some.inj hext ▸ h.get hi hi'
  rw [startOf_eq h] at hge hlt
  rw [Pack.start_succ hpart] at hlt
  have hk : o - Pack.start parts i < part.length := by omega
  have hbyte : parts.flatten[o]? = part[o - Pack.start parts i]? := by
    have hflat := Pack.getElem?_flatten hpart hk []
    rw [List.append_nil, Nat.add_sub_cancel' hge] at hflat
    exact hflat
  have hend : flat.byteEnd = Pack.start parts i + part.length := by
    rw [hlaid.stop, startOf_eq h, Pack.start_succ hpart]
  obtain ⟨b, bs, hread⟩ : ∃ b bs, m.readHere o n = .ok (b :: bs) := by
    unfold MultiExtentReader.readHere
    rw [if_neg (by omega), hfind]
    simp only [hlaid.start, startOf_eq h, hend, htotal]
    have hmin : 0 < min (min n (Pack.start parts i + part.length - o))
        (parts.flatten.length - o) := by omega
    generalize min (min n (Pack.start parts i + part.length - o)) (parts.flatten.length - o) = k
      at hmin ⊢
    cases hfile : flat.file with
    | some file => exact hof.readAt hmade hfile hk hmin
    | none =>
      obtain ⟨k, rfl⟩ := Nat.exists_eq_add_of_lt hmin
      exact ⟨0, List.replicate (0 + k) 0, rfl⟩
  refine ⟨b, bs, hread, ?_⟩
  have hdelivers := (hlaid.read hext hfind (by omega) hn fun hzero => ?_).2 _ hread
  · have hfirst := hdelivers.2 0 b rfl
    rw [Nat.add_zero, startOf_eq h, hof.byte hk] at hfirst
    rw [hbyte, hfirst]
  · obtain ⟨-, file, -, -, -, hin⟩ := hof.stored hzero
    have hlt := file.length_lt
    rw [startOf_eq h]
    unfold u64Size
    omega

end Extents

/-- The descriptor at `path` says what `doc` says, it is of flat extents, and their parts are there. -/
structure StoredIn (fs : FileSystem) (path : FilePath) (doc : DescriptorDoc) (eol : LineEnd)
    (parts : List (List UInt8)) : Prop where
  file : ∃ file, fs path = .ok file ∧ file.bytes = utf8Encode (doc.text eol)
  wellFormed : doc.WellFormed
  utf8 : SaysUtf8 (doc.text eol)
  branch : VmdkReader.branchOf (doc.parsed eol) = some .flatExtents
  extents : List.Forall₂ (PartOf fs (VmdkReader.directoryOf path)) doc.flatExtents parts
  fits : parts.flatten.length < 2 ^ 63

variable {fs : FileSystem} {path : FilePath} {doc : DescriptorDoc} {eol : LineEnd}
  {parts : List (List UInt8)}

/-- A descriptor that is written out is read as text. -/
theorem readExactAt_text {file : Source} (hfile : file.bytes = utf8Encode (doc.text eol)) :
    file.readExactAt 0 1 = .ok [35] := by
  have hbytes : ∃ rest, file.bytes = 35 :: rest := by
    rw [hfile]
    exact ⟨_, rfl⟩
  obtain ⟨rest, hrest⟩ := hbytes
  have hlen : 0 + 1 ≤ file.bytes.length := by
    rw [hrest, List.length_cons]
    omega
  rw [Source.readExactAt_of_le hlen, hrest]
  rfl

/-- The extents of the descriptor are opened. -/
theorem openPath_eq (h : StoredIn fs path doc eol parts) (origin : Origin) :
    ∃ m, (MultiExtentReader.open fs (VmdkReader.directoryOf path) doc.flatExtents).result = .ok m ∧
      (VmdkReader.openPath fs origin path).result = .ok (VmdkReader.descriptorImage (doc.parsed eol)
        (.multiExtent m) parts.flatten.length).reader := by
  obtain ⟨file, hfile, hbytes⟩ := h.file
  obtain ⟨m, hm⟩ := open_of_parts h.extents
  have hdecode : decodeDescriptor file.bytes = doc.text eol := by
    have hdecode := doc.decode_text h.wellFormed h.utf8 0
    rw [List.replicate_zero, List.append_nil] at hdecode
    rw [hbytes, hdecode]
  have hparse : parseTextDescriptor (decodeDescriptor file.bytes) = .ok (doc.parsed eol) := by
    rw [hdecode]
    exact DescriptorDoc.parse_text h.wellFormed eol
  have hcapacity : (doc.parsed eol).capacitySectors * sectorSize = parts.flatten.length :=
    sectors_eq h.extents
  refine ⟨m, hm, VmdkReader.openPath_of_descriptor hfile (readExactAt_text hbytes) hparse ?_⟩
  rw [VmdkReader.openDescriptor_flat h.branch, ← hcapacity]
  unfold VmdkReader.openFlatExtents
  simp only [Opens.result_bind, bind_eq_ok, Opens.result_mapError, mapError_eq_ok,
    Opens.result_lift, ensure_eq_ok, Opens.result_pure]
  have hfits : (doc.parsed eol).capacitySectors * sectorSize < u64Size := by
    have := h.fits
    unfold u64Size
    omega
  exact ⟨m, hm, ⟨hfits⟩, hfits, rfl⟩

variable [ZlibDecoder]

/-- The image of flat extents holds their parts, in either mode. -/
theorem holds (h : StoredIn fs path doc eol parts) {m : MultiExtentReader}
    (hm : (MultiExtentReader.open fs (VmdkReader.directoryOf path) doc.flatExtents).result = .ok m)
    (fallback : Bool) :
    (VmdkReader.descriptorImage (doc.parsed eol) (.multiExtent m)
      parts.flatten.length).Holds fallback parts.flatten := by
  have hfits := h.fits
  have hshaped : (VmdkReader.descriptorImage (doc.parsed eol) (.multiExtent m)
      parts.flatten.length).Shaped := by
    refine ⟨Nat.lt_trans hfits (show 2 ^ 63 < u64Size by decide), ?_,
      MultiExtentReader.open_chained hm⟩
    show sectorSize ∣ parts.flatten.length
    rw [← sectors_eq h.extents]
    exact Nat.dvd_mul_left _ _
  refine Image.Holds.of_readAt hshaped rfl hfits fun o ho len hlen => ?_
  change o < parts.flatten.length at ho
  obtain ⟨b, bs, hread, hbyte⟩ := readHere_of_parts (n := min len (parts.flatten.length - o))
    h.extents hm hfits ho (by omega)
  refine ⟨b, bs, ?_, hbyte⟩
  have hseek : Cursor.seek 0 m.totalBytes (.start (UInt64.ofNat o)) = .ok o := by
    have hto : (UInt64.ofNat o).toNat = o := UInt64.toNat_ofNat_of_lt (by unfold UInt64.size; omega)
    rw [Cursor.seek_start (by omega), hto]
  show (Image.readAtCounting _ fallback o len).1 = _
  unfold Image.readAtCounting
  have hinside : ¬ (parts.flatten.length ≤ o ∨ len = 0) := by omega
  have hlast : m.readAt o (min len (parts.flatten.length - o)) = .ok (b :: bs) := by
    unfold MultiExtentReader.readAt
    rw [hseek]
    exact hread
  exact (if_neg hinside).symm ▸ hlast

/-- What the reader of a disk says of it. -/
structure ReadsParts (fs : FileSystem) (origin : Origin) (path : FilePath) (doc : DescriptorDoc)
    (eol : LineEnd) (bytes : List UInt8) (r : VmdkReader) : Prop where
  opened : (VmdkReader.openPath fs origin path).result = .ok r
  presents : r.Presents bytes ∧ r.enableRgdFallback.Presents bytes
  info : r.info.diskType = doc.createType ∧ r.info.cid = doc.cid ∧ r.info.parentCid = doc.parentCid
  size : r.info.virtualDiskSize = bytes.length
  database : DiskDatabase.pairs r.info.descriptorText = doc.ddb

/-- **A disk in flat extents is read back**: it presents its parts one after another, and is what its
descriptor says. -/
theorem reads_back (h : StoredIn fs path doc eol parts) (origin : Origin) :
    ∃ r, ReadsParts fs origin path doc eol parts.flatten r := by
  obtain ⟨m, hm, hopen⟩ := openPath_eq h origin
  exact ⟨_, {
    opened := hopen
    presents := ⟨(holds h hm false).run_accepted (VmdkReader.at_reader _),
      (holds h hm true).run_accepted (VmdkReader.at_enableRgdFallback _)⟩
    info := ⟨rfl, rfl, rfl⟩
    size := rfl
    database := DescriptorDoc.pairs_text h.wellFormed eol }⟩

end FlatDisk

namespace FlatDisk

/-- A disk of the second sector of a file and a sector of zeros. -/
def twoPartsDoc : DescriptorDoc where
  createType := "twoGbMaxExtentFlat".toList
  cid := 0x1234
  parentCid := 0xffffffff
  parentFileNameHint := none
  changeTrackPath := none
  extents := [.inl ⟨1, "part-f001.vmdk".toList, 512, false⟩, .inl ⟨1, [], 0, true⟩]
  ddb := []

theorem wellFormed_twoPartsDoc : twoPartsDoc.WellFormed where
  createType := by decide +kernel
  cid := by decide
  parentCid := by decide
  hint := by decide +kernel
  track := by decide +kernel
  extents := by decide +kernel
  ddb := by decide +kernel
  flatFits := by decide
  sparseFits := by decide

/-- The descriptor, and a file of two sectors. -/
def twoPartsFiles : FileSystem := fun path =>
  if path = "disk.vmdk".toList then
    .ok (.ofBytes (utf8Encode (twoPartsDoc.text .crlf)) (by decide +kernel))
  else .ok MultiExtentReader.twoSectors

theorem slice_twoSectors : slice MultiExtentReader.twoSectorsBytes 512 512 = List.replicate 512 7 := by
  unfold slice MultiExtentReader.twoSectorsBytes
  rw [List.drop_replicate, List.take_replicate]
  exact congrArg (List.replicate · 7) (by decide)

theorem partOf_second {part : List UInt8} (hlength : part.length = 512)
    (hslice : slice MultiExtentReader.twoSectorsBytes 512 512 = part) :
    PartOf twoPartsFiles (VmdkReader.directoryOf "disk.vmdk".toList)
      ⟨1, "part-f001.vmdk".toList, 512, false⟩ part where
  length := hlength
  zero := fun h => by cases h
  stored := by
    intro _
    have hpath : resolveExtentPath (VmdkReader.directoryOf "disk.vmdk".toList)
        "part-f001.vmdk".toList = .ok (FilePath.join (VmdkReader.directoryOf "disk.vmdk".toList)
          "part-f001.vmdk".toList) := by decide +kernel
    refine ⟨_, MultiExtentReader.twoSectors, hpath, if_neg (by decide +kernel), ?_, ?_⟩
    · rw [hlength]
      exact hslice
    · have hfile := MultiExtentReader.twoSectorsBytes_length
      show 512 + part.length ≤ MultiExtentReader.twoSectorsBytes.length
      omega

theorem storedIn_twoParts : StoredIn twoPartsFiles "disk.vmdk".toList twoPartsDoc .crlf
    [List.replicate 512 7, List.replicate 512 0] where
  file := ⟨_, if_pos rfl, rfl⟩
  wellFormed := wellFormed_twoPartsDoc
  utf8 := by decide +kernel
  branch := by decide +kernel
  extents := .cons (partOf_second List.length_replicate slice_twoSectors)
    (.cons ⟨List.length_replicate, fun _ => rfl, fun h => by cases h⟩ .nil)
  fits := by decide +kernel

theorem reads_back_twoParts : let _ := Stored.decoder
    ∃ r, ReadsParts twoPartsFiles .caller "disk.vmdk".toList twoPartsDoc .crlf
      [List.replicate 512 7, List.replicate 512 0].flatten r :=
  letI := Stored.decoder
  reads_back storedIn_twoParts .caller

end FlatDisk
