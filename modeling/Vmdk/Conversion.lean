import Vmdk.FlatDisk
import Vmdk.Truncation

/-! # Passes over a disk, and disks made of their output

The commands that pass over a disk (`dump`, `dump --hex`, `hash`) are told by its
bytes alone, whatever its format (`Cli.passes_of_holds`). A dump of a whole disk,
named by a flat descriptor, is the same disk again, and dumped again it is the
same file (`FlatDisk.dump_reopens`). -/

open Bytes Text Word

namespace Cli

/-- `hash` of a path: the bytes that are digested. -/
def cmdHash [ZlibDecoder] (fs : FileSystem) (path : FilePath) (recover : Bool) :
    Except VmdkError (Option (Except IoError (List UInt8))) := do
  let reader ← (VmdkReader.openPath fs .caller path).result
  let reader := if recover then reader.enableRgdFallback else reader
  return (reader.seek (.start 0)).2.hash.map Prod.fst

/-- What the commands that pass over a disk print where it is the list of bytes. -/
structure Passes [ZlibDecoder] (fs : FileSystem) (path : FilePath) (recover : Bool)
    (bytes : List UInt8) : Prop where
  dump : ∀ output offset length, offset.toNat < 2 ^ 63 →
    cmdDump fs path output offset length recover false =
      ⟨.ok (), some (slice bytes offset.toNat (requested bytes.length offset length))⟩
  refused : ∀ output offset length, 2 ^ 63 ≤ offset.toNat →
    cmdDump fs path output offset length recover false = ⟨.error (.seek Cursor.beforeStart), none⟩
  hex : ∀ offset length, offset.toNat < 2 ^ 63 → ∃ rows,
    cmdDumpHex fs path offset length recover = .ok rows ∧
      rows.flatten = slice bytes offset.toNat (requested bytes.length offset length) ∧
      ∀ row ∈ rows, 0 < row.length ∧ row.length ≤ 16
  hash : cmdHash fs path recover = .ok (some (.ok bytes))

/-- A part of the window from the front. -/
theorem slice_window {A : Nat → UInt8} {size o n : Nat} (h : o + n ≤ size ∨ n = 0) :
    slice (Copy.window A 0 size) o n = Copy.window A o n := by
  refine List.ext_getElem? fun i => ?_
  rw [getElem?_slice]
  by_cases hi : i < n
  · rw [if_pos hi, Copy.getElem?_window A (by omega), Copy.getElem?_window A hi, Nat.zero_add]
  · rw [if_neg hi, List.getElem?_eq_none]
    rw [Copy.length_window]
    omega

variable {fs : FileSystem} {path : FilePath} {opened : VmdkReader} {recover : Bool}
  {bytes : List UInt8}

/-- What is requested lies in the disk. -/
theorem requested_within (size : Nat) (offset : UInt64) (length : Option UInt64) :
    offset.toNat + requested size offset length ≤ size ∨ requested size offset length = 0 := by
  have := requested_le size offset length
  omega

/-- The reader that a command works with. -/
theorem at_opened (hopen : (VmdkReader.openPath fs .caller path).result = .ok opened) (recover : Bool) :
    VmdkReader.At opened.toImage recover 0 (if recover then opened.enableRgdFallback else opened) := by
  obtain ⟨im, rfl, -⟩ := openPath_shaped hopen
  cases recover with
  | false => exact VmdkReader.at_reader im
  | true => exact VmdkReader.at_enableRgdFallback im

/-- A seek beyond the range of an `i64` is refused. -/
theorem seek_refused (reader : VmdkReader) {offset : UInt64} (hoff : 2 ^ 63 ≤ offset.toNat) :
    reader.seek (.start offset) = (.error Cursor.beforeStart, reader) := by
  unfold VmdkReader.seek
  rw [Cursor.seek_start_refused hoff]

variable {offset : UInt64}

/-- The seek of a command that is asked for an offset in the range. -/
theorem seek_opened (hopen : (VmdkReader.openPath fs .caller path).result = .ok opened)
    (recover : Bool) (hoff : offset.toNat < 2 ^ 63) :
    ∃ s, (if recover then opened.enableRgdFallback else opened).seek (.start offset) =
      (.ok offset.toNat, s) ∧ VmdkReader.At opened.toImage recover offset.toNat s := by
  have hseek := (at_opened hopen recover).seek hoff
  rwa [UInt64.ofNat_toNat] at hseek

variable [ZlibDecoder]

/-- **A hex dump of a readable disk** prints what was asked for, at most 16 bytes to a row. -/
theorem cmdDumpHex_window (hopen : (VmdkReader.openPath fs .caller path).result = .ok opened)
    (hreads : opened.toImage.ReadableIn recover) (hoff : offset.toNat < 2 ^ 63)
    (length : Option UInt64) :
    ∃ rows, cmdDumpHex fs path offset length recover = .ok rows ∧
      rows.flatten = Copy.window (opened.toImage.diskByte recover) offset.toNat
        (requested opened.virtualDiskSize offset length) ∧
      ∀ row ∈ rows, 0 < row.length ∧ row.length ≤ 16 := by
  have hshaped : opened.toImage.Shaped := by
    obtain ⟨im, rfl, hshaped⟩ := openPath_shaped hopen
    exact hshaped
  obtain ⟨s, hseek, hs⟩ := seek_opened hopen recover hoff
  have hask : ∀ n, 0 < n → 0 < min 16 n ∧ min 16 n ≤ n := by
    intro n hn
    omega
  obtain ⟨parts, s', hdump, hflat, hparts⟩ := Copy.pump_parts
    (fun (rows : List (List UInt8)) bs => rows ++ [bs]) (hreads.serves hshaped) hask hs
    (Nat.le_refl (requested opened.virtualDiskSize offset length)) []
  rw [Nat.min_eq_left (requested_le _ _ _)] at hflat
  rw [foldl_rows, List.nil_append] at hdump
  refine ⟨parts, ?_, hflat, fun part hpart => ?_⟩
  · have hsize : s.virtualDiskSize = opened.virtualDiskSize :=
      congrArg Image.virtualDiskSize hs.image
    unfold cmdDumpHex dumpHex
    rw [hopen]
    simp only
    rw [hseek]
    simp only [hsize, hdump]
    rfl
  · obtain ⟨hpos, m, hle⟩ := hparts part hpart
    exact ⟨hpos, Nat.le_trans hle (Nat.min_le_left _ _)⟩

/-- Nothing is printed for an offset that cannot be sought. -/
theorem cmdDumpHex_refused (hopen : (VmdkReader.openPath fs .caller path).result = .ok opened)
    (hoff : 2 ^ 63 ≤ offset.toNat) (length : Option UInt64) :
    cmdDumpHex fs path offset length recover = .error (.seek Cursor.beforeStart) := by
  unfold cmdDumpHex
  rw [hopen]
  simp only
  rw [seek_refused _ hoff]

/-- **The commands that pass over a disk are told by its bytes.** -/
theorem passes_of_holds (hopen : (VmdkReader.openPath fs .caller path).result = .ok opened)
    (h : opened.toImage.Holds recover bytes) : Passes fs path recover bytes := by
  have hat := at_opened hopen recover
  have hserves := h.readable.serves h.shaped
  have hlength := h.length_eq
  have hwindow (offset : UInt64) (length : Option UInt64) :
      Copy.window (opened.toImage.diskByte recover) offset.toNat
        (requested opened.virtualDiskSize offset length) =
          slice bytes offset.toNat (requested bytes.length offset length) := by
    have hall : Copy.window (opened.toImage.diskByte recover) 0 bytes.length = bytes := by
      rw [hlength]
      exact h.window
    have hslice := @slice_window (opened.toImage.diskByte recover) _ _ _
      (requested_within bytes.length offset length)
    rw [hall] at hslice
    rw [← hlength]
    exact hslice.symm
  refine ⟨fun output offset length hoff => ?_, fun output offset length hoff => ?_,
    fun offset length hoff => ?_, ?_⟩
  · obtain ⟨s, hseek, hs⟩ := seek_opened hopen recover hoff
    obtain ⟨s', hcopy, -⟩ := copyN_window h.readable h.shaped hs .create
      (requested opened.virtualDiskSize offset length)
    rw [Nat.min_eq_left (requested_le _ _ _), hwindow] at hcopy
    unfold cmdDump
    rw [hopen]
    simp only [Bool.false_eq_true, if_false]
    rw [hseek]
    have hsize : (if recover then opened.enableRgdFallback else opened).virtualDiskSize =
        opened.virtualDiskSize := congrArg Image.virtualDiskSize hat.image
    simp only [hsize, hcopy, OutFile.bytes_writeAll_create]
    rfl
  · unfold cmdDump
    rw [hopen]
    simp only [Bool.false_eq_true, if_false]
    rw [seek_refused _ hoff]
  · obtain ⟨rows, hrows, hflat, hwidth⟩ := cmdDumpHex_window hopen h.readable hoff length
    exact ⟨rows, hrows, hflat.trans (hwindow offset length), hwidth⟩
  · obtain ⟨s, hseek, hs⟩ := seek_opened hopen recover (by decide : (0 : UInt64).toNat < 2 ^ 63)
    have hend : s.virtualDiskSize = opened.virtualDiskSize :=
      congrArg Image.virtualDiskSize hs.image
    obtain ⟨s', hdrain⟩ : ∃ s', Copy.drain VmdkReader.read 65536 (opened.virtualDiskSize + 1) s [] =
        some (.ok ([] ++ Copy.window (opened.toImage.diskByte recover) 0
          (opened.virtualDiskSize - 0)), s') :=
      Copy.drain_window hserves (by decide) hs (Nat.lt_succ_of_le (Nat.sub_le _ 0)) []
    unfold cmdHash
    rw [hopen]
    simp only [bind, Except.bind, pure, Except.pure]
    rw [hseek]
    unfold VmdkReader.hash
    simp only [hend]
    rw [hdrain, List.nil_append, Nat.sub_zero, h.window]
    rfl

end Cli

namespace FlatDisk

/-- The descriptor of a disk that is one file. -/
def imageDoc (name : Text) (cid sectors : Nat) : DescriptorDoc where
  createType := "monolithicFlat".toList
  cid := cid
  parentCid := 0xffffffff
  parentFileNameHint := none
  changeTrackPath := none
  extents := [.inl ⟨sectors, name, 0, false⟩]
  ddb := []

/-- The bytes stand under a name in the directory of `path`, where a flat descriptor names them. -/
structure Imported (fs : FileSystem) (path : FilePath) (name : Text) (cid : Nat) (eol : LineEnd)
    (bytes : List UInt8) : Prop where
  descriptor : ∃ file, fs path = .ok file ∧
    file.bytes = utf8Encode ((imageDoc name cid (bytes.length / sectorSize)).text eol)
  image : ∃ path' file, resolveExtentPath (VmdkReader.directoryOf path) name = .ok path' ∧
    fs path' = .ok file ∧ file.bytes = bytes
  quotable : Quotable name
  cid_lt : cid < 2 ^ 32
  utf8 : SaysUtf8 ((imageDoc name cid (bytes.length / sectorSize)).text eol)

variable {fs : FileSystem} {path : FilePath} {name : Text} {cid sectors : Nat} {eol : LineEnd}
  {bytes : List UInt8}

theorem quotable_monolithicFlat : Quotable "monolithicFlat".toList := by decide +kernel

theorem wellFormed_imageDoc (hname : Quotable name) (hcid : cid < 2 ^ 32)
    (hsectors : sectors < 2 ^ 64) : (imageDoc name cid sectors).WellFormed where
  createType := quotable_monolithicFlat
  cid := hcid
  parentCid := show 0xffffffff < 2 ^ 32 by decide
  hint := by
    intro t ht
    cases ht
  track := by
    intro t ht
    cases ht
  extents := by
    intro ext hext
    rw [List.mem_singleton.mp hext]
    exact ⟨hsectors, hname, show 0 < 2 ^ 64 by decide, rfl, fun h => by cases h⟩
  ddb := by
    intro e he
    cases he
  flatFits := by
    show sectors + 0 < u64Size
    unfold u64Size
    omega
  sparseFits := show 0 < u64Size by decide

/-- Whole sectors that are imported are a disk of one part. -/
theorem Imported.storedIn (h : Imported fs path name cid eol bytes)
    (hdvd : sectorSize ∣ bytes.length) :
    StoredIn fs path (imageDoc name cid (bytes.length / sectorSize)) eol [bytes] := by
  obtain ⟨path', file, hpath, hfile, rfl⟩ := h.image
  have hlt := file.length_lt
  have hlength : file.bytes.length = file.bytes.length / sectorSize * sectorSize :=
    (Nat.div_mul_cancel hdvd).symm
  refine {
    file := h.descriptor
    wellFormed := wellFormed_imageDoc h.quotable h.cid_lt
      (Nat.lt_of_le_of_lt (Nat.div_le_self _ _) (by omega))
    utf8 := h.utf8
    branch := rfl
    extents := .cons ?_ .nil
    fits := by rwa [List.flatten_singleton] }
  exact {
    length := hlength
    zero := fun hzero => by cases hzero
    stored := fun _ => ⟨path', file, hpath, hfile, by simp [slice], by simp⟩ }

variable [ZlibDecoder]

/-- The dump of a disk is these bytes; and they are the disk, wherever they are imported. -/
structure Exports (fs : FileSystem) (path : FilePath) (recover : Bool) (opened : VmdkReader)
    (bytes : List UInt8) : Prop where
  dumped : ∀ output, Cli.cmdDump fs path output 0 none recover false = ⟨.ok (), some bytes⟩
  length : bytes.length = opened.virtualDiskSize
  presents : (if recover then opened.enableRgdFallback else opened).Presents bytes
  imported : ∀ fs' path' name cid eol, Imported fs' path' name cid eol bytes →
    (∃ r, ReadsParts fs' .caller path' (imageDoc name cid (bytes.length / sectorSize)) eol bytes r) ∧
      ∀ recover', Cli.Passes fs' path' recover' bytes

/-- **A dump that a flat descriptor names is the same disk**, whatever the format of the disk that was
dumped, and dumped again it is the same file. -/
theorem dump_reopens {opened : VmdkReader} {recover : Bool}
    (hopen : (VmdkReader.openPath fs .caller path).result = .ok opened)
    (hreads : opened.toImage.ReadableIn recover) (hsize : opened.virtualDiskSize < 2 ^ 63) :
    ∃ bytes, Exports fs path recover opened bytes := by
  have hshaped : opened.toImage.Shaped := by
    obtain ⟨im, rfl, hshaped⟩ := openPath_shaped hopen
    exact hshaped
  have hholds : opened.toImage.Holds recover
      (Copy.window (opened.toImage.diskByte recover) 0 opened.virtualDiskSize) :=
    ⟨hshaped, hsize, hreads, rfl⟩
  generalize Copy.window (opened.toImage.diskByte recover) 0 opened.virtualDiskSize = bytes at hholds
  have hlength := hholds.length_eq
  have hdvd : sectorSize ∣ bytes.length := hlength ▸ hshaped.size_dvd
  refine ⟨bytes, fun output => ?_, hlength, hholds.run_accepted (Cli.at_opened hopen recover), ?_⟩
  · have hdump := (Cli.passes_of_holds hopen hholds).dump output 0 none (by decide)
    have hwhole : slice bytes (0 : UInt64).toNat (Cli.requested bytes.length 0 none) = bytes := by
      show (bytes.drop 0).take (bytes.length - 0) = bytes
      rw [List.drop_zero, Nat.sub_zero, List.take_length]
    rwa [hwhole] at hdump
  · intro fs' path' name cid eol himported
    have hstored := himported.storedIn hdvd
    obtain ⟨r, hr⟩ := reads_back hstored .caller
    obtain ⟨m, hm, hopen'⟩ := openPath_eq hstored .caller
    rw [List.flatten_singleton] at hr hopen'
    refine ⟨⟨r, hr⟩, fun recover' => Cli.passes_of_holds hopen' ?_⟩
    have hagain := holds hstored hm recover'
    rwa [List.flatten_singleton] at hagain

end FlatDisk

/-! ## The disk of a truncated seSparse extent -/

namespace FlatDisk

/-- A directory that holds an image and the descriptor that names it. -/
def importedFiles (doc image : Source) : FileSystem := fun path =>
  if path = "disk.vmdk".toList then .ok doc else .ok image

/-- The descriptor of a disk of eight sectors. -/
def eightSectors : Source :=
  .ofBytes (utf8Encode ((imageDoc "disk-flat.vmdk".toList 1 8).text .lf)) (by decide +kernel)

theorem imported_eightSectors (image : Source) (hsize : image.bytes.length = 4096) :
    Imported (importedFiles eightSectors image) "disk.vmdk".toList "disk-flat.vmdk".toList 1 .lf
      image.bytes := by
  have hpath : resolveExtentPath (VmdkReader.directoryOf "disk.vmdk".toList) "disk-flat.vmdk".toList =
      .ok (FilePath.join (VmdkReader.directoryOf "disk.vmdk".toList) "disk-flat.vmdk".toList) := by
    decide +kernel
  refine ⟨⟨eightSectors, if_pos rfl, ?_⟩, ⟨_, image, hpath, if_neg (by decide +kernel), rfl⟩,
    by decide +kernel, by decide, ?_⟩
  · rw [hsize]
    rfl
  · rw [hsize]
    decide +kernel

/-- The disk of `cutTable` is read whole, as no grain of its last table is one of the disk; and its dump
can be imported. -/
theorem dump_reopens_cutTable :
    letI := Stored.decoder
    ∃ r bytes, VmdkReader.open Cli.cutTable = .ok r ∧
      Exports (fun _ => .ok Cli.cutTable) [] false r bytes ∧
      ∀ image : Source, image.bytes = bytes → Imported (importedFiles eightSectors image)
        "disk.vmdk".toList "disk-flat.vmdk".toList 1 .lf bytes := by
  let _ := Stored.decoder
  obtain ⟨r, hr⟩ := exists_of_isOk (x := VmdkReader.open Cli.cutTable) (by decide +kernel)
  have hsize : r.virtualDiskSize = 4096 := by
    have hfields : (VmdkReader.open Cli.cutTable).map (fun r => r.virtualDiskSize) = .ok 4096 := by
      decide +kernel
    rw [hr] at hfields
    exact Except.ok.inj hfields
  have hopen : (VmdkReader.openPath (fun _ => .ok Cli.cutTable) .caller []).result = .ok r :=
    VmdkReader.openPath_binary rfl hr
  obtain ⟨bytes, hexports⟩ :=
    dump_reopens hopen (Cli.cutTable_readable hr false) (by rw [hsize]; decide)
  refine ⟨r, bytes, hr, hexports, fun image himage => ?_⟩
  rw [← himage]
  exact imported_eightSectors image (by rw [himage, hexports.length, hsize])

end FlatDisk
