import Vmdk.AllocSound
import Vmdk.Stream

/-! # The command `dump`

A plain dump copies the disk from the front. With `--allocated-only` the output
file is first made as long as the disk, and then only the listed grains are
copied, each to its own place. Holes read as zeros, and so do the sectors that
no grain holds; the two files are equal whenever the scan succeeds
(`Cli.sparse_dump_exact`). -/

open Bytes Word

namespace Cli

/-- Why `dump` fails. -/
inductive DumpFailure where
  | opens (e : VmdkError)
  | needsOutput
  | scan (e : IoError)
  | seek (e : IoError)
  | write (e : IoError)
deriving DecidableEq, Repr

/-- What a run of `dump` leaves. -/
structure Dumped where
  outcome : Except DumpFailure Unit
  /-- The bytes of the output file, or of the standard output; `none` before a file is made. -/
  written : Option (List UInt8)
deriving DecidableEq, Repr

def dumpBuffer : Nat := 65536

section Commands
variable [ZlibDecoder]

/-- Copy `n` bytes from the reader to `w`. A read that is not the last delivers a byte, so `n` rounds
are enough. -/
def copyN (reader : VmdkReader) (w : OutFile) (n : Nat) : Except IoError Unit × VmdkReader × OutFile :=
  Copy.pump VmdkReader.read OutFile.writeAll (min dumpBuffer) n reader w n

/-- The loop of `dump_allocated_only`. -/
def copyGrains : VmdkReader → OutFile → List AllocatedGrain → Except DumpFailure Unit × OutFile
  | _, file, [] => (.ok (), file)
  | reader, file, g :: grains =>
    let off := g.startLba * sectorSize
    let len := g.sectorCount * sectorSize
    match reader.seek (.start (UInt64.ofNat off)) with
    | (.error e, _) => (.error (.seek e), file)
    | (.ok _, reader) =>
      match copyN reader (file.seek off) len with
      | (.error e, _, file) => (.error (.write e), file)
      | (.ok _, reader, file) => copyGrains reader file grains

/-- Only the allocated grains, each at its place; this needs an output file. -/
def dumpAllocatedOnly (reader : VmdkReader) (output : Bool) : Dumped :=
  if !output then ⟨.error .needsOutput, none⟩ else
  let diskSize := reader.virtualDiskSize
  match reader.iterAllocatedGrains with
  | (.error e, _) => ⟨.error (.scan e), none⟩
  | (.ok grains, reader) =>
    let copied := copyGrains reader (OutFile.create.setLen diskSize) grains
    ⟨copied.1, some copied.2.bytes⟩

/-- How many bytes `dump` is asked for. -/
def requested (diskSize : Nat) (offset : UInt64) (length : Option UInt64) : Nat :=
  (length.elim diskSize fun len => min (satAdd offset.toNat len.toNat) diskSize) - offset.toNat

/-- `dump` of `length` bytes from `offset` on; `output` says whether a file is named for them. -/
def cmdDump (fs : FileSystem) (path : FilePath) (output : Bool) (offset : UInt64)
    (length : Option UInt64) (recover allocatedOnly : Bool) : Dumped :=
  match (VmdkReader.openPath fs .caller path).result with
  | .error e => ⟨.error (.opens e), none⟩
  | .ok reader =>
    let reader := if recover then reader.enableRgdFallback else reader
    if allocatedOnly then dumpAllocatedOnly reader output else
    let toOutput := requested reader.virtualDiskSize offset length
    match reader.seek (.start offset) with
    | (.error e, _) => ⟨.error (.seek e), none⟩
    | (.ok _, reader) =>
      let copied := copyN reader .create toOutput
      ⟨copied.1.mapError .write, some copied.2.2.bytes⟩

end Commands
end Cli

/-! ## When the scan succeeds -/

namespace Image

/-- The byte where the scan finds the table of directory entry `gdEntry`. -/
def seTableByte (geom : SeSparseFormat) (gdEntry : Nat) : Nat :=
  wrapMul (wrapAdd geom.gtOffsetSectors (SeSparse.gdIndex gdEntry * SeSparse.gtSectors)) sectorSize

/-- Every grain table that a seSparse directory points to lies whole in the file. -/
def TablesWhole (im : Image) : Prop :=
  match im.fmt with
  | .seSparse inner geom => ∀ i < geom.grainDir.length, geom.grainDir.getD i 0 ≠ 0 →
      SeSparse.gdAllocField (geom.grainDir.getD i 0) = SeSparse.gdAllocFlag →
      seTableByte geom (geom.grainDir.getD i 0) + SeSparse.gtesPerGt * 8 ≤ inner.bytes.length
  | _ => True

section Scan
variable {im : Image} {inner : Source} {geom : SparseFormat} {i n : Nat}

/-- A table that a lookup can read is accepted by the scan. -/
theorem scanTable_of_locates {fallback : Bool} {o : Nat} {loc : GrainLookup}
    (ho : o / geom.grainSizeBytes / geom.numGtesPerGt = i)
    (hloc : (im.locateSparse fallback inner geom o).1 = .ok loc) :
    ∃ x, im.scanTable fallback inner geom i = .ok x := by
  obtain ⟨redundant, hredundant⟩ :=
    im.redundantGtFor_total fallback inner i geom.numGtesPerGt
  unfold locateSparse at hloc
  unfold scanTable
  simp only [ho, hredundant, bind, Except.bind] at hloc ⊢
  cases hsector : im.gtSectorFor fallback inner geom i with
  | error e =>
    rw [hsector] at hloc
    cases hloc
  | ok gtSector =>
    simp only [hsector] at hloc ⊢
    split
    · exact ⟨_, rfl⟩
    · next h0 =>
      unfold readGt at hloc
      rw [if_neg h0] at hloc
      cases hread : inner.readExactAt (gtSector * sectorSize) (geom.numGtesPerGt * 4) with
      | error e =>
        rw [hread] at hloc
        cases hloc
      | ok gtBytes => exact ⟨_, rfl⟩

/-- A seSparse table is accepted if and only if it need not be read or lies whole in the file. -/
theorem scanTableSesparse_isOk {geom : SeSparseFormat} :
    (∃ x, im.scanTableSesparse inner geom i = .ok x) ↔
      (geom.grainDir.getD i 0 ≠ 0 →
        SeSparse.gdAllocField (geom.grainDir.getD i 0) = SeSparse.gdAllocFlag →
        seTableByte geom (geom.grainDir.getD i 0) + SeSparse.gtesPerGt * 8 ≤
          inner.bytes.length) := by
  unfold scanTableSesparse
  simp only
  split
  · next h0 => exact ⟨fun _ hne => absurd h0 hne, fun _ => ⟨_, rfl⟩⟩
  next h0 =>
  split
  · next hmarker => exact ⟨fun _ _ hflag => absurd hflag hmarker, fun _ => ⟨_, rfl⟩⟩
  next hmarker =>
  change (∃ x, (inner.readExactAt (seTableByte geom (geom.grainDir.getD i 0))
    (SeSparse.gtesPerGt * 8) >>= _) = Except.ok x) ↔ _
  constructor
  · rintro ⟨x, hx⟩ - -
    obtain ⟨gtBytes, hread, -⟩ := bind_eq_ok.mp hx
    exact Source.readExactAt_ok_le (by decide) hread
  · intro hin
    rw [Source.readExactAt_of_le (hin h0 (not_not.mp hmarker))]
    exact ⟨_, rfl⟩

end Scan

/-! ## Lookups of a readable disk -/

section Lookups
variable [ZlibDecoder] {im : Image} {fallback : Bool} {o : Nat}

/-- The format of a binary extent. -/
def Binary (im : Image) : Prop :=
  match im.fmt with
  | .flat _ => False
  | _ => True

/-- A read goes through the lookup of its place. -/
theorem readAt_locate (hbin : im.Binary) (ho : o < im.virtualDiskSize) {bs : List UInt8}
    (h : im.readAt fallback o 1 = .ok bs) : ∃ loc, im.locate fallback o = .ok loc ∧
      (loc = .sparse → bs = [0]) := by
  unfold Binary at hbin
  unfold readAt readAtCounting at h
  unfold locate
  rw [if_neg (by omega)] at h
  have hone {gs : Nat} (hgs : 0 < gs) :
      min (min 1 (im.virtualDiskSize - o)) (gs - o % gs) = 1 := by
    have := Blocks.rest_pos (o := o) hgs
    omega
  cases hf : im.fmt with
  | flat inner =>
    rw [hf] at hbin
    exact hbin.elim
  | sparse inner geom =>
    rw [hf] at h
    simp only [hone geom.grainSizeBytes_pos] at h ⊢
    obtain ⟨loc, hloc, hfetch⟩ := bind_eq_ok.mp h
    refine ⟨loc, hloc, ?_⟩
    rintro rfl
    exact (Except.ok.inj hfetch).symm
  | seSparse inner geom =>
    rw [hf] at h
    simp only [hone geom.grainSizeBytes_pos] at h ⊢
    obtain ⟨loc, hloc, hfetch⟩ := bind_eq_ok.mp h
    refine ⟨loc, hloc, ?_⟩
    rintro rfl
    exact (Except.ok.inj hfetch).symm

omit [ZlibDecoder] in
/-- In one grain the places move with the offset. -/
theorem locate_ahead {i : Nat} {loc : GrainLookup} (hbin : im.Binary) (hi : i < im.stretch o)
    (h : im.locate fallback o = .ok loc) :
    ∃ loc', im.locate fallback (o + i) = .ok loc' ∧ GrainLookup.Ahead i loc loc' := by
  unfold Binary at hbin
  unfold stretch at hi
  unfold locate at h ⊢
  cases hf : im.fmt with
  | flat inner =>
    rw [hf] at hbin
    exact hbin.elim
  | sparse inner geom =>
    rw [hf] at h hi
    exact locateSparse_ahead hi h
  | seSparse inner geom =>
    rw [hf] at h hi
    exact grainLocationSesparse_ahead hi h

omit [ZlibDecoder] in
theorem Shaped.size_lt_of_binary (him : im.Shaped) (hbin : im.Binary) :
    im.virtualDiskSize < 2 ^ 63 := by
  have hfmt := him.fmt
  unfold Binary at hbin
  cases hf : im.fmt with
  | flat inner =>
    rw [hf] at hbin
    exact hbin.elim
  | sparse inner geom =>
    rw [hf] at hfmt
    exact hfmt.1
  | seSparse inner geom =>
    rw [hf] at hfmt
    exact hfmt.1

omit [ZlibDecoder] in
/-- A stretch from the start of a sector reaches its end. -/
theorem Shaped.sector_stretch (him : im.Shaped) (hbin : im.Binary) (o : Nat) :
    o % sectorSize < im.stretch (o / sectorSize * sectorSize) := by
  have hsector {gs : Nat} (hgs : 0 < gs) (hdvd : sectorSize ∣ gs) :
      o % sectorSize < gs - o / sectorSize * sectorSize % gs := by
    obtain ⟨k, rfl⟩ := hdvd
    have hmod := Nat.mod_lt o (show 0 < sectorSize by decide)
    have hk : o / sectorSize % k < k := Nat.mod_lt _ (Nat.pos_of_mul_pos_left hgs)
    rw [Nat.mul_comm sectorSize k, Nat.mul_mod_mul_right, ← Nat.sub_mul]
    exact Nat.lt_of_lt_of_le hmod (Nat.le_mul_of_pos_left _ (by omega))
  have hfmt := him.fmt
  unfold Binary at hbin
  unfold stretch
  cases hf : im.fmt with
  | flat inner =>
    rw [hf] at hbin
    exact hbin.elim
  | sparse inner geom =>
    rw [hf] at hfmt
    exact hsector geom.grainSizeBytes_pos hfmt.2
  | seSparse inner geom =>
    rw [hf] at hfmt
    exact hsector geom.grainSizeBytes_pos (hfmt.2 ▸ ⟨8, rfl⟩)

/-- A place in a sparse grain reads as zero. -/
theorem ReadableIn.diskByte_sparse (hreads : im.ReadableIn fallback) (hbin : im.Binary)
    (ho : o < im.virtualDiskSize) (h : im.locate fallback o = .ok .sparse) :
    im.diskByte fallback o = 0 := by
  obtain ⟨b, bs, hread⟩ := hreads o ho 1 Nat.one_pos
  obtain ⟨loc, hloc, hzero⟩ := readAt_locate hbin ho hread
  rw [h] at hloc
  cases hloc
  unfold diskByte byteIn
  rw [hread, hzero rfl]
  rfl

end Lookups
end Image

/-- **When the scan succeeds** on a disk that can be read: always for VMDK4 and COWD; for seSparse if
and only if its grain tables lie whole in the file. -/
theorem allocatedGrains_isOk [ZlibDecoder] {file : Source} {r : VmdkReader} {fallback : Bool}
    (hopen : VmdkReader.open file = .ok r) (hreads : r.ReadableIn fallback) :
    (∃ list, (r.allocatedGrains fallback).1 = .ok list) ↔ r.TablesWhole := by
  unfold Image.allocatedGrains Image.TablesWhole
  rcases open_indexed hopen with ⟨inner, geom, hfmt, hindex⟩ | ⟨inner, geom, hfmt, -⟩
  · rw [hfmt]
    refine iff_of_true (Image.scanTables_of_ok fun i hi => ?_) trivial
    have hi : i < geom.grainDir.length := by simpa using hi
    obtain ⟨hin, hplace⟩ := hindex.table_reached hi
    obtain ⟨b, bs, hread⟩ := hreads _ hin 1 Nat.one_pos
    obtain ⟨loc, hloc, -⟩ := Image.readAt_locate (by unfold Image.Binary; rw [hfmt]; trivial) hin hread
    unfold Image.locate at hloc
    rw [hfmt] at hloc
    exact Image.scanTable_of_locates hplace hloc
  · rw [hfmt]
    constructor
    · rintro ⟨list, hlist⟩ i hi
      obtain ⟨recovered, hok⟩ := (Image.scanTables_ok hlist).1 i (by simpa using hi)
      exact Image.scanTableSesparse_isOk.mp ⟨_, hok⟩
    · intro hwhole
      refine Image.scanTables_of_ok fun i hi => ?_
      exact Image.scanTableSesparse_isOk.mpr (hwhole i (by simpa using hi))

namespace Cli

section Files
variable [ZlibDecoder] {im : Image} {fallback : Bool}

/-! ## The two files -/

omit [ZlibDecoder] in
theorem ask_dumpBuffer (n : Nat) (hn : 0 < n) : 0 < min dumpBuffer n ∧ min dumpBuffer n ≤ n := by
  unfold dumpBuffer
  omega

/-- `copy_n` writes the next bytes of a readable disk, up to its end. -/
theorem copyN_window (hreads : im.ReadableIn fallback) (him : im.Shaped) {r : VmdkReader} {p : Nat}
    (hr : VmdkReader.At im fallback p r) (w : OutFile) (n : Nat) :
    ∃ r', copyN r w n = (.ok (), r', w.writeAll
        (Copy.window (im.diskByte fallback) p (min n (im.virtualDiskSize - p)))) ∧
      VmdkReader.At im fallback (p + min n (im.virtualDiskSize - p)) r' :=
  Copy.pump_window (hreads.serves him) OutFile.writeAll_nil OutFile.writeAll_append ask_dumpBuffer hr
    (Nat.le_refl n) w

/-- Byte `o` lies in one of the grains. -/
def Held (grains : List AllocatedGrain) (o : Nat) : Prop :=
  ∃ g ∈ grains, g.startLba * sectorSize ≤ o ∧ o < (g.startLba + g.sectorCount) * sectorSize

/-- The loop over the grains writes the bytes of the disk that they hold, and no others. -/
theorem copyGrains_held (hreads : im.ReadableIn fallback) (him : im.Shaped)
    (hsize : im.virtualDiskSize < 2 ^ 63) {grains : List AllocatedGrain} {r : VmdkReader} {p : Nat}
    (hr : VmdkReader.At im fallback p r) {file : OutFile}
    (hgrains : ∀ g ∈ grains, g.startLba * sectorSize < im.virtualDiskSize)
    (hlen : file.bytes.length = im.virtualDiskSize) :
    ∃ file', copyGrains r file grains = (.ok (), file') ∧
      file'.bytes.length = im.virtualDiskSize ∧ ∀ o < im.virtualDiskSize,
        (Held grains o → file'.bytes[o]? = some (im.diskByte fallback o)) ∧
        (¬ Held grains o → file'.bytes[o]? = file.bytes[o]?) := by
  induction grains generalizing r p file with
  | nil =>
    refine ⟨file, rfl, hlen, fun o _ => ⟨?_, fun _ => rfl⟩⟩
    rintro ⟨g, hg, -⟩
    cases hg
  | cons g grains ih =>
    have hoff : g.startLba * sectorSize < im.virtualDiskSize := hgrains g (List.mem_cons_self ..)
    obtain ⟨s, hsought, hat⟩ := hr.seek (Nat.lt_trans hoff hsize)
    obtain ⟨r', hcopy, hat'⟩ := copyN_window hreads him hat
      (file.seek (g.startLba * sectorSize)) (g.sectorCount * sectorSize)
    generalize hbytes : Copy.window (im.diskByte fallback) (g.startLba * sectorSize)
      (min (g.sectorCount * sectorSize) (im.virtualDiskSize - g.startLba * sectorSize)) = bytes
      at hcopy
    have hcount : bytes.length =
        min (g.sectorCount * sectorSize) (im.virtualDiskSize - g.startLba * sectorSize) := by
      rw [← hbytes, Copy.length_window]
    have hin : (file.seek (g.startLba * sectorSize)).pos + bytes.length ≤
        (file.seek (g.startLba * sectorSize)).bytes.length := by
      change g.startLba * sectorSize + bytes.length ≤ file.bytes.length
      omega
    have hlen' := (OutFile.length_writeAll hin).trans hlen
    obtain ⟨file', hrest, hlength, hheld⟩ := ih hat'
      (fun g' hg' => hgrains g' (List.mem_cons_of_mem _ hg')) hlen'
    refine ⟨file', ?_, hlength, fun o ho => ?_⟩
    · unfold copyGrains
      simp only [hsought, hcopy]
      exact hrest
    · have hwritten := OutFile.getElem?_writeAll (o := o) hin
      change _ = if g.startLba * sectorSize ≤ o ∧ o < g.startLba * sectorSize + bytes.length then
        bytes[o - g.startLba * sectorSize]? else file.bytes[o]? at hwritten
      obtain ⟨hin', hout'⟩ := hheld o ho
      have hplace : g.startLba * sectorSize ≤ o ∧ o < g.startLba * sectorSize + bytes.length ↔
          g.startLba * sectorSize ≤ o ∧ o < (g.startLba + g.sectorCount) * sectorSize := by
        rw [Nat.add_mul]
        omega
      by_cases hlater : Held grains o
      · refine ⟨fun _ => hin' hlater, fun hnot => absurd ?_ hnot⟩
        obtain ⟨g', hg', hplace'⟩ := hlater
        exact ⟨g', List.mem_cons_of_mem _ hg', hplace'⟩
      rw [hout' hlater, hwritten, if_congr hplace rfl rfl]
      constructor
      · rintro ⟨g', hg', hplace'⟩
        rcases List.mem_cons.mp hg' with rfl | hg'
        · obtain ⟨hle, hlt⟩ := hplace'
          rw [if_pos ⟨hle, hlt⟩, ← hbytes, Copy.getElem?_window _ (by rw [Nat.add_mul] at hlt; omega),
            Nat.add_sub_cancel' hle]
        · exact absurd ⟨g', hg', hplace'⟩ hlater
      · intro hnot
        rw [if_neg fun hplace' => hnot ⟨g, List.mem_cons_self .., hplace'⟩]

/-- Where a list is the allocation map of a readable disk, the bytes that no grain holds are zero. -/
theorem diskByte_of_not_held {r : VmdkReader} {list : List AllocatedGrain}
    (hr : VmdkReader.At im fallback 0 r) (him : im.Shaped) (hbin : im.Binary)
    (hreads : im.ReadableIn fallback) (hmap : r.AllocationMap list) {o : Nat}
    (ho : o < im.virtualDiskSize) (hnot : ¬ Held list o) : im.diskByte fallback o = 0 := by
  obtain ⟨sectors, hsize⟩ := him.size_dvd
  have hlba : o / sectorSize < r.virtualDiskSize / sectorSize := by
    rw [hr.image]
    unfold sectorSize at *
    omega
  have hstart : o / sectorSize * sectorSize < im.virtualDiskSize :=
    Nat.lt_of_le_of_lt (Nat.div_mul_le_self _ _) ho
  obtain ⟨b, bs, hread⟩ := hreads _ hstart 1 Nat.one_pos
  obtain ⟨loc, hloc, -⟩ := Image.readAt_locate hbin hstart hread
  have hsparse : loc = .sparse := by
    by_contra hne
    have hlookup : (r.grainLocation (o / sectorSize * sectorSize)).1 = .ok loc := by
      rw [VmdkReader.grainLocation_fst hr.coherent, hr.image, hr.fallback]
      exact hloc
    obtain ⟨g, hg, hle, hlt⟩ := (hmap.covers _ hlba loc hlookup).mpr hne
    refine hnot ⟨g, hg, ?_, ?_⟩
    · exact Nat.le_trans (Nat.mul_le_mul_right _ hle) (Nat.div_mul_le_self _ _)
    · exact (Nat.div_lt_iff_lt_mul (by decide)).mp hlt
  subst hsparse
  have hsector : o % sectorSize < im.stretch (o / sectorSize * sectorSize) :=
    him.sector_stretch hbin o
  obtain ⟨loc', hloc', hahead⟩ := Image.locate_ahead hbin hsector hloc
  rw [Nat.div_add_mod'] at hloc'
  cases hahead
  exact hreads.diskByte_sparse hbin ho hloc'

/-- The reader of a dump. -/
theorem dump_reader {file : Source} {r : VmdkReader} (hopen : VmdkReader.open file = .ok r)
    (recover : Bool) :
    VmdkReader.At r.toImage recover 0 (if recover then r.enableRgdFallback else r) ∧
      VmdkReader.Reachable file (if recover then r.enableRgdFallback else r) := by
  obtain ⟨im, rfl, -⟩ := open_loads hopen
  cases recover with
  | false => exact ⟨VmdkReader.at_reader im, .opened hopen⟩
  | true => exact ⟨VmdkReader.at_enableRgdFallback im, .enableRgdFallback (.opened hopen)⟩

variable {fs : FileSystem} {path : FilePath} {file : Source} {r : VmdkReader} {recover : Bool}

omit [ZlibDecoder] in
theorem shaped_of_open (hopen : VmdkReader.open file = .ok r) : r.toImage.Shaped := by
  obtain ⟨im, rfl, hshaped⟩ := open_shaped hopen
  exact hshaped

omit [ZlibDecoder] in
theorem binary_of_open (hopen : VmdkReader.open file = .ok r) : r.toImage.Binary := by
  unfold Image.Binary
  rcases open_indexed hopen with ⟨inner, geom, hfmt, -⟩ | ⟨inner, geom, hfmt, -⟩ <;>
  · rw [hfmt]
    trivial

/-- **A plain dump of a readable disk is its bytes.** -/
theorem dump_full (hfile : fs path = .ok file) (hopen : VmdkReader.open file = .ok r)
    (hreads : r.ReadableIn recover) (output : Bool) :
    cmdDump fs path output 0 none recover false =
      ⟨.ok (), some (Copy.window (r.diskByte recover) 0 r.virtualDiskSize)⟩ := by
  obtain ⟨hat, -⟩ := dump_reader hopen recover
  unfold cmdDump
  rw [VmdkReader.openPath_binary hfile hopen]
  simp only [Bool.false_eq_true, if_false]
  generalize (if recover = true then r.enableRgdFallback else r) = reader at hat ⊢
  obtain ⟨s, hsought, hs⟩ := hat.seek (n := 0) (by decide)
  obtain ⟨s', hcopy, -⟩ :=
    copyN_window hreads (shaped_of_open hopen) hs .create r.virtualDiskSize
  have hsize : reader.virtualDiskSize = r.virtualDiskSize :=
    congrArg Image.virtualDiskSize hat.image
  have hsought : reader.seek (.start 0) = (.ok 0, s) := hsought
  rw [Nat.sub_zero, Nat.min_self] at hcopy
  have hall : requested reader.virtualDiskSize 0 none = r.virtualDiskSize := hsize
  simp only [hsought, hall, hcopy, OutFile.bytes_writeAll_create]
  rfl

/-- **A sparse dump of a readable disk is its bytes**, when the scan succeeds. -/
theorem dump_sparse (hfile : fs path = .ok file) (hopen : VmdkReader.open file = .ok r)
    (hreads : r.ReadableIn recover) {list : List AllocatedGrain}
    (hlist : (r.allocatedGrains recover).1 = .ok list) :
    cmdDump fs path true 0 none recover true =
      ⟨.ok (), some (Copy.window (r.diskByte recover) 0 r.virtualDiskSize)⟩ := by
  have hshaped := shaped_of_open hopen
  obtain ⟨hat, hreached⟩ := dump_reader hopen recover
  unfold cmdDump
  rw [VmdkReader.openPath_binary hfile hopen]
  simp only [if_true]
  generalize (if recover = true then r.enableRgdFallback else r) = reader at hat hreached ⊢
  obtain ⟨hscan, hmoves⟩ := VmdkReader.iterAllocatedGrains_spec hat.coherent
  have hat' := hat.of_moves hmoves
  rw [hat.image, hat.fallback, hlist] at hscan
  have hmap := VmdkReader.allocation_map hreached hscan
  have hbin := binary_of_open hopen
  have hsize : reader.virtualDiskSize = r.virtualDiskSize :=
    congrArg Image.virtualDiskSize hat.image
  have hgrains : ∀ g ∈ list, g.startLba * sectorSize < r.virtualDiskSize := by
    intro g hg
    have hstart := (hmap.grains g hg).2.2
    rw [hsize] at hstart
    exact Nat.lt_of_lt_of_le (Nat.mul_lt_mul_of_pos_right hstart (by decide))
      (Nat.div_mul_le_self _ _)
  have hzeros := OutFile.bytes_setLen_create r.virtualDiskSize
  obtain ⟨file', hcopied, hlength, hheld⟩ := copyGrains_held hreads hshaped
    (hshaped.size_lt_of_binary hbin) hat' hgrains (by rw [hzeros, List.length_replicate])
  have hbytes : file'.bytes = Copy.window (r.diskByte recover) 0 r.virtualDiskSize := by
    refine List.ext_getElem? fun o => ?_
    rcases Nat.lt_or_ge o r.virtualDiskSize with ho | ho
    · obtain ⟨hin, hout⟩ := hheld o ho
      rw [Copy.getElem?_window _ ho, Nat.zero_add]
      by_cases hh : Held list o
      · exact hin hh
      · rw [hout hh, hzeros, diskByte_of_not_held hat hshaped hbin hreads hmap ho hh]
        exact List.getElem?_replicate_of_lt ho
    · rw [List.getElem?_eq_none (hlength ▸ ho), List.getElem?_eq_none (by simpa using ho)]
  unfold dumpAllocatedOnly
  rw [show reader.iterAllocatedGrains = (.ok list, reader.iterAllocatedGrains.2) from
    Prod.ext hscan rfl]
  simp only [Bool.not_true, Bool.false_eq_true, if_false, hsize, hcopied, hbytes]

/-- A scan that fails leaves no file. -/
theorem dump_sparse_fails (hfile : fs path = .ok file) (hopen : VmdkReader.open file = .ok r)
    {e : IoError} (herr : (r.allocatedGrains recover).1 = .error e) :
    cmdDump fs path true 0 none recover true = ⟨.error (.scan e), none⟩ := by
  obtain ⟨hat, -⟩ := dump_reader hopen recover
  unfold cmdDump
  rw [VmdkReader.openPath_binary hfile hopen]
  simp only [if_true]
  generalize (if recover = true then r.enableRgdFallback else r) = reader at hat ⊢
  have hscan := (VmdkReader.iterAllocatedGrains_spec hat.coherent).1
  rw [hat.image, hat.fallback, herr] at hscan
  unfold dumpAllocatedOnly
  rw [show reader.iterAllocatedGrains = (.error e, reader.iterAllocatedGrains.2) from
    Prod.ext hscan rfl]
  rfl

/-- Both dumps succeed and write one file, as long as the disk. -/
def DumpsAgree (sparse full : Dumped) (size : Nat) : Prop :=
  ∃ bytes : List UInt8, bytes.length = size ∧ sparse = ⟨.ok (), some bytes⟩ ∧
    full = ⟨.ok (), some bytes⟩

/-- **The sparse dump of a readable disk is the full one** if and only if the grain tables of a
seSparse disk lie whole in the file. -/
theorem sparse_dump_exact (hfile : fs path = .ok file) (hopen : VmdkReader.open file = .ok r)
    (hreads : r.ReadableIn recover) :
    DumpsAgree (cmdDump fs path true 0 none recover true)
      (cmdDump fs path true 0 none recover false) r.virtualDiskSize ↔ r.TablesWhole := by
  rw [← allocatedGrains_isOk hopen hreads, dump_full hfile hopen hreads]
  constructor
  · rintro ⟨bytes, -, hsparse, -⟩
    cases hscan : (r.allocatedGrains recover).1 with
    | ok list => exact ⟨list, rfl⟩
    | error e =>
      rw [dump_sparse_fails hfile hopen hscan] at hsparse
      cases hsparse
  · rintro ⟨list, hlist⟩
    exact ⟨_, Copy.length_window .., dump_sparse hfile hopen hreads hlist, rfl⟩

end Files

/-! ## A table cut off by the end of the file -/

def cutTableBytes : List UInt8 :=
  SeConstHeader.toBytes {
    capacity := 8
    grainSize := 8
    gdOffset := 1
    gtOffset := 2
    grainsOffset := 3
    grainSize_eq := SeSparse.eight_sectors } ++
      padTo 512 (leBytes 8 (SeSparse.gdAllocFlag * 2 ^ 32)) ++
      padTo 512 (leBytes 8 (SeSparse.gteTypeAllocated * 2 ^ 60)) ++ padTo 4096 [7]

theorem length_cutTableBytes : cutTableBytes.length < 2 ^ 63 := by
  simp [cutTableBytes, SeConstHeader.toBytes, SeConstHeader.fields, recordWidth]

/-- A seSparse disk of one grain, which begins with a seven. Its grain table has room for 4096
entries, and the file ends behind the first grain. -/
def cutTable : Source := .ofBytes cutTableBytes length_cutTableBytes

/-- The directory of a seSparse index, and where it counts tables and grains from. -/
def seAddresses : FormatState → List Nat × Nat × Nat
  | .seSparse _ geom => (geom.grainDir, geom.gtOffsetSectors, geom.grainsOffsetSectors)
  | _ => ([], 0, 0)

theorem cutTable_readable [ZlibDecoder] {r : VmdkReader} (hopen : VmdkReader.open cutTable = .ok r)
    (recover : Bool) : r.ReadableIn recover := by
  obtain ⟨im, rfl, himage⟩ := open_loads hopen
  have hindex := himage.index
  rw [layoutOf, if_neg (by decide +kernel), if_pos (by decide +kernel)] at hindex
  obtain ⟨geom, hfmt, hgrain, -⟩ := hindex
  have hfields : (VmdkReader.open cutTable).map (fun r => (r.virtualDiskSize, seAddresses r.fmt)) =
      .ok (4096, [SeSparse.gdAllocFlag * 2 ^ 32], 2, 3) := by decide +kernel
  rw [hopen] at hfields
  obtain ⟨hsize, hfields⟩ := Prod.mk.inj (Except.ok.inj hfields)
  have hfmt : im.reader.fmt = .seSparse cutTable geom := hfmt
  rw [hfmt] at hfields
  simp only [seAddresses, Prod.mk.injEq] at hfields
  obtain ⟨hdir, htables, hgrains⟩ := hfields
  intro o ho len hlen
  have hlt : o < 4096 := hsize ▸ ho
  have hentry : Image.seReadGte cutTable (SeSparse.gdAllocFlag * 2 ^ 32) 2 0 =
      .ok (some (SeSparse.gteTypeAllocated * 2 ^ 60)) := by decide +kernel
  have hplace : Image.grainLocationSesparse cutTable geom o = .ok (.fileOffset (1536 + o)) := by
    unfold Image.grainLocationSesparse
    rw [hgrain, hdir, htables, hgrains]
    simp only [Nat.div_eq_of_lt hlt, Nat.mod_eq_of_lt hlt, Nat.zero_div, Nat.zero_mod,
      List.getD_cons_zero, hentry, bind, Except.bind]
    rw [if_neg (by decide), if_neg (by decide), if_pos (by decide)]
    refine congrArg (fun off => Except.ok (GrainLookup.fileOffset off)) (wrapAdd_eq ?_)
    exact Nat.lt_trans (Nat.add_lt_add_left hlt 1536) (by decide)
  have hbytes : cutTable.bytes.length = 5632 := by decide +kernel
  obtain ⟨b, bs, hread⟩ : ∃ b bs, cutTable.readAt (1536 + o)
      (min (min len (im.reader.virtualDiskSize - o)) (4096 - o % 4096)) = .ok (b :: bs) :=
    Source.readAt_progress cutTable (by omega) (by omega)
  refine ⟨b, bs, ?_⟩
  unfold Image.readAt Image.readAtCounting
  rw [if_neg (by omega), hfmt]
  simp only [hplace, hgrain]
  exact hread

theorem cutTable_cut {r : VmdkReader} (hopen : VmdkReader.open cutTable = .ok r) :
    (r.allocatedGrains false).1 = .error Source.eofError := by
  have hscan : (VmdkReader.open cutTable).map (fun r => (r.allocatedGrains false).1) =
      .ok (.error Source.eofError) := by decide +kernel
  rw [hopen] at hscan
  exact Except.ok.inj hscan

theorem sparse_dump_exact_cutTable :
    letI := Stored.decoder
    ∃ r, VmdkReader.open cutTable = .ok r ∧
      (DumpsAgree (cmdDump (fun _ => .ok cutTable) [] true 0 none false true)
        (cmdDump (fun _ => .ok cutTable) [] true 0 none false false) r.virtualDiskSize ↔
          r.TablesWhole) := by
  let _ := Stored.decoder
  obtain ⟨r, hopen⟩ := exists_of_isOk (x := VmdkReader.open cutTable) (by decide +kernel)
  exact ⟨r, hopen, sparse_dump_exact rfl hopen (cutTable_readable hopen false)⟩

/-- Every read of the disk succeeds, a plain dump has its 4096 bytes, and the sparse dump fails
without a file. -/
theorem sparse_dump_fails_cutTable :
    letI := Stored.decoder
    ∃ r, VmdkReader.open cutTable = .ok r ∧ r.ReadableIn false ∧
      (∃ bytes : List UInt8, bytes.length = 4096 ∧
        cmdDump (fun _ => .ok cutTable) [] true 0 none false false = ⟨.ok (), some bytes⟩) ∧
      cmdDump (fun _ => .ok cutTable) [] true 0 none false true =
        ⟨.error (.scan Source.eofError), none⟩ ∧
      ¬ DumpsAgree (cmdDump (fun _ => .ok cutTable) [] true 0 none false true)
        (cmdDump (fun _ => .ok cutTable) [] true 0 none false false) r.virtualDiskSize := by
  let _ := Stored.decoder
  have hsize : (VmdkReader.open cutTable).map (fun r => r.virtualDiskSize) = .ok 4096 := by
    decide +kernel
  obtain ⟨r, hopen, hsize⟩ := exists_of_map_eq hsize
  have hreads := cutTable_readable hopen false
  have hfull := @dump_full _ (fun _ => .ok cutTable) [] _ _ _ rfl hopen hreads true
  have hsparse := @dump_sparse_fails _ (fun _ => .ok cutTable) [] _ _ _ rfl hopen _
    (cutTable_cut hopen)
  refine ⟨r, hopen, hreads, ⟨_, ?_, hfull⟩, hsparse, ?_⟩
  · rw [Copy.length_window]
    exact hsize
  · rintro ⟨bytes, -, hok, -⟩
    rw [hsparse] at hok
    cases hok

end Cli
