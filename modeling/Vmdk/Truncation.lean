import Vmdk.Companions
import Vmdk.Dump
import Vmdk.VerifySound
import Vmdk.Vfs

/-! # Reads that deliver nothing

A read of zero bytes means the end of the disk to everything that reads in a
loop. It is also what is delivered inside the disk where the data of a place is
not in its file any more (`Image.Ends`): `hash` and `dump` then stop early and
succeed (`VmdkReader.truncation_exact`). -/

open Bytes Word

/-! ## Where a read delivers nothing -/

namespace Source
variable {s : Source} {off want : Nat}

/-- There is nothing to read at `off`, at or past the end of the file. -/
def Ended (s : Source) (off : Nat) : Prop := s.bytes.length ≤ off ∧ s.seekable off = true

theorem readAt_nil_iff (hwant : 0 < want) : s.readAt off want = .ok [] ↔ s.Ended off := by
  rcases Nat.lt_or_ge off s.bytes.length with hin | hend
  · obtain ⟨b, bs, hread⟩ := s.readAt_progress hin hwant
    rw [hread]
    constructor
    · intro h
      cases h
    · intro h
      exact absurd h.1 (Nat.not_le.mpr hin)
  · rw [readAt_past_end hend]
    constructor
    · intro h
      split at h
      · next hseek => exact ⟨hend, hseek⟩
      · cases h
    · rintro ⟨-, hseek⟩
      rw [if_pos hseek]

end Source

theorem zeros_ne_nil {n : Nat} (hn : 0 < n) :
    (Except.ok (List.replicate n 0) : Except IoError (List UInt8)) ≠ .ok [] := by
  intro h
  have hlen := congrArg List.length (Except.ok.inj h)
  rw [List.length_replicate, List.length_nil] at hlen
  omega

namespace GrainLookup
variable [ZlibDecoder] {inner : Source} {gs n : Nat}

/-- The place has no data: its file ends before it, or the grain is decoded to fewer bytes. -/
def Ends (inner : Source) (gs : Nat) : GrainLookup → Prop
  | .sparse => False
  | .fileOffset off => inner.Ended off
  | .compressed dataOffset dataSize offsetInGrain =>
    ∃ out, decodeGrain inner gs dataOffset dataSize = .ok out ∧ out.length ≤ offsetInGrain

theorem fetch_nil_iff {loc : GrainLookup} (hn : 0 < n) :
    loc.fetch inner gs n = .ok [] ↔ loc.Ends inner gs := by
  cases loc with
  | sparse => exact iff_of_false (zeros_ne_nil hn) fun h => h
  | fileOffset off => exact Source.readAt_nil_iff hn
  | compressed dataOffset dataSize offsetInGrain =>
    show (decodeGrain inner gs dataOffset dataSize).map (slice · offsetInGrain n) = .ok [] ↔
      ∃ out, decodeGrain inner gs dataOffset dataSize = .ok out ∧ out.length ≤ offsetInGrain
    generalize decodeGrain inner gs dataOffset dataSize = decoded
    cases decoded with
    | error e =>
      constructor
      · intro h
        cases h
      · rintro ⟨out, h, -⟩
        cases h
    | ok out =>
      constructor
      · intro h
        have hnil : slice out offsetInGrain n = [] := Except.ok.inj h
        rcases slice_eq_nil_iff.mp hnil with hzero | hshort
        · omega
        · exact ⟨out, rfl, hshort⟩
      · rintro ⟨out', hout, hshort⟩
        cases hout
        exact congrArg Except.ok (slice_eq_nil_iff.mpr (.inr hshort))

end GrainLookup

namespace MultiExtentReader
variable {m : MultiExtentReader} {pos len : Nat}

/-- The extents end before `pos`, or the file of its extent does. -/
def Ends (m : MultiExtentReader) (pos : Nat) : Prop :=
  m.totalBytes ≤ pos ∨ ∃ ext file, m.extentFor pos = some ext ∧ ext.file = some file ∧
    file.Ended (wrapAdd ext.fileOffset (pos - ext.byteStart))

theorem readHere_nil_iff (hlen : 0 < len) : m.readHere pos len = .ok [] ↔ m.Ends pos := by
  unfold readHere Ends
  by_cases hend : m.totalBytes ≤ pos
  · rw [if_pos (.inl hend)]
    exact iff_of_true rfl (.inl hend)
  rw [if_neg (by omega)]
  cases hext : m.extentFor pos with
  | none =>
    refine iff_of_false (fun h => by cases h) ?_
    rintro (h | ⟨ext, file, hsome, -⟩)
    · exact hend h
    · cases hsome
  | some ext =>
    obtain ⟨-, hlo, hhi⟩ := Intervals.covering_mem hext
    have hread : 0 < min (min len (ext.byteEnd - pos)) (m.totalBytes - pos) := by omega
    simp only
    cases hfile : ext.file with
    | none =>
      refine iff_of_false (zeros_ne_nil hread) ?_
      rintro (h | ⟨ext', file, hsome, hno, -⟩)
      · exact hend h
      · cases hsome
        rw [hfile] at hno
        cases hno
    | some file =>
      rw [Source.readAt_nil_iff hread]
      constructor
      · intro h
        exact .inr ⟨ext, file, rfl, hfile, h⟩
      · rintro (h | ⟨ext', file', hsome, hsame, h⟩)
        · exact absurd h hend
        · cases hsome
          rw [hfile] at hsame
          cases hsame
          exact h

end MultiExtentReader

namespace MultiSparseReader
variable {m : MultiSparseReader} {pos len : Nat}

/-- The extents end before `pos`, or the file of its grain does. -/
def Ends (m : MultiSparseReader) (pos : Nat) : Prop :=
  m.totalBytes ≤ pos ∨ ∃ chunk gte, m.chunkFor pos = some chunk ∧
    entryAt chunk (pos - chunk.byteStart) = .ok (some gte) ∧ 1 < gte ∧
    chunk.file.Ended (gte * sectorSize + (pos - chunk.byteStart) % chunk.grainSizeBytes)

theorem readHere_nil_iff (hlen : 0 < len) : m.readHere pos len = .ok [] ↔ m.Ends pos := by
  unfold readHere Ends
  by_cases hend : m.totalBytes ≤ pos
  · rw [if_pos (.inl hend)]
    exact iff_of_true rfl (.inl hend)
  rw [if_neg (by omega)]
  cases hchunk : m.chunkFor pos with
  | none =>
    refine iff_of_false (fun h => by cases h) ?_
    rintro (h | ⟨chunk, gte, hsome, -⟩)
    · exact hend h
    · cases hsome
  | some chunk =>
    obtain ⟨-, hlo, hhi⟩ := Intervals.covering_mem hchunk
    have hrest := Nat.mod_lt (pos - chunk.byteStart) chunk.grainSizeBytes_pos
    simp only
    generalize hread : min (min (min len (m.totalBytes - pos))
      (chunk.grainSizeBytes - (pos - chunk.byteStart) % chunk.grainSizeBytes))
      (chunk.byteEnd - pos) = toRead
    have hpos : 0 < toRead := by omega
    cases hentry : entryAt chunk (pos - chunk.byteStart) with
    | error e =>
      refine iff_of_false (fun h => by cases h) ?_
      rintro (h | ⟨chunk', gte, hsome, hok, -⟩)
      · exact hend h
      · cases hsome
        rw [hentry] at hok
        cases hok
    | ok entry =>
      cases entry with
      | none =>
        refine iff_of_false (zeros_ne_nil hpos) ?_
        rintro (h | ⟨chunk', gte, hsome, hok, -⟩)
        · exact hend h
        · cases hsome
          rw [hentry] at hok
          cases hok
      | some gte =>
        show (if gte ≤ 1 then Except.ok (List.replicate toRead 0) else
          chunk.file.readAt _ toRead) = _ ↔ _
        by_cases hsparse : gte ≤ 1
        · rw [if_pos hsparse]
          refine iff_of_false (zeros_ne_nil hpos) ?_
          rintro (h | ⟨chunk', gte', hsome, hok, hbig, -⟩)
          · exact hend h
          · cases hsome
            rw [hentry] at hok
            cases hok
            exact absurd hbig (Nat.not_lt.mpr hsparse)
        · rw [if_neg hsparse, Source.readAt_nil_iff hpos]
          constructor
          · intro h
            exact .inr ⟨chunk, gte, rfl, hentry, Nat.not_le.mp hsparse, h⟩
          · rintro (h | ⟨chunk', gte', hsome, hok, -, h⟩)
            · exact absurd h hend
            · cases hsome
              rw [hentry] at hok
              cases hok
              exact h

end MultiSparseReader

/-! ## Images -/

/-- The extents end before `pos`, or a file of theirs does. -/
def ExtentReader.Ends : ExtentReader → (pos : Nat) → Prop
  | .multiExtent m, pos => m.Ends pos
  | .multiSparse m, pos => m.Ends pos

theorem ExtentReader.readAt_nil_iff {inner : ExtentReader} {pos len : Nat} (hpos : pos < u64Size)
    (hlen : 0 < len) : inner.readAt pos len = .ok [] ↔ pos < 2 ^ 63 ∧ inner.Ends pos := by
  by_cases h63 : pos < 2 ^ 63
  · cases inner with
    | multiExtent m =>
      show (Cursor.seek 0 m.totalBytes (.start (UInt64.ofNat pos)) >>= fun p => m.readHere p len) =
        _ ↔ _
      rw [Cursor.seek_start_nat h63]
      show m.readHere pos len = .ok [] ↔ _ ∧ m.Ends pos
      rw [m.readHere_nil_iff hlen, and_iff_right h63]
    | multiSparse m =>
      show (Cursor.seek 0 m.totalBytes (.start (UInt64.ofNat pos)) >>= fun p => m.readHere p len) =
        _ ↔ _
      rw [Cursor.seek_start_nat h63]
      show m.readHere pos len = .ok [] ↔ _ ∧ m.Ends pos
      rw [m.readHere_nil_iff hlen, and_iff_right h63]
  · exact iff_of_false (fun h => h63 (ExtentReader.readAt_lt hpos h)) fun h => h63 h.1

namespace Image
variable [ZlibDecoder] {im : Image} {fallback : Bool} {o len : Nat}

/-- The data of byte `o` is not in its file: the place that the tables or the extents give it lies at or
past the end. -/
def Ends (im : Image) (fallback : Bool) (o : Nat) : Prop :=
  match im.fmt with
  | .flat inner => o < 2 ^ 63 ∧ inner.Ends o
  | .sparse inner geom => ∃ loc, (im.locateSparse fallback inner geom o).1 = .ok loc ∧
      loc.Ends inner geom.grainSizeBytes
  | .seSparse inner geom => ∃ loc, grainLocationSesparse inner geom o = .ok loc ∧
      loc.Ends inner geom.grainSizeBytes

/-- Every byte that the disk should have has its data. -/
def Whole (im : Image) (fallback : Bool) : Prop := ∀ o < im.virtualDiskSize, ¬ im.Ends fallback o

theorem Ends.lt (him : im.Shaped) (ho : o < im.virtualDiskSize) (h : im.Ends fallback o) :
    o < 2 ^ 63 := by
  have hfmt := him.fmt
  unfold Ends at h
  cases hf : im.fmt with
  | flat inner =>
    rw [hf] at h
    exact h.1
  | sparse inner geom =>
    rw [hf] at hfmt
    exact Nat.lt_trans ho hfmt.1
  | seSparse inner geom =>
    rw [hf] at hfmt
    exact Nat.lt_trans ho hfmt.1

/-- **A read delivers nothing inside the disk** exactly where the data has ended. -/
theorem Shaped.readAt_nil_iff (him : im.Shaped) (ho : o < im.virtualDiskSize) (hlen : 0 < len) :
    im.readAt fallback o len = .ok [] ↔ im.Ends fallback o := by
  have hleft : 0 < min len (im.virtualDiskSize - o) := by omega
  have hlookup (located : Except IoError GrainLookup) {inner : Source} {gs : Nat} (hgs : 0 < gs) :
      (located >>= GrainLookup.fetch inner gs
        (min (min len (im.virtualDiskSize - o)) (gs - o % gs))) = .ok [] ↔
      ∃ loc, located = .ok loc ∧ loc.Ends inner gs := by
    have hrest := Nat.mod_lt o hgs
    rw [bind_eq_ok]
    exact exists_congr fun loc => and_congr_right fun _ => GrainLookup.fetch_nil_iff (by omega)
  unfold readAt readAtCounting Ends
  rw [if_neg (by omega)]
  cases hf : im.fmt with
  | flat inner => exact ExtentReader.readAt_nil_iff (Nat.lt_trans ho him.size_lt) hleft
  | sparse inner geom => exact hlookup _ geom.grainSizeBytes_pos
  | seSparse inner geom => exact hlookup _ geom.grainSizeBytes_pos

end Image

namespace VmdkReader
variable [ZlibDecoder] {im : Image} {fallback : Bool} {p len : Nat} {r r' : VmdkReader}

theorem bounded (him : im.Shaped) :
    Copy.Bounded VmdkReader.read (At im fallback) im.virtualDiskSize where
  deliver := by
    intro p s len xs s' hs hp hread
    obtain ⟨hat, hs'⟩ := hs.read_eq hread
    exact ⟨him.length_le hp hat, hs'⟩
  finish := by
    intro p s len xs s' hs hp hread
    obtain ⟨hat, hs'⟩ := hs.read_eq hread
    rw [Image.readAt_at_end hp] at hat
    cases hat
    exact ⟨rfl, hs'⟩

/-- Reads of a whole disk deliver something wherever they succeed. -/
theorem steady (him : im.Shaped) (hwhole : im.Whole fallback) :
    Copy.Steady VmdkReader.read (At im fallback) im.virtualDiskSize where
  toBounded := bounded him
  progress := by
    intro p s len xs s' hs hp hlen hread hnil
    have hat := (hs.read_eq hread).1
    rw [hnil] at hat
    exact hwhole p hp ((him.readAt_nil_iff hp hlen).mp hat)

end VmdkReader

/-! ## What is asked of a reader -/

namespace Cli
variable [ZlibDecoder]

/-- `dump_hex`: the rows of 16 bytes at most, one for each read. -/
def dumpHex (reader : VmdkReader) (length : Nat) :
    Except IoError Unit × VmdkReader × List (List UInt8) :=
  Copy.pump VmdkReader.read (fun rows bs => rows ++ [bs]) (min 16) length reader [] length

/-- Why a hex dump fails. -/
inductive HexFailure where
  | opens (e : VmdkError)
  | seek (e : IoError)
  | read (e : IoError)

/-- `dump --hex`: the rows that are printed. -/
def cmdDumpHex (fs : FileSystem) (path : FilePath) (offset : UInt64) (length : Option UInt64)
    (recover : Bool) : Except HexFailure (List (List UInt8)) :=
  match (VmdkReader.openPath fs .caller path).result with
  | .error e => .error (.opens e)
  | .ok reader =>
    let reader := if recover then reader.enableRgdFallback else reader
    match reader.seek (.start offset) with
    | (.error e, _) => .error (.seek e)
    | (.ok _, reader) =>
      let dumped := dumpHex reader (requested reader.virtualDiskSize offset length)
      (dumped.1.map fun _ => dumped.2.2).mapError .read

/-- The second file is the first one with the grains copied into it, each whole and to its place. -/
inductive Filled (diskSize : Nat) : List AllocatedGrain → OutFile → OutFile → Prop
  | nil (file : OutFile) : Filled diskSize [] file file
  | cons {g : AllocatedGrain} {grains : List AllocatedGrain} {file file' : OutFile}
      (bytes : List UInt8) (hlen : bytes.length = min (g.sectorCount * sectorSize)
        (diskSize - (UInt64.ofNat (g.startLba * sectorSize)).toNat))
      (hrest : Filled diskSize grains ((file.seek (g.startLba * sectorSize)).writeAll bytes) file') :
    Filled diskSize (g :: grains) file file'

/-- A dump of the path, opened as `reader`, that succeeds is of all the bytes that were requested. -/
structure DumpsAll (fs : FileSystem) (path : FilePath) (recover : Bool) (reader : VmdkReader) :
    Prop where
  plain : ∀ output offset length,
    (cmdDump fs path output offset length recover false).outcome = .ok () →
      ∃ bytes, (cmdDump fs path output offset length recover false).written = some bytes ∧
        bytes.length = requested reader.virtualDiskSize offset length
  hex : ∀ offset length rows, cmdDumpHex fs path offset length recover = .ok rows →
    rows.flatten.length = requested reader.virtualDiskSize offset length
  allocatedOnly : ∀ output offset length,
    (cmdDump fs path output offset length recover true).outcome = .ok () →
      ∃ grains file, reader.iterAllocatedGrains.1 = .ok grains ∧
        Filled reader.virtualDiskSize grains (OutFile.create.setLen reader.virtualDiskSize) file ∧
        (cmdDump fs path output offset length recover true).written = some file.bytes

end Cli

namespace VmdkReader
variable [ZlibDecoder]

/-- `hash` from the cursor on: the bytes that are digested. A read that is not the last delivers a byte, so
the rounds are enough (`hash_returns`). -/
def hash (self : VmdkReader) : Option (Except IoError (List UInt8) × VmdkReader) :=
  Copy.drain VmdkReader.read 65536 (self.virtualDiskSize + 1) self []

/-- Nothing is cut short at the cursor of `s`. -/
structure CompleteAt (s : VmdkReader) : Prop where
  read : ∀ len, s.pos < s.virtualDiskSize → 0 < len → (s.read len).1 ≠ .ok []
  hash : ∃ res s', s.hash = some (res, s') ∧
    ∀ bytes, res = .ok bytes → bytes.length = s.virtualDiskSize - s.pos
  copyN : ∀ w n s' w', Cli.copyN s w n = (.ok (), s', w') →
    ∃ bytes, w' = w.writeAll bytes ∧ bytes.length = min n (s.virtualDiskSize - s.pos)

/-- Nothing is cut short, whatever is asked of the reader before, nor by a dump of the path that it was
opened from. -/
structure Complete (r : VmdkReader) : Prop where
  after : ∀ requests, CompleteAt (Machine.final VmdkReader.step r requests)
  dumps : ∀ fs path recover opened, (openPath fs .caller path).result = .ok opened →
    r = (if recover then opened.enableRgdFallback else opened) →
      Cli.DumpsAll fs path recover r

variable {im : Image} {fallback : Bool} {p : Nat} {r : VmdkReader}

theorem hash_returns (him : im.Shaped) (h : At im fallback p r) :
    ∃ res s', r.hash = some (res, s') := by
  unfold hash
  rw [h.image]
  exact Copy.drain_returns (bounded him) h (Nat.lt_succ_of_le (Nat.sub_le _ p)) []

theorem completeAt (him : im.Shaped) (hwhole : im.Whole fallback) (h : At im fallback p r) :
    CompleteAt r := by
  have hsteady := steady him hwhole
  obtain ⟨res, s', hhash⟩ := hash_returns him h
  have hpos := h.pos
  have himage := h.image
  subst hpos himage
  refine ⟨fun len hp hlen hnil => ?_, ⟨res, s', hhash, fun bytes hok => ?_⟩, fun w n s' w' hcopy => ?_⟩
  · exact hsteady.progress h hp hlen (Prod.ext hnil rfl) rfl
  · rw [hok] at hhash
    rw [Copy.drain_complete hsteady (by decide) h hhash]
    exact Nat.zero_add _
  · obtain ⟨parts, rfl, hlen, -⟩ :=
      Copy.pump_complete hsteady Cli.ask_dumpBuffer h (Nat.le_refl n) hcopy
    exact ⟨parts.flatten, OutFile.foldl_writeAll w parts, hlen⟩

omit [ZlibDecoder] in
/-- The seek that starts a dump. -/
theorem At.seek_start {offset : UInt64} {t : Nat} {r' : VmdkReader} (h : At im fallback p r)
    (hseek : r.seek (.start offset) = (.ok t, r')) : At im fallback offset.toNat r' := by
  obtain ⟨hfst, hmoves⟩ := seek_spec h.coherent (.start offset)
  have hstart : Cursor.seek r.pos r.virtualDiskSize (.start (UInt64.ofNat offset.toNat)) = .ok t := by
    rw [UInt64.ofNat_toNat, ← hfst, hseek]
  obtain ⟨rfl, h63⟩ := Cursor.seek_start_ok offset.toNat_lt hstart
  have hsought : soughtPos r.pos r.virtualDiskSize (.start offset) = offset.toNat := by
    unfold soughtPos
    rw [Cursor.seek_start h63]
  rw [hseek, hsought] at hmoves
  exact h.of_moves hmoves

end VmdkReader

namespace Cli
variable [ZlibDecoder] {fs : FileSystem} {path : FilePath} {opened : VmdkReader} {recover : Bool}

omit [ZlibDecoder] in
theorem requested_le (diskSize : Nat) (offset : UInt64) (length : Option UInt64) :
    requested diskSize offset length ≤ diskSize - offset.toNat := by
  unfold requested
  cases length with
  | none => exact Nat.le_refl _
  | some len => exact Nat.sub_le_sub_right (Nat.min_le_right _ _) _

/-- A dump that succeeds has sought and copied. -/
theorem cmdDump_ok {output : Bool} {offset : UInt64} {length : Option UInt64} {reader : VmdkReader}
    (hopen : (VmdkReader.openPath fs .caller path).result = .ok opened)
    (hreader : reader = if recover then opened.enableRgdFallback else opened)
    (h : (cmdDump fs path output offset length recover false).outcome = .ok ()) :
    ∃ t r r' w, reader.seek (.start offset) = (.ok t, r) ∧
      copyN r .create (requested reader.virtualDiskSize offset length) = (.ok (), r', w) ∧
      (cmdDump fs path output offset length recover false).written = some w.bytes := by
  unfold cmdDump at h ⊢
  rw [hopen] at h ⊢
  simp only [Bool.false_eq_true, if_false, ← hreader] at h ⊢
  rcases hseek : reader.seek (.start offset) with ⟨e | t, r⟩
  · rw [hseek] at h
    cases h
  rw [hseek] at h
  simp only at h ⊢
  rcases hcopy : copyN r .create (requested reader.virtualDiskSize offset length) with ⟨e | u, r', w⟩
  · rw [hcopy] at h
    cases h
  · exact ⟨t, r, r', w, rfl, hcopy, rfl⟩

theorem cmdDumpHex_ok {offset : UInt64} {length : Option UInt64} {reader : VmdkReader}
    {rows : List (List UInt8)} (hopen : (VmdkReader.openPath fs .caller path).result = .ok opened)
    (hreader : reader = if recover then opened.enableRgdFallback else opened)
    (h : cmdDumpHex fs path offset length recover = .ok rows) :
    ∃ t r r', reader.seek (.start offset) = (.ok t, r) ∧
      dumpHex r (requested r.virtualDiskSize offset length) = (.ok (), r', rows) := by
  unfold cmdDumpHex at h
  rw [hopen] at h
  simp only [← hreader] at h
  rcases hseek : reader.seek (.start offset) with ⟨e | t, r⟩
  · rw [hseek] at h
    cases h
  rw [hseek] at h
  simp only at h
  rcases hdump : dumpHex r (requested r.virtualDiskSize offset length) with ⟨e | u, r', rows'⟩
  · rw [hdump] at h
    cases h
  · rw [hdump] at h
    cases h
    exact ⟨t, r, r', rfl, hdump⟩

theorem cmdDump_allocatedOnly_ok {output : Bool} {offset : UInt64} {length : Option UInt64}
    {reader : VmdkReader} (hopen : (VmdkReader.openPath fs .caller path).result = .ok opened)
    (hreader : reader = if recover then opened.enableRgdFallback else opened)
    (h : (cmdDump fs path output offset length recover true).outcome = .ok ()) :
    ∃ grains r file, reader.iterAllocatedGrains = (.ok grains, r) ∧
      copyGrains r (OutFile.create.setLen reader.virtualDiskSize) grains = (.ok (), file) ∧
      (cmdDump fs path output offset length recover true).written = some file.bytes := by
  unfold cmdDump dumpAllocatedOnly at h ⊢
  rw [hopen] at h ⊢
  simp only [if_true, ← hreader] at h ⊢
  cases output with
  | false => cases h
  | true =>
    rcases hscan : reader.iterAllocatedGrains with ⟨e | grains, r⟩
    · rw [hscan] at h
      cases h
    rw [hscan] at h
    simp only [Bool.not_true, Bool.false_eq_true, if_false] at h ⊢
    exact ⟨grains, r, _, rfl, Prod.ext h rfl, rfl⟩

theorem copyGrains_filled {im : Image} (him : im.Shaped) (hwhole : im.Whole recover)
    {grains : List AllocatedGrain} {r : VmdkReader} {p : Nat} (hat : VmdkReader.At im recover p r)
    {file file' : OutFile} (h : copyGrains r file grains = (.ok (), file')) :
    Filled im.virtualDiskSize grains file file' := by
  induction grains generalizing r p file with
  | nil =>
    cases h
    exact .nil _
  | cons g grains ih =>
    unfold copyGrains at h
    rcases hseek : r.seek (.start (UInt64.ofNat (g.startLba * sectorSize))) with ⟨e | t, r'⟩
    · simp only [hseek] at h
      cases h
    simp only [hseek] at h
    have hsought := hat.seek_start hseek
    rcases hcopy : copyN r' (file.seek (g.startLba * sectorSize)) (g.sectorCount * sectorSize) with
      ⟨e | u, r'', written⟩
    · rw [hcopy] at h
      cases h
    rw [hcopy] at h
    simp only at h
    obtain ⟨parts, rfl, hlen, hcopied⟩ := Copy.pump_complete (VmdkReader.steady him hwhole)
      ask_dumpBuffer hsought (Nat.le_refl _) hcopy
    rw [OutFile.foldl_writeAll] at h
    exact .cons parts.flatten hlen (ih hcopied h)

omit [ZlibDecoder] in
/-- The rows that are printed are what the reads delivered. -/
theorem foldl_rows (rows parts : List (List UInt8)) :
    parts.foldl (fun rows bs => rows ++ [bs]) rows = rows ++ parts := by
  induction parts generalizing rows with
  | nil => exact (List.append_nil rows).symm
  | cons bs parts ih => rw [List.foldl_cons, ih, List.append_assoc, List.singleton_append]

theorem dumpsAll {reader : VmdkReader} {im : Image} (him : im.Shaped) (hwhole : im.Whole recover)
    (hopen : (VmdkReader.openPath fs .caller path).result = .ok opened)
    (hreader : reader = if recover then opened.enableRgdFallback else opened)
    (hat : VmdkReader.At im recover 0 reader) : DumpsAll fs path recover reader := by
  have hsteady := VmdkReader.steady him hwhole
  constructor
  · intro output offset length hok
    obtain ⟨t, r, r', w, hseek, hcopy, hwritten⟩ := cmdDump_ok hopen hreader hok
    obtain ⟨parts, rfl, hlen, -⟩ := Copy.pump_complete hsteady ask_dumpBuffer (hat.seek_start hseek)
      (Nat.le_refl _) hcopy
    refine ⟨_, hwritten, ?_⟩
    rw [OutFile.foldl_writeAll, OutFile.bytes_writeAll_create, hlen, ← hat.image]
    exact Nat.min_eq_left (requested_le _ _ _)
  · intro offset length rows hok
    obtain ⟨t, r, r', hseek, hdump⟩ := cmdDumpHex_ok hopen hreader hok
    have hr := hat.seek_start hseek
    have hask : ∀ n, 0 < n → 0 < min 16 n ∧ min 16 n ≤ n := by
      intro n hn
      omega
    obtain ⟨parts, rfl, hlen, -⟩ := Copy.pump_complete hsteady hask hr (Nat.le_refl _) hdump
    rw [foldl_rows, List.nil_append, hlen, hr.image, hat.image]
    exact Nat.min_eq_left (requested_le _ _ _)
  · intro output offset length hok
    obtain ⟨grains, r, file, hscan, hcopy, hwritten⟩ := cmdDump_allocatedOnly_ok hopen hreader hok
    have hmoves := (VmdkReader.iterAllocatedGrains_spec hat.coherent).2
    rw [hscan] at hmoves
    rw [hscan, hat.image]
    rw [hat.image] at hcopy
    exact ⟨grains, file, rfl, copyGrains_filled him hwhole (hat.of_moves hmoves) hcopy, hwritten⟩

end Cli

namespace VmdkReader

section
variable [ZlibDecoder] {r : VmdkReader}

/-- **Nothing is cut short silently** exactly when every byte that the disk should have has its data. -/
theorem truncation_exact (hr : InUse r) : Complete r ↔ r.toImage.Whole r.rgdFallback := by
  obtain ⟨him, hc⟩ := hr.inv
  have hat : At r.toImage r.rgdFallback r.pos r := ⟨rfl, rfl, hc, rfl⟩
  constructor
  · intro h o ho hends
    have h63 := hends.lt him ho
    obtain ⟨r', hseek, hr'⟩ := hat.seek h63
    have hread := (h.after [.seek (.start (UInt64.ofNat o))]).read 1
    have hfinal : Machine.final VmdkReader.step r [.seek (.start (UInt64.ofNat o))] = r' := by
      show (r.seek (.start (UInt64.ofNat o))).2 = r'
      rw [hseek]
    rw [hfinal] at hread
    refine hread (by rw [hr'.pos, hr'.image]; exact ho) Nat.one_pos ?_
    have hnil := (him.readAt_nil_iff ho Nat.one_pos).mpr hends
    obtain ⟨r'', hstep, -⟩ := hr'.read hnil
    rw [hstep]
  · intro hwhole
    constructor
    · intro requests
      have hkept : ∀ s : VmdkReader, ∀ q, (∃ p, At r.toImage r.rgdFallback p s) →
          ∃ p, At r.toImage r.rgdFallback p (s.step q).2 := by
        rintro s q ⟨p, hs⟩
        obtain ⟨himage, hmode, hc'⟩ := step_keeps hs.coherent q
        exact ⟨_, himage.trans hs.image, hmode.trans hs.fallback, hc', rfl⟩
      obtain ⟨p, hp⟩ := Machine.final_inv hkept ⟨_, hat⟩ requests
      exact completeAt him hwhole hp
    · intro fs path recover opened hopen hreader
      obtain ⟨im, rfl, -⟩ := openPath_shaped hopen
      have hstart : At r.toImage r.rgdFallback 0 r := ⟨rfl, rfl, hc, ?_⟩
      have hmode : r.rgdFallback = recover := ?_
      rw [hmode] at hwhole hstart
      exact Cli.dumpsAll him hwhole hopen hreader hstart
      · cases recover <;> rw [hreader] <;> rfl
      · cases recover <;> rw [hreader] <;> rfl

end

/-- The disk of one sector in a file that ends after it is read, digested and dumped to its end. -/
theorem truncation_exact_shortDisk : let _ := Stored.decoder
    ∃ r, VmdkReader.open shortDisk = .ok r ∧ Complete r := by
  intro _
  obtain ⟨r, hr⟩ := exists_of_isOk (x := VmdkReader.open shortDisk) (by decide +kernel)
  refine ⟨r, hr, (truncation_exact (.opened hr)).mpr fun o ho hends => ?_⟩
  obtain ⟨im, rfl, him⟩ := open_shaped hr
  obtain ⟨b, bs, hread⟩ := shortDisk_delivers hr ho Nat.one_pos
  have hnil := (him.readAt_nil_iff ho Nat.one_pos).mpr hends
  have hsame : Except.ok (b :: bs) = Except.ok [] := hread.symm.trans hnil
  cases hsame

/-- A disk of 512 bytes whose extent file has one: the byte after it reads as the end of the disk, and
`hash` and `dump` succeed with one byte. -/
theorem truncated_plainFiles : let _ := Stored.decoder
    ∃ r, (openPath plainFiles .caller ['d']).result = .ok r ∧ r.virtualDiskSize = 512 ∧
      ((r.seek (.start 1)).2.read 1).1 = .ok [] ∧
      r.hash.map Prod.fst = some (.ok [7]) ∧
      Cli.cmdDump plainFiles ['d'] true 0 none false false = ⟨.ok (), some [7]⟩ ∧ ¬ Complete r := by
  intro _
  have hrun : ((openPath plainFiles .caller ['d']).result.map fun r =>
      (r.virtualDiskSize, ((r.seek (.start 1)).2.read 1).1, r.hash.map Prod.fst)) =
      .ok (512, .ok [], some (.ok [7])) := by
    decide +kernel
  obtain ⟨r, hr, hrun⟩ := exists_of_map_eq hrun
  obtain ⟨hsize, hrun⟩ := Prod.mk.inj hrun
  obtain ⟨hread, hhash⟩ := Prod.mk.inj hrun
  have hdump : Cli.cmdDump plainFiles ['d'] true 0 none false false = ⟨.ok (), some [7]⟩ := by
    decide +kernel
  refine ⟨r, hr, hsize, hread, hhash, hdump, fun h => ?_⟩
  obtain ⟨bytes, hwritten, hlen⟩ := (h.dumps _ _ false _ hr rfl).plain true 0 none
    (by rw [hdump])
  rw [hdump] at hwritten
  cases hwritten
  rw [hsize] at hlen
  exact absurd hlen (by decide)

end VmdkReader
