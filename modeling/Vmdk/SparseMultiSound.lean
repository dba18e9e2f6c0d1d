import Mathlib.Algebra.BigOperators.Ring.List
import Vmdk.IntegritySound
import Vmdk.Bytewise
import Vmdk.Info
import Vmdk.Stored

/-! # Sparse extents against their descriptor and their own reader

A chunk of a VMDK4 file is placed where the sector counts of the descriptor say;
one of a COWD file is as long as its own header says, so it and all that follow
are placed right exactly when the two agree (`MultiSparseReader.placement`). A
chunk reads its file with a walk of its own, which finds the entries that the
reader of the single file finds, and returns the bytes of a compressed grain as
they are stored (`MultiSparseReader.agrees_with_open`). -/

open Bytes Word

namespace MultiSparseReader

/-! ## Placement -/

/-- The sectors a chunk of the file takes: a COWD file says itself, whatever the descriptor says. -/
def chunkSectors (file : Source) (sizeSectors : Nat) : Nat :=
  if beNat (slice file.bytes 0 4) = Cowd.magic then numAt 4 file.bytes 12 else sizeSectors

section Chunk
variable {file : Source} {sizeSectors byteOffset : Nat} {chunk : SparseChunk}

theorem chunkOf_byteEnd (h : chunkOf file sizeSectors byteOffset = .ok chunk) :
    chunk.byteEnd = wrapAdd byteOffset (wrapMul (chunkSectors file sizeSectors) sectorSize) := by
  unfold chunkOf cowdChunk at h
  obtain ⟨hdrBytes, hread, h⟩ := bind_eq_ok.mp h
  have hmagic : beNat (slice hdrBytes 0 4) = beNat (slice file.bytes 0 4) := by
    rw [(Source.readExactAt_ok hread).1, slice_slice _ _ _ _ _ (by decide)]
  rw [hmagic] at h
  unfold chunkSectors
  split at h
  · next hcowd =>
    rw [if_pos hcowd]
    simp only [bind_eq_ok] at h
    obtain ⟨geom, -, hdr, hparse, h⟩ := h
    rw [asInvalidData_eq_ok] at hparse
    have hcap := (CowdHeader.parse_ok hparse).1
    rw [header_field hread (by decide)] at hcap
    have hlt := hdr.capacity_lt
    rw [← hcap, wrapMul_eq (by unfold u64Size sectorSize; omega)]
    cases h
    rfl
  · next hcowd =>
    rw [if_neg hcowd]
    simp only [bind_eq_ok] at h
    obtain ⟨hdr, -, geom, -, h⟩ := h
    cases h
    rfl

theorem chunkOf_file (h : chunkOf file sizeSectors byteOffset = .ok chunk) : chunk.file = file := by
  unfold chunkOf cowdChunk at h
  obtain ⟨hdrBytes, -, h⟩ := bind_eq_ok.mp h
  split at h
  · simp only [bind_eq_ok] at h
    obtain ⟨geom, -, hdr, -, h⟩ := h
    cases h
    rfl
  · simp only [bind_eq_ok] at h
    obtain ⟨hdr, -, geom, -, h⟩ := h
    cases h
    rfl

end Chunk

section Placement
variable {fs : FileSystem} {dir : FilePath} {entries : List SparseEntry} {entry : SparseEntry}
  {chunk : SparseChunk} {chunks : List SparseChunk} {m : MultiSparseReader}
  {byteOffset total : Nat}

/-- The chunk is the one of the file that the entry names. -/
def ChunkFrom (fs : FileSystem) (dir : FilePath) (entry : SparseEntry) (chunk : SparseChunk) :
    Prop :=
  ∃ path, resolveExtentPath dir entry.filename = .ok path ∧ fs path = .ok chunk.file ∧
    chunk.byteEnd =
      wrapAdd chunk.byteStart (wrapMul (chunkSectors chunk.file entry.sizeSectors) sectorSize)

/-- The file that the entry names takes the sectors the entry says: if it is a COWD file, its header
says the same. -/
def SizeDeclared (fs : FileSystem) (dir : FilePath) (entry : SparseEntry) : Prop :=
  ∀ path file, resolveExtentPath dir entry.filename = .ok path → fs path = .ok file →
    beNat (slice file.bytes 0 4) = Cowd.magic → numAt 4 file.bytes 12 = entry.sizeSectors

theorem ChunkFrom.sizeDeclared_iff (h : ChunkFrom fs dir entry chunk) :
    SizeDeclared fs dir entry ↔ chunkSectors chunk.file entry.sizeSectors = entry.sizeSectors := by
  obtain ⟨path, hpath, hfile, -⟩ := h
  unfold chunkSectors
  constructor
  · intro hsize
    split
    · next hcowd => exact hsize path chunk.file hpath hfile hcowd
    · rfl
  · intro hsize path' file' hpath' hfile' hcowd
    rw [hpath] at hpath'
    cases hpath'
    rw [hfile] at hfile'
    cases hfile'
    rwa [if_pos hcowd] at hsize

theorem openFrom_cons
    (h : (openFrom fs dir byteOffset (entry :: entries)).result = .ok (chunks, total)) :
    ∃ chunk rest, chunks = chunk :: rest ∧ chunk.byteStart = byteOffset ∧
      ChunkFrom fs dir entry chunk ∧
      (openFrom fs dir chunk.byteEnd entries).result = .ok (rest, total) := by
  unfold openFrom at h
  simp only [Opens.result_bind, bind_eq_ok, Opens.result_pure, Opens.result_lift] at h
  obtain ⟨path, hpath, file, hfile, chunk, hchunk, ⟨rest, total'⟩, hrest, h⟩ := h
  cases h
  have hstart := chunkOf_byteStart hchunk
  have hend := chunkOf_byteEnd hchunk
  obtain rfl := chunkOf_file hchunk
  exact ⟨chunk, rest, rfl, hstart, ⟨path, hpath, hfile, by rw [hstart, hend]⟩, hrest⟩

theorem openFrom_chunks (h : (openFrom fs dir byteOffset entries).result = .ok (chunks, total)) :
    List.Forall₂ (ChunkFrom fs dir) entries chunks := by
  induction entries generalizing byteOffset chunks with
  | nil =>
    cases h
    exact .nil
  | cons entry entries ih =>
    obtain ⟨chunk, rest, rfl, -, hchunk, hrest⟩ := openFrom_cons h
    exact .cons hchunk (ih hrest)

/-- The bytes each entry asks for. -/
def entryBytes (entries : List SparseEntry) : List Nat :=
  entries.map fun entry => entry.sizeSectors * sectorSize

/-- Chunks of declared sizes tile the disk. -/
theorem openFrom_tiles (hsizes : ∀ entry ∈ entries, SizeDeclared fs dir entry)
    (hfits : byteOffset + (entryBytes entries).sum < u64Size)
    (h : (openFrom fs dir byteOffset entries).result = .ok (chunks, total)) :
    Intervals.Tiles SparseChunk.byteStart SparseChunk.byteEnd byteOffset (entryBytes entries) chunks ∧
      total = byteOffset + (entryBytes entries).sum := by
  induction entries generalizing byteOffset chunks with
  | nil =>
    cases h
    exact ⟨trivial, rfl⟩
  | cons entry entries ih =>
    obtain ⟨chunk, rest, rfl, hstart, hchunk, hrest⟩ := openFrom_cons h
    have hsize := hchunk.sizeDeclared_iff.mp (hsizes _ List.mem_cons_self)
    have hsum : (entryBytes (entry :: entries)).sum =
        entry.sizeSectors * sectorSize + (entryBytes entries).sum := rfl
    rw [hsum, ← Nat.add_assoc] at hfits
    obtain ⟨-, -, -, hend⟩ := hchunk
    rw [hsize, hstart, wrapMul_eq (by omega), wrapAdd_eq (by omega)] at hend
    rw [hend] at hrest
    obtain ⟨htiles, htotal⟩ := ih (fun e he => hsizes e (List.mem_cons_of_mem _ he)) hfits hrest
    exact ⟨⟨hstart, hend, htiles⟩, by rw [htotal, hsum, Nat.add_assoc]⟩

/-- The sectors of the first `i` entries. -/
def sectorsBefore (entries : List SparseEntry) (i : Nat) : Nat :=
  ((entries.take i).map SparseEntry.sizeSectors).sum

theorem sectorsBefore_succ {i : Nat} (hi : i < entries.length) :
    sectorsBefore entries (i + 1) = sectorsBefore entries i + entries[i].sizeSectors := by
  unfold sectorsBefore
  rw [List.take_succ_eq_append_getElem hi, List.map_append, List.sum_append]
  rfl

theorem sectorsBefore_le (entries : List SparseEntry) (i : Nat) :
    sectorsBefore entries i ≤ (entries.map SparseEntry.sizeSectors).sum := by
  unfold sectorsBefore
  conv_rhs => rw [← List.take_append_drop i entries]
  rw [List.map_append, List.sum_append]
  exact Nat.le_add_right _ _

/-- A chunk that ends where its entry says is as long as the entry says. -/
theorem chunkSectors_of_end {file : Source} {start size : Nat}
    (hfits : start + size * sectorSize < u64Size)
    (h : start + size * sectorSize =
      wrapAdd start (wrapMul (chunkSectors file size) sectorSize)) :
    chunkSectors file size = size := by
  unfold chunkSectors at h ⊢
  split
  · next hcowd =>
    rw [if_pos hcowd] at h
    have hlt : numAt 4 file.bytes 12 < 2 ^ 32 := leNat_slice_lt _ _ _
    rw [wrapMul_eq (by unfold sectorSize u64Size; omega)] at h
    unfold wrapAdd at h
    unfold u64Size sectorSize at *
    omega
  · rfl

theorem sum_entryBytes (entries : List SparseEntry) :
    (entryBytes entries).sum = sectorSize * (entries.map SparseEntry.sizeSectors).sum := by
  rw [entryBytes, List.sum_map_mul_right, Nat.mul_comm]

theorem sum_take_entryBytes (entries : List SparseEntry) (i : Nat) :
    ((entryBytes entries).take i).sum = sectorSize * sectorsBefore entries i := by
  rw [entryBytes, ← List.map_take]
  exact sum_entryBytes _

/-- The chunks are where the sector counts of the entries say. -/
structure Placed (fs : FileSystem) (dir : FilePath) (entries : List SparseEntry)
    (m : MultiSparseReader) : Prop where
  count : m.chunks.length = entries.length
  chunk : ∀ i < entries.length, ∃ chunk, m.chunks[i]? = some chunk ∧
    chunk.byteStart = sectorSize * sectorsBefore entries i ∧
    chunk.byteEnd = sectorSize * sectorsBefore entries (i + 1)
  total : m.totalBytes = sectorSize * (entries.map SparseEntry.sizeSectors).sum
  /-- No position below the end is out of range. -/
  covered : ∀ pos < m.totalBytes, ∃ i < entries.length, m.chunkFor pos = m.chunks[i]? ∧
    sectorSize * sectorsBefore entries i ≤ pos ∧ pos < sectorSize * sectorsBefore entries (i + 1)
  /-- A descriptor with these entries is opened as a disk of that size. -/
  disk : ∀ origin path file desc r, VmdkReader.directoryOf path = dir → fs path = .ok file →
    file.readExactAt 0 1 = .ok [35] →
    parseTextDescriptor (decodeDescriptor file.bytes) = .ok desc → desc.sparseExtents = entries →
    VmdkReader.branchOf desc = some .sparseExtents →
    (VmdkReader.openPath fs origin path).result = .ok r →
      r.fmt = .flat (.multiSparse m) ∧ r.virtualDiskSize = m.totalBytes

/-- A descriptor routed to its sparse extents is opened as them, with the sum of their sectors. -/
theorem openPath_sparseExtents {origin : Origin} {path : FilePath} {file : Source}
    {desc : TextDescriptor} {r : VmdkReader} (hfile : fs path = .ok file)
    (hfirst : file.readExactAt 0 1 = .ok [35])
    (hparse : parseTextDescriptor (decodeDescriptor file.bytes) = .ok desc)
    (hbranch : VmdkReader.branchOf desc = some .sparseExtents)
    (hopen : (VmdkReader.openPath fs origin path).result = .ok r) :
    ∃ m, (MultiSparseReader.open fs (VmdkReader.directoryOf path) desc.sparseExtents).result = .ok m ∧
      r.fmt = .flat (.multiSparse m) ∧
      r.virtualDiskSize = sectorSize * (desc.sparseExtents.map SparseEntry.sizeSectors).sum := by
  have hopened := VmdkReader.openPath_descriptor hfile hfirst hparse hopen
  rw [VmdkReader.openDescriptor_sparse hbranch] at hopened
  obtain ⟨m, hm, -, rfl⟩ := VmdkReader.openSparseExtents_ok hopened
  refine ⟨m, hm, rfl, ?_⟩
  rw [← (parseTextDescriptor_summed hparse).sparse, Nat.mul_comm]
  rfl

/-- **Chunks are placed as the descriptor says** exactly when every COWD file says the size that the
descriptor says. -/
theorem placement (hopen : (MultiSparseReader.open fs dir entries).result = .ok m)
    (hfits : sectorSize * (entries.map SparseEntry.sizeSectors).sum < u64Size) :
    Placed fs dir entries m ↔ ∀ entry ∈ entries, SizeDeclared fs dir entry := by
  obtain ⟨⟨chunks, total⟩, hchunks, rfl⟩ : ∃ found, (openFrom fs dir 0 entries).result = .ok found ∧
      m = ⟨found.1, found.2⟩ := by
    unfold MultiSparseReader.open at hopen
    simp only [Opens.result_bind, bind_eq_ok, Opens.result_pure] at hopen
    obtain ⟨found, hfound, h⟩ := hopen
    exact ⟨found, hfound, (Except.ok.inj h).symm⟩
  have hfrom := openFrom_chunks hchunks
  constructor
  · intro hplaced entry hentry
    obtain ⟨i, hi, rfl⟩ := List.getElem_of_mem hentry
    obtain ⟨chunk, hchunk, hstart, hend⟩ := hplaced.chunk i hi
    obtain ⟨hi', rfl⟩ := List.getElem?_eq_some_iff.mp hchunk
    have hmade : ChunkFrom fs dir entries[i] chunks[i] := hfrom.get hi hi'
    rw [hmade.sizeDeclared_iff]
    obtain ⟨-, -, -, hmadeEnd⟩ := hmade
    have hsum := sectorsBefore_le entries (i + 1)
    rw [sectorsBefore_succ hi] at hend hsum
    have hlast : chunks[i].byteStart + entries[i].sizeSectors * sectorSize = chunks[i].byteEnd := by
      rw [hstart, hend, Nat.mul_add, Nat.mul_comm sectorSize entries[i].sizeSectors]
    have hle := Nat.mul_le_mul_left sectorSize hsum
    rw [Nat.mul_add, Nat.mul_comm sectorSize entries[i].sizeSectors, ← hstart] at hle
    exact chunkSectors_of_end (Nat.lt_of_le_of_lt hle hfits) (hlast.trans hmadeEnd)
  · intro hsizes
    rw [← sum_entryBytes] at hfits
    obtain ⟨htiles, htotal⟩ := openFrom_tiles hsizes (by rwa [Nat.zero_add]) hchunks
    have hcount : (entryBytes entries).length = entries.length := List.length_map _
    rw [Nat.zero_add] at htotal
    refine ⟨htiles.length_eq.trans hcount, fun i hi => ?_, htotal.trans (sum_entryBytes _),
      fun pos hpos => ?_, ?_⟩
    · obtain ⟨chunk, hchunk, hstart, hend⟩ := htiles.getElem (hcount.symm ▸ hi)
      rw [Nat.zero_add, sum_take_entryBytes] at hstart hend
      exact ⟨chunk, hchunk, hstart, hend⟩
    · have hpos' : pos < 0 + (entryBytes entries).sum := by
        rw [Nat.zero_add, ← htotal]
        exact hpos
      obtain ⟨i, chunk, hi, hchunk, hcover, hge, hlt⟩ :=
        htiles.covering_eq (Nat.zero_le pos) hpos'
      rw [Nat.zero_add, sum_take_entryBytes] at hge hlt
      exact ⟨i, hcount ▸ hi, hcover.trans hchunk.symm, hge, hlt⟩
    · rintro origin path file desc r rfl hfile hfirst hparse rfl hbranch hopened
      obtain ⟨m', hm', hfmt, hsize⟩ :=
        openPath_sparseExtents hfile hfirst hparse hbranch hopened
      rw [hopen] at hm'
      cases hm'
      exact ⟨hfmt, hsize.trans (htotal.trans (sum_entryBytes _)).symm⟩

end Placement

/-- An empty COWD disk of 8 sectors, in grains of 8. -/
def emptyCowd : Source :=
  .ofBytes (padTo 2048 (CowdHeader.toBytes {
    capacity := 8
    grainSize := 8
    capacity_lt := by decide
    grainSize_lt := by decide
    grainSize_pos := by decide }) ++ leBytes 4 0) (by
      simp [CowdHeader.toBytes, CowdHeader.fields, recordWidth])

theorem placement_emptyCowd :
    ∃ m, (MultiSparseReader.open (fun _ => .ok emptyCowd) [] [⟨8, ['a']⟩, ⟨8, ['b']⟩]).result = .ok m ∧
      (Placed (fun _ => .ok emptyCowd) [] [⟨8, ['a']⟩, ⟨8, ['b']⟩] m ↔
        ∀ entry ∈ [⟨8, ['a']⟩, ⟨8, ['b']⟩], SizeDeclared (fun _ => .ok emptyCowd) [] entry) := by
  obtain ⟨m, hm⟩ := exists_of_isOk (x := (MultiSparseReader.open (fun _ => .ok emptyCowd) []
    [⟨8, ['a']⟩, ⟨8, ['b']⟩]).result) (by decide +kernel)
  exact ⟨m, hm, placement hm (by decide)⟩

/-- Two extents of 16 sectors each, whose files say 8: the second one starts too early, and half of
the disk is missing. -/
theorem misplaced_emptyCowd :
    ∃ m, (MultiSparseReader.open (fun _ => .ok emptyCowd) []
        [⟨16, ['a']⟩, ⟨16, ['b']⟩]).result = .ok m ∧
      m.chunks.map SparseChunk.byteStart = [0, 4096] ∧ m.totalBytes = 8192 ∧
      ¬ Placed (fun _ => .ok emptyCowd) [] [⟨16, ['a']⟩, ⟨16, ['b']⟩] m := by
  have hrun : ((MultiSparseReader.open (fun _ => .ok emptyCowd) []
      [⟨16, ['a']⟩, ⟨16, ['b']⟩]).result.map fun m =>
        (m.chunks.map SparseChunk.byteStart, m.totalBytes)) = .ok ([0, 4096], 8192) := by
    decide +kernel
  obtain ⟨m, hm, hrun⟩ := exists_of_map_eq hrun
  obtain ⟨hstarts, htotal⟩ := Prod.mk.inj hrun
  refine ⟨m, hm, hstarts, htotal, fun hplaced => ?_⟩
  have hsum := hplaced.total
  rw [htotal] at hsum
  exact absurd hsum (by decide)

/-! ## One extent alone -/

/-- `impl Read` and `impl Seek`: the state is the cursor. -/
def step (self : MultiSparseReader) (pos : Nat) :
    Disk.Request Empty → Disk.Answer Empty × Nat
  | .seek f =>
    match Cursor.seek pos self.totalBytes f with
    | .ok t => (.sought (.ok t), t)
    | .error e => (.sought (.error e), pos)
  | .read len =>
    match self.readHere pos len with
    | .ok bs => (.data (.ok bs), pos + bs.length)
    | .error e => (.data (.error e), pos)

section Single
variable {fs : FileSystem} {dir : FilePath} {entry : SparseEntry} {path : FilePath} {file : Source}
  {r : VmdkReader} {m : MultiSparseReader} {chunk : SparseChunk} {byteOffset : Nat}

/-- The directory of a VMDK4 file that the reader of single files opens. -/
theorem vmdk4Geometry_eq {hdr : SparseExtentHeader} {desc : TextDescriptor} {gdOffset : Nat}
    {gdBytes : List UInt8} {geom : GrainGeometry} (hp : Vmdk4Parts file hdr desc gdOffset gdBytes)
    (h : vmdk4Geometry file hdr = .ok geom) :
    geom = (VmdkReader.vmdk4Format hdr gdBytes).toGrainGeometry := by
  unfold vmdk4Geometry at h
  simp only [bind_eq_ok] at h
  obtain ⟨-, -, -, -, -, -, -, -, hstart, -, gdBytes', hread, h⟩ := h
  have hnear : hdr.gdOffset ≠ Header.gdAtEnd := by
    intro hend
    rw [hend] at hstart
    exact absurd hstart.down (by decide)
  have hat := hp.directoryAt
  unfold VmdkReader.footerGdOffset at hat
  rw [if_neg hnear] at hat
  cases hat
  have hsame := hp.gdRead
  unfold VmdkReader.numGts at hsame
  rw [hread] at hsame
  cases hsame
  exact (Except.ok.inj h).symm

/-- The chunk of a file that the reader of single files opens has the index that reader loads. -/
theorem chunkOf_geometry {sizeSectors : Nat} (hopen : VmdkReader.open file = .ok r)
    (h : chunkOf file sizeSectors byteOffset = .ok chunk) :
    ∃ geom : SparseFormat, r.fmt = .sparse file geom ∧
      chunk.toGrainGeometry = geom.toGrainGeometry := by
  obtain ⟨hdrBytes, hread, hcase⟩ := open_cases hopen
  unfold chunkOf cowdChunk at h
  rw [hread] at h
  have hmagic : beNat (slice hdrBytes 0 4) = beNat (slice file.bytes 0 4) := by
    rw [(Source.readExactAt_ok hread).1, slice_slice _ _ _ _ _ (by decide)]
  simp only [bind, Except.bind, hmagic] at h
  rcases hcase with ⟨hcowd, hsingle⟩ | ⟨hcowd, hcase⟩
  · rw [if_pos hcowd] at h
    unfold VmdkReader.openCowdExtent at hsingle
    obtain ⟨geom, hgeom, hsingle⟩ := bind_eq_ok.mp hsingle
    obtain ⟨hdr, -, hsingle⟩ := bind_eq_ok.mp hsingle
    obtain ⟨_, -, hsingle⟩ := bind_eq_ok.mp hsingle
    obtain ⟨geom', hgeom', h⟩ := bind_eq_ok.mp h
    rw [asInvalidData_eq_ok, hgeom] at hgeom'
    cases hgeom'
    obtain ⟨hdr', -, h⟩ := bind_eq_ok.mp h
    cases h
    cases hsingle
    exact ⟨_, rfl, rfl⟩
  · rw [if_neg hcowd] at h
    obtain ⟨hdr, hparse, h⟩ := bind_eq_ok.mp h
    rw [asInvalidData_eq_ok] at hparse
    obtain ⟨geom, hgeom, h⟩ := bind_eq_ok.mp h
    cases h
    rcases hcase with ⟨hse, -⟩ | ⟨-, hsingle⟩
    · refine absurd ((header_field hread (by decide)).trans hse) ?_
      exact (magic_ne (SparseExtentHeader.parse_magic hparse)).2
    · obtain ⟨hdr', desc, gdOffset, gdBytes, hparse', hp, rfl⟩ := openVmdk4_eq_ok.mp hsingle
      rw [hparse] at hparse'
      cases hparse'
      exact ⟨_, rfl, vmdk4Geometry_eq hp hgeom⟩

/-- The whole disk is one chunk of `file` with index `geom`. -/
structure Serves (file : Source) (geom : SparseFormat) (size : Nat) (m : MultiSparseReader) :
    Prop where
  total : m.totalBytes = size
  chunk : ∀ pos < size, ∃ chunk, m.chunkFor pos = some chunk ∧ chunk.byteStart = 0 ∧
    chunk.byteEnd = size ∧ chunk.file = file ∧ chunk.toGrainGeometry = geom.toGrainGeometry

/-- One extent as large as its file says is served as one chunk. -/
theorem serves_single (hpath : resolveExtentPath dir entry.filename = .ok path)
    (hfile : fs path = .ok file) (hopen : VmdkReader.open file = .ok r)
    (hsize : entry.sizeSectors * sectorSize = r.virtualDiskSize)
    (hm : (MultiSparseReader.open fs dir [entry]).result = .ok m) :
    ∃ geom, r.fmt = .sparse file geom ∧ Serves file geom r.virtualDiskSize m := by
  obtain ⟨im, rfl, him⟩ := open_loads hopen
  unfold MultiSparseReader.open openFrom openFrom at hm
  simp only [Opens.result_bind, bind_eq_ok, Opens.result_pure, Opens.result_lift,
    Except.ok.injEq] at hm
  obtain ⟨-, ⟨path', hpath', file', hfile', chunk, hchunk, -, rfl, rfl⟩, rfl⟩ := hm
  rw [hpath] at hpath'
  cases hpath'
  change fs path = _ at hfile'
  rw [hfile] at hfile'
  cases hfile'
  obtain ⟨geom, hfmt, hgeom⟩ := chunkOf_geometry hopen hchunk
  have hlt : im.virtualDiskSize < u64Size := Nat.lt_trans him.size_lt (by decide)
  have hsectors : chunkSectors file entry.sizeSectors * sectorSize = im.virtualDiskSize := by
    unfold chunkSectors
    split
    · next hcowd =>
      have hcap := him.size
      rw [layoutOf, if_pos hcowd] at hcap
      exact hcap.symm
    · exact hsize
  have hstart := chunkOf_byteStart hchunk
  have hend : chunk.byteEnd = im.virtualDiskSize := by
    rw [chunkOf_byteEnd hchunk, wrapMul_eq (hsectors.symm ▸ hlt), hsectors,
      wrapAdd_eq (by rwa [Nat.zero_add]), Nat.zero_add]
  refine ⟨geom, hfmt, hend, fun pos hpos => ⟨chunk, ?_, hstart, hend, chunkOf_file hchunk, hgeom⟩⟩
  exact Intervals.covering_cons_of_mem ⟨hstart ▸ Nat.zero_le pos, hend ▸ hpos⟩

/-- The byte of a grain as it is stored: zero without a grain. -/
def rawByte (file : Source) (gte offsetInGrain : Nat) : Option UInt8 :=
  if gte ≤ 1 then some 0 else file.bytes[gte * sectorSize + offsetInGrain]?

variable {geom : SparseFormat} {size pos len gte : Nat} {b : UInt8}

/-- **A read of a chunk** starts with the byte as it is stored, where the reader of the single file
finds an entry. -/
theorem readHere_raw (hs : Serves file geom size m) (hpos : pos < size) (hlen : 0 < len)
    (hentry : Image.plainEntry file geom (pos / geom.grainSizeBytes / geom.numGtesPerGt)
      (pos / geom.grainSizeBytes % geom.numGtesPerGt) = some gte) :
    (∃ bs, m.readHere pos len = .ok (b :: bs)) ↔
      rawByte file gte (pos % geom.grainSizeBytes) = some b := by
  obtain ⟨chunk, hfound, hstart, hend, rfl, hgeom⟩ := hs.chunk pos hpos
  have hg := geom.grainSizeBytes_pos
  have hmod := Nat.mod_lt pos hg
  have hj := Nat.mod_lt (pos / geom.grainSizeBytes) geom.numGtesPerGt_pos
  have hdir : chunk.grainDir = geom.grainDir := congrArg GrainGeometry.grainDir hgeom
  have hgrain : chunk.grainSizeBytes = geom.grainSizeBytes :=
    congrArg GrainGeometry.grainSizeBytes hgeom
  have hn : chunk.numGtesPerGt = geom.numGtesPerGt := congrArg GrainGeometry.numGtesPerGt hgeom
  obtain ⟨n, hn0, hread⟩ : ∃ n, 0 < n ∧ m.readHere pos len =
      if gte ≤ 1 then .ok (List.replicate n 0)
      else chunk.file.readAt (gte * sectorSize + pos % geom.grainSizeBytes) n := by
    refine ⟨min (min (min len (m.totalBytes - pos))
      (geom.grainSizeBytes - pos % geom.grainSizeBytes)) (chunk.byteEnd - pos), ?_, ?_⟩
    · rw [hs.total, hend]
      omega
    unfold readHere
    rw [if_neg (by rw [hs.total]; omega), hfound]
    unfold Image.plainEntry at hentry
    unfold entryAt
    simp only [hstart, Nat.sub_zero, hdir, hgrain, hn] at hentry ⊢
    split at hentry
    · next h0 =>
      cases hentry
      rw [if_pos h0]
      rfl
    next h0 =>
    split at hentry
    · next hin =>
      cases hentry
      have hfits : geom.grainDir.getD (pos / geom.grainSizeBytes / geom.numGtesPerGt) 0 * sectorSize +
          pos / geom.grainSizeBytes % geom.numGtesPerGt * 4 + 4 ≤ chunk.file.bytes.length := by
        change _ ≤ chunk.file.len
        omega
      rw [if_neg h0, Source.readExactAt_of_le hfits]
      rfl
    · cases hentry
  rw [hread]
  unfold rawByte
  split
  · obtain ⟨k, rfl⟩ : ∃ k, n = k + 1 := ⟨n - 1, by omega⟩
    simp [List.replicate_succ]
  · constructor
    · rintro ⟨bs, hbs⟩
      have hbyte := Source.readAt_getElem? (i := 0) hbs (by simp)
      rw [Nat.add_zero] at hbyte
      exact hbyte.symm
    · intro hbyte
      have hin := (List.getElem?_eq_some_iff.mp hbyte).1
      obtain ⟨c, cs, hcs⟩ := Source.readAt_progress chunk.file hin hn0
      have hc := Source.readAt_getElem? (i := 0) hcs (by simp)
      rw [Nat.add_zero] at hc
      have hbc : some c = some b := hc.trans hbyte
      exact ⟨cs, Option.some.inj hbc ▸ hcs⟩

end Single

/-! ## Agreement with the reader of the single file -/

section Agree
variable [ZlibDecoder] {fs : FileSystem} {dir : FilePath} {entry : SparseEntry} {path : FilePath}
  {file : Source} {r : VmdkReader} {m : MultiSparseReader} {geom : SparseFormat} {o pos len : Nat}
  {b : UInt8}

/-- What a read of `len` bytes at `pos` must do to agree with the reader `r` of the single file: it
succeeds where `r` has a byte, and delivers no byte other than that of `r`. -/
structure ReadAgrees (r : VmdkReader) (m : MultiSparseReader) (pos len : Nat) : Prop where
  succeeds : 0 < len → (r.byteAt pos).isSome = true →
    ∃ b bs, (m.step pos (.read len)).1 = .data (.ok (b :: bs))
  bytes : ∀ bs, (m.step pos (.read len)).1 = .data (.ok bs) → ∀ i b, bs[i]? = some b →
    ∀ b', r.byteAt (pos + i) = some b' → b = b'

/-- Every read agrees, in every run. -/
def AgreesWith (r : VmdkReader) (m : MultiSparseReader) : Prop :=
  ∀ requests, Machine.Steps m.step (fun pos q => ∀ len, q = .read len → ReadAgrees r m pos len) 0
    requests

/-- The grains of a compressed extent are stored as they are read. -/
def StoredRaw (r : VmdkReader) (file : Source) (geom : SparseFormat) : Prop :=
  geom.compressed = true → ∀ o b gte, r.byteAt o = some b →
    Image.plainEntry file geom (o / geom.grainSizeBytes / geom.numGtesPerGt)
      (o / geom.grainSizeBytes % geom.numGtesPerGt) = some gte →
    1 < gte → file.bytes[gte * sectorSize + o % geom.grainSizeBytes]? = some b

omit [ZlibDecoder] in
theorem step_read {bs : List UInt8} :
    (m.step pos (.read len)).1 = .data (.ok bs) ↔ m.readHere pos len = .ok bs := by
  change (match m.readHere pos len with
    | .ok bs => (Disk.Answer.data (.ok bs), pos + bs.length)
    | .error e => (.data (.error e), pos)).1 = _ ↔ _
  cases m.readHere pos len with
  | ok bs' => simp
  | error e => simp

theorem byteAt_lt {im : Image} (h : im.byteAt o = some b) : o < im.virtualDiskSize := by
  by_contra hend
  unfold Image.byteAt Image.readAt Image.readAtCounting at h
  rw [if_pos (.inl (Nat.not_lt.mp hend))] at h
  cases h

/-- The entry of a byte that the reader of the single file has: zero without a grain, and without
compression the byte as it is stored. -/
theorem byteAt_entry {im : Image} (hfmt : im.fmt = .sparse file geom) (h : im.byteAt o = some b) :
    ∃ gte, Image.plainEntry file geom (o / geom.grainSizeBytes / geom.numGtesPerGt)
        (o / geom.grainSizeBytes % geom.numGtesPerGt) = some gte ∧ (gte ≤ 1 → b = 0) ∧
      (geom.compressed = false → rawByte file gte (o % geom.grainSizeBytes) = some b) := by
  have ho := byteAt_lt h
  obtain ⟨bs, hread⟩ : ∃ bs, im.readAt false o 1 = .ok (b :: bs) := by
    unfold Image.byteAt at h
    split at h
    · next c bs hread => exact ⟨bs, Option.some.inj h ▸ hread⟩
    · cases h
  obtain ⟨n, hn, hentry⟩ := readAt_entry hfmt ho Nat.one_pos (Image.locateSparse_plain o)
  obtain ⟨gte, hgte, loc, hloc, hfetch⟩ := (hentry _).mp hread
  have hzero (hle : gte ≤ 1) : b = 0 := by
    unfold GrainLookup.ofGte at hloc
    rw [if_pos hle] at hloc
    cases hloc
    have hhead := congrArg (·[0]?) (Except.ok.inj hfetch)
    exact (getElem?_replicate_some hhead).1
  refine ⟨gte, hgte, hzero, fun hplain => ?_⟩
  unfold rawByte
  split
  · next hle => rw [hzero hle]
  · next hbig =>
    unfold GrainLookup.ofGte GrainLookup.ofEntry at hloc
    rw [if_neg hbig, hplain] at hloc
    cases hloc
    have hbyte := Source.readAt_getElem? (i := 0) hfetch (by simp)
    rw [Nat.add_zero] at hbyte
    exact hbyte.symm

/-- The bytes are stored as they are read, everywhere. -/
theorem storedRaw_iff (hfmt : r.fmt = .sparse file geom) : StoredRaw r file geom ↔
    ∀ o b gte, r.byteAt o = some b →
      Image.plainEntry file geom (o / geom.grainSizeBytes / geom.numGtesPerGt)
        (o / geom.grainSizeBytes % geom.numGtesPerGt) = some gte →
      rawByte file gte (o % geom.grainSizeBytes) = some b := by
  constructor
  · intro hraw o b gte hbyte hgte
    obtain ⟨gte', hgte', hzero, hplain⟩ := byteAt_entry hfmt hbyte
    rw [hgte] at hgte'
    cases hgte'
    cases hcomp : geom.compressed with
    | false => exact hplain hcomp
    | true =>
      unfold rawByte
      split
      · next hle => rw [hzero hle]
      · next hbig => exact hraw hcomp o b gte hbyte hgte (Nat.not_le.mp hbig)
  · intro hall _ o b gte hbyte hgte hbig
    have hraw := hall o b gte hbyte hgte
    rwa [rawByte, if_neg (Nat.not_le.mpr hbig)] at hraw

/-- **The reader of several files agrees with the reader of one** on an extent that both open,
exactly when no grain is stored in another form than it is read. -/
theorem agrees_with_open (hpath : resolveExtentPath dir entry.filename = .ok path)
    (hfile : fs path = .ok file) (hopen : VmdkReader.open file = .ok r)
    (hsize : entry.sizeSectors * sectorSize = r.virtualDiskSize)
    (hm : (MultiSparseReader.open fs dir [entry]).result = .ok m) :
    ∃ geom, r.fmt = .sparse file geom ∧ (AgreesWith r m ↔ StoredRaw r file geom) := by
  obtain ⟨geom, hfmt, hs⟩ := serves_single hpath hfile hopen hsize hm
  have hlt : r.virtualDiskSize < 2 ^ 63 := by
    obtain ⟨im, rfl, him⟩ := open_loads hopen
    exact him.size_lt
  refine ⟨geom, hfmt, ?_⟩
  rw [storedRaw_iff hfmt]
  constructor
  · intro h o b gte hbyte hgte
    have ho := byteAt_lt hbyte
    have hseek : m.step 0 (.seek (.start (UInt64.ofNat o))) = (.sought (.ok o), o) := by
      simp only [step, Cursor.seek_start_nat (Nat.lt_trans ho hlt)]
    obtain ⟨-, hread, -⟩ := h [.seek (.start (UInt64.ofNat o)), .read 1]
    rw [hseek] at hread
    obtain ⟨hsucc, hbytes⟩ := hread 1 rfl
    obtain ⟨c, cs, hcs⟩ := hsucc Nat.one_pos (hbyte ▸ rfl)
    have hc : c = b := hbytes _ hcs 0 c rfl b hbyte
    exact (readHere_raw hs ho Nat.one_pos hgte).mp ⟨cs, hc ▸ step_read.mp hcs⟩
  · intro hall requests
    have hread (pos len : Nat) : ReadAgrees r m pos len := by
      refine ⟨fun hlen hsome => ?_, fun bs hbs i c hc b hbyte => ?_⟩
      · obtain ⟨b, hbyte⟩ := Option.isSome_iff_exists.mp hsome
        obtain ⟨gte, hgte, -⟩ := byteAt_entry hfmt hbyte
        obtain ⟨bs, hbs⟩ :=
          (readHere_raw hs (byteAt_lt hbyte) hlen hgte).mpr (hall pos b gte hbyte hgte)
        exact ⟨b, bs, step_read.mpr hbs⟩
      · obtain ⟨gte, hgte, -⟩ := byteAt_entry hfmt hbyte
        have hone := (readHere_byte (MultiSparseReader.open_chained hm) (step_read.mp hbs) hc).1
        have hraw := (readHere_raw hs (byteAt_lt hbyte) Nat.one_pos hgte).mp ⟨[], hone⟩
        rw [hall _ b gte hbyte hgte] at hraw
        exact (Option.some.inj hraw).symm
    exact Machine.steps_of_forall (fun pos _ len _ => hread pos len) 0 requests

end Agree

/-- The bytes of a grain of 8 sectors, full of sevens. -/
def sevens : List UInt8 := List.replicate 4096 7

theorem length_sevens : sevens.length = 4096 := List.length_replicate

/-- A disk of one grain of sevens, with its table in sector 2. -/
def sevenDisk : Source :=
  .ofBytes ((SparseExtentHeader.plain 8 0 1).toBytes ++ tableSector [2] ++ tableSector [3] ++
    sevens) (by simp [tableSector, recordWidth, sectorSize, length_sevens])

/-- Opened both ways the disk ends with a seven. -/
theorem agrees_with_open_sevenDisk :
    letI := Stored.decoder
    ∃ r m geom, VmdkReader.open sevenDisk = .ok r ∧
      (MultiSparseReader.open (fun _ => .ok sevenDisk) [] [⟨8, ['a']⟩]).result = .ok m ∧
      r.fmt = .sparse sevenDisk geom ∧ (AgreesWith r m ↔ StoredRaw r sevenDisk geom) ∧
      r.byteAt 4095 = some 7 ∧ AgreesWith r m := by
  let _ := Stored.decoder
  have hread : (VmdkReader.open sevenDisk).map (fun r =>
      (r.virtualDiskSize, r.byteAt 4095, r.fmt.infoCompressed)) =
      .ok (8 * sectorSize, some 7, false) := by decide +kernel
  obtain ⟨r, hr, hread⟩ := exists_of_map_eq hread
  obtain ⟨hsize, hrest⟩ := Prod.mk.inj hread
  obtain ⟨hbyte, hplain⟩ := Prod.mk.inj hrest
  obtain ⟨m, hm⟩ := exists_of_isOk (x := (MultiSparseReader.open (fun _ => .ok sevenDisk) []
    [⟨8, ['a']⟩]).result) (by decide +kernel)
  obtain ⟨geom, hfmt, hiff⟩ := @agrees_with_open _ (fun _ => .ok sevenDisk) [] ⟨8, ['a']⟩ ['a'] _ _
    _ (by decide +kernel) rfl hr hsize.symm hm
  refine ⟨r, m, geom, hr, hm, hfmt, hiff, hbyte, hiff.mpr fun hcompressed => ?_⟩
  rw [hfmt] at hplain
  exact absurd (hcompressed.symm.trans hplain) (by decide)

/-- A streamOptimized disk of one grain. -/
def streamOptimized : Source :=
  .ofBytes ({ SparseExtentHeader.plain 8 0 1 with version := 3, compressed := true }.toBytes ++
    tableSector [2] ++ tableSector [3] ++
    storedGrain 0 (Stored.store sevens)) (by
      simp [tableSector, recordWidth, sectorSize, storedGrain, Stored.length_store, length_sevens])

/-- Opened by itself the disk starts with a seven, as an extent with the marker of the grain. -/
theorem raw_streamOptimized :
    letI := Stored.decoder
    ∃ r m, VmdkReader.open streamOptimized = .ok r ∧
      (MultiSparseReader.open (fun _ => .ok streamOptimized) [] [⟨8, ['a']⟩]).result = .ok m ∧
      8 * sectorSize = r.virtualDiskSize ∧ r.byteAt 0 = some 7 ∧ m.readHere 0 1 = .ok [0] ∧
      ¬ AgreesWith r m := by
  let _ := Stored.decoder
  have hread : (VmdkReader.open streamOptimized).map (fun r => (r.virtualDiskSize, r.byteAt 0)) =
      .ok (8 * sectorSize, some 7) := by decide +kernel
  obtain ⟨r, hr, hread⟩ := exists_of_map_eq hread
  have hraw : (MultiSparseReader.open (fun _ => .ok streamOptimized) []
      [⟨8, ['a']⟩]).result.map (fun m => m.readHere 0 1) = .ok (.ok [0]) := by decide +kernel
  obtain ⟨m, hm, hfirst⟩ := exists_of_map_eq hraw
  obtain ⟨hsize, hbyte⟩ := Prod.mk.inj hread
  refine ⟨r, m, hr, hm, hsize.symm, hbyte, hfirst, fun h => ?_⟩
  have hagree := (h [.read 1]).1 1 rfl
  exact absurd (hagree.bytes [0] (step_read.mpr hfirst) 0 0 rfl 7 hbyte) (by decide)

end MultiSparseReader
