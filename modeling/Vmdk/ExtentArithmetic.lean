import Mathlib.Algebra.BigOperators.Ring.List
import Vmdk.FlatSound
import Vmdk.Geometry
import Vmdk.SparseMultiSound

/-! # Extent arithmetic

Opening the extents of a descriptor multiplies sector counts and adds up sizes,
and a read adds to the place where the extent begins in its file. The operations
are plain ones: `openNumbers` and `readNumbers` are their results before the
width of a `u64` cuts them. They all fit exactly when the sizes of the lines do,
and the places of the flat ones (`VmdkReader.extent_arithmetic`). -/

open Bytes Word

/-! ## Flat extents -/

namespace MultiExtentReader

/-- The size and the running offset of every round of the loop of `open`. The file is opened between
the two. -/
def openNumbers (fs : FileSystem) (baseDir : FilePath) (virt : Nat) : List ExtentEntry → List Nat
  | [] => []
  | ext :: rest =>
    let sizeBytes := wrapMul ext.sizeSectors 512
    ext.sizeSectors * 512 ::
      if (openExtent fs baseDir ext).result.isOk then
        (virt + sizeBytes) :: openNumbers fs baseDir (wrapAdd virt sizeBytes) rest
      else []

/-- The place in its file where a `read` at `pos` goes. -/
def readNumbers (self : MultiExtentReader) (pos len : Nat) : List Nat :=
  if self.totalBytes ≤ pos ∨ len = 0 then [] else
  match self.extentFor pos with
  | none => []
  | some ext => if ext.file.isSome then [ext.fileOffset + (pos - ext.byteStart)] else []

/-- The file of the line opens, or the line needs none. -/
def Available (fs : FileSystem) (dir : FilePath) (ext : ExtentEntry) : Prop :=
  (openExtent fs dir ext).result.isOk = true

/-- As far as the files open, the sizes fit and their sums do; where all open, so does every place a
read can go to. -/
structure Fits (fs : FileSystem) (dir : FilePath) (exts : List ExtentEntry) : Prop where
  sizes : ∀ i ext, exts[i]? = some ext → (∀ e ∈ exts.take i, Available fs dir e) →
    ext.sizeSectors * 512 < u64Size ∧ (Available fs dir ext → startOf exts (i + 1) < u64Size)
  places : (∀ ext ∈ exts, Available fs dir ext) → ∀ pos < 2 ^ 63, PlaceFits exts pos

section Open
variable {fs : FileSystem} {dir : FilePath} {ext : ExtentEntry} {exts : List ExtentEntry}
  {flats : List FlatExtent} {virt total : Nat} {m : MultiExtentReader}

theorem startOf_cons (i : Nat) :
    startOf (ext :: exts) (i + 1) = ext.sizeSectors * 512 + startOf exts i := rfl

theorem startOf_one : startOf (ext :: exts) 1 = ext.sizeSectors * 512 := Nat.add_zero _

/-- The numbers of the loop fit exactly when the sizes and their exact sums do. -/
theorem openNumbers_fit : (∀ n ∈ openNumbers fs dir virt exts, n < u64Size) ↔
    ∀ i ext, exts[i]? = some ext → (∀ e ∈ exts.take i, Available fs dir e) →
      ext.sizeSectors * 512 < u64Size ∧
        (Available fs dir ext → virt + startOf exts (i + 1) < u64Size) := by
  induction exts generalizing virt with
  | nil => exact ⟨fun _ i ext h => by simp at h, fun _ n hn => by simp [openNumbers] at hn⟩
  | cons ext exts ih =>
    unfold openNumbers
    by_cases hopens : Available fs dir ext
    · have hok : (openExtent fs dir ext).result.isOk = true := hopens
      simp only [hok, if_true, List.forall_mem_cons]
      constructor
      · rintro ⟨hsize, hend, hrest⟩ i e he hbefore
        rw [wrapMul_eq hsize] at hend hrest
        rw [wrapAdd_eq hend] at hrest
        cases i with
        | zero =>
          cases he
          refine ⟨hsize, fun _ => ?_⟩
          rw [Nat.zero_add, startOf_one]
          exact hend
        | succ i =>
          obtain ⟨hsize', hend'⟩ :=
            ih.mp hrest i e he fun x hx => hbefore x (List.mem_cons_of_mem _ hx)
          refine ⟨hsize', fun h => ?_⟩
          rw [startOf_cons, ← Nat.add_assoc]
          exact hend' h
      · intro h
        obtain ⟨hsize, hend⟩ := h 0 ext rfl (fun x hx => by simp at hx)
        have hfits := hend hopens
        rw [Nat.zero_add, startOf_one] at hfits
        rw [wrapMul_eq hsize, wrapAdd_eq hfits]
        refine ⟨hsize, hfits, ih.mpr fun i e he hbefore => ?_⟩
        obtain ⟨hsize', hend'⟩ := h (i + 1) e he fun x hx => by
          rcases List.mem_cons.mp hx with rfl | hx
          · exact hopens
          · exact hbefore x hx
        refine ⟨hsize', fun hav => ?_⟩
        rw [Nat.add_assoc, ← startOf_cons]
        exact hend' hav
    · have hno : (openExtent fs dir ext).result.isOk = false := Bool.eq_false_iff.mpr hopens
      simp only [hno, Bool.false_eq_true, if_false, List.forall_mem_cons]
      constructor
      · rintro ⟨hsize, -⟩ i e he hbefore
        cases i with
        | zero =>
          cases he
          exact ⟨hsize, fun hav => absurd hav hopens⟩
        | succ i => exact absurd (hbefore ext List.mem_cons_self) hopens
      · intro h
        obtain ⟨hsize, -⟩ := h 0 ext rfl (fun x hx => by simp at hx)
        exact ⟨hsize, fun n hn => by simp at hn⟩

theorem openFrom_available (h : (openFrom fs dir virt exts).result = .ok (flats, total)) :
    ∀ ext ∈ exts, Available fs dir ext := by
  induction exts generalizing virt flats with
  | nil => exact fun ext hext => by simp at hext
  | cons ext exts ih =>
    obtain ⟨flat, rest, -, -, -, -, hopened, hrest⟩ := openFrom_cons h
    intro e he
    rcases List.mem_cons.mp he with rfl | he
    · show (openExtent fs dir e).result.isOk = true
      rw [hopened]
      rfl
    · exact ih hrest e he

theorem openFrom_of_available (h : ∀ ext ∈ exts, Available fs dir ext) :
    ∃ found, (openFrom fs dir virt exts).result = .ok found := by
  induction exts generalizing virt with
  | nil => exact ⟨_, rfl⟩
  | cons ext exts ih =>
    obtain ⟨file, hfile⟩ := exists_of_isOk (h ext List.mem_cons_self)
    obtain ⟨found, hfound⟩ := @ih (wrapAdd virt (wrapMul ext.sizeSectors 512))
      fun e he => h e (List.mem_cons_of_mem _ he)
    unfold openFrom
    simp only [Opens.result_bind, hfile, hfound, Opens.result_pure]
    exact ⟨_, rfl⟩

theorem startOf_length : startOf exts exts.length = (extentBytes exts).sum := by
  unfold startOf
  rw [List.take_of_length_le (by rw [extentBytes, List.length_map])]

theorem sum_lt_of_sizes
    (h : ∀ i ext, exts[i]? = some ext → (∀ e ∈ exts.take i, Available fs dir e) →
      ext.sizeSectors * 512 < u64Size ∧ (Available fs dir ext → startOf exts (i + 1) < u64Size))
    (hall : ∀ ext ∈ exts, Available fs dir ext) : (extentBytes exts).sum < u64Size := by
  rw [← startOf_length]
  cases hexts : exts.length with
  | zero => exact Nat.two_pow_pos 64
  | succ n =>
    have hn : n < exts.length := by omega
    have hlast := List.getElem?_eq_getElem hn
    exact (h n exts[n] hlast fun e he => hall e (List.mem_of_mem_take he)).2
      (hall _ (List.getElem_mem hn))

/-- An opened list of lines whose sizes fit lies as its sums say. -/
theorem Fits.concatenated (h : Fits fs dir exts)
    (hopen : (MultiExtentReader.open fs dir exts).result = .ok m) :
    (∀ ext ∈ exts, Available fs dir ext) ∧ Concatenated fs dir exts m := by
  have hall := openFrom_available (open_eq hopen)
  exact ⟨hall, open_concatenated hopen (sum_lt_of_sizes h.sizes hall)⟩

end Open

section Reads
variable {fs : FileSystem} {dir : FilePath} {exts : List ExtentEntry} {m : MultiExtentReader}
  {pos len : Nat}

theorem extentFile_isSome {ext : ExtentEntry} {flat : FlatExtent} (h : ExtentFrom fs dir ext flat) :
    flat.file.isSome = !ext.isZero := by
  cases hzero : ext.isZero with
  | false => exact h.opened hzero
  | true =>
    rw [h.file, extentFile, hzero]
    rfl

/-- The place a read goes to fits exactly when the place that the lines say does. -/
theorem Concatenated.readNumbers_fit (h : Concatenated fs dir exts m) (hlen : 0 < len) :
    (∀ n ∈ m.readNumbers pos len, n < u64Size) ↔ PlaceFits exts pos := by
  unfold readNumbers
  by_cases hpos : m.totalBytes ≤ pos
  · rw [if_pos (Or.inl hpos)]
    refine ⟨fun _ i ext hext _ _ hlt => ?_, fun _ n hn => by simp at hn⟩
    obtain ⟨hi, -⟩ := List.getElem?_eq_some_iff.mp hext
    have hle := @startOf_mono exts (i + 1) _ hi
    rw [startOf_length, ← h.total] at hle
    omega
  obtain ⟨i, flat, hi, hfind, hlaid, hge, hlt⟩ := h.covered pos (Nat.not_le.mp hpos)
  obtain ⟨ext, hext, hmade⟩ := hlaid.made
  rw [if_neg (by omega), hfind]
  simp only [extentFile_isSome hmade, hmade.fileOffset, hlaid.start]
  constructor
  · intro hfits j ext' hext' hzero hge' hlt'
    obtain rfl : i = j := startOf_unique hge hlt hge' hlt'
    rw [hext] at hext'
    cases hext'
    rw [hzero] at hfits
    exact hfits _ (List.mem_singleton_self _)
  · intro hplace n hn
    cases hzero : ext.isZero with
    | true =>
      rw [hzero] at hn
      cases hn
    | false =>
      rw [hzero] at hn
      obtain rfl := List.mem_singleton.mp hn
      exact hplace i ext hext hzero hge hlt

end Reads

end MultiExtentReader

/-! ## Sparse extents -/

namespace MultiSparseReader

/-- The size of every chunk that the loop of `open` makes, and where the chunk ends. -/
def openNumbers (fs : FileSystem) (dir : FilePath) (byteOffset : Nat) : List SparseEntry → List Nat
  | [] => []
  | entry :: rest =>
    match resolveExtentPath dir entry.filename >>= fs with
    | .error _ => []
    | .ok file =>
      match chunkOf file entry.sizeSectors byteOffset with
      | .error _ => []
      | .ok chunk =>
        let sectors := chunkSectors file entry.sizeSectors
        sectors * sectorSize :: (byteOffset + wrapMul sectors sectorSize) ::
          openNumbers fs dir chunk.byteEnd rest

/-- The places in its file where a `read` at `pos` goes: the entry of the grain, and its bytes. -/
def readNumbers (self : MultiSparseReader) (pos len : Nat) : List Nat :=
  if self.totalBytes ≤ pos ∨ len = 0 then [] else
  match self.chunkFor pos with
  | none => []
  | some chunk =>
    let localPos := pos - chunk.byteStart
    let grainIdx := localPos / chunk.grainSizeBytes
    let gtSector := chunk.grainDir.getD (grainIdx / chunk.numGtesPerGt) 0
    if gtSector = 0 then []
    else
      (gtSector * sectorSize + grainIdx % chunk.numGtesPerGt * 4) ::
        match entryAt chunk localPos with
        | .ok (some gte) =>
          if gte ≤ 1 then [] else [gte * sectorSize + localPos % chunk.grainSizeBytes]
        | _ => []

/-- The file of the entry opens, and a chunk can be made of it. -/
def Available (fs : FileSystem) (dir : FilePath) (entry : SparseEntry) : Prop :=
  ∃ path file chunk, resolveExtentPath dir entry.filename = .ok path ∧ fs path = .ok file ∧
    chunkOf file entry.sizeSectors 0 = .ok chunk

/-- The bytes of the chunk made of the entry. -/
def chunkBytes (fs : FileSystem) (dir : FilePath) (entry : SparseEntry) : Nat :=
  match resolveExtentPath dir entry.filename >>= fs with
  | .error _ => 0
  | .ok file => chunkSectors file entry.sizeSectors * sectorSize

/-- As far as chunks can be made, the sums of their sizes fit. -/
def Fits (fs : FileSystem) (dir : FilePath) (entries : List SparseEntry) : Prop :=
  ∀ i, (∀ e ∈ entries.take i, Available fs dir e) →
    ((entries.take i).map (chunkBytes fs dir)).sum < u64Size

section Open
variable {fs : FileSystem} {dir : FilePath} {entry : SparseEntry} {entries : List SparseEntry}
  {file : Source} {chunk : SparseChunk} {sizeSectors byteOffset total : Nat}

/-- Whether a chunk can be made does not depend on where it goes. -/
theorem chunkOf_moved (h : chunkOf file sizeSectors byteOffset = .ok chunk) (byteOffset' : Nat) :
    ∃ chunk', chunkOf file sizeSectors byteOffset' = .ok chunk' := by
  unfold chunkOf cowdChunk at h
  obtain ⟨hdrBytes, hread, h⟩ := bind_eq_ok.mp h
  unfold chunkOf cowdChunk
  simp only [bind_eq_ok]
  split at h
  · next hcowd =>
    simp only [bind_eq_ok] at h
    obtain ⟨geom, hgeom, hdr, hparse, h⟩ := h
    let byteEnd := wrapAdd byteOffset' (hdr.capacity * sectorSize)
    refine ⟨{ geom with byteStart := byteOffset', byteEnd, file }, hdrBytes, hread, ?_⟩
    rw [if_pos hcowd]
    exact bind_eq_ok.mpr ⟨geom, hgeom, bind_eq_ok.mpr ⟨hdr, hparse, rfl⟩⟩
  · next hcowd =>
    simp only [bind_eq_ok] at h
    obtain ⟨hdr, hparse, geom, hgeom, h⟩ := h
    let byteEnd := wrapAdd byteOffset' (wrapMul sizeSectors sectorSize)
    refine ⟨{ geom with byteStart := byteOffset', byteEnd, file }, hdrBytes, hread, ?_⟩
    rw [if_neg hcowd]
    exact bind_eq_ok.mpr ⟨hdr, hparse, bind_eq_ok.mpr ⟨geom, hgeom, rfl⟩⟩

/-- The numbers of the loop fit exactly when the exact sums of the sizes do. -/
theorem openNumbers_fit (hstart : byteOffset < u64Size) :
    (∀ n ∈ openNumbers fs dir byteOffset entries, n < u64Size) ↔
      ∀ i, (∀ e ∈ entries.take i, Available fs dir e) →
        byteOffset + ((entries.take i).map (chunkBytes fs dir)).sum < u64Size := by
  induction entries generalizing byteOffset with
  | nil => exact ⟨fun _ i _ => by simpa using hstart, fun _ n hn => by simp [openNumbers] at hn⟩
  | cons entry entries ih =>
    unfold openNumbers
    cases hfile : resolveExtentPath dir entry.filename >>= fs with
    | error e =>
      refine ⟨fun _ i hbefore => ?_, fun _ n hn => by simp at hn⟩
      cases i with
      | zero => exact hstart
      | succ i =>
        obtain ⟨path, file, chunk, hpath, hopen, -⟩ := hbefore entry List.mem_cons_self
        have hfound := bind_eq_ok.mpr ⟨path, hpath, hopen⟩
        rw [hfile] at hfound
        cases hfound
    | ok file =>
      obtain ⟨path, hpath, hopen⟩ := bind_eq_ok.mp hfile
      cases hchunk : chunkOf file entry.sizeSectors byteOffset with
      | error e =>
        refine ⟨fun _ i hbefore => ?_, fun _ n hn => by simp [hchunk] at hn⟩
        cases i with
        | zero => exact hstart
        | succ i =>
          obtain ⟨path', file', chunk, hpath', hopen', hmade⟩ := hbefore entry List.mem_cons_self
          rw [hpath] at hpath'
          cases hpath'
          rw [hopen] at hopen'
          cases hopen'
          obtain ⟨chunk', hmade'⟩ := chunkOf_moved hmade byteOffset
          rw [hchunk] at hmade'
          cases hmade'
      | ok chunk =>
        have hbytes : chunkBytes fs dir entry =
            chunkSectors file entry.sizeSectors * sectorSize := by
          unfold chunkBytes
          rw [hfile]
        have hwrap (h : chunkBytes fs dir entry < u64Size) :
            wrapMul (chunkSectors file entry.sizeSectors) sectorSize = chunkBytes fs dir entry :=
          (wrapMul_eq (hbytes ▸ h)).trans hbytes.symm
        have hav : Available fs dir entry := by
          obtain ⟨chunk', hmade⟩ := chunkOf_moved hchunk 0
          exact ⟨path, file, chunk', hpath, hopen, hmade⟩
        simp only [hchunk, List.forall_mem_cons, chunkOf_byteEnd hchunk, ← hbytes]
        constructor
        · rintro ⟨hsize, hend, hrest⟩ i hbefore
          rw [hwrap hsize] at hend hrest
          cases i with
          | zero => exact hstart
          | succ i =>
            rw [wrapAdd_eq hend] at hrest
            rw [List.take_succ_cons, List.map_cons, List.sum_cons, ← Nat.add_assoc]
            exact (ih hend).mp hrest i fun e he => hbefore e (List.mem_cons_of_mem _ he)
        · intro h
          have hfits := h 1 fun e he => by
            obtain rfl := List.mem_singleton.mp he
            exact hav
          have hend : byteOffset + chunkBytes fs dir entry < u64Size := hfits
          have hsize := Nat.lt_of_le_of_lt (Nat.le_add_left _ byteOffset) hend
          rw [hwrap hsize, wrapAdd_eq hend]
          refine ⟨hsize, hend, (ih hend).mpr fun i hbefore => ?_⟩
          rw [Nat.add_assoc]
          refine h (i + 1) fun e he => ?_
          rcases List.mem_cons.mp he with rfl | he
          · exact hav
          · exact hbefore e he

theorem chunkOf_bounded (h : chunkOf file sizeSectors byteOffset = .ok chunk) :
    chunk.toGrainGeometry.Bounded := by
  unfold chunkOf cowdChunk at h
  obtain ⟨hdrBytes, -, h⟩ := bind_eq_ok.mp h
  split at h
  · simp only [bind_eq_ok, asInvalidData_eq_ok] at h
    obtain ⟨geom, hgeom, hdr, -, h⟩ := h
    cases h
    exact openCowd_bounded hgeom
  · simp only [bind_eq_ok] at h
    obtain ⟨hdr, -, geom, hgeom, h⟩ := h
    cases h
    unfold vmdk4Geometry at hgeom
    simp only [bind_eq_ok] at hgeom
    obtain ⟨-, -, -, -, -, -, hcap, -, -, -, gdBytes, hread, hgeom⟩ := hgeom
    cases hgeom
    exact vmdk4_bounded hcap.down (Source.readExactAt_ok hread).2.1

theorem openFrom_bounded {chunks : List SparseChunk}
    (h : (openFrom fs dir byteOffset entries).result = .ok (chunks, total)) :
    ∀ chunk ∈ chunks, chunk.toGrainGeometry.Bounded := by
  induction entries generalizing byteOffset chunks with
  | nil =>
    cases h
    exact fun chunk hchunk => by cases hchunk
  | cons entry entries ih =>
    unfold openFrom at h
    simp only [Opens.result_bind, bind_eq_ok, Opens.result_pure, Opens.result_lift] at h
    obtain ⟨path, -, file, -, chunk, hchunk, ⟨rest, total'⟩, hrest, h⟩ := h
    cases h
    intro c hc
    rcases List.mem_cons.mp hc with rfl | hc
    · exact chunkOf_bounded hchunk
    · exact ih hrest c hc

theorem open_bounded {m : MultiSparseReader}
    (h : (MultiSparseReader.open fs dir entries).result = .ok m) :
    ∀ chunk ∈ m.chunks, chunk.toGrainGeometry.Bounded := by
  unfold MultiSparseReader.open at h
  simp only [Opens.result_bind, bind_eq_ok, Opens.result_pure] at h
  obtain ⟨⟨chunks, total⟩, hopen, h⟩ := h
  cases h
  exact openFrom_bounded hopen

end Open

theorem entryAt_lt {chunk : SparseChunk} {localPos gte : Nat}
    (h : entryAt chunk localPos = .ok (some gte)) : gte < 2 ^ 32 := by
  unfold entryAt at h
  simp only at h
  split at h
  · cases h
  · revert h
    generalize hread : chunk.file.readExactAt _ 4 = read
    intro h
    cases read with
    | error e => cases h
    | ok bs =>
      cases h
      have hlt := leNat_lt bs
      rwa [(Source.readExactAt_ok hread).2.1] at hlt

/-- The entries of a chunk are 32-bit sectors, so no place of a read is above a `u64`. -/
theorem readNumbers_lt {m : MultiSparseReader} {pos len : Nat}
    (hm : ∀ chunk ∈ m.chunks, chunk.toGrainGeometry.Bounded) :
    ∀ n ∈ m.readNumbers pos len, n < u64Size := by
  unfold readNumbers
  split
  · exact fun n hn => by cases hn
  cases hfind : m.chunkFor pos with
  | none => exact fun n hn => by cases hn
  | some chunk =>
    have hbounded := hm chunk (Intervals.covering_mem hfind).1
    have hentries := hbounded.entries
    have hgrain := hbounded.grain
    have hidx := Nat.mod_lt ((pos - chunk.byteStart) / chunk.grainSizeBytes) chunk.numGtesPerGt_pos
    have hoff := Nat.mod_lt (pos - chunk.byteStart) chunk.grainSizeBytes_pos
    simp only
    split
    · exact fun n hn => by cases hn
    next hsec =>
    have hlt := chunk.table_lt
      ((pos - chunk.byteStart) / chunk.grainSizeBytes / chunk.numGtesPerGt)
    rw [List.forall_mem_cons]
    constructor
    · unfold sectorSize u64Size
      omega
    split
    · next gte hentry =>
      have hgte := entryAt_lt hentry
      split
      · exact fun n hn => by cases hn
      · intro n hn
        obtain rfl := List.mem_singleton.mp hn
        unfold sectorSize u64Size
        omega
    · exact fun n hn => by cases hn

end MultiSparseReader

/-! ## Descriptors -/

/-- The places a read at `pos` goes to, behind the seek to `pos`. -/
def ExtentReader.readNumbers : ExtentReader → (pos len : Nat) → List Nat
  | .multiExtent m, pos, len =>
    match Cursor.seek 0 m.totalBytes (.start (UInt64.ofNat pos)) with
    | .ok pos => m.readNumbers pos len
    | .error _ => []
  | .multiSparse m, pos, len =>
    match Cursor.seek 0 m.totalBytes (.start (UInt64.ofNat pos)) with
    | .ok pos => m.readNumbers pos len
    | .error _ => []

namespace VmdkReader

/-- What opening the extents of a descriptor computes. -/
def openNumbers (fs : FileSystem) (dir : FilePath) (desc : TextDescriptor) : List Nat :=
  match branchOf desc with
  | some .flatExtents => MultiExtentReader.openNumbers fs dir 0 desc.extents
  | some .sparseExtents => MultiSparseReader.openNumbers fs dir 0 desc.sparseExtents
  | _ => []

/-- The places a read goes to. -/
def readNumbers (self : VmdkReader) (len : Nat) : List Nat :=
  if self.virtualDiskSize ≤ self.pos ∨ len = 0 then [] else
  match self.fmt with
  | .flat inner => inner.readNumbers self.pos (min len (self.virtualDiskSize - self.pos))
  | _ => []

/-- The sizes of the extents fit, and so do the places of the flat ones. -/
def ExtentsFit (fs : FileSystem) (dir : FilePath) (desc : TextDescriptor) : Prop :=
  match branchOf desc with
  | some .flatExtents => MultiExtentReader.Fits fs dir desc.extents
  | some .sparseExtents => MultiSparseReader.Fits fs dir desc.sparseExtents
  | _ => True

/-- A read computes nothing above a `u64`, and delivers bytes of a flat extent from the place the
line says. -/
def ReadsInPlace [ZlibDecoder] (fs : FileSystem) (dir : FilePath) (desc : TextDescriptor)
    (r : VmdkReader) (len : Nat) : Prop :=
  (∀ n ∈ r.readNumbers len, n < u64Size) ∧
    (branchOf desc = some .flatExtents → ∀ bs, (r.read len).1 = .ok bs →
      MultiExtentReader.DeliversExtent fs dir desc.extents r.pos bs)

/-- Nothing that opening or any sequence of reads computes is above a `u64`. -/
structure ExactArithmetic [ZlibDecoder] (fs : FileSystem) (origin : Origin) (path : FilePath)
    (desc : TextDescriptor) : Prop where
  opening : ∀ n ∈ openNumbers fs (directoryOf path) desc, n < u64Size
  reading : ∀ r, (openPath fs origin path).result = .ok r → ∀ requests,
    Machine.Steps VmdkReader.step
      (fun s q => ∀ len, q = .read len → ReadsInPlace fs (directoryOf path) desc s len) r requests

section Descriptor
variable [ZlibDecoder] {fs : FileSystem} {origin : Origin} {path : FilePath} {file : Source}
  {desc : TextDescriptor} {r : VmdkReader}

omit [ZlibDecoder] in
theorem readNumbers_one {m : MultiExtentReader} (hfmt : r.fmt = .flat (.multiExtent m))
    (hsize : r.virtualDiskSize = m.totalBytes) (hpos : r.pos < m.totalBytes)
    (h63 : r.pos < 2 ^ 63) : r.readNumbers 1 = m.readNumbers r.pos 1 := by
  unfold readNumbers
  rw [hfmt, hsize, if_neg (by omega), Nat.min_eq_left (by omega)]
  simp only [ExtentReader.readNumbers, Cursor.seek_start_nat h63]

/-- A read of flat extents whose places fit. -/
theorem readsInPlace_flat {dir : FilePath} {m : MultiExtentReader} {len : Nat} (hc : r.Coherent)
    (hfmt : r.fmt = .flat (.multiExtent m)) (hsize : r.virtualDiskSize < u64Size)
    (hcat : MultiExtentReader.Concatenated fs dir desc.extents m)
    (hplaces : ∀ pos < 2 ^ 63, MultiExtentReader.PlaceFits desc.extents pos) :
    ReadsInPlace fs dir desc r len := by
  constructor
  · unfold readNumbers
    split
    · exact fun n hn => by cases hn
    next hend =>
    obtain ⟨hpos, hlen⟩ := not_or.mp hend
    rw [hfmt]
    simp only [ExtentReader.readNumbers]
    split
    · next pos hseek =>
      obtain ⟨rfl, h63⟩ := Cursor.seek_start_ok (by omega) hseek
      exact (hcat.readNumbers_fit (by omega)).mpr (hplaces _ h63)
    · exact fun n hn => by cases hn
  · intro _ bs hread
    rw [(read_spec hc len).1] at hread
    unfold Image.readAt Image.readAtCounting at hread
    split at hread
    · cases hread
      exact ⟨fun h => absurd rfl h, fun k b hb => by simp at hb⟩
    next hend =>
    rw [hfmt] at hread
    obtain ⟨pos, hseek, hread⟩ := bind_eq_ok.mp hread
    obtain ⟨rfl, h63⟩ := Cursor.seek_start_ok (by omega) hseek
    exact (hcat.reads (hplaces _ h63) _).2 bs hread

omit [ZlibDecoder] in
/-- Where all files open and the sizes fit, the descriptor opens. -/
theorem openPath_flat (hfile : fs path = .ok file) (hfirst : file.readExactAt 0 1 = .ok [35])
    (hparse : parseTextDescriptor (decodeDescriptor file.bytes) = .ok desc)
    (hbranch : branchOf desc = some .flatExtents)
    (hall : ∀ ext ∈ desc.extents, MultiExtentReader.Available fs (directoryOf path) ext)
    (hsum : (MultiExtentReader.extentBytes desc.extents).sum < u64Size) :
    ∃ m, (MultiExtentReader.open fs (directoryOf path) desc.extents).result = .ok m ∧
      (openPath fs origin path).result = .ok (descriptorImage desc (.multiExtent m)
        (MultiExtentReader.extentBytes desc.extents).sum).reader := by
  obtain ⟨found, hfound⟩ := @MultiExtentReader.openFrom_of_available _ _ _ 0 hall
  have hopen : (MultiExtentReader.open fs (directoryOf path) desc.extents).result =
      .ok ⟨found.1, found.2⟩ := by
    unfold MultiExtentReader.open
    rw [Opens.result_bind, hfound]
    rfl
  have hcap : desc.capacitySectors * sectorSize =
      (MultiExtentReader.extentBytes desc.extents).sum := by
    rw [(parseTextDescriptor_summed hparse).flat]
    exact (List.sum_map_mul_right _ _ _).symm
  refine ⟨_, hopen, openPath_of_descriptor hfile hfirst hparse ?_⟩
  rw [openDescriptor_flat hbranch, openFlatExtents]
  simp only [Opens.result_bind, bind_eq_ok, Opens.result_mapError, mapError_eq_ok,
    Opens.result_lift, Opens.result_pure]
  exact ⟨_, hopen, ⟨hcap.symm ▸ hsum⟩, ensure_of _, by rw [hcap]⟩

theorem extent_arithmetic_flat (hfile : fs path = .ok file)
    (hfirst : file.readExactAt 0 1 = .ok [35])
    (hparse : parseTextDescriptor (decodeDescriptor file.bytes) = .ok desc)
    (hbranch : branchOf desc = some .flatExtents) :
    ExactArithmetic fs origin path desc ↔
      MultiExtentReader.Fits fs (directoryOf path) desc.extents := by
  have hnumbers : openNumbers fs (directoryOf path) desc =
      MultiExtentReader.openNumbers fs (directoryOf path) 0 desc.extents := by
    unfold openNumbers
    rw [hbranch]
  constructor
  · rintro ⟨hopening, hreading⟩
    rw [hnumbers, MultiExtentReader.openNumbers_fit] at hopening
    simp only [Nat.zero_add] at hopening
    refine ⟨hopening, fun hall pos h63 => ?_⟩
    have hsum := MultiExtentReader.sum_lt_of_sizes hopening hall
    obtain ⟨m, hm, hopen⟩ := @openPath_flat fs origin path file desc hfile hfirst hparse
      hbranch hall hsum
    have hcat := MultiExtentReader.open_concatenated hm hsum
    obtain ⟨-, hread, -⟩ := hreading _ hopen [.seek (.start (UInt64.ofNat pos)), .read 1]
    obtain ⟨hfits, -⟩ := hread 1 rfl
    refine (hcat.readNumbers_fit Nat.one_pos).mp fun n hn => ?_
    by_cases hend : m.totalBytes ≤ pos
    · unfold MultiExtentReader.readNumbers at hn
      rw [if_pos (Or.inl hend)] at hn
      cases hn
    rw [step_seek_start h63] at hfits
    refine hfits n ?_
    rw [readNumbers_one rfl hcat.total.symm (Nat.not_le.mp hend) h63]
    exact hn
  · intro hfits
    constructor
    · rw [hnumbers, MultiExtentReader.openNumbers_fit]
      simp only [Nat.zero_add]
      exact hfits.sizes
    · intro r hopen requests
      have hopened := openPath_descriptor hfile hfirst hparse hopen
      rw [openDescriptor_flat hbranch] at hopened
      obtain ⟨m, hm, hsize, rfl⟩ := openFlatExtents_ok hopened
      obtain ⟨hall, hcat⟩ := hfits.concatenated hm
      refine steps_of_image (fun s him hc q len _ => ?_) requests
      have hfmt : s.fmt = .flat (.multiExtent m) := by
        rw [him]
        rfl
      exact readsInPlace_flat hc hfmt (him ▸ hsize) hcat (hfits.places hall)

/-- **Extent arithmetic is exact** where the sizes of the extents and the places of the flat ones
fit, and only there. -/
theorem extent_arithmetic (hfile : fs path = .ok file) (hfirst : file.readExactAt 0 1 = .ok [35])
    (hparse : parseTextDescriptor (decodeDescriptor file.bytes) = .ok desc)
    (hbranch : branchOf desc ≠ some .seSparse) :
    ExactArithmetic fs origin path desc ↔ ExtentsFit fs (directoryOf path) desc := by
  unfold ExtentsFit
  cases hcase : branchOf desc with
  | none =>
    refine ⟨fun _ => trivial, fun _ => ⟨fun n hn => ?_, fun r hopen => ?_⟩⟩
    · unfold openNumbers at hn
      rw [hcase] at hn
      cases hn
    · exact absurd (openPath_descriptor hfile hfirst hparse hopen) (openDescriptor_none hcase)
  | some branch =>
    cases branch with
    | seSparse => exact absurd hcase hbranch
    | flatExtents => exact extent_arithmetic_flat hfile hfirst hparse hcase
    | sparseExtents =>
      have hnumbers : openNumbers fs (directoryOf path) desc =
          MultiSparseReader.openNumbers fs (directoryOf path) 0 desc.sparseExtents := by
        unfold openNumbers
        rw [hcase]
      have hsums := @MultiSparseReader.openNumbers_fit fs (directoryOf path) desc.sparseExtents 0
        (Nat.two_pow_pos 64)
      simp only [Nat.zero_add] at hsums
      refine ⟨fun h => hsums.mp (hnumbers ▸ h.opening), fun hfits => ⟨?_, fun r hopen => ?_⟩⟩
      · rw [hnumbers]
        exact hsums.mpr hfits
      · have hopened := openPath_descriptor hfile hfirst hparse hopen
        rw [openDescriptor_sparse hcase] at hopened
        obtain ⟨m, hm, hsize, rfl⟩ := openSparseExtents_ok hopened
        refine fun requests => steps_of_image (fun s him hc q len _ => ?_) requests
        have hfmt : s.fmt = .flat (.multiSparse m) := by
          rw [him]
          rfl
        refine ⟨?_, fun hflat => ?_⟩
        · unfold readNumbers
          split
          · exact fun n hn => by cases hn
          rw [hfmt]
          simp only [ExtentReader.readNumbers]
          split
          · exact MultiSparseReader.readNumbers_lt (MultiSparseReader.open_bounded hm)
          · exact fun n hn => by cases hn
        · rw [hcase] at hflat
          cases hflat

end Descriptor

/-- A descriptor of one sector that begins at the last byte a `u64` can name. -/
def saturatedText : Text :=
  "#\ncreateType=\"vmfs\"\nRW 1 FLAT \"a\" 36028797018963968".toList

/-- Two bytes, as the extent of every descriptor. -/
def twoBytes : Source := .ofBytes [7, 8] (by decide)

/-- The descriptor, and beside it one file under every other name. -/
def saturatedFiles : FileSystem := fun path =>
  if path = ['d'] then .ok (textFile saturatedText (by decide +kernel)) else .ok twoBytes

/-- What the descriptor opens as, and what a read at its second byte computes and delivers. -/
theorem saturated_run : let _ := Stored.decoder
    (openPath saturatedFiles .caller ['d']).result.map (fun r =>
      ((r.seek (.start 1)).2.readNumbers 1, ((r.seek (.start 1)).2.read 1).1)) =
        .ok ([2 ^ 64], .ok [7]) := by
  decide +kernel

/-- **The place of the second byte wraps around** to the first byte of the file. -/
theorem wraps_saturated : let _ := Stored.decoder
    ∃ desc r, parseTextDescriptor (decodeDescriptor (textBytes saturatedText)) = .ok desc ∧
      (openPath saturatedFiles .caller ['d']).result = .ok r ∧
      (r.seek (.start 1)).2.readNumbers 1 = [2 ^ 64] ∧ ((r.seek (.start 1)).2.read 1).1 = .ok [7] ∧
      ¬ ExactArithmetic saturatedFiles .caller ['d'] desc := by
  intro _
  obtain ⟨desc, hdesc⟩ := exists_of_isOk
    (x := parseTextDescriptor (decodeDescriptor (textBytes saturatedText))) (by decide +kernel)
  obtain ⟨r, hr, hrun⟩ := exists_of_map_eq saturated_run
  obtain ⟨hnumbers, hread⟩ := Prod.mk.inj hrun
  refine ⟨desc, r, hdesc, hr, hnumbers, hread, fun hexact => ?_⟩
  obtain ⟨-, hsteps, -⟩ := hexact.reading r hr [.seek (.start 1), .read 1]
  have hmem : 2 ^ 64 ∈ (r.step (.seek (.start 1))).2.readNumbers 1 := by
    show 2 ^ 64 ∈ (r.seek (.start 1)).2.readNumbers 1
    rw [hnumbers]
    exact List.mem_singleton_self _
  exact Nat.lt_irrefl _ ((hsteps 1 rfl).1 _ hmem)

theorem extent_arithmetic_saturated : let _ := Stored.decoder
    ∃ desc, parseTextDescriptor (decodeDescriptor (textBytes saturatedText)) = .ok desc ∧
      (ExactArithmetic saturatedFiles .caller ['d'] desc ↔
        ExtentsFit saturatedFiles (directoryOf ['d']) desc) := by
  intro _
  have hbranch : (parseTextDescriptor (decodeDescriptor (textBytes saturatedText))).map branchOf =
      .ok (some .flatExtents) := by
    decide +kernel
  obtain ⟨desc, hdesc, hbranch⟩ := exists_of_map_eq hbranch
  refine ⟨desc, hdesc, @extent_arithmetic _ saturatedFiles .caller ['d']
    (textFile saturatedText (by decide +kernel)) desc rfl (by decide +kernel) hdesc ?_⟩
  rw [hbranch]
  exact fun h => by cases h

end VmdkReader
