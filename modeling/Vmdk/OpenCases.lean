import Vmdk.OpenSound
import Vmdk.OpenPath
import Vmdk.Lib.Intervals

/-! # What opening by path accepts

`branchOf` is the routing of a descriptor on its own, and `openPath_cases` the
inversion of `openPath`: a binary extent, or a descriptor and what its branch
made of it. Every image that comes out is shaped for bytewise reading
(`openPath_shaped`). -/

open Bytes Word

namespace VmdkReader

/-- How a descriptor is opened. -/
inductive Branch where
  | flatExtents
  | sparseExtents
  | seSparse
deriving DecidableEq, Repr

/-- The branch `createType` selects; `none` where the descriptor is refused. -/
def branchOf (desc : TextDescriptor) : Option Branch :=
  if desc.createType ∈ flatCreateTypes then some .flatExtents
  else if desc.createType ∈ sparseCreateTypes then some .sparseExtents
  else if desc.createType = "seSparse".toList then some .seSparse
  else if desc.createType = "custom".toList then
    if desc.extents ≠ [] ∧ desc.sparseExtents ≠ [] then none
    else if desc.extents ≠ [] then some .flatExtents
    else if desc.sparseExtents ≠ [] then some .sparseExtents
    else none
  else none

variable {fs : FileSystem} {origin : Origin} {path dir : FilePath} {desc : TextDescriptor}
  {r : VmdkReader}

/-- A descriptor is opened by its branch, or opens nothing. -/
theorem openDescriptor_eq : (∃ e, branchOf desc = none ∧
      openDescriptor fs dir desc = Opens.lift (.error e)) ∨
    branchOf desc = some .flatExtents ∧
      openDescriptor fs dir desc = openFlatExtents fs dir desc ∨
    branchOf desc = some .sparseExtents ∧
      openDescriptor fs dir desc = openSparseExtents fs dir desc ∨
    branchOf desc = some .seSparse ∧
      openDescriptor fs dir desc = openSesparseDescriptor fs dir desc := by
  unfold branchOf openDescriptor
  split
  · exact .inr (.inl ⟨rfl, rfl⟩)
  · split
    · exact .inr (.inr (.inl ⟨rfl, rfl⟩))
    · split
      · exact .inr (.inr (.inr ⟨rfl, rfl⟩))
      · split
        · unfold openCustom
          split
          · exact .inl ⟨_, rfl, rfl⟩
          · split
            · exact .inr (.inl ⟨rfl, rfl⟩)
            · split
              · exact .inr (.inr (.inl ⟨rfl, rfl⟩))
              · exact .inl ⟨_, rfl, rfl⟩
        · exact .inl ⟨_, rfl, rfl⟩

theorem openFlatExtents_ok (h : (openFlatExtents fs dir desc).result = .ok r) :
    ∃ multi, (MultiExtentReader.open fs dir desc.extents).result = .ok multi ∧
      desc.capacitySectors * sectorSize < u64Size ∧
      r = (descriptorImage desc (.multiExtent multi)
        (desc.capacitySectors * sectorSize)).reader := by
  unfold openFlatExtents at h
  simp only [Opens.result_bind, bind_eq_ok, Opens.result_mapError, mapError_eq_ok,
    Opens.result_lift, ensure_eq_ok, Opens.result_pure] at h
  obtain ⟨multi, hmulti, _, hfits, h⟩ := h
  cases h
  exact ⟨multi, hmulti, hfits, rfl⟩

theorem openSparseExtents_ok (h : (openSparseExtents fs dir desc).result = .ok r) :
    ∃ multi, (MultiSparseReader.open fs dir desc.sparseExtents).result = .ok multi ∧
      desc.sparseCapacitySectors * sectorSize < u64Size ∧
      r = (descriptorImage desc (.multiSparse multi)
        (desc.sparseCapacitySectors * sectorSize)).reader := by
  unfold openSparseExtents at h
  simp only [Opens.result_bind, bind_eq_ok, Opens.result_mapError, mapError_eq_ok,
    Opens.result_lift, ensure_eq_ok, Opens.result_pure] at h
  obtain ⟨multi, hmulti, _, hfits, h⟩ := h
  cases h
  exact ⟨multi, hmulti, hfits, rfl⟩

theorem openSesparseDescriptor_ok (h : (openSesparseDescriptor fs dir desc).result = .ok r) :
    ∃ entry file, desc.sparseExtents.head? = some entry ∧
      fs (FilePath.join dir entry.filename) = .ok file ∧ VmdkReader.open file = .ok r := by
  unfold openSesparseDescriptor at h
  split at h
  · cases h
  · next entry hentry =>
    simp only [Opens.result_bind, bind_eq_ok, Opens.result_mapError, mapError_eq_ok,
      Opens.result_lift] at h
    obtain ⟨file, hfile, h⟩ := h
    exact ⟨entry, file, hentry, hfile, h⟩

/-- What `openPath` accepts: a binary extent, or a descriptor whose branch makes a reader. -/
theorem openPath_cases (h : (openPath fs origin path).result = .ok r) :
    ∃ file firstByte, fs path = .ok file ∧ file.readExactAt 0 1 = .ok firstByte ∧
      (firstByte ≠ [35] ∧ VmdkReader.open file = .ok r ∨
        firstByte = [35] ∧ ∃ desc, parseTextDescriptor (decodeDescriptor file.bytes) = .ok desc ∧
          (openDescriptor fs (directoryOf path) desc).result = .ok r) := by
  unfold openPath at h
  simp only [Opens.result_bind, bind_eq_ok, Opens.result_mapError, mapError_eq_ok,
    Opens.result_lift, fromIo_eq_ok] at h
  obtain ⟨file, hfile, firstByte, hfirst, file', hfile', h⟩ := h
  have hsame : file' = file := by
    change fs path = _ at hfile
    change fs path = _ at hfile'
    rw [hfile] at hfile'
    exact (Except.ok.inj hfile').symm
  subst hsame
  refine ⟨file', firstByte, hfile, hfirst, ?_⟩
  split at h
  · next hd =>
    simp only [Opens.result_bind, bind_eq_ok, Opens.result_lift] at h
    obtain ⟨desc, hparse, h⟩ := h
    exact .inr ⟨hd, desc, hparse, h⟩
  · next hd => exact .inl ⟨hd, h⟩

/-- A file that begins with `#` is opened as the descriptor it holds. -/
theorem openPath_descriptor {file : Source} (hfile : fs path = .ok file)
    (hfirst : file.readExactAt 0 1 = .ok [35])
    (hparse : parseTextDescriptor (decodeDescriptor file.bytes) = .ok desc)
    (hopen : (openPath fs origin path).result = .ok r) :
    (openDescriptor fs (directoryOf path) desc).result = .ok r := by
  obtain ⟨file', firstByte, hfile', hfirst', hcase⟩ := openPath_cases hopen
  rw [hfile] at hfile'
  cases hfile'
  rw [hfirst] at hfirst'
  cases hfirst'
  obtain ⟨hbinary, -⟩ | ⟨-, desc', hparse', hopened⟩ := hcase
  · exact absurd rfl hbinary
  · rw [hparse] at hparse'
    cases hparse'
    exact hopened

theorem openPath_of_descriptor {file : Source} (hfile : fs path = .ok file)
    (hfirst : file.readExactAt 0 1 = .ok [35])
    (hparse : parseTextDescriptor (decodeDescriptor file.bytes) = .ok desc)
    (hopen : (openDescriptor fs (directoryOf path) desc).result = .ok r) :
    (openPath fs origin path).result = .ok r := by
  unfold openPath
  simp only [Opens.result_bind, bind_eq_ok, Opens.result_mapError, mapError_eq_ok,
    Opens.result_lift, fromIo_eq_ok]
  refine ⟨file, hfile, [35], hfirst, file, hfile, ?_⟩
  rw [if_pos rfl]
  simp only [Opens.result_bind, bind_eq_ok, Opens.result_lift]
  exact ⟨desc, hparse, hopen⟩

/-- A path to a binary extent is opened as that file. -/
theorem openPath_binary {file : Source} (hfile : fs path = .ok file)
    (hopen : VmdkReader.open file = .ok r) : (openPath fs origin path).result = .ok r := by
  obtain ⟨b, hfirst, hbinary⟩ := open_firstByte hopen
  unfold openPath
  simp only [Opens.result_bind, bind_eq_ok, Opens.result_mapError, mapError_eq_ok,
    Opens.result_lift, fromIo_eq_ok]
  refine ⟨file, hfile, [b], hfirst, file, hfile, ?_⟩
  rw [if_neg fun h => hbinary (List.cons.inj h).1]
  exact hopen

/-- `opens` opens the extents of the branch, or nothing. -/
def OpensBranch (fs : FileSystem) (dir : FilePath) (desc : TextDescriptor)
    (opens : Opens VmdkError VmdkReader) : Option Branch → Prop
  | none => ∃ e, opens = Opens.lift (.error e)
  | some .flatExtents => opens = openFlatExtents fs dir desc
  | some .sparseExtents => opens = openSparseExtents fs dir desc
  | some .seSparse => opens = openSesparseDescriptor fs dir desc

/-- The branch decides which extents are opened. -/
theorem openDescriptor_branch :
    OpensBranch fs dir desc (openDescriptor fs dir desc) (branchOf desc) := by
  rcases @openDescriptor_eq fs dir desc with ⟨e, hb, heq⟩ | ⟨hb, heq⟩ | ⟨hb, heq⟩ | ⟨hb, heq⟩
  · rw [hb]
    exact ⟨e, heq⟩
  · rw [hb]
    exact heq
  · rw [hb]
    exact heq
  · rw [hb]
    exact heq

theorem openDescriptor_flat (hbranch : branchOf desc = some .flatExtents) :
    openDescriptor fs dir desc = openFlatExtents fs dir desc := by
  have h := @openDescriptor_branch fs dir desc
  rw [hbranch] at h
  exact h

theorem openDescriptor_sparse (hbranch : branchOf desc = some .sparseExtents) :
    openDescriptor fs dir desc = openSparseExtents fs dir desc := by
  have h := @openDescriptor_branch fs dir desc
  rw [hbranch] at h
  exact h

theorem openDescriptor_seSparse (hbranch : branchOf desc = some .seSparse) :
    openDescriptor fs dir desc = openSesparseDescriptor fs dir desc := by
  have h := @openDescriptor_branch fs dir desc
  rw [hbranch] at h
  exact h

theorem openDescriptor_none (hbranch : branchOf desc = none) :
    (openDescriptor fs dir desc).result ≠ .ok r := by
  have h := @openDescriptor_branch fs dir desc
  rw [hbranch] at h
  obtain ⟨e, heq⟩ := h
  rw [heq]
  exact fun hok => by cases hok

end VmdkReader

/-! ## The shape of an opened image -/

/-- Extents and chunks lie end to end from 0 on. -/
def ExtentReader.EndToEnd : ExtentReader → Prop
  | .multiExtent m => Intervals.Chained FlatExtent.byteStart FlatExtent.byteEnd 0 m.extents
  | .multiSparse m => Intervals.Chained SparseChunk.byteStart SparseChunk.byteEnd 0 m.chunks

/-- What opening guarantees of an image: it has whole sectors, its grains as well, and its extents
lie end to end. -/
structure Image.Shaped (im : Image) : Prop where
  size_lt : im.virtualDiskSize < u64Size
  size_dvd : sectorSize ∣ im.virtualDiskSize
  fmt : match im.fmt with
    | .sparse _ geom => im.virtualDiskSize < 2 ^ 63 ∧ sectorSize ∣ geom.grainSizeBytes
    | .seSparse _ geom => im.virtualDiskSize < 2 ^ 63 ∧ geom.grainSizeBytes = 4096
    | .flat inner => inner.EndToEnd

section Shaped
variable {fs : FileSystem} {dir : FilePath}

theorem MultiExtentReader.openFrom_chained {exts : List ExtentEntry} {virt total : Nat}
    {flats : List FlatExtent} (h : (openFrom fs dir virt exts).result = .ok (flats, total)) :
    Intervals.Chained FlatExtent.byteStart FlatExtent.byteEnd virt flats := by
  induction exts generalizing virt flats with
  | nil => cases h; trivial
  | cons ext rest ih =>
    unfold openFrom at h
    simp only [Opens.result_bind, bind_eq_ok, Opens.result_pure] at h
    obtain ⟨file, -, ⟨flats', total'⟩, hrest, h⟩ := h
    cases h
    exact ⟨rfl, ih hrest⟩

theorem MultiExtentReader.open_chained {exts : List ExtentEntry} {m : MultiExtentReader}
    (h : (MultiExtentReader.open fs dir exts).result = .ok m) :
    (ExtentReader.multiExtent m).EndToEnd := by
  unfold MultiExtentReader.open at h
  simp only [Opens.result_bind, bind_eq_ok, Opens.result_pure] at h
  obtain ⟨⟨flats, total⟩, hopen, h⟩ := h
  cases h
  exact openFrom_chained hopen

theorem MultiSparseReader.chunkOf_byteStart {file : Source} {sizeSectors byteOffset : Nat}
    {chunk : SparseChunk} (h : chunkOf file sizeSectors byteOffset = .ok chunk) :
    chunk.byteStart = byteOffset := by
  unfold chunkOf cowdChunk at h
  obtain ⟨hdrBytes, -, h⟩ := bind_eq_ok.mp h
  split at h
  · simp only [bind_eq_ok] at h
    obtain ⟨geom, -, hdr, -, h⟩ := h
    cases h; rfl
  · simp only [bind_eq_ok] at h
    obtain ⟨hdr, -, geom, -, h⟩ := h
    cases h; rfl

theorem MultiSparseReader.openFrom_chained {entries : List SparseEntry} {byteOffset total : Nat}
    {chunks : List SparseChunk}
    (h : (openFrom fs dir byteOffset entries).result = .ok (chunks, total)) :
    Intervals.Chained SparseChunk.byteStart SparseChunk.byteEnd byteOffset chunks := by
  induction entries generalizing byteOffset chunks with
  | nil => cases h; trivial
  | cons entry rest ih =>
    unfold openFrom at h
    simp only [Opens.result_bind, bind_eq_ok, Opens.result_pure, Opens.result_lift] at h
    obtain ⟨path, -, file, -, chunk, hchunk, ⟨chunks', total'⟩, hrest, h⟩ := h
    cases h
    exact ⟨chunkOf_byteStart hchunk, ih hrest⟩

theorem MultiSparseReader.open_chained {entries : List SparseEntry} {m : MultiSparseReader}
    (h : (MultiSparseReader.open fs dir entries).result = .ok m) :
    (ExtentReader.multiSparse m).EndToEnd := by
  unfold MultiSparseReader.open at h
  simp only [Opens.result_bind, bind_eq_ok, Opens.result_pure] at h
  obtain ⟨⟨chunks, total⟩, hopen, h⟩ := h
  cases h
  exact openFrom_chained hopen

theorem open_shaped {file : Source} {r : VmdkReader} (h : VmdkReader.open file = .ok r) :
    ∃ im : Image, r = im.reader ∧ im.Shaped := by
  obtain ⟨im, rfl, hsize, hlt, hindex⟩ := open_loads h
  refine ⟨im, rfl, Nat.lt_trans hlt (by decide), hsize ▸ Nat.dvd_mul_left _ _, ?_⟩
  generalize layoutOf file.bytes = layout at hindex
  cases layout with
  | tables L =>
    obtain ⟨geom, hfmt, hload⟩ := hindex
    rw [hfmt]
    exact ⟨hlt, hload.grainSizeBytes ▸ Nat.dvd_mul_left _ _⟩
  | seSparse L =>
    obtain ⟨geom, hfmt, hgrain, -⟩ := hindex
    rw [hfmt]
    exact ⟨hlt, hgrain⟩

/-- **Every image that a path opens is shaped.** -/
theorem openPath_shaped {origin : Origin} {path : FilePath} {r : VmdkReader}
    (h : (VmdkReader.openPath fs origin path).result = .ok r) :
    ∃ im : Image, r = im.reader ∧ im.Shaped := by
  obtain ⟨file, -, -, -, ⟨-, hopen⟩ | ⟨-, desc, -, hopen⟩⟩ := VmdkReader.openPath_cases h
  · exact open_shaped hopen
  · rcases VmdkReader.openDescriptor_eq with ⟨e, -, heq⟩ | ⟨-, heq⟩ | ⟨-, heq⟩ | ⟨-, heq⟩
    · rw [heq] at hopen
      cases hopen
    · rw [heq] at hopen
      obtain ⟨m, hm, hfits, rfl⟩ := VmdkReader.openFlatExtents_ok hopen
      exact ⟨_, rfl, hfits, Nat.dvd_mul_left _ _, MultiExtentReader.open_chained hm⟩
    · rw [heq] at hopen
      obtain ⟨m, hm, hfits, rfl⟩ := VmdkReader.openSparseExtents_ok hopen
      exact ⟨_, rfl, hfits, Nat.dvd_mul_left _ _, MultiSparseReader.open_chained hm⟩
    · rw [heq] at hopen
      obtain ⟨-, _, -, -, hfile⟩ := VmdkReader.openSesparseDescriptor_ok hopen
      exact open_shaped hfile

end Shaped
