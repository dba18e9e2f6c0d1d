import Vmdk.AllocSound
import Vmdk.ChainOpen
import Vmdk.ExtentLines

/-! # What a reader is composed of

Each branch of `openPath` takes one of the two lists of extents, or the first
element of one. The disk that the extent lines make is presented, with all of
them there and each in its place, exactly when the branch takes every line and
no file is of another size (`VmdkReader.composed_exact`). -/

open Bytes Text Word

/-- A part of the disk and the file that it is read from; none for zeros. -/
structure Piece where
  start : Nat
  stop : Nat
  file : Option Source

namespace FormatState

def ofExtent (e : FlatExtent) : Piece := ⟨e.byteStart, e.byteEnd, e.file⟩

def ofChunk (c : SparseChunk) : Piece := ⟨c.byteStart, c.byteEnd, some c.file⟩

/-- The parts of a disk of `size` bytes, in order. -/
def pieces (size : Nat) : FormatState → List Piece
  | .flat (.multiExtent m) => m.extents.map ofExtent
  | .flat (.multiSparse m) => m.chunks.map ofChunk
  | .sparse inner _ => [⟨0, size, some inner⟩]
  | .seSparse inner _ => [⟨0, size, some inner⟩]

end FormatState

/-! ## What is made of a line -/

section
variable {fs : FileSystem} {dir : FilePath} {l : ExtentLine} {file : Source}

/-- The line is an extent of this file; of none, where the extent is a hole. -/
def ExtentLine.ReadsFile (fs : FileSystem) (dir : FilePath) (line : ExtentLine)
    (file : Option Source) : Prop :=
  if line.Hole then file = none
  else ∃ source, line.source fs dir = some source ∧ file = some source

/-- A flat line that is not a hole names the file of the extent made of it. -/
theorem FlatLine.source {ext : ExtentEntry} {flat : FlatExtent} (hl : FlatLine l ext)
    (hf : MultiExtentReader.ExtentFrom fs dir ext flat) (hsolid : ext.isZero = false) :
    ∃ source, l.source fs dir = some source ∧ flat.file = some source := by
  obtain ⟨source, hsource⟩ := Option.isSome_iff_exists.mp (hf.opened hsolid)
  have hfile := hf.file
  unfold MultiExtentReader.extentFile at hfile
  rw [hsolid, hsource] at hfile
  obtain ⟨p, hp, hfs⟩ := Option.bind_eq_some_iff.mp hfile.symm
  rw [toOption_eq_some] at hp
  obtain ⟨-, rfl⟩ := resolveExtentPath_ok hp
  refine ⟨source, ?_, hsource⟩
  unfold ExtentLine.source
  rw [hl.fileName hsolid]
  exact hfs

theorem MultiExtentReader.ExtentFrom.file_none {ext : ExtentEntry} {flat : FlatExtent}
    (hf : MultiExtentReader.ExtentFrom fs dir ext flat) (hzero : ext.isZero = true) :
    flat.file = none := by
  rw [hf.file]
  unfold MultiExtentReader.extentFile
  rw [hzero]
  rfl

theorem FlatLine.solid {ext : ExtentEntry} (hl : FlatLine l ext) (hsolid : ext.isZero = false) :
    ¬ l.Hole := by
  rw [hl.hole, hsolid]
  exact Bool.false_ne_true

theorem FlatLine.readsFile {ext : ExtentEntry} {flat : FlatExtent}
    (hl : FlatLine l ext) (hf : MultiExtentReader.ExtentFrom fs dir ext flat) :
    l.ReadsFile fs dir flat.file := by
  unfold ExtentLine.ReadsFile
  cases hzero : ext.isZero with
  | true =>
    rw [if_pos (hl.hole.mpr hzero)]
    exact hf.file_none hzero
  | false =>
    rw [if_neg (hl.solid hzero)]
    exact hl.source hf hzero

/-- A sparse line names the file that is opened for it. -/
theorem SparseLine.source {ext : SparseEntry} (hl : SparseLine l ext)
    (hfile : fs (FilePath.join dir ext.filename) = .ok file) : l.source fs dir = some file := by
  unfold ExtentLine.source
  rw [hl.fileName, Option.bind_some, hfile]
  rfl

theorem SparseLine.readsFile {ext : SparseEntry} (hl : SparseLine l ext)
    (hfile : fs (FilePath.join dir ext.filename) = .ok file) :
    l.ReadsFile fs dir (some file) := by
  unfold ExtentLine.ReadsFile
  rw [if_neg hl.solid]
  exact ⟨file, hl.source hfile, rfl⟩

/-- The bytes of a flat line are those of the extent made of it. -/
theorem FlatLine.byteAt_eq [ZlibDecoder] {alone : Bool} {ext : ExtentEntry} {flat : FlatExtent}
    (hl : FlatLine l ext) (hf : MultiExtentReader.ExtentFrom fs dir ext flat) (k : Nat) :
    l.byteAt fs dir alone k = MultiExtentReader.placedByte flat.file flat.fileOffset k := by
  unfold ExtentLine.byteAt MultiExtentReader.placedByte
  cases hzero : ext.isZero with
  | true =>
    rw [if_pos (hl.hole.mpr hzero), hf.file_none hzero]
  | false =>
    obtain ⟨source, hsource, hfile⟩ := hl.source hf hzero
    rw [if_neg (hl.solid hzero), hsource, hfile, Option.bind_some, if_pos hl.kind, hl.place hzero,
      hf.fileOffset]

theorem SparseLine.byteAt_eq [ZlibDecoder] {alone : Bool} {ext : SparseEntry} (hl : SparseLine l ext)
    (hfile : fs (FilePath.join dir ext.filename) = .ok file) (k : Nat) :
    l.byteAt fs dir alone k = ExtentLine.sparseByte alone file k := by
  unfold ExtentLine.byteAt
  rw [if_neg hl.solid, hl.source hfile, Option.bind_some, if_neg hl.kind]

end

namespace VmdkReader
variable {fs : FileSystem} {origin : Origin} {path dir : FilePath} {file : Source} {text : Text}
  {desc : TextDescriptor} {r : VmdkReader} {ls : List ExtentLine}

section
variable [ZlibDecoder] {alone : Bool} {im : Image}

/-- One read is a right answer of the disk `d`. -/
def ReadsRight (d : Disk Empty Empty) (s : VmdkReader) (q : Disk.Request Query) : Prop :=
  ∀ len, q = .read len → ReadRight d s.pos len (s.read len).1

/-- The disk is made of the extents of the lines: it has their size, the parts of it are theirs in
their order and at their places, and every read of every run delivers their bytes. -/
structure Composed (fs : FileSystem) (dir : FilePath) (alone : Bool) (ls : List ExtentLine)
    (r : VmdkReader) : Prop where
  size : r.virtualDiskSize = (ls.map ExtentLine.sectors).sum * sectorSize
  placed : Intervals.Tiles Piece.start Piece.stop 0 (ls.map fun l => l.sectors * sectorSize)
    (r.fmt.pieces r.virtualDiskSize)
  files : List.Forall₂ (fun l p => l.ReadsFile fs dir p.file) ls (r.fmt.pieces r.virtualDiskSize)
  reads : ∀ reqs, Machine.Steps step (ReadsRight (linesDisk fs dir alone ls)) r reqs

/-- Reads that are right at any place are right in any run. -/
theorem steps_of_readRight {d : Disk Empty Empty}
    (h : ∀ pos len, ReadRight d pos len (im.readAt false pos len))
    (reqs : List (Disk.Request Query)) : Machine.Steps step (ReadsRight d) im.reader reqs := by
  have hstep : ∀ (s : VmdkReader) q, (s.toImage = im ∧ s.rgdFallback = false ∧ s.Coherent) → True →
      ReadsRight d s q ∧
        ((s.step q).2.toImage = im ∧ (s.step q).2.rgdFallback = false ∧ (s.step q).2.Coherent) := by
    rintro s q ⟨him, hfallback, hc⟩ -
    obtain ⟨hkept, hmode, hc'⟩ := step_keeps hc q
    refine ⟨?_, hkept.trans him, hmode.trans hfallback, hc'⟩
    rintro len rfl
    rw [(read_spec hc len).1, him, hfallback]
    exact h s.pos len
  exact Machine.steps_of_inv hstep ⟨rfl, rfl, coherent_reader im⟩ (Machine.steps_true _ _ _)

omit [ZlibDecoder] in
theorem sum_lineBytes (ls : List ExtentLine) : (ls.map fun l => l.sectors * sectorSize).sum =
    (ls.map ExtentLine.sectors).sum * sectorSize := by
  rw [List.sum_map_mul_right]

/-- Where parts lie as the lines say, an offset of the disk has the byte of the part that covers it. -/
theorem linesByte_covering {P : Type} {start stop : P → Nat} {byte : P → Nat → Option UInt8}
    {ps : List P} {o : Nat}
    (htiles : Intervals.Tiles start stop 0 (ls.map fun l => l.sectors * sectorSize) ps)
    (hbytes : List.Forall₂ (fun l p => ∀ k, l.byteAt fs dir alone k = byte p k) ls ps)
    (ho : o < (ls.map ExtentLine.sectors).sum * sectorSize) :
    ∃ p ∈ ps, Intervals.covering start stop ps o = some p ∧
      linesByte fs dir alone ls o = byte p (o - start p) := by
  obtain ⟨i, p, hi, hp, hcover, hge, hlt⟩ :=
    htiles.covering_eq (Nat.zero_le o) (by rwa [Nat.zero_add, sum_lineBytes])
  obtain ⟨p', hp', hstart, -⟩ := htiles.getElem hi
  rw [hp] at hp'
  cases hp'
  rw [Nat.zero_add] at hge hlt hstart
  rw [List.length_map] at hi
  obtain ⟨hi', rfl⟩ := List.getElem?_eq_some_iff.mp hp
  refine ⟨_, List.getElem_mem hi', hcover, ?_⟩
  have hbyte := hbytes.get hi hi'
  rw [linesByte_eq (List.getElem?_eq_getElem hi) hge hlt, hstart]
  exact hbyte _

/-- Extents that lie as the lines say, and whose reads start with the bytes of the lines, present the
disk of the lines. -/
theorem readRight_of_covering {P : Type} {start stop : P → Nat} {byte : P → Nat → Option UInt8}
    {ps : List P} {inner : ExtentReader} (him : im.Shaped) (hfmt : im.fmt = .flat inner)
    (hsize : im.virtualDiskSize = (ls.map ExtentLine.sectors).sum * sectorSize)
    (htiles : Intervals.Tiles start stop 0 (ls.map fun l => l.sectors * sectorSize) ps)
    (hbytes : List.Forall₂ (fun l p => ∀ k, l.byteAt fs dir alone k = byte p k) ls ps)
    (hread : ∀ p ∈ ps, ∀ o < im.virtualDiskSize, Intervals.covering start stop ps o = some p →
      ∀ len, 0 < len → ∀ b,
        (∃ bs, inner.readHere o len = .ok (b :: bs)) ↔ byte p (o - start p) = some b)
    (pos len : Nat) : ReadRight (linesDisk fs dir alone ls) pos len (im.readAt false pos len) := by
  refine him.readRight_flat hfmt hsize.symm (fun o hserved => hserved) (fun o ho len hlen b => ?_) _ _
  obtain ⟨p, hmem, hcover, hbyte⟩ := linesByte_covering htiles hbytes (hsize ▸ ho)
  rw [hread p hmem o ho hcover len hlen b, ← hbyte]
  rfl

end

/-! ## Branches -/

/-- The branch of the descriptor takes every extent line, and no file is of another size. -/
structure Composable (fs : FileSystem) (dir : FilePath) (text : Text) (desc : TextDescriptor) :
    Prop where
  flat : branchOf desc = some .flatExtents → ∀ l ∈ lines (cleanText text),
    ∀ e, ExtentLine.ofLine (trim l) = some e → ∃ ext, (lineOf l).flat? = some ext
  sparse : branchOf desc = some .sparseExtents → (∀ l ∈ lines (cleanText text),
    ∀ e, ExtentLine.ofLine (trim l) = some e → ∃ ext, (lineOf l).sparse? = some ext) ∧
      ∀ entry ∈ desc.sparseExtents, MultiSparseReader.SizeDeclared fs dir entry
  seSparse : branchOf desc = some .seSparse → (extentLines text).length = 1 ∧
    ∀ entry file, desc.sparseExtents.head? = some entry →
      fs (FilePath.join dir entry.filename) = .ok file →
        (layoutOf file.bytes).capacity = entry.sizeSectors

theorem flat?_says {l : Text} {ext : ExtentEntry} (h : (lineOf l).flat? = some ext) :
    ∃ e, ExtentLine.ofLine (trim l) = some e ∧ FlatLine e ext := by
  cases hl : lineOf l with
  | flat ext' =>
    rw [hl] at h
    cases h
    exact ofLine_of_flat (lineOf_eq_flat hl)
  | _ =>
    rw [hl] at h
    cases h

theorem sparse?_says {l : Text} {ext : SparseEntry} (h : (lineOf l).sparse? = some ext) :
    ∃ e, ExtentLine.ofLine (trim l) = some e ∧ SparseLine e ext := by
  cases hl : lineOf l with
  | sparse ext' =>
    rw [hl] at h
    cases h
    exact ofLine_of_sparse (lineOf_eq_sparse hl)
  | _ =>
    rw [hl] at h
    cases h

theorem forall₂_trans {α β γ : Type} {R : α → β → Prop} {S : β → γ → Prop} {T : α → γ → Prop}
    {as : List α} {bs : List β} {cs : List γ} (h : List.Forall₂ R as bs) (h' : List.Forall₂ S bs cs)
    (hT : ∀ a b c, R a b → S b c → T a c) : List.Forall₂ T as cs := by
  induction h generalizing cs with
  | nil =>
    cases h'
    exact .nil
  | cons hR _ ih =>
    cases h' with
    | cons hS hrest => exact .cons (hT _ _ _ hR hS) (ih hrest)

theorem map_eq_of_forall₂ {α β γ : Type} {f : α → γ} {g : β → γ} {as : List α} {bs : List β}
    (h : List.Forall₂ (fun a b => f a = g b) as bs) : as.map f = bs.map g := by
  induction h with
  | nil => rfl
  | cons hhead _ ih => rw [List.map_cons, List.map_cons, hhead, ih]

/-- What the selected lines say, one entry after the other. -/
theorem lines_say {E : Type} {g : Text → Option E} {Says : ExtentLine → E → Prop}
    (hg : ∀ l e, g l = some e → ∃ x, ExtentLine.ofLine (trim l) = some x ∧ Says x e)
    (h : ∀ l ∈ lines (cleanText text), ∀ x, ExtentLine.ofLine (trim l) = some x →
      ∃ e, g l = some e) :
    List.Forall₂ Says (extentLines text) ((lines (cleanText text)).filterMap g) := by
  refine forall₂_select (fun l hl x hx => ?_) fun l hl e he => ?_
  · obtain ⟨e, he⟩ := h l hl x hx
    obtain ⟨x', hx', hsays⟩ := hg l e he
    rw [hx] at hx'
    cases hx'
    exact ⟨e, he, hsays⟩
  · obtain ⟨x, hx, -⟩ := hg l e he
    exact ⟨x, hx⟩

section
variable [ZlibDecoder] {alone : Bool}

theorem flat_composed {m : MultiExtentReader}
    (hparse : parseTextDescriptor text = .ok desc)
    (hm : (MultiExtentReader.open fs dir desc.extents).result = .ok m)
    (hfits : desc.capacitySectors * sectorSize < u64Size)
    (hshaped : (descriptorImage desc (.multiExtent m)
      (desc.capacitySectors * sectorSize)).Shaped) :
    Composed fs dir alone (extentLines text)
        (descriptorImage desc (.multiExtent m) (desc.capacitySectors * sectorSize)).reader ↔
      ∀ l ∈ lines (cleanText text), ∀ e, ExtentLine.ofLine (trim l) = some e →
        ∃ ext, (lineOf l).flat? = some ext := by
  obtain ⟨-, hexts, -⟩ := parseTextDescriptor_lines hparse
  have hfrom := MultiExtentReader.open_eq hm
  have hmade := MultiExtentReader.openFrom_extents hfrom
  constructor
  · intro hcomposed
    have hlen := hcomposed.files.length_eq
    change (extentLines text).length = (m.extents.map FormatState.ofExtent).length at hlen
    rw [List.length_map, ← hmade.length_eq, hexts] at hlen
    refine select_of_length (fun l _ ext hext => ?_) hlen
    obtain ⟨e, he, -⟩ := flat?_says hext
    exact ⟨e, he⟩
  · intro hall
    have hsay := lines_say (fun l e he => flat?_says he) hall
    rw [← hexts] at hsay
    have hsectors : (extentLines text).map ExtentLine.sectors =
        desc.extents.map ExtentEntry.sizeSectors :=
      map_eq_of_forall₂ (hsay.imp fun l ext h => h.sectors)
    have hbytes : (extentLines text).map (fun l => l.sectors * sectorSize) =
        MultiExtentReader.extentBytes desc.extents := by
      have := congrArg (List.map (· * sectorSize)) hsectors
      rwa [List.map_map, List.map_map] at this
    have hsum := (parseTextDescriptor_summed hparse).flat
    have hsize : desc.capacitySectors * sectorSize =
        ((extentLines text).map ExtentLine.sectors).sum * sectorSize := by
      rw [hsectors, ← hsum]
    have htotal : (MultiExtentReader.extentBytes desc.extents).sum =
        desc.capacitySectors * sectorSize := by
      rw [← hbytes, sum_lineBytes, ← hsize]
    obtain ⟨htiles, hend⟩ := MultiExtentReader.openFrom_tiles
      (by rwa [Nat.zero_add, htotal]) hfrom
    rw [← hbytes] at htiles
    refine ⟨hsize, Intervals.tiles_map.mpr htiles, ?_, steps_of_readRight ?_⟩
    · exact List.forall₂_map_right_iff.mpr
        (forall₂_trans hsay hmade fun l ext flat hl hf => hl.readsFile hf)
    · refine readRight_of_covering hshaped rfl hsize htiles
        (forall₂_trans hsay hmade fun l ext flat hl hf k => hl.byteAt_eq hf k)
        fun flat _ o ho hcover len hlen b => MultiExtentReader.readHere_placed hcover ?_ hlen
      rw [hend, Nat.zero_add, htotal]
      exact ho

omit [ZlibDecoder] in
/-- Chunks that are where their entries say have the sizes that the entries say. -/
theorem sizeDeclared_of_tiles {entries : List SparseEntry} {chunks : List SparseChunk} {v : Nat}
    (hmade : List.Forall₂ (MultiSparseReader.ChunkFrom fs dir) entries chunks)
    (hfits : v + (MultiSparseReader.entryBytes entries).sum < u64Size)
    (htiles : Intervals.Tiles SparseChunk.byteStart SparseChunk.byteEnd v
      (MultiSparseReader.entryBytes entries) chunks) :
    ∀ entry ∈ entries, MultiSparseReader.SizeDeclared fs dir entry := by
  induction hmade generalizing v with
  | nil => exact fun entry h => nomatch h
  | @cons entry chunk entries chunks hchunk _ ih =>
    have hsum : (MultiSparseReader.entryBytes (entry :: entries)).sum =
        entry.sizeSectors * sectorSize + (MultiSparseReader.entryBytes entries).sum := rfl
    obtain ⟨hstart, hend, hrest⟩ := htiles
    rw [hsum, ← Nat.add_assoc] at hfits
    refine List.forall_mem_cons.mpr ⟨hchunk.sizeDeclared_iff.mpr ?_, ih hfits hrest⟩
    obtain ⟨-, -, -, hmadeEnd⟩ := hchunk
    rw [hstart, hend] at hmadeEnd
    exact MultiSparseReader.chunkSectors_of_end (Nat.lt_of_le_of_lt (Nat.le_add_right _ _) hfits)
      hmadeEnd

theorem sparse_composed {m : MultiSparseReader}
    (hparse : parseTextDescriptor text = .ok desc)
    (hm : (MultiSparseReader.open fs dir desc.sparseExtents).result = .ok m)
    (hfits : desc.sparseCapacitySectors * sectorSize < u64Size)
    (hshaped : (descriptorImage desc (.multiSparse m)
      (desc.sparseCapacitySectors * sectorSize)).Shaped) :
    Composed fs dir false (extentLines text)
        (descriptorImage desc (.multiSparse m) (desc.sparseCapacitySectors * sectorSize)).reader ↔
      (∀ l ∈ lines (cleanText text), ∀ e, ExtentLine.ofLine (trim l) = some e →
        ∃ ext, (lineOf l).sparse? = some ext) ∧
      ∀ entry ∈ desc.sparseExtents, MultiSparseReader.SizeDeclared fs dir entry := by
  obtain ⟨-, -, hexts⟩ := parseTextDescriptor_lines hparse
  have hsum := (parseTextDescriptor_summed hparse).sparse
  obtain ⟨⟨chunks, total⟩, hfrom, rfl⟩ : ∃ found,
      (MultiSparseReader.openFrom fs dir 0 desc.sparseExtents).result = .ok found ∧
        m = ⟨found.1, found.2⟩ := by
    unfold MultiSparseReader.open at hm
    simp only [Opens.result_bind, bind_eq_ok, Opens.result_pure] at hm
    obtain ⟨found, hfound, h⟩ := hm
    exact ⟨found, hfound, (Except.ok.inj h).symm⟩
  have hmade := MultiSparseReader.openFrom_chunks hfrom
  have hfits' : 0 + (MultiSparseReader.entryBytes desc.sparseExtents).sum < u64Size := by
    rw [Nat.zero_add, MultiSparseReader.sum_entryBytes, ← hsum, Nat.mul_comm]
    exact hfits
  have hbytes (hall : ∀ l ∈ lines (cleanText text), ∀ e, ExtentLine.ofLine (trim l) = some e →
      ∃ ext, (lineOf l).sparse? = some ext) :
      List.Forall₂ SparseLine (extentLines text) desc.sparseExtents ∧
      (extentLines text).map ExtentLine.sectors =
        desc.sparseExtents.map SparseEntry.sizeSectors ∧
      (extentLines text).map (fun l => l.sectors * sectorSize) =
        MultiSparseReader.entryBytes desc.sparseExtents := by
    have hsay := lines_say (fun l e he => sparse?_says he) hall
    rw [← hexts] at hsay
    have hsectors : (extentLines text).map ExtentLine.sectors =
        desc.sparseExtents.map SparseEntry.sizeSectors :=
      map_eq_of_forall₂ (hsay.imp fun l ext h => h.sectors)
    have hmul := congrArg (List.map (· * sectorSize)) hsectors
    rw [List.map_map, List.map_map] at hmul
    exact ⟨hsay, hsectors, hmul⟩
  constructor
  · intro hcomposed
    have hlen := hcomposed.files.length_eq
    change (extentLines text).length = (chunks.map FormatState.ofChunk).length at hlen
    rw [List.length_map, ← hmade.length_eq, hexts] at hlen
    have hall := select_of_length (fun l _ ext hext => by
      obtain ⟨e, he, -⟩ := sparse?_says hext
      exact ⟨e, he⟩) hlen
    have hplaced : Intervals.Tiles Piece.start Piece.stop 0
        ((extentLines text).map fun l => l.sectors * sectorSize)
        (chunks.map FormatState.ofChunk) := hcomposed.placed
    rw [(hbytes hall).2.2] at hplaced
    have htiles := (Intervals.tiles_map (f := FormatState.ofChunk)).mp hplaced
    exact ⟨hall, sizeDeclared_of_tiles hmade hfits' htiles⟩
  · rintro ⟨hall, hsizes⟩
    obtain ⟨hsay, hsectors, hnumbers⟩ := hbytes hall
    have hsize : desc.sparseCapacitySectors * sectorSize =
        ((extentLines text).map ExtentLine.sectors).sum * sectorSize := by
      rw [hsectors, ← hsum]
    obtain ⟨htiles, hend⟩ := MultiSparseReader.openFrom_tiles hsizes hfits' hfrom
    have htotal : total = desc.sparseCapacitySectors * sectorSize := by
      rw [hend, Nat.zero_add, MultiSparseReader.sum_entryBytes, ← hsum, Nat.mul_comm]
    rw [← hnumbers] at htiles
    have hnamed {ext : SparseEntry} {chunk : SparseChunk}
        (hc : MultiSparseReader.ChunkFrom fs dir ext chunk) :
        fs (FilePath.join dir ext.filename) = .ok chunk.file := by
      obtain ⟨p, hp, hfile, -⟩ := hc
      obtain ⟨-, rfl⟩ := resolveExtentPath_ok hp
      exact hfile
    refine ⟨hsize, Intervals.tiles_map.mpr htiles, ?_, steps_of_readRight ?_⟩
    · exact List.forall₂_map_right_iff.mpr
        (forall₂_trans hsay hmade fun l ext chunk hl hc => hl.readsFile (hnamed hc))
    · have hstored : List.Forall₂ (fun l (chunk : SparseChunk) => ∀ k, l.byteAt fs dir false k =
          ExtentLine.sparseByte false chunk.file k) (extentLines text) chunks :=
        forall₂_trans hsay hmade fun l ext chunk hl hc k => hl.byteAt_eq (hnamed hc) k
      refine readRight_of_covering hshaped rfl hsize htiles hstored
        fun chunk hmem o ho hcover len hlen b => ?_
      obtain ⟨L, hlayout, hindexed⟩ := MultiSparseReader.openFrom_indexed hfrom chunk hmem
      unfold ExtentLine.sparseByte
      rw [if_neg Bool.false_ne_true, hlayout]
      exact MultiSparseReader.readHere_stored hcover hindexed (htotal ▸ ho) hlen

omit [ZlibDecoder] in
theorem not_flat_of_imageOf {im : Image} (him : ImageOf file im) (inner : ExtentReader) :
    im.fmt ≠ .flat inner := by
  obtain ⟨-, -, hindex⟩ := him
  intro hflat
  generalize layoutOf file.bytes = layout at hindex
  cases layout with
  | tables L =>
    obtain ⟨geom, hfmt, -⟩ := hindex
    rw [hflat] at hfmt
    cases hfmt
  | seSparse L =>
    obtain ⟨geom, hfmt, -⟩ := hindex
    rw [hflat] at hfmt
    cases hfmt

omit [ZlibDecoder] in
/-- A binary extent has one part, all of it. -/
theorem open_pieces (h : VmdkReader.open file = .ok r) :
    r.fmt.pieces r.virtualDiskSize = [⟨0, r.virtualDiskSize, some file⟩] ∧
      r.virtualDiskSize = (layoutOf file.bytes).capacity * sectorSize := by
  obtain ⟨im, rfl, hsize, -, hindex⟩ := open_loads h
  refine ⟨?_, hsize⟩
  change im.fmt.pieces im.virtualDiskSize = _
  generalize layoutOf file.bytes = layout at hindex
  cases layout with
  | tables L =>
    obtain ⟨geom, hfmt, -⟩ := hindex
    rw [hfmt]
    rfl
  | seSparse L =>
    obtain ⟨geom, hfmt, -⟩ := hindex
    rw [hfmt]
    rfl

theorem seSparse_composed {entry : SparseEntry} (hparse : parseTextDescriptor text = .ok desc)
    (hhead : desc.sparseExtents.head? = some entry)
    (hfile : fs (FilePath.join dir entry.filename) = .ok file)
    (hopen : VmdkReader.open file = .ok r) (hshaped : r.toImage.Shaped) :
    Composed fs dir true (extentLines text) r ↔
      (extentLines text).length = 1 ∧ (layoutOf file.bytes).capacity = entry.sizeSectors := by
  obtain ⟨-, -, hexts⟩ := parseTextDescriptor_lines hparse
  obtain ⟨hpieces, hsize⟩ := open_pieces hopen
  obtain ⟨l, hl, hentry⟩ : ∃ l ∈ lines (cleanText text), (lineOf l).sparse? = some entry := by
    have hmem := List.mem_of_head? hhead
    rw [hexts] at hmem
    exact List.mem_filterMap.mp hmem
  obtain ⟨x, hx, hline⟩ := sparse?_says hentry
  have hmem : x ∈ extentLines text := List.mem_filterMap.mpr ⟨l, hl, hx⟩
  have hpos : 0 < sectorSize := by decide
  constructor
  · intro hcomposed
    have hlen := hcomposed.files.length_eq
    rw [hpieces] at hlen
    obtain ⟨y, hy⟩ := List.length_eq_one_iff.mp hlen
    rw [hy] at hmem
    obtain rfl := List.mem_singleton.mp hmem
    refine ⟨hlen, ?_⟩
    have hsame := hcomposed.size
    rw [hy, hsize] at hsame
    rw [← hline.sectors]
    exact Nat.eq_of_mul_eq_mul_right hpos hsame
  · rintro ⟨hlen, hcap⟩
    obtain ⟨y, hy⟩ := List.length_eq_one_iff.mp hlen
    rw [hy] at hmem
    obtain rfl := List.mem_singleton.mp hmem
    rw [hy]
    have hbytes : r.virtualDiskSize = x.sectors * sectorSize := by rw [hsize, hcap, hline.sectors]
    have hone : x.sectors * sectorSize = ([x].map ExtentLine.sectors).sum * sectorSize := rfl
    refine ⟨hbytes.trans hone, ?_, ?_, ?_⟩
    · rw [hpieces]
      exact ⟨rfl, hbytes.trans (Nat.zero_add _).symm, trivial⟩
    · rw [hpieces]
      exact .cons (hline.readsFile hfile) .nil
    · obtain ⟨im, rfl, him⟩ := open_loads hopen
      refine steps_of_readRight (hshaped.readRight_single (not_flat_of_imageOf him) him.size_lt
        (hbytes.trans hone).symm (fun o hserved => hserved.1) fun o ho => ?_)
      have hin : o < x.sectors * sectorSize := hbytes ▸ ho
      have halone : ExtentLine.sparseByte true file o = im.byteAt o := by
        unfold ExtentLine.sparseByte
        rw [if_pos rfl, hopen]
        rfl
      exact (if_pos hin).trans ((hline.byteAt_eq hfile o).trans halone)

/-- The descriptor names one file, which is opened alone. -/
def opensAlone (desc : TextDescriptor) : Bool := decide (branchOf desc = some .seSparse)

/-- **No extent is dropped or moved** exactly when the branch takes every extent line, and no file is of
another size than its line says. -/
theorem composed_exact (hfile : fs path = .ok file) (hfirst : file.readExactAt 0 1 = .ok [35])
    (hparse : parseTextDescriptor (decodeDescriptor file.bytes) = .ok desc)
    (hopen : (openPath fs origin path).result = .ok r) :
    Composed fs (directoryOf path) (opensAlone desc) (extentLines (decodeDescriptor file.bytes)) r ↔
      Composable fs (directoryOf path) (decodeDescriptor file.bytes) desc := by
  have h := openPath_descriptor hfile hfirst hparse hopen
  have hshaped : r.toImage.Shaped := by
    obtain ⟨im, rfl, him⟩ := openPath_shaped hopen
    exact him
  rcases @openDescriptor_eq fs (directoryOf path) desc with
    ⟨e, -, heq⟩ | ⟨hb, heq⟩ | ⟨hb, heq⟩ | ⟨hb, heq⟩
  · rw [heq] at h
    cases h
  · rw [heq] at h
    obtain ⟨m, hm, hfits, rfl⟩ := openFlatExtents_ok h
    rw [flat_composed hparse hm hfits hshaped]
    constructor
    · intro hall
      exact ⟨fun _ => hall, fun hno => (nomatch hb.symm.trans hno),
        fun hno => (nomatch hb.symm.trans hno)⟩
    · intro hcan
      exact hcan.flat hb
  · rw [heq] at h
    obtain ⟨m, hm, hfits, rfl⟩ := openSparseExtents_ok h
    have hamong : opensAlone desc = false := by
      unfold opensAlone
      rw [hb]
      rfl
    rw [hamong, sparse_composed hparse hm hfits hshaped]
    constructor
    · intro hall
      exact ⟨fun hno => (nomatch hb.symm.trans hno), fun _ => hall,
        fun hno => (nomatch hb.symm.trans hno)⟩
    · intro hcan
      exact hcan.sparse hb
  · rw [heq] at h
    obtain ⟨entry, extent, hhead, hextent, hopened⟩ := openSesparseDescriptor_ok h
    have halone : opensAlone desc = true := by
      unfold opensAlone
      rw [hb]
      rfl
    rw [halone, seSparse_composed hparse hhead hextent hopened hshaped]
    constructor
    · rintro ⟨hlen, hcap⟩
      refine ⟨fun hno => (nomatch hb.symm.trans hno), fun hno => (nomatch hb.symm.trans hno),
        fun _ => ⟨hlen, fun entry' extent' hhead' hextent' => ?_⟩⟩
      rw [hhead] at hhead'
      cases hhead'
      rw [hextent] at hextent'
      cases hextent'
      exact hcap
    · intro hcan
      obtain ⟨hlen, hcaps⟩ := hcan.seSparse hb
      exact ⟨hlen, hcaps entry extent hhead hextent⟩

end

/-- The second sector of a file, and two holes. -/
def holesText : Text :=
  "#\ncreateType=\"vmfs\"\nRW 1 VMFS \"e\" 1\nRW 1 ZERO\nNOACCESS 2 FLAT".toList

def holesFile : Source := textFile holesText (by decide +kernel)

def onesAndTwos : Source := .ofBytes (padTo 512 [1] ++ padTo 512 [2]) (by simp)

def holesFiles : FileSystem := .ofNames fun names =>
  if names = [.normal ['e']] then .ok onesAndTwos else .ok holesFile

theorem composed_exact_holesFiles :
    let _ := Stored.decoder
    ∃ r, (openPath holesFiles .caller ['d']).result = .ok r ∧
      Composed holesFiles [] false (extentLines holesText) r ∧
      (linesDisk holesFiles [] false (extentLines holesText)).byte 0 = some 2 ∧
      (linesDisk holesFiles [] false (extentLines holesText)).byte 512 = some 0 := by
  intro _
  obtain ⟨r, hr⟩ := exists_of_isOk
    (x := (openPath holesFiles .caller ['d']).result) (by decide +kernel)
  have hdescriptor : holesFiles ['d'] = .ok holesFile := by
    have hname : FilePath.HasFileName ['d'] ∧ FilePath.names ['d'] = [.normal ['d']] := by
      decide +kernel
    exact FileSystem.ofNames_eq hname
  have hbranch : (parseTextDescriptor (decodeDescriptor holesFile.bytes)).map branchOf =
      .ok (some .flatExtents) := by
    decide +kernel
  obtain ⟨desc, hdesc, hflat⟩ := exists_of_map_eq hbranch
  have hlines : ∀ l ∈ lines (cleanText (decodeDescriptor holesFile.bytes)),
      (ExtentLine.ofLine (trim l)).isSome → (lineOf l).flat?.isSome := by
    decide +kernel
  have hcan : Composable holesFiles (directoryOf ['d']) (decodeDescriptor holesFile.bytes) desc := by
    refine ⟨fun _ l hl e he => ?_, fun hno => (nomatch hflat.symm.trans hno),
      fun hno => (nomatch hflat.symm.trans hno)⟩
    exact Option.isSome_iff_exists.mp (hlines l hl (Option.isSome_iff_exists.mpr ⟨e, he⟩))
  have htext : decodeDescriptor holesFile.bytes = holesText := by decide +kernel
  have hamong : opensAlone desc = false := by
    unfold opensAlone
    rw [hflat]
    rfl
  have hcomposed := (composed_exact hdescriptor (by decide +kernel) hdesc hr).mpr hcan
  rw [htext, hamong] at hcomposed
  exact ⟨r, hr, hcomposed, by decide +kernel, by decide +kernel⟩

/-- A hole and a sparse extent. -/
def mixedText : Text := "#\ncreateType=\"vmfs\"\nRW 1 ZERO\nRW 1 SPARSE \"e\"".toList

def mixedFile : Source := textFile mixedText (by decide +kernel)

/-- **The second extent is missing**: the disk has one sector, where the lines have two. -/
theorem extent_dropped_mixedFile :
    let _ := Stored.decoder
    ∃ r, (openPath (fun _ => .ok mixedFile) .caller ['d']).result = .ok r ∧
      r.virtualDiskSize = 512 ∧ (extentLines mixedText).map ExtentLine.sectors = [1, 1] ∧
      ∀ alone, ¬ Composed (fun _ => .ok mixedFile) [] alone (extentLines mixedText) r := by
  intro _
  have hsize : (openPath (fun _ => .ok mixedFile) .caller ['d']).result.map
      (·.virtualDiskSize) = .ok 512 := by
    decide +kernel
  obtain ⟨r, hr, hsmall⟩ := exists_of_map_eq hsize
  have hlines : (extentLines mixedText).map ExtentLine.sectors = [1, 1] := by decide +kernel
  refine ⟨r, hr, hsmall, hlines, fun alone hcomposed => ?_⟩
  have hbig := hcomposed.size
  rw [hsmall, hlines] at hbig
  exact absurd hbig (by decide)

end VmdkReader
