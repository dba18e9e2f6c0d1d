import Vmdk.Bytewise
import Vmdk.Lib.Machine

/-! # Flat extents as one concatenation

The extents of a `MultiExtentReader` tile its disk in the order of their lines,
as long as no size and no running offset wraps, and a read delivers bytes of one
extent only, from the place its line says (`MultiExtentReader.concatenation`). -/

open Bytes Word

namespace MultiExtentReader

/-- The file of an extent; none for a zero extent, or where the file does not open. -/
def extentFile (fs : FileSystem) (dir : FilePath) (ext : ExtentEntry) : Option Source :=
  if ext.isZero then none
  else (resolveExtentPath dir ext.filename).toOption.bind fun path => (fs path).toOption

/-- Byte `off` of an extent: zero in a zero extent, else the byte of the file at the place the line
says. -/
def extentByte (fs : FileSystem) (dir : FilePath) (ext : ExtentEntry) (off : Nat) : Option UInt8 :=
  if ext.isZero then some 0
  else (extentFile fs dir ext).bind fun file => file.bytes[ext.fileByteOffset + off]?

/-- The bytes each line asks for. -/
def extentBytes (exts : List ExtentEntry) : List Nat := exts.map fun ext => ext.sizeSectors * 512

/-- The bytes of the first `i` lines. -/
def startOf (exts : List ExtentEntry) (i : Nat) : Nat := ((extentBytes exts).take i).sum

section Open
variable {fs : FileSystem} {dir : FilePath} {ext : ExtentEntry} {exts : List ExtentEntry}
  {flat : FlatExtent} {flats : List FlatExtent} {virt total : Nat} {m : MultiExtentReader}

/-- The extent is made of the line. -/
structure ExtentFrom (fs : FileSystem) (dir : FilePath) (ext : ExtentEntry) (flat : FlatExtent) :
    Prop where
  fileOffset : flat.fileOffset = ext.fileByteOffset
  file : flat.file = extentFile fs dir ext
  opened : ext.isZero = false → flat.file.isSome = true

theorem openExtent_ok {file : Option Source} (h : (openExtent fs dir ext).result = .ok file) :
    file = extentFile fs dir ext ∧ (ext.isZero = false → file.isSome = true) := by
  unfold openExtent at h
  unfold extentFile
  cases hzero : ext.isZero with
  | true =>
    rw [hzero] at h
    cases h
    exact ⟨rfl, fun hno => by cases hno⟩
  | false =>
    simp only [hzero, Bool.false_eq_true, if_false, Opens.result_bind, Opens.result_lift,
      bind_eq_ok, Opens.result_mapError, mapError_eq_ok, Opens.result_pure] at h ⊢
    obtain ⟨path, hpath, file', hfile, h⟩ := h
    cases h
    change fs path = _ at hfile
    simp [hpath, hfile, Except.toOption]

theorem openFrom_cons
    (h : (openFrom fs dir virt (ext :: exts)).result = .ok (flats, total)) :
    ∃ flat rest, flats = flat :: rest ∧ ExtentFrom fs dir ext flat ∧ flat.byteStart = virt ∧
      flat.byteEnd = wrapAdd virt (wrapMul ext.sizeSectors 512) ∧
      (openExtent fs dir ext).result = .ok flat.file ∧
      (openFrom fs dir flat.byteEnd exts).result = .ok (rest, total) := by
  unfold openFrom at h
  simp only [Opens.result_bind, bind_eq_ok, Opens.result_pure] at h
  obtain ⟨file, hfile, ⟨rest, total'⟩, hrest, h⟩ := h
  cases h
  obtain ⟨hsame, hopened⟩ := openExtent_ok hfile
  exact ⟨_, rest, rfl, ⟨rfl, hsame, hopened⟩, rfl, rfl, hfile, hrest⟩

theorem openFrom_extents (h : (openFrom fs dir virt exts).result = .ok (flats, total)) :
    List.Forall₂ (ExtentFrom fs dir) exts flats := by
  induction exts generalizing virt flats with
  | nil =>
    cases h
    exact .nil
  | cons ext exts ih =>
    obtain ⟨flat, rest, rfl, hfrom, -, -, -, hrest⟩ := openFrom_cons h
    exact .cons hfrom (ih hrest)

/-- Extents whose sizes fit tile the disk. -/
theorem openFrom_tiles (hfits : virt + (extentBytes exts).sum < u64Size)
    (h : (openFrom fs dir virt exts).result = .ok (flats, total)) :
    Intervals.Tiles FlatExtent.byteStart FlatExtent.byteEnd virt (extentBytes exts) flats ∧
      total = virt + (extentBytes exts).sum := by
  induction exts generalizing virt flats with
  | nil =>
    cases h
    exact ⟨trivial, rfl⟩
  | cons ext exts ih =>
    obtain ⟨flat, rest, rfl, -, hstart, hend, -, hrest⟩ := openFrom_cons h
    have hsum : (extentBytes (ext :: exts)).sum =
        ext.sizeSectors * 512 + (extentBytes exts).sum := rfl
    rw [hsum, ← Nat.add_assoc] at hfits
    rw [wrapMul_eq (by omega), wrapAdd_eq (by omega)] at hend
    rw [hend] at hrest
    obtain ⟨htiles, htotal⟩ := ih hfits hrest
    exact ⟨⟨hstart, hend, htiles⟩, by rw [htotal, hsum, Nat.add_assoc]⟩

theorem open_eq (h : (MultiExtentReader.open fs dir exts).result = .ok m) :
    (openFrom fs dir 0 exts).result = .ok (m.extents, m.totalBytes) := by
  unfold MultiExtentReader.open at h
  simp only [Opens.result_bind, bind_eq_ok, Opens.result_pure] at h
  obtain ⟨⟨flats, total⟩, hopen, h⟩ := h
  cases h
  exact hopen

end Open

/-! ## Reads -/

/-- `impl Read` and `impl Seek`: the state is the cursor. -/
def step (self : MultiExtentReader) (pos : Nat) :
    Disk.Request Empty → Disk.Answer Empty × Nat :=
  Cursor.step self.totalBytes self.readHere pos

section Reads
variable {fs : FileSystem} {dir : FilePath} {exts : List ExtentEntry} {m : MultiExtentReader}
  {pos len i : Nat} {bs : List UInt8}

/-- The extent of line `i`, as it lies on the disk. -/
structure LaidOut (fs : FileSystem) (dir : FilePath) (exts : List ExtentEntry) (i : Nat)
    (flat : FlatExtent) : Prop where
  start : flat.byteStart = startOf exts i
  stop : flat.byteEnd = startOf exts (i + 1)
  made : ∃ ext, exts[i]? = some ext ∧ ExtentFrom fs dir ext flat

/-- A disk whose extents fit: every extent is laid out, and every position covered. -/
structure Concatenated (fs : FileSystem) (dir : FilePath) (exts : List ExtentEntry)
    (m : MultiExtentReader) : Prop where
  count : m.extents.length = exts.length
  total : m.totalBytes = (extentBytes exts).sum
  extent : ∀ i < exts.length, ∃ flat, m.extents[i]? = some flat ∧ LaidOut fs dir exts i flat
  covered : ∀ pos < m.totalBytes, ∃ i flat, i < exts.length ∧ m.extentFor pos = some flat ∧
    LaidOut fs dir exts i flat ∧ startOf exts i ≤ pos ∧ pos < startOf exts (i + 1)

theorem open_concatenated (hopen : (MultiExtentReader.open fs dir exts).result = .ok m)
    (hfits : (extentBytes exts).sum < u64Size) : Concatenated fs dir exts m := by
  have hfrom := open_eq hopen
  have hmade := openFrom_extents hfrom
  obtain ⟨htiles, htotal⟩ := openFrom_tiles (by rwa [Nat.zero_add]) hfrom
  rw [Nat.zero_add] at htotal
  have hlen : (extentBytes exts).length = exts.length := List.length_map _
  have hlaid : ∀ i flat, m.extents[i]? = some flat → flat.byteStart = 0 + startOf exts i →
      flat.byteEnd = 0 + startOf exts (i + 1) → LaidOut fs dir exts i flat := by
    intro i flat hflat hstart hstop
    rw [Nat.zero_add] at hstart hstop
    obtain ⟨hi, rfl⟩ := List.getElem?_eq_some_iff.mp hflat
    have hi' : i < exts.length := hmade.length_eq ▸ hi
    exact ⟨hstart, hstop, exts[i], List.getElem?_eq_getElem hi', hmade.get hi' hi⟩
  refine ⟨htiles.length_eq.trans hlen, htotal, ?_, ?_⟩
  · intro i hi
    obtain ⟨flat, hflat, hstart, hstop⟩ := htiles.getElem (hlen.symm ▸ hi)
    exact ⟨flat, hflat, hlaid i flat hflat hstart hstop⟩
  · intro pos hpos
    rw [htotal] at hpos
    obtain ⟨i, flat, hi, hflat, hcover, hge, hlt⟩ :=
      htiles.covering_eq (Nat.zero_le pos) (by rwa [Nat.zero_add])
    obtain ⟨e, he, hstart, hstop⟩ := htiles.getElem hi
    rw [hflat] at he
    cases he
    rw [Nat.zero_add] at hge hlt
    exact ⟨i, flat, hlen ▸ hi, hcover, hlaid i flat hflat hstart hstop, hge, hlt⟩

/-- **One read** delivers bytes of one extent, from the place its line says if that place is no
number beyond a `u64`. It fails only where the file refuses the seek. -/
theorem LaidOut.read {flat : FlatExtent} {ext : ExtentEntry} (h : LaidOut fs dir exts i flat)
    (hext : exts[i]? = some ext) (hfind : m.extentFor pos = some flat) (hpos : pos < m.totalBytes)
    (hlen : 0 < len)
    (hexact : ext.isZero = false → ext.fileByteOffset + (pos - startOf exts i) < u64Size) :
    m.readHere pos len ≠ .error ⟨.unexpectedEof, "offset beyond extents"⟩ ∧
      ∀ bs, m.readHere pos len = .ok bs → pos + bs.length ≤ startOf exts (i + 1) ∧
        ∀ k b, bs[k]? = some b → extentByte fs dir ext (pos + k - startOf exts i) = some b := by
  obtain ⟨ext', hext', hmade⟩ := h.made
  rw [hext] at hext'
  cases hext'
  obtain ⟨-, hge, hlt⟩ := Intervals.covering_mem hfind
  rw [h.start] at hge
  rw [h.stop] at hlt
  unfold readHere extentByte
  rw [if_neg (by omega), hfind]
  simp only [h.start, h.stop]
  have hfile := hmade.file
  cases hzero : ext.isZero with
  | true =>
    have hnone : extentFile fs dir ext = none := by
      unfold extentFile
      rw [hzero]
      rfl
    rw [hfile, hnone]
    refine ⟨(fun h => by cases h), fun bs hbs => ?_⟩
    cases hbs
    refine ⟨?_, fun k b hb => ?_⟩
    · rw [List.length_replicate]
      omega
    · rw [(getElem?_replicate_some hb).1]
      rfl
  | false =>
    obtain ⟨file, hsome⟩ := Option.isSome_iff_exists.mp (hmade.opened hzero)
    rw [hsome] at hfile
    rw [hsome, ← hfile, hmade.fileOffset, wrapAdd_eq (hexact hzero)]
    simp only [Bool.false_eq_true, if_false, Option.bind_some]
    refine ⟨?_, fun bs hbs => ⟨?_, fun k b hb => ?_⟩⟩
    · unfold Source.readAt
      split
      · exact fun h => by cases h
      · exact fun h => by cases h
    · have hle := Source.readAt_length_le hbs
      omega
    · have hk := (List.getElem?_eq_some_iff.mp hb).1
      have hbyte := Source.readAt_getElem? hbs hk
      have hplace : pos + k - startOf exts i = pos - startOf exts i + k := by omega
      rw [hplace, ← Nat.add_assoc, ← hbyte]
      exact hb

/-- What a read at `pos` may deliver: the bytes of one extent, each from its place. -/
structure DeliversExtent (fs : FileSystem) (dir : FilePath) (exts : List ExtentEntry) (pos : Nat)
    (bs : List UInt8) : Prop where
  /-- The read stays in one extent. -/
  within : bs ≠ [] → ∃ i < exts.length, startOf exts i ≤ pos ∧
    pos + bs.length ≤ startOf exts (i + 1)
  bytes : ∀ k b, bs[k]? = some b → ∀ i ext, exts[i]? = some ext → startOf exts i ≤ pos + k →
    pos + k < startOf exts (i + 1) → extentByte fs dir ext (pos + k - startOf exts i) = some b

/-- What one answer to a read says. -/
def ReadsExtent (fs : FileSystem) (dir : FilePath) (exts : List ExtentEntry) (pos : Nat) :
    Disk.Answer Empty → Prop
  | .data (.ok bs) => DeliversExtent fs dir exts pos bs
  | .data (.error e) => e ≠ ⟨.unexpectedEof, "offset beyond extents"⟩
  | _ => True

theorem startOf_mono {i j : Nat} (h : i ≤ j) : startOf exts i ≤ startOf exts j := by
  obtain ⟨k, rfl⟩ := Nat.exists_eq_add_of_le h
  unfold startOf
  rw [List.take_add, List.sum_append]
  exact Nat.le_add_right _ _

/-- At most one extent covers a place. -/
theorem startOf_unique {i j p : Nat} (hi : startOf exts i ≤ p) (hi' : p < startOf exts (i + 1))
    (hj : startOf exts j ≤ p) (hj' : p < startOf exts (j + 1)) : i = j := by
  rcases Nat.lt_trichotomy i j with h | h | h
  · have hmono := @startOf_mono exts (i + 1) j h
    omega
  · exact h
  · have hmono := @startOf_mono exts (j + 1) i h
    omega

theorem startOf_succ (hi : i < exts.length) :
    startOf exts (i + 1) = startOf exts i + exts[i].sizeSectors * 512 := by
  unfold startOf extentBytes
  rw [List.take_succ_eq_append_getElem (by rwa [List.length_map]), List.sum_append,
    List.getElem_map, List.sum_singleton]

/-- The numbers a read at `pos` may compute fit: the place in the file of the extent that covers
`pos`. -/
def PlaceFits (exts : List ExtentEntry) (pos : Nat) : Prop :=
  ∀ i ext, exts[i]? = some ext → ext.isZero = false → startOf exts i ≤ pos →
    pos < startOf exts (i + 1) → ext.fileByteOffset + (pos - startOf exts i) < u64Size

/-- A read at a place that fits delivers bytes of its extent. -/
theorem Concatenated.reads (h : Concatenated fs dir exts m) (hplace : PlaceFits exts pos)
    (len : Nat) : m.readHere pos len ≠ .error ⟨.unexpectedEof, "offset beyond extents"⟩ ∧
      ∀ bs, m.readHere pos len = .ok bs → DeliversExtent fs dir exts pos bs := by
  by_cases hend : m.totalBytes ≤ pos ∨ len = 0
  · have hnil : m.readHere pos len = .ok [] := if_pos hend
    rw [hnil]
    refine ⟨(fun he => by cases he), fun bs hbs => ?_⟩
    cases hbs
    exact ⟨fun h => absurd rfl h, fun k b hb => by simp at hb⟩
  obtain ⟨hpos, hlen⟩ := not_or.mp hend
  obtain ⟨i, flat, hi, hfind, hlaid, hge, hlt⟩ := h.covered pos (Nat.not_le.mp hpos)
  have hext : exts[i]? = some exts[i] := List.getElem?_eq_getElem hi
  obtain ⟨herr, hok⟩ := hlaid.read hext hfind (Nat.not_le.mp hpos) (Nat.pos_of_ne_zero hlen)
    (fun hzero => hplace i exts[i] hext hzero hge hlt)
  refine ⟨herr, fun bs hread => ?_⟩
  obtain ⟨hwithin, hbytes⟩ := hok bs hread
  refine ⟨fun _ => ⟨i, hi, hge, hwithin⟩, fun k b hb j ext hj hj1 hj2 => ?_⟩
  have hk := (List.getElem?_eq_some_iff.mp hb).1
  obtain rfl : i = j := startOf_unique (Nat.le_trans hge (Nat.le_add_right _ _)) (by omega) hj1 hj2
  rw [hext] at hj
  cases hj
  exact hbytes k b hb

/-- **Flat extents form one exact concatenation.** -/
theorem concatenation (hopen : (MultiExtentReader.open fs dir exts).result = .ok m)
    (hsum : (extentBytes exts).sum < 2 ^ 63)
    (hfits : ∀ ext ∈ exts, ext.fileByteOffset + ext.sizeSectors * 512 < u64Size) :
    Concatenated fs dir exts m ∧ ∀ requests, Machine.Steps m.step
      (fun pos q => ∀ len, q = .read len → ReadsExtent fs dir exts pos (m.step pos q).1) 0
      requests := by
  have hcat := open_concatenated hopen (Nat.lt_trans hsum (by decide))
  refine ⟨hcat, fun requests => Machine.steps_of_forall (fun pos q => ?_) 0 requests⟩
  rintro len rfl
  have hplace : PlaceFits exts pos := by
    intro i ext hext _ hge hlt
    obtain ⟨hi, rfl⟩ := List.getElem?_eq_some_iff.mp hext
    rw [startOf_succ hi] at hlt
    have hfit := hfits exts[i] (List.getElem_mem hi)
    omega
  obtain ⟨herr, hok⟩ := hcat.reads hplace len
  unfold step
  rw [Cursor.step_read]
  cases hread : m.readHere pos len with
  | error e =>
    rw [hread] at herr
    exact fun he => herr (he ▸ rfl)
  | ok bs => exact hok bs hread

end Reads

/-- Two sectors of sevens. -/
def twoSectorsBytes : List UInt8 := List.replicate 1024 7

theorem twoSectorsBytes_length : twoSectorsBytes.length = 1024 := List.length_replicate

/-- A file of two sectors. -/
def twoSectors : Source := .ofBytes twoSectorsBytes (by rw [twoSectorsBytes_length]; decide)

/-- The second sector of a file, no sector, and a sector of zeros. -/
def threeExtents : List ExtentEntry :=
  [⟨1, ['a'], 512, false⟩, ⟨0, ['a'], 0, false⟩, ⟨1, [], 0, true⟩]

theorem concatenation_threeExtents :
    ∃ m, (MultiExtentReader.open (fun _ => .ok twoSectors) [] threeExtents).result = .ok m ∧
      Concatenated (fun _ => .ok twoSectors) [] threeExtents m ∧ ∀ requests, Machine.Steps m.step
        (fun pos q => ∀ len, q = .read len →
          ReadsExtent (fun _ => .ok twoSectors) [] threeExtents pos (m.step pos q).1) 0 requests := by
  obtain ⟨m, hm⟩ := exists_of_isOk
    (x := (MultiExtentReader.open (fun _ => .ok twoSectors) [] threeExtents).result) (by decide +kernel)
  exact ⟨m, hm, concatenation hm (by decide) (by decide)⟩

end MultiExtentReader
