import Vmdk.Error
import Vmdk.Lib.Word
import Vmdk.Lib.Path

/-! # Text descriptors

The descriptor's bytes are decoded (`decodeDescriptor`), then read line by line
into metadata and two lists of extents (`parseTextDescriptor`): flat ones and
sparse ones, each in file order. `DiskDatabase.parse` reads the `ddb.` lines of
the same text. -/

open Text Word

/-- Resolve a name a descriptor gives against the directory of the descriptor's file, refusing
names that lead out of it. -/
def resolveExtentPath (baseDir : FilePath) (filename : Text) : Except IoError FilePath :=
  if (FilePath.components filename).any FilePath.Component.escapes then
    .error ⟨.permissionDenied,
      "refusing descriptor-controlled path that escapes the image directory: "
        ++ String.ofList filename⟩
  else .ok (FilePath.join baseDir filename)

theorem resolveExtentPath_ok {dir p : FilePath} {name : Text} (h : resolveExtentPath dir name = .ok p) :
    (FilePath.components name).any FilePath.Component.escapes = false ∧ p = FilePath.join dir name := by
  unfold resolveExtentPath at h
  split at h
  · cases h
  · next hesc => cases h; exact ⟨by simpa using hesc, rfl⟩

structure ExtentEntry where
  sizeSectors : Nat
  filename : Text
  fileByteOffset : Nat
  isZero : Bool
deriving DecidableEq, Repr

structure SparseEntry where
  sizeSectors : Nat
  filename : Text
deriving DecidableEq, Repr

structure TextDescriptor where
  createType : Text
  cid : Nat
  parentCid : Nat
  rawText : Text
  extents : List ExtentEntry
  sparseExtents : List SparseEntry
  capacitySectors : Nat
  sparseCapacitySectors : Nat
deriving DecidableEq, Repr

/-- The content identifier that stands for none. -/
def noCid : Nat := 0xffffffff

/-! ## Extent lines -/

/-- The leading token without white space and the text from its end on. -/
def splitToken (s : Text) : Option (Text × Text) :=
  let s := trimStart s
  if s.isEmpty then none
  else some (s.takeWhile fun c => !isWhitespace c, s.dropWhile fun c => !isWhitespace c)

/-- A file name in double quotes or up to the next white space, and the text after it. -/
def splitFilename (rest : Text) : Option (Text × Text) :=
  match stripPrefix ['"'] rest with
  | some inner => splitOnce '"' inner
  | none => some (rest.takeWhile fun c => !isWhitespace c, rest.dropWhile fun c => !isWhitespace c)

def flatTypes : List Text := ["FLAT", "VMFS", "VMFSRAW", "VMFSRDM", "ZERO"].map String.toList

def sparseTypes : List Text := ["SPARSE", "VMFSSPARSE", "SESPARSE"].map String.toList

/-- `<access> <sectors> FLAT "<file>" <sector offset>` and its like; a `ZERO` extent or a `NOACCESS`
one has no file. -/
def tryParseFlatExtent (line : Text) : Option ExtentEntry := do
  let (access, rest) ← splitToken line
  guard (access ∈ ["RW", "RDONLY", "NOACCESS"].map String.toList)
  let (sectorsStr, rest) ← splitToken rest
  let sizeSectors ← parseU64 sectorsStr
  let (extType, rest) ← splitToken rest
  guard (extType ∈ flatTypes)
  if extType = "ZERO".toList ∨ access = "NOACCESS".toList then
    return { sizeSectors, filename := [], fileByteOffset := 0, isZero := true }
  let (filename, remaining) ← splitFilename (trimStart rest)
  let fileSectorOffset := (parseU64 (trim remaining)).getD 0
  return { sizeSectors, filename, fileByteOffset := satMul fileSectorOffset 512, isZero := false }

/-- `<access> <sectors> SPARSE "<file>"` and its like. -/
def tryParseSparseExtent (line : Text) : Option SparseEntry := do
  let (access, rest) ← splitToken line
  guard (access ∈ ["RW", "RDONLY"].map String.toList)
  let (sectorsStr, rest) ← splitToken rest
  let sizeSectors ← parseU64 sectorsStr
  let (extType, rest) ← splitToken rest
  guard (extType ∈ sparseTypes)
  let (filename, _) ← splitFilename (trimStart rest)
  return { sizeSectors, filename }

/-! ## The descriptor -/

namespace TextDescriptor

/-- The descriptor before its first line. -/
def empty (rawText : Text) : TextDescriptor where
  createType := []
  cid := noCid
  parentCid := noCid
  rawText := rawText
  extents := []
  sparseExtents := []
  capacitySectors := 0
  sparseCapacitySectors := 0

def parseCid (rest : Text) : Nat := (parseUnsigned 16 (2 ^ 32) (trim rest)).getD noCid

/-- A flat extent line found after the lines of `d`. -/
def addFlat (d : TextDescriptor) (ext : ExtentEntry) : Except VmdkError TextDescriptor :=
  match checkedAdd d.capacitySectors ext.sizeSectors with
  | some total => .ok { d with capacitySectors := total, extents := d.extents ++ [ext] }
  | none => .error (.geometryOverflow "capacity")

/-- A sparse extent line found after the lines of `d`. -/
def addSparse (d : TextDescriptor) (ext : SparseEntry) : Except VmdkError TextDescriptor :=
  match checkedAdd d.sparseCapacitySectors ext.sizeSectors with
  | some total =>
    .ok { d with sparseCapacitySectors := total, sparseExtents := d.sparseExtents ++ [ext] }
  | none => .error (.geometryOverflow "capacity")

/-- One round of the parser's loop. -/
def parseLine (d : TextDescriptor) (line : Text) : Except VmdkError TextDescriptor :=
  let line := trim line
  if line.head? = some '#' ∨ line.isEmpty then .ok d else
  match stripPrefix "createType=".toList line with
  | some rest => .ok { d with createType := trimMatches '"' rest }
  | none =>
  match stripPrefix "CID=".toList line with
  | some rest => .ok { d with cid := parseCid rest }
  | none =>
  match stripPrefix "parentCID=".toList line with
  | some rest => .ok { d with parentCid := parseCid rest }
  | none =>
  match tryParseFlatExtent line with
  | some ext => d.addFlat ext
  | none =>
  match tryParseSparseExtent line with
  | some ext => d.addSparse ext
  | none => .ok d

end TextDescriptor

/-- The text up to its first NUL. -/
def cleanText (text : Text) : Text := text.takeWhile fun c => c.toNat != 0

def parseTextDescriptor (text : Text) : Except VmdkError TextDescriptor :=
  (lines (cleanText text)).foldlM TextDescriptor.parseLine (TextDescriptor.empty (cleanText text))

/-- The capacities are the sums over the lists of extents. -/
structure TextDescriptor.Summed (d : TextDescriptor) : Prop where
  flat : d.capacitySectors = (d.extents.map ExtentEntry.sizeSectors).sum
  sparse : d.sparseCapacitySectors = (d.sparseExtents.map SparseEntry.sizeSectors).sum

namespace TextDescriptor
variable {d d' : TextDescriptor} {line : Text}

theorem addFlat_ok {ext : ExtentEntry} (h : d.addFlat ext = .ok d') :
    d' = { d with
      capacitySectors := d.capacitySectors + ext.sizeSectors
      extents := d.extents ++ [ext] } := by
  unfold addFlat checkedAdd at h
  split at h
  · next total htotal =>
    split at htotal
    · cases htotal
      exact (Except.ok.inj h).symm
    · cases htotal
  · cases h

theorem addSparse_ok {ext : SparseEntry} (h : d.addSparse ext = .ok d') :
    d' = { d with
      sparseCapacitySectors := d.sparseCapacitySectors + ext.sizeSectors
      sparseExtents := d.sparseExtents ++ [ext] } := by
  unfold addSparse checkedAdd at h
  split at h
  · next total htotal =>
    split at htotal
    · cases htotal
      exact (Except.ok.inj h).symm
    · cases htotal
  · cases h

/-- One line keeps the sums. -/
theorem Summed.parseLine (hd : d.Summed) (h : d.parseLine line = .ok d') : d'.Summed := by
  unfold TextDescriptor.parseLine at h
  simp only at h
  split at h
  · cases h
    exact hd
  split at h
  · cases h
    exact ⟨hd.flat, hd.sparse⟩
  split at h
  · cases h
    exact ⟨hd.flat, hd.sparse⟩
  split at h
  · cases h
    exact ⟨hd.flat, hd.sparse⟩
  split at h
  · rw [addFlat_ok h]
    exact ⟨by simp [hd.flat], hd.sparse⟩
  split at h
  · rw [addSparse_ok h]
    exact ⟨hd.flat, by simp [hd.sparse]⟩
  · cases h
    exact hd

end TextDescriptor

theorem parseTextDescriptor_summed {text : Text} {desc : TextDescriptor}
    (h : parseTextDescriptor text = .ok desc) : desc.Summed := by
  have aux : ∀ (ls : List Text) (d : TextDescriptor), d.Summed →
      ls.foldlM TextDescriptor.parseLine d = .ok desc → desc.Summed := by
    intro ls
    induction ls with
    | nil =>
      intro d hd hfold
      cases hfold
      exact hd
    | cons line ls ih =>
      intro d hd hfold
      rw [List.foldlM_cons] at hfold
      obtain ⟨d', hline, hrest⟩ := bind_eq_ok.mp hfold
      exact ih d' (hd.parseLine hline) hrest
  exact aux _ _ ⟨rfl, rfl⟩ h

/-! ## Decoding -/

/-- The value of the first `encoding = "<label>"` line, if one has a value. -/
def declaredEncoding (text : Text) : Option Text :=
  (lines text).findSome? fun line =>
    if contains "encoding".toList (line.map toAsciiLower) then
      match splitOnce '=' line with
      | some (_, rhs) =>
        let value := trim (trimMatches '"' (trim rhs))
        if value.isEmpty then none else some value
      | none => none
    else none

/-- The characters of the bytes `0x80` to `0x9F` in windows-1252. -/
def windows1252C1 : List Nat :=
  [0x20AC, 0x0081, 0x201A, 0x0192, 0x201E, 0x2026, 0x2020, 0x2021, 0x02C6, 0x2030, 0x0160, 0x2039,
    0x0152, 0x008D, 0x017D, 0x008F, 0x0090, 0x2018, 0x2019, 0x201C, 0x201D, 0x2022, 0x2013, 0x2014,
    0x02DC, 0x2122, 0x0161, 0x203A, 0x0153, 0x009D, 0x017E, 0x0178]

def decodeWindows1252 (bytes : List UInt8) : Text :=
  bytes.map fun b =>
    let n := b.toNat
    Char.ofNat (if 0x80 ≤ n ∧ n ≤ 0x9F then windows1252C1.getD (n - 0x80) 0 else n)

/-- The default build's decoder: windows-1252 where declared, else UTF-8 with replacement. -/
def decodeBytes (bytes : List UInt8) (label : Option Text) : Text :=
  if label.any (eqIgnoreAsciiCase "windows-1252".toList) then decodeWindows1252 bytes
  else fromUtf8Lossy bytes

def decodeDescriptor (bytes : List UInt8) : Text :=
  let bytes := bytes.takeWhile (· != 0)
  decodeBytes bytes (declaredEncoding (fromUtf8Lossy bytes))

/-! ## The disk database -/

structure DiskGeometry where
  cylinders : Nat
  heads : Nat
  sectors : Nat
deriving DecidableEq, Repr

structure DiskDatabase where
  adapterType : Option Text
  geometry : Option DiskGeometry
  biosGeometry : Option DiskGeometry
  virtualHwVersion : Option Text
  toolsVersion : Option Text
  uuid : Option Text
  longContentId : Option Text
  thinProvisioned : Option Bool
  encoding : Option Text
  entries : List (Text × Text)
deriving DecidableEq, Repr

namespace DiskDatabase

/-- The key without `ddb.` and the value of a line of the database. -/
def entryOf (line : Text) : Option (Text × Text) := do
  let rest ← stripPrefix "ddb.".toList (trim line)
  let (key, value) ← splitOnce '=' rest
  return (trim key, trimMatches '"' (trim value))

/-- A geometry of which all three numbers are known. -/
def geometryOf (cylinders heads sectors : Option Nat) : Option DiskGeometry := do
  return { cylinders := ← cylinders, heads := ← heads, sectors := ← sectors }

/-- The source's loop overwrites a field at every line with its key, so the last line decides. -/
def parse (descriptorText : Text) : DiskDatabase :=
  let found := (lines descriptorText).filterMap entryOf
  let last (key : String) : Option Text :=
    (found.reverse.find? fun e => e.1 == key.toList).map (·.2)
  let number (key : String) : Option Nat := (last key).bind parseU32
  { adapterType := last "adapterType"
    geometry := geometryOf (number "geometry.cylinders") (number "geometry.heads")
      (number "geometry.sectors")
    biosGeometry := geometryOf (number "geometry.biosCylinders") (number "geometry.biosHeads")
      (number "geometry.biosSectors")
    virtualHwVersion := last "virtualHWVersion"
    toolsVersion := last "toolsVersion"
    uuid := last "uuid"
    longContentId := last "longContentID"
    thinProvisioned := (last "thinProvisioned").map fun v => trim v == ['1']
    encoding := last "encoding"
    entries := found.map fun e => ("ddb.".toList ++ e.1, e.2) }

end DiskDatabase
