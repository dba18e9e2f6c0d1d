import Vmdk.Descriptor
import Vmdk.Files
import Vmdk.Lib.Device

/-! # Flat extents laid end to end

`MultiExtentReader` reads through its cursor; every use of it seeks first, so
`readAt` is that seek and the read after it. Sizes are multiplied and added
without overflow checks, so they wrap. -/

open Word

structure FlatExtent where
  byteStart : Nat
  byteEnd : Nat
  fileOffset : Nat
  /-- `none` for a zero extent. -/
  file : Option Source

structure MultiExtentReader where
  extents : List FlatExtent
  totalBytes : Nat

namespace MultiExtentReader

/-- The file of one extent; a zero extent has none. -/
def openExtent (fs : FileSystem) (baseDir : FilePath) (ext : ExtentEntry) :
    Opens IoError (Option Source) :=
  if ext.isZero then pure none
  else do
    let path ← Opens.lift (resolveExtentPath baseDir ext.filename)
    let file ← Opens.mapError
      (fun e => { e with message := String.ofList path ++ ": " ++ e.message })
      (Opens.openFile fs (.named baseDir ext.filename) path)
    return some file

/-- The loop of `open` from virtual byte `virt` on: the extents, and where they end. -/
def openFrom (fs : FileSystem) (baseDir : FilePath) (virt : Nat) :
    List ExtentEntry → Opens IoError (List FlatExtent × Nat)
  | [] => pure ([], virt)
  | ext :: rest => do
    let sizeBytes := wrapMul ext.sizeSectors 512
    let file ← openExtent fs baseDir ext
    let flat : FlatExtent :=
      { byteStart := virt, byteEnd := wrapAdd virt sizeBytes,
        fileOffset := ext.fileByteOffset, file }
    let (flats, total) ← openFrom fs baseDir (wrapAdd virt sizeBytes) rest
    return (flat :: flats, total)

def «open» (fs : FileSystem) (baseDir : FilePath) (extents : List ExtentEntry) :
    Opens IoError MultiExtentReader := do
  let (flats, total) ← openFrom fs baseDir 0 extents
  return { extents := flats, totalBytes := total }

/-- The extent that covers virtual byte `pos`. -/
def extentFor (self : MultiExtentReader) (pos : Nat) : Option FlatExtent :=
  self.extents.find? fun e => e.byteStart ≤ pos && pos < e.byteEnd

/-- One `read` of `len` bytes at `pos`. -/
def readHere (self : MultiExtentReader) (pos len : Nat) : Except IoError (List UInt8) :=
  if self.totalBytes ≤ pos ∨ len = 0 then .ok [] else
  match self.extentFor pos with
  | none => .error ⟨.unexpectedEof, "offset beyond extents"⟩
  | some ext =>
    let offsetInExtent := pos - ext.byteStart
    let toRead := min (min len (ext.byteEnd - pos)) (self.totalBytes - pos)
    match ext.file with
    | some file => file.readAt (wrapAdd ext.fileOffset offsetInExtent) toRead
    | none => .ok (List.replicate toRead 0)

def readAt (self : MultiExtentReader) (pos len : Nat) : Except IoError (List UInt8) := do
  let pos ← Cursor.seek 0 self.totalBytes (.start (UInt64.ofNat pos))
  self.readHere pos len

end MultiExtentReader
