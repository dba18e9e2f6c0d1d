import Vmdk.ReadAt
import Vmdk.Lib.Blocks

/-! # The disk a file describes

The content of a binary extent, read off its bytes: two levels of tables lead
from an offset to an entry, and the entry to a byte. There is no cursor, no
cache and no buffer here, and no loaded directory. Offsets are plain numbers;
a byte the file does not hold is `none`. -/

open Bytes

/-- The `w`-byte number at `off`; a number the file does not hold whole is cut. -/
def numAt (w : Nat) (bytes : List UInt8) (off : Nat) : Nat := leNat (slice bytes off w)

/-! ## VMDK4 and COWD -/

/-- Where the tables of an extent with 4-byte entries are. -/
structure TableLayout where
  capacity : Nat
  grainSectors : Nat
  numGtesPerGt : Nat
  /-- First byte of the grain directory. -/
  gdByte : Nat
  compressed : Bool

namespace TableLayout

def grainBytes (L : TableLayout) : Nat := L.grainSectors * sectorSize

/-- The first sector of the grain table for `o`; 0 where there is none. -/
def table (L : TableLayout) (bytes : List UInt8) (o : Nat) : Nat :=
  numAt 4 bytes (L.gdByte + o / L.grainBytes / L.numGtesPerGt * 4)

/-- The grain-table entry for `o`; 0 where there is no table. -/
def entry (L : TableLayout) (bytes : List UInt8) (o : Nat) : Option Nat :=
  if L.table bytes o = 0 then some 0
  else leAt 4 bytes (L.table bytes o * sectorSize + o / L.grainBytes % L.numGtesPerGt * 4)

/-- The decoded payload of the compressed grain at sector `gte`: its marker holds the payload's
length at byte 8 and the payload from byte 12 on. -/
def payload [ZlibDecoder] (L : TableLayout) (bytes : List UInt8) (gte : Nat) :
    Option (List UInt8) := do
  let dataSize ← leAt 4 bytes (gte * sectorSize + 8)
  guard (dataSize = 0 ∨ gte * sectorSize + 12 + dataSize ≤ bytes.length)
  let compressed := slice bytes (gte * sectorSize + 12) dataSize
  match ZlibDecoder.readToEnd compressed (L.grainBytes + 1) with
  | .ok out => if out.length ≤ L.grainBytes then some out else none
  | .error _ => none

/-- The byte at `o` of a grain whose entry is `gte`. -/
def dataByte [ZlibDecoder] (L : TableLayout) (bytes : List UInt8) (gte o : Nat) : Option UInt8 :=
  if L.compressed then (L.payload bytes gte).bind fun out => out[o % L.grainBytes]?
  else bytes[gte * sectorSize + o % L.grainBytes]?

def content [ZlibDecoder] (L : TableLayout) (bytes : List UInt8) (o : Nat) : Option UInt8 :=
  (L.entry bytes o).bind fun gte => if gte ≤ 1 then some 0 else L.dataByte bytes gte o

/-- The whole grain table for `o` lies in the file, and no marker claims more than a grain and
64 KiB: what the reader asks for besides the byte itself. -/
def TableWhole (L : TableLayout) (bytes : List UInt8) (o : Nat) : Prop :=
  L.table bytes o = 0 ∨
    L.table bytes o * sectorSize + L.numGtesPerGt * 4 ≤ bytes.length ∧
      ∀ gte, L.entry bytes o = some gte → 1 < gte → L.compressed = true →
        numAt 4 bytes (gte * sectorSize + 8) ≤ L.grainBytes + 65536

end TableLayout

/-- The layout a VMDK4 header describes; the directory's sector is in the footer where the header
says so. -/
def vmdk4Layout (bytes : List UInt8) : TableLayout where
  capacity := numAt 8 bytes 12
  grainSectors := numAt 8 bytes 20
  numGtesPerGt := numAt 4 bytes 44
  gdByte :=
    (if numAt 8 bytes 56 = Header.gdAtEnd then numAt 8 bytes (bytes.length - 1024 + 56)
      else numAt 8 bytes 56) * sectorSize
  compressed := numAt 2 bytes 77 != 0

def cowdLayout (bytes : List UInt8) : TableLayout where
  capacity := numAt 4 bytes 12
  grainSectors := numAt 4 bytes 16
  numGtesPerGt := 4096
  gdByte := 4 * sectorSize
  compressed := false

/-! ## seSparse -/

/-- Where the tables of a seSparse extent are: grains of 8 sectors, tables of 4096 entries. -/
structure SeLayout where
  capacity : Nat
  gdByte : Nat
  gtSector : Nat
  grainsSector : Nat

def seLayout (bytes : List UInt8) : SeLayout where
  capacity := numAt 8 bytes 16
  gdByte := numAt 8 bytes 128 * sectorSize
  gtSector := numAt 8 bytes 144
  grainsSector := numAt 8 bytes 192

namespace SeLayout

/-- The raw directory entry for `o`. -/
def directory (L : SeLayout) (bytes : List UInt8) (o : Nat) : Nat :=
  numAt 8 bytes (L.gdByte + o / 4096 / 4096 * 8)

/-- The place of the grain-table entry for `o`, under the directory entry `gd`. -/
def entryByte (L : SeLayout) (gd o : Nat) : Nat :=
  (L.gtSector + gd % 2 ^ 32 * 64) * sectorSize + o / 4096 % 4096 * 8

/-- The place of the byte for `o`, in the grain that the allocated entry `gte` points to: its index
is bits 0 to 47 above bits 48 to 59. -/
def dataByte (L : SeLayout) (gte o : Nat) : Nat :=
  (L.grainsSector + (gte / 2 ^ 48 % 2 ^ 12 + gte % 2 ^ 48 * 2 ^ 12) * 8) * sectorSize + o % 4096

/-- The byte for `o` under the entry `gte`: nibbles 1 and 2 and an empty entry read as zero,
nibble 3 points to data. -/
def entryContent (L : SeLayout) (bytes : List UInt8) (gte o : Nat) : Option UInt8 :=
  if gte = 0 ∨ gte / 2 ^ 60 = 1 ∨ gte / 2 ^ 60 = 2 then some 0
  else if gte / 2 ^ 60 = 3 then bytes[L.dataByte gte o]?
  else none

def content (L : SeLayout) (bytes : List UInt8) (o : Nat) : Option UInt8 :=
  let gd := L.directory bytes o
  if gd = 0 then some 0
  else if gd / 2 ^ 32 = 0x10000000 then
    (leAt 8 bytes (L.entryByte gd o)).bind fun gte => L.entryContent bytes gte o
  else none

/-- No address of the extent exceeds a `u64`. -/
structure AddressesFit (L : SeLayout) (bytes : List UInt8) : Prop where
  directory : L.gdByte < 2 ^ 64
  entry : ∀ o < L.capacity * sectorSize, L.entryByte (L.directory bytes o) o < 2 ^ 64
  data : ∀ o < L.capacity * sectorSize, ∀ gte,
    leAt 8 bytes (L.entryByte (L.directory bytes o) o) = some gte → gte / 2 ^ 60 = 3 →
      L.dataByte gte o < 2 ^ 64

end SeLayout

/-! ## Any binary extent -/

/-- A binary extent by its format. -/
inductive Layout where
  | tables (L : TableLayout)
  | seSparse (L : SeLayout)

/-- The format is selected by the magic number. -/
def layoutOf (bytes : List UInt8) : Layout :=
  if beNat (slice bytes 0 4) = Cowd.magic then .tables (cowdLayout bytes)
  else if numAt 8 bytes 0 = SeSparse.constMagic then .seSparse (seLayout bytes)
  else .tables (vmdk4Layout bytes)

namespace Layout

def capacity : Layout → Nat
  | .tables L => L.capacity
  | .seSparse L => L.capacity

def content [ZlibDecoder] (bytes : List UInt8) : Layout → Nat → Option UInt8
  | .tables L => L.content bytes
  | .seSparse L => L.content bytes

def TableWhole (bytes : List UInt8) : Layout → Nat → Prop
  | .tables L => L.TableWhole bytes
  | .seSparse _ => fun _ => True

def AddressesFit (bytes : List UInt8) : Layout → Prop
  | .tables _ => True
  | .seSparse L => L.AddressesFit bytes

end Layout

/-- The disk of a layout: a byte is promised where its content is defined and the reader can get at
its table. -/
def Layout.disk [ZlibDecoder] {Q A : Type} (L : Layout) (bytes : List UInt8) (answer : Q → A) :
    Disk Q A where
  size := L.capacity * sectorSize
  byte := L.content bytes
  served o := (L.content bytes o).isSome ∧ L.TableWhole bytes o
  answer := answer

/-- **The disk a binary extent holds**; `answer` is what its reader says of it. -/
def contentDisk [ZlibDecoder] {Q A : Type} (bytes : List UInt8) (answer : Q → A) : Disk Q A :=
  (layoutOf bytes).disk bytes answer
