import Vmdk.Companions
import Vmdk.ExtentBytes

/-! # The extent lines of a descriptor

A line is an extent when it has an access, a decimal count of sectors and a
recognised type. Laid end to end in file order the lines make a disk: holes are
zeros, the bytes of a flat extent are those of its file from a place on, and the
bytes of a sparse one are those its file's tables lead to (`linesDisk`). The
parser sorts the lines into two lists and leaves out those of neither kind. -/

open Bytes Text Word

/-! ## Two selections of one list -/

section Select
variable {α β γ : Type} {f : α → Option β} {g : α → Option γ} {R : β → γ → Prop} {as : List α}

/-- Selections of the same elements correspond. -/
theorem forall₂_select (h : ∀ a ∈ as, ∀ b, f a = some b → ∃ c, g a = some c ∧ R b c)
    (hg : ∀ a ∈ as, ∀ c, g a = some c → ∃ b, f a = some b) :
    List.Forall₂ R (as.filterMap f) (as.filterMap g) := by
  induction as with
  | nil => exact .nil
  | cons a as ih =>
    obtain ⟨hhead, htail⟩ := List.forall_mem_cons.mp h
    obtain ⟨hghead, hgtail⟩ := List.forall_mem_cons.mp hg
    have hrest := ih htail hgtail
    cases hf : f a with
    | none =>
      have hnone : g a = none := by
        cases hga : g a with
        | none => rfl
        | some c =>
          obtain ⟨b, hb⟩ := hghead c hga
          rw [hf] at hb
          cases hb
      rw [List.filterMap_cons_none hf, List.filterMap_cons_none hnone]
      exact hrest
    | some b =>
      obtain ⟨c, hc, hR⟩ := hhead b hf
      rw [List.filterMap_cons_some hf, List.filterMap_cons_some hc]
      exact .cons hR hrest

/-- A selection is no longer than one that takes more. -/
theorem length_select_le (hg : ∀ a ∈ as, ∀ c, g a = some c → ∃ b, f a = some b) :
    (as.filterMap g).length ≤ (as.filterMap f).length := by
  induction as with
  | nil => exact Nat.le_refl _
  | cons a as ih =>
    obtain ⟨hhead, htail⟩ := List.forall_mem_cons.mp hg
    have hrest := ih htail
    cases hga : g a with
    | none =>
      rw [List.filterMap_cons_none hga]
      refine Nat.le_trans hrest ?_
      cases hf : f a with
      | none => rw [List.filterMap_cons_none hf]
      | some b =>
        rw [List.filterMap_cons_some hf]
        exact Nat.le_succ _
    | some c =>
      obtain ⟨b, hb⟩ := hhead c hga
      rw [List.filterMap_cons_some hga, List.filterMap_cons_some hb]
      exact Nat.succ_le_succ hrest

/-- Two selections of one length, of which one takes what the other takes, take the same. -/
theorem select_of_length (hg : ∀ a ∈ as, ∀ c, g a = some c → ∃ b, f a = some b)
    (hlen : (as.filterMap f).length = (as.filterMap g).length) :
    ∀ a ∈ as, ∀ b, f a = some b → ∃ c, g a = some c := by
  induction as with
  | nil => exact fun a ha => nomatch ha
  | cons a as ih =>
    obtain ⟨hhead, htail⟩ := List.forall_mem_cons.mp hg
    have hle := length_select_le htail
    cases hga : g a with
    | none =>
      cases hf : f a with
      | none =>
        rw [List.filterMap_cons_none hf, List.filterMap_cons_none hga] at hlen
        refine List.forall_mem_cons.mpr ⟨fun b hb => ?_, ih htail hlen⟩
        rw [hf] at hb
        cases hb
      | some b =>
        rw [List.filterMap_cons_some hf, List.filterMap_cons_none hga, List.length_cons] at hlen
        omega
    | some c =>
      obtain ⟨b, hf⟩ := hhead c hga
      rw [List.filterMap_cons_some hf, List.filterMap_cons_some hga] at hlen
      exact List.forall_mem_cons.mpr ⟨fun b' _ => ⟨c, hga⟩, ih htail (Nat.succ.inj hlen)⟩

end Select

/-! ## Lines -/

/-- `<access> <sectors> <kind>` and the text after it. -/
structure ExtentLine where
  access : Text
  sectors : Nat
  kind : Text
  rest : Text
deriving DecidableEq, Repr

/-- A decimal number of any size: the bound is above every number of so many digits. -/
def decimal (t : Text) : Option Nat := parseUnsigned 10 (2 ^ 64 + 10 ^ t.length) t

namespace ExtentLine

def accesses : List Text := ["RW", "RDONLY", "NOACCESS"].map String.toList

def ofLine (line : Text) : Option ExtentLine := do
  let (access, rest) ← splitToken line
  guard (access ∈ accesses)
  let (count, rest) ← splitToken rest
  let sectors ← decimal count
  let (kind, rest) ← splitToken rest
  guard (kind ∈ flatTypes ++ sparseTypes)
  return { access, sectors, kind, rest }

/-- An extent without a file. -/
def Hole (line : ExtentLine) : Prop := line.kind = "ZERO".toList ∨ line.access = "NOACCESS".toList

instance (line : ExtentLine) : Decidable line.Hole := inferInstanceAs (Decidable (_ ∨ _))

def fileName (line : ExtentLine) : Option Text :=
  (splitFilename (trimStart line.rest)).map Prod.fst

/-- The first byte of a flat extent in its file, a `u64`: the sector that follows the name, 0 where
none does. -/
def fileByteOffset (line : ExtentLine) : Nat :=
  ((splitFilename (trimStart line.rest)).map fun found =>
    satMul ((parseU64 (trim found.2)).getD 0) 512).getD 0

/-- The file of the extent. -/
def source (fs : FileSystem) (dir : FilePath) (line : ExtentLine) : Option Source :=
  line.fileName.bind fun name => (fs (FilePath.join dir name)).toOption

/-- Byte `k` of a sparse extent. An extent that is opened alone has the bytes that its own reader
delivers; one among others has those that its tables lead to, as they are stored. -/
def sparseByte [ZlibDecoder] (alone : Bool) (file : Source) (k : Nat) : Option UInt8 :=
  if alone then (VmdkReader.open file).toOption.bind fun r => r.toImage.byteAt k
  else match layoutOf file.bytes with
    | .tables L => L.storedByte file.bytes k
    | .seSparse _ => none

/-- Byte `k` of the extent. -/
def byteAt [ZlibDecoder] (fs : FileSystem) (dir : FilePath) (alone : Bool) (line : ExtentLine)
    (k : Nat) : Option UInt8 :=
  if line.Hole then some 0
  else (line.source fs dir).bind fun file =>
    if line.kind ∈ flatTypes then file.bytes[wrapAdd line.fileByteOffset k]?
    else sparseByte alone file k

end ExtentLine

/-- The extent lines of a descriptor, in file order. -/
def extentLines (text : Text) : List ExtentLine :=
  (lines (cleanText text)).filterMap fun line => ExtentLine.ofLine (trim line)

/-- The bytes of the first `i` lines. -/
def lineStart (ls : List ExtentLine) (i : Nat) : Nat :=
  ((ls.map fun l => l.sectors * sectorSize).take i).sum

/-- Byte `o` of the lines, laid end to end. -/
def linesByte [ZlibDecoder] (fs : FileSystem) (dir : FilePath) (alone : Bool) :
    List ExtentLine → Nat → Option UInt8
  | [], _ => none
  | l :: ls, o =>
    if o < l.sectors * sectorSize then l.byteAt fs dir alone o
    else linesByte fs dir alone ls (o - l.sectors * sectorSize)

/-- **The disk that the lines make.** A byte within the reach of a seek must be delivered. -/
def linesDisk [ZlibDecoder] (fs : FileSystem) (dir : FilePath) (alone : Bool)
    (ls : List ExtentLine) : Disk Empty Empty where
  size := (ls.map ExtentLine.sectors).sum * sectorSize
  byte := linesByte fs dir alone ls
  served o := (linesByte fs dir alone ls o).isSome ∧ o < 2 ^ 63
  answer := Empty.elim

/-- An offset in a line has the byte of the line. -/
theorem linesByte_eq [ZlibDecoder] {fs : FileSystem} {dir : FilePath} {alone : Bool}
    {ls : List ExtentLine} {l : ExtentLine} {i o : Nat} (hl : ls[i]? = some l)
    (hge : lineStart ls i ≤ o) (hlt : o < lineStart ls (i + 1)) :
    linesByte fs dir alone ls o = l.byteAt fs dir alone (o - lineStart ls i) := by
  induction ls generalizing i o with
  | nil => cases hl
  | cons x ls ih =>
    have hstart (j : Nat) : lineStart (x :: ls) (j + 1) = x.sectors * sectorSize + lineStart ls j :=
      rfl
    unfold linesByte
    cases i with
    | zero =>
      cases hl
      rw [hstart 0, show lineStart ls 0 = 0 from rfl, Nat.add_zero] at hlt
      rw [if_pos hlt]
      rfl
    | succ i =>
      rw [hstart] at hge hlt ⊢
      rw [if_neg (by omega), ih hl (by omega) (by omega), Nat.sub_sub]

theorem pushDigit_mono {bound bound' : Nat} (hle : bound ≤ bound') {acc : Option Nat} {c : Char}
    {n : Nat} (h : pushDigit 10 bound acc c = some n) : pushDigit 10 bound' acc c = some n := by
  unfold pushDigit at h ⊢
  simp only [Option.bind_eq_bind, Option.bind_eq_some_iff] at h ⊢
  obtain ⟨a, ha, d, hd, h⟩ := h
  refine ⟨a, ha, d, hd, ?_⟩
  split at h
  · next hlt => rwa [if_pos (Nat.lt_of_lt_of_le hlt hle)]
  · cases h

theorem foldl_pushDigit_none (bound : Nat) (ds : Text) :
    ds.foldl (pushDigit 10 bound) none = none := by
  induction ds with
  | nil => rfl
  | cons d ds ih => exact ih

/-- A number that fits is read as the same number where more numbers fit. -/
theorem parseUnsigned_mono {bound bound' : Nat} (hle : bound ≤ bound') {t : Text} {n : Nat}
    (h : parseUnsigned 10 bound t = some n) : parseUnsigned 10 bound' t = some n := by
  have hfold : ∀ (ds : Text) (acc : Option Nat), ds.foldl (pushDigit 10 bound) acc = some n →
      ds.foldl (pushDigit 10 bound') acc = some n := by
    intro ds
    induction ds with
    | nil => exact fun acc h => h
    | cons d ds ih =>
      intro acc h
      rw [List.foldl_cons] at h ⊢
      cases hacc : pushDigit 10 bound acc d with
      | none =>
        rw [hacc, foldl_pushDigit_none] at h
        cases h
      | some m =>
        rw [pushDigit_mono hle hacc, ← hacc]
        exact ih _ h
  have hdigits : ∀ ds : Text,
      (if ds.isEmpty then none else ds.foldl (pushDigit 10 bound) (some 0)) = some n →
        (if ds.isEmpty then none else ds.foldl (pushDigit 10 bound') (some 0)) = some n := by
    intro ds hds
    split at hds
    · cases hds
    · next hne =>
      rw [if_neg hne]
      exact hfold _ _ hds
  exact hdigits _ h

theorem decimal_of_parseU64 {t : Text} {n : Nat} (h : parseU64 t = some n) : decimal t = some n :=
  parseUnsigned_mono (Nat.le_add_right _ _) h

/-- The line is the flat extent `ext`. -/
structure FlatLine (line : ExtentLine) (ext : ExtentEntry) : Prop where
  sectors : line.sectors = ext.sizeSectors
  hole : line.Hole ↔ ext.isZero = true
  kind : line.kind ∈ flatTypes
  fileName : ext.isZero = false → line.fileName = some ext.filename
  place : ext.isZero = false → line.fileByteOffset = ext.fileByteOffset

/-- The line is the sparse extent `ext`. -/
structure SparseLine (line : ExtentLine) (ext : SparseEntry) : Prop where
  sectors : line.sectors = ext.sizeSectors
  solid : ¬ line.Hole
  kind : line.kind ∉ flatTypes
  fileName : line.fileName = some ext.filename

theorem ofLine_of_flat {line : Text} {ext : ExtentEntry} (h : tryParseFlatExtent line = some ext) :
    ∃ l, ExtentLine.ofLine line = some l ∧ FlatLine l ext := by
  unfold tryParseFlatExtent at h
  obtain ⟨⟨access, rest⟩, haccess, h⟩ := Option.bind_eq_some_iff.mp h
  obtain ⟨_, hguard, h⟩ := Option.bind_eq_some_iff.mp h
  obtain ⟨⟨count, rest'⟩, hcount, h⟩ := Option.bind_eq_some_iff.mp h
  obtain ⟨n, hn, h⟩ := Option.bind_eq_some_iff.mp h
  obtain ⟨⟨kind, rest''⟩, hkind, h⟩ := Option.bind_eq_some_iff.mp h
  obtain ⟨_, hguard', h⟩ := Option.bind_eq_some_iff.mp h
  have hmem : access ∈ ExtentLine.accesses := (Option.guard_eq_some' _).mp hguard
  have hflat : kind ∈ flatTypes := (Option.guard_eq_some' _).mp hguard'
  have hof : ExtentLine.ofLine line = some ⟨access, n, kind, rest''⟩ := by
    unfold ExtentLine.ofLine
    simp only [haccess, hcount, hkind, decimal_of_parseU64 hn, Option.bind_eq_bind,
      Option.bind_some, guard, if_pos hmem, if_pos (List.mem_append_left sparseTypes hflat)]
    rfl
  refine ⟨_, hof, ?_⟩
  simp only at h
  split at h
  · next hzero =>
    cases h
    exact ⟨rfl, iff_of_true hzero rfl, hflat, fun hno => (nomatch hno), fun hno => (nomatch hno)⟩
  · next hzero =>
    obtain ⟨⟨filename, remaining⟩, hname, h⟩ := Option.bind_eq_some_iff.mp h
    cases h
    refine ⟨rfl, iff_of_false hzero (fun hno => nomatch hno), hflat, fun _ => ?_, fun _ => ?_⟩
    · unfold ExtentLine.fileName
      simp only [hname, Option.map_some]
    · unfold ExtentLine.fileByteOffset
      simp only [hname, Option.map_some, Option.getD_some]

theorem ofLine_of_sparse {line : Text} {ext : SparseEntry}
    (h : tryParseSparseExtent line = some ext) :
    ∃ l, ExtentLine.ofLine line = some l ∧ SparseLine l ext := by
  unfold tryParseSparseExtent at h
  obtain ⟨⟨access, rest⟩, haccess, h⟩ := Option.bind_eq_some_iff.mp h
  obtain ⟨_, hguard, h⟩ := Option.bind_eq_some_iff.mp h
  obtain ⟨⟨count, rest'⟩, hcount, h⟩ := Option.bind_eq_some_iff.mp h
  obtain ⟨n, hn, h⟩ := Option.bind_eq_some_iff.mp h
  obtain ⟨⟨kind, rest''⟩, hkind, h⟩ := Option.bind_eq_some_iff.mp h
  obtain ⟨_, hguard', h⟩ := Option.bind_eq_some_iff.mp h
  obtain ⟨⟨filename, remaining⟩, hname, h⟩ := Option.bind_eq_some_iff.mp h
  have hreads : access ∈ ["RW", "RDONLY"].map String.toList := (Option.guard_eq_some' _).mp hguard
  have hsparse : kind ∈ sparseTypes := (Option.guard_eq_some' _).mp hguard'
  have hmem : access ∈ ExtentLine.accesses := by
    rcases List.mem_cons.mp hreads with rfl | hreads
    · exact List.mem_cons_self
    · exact List.mem_cons_of_mem _ (List.mem_append_left [_] hreads)
  have hof : ExtentLine.ofLine line = some ⟨access, n, kind, rest''⟩ := by
    unfold ExtentLine.ofLine
    simp only [haccess, hcount, hkind, decimal_of_parseU64 hn, Option.bind_eq_bind,
      Option.bind_some, guard, if_pos hmem, if_pos (List.mem_append_right flatTypes hsparse)]
    rfl
  cases h
  refine ⟨_, hof, rfl, ?_, ?_, ?_⟩
  · have hno : ∀ access ∈ ["RW", "RDONLY"].map String.toList, access ≠ "NOACCESS".toList := by
      decide
    have hnz : ∀ kind ∈ sparseTypes, kind ≠ "ZERO".toList := by decide
    exact not_or.mpr ⟨hnz kind hsparse, hno access hreads⟩
  · have hother : ∀ kind ∈ sparseTypes, kind ∉ flatTypes := by decide
    exact hother kind hsparse
  · unfold ExtentLine.fileName
    simp only [hname, Option.map_some]
