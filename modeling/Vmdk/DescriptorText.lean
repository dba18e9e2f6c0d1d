import Mathlib.Data.List.TakeWhile
import Vmdk.Chain
import Vmdk.DescriptorLines
import Vmdk.DiskDatabase
import Vmdk.Info
import Vmdk.Lib.Lines
import Vmdk.Lib.Number

/-! # Descriptors as text

A descriptor written line by line, as its entries are written in a descriptor
file, is read back by every reader of its text, with either line end
(`DescriptorDoc.readBack`), and the disk database in it field by field
(`DiskDatabase.parse_toPairs`). -/

open Text Word

/-- What one written line says. -/
inductive DescriptorEntry where
  | comment (text : Text)
  | version (value : Nat)
  | createType (value : Text)
  | cid (value : Nat)
  | parentCid (value : Nat)
  | parentFileNameHint (name : Text)
  | changeTrackPath (name : Text)
  | flat (ext : ExtentEntry)
  | sparse (ext : SparseEntry)
  | ddb (key value : Text)
deriving DecidableEq, Repr

/-- A predicate of the characters of a text is decided at each of them, not over all of `Char`. -/
local instance (priority := 2000) decidableForallMem {p : Char → Prop} [DecidablePred p] (t : Text) :
    Decidable (∀ c ∈ t, p c) := List.decidableBAll p t

/-- A text that can stand between quotes in one line. -/
def Quotable (t : Text) : Prop := ∀ c ∈ t, c ≠ '"' ∧ c ≠ '\n' ∧ c ≠ '\r' ∧ c.toNat ≠ 0

instance (t : Text) : Decidable (Quotable t) := inferInstanceAs (Decidable (∀ c ∈ t, _))

def quoted (t : Text) : Text := '"' :: (t ++ ['"'])

namespace DescriptorEntry

/-- The entry can be written in the format of its line. -/
def WellFormed : DescriptorEntry → Prop
  | .comment text => Quotable text
  | .version _ => True
  | .createType value => Quotable value
  | .cid value => value < 2 ^ 32
  | .parentCid value => value < 2 ^ 32
  | .parentFileNameHint name => Quotable name
  | .changeTrackPath name => Quotable name
  | .flat ext => ext.sizeSectors < 2 ^ 64 ∧ Quotable ext.filename ∧ ext.fileByteOffset < 2 ^ 64 ∧
      ext.fileByteOffset % 512 = 0 ∧ (ext.isZero = true → ext.filename = [] ∧ ext.fileByteOffset = 0)
  | .sparse ext => ext.sizeSectors < 2 ^ 64 ∧ Quotable ext.filename
  | .ddb key value => (∀ c ∈ key, isWhitespace c = false ∧ c ≠ '=' ∧ c.toNat ≠ 0) ∧ Quotable value

instance : (e : DescriptorEntry) → Decidable e.WellFormed
  | .comment text => inferInstanceAs (Decidable (Quotable text))
  | .version _ => inferInstanceAs (Decidable True)
  | .createType value => inferInstanceAs (Decidable (Quotable value))
  | .cid value => inferInstanceAs (Decidable (value < 2 ^ 32))
  | .parentCid value => inferInstanceAs (Decidable (value < 2 ^ 32))
  | .parentFileNameHint name => inferInstanceAs (Decidable (Quotable name))
  | .changeTrackPath name => inferInstanceAs (Decidable (Quotable name))
  | .flat ext => inferInstanceAs (Decidable (ext.sizeSectors < 2 ^ 64 ∧ _))
  | .sparse ext => inferInstanceAs (Decidable (ext.sizeSectors < 2 ^ 64 ∧ Quotable ext.filename))
  | .ddb key value => inferInstanceAs (Decidable ((∀ c ∈ key, _) ∧ Quotable value))

/-- The written line. -/
def toText : DescriptorEntry → Text
  | .comment text => '#' :: text
  | .version value => "version=".toList ++ Nat.toDigits 10 value
  | .createType value => "createType=".toList ++ quoted value
  | .cid value => "CID=".toList ++ padded 16 8 value
  | .parentCid value => "parentCID=".toList ++ padded 16 8 value
  | .parentFileNameHint name => "parentFileNameHint=".toList ++ quoted name
  | .changeTrackPath name => "changeTrackPath=".toList ++ quoted name
  | .flat ext => "RW ".toList ++ (Nat.toDigits 10 ext.sizeSectors ++
      if ext.isZero then " ZERO".toList
      else " FLAT ".toList ++ (quoted ext.filename ++
        ' ' :: Nat.toDigits 10 (ext.fileByteOffset / 512)))
  | .sparse ext => "RW ".toList ++ (Nat.toDigits 10 ext.sizeSectors ++
      " SPARSE ".toList ++ quoted ext.filename)
  | .ddb key value => "ddb.".toList ++ (key ++ " = ".toList ++ quoted value)

/-- What the parser takes the line for. -/
def line : DescriptorEntry → DescriptorLine
  | .createType value => .createType value
  | .cid value => .cid value
  | .parentCid value => .parentCid value
  | .flat ext => .flat ext
  | .sparse ext => .sparse ext
  | _ => .other

end DescriptorEntry

/-! ## Tokens -/

section Tokens
variable {w rest t : Text} {c : Char}

theorem splitToken_space (t : Text) : splitToken (' ' :: t) = splitToken t := by
  unfold splitToken
  rw [trimStart_space]

/-- A word, up to the end or to a space. -/
theorem splitToken_word (hne : w ≠ []) (hw : ∀ c ∈ w, isWhitespace c = false)
    (hrest : rest = [] ∨ ∃ t, rest = ' ' :: t) : splitToken (w ++ rest) = some (w, rest) := by
  obtain ⟨c, w', rfl⟩ := List.exists_cons_of_ne_nil hne
  have hplain : ∀ c' ∈ c :: w', (!isWhitespace c') = true := fun c' hc' => by rw [hw c' hc']; rfl
  unfold splitToken
  rw [List.cons_append, trimStart_cons (hw c List.mem_cons_self), ← List.cons_append]
  simp only [List.cons_append, List.isEmpty_cons, Bool.false_eq_true, if_false, Option.some.injEq,
    Prod.mk.injEq]
  rw [← List.cons_append, List.takeWhile_append_of_pos hplain, List.dropWhile_append_of_pos hplain]
  rcases hrest with rfl | ⟨t, rfl⟩
  · exact ⟨List.append_nil _, rfl⟩
  · rw [List.takeWhile_cons_of_neg (by decide), List.dropWhile_cons_of_neg (by decide)]
    exact ⟨List.append_nil _, rfl⟩

/-- The first token begins with the first character. -/
theorem splitToken_head (hc : isWhitespace c = false) (t : Text) :
    ∃ w rest, splitToken (c :: t) = some (c :: w, rest) := by
  unfold splitToken
  rw [trimStart_cons hc]
  refine ⟨t.takeWhile fun c => !isWhitespace c, t.dropWhile fun c => !isWhitespace c, ?_⟩
  simp only [List.isEmpty_cons, Bool.false_eq_true, if_false]
  rw [List.takeWhile_cons_of_pos (by rw [hc]; rfl), List.dropWhile_cons_of_pos (by rw [hc]; rfl)]

theorem splitFilename_quoted (h : '"' ∉ t) (rest : Text) :
    splitFilename (quoted t ++ rest) = some (t, rest) := by
  have hsplit : quoted t ++ rest = ['"'] ++ (t ++ '"' :: rest) := by
    unfold quoted
    simp only [List.cons_append, List.append_assoc, List.nil_append]
  unfold splitFilename
  rw [hsplit, stripPrefix_append]
  exact splitOnce_append h rest

/-- A line that does not begin with an access is no extent. -/
theorem tryParse_none (hc : isWhitespace c = false) (hR : c ≠ 'R') (hN : c ≠ 'N') (t : Text) :
    tryParseFlatExtent (c :: t) = none ∧ tryParseSparseExtent (c :: t) = none := by
  obtain ⟨w, rest, hsplit⟩ := splitToken_head hc t
  have haccess : c :: w ∉ ["RW", "RDONLY", "NOACCESS"].map String.toList := by
    intro hmem
    have hhead : some c ∈ (["RW", "RDONLY", "NOACCESS"].map String.toList).map List.head? :=
      List.mem_map.mpr ⟨_, hmem, rfl⟩
    have hheads : (["RW", "RDONLY", "NOACCESS"].map String.toList).map List.head? =
        [some 'R', some 'R', some 'N'] := rfl
    rw [hheads] at hhead
    simp only [List.mem_cons, Option.some.injEq, List.not_mem_nil, or_false, hR, hN] at hhead
  have hsparse : c :: w ∉ ["RW", "RDONLY"].map String.toList := fun hmem =>
    haccess (List.mem_append_left (["NOACCESS"].map String.toList) hmem)
  constructor
  · unfold tryParseFlatExtent
    simp only [hsplit, Option.bind_eq_bind, Option.bind_some, guard, if_neg haccess]
    rfl
  · unfold tryParseSparseExtent
    simp only [hsplit, Option.bind_eq_bind, Option.bind_some, guard, if_neg hsparse]
    rfl

end Tokens

/-! ## One line -/

namespace DescriptorEntry
variable {e : DescriptorEntry} {ext : ExtentEntry} {sparseExt : SparseEntry}

theorem digits_word (n : Nat) : ∀ c ∈ Nat.toDigits 10 n, isWhitespace c = false := by
  intro c hc
  rw [← padded_zero] at hc
  exact (mem_padded (by decide) (by decide) hc).1

/-- The tokens of an extent line, and the text after them. -/
structure ExtentTokens (line kind rest : Text) (n : Nat) : Prop where
  split : ∃ r₁ count r₂, splitToken line = some ("RW".toList, r₁) ∧
    splitToken r₁ = some (count, r₂) ∧ parseU64 count = some n ∧ splitToken r₂ = some (kind, rest)

namespace ExtentTokens
variable {line kind rest name remaining : Text} {n : Nat}

theorem flat_zero (h : ExtentTokens line "ZERO".toList rest n) : tryParseFlatExtent line =
    some { sizeSectors := n, filename := [], fileByteOffset := 0, isZero := true } := by
  obtain ⟨r₁, count, r₂, h₁, h₂, hn, h₃⟩ := h.split
  unfold tryParseFlatExtent
  rw [h₁, Option.bind_eq_bind, Option.bind_some]
  show (splitToken r₁).bind _ = _
  rw [h₂, Option.bind_some]
  show (parseU64 count).bind _ = _
  rw [hn, Option.bind_some]
  show (splitToken r₂).bind _ = _
  rw [h₃, Option.bind_some]
  rfl

theorem flat_file (h : ExtentTokens line "FLAT".toList rest n)
    (hname : splitFilename (trimStart rest) = some (name, remaining)) : tryParseFlatExtent line =
      some {
        sizeSectors := n
        filename := name
        fileByteOffset := satMul ((parseU64 (trim remaining)).getD 0) 512
        isZero := false } := by
  obtain ⟨r₁, count, r₂, h₁, h₂, hn, h₃⟩ := h.split
  unfold tryParseFlatExtent
  rw [h₁, Option.bind_eq_bind, Option.bind_some]
  show (splitToken r₁).bind _ = _
  rw [h₂, Option.bind_some]
  show (parseU64 count).bind _ = _
  rw [hn, Option.bind_some]
  show (splitToken r₂).bind _ = _
  rw [h₃, Option.bind_some]
  show (splitFilename (trimStart rest)).bind _ = _
  rw [hname, Option.bind_some]
  rfl

theorem not_flat (h : ExtentTokens line kind rest n) (hkind : kind ∉ flatTypes) :
    tryParseFlatExtent line = none := by
  obtain ⟨r₁, count, r₂, h₁, h₂, hn, h₃⟩ := h.split
  unfold tryParseFlatExtent
  rw [h₁, Option.bind_eq_bind, Option.bind_some]
  show (splitToken r₁).bind _ = _
  rw [h₂, Option.bind_some]
  show (parseU64 count).bind _ = _
  rw [hn, Option.bind_some]
  show (splitToken r₂).bind _ = _
  rw [h₃, Option.bind_some]
  simp only [guard, if_neg hkind]
  rfl

theorem sparse_file (h : ExtentTokens line "SPARSE".toList rest n)
    (hname : splitFilename (trimStart rest) = some (name, remaining)) : tryParseSparseExtent line =
      some { sizeSectors := n, filename := name } := by
  obtain ⟨r₁, count, r₂, h₁, h₂, hn, h₃⟩ := h.split
  unfold tryParseSparseExtent
  rw [h₁, Option.bind_eq_bind, Option.bind_some]
  show (splitToken r₁).bind _ = _
  rw [h₂, Option.bind_some]
  show (parseU64 count).bind _ = _
  rw [hn, Option.bind_some]
  show (splitToken r₂).bind _ = _
  rw [h₃, Option.bind_some]
  show (splitFilename (trimStart rest)).bind _ = _
  rw [hname, Option.bind_some]
  rfl

end ExtentTokens

theorem parseU64_digits {n : Nat} (h : n < 2 ^ 64) : parseU64 (Nat.toDigits 10 n) = some n :=
  parseUnsigned_toDigits (by decide) (by decide) h

/-- The tokens of a written extent line. -/
theorem tokens_write {n : Nat} (kind rest : Text) (hn : n < 2 ^ 64) (hne : kind ≠ [])
    (hkind : ∀ c ∈ kind, isWhitespace c = false) (hrest : rest = [] ∨ ∃ t, rest = ' ' :: t) :
    ExtentTokens ("RW".toList ++ ' ' :: (Nat.toDigits 10 n ++ ' ' :: (kind ++ rest))) kind rest n := by
  refine ⟨' ' :: (Nat.toDigits 10 n ++ ' ' :: (kind ++ rest)), Nat.toDigits 10 n,
    ' ' :: (kind ++ rest), ?_, ?_, parseU64_digits hn, ?_⟩
  · exact splitToken_word (by decide) (by decide) (.inr ⟨_, rfl⟩)
  · rw [splitToken_space]
    exact splitToken_word Nat.toDigits_ne_nil (digits_word n) (.inr ⟨_, rfl⟩)
  · rw [splitToken_space]
    exact splitToken_word hne hkind hrest

theorem splitFilename_write {name : Text} (h : Quotable name) (rest : Text) :
    splitFilename (trimStart (' ' :: (quoted name ++ rest))) = some (name, rest) := by
  have hstart : trimStart (quoted name ++ rest) = quoted name ++ rest := trimStart_cons (by decide) _
  rw [trimStart_space, hstart]
  exact splitFilename_quoted (fun hmem => (h _ hmem).1 rfl) rest

theorem flat_write (h : (DescriptorEntry.flat ext).WellFormed) :
    tryParseFlatExtent (DescriptorEntry.flat ext).toText = some ext := by
  obtain ⟨hn, hname, hlt, hmod, hzero⟩ := h
  obtain ⟨n, name, off, isZero⟩ := ext
  cases isZero with
  | true =>
    obtain ⟨rfl, rfl⟩ := hzero rfl
    exact (tokens_write "ZERO".toList [] hn (by decide) (by decide) (.inl rfl)).flat_zero
  | false =>
    have htokens := tokens_write "FLAT".toList (' ' :: (quoted name ++
      ' ' :: Nat.toDigits 10 (off / 512))) hn (by decide) (by decide) (.inr ⟨_, rfl⟩)
    have hdigits : trim (' ' :: Nat.toDigits 10 (off / 512)) = Nat.toDigits 10 (off / 512) := by
      unfold trim
      rw [trimStart_space]
      exact trim_word (digits_word _)
    change off < 2 ^ 64 at hlt
    change off % 512 = 0 at hmod
    have hoff : off / 512 * 512 = off := by omega
    refine (htokens.flat_file (splitFilename_write hname _)).trans ?_
    rw [hdigits, parseU64_digits (by omega), Option.getD_some, satMul_eq (hoff.symm ▸ hlt), hoff]

theorem sparse_write (h : (DescriptorEntry.sparse sparseExt).WellFormed) :
    tryParseFlatExtent (DescriptorEntry.sparse sparseExt).toText = none ∧
      tryParseSparseExtent (DescriptorEntry.sparse sparseExt).toText = some sparseExt := by
  obtain ⟨hn, hname⟩ := h
  obtain ⟨n, name⟩ := sparseExt
  have htokens := tokens_write "SPARSE".toList (' ' :: (quoted name ++ [])) hn (by decide) (by decide)
    (.inr ⟨_, rfl⟩)
  have htext : (DescriptorEntry.sparse ⟨n, name⟩).toText = "RW".toList ++
      ' ' :: (Nat.toDigits 10 n ++ ' ' :: ("SPARSE".toList ++ ' ' :: (quoted name ++ []))) := by
    rw [List.append_nil]
    show "RW ".toList ++ (Nat.toDigits 10 n ++ " SPARSE ".toList ++ quoted name) = _
    rw [List.append_assoc]
    rfl
  rw [htext]
  exact ⟨htokens.not_flat (by decide), htokens.sparse_file (splitFilename_write hname _)⟩

/-- A written line neither begins nor ends with white space, unless it is a comment. -/
theorem trim_toText (hcomment : ∀ text, e ≠ .comment text) : trim e.toText = e.toText := by
  have hquoted (c : Char) (p t : Text) (hc : isWhitespace c = false) :
      trim (c :: (p ++ quoted t)) = c :: (p ++ quoted t) := by
    have hend : p ++ quoted t = (p ++ '"' :: t) ++ ['"'] := by
      unfold quoted
      simp only [List.append_assoc, List.cons_append]
    rw [hend]
    exact trim_append hc (by decide) (by decide) _
  have hpadded (c : Char) (p : Text) (hc : isWhitespace c = false) (n : Nat) :
      trim (c :: (p ++ padded 16 8 n)) = c :: (p ++ padded 16 8 n) :=
    trim_append hc (padded_ne_nil 16 8 n) (fun _ h => (mem_padded (by decide) (by decide) h).1) p
  cases e with
  | comment text => exact absurd rfl (hcomment text)
  | version value =>
    exact trim_append (c := 'v') (by decide) Nat.toDigits_ne_nil (digits_word value) "ersion=".toList
  | createType value => exact hquoted 'c' "reateType=".toList value (by decide)
  | cid value => exact hpadded 'C' "ID=".toList (by decide) value
  | parentCid value => exact hpadded 'p' "arentCID=".toList (by decide) value
  | parentFileNameHint name => exact hquoted 'p' "arentFileNameHint=".toList name (by decide)
  | changeTrackPath name => exact hquoted 'c' "hangeTrackPath=".toList name (by decide)
  | flat ext =>
    obtain ⟨n, name, off, isZero⟩ := ext
    cases isZero with
    | true =>
      have hend : (DescriptorEntry.flat ⟨n, name, off, true⟩).toText =
          'R' :: (("W ".toList ++ (Nat.toDigits 10 n ++ [' '])) ++ "ZERO".toList) := by
        simp only [List.append_assoc]
        rfl
      rw [hend]
      exact trim_append (c := 'R') (b := "ZERO".toList) (by decide) (by decide) (by decide) _
    | false =>
      have hend : (DescriptorEntry.flat ⟨n, name, off, false⟩).toText =
          'R' :: (("W ".toList ++ (Nat.toDigits 10 n ++ (" FLAT ".toList ++ (quoted name ++ [' '])))) ++
            Nat.toDigits 10 (off / 512)) := by
        simp only [List.append_assoc, List.singleton_append]
        rfl
      rw [hend]
      exact trim_append (c := 'R') (by decide) Nat.toDigits_ne_nil (digits_word _) _
  | sparse ext =>
    have hend : (DescriptorEntry.sparse ext).toText = 'R' :: (("W ".toList ++
        (Nat.toDigits 10 ext.sizeSectors ++ " SPARSE ".toList)) ++ quoted ext.filename) := by
      simp only [List.append_assoc]
      exact congrArg ("RW ".toList ++ ·) (List.append_assoc _ _ _)
    rw [hend]
    exact hquoted 'R' _ ext.filename (by decide)
  | ddb key value =>
    have hend : (DescriptorEntry.ddb key value).toText =
        'd' :: (("db.".toList ++ (key ++ " = ".toList)) ++ quoted value) := by
      simp only [List.append_assoc]
      exact congrArg ("ddb.".toList ++ ·) (List.append_assoc _ _ _)
    rw [hend]
    exact hquoted 'd' _ value (by decide)

/-- A line that sets none of the parser's fields. -/
structure Unprefixed (t : Text) : Prop where
  trimmed : trim t = t
  head : ∃ c rest, t = c :: rest ∧ c ≠ '#'
  createType : stripPrefix "createType=".toList t = none
  cid : stripPrefix "CID=".toList t = none
  parentCid : stripPrefix "parentCID=".toList t = none

namespace Unprefixed
variable {t : Text}

theorem content (h : Unprefixed t) : ¬ (t.head? = some '#' ∨ t.isEmpty = true) := by
  obtain ⟨c, rest, rfl, hc⟩ := h.head
  rintro (hhash | hempty)
  · exact hc (Option.some.inj hhash)
  · cases hempty

theorem flat (h : Unprefixed t) (hflat : tryParseFlatExtent t = some ext) : lineOf t = .flat ext := by
  unfold lineOf
  simp only [h.trimmed, if_neg h.content, h.createType, h.cid, h.parentCid, hflat]

theorem sparse (h : Unprefixed t) (hflat : tryParseFlatExtent t = none)
    (hsparse : tryParseSparseExtent t = some sparseExt) : lineOf t = .sparse sparseExt := by
  unfold lineOf
  simp only [h.trimmed, if_neg h.content, h.createType, h.cid, h.parentCid, hflat, hsparse]

theorem other (h : Unprefixed t) (hflat : tryParseFlatExtent t = none)
    (hsparse : tryParseSparseExtent t = none) : lineOf t = .other := by
  unfold lineOf
  simp only [h.trimmed, if_neg h.content, h.createType, h.cid, h.parentCid, hflat, hsparse]

end Unprefixed

/-- **A written line is taken for what it says.** -/
theorem lineOf_toText (h : e.WellFormed) : lineOf e.toText = e.line := by
  have htrim (hcomment : ∀ text, e ≠ .comment text) := trim_toText hcomment
  have hid (n : Nat) (hn : n < 2 ^ 32) : TextDescriptor.parseCid (padded 16 8 n) = n := by
    unfold TextDescriptor.parseCid
    rw [trim_word fun _ h => (mem_padded (by decide) (by decide) h).1,
      parseUnsigned_padded (by decide) (by decide) hn]
    rfl
  cases e with
  | comment text =>
    unfold lineOf
    rw [if_pos (.inl (head?_trim (by decide) text))]
    rfl
  | version value =>
    have hnone := tryParse_none (c := 'v') (by decide) (by decide) (by decide)
      ("ersion=".toList ++ Nat.toDigits 10 value)
    exact (Unprefixed.mk (htrim fun _ h => by cases h) ⟨_, _, rfl, by decide⟩ rfl rfl rfl).other
      hnone.1 hnone.2
  | createType value =>
    unfold lineOf
    rw [htrim fun _ h => by cases h]
    show DescriptorLine.createType (trimMatches '"' (quoted value)) = .createType value
    unfold quoted
    rw [trimMatches_quoted fun hmem => (h _ hmem).1 rfl]
  | cid value =>
    unfold lineOf
    rw [htrim fun _ h => by cases h]
    show DescriptorLine.cid (TextDescriptor.parseCid (padded 16 8 value)) = .cid value
    rw [hid value h]
  | parentCid value =>
    unfold lineOf
    rw [htrim fun _ h => by cases h]
    show DescriptorLine.parentCid (TextDescriptor.parseCid (padded 16 8 value)) = .parentCid value
    rw [hid value h]
  | parentFileNameHint name =>
    have hnone := tryParse_none (c := 'p') (by decide) (by decide) (by decide)
      ("arentFileNameHint=".toList ++ quoted name)
    exact (Unprefixed.mk (htrim fun _ h => by cases h) ⟨_, _, rfl, by decide⟩ rfl rfl rfl).other hnone.1 hnone.2
  | changeTrackPath name =>
    have hnone := tryParse_none (c := 'c') (by decide) (by decide) (by decide)
      ("hangeTrackPath=".toList ++ quoted name)
    exact (Unprefixed.mk (htrim fun _ h => by cases h) ⟨_, _, rfl, by decide⟩ rfl rfl rfl).other hnone.1 hnone.2
  | flat ext =>
    exact (Unprefixed.mk (htrim fun _ h => by cases h) ⟨_, _, rfl, by decide⟩ rfl rfl rfl).flat (flat_write h)
  | sparse ext =>
    have hparse := sparse_write h
    exact (Unprefixed.mk (htrim fun _ h => by cases h) ⟨_, _, rfl, by decide⟩ rfl rfl rfl).sparse hparse.1 hparse.2
  | ddb key value =>
    have hnone := tryParse_none (c := 'd') (by decide) (by decide) (by decide)
      ("db.".toList ++ (key ++ " = ".toList ++ quoted value))
    exact (Unprefixed.mk (htrim fun _ h => by cases h) ⟨_, _, rfl, by decide⟩ rfl rfl rfl).other hnone.1 hnone.2

/-! ## The other readers of a line -/

/-- The hint in a written line. -/
def hint? : DescriptorEntry → Option Text
  | .parentFileNameHint name => some name
  | _ => none

/-- The path of the change track in a written line. -/
def track? : DescriptorEntry → Option Text
  | .changeTrackPath name => if name.isEmpty then none else some name
  | _ => none

/-- The pair of the disk database in a written line. -/
def ddb? : DescriptorEntry → Option (Text × Text)
  | .ddb key value => some (key, value)
  | _ => none

theorem trim_quoted (t : Text) : trim (quoted t) = quoted t :=
  trim_append (c := '"') (b := ['"']) (by decide) (by decide) (by decide) t

theorem trimMatches_value {t : Text} (h : Quotable t) : trimMatches '"' (quoted t) = t :=
  trimMatches_quoted fun hmem => (h _ hmem).1 rfl

theorem stripPrefix_comment {p : Text} (hne : p ≠ []) (hp : p.head? ≠ some '#') (text : Text) :
    stripPrefix p (trim ('#' :: text)) = none :=
  stripPrefix_head hne (by rw [head?_trim (by decide)]; exact fun h => hp h.symm)

theorem hint_toText (h : e.WellFormed) :
    (stripPrefix "parentFileNameHint=".toList (trim e.toText)).map
      (fun rest => trimMatches '"' (trim rest)) = e.hint? := by
  have htrim (hcomment : ∀ text, e ≠ .comment text) := trim_toText hcomment
  cases e with
  | comment text =>
    show (stripPrefix _ (trim ('#' :: text))).map _ = none
    rw [stripPrefix_comment (by decide) (by decide)]
    rfl
  | parentFileNameHint name =>
    rw [htrim fun _ h => by cases h]
    show some (trimMatches '"' (trim (quoted name))) = some name
    rw [trim_quoted, trimMatches_value h]
  | _ =>
    rw [htrim fun _ h => by cases h]
    rfl

theorem track_toText (h : e.WellFormed) :
    ((stripPrefix "changeTrackPath".toList (trim e.toText)).bind fun rest =>
      let v := trimMatches '"' (trim ((trimStart rest).dropWhile (· == '=')))
      if v.isEmpty then none else some v) = e.track? := by
  have htrim (hcomment : ∀ text, e ≠ .comment text) := trim_toText hcomment
  cases e with
  | comment text =>
    show (stripPrefix _ (trim ('#' :: text))).bind _ = none
    rw [stripPrefix_comment (by decide) (by decide)]
    rfl
  | changeTrackPath name =>
    rw [htrim fun _ h => by cases h]
    show (if (trimMatches '"' (trim (quoted name))).isEmpty then none
      else some (trimMatches '"' (trim (quoted name)))) = if name.isEmpty then none else some name
    rw [trim_quoted, trimMatches_value h]
  | _ =>
    rw [htrim fun _ h => by cases h]
    rfl

theorem entryOf_toText (h : e.WellFormed) : DiskDatabase.entryOf e.toText = e.ddb? := by
  have htrim (hcomment : ∀ text, e ≠ .comment text) := trim_toText hcomment
  unfold DiskDatabase.entryOf
  cases e with
  | comment text =>
    show (stripPrefix _ (trim ('#' :: text))).bind _ = none
    rw [stripPrefix_comment (by decide) (by decide)]
    rfl
  | ddb key value =>
    obtain ⟨hkey, hvalue⟩ := h
    have hsplit : splitOnce '=' (key ++ " = ".toList ++ quoted value) =
        some (key ++ [' '], ' ' :: quoted value) := by
      have hnot : '=' ∉ key ++ [' '] := by
        rw [List.mem_append, not_or]
        exact ⟨fun hmem => (hkey _ hmem).2.1 rfl, by decide⟩
      have hparts : key ++ " = ".toList ++ quoted value = (key ++ [' ']) ++ '=' :: ' ' :: quoted value := by
        rw [List.append_assoc, List.append_assoc]
        rfl
      rw [hparts, splitOnce_append hnot]
    rw [htrim fun _ h => by cases h]
    show (splitOnce '=' (key ++ " = ".toList ++ quoted value)).bind _ = some (key, value)
    rw [hsplit, Option.bind_some]
    show some (trim (key ++ [' ']), trimMatches '"' (trim (' ' :: quoted value))) = _
    have hvalueTrim : trim (' ' :: quoted value) = quoted value := by
      have hword := trim_quoted value
      unfold trim at hword ⊢
      rw [trimStart_space, hword]
    rw [trim_word_space fun c hc => (hkey c hc).1, hvalueTrim, trimMatches_value hvalue]
  | _ =>
    rw [htrim fun _ h => by cases h]
    rfl

end DescriptorEntry

/-! ## The whole text -/

namespace DescriptorEntry
variable {eol : LineEnd} {es : List DescriptorEntry}

/-- The text of the entries, a line each. -/
def write (eol : LineEnd) (es : List DescriptorEntry) : Text := unlines eol (es.map toText)

/-- A character that ends neither a line nor the text. -/
def Inner (c : Char) : Prop := c ≠ '\n' ∧ c ≠ '\r' ∧ c.toNat ≠ 0

instance (c : Char) : Decidable (Inner c) := inferInstanceAs (Decidable (_ ∧ _ ∧ _))

theorem inner_toText {e : DescriptorEntry} (h : e.WellFormed) : ∀ c ∈ e.toText, Inner c := by
  have hquotable {t : Text} (ht : Quotable t) : ∀ c ∈ t, Inner c := fun c hc => (ht c hc).2
  have hquoted {t : Text} (ht : Quotable t) : ∀ c ∈ quoted t, Inner c := by
    intro c hc
    rcases List.mem_cons.mp hc with rfl | hc
    · decide
    rcases List.mem_append.mp hc with hc | hc
    · exact hquotable ht c hc
    · rw [List.mem_singleton.mp hc]
      decide
  have hpadded {radix width n : Nat} (hr : 1 < radix) (hr' : radix ≤ 16) :
      ∀ c ∈ padded radix width n, Inner c := by
    intro c hc
    have hmarks := (mem_padded hr hr' hc).2
    refine ⟨?_, ?_, fun h0 => hmarks ?_⟩
    · rintro rfl
      exact hmarks (by decide)
    · rintro rfl
      exact hmarks (by decide)
    · rw [← Char.ofNat_toNat c, h0]
      decide
  have hdigits (n : Nat) : ∀ c ∈ Nat.toDigits 10 n, Inner c := by
    rw [← padded_zero]
    exact hpadded (by decide) (by decide)
  cases e with
  | comment text => exact List.forall_mem_cons.mpr ⟨by decide, hquotable h⟩
  | version value => exact List.forall_mem_append.mpr ⟨by decide, hdigits value⟩
  | createType value => exact List.forall_mem_append.mpr ⟨by decide, hquoted h⟩
  | cid value => exact List.forall_mem_append.mpr ⟨by decide, hpadded (by decide) (by decide)⟩
  | parentCid value => exact List.forall_mem_append.mpr ⟨by decide, hpadded (by decide) (by decide)⟩
  | parentFileNameHint name => exact List.forall_mem_append.mpr ⟨by decide, hquoted h⟩
  | changeTrackPath name => exact List.forall_mem_append.mpr ⟨by decide, hquoted h⟩
  | flat ext =>
    refine List.forall_mem_append.mpr ⟨by decide, List.forall_mem_append.mpr ⟨hdigits _, ?_⟩⟩
    split
    · decide
    · exact List.forall_mem_append.mpr ⟨by decide, List.forall_mem_append.mpr ⟨hquoted h.2.1,
        List.forall_mem_cons.mpr ⟨by decide, hdigits _⟩⟩⟩
  | sparse ext =>
    exact List.forall_mem_append.mpr ⟨by decide, List.forall_mem_append.mpr
      ⟨List.forall_mem_append.mpr ⟨hdigits _, by decide⟩, hquoted h.2⟩⟩
  | ddb key value =>
    have hkey : ∀ c ∈ key, Inner c := by
      intro c hc
      obtain ⟨hspace, -, h0⟩ := h.1 c hc
      refine ⟨?_, ?_, h0⟩
      · rintro rfl
        exact absurd hspace (by decide)
      · rintro rfl
        exact absurd hspace (by decide)
    exact List.forall_mem_append.mpr ⟨by decide, List.forall_mem_append.mpr
      ⟨List.forall_mem_append.mpr ⟨hkey, by decide⟩, hquoted h.2⟩⟩

variable (h : ∀ e ∈ es, e.WellFormed)
include h

theorem lines_write (eol : LineEnd) : lines (write eol es) = es.map toText := by
  refine lines_unlines fun l hl => ?_
  obtain ⟨e, he, rfl⟩ := List.mem_map.mp hl
  have hinner := inner_toText (h e he)
  refine ⟨fun hmem => (hinner _ hmem).1 rfl, fun hlast => ?_⟩
  exact (hinner _ (List.mem_of_getLast? hlast)).2.1 rfl

theorem cleanText_write (eol : LineEnd) : cleanText (write eol es) = write eol es := by
  refine List.takeWhile_eq_self_iff.mpr fun c hc => ?_
  obtain ⟨l, hl, hc⟩ := List.mem_flatMap.mp hc
  obtain ⟨e, he, rfl⟩ := List.mem_map.mp hl
  rcases List.mem_append.mp hc with hc | hc
  · simpa using (inner_toText (h e he) c hc).2.2
  · have hend : ∀ c ∈ eol.text, (c.toNat != 0) = true := by cases eol <;> decide
    exact hend c hc

/-- **The parser reads what was written**: it adds up what the entries say. -/
theorem parse_write (eol : LineEnd) : parseTextDescriptor (write eol es) =
    (es.map line).foldlM TextDescriptor.add (TextDescriptor.empty (write eol es)) := by
  have hfold (d : TextDescriptor) : (es.map toText).foldlM TextDescriptor.parseLine d =
      (es.map line).foldlM TextDescriptor.add d := by
    induction es generalizing d with
    | nil => rfl
    | cons e es ih =>
      obtain ⟨he, hes⟩ := List.forall_mem_cons.mp h
      rw [List.map_cons, List.map_cons, List.foldlM_cons, List.foldlM_cons,
        TextDescriptor.parseLine_eq, lineOf_toText he]
      exact congrArg _ (funext fun d' => ih hes d')
  unfold parseTextDescriptor
  rw [cleanText_write h, lines_write h, hfold]

theorem findSome?_write {α : Type} {f : Text → Option α} {g : DescriptorEntry → Option α}
    (hfg : ∀ e : DescriptorEntry, e.WellFormed → f e.toText = g e) (eol : LineEnd) :
    (lines (write eol es)).findSome? f = es.findSome? g := by
  rw [lines_write h]
  induction es with
  | nil => rfl
  | cons e es ih =>
    obtain ⟨he, hes⟩ := List.forall_mem_cons.mp h
    rw [List.map_cons, List.findSome?_cons, List.findSome?_cons, hfg e he, ih hes]

theorem parentHint_write (eol : LineEnd) : VmdkChainReader.extractParentFileName (write eol es) =
    (es.findSome? hint?).getD [] := by
  unfold VmdkChainReader.extractParentFileName
  rw [findSome?_write h (fun _ he => hint_toText he) eol]

theorem changeTrackPath_write (eol : LineEnd) :
    changeTrackPathIn (write eol es) = es.findSome? track? :=
  findSome?_write h (fun _ he => track_toText he) eol

theorem pairs_write (eol : LineEnd) : DiskDatabase.pairs (write eol es) = es.filterMap ddb? := by
  unfold DiskDatabase.pairs
  rw [lines_write h, List.filterMap_map]
  exact List.filterMap_congr fun e he => entryOf_toText (h e he)

end DescriptorEntry

/-! ## The disk database -/

namespace DiskDatabase

/-- The fields that have a key, each with the text of its value. -/
def fieldTexts (db : DiskDatabase) : List (String × Option Text) :=
  [("adapterType", db.adapterType),
    ("geometry.cylinders", db.geometry.map fun g => Nat.toDigits 10 g.cylinders),
    ("geometry.heads", db.geometry.map fun g => Nat.toDigits 10 g.heads),
    ("geometry.sectors", db.geometry.map fun g => Nat.toDigits 10 g.sectors),
    ("geometry.biosCylinders", db.biosGeometry.map fun g => Nat.toDigits 10 g.cylinders),
    ("geometry.biosHeads", db.biosGeometry.map fun g => Nat.toDigits 10 g.heads),
    ("geometry.biosSectors", db.biosGeometry.map fun g => Nat.toDigits 10 g.sectors),
    ("virtualHWVersion", db.virtualHwVersion), ("toolsVersion", db.toolsVersion), ("uuid", db.uuid),
    ("longContentID", db.longContentId),
    ("thinProvisioned", db.thinProvisioned.map fun thin => if thin then ['1'] else ['0']),
    ("encoding", db.encoding)]

/-- The pairs of a table whose value is there. -/
def present (table : List (String × Option Text)) : List (Text × Text) :=
  table.filterMap fun e => e.2.map fun v => (e.1.toList, v)

/-- The lines that a database is written in. -/
def toPairs (db : DiskDatabase) : List (Text × Text) := present db.fieldTexts

variable {db : DiskDatabase}

theorem present_none (k : String) (table : List (String × Option Text)) :
    present ((k, none) :: table) = present table := rfl

theorem present_some (k : String) (v : Text) (table : List (String × Option Text)) :
    present ((k, some v) :: table) = (k.toList, v) :: present table := rfl

/-- A geometry whose numbers are `u32`. -/
def GeometryFits (g : DiskGeometry) : Prop :=
  g.cylinders < 2 ^ 32 ∧ g.heads < 2 ^ 32 ∧ g.sectors < 2 ^ 32

theorem find?_present {table : List (String × Option Text)} {k : String} (h : k ∉ table.map Prod.fst) :
    first (present table) k = none := by
  unfold first present
  rw [Option.map_eq_none_iff, List.find?_eq_none]
  intro e he hkey
  obtain ⟨row, hrow, hsome⟩ := List.mem_filterMap.mp he
  obtain ⟨v, -, rfl⟩ := Option.map_eq_some_iff.mp hsome
  refine h (List.mem_map.mpr ⟨row, hrow, ?_⟩)
  exact String.toList_inj.mp (beq_iff_eq.mp hkey)

/-- Each key of a table without repetitions has its value. -/
theorem first_present {table : List (String × Option Text)} (hnodup : (table.map Prod.fst).Nodup)
    {k : String} {v : Option Text} (hmem : (k, v) ∈ table) : first (present table) k = v := by
  induction table with
  | nil => cases hmem
  | cons row table ih =>
    obtain ⟨hnew, hrest⟩ := List.nodup_cons.mp hnodup
    obtain ⟨k', v'⟩ := row
    rcases List.mem_cons.mp hmem with heq | htail
    · cases heq
      cases v with
      | none =>
        rw [present_none]
        exact find?_present hnew
      | some v =>
        unfold first
        rw [present_some, List.find?_cons_of_pos (by simp)]
        rfl
    · have hne : k' ≠ k := by
        rintro rfl
        exact hnew (List.mem_map.mpr ⟨(k', v), htail, rfl⟩)
      cases v' with
      | none =>
        rw [present_none]
        exact ih hrest htail
      | some v' =>
        have hkey : ¬ ((k'.toList == k.toList) = true) := fun h =>
          hne (String.toList_inj.mp (beq_iff_eq.mp h))
        unfold first
        rw [present_some, List.find?_cons_of_neg (a := (k'.toList, v')) hkey]
        exact ih hrest htail

theorem keys_present (table : List (String × Option Text)) :
    ((present table).map Prod.fst).Sublist ((table.map Prod.fst).map String.toList) := by
  induction table with
  | nil => exact List.Sublist.slnil
  | cons row table ih =>
    obtain ⟨k, v⟩ := row
    cases v with
    | none => exact ih.cons _
    | some v => exact ih.cons_cons _

theorem last_present {table : List (String × Option Text)} (hnodup : (table.map Prod.fst).Nodup)
    {k : String} {v : Option Text} (hmem : (k, v) ∈ table) : last (present table) k = v := by
  have hkeys : ((table.map Prod.fst).map String.toList).Nodup :=
    hnodup.map fun a b h => String.toList_inj.mp h
  rw [last_eq_first (hkeys.sublist (keys_present table)), first_present hnodup hmem]

theorem number_digits {o : Option DiskGeometry} {f : DiskGeometry → Nat}
    (h : ∀ g ∈ o, f g < 2 ^ 32) : number (o.map fun g => Nat.toDigits 10 (f g)) = o.map f := by
  cases o with
  | none => rfl
  | some g => exact parseUnsigned_toDigits (by decide) (by decide) (h g rfl)

theorem geometryOf_map (o : Option DiskGeometry) :
    geometryOf (o.map DiskGeometry.cylinders) (o.map DiskGeometry.heads)
      (o.map DiskGeometry.sectors) = o := by
  cases o <;> rfl

theorem thinBy_text (o : Option Bool) :
    thinBy (o.map fun thin => if thin then ['1'] else ['0']) = o := by
  cases o with
  | none => rfl
  | some thin => cases thin <;> rfl

/-- **A database whose pairs are in a text is parsed from it**, each field from its pairs. -/
theorem parse_of_pairs {text : Text} (hpairs : pairs text = db.toPairs)
    (hgeometry : ∀ g ∈ db.geometry, GeometryFits g) (hbios : ∀ g ∈ db.biosGeometry, GeometryFits g) :
    parse text = { db with entries := db.toPairs.map fun e => ("ddb.".toList ++ e.1, e.2) } := by
  have hnodup : (db.fieldTexts.map Prod.fst).Nodup := by
    show List.Nodup ["adapterType", "geometry.cylinders", "geometry.heads", "geometry.sectors",
      "geometry.biosCylinders", "geometry.biosHeads", "geometry.biosSectors", "virtualHWVersion",
      "toolsVersion", "uuid", "longContentID", "thinProvisioned", "encoding"]
    decide
  have hlast {k : String} {v : Option Text} (hmem : (k, v) ∈ db.fieldTexts) :
      last (pairs text) k = v := by
    rw [hpairs]
    exact last_present hnodup hmem
  have hnumber {k : String} {o : Option DiskGeometry} {f : DiskGeometry → Nat}
      (hmem : (k, o.map fun g => Nat.toDigits 10 (f g)) ∈ db.fieldTexts)
      (hfits : ∀ g ∈ o, f g < 2 ^ 32) : number (last (pairs text) k) = o.map f := by
    rw [hlast hmem, number_digits hfits]
  have hgeom : geometryBy (last (pairs text)) "geometry.cylinders" "geometry.heads"
      "geometry.sectors" = db.geometry := by
    unfold geometryBy
    rw [hnumber (f := DiskGeometry.cylinders) (by simp [fieldTexts]) fun g hg => (hgeometry g hg).1,
      hnumber (f := DiskGeometry.heads) (by simp [fieldTexts]) fun g hg => (hgeometry g hg).2.1,
      hnumber (f := DiskGeometry.sectors) (by simp [fieldTexts]) fun g hg => (hgeometry g hg).2.2,
      geometryOf_map]
  have hbiosGeom : geometryBy (last (pairs text)) "geometry.biosCylinders"
      "geometry.biosHeads" "geometry.biosSectors" = db.biosGeometry := by
    unfold geometryBy
    rw [hnumber (f := DiskGeometry.cylinders) (by simp [fieldTexts]) fun g hg => (hbios g hg).1,
      hnumber (f := DiskGeometry.heads) (by simp [fieldTexts]) fun g hg => (hbios g hg).2.1,
      hnumber (f := DiskGeometry.sectors) (by simp [fieldTexts]) fun g hg => (hbios g hg).2.2,
      geometryOf_map]
  have hthin : thinBy (last (pairs text) "thinProvisioned") = db.thinProvisioned := by
    rw [hlast (v := db.thinProvisioned.map fun thin => if thin then ['1'] else ['0'])
      (by simp [fieldTexts]), thinBy_text]
  have hparse : parse text = {
      adapterType := last (pairs text) "adapterType"
      geometry := geometryBy (last (pairs text)) "geometry.cylinders" "geometry.heads"
        "geometry.sectors"
      biosGeometry := geometryBy (last (pairs text)) "geometry.biosCylinders"
        "geometry.biosHeads" "geometry.biosSectors"
      virtualHwVersion := last (pairs text) "virtualHWVersion"
      toolsVersion := last (pairs text) "toolsVersion"
      uuid := last (pairs text) "uuid"
      longContentId := last (pairs text) "longContentID"
      thinProvisioned := thinBy (last (pairs text) "thinProvisioned")
      encoding := last (pairs text) "encoding"
      entries := (pairs text).map fun e => ("ddb.".toList ++ e.1, e.2) } := rfl
  rw [hparse, hgeom, hbiosGeom, hthin, hlast (v := db.adapterType) (by simp [fieldTexts]),
    hlast (v := db.virtualHwVersion) (by simp [fieldTexts]),
    hlast (v := db.toolsVersion) (by simp [fieldTexts]), hlast (v := db.uuid) (by simp [fieldTexts]),
    hlast (v := db.longContentId) (by simp [fieldTexts]),
    hlast (v := db.encoding) (by simp [fieldTexts]), hpairs]

end DiskDatabase

/-! ## Descriptors -/

/-- A descriptor: what its file says of the disk, its parent and its extents. -/
structure DescriptorDoc where
  createType : Text
  cid : Nat
  parentCid : Nat
  parentFileNameHint : Option Text
  changeTrackPath : Option Text
  extents : List (ExtentEntry ⊕ SparseEntry)
  ddb : List (Text × Text)
deriving DecidableEq, Repr

namespace DescriptorDoc
variable {d : DescriptorDoc}

/-- The line of an extent. -/
def extentEntry (ext : ExtentEntry ⊕ SparseEntry) : DescriptorEntry := ext.elim .flat .sparse

def flatExtents (d : DescriptorDoc) : List ExtentEntry := d.extents.filterMap Sum.getLeft?

def sparseExtents (d : DescriptorDoc) : List SparseEntry := d.extents.filterMap Sum.getRight?

/-- The lines, in the order in which VMware writes them. -/
def entries (d : DescriptorDoc) : List DescriptorEntry :=
  [.comment " Disk DescriptorFile".toList, .version 1, .cid d.cid, .parentCid d.parentCid] ++
    (d.parentFileNameHint.toList.map .parentFileNameHint ++ (.createType d.createType ::
      (d.changeTrackPath.toList.map .changeTrackPath ++ (d.extents.map extentEntry ++
        d.ddb.map fun e => .ddb e.1 e.2))))

def text (d : DescriptorDoc) (eol : LineEnd) : Text := DescriptorEntry.write eol d.entries

/-- Every line can be written, and the capacities can be summed up. -/
structure WellFormed (d : DescriptorDoc) : Prop where
  createType : Quotable d.createType
  cid : d.cid < 2 ^ 32
  parentCid : d.parentCid < 2 ^ 32
  hint : ∀ name ∈ d.parentFileNameHint, Quotable name
  track : ∀ name ∈ d.changeTrackPath, Quotable name ∧ name ≠ []
  extents : ∀ ext ∈ d.extents, (extentEntry ext).WellFormed
  ddb : ∀ e ∈ d.ddb, (DescriptorEntry.ddb e.1 e.2).WellFormed
  flatFits : (d.flatExtents.map ExtentEntry.sizeSectors).sum < u64Size
  sparseFits : (d.sparseExtents.map SparseEntry.sizeSectors).sum < u64Size

theorem WellFormed.entries (h : d.WellFormed) : ∀ e ∈ d.entries, e.WellFormed := by
  unfold DescriptorDoc.entries
  simp only [List.forall_mem_append, List.forall_mem_cons, List.forall_mem_map]
  refine ⟨⟨by decide, trivial, h.cid, h.parentCid, by simp⟩, ?_, h.createType, ?_, h.extents, h.ddb⟩
  · exact fun name hname => h.hint name (Option.mem_toList.mp hname)
  · exact fun name hname => (h.track name (Option.mem_toList.mp hname)).1

/-- Lines that mean nothing to the parser. -/
theorem fold_other {ls : List DescriptorLine} (h : ∀ l ∈ ls, l = .other) (d : TextDescriptor) :
    ls.foldlM TextDescriptor.add d = .ok d := by
  induction ls with
  | nil => rfl
  | cons l ls ih =>
    obtain ⟨rfl, hls⟩ := List.forall_mem_cons.mp h
    exact ih hls

/-- **Extent lines add up**, each list in its order. -/
theorem fold_extents (exts : List (ExtentEntry ⊕ SparseEntry)) (d : TextDescriptor)
    (hflat : d.capacitySectors +
      ((exts.filterMap Sum.getLeft?).map ExtentEntry.sizeSectors).sum < u64Size)
    (hsparse : d.sparseCapacitySectors +
      ((exts.filterMap Sum.getRight?).map SparseEntry.sizeSectors).sum < u64Size) :
    (exts.map fun ext => (extentEntry ext).line).foldlM TextDescriptor.add d = .ok { d with
      extents := d.extents ++ exts.filterMap Sum.getLeft?
      sparseExtents := d.sparseExtents ++ exts.filterMap Sum.getRight?
      capacitySectors := d.capacitySectors +
        ((exts.filterMap Sum.getLeft?).map ExtentEntry.sizeSectors).sum
      sparseCapacitySectors := d.sparseCapacitySectors +
        ((exts.filterMap Sum.getRight?).map SparseEntry.sizeSectors).sum } := by
  induction exts generalizing d with
  | nil => simp [pure, Except.pure]
  | cons ext exts ih =>
    cases ext with
    | inl ext =>
      simp only [List.filterMap_cons, Sum.getLeft?, Sum.getRight?, List.map_cons, List.sum_cons]
        at hflat hsparse ⊢
      let added : TextDescriptor := { d with
        capacitySectors := d.capacitySectors + ext.sizeSectors
        extents := d.extents ++ [ext] }
      have hadd : d.addFlat ext = .ok added := by
        unfold TextDescriptor.addFlat checkedAdd
        rw [if_pos (by omega)]
      show (d.addFlat ext >>= _) = _
      rw [hadd]
      refine (ih added (by show d.capacitySectors + ext.sizeSectors + _ < _; omega) hsparse).trans ?_
      simp only [added, List.append_assoc, List.singleton_append, Nat.add_assoc]
    | inr ext =>
      simp only [List.filterMap_cons, Sum.getLeft?, Sum.getRight?, List.map_cons, List.sum_cons]
        at hflat hsparse ⊢
      let added : TextDescriptor := { d with
        sparseCapacitySectors := d.sparseCapacitySectors + ext.sizeSectors
        sparseExtents := d.sparseExtents ++ [ext] }
      have hadd : d.addSparse ext = .ok added := by
        unfold TextDescriptor.addSparse checkedAdd
        rw [if_pos (by omega)]
      show (d.addSparse ext >>= _) = _
      rw [hadd]
      refine (ih added hflat (by show d.sparseCapacitySectors + ext.sizeSectors + _ < _; omega)).trans ?_
      simp only [added, List.append_assoc, List.singleton_append, Nat.add_assoc]

/-- What the parser makes of the descriptor. -/
def parsed (d : DescriptorDoc) (eol : LineEnd) : TextDescriptor where
  createType := d.createType
  cid := d.cid
  parentCid := d.parentCid
  rawText := d.text eol
  extents := d.flatExtents
  sparseExtents := d.sparseExtents
  capacitySectors := (d.flatExtents.map ExtentEntry.sizeSectors).sum
  sparseCapacitySectors := (d.sparseExtents.map SparseEntry.sizeSectors).sum

theorem parse_text (h : d.WellFormed) (eol : LineEnd) :
    parseTextDescriptor (d.text eol) = .ok (d.parsed eol) := by
  have hother {α : Type} (f : α → DescriptorEntry) (hf : ∀ a, (f a).line = .other) (as : List α)
      (desc : TextDescriptor) :
      ((as.map f).map DescriptorEntry.line).foldlM TextDescriptor.add desc = .ok desc := by
    refine fold_other (fun l hl => ?_) desc
    rw [List.map_map] at hl
    obtain ⟨a, -, rfl⟩ := List.mem_map.mp hl
    exact hf a
  have hextents (desc : TextDescriptor) (hcapacity : desc.capacitySectors = 0)
      (hsparse : desc.sparseCapacitySectors = 0) :=
    fold_extents d.extents desc (by rw [hcapacity, Nat.zero_add]; exact h.flatFits)
      (by rw [hsparse, Nat.zero_add]; exact h.sparseFits)
  let named : TextDescriptor :=
    { TextDescriptor.empty (d.text eol) with cid := d.cid, parentCid := d.parentCid }
  let typed : TextDescriptor := { named with createType := d.createType }
  have hentries : d.entries.map DescriptorEntry.line = [.other, .other, .cid d.cid,
      .parentCid d.parentCid] ++ ((d.parentFileNameHint.toList.map
        DescriptorEntry.parentFileNameHint).map DescriptorEntry.line ++ ([.createType d.createType] ++
          ((d.changeTrackPath.toList.map DescriptorEntry.changeTrackPath).map DescriptorEntry.line ++
            (d.extents.map (fun ext => (extentEntry ext).line) ++
              (d.ddb.map fun e => DescriptorEntry.ddb e.1 e.2).map DescriptorEntry.line)))) := by
    unfold DescriptorDoc.entries
    simp only [List.map_append, List.map_cons, List.map_map, List.map_nil]
    rfl
  unfold text
  rw [DescriptorEntry.parse_write h.entries, hentries, List.foldlM_append]
  show List.foldlM TextDescriptor.add named _ = _
  rw [List.foldlM_append, hother _ fun _ => rfl]
  show List.foldlM TextDescriptor.add named ([.createType d.createType] ++ _) = _
  rw [List.foldlM_append]
  show List.foldlM TextDescriptor.add typed _ = _
  rw [List.foldlM_append, hother _ fun _ => rfl]
  show List.foldlM TextDescriptor.add typed _ = _
  rw [List.foldlM_append, hextents typed rfl rfl]
  refine (hother (fun e : Text × Text => .ddb e.1 e.2) (fun _ => rfl) d.ddb _).trans ?_
  unfold parsed
  simp only [typed, named, TextDescriptor.empty, Nat.zero_add, List.nil_append]
  rfl

/-- Where the readers of single values look: the lines that are not theirs say nothing to them. -/
theorem findSome?_entries {α : Type} {g : DescriptorEntry → Option α} (d : DescriptorDoc)
    (hcomment : ∀ t, g (.comment t) = none) (hversion : ∀ n, g (.version n) = none)
    (hcid : ∀ n, g (.cid n) = none) (hparent : ∀ n, g (.parentCid n) = none)
    (htype : ∀ t, g (.createType t) = none) (hext : ∀ ext, g (extentEntry ext) = none)
    (hddb : ∀ k v, g (.ddb k v) = none) :
    d.entries.findSome? g = (d.parentFileNameHint.bind fun name => g (.parentFileNameHint name)).or
      (d.changeTrackPath.bind fun name => g (.changeTrackPath name)) := by
  have hexts : (d.extents.map extentEntry).findSome? g = none := by
    refine List.findSome?_eq_none_iff.mpr fun e he => ?_
    obtain ⟨ext, -, rfl⟩ := List.mem_map.mp he
    exact hext ext
  have hddbs : (d.ddb.map fun e => DescriptorEntry.ddb e.1 e.2).findSome? g = none := by
    refine List.findSome?_eq_none_iff.mpr fun e he => ?_
    obtain ⟨kv, -, rfl⟩ := List.mem_map.mp he
    exact hddb _ _
  have hoption (f : Text → DescriptorEntry) (o : Option Text) :
      (o.toList.map f).findSome? g = o.bind fun name => g (f name) := by
    cases o with
    | none => rfl
    | some name =>
      show [f name].findSome? g = _
      rw [List.findSome?_cons]
      cases hg : g (f name) <;> simp [hg]
  unfold entries
  simp only [List.findSome?_append, List.findSome?_cons, List.findSome?_nil, hcomment, hversion, hcid,
    hparent, htype, hoption, hexts, hddbs, Option.none_or, Option.or_none]

theorem parentHint_text (h : d.WellFormed) (eol : LineEnd) :
    VmdkChainReader.extractParentFileName (d.text eol) = d.parentFileNameHint.getD [] := by
  unfold text
  rw [DescriptorEntry.parentHint_write h.entries, d.findSome?_entries (fun _ => rfl) (fun _ => rfl)
    (fun _ => rfl) (fun _ => rfl) (fun _ => rfl) (fun ext => by cases ext <;> rfl) fun _ _ => rfl]
  cases d.parentFileNameHint <;> cases d.changeTrackPath <;> rfl

theorem changeTrackPath_text (h : d.WellFormed) (eol : LineEnd) :
    changeTrackPathIn (d.text eol) = d.changeTrackPath := by
  unfold text
  rw [DescriptorEntry.changeTrackPath_write h.entries, d.findSome?_entries (fun _ => rfl)
    (fun _ => rfl) (fun _ => rfl) (fun _ => rfl) (fun _ => rfl) (fun ext => by cases ext <;> rfl)
    fun _ _ => rfl]
  have htrack := h.track
  cases hname : d.changeTrackPath with
  | none => cases d.parentFileNameHint <;> rfl
  | some name =>
    have hne : name.isEmpty = false := by
      rw [List.isEmpty_eq_false_iff]
      exact (htrack name hname).2
    have hg : (DescriptorEntry.changeTrackPath name).track? = some name := by
      show (if name.isEmpty = true then none else some name) = _
      rw [hne]
      rfl
    rw [Option.bind_some, hg]
    cases d.parentFileNameHint <;> rfl

theorem pairs_text (h : d.WellFormed) (eol : LineEnd) : DiskDatabase.pairs (d.text eol) = d.ddb := by
  have hexts : (d.extents.map extentEntry).filterMap DescriptorEntry.ddb? = [] := by
    refine List.filterMap_eq_nil_iff.mpr fun e he => ?_
    obtain ⟨ext, -, rfl⟩ := List.mem_map.mp he
    cases ext <;> rfl
  have hddbs : (d.ddb.map fun e => DescriptorEntry.ddb e.1 e.2).filterMap DescriptorEntry.ddb? =
      d.ddb := by
    rw [List.filterMap_map]
    exact List.filterMap_some
  have htype (es : List DescriptorEntry) : (.createType d.createType :: es).filterMap
      DescriptorEntry.ddb? = es.filterMap DescriptorEntry.ddb? := List.filterMap_cons_none rfl
  unfold text
  rw [DescriptorEntry.pairs_write h.entries]
  unfold entries
  rw [List.filterMap_append, List.filterMap_append, htype, List.filterMap_append,
    List.filterMap_append, hexts, hddbs]
  cases d.parentFileNameHint <;> cases d.changeTrackPath <;> rfl

/-- What every reader of a descriptor's text says of it. -/
structure ReadBack (d : DescriptorDoc) (eol : LineEnd) : Prop where
  parsed : parseTextDescriptor (d.text eol) = .ok (d.parsed eol)
  parentHint : VmdkChainReader.extractParentFileName (d.text eol) = d.parentFileNameHint.getD []
  changeTrackPath : changeTrackPathIn (d.text eol) = d.changeTrackPath
  diskDatabase : DiskDatabase.pairs (d.text eol) = d.ddb

/-- **A written descriptor is read back**, with either line end. -/
theorem readBack (h : d.WellFormed) (eol : LineEnd) : ReadBack d eol :=
  ⟨parse_text h eol, parentHint_text h eol, changeTrackPath_text h eol, pairs_text h eol⟩

end DescriptorDoc

/-- A database with the fields of a thin disk. -/
def DiskDatabase.thinDisk : DiskDatabase where
  adapterType := some "lsilogic".toList
  geometry := some ⟨16383, 16, 63⟩
  biosGeometry := none
  virtualHwVersion := some "21".toList
  toolsVersion := none
  uuid := some "60 00 C2 9f".toList
  longContentId := some "0123456789abcdef0123456789abcdef".toList
  thinProvisioned := some true
  encoding := some "UTF-8".toList
  entries := []

namespace DescriptorDoc

/-- A child disk in three extents, one of each kind. -/
def splitChild : DescriptorDoc where
  createType := "custom".toList
  cid := 0xfffffffe
  parentCid := 0x1234abcd
  parentFileNameHint := some "base disk.vmdk".toList
  changeTrackPath := some "child-ctk.vmdk".toList
  extents := [.inl ⟨128, "child-f001.vmdk".toList, 512, false⟩, .inl ⟨64, [], 0, true⟩,
    .inr ⟨4192256, "child-s003.vmdk".toList⟩]
  ddb := DiskDatabase.thinDisk.toPairs

theorem wellFormed_splitChild : splitChild.WellFormed where
  createType := by decide +kernel
  cid := by decide
  parentCid := by decide
  hint := by decide +kernel
  track := by decide +kernel
  extents := by decide +kernel
  ddb := by decide +kernel
  flatFits := by decide
  sparseFits := by decide

theorem readBack_splitChild : ReadBack splitChild .crlf := readBack wellFormed_splitChild .crlf

end DescriptorDoc

namespace DiskDatabase
variable {db : DiskDatabase}

/-- **A written disk database is read back**, each field from its lines. -/
theorem parse_toPairs {d : DescriptorDoc} (hd : d.WellFormed) (hddb : d.ddb = db.toPairs)
    (hgeometry : ∀ g ∈ db.geometry, GeometryFits g) (hbios : ∀ g ∈ db.biosGeometry, GeometryFits g)
    (eol : LineEnd) : parse (d.text eol) =
      { db with entries := db.toPairs.map fun e => ("ddb.".toList ++ e.1, e.2) } :=
  parse_of_pairs ((DescriptorDoc.pairs_text hd eol).trans hddb) hgeometry hbios

theorem parse_toPairs_thinDisk : parse (DescriptorDoc.splitChild.text .lf) =
    { thinDisk with entries := thinDisk.toPairs.map fun e => ("ddb.".toList ++ e.1, e.2) } :=
  parse_toPairs DescriptorDoc.wellFormed_splitChild rfl
    (by intro g hg; cases hg; unfold GeometryFits; decide) (by intro g hg; cases hg) .lf

end DiskDatabase
