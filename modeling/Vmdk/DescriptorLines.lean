import Vmdk.Descriptor

/-! # The lines of a descriptor

`lineOf` says what one line is to the parser, apart from the lines before it.
A parsed descriptor is what its lines add, one after the other: each list of
extents is the lines of its kind in file order (`parseTextDescriptor_lines`). -/

open Text Word

/-- What a line is to the parser. -/
inductive DescriptorLine where
  /-- Blank, a comment, or none of the others. -/
  | other
  | createType (value : Text)
  | cid (value : Nat)
  | parentCid (value : Nat)
  | flat (ext : ExtentEntry)
  | sparse (ext : SparseEntry)
deriving DecidableEq, Repr

namespace DescriptorLine

def flat? : DescriptorLine → Option ExtentEntry
  | .flat ext => some ext
  | _ => none

def sparse? : DescriptorLine → Option SparseEntry
  | .sparse ext => some ext
  | _ => none

end DescriptorLine

/-- The parser's decisions about a line, in its order. -/
def lineOf (line : Text) : DescriptorLine :=
  let line := trim line
  if line.head? = some '#' ∨ line.isEmpty then .other else
  match stripPrefix "createType=".toList line with
  | some rest => .createType (trimMatches '"' rest)
  | none =>
  match stripPrefix "CID=".toList line with
  | some rest => .cid (TextDescriptor.parseCid rest)
  | none =>
  match stripPrefix "parentCID=".toList line with
  | some rest => .parentCid (TextDescriptor.parseCid rest)
  | none =>
  match tryParseFlatExtent line with
  | some ext => .flat ext
  | none =>
  match tryParseSparseExtent line with
  | some ext => .sparse ext
  | none => .other

namespace TextDescriptor
variable {d d' desc : TextDescriptor} {line text : Text}

def add (d : TextDescriptor) : DescriptorLine → Except VmdkError TextDescriptor
  | .other => .ok d
  | .createType value => .ok { d with createType := value }
  | .cid value => .ok { d with cid := value }
  | .parentCid value => .ok { d with parentCid := value }
  | .flat ext => d.addFlat ext
  | .sparse ext => d.addSparse ext

theorem parseLine_eq (d : TextDescriptor) (line : Text) : d.parseLine line = d.add (lineOf line) := by
  unfold parseLine lineOf
  simp only
  split
  · rfl
  cases stripPrefix "createType=".toList (trim line) with
  | some rest => rfl
  | none =>
    cases stripPrefix "CID=".toList (trim line) with
    | some rest => rfl
    | none =>
      cases stripPrefix "parentCID=".toList (trim line) with
      | some rest => rfl
      | none =>
        cases tryParseFlatExtent (trim line) with
        | some ext => rfl
        | none =>
          cases tryParseSparseExtent (trim line) with
          | some ext => rfl
          | none => rfl

/-- What `desc` has beyond `d`, where lines `ls` were added to `d`. -/
structure Extends (d desc : TextDescriptor) (ls : List Text) : Prop where
  rawText : desc.rawText = d.rawText
  extents : desc.extents = d.extents ++ ls.filterMap fun l => (lineOf l).flat?
  sparseExtents : desc.sparseExtents = d.sparseExtents ++ ls.filterMap fun l => (lineOf l).sparse?

theorem add_extends (h : d.add (lineOf line) = .ok d') : Extends d d' [line] := by
  cases hline : lineOf line with
  | flat ext =>
    rw [hline] at h
    rw [addFlat_ok h]
    exact ⟨rfl, by simp [hline, DescriptorLine.flat?], by simp [hline, DescriptorLine.sparse?]⟩
  | sparse ext =>
    rw [hline] at h
    rw [addSparse_ok h]
    exact ⟨rfl, by simp [hline, DescriptorLine.flat?], by simp [hline, DescriptorLine.sparse?]⟩
  | _ =>
    rw [hline] at h
    cases h
    exact ⟨rfl, by simp [hline, DescriptorLine.flat?], by simp [hline, DescriptorLine.sparse?]⟩

theorem fold_extends {ls : List Text} (h : ls.foldlM parseLine d = .ok desc) : Extends d desc ls := by
  induction ls generalizing d with
  | nil =>
    cases h
    exact ⟨rfl, (List.append_nil _).symm, (List.append_nil _).symm⟩
  | cons line ls ih =>
    rw [List.foldlM_cons] at h
    obtain ⟨d', hline, hrest⟩ := bind_eq_ok.mp h
    rw [parseLine_eq] at hline
    have hfirst := add_extends hline
    have hthen := ih hrest
    refine ⟨hthen.rawText.trans hfirst.rawText, ?_, ?_⟩
    · rw [hthen.extents, hfirst.extents, List.append_assoc, ← List.filterMap_append]
      rfl
    · rw [hthen.sparseExtents, hfirst.sparseExtents, List.append_assoc, ← List.filterMap_append]
      rfl

end TextDescriptor

/-- **A descriptor lists the extents of its lines**, each kind in file order. -/
theorem parseTextDescriptor_lines {text : Text} {desc : TextDescriptor}
    (h : parseTextDescriptor text = .ok desc) :
    desc.rawText = cleanText text ∧
      desc.extents = (lines (cleanText text)).filterMap (fun l => (lineOf l).flat?) ∧
      desc.sparseExtents = (lines (cleanText text)).filterMap (fun l => (lineOf l).sparse?) := by
  have hext := TextDescriptor.fold_extends h
  exact ⟨hext.rawText, hext.extents, hext.sparseExtents⟩
