import Vmdk.Lib.Text

/-! # Unix paths as the standard library reads them

A path is its text. `components` drops empty and `.` components except a leading
`.`; `join` replaces the base when the other path is absolute. There is no prefix
component on Unix. A relative path without `..` joined to a directory stays
inside it (`within_join`). -/

abbrev FilePath := Text

namespace FilePath

inductive Component where
  | rootDir
  | curDir
  | parentDir
  | normal (name : Text)
deriving DecidableEq, Repr

/-- The component a segment between two separators is, if it is one. -/
def segment (s : Text) : Option Component :=
  if s = [] ∨ s = ['.'] then none
  else if s = ['.', '.'] then some .parentDir
  else some (.normal s)

/-- The component the first segment is: the root when it is empty and a separator follows. -/
def firstSegment (s : Text) (last : Bool) : Option Component :=
  if s = [] then (if last then none else some .rootDir)
  else if s = ['.'] then some .curDir
  else segment s

def ofSegments : List Text → List Component
  | [] => []
  | s :: rest => (firstSegment s rest.isEmpty).toList ++ rest.filterMap segment

def components (p : FilePath) : List Component := ofSegments (p.splitOn '/')

def join (base rel : FilePath) : FilePath :=
  if rel.head? = some '/' then rel
  else if base = [] ∨ base.getLast? = some '/' then base ++ rel
  else base ++ '/' :: rel

/-- Drop the segments at the end that are no component; the first one stays. -/
def trimSegments : List Text → List Text
  | [] => []
  | s :: rest => s :: (rest.reverse.dropWhile fun t => (segment t).isNone).reverse

/-- The path without its last component; `none` for the root and the empty path. -/
def parent (p : FilePath) : Option FilePath :=
  match trimSegments (p.splitOn '/') with
  | [s] => if s = [] then none else some []
  | segs =>
    let rest := trimSegments segs.dropLast
    some (if rest = [[]] then ['/'] else List.intercalate ['/'] rest)

/-- The components that lead out of a directory. -/
def Component.escapes : Component → Bool
  | .parentDir => true
  | .rootDir => true
  | _ => false

/-- `p` lies lexically inside `dir`: below it there are plain names only. -/
def Within (dir p : FilePath) : Prop :=
  ∃ below, components p = components dir ++ below ∧ ∀ c ∈ below, c.escapes = false

theorem ofSegments_append {l m : List Text} (hl : 2 ≤ l.length) :
    ofSegments (l ++ m) = ofSegments l ++ m.filterMap segment := by
  match l, hl with
  | s :: t :: rest, _ =>
    have hf : (t :: (rest ++ m)).filterMap segment =
        (t :: rest).filterMap segment ++ m.filterMap segment :=
      List.filterMap_append (l := t :: rest)
    simp [ofSegments, hf]

theorem ofSegments_cons_append {s : Text} {m : List Text} (hs : s ≠ []) :
    ofSegments (s :: m) = ofSegments [s] ++ m.filterMap segment := by
  simp [ofSegments, firstSegment, hs]

/-- The segments of a relative path that does not escape are plain components. -/
theorem filterMap_segment_confined {rel : FilePath}
    (h : (components rel).any Component.escapes = false) :
    ∀ c ∈ (rel.splitOn '/').filterMap segment, c.escapes = false := by
  intro c hc
  obtain ⟨s, hs, hseg⟩ := List.mem_filterMap.mp hc
  unfold components ofSegments at h
  cases hsplit : rel.splitOn '/' with
  | nil => rw [hsplit] at hs; cases hs
  | cons first rest =>
    rw [hsplit] at h hs
    simp only [List.any_append, Bool.or_eq_false_iff] at h
    rcases List.mem_cons.mp hs with rfl | hmem
    · have hf : firstSegment s rest.isEmpty = some c := by
        unfold firstSegment
        split
        · next h0 => simp [segment, h0] at hseg
        · split
          · next h1 => simp [segment, h1] at hseg
          · exact hseg
      simpa [hf] using h.1
    · have := List.any_eq_false.mp h.2 c (List.mem_filterMap.mpr ⟨s, hmem, hseg⟩)
      simpa using this

theorem not_absolute_of_confined {rel : FilePath}
    (h : (components rel).any Component.escapes = false) : rel.head? ≠ some '/' := by
  intro habs
  obtain ⟨rest, rfl⟩ : ∃ rest, rel = '/' :: rest := by
    cases rel with
    | nil => cases habs
    | cons c cs => simp only [List.head?_cons, Option.some.injEq] at habs; exact ⟨cs, by rw [habs]⟩
  have hsplit : ('/' :: rest : Text).splitOn '/' = [] :: rest.splitOn '/' := by
    simpa using List.splitOn_append_cons_self (a := '/') ([] : Text) rest
  have hne : (rest.splitOn '/').isEmpty = false := by
    simp
  simp [components, ofSegments, hsplit, firstSegment, hne, Component.escapes] at h

/-- **A name without root and `..` components, joined to a directory, stays inside it.** -/
theorem within_join {dir rel : FilePath} (h : (components rel).any Component.escapes = false) :
    Within dir (join dir rel) := by
  have hrel := not_absolute_of_confined h
  unfold join
  rw [if_neg hrel]
  split
  · next hd =>
    rcases hd with rfl | hlast
    · refine ⟨components rel, ?_, ?_⟩
      · simp [components, ofSegments, firstSegment, List.splitOn_nil]
      · intro c hc
        simpa using List.any_eq_false.mp h c hc
    · obtain ⟨base, rfl⟩ : ∃ base, dir = base ++ ['/'] := by
        obtain ⟨base, hb⟩ := List.getLast?_eq_some_iff.mp hlast
        exact ⟨base, hb⟩
      refine ⟨(rel.splitOn '/').filterMap segment, ?_, filterMap_segment_confined h⟩
      have h1 : (base ++ ['/'] ++ rel).splitOn '/' = base.splitOn '/' ++ rel.splitOn '/' := by
        rw [List.append_assoc]
        exact List.splitOn_append_cons_self base rel
      have h2 : (base ++ ['/']).splitOn '/' = base.splitOn '/' ++ [[]] := by
        simpa using List.splitOn_append_cons_self (a := '/') base []
      have hrs := List.splitOn_ne_nil '/' rel
      unfold components
      rw [h1, h2]
      cases hb : base.splitOn '/' with
      | nil => exact absurd hb (List.splitOn_ne_nil '/' base)
      | cons s rest =>
        have he : (rest ++ rel.splitOn '/').isEmpty = false := by
          simp [hrs]
        have he' : (rest ++ [[]] : List Text).isEmpty = false := by simp
        simp only [List.cons_append, ofSegments, he, he', List.filterMap_append,
          List.append_assoc]
        simp [segment]
  · next hd =>
    refine ⟨(rel.splitOn '/').filterMap segment, ?_, filterMap_segment_confined h⟩
    have h1 : (dir ++ '/' :: rel).splitOn '/' = dir.splitOn '/' ++ rel.splitOn '/' :=
      List.splitOn_append_cons_self dir rel
    unfold components
    rw [h1]
    cases hb : dir.splitOn '/' with
    | nil => exact absurd hb (List.splitOn_ne_nil '/' dir)
    | cons s rest =>
      cases rest with
      | cons t rest => exact ofSegments_append (by simp)
      | nil =>
        -- a directory of one segment is not empty, so its segment is not the root
        have hs : s ≠ [] := by
          intro hs
          have hjoin : ['/'].intercalate (dir.splitOn '/') = dir :=
            List.intercalate_splitOn '/'
          rw [hb, hs] at hjoin
          exact hd (Or.inl (by simpa [List.intercalate] using hjoin.symm))
        exact ofSegments_cons_append hs

end FilePath
