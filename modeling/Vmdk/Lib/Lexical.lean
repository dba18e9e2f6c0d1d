import Mathlib.Data.List.TakeWhile
import Vmdk.Lib.Path

/-! # Paths up to `.`

`names` is what a path says lexically: its components without a leading `.`.
`join` appends to them (`names_join`), and the directory of a path has all but
the last (`names_parent`). Only a path whose last segment is a name can be that
of a file. -/
namespace FilePath

/-- The components of a path but for a leading `.`. -/
def names (p : FilePath) : List Component := (components p).filter (· ≠ .curDir)

/-- What the segments of a path are, the first one not taken for the root. -/
def below (p : FilePath) : List Component := (p.splitOn '/').filterMap segment

/-- The root that a leading separator stands for. -/
def rootOf (segs : List Text) : List Component :=
  if segs.head? = some [] ∧ segs.tail ≠ [] then [.rootDir] else []

/-- The segment after the last separator. -/
def lastSegment (p : FilePath) : Text := ((p.splitOn '/').getLast?).getD []

/-- The path ends in a name. -/
def HasFileName (p : FilePath) : Prop :=
  lastSegment p ≠ [] ∧ lastSegment p ≠ ['.'] ∧ lastSegment p ≠ ['.', '.']

instance (p : FilePath) : Decidable (HasFileName p) := inferInstanceAs (Decidable (_ ∧ _ ∧ _))

variable {p base rel dir : FilePath} {s : Text} {segs rest : List Text} {c : Component}

theorem segment_ne_curDir (h : segment s = some c) : c ≠ .curDir := by
  unfold segment at h
  split_ifs at h
  · cases h
    exact fun h => by cases h
  · cases h
    exact fun h => by cases h

theorem filter_segments (segs : List Text) :
    (segs.filterMap segment).filter (· ≠ .curDir) = segs.filterMap segment := by
  refine List.filter_eq_self.mpr fun c hc => ?_
  obtain ⟨s, -, hs⟩ := List.mem_filterMap.mp hc
  exact decide_eq_true (segment_ne_curDir hs)

theorem filter_ofSegments (segs : List Text) :
    (ofSegments segs).filter (· ≠ .curDir) = rootOf segs ++ segs.filterMap segment := by
  cases segs with
  | nil => rfl
  | cons s rest =>
    rw [ofSegments, List.filter_append, filter_segments, List.filterMap_cons]
    unfold firstSegment rootOf
    by_cases hs : s = []
    · subst hs
      cases rest with
      | nil => rfl
      | cons t rest => rfl
    · have hroot : ¬ ((s :: rest).head? = some [] ∧ (s :: rest).tail ≠ []) := fun h =>
        hs (Option.some.inj h.1)
      rw [if_neg hs, if_neg hroot]
      by_cases hdot : s = ['.']
      · subst hdot
        rfl
      · rw [if_neg hdot]
        cases hseg : segment s with
        | none => rfl
        | some c =>
          have hkeep : decide (c ≠ .curDir) = true := decide_eq_true (segment_ne_curDir hseg)
          simp only [Option.toList_some, List.filter_cons, hkeep, if_true, List.filter_nil,
            List.nil_append, List.cons_append]

theorem names_eq (p : FilePath) : names p = rootOf (p.splitOn '/') ++ below p :=
  filter_ofSegments _

/-! ## Joining -/

theorem splitOn_slash (p : FilePath) : ('/' :: p : Text).splitOn '/' = [] :: p.splitOn '/' := by
  simpa using List.splitOn_append_cons_self (a := '/') ([] : Text) p

/-- A path that does not begin with a separator begins with its first segment. -/
theorem splitOn_cons_ne {c : Char} (hc : c ≠ '/') (p : FilePath) :
    ∃ s rest, p.splitOn '/' = s :: rest ∧ (c :: p : Text).splitOn '/' = (c :: s) :: rest := by
  cases hsplit : p.splitOn '/' with
  | nil => exact absurd hsplit (List.splitOn_ne_nil '/' p)
  | cons s rest =>
    refine ⟨s, rest, rfl, ?_⟩
    rw [List.splitOn_cons_eq_if_modifyHead, if_neg (by simpa using hc), hsplit]
    rfl

theorem rootOf_splitOn (p : FilePath) :
    rootOf (p.splitOn '/') = if p.head? = some '/' then [.rootDir] else [] := by
  cases p with
  | nil => rfl
  | cons c q =>
    by_cases hc : c = '/'
    · subst hc
      unfold rootOf
      rw [splitOn_slash, if_pos ⟨rfl, List.splitOn_ne_nil '/' q⟩]
      rfl
    · obtain ⟨s, rest, -, hsplit⟩ := splitOn_cons_ne hc q
      unfold rootOf
      have hhead : (c :: q : Text).head? ≠ some '/' := fun h => hc (Option.some.inj h)
      rw [hsplit, if_neg hhead]
      rfl

/-- **A relative path is appended.** -/
theorem names_join (hrel : rel.head? ≠ some '/') : names (join base rel) = names base ++ below rel := by
  rw [names_eq, names_eq base, rootOf_splitOn, rootOf_splitOn]
  unfold join below
  rw [if_neg hrel]
  split
  · next hbase =>
    rcases hbase with rfl | hlast
    · rw [List.nil_append, if_neg hrel]
      rfl
    · obtain ⟨b, rfl⟩ := List.getLast?_eq_some_iff.mp hlast
      have h₁ : (b ++ ['/'] ++ rel).splitOn '/' = b.splitOn '/' ++ rel.splitOn '/' := by
        rw [List.append_assoc]
        exact List.splitOn_append_cons_self b rel
      have h₂ : (b ++ ['/']).splitOn '/' = b.splitOn '/' ++ [[]] := by
        simpa using List.splitOn_append_cons_self (a := '/') b []
      have hhead : (b ++ ['/'] ++ rel).head? = (b ++ ['/']).head? := by
        cases b <;> rfl
      rw [h₁, h₂, hhead, List.filterMap_append, List.filterMap_append, List.append_assoc,
        List.append_assoc]
      rfl
  · next hbase =>
    have hsplit : (base ++ '/' :: rel).splitOn '/' = base.splitOn '/' ++ rel.splitOn '/' :=
      List.splitOn_append_cons_self base rel
    have hhead : (base ++ '/' :: rel).head? = base.head? := by
      cases base with
      | nil => exact absurd (.inl rfl) hbase
      | cons c b => rfl
    rw [hsplit, hhead, List.filterMap_append, List.append_assoc]

theorem lastSegment_splitOn {front : List Text} (h : p.splitOn '/' = front ++ rel.splitOn '/') :
    lastSegment p = lastSegment rel := by
  unfold lastSegment
  rw [h, List.getLast?_append, List.getLast?_eq_some_getLast (List.splitOn_ne_nil '/' rel)]
  rfl

theorem lastSegment_join (base rel : FilePath) : lastSegment (join base rel) = lastSegment rel := by
  unfold join
  split
  · rfl
  split
  · next hbase =>
    rcases hbase with rfl | hlast
    · rfl
    · obtain ⟨b, rfl⟩ := List.getLast?_eq_some_iff.mp hlast
      have hsplit : (b ++ ['/'] ++ rel).splitOn '/' = b.splitOn '/' ++ rel.splitOn '/' := by
        rw [List.append_assoc]
        exact List.splitOn_append_cons_self b rel
      exact lastSegment_splitOn hsplit
  · exact lastSegment_splitOn (List.splitOn_append_cons_self base rel)

/-! ## The directory -/

theorem not_mem_splitOn (p : FilePath) : ∀ s ∈ p.splitOn '/', '/' ∉ s := by
  induction p with
  | nil =>
    intro s hs
    rw [List.splitOn_nil, List.mem_singleton] at hs
    subst hs
    exact List.not_mem_nil
  | cons c q ih =>
    intro s hs
    by_cases hc : c = '/'
    · subst hc
      rw [splitOn_slash] at hs
      rcases List.mem_cons.mp hs with rfl | hs
      · exact List.not_mem_nil
      · exact ih s hs
    · obtain ⟨s₀, rest, hq, hsplit⟩ := splitOn_cons_ne hc q
      rw [hsplit] at hs
      rw [hq] at ih
      rcases List.mem_cons.mp hs with rfl | hs
      · exact List.not_mem_cons_of_ne_of_not_mem (fun h => hc h.symm) (ih s₀ List.mem_cons_self)
      · exact ih s (List.mem_cons_of_mem _ hs)

/-- Trimming drops no component, and stops at one. -/
theorem trimSegments_cons (s : Text) (rest : List Text) : ∃ kept, trimSegments (s :: rest) = s :: kept ∧
    kept.filterMap segment = rest.filterMap segment ∧ (∀ t ∈ kept, t ∈ rest) ∧
    (kept = [] ∨ ∃ front l c, kept = front ++ [l] ∧ segment l = some c) := by
  let none? (t : Text) : Bool := (segment t).isNone
  have hparts : rest = (rest.reverse.dropWhile none?).reverse ++ (rest.reverse.takeWhile none?).reverse := by
    rw [← List.reverse_append, List.takeWhile_append_dropWhile, List.reverse_reverse]
  have hdropped : (rest.reverse.takeWhile none?).reverse.filterMap segment = [] := by
    refine List.filterMap_eq_nil_iff.mpr fun t ht => ?_
    have hnone : none? t = true := List.mem_takeWhile_imp (List.mem_reverse.mp ht)
    exact Option.isNone_iff_eq_none.mp hnone
  refine ⟨(rest.reverse.dropWhile none?).reverse, rfl, ?_, fun t ht => ?_, ?_⟩
  · conv_rhs => rw [hparts]
    rw [List.filterMap_append, hdropped, List.append_nil]
  · exact List.mem_reverse.mp ((List.dropWhile_sublist _).subset (List.mem_reverse.mp ht))
  · cases hd : rest.reverse.dropWhile none? with
    | nil => exact .inl rfl
    | cons l front =>
      have hl : (segment l).isNone = false := by
        have hhead := List.head?_dropWhile_not none? rest.reverse
        rw [hd] at hhead
        exact hhead
      cases hc : segment l with
      | none =>
        rw [hc] at hl
        cases hl
      | some c => exact .inr ⟨front.reverse, l, c, List.reverse_cons, hc⟩

theorem names_intercalate (hchars : ∀ s ∈ segs, '/' ∉ s) (hne : segs ≠ []) :
    names (List.intercalate ['/'] segs) = rootOf segs ++ segs.filterMap segment := by
  rw [names_eq, below, List.splitOn_intercalate '/' hchars hne]

/-- **The directory of a path has all its components but the last.** -/
theorem names_parent (p : FilePath) : names ((parent p).getD ['.']) = (names p).dropLast := by
  rw [names_eq p]
  unfold below parent
  have hchars := not_mem_splitOn p
  cases hsplit : p.splitOn '/' with
  | nil => exact absurd hsplit (List.splitOn_ne_nil '/' p)
  | cons s rest =>
    rw [hsplit] at hchars
    obtain ⟨kept, htrim, hsegs, hsub, hend⟩ := trimSegments_cons s rest
    have hbelow : (s :: rest).filterMap segment = (s :: kept).filterMap segment := by
      rw [List.filterMap_cons, List.filterMap_cons, hsegs]
    rw [htrim, hbelow]
    rcases hend with rfl | ⟨front, l, c, hkept, hl⟩
    · by_cases hs : s = []
      · subst hs
        cases rest <;> rfl
      · have hroot : rootOf (s :: rest) = [] := if_neg fun h => hs (Option.some.inj h.1)
        simp only [if_neg hs, hroot, List.filterMap_cons, List.filterMap_nil]
        cases segment s <;> rfl
    · obtain ⟨t, kept, rfl⟩ : ∃ t kept', kept = t :: kept' :=
        List.exists_cons_of_ne_nil (by rw [hkept]; simp)
      have hdrop : (s :: t :: kept).dropLast = s :: front := by
        rw [hkept, ← List.cons_append, List.dropLast_concat]
      obtain ⟨kept', htrim', hsegs', hsub', -⟩ := trimSegments_cons s front
      have hroot : rootOf (s :: rest) = if s = [] then [.rootDir] else [] := by
        have hrest : rest ≠ [] := List.ne_nil_of_mem (hsub t List.mem_cons_self)
        unfold rootOf
        by_cases hs : s = []
        · rw [if_pos hs, if_pos ⟨congrArg some hs, hrest⟩]
        · rw [if_neg hs, if_neg fun h => hs (Option.some.inj h.1)]
      have hcomps : (s :: t :: kept).filterMap segment = (s :: front).filterMap segment ++ [c] := by
        rw [hkept, ← List.cons_append, List.filterMap_append, List.filterMap_cons_some hl,
          List.filterMap_nil]
      have hnames : names ((some (if s :: kept' = [[]] then ['/']
          else List.intercalate ['/'] (s :: kept'))).getD ['.']) =
            (if s = [] then [.rootDir] else []) ++ (s :: front).filterMap segment := by
        rw [Option.getD_some, List.filterMap_cons, ← hsegs']
        by_cases hslash : s :: kept' = [[]]
        · cases hslash
          rfl
        · have hmem : ∀ seg ∈ s :: kept', '/' ∉ seg := by
            intro seg hseg
            refine hchars seg ?_
            rcases List.mem_cons.mp hseg with rfl | hseg
            · exact List.mem_cons_self
            · have hin : seg ∈ t :: kept := hkept ▸ List.mem_append_left _ (hsub' seg hseg)
              exact List.mem_cons_of_mem _ (hsub seg hin)
          rw [if_neg hslash, names_intercalate hmem (List.cons_ne_nil _ _), List.filterMap_cons]
          unfold rootOf
          by_cases hs : s = []
          · have htail : kept' ≠ [] := fun h => hslash (by rw [hs, h])
            rw [if_pos hs, if_pos ⟨congrArg some hs, htail⟩]
          · rw [if_neg hs, if_neg fun h => hs (Option.some.inj h.1)]
      simp only [hdrop, htrim', hnames, hroot, hcomps]
      rw [← List.append_assoc, List.dropLast_concat]

/-- A path with a file name ends in that name. -/
theorem below_of_hasFileName (h : HasFileName p) :
    ∃ front name, below p = front ++ [.normal name] := by
  unfold below
  unfold HasFileName lastSegment at h
  rw [List.getLast?_eq_some_getLast (List.splitOn_ne_nil '/' p)] at h
  obtain ⟨h₁, h₂, h₃⟩ := h
  rw [Option.getD_some] at h₁ h₂ h₃
  generalize hlast : (p.splitOn '/').getLast (List.splitOn_ne_nil '/' p) = s at h₁ h₂ h₃
  have hseg : segment s = some (.normal s) := by
    unfold segment
    rw [if_neg (not_or.mpr ⟨h₁, h₂⟩), if_neg h₃]
  have hparts := List.dropLast_concat_getLast (List.splitOn_ne_nil '/' p)
  rw [hlast] at hparts
  refine ⟨(p.splitOn '/').dropLast.filterMap segment, s, ?_⟩
  conv_lhs => rw [← hparts, List.filterMap_append, List.filterMap_cons_some hseg]
  rw [List.filterMap_nil]

/-- `p` lies lexically inside `dir`, up to `.`: below it there are plain names only. -/
def Inside (dir p : FilePath) : Prop :=
  ∃ below, names p = names dir ++ below ∧ ∀ c ∈ below, c.escapes = false

end FilePath
