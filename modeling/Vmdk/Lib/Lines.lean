import Vmdk.Lib.Text

/-! # Reading back what was written in lines

Lines joined with line ends of either kind are the lines of the text
(`lines_unlines`). A text that neither begins nor ends with white space is
trimmed to itself, and quotes around a text without any come off. -/

namespace Text

/-- The ends that a line may have. -/
inductive LineEnd where
  | lf
  | crlf
deriving DecidableEq, Repr

/-- What a line end puts before its line feed. -/
def LineEnd.return? : LineEnd → Text
  | .lf => []
  | .crlf => ['\r']

def LineEnd.text (e : LineEnd) : Text := e.return? ++ ['\n']

/-- The text of the lines, each with its end. -/
def unlines (e : LineEnd) (ls : List Text) : Text := ls.flatMap fun l => l ++ e.text

/-- A text that fits in one line. -/
def OneLine (l : Text) : Prop := '\n' ∉ l ∧ l.getLast? ≠ some '\r'

variable {l t a b : Text} {q c : Char}

theorem stripCr_concat (l : Text) : stripCr (l ++ ['\r']) = l := by
  unfold stripCr
  rw [List.getLast?_concat, if_pos rfl, List.dropLast_concat]

theorem lines_cons (h : '\n' ∉ l) (t : Text) : lines (l ++ '\n' :: t) = stripCr l :: lines t := by
  have hsplit : (l ++ '\n' :: t).splitOn '\n' = l :: t.splitOn '\n' := by
    rw [List.splitOn_append_cons_self, List.splitOn_eq_singleton h]
    rfl
  obtain ⟨first, rest, hrest⟩ := List.exists_cons_of_ne_nil (List.splitOn_ne_nil '\n' t)
  unfold lines
  rw [hsplit, hrest]
  rfl

theorem stripCr_return {e : LineEnd} (h : OneLine l) : stripCr (l ++ e.return?) = l := by
  cases e with
  | lf =>
    unfold stripCr
    rw [LineEnd.return?, List.append_nil, if_neg h.2]
  | crlf => exact stripCr_concat l

/-- **Written lines are read back**, with either line end. -/
theorem lines_unlines {e : LineEnd} {ls : List Text} (h : ∀ l ∈ ls, OneLine l) :
    lines (unlines e ls) = ls := by
  induction ls with
  | nil => rfl
  | cons l ls ih =>
    obtain ⟨hl, hls⟩ := List.forall_mem_cons.mp h
    have hfeed : '\n' ∉ l ++ e.return? := by
      rw [List.mem_append, not_or]
      refine ⟨hl.1, ?_⟩
      cases e <;> decide
    have hunlines : unlines e (l :: ls) = (l ++ e.return?) ++ '\n' :: unlines e ls := by
      unfold unlines LineEnd.text
      simp only [List.flatMap_cons, List.append_assoc, List.singleton_append]
    rw [hunlines, lines_cons hfeed, stripCr_return hl, ih hls]

/-! ## Trimming -/

theorem trimStart_cons (h : isWhitespace c = false) (t : Text) : trimStart (c :: t) = c :: t :=
  List.dropWhile_cons_of_neg (by rw [h]; decide)

theorem trimStart_space (t : Text) : trimStart (' ' :: t) = trimStart t :=
  List.dropWhile_cons_of_pos (by decide)

/-- A text that ends in a word. -/
theorem trimEnd_append (hne : b ≠ []) (hb : ∀ c ∈ b, isWhitespace c = false) (a : Text) :
    trimEnd (a ++ b) = a ++ b := by
  rcases List.eq_nil_or_concat b with rfl | ⟨front, last, rfl⟩
  · exact absurd rfl hne
  · have hlast : isWhitespace last = false := hb last (by simp)
    unfold trimEnd
    rw [List.concat_eq_append, ← List.append_assoc, List.reverse_append, List.reverse_singleton,
      List.singleton_append, List.dropWhile_cons_of_neg (by rw [hlast]; decide), List.reverse_cons,
      List.reverse_reverse]

theorem trim_append (hc : isWhitespace c = false) (hne : b ≠ []) (hb : ∀ c ∈ b, isWhitespace c = false)
    (a : Text) : trim (c :: (a ++ b)) = c :: (a ++ b) := by
  unfold trim
  rw [trimStart_cons hc]
  exact trimEnd_append hne hb (c :: a)

/-- A word is trimmed to itself. -/
theorem trim_word (h : ∀ c ∈ t, isWhitespace c = false) : trim t = t := by
  cases t with
  | nil => rfl
  | cons c t =>
    unfold trim
    rw [trimStart_cons (h c List.mem_cons_self)]
    exact trimEnd_append (List.cons_ne_nil c t) h []

/-- A word is what is left of it and a space. -/
theorem trim_word_space (h : ∀ c ∈ t, isWhitespace c = false) : trim (t ++ [' ']) = t := by
  have hend : trimEnd (t ++ [' ']) = trimEnd t := by
    unfold trimEnd
    rw [List.reverse_append, List.reverse_singleton, List.singleton_append,
      List.dropWhile_cons_of_pos (by decide)]
  have hword := trim_word h
  unfold trim at hword ⊢
  cases t with
  | nil => rfl
  | cons c t =>
    rw [trimStart_cons (h c List.mem_cons_self)] at hword
    rw [List.cons_append, trimStart_cons (h c List.mem_cons_self), ← List.cons_append, hend, hword]

/-- Trimming keeps a first character that is no white space. -/
theorem head?_trim (h : isWhitespace c = false) (t : Text) : (trim (c :: t)).head? = some c := by
  unfold trim
  rw [trimStart_cons h]
  unfold trimEnd
  rw [List.head?_reverse, List.reverse_cons, List.dropWhile_append]
  split
  · rw [List.dropWhile_cons_of_neg (by rw [h]; decide)]
    rfl
  · rw [List.getLast?_concat]

/-! ## Quotes, separators, prefixes -/

theorem dropWhile_eq_not_mem (h : q ∉ t) : t.dropWhile (· == q) = t := by
  cases t with
  | nil => rfl
  | cons c t =>
    have hc : c ≠ q := fun heq => h (heq ▸ List.mem_cons_self)
    exact List.dropWhile_cons_of_neg (by simpa using hc)

/-- Quotes come off a text that has none in it. -/
theorem trimMatches_quoted (h : q ∉ t) : trimMatches q (q :: (t ++ [q])) = t := by
  have hrev : q ∉ t.reverse := fun hmem => h (List.mem_reverse.mp hmem)
  have hstart : (q :: (t ++ [q])).dropWhile (· == q) = (t ++ [q]).dropWhile (· == q) :=
    List.dropWhile_cons_of_pos (by simp)
  unfold trimMatches
  cases t with
  | nil =>
    rw [hstart, List.nil_append, List.dropWhile_cons_of_pos (by simp)]
    rfl
  | cons c t =>
    have hc : c ≠ q := fun heq => h (heq ▸ List.mem_cons_self)
    rw [hstart, List.cons_append, List.dropWhile_cons_of_neg (by simpa using hc),
      ← List.cons_append, List.reverse_append, List.reverse_singleton, List.singleton_append,
      List.dropWhile_cons_of_pos (by simp), dropWhile_eq_not_mem hrev, List.reverse_reverse]

theorem takeWhile_ne_append (h : q ∉ a) (b : Text) : (a ++ q :: b).takeWhile (· != q) = a := by
  rw [List.takeWhile_append_of_pos fun c hc => by
    simpa using fun heq : c = q => h (heq ▸ hc)]
  simp

theorem dropWhile_ne_append (h : q ∉ a) (b : Text) :
    (a ++ q :: b).dropWhile (· != q) = q :: b := by
  rw [List.dropWhile_append_of_pos fun c hc => by
    simpa using fun heq : c = q => h (heq ▸ hc)]
  simp

theorem splitOnce_append (h : q ∉ a) (b : Text) : splitOnce q (a ++ q :: b) = some (a, b) := by
  unfold splitOnce
  rw [dropWhile_ne_append h, takeWhile_ne_append h]

theorem stripPrefix_append (p t : Text) : stripPrefix p (p ++ t) = some t := by
  unfold stripPrefix
  rw [if_pos (List.isPrefixOf_iff_prefix.mpr (List.prefix_append p t)), List.drop_left]

/-- A text that begins otherwise. -/
theorem stripPrefix_head (hne : a ≠ []) (h : t.head? ≠ a.head?) : stripPrefix a t = none := by
  unfold stripPrefix
  rw [if_neg]
  intro hprefix
  obtain ⟨rest, rfl⟩ := List.isPrefixOf_iff_prefix.mp hprefix
  obtain ⟨c, a, rfl⟩ := List.exists_cons_of_ne_nil hne
  exact h rfl

end Text
