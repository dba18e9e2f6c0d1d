import Mathlib.Tactic.IntervalCases
import Vmdk.Lib.Text

/-! # Numbers as text

Positional digits, filled up to a width, or in groups with a separator between
them. A printed number is parsed back (`parseUnsigned_padded`), and none of its
characters is one that a line-oriented parser looks for (`digitChar_plain`). -/

namespace Text

/-- The digits of `n`, filled up with zeros to `width`. -/
def padded (radix width n : Nat) : Text :=
  List.replicate (width - (Nat.toDigits radix n).length) '0' ++ Nat.toDigits radix n

/-- The characters that digits are told apart from. -/
def marks : List Char := ['"', '\n', '\r', ',', '+', '=', '#', '|', Char.ofNat 0]

variable {radix bound n d : Nat} {c : Char}

theorem digitVal_digitChar (hr : radix ≤ 16) (hd : d < radix) :
    digitVal radix (Nat.digitChar d) = some d := by
  have hcond : ∀ d < 16, digitVal radix (Nat.digitChar d) = if d < radix then some d else none := by
    intro d hd
    interval_cases d <;> rfl
  rw [hcond d (by omega), if_pos hd]

theorem digitChar_plain (hd : d < 16) :
    isWhitespace (Nat.digitChar d) = false ∧ Nat.digitChar d ∉ marks := by
  interval_cases d <;> decide

theorem mem_toDigits (hr : 1 < radix) (h : c ∈ Nat.toDigits radix n) :
    ∃ d < radix, c = Nat.digitChar d := by
  induction n using Nat.strong_induction_on with
  | _ n ih =>
    by_cases hn : n < radix
    · rw [Nat.toDigits_of_lt_base hn, List.mem_singleton] at h
      exact ⟨n, hn, h⟩
    · rw [Nat.toDigits_of_base_le hr (by omega), List.mem_append, List.mem_singleton] at h
      rcases h with h | h
      · exact ih (n / radix) (Nat.div_lt_self (by omega) hr) h
      · exact ⟨n % radix, Nat.mod_lt n (by omega), h⟩

/-- The characters of a printed number. -/
theorem mem_padded {width : Nat} (hr : 1 < radix) (hr' : radix ≤ 16)
    (h : c ∈ padded radix width n) : isWhitespace c = false ∧ c ∉ marks := by
  rcases List.mem_append.mp h with h | h
  · rw [List.eq_of_mem_replicate h]
    exact digitChar_plain (d := 0) (by decide)
  · obtain ⟨d, hd, rfl⟩ := mem_toDigits hr h
    exact digitChar_plain (by omega)

theorem padded_zero (radix n : Nat) : padded radix 0 n = Nat.toDigits radix n := by
  unfold padded
  rw [Nat.zero_sub]
  rfl

theorem padded_ne_nil (radix width n : Nat) : padded radix width n ≠ [] := fun h =>
  Nat.toDigits_ne_nil (List.append_eq_nil_iff.mp h).2

/-- A number that has its place is as wide as asked. -/
theorem length_padded {width : Nat} (hr : 1 < radix) (hw : 0 < width) (h : n < radix ^ width) :
    (padded radix width n).length = width := by
  have hlen := (Nat.length_toDigits_le_iff hr hw).mpr h
  unfold padded
  rw [List.length_append, List.length_replicate]
  omega

/-! ## Parsing -/

theorem foldl_pushDigit_toDigits (hr : 1 < radix) (hr' : radix ≤ 16) (hn : n < bound) :
    (Nat.toDigits radix n).foldl (pushDigit radix bound) (some 0) = some n := by
  have hpush {a d v : Nat} (hd : d < radix) (hv : a * radix + d = v) (hlt : v < bound) :
      pushDigit radix bound (some a) (Nat.digitChar d) = some v := by
    unfold pushDigit
    rw [digitVal_digitChar hr' hd]
    show (if a * radix + d < bound then some (a * radix + d) else none) = _
    rw [hv, if_pos hlt]
  induction n using Nat.strong_induction_on with
  | _ n ih =>
    by_cases h : n < radix
    · rw [Nat.toDigits_of_lt_base h, List.foldl_cons, List.foldl_nil]
      exact hpush h (by omega) hn
    · have hsmaller : n / radix < n := Nat.div_lt_self (by omega) hr
      rw [Nat.toDigits_of_base_le hr (by omega), List.foldl_append, ih _ hsmaller (by omega)]
      exact hpush (Nat.mod_lt n (by omega)) (Nat.div_add_mod' n radix) hn

theorem foldl_pushDigit_zeros (hr : 1 < radix) (hr' : radix ≤ 16) (hb : 0 < bound) (k : Nat) :
    (List.replicate k '0').foldl (pushDigit radix bound) (some 0) = some 0 := by
  have hzero : pushDigit radix bound (some 0) '0' = some 0 := by
    have hval : digitVal radix '0' = some 0 := digitVal_digitChar hr' (d := 0) (by omega)
    unfold pushDigit
    rw [hval]
    show (if 0 * radix + 0 < bound then some (0 * radix + 0) else none) = _
    rw [Nat.zero_mul, if_pos hb]
  induction k with
  | zero => rfl
  | succ k ih => rw [List.replicate_succ, List.foldl_cons, hzero, ih]

/-- **A printed number is parsed back.** -/
theorem parseUnsigned_padded {width : Nat} (hr : 1 < radix) (hr' : radix ≤ 16) (hn : n < bound) :
    parseUnsigned radix bound (padded radix width n) = some n := by
  have hfold : (padded radix width n).foldl (pushDigit radix bound) (some 0) = some n := by
    unfold padded
    rw [List.foldl_append, foldl_pushDigit_zeros hr hr' (by omega),
      foldl_pushDigit_toDigits hr hr' hn]
  cases hdigits : padded radix width n with
  | nil => exact absurd hdigits (padded_ne_nil radix width n)
  | cons c cs =>
    have hfirst : c ∈ padded radix width n := hdigits ▸ List.mem_cons_self
    have hplain := mem_padded hr hr' hfirst
    have hplus : c ≠ '+' := by
      rintro rfl
      exact hplain.2 (by decide)
    rw [hdigits] at hfold
    unfold parseUnsigned
    split
    · next rest heq =>
      cases heq
      exact absurd rfl hplus
    · rw [if_neg (by simp), hfold]

theorem parseUnsigned_toDigits (hr : 1 < radix) (hr' : radix ≤ 16) (hn : n < bound) :
    parseUnsigned radix bound (Nat.toDigits radix n) = some n := by
  rw [← padded_zero radix n]
  exact parseUnsigned_padded hr hr' hn

/-! ## Groups -/

/-- `sep` before every `size`-th character but the first, counted from `i` on. -/
def separate (sep : Char) (size : Nat) : (i : Nat) → Text → Text
  | _, [] => []
  | i, c :: cs => (if 0 < i ∧ i % size = 0 then [sep, c] else [c]) ++ separate sep size (i + 1) cs

section Groups
variable {sep : Char} {size : Nat}

/-- Only whether a group is full matters, but at the start. -/
theorem separate_add (cs : Text) {i : Nat} (hi : 0 < i) :
    separate sep size (i + size) cs = separate sep size i cs := by
  induction cs generalizing i with
  | nil => rfl
  | cons c cs ih =>
    unfold separate
    rw [Nat.add_right_comm, ih (Nat.succ_pos i)]
    simp only [Nat.add_mod_right, hi, Nat.add_pos_left hi, true_and]

theorem separate_short {cs : Text} {i : Nat} (h : i + cs.length ≤ size) :
    separate sep size i cs = cs := by
  induction cs generalizing i with
  | nil => rfl
  | cons c cs ih =>
    rw [List.length_cons] at h
    have hmod : ¬ (0 < i ∧ i % size = 0) := by
      rintro ⟨hpos, hzero⟩
      rw [Nat.mod_eq_of_lt (by omega)] at hzero
      omega
    unfold separate
    rw [if_neg hmod, ih (by omega)]
    rfl

theorem separate_append (as cs : Text) (i : Nat) :
    separate sep size i (as ++ cs) = separate sep size i as ++ separate sep size (i + as.length) cs := by
  induction as generalizing i with
  | nil => rfl
  | cons a as ih =>
    rw [List.cons_append, separate, separate, ih, List.append_assoc, List.length_cons]
    congr 3
    omega

/-- After a full group a separator comes first. -/
theorem separate_full (c : Char) (cs : Text) (hsize : 0 < size) :
    separate sep size size (c :: cs) = sep :: separate sep size 0 (c :: cs) := by
  unfold separate
  rw [if_pos ⟨hsize, Nat.mod_self size⟩, if_neg (by simp), Nat.add_comm size 1, Nat.zero_add,
    separate_add cs Nat.one_pos]
  rfl

/-- **The groups.** All have `size` characters, but the last, which has at least one and no more. -/
theorem separate_groups (hsize : 0 < size) {cs : Text} (hne : cs ≠ []) :
    ∃ (full : List Text) (last : Text),
      separate sep size 0 cs = (full.flatMap fun g => g ++ [sep]) ++ last ∧
        cs = full.flatten ++ last ∧ (∀ g ∈ full, g.length = size) ∧ 0 < last.length ∧
        last.length ≤ size := by
  induction hk : cs.length using Nat.strong_induction_on generalizing cs with
  | _ k ih =>
    by_cases hshort : cs.length ≤ size
    · refine ⟨[], cs, separate_short (by omega), rfl, ?_, List.length_pos_iff.mpr hne, hshort⟩
      intro g hg
      cases hg
    · have hdrop : cs.drop size ≠ [] := by
        rw [Ne, List.drop_eq_nil_iff]
        omega
      have htake : (cs.take size).length = size := List.length_take_of_le (by omega)
      obtain ⟨full, last, hsep, hcs, hfull, hlast⟩ :=
        ih (cs.drop size).length (by rw [List.length_drop]; omega) hdrop rfl
      refine ⟨cs.take size :: full, last, ?_, ?_, ?_, hlast⟩
      · obtain ⟨c, rest, hrest⟩ := List.exists_cons_of_ne_nil hdrop
        conv_lhs => rw [← List.take_append_drop size cs]
        rw [separate_append, separate_short (by omega), htake, Nat.zero_add, hrest,
          separate_full c rest hsize, ← hrest, hsep, List.flatMap_cons, List.append_assoc,
          List.append_assoc, List.singleton_append]
      · rw [List.flatten_cons, List.append_assoc, ← hcs, List.take_append_drop]
      · intro g hg
        rcases List.mem_cons.mp hg with rfl | hg
        · exact htake
        · exact hfull g hg

theorem filter_separate {cs : Text} (hsep : sep ∉ cs) (i : Nat) :
    (separate sep size i cs).filter (· ≠ sep) = cs := by
  induction cs generalizing i with
  | nil => rfl
  | cons c cs ih =>
    obtain ⟨hc, hcs⟩ := not_or.mp (List.mem_cons.not.mp hsep)
    have hkeep : c ≠ sep := fun h => hc h.symm
    unfold separate
    rw [List.filter_append, ih hcs]
    split
    · simp [hkeep]
    · simp [hkeep]

end Groups

end Text
