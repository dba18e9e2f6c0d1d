import Mathlib.Tactic.Common
import Mathlib.Data.List.Basic

/-! # Comparing two streams chunk by chunk

Two streams are read through cursors of their own, and of each pair of reads
the common prefix is compared. A stream is what a read at each place delivers;
it stands for a sequence of a given length (`StreamOf`). While both streams
deliver equally much in every round the cursors stay level, and what the loop
finds up to there is the places where the sequences differ (`scan_level`): all
of them where the streams are aligned to their end (`scan_aligned`), those before
it where one of them ends early (`scan_ended`). The loop ends (`scan_fuel`). -/

namespace Lockstep

variable {α : Type} [DecidableEq α]

/-- A place where two streams differ, with their values. -/
abbrev Difference (α : Type) := Nat × α × α

/-- The differences of two chunks in their common prefix, which starts at place `off`. -/
def differences : (off : Nat) → List α → List α → List (Difference α)
  | off, x :: xs, y :: ys =>
    if x = y then differences (off + 1) xs ys else (off, x, y) :: differences (off + 1) xs ys
  | _, _, _ => []

/-- The loop, until both reads are empty: cursors `p` and `q`, and the place `off` it reports. -/
def scan (a b : Nat → List α) : (fuel p q off : Nat) → List (Difference α)
  | 0, _, _, _ => []
  | fuel + 1, p, q, off =>
    if a p = [] ∧ b q = [] then [] else
    differences off (a p) (b q) ++
      scan a b fuel (p + (a p).length) (q + (b q).length) (off + min (a p).length (b q).length)

/-- The stream delivers the first `n` values of `A`, and at least one wherever there is one. -/
structure StreamOf (a : Nat → List α) (A : Nat → Option α) (n : Nat) : Prop where
  progress : ∀ p < n, a p ≠ []
  within : ∀ p, a p = [] ∨ p + (a p).length ≤ n
  value : ∀ p i x, (a p)[i]? = some x → A (p + i) = some x

/-- The places the loop reaches on `a`. -/
inductive Reached (a : Nat → List α) : Nat → Prop
  | zero : Reached a 0
  | next {p : Nat} (h : Reached a p) : Reached a (p + (a p).length)

/-- The difference at one place, if there is one. -/
def differenceAt (A B : Nat → Option α) (p : Nat) : Option (Difference α) :=
  match A p, B p with
  | some x, some y => if x = y then none else some (p, x, y)
  | _, _ => none

/-- The differences at the places from `p` on, `n` of them. -/
def allDifferences (A B : Nat → Option α) (p n : Nat) : List (Difference α) :=
  (List.range' p n).filterMap (differenceAt A B)

variable {a b : Nat → List α} {A B : Nat → Option α} {n p q off fuel : Nat}

/-- The differences of two chunks of one length are those of the sequences. -/
theorem differences_eq {xs ys : List α} (hlen : xs.length = ys.length)
    (hxs : ∀ i x, xs[i]? = some x → A (p + i) = some x)
    (hys : ∀ i y, ys[i]? = some y → B (p + i) = some y) :
    differences p xs ys = allDifferences A B p xs.length := by
  induction xs generalizing p ys with
  | nil =>
    cases ys with
    | nil => rfl
    | cons y ys => cases hlen
  | cons x xs ih =>
    cases ys with
    | nil => cases hlen
    | cons y ys =>
      have hx : A p = some x := hxs 0 x rfl
      have hy : B p = some y := hys 0 y rfl
      have hrest := ih (p := p + 1) (Nat.succ.inj hlen)
        (fun i z hz => by rw [Nat.add_assoc, Nat.add_comm 1 i]; exact hxs (i + 1) z hz)
        (fun i z hz => by rw [Nat.add_assoc, Nat.add_comm 1 i]; exact hys (i + 1) z hz)
      have hat : differenceAt A B p = if x = y then none else some (p, x, y) := by
        unfold differenceAt
        rw [hx, hy]
      unfold differences allDifferences
      rw [hrest, List.length_cons, List.range'_succ, List.filterMap_cons, hat]
      split
      · rfl
      · rfl

/-- The places to which both cursors come at once, having delivered equally much in every round. -/
inductive Level (a b : Nat → List α) : Nat → Prop
  | start : Level a b 0
  | next {p : Nat} (h : Level a b p) (hne : a p ≠ []) (hlen : (a p).length = (b p).length) :
    Level a b (p + (a p).length)

/-- Both streams deliver the value at `o` in one round, with level cursors. -/
def Beside (a b : Nat → List α) (o : Nat) : Prop :=
  ∃ p, Level a b p ∧ p ≤ o ∧ o < p + min (a p).length (b p).length

omit [DecidableEq α] in
theorem Level.le (ha : ∀ p, a p = [] ∨ p + (a p).length ≤ n) (h : Level a b p) : p ≤ n := by
  cases h with
  | start => exact Nat.zero_le n
  | next h hne hlen => exact (ha _).resolve_left hne

omit [DecidableEq α] in
/-- What lies before a place the cursors come to level was delivered side by side. -/
theorem Level.beside {o : Nat} (h : Level a b p) (ho : o < p) : Beside a b o := by
  induction h with
  | start => exact absurd ho (Nat.not_lt_zero o)
  | @next p h hne hlen ih =>
    rcases Nat.lt_or_ge o p with hlt | hge
    · exact ih hlt
    · exact ⟨p, h, hge, by omega⟩

/-- **While the cursors are level** the loop finds the differences of the sequences, in order. -/
theorem scan_level (h : Level a b p) (hp : p ≤ n)
    (hA : ∀ p i x, p + i < n → (a p)[i]? = some x → A (p + i) = some x)
    (hB : ∀ p i y, p + i < n → (b p)[i]? = some y → B (p + i) = some y) (hfuel : p ≤ fuel) :
    ∃ left, fuel ≤ left + p ∧
      scan a b fuel 0 0 0 = allDifferences A B 0 p ++ scan a b left p p p := by
  induction h with
  | start => exact ⟨fuel, Nat.le_refl _, rfl⟩
  | @next p h hne hlen ih =>
    have hpos : 0 < (a p).length := List.length_pos_iff.mpr hne
    obtain ⟨left, hleft, hscan⟩ := ih (by omega) (by omega)
    obtain ⟨k, rfl⟩ : ∃ k, left = k + 1 := Nat.exists_eq_succ_of_ne_zero (by omega)
    have hchunk : differences p (a p) (b p) = allDifferences A B p (a p).length :=
      differences_eq hlen
        (fun i x hx => hA p i x (by have := (List.getElem?_eq_some_iff.mp hx).1; omega) hx)
        (fun i y hy => hB p i y (by have := (List.getElem?_eq_some_iff.mp hy).1; omega) hy)
    refine ⟨k, by omega, ?_⟩
    rw [hscan, scan, if_neg fun h => hne h.1, ← hlen, Nat.min_self, hchunk, ← List.append_assoc]
    unfold allDifferences
    rw [← List.filterMap_append, ← List.range'_append_1, Nat.zero_add]

omit [DecidableEq α] in
/-- Streams aligned at every place reached come to their end level. -/
theorem level_of_aligned (ha : StreamOf a A n)
    (halign : ∀ p < n, Reached a p → (a p).length = (b p).length) {k : Nat} (hp : Reached a p)
    (hlevel : Level a b p) (hk : n = p + k) : Level a b n := by
  induction k using Nat.strongRecOn generalizing p with
  | ind k ih =>
    rcases Nat.eq_zero_or_pos k with rfl | hpos
    · rwa [hk, Nat.add_zero]
    · have hlt : p < n := by omega
      have hne := ha.progress p hlt
      have hin := (ha.within p).resolve_left hne
      have hlen : 0 < (a p).length := List.length_pos_iff.mpr hne
      exact ih (n - (p + (a p).length)) (by omega) hp.next
        (hlevel.next hne (halign p hlt hp)) (by omega)

/-- **The loop ends**: more fuel than what is left of both streams changes nothing. -/
theorem scan_fuel {m : Nat} (ha : ∀ p, a p = [] ∨ p + (a p).length ≤ n)
    (hb : ∀ q, b q = [] ∨ q + (b q).length ≤ m) (hfuel : (n - p) + (m - q) < fuel) (more : Nat) :
    scan a b (fuel + more) p q off = scan a b fuel p q off := by
  induction fuel generalizing p q off with
  | zero => exact absurd hfuel (Nat.not_lt_zero _)
  | succ fuel ih =>
    rw [Nat.succ_add]
    unfold scan
    split
    · rfl
    · next hgo =>
      refine congrArg _ (ih ?_)
      rcases not_and_or.mp hgo with h | h
      · have hpos := List.length_pos_iff.mpr h
        have hin := (ha p).resolve_left h
        rcases hb q with hq | hq
        · rw [hq, List.length_nil]
          omega
        · omega
      · have hpos := List.length_pos_iff.mpr h
        have hin := (hb q).resolve_left h
        rcases ha p with hp | hp
        · rw [hp, List.length_nil]
          omega
        · omega

theorem differenceAt_eq_some {d : Difference α} : differenceAt A B p = some d ↔
    d.1 = p ∧ A p = some d.2.1 ∧ B p = some d.2.2 ∧ d.2.1 ≠ d.2.2 := by
  obtain ⟨k, x, y⟩ := d
  unfold differenceAt
  cases hA : A p with
  | none => simp
  | some x' =>
    cases hB : B p with
    | none => simp
    | some y' =>
      by_cases hxy : x' = y'
      · simp only [hxy, if_true, reduceCtorEq, Option.some.injEq, false_iff]
        rintro ⟨-, rfl, rfl, hne⟩
        exact hne rfl
      · simp only [if_neg hxy, Option.some.injEq, Prod.mk.injEq]
        constructor
        · rintro ⟨rfl, rfl, rfl⟩
          exact ⟨rfl, rfl, rfl, hxy⟩
        · rintro ⟨rfl, rfl, rfl, -⟩
          exact ⟨rfl, rfl, rfl⟩

/-- What is found is a difference at a place in range. -/
theorem mem_allDifferences {d : Difference α} : d ∈ allDifferences A B p n ↔
    p ≤ d.1 ∧ d.1 < p + n ∧ A d.1 = some d.2.1 ∧ B d.1 = some d.2.2 ∧ d.2.1 ≠ d.2.2 := by
  unfold allDifferences
  simp only [List.mem_filterMap, List.mem_range'_1, differenceAt_eq_some]
  constructor
  · rintro ⟨_, ⟨hle, hlt⟩, rfl, hd⟩
    exact ⟨hle, hlt, hd⟩
  · rintro ⟨hle, hlt, hd⟩
    exact ⟨d.1, ⟨hle, hlt⟩, rfl, hd⟩

/-- There are as many as places where sequences differ that have values everywhere. -/
theorem length_allDifferences (hA : ∀ k, k < n → (A k).isSome = true)
    (hB : ∀ k, k < n → (B k).isSome = true) :
    (allDifferences A B 0 n).length = (List.range n).countP fun k => decide (A k ≠ B k) := by
  unfold allDifferences
  rw [← List.range_eq_range', List.length_filterMap_eq_countP]
  refine List.countP_congr fun k hk => ?_
  obtain ⟨x, hx⟩ := Option.isSome_iff_exists.mp (hA k (List.mem_range.mp hk))
  obtain ⟨y, hy⟩ := Option.isSome_iff_exists.mp (hB k (List.mem_range.mp hk))
  unfold differenceAt
  rw [hx, hy]
  by_cases hxy : x = y
  · simp [hxy]
  · simp [hxy]

/-! ## Where a stream ends -/

theorem differences_eq_nil_iff {xs ys : List α} : differences off xs ys = [] ↔
    ∀ (i : Nat) (x y : α), xs[i]? = some x → ys[i]? = some y → x = y := by
  induction xs generalizing off ys with
  | nil => simp [differences]
  | cons x xs ih =>
    cases ys with
    | nil => simp [differences]
    | cons y ys =>
      unfold differences
      constructor
      · intro hnil i x' y' hx hy
        by_cases hxy : x = y
        · rw [if_pos hxy] at hnil
          cases i with
          | zero => exact (Option.some.inj hx).symm.trans (hxy.trans (Option.some.inj hy))
          | succ i => exact ih.mp hnil i x' y' hx hy
        · rw [if_neg hxy] at hnil
          cases hnil
      · intro hsame
        rw [if_pos (hsame 0 x y rfl rfl)]
        exact ih.mpr fun i x' y' hx hy => hsame (i + 1) x' y' hx hy

theorem differences_nil_left (ys : List α) : differences off [] ys = [] := by
  unfold differences
  rfl

theorem differences_nil_right (xs : List α) : differences off xs [] = [] := by
  cases xs with
  | nil => rfl
  | cons x xs => rfl

/-- Once a stream delivers nothing its cursor stays, and nothing more is compared. -/
theorem scan_eq_nil_of_end (hend : a p = [] ∨ b q = []) : scan a b fuel p q off = [] := by
  induction fuel generalizing p q off with
  | zero => rfl
  | succ fuel ih =>
    unfold scan
    split
    · rfl
    · rcases hend with ha | hb
      · rw [ih (.inl (by rw [ha, List.length_nil, Nat.add_zero, ha])), ha, differences_nil_left,
          List.append_nil]
      · rw [ih (.inr (by rw [hb, List.length_nil, Nat.add_zero, hb])), hb, differences_nil_right,
          List.append_nil]

/-- **Streams of which one ends** where the cursors are level: the loop finds the differences before. -/
theorem scan_ended (h : Level a b p)
    (hA : ∀ q i x, q + i < p → (a q)[i]? = some x → A (q + i) = some x)
    (hB : ∀ q i y, q + i < p → (b q)[i]? = some y → B (q + i) = some y)
    (hend : a p = [] ∨ b p = []) (hfuel : p ≤ fuel) :
    scan a b fuel 0 0 0 = allDifferences A B 0 p := by
  obtain ⟨left, -, hscan⟩ := scan_level h (Nat.le_refl p) hA hB hfuel
  rw [hscan, scan_eq_nil_of_end hend, List.append_nil]

/-- **Aligned streams**: where the two reads at every place reached are equally long, the loop finds
the differences of the sequences, in order. -/
theorem scan_aligned (ha : StreamOf a A n) (hb : StreamOf b B n)
    (halign : ∀ p < n, Reached a p → (a p).length = (b p).length) (hfuel : n ≤ fuel) :
    scan a b fuel 0 0 0 = allDifferences A B 0 n := by
  have hend : a n = [] := by
    rcases ha.within n with h | h
    · exact h
    · exact List.length_eq_zero_iff.mp (by omega)
  exact scan_ended (level_of_aligned ha halign .zero .start (Nat.zero_add n).symm)
    (fun q i x _ => ha.value q i x) (fun q i y _ => hb.value q i y) (.inl hend) hfuel

/-- What differs side by side is found, whatever the streams deliver afterwards. -/
theorem scan_ne_nil_of_beside {o : Nat} (h : Beside a b o)
    (hA : ∀ p i x, p + i ≤ o → (a p)[i]? = some x → A (p + i) = some x)
    (hB : ∀ p i y, p + i ≤ o → (b p)[i]? = some y → B (p + i) = some y) (hne : A o ≠ B o)
    (hfuel : o < fuel) : scan a b fuel 0 0 0 ≠ [] := by
  obtain ⟨p, hlevel, hpo, ho⟩ := h
  obtain ⟨i, rfl⟩ := Nat.exists_eq_add_of_le hpo
  obtain ⟨hi, hi'⟩ : i < (a p).length ∧ i < (b p).length := by omega
  have hx := hA p i _ (Nat.le_refl _) (List.getElem?_eq_getElem hi)
  have hy := hB p i _ (Nat.le_refl _) (List.getElem?_eq_getElem hi')
  obtain ⟨left, hleft, hscan⟩ := scan_level (A := A) (B := B) hlevel hpo
    (fun q j x hlt => hA q j x (Nat.le_of_lt hlt)) (fun q j y hlt => hB q j y (Nat.le_of_lt hlt))
    (show p ≤ fuel by omega)
  obtain ⟨k, rfl⟩ : ∃ k, left = k + 1 := Nat.exists_eq_succ_of_ne_zero (by omega)
  have hap : a p ≠ [] := List.length_pos_iff.mp (by omega)
  rw [hscan, scan, if_neg fun h => hap h.1]
  intro hnil
  have hchunk := (List.append_eq_nil_iff.mp (List.append_eq_nil_iff.mp hnil).2).1
  have hsame := differences_eq_nil_iff.mp hchunk i _ _ (List.getElem?_eq_getElem hi)
    (List.getElem?_eq_getElem hi')
  exact hne (hx.trans ((congrArg some hsame).trans hy.symm))

end Lockstep
