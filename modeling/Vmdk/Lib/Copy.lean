import Mathlib.Tactic.Common
import Mathlib.Data.List.Basic

/-! # Copying from a reader whose reads may be short

A loop reads at most so many values at a time, until all that are wanted have
come or a read delivers nothing, and hands what each read delivers to a writer.
Where every read delivers the next values of a sequence, and at least one while
any are left, the loop delivers exactly the window that was wanted, cut at the
end (`pump_window`), however the reads were cut. Where a read may also fail, a loop
that succeeds has still delivered as much (`pump_complete`, `drain_complete`). The
writer may be a file, which has a cursor of its own (`OutFile`). -/
namespace Copy

variable {σ τ α ε : Type}

/-- The loop: `n` values are still wanted, and `ask n` of them at most are read at once. -/
def pump (read : σ → Nat → Except ε (List α) × σ) (write : τ → List α → τ) (ask : Nat → Nat) :
    (fuel : Nat) → σ → τ → (n : Nat) → Except ε Unit × σ × τ
  | 0, s, t, _ => (.ok (), s, t)
  | fuel + 1, s, t, n =>
    if n = 0 then (.ok (), s, t) else
    match read s (ask n) with
    | (.error e, s) => (.error e, s, t)
    | (.ok [], s) => (.ok (), s, t)
    | (.ok (x :: xs), s) => pump read write ask fuel s (write t (x :: xs)) (n - (x :: xs).length)

/-- The `n` values of `A` from `p` on. -/
def window (A : Nat → α) (p n : Nat) : List α := (List.range' p n).map A

@[simp] theorem length_window (A : Nat → α) (p n : Nat) : (window A p n).length = n := by
  rw [window, List.length_map, List.length_range']

theorem window_append (A : Nat → α) (p n m : Nat) :
    window A p n ++ window A (p + n) m = window A p (n + m) := by
  unfold window
  rw [← List.map_append, List.range'_append_1]

theorem getElem?_window (A : Nat → α) {p n i : Nat} (hi : i < n) :
    (window A p n)[i]? = some (A (p + i)) := by
  rw [window, List.getElem?_map, List.getElem?_range' hi, Option.map_some, Nat.one_mul]

/-- The values of a list are a window when each of them is in its place. -/
theorem eq_window {A : Nat → α} {p : Nat} {xs : List α}
    (h : ∀ i x, xs[i]? = some x → x = A (p + i)) : xs = window A p xs.length := by
  refine List.ext_getElem? fun i => ?_
  rcases Nat.lt_or_ge i xs.length with hi | hi
  · rw [getElem?_window A hi, List.getElem?_eq_getElem hi]
    exact congrArg some (h i _ (List.getElem?_eq_getElem hi))
  · rw [List.getElem?_eq_none hi, List.getElem?_eq_none (by rw [length_window]; exact hi)]

/-- `At p s`: the reader `s` is at place `p` of the first `size` values of `A`. A read delivers the
next of them, at least one while any are left, and moves the reader over them. -/
structure Serves (read : σ → Nat → Except ε (List α) × σ) (At : Nat → σ → Prop) (A : Nat → α)
    (size : Nat) : Prop where
  deliver : ∀ {p s len}, At p s → p < size → 0 < len → ∃ x xs s', read s len = (.ok (x :: xs), s') ∧
    (x :: xs).length ≤ min len (size - p) ∧ x :: xs = window A p (x :: xs).length ∧
    At (p + (x :: xs).length) s'
  finish : ∀ {p s len}, At p s → size ≤ p → ∃ s', read s len = (.ok [], s') ∧ At p s'

variable {read : σ → Nat → Except ε (List α) × σ} {At : Nat → σ → Prop} {A : Nat → α} {size : Nat}
  {write : τ → List α → τ} {ask : Nat → Nat}

/-- **The loop delivers the window that is wanted**, cut at the end of the sequence, and leaves the
reader after it. -/
theorem pump_window (hread : Serves read At A size) (hnil : ∀ t, write t [] = t)
    (happend : ∀ t xs ys, write (write t xs) ys = write t (xs ++ ys))
    (hask : ∀ n, 0 < n → 0 < ask n ∧ ask n ≤ n) {fuel p n : Nat} {s : σ} (hs : At p s)
    (hfuel : n ≤ fuel) (t : τ) :
    ∃ s', pump read write ask fuel s t n =
        (.ok (), s', write t (window A p (min n (size - p)))) ∧
      At (p + min n (size - p)) s' := by
  induction fuel generalizing p n s t with
  | zero =>
    rw [Nat.le_zero.mp hfuel, Nat.zero_min]
    exact ⟨s, by rw [pump]; exact congrArg _ (congrArg _ (hnil t).symm), hs⟩
  | succ fuel ih =>
    unfold pump
    by_cases hn : n = 0
    · rw [if_pos hn, hn, Nat.zero_min]
      exact ⟨s, congrArg _ (congrArg _ (hnil t).symm), hs⟩
    rw [if_neg hn]
    rcases Nat.lt_or_ge p size with hp | hp
    · obtain ⟨hpos, hle⟩ := hask n (Nat.pos_of_ne_zero hn)
      obtain ⟨x, xs, s', hdeliver, hlen, hvalues, hs'⟩ := hread.deliver hs hp hpos
      have hlenPos : 0 < (x :: xs).length := Nat.succ_pos _
      obtain ⟨s'', hrest, hs''⟩ := ih (n := n - (x :: xs).length) hs' (by omega)
        (write t (x :: xs))
      have hsum : (x :: xs).length + min (n - (x :: xs).length) (size - (p + (x :: xs).length)) =
          min n (size - p) := by omega
      refine ⟨s'', ?_, by rw [← hsum, ← Nat.add_assoc]; exact hs''⟩
      simp only [hdeliver]
      rw [hrest, happend, ← hsum, ← window_append, ← hvalues]
    · obtain ⟨s', hfinish, hs'⟩ : ∃ s', read s (ask n) = (.ok [], s') ∧ At p s' :=
        hread.finish hs hp
      have hnone : min n (size - p) = 0 := by omega
      refine ⟨s', ?_, by rw [hnone]; exact hs'⟩
      simp only [hfinish]
      rw [hnone]
      exact congrArg _ (congrArg _ (hnil t).symm)

variable (write) in
/-- **The loop writes the window in parts**: none is empty, and none longer than what was asked for. -/
theorem pump_parts (hread : Serves read At A size) (hask : ∀ n, 0 < n → 0 < ask n ∧ ask n ≤ n)
    {fuel p n : Nat} {s : σ} (hs : At p s) (hfuel : n ≤ fuel) (t : τ) :
    ∃ (parts : List (List α)) (s' : σ),
      pump read write ask fuel s t n = (.ok (), s', parts.foldl write t) ∧
        parts.flatten = window A p (min n (size - p)) ∧
        ∀ part ∈ parts, 0 < part.length ∧ ∃ m, part.length ≤ ask m := by
  induction fuel generalizing p n s t with
  | zero =>
    rw [Nat.le_zero.mp hfuel, Nat.zero_min]
    exact ⟨[], s, rfl, rfl, List.forall_mem_nil _⟩
  | succ fuel ih =>
    unfold pump
    by_cases hn : n = 0
    · rw [if_pos hn, hn, Nat.zero_min]
      exact ⟨[], s, rfl, rfl, List.forall_mem_nil _⟩
    rw [if_neg hn]
    rcases Nat.lt_or_ge p size with hp | hp
    · obtain ⟨hpos, hle⟩ := hask n (Nat.pos_of_ne_zero hn)
      obtain ⟨x, xs, s', hdeliver, hlen, hvalues, hs'⟩ := hread.deliver hs hp hpos
      have hlenPos : 0 < (x :: xs).length := Nat.succ_pos _
      obtain ⟨parts, s'', hrest, hflat, hparts⟩ := ih (n := n - (x :: xs).length) hs' (by omega)
        (write t (x :: xs))
      have hsum : (x :: xs).length + min (n - (x :: xs).length) (size - (p + (x :: xs).length)) =
          min n (size - p) := by omega
      refine ⟨(x :: xs) :: parts, s'', ?_, ?_, List.forall_mem_cons.mpr ⟨⟨hlenPos, n, ?_⟩, hparts⟩⟩
      · simp only [hdeliver]
        exact hrest
      · rw [List.flatten_cons, hflat, ← hsum, ← window_append, ← hvalues]
      · exact Nat.le_trans hlen (Nat.min_le_left _ _)
    · obtain ⟨s', hfinish, -⟩ : ∃ s', read s (ask n) = (.ok [], s') ∧ At p s' := hread.finish hs hp
      rw [Nat.sub_eq_zero_of_le hp, Nat.min_zero]
      refine ⟨[], s', ?_, rfl, List.forall_mem_nil _⟩
      simp only [hfinish]
      rfl

/-- `At p s`: the reader `s` is at place `p` of `size` values. A read that succeeds delivers none beyond
the end, and moves the reader over what it delivers. -/
structure Bounded (read : σ → Nat → Except ε (List α) × σ) (At : Nat → σ → Prop) (size : Nat) :
    Prop where
  deliver : ∀ {p s len xs s'}, At p s → p < size → read s len = (.ok xs, s') →
    xs.length ≤ min len (size - p) ∧ At (p + xs.length) s'
  finish : ∀ {p s len xs s'}, At p s → size ≤ p → read s len = (.ok xs, s') → xs = [] ∧ At p s'

/-- It delivers at least one while any are left. -/
structure Steady (read : σ → Nat → Except ε (List α) × σ) (At : Nat → σ → Prop) (size : Nat) :
    Prop extends Bounded read At size where
  progress : ∀ {p s len xs s'}, At p s → p < size → 0 < len → read s len = (.ok xs, s') → xs ≠ []

/-- **A loop that succeeds has delivered all that it should**: as many values as are wanted, cut at the end
of the sequence. It leaves the reader after them. -/
theorem pump_complete (hread : Steady read At size) (hask : ∀ n, 0 < n → 0 < ask n ∧ ask n ≤ n)
    {fuel p n : Nat} {s s' : σ} {t t' : τ} (hs : At p s) (hfuel : n ≤ fuel)
    (h : pump read write ask fuel s t n = (.ok (), s', t')) :
    ∃ parts : List (List α), t' = parts.foldl write t ∧ parts.flatten.length = min n (size - p) ∧
      At (p + min n (size - p)) s' := by
  induction fuel generalizing p n s t with
  | zero =>
    cases h
    rw [Nat.le_zero.mp hfuel, Nat.zero_min]
    exact ⟨[], rfl, rfl, hs⟩
  | succ fuel ih =>
    unfold pump at h
    by_cases hn : n = 0
    · rw [if_pos hn] at h
      cases h
      rw [hn, Nat.zero_min]
      exact ⟨[], rfl, rfl, hs⟩
    rw [if_neg hn] at h
    obtain ⟨hpos, hle⟩ := hask n (Nat.pos_of_ne_zero hn)
    rcases hstep : read s (ask n) with ⟨e | xs, s''⟩
    · rw [hstep] at h
      cases h
    rw [hstep] at h
    rcases Nat.lt_or_ge p size with hp | hp
    · obtain ⟨hlen, hs''⟩ := hread.deliver hs hp hstep
      cases xs with
      | nil => exact absurd rfl (hread.progress hs hp hpos hstep)
      | cons x xs =>
        have hone : 0 < (x :: xs).length := Nat.succ_pos _
        obtain ⟨parts, hparts, hrest, hs'⟩ := ih hs'' (by omega) h
        have hsum : (x :: xs).length + min (n - (x :: xs).length) (size - (p + (x :: xs).length)) =
            min n (size - p) := by omega
        refine ⟨(x :: xs) :: parts, hparts, ?_, ?_⟩
        · rw [List.flatten_cons, List.length_append, hrest, hsum]
        · rw [← hsum, ← Nat.add_assoc]
          exact hs'
    · obtain ⟨hnil, hs''⟩ := hread.finish hs hp hstep
      rw [hnil] at h
      cases h
      rw [Nat.sub_eq_zero_of_le hp, Nat.min_zero]
      exact ⟨[], rfl, rfl, hs''⟩

/-! ## Reading to the end -/

/-- The loop that knows no count: it reads `len` values at a time until a read delivers nothing. -/
def drain (read : σ → Nat → Except ε (List α) × σ) (len : Nat) :
    (fuel : Nat) → σ → (got : List α) → Option (Except ε (List α) × σ)
  | 0, _, _ => none
  | fuel + 1, s, got =>
    match read s len with
    | (.error e, s) => some (.error e, s)
    | (.ok [], s) => some (.ok got, s)
    | (.ok (x :: xs), s) => drain read len fuel s (got ++ x :: xs)

/-- One round for each value left, and one for the end, are enough. -/
theorem drain_returns (hread : Bounded read At size) {fuel len p : Nat} {s : σ} (hs : At p s)
    (hfuel : size - p < fuel) (got : List α) :
    ∃ res s', drain read len fuel s got = some (res, s') := by
  induction fuel generalizing p s got with
  | zero => exact absurd hfuel (Nat.not_lt_zero _)
  | succ fuel ih =>
    unfold drain
    rcases hstep : read s len with ⟨e | xs, s''⟩
    · exact ⟨_, _, rfl⟩
    cases xs with
    | nil => exact ⟨_, _, rfl⟩
    | cons x xs =>
      rcases Nat.lt_or_ge p size with hp | hp
      · obtain ⟨-, hs''⟩ := hread.deliver hs hp hstep
        have hone : 0 < (x :: xs).length := Nat.succ_pos _
        exact ih hs'' (by omega) _
      · cases (hread.finish hs hp hstep).1

/-- **A loop that comes to the end has delivered all that was left.** -/
theorem drain_complete (hread : Steady read At size) {fuel len p : Nat} {s s' : σ} {got all : List α}
    (hlen : 0 < len) (hs : At p s) (h : drain read len fuel s got = some (.ok all, s')) :
    all.length = got.length + (size - p) := by
  induction fuel generalizing p s got with
  | zero => cases h
  | succ fuel ih =>
    unfold drain at h
    rcases hstep : read s len with ⟨e | xs, s''⟩
    · rw [hstep] at h
      cases h
    rw [hstep] at h
    rcases Nat.lt_or_ge p size with hp | hp
    · obtain ⟨hle, hs''⟩ := hread.deliver hs hp hstep
      cases xs with
      | nil => exact absurd rfl (hread.progress hs hp hlen hstep)
      | cons x xs =>
        rw [ih hs'' h, List.length_append]
        omega
    · have hnil : xs = [] := (hread.finish hs hp hstep).1
      rw [hnil] at h
      cases h
      omega

/-- **Reading to the end delivers all that is left**, in order. -/
theorem drain_window (hread : Serves read At A size) {fuel len p : Nat} {s : σ} (hlen : 0 < len)
    (hs : At p s) (hfuel : size - p < fuel) (got : List α) :
    ∃ s', drain read len fuel s got = some (.ok (got ++ window A p (size - p)), s') := by
  induction fuel generalizing p s got with
  | zero => exact absurd hfuel (Nat.not_lt_zero _)
  | succ fuel ih =>
    unfold drain
    rcases Nat.lt_or_ge p size with hp | hp
    · obtain ⟨x, xs, s', hdeliver, hle, hvalues, hs'⟩ := hread.deliver hs hp hlen
      have hone : 0 < (x :: xs).length := Nat.succ_pos _
      obtain ⟨s'', hrest⟩ := ih hs' (by omega) (got ++ x :: xs)
      have hsum : (x :: xs).length + (size - (p + (x :: xs).length)) = size - p := by omega
      refine ⟨s'', ?_⟩
      simp only [hdeliver]
      rw [hrest, List.append_assoc, ← hsum, ← window_append, ← hvalues]
    · obtain ⟨s', hfinish, -⟩ : ∃ s', read s len = (.ok [], s') ∧ At p s' := hread.finish hs hp
      refine ⟨s', ?_⟩
      simp only [hfinish]
      rw [Nat.sub_eq_zero_of_le hp]
      exact congrArg (fun all => some (Except.ok all, s')) (List.append_nil got).symm

end Copy

/-! ## A file that is written -/

/-- The bytes of a file open for writing, and its cursor. -/
structure OutFile where
  bytes : List UInt8
  pos : Nat
deriving DecidableEq, Repr

namespace OutFile

/-- A file just created. -/
def create : OutFile := ⟨[], 0⟩

/-- `set_len`: cut, or extended with zeros; the cursor stays. -/
def setLen (f : OutFile) (n : Nat) : OutFile :=
  { f with bytes := f.bytes.take n ++ List.replicate (n - f.bytes.length) 0 }

/-- `seek(SeekFrom::Start(off))`. -/
def seek (f : OutFile) (off : Nat) : OutFile := { f with pos := off }

/-- The bytes before the cursor; a gap before it reads as zeros. -/
def front (f : OutFile) : List UInt8 :=
  (f.bytes ++ List.replicate (f.pos - f.bytes.length) 0).take f.pos

/-- `write_all` at the cursor. -/
def writeAll (f : OutFile) (bs : List UInt8) : OutFile :=
  if bs = [] then f else
  { bytes := f.front ++ bs ++ f.bytes.drop (f.pos + bs.length), pos := f.pos + bs.length }

variable {f : OutFile} {xs ys : List UInt8} {o : Nat}

theorem length_front : f.front.length = f.pos := by
  unfold front
  rw [List.length_take, List.length_append, List.length_replicate]
  omega

theorem front_of_append {as bs : List UInt8} (h : f.bytes = as ++ bs) (hlen : as.length = f.pos) :
    f.front = as := by
  unfold front
  rw [h, List.append_assoc, ← hlen, List.take_left]

theorem writeAll_nil (f : OutFile) : f.writeAll [] = f := if_pos rfl

theorem writeAll_of_ne (h : xs ≠ []) : f.writeAll xs =
    ⟨f.front ++ xs ++ f.bytes.drop (f.pos + xs.length), f.pos + xs.length⟩ := if_neg h

/-- Two writes are one write of both. -/
theorem writeAll_append (f : OutFile) (xs ys : List UInt8) :
    (f.writeAll xs).writeAll ys = f.writeAll (xs ++ ys) := by
  by_cases hx : xs = []
  · rw [hx, writeAll_nil, List.nil_append]
  by_cases hy : ys = []
  · rw [hy, writeAll_nil, List.append_nil]
  have hlen : (f.front ++ xs).length = f.pos + xs.length := by
    rw [List.length_append, length_front]
  have hboth : xs ++ ys ≠ [] := fun h => hx (List.append_eq_nil_iff.mp h).1
  rw [writeAll_of_ne hx, writeAll_of_ne hy, writeAll_of_ne hboth, front_of_append rfl hlen]
  have hrest : (f.front ++ xs ++ f.bytes.drop (f.pos + xs.length)).drop
      (f.pos + xs.length + ys.length) = f.bytes.drop (f.pos + (xs ++ ys).length) := by
    rw [← List.drop_drop, ← hlen, List.drop_left, hlen, List.drop_drop, List.length_append,
      Nat.add_assoc]
  simp only [hrest]
  simp only [List.append_assoc, List.length_append, Nat.add_assoc]

theorem foldl_writeAll (f : OutFile) (parts : List (List UInt8)) :
    parts.foldl writeAll f = f.writeAll parts.flatten := by
  induction parts generalizing f with
  | nil => exact (writeAll_nil f).symm
  | cons xs parts ih => rw [List.foldl_cons, ih, writeAll_append, List.flatten_cons]

theorem bytes_writeAll_create (xs : List UInt8) : (create.writeAll xs).bytes = xs := by
  by_cases hx : xs = []
  · rw [hx, writeAll_nil]
    rfl
  · rw [writeAll_of_ne hx]
    change [] ++ xs ++ [].drop _ = xs
    rw [List.drop_nil, List.append_nil, List.nil_append]

theorem bytes_setLen_create (n : Nat) : (create.setLen n).bytes = List.replicate n 0 := by
  change [].take n ++ List.replicate (n - 0) 0 = _
  rw [List.take_nil, List.nil_append, Nat.sub_zero]

variable (hin : f.pos + xs.length ≤ f.bytes.length)
include hin

/-- A write inside the file keeps its length. -/
theorem length_writeAll : (f.writeAll xs).bytes.length = f.bytes.length := by
  by_cases hx : xs = []
  · rw [hx, writeAll_nil]
  · rw [writeAll_of_ne hx]
    simp only [List.length_append, length_front, List.length_drop]
    omega

/-- A write inside the file replaces the bytes that it covers. -/
theorem getElem?_writeAll : (f.writeAll xs).bytes[o]? =
    if f.pos ≤ o ∧ o < f.pos + xs.length then xs[o - f.pos]? else f.bytes[o]? := by
  by_cases hx : xs = []
  · rw [hx, writeAll_nil, if_neg (by rw [List.length_nil]; omega)]
  have hfront : f.front = f.bytes.take f.pos := by
    rw [front_of_append (List.take_append_drop f.pos f.bytes).symm]
    rw [List.length_take]
    omega
  rw [writeAll_of_ne hx, List.append_assoc]
  rcases Nat.lt_or_ge o f.pos with ho | ho
  · rw [if_neg (by omega), List.getElem?_append_left (by rw [length_front]; exact ho), hfront,
      List.getElem?_take_of_lt ho]
  · rw [List.getElem?_append_right (by rw [length_front]; exact ho), length_front]
    rcases Nat.lt_or_ge o (f.pos + xs.length) with hlt | hge
    · rw [if_pos ⟨ho, hlt⟩, List.getElem?_append_left (by omega)]
    · rw [if_neg (by omega), List.getElem?_append_right (by omega), List.getElem?_drop]
      exact congrArg (f.bytes[·]?) (by omega)

end OutFile
