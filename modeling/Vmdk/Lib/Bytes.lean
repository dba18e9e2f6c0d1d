import Mathlib.Algebra.Order.Ring.Int
import Mathlib.Tactic.Common
import Mathlib.Data.List.Basic

/-! # Byte strings: windows, little-endian numbers and packed tables

A window of a list is cut by offset and length; it is shorter than asked where
the list ends. A table is the list of numbers in consecutive windows of one
width. Windows, numbers and tables depend on the bytes they cover only
(`AgreeOn`). -/
namespace Bytes

variable {α : Type}

/-- The `n` elements of `l` from position `off` on, fewer where `l` ends. -/
def slice (l : List α) (off n : Nat) : List α := (l.drop off).take n

@[simp] theorem length_slice (l : List α) (off n : Nat) :
    (slice l off n).length = min n (l.length - off) := by
  simp [slice]

theorem length_slice_of_le {l : List α} {off n : Nat} (h : off + n ≤ l.length) :
    (slice l off n).length = n := by
  rw [length_slice]; omega

theorem getElem?_slice (l : List α) (off n i : Nat) :
    (slice l off n)[i]? = if i < n then l[off + i]? else none := by
  rw [slice, List.getElem?_take]
  simp only [List.getElem?_drop]

@[simp] theorem slice_zero (l : List α) (off : Nat) : slice l off 0 = [] := by
  simp [slice]

theorem slice_eq_nil_iff {l : List α} {off n : Nat} :
    slice l off n = [] ↔ n = 0 ∨ l.length ≤ off := by
  rw [← List.length_eq_zero_iff, length_slice]; omega

theorem slice_slice (l : List α) (off n off' n' : Nat) (h : off' + n' ≤ n) :
    slice (slice l off n) off' n' = slice l (off + off') n' := by
  rw [slice, slice, List.drop_take, List.take_take, List.drop_drop, slice]
  congr 1
  omega

/-- A window is its first `n` elements followed by the rest. -/
theorem slice_append (l : List α) (off n m : Nat) :
    slice l off n ++ slice l (off + n) m = slice l off (n + m) := by
  rw [slice, slice, slice, List.take_add, List.drop_drop]

/-- Two lists hold the same elements in `[off, off + n)`. -/
def AgreeOn (l l' : List α) (off n : Nat) : Prop :=
  ∀ k, off ≤ k → k < off + n → l[k]? = l'[k]?

theorem AgreeOn.mono {l l' : List α} {off n off' n' : Nat} (h : AgreeOn l l' off n)
    (hlo : off ≤ off') (hhi : off' + n' ≤ off + n) : AgreeOn l l' off' n' :=
  fun k hk hk' => h k (by omega) (by omega)

theorem AgreeOn.slice_eq {l l' : List α} {off n : Nat} (h : AgreeOn l l' off n) :
    slice l off n = slice l' off n := by
  apply List.ext_getElem?
  intro i
  rw [getElem?_slice, getElem?_slice]
  split
  · exact h (off + i) (by omega) (by omega)
  · rfl

theorem agreeOn_iff {l l' : List α} {off n : Nat} :
    AgreeOn l l' off n ↔ slice l off n = slice l' off n := by
  refine ⟨AgreeOn.slice_eq, fun h k hk hlt => ?_⟩
  have hi := congrArg (·[k - off]?) h
  simp only [getElem?_slice, if_pos (show k - off < n by omega)] at hi
  rwa [show off + (k - off) = k by omega] at hi

instance [DecidableEq α] (l l' : List α) (off n : Nat) : Decidable (AgreeOn l l' off n) :=
  decidable_of_iff _ agreeOn_iff.symm

/-- Lists that begin alike agree there. -/
theorem agreeOn_append {l m m' : List α} {off n : Nat} (h : off + n ≤ l.length) :
    AgreeOn (l ++ m) (l ++ m') off n := by
  intro k _ hk
  rw [List.getElem?_append_left (by omega), List.getElem?_append_left (by omega)]

/-! ## Little-endian numbers -/

/-- The number whose base-256 digits are `bs`, least significant first. -/
def leNat : List UInt8 → Nat
  | [] => 0
  | b :: bs => b.toNat + 256 * leNat bs

/-- The number whose base-256 digits are `bs`, most significant first. -/
def beNat (bs : List UInt8) : Nat := leNat bs.reverse

theorem leNat_lt (bs : List UInt8) : leNat bs < 256 ^ bs.length := by
  induction bs with
  | nil => simp [leNat]
  | cons b bs ih =>
    have hb : b.toNat < 256 := b.toNat_lt
    simp only [leNat, List.length_cons, Nat.pow_succ]
    omega

/-- The `w`-byte little-endian number at `off`, where all of it is present. -/
def leAt (w : Nat) (bs : List UInt8) (off : Nat) : Option Nat :=
  if off + w ≤ bs.length then some (leNat (slice bs off w)) else none

theorem leAt_eq_some {w off v : Nat} {bs : List UInt8} :
    leAt w bs off = some v ↔ off + w ≤ bs.length ∧ v = leNat (slice bs off w) := by
  unfold leAt
  split
  · next h => simp only [Option.some.injEq, h, true_and]; exact eq_comm
  · next h => simp [h]

theorem leNat_slice_lt (w off : Nat) (bs : List UInt8) :
    leNat (slice bs off w) < 256 ^ w := by
  have h := leNat_lt (slice bs off w)
  have hl : (slice bs off w).length ≤ w := by rw [length_slice]; omega
  exact Nat.lt_of_lt_of_le h (Nat.pow_le_pow_right (by omega) hl)

/-- The `w` lowest base-256 digits of `n`, least significant first. -/
def leBytes : (w n : Nat) → List UInt8
  | 0, _ => []
  | w + 1, n => UInt8.ofNat n :: leBytes w (n / 256)

@[simp] theorem length_leBytes (w n : Nat) : (leBytes w n).length = w := by
  induction w generalizing n with
  | zero => rfl
  | succ w ih => rw [leBytes, List.length_cons, ih]

/-- A number is recovered from as many digits as it has. -/
theorem leNat_leBytes {w n : Nat} (h : n < 256 ^ w) : leNat (leBytes w n) = n := by
  induction w generalizing n with
  | zero => rw [leBytes, leNat]; omega
  | succ w ih =>
    have hdiv : n / 256 < 256 ^ w := by
      rw [Nat.pow_succ] at h
      omega
    rw [leBytes, leNat, ih hdiv, UInt8.toNat_ofNat']
    omega

theorem slice_append_left {l m : List α} {n : Nat} (h : l.length = n) : slice (l ++ m) 0 n = l := by
  rw [slice, List.drop_zero, List.take_left' h]

theorem slice_append_right {l m : List α} {k off n : Nat} (h : l.length = k) :
    slice (l ++ m) (k + off) n = slice m off n := by
  rw [slice, slice, List.drop_append, ← h, List.drop_of_length_le (by omega), List.nil_append,
    Nat.add_sub_cancel_left]

/-- A record of numbers, each with the width it is written in. -/
def record (fields : List (Nat × Nat)) : List UInt8 := fields.flatMap fun f => leBytes f.1 f.2

def recordWidth (fields : List (Nat × Nat)) : Nat := (fields.map Prod.fst).sum

@[simp] theorem length_record (fields : List (Nat × Nat)) :
    (record fields).length = recordWidth fields := by
  simp [record, recordWidth, List.length_flatMap]

/-- Field `k` is read back at the place where those before it end, whatever follows the record. -/
theorem leNat_record {fields : List (Nat × Nat)} {w v off : Nat} (k : Nat) (rest : List UInt8)
    (hk : fields[k]? = some (w, v)) (hoff : recordWidth (fields.take k) = off) (h : v < 256 ^ w) :
    leNat (slice (record fields ++ rest) off w) = v := by
  obtain ⟨hlt, hget⟩ := List.getElem?_eq_some_iff.mp hk
  have hfields : fields = fields.take k ++ (w, v) :: fields.drop (k + 1) := by
    rw [← hget, ← List.drop_eq_getElem_cons hlt, List.take_append_drop]
  have hsplit : record fields ++ rest =
      record (fields.take k) ++ (leBytes w v ++ (record (fields.drop (k + 1)) ++ rest)) := by
    conv_lhs => rw [hfields]
    simp only [record, List.flatMap_append, List.flatMap_cons, List.append_assoc]
  rw [hsplit, ← Nat.add_zero off]
  rw [slice_append_right ((length_record _).trans hoff), slice_append_left (length_leBytes w v),
    leNat_leBytes h]

/-- The numbers in the consecutive whole `w`-byte windows of `bs`. -/
def leTable (w : Nat) (bs : List UInt8) : List Nat :=
  (List.range (bs.length / w)).map fun i => leNat (slice bs (i * w) w)

@[simp] theorem length_leTable (w : Nat) (bs : List UInt8) :
    (leTable w bs).length = bs.length / w := by simp [leTable]

theorem getD_leTable {w i : Nat} {bs : List UInt8} (h : i < bs.length / w) :
    (leTable w bs).getD i 0 = leNat (slice bs (i * w) w) := by
  simp [leTable, List.getD_eq_getElem?_getD, h]

/-- Entry `i` of a table read from a file is the number at its place in the file. -/
theorem getD_leTable_slice {w off n i : Nat} {bs : List UInt8} (hw : 0 < w)
    (hn : off + n * w ≤ bs.length) (hi : i < n) :
    (leTable w (slice bs off (n * w))).getD i 0 = leNat (slice bs (off + i * w) w) := by
  have hlen : (slice bs off (n * w)).length / w = n := by
    rw [length_slice_of_le hn, Nat.mul_div_cancel _ hw]
  have hiw : i * w + w ≤ n * w := by
    rw [← Nat.succ_mul]; exact Nat.mul_le_mul_right w hi
  rw [getD_leTable (by omega), slice_slice _ _ _ _ _ hiw]

/-- The entries of a table read from a file. -/
theorem mem_leTable_slice {w off n v : Nat} {bs : List UInt8} (hw : 0 < w)
    (hn : off + n * w ≤ bs.length) :
    v ∈ leTable w (slice bs off (n * w)) ↔ ∃ i < n, v = leNat (slice bs (off + i * w) w) := by
  have hlen : (slice bs off (n * w)).length / w = n := by
    rw [length_slice_of_le hn, Nat.mul_div_cancel _ hw]
  unfold leTable
  rw [hlen, List.mem_map]
  refine exists_congr fun i => ?_
  rw [List.mem_range]
  refine and_congr_right fun hi => ?_
  have hiw : i * w + w ≤ n * w := by
    rw [← Nat.succ_mul]
    exact Nat.mul_le_mul_right w hi
  rw [slice_slice _ _ _ _ _ hiw, eq_comm]

theorem leTable_lt {w : Nat} {bs : List UInt8} {v : Nat} (h : v ∈ leTable w bs) : v < 256 ^ w := by
  simp only [leTable, List.mem_map, List.mem_range] at h
  obtain ⟨i, _, rfl⟩ := h
  exact leNat_slice_lt _ _ _

end Bytes
