import Mathlib.Algebra.BigOperators.Ring.List
import Vmdk.Lib.Bytes

/-! # Blocks placed one after another

A packed list of blocks is their concatenation. Block `i` begins where the
blocks before it end (`start`) and is read back from there, whatever its length
and whatever stands around the packed list; blocks of one length begin at the
multiples of it. -/
namespace Pack
open Bytes

variable {α : Type} {blocks : List (List α)} {b : List α} {i j r w : Nat}

/-- Where block `i` begins. -/
def start (blocks : List (List α)) (i : Nat) : Nat := (blocks.take i).flatten.length

@[simp] theorem start_zero (blocks : List (List α)) : start blocks 0 = 0 := rfl

theorem start_length (blocks : List (List α)) : start blocks blocks.length = blocks.flatten.length := by
  unfold start
  rw [List.take_length]

/-- The packed list from block `i` on. -/
theorem flatten_split (h : blocks[i]? = some b) :
    blocks.flatten = (blocks.take i).flatten ++ (b ++ (blocks.drop (i + 1)).flatten) := by
  obtain ⟨hi, rfl⟩ := List.getElem?_eq_some_iff.mp h
  rw [← List.flatten_cons, ← List.drop_eq_getElem_cons hi, ← List.flatten_append,
    List.take_append_drop]

theorem start_succ (h : blocks[i]? = some b) : start blocks (i + 1) = start blocks i + b.length := by
  obtain ⟨hi, rfl⟩ := List.getElem?_eq_some_iff.mp h
  unfold start
  rw [List.take_succ_eq_append_getElem hi, List.flatten_append, List.length_append,
    List.flatten_singleton]

theorem start_mono (h : i ≤ j) : start blocks i ≤ start blocks j := by
  unfold start
  rw [← Nat.add_sub_cancel' h, List.take_add, List.flatten_append, List.length_append]
  exact Nat.le_add_right _ _

theorem start_le (blocks : List (List α)) (i : Nat) : start blocks i ≤ blocks.flatten.length := by
  rcases Nat.le_total i blocks.length with hi | hi
  · rw [← start_length]
    exact start_mono hi
  · unfold start
    rw [List.take_of_length_le hi]

/-- **A block is read back from its place**, whatever stands behind the packed list. -/
theorem slice_flatten (h : blocks[i]? = some b) (rest : List α) :
    slice (blocks.flatten ++ rest) (start blocks i) b.length = b := by
  have hstart : (blocks.take i).flatten.length = start blocks i := rfl
  rw [flatten_split h, List.append_assoc, List.append_assoc, ← Nat.add_zero (start blocks i),
    slice_append_right hstart, slice_append_left rfl]

/-- A part of a block is read back from its place. -/
theorem slice_within (h : blocks[i]? = some b) (rest : List α) {off n : Nat}
    (hin : off + n ≤ b.length) :
    slice (blocks.flatten ++ rest) (start blocks i + off) n = slice b off n := by
  rw [← slice_slice _ _ b.length off n hin, slice_flatten h]

theorem getElem?_flatten (h : blocks[i]? = some b) (hr : r < b.length) (rest : List α) :
    (blocks.flatten ++ rest)[start blocks i + r]? = b[r]? := by
  have hstart : (blocks.take i).flatten.length = start blocks i := rfl
  rw [flatten_split h, List.append_assoc, List.getElem?_append_right (by omega), hstart,
    Nat.add_sub_cancel_left, List.append_assoc, List.getElem?_append_left hr]

/-- Every place lies in a block. -/
theorem exists_block {o : Nat} (h : o < blocks.flatten.length) :
    ∃ i b r, blocks[i]? = some b ∧ r < b.length ∧ o = start blocks i + r := by
  induction blocks generalizing o with
  | nil => exact absurd h (Nat.not_lt_zero o)
  | cons b blocks ih =>
    rcases Nat.lt_or_ge o b.length with ho | ho
    · exact ⟨0, b, o, rfl, ho, (Nat.zero_add o).symm⟩
    · rw [List.flatten_cons, List.length_append] at h
      obtain ⟨i, b', r, hb', hr, heq⟩ := @ih (o - b.length) (by omega)
      refine ⟨i + 1, b', r, hb', hr, ?_⟩
      unfold start at heq ⊢
      rw [List.take_succ_cons, List.flatten_cons, List.length_append]
      omega

theorem dvd_start (h : ∀ b ∈ blocks, w ∣ b.length) (i : Nat) : w ∣ start blocks i := by
  unfold start
  rw [List.length_flatten]
  refine List.dvd_sum fun n hn => ?_
  obtain ⟨b, hb, rfl⟩ := List.mem_map.mp hn
  exact h b (List.mem_of_mem_take hb)

/-- Blocks of one length begin at its multiples. -/
theorem start_uniform (h : ∀ b ∈ blocks, b.length = w) (hi : i ≤ blocks.length) :
    start blocks i = i * w := by
  induction i with
  | zero => rw [start_zero, Nat.zero_mul]
  | succ i ih =>
    have hget : blocks[i]? = some blocks[i] := List.getElem?_eq_getElem hi
    rw [start_succ hget, ih (Nat.le_of_succ_le hi), h _ (List.getElem_mem hi), Nat.succ_mul]

theorem length_uniform (h : ∀ b ∈ blocks, b.length = w) :
    blocks.flatten.length = blocks.length * w := by
  rw [← start_length, start_uniform h (Nat.le_refl _)]

/-- The element at a place of blocks of one length. -/
theorem getElem?_uniform (h : ∀ b ∈ blocks, b.length = w) (hw : 0 < w) {o : Nat}
    (hb : blocks[o / w]? = some b) : blocks.flatten[o]? = b[o % w]? := by
  obtain ⟨hi, hget⟩ := List.getElem?_eq_some_iff.mp hb
  have hlen : b.length = w := h b (hget ▸ List.getElem_mem hi)
  have hr : o % w < b.length := Nat.lt_of_lt_of_eq (Nat.mod_lt o hw) hlen.symm
  have hplace := getElem?_flatten hb hr []
  rw [List.append_nil] at hplace
  rwa [start_uniform h (Nat.le_of_lt hi), Nat.mul_comm, Nat.div_add_mod] at hplace

end Pack
