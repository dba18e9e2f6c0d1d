import Mathlib.Tactic.Common

/-! # Offsets in blocks of one size

An offset lies in block `o / g` at place `o % g`. A stretch that does not reach
the end of a block stays in the block it starts in. -/
namespace Blocks

variable {g o i : Nat}

theorem add_lt_of_within (hg : 0 < g) (h : i < g - o % g) : o % g + i < g := by
  have := Nat.mod_lt o hg
  omega

/-- Within the rest of a block the block number does not change. -/
theorem div_add (hg : 0 < g) (h : i < g - o % g) : (o + i) / g = o / g := by
  have hlt := add_lt_of_within hg h
  have ho := Nat.div_add_mod o g
  calc (o + i) / g = (g * (o / g) + (o % g + i)) / g := by congr 1; omega
    _ = o / g := by rw [Nat.mul_add_div hg, Nat.div_eq_of_lt hlt, Nat.add_zero]

/-- Within the rest of a block the place moves with the offset. -/
theorem mod_add (hg : 0 < g) (h : i < g - o % g) : (o + i) % g = o % g + i := by
  have hlt := add_lt_of_within hg h
  have ho := Nat.div_add_mod o g
  calc (o + i) % g = (g * (o / g) + (o % g + i)) % g := by congr 1; omega
    _ = o % g + i := by rw [Nat.mul_add_mod, Nat.mod_eq_of_lt hlt]

/-- Rounding an offset down to a unit that divides the block size keeps it in its block. -/
theorem div_floor {u : Nat} (hu : 0 < u) (h : u ∣ g) : o / u * u / g = o / g := by
  obtain ⟨k, rfl⟩ := h
  rw [← Nat.div_div_eq_div_mul, Nat.mul_div_cancel _ hu, Nat.div_div_eq_div_mul]

theorem rest_pos (hg : 0 < g) : 0 < g - o % g := by
  have := Nat.mod_lt o hg
  omega

/-- From a place in a block, what is left of the block stays in it. -/
theorem mod_add_min_le {b o n : Nat} (hb : 0 < b) : o % b + min n (b - o % b) ≤ b := by
  have := Nat.mod_lt o hb
  omega

/-- Where no more than one offset is left of a block, the next block begins after it. -/
theorem dvd_succ_of_rest_le (hg : 0 < g) (h : g - o % g ≤ 1) : g ∣ o + 1 := by
  have hlt := Nat.mod_lt o hg
  have ho := Nat.div_add_mod o g
  exact ⟨o / g + 1, by rw [Nat.mul_add]; omega⟩

/-- Before an offset at which no block begins, two offsets are left of the block. -/
theorem two_le_rest (hg : 0 < g) (h : ¬ g ∣ o + 1) : 2 ≤ g - o % g := by
  by_contra hrest
  exact h (dvd_succ_of_rest_le hg (by omega))

end Blocks
