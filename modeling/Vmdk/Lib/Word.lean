import Mathlib.Algebra.Order.Ring.Int
import Mathlib.Tactic.Common

/-! # Fixed-width arithmetic on unbounded numbers

A `u64` is a `Nat` and an `i64` an `Int`; what the width does to an operation is
written at the operation. `checked*` reports an overflow, `sat*` stops at the
largest value, `wrap*` keeps the low 64 bits. -/
namespace Word

/-- One more than the largest `u64`. -/
abbrev u64Size : Nat := 2 ^ 64

def u64Max : Nat := u64Size - 1

def checkedMul (a b : Nat) : Option Nat := if a * b < u64Size then some (a * b) else none

def checkedAdd (a b : Nat) : Option Nat := if a + b < u64Size then some (a + b) else none

def satMul (a b : Nat) : Nat := min (a * b) u64Max

def satAdd (a b : Nat) : Nat := min (a + b) u64Max

def wrapMul (a b : Nat) : Nat := a * b % u64Size

def wrapAdd (a b : Nat) : Nat := (a + b) % u64Size

/-- The value of an `i64` whose low 64 bits are those of `x`. -/
def wrapI64 (x : Int) : Int :=
  if (x % 2 ^ 64).toNat < 2 ^ 63 then x % 2 ^ 64 else x % 2 ^ 64 - 2 ^ 64

/-- Division rounding up, as `div_ceil`. -/
def divCeil (a b : Nat) : Nat := if a % b = 0 then a / b else a / b + 1

theorem wrapMul_eq {a b : Nat} (h : a * b < u64Size) : wrapMul a b = a * b :=
  Nat.mod_eq_of_lt h

theorem wrapAdd_eq {a b : Nat} (h : a + b < u64Size) : wrapAdd a b = a + b :=
  Nat.mod_eq_of_lt h

/-- An address `(a + b) * c + d` that fits is computed without wrapping on the way. -/
theorem wrap_address {a b c d : Nat} (hc : 0 < c) (h : (a + b) * c + d < u64Size) :
    wrapAdd (wrapMul (wrapAdd a b) c) d = (a + b) * c + d := by
  have hle : a + b ≤ (a + b) * c := Nat.le_mul_of_pos_right _ hc
  have hab : a + b < u64Size := by omega
  rw [wrapAdd_eq hab, wrapMul_eq (by omega), wrapAdd_eq h]

theorem satMul_eq {a b : Nat} (h : a * b < u64Size) : satMul a b = a * b := by
  unfold satMul u64Max
  omega

theorem satMul_le_iff {a b m : Nat} (hm : m < u64Max) : satMul a b ≤ m ↔ a * b ≤ m := by
  unfold satMul; omega

theorem satAdd_le_iff {a b m : Nat} (hm : m < u64Max) : satAdd a b ≤ m ↔ a + b ≤ m := by
  unfold satAdd; omega

theorem wrapI64_range (x : Int) : -2 ^ 63 ≤ wrapI64 x ∧ wrapI64 x < 2 ^ 63 := by
  unfold wrapI64; split <;> omega

theorem wrapI64_eq {x : Int} (hlo : -2 ^ 63 ≤ x) (hhi : x < 2 ^ 63) : wrapI64 x = x := by
  unfold wrapI64; split <;> omega

/-- Between `-2 ^ 63` and `2 ^ 64` only the values from `2 ^ 63` on turn negative. -/
theorem wrapI64_neg_of_ge {x : Int} (hlo : 2 ^ 63 ≤ x) (hhi : x < 2 ^ 64) : wrapI64 x < 0 := by
  unfold wrapI64; split <;> omega

theorem divCeil_zero (b : Nat) : divCeil 0 b = 0 := by
  simp [divCeil]

/-- Rounding up by adding the divisor less one. -/
theorem add_sub_one_div {a b : Nat} (hb : 0 < b) : (a + (b - 1)) / b = divCeil a b := by
  have hdm : a / b * b + a % b = a := Nat.div_add_mod' a b
  have hlt := Nat.mod_lt a hb
  unfold divCeil
  split
  · apply Nat.div_eq_of_lt_le
    · omega
    · rw [Nat.succ_mul]; omega
  · have hs : (a / b + 1) * b = a / b * b + b := Nat.succ_mul _ _
    apply Nat.div_eq_of_lt_le
    · omega
    · rw [Nat.succ_mul, hs]; omega

theorem lt_divCeil_mul {a b i : Nat} (hb : 0 < b) (h : i < a) : i / b < divCeil a b := by
  rw [← add_sub_one_div hb, Nat.div_lt_iff_lt_mul hb]
  have hdm := Nat.div_add_mod (a + (b - 1)) b
  have hlt := Nat.mod_lt (a + (b - 1)) hb
  rw [Nat.mul_comm]
  omega

theorem le_divCeil_mul {a b : Nat} (hb : 0 < b) : a ≤ divCeil a b * b := by
  have hdm : a / b * b + a % b = a := Nat.div_add_mod' a b
  have hlt := Nat.mod_lt a hb
  unfold divCeil
  split
  · omega
  · rw [Nat.succ_mul]; omega

theorem divCeil_mul_lt {a b : Nat} (hb : 0 < b) : divCeil a b * b < a + b := by
  rw [← add_sub_one_div hb]
  have hle := Nat.div_mul_le_self (a + (b - 1)) b
  omega

/-- A block that rounding up counts starts before the end. -/
theorem lt_divCeil_iff {a b i : Nat} (hb : 0 < b) : i < divCeil a b ↔ i * b < a := by
  rw [← Nat.not_le, ← Nat.not_le, not_iff_not, ← add_sub_one_div hb, ← Nat.lt_succ_iff,
    Nat.div_lt_iff_lt_mul hb, Nat.succ_mul]
  omega

/-- An offset in `cap` units of `u` bytes, in blocks of `g` units and tables of `n` blocks, is in a
table that rounding up counts. -/
theorem table_lt_divCeil {o cap g n u : Nat} (hg : 0 < g) (hn : 0 < n) (hu : 0 < u)
    (h : o < cap * u) : o / (g * u) / n < divCeil (divCeil cap g) n := by
  rw [Nat.mul_comm g u, ← Nat.div_div_eq_div_mul]
  have hunit : o / u < cap := (Nat.div_lt_iff_lt_mul hu).mpr h
  exact lt_divCeil_mul hn (lt_divCeil_mul hg hunit)

/-- The units that `t` tables of `n` blocks of `g` units can hold. -/
theorem le_of_tables {cap g n t : Nat} (hg : 0 < g) (hn : 0 < n)
    (h : divCeil (divCeil cap g) n ≤ t) : cap ≤ t * n * g :=
  calc cap ≤ divCeil cap g * g := le_divCeil_mul hg
    _ ≤ divCeil (divCeil cap g) n * n * g := Nat.mul_le_mul_right g (le_divCeil_mul hn)
    _ ≤ t * n * g := Nat.mul_le_mul_right g (Nat.mul_le_mul_right n h)

end Word
