import Vmdk.Lib.Word

/-! # Operations that can go wrong

What a computation on fixed-width numbers and arrays does in passing can be
listed next to its result: numbers it computes, divisors, slices, allocations. The
list is safe when nothing on it overflows, divides by zero, leaves its array or
outgrows its limit. -/
namespace Checked
open Word

inductive Op where
  /-- The exact result of an addition or a multiplication. -/
  | result (n : Nat)
  /-- The subtraction `a - b`. -/
  | difference (a b : Nat)
  | divisor (d : Nat)
  /-- A slice up to `stop` of an array of length `len`. -/
  | window (stop len : Nat)
  /-- An allocation of `size` bytes that must not exceed `limit`. -/
  | buffer (size limit : Nat)
deriving DecidableEq, Repr

def Op.Safe : Op → Prop
  | .result n => n < u64Size
  | .difference a b => b ≤ a
  | .divisor d => 0 < d
  | .window stop len => stop ≤ len
  | .buffer size limit => size ≤ limit

def Safe (ops : List Op) : Prop := ∀ op ∈ ops, op.Safe

@[simp] theorem safe_nil : Safe [] := fun _ h => by cases h

@[simp] theorem safe_cons {op : Op} {ops : List Op} : Safe (op :: ops) ↔ op.Safe ∧ Safe ops :=
  List.forall_mem_cons

@[simp] theorem safe_append {ops ops' : List Op} : Safe (ops ++ ops') ↔ Safe ops ∧ Safe ops' :=
  List.forall_mem_append

theorem safe_flatMap {α : Type} {xs : List α} {f : α → List Op} (h : ∀ x ∈ xs, Safe (f x)) :
    Safe (xs.flatMap f) := by
  intro op hop
  obtain ⟨x, hx, hop⟩ := List.mem_flatMap.mp hop
  exact h x hx op hop

theorem safe_ite {p : Prop} [Decidable p] {ops ops' : List Op} (h : p → Safe ops)
    (h' : ¬ p → Safe ops') : Safe (if p then ops else ops') := by
  split
  · next hp => exact h hp
  · next hp => exact h' hp

end Checked
