import Mathlib.Tactic.Common
import Mathlib.Data.List.Basic
import Mathlib.Algebra.Ring.Nat

/-! # Half-open intervals laid end to end

Each interval starts where the one before it ends; an end that lies before its
start makes the interval empty and the next one start lower. The interval that
covers a place is the first in the list that does. Intervals tile when each has a
length given beforehand; then every place up to their total length is covered,
and by the interval that the running sums of the lengths say. -/
namespace Intervals

variable {E : Type} (lo hi : E → Nat)

/-- The intervals follow each other, from `v` on. -/
def Chained : Nat → List E → Prop
  | _, [] => True
  | v, e :: es => lo e = v ∧ Chained (hi e) es

/-- The first interval that covers `p`. -/
def covering (es : List E) (p : Nat) : Option E := es.find? fun e => lo e ≤ p && p < hi e

variable {lo hi} {e : E} {es : List E} {v p q : Nat}

theorem covering_cons_of_mem (h : lo e ≤ p ∧ p < hi e) : covering lo hi (e :: es) p = some e := by
  unfold covering
  rw [List.find?_cons_of_pos (by simpa using h)]

theorem covering_cons_of_not_mem (h : ¬ (lo e ≤ p ∧ p < hi e)) :
    covering lo hi (e :: es) p = covering lo hi es p := by
  unfold covering
  rw [List.find?_cons_of_neg (by simpa using h)]

theorem covering_mem (h : covering lo hi es p = some e) : e ∈ es ∧ lo e ≤ p ∧ p < hi e := by
  have hp := List.find?_some h
  exact ⟨List.mem_of_find?_eq_some h, by simpa using hp⟩

/-- Up to its end, the interval that covers a place covers the places after it. -/
theorem covering_of_le (hc : Chained lo hi v es) (hv : v ≤ p) (h : covering lo hi es p = some e)
    (hpq : p ≤ q) (hq : q < hi e) : covering lo hi es q = some e := by
  induction es generalizing v with
  | nil => cases h
  | cons d es ih =>
    obtain ⟨hd, hc⟩ := hc
    by_cases hmem : lo d ≤ p ∧ p < hi d
    · rw [covering_cons_of_mem hmem] at h
      cases h
      exact covering_cons_of_mem ⟨by omega, hq⟩
    · -- the interval lies wholly before `p`, so the next one starts at or before it
      rw [covering_cons_of_not_mem hmem] at h
      rw [covering_cons_of_not_mem (by omega)]
      exact ih hc (by omega) h

/-! ## Tilings -/

variable (lo hi) in
/-- The intervals follow each other, from `v` on, with these lengths. -/
def Tiles : Nat → List Nat → List E → Prop
  | _, [], [] => True
  | v, n :: ns, e :: es => lo e = v ∧ hi e = v + n ∧ Tiles (v + n) ns es
  | _, _, _ => False

variable {ns : List Nat} {i : Nat}

/-- Intervals that are read off others tile what those do. -/
theorem tiles_map {F : Type} {f : F → E} {fs : List F} :
    Tiles lo hi v ns (fs.map f) ↔ Tiles (fun x => lo (f x)) (fun x => hi (f x)) v ns fs := by
  induction ns generalizing v fs with
  | nil => cases fs <;> exact Iff.rfl
  | cons n ns ih =>
    cases fs with
    | nil => exact Iff.rfl
    | cons x fs => exact and_congr_right fun _ => and_congr_right fun _ => ih

theorem Tiles.length_eq (h : Tiles lo hi v ns es) : es.length = ns.length := by
  induction ns generalizing v es with
  | nil =>
    cases es with
    | nil => rfl
    | cons e es => exact h.elim
  | cons n ns ih =>
    cases es with
    | nil => exact h.elim
    | cons e es => exact congrArg (· + 1) (ih h.2.2)

/-- Interval `i` lies between two running sums. -/
theorem Tiles.getElem (h : Tiles lo hi v ns es) (hi' : i < ns.length) :
    ∃ e, es[i]? = some e ∧ lo e = v + (ns.take i).sum ∧ hi e = v + (ns.take (i + 1)).sum := by
  induction ns generalizing v es i with
  | nil => exact absurd hi' (Nat.not_lt_zero i)
  | cons n ns ih =>
    cases es with
    | nil => exact h.elim
    | cons e es =>
      obtain ⟨hlo, hhi, hrest⟩ := h
      cases i with
      | zero => exact ⟨e, rfl, by simpa using hlo, by simpa using hhi⟩
      | succ i =>
        obtain ⟨d, hd, hdlo, hdhi⟩ := ih hrest (Nat.lt_of_succ_lt_succ hi')
        refine ⟨d, hd, ?_, ?_⟩
        · rw [hdlo, List.take_succ_cons, List.sum_cons, Nat.add_assoc]
        · rw [hdhi, List.take_succ_cons, List.sum_cons, Nat.add_assoc]

/-- **A place up to the total length** is covered by the interval between whose running sums it
lies. -/
theorem Tiles.covering_eq (h : Tiles lo hi v ns es) (hv : v ≤ p) (hp : p < v + ns.sum) :
    ∃ i, ∃ e, i < ns.length ∧ es[i]? = some e ∧ covering lo hi es p = some e ∧
      v + (ns.take i).sum ≤ p ∧ p < v + (ns.take (i + 1)).sum := by
  induction ns generalizing v es with
  | nil => exact absurd hp (Nat.not_lt.mpr hv)
  | cons n ns ih =>
    cases es with
    | nil => exact h.elim
    | cons e es =>
      obtain ⟨hlo, hhi, hrest⟩ := h
      rw [List.sum_cons] at hp
      by_cases hlt : p < v + n
      · refine ⟨0, e, Nat.succ_pos _, rfl, covering_cons_of_mem ⟨hlo ▸ hv, hhi ▸ hlt⟩, ?_, ?_⟩
        · simpa using hv
        · simpa using hlt
      · obtain ⟨i, d, hi', hd, hcover, hge, hlt'⟩ := ih hrest (Nat.not_lt.mp hlt) (by omega)
        refine ⟨i + 1, d, Nat.succ_lt_succ hi', hd, ?_, ?_, ?_⟩
        · rw [covering_cons_of_not_mem (fun hmem => hlt (hhi ▸ hmem.2))]
          exact hcover
        · rw [List.take_succ_cons, List.sum_cons, ← Nat.add_assoc]
          exact hge
        · rw [List.take_succ_cons, List.sum_cons, ← Nat.add_assoc]
          exact hlt'

end Intervals
