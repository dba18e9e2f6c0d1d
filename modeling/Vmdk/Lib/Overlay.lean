import Mathlib.Tactic.Common
import Mathlib.Data.List.Basic

/-! # Stacks of layers

A layer owns some places and has a value at each. The value of a stack at a
place is that of the first layer that owns it, or blank. A reader that takes the
decision at one place and serves others from the same layer is right wherever no
layer above it owns the place served (`overlay_of_valueFrom`). Whether a layer
owns a place may be unknown; then nothing is said of what is below it. -/
namespace Overlay

variable {L α : Type} (owns : L → Nat → Option Bool) (value : L → Nat → Option α) (blank : α)

/-- The value at `o` of the first layer that owns `p`. -/
def valueFrom (p o : Nat) : List L → Option α
  | [] => some blank
  | l :: below =>
    match owns l p with
    | some true => value l o
    | some false => valueFrom p o below
    | none => none

/-- The value at `o` of the first layer that owns it. -/
def overlay (ls : List L) (o : Nat) : Option α := valueFrom owns value blank o o ls

/-- The layers above the first that owns `p`. -/
def above (p : Nat) (ls : List L) : List L := ls.takeWhile fun l => owns l p == some false

/-- The first layer that owns `p`. -/
def owner (p : Nat) (ls : List L) : Option L := ls.find? fun l => owns l p == some true

variable {owns value blank} {p o : Nat}

theorem above_cons {l : L} {ls : List L} (h : owns l p = some false) :
    above owns p (l :: ls) = l :: above owns p ls := by
  rw [above, List.takeWhile_cons_of_pos (by rw [h]; rfl)]
  rfl

/-- A stack decides alike at two places when the layers above the owner of the one do not own the
other, and the owner does. -/
theorem same_decision {ls : List L} (htotal : ∀ l ∈ ls, ∃ b, owns l p = some b)
    (habove : ∀ l ∈ above owns p ls, owns l o = some false)
    (howner : ∀ l, owner owns p ls = some l → owns l o = some true) :
    above owns o ls = above owns p ls ∧ owner owns o ls = owner owns p ls := by
  induction ls with
  | nil => exact ⟨rfl, rfl⟩
  | cons l ls ih =>
    obtain ⟨b, hl⟩ := htotal l List.mem_cons_self
    cases b with
    | true =>
      have ho := howner l (List.find?_cons_of_pos (by simp [hl]))
      constructor
      · rw [above, above, List.takeWhile_cons_of_neg (by simp [ho]),
          List.takeWhile_cons_of_neg (by simp [hl])]
      · rw [owner, owner, List.find?_cons_of_pos (by simp [ho]),
          List.find?_cons_of_pos (by simp [hl])]
    | false =>
      rw [above_cons hl] at habove
      have ho := habove l List.mem_cons_self
      obtain ⟨hsame, hsame'⟩ := ih (fun m hm => htotal m (List.mem_cons_of_mem _ hm))
        (fun m hm => habove m (List.mem_cons_of_mem _ hm))
        (fun m hm => howner m ((List.find?_cons_of_neg (by simp [hl])).trans hm))
      constructor
      · rw [above_cons ho, above_cons hl, hsame]
      · exact (List.find?_cons_of_neg (by simp [ho])).trans
          (hsame'.trans (List.find?_cons_of_neg (by simp [hl])).symm)

/-- **One decision serves two places** when no layer above the owner of `p` owns `o`, and the owner
of `p` owns `o` as well. -/
theorem overlay_of_valueFrom {ls : List L} {a : α}
    (habove : ∀ l ∈ above owns p ls, owns l o = some false)
    (howner : ∀ l, owner owns p ls = some l → owns l o = some true)
    (h : valueFrom owns value blank p o ls = some a) : overlay owns value blank ls o = some a := by
  induction ls with
  | nil => exact h
  | cons l ls ih =>
    unfold overlay valueFrom
    unfold valueFrom at h
    cases hl : owns l p with
    | none => rw [hl] at h; cases h
    | some b =>
      rw [hl] at h
      cases b with
      | true =>
        rw [howner l (List.find?_cons_of_pos (by simp [hl]))]
        exact h
      | false =>
        rw [above_cons hl] at habove
        rw [habove l List.mem_cons_self]
        exact ih (fun m hm => habove m (List.mem_cons_of_mem _ hm))
          (fun m hm => howner m ((List.find?_cons_of_neg (by simp [hl])).trans hm)) h

end Overlay
