import Mathlib.Tactic.Common

/-! # Machines that answer requests

A machine is a step function from a state and a request to an answer and a next
state. Three rules carry facts about one step to a whole run: an invariant with
a postcondition (`steps_of_inv`), refinement of a nondeterministic
specification (`run_accepted`), and equality of the answers of two machines
whose states stay related (`run_eq`). -/
namespace Machine

variable {σ τ Req Ans : Type}

/-- The answers to a list of requests, in order. -/
def run (step : σ → Req → Ans × σ) : σ → List Req → List Ans
  | _, [] => []
  | s, q :: qs => (step s q).1 :: run step (step s q).2 qs

/-- The state a list of requests leads to. -/
def final (step : σ → Req → Ans × σ) : σ → List Req → σ
  | s, [] => s
  | s, q :: qs => final step (step s q).2 qs

/-- `P` holds of every state of the run and the request made in it. -/
def Steps (step : σ → Req → Ans × σ) (P : σ → Req → Prop) : σ → List Req → Prop
  | _, [] => True
  | s, q :: qs => P s q ∧ Steps step P (step s q).2 qs

theorem final_inv {step : σ → Req → Ans × σ} {Inv : σ → Prop}
    (hstep : ∀ s q, Inv s → Inv (step s q).2) {s : σ} (h : Inv s) (qs : List Req) :
    Inv (final step s qs) := by
  induction qs generalizing s with
  | nil => exact h
  | cons q qs ih => exact ih (hstep s q h)

/-- An invariant, and what every step does in a state that has it. -/
theorem steps_of_inv {step : σ → Req → Ans × σ} {Inv : σ → Prop} {C P : σ → Req → Prop}
    (hstep : ∀ s q, Inv s → C s q → P s q ∧ Inv (step s q).2) {s : σ} (h : Inv s)
    {qs : List Req} (hc : Steps step C s qs) : Steps step P s qs := by
  induction qs generalizing s with
  | nil => trivial
  | cons q qs ih =>
    obtain ⟨hq, hqs⟩ := hc
    obtain ⟨hp, hi⟩ := hstep s q h hq
    exact ⟨hp, ih hi hqs⟩

/-- Two conditions that say the same of every step from a state with the invariant, and keep it, say
the same of every run. -/
theorem steps_iff_of_inv {step : σ → Req → Ans × σ} {Inv : σ → Prop} {C P : σ → Req → Prop}
    (hiff : ∀ s q, Inv s → (P s q ↔ C s q)) (hkeep : ∀ s q, Inv s → P s q → Inv (step s q).2) {s : σ}
    (h : Inv s) (qs : List Req) : Steps step P s qs ↔ Steps step C s qs := by
  induction qs generalizing s with
  | nil => exact Iff.rfl
  | cons q qs ih =>
    constructor
    · rintro ⟨hp, hps⟩
      exact ⟨(hiff s q h).mp hp, (ih (hkeep s q h hp)).mp hps⟩
    · rintro ⟨hc, hcs⟩
      have hp := (hiff s q h).mpr hc
      exact ⟨hp, (ih (hkeep s q h hp)).mpr hcs⟩

/-- What holds of every state and request holds along every run. -/
theorem steps_of_forall {step : σ → Req → Ans × σ} {P : σ → Req → Prop} (h : ∀ s q, P s q) (s : σ)
    (qs : List Req) : Steps step P s qs := by
  induction qs generalizing s with
  | nil => trivial
  | cons q qs ih => exact ⟨h s q, ih _⟩

theorem steps_true (step : σ → Req → Ans × σ) (s : σ) (qs : List Req) :
    Steps step (fun _ _ => True) s qs := by
  induction qs generalizing s with
  | nil => trivial
  | cons q qs ih => exact ⟨trivial, ih _⟩

/-- A specification accepts a list of answers when it permits each of them in turn. -/
inductive Accepts (spec : τ → Req → Ans → τ → Prop) : τ → List Req → List Ans → Prop
  | nil (t : τ) : Accepts spec t [] []
  | cons {t t' : τ} {q : Req} {a : Ans} {qs : List Req} {as : List Ans} :
      spec t q a t' → Accepts spec t' qs as → Accepts spec t (q :: qs) (a :: as)

/-- Refinement: a simulation relation makes the specification accept every run. -/
theorem run_accepted {step : σ → Req → Ans × σ} {spec : τ → Req → Ans → τ → Prop}
    {R : σ → τ → Prop}
    (hstep : ∀ s t q, R s t → ∃ t', spec t q (step s q).1 t' ∧ R (step s q).2 t')
    {s : σ} {t : τ} (h : R s t) (qs : List Req) : Accepts spec t qs (run step s qs) := by
  induction qs generalizing s t with
  | nil => exact .nil t
  | cons q qs ih =>
    obtain ⟨t', hspec, hr⟩ := hstep s t q h
    exact .cons hspec (ih hr)

/-- Two machines whose related states give equal answers give equal runs. -/
theorem run_eq {step : σ → Req → Ans × σ} {step' : τ → Req → Ans × τ} {R : σ → τ → Prop}
    (hstep : ∀ s t q, R s t → (step s q).1 = (step' t q).1 ∧ R (step s q).2 (step' t q).2)
    {s : σ} {t : τ} (h : R s t) (qs : List Req) : run step s qs = run step' t qs := by
  induction qs generalizing s t with
  | nil => rfl
  | cons q qs ih =>
    obtain ⟨ha, hr⟩ := hstep s t q h
    simp only [run, ha, ih hr]

/-- Two machines whose related states give equal answers end in related states. -/
theorem final_related {step : σ → Req → Ans × σ} {step' : τ → Req → Ans × τ} {R : σ → τ → Prop}
    (hstep : ∀ s t q, R s t → (step s q).1 = (step' t q).1 ∧ R (step s q).2 (step' t q).2)
    {s : σ} {t : τ} (h : R s t) (qs : List Req) : R (final step s qs) (final step' t qs) := by
  induction qs generalizing s t with
  | nil => exact h
  | cons q qs ih => exact ih (hstep s t q h).2

end Machine
