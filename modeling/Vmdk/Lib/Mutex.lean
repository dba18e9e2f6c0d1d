import Mathlib.Tactic.Common
import Mathlib.Logic.Function.Basic
import Mathlib.Logic.Relation

/-! # Calls that share a resource behind a lock

A call may return at once; else it takes the lock, makes steps on the resource,
and returns, which gives the lock back. While it holds the lock it may be cut
short, by an error or by a panic, and leaves the resource as the unfinished step
left it. A panic poisons the lock, which the next call takes all the same.

The rule: a property `Free` of the resource that every call finds and every call
leaves, also when it is cut short, and an outline `Held` of the resource while a
call runs. Then in any interleaving of any calls, every call that returns has
its postcondition (`Outline.reachable`), and a call that nothing holds up gets
there (`Outline.returns`). -/
namespace Mutex

variable {ι γ σ κ ρ ε : Type} [DecidableEq ι]

/-- What calls `γ` do: `κ` is where one is that holds the lock, `ρ` what it returns. -/
structure Program (γ σ κ ρ : Type) where
  /-- What it returns without the lock, if it does. -/
  early : γ → Option ρ
  /-- Where it begins when it has taken the lock. -/
  enter : γ → κ
  /-- One step under the lock: it goes on or returns. -/
  step : κ → σ → (κ ⊕ ρ) × σ
  /-- How a step that is cut short may leave the resource. -/
  cut : κ → σ → σ → Prop

/-- How far a call has got. -/
inductive Phase (κ ρ ε : Type) where
  | waiting
  | running (k : κ)
  | returned (r : ρ)
  /-- Cut short by an error, or by a panic. -/
  | interrupted (e : Option ε)

structure Config (ι σ κ ρ ε : Type) where
  resource : σ
  poisoned : Bool
  phase : ι → Phase κ ρ ε

/-- Call `i` goes to phase `p` and leaves the resource as `s`. -/
def Config.set (c : Config ι σ κ ρ ε) (i : ι) (p : Phase κ ρ ε) (s : σ) : Config ι σ κ ρ ε :=
  { c with resource := s, phase := Function.update c.phase i p }

/-- Nobody holds the lock. -/
def Config.Unlocked (c : Config ι σ κ ρ ε) : Prop := ∀ i k, c.phase i ≠ .running k

/-- A step of call `i`. -/
inductive Step (P : Program γ σ κ ρ) (calls : ι → γ) (i : ι) :
    Config ι σ κ ρ ε → Config ι σ κ ρ ε → Prop
  | early {c r} (h : c.phase i = .waiting) (hr : P.early (calls i) = some r) :
    Step P calls i c (c.set i (.returned r) c.resource)
  | acquire {c} (h : c.phase i = .waiting) (hr : P.early (calls i) = none) (hfree : c.Unlocked) :
    Step P calls i c (c.set i (.running (P.enter (calls i))) c.resource)
  | work {c k k' s'} (h : c.phase i = .running k) (hs : P.step k c.resource = (.inl k', s')) :
    Step P calls i c (c.set i (.running k') s')
  | finish {c k r s'} (h : c.phase i = .running k) (hs : P.step k c.resource = (.inr r, s')) :
    Step P calls i c (c.set i (.returned r) s')
  | fail {c k s'} (e : ε) (h : c.phase i = .running k) (hs : P.cut k c.resource s') :
    Step P calls i c (c.set i (.interrupted (some e)) s')
  | panic {c k s'} (h : c.phase i = .running k) (hs : P.cut k c.resource s') :
    Step P calls i c { c.set i (.interrupted none) s' with poisoned := true }

/-- What a call does that is left alone from `k` on, with the lock held. -/
inductive Program.Runs (P : Program γ σ κ ρ) : κ → σ → ρ → σ → Prop
  | finish {k s r s'} (h : P.step k s = (.inr r, s')) : Runs P k s r s'
  | work {k s k' s' r s''} (h : P.step k s = (.inl k', s')) (hrest : Runs P k' s' r s'') :
    Runs P k s r s''

/-- Before any call has begun. -/
def start (s : σ) : Config ι σ κ ρ ε := ⟨s, false, fun _ => .waiting⟩

/-- What any interleaving of the calls leads to. -/
inductive Reachable (P : Program γ σ κ ρ) (calls : ι → γ) (s : σ) : Config ι σ κ ρ ε → Prop
  | start : Reachable P calls s (start s)
  | step {c c' : Config ι σ κ ρ ε} {i : ι} (h : Reachable P calls s c) (hstep : Step P calls i c c') :
    Reachable P calls s c'

/-- A proof outline: what the free resource, the resource held by a call `q` that is at `k`, and
the result of a call satisfy. -/
structure Outline (P : Program γ σ κ ρ) (Free : σ → Prop) (Held : γ → κ → σ → Prop)
    (Post : γ → ρ → Prop) : Prop where
  early : ∀ {q r}, P.early q = some r → Post q r
  acquire : ∀ {q s}, P.early q = none → Free s → Held q (P.enter q) s
  work : ∀ {q k s k' s'}, Held q k s → P.step k s = (.inl k', s') → Held q k' s'
  finish : ∀ {q k s r s'}, Held q k s → P.step k s = (.inr r, s') → Post q r ∧ Free s'
  cut : ∀ {q k s s'}, Held q k s → P.cut k s s' → Free s'

/-- Call `q` is in order. -/
def Phase.Ok (Held : γ → κ → σ → Prop) (Post : γ → ρ → Prop) (q : γ) (s : σ) : Phase κ ρ ε → Prop
  | .waiting => True
  | .running k => Held q k s
  | .returned r => Post q r
  | .interrupted _ => True

variable {P : Program γ σ κ ρ} {Free : σ → Prop} {Held : γ → κ → σ → Prop} {Post : γ → ρ → Prop}
  {calls : ι → γ} {c c' : Config ι σ κ ρ ε} {i j : ι} {q : γ} {s s' : σ} {k : κ}

/-- The invariant of every interleaving. -/
structure Inv (Free : σ → Prop) (Held : γ → κ → σ → Prop) (Post : γ → ρ → Prop) (calls : ι → γ)
    (c : Config ι σ κ ρ ε) : Prop where
  ok : ∀ i, (c.phase i).Ok Held Post (calls i) c.resource
  exclusive : ∀ i j k k', c.phase i = .running k → c.phase j = .running k' → i = j
  free : c.Unlocked → Free c.resource

theorem Config.set_self (c : Config ι σ κ ρ ε) (i : ι) (p : Phase κ ρ ε) (s : σ) :
    (c.set i p s).phase i = p := Function.update_self ..

theorem Config.set_other (p : Phase κ ρ ε) (s : σ) (h : j ≠ i) :
    (c.set i p s).phase j = c.phase j := Function.update_of_ne h ..

theorem Config.set_set (c : Config ι σ κ ρ ε) (i : ι) (p : Phase κ ρ ε) (s : σ)
    (p' : Phase κ ρ ε) (s' : σ) : (c.set i p s).set i p' s' = c.set i p' s' := by
  simp only [Config.set, Function.update_idem]

/-- A call that holds the lock and is left alone goes the way of `Runs`. -/
theorem Program.Runs.steps {r : ρ} (h : P.Runs k s r s') (hi : c.phase i = .running k)
    (hs : c.resource = s) : Relation.ReflTransGen (Step P calls i) c (c.set i (.returned r) s') := by
  induction h generalizing c with
  | finish h =>
    subst hs
    exact .single (.finish hi h)
  | @work k s k' s' r s'' h hrest ih =>
    subst hs
    have hstep : Step P calls i c (c.set i (.running k') s') := .work hi h
    have hgo := ih (c.set_self i (.running k') s') rfl
    rw [c.set_set] at hgo
    exact .head hstep hgo

/-- So does one that finds the lock free. -/
theorem Program.Runs.alone {r : ρ} (h : P.Runs (P.enter (calls i)) c.resource r s')
    (hi : c.phase i = .waiting) (hearly : P.early (calls i) = none) (hfree : c.Unlocked) :
    Relation.ReflTransGen (Step P calls i) c (c.set i (.returned r) s') := by
  have hstep : Step P calls i c (c.set i (.running (P.enter (calls i))) c.resource) :=
    .acquire hi hearly hfree
  have hgo : Relation.ReflTransGen (Step P calls i) _ _ := h.steps (c.set_self i _ c.resource) rfl
  rw [c.set_set] at hgo
  exact .head hstep hgo

/-- Only a running call depends on the resource. -/
theorem Phase.Ok.of_not_running {p : Phase κ ρ ε} (h : p.Ok Held Post q s)
    (hp : ∀ k, p ≠ .running k) (s' : σ) : p.Ok Held Post q s' := by
  cases p with
  | running k => exact absurd rfl (hp k)
  | waiting => trivial
  | returned r => exact h
  | interrupted e => trivial

/-- A call that holds the lock, or takes it, changes phase and resource. -/
theorem Inv.set (h : Inv Free Held Post calls c) {p : Phase κ ρ ε}
    (halone : ∀ j k', c.phase j = .running k' → j = i) (hok : p.Ok Held Post (calls i) s)
    (hfree : (∀ k', p ≠ .running k') → Free s) : Inv Free Held Post calls (c.set i p s) := by
  have hothers {j : ι} (hj : j ≠ i) (k' : κ) : (c.set i p s).phase j ≠ .running k' := by
    rw [Config.set_other p s hj]
    exact fun hr => hj (halone j k' hr)
  refine ⟨fun j => ?_, fun a b k k' ha hb => ?_, fun hunlocked => hfree fun k' hp => ?_⟩
  · by_cases hj : j = i
    · subst hj
      rw [Config.set_self]
      exact hok
    · rw [Config.set_other p s hj]
      exact (h.ok j).of_not_running (fun k' hr => hj (halone j k' hr)) s
  · have hai : a = i := by
      by_contra hne
      exact hothers hne k ha
    have hbi : b = i := by
      by_contra hne
      exact hothers hne k' hb
    rw [hai, hbi]
  · exact hunlocked i k' ((c.set_self i p s).trans hp)

/-- **One step keeps the invariant.** -/
theorem Outline.step_inv (hP : Outline P Free Held Post) (h : Inv Free Held Post calls c)
    (hstep : Step P calls i c c') : Inv Free Held Post calls c' := by
  have hheld {k : κ} (hr : c.phase i = .running k) : Held (calls i) k c.resource := by
    have hok := h.ok i
    rwa [hr] at hok
  have halone {k : κ} (hr : c.phase i = .running k) (j : ι) (k' : κ)
      (hj : c.phase j = .running k') : j = i := h.exclusive j i k' k hj hr
  cases hstep with
  | @early r hw hr =>
    -- the lock may be held by another call, which does not notice
    have hpost : Post (calls i) r := hP.early hr
    have hother {j : ι} {k' : κ} (hj : (c.set i (.returned r) c.resource).phase j = .running k') :
        c.phase j = .running k' := by
      by_cases hji : j = i
      · subst hji
        rw [Config.set_self] at hj
        cases hj
      · rwa [Config.set_other _ _ hji] at hj
    refine ⟨fun j => ?_, fun a b k k' ha hb => h.exclusive a b k k' (hother ha) (hother hb),
      fun hunlocked => h.free fun j k' hj => ?_⟩
    · by_cases hji : j = i
      · subst hji
        rw [Config.set_self]
        exact hpost
      · rw [Config.set_other _ _ hji]
        exact h.ok j
    · have hji : j ≠ i := by
        rintro rfl
        rw [hw] at hj
        cases hj
      exact hunlocked j k' ((Config.set_other _ _ hji).trans hj)
  | acquire hw hr hfree =>
    exact h.set (fun j k' hj => absurd hj (hfree j k')) (hP.acquire hr (h.free hfree))
      fun hp => absurd rfl (hp _)
  | @work k k' s' hr hs =>
    exact h.set (halone hr) (hP.work (hheld hr) hs) fun hp => absurd rfl (hp k')
  | @finish k r s' hr hs =>
    obtain ⟨hpost, hfree⟩ := hP.finish (hheld hr) hs
    exact h.set (halone hr) hpost fun _ => hfree
  | @fail k s' e hr hs =>
    have hfree := hP.cut (hheld hr) hs
    exact h.set (halone hr) trivial fun _ => hfree
  | @panic k s' hr hs =>
    have hfree := hP.cut (hheld hr) hs
    have hinv : Inv Free Held Post calls (c.set i (.interrupted none) s') :=
      h.set (halone hr) trivial fun _ => hfree
    exact ⟨hinv.ok, hinv.exclusive, hinv.free⟩

/-- **Every interleaving keeps the invariant**: a call that has returned has its postcondition. -/
theorem Outline.reachable (hP : Outline P Free Held Post) (hs : Free s)
    (h : Reachable P calls s c) : Inv Free Held Post calls c := by
  induction h with
  | start => exact ⟨fun i => trivial, (fun i j k k' hi => by cases hi), fun _ => hs⟩
  | step _ hstep ih => exact hP.step_inv ih hstep

theorem Reachable.trans (h : Reachable P calls s c)
    (hsteps : Relation.ReflTransGen (Step P calls i) c c') : Reachable P calls s c' := by
  induction hsteps with
  | refl => exact h
  | tail _ hstep ih => exact .step ih hstep

/-- A call that holds the lock returns when it is left alone, if its steps get it closer. -/
theorem Outline.finishes (hP : Outline P Free Held Post) (measure : κ → σ → Nat)
    (hless : ∀ {q k s k' s'}, Held q k s → P.step k s = (.inl k', s') →
      measure k' s' < measure k s)
    (h : Inv Free Held Post calls c) (hi : c.phase i = .running k) :
    ∃ c' r, Relation.ReflTransGen (Step P calls i) c c' ∧ c'.phase i = .returned r ∧ Post (calls i) r := by
  generalize hm : measure k c.resource = m
  induction m using Nat.strongRecOn generalizing c k with
  | ind m ih =>
    have hheld : Held (calls i) k c.resource := by
      have hok := h.ok i
      rwa [hi] at hok
    rcases hs : P.step k c.resource with ⟨k' | r, s'⟩
    · have hstep : Step P calls i c (c.set i (.running k') s') := .work hi hs
      obtain ⟨c', r, hsteps, hreturned, hpost⟩ := ih _ (hm ▸ hless hheld hs) (hP.step_inv h hstep)
        (c.set_self i (.running k') s') rfl
      exact ⟨c', r, .head hstep hsteps, hreturned, hpost⟩
    · exact ⟨_, r, .single (.finish hi hs), c.set_self i (.returned r) s',
        (hP.finish hheld hs).1⟩

/-- **A call that nothing holds up returns**: it holds the lock, or waits for it and it is free. -/
theorem Outline.returns (hP : Outline P Free Held Post) (measure : κ → σ → Nat)
    (hless : ∀ {q k s k' s'}, Held q k s → P.step k s = (.inl k', s') →
      measure k' s' < measure k s)
    (h : Inv Free Held Post calls c)
    (hi : (∃ k, c.phase i = .running k) ∨ c.phase i = .waiting ∧ c.Unlocked) :
    ∃ c' r, Relation.ReflTransGen (Step P calls i) c c' ∧ c'.phase i = .returned r ∧ Post (calls i) r := by
  rcases hi with ⟨k, hr⟩ | ⟨hw, hfree⟩
  · exact hP.finishes measure hless h hr
  · cases hearly : P.early (calls i) with
    | some r =>
      exact ⟨_, r, .single (.early hw hearly), c.set_self i (.returned r) c.resource,
        hP.early hearly⟩
    | none =>
      have hstep : Step P calls i c (c.set i (.running (P.enter (calls i))) c.resource) :=
        .acquire hw hearly hfree
      obtain ⟨c', r, hsteps, hreturned, hpost⟩ := hP.finishes measure hless (hP.step_inv h hstep)
        (c.set_self i _ c.resource)
      exact ⟨c', r, .head hstep hsteps, hreturned, hpost⟩

end Mutex
