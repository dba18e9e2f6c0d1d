import Vmdk.Lib.Device
import Vmdk.Lib.Machine

/-! # When a seek through an `i64` is exact

`Cursor.seek` takes a `u64` for an `i64` and adds an `i64` to it. On one side of
`2 ^ 63` the sum is the target, or `2 ^ 64` below it; a seek that crosses
`2 ^ 63` overflows (`Cursor.exact_iff`). A reader that seeks this way is exact
in each of its states for the seeks that cross nothing, and for no others
(`Cursor.exactInRange_of_inv`). -/

namespace Cursor
open Word

variable {pos size base : Nat}

/-- The sums that a seek computes, before the width of an `i64` cuts them. -/
def sums (pos size : Nat) : SeekFrom → List Int
  | .start _ => []
  | .current n => [wrapI64 pos + n.toInt]
  | .fromEnd n => [wrapI64 size + n.toInt]

/-- The seek from `pos` with result `r` leaves the cursor at `pos'`: at its target where that is an
`i64` from 0 on, else where it was. No sum overflows. -/
structure Exact (pos size : Nat) (f : SeekFrom) (r : Except IoError Nat) (pos' : Nat) : Prop where
  fits : ∀ x ∈ sums pos size f, -2 ^ 63 ≤ x ∧ x < 2 ^ 63
  reached : 0 ≤ f.target pos size → f.target pos size < 2 ^ 63 →
    ∃ t : Nat, (t : Int) = f.target pos size ∧ r = .ok t ∧ pos' = t
  refused : f.target pos size < 0 ∨ 2 ^ 63 ≤ f.target pos size →
    (∃ e, r = .error e) ∧ pos' = pos

/-- `target` is below `2 ^ 63` like `base`, or from there on like `base` and still a `u64`. -/
def SameSide (base : Nat) (target : Int) : Prop :=
  base < 2 ^ 63 ∧ target < 2 ^ 63 ∨ 2 ^ 63 ≤ base ∧ 2 ^ 63 ≤ target ∧ target < 2 ^ 64

/-- A seek from the cursor or the end stays on its side of `2 ^ 63`. -/
def InRange (pos size : Nat) : SeekFrom → Prop
  | .start _ => True
  | .current n => SameSide pos (pos + n.toInt)
  | .fromEnd n => SameSide size (size + n.toInt)

/-- Where a seek leaves the cursor. -/
def after (pos : Nat) : Except IoError Nat → Nat
  | .ok t => t
  | .error _ => pos

/-! ## One seek -/

/-- A sum is the target, or is negative when the target cannot be reached, exactly on one side. -/
theorem sum_iff (hbase : base < 2 ^ 64) {n : Int} (hlo : -2 ^ 63 ≤ n) (hhi : n < 2 ^ 63) :
    ((-2 ^ 63 ≤ wrapI64 base + n ∧ wrapI64 base + n < 2 ^ 63) ∧
        (0 ≤ base + n → base + n < 2 ^ 63 → wrapI64 (wrapI64 base + n) = base + n) ∧
          (base + n < 0 ∨ 2 ^ 63 ≤ base + n → wrapI64 (wrapI64 base + n) < 0)) ↔
      SameSide base (base + n) := by
  unfold SameSide
  rcases Nat.lt_or_ge base (2 ^ 63) with hside | hside
  · have hcast : wrapI64 base = base := wrapI64_eq (by omega) (by omega)
    rw [hcast]
    constructor
    · rintro ⟨⟨-, hfits⟩, -⟩
      exact .inl ⟨hside, hfits⟩
    · intro h
      have hsum : wrapI64 (base + n) = base + n := wrapI64_eq (by omega) (by omega)
      rw [hsum]
      omega
  · have hcast : wrapI64 base = base - 2 ^ 64 := by
      unfold wrapI64
      split <;> omega
    rw [hcast]
    constructor
    · rintro ⟨⟨hfits, hfits'⟩, -, hrefused⟩
      rw [wrapI64_eq hfits hfits'] at hrefused
      omega
    · intro h
      have hsum : wrapI64 (base - 2 ^ 64 + n) = base - 2 ^ 64 + n :=
        wrapI64_eq (by omega) (by omega)
      rw [hsum]
      omega

/-- A seek is exact when its sums are `i64`s and its new position is the target, or negative. -/
theorem exact_iff_newPos (f : SeekFrom) :
    Exact pos size f (seek pos size f) (after pos (seek pos size f)) ↔
      (∀ x ∈ sums pos size f, -2 ^ 63 ≤ x ∧ x < 2 ^ 63) ∧
        (0 ≤ f.target pos size → f.target pos size < 2 ^ 63 →
          newPos pos size f = f.target pos size) ∧
          (f.target pos size < 0 ∨ 2 ^ 63 ≤ f.target pos size → newPos pos size f < 0) := by
  unfold seek
  split
  · next hneg =>
    constructor
    · intro h
      refine ⟨h.fits, fun hlo hhi => ?_, fun _ => hneg⟩
      obtain ⟨t, -, ht, -⟩ := h.reached hlo hhi
      cases ht
    · rintro ⟨hfits, hreach, -⟩
      refine ⟨hfits, fun hlo hhi => ?_, fun _ => ⟨⟨_, rfl⟩, rfl⟩⟩
      have := hreach hlo hhi
      omega
  · next hpos =>
    constructor
    · intro h
      refine ⟨h.fits, fun hlo hhi => ?_, fun hout => ?_⟩
      · obtain ⟨t, htarget, ht, -⟩ := h.reached hlo hhi
        have := Except.ok.inj ht
        omega
      · obtain ⟨⟨e, he⟩, -⟩ := h.refused hout
        cases he
    · rintro ⟨hfits, hreach, hrefuse⟩
      refine ⟨hfits, fun hlo hhi => ⟨_, ?_, rfl, rfl⟩, fun hout => absurd (hrefuse hout) hpos⟩
      rw [← hreach hlo hhi]
      omega

/-- **One seek is exact** exactly when it stays on its side of `2 ^ 63`. -/
theorem exact_iff (hpos : pos < 2 ^ 64) (hsize : size < 2 ^ 64) (f : SeekFrom) :
    Exact pos size f (seek pos size f) (after pos (seek pos size f)) ↔ InRange pos size f := by
  rw [exact_iff_newPos]
  cases f with
  | start n =>
    have hn := n.toNat_lt
    show (∀ x ∈ [], _) ∧ (0 ≤ (n.toNat : Int) → (n.toNat : Int) < 2 ^ 63 →
      wrapI64 n.toNat = n.toNat) ∧
        ((n.toNat : Int) < 0 ∨ 2 ^ 63 ≤ (n.toNat : Int) → wrapI64 n.toNat < 0) ↔ True
    refine iff_true_intro ⟨List.forall_mem_nil _, fun hlo hhi => ?_, fun hout => ?_⟩
    · exact wrapI64_eq (by omega) hhi
    · exact wrapI64_neg_of_ge (by omega) (by omega)
  | current n =>
    rw [show sums pos size (.current n) = [wrapI64 pos + n.toInt] from rfl,
      List.forall_mem_singleton]
    exact sum_iff hpos n.le_toInt n.toInt_lt
  | fromEnd n =>
    rw [show sums pos size (.fromEnd n) = [wrapI64 size + n.toInt] from rfl,
      List.forall_mem_singleton]
    exact sum_iff hsize n.le_toInt n.toInt_lt

/-! ## The states of a reader -/

variable {σ : Type} {step : σ → Disk.Request Empty → Disk.Answer Empty × σ} {cursor length : σ → Nat}

/-- In state `s` a seek of the reader is `Cursor.seek`. -/
def Seeks (step : σ → Disk.Request Empty → Disk.Answer Empty × σ) (cursor length : σ → Nat)
    (s : σ) : Prop :=
  ∀ f, (step s (.seek f)).1 = .sought (seek (cursor s) (length s) f) ∧
    cursor (step s (.seek f)).2 = after (cursor s) (seek (cursor s) (length s) f)

/-- The seek by `f` in state `s` is exact. -/
def ExactAt (step : σ → Disk.Request Empty → Disk.Answer Empty × σ) (cursor length : σ → Nat)
    (s : σ) (f : SeekFrom) : Prop :=
  ∃ r, (step s (.seek f)).1 = .sought r ∧
    Exact (cursor s) (length s) f r (cursor (step s (.seek f)).2)

/-- In every state that seeks and reads lead to from `s`, exactly the seeks in range are exact. -/
def ExactInRange (step : σ → Disk.Request Empty → Disk.Answer Empty × σ) (cursor length : σ → Nat)
    (s : σ) : Prop :=
  ∀ reqs f, ExactAt step cursor length (Machine.final step s reqs) f ↔
    InRange (cursor (Machine.final step s reqs)) (length (Machine.final step s reqs)) f

theorem exactAt_iff {s : σ} (hseeks : Seeks step cursor length s) (hcursor : cursor s < 2 ^ 64)
    (hlength : length s < 2 ^ 64) (f : SeekFrom) :
    ExactAt step cursor length s f ↔ InRange (cursor s) (length s) f := by
  obtain ⟨hanswer, hafter⟩ := hseeks f
  rw [← exact_iff hcursor hlength f]
  unfold ExactAt
  rw [hanswer, hafter]
  constructor
  · rintro ⟨r, hr, hexact⟩
    cases hr
    exact hexact
  · intro hexact
    exact ⟨_, rfl, hexact⟩

/-- **All states of a reader** whose cursor and length stay `u64`s. -/
theorem exactInRange_of_inv {Inv : σ → Prop} (hseeks : ∀ s, Seeks step cursor length s)
    (hlt : ∀ s, Inv s → cursor s < 2 ^ 64 ∧ length s < 2 ^ 64)
    (hstep : ∀ s q, Inv s → Inv (step s q).2) {s : σ} (h : Inv s) :
    ExactInRange step cursor length s := by
  intro reqs f
  obtain ⟨hcursor, hlength⟩ := hlt _ (Machine.final_inv hstep h reqs)
  exact exactAt_iff (hseeks _) hcursor hlength f

variable {readHere : (pos len : Nat) → Except IoError (List UInt8)}

theorem step_seek (f : SeekFrom) : Cursor.step size readHere pos (.seek f) =
    (.sought (seek pos size f), after pos (seek pos size f)) := by
  simp only [Cursor.step]
  cases seek pos size f with
  | ok t => rfl
  | error e => rfl

theorem after_lt (hpos : pos < 2 ^ 64) (f : SeekFrom) : after pos (seek pos size f) < 2 ^ 64 := by
  cases hseek : seek pos size f with
  | ok t => exact Nat.lt_trans (seek_lt hseek) (by decide)
  | error e => exact hpos

/-- **A reader whose state is its cursor**, and which reads no further than its size. -/
theorem exactInRange_step (hsize : size < 2 ^ 64)
    (hread : ∀ {pos len bs}, readHere pos len = .ok bs → bs.length ≤ size - pos) :
    ExactInRange (Cursor.step size readHere) (fun pos => pos) (fun _ => size) 0 := by
  refine exactInRange_of_inv (fun pos f => ?_) (fun pos hpos => ⟨hpos, hsize⟩)
    (fun pos q hpos => ?_) (show (0 : Nat) < 2 ^ 64 by decide)
  · rw [step_seek]
    exact ⟨rfl, rfl⟩
  · cases q with
    | seek f =>
      rw [step_seek]
      exact after_lt hpos f
    | read len =>
      simp only [Cursor.step]
      cases hbs : readHere pos len with
      | ok bs =>
        have hle := hread hbs
        show pos + bs.length < 2 ^ 64
        omega
      | error e => exact hpos
    | query q => cases q

end Cursor
