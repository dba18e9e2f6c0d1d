import Vmdk.Lib.Source
import Vmdk.Lib.Word

/-! # A read-only byte array with a cursor

The purpose of a disk-image reader, stated without any image: a fixed size, the
byte at every offset (`none` where the image holds none), and a cursor that
seeks move and reads advance. A read may be short and may fail, but it never
delivers a wrong byte, and it makes progress wherever the disk promises to be
`served`. A query is answered the same whatever came before it. -/

/-- `std::io::SeekFrom`. -/
inductive SeekFrom where
  | start (n : UInt64)
  | current (n : Int64)
  | fromEnd (n : Int64)
deriving DecidableEq, Repr

namespace SeekFrom

/-- The offset meant by a seek, from a cursor at `pos` over `size` bytes. -/
def target (pos size : Nat) : SeekFrom → Int
  | .start n => n.toNat
  | .current n => pos + n.toInt
  | .fromEnd n => size + n.toInt

end SeekFrom

/-- A device over queries `Q` with answers `A`. -/
structure Disk (Q A : Type) where
  size : Nat
  byte : Nat → Option UInt8
  /-- The offsets at which a read must succeed with at least one byte. -/
  served : Nat → Prop
  answer : Q → A

namespace Disk

variable {Q A : Type}

/-- `bs` is a right answer to a read of `len` bytes at `pos`. -/
structure Delivers (d : Disk Q A) (pos len : Nat) (bs : List UInt8) : Prop where
  length_le : bs.length ≤ len
  within : bs = [] ∨ pos + bs.length ≤ d.size
  bytes : ∀ i b, bs[i]? = some b → d.byte (pos + i) = some b
  progress : 0 < len → pos < d.size → d.served pos → bs ≠ []

/-- A request to the device; `query` stands for calls that only look. -/
inductive Request (Q : Type) where
  | seek (target : SeekFrom)
  | read (len : Nat)
  | query (q : Q)

inductive Answer (A : Type) where
  | sought (r : Except IoError Nat)
  | data (r : Except IoError (List UInt8))
  | answer (a : A)

/-- The answers the device may give at cursor `pos`, and the cursor after each. A seek reaches its
target, or is refused because the target is negative or no `i64`. -/
def Permits (d : Disk Q A) (pos : Nat) : Request Q → Answer A → Nat → Prop
  | .seek f, .sought (.ok t), pos' => (t : Int) = f.target pos d.size ∧ pos' = t
  | .seek f, .sought (.error _), pos' =>
    (f.target pos d.size < 0 ∨ 2 ^ 63 ≤ f.target pos d.size) ∧ pos' = pos
  | .read len, .data (.ok bs), pos' => d.Delivers pos len bs ∧ pos' = pos + bs.length
  | .read _, .data (.error _), pos' => ¬ d.served pos ∧ pos' = pos
  | .query q, .answer a, pos' => a = d.answer q ∧ pos' = pos
  | _, _, _ => False

theorem delivers_nil_at_end {d : Disk Q A} {pos len : Nat} (h : d.size ≤ pos ∨ len = 0) :
    d.Delivers pos len [] where
  length_le := by simp
  within := Or.inl rfl
  bytes := by intro i b hb; simp at hb
  progress := by intro hl hp; omega

end Disk

/-! ## The seek of a cursor kept as a `u64` and moved through an `i64` -/

namespace Cursor
open Word

def beforeStart : IoError := ⟨.invalidInput, "seek before start"⟩

/-- The new position as the `i64` arithmetic of `seek` computes it. -/
def newPos (pos size : Nat) : SeekFrom → Int
  | .start n => wrapI64 n.toNat
  | .current n => wrapI64 (wrapI64 pos + n.toInt)
  | .fromEnd n => wrapI64 (wrapI64 size + n.toInt)

/-- `seek` of a reader at `pos` over `size` bytes: the new position. -/
def seek (pos size : Nat) (f : SeekFrom) : Except IoError Nat :=
  if newPos pos size f < 0 then .error beforeStart else .ok (newPos pos size f).toNat

theorem newPos_lt (pos size : Nat) (f : SeekFrom) : newPos pos size f < 2 ^ 63 := by
  cases f <;> exact (wrapI64_range _).2

theorem seek_lt {pos size t : Nat} {f : SeekFrom} (h : seek pos size f = .ok t) : t < 2 ^ 63 := by
  have hlt := newPos_lt pos size f
  unfold seek at h
  split at h
  · cases h
  · cases h; omega

/-- An `i64` result is the target, or negative because the target is negative or no `i64`. -/
theorem wrapI64_target {x : Int} (hlo : -2 ^ 63 ≤ x) (hhi : x < 2 ^ 64) :
    (0 ≤ wrapI64 x ∧ wrapI64 x = x) ∨ (wrapI64 x < 0 ∧ (x < 0 ∨ 2 ^ 63 ≤ x)) := by
  rcases Int.lt_or_le x (2 ^ 63) with hx | hx
  · rw [wrapI64_eq hlo hx]; omega
  · exact .inr ⟨wrapI64_neg_of_ge hx hhi, .inr hx⟩

theorem newPos_target {pos size : Nat} (hpos : pos < 2 ^ 63) (hsize : size < 2 ^ 63)
    (f : SeekFrom) :
    (0 ≤ newPos pos size f ∧ newPos pos size f = f.target pos size) ∨
      (newPos pos size f < 0 ∧ (f.target pos size < 0 ∨ 2 ^ 63 ≤ f.target pos size)) := by
  cases f with
  | start n =>
    have := n.toNat_lt
    exact wrapI64_target (by omega) (by omega)
  | current n =>
    have := n.toInt_lt
    have := n.le_toInt
    rw [newPos, wrapI64_eq (x := pos) (by omega) (by omega)]
    exact wrapI64_target (by omega) (by omega)
  | fromEnd n =>
    have := n.toInt_lt
    have := n.le_toInt
    rw [newPos, wrapI64_eq (x := size) (by omega) (by omega)]
    exact wrapI64_target (by omega) (by omega)

/-- **A seek of a cursor inside `i64` range** reaches its target exactly, or is refused because
the target is negative or too large. -/
theorem seek_spec {pos size : Nat} (hpos : pos < 2 ^ 63) (hsize : size < 2 ^ 63) (f : SeekFrom) :
    (∃ t : Nat, seek pos size f = .ok t ∧ (t : Int) = f.target pos size) ∨
      (seek pos size f = .error beforeStart ∧
        (f.target pos size < 0 ∨ 2 ^ 63 ≤ f.target pos size)) := by
  unfold seek
  rcases newPos_target hpos hsize f with ⟨hn, heq⟩ | ⟨hn, hout⟩
  · rw [if_neg (by omega), ← heq]
    exact .inl ⟨_, rfl, by omega⟩
  · rw [if_pos hn]
    exact .inr ⟨rfl, hout⟩

/-- Every offset below `2 ^ 63` can be sought from the start. -/
theorem seek_start {pos size : Nat} {n : UInt64} (h : n.toNat < 2 ^ 63) :
    seek pos size (.start n) = .ok n.toNat := by
  have hn : newPos pos size (.start n) = n.toNat := wrapI64_eq (by omega) (by omega)
  rw [seek, hn, if_neg (by omega)]
  rfl

/-- No other offset can. -/
theorem seek_start_refused {pos size : Nat} {n : UInt64} (h : 2 ^ 63 ≤ n.toNat) :
    seek pos size (.start n) = .error beforeStart := by
  have hlt := n.toNat_lt
  exact if_pos (wrapI64_neg_of_ge (by omega) (by omega))

/-! ## A reader whose state is its cursor -/

variable {size pos len : Nat} {readHere : (pos len : Nat) → Except IoError (List UInt8)}

/-- One seek, or one read by `readHere` at the cursor. -/
def step (size : Nat) (readHere : (pos len : Nat) → Except IoError (List UInt8)) (pos : Nat) :
    Disk.Request Empty → Disk.Answer Empty × Nat
  | .seek f =>
    match seek pos size f with
    | .ok t => (.sought (.ok t), t)
    | .error e => (.sought (.error e), pos)
  | .read len =>
    match readHere pos len with
    | .ok bs => (.data (.ok bs), pos + bs.length)
    | .error e => (.data (.error e), pos)

theorem step_read : (step size readHere pos (.read len)).1 = .data (readHere pos len) := by
  simp only [step]
  cases readHere pos len with
  | ok bs => rfl
  | error e => rfl

end Cursor
