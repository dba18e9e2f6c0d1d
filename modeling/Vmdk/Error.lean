import Mathlib.Data.Fintype.Basic
import Vmdk.Lib.Source
import Vmdk.Lib.Text

/-! # Errors of opening and parsing an image -/

inductive VmdkError where
  | io (e : IoError)
  | badMagic
  | unsupportedVersion (version : Nat)
  | compressedNotSupported
  | fileTooSmall
  | geometryOverflow (field : String)
  | fieldOutOfRange (field : String) (value : Nat) (reason : String)
  | malformedDescriptor (reason : String)
  | unsupportedDiskType (createType : Text)
deriving DecidableEq, Repr

namespace VmdkError

/-- `to_string()`. -/
def display : VmdkError → String
  | .io e => "I/O error: " ++ e.message
  | .badMagic => "not a VMware VMDK file: bad magic number"
  | .unsupportedVersion v => "unsupported VMDK version: " ++ toString v
  | .compressedNotSupported => "compressed VMDKs are not supported"
  | .fileTooSmall => "VMDK file too small"
  | .geometryOverflow field => "geometry field `" ++ field ++ "` overflowed"
  | .fieldOutOfRange field value reason =>
    "geometry field `" ++ field ++ "` = " ++ toString value ++ " is invalid: " ++ reason
  | .malformedDescriptor reason => "malformed descriptor: " ++ reason
  | .unsupportedDiskType createType => "unsupported VMDK disk type: " ++ String.ofList createType

end VmdkError

/-- `io::Error::new(InvalidData, message)`. -/
def invalidData (message : String) : IoError := ⟨.invalidData, message⟩

/-- `map_err(|e| io::Error::new(InvalidData, e.to_string()))`. -/
def asInvalidData {α : Type} : Except VmdkError α → Except IoError α :=
  Except.mapError fun e => invalidData e.display

/-- `?` on an I/O result where a `VmdkError` is expected. -/
def fromIo {α : Type} : Except IoError α → Except VmdkError α := Except.mapError .io

/-- `ok_or`. -/
def okOr {ε α : Type} (o : Option α) (e : ε) : Except ε α :=
  match o with
  | some a => .ok a
  | none => .error e

/-- A check that must pass for the function to go on; what passed is known from here. -/
def ensure {ε : Type} (p : Prop) [Decidable p] (e : ε) : Except ε (PLift p) :=
  if h : p then .ok ⟨h⟩ else .error e

/-! ## What a successful result says -/

section Ok
variable {ε ε' α β : Type}

theorem bind_eq_ok {x : Except ε α} {f : α → Except ε β} {b : β} :
    (x >>= f) = .ok b ↔ ∃ a, x = .ok a ∧ f a = .ok b := by
  cases x <;> simp [bind, Except.bind]

theorem mapError_eq_ok {f : ε → ε'} {x : Except ε α} {a : α} :
    x.mapError f = .ok a ↔ x = .ok a := by
  cases x <;> simp [Except.mapError]

@[simp] theorem fromIo_eq_ok {x : Except IoError α} {a : α} : fromIo x = .ok a ↔ x = .ok a :=
  mapError_eq_ok

@[simp] theorem asInvalidData_eq_ok {x : Except VmdkError α} {a : α} :
    asInvalidData x = .ok a ↔ x = .ok a :=
  mapError_eq_ok

@[simp] theorem okOr_eq_ok {o : Option α} {e : ε} {a : α} : okOr o e = .ok a ↔ o = some a := by
  cases o <;> simp [okOr]

theorem ensure_eq_ok {p : Prop} [Decidable p] {e : ε} {h : PLift p} : ensure p e = .ok h ↔ p := by
  unfold ensure
  refine ⟨fun _ => h.down, fun hp => ?_⟩
  rw [dif_pos hp]

@[simp] theorem ensure_of {p : Prop} [Decidable p] {e : ε} (h : p) : ensure p e = .ok ⟨h⟩ :=
  dif_pos h

theorem ensure_not {p : Prop} [Decidable p] {e : ε} (h : ¬ p) : ensure p e = .error e :=
  dif_neg h

theorem toOption_eq_some {x : Except ε α} {a : α} : x.toOption = some a ↔ x = .ok a := by
  cases x <;> simp [Except.toOption]

/-- A result that can be checked by evaluation. -/
theorem exists_of_isOk {x : Except ε α} (h : x.isOk = true) : ∃ a, x = .ok a := by
  cases x with
  | ok a => exact ⟨a, rfl⟩
  | error e => cases h

/-- A result of which a part is known by evaluation. -/
theorem exists_of_map_eq {x : Except ε α} {f : α → β} {b : β} (h : x.map f = .ok b) :
    ∃ a, x = .ok a ∧ f a = b := by
  cases x with
  | ok a => exact ⟨a, rfl, Except.ok.inj h⟩
  | error e => cases h

end Ok
