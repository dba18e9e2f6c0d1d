import Vmdk.Lib.Source
import Vmdk.Lib.Path

/-! # The files an opening touches

`File::open` under an unchanging file system, in a computation that records
every path it passes to it, and why: the caller gave the path, or a file in
directory `dir` named it. -/

/-- What `File::open` returns for a path. -/
abbrev FileSystem := FilePath → Except IoError Source

inductive Origin where
  | caller
  | named (dir : FilePath) (name : Text)
deriving DecidableEq, Repr

structure Opened where
  origin : Origin
  path : FilePath
deriving DecidableEq, Repr

/-- A result, and the files opened on the way to it in order. -/
structure Opens (ε α : Type) where
  result : Except ε α
  opened : List Opened

namespace Opens

variable {ε ε' α β : Type}

def bind (x : Opens ε α) (f : α → Opens ε β) : Opens ε β :=
  match x.result with
  | .ok a => ⟨(f a).result, x.opened ++ (f a).opened⟩
  | .error e => ⟨.error e, x.opened⟩

instance : Monad (Opens ε) where
  pure a := ⟨.ok a, []⟩
  bind := bind

def lift (x : Except ε α) : Opens ε α := ⟨x, []⟩

def mapError (f : ε → ε') (x : Opens ε α) : Opens ε' α := ⟨x.result.mapError f, x.opened⟩

/-- `File::open(path)`. -/
def openFile (fs : FileSystem) (origin : Origin) (path : FilePath) : Opens IoError Source :=
  ⟨fs path, [⟨origin, path⟩]⟩

theorem result_bind (x : Opens ε α) (f : α → Opens ε β) :
    (x >>= f).result = x.result >>= fun a => (f a).result := by
  change (bind x f).result = _
  unfold bind
  cases x.result <;> rfl

@[simp] theorem result_pure (a : α) : (pure a : Opens ε α).result = .ok a := rfl

@[simp] theorem opened_pure (a : α) : (pure a : Opens ε α).opened = [] := rfl

@[simp] theorem result_lift (x : Except ε α) : (lift x).result = x := rfl

@[simp] theorem opened_lift (x : Except ε α) : (lift x).opened = [] := rfl

@[simp] theorem result_mapError (f : ε → ε') (x : Opens ε α) :
    (x.mapError f).result = x.result.mapError f := rfl

@[simp] theorem opened_mapError (f : ε → ε') (x : Opens ε α) :
    (x.mapError f).opened = x.opened := rfl

theorem mem_opened_bind {x : Opens ε α} {f : α → Opens ε β} {o : Opened} :
    o ∈ (x >>= f).opened ↔ o ∈ x.opened ∨ ∃ a, x.result = .ok a ∧ o ∈ (f a).opened := by
  change o ∈ (bind x f).opened ↔ _
  unfold bind
  cases x.result <;> simp

/-- The files a computation opens whose first part succeeds. -/
theorem opened_bind_ok {x : Opens ε α} {f : α → Opens ε β} {a : α} (h : x.result = .ok a) :
    (x >>= f).opened = x.opened ++ (f a).opened := by
  change (bind x f).opened = _
  unfold bind
  rw [h]

/-- The files a computation opens whose first part fails. -/
theorem opened_bind_error {x : Opens ε α} {f : α → Opens ε β} {e : ε} (h : x.result = .error e) :
    (x >>= f).opened = x.opened := by
  change (bind x f).opened = _
  unfold bind
  rw [h]

/-- The second part opens nothing. -/
theorem opened_bind_silent {x : Opens ε α} {f : α → Opens ε β} (h : ∀ a, (f a).opened = []) :
    (x >>= f).opened = x.opened := by
  change (bind x f).opened = _
  unfold bind
  cases x.result with
  | ok a =>
    change x.opened ++ (f a).opened = _
    rw [h a, List.append_nil]
  | error e => rfl

/-- Every file opened satisfies `P`. -/
def All (P : Opened → Prop) (x : Opens ε α) : Prop := ∀ o ∈ x.opened, P o

variable {P : Opened → Prop}

theorem all_pure (a : α) : All P (pure a : Opens ε α) := by intro o ho; cases ho

theorem all_lift (x : Except ε α) : All P (lift x) := by intro o ho; cases ho

theorem All.bind {x : Opens ε α} {f : α → Opens ε β} (hx : All P x)
    (hf : ∀ a, x.result = .ok a → All P (f a)) : All P (x >>= f) := by
  intro o ho
  rcases mem_opened_bind.mp ho with h | ⟨a, ha, h⟩
  · exact hx o h
  · exact hf a ha o h

theorem All.mapError {f : ε → ε'} {x : Opens ε α} (hx : All P x) : All P (x.mapError f) := hx

theorem all_openFile {fs : FileSystem} {origin : Origin} {path : FilePath} (h : P ⟨origin, path⟩) :
    All P (openFile fs origin path) := by
  intro o ho
  rw [List.mem_singleton.mp ho]; exact h

end Opens
