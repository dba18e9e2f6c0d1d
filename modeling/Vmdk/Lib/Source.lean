import Vmdk.Lib.Bytes

/-! # An immutable file behind `Read + Seek`

The bytes never change, a read may return fewer bytes than asked but at least
one while any are left, and how many it returns depends on the offset and the
request alone. A seek may refuse an offset past the end. `readExact` is the
standard library's loop over `read`; its result does not depend on how the
reads were cut (`readExactAt_eq`). -/

inductive ErrorKind where
  | unexpectedEof
  | invalidData
  | invalidInput
  | permissionDenied
  | notFound
  | other
deriving DecidableEq, Repr

structure IoError where
  kind : ErrorKind
  message : String
deriving DecidableEq, Repr

structure Source where
  bytes : List UInt8
  /-- How many bytes one `read` of `want` bytes at `off` delivers. -/
  chunk : (off want : Nat) → Nat
  /-- Whether `seek(SeekFrom::Start(off))` succeeds. -/
  seekable : (off : Nat) → Bool
  chunk_le : ∀ off want, chunk off want ≤ want
  chunk_pos : ∀ off want, off < bytes.length → 0 < want → 0 < chunk off want
  seekable_of_le : ∀ off, off ≤ bytes.length → seekable off = true
  /-- No file and no buffer is longer than the largest `i64`. -/
  length_lt : bytes.length < 2 ^ 63

namespace Source
open Bytes

/-- A source over `bytes` that accepts every seek and never reads short, as a cursor over a buffer. -/
def ofBytes (bytes : List UInt8) (h : bytes.length < 2 ^ 63) : Source where
  bytes := bytes
  chunk := fun _ want => want
  seekable := fun _ => true
  chunk_le := by simp
  chunk_pos := by simp
  seekable_of_le := by simp
  length_lt := h

def len (s : Source) : Nat := s.bytes.length

def seekError : IoError := ⟨.invalidInput, "invalid seek to a negative or overflowing position"⟩

def eofError : IoError := ⟨.unexpectedEof, "failed to fill whole buffer"⟩

/-- One `read` call at `off`. -/
def read (s : Source) (off want : Nat) : List UInt8 := slice s.bytes off (s.chunk off want)

/-- `seek(SeekFrom::Start(off))`, then one `read`. -/
def readAt (s : Source) (off want : Nat) : Except IoError (List UInt8) :=
  if s.seekable off then .ok (s.read off want) else .error seekError

/-- The bytes the `read_exact` loop collects; it stops at a read of nothing. -/
def fill (s : Source) : (fuel off want : Nat) → List UInt8
  | 0, _, _ => []
  | fuel + 1, off, want =>
    if want = 0 then [] else
    let got := s.read off want
    if got.isEmpty then [] else got ++ s.fill fuel (off + got.length) (want - got.length)

/-- `seek(SeekFrom::Start(off))`, then `read_exact` of `n` bytes. Every read that does not end the
loop delivers a byte, so `n` rounds are enough. -/
def readExactAt (s : Source) (off n : Nat) : Except IoError (List UInt8) :=
  if s.seekable off then
    let got := s.fill n off n
    if got.length = n then .ok got else .error eofError
  else .error seekError

/-- `seek(SeekFrom::End(-back))`: the new position. -/
def seekEnd (s : Source) (back : Nat) : Except IoError Nat :=
  if back ≤ s.len then .ok (s.len - back) else .error seekError

theorem fill_eq (s : Source) : ∀ fuel off want, want ≤ fuel →
    s.fill fuel off want = slice s.bytes off want := by
  intro fuel
  induction fuel with
  | zero => intro off want h; rw [show want = 0 by omega]; simp [fill]
  | succ fuel ih =>
    intro off want h
    unfold fill
    by_cases hw : want = 0
    · simp [hw]
    have hle := s.chunk_le off want
    by_cases hoff : off < s.bytes.length
    · have hpos := s.chunk_pos off want hoff (by omega)
      have hlen : (s.read off want).length = min (s.chunk off want) (s.bytes.length - off) :=
        length_slice _ _ _
      have hne : (s.read off want).isEmpty = false := by
        rw [List.isEmpty_eq_false_iff_exists_mem, ← List.length_pos_iff_exists_mem]; omega
      simp only [hw, if_false, hne, Bool.false_eq_true]
      rw [ih _ _ (by omega)]
      by_cases hshort : s.chunk off want ≤ s.bytes.length - off
      · rw [hlen, Nat.min_eq_left hshort]
        unfold read
        rw [slice_append]
        congr 1; omega
      · -- the read ran to the end of the file, so nothing follows it
        have hnil : slice s.bytes (off + (s.read off want).length)
            (want - (s.read off want).length) = [] :=
          slice_eq_nil_iff.mpr (Or.inr (by omega))
        rw [hnil, List.append_nil]
        have h1 : s.bytes.length - off ≤ s.chunk off want := by omega
        have h2 : s.bytes.length - off ≤ want := by omega
        unfold read slice
        rw [List.take_of_length_le (by simpa using h1), List.take_of_length_le (by simpa using h2)]
    · have hnil : s.read off want = [] := slice_eq_nil_iff.mpr (Or.inr (by omega))
      simp only [hw, if_false, hnil, List.isEmpty_nil, if_true]
      exact (slice_eq_nil_iff.mpr (Or.inr (by omega))).symm

theorem readExactAt_eq (s : Source) (off n : Nat) :
    s.readExactAt off n = if s.seekable off then
      (if n = 0 ∨ off + n ≤ s.bytes.length then .ok (slice s.bytes off n) else .error eofError)
      else .error seekError := by
  unfold readExactAt
  simp only [fill_eq s n off n (Nat.le_refl n), length_slice]
  split
  · congr 1
    exact propext (by omega)
  · rfl

/-- A window inside the file is read whole, however the reads are cut. -/
theorem readExactAt_of_le {s : Source} {off n : Nat} (h : off + n ≤ s.bytes.length) :
    s.readExactAt off n = .ok (slice s.bytes off n) := by
  rw [readExactAt_eq, if_pos (s.seekable_of_le off (by omega)), if_pos (Or.inr h)]

theorem readExactAt_ok {s : Source} {off n : Nat} {bs : List UInt8}
    (h : s.readExactAt off n = .ok bs) :
    bs = slice s.bytes off n ∧ bs.length = n ∧ (n = 0 ∨ off + n ≤ s.bytes.length) := by
  rw [readExactAt_eq] at h
  split at h
  · split at h
    · next hle =>
      cases h
      refine ⟨rfl, ?_, hle⟩
      rw [length_slice]; omega
    · cases h
  · cases h

theorem readExactAt_ok_le {s : Source} {off n : Nat} {bs : List UInt8} (hn : 0 < n)
    (h : s.readExactAt off n = .ok bs) : off + n ≤ s.bytes.length := by
  have := (readExactAt_ok h).2.2; omega

theorem readAt_ok {s : Source} {off want : Nat} {bs : List UInt8} (h : s.readAt off want = .ok bs) :
    bs = slice s.bytes off (s.chunk off want) := by
  unfold readAt at h
  split at h
  · cases h; rfl
  · cases h

theorem readAt_length_le {s : Source} {off want : Nat} {bs : List UInt8}
    (h : s.readAt off want = .ok bs) : bs.length ≤ want := by
  have := s.chunk_le off want
  rw [readAt_ok h, length_slice]; omega

/-- Byte `i` of a read is the file's byte at that place. -/
theorem readAt_getElem? {s : Source} {off want i : Nat} {bs : List UInt8}
    (h : s.readAt off want = .ok bs) (hi : i < bs.length) : bs[i]? = s.bytes[off + i]? := by
  rw [readAt_ok h] at hi ⊢
  rw [getElem?_slice, if_pos (by rw [length_slice] at hi; omega)]

/-- A read inside the file delivers at least one byte. -/
theorem readAt_progress (s : Source) {off want : Nat} (hoff : off < s.bytes.length)
    (hw : 0 < want) : ∃ b bs, s.readAt off want = .ok (b :: bs) := by
  have hpos := s.chunk_pos off want hoff hw
  unfold readAt
  rw [if_pos (s.seekable_of_le off (by omega))]
  cases hr : s.read off want with
  | nil =>
    have := slice_eq_nil_iff.mp (show slice _ _ _ = [] from hr)
    omega
  | cons b bs => exact ⟨b, bs, rfl⟩

/-- A window that two files of one length share is read alike from both. -/
theorem readExactAt_congr {s s' : Source} {off n : Nat} (hlen : s'.bytes.length = s.bytes.length)
    (hseek : s'.seekable = s.seekable) (h : AgreeOn s.bytes s'.bytes off n) :
    s'.readExactAt off n = s.readExactAt off n := by
  rw [readExactAt_eq, readExactAt_eq, hlen, hseek, h.slice_eq]

/-- One read in a window that two files share returns the same bytes. -/
theorem readAt_congr {s s' : Source} {off want : Nat} (hchunk : s'.chunk = s.chunk)
    (hseek : s'.seekable = s.seekable) (h : AgreeOn s.bytes s'.bytes off want) :
    s'.readAt off want = s.readAt off want := by
  have hle := s.chunk_le off want
  unfold readAt read
  rw [hseek, hchunk, (h.mono (Nat.le_refl off) (by omega)).slice_eq]

/-- Whether a window can be read whole depends on the length of the file only. -/
theorem readExactAt_ok_of_same_length {s s' : Source} {off n : Nat} {bs : List UInt8}
    (hlen : s'.bytes.length = s.bytes.length) (hseek : s'.seekable = s.seekable)
    (h : s.readExactAt off n = .ok bs) : s'.readExactAt off n = .ok (slice s'.bytes off n) := by
  rw [readExactAt_eq] at h ⊢
  rw [hlen, hseek]
  split at h
  · next hs =>
    split at h
    · next hin => rw [if_pos hs, if_pos hin]
    · cases h
  · cases h

/-- Past the end a read delivers nothing, unless the seek itself is refused. -/
theorem readAt_past_end {s : Source} {off want : Nat} (h : s.bytes.length ≤ off) :
    s.readAt off want = if s.seekable off then .ok [] else .error seekError := by
  have hnil : s.read off want = [] := slice_eq_nil_iff.mpr (Or.inr h)
  rw [readAt, hnil]

end Source
