import Vmdk.Bytewise
import Vmdk.Lib.Copy

/-! # A readable disk is a sequence of bytes

Where every read below the end of a disk delivers at least one byte, reads in a
row deliver the bytes of the disk one after the other, in either mode and
whatever the cache holds (`Image.ReadableIn.serves`). -/

open Bytes Word

/-- `r` reads the image `im` in one mode and is at `pos`. -/
structure VmdkReader.At (im : Image) (fallback : Bool) (pos : Nat) (r : VmdkReader) : Prop where
  image : r.toImage = im
  fallback : r.rgdFallback = fallback
  coherent : r.Coherent
  pos : r.pos = pos

theorem VmdkReader.at_reader (im : Image) : VmdkReader.At im false 0 im.reader :=
  ⟨rfl, rfl, VmdkReader.coherent_reader im, rfl⟩

theorem VmdkReader.at_enableRgdFallback (im : Image) :
    VmdkReader.At im true 0 im.reader.enableRgdFallback :=
  ⟨rfl, rfl, VmdkReader.coherent_reader im, rfl⟩

section
variable {im : Image} {fallback : Bool} {pos : Nat} {r : VmdkReader}

theorem VmdkReader.At.of_moves {r' : VmdkReader} {pos' recovered : Nat}
    (h : VmdkReader.At im fallback pos r) (hmoves : VmdkReader.Moves r r' pos' recovered) :
    VmdkReader.At im fallback pos' r' :=
  ⟨hmoves.image.trans h.image, hmoves.fallback.trans h.fallback, hmoves.coherent, hmoves.pos⟩

/-- A seek within the range of an `i64` goes where it should. -/
theorem VmdkReader.At.seek {n : Nat} (h : VmdkReader.At im fallback pos r) (hn : n < 2 ^ 63) :
    ∃ r', r.seek (.start (UInt64.ofNat n)) = (.ok n, r') ∧ VmdkReader.At im fallback n r' := by
  obtain ⟨hfst, hmoves⟩ := VmdkReader.seek_spec h.coherent (.start (UInt64.ofNat n))
  have hsought : VmdkReader.soughtPos r.pos r.virtualDiskSize (.start (UInt64.ofNat n)) = n := by
    unfold VmdkReader.soughtPos
    rw [Cursor.seek_start_nat hn]
  rw [Cursor.seek_start_nat hn] at hfst
  rw [hsought] at hmoves
  exact ⟨_, Prod.ext hfst rfl, h.of_moves hmoves⟩

end

variable [ZlibDecoder]

/-- Every read in range succeeds with a byte. -/
def Image.ReadableIn (im : Image) (fallback : Bool) : Prop :=
  ∀ o < im.virtualDiskSize, ∀ len, 0 < len → ∃ b bs, im.readAt fallback o len = .ok (b :: bs)

/-- The byte of a readable disk at `o`. -/
def Image.diskByte (im : Image) (fallback : Bool) (o : Nat) : UInt8 :=
  (im.byteIn fallback o).getD 0

variable {im : Image} {fallback : Bool} {pos : Nat} {r : VmdkReader}

/-- A read delivers what the image has at the cursor, and goes over it. -/
theorem VmdkReader.At.read_eq {r' : VmdkReader} {len : Nat} {res : Except IoError (List UInt8)}
    (h : VmdkReader.At im fallback pos r) (hread : r.read len = (res, r')) :
    im.readAt fallback pos len = res ∧
      VmdkReader.At im fallback (pos + VmdkReader.delivered res) r' := by
  obtain ⟨hfst, hmoves⟩ := VmdkReader.read_spec h.coherent len
  rw [h.image, h.fallback, h.pos] at hfst hmoves
  rw [hread] at hfst hmoves
  rw [← hfst] at hmoves
  exact ⟨hfst.symm, h.of_moves hmoves⟩

theorem VmdkReader.At.read {bs : List UInt8} {len : Nat} (h : VmdkReader.At im fallback pos r)
    (hread : im.readAt fallback pos len = .ok bs) :
    ∃ r', r.read len = (.ok bs, r') ∧ VmdkReader.At im fallback (pos + bs.length) r' := by
  rcases hstep : r.read len with ⟨res, r'⟩
  obtain ⟨hres, hat⟩ := h.read_eq hstep
  rw [hread] at hres
  subst hres
  exact ⟨r', rfl, hat⟩

namespace Image.ReadableIn
variable (h : im.ReadableIn fallback) (him : im.Shaped)
include h

/-- A readable disk has no offset beyond the range of a seek. -/
theorem size_le (him : im.Shaped) : im.virtualDiskSize ≤ 2 ^ 63 := by
  have hfmt := him.fmt
  cases hf : im.fmt with
  | sparse inner geom =>
    rw [hf] at hfmt
    exact Nat.le_of_lt hfmt.1
  | seSparse inner geom =>
    rw [hf] at hfmt
    exact Nat.le_of_lt hfmt.1
  | flat inner =>
    by_contra hlarge
    obtain ⟨b, bs, hread⟩ := h (2 ^ 63) (Nat.not_le.mp hlarge) 1 Nat.one_pos
    unfold Image.readAt Image.readAtCounting at hread
    rw [if_neg (by omega), hf] at hread
    exact Nat.lt_irrefl _ (ExtentReader.readAt_lt (by decide) hread)

/-- One read delivers the next bytes of the disk. -/
theorem deliver (him : im.Shaped) {len : Nat} (hpos : pos < im.virtualDiskSize) (hlen : 0 < len) :
    ∃ b bs, im.readAt fallback pos len = .ok (b :: bs) ∧
      (b :: bs).length ≤ min len (im.virtualDiskSize - pos) ∧
      b :: bs = Copy.window (im.diskByte fallback) pos (b :: bs).length := by
  obtain ⟨b, bs, hread⟩ := h pos hpos len hlen
  have hin {i : Nat} {c : UInt8} (hc : (b :: bs)[i]? = some c) : pos + i < im.virtualDiskSize :=
    (him.readAt_stretch hread hc).2
  refine ⟨b, bs, hread, him.length_le hpos hread, Copy.eq_window fun i c hc => ?_⟩
  have hbyte := him.readAt_byteIn (Nat.lt_of_lt_of_le (hin hc) (h.size_le him)) hread hc
  unfold Image.diskByte
  rw [hbyte]
  rfl

/-- **Reads in a row deliver the disk.** -/
theorem serves (him : im.Shaped) : Copy.Serves VmdkReader.read (VmdkReader.At im fallback)
    (im.diskByte fallback) im.virtualDiskSize where
  deliver := by
    intro p r len hr hp hlen
    obtain ⟨b, bs, hread, hle, hwindow⟩ := h.deliver him hp hlen
    obtain ⟨r', hstep, hat⟩ := hr.read hread
    exact ⟨b, bs, r', hstep, hle, hwindow, hat⟩
  finish := by
    intro p r len hr hp
    exact hr.read (Image.readAt_at_end hp)

end Image.ReadableIn
