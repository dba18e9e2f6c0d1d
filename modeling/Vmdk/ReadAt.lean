import Vmdk.Alloc

/-! # Reads without the reader's state

`Image.readAt` is what a `read` at a position returns when no grain table is
cached. A cache is coherent when every table in it is the one in the file; a
reader with a coherent cache returns exactly `readAt` at its cursor, keeps its
image, and keeps its cache coherent (`VmdkReader.read_spec`). Whether a grain
was recovered on the way is part of the stateless result. -/

namespace Image

/-- `grain_location` of a VMDK4 or COWD extent without a cache, and whether it counts a recovered
grain. -/
def locateSparse (im : Image) (fallback : Bool) (inner : Source) (geom : SparseFormat)
    (virtualOffset : Nat) : Except IoError GrainLookup × Bool :=
  let gdIdx := virtualOffset / geom.grainSizeBytes / geom.numGtesPerGt
  match im.gtSectorFor fallback inner geom gdIdx with
  | .error e => (.error e, false)
  | .ok gtSector =>
    if gtSector = 0 then (.ok .sparse, false) else
    match readGt inner geom.numGtesPerGt gtSector with
    | .error e => (.error e, false)
    | .ok gt => im.locateIn fallback inner geom virtualOffset gtSector gt

/-- What a read of `len` bytes at `pos` returns, and whether it counts a recovered grain. -/
def readAtCounting [ZlibDecoder] (im : Image) (fallback : Bool) (pos len : Nat) :
    Except IoError (List UInt8) × Bool :=
  if im.virtualDiskSize ≤ pos ∨ len = 0 then (.ok [], false) else
  let remainingVirtual := im.virtualDiskSize - pos
  match im.fmt with
  | .flat inner => (inner.readAt pos (min len remainingVirtual), false)
  | .sparse inner geom =>
    let toRead := min (min len remainingVirtual) (geom.grainSizeBytes - pos % geom.grainSizeBytes)
    let located := im.locateSparse fallback inner geom pos
    (located.1 >>= GrainLookup.fetch inner geom.grainSizeBytes toRead, located.2)
  | .seSparse inner geom =>
    let toRead := min (min len remainingVirtual) (geom.grainSizeBytes - pos % geom.grainSizeBytes)
    (grainLocationSesparse inner geom pos >>= GrainLookup.fetch inner geom.grainSizeBytes toRead,
      false)

def readAt [ZlibDecoder] (im : Image) (fallback : Bool) (pos len : Nat) :
    Except IoError (List UInt8) :=
  (im.readAtCounting fallback pos len).1

/-- At the end of the disk there is nothing to read. -/
theorem readAt_at_end [ZlibDecoder] {im : Image} {fallback : Bool} {pos len : Nat}
    (h : im.virtualDiskSize ≤ pos) : im.readAt fallback pos len = .ok [] := by
  unfold readAt readAtCounting
  rw [if_pos (.inl h)]

end Image

namespace VmdkReader

/-- Every cached grain table is the one in the file. -/
def Coherent (self : VmdkReader) : Prop :=
  match self.fmt with
  | .sparse inner geom => Memo.Coherent (readGt inner geom.numGtesPerGt) self.gtCache
  | _ => True

/-- From `r` to `r'` the image and the mode are kept, the cursor goes to `pos`, and `recovered`
grains are counted. -/
structure Moves (r r' : VmdkReader) (pos recovered : Nat) : Prop where
  image : r'.toImage = r.toImage
  fallback : r'.rgdFallback = r.rgdFallback
  pos : r'.pos = pos
  count : r'.rgdRecoveryCount = r.rgdRecoveryCount + recovered
  coherent : r'.Coherent

theorem coherent_reader (im : Image) : im.reader.Coherent := by
  unfold Coherent Image.reader
  split
  · exact Memo.coherent_nil _
  · trivial

theorem coherent_of_sparse {r : VmdkReader} {inner : Source} {geom : SparseFormat}
    (hfmt : r.fmt = .sparse inner geom)
    (h : Memo.Coherent (readGt inner geom.numGtesPerGt) r.gtCache) : r.Coherent := by
  unfold Coherent
  rw [hfmt]
  exact h

theorem Coherent.memo {r : VmdkReader} {inner : Source} {geom : SparseFormat} (h : r.Coherent)
    (hfmt : r.fmt = .sparse inner geom) :
    Memo.Coherent (readGt inner geom.numGtesPerGt) r.gtCache := by
  unfold Coherent at h
  rw [hfmt] at h
  exact h

theorem Moves.refl {r : VmdkReader} (h : r.Coherent) : Moves r r r.pos 0 :=
  ⟨rfl, rfl, rfl, rfl, h⟩

/-- The bytes a result delivers. -/
def delivered (r : Except IoError (List UInt8)) : Nat :=
  match r with
  | .ok bs => bs.length
  | .error _ => 0

@[simp] theorem advance_fst (self : VmdkReader) (r : Except IoError (List UInt8)) :
    (self.advance r).1 = r := by
  cases r <;> rfl

theorem Moves.advance {r r' : VmdkReader} {recovered : Nat} (h : Moves r r' r.pos recovered)
    (res : Except IoError (List UInt8)) :
    Moves r (r'.advance res).2 (r.pos + delivered res) recovered := by
  cases res with
  | ok bs => exact ⟨h.image, h.fallback, congrArg (· + bs.length) h.pos, h.count, h.coherent⟩
  | error e => exact h

variable {r : VmdkReader}

/-- The cached lookup is the uncached one, and keeps the cache coherent. -/
theorem grainLocationSparse_spec {inner : Source} {geom : SparseFormat}
    (hfmt : r.fmt = .sparse inner geom) (hc : r.Coherent) (off : Nat) :
    (r.grainLocationSparse inner geom off).1 =
        (r.locateSparse r.rgdFallback inner geom off).1 ∧
      Moves r (r.grainLocationSparse inner geom off).2 r.pos
        (r.locateSparse r.rgdFallback inner geom off).2.toNat := by
  have hmemo := hc.memo hfmt
  unfold grainLocationSparse Image.locateSparse
  simp only
  generalize r.gtSectorFor r.rgdFallback inner geom
    (off / geom.grainSizeBytes / geom.numGtesPerGt) = sec
  cases sec with
  | error e => exact ⟨rfl, .refl hc⟩
  | ok gtSector =>
    by_cases h0 : gtSector = 0
    · subst h0
      exact ⟨rfl, .refl hc⟩
    have hcache := hmemo.fetch_snd gtSector
    simp only [if_neg h0, hmemo.fetch_fst gtSector]
    cases readGt inner geom.numGtesPerGt gtSector with
    | error e => exact ⟨rfl, rfl, rfl, rfl, rfl, coherent_of_sparse hfmt hcache⟩
    | ok gt => exact ⟨rfl, rfl, rfl, rfl, rfl, coherent_of_sparse hfmt hcache⟩

/-- **A read is the stateless read at the cursor**, and moves the cursor over what it delivers. -/
theorem read_spec [ZlibDecoder] (hc : r.Coherent) (len : Nat) :
    (r.read len).1 = r.readAt r.rgdFallback r.pos len ∧
      Moves r (r.read len).2 (r.pos + delivered (r.readAt r.rgdFallback r.pos len))
        (r.readAtCounting r.rgdFallback r.pos len).2.toNat := by
  unfold read Image.readAt Image.readAtCounting
  by_cases hend : r.virtualDiskSize ≤ r.pos ∨ len = 0
  · simp only [hend, if_true]
    exact ⟨trivial, .refl hc⟩
  simp only [if_neg hend]
  cases hfmt : r.fmt with
  | flat inner => exact ⟨advance_fst _ _, (Moves.refl hc).advance _⟩
  | seSparse inner geom => exact ⟨advance_fst _ _, (Moves.refl hc).advance _⟩
  | sparse inner geom =>
    obtain ⟨hfst, hmoves⟩ := grainLocationSparse_spec hfmt hc r.pos
    simp only [advance_fst, hfst]
    exact ⟨trivial, hmoves.advance _⟩

/-- Where a seek leaves the cursor. -/
def soughtPos (pos size : Nat) (f : SeekFrom) : Nat :=
  match Cursor.seek pos size f with
  | .ok t => t
  | .error _ => pos

theorem seek_spec (hc : r.Coherent) (f : SeekFrom) :
    (r.seek f).1 = Cursor.seek r.pos r.virtualDiskSize f ∧
      Moves r (r.seek f).2 (soughtPos r.pos r.virtualDiskSize f) 0 := by
  unfold seek soughtPos
  cases Cursor.seek r.pos r.virtualDiskSize f with
  | ok t => exact ⟨rfl, rfl, rfl, rfl, rfl, hc⟩
  | error e => exact ⟨rfl, .refl hc⟩

theorem iterAllocatedGrains_spec (hc : r.Coherent) :
    r.iterAllocatedGrains.1 = (r.allocatedGrains r.rgdFallback).1 ∧
      Moves r r.iterAllocatedGrains.2 r.pos (r.allocatedGrains r.rgdFallback).2 :=
  ⟨rfl, rfl, rfl, rfl, rfl, hc⟩

end VmdkReader
