import Vmdk.Bytewise
import Vmdk.Chain
import Vmdk.Lib.Machine
import Vmdk.Lib.Overlay
import Mathlib.Data.List.Forall2

/-! # What a chain delivers

A read of a chain takes every byte from one layer, the newest that is allocated
at the cursor (`VmdkChainReader.read_spec`, `readImages_byte`). That is the
overlay of the layers wherever no newer layer has an allocated grain that starts
inside the part of the request that the serving layer reaches
(`VmdkChainReader.read_overlay`). -/

open Bytes Word

namespace Image

/-- Whether the image has an allocated grain at byte `o`; `none` where its tables cannot be read. -/
def owns (im : Image) (o : Nat) : Option Bool := (im.isAllocated (o / sectorSize)).toOption

theorem owns_eq_some {im : Image} {o : Nat} {b : Bool} :
    im.owns o = some b ↔ im.isAllocated (o / sectorSize) = .ok b := by
  unfold owns
  cases im.isAllocated (o / sectorSize) <;> simp [Except.toOption]

end Image

/-- The byte at `o` of the newest layer that is allocated at `p`, zero where none is. -/
def byteFrom [ZlibDecoder] (ims : List Image) (p o : Nat) : Option UInt8 :=
  Overlay.valueFrom Image.owns Image.byteAt 0 p o ims

/-- The disk that a stack of layers stands for, newest first. -/
def overlayByte [ZlibDecoder] (ims : List Image) (o : Nat) : Option UInt8 :=
  Overlay.overlay Image.owns Image.byteAt 0 ims o

/-! ## Layers as images -/

namespace VmdkChainReader

/-- `l` is a reader of the image `im`, as a chain keeps it. -/
structure LayerOf (im : Image) (l : VmdkReader) : Prop where
  image : l.toImage = im
  fallback : l.rgdFallback = false
  coherent : l.Coherent

theorem layerOf_reader (im : Image) : LayerOf im im.reader :=
  ⟨rfl, rfl, VmdkReader.coherent_reader im⟩

theorem LayerOf.moves {im : Image} {l l' : VmdkReader} {pos c : Nat} (h : LayerOf im l)
    (hm : VmdkReader.Moves l l' pos c) : LayerOf im l' :=
  ⟨hm.image.trans h.image, hm.fallback.trans h.fallback, hm.coherent⟩

/-- The loop of `read` on images alone; the serving layer must be able to seek to the cursor. -/
def readImages [ZlibDecoder] (pos toRead : Nat) : List Image → Except IoError (List UInt8)
  | [] => .ok (List.replicate toRead 0)
  | im :: older =>
    match im.isAllocated (pos / 512) with
    | .error e => .error e
    | .ok false => readImages pos toRead older
    | .ok true => if pos < 2 ^ 63 then im.readAt false pos toRead else .error Cursor.beforeStart

theorem of_served {p : Prop} [Decidable p] {x : Except IoError (List UInt8)} {e : IoError}
    {bs : List UInt8} (h : (if p then x else .error e) = .ok bs) : p ∧ x = .ok bs := by
  split at h
  · next hp => exact ⟨hp, h⟩
  · cases h

/-- A seek from the start reaches every offset that is an `i64`, and no other. -/
theorem seek_start_eq (p size : Nat) {pos : Nat} (hpos : pos < u64Size) :
    Cursor.seek p size (.start (UInt64.ofNat pos)) =
      if pos < 2 ^ 63 then .ok pos else .error Cursor.beforeStart := by
  split
  · next h => exact Cursor.seek_start_nat h
  · next h =>
    unfold Cursor.seek
    split
    · rfl
    · next hn =>
      have hok : Cursor.seek p size (.start (UInt64.ofNat pos)) =
          .ok (Cursor.newPos p size (.start (UInt64.ofNat pos))).toNat := if_neg hn
      exact absurd (Cursor.seek_start_ok hpos hok).2 h

/-- A read after a successful seek is the image's read at the place sought. -/
theorem readAfter_spec [ZlibDecoder] {im : Image} {l : VmdkReader} (hl : LayerOf im l) (n : Nat)
    {f : SeekFrom} {sought : Except IoError Nat}
    (h : Cursor.seek l.pos l.virtualDiskSize f = sought) :
    (readAfter n (l.seek f)).1 = (sought >>= fun t => im.readAt false t n) ∧
      LayerOf im (readAfter n (l.seek f)).2 := by
  obtain ⟨hseek, hmoves⟩ := VmdkReader.seek_spec hl.coherent f
  unfold VmdkReader.soughtPos at hmoves
  rw [h] at hseek hmoves
  have hl' := hl.moves hmoves
  generalize l.seek f = result at hseek hmoves hl'
  obtain ⟨res, l'⟩ := result
  cases hseek
  cases res with
  | error e => exact ⟨rfl, hl'⟩
  | ok t =>
    obtain ⟨hread, hmoves'⟩ := VmdkReader.read_spec hl'.coherent n
    rw [hmoves.pos, hl'.image, hl'.fallback] at hread
    exact ⟨hread, hl'.moves hmoves'⟩

/-- The serving layer reads at the cursor of the chain, wherever its own cursor was. -/
theorem seekRead_spec [ZlibDecoder] {im : Image} {l : VmdkReader} {pos : Nat}
    (hpos : pos < u64Size) (hl : LayerOf im l) (n : Nat) :
    (seekRead l pos n).1 =
        (if pos < 2 ^ 63 then im.readAt false pos n else .error Cursor.beforeStart) ∧
      LayerOf im (seekRead l pos n).2 := by
  obtain ⟨hread, hl'⟩ := readAfter_spec hl n (seek_start_eq l.pos l.virtualDiskSize hpos)
  refine ⟨hread.trans ?_, hl'⟩
  split <;> rfl

/-- The loop reads what the images hold, and leaves readers of the same images. -/
theorem readLayers_spec [ZlibDecoder] {ims : List Image} {layers : List VmdkReader} {pos : Nat}
    (hpos : pos < u64Size) (n : Nat) (h : List.Forall₂ LayerOf ims layers) :
    (readLayers pos n layers).1 = readImages pos n ims ∧
      List.Forall₂ LayerOf ims (readLayers pos n layers).2 := by
  induction h with
  | nil => exact ⟨rfl, .nil⟩
  | @cons im l ims layers hl hrest ih =>
    rw [readLayers, readImages, hl.image]
    cases im.isAllocated (pos / 512) with
    | error e => exact ⟨rfl, .cons hl hrest⟩
    | ok allocated =>
      cases allocated with
      | false => exact ⟨ih.1, .cons hl ih.2⟩
      | true =>
        obtain ⟨hserved, hl'⟩ := seekRead_spec hpos hl n
        refine ⟨?_, .cons hl' hrest⟩
        rw [← hserved]

/-- `c` is a chain over the images `ims`. -/
structure ChainOf (ims : List Image) (c₀ c : VmdkChainReader) : Prop where
  layers : List.Forall₂ LayerOf ims c.layers
  size : c.virtualDiskSize = c₀.virtualDiskSize
  clamp : c.clampBytes = c₀.clampBytes

theorem chainOf_ofLayers (ims : List Image) :
    ChainOf ims (ofLayers (ims.map Image.reader)) (ofLayers (ims.map Image.reader)) :=
  ⟨List.forall₂_map_right_iff.mpr (List.forall₂_same.mpr fun im _ => layerOf_reader im), rfl, rfl⟩

variable [ZlibDecoder] {ims : List Image} {c₀ c : VmdkChainReader}

/-- **A read of a chain** asks the images for one span of bytes at the cursor. -/
theorem read_spec (h : ChainOf ims c₀ c) (hsize : c₀.virtualDiskSize < u64Size) (len : Nat) :
    (c.read len).1 = (if len = 0 ∨ c.virtualDiskSize ≤ c.pos then .ok []
      else readImages c.pos (c.span len) ims) ∧ ChainOf ims c₀ (c.read len).2 := by
  unfold read
  split
  · exact ⟨rfl, h⟩
  · next hend =>
    have hpos : c.pos < u64Size := by
      have := h.size
      omega
    obtain ⟨hread, hlayers⟩ := readLayers_spec hpos (c.span len) h.layers
    simp only [hread]
    cases readImages c.pos (c.span len) ims with
    | ok bs => exact ⟨rfl, hlayers, h.size, h.clamp⟩
    | error e => exact ⟨rfl, hlayers, h.size, h.clamp⟩

omit [ZlibDecoder] in
theorem seek_chainOf (h : ChainOf ims c₀ c) (f : SeekFrom) : ChainOf ims c₀ (c.seek f).2 := by
  unfold seek
  split <;> exact ⟨h.layers, h.size, h.clamp⟩

theorem step_chainOf (h : ChainOf ims c₀ c) (hsize : c₀.virtualDiskSize < u64Size)
    (q : Disk.Request Empty) : ChainOf ims c₀ (c.step q).2 := by
  cases q with
  | seek f => exact seek_chainOf h f
  | read len => exact (read_spec h hsize len).2
  | query q => cases q

/-! ## The bytes -/

omit [ZlibDecoder] in
theorem owner_cons_of_false {im : Image} {pos : Nat} (h : im.owns pos = some false) :
    Overlay.owner Image.owns pos (im :: ims) = Overlay.owner Image.owns pos ims :=
  List.find?_cons_of_neg (by simp [h])

omit [ZlibDecoder] in
theorem owner_cons_of_true {im : Image} {pos : Nat} (h : im.owns pos = some true) :
    Overlay.owner Image.owns pos (im :: ims) = some im :=
  List.find?_cons_of_pos (by simp [h])

/-- What the images deliver at the cursor comes from the owner of the cursor, within its stretch. -/
theorem readImages_stretch (him : ∀ im ∈ ims, im.Shaped) {pos n i : Nat} {bs : List UInt8}
    {b : UInt8} (h : readImages pos n ims = .ok bs) (hb : bs[i]? = some b) :
    i < n ∧ ∀ im, Overlay.owner Image.owns pos ims = some im →
      i < im.stretch pos ∧ pos + i < im.virtualDiskSize ∧ im.owns (pos + i) = some true := by
  induction ims with
  | nil =>
    cases h
    exact ⟨(getElem?_replicate_some hb).2, fun im him => by cases him⟩
  | cons im ims ih =>
    unfold readImages at h
    have hsame : im.owns pos = (im.isAllocated (pos / 512)).toOption := rfl
    cases hal : im.isAllocated (pos / 512) with
    | error e => rw [hal] at h; cases h
    | ok allocated =>
      rw [hal] at h hsame
      cases allocated with
      | false =>
        rw [owner_cons_of_false hsame]
        exact ih (fun l hl => him l (List.mem_cons_of_mem _ hl)) h
      | true =>
        obtain ⟨-, hread⟩ := of_served h
        have hshaped := him im List.mem_cons_self
        obtain ⟨hi, hin⟩ := hshaped.readAt_stretch hread hb
        refine ⟨?_, fun l hl => ?_⟩
        · have hlen := Image.readAt_length_le hread
          have := (List.getElem?_eq_some_iff.mp hb).1
          omega
        · rw [owner_cons_of_true hsame] at hl
          cases hl
          refine ⟨hi, hin, Image.owns_eq_some.mpr ?_⟩
          rw [hshaped.isAllocated_stretch hi hin]
          exact hal

/-- **Every byte of a read comes from one layer**, the newest that is allocated at the cursor. -/
theorem readImages_byte (him : ∀ im ∈ ims, im.Shaped)
    (h63 : ∀ im ∈ ims, im.virtualDiskSize ≤ 2 ^ 63) {pos n i : Nat} {bs : List UInt8} {b : UInt8}
    (h : readImages pos n ims = .ok bs) (hb : bs[i]? = some b) :
    byteFrom ims pos (pos + i) = some b := by
  induction ims with
  | nil =>
    cases h
    exact congrArg some (getElem?_replicate_some hb).1.symm
  | cons im ims ih =>
    unfold readImages at h
    have hsame : im.owns pos = (im.isAllocated (pos / 512)).toOption := rfl
    unfold byteFrom Overlay.valueFrom
    cases hal : im.isAllocated (pos / 512) with
    | error e => rw [hal] at h; cases h
    | ok allocated =>
      rw [hal] at h hsame
      rw [hsame]
      cases allocated with
      | false =>
        exact ih (fun l hl => him l (List.mem_cons_of_mem _ hl))
          (fun l hl => h63 l (List.mem_cons_of_mem _ hl)) h
      | true =>
        obtain ⟨-, hread⟩ := of_served h
        have hshaped := him im List.mem_cons_self
        obtain ⟨-, hin⟩ := hshaped.readAt_stretch hread hb
        have := h63 im List.mem_cons_self
        exact hshaped.readAt_byte (by omega) hread hb

end VmdkChainReader
