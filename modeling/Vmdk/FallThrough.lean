import Vmdk.ChainOverlay
import Vmdk.AllocQuery
import Vmdk.Diff
import Vmdk.SparseMultiSound

/-! # What falls through to an older layer

A chain asks each layer a yes-or-no question. An explicitly zeroed grain is
answered like a missing one, so the older layers show through it
(`VmdkChainReader.zeroed_exact`). Every sector of a descriptor's extents is
answered like an allocated one, so nothing shows through a missing grain of a
sparse extent (`VmdkChainReader.multi_sparse_exact`). -/

open Bytes Word Text

/-- The grain entry for byte `o` is there, and marks a grain of explicit zeroes: the VMDK4 entry 1, or
the seSparse type 2. -/
def FormatState.MarksZeroed : FormatState → (o : Nat) → Prop
  | .flat _, _ => False
  | .sparse inner geom, o =>
    Image.queriedEntry inner geom (o / geom.grainSizeBytes / geom.numGtesPerGt)
      (o / geom.grainSizeBytes % geom.numGtesPerGt) = some 1
  | .seSparse inner geom, o =>
    (Image.seReadGte inner (geom.grainDir.getD (o / geom.grainSizeBytes / SeSparse.gtesPerGt) 0)
      geom.gtOffsetSectors (o / geom.grainSizeBytes % SeSparse.gtesPerGt)).map
        (Option.map SeSparse.gteType) = .ok (some SeSparse.gteTypeZero)

instance : (fmt : FormatState) → (o : Nat) → Decidable (fmt.MarksZeroed o)
  | .flat _, _ => inferInstanceAs (Decidable False)
  | .sparse _ _, _ => inferInstanceAs (Decidable (_ = _))
  | .seSparse _ _, _ => inferInstanceAs (Decidable (_ = _))

namespace Image
variable {im : Image} {o : Nat}

/-- A zeroed grain counts as not allocated. -/
theorem Shaped.not_owns_zeroed (him : im.Shaped) (h : im.fmt.MarksZeroed o) :
    im.owns o = some false := by
  rw [owns_eq_some]
  by_cases hend : im.virtualDiskSize / sectorSize ≤ o / sectorSize
  · unfold isAllocated
    rw [if_pos hend]
  have hlba := Nat.not_le.mp hend
  have hfmt := him.fmt
  have hfloor {g : Nat} (hg : sectorSize ∣ g) : o / sectorSize * sectorSize / g = o / g :=
    Blocks.div_floor (by decide) hg
  cases hf : im.fmt with
  | flat inner =>
    rw [hf] at h
    cases h
  | sparse inner geom =>
    rw [hf] at h hfmt
    have hentry : queriedEntry inner geom (o / geom.grainSizeBytes / geom.numGtesPerGt)
        (o / geom.grainSizeBytes % geom.numGtesPerGt) = some 1 := h
    have hquery := isAllocated_sparse hf hlba
    rw [hfloor hfmt.2, hentry] at hquery
    exact toOption_eq_some.mp hquery
  | seSparse inner geom =>
    rw [hf] at h hfmt
    have hdvd : sectorSize ∣ geom.grainSizeBytes := hfmt.2 ▸ ⟨8, rfl⟩
    unfold isAllocated
    rw [if_neg hend, hf]
    simp only [hfloor hdvd]
    have hentry : (seReadGte inner
        (geom.grainDir.getD (o / geom.grainSizeBytes / SeSparse.gtesPerGt) 0) geom.gtOffsetSectors
        (o / geom.grainSizeBytes % SeSparse.gtesPerGt)).map (Option.map SeSparse.gteType) =
          .ok (some SeSparse.gteTypeZero) := h
    generalize seReadGte inner
      (geom.grainDir.getD (o / geom.grainSizeBytes / SeSparse.gtesPerGt) 0) geom.gtOffsetSectors
      (o / geom.grainSizeBytes % SeSparse.gtesPerGt) = found at hentry
    cases found with
    | error e => cases hentry
    | ok entry =>
      cases entry with
      | none => rfl
      | some gte =>
        have htype : SeSparse.gteType gte = SeSparse.gteTypeZero :=
          Option.some.inj (Except.ok.inj hentry)
        show Except.ok (SeSparse.gteType gte == SeSparse.gteTypeAllocated) = _
        rw [htype]
        rfl

end Image

namespace VmdkChainReader

section
variable [ZlibDecoder] {newer older : List Image} {im : Image} {pos n : Nat}

/-- Layers that are not allocated at the cursor are passed over. -/
theorem readImages_append (h : ∀ l ∈ newer, l.owns pos = some false) (ims : List Image) :
    readImages pos n (newer ++ ims) = readImages pos n ims := by
  induction newer with
  | nil => rfl
  | cons l newer ih =>
    obtain ⟨hl, hrest⟩ := List.forall_mem_cons.mp h
    have hal : l.isAllocated (pos / 512) = .ok false := Image.owns_eq_some.mp hl
    rw [List.cons_append, readImages, hal]
    exact ih hrest

/-- Layers that are not allocated at a place which the read reaches do not serve the read. -/
theorem passed_over (him : ∀ l ∈ newer, l.Shaped) {i : Nat} {bs : List UInt8} {b : UInt8}
    {ims : List Image} (hnone : ∀ l ∈ newer, l.owns (pos + i) = some false)
    (h : readImages pos n (newer ++ ims) = .ok bs) (hb : bs[i]? = some b) :
    ∀ l ∈ newer, l.owns pos = some false := by
  induction newer with
  | nil => exact fun l hl => by cases hl
  | cons l newer ih =>
    obtain ⟨hl, hrest⟩ := List.forall_mem_cons.mp hnone
    obtain ⟨hshaped, hshapes⟩ := List.forall_mem_cons.mp him
    rw [List.cons_append, readImages] at h
    cases hal : l.isAllocated (pos / 512) with
    | error e =>
      rw [hal] at h
      cases h
    | ok allocated =>
      rw [hal] at h
      cases allocated with
      | false =>
        exact List.forall_mem_cons.mpr ⟨Image.owns_eq_some.mpr hal, ih hshapes hrest h⟩
      | true =>
        obtain ⟨-, hread⟩ := of_served h
        obtain ⟨hi, hin⟩ := hshaped.readAt_stretch hread hb
        have hsame := hshaped.isAllocated_stretch hi hin
        have hnot : l.isAllocated ((pos + i) / sectorSize) = .ok false := Image.owns_eq_some.mp hl
        have hyes : l.isAllocated (pos / sectorSize) = .ok true := hal
        rw [hnot, hyes] at hsame
        cases hsame

end

/-! ## Places of a read -/

/-- The read delivers `b` as its byte `i`. -/
def Delivers (r : Except IoError (List UInt8)) (i : Nat) (b : UInt8) : Prop :=
  ∃ bs, r = .ok bs ∧ bs[i]? = some b

/-- `c` is a chain over `layers`, and its reads ask their images at its cursor. -/
structure Reached [ZlibDecoder] (c : VmdkChainReader) (layers : List VmdkReader) : Prop where
  images : c.images = layers.map (·.toImage)
  shaped : ∀ im ∈ c.images, im.Shaped
  read : ∀ len, (c.read len).1 = if len = 0 ∨ c.virtualDiskSize ≤ c.pos then .ok []
    else readImages c.pos (c.span len) c.images

/-- Whatever is asked of a chain, its reads ask the images of its layers. -/
theorem reached_final [ZlibDecoder] {layers : List VmdkReader}
    (hopen : ∀ r ∈ layers, ∃ fs origin path, (VmdkReader.openPath fs origin path).result = .ok r)
    (reqs : List (Disk.Request Empty)) :
    Reached (Machine.final step (ofLayers layers) reqs) layers := by
  obtain ⟨ims, rfl, him⟩ := opened_layers hopen
  have hsize : (ofLayers (ims.map Image.reader)).virtualDiskSize < u64Size := by
    cases ims with
    | nil => decide
    | cons im ims => exact (him im List.mem_cons_self).size_lt
  have hstep (c : VmdkChainReader) (q : Disk.Request Empty)
      (h : ChainOf ims (ofLayers (ims.map Image.reader)) c) :
      ChainOf ims (ofLayers (ims.map Image.reader)) (c.step q).2 := step_chainOf h hsize q
  have hchain := Machine.final_inv hstep (chainOf_ofLayers ims) reqs
  refine ⟨?_, ?_, fun len => ?_⟩
  · rw [hchain.images, List.map_map]
    exact (List.map_id ims).symm
  · rw [hchain.images]
    exact him
  · rw [hchain.images]
    exact (read_spec hchain hsize len).1

/-- Byte `i` of a read of the chain lies on the disk, at a place where no layer above `older` is
allocated. -/
structure Below (c : VmdkChainReader) (newer older : List Image) (i : Nat) : Prop where
  layers : c.images = newer ++ older
  unallocated : ∀ l ∈ newer, l.owns (c.pos + i) = some false
  inside : c.pos + i < c.virtualDiskSize

theorem span_pos {c : VmdkChainReader} {len : Nat} (hlen : 0 < len)
    (hpos : c.pos < c.virtualDiskSize) : 0 < c.span len := by
  unfold span
  simp only
  split
  · next hclamp =>
    have hrest := Nat.mod_lt c.pos hclamp
    omega
  · omega

section
variable [ZlibDecoder] {layers : List VmdkReader} {newer older : List Image} {im : Image}
  {c : VmdkChainReader} {len i : Nat} {b : UInt8}

omit [ZlibDecoder] in
/-- A layer that is not allocated there is below it as well. -/
theorem Below.next (h : Below c newer (im :: older) i) (him : im.owns (c.pos + i) = some false) :
    Below c (newer ++ [im]) older i where
  layers := h.layers.trans (by simp)
  unallocated := by
    intro l hl
    rcases List.mem_append.mp hl with hl | hl
    · exact h.unallocated l hl
    · rw [List.mem_singleton.mp hl]
      exact him
  inside := h.inside

omit [ZlibDecoder] in
theorem Below.mem (h : Below c newer older i) {l : Image} (hl : l ∈ older) : l ∈ c.images := by
  rw [h.layers]
  exact List.mem_append_right _ hl

/-- A byte below some layers that are not allocated there is read without them. -/
theorem Below.read (h : Below c newer older i) (hc : Reached c layers)
    (hb : Delivers (c.read len).1 i b) : Delivers (readImages c.pos (c.span len) older) i b := by
  obtain ⟨bs, hbs, hget⟩ := hb
  rw [hc.read len] at hbs
  split at hbs
  · cases hbs
    cases hget
  · rw [h.layers] at hbs
    have hshaped : ∀ l ∈ newer, l.Shaped := by
      intro l hl
      refine hc.shaped l ?_
      rw [h.layers]
      exact List.mem_append_left _ hl
    have hpassed := passed_over hshaped h.unallocated hbs hget
    rw [readImages_append hpassed] at hbs
    exact ⟨bs, hbs, hget⟩

/-- At the cursor, that is so whatever is read. -/
theorem Below.read_first (h : Below c newer older 0) (hc : Reached c layers) (hlen : 0 < len) :
    (c.read len).1 = readImages c.pos (c.span len) older := by
  have hpos : c.pos < c.virtualDiskSize := h.inside
  have hpassed : ∀ l ∈ newer, l.owns c.pos = some false := h.unallocated
  rw [hc.read len, if_neg (by omega), h.layers, readImages_append hpassed]

end

/-! ## Zeroed grains -/

section
variable [ZlibDecoder] {layers : List VmdkReader} {newer older ims : List Image} {im : Image}
  {c : VmdkChainReader} {len n i pos : Nat} {b : UInt8}

/-- A single file of grains. -/
def Grained (im : Image) : Prop := (∀ inner, im.fmt ≠ .flat inner) ∧ im.virtualDiskSize < 2 ^ 63

omit [ZlibDecoder] in
theorem grained_of_open {file : Source} {r : VmdkReader} (h : VmdkReader.open file = .ok r) :
    Grained r.toImage := by
  obtain ⟨im, rfl, -, hlt, hindex⟩ := open_loads h
  refine ⟨fun inner hflat => ?_, hlt⟩
  generalize layoutOf file.bytes = layout at hindex
  have hfmt : im.fmt = .flat inner := hflat
  cases layout with
  | tables L =>
    obtain ⟨geom, hsparse, -⟩ := hindex
    rw [hfmt] at hsparse
    cases hsparse
  | seSparse L =>
    obtain ⟨geom, hsparse, -⟩ := hindex
    rw [hfmt] at hsparse
    cases hsparse

/-- What single files hold at a place is what a read there delivers first. -/
theorem readImages_first (hims : ∀ im ∈ ims, Grained im) (hn : 0 < n)
    (h : overlayByte ims pos = some b) : ∃ rest, readImages pos n ims = .ok (b :: rest) := by
  induction ims with
  | nil =>
    obtain ⟨k, rfl⟩ : ∃ k, n = k + 1 := ⟨n - 1, by omega⟩
    cases h
    exact ⟨_, rfl⟩
  | cons im ims ih =>
    obtain ⟨him, hrest⟩ := List.forall_mem_cons.mp hims
    unfold overlayByte Overlay.overlay Overlay.valueFrom at h
    rw [readImages]
    have hsame : im.owns pos = (im.isAllocated (pos / 512)).toOption := rfl
    cases hal : im.isAllocated (pos / 512) with
    | error e =>
      rw [hsame, hal] at h
      cases h
    | ok allocated =>
      rw [hsame, hal] at h
      cases allocated with
      | false => exact ih hrest h
      | true =>
        have hbyte : im.byteAt pos = some b := h
        obtain ⟨rest, hread⟩ := Image.readAt_first him.1 hn hbyte
        have hpos : pos < im.virtualDiskSize := by
          by_contra hend
          unfold Image.isAllocated at hal
          have hpast : im.virtualDiskSize / sectorSize ≤ pos / 512 :=
            Nat.div_le_div_right (Nat.not_lt.mp hend)
          rw [if_pos hpast] at hal
          cases hal
        have hlt := him.2
        refine ⟨rest, ?_⟩
        simp only
        rw [if_pos (by omega)]
        exact hread

/-- **A zeroed grain reads as zero** exactly where the newest older layer that is allocated at the cursor
has a zero, whatever was sought and read before. -/
theorem zeroed_exact (hopen : ∀ r ∈ layers, ∃ file, VmdkReader.open file = .ok r)
    {reqs : List (Disk.Request Empty)} (hrun : c = Machine.final step (ofLayers layers) reqs)
    (h : Below c newer (im :: older) i) (hzero : im.fmt.MarksZeroed (c.pos + i)) (hlen : 0 < len) :
    (∀ b, Delivers (c.read len).1 i b →
      (b = 0 ↔ byteFrom older c.pos (c.pos + i) = some 0)) ∧
    (i = 0 → (Delivers (c.read len).1 0 0 ↔ overlayByte older c.pos = some 0)) := by
  have hopens : ∀ r ∈ layers, ∃ fs origin path,
      (VmdkReader.openPath fs origin path).result = .ok r := by
    intro r hr
    obtain ⟨file, hfile⟩ := hopen r hr
    exact ⟨fun _ => .ok file, .caller, [], VmdkReader.openPath_binary rfl hfile⟩
  have hc : Reached c layers := hrun ▸ reached_final hopens reqs
  have holder : Below c (newer ++ [im]) older i :=
    h.next ((hc.shaped im (h.mem List.mem_cons_self)).not_owns_zeroed hzero)
  have hshaped : ∀ l ∈ older, l.Shaped := fun l hl => hc.shaped l (holder.mem hl)
  have hgrained : ∀ l ∈ older, Grained l := by
    intro l hl
    have hmem := holder.mem hl
    rw [hc.images] at hmem
    obtain ⟨r, hr, rfl⟩ := List.mem_map.mp hmem
    obtain ⟨file, hfile⟩ := hopen r hr
    exact grained_of_open hfile
  have hbyte {b : UInt8} (hb : Delivers (c.read len).1 i b) :
      byteFrom older c.pos (c.pos + i) = some b := by
    obtain ⟨bs, hbs, hget⟩ := holder.read hc hb
    exact readImages_byte hshaped (fun l hl => Nat.le_of_lt (hgrained l hl).2) hbs hget
  constructor
  · intro b hb
    rw [hbyte hb]
    exact ⟨congrArg some, Option.some.inj⟩
  · rintro rfl
    constructor
    · exact hbyte
    · intro hover
      obtain ⟨rest, hread⟩ := readImages_first hgrained (span_pos hlen holder.inside) hover
      exact ⟨0 :: rest, (holder.read_first hc hlen).trans hread, rfl⟩

end

/-! ## A zeroed grain over a seven -/

def zeroDeltaBytes : List UInt8 :=
  { SparseExtentHeader.plain 16 0 2 with descriptorOffset := 1, descriptorSize := 1 }.toBytes ++
    padTo 512 (VmdkReader.textBytes shadowText) ++ tableSector [3] ++ tableSector [0, 1]

theorem length_zeroDeltaBytes : zeroDeltaBytes.length = 2048 := by
  have htext : (VmdkReader.textBytes shadowText).length ≤ 512 := by decide
  simp [zeroDeltaBytes, tableSector, recordWidth, sectorSize, htext]

/-- A delta of two grains, of which the second one is zeroed. -/
def zeroDelta : Source :=
  .ofBytes zeroDeltaBytes (by rw [length_zeroDeltaBytes]; decide)

/-- The delta over a base with a seven at 4096. -/
def zeroFiles : FileSystem := deltaFiles zeroDelta Cli.narrowGrains

/-- A chain of two layers, at `o`. -/
def twoAt (a b : VmdkReader) (o : Nat) : VmdkChainReader := { ofLayers [a, b] with pos := o }

theorem final_twoAt [ZlibDecoder] (a b : VmdkReader) {o : Nat} (ho : o < 2 ^ 63) :
    Machine.final step (ofLayers [a, b]) [.seek (.start (UInt64.ofNat o))] = twoAt a b o := by
  show (seek (ofLayers [a, b]) (.start (UInt64.ofNat o))).2 = _
  unfold seek
  rw [Cursor.seek_start_nat ho]
  rfl

/-- The layers of the chain, which has sought `o`. -/
structure ZeroChain (o : Nat) (a b : VmdkReader) : Prop where
  chain : (VmdkChainReader.open zeroFiles ['d']).result = .ok (ofLayers [a, b])
  opened : ∀ r ∈ [a, b], ∃ file, VmdkReader.open file = .ok r
  below : Below (twoAt a b o) [] [a.toImage, b.toImage] 0
  zeroed : a.fmt.MarksZeroed o

theorem zeroFiles_open {o : Nat} (ho : o = 4096 ∨ o = 4097) :
    ∃ a b, ZeroChain o a b ∧ VmdkReader.open zeroDelta = .ok a ∧
      VmdkReader.open Cli.narrowGrains = .ok b := by
  have hdelta : (VmdkReader.open zeroDelta).map (fun r =>
      (decide r.EndsChain, r.parentHint, r.virtualDiskSize,
        decide (r.fmt.MarksZeroed 4096 ∧ r.fmt.MarksZeroed 4097))) =
        .ok (false, ['b'], 8192, true) := by
    decide +kernel
  obtain ⟨a, ha, hdelta⟩ := exists_of_map_eq hdelta
  have hbase : (VmdkReader.open Cli.narrowGrains).map (fun r => decide r.EndsChain) = .ok true := by
    decide +kernel
  obtain ⟨b, hb, hbase⟩ := exists_of_map_eq hbase
  obtain ⟨hend, hdelta⟩ := Prod.mk.inj hdelta
  obtain ⟨hhint, hdelta⟩ := Prod.mk.inj hdelta
  obtain ⟨hsize, hzero⟩ := Prod.mk.inj hdelta
  obtain ⟨hzero₀, hzero₁⟩ := of_decide_eq_true hzero
  refine ⟨a, b, ⟨?_, ?_, ⟨rfl, ?_, ?_⟩, ?_⟩, ha, hb⟩
  · exact open_two (VmdkReader.openPath_binary (deltaFiles_delta _ _) ha)
      (of_decide_eq_false hend) (resolve_base hhint) (VmdkReader.openPath_binary (deltaFiles_base _ _) hb)
      (of_decide_eq_true hbase)
  · exact List.forall_mem_cons.mpr ⟨⟨_, ha⟩, List.forall_mem_singleton.mpr ⟨_, hb⟩⟩
  · intro l hl
    cases hl
  · show o + 0 < a.virtualDiskSize
    omega
  · rcases ho with rfl | rfl
    · exact hzero₀
    · exact hzero₁

/-- **The seven of the base shows through** the zeroed grain of the delta. -/
theorem zeroed_shows_zeroFiles : let _ := Stored.decoder
    ∃ a b, (VmdkChainReader.open zeroFiles ['d']).result = .ok (ofLayers [a, b]) ∧
      (∀ r ∈ [a, b], ∃ file, VmdkReader.open file = .ok r) ∧
      Machine.final step (ofLayers [a, b]) [.seek (.start (UInt64.ofNat 4096))] = twoAt a b 4096 ∧
      Below (twoAt a b 4096) [] [a.toImage, b.toImage] 0 ∧ a.fmt.MarksZeroed 4096 ∧
      Delivers ((twoAt a b 4096).read 1).1 0 7 := by
  intro _
  obtain ⟨a, b, hc, ha, hb⟩ := zeroFiles_open (.inl rfl)
  have hrun : (VmdkReader.open zeroDelta >>= fun a => (VmdkReader.open Cli.narrowGrains).map fun b =>
      ((twoAt a b 4096).read 1).1) = .ok (.ok [7]) := by
    decide +kernel
  rw [ha, hb] at hrun
  exact ⟨a, b, hc.chain, hc.opened, final_twoAt a b (by decide), hc.below, hc.zeroed,
    [7], Except.ok.inj hrun, rfl⟩

/-- One byte further on, the base has a zero. -/
theorem zeroed_exact_zeroFiles : let _ := Stored.decoder
    ∃ a b, (VmdkChainReader.open zeroFiles ['d']).result = .ok (ofLayers [a, b]) ∧
      Delivers ((twoAt a b 4097).read 1).1 0 0 := by
  intro _
  obtain ⟨a, b, hc, ha, hb⟩ := zeroFiles_open (.inr rfl)
  have hbyte : (VmdkReader.open Cli.narrowGrains).map (fun r => overlayByte [r.toImage] 4097) =
      .ok (some 0) := by
    decide +kernel
  rw [hb] at hbyte
  refine ⟨a, b, hc.chain, ?_⟩
  exact ((zeroed_exact hc.opened (final_twoAt a b (by decide)).symm hc.below hc.zeroed
    Nat.one_pos).2 rfl).mpr (Except.ok.inj hbyte)

end VmdkChainReader

/-! ## Missing grains of a descriptor's extents -/

namespace MultiSparseReader
variable {m : MultiSparseReader} {pos len : Nat} {b : UInt8}

/-- The extent of byte `o` has no grain there: its directory has no table, or the table no entry. -/
def Missing (m : MultiSparseReader) (o : Nat) : Prop :=
  (m.chunkFor o).map (fun chunk => (entryAt chunk (o - chunk.byteStart)).map (·.getD 0)) =
    some (.ok 0)

instance : Decidable (m.Missing pos) := inferInstanceAs (Decidable (_ = _))

/-- A missing grain is filled with zeros. -/
theorem readHere_missing (h : m.Missing pos) (hpos : pos < m.totalBytes) (hlen : 0 < len) :
    ∃ k, m.readHere pos len = .ok (List.replicate (k + 1) 0) := by
  unfold Missing at h
  cases hchunk : m.chunkFor pos with
  | none =>
    rw [hchunk] at h
    cases h
  | some chunk =>
    obtain ⟨-, hlo, hhi⟩ := Intervals.covering_mem hchunk
    rw [hchunk] at h
    have hentry : (entryAt chunk (pos - chunk.byteStart)).map (·.getD 0) = .ok 0 :=
      Option.some.inj h
    have hrest := Nat.mod_lt (pos - chunk.byteStart) chunk.grainSizeBytes_pos
    unfold readHere
    rw [if_neg (by omega), hchunk]
    simp only
    generalize hk : min (min (min len (m.totalBytes - pos))
      (chunk.grainSizeBytes - (pos - chunk.byteStart) % chunk.grainSizeBytes))
      (chunk.byteEnd - pos) = toRead
    obtain ⟨k, rfl⟩ : ∃ k, toRead = k + 1 := ⟨toRead - 1, by omega⟩
    generalize entryAt chunk (pos - chunk.byteStart) = found at hentry
    cases found with
    | error e => cases hentry
    | ok entry =>
      cases entry with
      | none => exact ⟨k, rfl⟩
      | some gte =>
        obtain rfl : gte = 0 := Except.ok.inj hentry
        exact ⟨k, rfl⟩

/-- A seek from the start does not fail below the range of an `i64`. -/
theorem readAt_eq (hpos : pos < 2 ^ 63) :
    (ExtentReader.multiSparse m).readAt pos len = m.readHere pos len := by
  show (Cursor.seek 0 m.totalBytes (.start (UInt64.ofNat pos)) >>= fun p => m.readHere p len) = _
  rw [Cursor.seek_start_nat hpos]
  rfl

theorem readHere_lt {bs : List UInt8} (h : m.readHere pos len = .ok (b :: bs)) :
    pos < m.totalBytes := by
  by_contra hend
  unfold readHere at h
  rw [if_pos (.inl (Nat.not_lt.mp hend))] at h
  cases h

end MultiSparseReader

namespace VmdkChainReader

section
variable [ZlibDecoder] {layers : List VmdkReader} {newer older : List Image} {im : Image}
  {m : MultiSparseReader} {c : VmdkChainReader} {len n i pos : Nat} {b : UInt8}

omit [ZlibDecoder] in
/-- A layer of extents counts as allocated all over its disk. -/
theorem flat_owns {inner : ExtentReader} (him : im.Shaped) (hfmt : im.fmt = .flat inner)
    (hpos : pos < im.virtualDiskSize) : im.isAllocated (pos / 512) = .ok true := by
  obtain ⟨k, hk⟩ := him.size_dvd
  unfold Image.isAllocated
  rw [if_neg (by unfold sectorSize at *; omega), hfmt]

/-- So it serves every read at a place of its disk. -/
theorem readImages_flat {inner : ExtentReader} (him : im.Shaped) (hfmt : im.fmt = .flat inner)
    (hpos : pos < im.virtualDiskSize) (hn : 0 < n) :
    readImages pos n (im :: older) = if pos < 2 ^ 63
      then inner.readAt pos (min n (im.virtualDiskSize - pos)) else .error Cursor.beforeStart := by
  have hread : im.readAt false pos n = inner.readAt pos (min n (im.virtualDiskSize - pos)) := by
    unfold Image.readAt Image.readAtCounting
    rw [if_neg (by omega), hfmt]
  rw [readImages, flat_owns him hfmt hpos]
  simp only [hread]

/-- Where its extents have no grain, a layer of sparse extents delivers zeros all the same. -/
theorem missing_zero (him : im.Shaped) (hfmt : im.fmt = .flat (.multiSparse m))
    (hin : pos + i < im.virtualDiskSize) (hmissing : m.Missing (pos + i)) (hn : 0 < n)
    (hb : Delivers (readImages pos n (im :: older)) i b) :
    b = 0 ∧ pos < 2 ^ 63 ∧ pos + i < m.totalBytes := by
  obtain ⟨bs, hbs, hget⟩ := hb
  rw [readImages_flat him hfmt (by omega) hn] at hbs
  obtain ⟨h63, hread⟩ := of_served hbs
  rw [MultiSparseReader.readAt_eq h63] at hread
  have hmulti : (ExtentReader.multiSparse m).EndToEnd := by
    have h := him.fmt
    rwa [hfmt] at h
  have hone := (m.readHere_byte hmulti hread hget).1
  have hlt := MultiSparseReader.readHere_lt hone
  obtain ⟨k, hzero⟩ := MultiSparseReader.readHere_missing hmissing hlt Nat.one_pos
  rw [hone] at hzero
  exact ⟨(List.cons.inj (Except.ok.inj hzero)).1, h63, hlt⟩

theorem missing_first (him : im.Shaped) (hfmt : im.fmt = .flat (.multiSparse m))
    (hin : pos < im.virtualDiskSize) (hmissing : m.Missing pos) (hn : 0 < n)
    (hpos : pos < m.totalBytes) (h63 : pos < 2 ^ 63) :
    Delivers (readImages pos n (im :: older)) 0 0 := by
  obtain ⟨k, hzero⟩ := MultiSparseReader.readHere_missing hmissing hpos
    (show 0 < min n (im.virtualDiskSize - pos) by omega)
  refine ⟨List.replicate (k + 1) 0, ?_, rfl⟩
  rw [readImages_flat him hfmt hin hn, if_pos h63, MultiSparseReader.readAt_eq h63]
  exact hzero

/-- **Nothing falls through a missing grain of a sparse extent**: what is delivered is the byte of the older
layers exactly where they have a zero, whatever was sought and read before. -/
theorem multi_sparse_exact (hopen : ∀ r ∈ layers, ∃ fs origin path,
      (VmdkReader.openPath fs origin path).result = .ok r)
    {reqs : List (Disk.Request Empty)} (hrun : c = Machine.final step (ofLayers layers) reqs)
    (h : Below c newer (im :: older) i) (hfmt : im.fmt = .flat (.multiSparse m))
    (hin : c.pos + i < im.virtualDiskSize) (hmissing : m.Missing (c.pos + i)) (hlen : 0 < len) :
    (∀ b, Delivers (c.read len).1 i b →
      (overlayByte older (c.pos + i) = some b ↔ overlayByte older (c.pos + i) = some 0)) ∧
    (i = 0 → ((∃ b, Delivers (c.read len).1 0 b ∧ overlayByte older c.pos = some b) ↔
      overlayByte older c.pos = some 0 ∧ c.pos < m.totalBytes ∧ c.pos < 2 ^ 63)) := by
  have hc : Reached c layers := hrun ▸ reached_final hopen reqs
  have him : im.Shaped := hc.shaped im (h.mem List.mem_cons_self)
  have hspan : 0 < c.span len := span_pos hlen (Nat.lt_of_le_of_lt (Nat.le_add_right _ _) h.inside)
  have hzero {b : UInt8} (hb : Delivers (c.read len).1 i b) :
      b = 0 ∧ c.pos < 2 ^ 63 ∧ c.pos + i < m.totalBytes :=
    missing_zero him hfmt hin hmissing hspan (h.read hc hb)
  constructor
  · intro b hb
    rw [(hzero hb).1]
  · rintro rfl
    constructor
    · rintro ⟨b, hb, hover⟩
      obtain ⟨rfl, h63, hpos⟩ := hzero hb
      exact ⟨hover, hpos, h63⟩
    · rintro ⟨hover, hpos, h63⟩
      refine ⟨0, ?_, hover⟩
      rw [h.read_first hc hlen]
      exact missing_first him hfmt hin hmissing hspan hpos h63

end

/-! ## An empty sparse extent over a seven -/

def sparseDeltaText : Text :=
  "#\nparentCID=1\nparentFileNameHint=\"b\"\ncreateType=\"twoGbMaxExtentSparse\"\nRW 16 SPARSE \"e\"".toList

/-- A delta whose extent, `e`, has no grain at all, over a base with a seven at 4096. -/
def sparseDeltaFiles : FileSystem := .ofNames fun names =>
  if names = [.normal ['b']] then .ok Cli.narrowGrains
  else if names = [.normal ['e']] then .ok shadowBase
  else if names = [.normal ['d']] then
    .ok (VmdkReader.textFile sparseDeltaText (by decide +kernel))
  else .error ⟨.notFound, "No such file or directory (os error 2)"⟩

/-- The layers of the chain, which has sought `o`. -/
structure SparseChain (o : Nat) (a b : VmdkReader) (m : MultiSparseReader) : Prop where
  chain : (VmdkChainReader.open sparseDeltaFiles ['d']).result = .ok (ofLayers [a, b])
  opened : ∀ r ∈ [a, b], ∃ fs origin path, (VmdkReader.openPath fs origin path).result = .ok r
  below : Below (twoAt a b o) [] [a.toImage, b.toImage] 0
  fmt : a.fmt = .flat (.multiSparse m)
  inside : o < a.virtualDiskSize
  missing : m.Missing o
  total : o < m.totalBytes

theorem sparseDeltaFiles_delta : sparseDeltaFiles ['d'] =
    .ok (VmdkReader.textFile sparseDeltaText (by decide +kernel)) := by
  have hname : FilePath.HasFileName ['d'] ∧ FilePath.names ['d'] = [.normal ['d']] := by
    decide +kernel
  exact FileSystem.ofNames_eq hname

/-- The delta is opened as its extent, which has no grain at 4096 and 4097. -/
theorem sparseDelta_extents {a : VmdkReader}
    (ha : (VmdkReader.openPath sparseDeltaFiles .caller ['d']).result = .ok a) :
    ∃ m, a.fmt = .flat (.multiSparse m) ∧ m.Missing 4096 ∧ m.Missing 4097 ∧
      m.totalBytes = 8192 := by
  have hsays : (parseTextDescriptor (decodeDescriptor
      (VmdkReader.textBytes sparseDeltaText))).map (fun d =>
        (VmdkReader.branchOf d, d.sparseExtents)) =
          .ok (some .sparseExtents, [⟨16, ['e']⟩]) := by
    decide +kernel
  obtain ⟨desc, hdesc, hsays⟩ := exists_of_map_eq hsays
  obtain ⟨hbranch, hextents⟩ := Prod.mk.inj hsays
  obtain ⟨m, hm, hfmt, -⟩ := MultiSparseReader.openPath_sparseExtents sparseDeltaFiles_delta
    (by decide +kernel) hdesc hbranch ha
  have hmissing : (MultiSparseReader.open sparseDeltaFiles (VmdkReader.directoryOf ['d'])
      [⟨16, ['e']⟩]).result.map (fun m =>
        decide (m.Missing 4096 ∧ m.Missing 4097 ∧ m.totalBytes = 8192)) = .ok true := by
    decide +kernel
  rw [hextents] at hm
  rw [hm] at hmissing
  exact ⟨m, hfmt, of_decide_eq_true (Except.ok.inj hmissing)⟩

theorem sparseDeltaFiles_open {o : Nat} (ho : o = 4096 ∨ o = 4097) :
    ∃ a b m, SparseChain o a b m ∧ VmdkReader.open Cli.narrowGrains = .ok b ∧
      (VmdkReader.openPath sparseDeltaFiles .caller ['d']).result = .ok a := by
  have hdelta : (VmdkReader.openPath sparseDeltaFiles .caller ['d']).result.map (fun r =>
      (decide r.EndsChain, r.parentHint, r.virtualDiskSize)) = .ok (false, ['b'], 8192) := by
    decide +kernel
  obtain ⟨a, ha, hdelta⟩ := exists_of_map_eq hdelta
  have hbase : (VmdkReader.open Cli.narrowGrains).map (fun r => decide r.EndsChain) = .ok true := by
    decide +kernel
  obtain ⟨b, hb, hbase⟩ := exists_of_map_eq hbase
  obtain ⟨hend, hdelta⟩ := Prod.mk.inj hdelta
  obtain ⟨hhint, hsize⟩ := Prod.mk.inj hdelta
  obtain ⟨m, hfmt, hmissing₀, hmissing₁, htotal⟩ := sparseDelta_extents ha
  have hfile : sparseDeltaFiles ['b'] = .ok Cli.narrowGrains := by
    have hname : FilePath.HasFileName ['b'] ∧ FilePath.names ['b'] = [.normal ['b']] := by
      decide +kernel
    exact FileSystem.ofNames_eq hname
  have hopen : (VmdkReader.openPath sparseDeltaFiles .caller ['b']).result = .ok b :=
    VmdkReader.openPath_binary hfile hb
  refine ⟨a, b, m, ⟨open_two ha (of_decide_eq_false hend) (resolve_base hhint) hopen
    (of_decide_eq_true hbase), ?_, ⟨rfl, ?_, ?_⟩, hfmt, ?_, ?_, ?_⟩, hb, ha⟩
  · exact List.forall_mem_cons.mpr
      ⟨⟨_, _, _, ha⟩, List.forall_mem_singleton.mpr ⟨_, _, _, hopen⟩⟩
  · intro l hl
    cases hl
  · show o + 0 < a.virtualDiskSize
    omega
  · omega
  · rcases ho with rfl | rfl
    · exact hmissing₀
    · exact hmissing₁
  · omega

/-- **The seven of the base does not show through** the extent that has no grain there. -/
theorem multi_sparse_hides_sparseDeltaFiles : let _ := Stored.decoder
    ∃ a b m, (VmdkChainReader.open sparseDeltaFiles ['d']).result = .ok (ofLayers [a, b]) ∧
      Machine.final step (ofLayers [a, b]) [.seek (.start (UInt64.ofNat 4096))] = twoAt a b 4096 ∧
      Below (twoAt a b 4096) [] [a.toImage, b.toImage] 0 ∧ a.fmt = .flat (.multiSparse m) ∧
      m.Missing 4096 ∧ overlayByte [b.toImage] 4096 = some 7 ∧
      Delivers ((twoAt a b 4096).read 1).1 0 0 := by
  intro _
  obtain ⟨a, b, m, hc, hb, ha⟩ := sparseDeltaFiles_open (.inl rfl)
  have hover : (VmdkReader.open Cli.narrowGrains).map (fun r => overlayByte [r.toImage] 4096) =
      .ok (some 7) := by
    decide +kernel
  have hrun : ((VmdkReader.openPath sparseDeltaFiles .caller ['d']).result.toOption >>= fun a =>
      (VmdkReader.open Cli.narrowGrains).toOption.map fun b => ((twoAt a b 4096).read 1).1) =
        some (.ok [0]) := by
    decide +kernel
  rw [hb] at hover
  rw [ha, hb] at hrun
  exact ⟨a, b, m, hc.chain, final_twoAt a b (by decide), hc.below, hc.fmt, hc.missing,
    Except.ok.inj hover, [0], Option.some.inj hrun, rfl⟩

/-- One byte further on, the base has a zero, too. -/
theorem multi_sparse_exact_sparseDeltaFiles : let _ := Stored.decoder
    ∃ a b m, SparseChain 4097 a b m ∧
      ∃ v, Delivers ((twoAt a b 4097).read 1).1 0 v ∧ overlayByte [b.toImage] 4097 = some v := by
  intro _
  obtain ⟨a, b, m, hc, hb, -⟩ := sparseDeltaFiles_open (.inr rfl)
  have hover : (VmdkReader.open Cli.narrowGrains).map (fun r => overlayByte [r.toImage] 4097) =
      .ok (some 0) := by
    decide +kernel
  rw [hb] at hover
  refine ⟨a, b, m, hc, ?_⟩
  exact ((multi_sparse_exact hc.opened (final_twoAt a b (by decide)).symm hc.below hc.fmt hc.inside
    hc.missing Nat.one_pos).2 rfl).mpr ⟨Except.ok.inj hover, hc.total, (by decide : 4097 < 2 ^ 63)⟩

end VmdkChainReader
