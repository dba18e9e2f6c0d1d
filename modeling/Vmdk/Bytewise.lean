import Vmdk.OpenCases
import Vmdk.ReadAt

/-! # Reads are bytewise

Where the bytes of one read end (`stretch`), and that each of them is the byte
a read at its own offset would deliver first (`readAt_byteAt`): how a request is
cut does not matter. Over the same stretch `isAllocated` does not change. -/

open Bytes Word

namespace Image

/-- The byte that a read at `o` delivers first. -/
def byteAt [ZlibDecoder] (im : Image) (o : Nat) : Option UInt8 :=
  match im.readAt false o 1 with
  | .ok (b :: _) => some b
  | _ => none

/-- The same in either mode. -/
def byteIn [ZlibDecoder] (im : Image) (fallback : Bool) (o : Nat) : Option UInt8 :=
  match im.readAt fallback o 1 with
  | .ok (b :: _) => some b
  | _ => none

end Image

/-- How far one read at `pos` can go: to the end of the extent or of the grain there. -/
def ExtentReader.stretch : ExtentReader → (pos : Nat) → Nat
  | .multiExtent m, pos => (m.extentFor pos).elim 0 fun e => e.byteEnd - pos
  | .multiSparse m, pos => (m.chunkFor pos).elim 0 fun c =>
    min (c.grainSizeBytes - (pos - c.byteStart) % c.grainSizeBytes) (c.byteEnd - pos)

def Image.stretch (im : Image) (pos : Nat) : Nat :=
  match im.fmt with
  | .flat inner => inner.stretch pos
  | .sparse _ geom => geom.grainSizeBytes - pos % geom.grainSizeBytes
  | .seSparse _ geom => geom.grainSizeBytes - pos % geom.grainSizeBytes

/-! ## Places ahead of a place -/

namespace GrainLookup

/-- `loc'` is the place `i` bytes after `loc`. -/
inductive Ahead (i : Nat) : GrainLookup → GrainLookup → Prop
  | sparse : Ahead i .sparse .sparse
  | fileOffset {off off' : Nat} (h : off + i < u64Size → off' = off + i) :
    Ahead i (.fileOffset off) (.fileOffset off')
  | compressed (dataOffset dataSize offsetInGrain : Nat) :
    Ahead i (.compressed dataOffset dataSize offsetInGrain)
      (.compressed dataOffset dataSize (offsetInGrain + i))

variable {inner : Source} {i n gs : Nat} {b : UInt8} {bs : List UInt8}

theorem readAt_ahead {off off' : Nat} (h : inner.readAt off n = .ok bs) (hb : bs[i]? = some b)
    (hoff : off + i < u64Size → off' = off + i) : inner.readAt off' 1 = .ok [b] := by
  have hi : i < bs.length := (List.getElem?_eq_some_iff.mp hb).1
  have hbyte := Source.readAt_getElem? h hi
  rw [hb] at hbyte
  have hin : off + i < inner.bytes.length := (List.getElem?_eq_some_iff.mp hbyte.symm).1
  have hlt := inner.length_lt
  rw [hoff (by unfold u64Size; omega)]
  obtain ⟨c, cs, hread⟩ := Source.readAt_progress inner hin Nat.one_pos
  have hlen := Source.readAt_length_le hread
  have hc := Source.readAt_getElem? hread (i := 0) (by simp)
  rw [Nat.add_zero, ← hbyte] at hc
  cases hc
  cases cs with
  | nil => exact hread
  | cons d ds => simp at hlen

/-- A byte of a fetch is what a fetch at its own place delivers. -/
theorem fetch_ahead [ZlibDecoder] {loc loc' : GrainLookup} (ha : Ahead i loc loc')
    (h : loc.fetch inner gs n = .ok bs) (hb : bs[i]? = some b) :
    loc'.fetch inner gs 1 = .ok [b] := by
  cases ha with
  | sparse =>
    cases h
    rw [List.getElem?_replicate] at hb
    split at hb
    · cases hb; rfl
    · cases hb
  | fileOffset hoff => exact readAt_ahead h hb hoff
  | compressed dataOffset dataSize offsetInGrain =>
    simp only [fetch, readCompressedGrain] at h ⊢
    cases hdec : decodeGrain inner gs dataOffset dataSize with
    | error e => rw [hdec] at h; cases h
    | ok out =>
      rw [hdec] at h
      cases h
      rw [getElem?_slice] at hb
      split at hb
      case isFalse => cases hb
      obtain ⟨hlt, hget⟩ := List.getElem?_eq_some_iff.mp hb
      change Except.ok (slice out (offsetInGrain + i) 1) = _
      rw [slice, List.drop_eq_getElem_cons hlt, hget]
      rfl

/-- The first byte of a fetch does not depend on how much is asked for. -/
theorem fetch_first [ZlibDecoder] {loc : GrainLookup}
    (h : loc.fetch inner gs 1 = .ok (b :: bs)) (hn : 0 < n) :
    ∃ rest, loc.fetch inner gs n = .ok (b :: rest) := by
  obtain ⟨k, rfl⟩ : ∃ k, n = k + 1 := ⟨n - 1, by omega⟩
  cases loc with
  | sparse =>
    cases h
    exact ⟨_, rfl⟩
  | fileOffset off =>
    change inner.readAt off 1 = _ at h
    have hbyte := Source.readAt_getElem? h (i := 0) (by simp)
    have hin : off < inner.bytes.length := (List.getElem?_eq_some_iff.mp hbyte.symm).1
    obtain ⟨c, cs, hread⟩ := Source.readAt_progress inner hin hn
    have hc := Source.readAt_getElem? hread (i := 0) (by simp)
    rw [← hbyte] at hc
    cases hc
    exact ⟨cs, hread⟩
  | compressed dataOffset dataSize offsetInGrain =>
    simp only [fetch, readCompressedGrain] at h ⊢
    cases hdec : decodeGrain inner gs dataOffset dataSize with
    | error e => rw [hdec] at h; cases h
    | ok out =>
      rw [hdec] at h
      have hslice : slice out offsetInGrain 1 = b :: bs := Except.ok.inj h
      have hb : out[offsetInGrain]? = some b := by
        have hget := getElem?_slice out offsetInGrain 1 0
        rw [hslice, if_pos Nat.one_pos] at hget
        exact hget.symm
      obtain ⟨hlt, hget⟩ := List.getElem?_eq_some_iff.mp hb
      change ∃ rest, Except.ok (slice out offsetInGrain (k + 1)) = _
      rw [slice, List.drop_eq_getElem_cons hlt, hget]
      exact ⟨_, rfl⟩

theorem ofEntry_ahead {geom : SparseFormat} {gte off : Nat} {loc : GrainLookup}
    (h : ofEntry inner geom gte off = .ok loc) :
    ∃ loc', ofEntry inner geom gte (off + i) = .ok loc' ∧ Ahead i loc loc' := by
  unfold ofEntry at h ⊢
  split at h
  · next hcomp =>
    simp only [bind_eq_ok] at h
    obtain ⟨marker, hmarker, hfits, hensure, h⟩ := h
    cases h
    refine ⟨_, ?_, .compressed _ _ _⟩
    rw [if_pos hcomp]
    simp only [hmarker, bind, Except.bind, hensure]
    rfl
  · next hcomp =>
    cases h
    refine ⟨_, ?_, .fileOffset fun _ => rfl⟩
    rw [if_neg hcomp, Nat.add_assoc]

end GrainLookup

/-! ## Lookups within a grain -/

namespace Image
variable {im : Image} {inner : Source} {pos i : Nat} {loc : GrainLookup}

theorem locateSparse_ahead {fallback : Bool} {geom : SparseFormat}
    (hi : i < geom.grainSizeBytes - pos % geom.grainSizeBytes)
    (h : (im.locateSparse fallback inner geom pos).1 = .ok loc) :
    ∃ loc', (im.locateSparse fallback inner geom (pos + i)).1 = .ok loc' ∧
      GrainLookup.Ahead i loc loc' := by
  have hg := geom.grainSizeBytes_pos
  unfold locateSparse at h ⊢
  simp only [Blocks.div_add hg hi] at h ⊢
  cases hsector : im.gtSectorFor fallback inner geom
      (pos / geom.grainSizeBytes / geom.numGtesPerGt) with
  | error e =>
    rw [hsector] at h
    cases h
  | ok gtSector =>
    simp only [hsector] at h ⊢
    split at h
    · next h0 =>
      cases h
      rw [if_pos h0]
      exact ⟨_, rfl, .sparse⟩
    · next h0 =>
      rw [if_neg h0]
      cases hgt : readGt inner geom.numGtesPerGt gtSector with
      | error e => rw [hgt] at h; cases h
      | ok gt =>
        unfold locateIn at h ⊢
        simp only [hgt, Blocks.div_add hg hi, Blocks.mod_add hg hi] at h ⊢
        cases hentry : im.recoverEntry fallback inner geom
            (pos / geom.grainSizeBytes / geom.numGtesPerGt)
            (pos / geom.grainSizeBytes % geom.numGtesPerGt)
            (gt.getD (pos / geom.grainSizeBytes % geom.numGtesPerGt) 0)
            (fallback && gtSector != geom.grainDir.getD
              (pos / geom.grainSizeBytes / geom.numGtesPerGt) 0 && gtSector != 0) with
        | error e => rw [hentry] at h; cases h
        | ok entry =>
          simp only [hentry] at h ⊢
          split at h
          · next hle =>
            cases h
            rw [if_pos hle]
            exact ⟨_, rfl, .sparse⟩
          · next hle =>
            rw [if_neg hle]
            exact GrainLookup.ofEntry_ahead h

theorem grainLocationSesparse_ahead {geom : SeSparseFormat}
    (hi : i < geom.grainSizeBytes - pos % geom.grainSizeBytes)
    (h : grainLocationSesparse inner geom pos = .ok loc) :
    ∃ loc', grainLocationSesparse inner geom (pos + i) = .ok loc' ∧
      GrainLookup.Ahead i loc loc' := by
  have hg := geom.grainSizeBytes_pos
  unfold grainLocationSesparse at h ⊢
  simp only [Blocks.div_add hg hi, Blocks.mod_add hg hi] at h ⊢
  obtain ⟨entry, hentry, h⟩ := bind_eq_ok.mp h
  simp only [hentry, bind, Except.bind] at h ⊢
  cases entry with
  | none => cases h; exact ⟨_, rfl, .sparse⟩
  | some gte =>
    simp only at h ⊢
    split at h
    · next h0 => cases h; rw [if_pos h0]; exact ⟨_, rfl, .sparse⟩
    · next h0 =>
      rw [if_neg h0]
      split at h
      · next h1 => cases h; rw [if_pos h1]; exact ⟨_, rfl, .sparse⟩
      · next h1 =>
        rw [if_neg h1]
        split at h
        · next h3 =>
          cases h
          rw [if_pos h3]
          refine ⟨_, rfl, .fileOffset fun hlt => ?_⟩
          unfold wrapAdd at hlt ⊢
          rw [← Nat.add_assoc, ← Nat.mod_add_mod, Nat.mod_eq_of_lt hlt]
        · cases h

end Image

/-! ## Extents -/

theorem Cursor.seek_start_ok {pos p size t : Nat} (hpos : pos < u64Size)
    (h : Cursor.seek p size (.start (UInt64.ofNat pos)) = .ok t) : t = pos ∧ pos < 2 ^ 63 := by
  have hnat : (UInt64.ofNat pos).toNat = pos := UInt64.toNat_ofNat_of_lt hpos
  by_cases hlt : pos < 2 ^ 63
  · rw [Cursor.seek_start (by omega), hnat] at h
    cases h
    exact ⟨rfl, hlt⟩
  · have hneg : Cursor.newPos p size (.start (UInt64.ofNat pos)) < 0 := by
      rw [Cursor.newPos, hnat]
      exact wrapI64_neg_of_ge (by omega) (by unfold u64Size at hpos; omega)
    rw [Cursor.seek, if_pos hneg] at h
    cases h

section Extents
variable {pos len i : Nat} {b : UInt8} {bs : List UInt8}

theorem getElem?_replicate_some {n : Nat} (h : (List.replicate n (0 : UInt8))[i]? = some b) :
    b = 0 ∧ i < n := by
  rw [List.getElem?_replicate] at h
  split at h
  · next hi => cases h; exact ⟨rfl, hi⟩
  · cases h

theorem MultiExtentReader.readHere_byte {m : MultiExtentReader}
    (hm : (ExtentReader.multiExtent m).EndToEnd) (h : m.readHere pos len = .ok bs)
    (hb : bs[i]? = some b) :
    m.readHere (pos + i) 1 = .ok [b] ∧ i < (ExtentReader.multiExtent m).stretch pos := by
  have hi : i < bs.length := (List.getElem?_eq_some_iff.mp hb).1
  unfold readHere at h
  split at h
  · cases h; simp at hb
  · next hin =>
    rw [not_or, Nat.not_le] at hin
    simp only [ExtentReader.stretch]
    cases hext : m.extentFor pos with
    | none => rw [hext] at h; cases h
    | some ext =>
      obtain ⟨-, hlo, hhi⟩ := Intervals.covering_mem hext
      rw [hext] at h
      simp only [Option.elim] at h ⊢
      have hlen : bs.length ≤ min (min len (ext.byteEnd - pos)) (m.totalBytes - pos) := by
        split at h
        · exact Source.readAt_length_le h
        · cases h; simp
      have hsame : m.extentFor (pos + i) = some ext :=
        Intervals.covering_of_le hm (Nat.zero_le _) hext (Nat.le_add_right _ _) (by omega)
      refine ⟨?_, by omega⟩
      have hone : min (min 1 (ext.byteEnd - (pos + i))) (m.totalBytes - (pos + i)) = 1 := by omega
      have hoff : pos + i - ext.byteStart = pos - ext.byteStart + i := by omega
      unfold readHere
      rw [if_neg (by omega), hsame]
      simp only [hone, hoff]
      cases hfile : ext.file with
      | none =>
        rw [hfile] at h
        cases h
        rw [(getElem?_replicate_some hb).1]
        rfl
      | some file =>
        rw [hfile] at h
        refine GrainLookup.readAt_ahead h hb fun hlt => ?_
        unfold wrapAdd at hlt ⊢
        rw [← Nat.add_assoc, ← Nat.mod_add_mod, Nat.mod_eq_of_lt hlt]

theorem MultiSparseReader.readHere_byte {m : MultiSparseReader}
    (hm : (ExtentReader.multiSparse m).EndToEnd) (h : m.readHere pos len = .ok bs)
    (hb : bs[i]? = some b) :
    m.readHere (pos + i) 1 = .ok [b] ∧ i < (ExtentReader.multiSparse m).stretch pos := by
  have hi : i < bs.length := (List.getElem?_eq_some_iff.mp hb).1
  unfold readHere at h
  split at h
  · cases h; simp at hb
  · next hin =>
    rw [not_or, Nat.not_le] at hin
    simp only [ExtentReader.stretch]
    cases hchunk : m.chunkFor pos with
    | none => rw [hchunk] at h; cases h
    | some chunk =>
      obtain ⟨-, hlo, hhi⟩ := Intervals.covering_mem hchunk
      rw [hchunk] at h
      simp only [Option.elim] at h ⊢
      have hg := chunk.grainSizeBytes_pos
      obtain ⟨entry, hentry, h⟩ := bind_eq_ok.mp h
      have hlen : bs.length ≤ min (min (min len (m.totalBytes - pos))
          (chunk.grainSizeBytes - (pos - chunk.byteStart) % chunk.grainSizeBytes))
          (chunk.byteEnd - pos) := by
        cases entry with
        | none => cases h; simp
        | some gte =>
          simp only at h
          split at h
          · cases h; simp
          · exact Source.readAt_length_le h
      have hrest : i < chunk.grainSizeBytes - (pos - chunk.byteStart) % chunk.grainSizeBytes := by
        omega
      have hsame : m.chunkFor (pos + i) = some chunk :=
        Intervals.covering_of_le hm (Nat.zero_le _) hchunk (Nat.le_add_right _ _) (by omega)
      refine ⟨?_, by omega⟩
      have hlocal : pos + i - chunk.byteStart = pos - chunk.byteStart + i := by omega
      have hentry' : entryAt chunk (pos - chunk.byteStart + i) = .ok entry := by
        rw [← hentry]
        unfold entryAt
        rw [Blocks.div_add hg hrest]
      have hone : min (min (min 1 (m.totalBytes - (pos + i)))
          (chunk.grainSizeBytes - ((pos - chunk.byteStart) % chunk.grainSizeBytes + i)))
          (chunk.byteEnd - (pos + i)) = 1 := by omega
      unfold readHere
      rw [if_neg (by omega), hsame]
      simp only [hlocal, Blocks.mod_add hg hrest, hone, hentry', bind, Except.bind]
      cases entry with
      | none =>
        cases h
        rw [(getElem?_replicate_some hb).1]
        rfl
      | some gte =>
        simp only at h ⊢
        split at h
        · next hle =>
          cases h
          rw [if_pos hle, (getElem?_replicate_some hb).1]
          rfl
        · next hle =>
          rw [if_neg hle]
          exact GrainLookup.readAt_ahead h hb fun _ => by omega

theorem Cursor.seek_start_nat {p size n : Nat} (h : n < 2 ^ 63) :
    Cursor.seek p size (.start (UInt64.ofNat n)) = .ok n := by
  have hnat : (UInt64.ofNat n).toNat = n := UInt64.toNat_ofNat_of_lt (Nat.lt_trans h (by decide))
  rw [Cursor.seek_start (by omega), hnat]

theorem ExtentReader.readAt_stretch {inner : ExtentReader} (hinner : inner.EndToEnd)
    (hpos : pos < u64Size) (h : inner.readAt pos len = .ok bs) (hb : bs[i]? = some b) :
    i < inner.stretch pos := by
  cases inner with
  | multiExtent m =>
    unfold ExtentReader.readAt MultiExtentReader.readAt at h
    obtain ⟨t, ht, h⟩ := bind_eq_ok.mp h
    rw [(Cursor.seek_start_ok hpos ht).1] at h
    exact (m.readHere_byte hinner h hb).2
  | multiSparse m =>
    unfold ExtentReader.readAt MultiSparseReader.readAt at h
    obtain ⟨t, ht, h⟩ := bind_eq_ok.mp h
    rw [(Cursor.seek_start_ok hpos ht).1] at h
    exact (m.readHere_byte hinner h hb).2

theorem ExtentReader.readAt_byte {inner : ExtentReader} (hinner : inner.EndToEnd)
    (hpos : pos < u64Size) (h63 : pos + i < 2 ^ 63) (h : inner.readAt pos len = .ok bs)
    (hb : bs[i]? = some b) : inner.readAt (pos + i) 1 = .ok [b] := by
  cases inner with
  | multiExtent m =>
    unfold ExtentReader.readAt MultiExtentReader.readAt at h
    obtain ⟨t, ht, h⟩ := bind_eq_ok.mp h
    rw [(Cursor.seek_start_ok hpos ht).1] at h
    change (Cursor.seek 0 m.totalBytes (.start (UInt64.ofNat (pos + i))) >>=
      fun p => m.readHere p 1) = _
    rw [Cursor.seek_start_nat h63]
    exact (m.readHere_byte hinner h hb).1
  | multiSparse m =>
    unfold ExtentReader.readAt MultiSparseReader.readAt at h
    obtain ⟨t, ht, h⟩ := bind_eq_ok.mp h
    rw [(Cursor.seek_start_ok hpos ht).1] at h
    change (Cursor.seek 0 m.totalBytes (.start (UInt64.ofNat (pos + i))) >>=
      fun p => m.readHere p 1) = _
    rw [Cursor.seek_start_nat h63]
    exact (m.readHere_byte hinner h hb).1

theorem MultiExtentReader.readHere_length {m : MultiExtentReader}
    (h : m.readHere pos len = .ok bs) : bs.length ≤ min len (m.totalBytes - pos) := by
  unfold readHere at h
  split at h
  · cases h; simp
  · split at h
    · cases h
    · simp only at h
      split at h
      · have := Source.readAt_length_le h
        omega
      · cases h
        rw [List.length_replicate]
        omega

theorem MultiSparseReader.readHere_length {m : MultiSparseReader}
    (h : m.readHere pos len = .ok bs) : bs.length ≤ min len (m.totalBytes - pos) := by
  unfold readHere at h
  split at h
  · cases h; simp
  · split at h
    · cases h
    · obtain ⟨entry, -, h⟩ := bind_eq_ok.mp h
      split at h
      · cases h
        rw [List.length_replicate]
        omega
      · split at h
        · cases h
          rw [List.length_replicate]
          omega
        · have := Source.readAt_length_le h
          omega

theorem ExtentReader.readAt_length_le {inner : ExtentReader} (h : inner.readAt pos len = .ok bs) :
    bs.length ≤ len := by
  cases inner with
  | multiExtent m =>
    unfold ExtentReader.readAt MultiExtentReader.readAt at h
    obtain ⟨t, -, h⟩ := bind_eq_ok.mp h
    exact Nat.le_trans (MultiExtentReader.readHere_length h) (Nat.min_le_left _ _)
  | multiSparse m =>
    unfold ExtentReader.readAt MultiSparseReader.readAt at h
    obtain ⟨t, -, h⟩ := bind_eq_ok.mp h
    exact Nat.le_trans (MultiSparseReader.readHere_length h) (Nat.min_le_left _ _)

/-- What is read has been sought. -/
theorem ExtentReader.readAt_lt {inner : ExtentReader} (hpos : pos < u64Size)
    (h : inner.readAt pos len = .ok bs) : pos < 2 ^ 63 := by
  cases inner with
  | multiExtent m =>
    obtain ⟨t, ht, -⟩ := bind_eq_ok.mp h
    exact (Cursor.seek_start_ok hpos ht).2
  | multiSparse m =>
    obtain ⟨t, ht, -⟩ := bind_eq_ok.mp h
    exact (Cursor.seek_start_ok hpos ht).2

end Extents

/-! ## Images -/

namespace Image
variable [ZlibDecoder] {im : Image} {pos len i : Nat} {b : UInt8} {bs : List UInt8}

theorem byteIn_of_readAt {fallback : Bool} (h : im.readAt fallback pos 1 = .ok [b]) :
    im.byteIn fallback pos = some b := by
  rw [byteIn, h]

/-- A read through a lookup that moves with the offset is bytewise. -/
theorem lookup_byte (locate : Nat → Except IoError GrainLookup) {inner : Source} {gs size n : Nat}
    (hgs : 0 < gs) (hi : i < gs - pos % gs) (hin : pos + i < size)
    (hahead : ∀ loc, locate pos = .ok loc →
      ∃ loc', locate (pos + i) = .ok loc' ∧ GrainLookup.Ahead i loc loc')
    (h : (locate pos >>= GrainLookup.fetch inner gs n) = .ok bs) (hb : bs[i]? = some b) :
    (locate (pos + i) >>= GrainLookup.fetch inner gs
      (min (min 1 (size - (pos + i))) (gs - (pos + i) % gs))) = .ok [b] := by
  obtain ⟨loc, hloc, hfetch⟩ := bind_eq_ok.mp h
  obtain ⟨loc', hloc', ha⟩ := hahead loc hloc
  have hone : min (min 1 (size - (pos + i))) (gs - (pos % gs + i)) = 1 := by omega
  rw [hloc', Blocks.mod_add hgs hi, hone]
  exact GrainLookup.fetch_ahead ha hfetch hb

theorem readAt_length_le {fallback : Bool} (h : im.readAt fallback pos len = .ok bs) :
    bs.length ≤ len := by
  unfold readAt readAtCounting at h
  split at h
  · cases h; simp
  cases hf : im.fmt with
  | flat inner =>
    rw [hf] at h
    exact Nat.le_trans (ExtentReader.readAt_length_le h) (Nat.min_le_left _ _)
  | sparse inner geom =>
    rw [hf] at h
    obtain ⟨loc, -, hfetch⟩ := bind_eq_ok.mp h
    have hlen := (GrainLookup.fetch_ok hfetch).1
    omega
  | seSparse inner geom =>
    rw [hf] at h
    obtain ⟨loc, -, hfetch⟩ := bind_eq_ok.mp h
    have hlen := (GrainLookup.fetch_ok hfetch).1
    omega

/-- The bytes of one read lie in the stretch from the cursor, and on the disk. -/
theorem Shaped.readAt_stretch {fallback : Bool} (him : im.Shaped)
    (h : im.readAt fallback pos len = .ok bs) (hb : bs[i]? = some b) :
    i < im.stretch pos ∧ pos + i < im.virtualDiskSize := by
  have hfmt := him.fmt
  have hi : i < bs.length := (List.getElem?_eq_some_iff.mp hb).1
  unfold readAt readAtCounting at h
  split at h
  · cases h; simp at hb
  next hend =>
  rw [not_or, Nat.not_le] at hend
  unfold stretch
  cases hf : im.fmt with
  | flat inner =>
    rw [hf] at h hfmt
    have hlen : bs.length ≤ min len (im.virtualDiskSize - pos) := ExtentReader.readAt_length_le h
    exact ⟨inner.readAt_stretch hfmt (Nat.lt_trans hend.1 him.size_lt) h hb, by omega⟩
  | sparse inner geom =>
    rw [hf] at h
    obtain ⟨loc, -, hfetch⟩ := bind_eq_ok.mp h
    have hlen := (GrainLookup.fetch_ok hfetch).1
    change i < geom.grainSizeBytes - pos % geom.grainSizeBytes ∧ _
    omega
  | seSparse inner geom =>
    rw [hf] at h
    obtain ⟨loc, -, hfetch⟩ := bind_eq_ok.mp h
    have hlen := (GrainLookup.fetch_ok hfetch).1
    change i < geom.grainSizeBytes - pos % geom.grainSizeBytes ∧ _
    omega

/-- A read of a shaped image ends on the disk. -/
theorem Shaped.length_le {fallback : Bool} (him : im.Shaped) (hpos : pos < im.virtualDiskSize)
    (h : im.readAt fallback pos len = .ok bs) : bs.length ≤ min len (im.virtualDiskSize - pos) := by
  refine Nat.le_min.mpr ⟨readAt_length_le h, ?_⟩
  rcases Nat.eq_zero_or_pos bs.length with hnil | hne
  · omega
  · have hlast : bs.length - 1 < bs.length := Nat.sub_lt hne Nat.one_pos
    have hin := (him.readAt_stretch h (List.getElem?_eq_getElem hlast)).2
    omega

/-- **Reads are bytewise**: each byte of a read is what a read at its own offset delivers. -/
theorem Shaped.readAt_byteIn {fallback : Bool} (him : im.Shaped) (h63 : pos + i < 2 ^ 63)
    (h : im.readAt fallback pos len = .ok bs) (hb : bs[i]? = some b) :
    im.byteIn fallback (pos + i) = some b := by
  obtain ⟨hi, hin⟩ := him.readAt_stretch h hb
  have hfmt := him.fmt
  apply byteIn_of_readAt
  unfold readAt readAtCounting at h ⊢
  unfold stretch at hi
  split at h
  · cases h; simp at hb
  next hend =>
  rw [not_or, Nat.not_le] at hend
  rw [if_neg (by omega)]
  cases hf : im.fmt with
  | flat inner =>
    rw [hf] at h hfmt
    have hone : min 1 (im.virtualDiskSize - (pos + i)) = 1 := by omega
    simp only [hone]
    exact inner.readAt_byte hfmt (Nat.lt_trans hend.1 him.size_lt) h63 h hb
  | sparse inner geom =>
    rw [hf] at h hi
    exact lookup_byte (fun o => (im.locateSparse fallback inner geom o).1) geom.grainSizeBytes_pos hi
      hin (fun loc hloc => locateSparse_ahead hi hloc) h hb
  | seSparse inner geom =>
    rw [hf] at h hi
    exact lookup_byte (grainLocationSesparse inner geom) geom.grainSizeBytes_pos hi hin
      (fun loc hloc => grainLocationSesparse_ahead hi hloc) h hb

theorem Shaped.readAt_byte (him : im.Shaped) (h63 : pos + i < 2 ^ 63)
    (h : im.readAt false pos len = .ok bs) (hb : bs[i]? = some b) :
    im.byteAt (pos + i) = some b := him.readAt_byteIn h63 h hb

/-- A read of a single file delivers the byte at its place first, however much is asked for. -/
theorem readAt_first (hfmt : ∀ inner, im.fmt ≠ .flat inner) (hlen : 0 < len)
    (h : im.byteAt pos = some b) : ∃ rest, im.readAt false pos len = .ok (b :: rest) := by
  obtain ⟨bs, hone⟩ : ∃ bs, im.readAt false pos 1 = .ok (b :: bs) := by
    unfold byteAt at h
    split at h
    · next c cs hread =>
      cases h
      exact ⟨cs, hread⟩
    · cases h
  unfold readAt readAtCounting at hone ⊢
  split at hone
  · cases hone
  next hend =>
  rw [not_or, Nat.not_le] at hend
  rw [if_neg (by omega)]
  cases hf : im.fmt with
  | flat inner => exact absurd hf (hfmt inner)
  | sparse inner geom =>
    rw [hf] at hone
    obtain ⟨loc, hloc, hfetch⟩ := bind_eq_ok.mp hone
    have hrest := Nat.mod_lt pos geom.grainSizeBytes_pos
    rw [show min (min 1 (im.virtualDiskSize - pos))
      (geom.grainSizeBytes - pos % geom.grainSizeBytes) = 1 by omega] at hfetch
    simp only [hloc, bind, Except.bind]
    exact GrainLookup.fetch_first hfetch (by omega)
  | seSparse inner geom =>
    rw [hf] at hone
    obtain ⟨loc, hloc, hfetch⟩ := bind_eq_ok.mp hone
    have hrest := Nat.mod_lt pos geom.grainSizeBytes_pos
    rw [show min (min 1 (im.virtualDiskSize - pos))
      (geom.grainSizeBytes - pos % geom.grainSizeBytes) = 1 by omega] at hfetch
    simp only [hloc, bind, Except.bind]
    exact GrainLookup.fetch_first hfetch (by omega)

omit [ZlibDecoder] in
/-- Over one stretch the allocation does not change. -/
theorem Shaped.isAllocated_stretch (him : im.Shaped) (hi : i < im.stretch pos)
    (hin : pos + i < im.virtualDiskSize) :
    im.isAllocated ((pos + i) / sectorSize) = im.isAllocated (pos / sectorSize) := by
  obtain ⟨k, hk⟩ := him.size_dvd
  have hfmt := him.fmt
  have hbound {o : Nat} (ho : o < im.virtualDiskSize) :
      ¬ im.virtualDiskSize / sectorSize ≤ o / sectorSize := by
    unfold sectorSize at *
    omega
  have hfloor {g o : Nat} (hg : sectorSize ∣ g) : o / sectorSize * sectorSize / g = o / g :=
    Blocks.div_floor (by decide) hg
  unfold stretch at hi
  unfold isAllocated
  rw [if_neg (hbound hin), if_neg (hbound (by omega))]
  cases hf : im.fmt with
  | flat inner => rfl
  | sparse inner geom =>
    rw [hf] at hi hfmt
    simp only [hfloor hfmt.2, Blocks.div_add geom.grainSizeBytes_pos hi]
  | seSparse inner geom =>
    rw [hf] at hi hfmt
    have hdvd : sectorSize ∣ geom.grainSizeBytes := hfmt.2 ▸ ⟨8, rfl⟩
    simp only [hfloor hdvd, Blocks.div_add geom.grainSizeBytes_pos hi]

end Image

theorem VmdkReader.step_seek_start [ZlibDecoder] {r : VmdkReader} {pos : Nat} (h : pos < 2 ^ 63) :
    (r.step (.seek (.start (UInt64.ofNat pos)))).2 = { r with pos := pos } := by
  simp only [step, seek, Cursor.seek_start_nat h]
