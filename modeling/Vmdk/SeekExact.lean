import Vmdk.ChainOpen
import Vmdk.ChainSound
import Vmdk.FlatSound
import Vmdk.SparseMultiSound
import Vmdk.Lib.Seek

/-! # Seeks of the four readers

`VmdkReader`, `VmdkChainReader`, `MultiExtentReader` and `MultiSparseReader`
repeat one `seek`. Their cursors and sizes stay `u64`s whatever is sought and
read, so in every state they are exact on the seeks that stay on their side of
`2 ^ 63`, and on no others (`seeks_exact`). -/

open Word

/-! ## Extents -/

namespace MultiExtentReader
variable {fs : FileSystem} {dir : FilePath} {exts : List ExtentEntry} {m : MultiExtentReader}

/-- The sum of the sizes is cut to a `u64` at every extent. -/
theorem openFrom_total_lt {virt total : Nat} {flats : List FlatExtent} (hvirt : virt < u64Size)
    (h : (openFrom fs dir virt exts).result = .ok (flats, total)) : total < u64Size := by
  induction exts generalizing virt flats with
  | nil =>
    cases h
    exact hvirt
  | cons ext exts ih =>
    obtain ⟨flat, rest, -, -, -, hend, -, hrest⟩ := openFrom_cons h
    exact ih (hend ▸ Nat.mod_lt _ (by decide)) hrest

theorem exactInRange (h : (MultiExtentReader.open fs dir exts).result = .ok m) :
    Cursor.ExactInRange m.step (fun pos => pos) (fun _ => m.totalBytes) 0 := by
  refine Cursor.exactInRange_step (openFrom_total_lt (by decide) (open_eq h)) ?_
  intro pos len bs hread
  exact Nat.le_trans (readHere_length hread) (Nat.min_le_right _ _)

end MultiExtentReader

namespace MultiSparseReader
variable {fs : FileSystem} {dir : FilePath} {entries : List SparseEntry} {m : MultiSparseReader}

theorem openFrom_total_lt {byteOffset total : Nat} {chunks : List SparseChunk}
    (hstart : byteOffset < u64Size)
    (h : (openFrom fs dir byteOffset entries).result = .ok (chunks, total)) : total < u64Size := by
  induction entries generalizing byteOffset chunks with
  | nil =>
    cases h
    exact hstart
  | cons entry entries ih =>
    obtain ⟨chunk, rest, -, -, ⟨_, -, -, hend⟩, hrest⟩ := openFrom_cons h
    exact ih (hend ▸ Nat.mod_lt _ (by decide)) hrest

theorem exactInRange (h : (MultiSparseReader.open fs dir entries).result = .ok m) :
    Cursor.ExactInRange m.step (fun pos => pos) (fun _ => m.totalBytes) 0 := by
  have hlt : m.totalBytes < u64Size := by
    unfold MultiSparseReader.open at h
    simp only [Opens.result_bind, bind_eq_ok, Opens.result_pure] at h
    obtain ⟨⟨chunks, total⟩, hopen, h⟩ := h
    cases h
    exact openFrom_total_lt (by decide) hopen
  have hstep : m.step = Cursor.step m.totalBytes m.readHere := by
    funext pos q
    cases q <;> rfl
  rw [hstep]
  refine Cursor.exactInRange_step hlt ?_
  intro pos len bs hread
  exact Nat.le_trans (readHere_length hread) (Nat.min_le_right _ _)

end MultiSparseReader

/-! ## Images and chains -/

section
variable [ZlibDecoder]

/-- The cursor stays a `u64` when a shaped image is read. -/
theorem Image.Shaped.read_end {im : Image} (him : im.Shaped) {fallback : Bool} {pos len : Nat}
    (hpos : pos < u64Size) :
    pos + VmdkReader.delivered (im.readAt fallback pos len) < u64Size := by
  cases hread : im.readAt fallback pos len with
  | error e => exact hpos
  | ok bs =>
    show pos + bs.length < u64Size
    have hsize := him.size_lt
    rcases Nat.lt_or_ge pos im.virtualDiskSize with hin | hend
    · have hle := him.length_le hin hread
      omega
    · rw [Image.readAt_at_end hend] at hread
      cases hread
      exact hpos

namespace VmdkReader
variable {im : Image} {r : VmdkReader}

/-- A reader of `im` whose cursor is a `u64`. -/
structure Placed (im : Image) (r : VmdkReader) : Prop where
  image : r.toImage = im
  coherent : r.Coherent
  pos_lt : r.pos < u64Size

omit [ZlibDecoder] in
theorem Placed.moves {r' : VmdkReader} {pos recovered : Nat} (h : Placed im r)
    (hm : Moves r r' pos recovered) (hpos : pos < u64Size) : Placed im r' :=
  ⟨hm.image.trans h.image, hm.coherent, hm.pos ▸ hpos⟩

theorem Placed.step (him : im.Shaped) (h : Placed im r) (q : Disk.Request Empty) :
    Placed im (r.stepIo q).2 := by
  cases q with
  | seek f =>
    exact h.moves (seek_spec h.coherent f).2 (Cursor.after_lt h.pos_lt f)
  | read len =>
    refine h.moves (read_spec h.coherent len).2 ?_
    have hshaped : r.toImage.Shaped := h.image ▸ him
    exact hshaped.read_end h.pos_lt
  | query q => cases q

theorem exactInRange_reader (him : im.Shaped) :
    Cursor.ExactInRange stepIo (·.pos) (·.virtualDiskSize) im.reader := by
  have hstart : Placed im im.reader := ⟨rfl, coherent_reader im, show 0 < u64Size by decide⟩
  refine @Cursor.exactInRange_of_inv _ _ _ _ (Placed im) (fun r f => ?_) (fun r h => ?_)
    (fun r q h => h.step him q) _ hstart
  · show Disk.Answer.sought (r.seek f).1 = _ ∧ (r.seek f).2.pos = _
    unfold seek
    cases Cursor.seek r.pos r.virtualDiskSize f with
    | ok t => exact ⟨rfl, rfl⟩
    | error e => exact ⟨rfl, rfl⟩
  · have himage := h.image
    subst himage
    exact ⟨h.pos_lt, him.size_lt⟩

end VmdkReader

namespace VmdkChainReader
variable {ims : List Image} {chain : VmdkChainReader}

theorem read_pos (self : VmdkChainReader) (len : Nat) :
    (self.read len).2.pos = self.pos + VmdkReader.delivered (self.read len).1 := by
  unfold read
  split
  · rfl
  · simp only
    cases (readLayers self.pos (self.span len) self.layers).1 with
    | ok bs => rfl
    | error e => rfl

/-- A chain over `ims` whose cursor is a `u64`. -/
structure Placed (ims : List Image) (chain : VmdkChainReader) : Prop where
  chainOf : ChainOf ims (ofLayers (ims.map Image.reader)) chain
  pos_lt : chain.pos < u64Size

theorem Placed.step (him : ∀ im ∈ ims, im.Shaped)
    (hsize : (ofLayers (ims.map Image.reader)).virtualDiskSize < u64Size) (h : Placed ims chain)
    (q : Disk.Request Empty) : Placed ims (chain.step q).2 := by
  refine ⟨step_chainOf h.chainOf hsize q, ?_⟩
  have hpos := h.pos_lt
  have hchain := h.chainOf.size
  cases q with
  | seek f =>
    have hlt := @Cursor.after_lt chain.pos chain.virtualDiskSize hpos f
    show (chain.seek f).2.pos < u64Size
    unfold seek
    cases hseek : Cursor.seek chain.pos chain.virtualDiskSize f with
    | ok t => rwa [hseek] at hlt
    | error e => exact hpos
  | read len =>
    show (chain.read len).2.pos < u64Size
    rw [read_pos, (read_spec h.chainOf hsize len).1]
    split
    · exact hpos
    cases hread : readImages chain.pos (chain.span len) ims with
    | error e => exact hpos
    | ok bs =>
      show chain.pos + bs.length < u64Size
      rcases Nat.eq_zero_or_pos bs.length with hnil | hne
      · omega
      · have hlast : bs.length - 1 < bs.length := Nat.sub_lt hne Nat.one_pos
        have hspan := (readImages_stretch him hread (List.getElem?_eq_getElem hlast)).1
        have hle : chain.span len ≤ chain.virtualDiskSize - chain.pos := by
          unfold span
          simp only
          split <;> omega
        omega
  | query q => cases q

theorem exactInRange_chain (him : ∀ im ∈ ims, im.Shaped) :
    Cursor.ExactInRange step (·.pos) (·.virtualDiskSize) (ofLayers (ims.map Image.reader)) := by
  have hsize : (ofLayers (ims.map Image.reader)).virtualDiskSize < u64Size := by
    cases ims with
    | nil => decide
    | cons im ims => exact (him im List.mem_cons_self).size_lt
  have hstart : Placed ims (ofLayers (ims.map Image.reader)) :=
    ⟨chainOf_ofLayers ims, show 0 < u64Size by decide⟩
  refine @Cursor.exactInRange_of_inv _ _ _ _ (Placed ims) (fun c f => ?_) (fun c h => ?_)
    (fun c q h => h.step him hsize q) _ hstart
  · show Disk.Answer.sought (c.seek f).1 = _ ∧ (c.seek f).2.pos = _
    unfold seek
    cases Cursor.seek c.pos c.virtualDiskSize f with
    | ok t => exact ⟨rfl, rfl⟩
    | error e => exact ⟨rfl, rfl⟩
  · exact ⟨h.pos_lt, h.chainOf.size ▸ hsize⟩

end VmdkChainReader

/-! ## All readers -/

/-- Every reader that opens is exact, in every state that seeks and reads lead to, on exactly the
seeks that stay on their side of `2 ^ 63`. -/
structure SeeksExact (fs : FileSystem) : Prop where
  file : ∀ file r, VmdkReader.open file = .ok r →
    Cursor.ExactInRange VmdkReader.stepIo (·.pos) (·.virtualDiskSize) r
  path : ∀ origin path r, (VmdkReader.openPath fs origin path).result = .ok r →
    Cursor.ExactInRange VmdkReader.stepIo (·.pos) (·.virtualDiskSize) r
  chain : ∀ path chain, (VmdkChainReader.open fs path).result = .ok chain →
    Cursor.ExactInRange VmdkChainReader.step (·.pos) (·.virtualDiskSize) chain
  multiExtent : ∀ dir exts m, (MultiExtentReader.open fs dir exts).result = .ok m →
    Cursor.ExactInRange m.step (fun pos => pos) (fun _ => m.totalBytes) 0
  multiSparse : ∀ dir entries m, (MultiSparseReader.open fs dir entries).result = .ok m →
    Cursor.ExactInRange m.step (fun pos => pos) (fun _ => m.totalBytes) 0

/-- **Seeks are exact** exactly when they stay on their side of `2 ^ 63`. -/
theorem seeks_exact (fs : FileSystem) : SeeksExact fs where
  file := by
    intro file r h
    obtain ⟨im, rfl, him⟩ := open_shaped h
    exact VmdkReader.exactInRange_reader him
  path := by
    intro origin path r h
    obtain ⟨im, rfl, him⟩ := openPath_shaped h
    exact VmdkReader.exactInRange_reader him
  chain := by
    intro path chain h
    obtain ⟨ims, rfl, -, him⟩ := VmdkChainReader.open_images h
    exact VmdkChainReader.exactInRange_chain him
  multiExtent := fun _ _ _ h => MultiExtentReader.exactInRange h
  multiSparse := fun _ _ _ h => MultiSparseReader.exactInRange h

end

/-- One extent of `2 ^ 55 - 1` sectors of zeroes. -/
def hugeText : Text := "#\ncreateType=\"vmfs\"\nRW 36028797018963967 ZERO".toList

theorem length_hugeText : hugeText.length < 2 ^ 63 := by decide +kernel

def hugeFiles : FileSystem := fun _ => .ok (VmdkReader.textFile hugeText length_hugeText)

/-- **A seek beyond the end comes out at the start** of a disk larger than an `i64`, and a step past
the largest position overflows on any disk. -/
theorem seek_wraps_hugeFiles : let _ := Stored.decoder
    ∃ r, (VmdkReader.openPath hugeFiles .caller ['d']).result = .ok r ∧
      r.virtualDiskSize = 2 ^ 64 - 512 ∧ (r.seek (.fromEnd 512)).1 = .ok 0 ∧
      ¬ Cursor.ExactAt VmdkReader.stepIo (·.pos) (·.virtualDiskSize) r (.fromEnd 512) ∧
      ¬ Cursor.ExactAt VmdkReader.stepIo (·.pos) (·.virtualDiskSize)
        (Machine.final VmdkReader.stepIo r [.seek (.start 9223372036854775807)]) (.current 1) := by
  intro _
  have hrun : (VmdkReader.openPath hugeFiles .caller ['d']).result.map (fun r =>
      (r.virtualDiskSize, (r.seek (.fromEnd 512)).1,
        (Machine.final VmdkReader.stepIo r [.seek (.start 9223372036854775807)]).pos)) =
        .ok (2 ^ 64 - 512, .ok 0, 2 ^ 63 - 1) := by
    decide +kernel
  obtain ⟨r, hr, hrun⟩ := exists_of_map_eq hrun
  obtain ⟨hsize, hrun⟩ := Prod.mk.inj hrun
  obtain ⟨hseek, hpos⟩ := Prod.mk.inj hrun
  refine ⟨r, hr, hsize, hseek, ?_, ?_⟩
  · rintro ⟨res, hres, hexact⟩
    have hzero : res = .ok 0 := by
      rw [← hseek]
      exact (Disk.Answer.sought.inj hres).symm
    have htarget : SeekFrom.target r.pos r.virtualDiskSize (.fromEnd 512) = 2 ^ 64 := by
      have hn : (512 : Int64).toInt = 512 := by decide
      unfold SeekFrom.target
      simp only [hsize, hn]
      omega
    obtain ⟨⟨e, he⟩, -⟩ := hexact.refused (.inr (by rw [htarget]; decide))
    rw [hzero] at he
    cases he
  · generalize Machine.final VmdkReader.stepIo r _ = parked at hpos ⊢
    rintro ⟨res, -, hexact⟩
    have hsum := hexact.fits _ (List.mem_singleton_self _)
    have hn : (1 : Int64).toInt = 1 := by decide
    simp only [hpos, hn] at hsum
    exact absurd hsum.2 (by decide)

/-- On the same disk a seek back from a cursor moved by a read is exact, and so is one that stays
above `2 ^ 63`. -/
theorem seeks_exact_hugeFiles : let _ := Stored.decoder
    ∃ r, (VmdkReader.openPath hugeFiles .caller ['d']).result = .ok r ∧
      Cursor.ExactAt VmdkReader.stepIo (·.pos) (·.virtualDiskSize)
        (Machine.final VmdkReader.stepIo r [.seek (.start 7), .read 5]) (.current (-12)) ∧
      Cursor.ExactAt VmdkReader.stepIo (·.pos) (·.virtualDiskSize)
        (Machine.final VmdkReader.stepIo r [.seek (.start 7), .read 5]) (.fromEnd (-1)) := by
  intro _
  have hrun : (VmdkReader.openPath hugeFiles .caller ['d']).result.map (fun r =>
      ((Machine.final VmdkReader.stepIo r [.seek (.start 7), .read 5]).pos,
        (Machine.final VmdkReader.stepIo r [.seek (.start 7), .read 5]).virtualDiskSize)) =
        .ok (12, 2 ^ 64 - 512) := by
    decide +kernel
  obtain ⟨r, hr, hrun⟩ := exists_of_map_eq hrun
  obtain ⟨hpos, hsize⟩ := Prod.mk.inj hrun
  have hexact := (seeks_exact hugeFiles).path .caller ['d'] r hr [.seek (.start 7), .read 5]
  refine ⟨r, hr, ?_⟩
  generalize Machine.final VmdkReader.stepIo r _ = s at hpos hsize hexact ⊢
  refine ⟨(hexact (.current (-12))).mpr ?_, (hexact (.fromEnd (-1))).mpr ?_⟩
  · have hn : (-12 : Int64).toInt = -12 := by decide
    unfold Cursor.InRange Cursor.SameSide
    simp only [hpos, hn]
    omega
  · have hn : (-1 : Int64).toInt = -1 := by decide
    unfold Cursor.InRange Cursor.SameSide
    simp only [hsize, hn]
    omega
