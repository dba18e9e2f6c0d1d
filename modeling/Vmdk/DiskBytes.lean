import Vmdk.RecoverySound
import Vmdk.Refinement
import Vmdk.Stream

/-! # Disks that are lists of bytes

The simplest disk is a list of bytes: every read inside it delivers the next of
them. An image holds a list when it can be read whole and has these bytes; then
whatever is asked of its reader, in any order, is answered from the list
(`Image.Holds.run_accepted`), and so is a pass from the front to the end. -/

open Bytes Word

/-- The device that holds the bytes of a list. A read inside it always delivers. -/
def Disk.ofBytes {Q A : Type} (bytes : List UInt8) (answer : Q → A) : Disk Q A where
  size := bytes.length
  byte o := bytes[o]?
  served _ := True
  answer := answer

variable [ZlibDecoder]

/-- The image can be read whole in a mode, and its bytes are those of the list. -/
structure Image.Holds (im : Image) (fallback : Bool) (bytes : List UInt8) : Prop where
  shaped : im.Shaped
  lt : im.virtualDiskSize < 2 ^ 63
  readable : im.ReadableIn fallback
  window : Copy.window (im.diskByte fallback) 0 im.virtualDiskSize = bytes

/-- What a caller that seeks and reads sees of `r` is the list of bytes. -/
def VmdkReader.Presents (r : VmdkReader) (bytes : List UInt8) : Prop :=
  ∀ reqs : List (Disk.Request Empty),
    Machine.Accepts (Disk.ofBytes bytes Empty.elim (A := Empty)).Permits 0 reqs
      (Machine.run VmdkReader.stepIo r reqs)

namespace Image.Holds
variable {im : Image} {fallback : Bool} {bytes : List UInt8}

theorem length_eq (h : im.Holds fallback bytes) : bytes.length = im.virtualDiskSize := by
  rw [← h.window, Copy.length_window]

/-- An image whose reads deliver, and first the byte of the list, holds the list. -/
theorem of_readAt (hshaped : im.Shaped) (hsize : bytes.length = im.virtualDiskSize)
    (hlt : im.virtualDiskSize < 2 ^ 63)
    (hread : ∀ o < im.virtualDiskSize, ∀ len, 0 < len →
      ∃ b bs, im.readAt fallback o len = .ok (b :: bs) ∧ bytes[o]? = some b) :
    im.Holds fallback bytes where
  shaped := hshaped
  lt := hlt
  readable := by
    intro o ho len hlen
    obtain ⟨b, bs, hok, -⟩ := hread o ho len hlen
    exact ⟨b, bs, hok⟩
  window := by
    have hbyte (i : Nat) (x : UInt8) (hx : bytes[i]? = some x) :
        x = im.diskByte fallback (0 + i) := by
      have hi : i < bytes.length := (List.getElem?_eq_some_iff.mp hx).1
      obtain ⟨b, bs, hok, hb⟩ := hread i (hsize ▸ hi) 1 Nat.one_pos
      rw [hx] at hb
      cases hb
      unfold diskByte byteIn
      rw [Nat.zero_add, hok]
      rfl
    rw [← hsize]
    exact (Copy.eq_window hbyte).symm

/-- A read at any place is a right answer of the list. -/
theorem delivers (h : im.Holds fallback bytes) {Q A : Type} (answer : Q → A) (pos len : Nat) :
    ∃ bs, im.readAt fallback pos len = .ok bs ∧ (Disk.ofBytes bytes answer).Delivers pos len bs := by
  have hsize := h.length_eq
  rcases Nat.lt_or_ge pos im.virtualDiskSize with hpos | hpos
  · rcases Nat.eq_zero_or_pos len with rfl | hlen
    · refine ⟨[], ?_, Disk.delivers_nil_at_end (.inr rfl)⟩
      unfold readAt readAtCounting
      rw [if_pos (.inr rfl)]
    · obtain ⟨b, bs, hread, hle, hwindow⟩ := h.readable.deliver h.shaped hpos hlen
      refine ⟨b :: bs, hread, { length_le := by omega, within := .inr ?_, bytes := ?_, progress := ?_ }⟩
      · show pos + (b :: bs).length ≤ bytes.length
        omega
      · intro i c hc
        have hi : i < (b :: bs).length := (List.getElem?_eq_some_iff.mp hc).1
        rw [hwindow, Copy.getElem?_window _ hi] at hc
        show bytes[pos + i]? = some c
        rw [← h.window, Copy.getElem?_window _ (by omega), Nat.zero_add, hc]
      · intro _ _ _ hnil
        cases hnil
  · refine ⟨[], readAt_at_end hpos, Disk.delivers_nil_at_end (.inl ?_)⟩
    show bytes.length ≤ pos
    omega

/-- One call to the reader is answered from the list. -/
theorem step_permitted (h : im.Holds fallback bytes) {r : VmdkReader} {p : Nat}
    (hr : VmdkReader.At im fallback p r ∧ p < 2 ^ 63) (q : Disk.Request Empty) :
    ∃ p', (Disk.ofBytes bytes Empty.elim (A := Empty)).Permits p q (r.stepIo q).1 p' ∧
      VmdkReader.At im fallback p' (r.stepIo q).2 ∧ p' < 2 ^ 63 := by
  obtain ⟨hat, hp⟩ := hr
  have hsize : (Disk.ofBytes bytes Empty.elim (A := Empty)).size = im.virtualDiskSize := h.length_eq
  cases q with
  | seek f =>
    obtain ⟨hans, hmoves⟩ := VmdkReader.seek_spec hat.coherent f
    rw [hat.pos, hat.image] at hans hmoves
    unfold VmdkReader.soughtPos at hmoves
    unfold VmdkReader.stepIo Disk.Permits
    rw [hsize]
    rcases Cursor.seek_spec hp h.lt f with ⟨t, ht, htarget⟩ | ⟨herr, hout⟩
    · rw [ht] at hans hmoves
      refine ⟨t, ?_, hat.of_moves hmoves, Cursor.seek_lt ht⟩
      simp only [hans]
      exact ⟨htarget, trivial⟩
    · rw [herr] at hans hmoves
      refine ⟨p, ?_, hat.of_moves hmoves, hp⟩
      simp only [hans]
      exact ⟨hout, trivial⟩
  | read len =>
    obtain ⟨bs, hread, hdeliver⟩ := h.delivers (Empty.elim : Empty → Empty) p len
    obtain ⟨r', hstep, hat'⟩ := hat.read hread
    have hlt : p + bs.length < 2 ^ 63 := by
      have := h.lt
      rcases hdeliver.within with rfl | hle
      · exact hp
      · omega
    have hstepIo : r.stepIo (.read len) = (.data (.ok bs), r') := by
      show (Disk.Answer.data (r.read len).1, (r.read len).2) = _
      rw [hstep]
    rw [hstepIo]
    exact ⟨p + bs.length, ⟨hdeliver, rfl⟩, hat', hlt⟩
  | query q => cases q

/-- **Every run of a reader of the image is one of the list of bytes.** -/
theorem run_accepted (h : im.Holds fallback bytes) {r : VmdkReader}
    (hr : VmdkReader.At im fallback 0 r) : r.Presents bytes := by
  intro reqs
  refine Machine.run_accepted (R := fun r p => VmdkReader.At im fallback p r ∧ p < 2 ^ 63) ?_
    ⟨hr, by decide⟩ reqs
  exact fun _ _ q hr => h.step_permitted hr q

/-- Where recovery changes nothing the list is held in either mode. -/
theorem of_harmless (h : im.Holds false bytes) (him : Harmless im) : im.Holds fallback bytes := by
  have hread (o len : Nat) : im.readAt fallback o len = im.readAt false o len := by
    show (im.readAtCounting fallback o len).1 = _
    rw [him.read]
  have hbyte : im.diskByte fallback = im.diskByte false := by
    funext o
    unfold diskByte byteIn
    rw [hread]
  refine ⟨h.shaped, h.lt, fun o ho len hlen => ?_, hbyte ▸ h.window⟩
  rw [hread]
  exact h.readable o ho len hlen

end Image.Holds

/-- **An opened extent holds the list that its file describes**, when every byte of it is there and
its tables are whole. -/
theorem ImageOf.holds {file : Source} {im : Image} {bytes : List UInt8} (him : ImageOf file im)
    (hshaped : im.Shaped) (hfit : (layoutOf file.bytes).AddressesFit file.bytes)
    (hsize : bytes.length = (layoutOf file.bytes).capacity * sectorSize)
    (hcontent : ∀ o < (layoutOf file.bytes).capacity * sectorSize,
      (layoutOf file.bytes).content file.bytes o = bytes[o]? ∧
        (layoutOf file.bytes).TableWhole file.bytes o) : im.Holds false bytes := by
  refine Image.Holds.of_readAt hshaped (hsize.trans him.size.symm) him.size_lt
    fun o ho len hlen => ?_
  rw [him.size] at ho
  obtain ⟨hbyte, hwhole⟩ := hcontent o ho
  have hget : bytes[o]? = some bytes[o] := List.getElem?_eq_getElem (hsize ▸ ho)
  have hserved : (contentDisk file.bytes (Empty.elim : Empty → Empty)).served o := by
    refine ⟨?_, hwhole⟩
    rw [hbyte, hget]
    rfl
  have hright := him.readAt_right hfit (Empty.elim : Empty → Empty) o len
  cases hread : im.readAt false o len with
  | error e =>
    rw [hread] at hright
    exact absurd hserved hright
  | ok bs =>
    rw [hread] at hright
    obtain ⟨b, bs, rfl⟩ := List.exists_cons_of_ne_nil (hright.progress hlen ho hserved)
    refine ⟨b, bs, rfl, ?_⟩
    have hfirst := hright.bytes 0 b rfl
    rw [Nat.add_zero] at hfirst
    exact hbyte.symm.trans hfirst

/-- A reader as it was opened, in either mode, presents the list that its image holds. -/
theorem Image.Holds.presents {im : Image} {bytes : List UInt8} (h : im.Holds false bytes)
    (him : Harmless im) :
    im.reader.Presents bytes ∧ im.reader.enableRgdFallback.Presents bytes :=
  ⟨h.run_accepted (VmdkReader.at_reader im),
    (h.of_harmless him).run_accepted (VmdkReader.at_enableRgdFallback im)⟩
