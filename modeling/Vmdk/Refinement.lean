import Vmdk.OpenSound
import Vmdk.Stored
import Vmdk.Lib.Machine

/-! # The reader refines the disk its file describes

One step of the reader is a step the disk permits, from any state with the same
image, a coherent cache and the same cursor; by induction so is every run. -/

open Bytes Word

/-- The reader of `im` outside recovery mode, with its cursor at `p`. -/
structure ReadsAt (im : Image) (r : VmdkReader) (p : Nat) : Prop where
  image : r.toImage = im
  fallback : r.rgdFallback = false
  coherent : r.Coherent
  pos : r.pos = p
  lt : p < 2 ^ 63

theorem readsAt_reader (im : Image) : ReadsAt im im.reader 0 :=
  ⟨rfl, rfl, VmdkReader.coherent_reader im, rfl, by decide⟩

theorem ReadsAt.moves {im : Image} {r r' : VmdkReader} {p p' recovered : Nat} (h : ReadsAt im r p)
    (hm : VmdkReader.Moves r r' p' recovered) (hlt : p' < 2 ^ 63) : ReadsAt im r' p' :=
  ⟨hm.image.trans h.image, hm.fallback.trans h.fallback, hm.coherent, hm.pos, hlt⟩

section Refines
variable [ZlibDecoder] {Q A : Type} {file : Source} {im : Image}

/-- **One read is right**: it delivers content, or fails where none is promised. -/
theorem ImageOf.readAt_right (him : ImageOf file im)
    (hfit : (layoutOf file.bytes).AddressesFit file.bytes) (answer : Q → A) (pos len : Nat) :
    ReadRight (contentDisk file.bytes answer) pos len (im.readAt false pos len) := by
  obtain ⟨hsize, -, hindex⟩ := him
  unfold contentDisk
  generalize layoutOf file.bytes = layout at hsize hindex hfit
  unfold Image.readAt Image.readAtCounting
  by_cases hend : im.virtualDiskSize ≤ pos ∨ len = 0
  · simp only [hend, if_true]
    exact Disk.delivers_nil_at_end (by rw [hsize] at hend; exact hend)
  simp only [hend, if_false]
  rw [not_or, Nat.not_le] at hend
  cases layout with
  | tables L =>
    obtain ⟨geom, hfmt, hload⟩ := hindex
    simp only [hfmt, hload.grainSizeBytes, hsize]
    have hg : 0 < L.grainBytes := hload.grainSizeBytes ▸ geom.grainSizeBytes_pos
    have hpos : pos < ((Layout.tables L).disk file.bytes answer).size :=
      Nat.lt_of_lt_of_eq hend.1 hsize
    exact Locates.read_right (hload.locates im) hg hpos hend.2
  | seSparse L =>
    obtain ⟨geom, hfmt, -, hload⟩ := hindex
    have hload := hload hfit.directory
    simp only [hfmt, hload.grainSizeBytes, hsize]
    have hpos : pos < ((Layout.seSparse L).disk file.bytes answer).size :=
      Nat.lt_of_lt_of_eq hend.1 hsize
    exact Locates.read_right (hload.locates hfit) (by decide) hpos hend.2

/-- A step of the reader is one the disk permits. -/
theorem ImageOf.step_permitted (him : ImageOf file im)
    (hfit : (layoutOf file.bytes).AddressesFit file.bytes) {r : VmdkReader} {p : Nat}
    (hr : ReadsAt im r p) (q : Disk.Request VmdkReader.Query) :
    ∃ p', (contentDisk file.bytes (VmdkReader.answer im)).Permits p q (r.step q).1 p' ∧
      ReadsAt im (r.step q).2 p' := by
  have hsize : (contentDisk file.bytes (VmdkReader.answer im)).size = im.virtualDiskSize :=
    him.size.symm
  obtain ⟨himage, hfb, hc, hpos, hlt⟩ := id hr
  cases q with
  | seek f =>
    obtain ⟨hans, hmoves⟩ := VmdkReader.seek_spec hc f
    rw [hpos, himage] at hans hmoves
    unfold VmdkReader.soughtPos at hmoves
    unfold VmdkReader.step Disk.Permits
    rw [hsize]
    rcases Cursor.seek_spec hlt him.size_lt f with ⟨t, ht, htarget⟩ | ⟨herr, hout⟩
    · rw [ht] at hans hmoves
      refine ⟨t, ?_, hr.moves hmoves (Cursor.seek_lt ht)⟩
      simp only [hans]
      exact ⟨htarget, trivial⟩
    · rw [herr] at hans hmoves
      refine ⟨p, ?_, hr.moves hmoves hlt⟩
      simp only [hans]
      exact ⟨hout, trivial⟩
  | read len =>
    obtain ⟨hans, hmoves⟩ := VmdkReader.read_spec hc len
    rw [hpos, himage, hfb] at hans hmoves
    have hright := him.readAt_right hfit (VmdkReader.answer im) p len
    unfold VmdkReader.step Disk.Permits
    cases hread : im.readAt false p len with
    | ok bs =>
      rw [hread] at hans hmoves hright
      refine ⟨p + bs.length, ?_, hr.moves hmoves ?_⟩
      · simp only [hans]
        exact ⟨hright, trivial⟩
      · have hlt' := him.size_lt
        rcases hright.within with rfl | hle
        · exact hlt
        · change p + bs.length < _
          omega
    | error e =>
      rw [hread] at hans hmoves hright
      refine ⟨p, ?_, hr.moves hmoves hlt⟩
      simp only [hans]
      exact ⟨hright, trivial⟩
  | query q =>
    cases q with
    | isAllocated lba => exact ⟨p, ⟨by rw [← himage]; rfl, rfl⟩, hr⟩
    | iterAllocatedGrains =>
      obtain ⟨hans, hmoves⟩ := VmdkReader.iterAllocatedGrains_spec hc
      rw [hpos] at hmoves
      refine ⟨p, ⟨?_, rfl⟩, hr.moves hmoves hlt⟩
      rw [hans, himage, hfb]
      rfl

/-- **Refinement.** Whatever is asked of an opened reader, in any order, it answers as the disk
its file describes: reads deliver content and fail only where none is promised, seeks reach their
targets, and queries answer the same at any time. -/
theorem VmdkReader.open_refines {r : VmdkReader} (hopen : VmdkReader.open file = .ok r)
    (hfit : (layoutOf file.bytes).AddressesFit file.bytes)
    (reqs : List (Disk.Request VmdkReader.Query)) :
    Machine.Accepts (contentDisk file.bytes (VmdkReader.answer r.toImage)).Permits 0 reqs
      (Machine.run VmdkReader.step r reqs) := by
  obtain ⟨im, rfl, him⟩ := open_loads hopen
  refine Machine.run_accepted (fun _ _ q h => him.step_permitted hfit h q) ?_ reqs
  exact readsAt_reader im

end Refines

theorem VmdkReader.open_refines_mirroredDisk :
    letI := Stored.decoder
    ∃ r, VmdkReader.open (mirroredDisk 11 3) = .ok r ∧
      ∀ reqs : List (Disk.Request VmdkReader.Query), Machine.Accepts
        (contentDisk (mirroredDisk 11 3).bytes (VmdkReader.answer r.toImage)).Permits 0 reqs
        (Machine.run VmdkReader.step r reqs) := by
  let _ := Stored.decoder
  obtain ⟨r, hr⟩ := exists_of_isOk (x := VmdkReader.open (mirroredDisk 11 3)) (by decide +kernel)
  have hlayout : layoutOf (mirroredDisk 11 3).bytes =
      .tables (vmdk4Layout (mirroredDisk 11 3).bytes) := by
    rw [layoutOf, if_neg (by decide +kernel), if_neg (by decide +kernel)]
  refine ⟨r, hr, VmdkReader.open_refines hr ?_⟩
  rw [hlayout]
  trivial
