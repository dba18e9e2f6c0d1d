import Vmdk.ChainOpen
import Vmdk.ChainSound
import Vmdk.Stream
import Vmdk.VerifySound

/-! # The overlay that a chain reads

One `read` of a chain takes a single layer decision, at the cursor. Its bytes
are those of the overlay when no newer layer has an allocated grain at a later
place that the serving layer reaches (`VmdkChainReader.read_overlay`). The clamp
of the request to the smallest grain ensures this where the boundaries of the
other grains are boundaries of the smallest ones; elsewhere a newer grain that
begins inside an older one, or where there is none, stays hidden
(`VmdkChainReader.overlay_exact`). -/

open Bytes Word Text

/-! ## Layers that can be read -/

/-- The rest of a stretch is the stretch from there. -/
theorem ExtentReader.stretch_add {inner : ExtentReader} {pos i : Nat} (h : inner.EndToEnd)
    (hi : i < inner.stretch pos) : inner.stretch (pos + i) = inner.stretch pos - i := by
  cases inner with
  | multiExtent m =>
    simp only [stretch] at hi ⊢
    cases hext : m.extentFor pos with
    | none =>
      rw [hext] at hi
      exact absurd hi (Nat.not_lt_zero i)
    | some ext =>
      rw [hext] at hi
      simp only [Option.elim] at hi ⊢
      have hsame : m.extentFor (pos + i) = some ext :=
        Intervals.covering_of_le h (Nat.zero_le _) hext (Nat.le_add_right _ _) (by omega)
      rw [hsame]
      simp only
      omega
  | multiSparse m =>
    simp only [stretch] at hi ⊢
    cases hchunk : m.chunkFor pos with
    | none =>
      rw [hchunk] at hi
      exact absurd hi (Nat.not_lt_zero i)
    | some chunk =>
      rw [hchunk] at hi
      simp only [Option.elim] at hi ⊢
      obtain ⟨-, hge, -⟩ := Intervals.covering_mem hchunk
      have hsame : m.chunkFor (pos + i) = some chunk :=
        Intervals.covering_of_le h (Nat.zero_le _) hchunk (Nat.le_add_right _ _) (by omega)
      have hlocal : pos + i - chunk.byteStart = pos - chunk.byteStart + i := by omega
      rw [hsame]
      simp only
      rw [hlocal, Blocks.mod_add chunk.grainSizeBytes_pos (by omega)]
      omega

namespace Image
variable {im : Image} {pos i : Nat}

theorem Shaped.stretch_add (him : im.Shaped) (hi : i < im.stretch pos) :
    im.stretch (pos + i) = im.stretch pos - i := by
  have hfmt := him.fmt
  unfold stretch at hi ⊢
  cases hf : im.fmt with
  | flat inner =>
    rw [hf] at hi hfmt
    exact ExtentReader.stretch_add hfmt hi
  | sparse inner geom =>
    rw [hf] at hi
    simp only at hi ⊢
    rw [Blocks.mod_add geom.grainSizeBytes_pos hi]
    omega
  | seSparse inner geom =>
    rw [hf] at hi
    simp only at hi ⊢
    rw [Blocks.mod_add geom.grainSizeBytes_pos hi]
    omega

/-- What can be read says of every place whether it is allocated. -/
theorem ReadableIn.owns_total [ZlibDecoder] (h : im.ReadableIn false) (o : Nat) :
    ∃ b, im.owns o = some b := by
  suffices hok : ∃ b, im.isAllocated (o / sectorSize) = .ok b by
    obtain ⟨b, hb⟩ := hok
    exact ⟨b, owns_eq_some.mpr hb⟩
  unfold isAllocated
  split
  · exact ⟨false, rfl⟩
  next hlba =>
  have hpos : o / sectorSize * sectorSize < im.virtualDiskSize := by
    unfold sectorSize at *
    omega
  obtain ⟨b, bs, hread⟩ := h _ hpos 1 Nat.one_pos
  unfold readAt readAtCounting at hread
  rw [if_neg (by omega)] at hread
  cases hf : im.fmt with
  | flat inner => exact ⟨true, rfl⟩
  | sparse inner geom =>
    rw [hf] at hread
    obtain ⟨loc, hloc, -⟩ := bind_eq_ok.mp hread
    have hj := Nat.mod_lt (o / sectorSize * sectorSize / geom.grainSizeBytes) geom.numGtesPerGt_pos
    unfold locateSparse gtSectorFor at hloc
    simp only [Bool.false_eq_true, if_false] at hloc ⊢
    split
    · exact ⟨false, rfl⟩
    next h0 =>
    rw [if_neg h0] at hloc
    cases hgt : readGt inner geom.numGtesPerGt
        (geom.grainDir.getD (o / sectorSize * sectorSize / geom.grainSizeBytes / geom.numGtesPerGt) 0) with
    | error e =>
      rw [hgt] at hloc
      cases hloc
    | ok gt =>
      have hle : _ ≤ inner.bytes.length := readGt_ok_le geom.numGtesPerGt_pos hgt
      rw [Source.readExactAt_of_le (by omega)]
      exact ⟨_, rfl⟩
  | seSparse inner geom =>
    rw [hf] at hread
    obtain ⟨loc, hloc, -⟩ := bind_eq_ok.mp hread
    unfold grainLocationSesparse at hloc
    obtain ⟨entry, hentry, -⟩ := bind_eq_ok.mp hloc
    simp only at hentry ⊢
    rw [hentry]
    exact ⟨_, rfl⟩

/-- Reads end only where a grain, an extent or the disk does. -/
def ReadsOn [ZlibDecoder] (im : Image) : Prop :=
  ∀ pos < im.virtualDiskSize, ∀ len, ∃ bs, im.readAt false pos len = .ok bs ∧
    bs.length = min len (min (im.stretch pos) (im.virtualDiskSize - pos))

end Image

namespace VmdkChainReader

/-- Of the `n` bytes from `pos` on, none that the layer serving `pos` reaches lies in a grain that is
allocated in a newer layer. -/
def Unshadowed (ims : List Image) (pos n : Nat) : Prop :=
  ∀ i < n, (∀ im, Overlay.owner Image.owns pos ims = some im →
      i < im.stretch pos ∧ pos + i < im.virtualDiskSize) →
    ∀ im ∈ Overlay.above Image.owns pos ims, im.owns (pos + i) = some false

section
variable [ZlibDecoder] {ims : List Image} {pos : Nat}

/-- What a read at `pos` may deliver: at each place the byte of the newest layer that is allocated
there, and nothing of a layer below one that is allocated there. -/
structure Overlays (ims : List Image) (pos : Nat) (bs : List UInt8) : Prop where
  bytes : ∀ i b, bs[i]? = some b → overlayByte ims (pos + i) = some b
  newest : ∀ i < bs.length, ∀ im ∈ Overlay.above Image.owns pos ims, im.owns (pos + i) = some false

theorem overlays_nil : Overlays ims pos [] :=
  ⟨fun i b hb => by simp at hb, fun i hi => absurd hi (Nat.not_lt_zero i)⟩

/-- **One read** of layers that can be read delivers the overlay where no newer layer interferes. -/
theorem read_overlay (him : ∀ im ∈ ims, im.Shaped) (hread : ∀ im ∈ ims, im.ReadableIn false)
    {n : Nat} {bs : List UInt8} (hun : Unshadowed ims pos n)
    (h : readImages pos n ims = .ok bs) : Overlays ims pos bs := by
  have h63 : ∀ im ∈ ims, im.virtualDiskSize ≤ 2 ^ 63 := fun im hmem =>
    (hread im hmem).size_le (him im hmem)
  have hnewest {i : Nat} {b : UInt8} (hb : bs[i]? = some b) :
      ∀ im ∈ Overlay.above Image.owns pos ims, im.owns (pos + i) = some false := by
    obtain ⟨hi, hreach⟩ := readImages_stretch him h hb
    exact hun i hi fun im howner => ⟨(hreach im howner).1, (hreach im howner).2.1⟩
  constructor
  · intro i b hb
    have howns : ∀ im, Overlay.owner Image.owns pos ims = some im → im.owns (pos + i) = some true :=
      fun im howner => ((readImages_stretch him h hb).2 im howner).2.2
    exact Overlay.overlay_of_valueFrom (hnewest hb) howns (readImages_byte him h63 h hb)
  · intro i hi
    exact hnewest (List.getElem?_eq_getElem hi)

/-! ## Runs -/

/-- The images of a chain's layers. -/
def images (self : VmdkChainReader) : List Image := self.layers.map (·.toImage)

/-- A read, if it succeeds, delivers the overlay of the layers. -/
def ReadsOverlay (self : VmdkChainReader) : Disk.Request Empty → Prop
  | .read len => ∀ bs, (self.read len).1 = .ok bs → Overlays self.images self.pos bs
  | .seek _ => True

omit [ZlibDecoder] in
theorem ChainOf.images {c₀ c : VmdkChainReader} (h : ChainOf ims c₀ c) : c.images = ims := by
  unfold VmdkChainReader.images
  generalize c.layers = layers, h.layers = hlayers
  clear h
  induction hlayers with
  | nil => rfl
  | cons hl _ ih => rw [List.map_cons, hl.image, ih]

omit [ZlibDecoder] in
/-- Layers that `open_path` opened are fresh readers of shaped images. -/
theorem opened_layers {layers : List VmdkReader} (h : ∀ r ∈ layers, ∃ fs origin path,
    (VmdkReader.openPath fs origin path).result = .ok r) :
    ∃ ims : List Image, layers = ims.map Image.reader ∧ ∀ im ∈ ims, im.Shaped := by
  induction layers with
  | nil => exact ⟨[], rfl, fun im him => by cases him⟩
  | cons r layers ih =>
    obtain ⟨⟨fs, origin, path, hopen⟩, hrest⟩ := List.forall_mem_cons.mp h
    obtain ⟨im, rfl, him⟩ := openPath_shaped hopen
    obtain ⟨ims, rfl, hims⟩ := ih hrest
    exact ⟨im :: ims, rfl, List.forall_mem_cons.mpr ⟨him, hims⟩⟩

/-! ## Grains that begin inside others -/

/-- At the byte after `p`, which is no multiple of `clamp`, an allocated grain of a newer layer begins
where the layer that serves `p` reads on, or where none serves `p` and zeros are filled in. -/
structure HiddenStart (ims : List Image) (clamp size p : Nat) : Prop where
  inside : p + 1 < size
  unclamped : ¬ clamp ∣ p + 1
  newer : ∃ im ∈ Overlay.above Image.owns p ims, im.owns (p + 1) = some true
  spanned : ∀ im, Overlay.owner Image.owns p ims = some im →
    1 < im.stretch p ∧ p + 1 < im.virtualDiskSize

/-- No grain of a newer layer begins inside what is read from an older one. -/
def NothingHidden (self : VmdkChainReader) : Prop :=
  ∀ p, ¬ HiddenStart self.images self.clampBytes self.virtualDiskSize p

/-- The grains of every layer are whole numbers of the smallest, or larger than what is read of it. -/
def GrainsFit (self : VmdkChainReader) : Prop :=
  ∀ im ∈ self.images, self.clampBytes ∣ im.fmt.infoGrainSizeBytes ∨
    min im.virtualDiskSize self.virtualDiskSize ≤ im.fmt.infoGrainSizeBytes

instance (self : VmdkChainReader) : Decidable self.GrainsFit := List.decidableBAll _ _

omit [ZlibDecoder] in
/-- A grain begins at a multiple of the grain size. -/
theorem dvd_of_begins {im : Image} {p : Nat} (him : im.Shaped) (hno : im.owns p = some false)
    (hyes : im.owns (p + 1) = some true) :
    p + 1 < im.virtualDiskSize ∧ 0 < im.fmt.infoGrainSizeBytes ∧ im.fmt.infoGrainSizeBytes ∣ p + 1 := by
  rw [Image.owns_eq_some] at hno hyes
  have hin : p + 1 < im.virtualDiskSize := by
    by_contra hend
    unfold Image.isAllocated at hyes
    rw [if_pos (Nat.div_le_div_right (Nat.not_lt.mp hend))] at hyes
    cases hyes
  have hends : im.stretch p ≤ 1 := by
    by_contra hon
    have hsame := him.isAllocated_stretch (Nat.not_le.mp hon) hin
    rw [hno, hyes] at hsame
    cases hsame
  refine ⟨hin, ?_⟩
  unfold Image.stretch at hends
  unfold FormatState.infoGrainSizeBytes
  cases hf : im.fmt with
  | flat inner =>
    obtain ⟨k, hk⟩ := him.size_dvd
    unfold Image.isAllocated at hno
    rw [hf, if_neg (by unfold sectorSize at *; omega)] at hno
    cases hno
  | sparse inner geom =>
    rw [hf] at hends
    exact ⟨geom.grainSizeBytes_pos, Blocks.dvd_succ_of_rest_le geom.grainSizeBytes_pos hends⟩
  | seSparse inner geom =>
    rw [hf] at hends
    exact ⟨geom.grainSizeBytes_pos, Blocks.dvd_succ_of_rest_le geom.grainSizeBytes_pos hends⟩

omit [ZlibDecoder] in
/-- **Grains that are whole numbers of the smallest hide nothing.** -/
theorem nothingHidden_of_fit {c : VmdkChainReader} (him : ∀ im ∈ c.images, im.Shaped)
    (hfit : c.GrainsFit) : c.NothingHidden := by
  rintro p ⟨hinside, hunclamped, ⟨im, hmem, hyes⟩, -⟩
  have himages : im ∈ c.images := List.takeWhile_subset _ hmem
  have hno : im.owns p = some false := by simpa using List.mem_takeWhile_imp hmem
  obtain ⟨hin, hpos, hdvd⟩ := dvd_of_begins (him im himages) hno hyes
  rcases hfit im himages with hclamp | hsmall
  · exact hunclamped (hclamp.trans hdvd)
  · have hle := Nat.le_of_dvd (Nat.succ_pos p) hdvd
    omega

omit [ZlibDecoder] in
/-- What a layer above the owner of a place hides, it begins to hide somewhere before. -/
theorem hiddenStart_of_shadowed {clamp size pos n i : Nat} (him : ∀ im ∈ ims, im.Shaped)
    (htotal : ∀ im ∈ ims, ∀ o, ∃ b, im.owns o = some b)
    (hspan : pos + n ≤ size) (hclamp : 0 < clamp → n ≤ clamp - pos % clamp) (hi : i < n)
    (hreach : ∀ im, Overlay.owner Image.owns pos ims = some im →
      i < im.stretch pos ∧ pos + i < im.virtualDiskSize)
    (hshadow : ∃ im ∈ Overlay.above Image.owns pos ims, im.owns (pos + i) = some true) :
    ∃ p, HiddenStart ims clamp size p := by
  classical
  -- the first place from `pos` on where a layer above the owner of `pos` is allocated
  have hex : ∃ j, ∃ im ∈ Overlay.above Image.owns pos ims, im.owns (pos + j) = some true :=
    ⟨i, hshadow⟩
  obtain ⟨im, hmem, hyes⟩ := Nat.find_spec hex
  generalize hj : Nat.find hex = j at hyes
  have hji : j ≤ i := hj ▸ Nat.find_min' hex hshadow
  have hbefore : ∀ k < j, ∀ l ∈ Overlay.above Image.owns pos ims, l.owns (pos + k) = some false := by
    intro k hk l hl
    obtain ⟨b, hb⟩ := htotal l (List.takeWhile_subset _ hl) (pos + k)
    cases b with
    | false => exact hb
    | true => exact absurd ⟨l, hl, hb⟩ (Nat.find_min hex (hj ▸ hk))
  have hno : im.owns pos = some false := by simpa using List.mem_takeWhile_imp hmem
  obtain ⟨k, rfl⟩ : ∃ k, j = k + 1 := by
    refine Nat.exists_eq_succ_of_ne_zero fun h0 => ?_
    rw [h0, Nat.add_zero, hno] at hyes
    cases hyes
  have hsame : Overlay.above Image.owns (pos + k) ims = Overlay.above Image.owns pos ims ∧
      Overlay.owner Image.owns (pos + k) ims = Overlay.owner Image.owns pos ims :=
    Overlay.same_decision (fun l hl => htotal l hl pos) (hbefore k (Nat.lt_succ_self k)) fun l hl => by
      obtain ⟨hstretch, hin⟩ := hreach l hl
      have hl' : l ∈ ims := List.mem_of_find?_eq_some hl
      have howns : l.owns pos = some true := by simpa using List.find?_some hl
      rw [Image.owns_eq_some] at howns ⊢
      rwa [(him l hl').isAllocated_stretch (by omega) (by omega)]
  refine ⟨pos + k, by omega, fun hdvd => ?_, ?_, ?_⟩
  · rcases Nat.eq_zero_or_pos clamp with rfl | hpos
    · have := Nat.eq_zero_of_zero_dvd hdvd
      omega
    · have hn := hclamp hpos
      have hmod : (pos + (k + 1)) % clamp = pos % clamp + (k + 1) := Blocks.mod_add hpos (by omega)
      have hzero := Nat.mod_eq_zero_of_dvd hdvd
      rw [Nat.add_assoc, hmod] at hzero
      omega
  · rw [hsame.1]
    exact ⟨im, hmem, hyes⟩
  · rw [hsame.2]
    intro l hl
    obtain ⟨hstretch, hin⟩ := hreach l hl
    have hrest := (him l (List.mem_of_find?_eq_some hl)).stretch_add (show k < l.stretch pos by omega)
    omega

omit [ZlibDecoder] in
/-- One read asks for nothing behind the end of the disk, nor over a multiple of the clamp. -/
theorem span_le (self : VmdkChainReader) (len : Nat) :
    self.span len ≤ self.virtualDiskSize - self.pos ∧
      (0 < self.clampBytes → self.span len ≤ self.clampBytes - self.pos % self.clampBytes) := by
  unfold span
  simp only
  split <;> omega

/-- **One step** of a chain in which nothing is hidden delivers the overlay. -/
theorem step_overlay {c₀ c : VmdkChainReader} (him : ∀ im ∈ ims, im.Shaped)
    (hread : ∀ im ∈ ims, im.ReadableIn false) (hsize : c₀.virtualDiskSize < u64Size)
    (hno : ∀ p, ¬ HiddenStart ims c₀.clampBytes c₀.virtualDiskSize p) (hc : ChainOf ims c₀ c)
    (q : Disk.Request Empty) : ReadsOverlay c q ∧ ChainOf ims c₀ (c.step q).2 := by
  refine ⟨?_, step_chainOf hc hsize q⟩
  cases q with
  | seek f => trivial
  | query q => cases q
  | read len =>
    intro bs hbs
    rw [hc.images]
    rw [(read_spec hc hsize len).1] at hbs
    split at hbs
    · cases hbs
      exact overlays_nil
    · next hend =>
      have htotal : ∀ im ∈ ims, ∀ o, ∃ b, im.owns o = some b :=
        fun im hmem => (hread im hmem).owns_total
      obtain ⟨hin, hclamp⟩ := span_le c len
      rw [hc.size, not_or, Nat.not_le] at hend
      rw [hc.size] at hin
      rw [hc.clamp] at hclamp
      refine read_overlay him hread (fun i hi hreach im hmem => ?_) hbs
      obtain ⟨b, hb⟩ := htotal im (List.takeWhile_subset _ hmem) (c.pos + i)
      cases b with
      | false => exact hb
      | true =>
        have hspan : c.pos + c.span len ≤ c₀.virtualDiskSize := by omega
        obtain ⟨p, hp⟩ := hiddenStart_of_shadowed him htotal hspan hclamp hi hreach ⟨im, hmem, hb⟩
        exact absurd hp (hno p)

/-- A read that its serving layer reaches the end of delivers all that is asked for. -/
theorem readImages_reaches {n : Nat} (htotal : ∀ im ∈ ims, ∃ b, im.owns pos = some b)
    (hon : ∀ im ∈ ims, im.ReadsOn) (hpos : pos < 2 ^ 63) (hn : 0 < n)
    (hreach : ∀ im, Overlay.owner Image.owns pos ims = some im →
      n ≤ im.stretch pos ∧ pos + n ≤ im.virtualDiskSize) :
    ∃ bs, readImages pos n ims = .ok bs ∧ bs.length = n := by
  induction ims with
  | nil => exact ⟨_, rfl, List.length_replicate⟩
  | cons im ims ih =>
    obtain ⟨b, hb⟩ := htotal im List.mem_cons_self
    have hal : im.isAllocated (pos / 512) = .ok b := Image.owns_eq_some.mp hb
    unfold readImages
    rw [hal]
    cases b with
    | false =>
      rw [owner_cons_of_false hb] at hreach
      exact ih (fun l hl => htotal l (List.mem_cons_of_mem _ hl))
        (fun l hl => hon l (List.mem_cons_of_mem _ hl)) hreach
    | true =>
      obtain ⟨hstretch, hin⟩ := hreach im (owner_cons_of_true hb)
      obtain ⟨bs, hread, hlen⟩ := hon im List.mem_cons_self pos (by omega) n
      exact ⟨bs, (if_pos hpos).trans hread, by omega⟩

/-- A read over a hidden start delivers what the layer below has there. -/
theorem not_readsOverlay_of_hidden {c : VmdkChainReader} (hc : ChainOf ims c c)
    (htotal : ∀ im ∈ ims, ∀ o, ∃ b, im.owns o = some b) (hon : ∀ im ∈ ims, im.ReadsOn)
    (hsize : c.virtualDiskSize ≤ 2 ^ 63) (hp : HiddenStart ims c.clampBytes c.virtualDiskSize pos) :
    ¬ Machine.Steps step ReadsOverlay c [.seek (.start (UInt64.ofNat pos)), .read 2] := by
  rintro ⟨-, hoverlays, -⟩
  obtain ⟨hinside, hunclamped, ⟨im, hmem, hyes⟩, hspanned⟩ := hp
  have hpos : pos < 2 ^ 63 := by omega
  have hsought : (c.step (.seek (.start (UInt64.ofNat pos)))).2 = { c with pos := pos } := by
    show (c.seek (.start (UInt64.ofNat pos))).2 = _
    unfold seek
    rw [Cursor.seek_start_nat hpos]
  rw [hsought] at hoverlays
  have hc' : ChainOf ims c { c with pos := pos } := ⟨hc.layers, rfl, rfl⟩
  have hspan : ({ c with pos := pos } : VmdkChainReader).span 2 = 2 := by
    unfold span
    simp only
    split
    · next hclamp =>
      have := Blocks.two_le_rest hclamp hunclamped
      omega
    · omega
  obtain ⟨bs, hread, hlen⟩ := readImages_reaches (n := 2) (fun im hmem => htotal im hmem pos) hon
    hpos Nat.two_pos hspanned
  have hdelivered : (({ c with pos := pos } : VmdkChainReader).read 2).1 = .ok bs := by
    rw [(read_spec hc' (Nat.lt_of_le_of_lt hsize (by decide)) 2).1, if_neg (by simp only; omega),
      hspan, hread]
  have hnewest := (hoverlays bs hdelivered).newest 1 (by omega) im (by rwa [hc'.images])
  rw [hyes] at hnewest
  cases hnewest

/-- When the chain over `layers` delivers their overlay. -/
structure OverlayExact (layers : List VmdkReader) : Prop where
  enough : (ofLayers layers).NothingHidden →
    ∀ reqs, Machine.Steps step ReadsOverlay (ofLayers layers) reqs
  needed : (∀ r ∈ layers, r.toImage.ReadsOn) →
    (∀ reqs, Machine.Steps step ReadsOverlay (ofLayers layers) reqs) → (ofLayers layers).NothingHidden
  grains : (ofLayers layers).GrainsFit → (ofLayers layers).NothingHidden

/-- **Every read of a chain delivers the overlay of its layers** where no grain of a newer layer begins
inside what is read from an older one, and only there; none does where the grains of every layer
are whole numbers of the smallest. -/
theorem overlay_exact {layers : List VmdkReader} (hopen : ∀ r ∈ layers, ∃ fs origin path,
      (VmdkReader.openPath fs origin path).result = .ok r)
    (hread : ∀ r ∈ layers, r.toImage.ReadableIn false) : OverlayExact layers := by
  obtain ⟨ims, rfl, him⟩ := opened_layers hopen
  have hread' : ∀ im ∈ ims, im.ReadableIn false := fun im hmem =>
    hread im.reader (List.mem_map_of_mem hmem)
  have hchain := chainOf_ofLayers ims
  have hsize : (ofLayers (ims.map Image.reader)).virtualDiskSize ≤ 2 ^ 63 := by
    cases ims with
    | nil => exact Nat.zero_le _
    | cons im ims => exact (hread' im List.mem_cons_self).size_le (him im List.mem_cons_self)
  constructor
  · intro hno reqs
    unfold NothingHidden at hno
    rw [hchain.images] at hno
    have hstep (c : VmdkChainReader) (q : Disk.Request Empty)
        (hc : ChainOf ims (ofLayers (ims.map Image.reader)) c) (_ : True) :
        ReadsOverlay c q ∧ ChainOf ims (ofLayers (ims.map Image.reader)) (c.step q).2 :=
      step_overlay him hread' (Nat.lt_of_le_of_lt hsize (by decide)) hno hc q
    exact Machine.steps_of_inv hstep hchain (Machine.steps_true _ _ _)
  · intro hon hsteps p hp
    rw [hchain.images] at hp
    exact not_readsOverlay_of_hidden hchain (fun im hmem => (hread' im hmem).owns_total)
      (fun im hmem => hon im.reader (List.mem_map_of_mem hmem)) hsize hp (hsteps _)
  · exact nothingHidden_of_fit (by rwa [hchain.images])

end

/-! ## Grains of 12 sectors over grains of 8 -/

def shadowText : Text := "#\nparentCID=1\nparentFileNameHint=\"b\"\n".toList

theorem shadowGrain_ge : 8 ≤ 12 := by decide

theorem shadowGrain_le : 12 ≤ Header.maxGrainSizeSectors := by decide

/-- A delta of 13 sectors, of which the last one lies in an allocated grain of sevens. -/
def shadowDeltaBytes : List UInt8 :=
  { SparseExtentHeader.plain 13 0 2 with
    grainSize := 12, grainSize_ge := shadowGrain_ge, grainSize_le := shadowGrain_le,
    descriptorOffset := 1, descriptorSize := 1 }.toBytes ++
      padTo 512 (VmdkReader.textBytes shadowText) ++ tableSector [3] ++ tableSector [0, 4] ++
      padTo 512 [7]

theorem length_shadowDeltaBytes : shadowDeltaBytes.length = 2560 := by
  have htext : (VmdkReader.textBytes shadowText).length ≤ 512 := by decide
  simp [shadowDeltaBytes, tableSector, recordWidth, sectorSize, htext]

def shadowDelta : Source :=
  .ofBytes shadowDeltaBytes (by rw [length_shadowDeltaBytes]; decide)

/-- Its base of 16 sectors, in which nothing is allocated. -/
def shadowBase : Source :=
  .ofBytes ((SparseExtentHeader.plain 16 0 1).toBytes ++ tableSector [2] ++ tableSector [0])
    (by simp [tableSector, recordWidth, sectorSize])

/-- A delta, `d`, and its base, `b`. -/
def deltaFiles (delta base : Source) : FileSystem := .ofNames fun names =>
  if names = [.normal ['b']] then .ok base
  else if names = [.normal ['d']] then .ok delta
  else .error ⟨.notFound, "No such file or directory (os error 2)"⟩

theorem deltaFiles_delta (delta base : Source) : deltaFiles delta base ['d'] = .ok delta := by
  have hname : FilePath.HasFileName ['d'] ∧ FilePath.names ['d'] = [.normal ['d']] := by
    decide
  exact FileSystem.ofNames_eq hname

theorem deltaFiles_base (delta base : Source) : deltaFiles delta base ['b'] = .ok base := by
  have hname : FilePath.HasFileName ['b'] ∧ FilePath.names ['b'] = [.normal ['b']] := by
    decide
  exact FileSystem.ofNames_eq hname

/-- A delta is opened with the base that it names. -/
theorem open_two {fs : FileSystem} {path path' : FilePath} {a b : VmdkReader}
    (ha : (VmdkReader.openPath fs .caller path).result = .ok a) (hdelta : ¬ a.EndsChain)
    (hnext : resolveExtentPath (VmdkReader.directoryOf path) a.parentHint = .ok path')
    (hb : (VmdkReader.openPath fs .caller path').result = .ok b) (hbase : b.EndsChain) :
    (VmdkChainReader.open fs path).result = .ok (ofLayers [a, b]) :=
  (Descends.delta ha hdelta hnext (.base hb hbase)).open (show 2 ≤ maxChainDepth by decide)

theorem resolve_base {a : VmdkReader} (h : a.parentHint = ['b']) :
    resolveExtentPath (VmdkReader.directoryOf ['d']) a.parentHint = .ok ['b'] := by
  rw [h]
  decide

/-- A chain of the delta and a base. -/
theorem shadowDelta_chain {base : Source} {b : VmdkReader} (hb : VmdkReader.open base = .ok b)
    (hbase : b.EndsChain) :
    ∃ a, (VmdkChainReader.open (deltaFiles shadowDelta base) ['d']).result = .ok (ofLayers [a, b]) ∧
      VmdkReader.open shadowDelta = .ok a ∧
      ∀ r ∈ [a, b], ∃ path,
        (VmdkReader.openPath (deltaFiles shadowDelta base) .caller path).result = .ok r := by
  have hendA : (VmdkReader.open shadowDelta).map (fun r => (decide r.EndsChain, r.parentHint)) =
      .ok (false, ['b']) := by decide +kernel
  obtain ⟨a, ha, hendA⟩ := exists_of_map_eq hendA
  obtain ⟨hend, hhint⟩ := Prod.mk.inj hendA
  have hopenA : (VmdkReader.openPath (deltaFiles shadowDelta base) .caller ['d']).result = .ok a :=
    VmdkReader.openPath_binary (deltaFiles_delta _ _) ha
  have hopenB : (VmdkReader.openPath (deltaFiles shadowDelta base) .caller ['b']).result = .ok b :=
    VmdkReader.openPath_binary (deltaFiles_base _ _) hb
  refine ⟨a, open_two hopenA (of_decide_eq_false hend) (resolve_base hhint) hopenB hbase, ha, ?_⟩
  exact List.forall_mem_cons.mpr ⟨⟨_, hopenA⟩, List.forall_mem_singleton.mpr ⟨_, hopenB⟩⟩

def shadowFiles : FileSystem := deltaFiles shadowDelta shadowBase

theorem shadowDelta_readable [ZlibDecoder] {r : VmdkReader}
    (hopen : VmdkReader.open shadowDelta = .ok r) : r.toImage.ReadableIn false := by
  obtain ⟨geom, hview⟩ := open_vmdk4View (by decide +kernel) hopen
  exact hview.delivers_of_whole (by decide +kernel)

theorem shadowBase_readable [ZlibDecoder] {r : VmdkReader}
    (hopen : VmdkReader.open shadowBase = .ok r) : r.toImage.ReadableIn false := by
  obtain ⟨geom, hview⟩ := open_vmdk4View (by decide +kernel) hopen
  exact hview.delivers_of_whole (by decide +kernel)

/-- The chain of the two: its layers. -/
theorem shadowFiles_open : ∃ a b,
    (VmdkChainReader.open shadowFiles ['d']).result = .ok (ofLayers [a, b]) ∧
      VmdkReader.open shadowDelta = .ok a ∧ VmdkReader.open shadowBase = .ok b := by
  have hend : (VmdkReader.open shadowBase).map (fun r => decide r.EndsChain) = .ok true := by
    decide +kernel
  obtain ⟨b, hb, hend⟩ := exists_of_map_eq hend
  obtain ⟨a, hopen, ha, -⟩ := shadowDelta_chain hb (of_decide_eq_true hend)
  exact ⟨a, b, hopen, ha, hb⟩

/-- **A read in the base goes over an allocated grain of the delta**: it delivers a zero where the
delta has a seven. -/
theorem overlay_misses_shadowFiles : let _ := Stored.decoder
    ∃ chain, (VmdkChainReader.open shadowFiles ['d']).result = .ok chain ∧
      (∀ r ∈ chain.layers, r.toImage.ReadableIn false) ∧
      overlayByte chain.images 6144 = some 7 ∧
      (∃ bs, ((chain.seek (.start 4096)).2.read 4096).1 = .ok bs ∧ bs[2048]? = some 0) ∧
      ¬ Machine.Steps step ReadsOverlay chain [.seek (.start 4096), .read 4096] := by
  intro _
  obtain ⟨a, b, hopen, ha, hb⟩ := shadowFiles_open
  have hrun : (VmdkReader.open shadowDelta >>= fun a => (VmdkReader.open shadowBase).map fun b =>
      (overlayByte (ofLayers [a, b]).images 6144,
        ((ofLayers [a, b]).seek (.start 4096)).2.pos,
        overlayByte ((ofLayers [a, b]).seek (.start 4096)).2.images 6144,
        (((ofLayers [a, b]).seek (.start 4096)).2.read 4096).1.map (fun bs => bs[2048]?))) =
      .ok (some 7, 4096, some 7, .ok (some 0)) := by
    decide +kernel
  rw [ha, hb] at hrun
  obtain ⟨hover, hrun⟩ := Prod.mk.inj (Except.ok.inj hrun)
  obtain ⟨hpos, hrun⟩ := Prod.mk.inj hrun
  obtain ⟨hsought, hread⟩ := Prod.mk.inj hrun
  cases hbs : (((ofLayers [a, b]).seek (.start 4096)).2.read 4096).1 with
  | error e =>
    rw [hbs] at hread
    cases hread
  | ok bs =>
    rw [hbs] at hread
    have hzero : bs[2048]? = some 0 := Except.ok.inj hread
    refine ⟨_, hopen, ?_, hover, ⟨bs, hbs, hzero⟩, ?_⟩
    · exact List.forall_mem_cons.mpr
        ⟨shadowDelta_readable ha, List.forall_mem_singleton.mpr (shadowBase_readable hb)⟩
    · rintro ⟨-, hoverlays, -⟩
      have hbyte := (hoverlays bs hbs).bytes 2048 0 hzero
      have hseven : overlayByte ((ofLayers [a, b]).seek (.start 4096)).2.images
          (((ofLayers [a, b]).seek (.start 4096)).2.pos + 2048) = some 7 := by
        rw [hpos]
        exact hsought
      have hsame : some (0 : UInt8) = some 7 := hbyte.symm.trans hseven
      exact absurd hsame (by decide)

theorem fitGrain_ge : 8 ≤ 24 := by decide

theorem fitGrain_le : 24 ≤ Header.maxGrainSizeSectors := by decide

/-- A base of 13 sectors that lie in one allocated grain of 24. -/
def fitBaseBytes : List UInt8 :=
  { SparseExtentHeader.plain 13 0 1 with
    grainSize := 24, grainSize_ge := fitGrain_ge, grainSize_le := fitGrain_le }.toBytes ++
      tableSector [2] ++ tableSector [3] ++ padTo 6656 [5]

theorem length_fitBaseBytes : fitBaseBytes.length = 8192 := by
  simp [fitBaseBytes, tableSector, recordWidth, sectorSize]

def fitBase : Source := .ofBytes fitBaseBytes (by rw [length_fitBaseBytes]; decide)

theorem fitBase_readable [ZlibDecoder] {r : VmdkReader} (hopen : VmdkReader.open fitBase = .ok r) :
    r.toImage.ReadableIn false := by
  obtain ⟨geom, hview⟩ := open_vmdk4View (by decide +kernel) hopen
  exact hview.delivers_of_whole (by decide +kernel)

/-- Over a base with grains of 24 sectors every read of the delta delivers the overlay. -/
theorem overlay_exact_fitBase : let _ := Stored.decoder
    ∃ chain, (VmdkChainReader.open (deltaFiles shadowDelta fitBase) ['d']).result = .ok chain ∧
      ∀ reqs, Machine.Steps step ReadsOverlay chain reqs := by
  intro _
  have hend : (VmdkReader.open fitBase).map (fun r => decide r.EndsChain) = .ok true := by
    decide +kernel
  obtain ⟨b, hb, hend⟩ := exists_of_map_eq hend
  obtain ⟨a, hopen, ha, hopens⟩ := shadowDelta_chain hb (of_decide_eq_true hend)
  have hfit : (VmdkReader.open shadowDelta >>= fun a => (VmdkReader.open fitBase).map fun b =>
      decide (ofLayers [a, b]).GrainsFit) = .ok true := by
    decide +kernel
  rw [ha, hb] at hfit
  have hreads : ∀ r ∈ [a, b], r.toImage.ReadableIn false := List.forall_mem_cons.mpr
    ⟨shadowDelta_readable ha, List.forall_mem_singleton.mpr (fitBase_readable hb)⟩
  obtain ⟨henough, -, hgrains⟩ := overlay_exact (fun r hr => ⟨_, _, hopens r hr⟩) hreads
  exact ⟨_, hopen, henough (hgrains (of_decide_eq_true (Except.ok.inj hfit)))⟩

end VmdkChainReader
