import Vmdk.ReadSound

/-! # What `open` accepts

Each opener is inverted once: what it read, what it checked, and the image it
made of it. Together they say that `open` loads the index the file's layout
describes (`open_loads`). -/

open Bytes Word

/-! ## `open` loads the index the layout describes -/

/-- `im` is the image of the extent in `file`. -/
structure ImageOf (file : Source) (im : Image) : Prop where
  size : im.virtualDiskSize = (layoutOf file.bytes).capacity * sectorSize
  size_lt : im.virtualDiskSize < 2 ^ 63
  index : match layoutOf file.bytes with
    | .tables L => ∃ geom, im.fmt = .sparse file geom ∧ L.Loaded file.bytes geom
    | .seSparse L =>
      ∃ geom, im.fmt = .seSparse file geom ∧ geom.grainSizeBytes = 4096 ∧
        (L.gdByte < u64Size → L.Loaded file.bytes geom)

section Open
variable {file : Source}

/-- A field of a header is the number at its place in the file. -/
theorem header_field {hdrBytes : List UInt8} (h : file.readExactAt 0 512 = .ok hdrBytes)
    {w off : Nat} (hw : off + w ≤ 512) : leNat (slice hdrBytes off w) = numAt w file.bytes off := by
  rw [(Source.readExactAt_ok h).1, slice_slice _ _ _ _ _ hw, Nat.zero_add]
  rfl

/-- An entry of a directory that was read whole is the one in the file. -/
theorem directory_getD {w off cap gs ng tables o : Nat} {buf : List UInt8} (hw : 0 < w)
    (hgs : 0 < gs) (hng : 0 < ng) (htables : divCeil (divCeil cap gs) ng ≤ tables)
    (h : file.readExactAt off (tables * w) = .ok buf) (ho : o < cap * sectorSize) :
    (leTable w buf).getD (o / (gs * sectorSize) / ng) 0 =
      numAt w file.bytes (off + o / (gs * sectorSize) / ng * w) := by
  have hidx : o / (gs * sectorSize) / ng < tables :=
    Nat.lt_of_lt_of_le (table_lt_divCeil hgs hng (by decide) ho) htables
  have hpos : 0 < tables * w := Nat.mul_pos (Nat.zero_lt_of_lt hidx) hw
  rw [(Source.readExactAt_ok h).1,
    getD_leTable_slice hw (Source.readExactAt_ok_le hpos h) hidx]
  rfl

theorem openCowdExtent_ok {hdrBytes : List UInt8} {r : VmdkReader}
    (hread : file.readExactAt 0 512 = .ok hdrBytes)
    (h : VmdkReader.openCowdExtent file hdrBytes = .ok r) :
    ∃ (im : Image) (geom : SparseFormat), r = im.reader ∧ im.fmt = .sparse file geom ∧
      im.rgdOffset = 0 ∧ im.virtualDiskSize = (cowdLayout file.bytes).capacity * sectorSize ∧
      im.virtualDiskSize < 2 ^ 63 ∧ (cowdLayout file.bytes).Loaded file.bytes geom := by
  unfold VmdkReader.openCowdExtent openCowd at h
  simp only [bind_eq_ok, fromIo_eq_ok, hread, Except.ok.injEq] at h
  obtain ⟨geom, ⟨_, rfl, hdr, hparse, _, _, buf, hgd, hgeom⟩, hdr', hparse', _, _, h⟩ := h
  rw [hparse] at hparse'
  cases hparse'
  cases hgeom
  cases h
  obtain ⟨hcap, hgs⟩ := CowdHeader.parse_ok hparse
  rw [header_field hread (by decide)] at hcap hgs
  refine ⟨_, _, rfl, rfl, rfl, congrArg (· * sectorSize) hcap, ?_, ?_⟩
  · have := hdr.capacity_lt
    change hdr.capacity * sectorSize < _
    unfold sectorSize
    omega
  · refine ⟨congrArg (· * sectorSize) hgs, rfl, rfl, fun o ho => ?_⟩
    change o < numAt 4 file.bytes 12 * sectorSize at ho
    rw [← hcap] at ho
    unfold TableLayout.table TableLayout.grainBytes cowdLayout
    rw [← hgs]
    exact directory_getD (by decide) hdr.grainSize_pos (show 0 < 4096 by decide) (Nat.le_refl _)
      hgd ho

theorem openSesparseExtent_ok {hdrBytes : List UInt8} {r : VmdkReader}
    (hread : file.readExactAt 0 512 = .ok hdrBytes)
    (h : VmdkReader.openSesparseExtent file hdrBytes = .ok r) :
    ∃ (im : Image) (geom : SeSparseFormat), r = im.reader ∧ im.fmt = .seSparse file geom ∧
      im.virtualDiskSize = (seLayout file.bytes).capacity * sectorSize ∧
      im.virtualDiskSize < 2 ^ 63 ∧ geom.grainSizeBytes = 4096 ∧
      ((seLayout file.bytes).gdByte < u64Size → (seLayout file.bytes).Loaded file.bytes geom) := by
  unfold VmdkReader.openSesparseExtent openSesparse at h
  simp only [bind_eq_ok, fromIo_eq_ok, hread, Except.ok.injEq] at h
  obtain ⟨geom, ⟨_, rfl, hdr, hparse, hmax, _, buf, hgd, hgeom⟩, hdr', hparse', _, _, h⟩ := h
  rw [hparse] at hparse'
  cases hparse'
  cases hgeom
  cases h
  have hfields := SeConstHeader.parse_ok hparse
  have hcap := hfields.capacity.trans (header_field hread (by decide))
  have hgdo := hfields.gdOffset.trans (header_field hread (by decide))
  have hgto := hfields.gtOffset.trans (header_field hread (by decide))
  have hgro := hfields.grainsOffset.trans (header_field hread (by decide))
  have hmax := hmax.down
  rw [hdr.grainSize_eq] at hmax hgd
  refine ⟨_, _, rfl, rfl, congrArg (· * sectorSize) hcap, ?_,
    congrArg (· * sectorSize) hdr.grainSize_eq, fun hfit => ?_⟩
  · have hcount : divCeil (divCeil hdr.capacity SeSparse.grainSectors) SeSparse.gtesPerGt ≤
        2 ^ 21 := by
      unfold SeSparse.maxGd at hmax
      omega
    have hle := le_of_tables (by decide) (by decide) hcount
    change hdr.capacity * sectorSize < _
    unfold SeSparse.gtesPerGt SeSparse.grainSectors at hle
    unfold sectorSize
    omega
  · refine ⟨congrArg (· * sectorSize) hdr.grainSize_eq, hgto, hgro, fun o ho => ?_⟩
    change o < numAt 8 file.bytes 16 * sectorSize at ho
    rw [← hcap] at ho
    have hgd' : file.readExactAt (hdr.gdOffset * sectorSize)
        (max (divCeil (divCeil hdr.capacity SeSparse.grainSectors) SeSparse.gtesPerGt) 1 * 8) =
        .ok buf := by
      rw [← wrapMul_eq (by rw [hgdo]; exact hfit)]
      exact hgd
    rw [hgdo] at hgd'
    exact directory_getD (by decide) (by decide) (by decide) (Nat.le_max_left _ _) hgd' ho

/-- The directory's sector is where the header or the footer says. -/
theorem footerGdOffset_ok {hdrBytes : List UInt8} {hdr : SparseExtentHeader} {gdOffset : Nat}
    (hread : file.readExactAt 0 512 = .ok hdrBytes) (hparse : SparseExtentHeader.parse hdrBytes = .ok hdr)
    (h : VmdkReader.footerGdOffset file hdr = .ok gdOffset) :
    gdOffset * sectorSize = (vmdk4Layout file.bytes).gdByte := by
  have hgdo := (SparseExtentHeader.parse_ok hparse).gdOffset.trans
    (header_field hread (by decide))
  unfold VmdkReader.footerGdOffset at h
  unfold vmdk4Layout
  rw [hgdo] at h
  split at h
  · next hend =>
    simp only [bind_eq_ok, fromIo_eq_ok] at h
    obtain ⟨footer, hfooter, footerBytes, hfread, footerHdr, hfparse, h⟩ := h
    cases h
    unfold Source.seekEnd at hfooter
    split at hfooter
    case isFalse => cases hfooter
    have hpos := Except.ok.inj hfooter
    subst hpos
    have hfgdo := (SparseExtentHeader.parse_ok hfparse).gdOffset
    rw [(Source.readExactAt_ok hfread).1, slice_slice _ _ _ _ _ (by decide)] at hfgdo
    rw [if_pos hend, hfgdo]
    unfold numAt Source.len
    rfl
  · next hend =>
    cases h
    rw [if_neg hend]

/-- What `open` reads of a VMDK4 file it accepts, and the bounds it checks. -/
structure Vmdk4Parts (file : Source) (hdr : SparseExtentHeader) (desc : TextDescriptor)
    (gdOffset : Nat) (gdBytes : List UInt8) : Prop where
  grainSize : hdr.grainSize * sectorSize < u64Size
  capacity : hdr.capacity * sectorSize < u64Size
  descriptor : VmdkReader.readDescriptor file hdr = .ok desc
  grains : hdr.capacity + (hdr.grainSize - 1) < u64Size
  tables : (hdr.capacity + (hdr.grainSize - 1)) / hdr.grainSize + (hdr.numGtesPerGt - 1) < u64Size
  gdLen : VmdkReader.numGts hdr * 4 < u64Size
  gdLen_le : VmdkReader.numGts hdr * 4 ≤ VmdkReader.maxGdBytes
  directoryAt : VmdkReader.footerGdOffset file hdr = .ok gdOffset
  gdStart : gdOffset * sectorSize < u64Size
  gdRead : file.readExactAt (gdOffset * sectorSize) (VmdkReader.numGts hdr * 4) = .ok gdBytes

/-- The VMDK4 part of `open` succeeds exactly with these parts. -/
theorem openVmdk4_eq_ok {hdrBytes : List UInt8} {r : VmdkReader} :
    VmdkReader.openVmdk4 file hdrBytes = .ok r ↔
      ∃ hdr desc gdOffset gdBytes, SparseExtentHeader.parse hdrBytes = .ok hdr ∧
        Vmdk4Parts file hdr desc gdOffset gdBytes ∧
        r = (VmdkReader.vmdk4Image file hdr desc gdBytes).reader := by
  unfold VmdkReader.openVmdk4
  simp only [bind_eq_ok, fromIo_eq_ok]
  constructor
  · rintro ⟨hdr, hparse, h1, -, h2, -, desc, hdesc, h3, -, h4, -, h5, -, h6, -, gdOffset, hgdo, h7,
      -, gdBytes, hgd, hr⟩
    exact ⟨hdr, desc, gdOffset, gdBytes, hparse,
      ⟨h1.down, h2.down, hdesc, h3.down, h4.down, h5.down, h6.down, hgdo, h7.down, hgd⟩,
      (Except.ok.inj hr).symm⟩
  · rintro ⟨hdr, desc, gdOffset, gdBytes, hparse, hp, rfl⟩
    exact ⟨hdr, hparse, ⟨hp.grainSize⟩, ensure_of _, ⟨hp.capacity⟩, ensure_of _, desc, hp.descriptor,
      ⟨hp.grains⟩, ensure_of _, ⟨hp.tables⟩, ensure_of _, ⟨hp.gdLen⟩, ensure_of _,
      ⟨hp.gdLen_le⟩, ensure_of _, gdOffset, hp.directoryAt, ⟨hp.gdStart⟩, ensure_of _, gdBytes,
      hp.gdRead, rfl⟩

theorem numGts_eq (hdr : SparseExtentHeader) :
    VmdkReader.numGts hdr = divCeil (divCeil hdr.capacity hdr.grainSize) hdr.numGtesPerGt := by
  have hgpos : 0 < hdr.grainSize := Nat.lt_of_lt_of_le (by decide) hdr.grainSize_ge
  unfold VmdkReader.numGts
  simp only [add_sub_one_div hgpos, add_sub_one_div hdr.numGtesPerGt_pos]

/-- The tables of a VMDK4 image that `open` accepts hold less than `2 ^ 57` bytes. -/
theorem capacity_le_of_tables {hdr : SparseExtentHeader}
    (h : VmdkReader.numGts hdr * 4 ≤ VmdkReader.maxGdBytes) :
    hdr.capacity * sectorSize < 2 ^ 57 := by
  have hgpos : 0 < hdr.grainSize := Nat.lt_of_lt_of_le (by decide) hdr.grainSize_ge
  have hcount : divCeil (divCeil hdr.capacity hdr.grainSize) hdr.numGtesPerGt ≤ 2 ^ 22 := by
    rw [← numGts_eq]
    unfold VmdkReader.maxGdBytes at h
    omega
  have hle := le_of_tables hgpos hdr.numGtesPerGt_pos hcount
  have hbound : 2 ^ 22 * hdr.numGtesPerGt * hdr.grainSize ≤
      2 ^ 22 * Header.maxNumGtesPerGt * Header.maxGrainSizeSectors :=
    Nat.mul_le_mul (Nat.mul_le_mul_left _ hdr.numGtesPerGt_le) hdr.grainSize_le
  unfold Header.maxNumGtesPerGt Header.maxGrainSizeSectors at hbound
  unfold sectorSize
  omega

theorem vmdk4Image_loaded {hdrBytes : List UInt8} {hdr : SparseExtentHeader}
    {desc : TextDescriptor} {gdOffset : Nat} {gdBytes : List UInt8}
    (hread : file.readExactAt 0 512 = .ok hdrBytes)
    (hparse : SparseExtentHeader.parse hdrBytes = .ok hdr)
    (hp : Vmdk4Parts file hdr desc gdOffset gdBytes) :
    hdr.capacity = (vmdk4Layout file.bytes).capacity ∧
      (vmdk4Layout file.bytes).Loaded file.bytes (VmdkReader.vmdk4Format hdr gdBytes) := by
  have hfields := SparseExtentHeader.parse_ok hparse
  have hcap := hfields.capacity.trans (header_field hread (by decide))
  have hgs := hfields.grainSize.trans (header_field hread (by decide))
  have hng := hfields.numGtesPerGt.trans (header_field hread (by decide))
  have hgpos : 0 < hdr.grainSize := Nat.lt_of_lt_of_le (by decide) hdr.grainSize_ge
  refine ⟨hcap, congrArg (· * sectorSize) hgs, hng, ?_, fun o ho => ?_⟩
  · have halg : leNat (slice hdrBytes 77 2) = numAt 2 file.bytes 77 :=
      header_field hread (by decide)
    exact hfields.compressed.trans (by rw [halg]; rfl)
  · change o < numAt 8 file.bytes 12 * sectorSize at ho
    rw [← hcap] at ho
    unfold TableLayout.table TableLayout.grainBytes
    rw [← footerGdOffset_ok hread hparse hp.directoryAt]
    unfold vmdk4Layout
    simp only [← hgs, ← hng]
    exact directory_getD (by decide) hgpos hdr.numGtesPerGt_pos (Nat.le_of_eq (numGts_eq hdr).symm)
      hp.gdRead ho

/-- The magic number selects the opener. -/
theorem open_cases {r : VmdkReader} (h : VmdkReader.open file = .ok r) :
    ∃ hdrBytes, file.readExactAt 0 512 = .ok hdrBytes ∧
      (beNat (slice file.bytes 0 4) = Cowd.magic ∧
          VmdkReader.openCowdExtent file hdrBytes = .ok r ∨
        beNat (slice file.bytes 0 4) ≠ Cowd.magic ∧
          (numAt 8 file.bytes 0 = SeSparse.constMagic ∧
              VmdkReader.openSesparseExtent file hdrBytes = .ok r ∨
            numAt 8 file.bytes 0 ≠ SeSparse.constMagic ∧
              VmdkReader.openVmdk4 file hdrBytes = .ok r)) := by
  unfold VmdkReader.open at h
  obtain ⟨hdrBytes, hread, h⟩ := bind_eq_ok.mp h
  rw [fromIo_eq_ok] at hread
  have hmagic : beNat (slice hdrBytes 0 4) = beNat (slice file.bytes 0 4) := by
    rw [(Source.readExactAt_ok hread).1, slice_slice _ _ _ _ _ (by decide)]
  have hseMagic : leNat (slice hdrBytes 0 8) = numAt 8 file.bytes 0 :=
    header_field hread (by decide)
  rw [hmagic, hseMagic] at h
  refine ⟨hdrBytes, hread, ?_⟩
  split at h
  · next hcowd => exact .inl ⟨hcowd, h⟩
  · next hcowd =>
    split at h
    · next hse => exact .inr ⟨hcowd, .inl ⟨hse, h⟩⟩
    · next hse => exact .inr ⟨hcowd, .inr ⟨hse, h⟩⟩

/-- No magic number begins with the byte that marks a text descriptor. -/
theorem open_firstByte {r : VmdkReader} (h : VmdkReader.open file = .ok r) :
    ∃ b, file.readExactAt 0 1 = .ok [b] ∧ b ≠ 35 := by
  obtain ⟨hdrBytes, hread, hcase⟩ := open_cases h
  have hlen := Source.readExactAt_ok_le (by decide) hread
  have hmagic : beNat (slice file.bytes 0 4) = Cowd.magic ∨
      leNat (slice file.bytes 0 8) = SeSparse.constMagic ∨
      leNat (slice file.bytes 0 4) = Header.magic := by
    rcases hcase with ⟨hcowd, -⟩ | ⟨-, ⟨hse, -⟩ | ⟨-, hvmdk4⟩⟩
    · exact .inl hcowd
    · exact .inr (.inl hse)
    · obtain ⟨hdr, -, -, -, hparse, -, -⟩ := openVmdk4_eq_ok.mp hvmdk4
      have hfour : leNat (slice hdrBytes 0 4) = numAt 4 file.bytes 0 := header_field hread (by decide)
      exact .inr (.inr (hfour.symm.trans (SparseExtentHeader.parse_magic hparse)))
  rw [Source.readExactAt_of_le (by omega)]
  match hbytes : file.bytes with
  | [] | [_] | [_, _] | [_, _, _] => rw [hbytes] at hlen; simp at hlen
  | a :: b :: c :: d :: rest =>
    refine ⟨a, by simp [slice], ?_⟩
    rintro rfl
    rw [hbytes] at hmagic
    have := b.toNat_lt
    have := c.toNat_lt
    have := d.toNat_lt
    simp only [slice, List.drop_zero, List.take_succ_cons, List.take_zero, leNat, beNat,
      List.reverse_cons, List.reverse_nil, List.nil_append, List.cons_append, Header.magic,
      Cowd.magic, SeSparse.constMagic] at hmagic
    have h35 : (35 : UInt8).toNat = 35 := rfl
    omega

/-- **`open` loads the index its file describes.** -/
theorem open_loads {r : VmdkReader} (h : VmdkReader.open file = .ok r) :
    ∃ im : Image, r = im.reader ∧ ImageOf file im := by
  obtain ⟨hdrBytes, hread, ⟨hcowd, h⟩ | ⟨hcowd, ⟨hse, h⟩ | ⟨hse, h⟩⟩⟩ := open_cases h
  · obtain ⟨im, geom, rfl, hfmt, -, hsize, hlt, hload⟩ := openCowdExtent_ok hread h
    refine ⟨im, rfl, ?_, hlt, ?_⟩
    · rw [layoutOf, if_pos hcowd]; exact hsize
    · rw [layoutOf, if_pos hcowd]; exact ⟨geom, hfmt, hload⟩
  · obtain ⟨im, geom, rfl, hfmt, hsize, hlt, hgrain, hload⟩ := openSesparseExtent_ok hread h
    refine ⟨im, rfl, ?_, hlt, ?_⟩
    · rw [layoutOf, if_neg hcowd, if_pos hse]; exact hsize
    · rw [layoutOf, if_neg hcowd, if_pos hse]; exact ⟨geom, hfmt, hgrain, hload⟩
  · obtain ⟨hdr, desc, gdOffset, gdBytes, hparse, hp, rfl⟩ := openVmdk4_eq_ok.mp h
    obtain ⟨hcap, hload⟩ := vmdk4Image_loaded hread hparse hp
    have hlt := capacity_le_of_tables hp.gdLen_le
    refine ⟨_, rfl, ?_, Nat.lt_trans hlt (by decide), ?_⟩
    · rw [layoutOf, if_neg hcowd, if_neg hse]; exact congrArg (· * sectorSize) hcap
    · rw [layoutOf, if_neg hcowd, if_neg hse]; exact ⟨_, rfl, hload⟩

end Open
