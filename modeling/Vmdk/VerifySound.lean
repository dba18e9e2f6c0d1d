import Vmdk.Verify
import Vmdk.IntegritySound
import Vmdk.Bytewise

/-! # What the verdict of `verify` is worth

Two questions about VMDK4 images. Does the integrity check alarm on an image
that reads well? Only where a grain need not be there whole to be read
(`VmdkReader.no_false_alarm`). Does the image read well in recovery mode when
`verify --recover` succeeds? Yes, if every pointer that verification does not
look at stays inside the file (`VmdkReader.verify_recover_sound`). -/

open Bytes Word

namespace Cli
variable {fs : FileSystem} {path : FilePath} {file : Source}

/-- A path to a VMDK4 file is opened as that file. -/
theorem openPath_vmdk4 (hfile : fs path = .ok file)
    (hmagic : numAt 4 file.bytes 0 = Header.magic) (origin : Origin) :
    (VmdkReader.openPath fs origin path).result = VmdkReader.open file := by
  have hlen : file.bytes ≠ [] := by
    intro hnil
    rw [hnil] at hmagic
    cases hmagic
  have hfirst : file.readExactAt 0 1 = .ok (slice file.bytes 0 1) :=
    Source.readExactAt_of_le (List.length_pos_iff.mpr hlen)
  have hbyte : slice file.bytes 0 1 ≠ [35] := by
    intro h35
    have hlow : numAt 4 file.bytes 0 % 256 = 35 := by
      unfold numAt slice at *
      cases hbytes : file.bytes with
      | nil => exact absurd hbytes hlen
      | cons a rest =>
        rw [hbytes] at h35
        have ha : a = 35 := (List.cons.inj h35).1
        rw [ha, List.drop_zero, List.take_succ_cons, leNat]
        exact Nat.add_mul_mod_self_left _ _ _
    rw [hmagic] at hlow
    cases hlow
  have hopened : ((Opens.openFile fs origin path).mapError VmdkError.io).result = .ok file := by
    change (fs path).mapError _ = _
    rw [hfile]
    rfl
  unfold VmdkReader.openPath
  rw [Opens.result_bind, hopened]
  change Opens.result _ = _
  rw [Opens.result_bind, Opens.result_lift, hfirst]
  change Opens.result _ = _
  rw [Opens.result_bind, hopened]
  change Opens.result (if slice file.bytes 0 1 = [35] then _ else _) = _
  rw [if_neg hbyte, Opens.result_lift]

/-- **The verdict** on a VMDK4 file that opens. -/
theorem cmdVerify_succeeds {r : VmdkReader} {report : IntegrityReport} {recover : Bool}
    (hfile : fs path = .ok file) (hmagic : numAt 4 file.bytes 0 = Header.magic)
    (hopen : VmdkReader.open file = .ok r)
    (hreport : VmdkIntegrity.checkIntegrity file = .ok report) :
    succeeds (cmdVerify fs path recover) = true ↔ report.isOk = true ∨
      recover = true ∧ report.outOfBoundsGrains = 0 ∧
        ((VmdkIntegrity.grainDirectoryRecovery file).toOption.getD .default).unrecoverable = 0 := by
  unfold cmdVerify
  rw [openPath_vmdk4 hfile hmagic, hopen, hfile]
  change (!(verifyImage r file recover).failed) = true ↔ _
  unfold verifyImage integrityFails
  simp only [hreport]
  cases hok : report.isOk with
  | true => simp
  | false => cases recover <;> simp [and_comm]

end Cli

/-! ## No false alarm -/

namespace TableLayout

/-- The slots of grain tables beyond the capacity are empty. -/
def SpareSlotsZero (L : TableLayout) (bytes : List UInt8) : Prop :=
  ∀ i < L.tables, ∀ j < L.numGtesPerGt,
    L.capacity ≤ (i * L.numGtesPerGt + j) * L.grainSectors → L.gte bytes i j = 0

instance (L : TableLayout) (bytes : List UInt8) : Decidable (L.SpareSlotsZero bytes) :=
  inferInstanceAs (Decidable (∀ i < L.tables, ∀ j < L.numGtesPerGt,
    L.capacity ≤ (i * L.numGtesPerGt + j) * L.grainSectors → L.gte bytes i j = 0))

/-- Grain `k` is read without all of its bytes: it is compressed, or the disk ends in it. -/
def ReadInPart (L : TableLayout) (k : Nat) : Prop :=
  L.compressed = true ∨ L.capacity < (k + 1) * L.grainSectors

/-- After the first byte of a grain that is read in part there is room for a whole one. -/
def PartsHaveRoom (L : TableLayout) (bytes : List UInt8) : Prop :=
  ∀ k, k * L.grainSectors < L.capacity → L.ReadInPart k →
    1 < L.gte bytes (k / L.numGtesPerGt) (k % L.numGtesPerGt) →
      L.gte bytes (k / L.numGtesPerGt) (k % L.numGtesPerGt) * sectorSize + L.grainBytes ≤
        bytes.length

end TableLayout

section Alarm
variable {file : Source} {im : Image} {geom : SparseFormat} {L : TableLayout} {i j : Nat}

namespace Vmdk4View

/-- The entry of a lookup outside recovery mode, in terms of the layout. -/
theorem plainEntry_some (hview : Vmdk4View file im geom L) {gte : Nat} (hi : i < L.tables)
    (h : Image.plainEntry file geom i j = some gte) :
    gte = L.gte file.bytes i j ∧ (L.dirEntry file.bytes i ≠ 0 →
      L.dirEntry file.bytes i * sectorSize + L.numGtesPerGt * 4 ≤ file.len) := by
  unfold Image.plainEntry at h
  unfold TableLayout.gte
  rw [hview.directory i hi, hview.loaded.numGtesPerGt] at h
  simp only at h
  split at h
  · next h0 =>
    cases h
    exact ⟨(if_pos h0).symm, fun hne => absurd h0 hne⟩
  next h0 =>
  split at h
  · next hin =>
    cases h
    exact ⟨(if_neg h0).symm, fun _ => hin⟩
  · cases h

/-- The first grain of every table starts on the disk. -/
theorem table_start (hview : Vmdk4View file im geom L) (hi : i < L.tables) :
    i * L.numGtesPerGt * L.grainSectors < L.capacity :=
  (lt_divCeil_iff hview.loaded.grainSectors_pos).mp
    ((lt_divCeil_iff hview.loaded.numGtesPerGt_pos).mp hi)

/-- The first byte of a grain that starts on the disk. -/
theorem grain_start (hview : Vmdk4View file im geom L) {k : Nat}
    (hk : k * L.grainSectors < L.capacity) : k * L.grainBytes + 0 < im.virtualDiskSize := by
  rw [hview.size, Nat.add_zero, TableLayout.grainBytes, ← Nat.mul_assoc]
  exact Nat.mul_lt_mul_of_pos_right hk (by decide)

/-- The last byte of a grain that is whole on the disk. -/
theorem grain_last (hview : Vmdk4View file im geom L) {k : Nat}
    (hk : (k + 1) * L.grainSectors ≤ L.capacity) :
    k * L.grainBytes + (L.grainBytes - 1) < im.virtualDiskSize := by
  have hg := hview.loaded.grainBytes_pos
  have hle : (k + 1) * L.grainBytes ≤ im.virtualDiskSize := by
    rw [hview.size, TableLayout.grainBytes, ← Nat.mul_assoc]
    exact Nat.mul_le_mul_right _ hk
  rw [Nat.succ_mul] at hle
  omega

variable [ZlibDecoder]

/-- A byte of grain `k` that can be read: its table is in the file, and the byte is, unless the
grain is compressed. -/
theorem of_byteAt (hview : Vmdk4View file im geom L) {k off : Nat} (hoff : off < L.grainBytes)
    (hk : k * L.grainBytes + off < im.virtualDiskSize)
    (hbyte : (im.byteAt (k * L.grainBytes + off)).isSome = true) :
    k / L.numGtesPerGt < L.tables ∧
      (L.dirEntry file.bytes (k / L.numGtesPerGt) ≠ 0 →
        L.dirEntry file.bytes (k / L.numGtesPerGt) * sectorSize + L.numGtesPerGt * 4 ≤ file.len) ∧
      (L.compressed = false → 1 < L.gte file.bytes (k / L.numGtesPerGt) (k % L.numGtesPerGt) →
        L.gte file.bytes (k / L.numGtesPerGt) (k % L.numGtesPerGt) * sectorSize + off <
          file.len) := by
  have hg := hview.loaded.grainBytes_pos
  have hdiv : (k * L.grainBytes + off) / L.grainBytes = k := by
    rw [Nat.mul_comm, Nat.mul_add_div hg, Nat.div_eq_of_lt hoff, Nat.add_zero]
  have hmod : (k * L.grainBytes + off) % L.grainBytes = off := by
    rw [Nat.mul_comm, Nat.mul_add_mod, Nat.mod_eq_of_lt hoff]
  have hi : k / L.numGtesPerGt < L.tables := by
    have hlt := hview.loaded.table_lt (hview.size ▸ hk)
    rwa [hdiv] at hlt
  have hread : ∃ b bs, im.readAt false (k * L.grainBytes + off) 1 = .ok (b :: bs) := by
    unfold Image.byteAt at hbyte
    split at hbyte
    · next b bs hread => exact ⟨b, bs, hread⟩
    · cases hbyte
  have hentry := @Image.locateSparse_plain im file geom (k * L.grainBytes + off)
  have hgrain : (k * L.grainBytes + off) / geom.grainSizeBytes = k := by
    rw [hview.loaded.grainSizeBytes, hdiv]
  rw [hgrain, hview.loaded.numGtesPerGt] at hentry
  refine ⟨hi, ?_, fun hplain hbig => ?_⟩
  · obtain ⟨n, -, hread'⟩ := readAt_entry hview.fmt hk Nat.one_pos hentry
    obtain ⟨b, bs, hbs⟩ := hread
    obtain ⟨gte, hgte, -⟩ := (hread' _).mp hbs
    exact (hview.plainEntry_some hi hgte).2
  · obtain ⟨gte, hgte, hin⟩ := (readAt_uncompressed hview.fmt
      (hview.loaded.compressed.trans hplain) hk Nat.one_pos hentry).mp hread
    rw [hview.loaded.grainSizeBytes, hmod] at hin
    rw [← (hview.plainEntry_some hi hgte).1] at hbig ⊢
    exact hin hbig

/-- A byte of an uncompressed disk that can be read: its table and itself are in the file. -/
theorem delivers (hview : Vmdk4View file im geom L) (hplain : L.compressed = false) {o len : Nat}
    (ho : o < im.virtualDiskSize) (hlen : 0 < len) (hi : o / L.grainBytes / L.numGtesPerGt = i)
    (hj : o / L.grainBytes % L.numGtesPerGt = j)
    (htable : L.dirEntry file.bytes i ≠ 0 →
      L.dirEntry file.bytes i * sectorSize + L.numGtesPerGt * 4 ≤ file.len)
    (hbyte : 1 < L.gte file.bytes i j →
      L.gte file.bytes i j * sectorSize + o % L.grainBytes < file.len) :
    ∃ b bs, im.readAt false o len = .ok (b :: bs) := by
  have hlt : i < L.tables := hi ▸ hview.loaded.table_lt (hview.size ▸ ho)
  have hentry : Image.plainEntry file geom i j = some (L.gte file.bytes i j) := by
    unfold Image.plainEntry TableLayout.gte
    rw [hview.directory i hlt, hview.loaded.numGtesPerGt]
    simp only
    split
    · rfl
    · next h0 => rw [if_pos (htable h0)]
  have hread := (@readAt_uncompressed _ im file geom o len false _ hview.fmt
    (hview.loaded.compressed.trans hplain) ho hlen (Image.locateSparse_plain o)).mpr
  rw [hview.loaded.grainSizeBytes, hview.loaded.numGtesPerGt, hi, hj] at hread
  exact hread ⟨_, hentry, hbyte⟩

/-- What can be checked of the grain with number `k`: its table and its part of the disk are in the file. -/
def WholeAt (file : Source) (L : TableLayout) (k : Nat) : Prop :=
  (L.dirEntry file.bytes (k / L.numGtesPerGt) ≠ 0 →
    L.dirEntry file.bytes (k / L.numGtesPerGt) * sectorSize + L.numGtesPerGt * 4 ≤ file.len) ∧
  (1 < L.gte file.bytes (k / L.numGtesPerGt) (k % L.numGtesPerGt) →
    L.gte file.bytes (k / L.numGtesPerGt) (k % L.numGtesPerGt) * sectorSize +
      min L.grainBytes (L.capacity * sectorSize - k * L.grainBytes) ≤ file.len)

instance (file : Source) (L : TableLayout) (k : Nat) : Decidable (WholeAt file L k) :=
  inferInstanceAs (Decidable (_ ∧ _))

/-- An uncompressed disk whose grains are whole can be read everywhere. -/
theorem delivers_of_whole (hview : Vmdk4View file im geom L)
    (hwhole : L.compressed = false ∧
      ∀ k < L.capacity, k * L.grainBytes < L.capacity * sectorSize → WholeAt file L k) :
    ∀ o < im.virtualDiskSize, ∀ len, 0 < len → ∃ b bs, im.readAt false o len = .ok (b :: bs) := by
  intro o ho len hlen
  have hsize := hview.size ▸ ho
  have hg := hview.loaded.grainBytes_pos
  have hstart : o / L.grainBytes * L.grainBytes ≤ o := Nat.div_mul_le_self _ _
  have hsector : sectorSize ≤ L.grainBytes := Nat.le_mul_of_pos_left _
    (Nat.pos_of_mul_pos_right hg)
  have hk : o / L.grainBytes < L.capacity :=
    Nat.lt_of_mul_lt_mul_right (Nat.lt_of_le_of_lt
      (Nat.le_trans (Nat.mul_le_mul_left _ hsector) hstart) hsize)
  obtain ⟨htable, hgrain⟩ := hwhole.2 _ hk (Nat.lt_of_le_of_lt hstart hsize)
  refine hview.delivers hwhole.1 ho hlen rfl rfl htable fun hbig => ?_
  have hroom := hgrain hbig
  have hrest := Nat.mod_lt o hg
  have hsplit := Nat.div_add_mod' o L.grainBytes
  omega

/-- **The report on a readable image** is clean exactly when the parts have room. -/
theorem isOk_iff (hview : Vmdk4View file im geom L)
    (hreads : ∀ o < im.virtualDiskSize, (im.byteAt o).isSome = true)
    (hspare : L.SpareSlotsZero file.bytes) {report : IntegrityReport}
    (hreport : L.Reported file report) : report.isOk = true ↔ L.PartsHaveRoom file.bytes := by
  have hg := hview.loaded.grainBytes_pos
  have hn := hview.loaded.numGtesPerGt_pos
  have hstart {k : Nat} (hk : k * L.grainSectors < L.capacity) :=
    hview.of_byteAt hg (hview.grain_start hk) (hreads _ (hview.grain_start hk))
  have hgte {i j : Nat} (h0 : L.dirEntry file.bytes i ≠ 0) :
      L.gte file.bytes i j = tableEntry file.bytes (L.dirEntry file.bytes i) j := if_neg h0
  have hpresent {i j : Nat} (hbig : 1 < L.gte file.bytes i j) : L.dirEntry file.bytes i ≠ 0 := by
    intro h0
    rw [TableLayout.gte, if_pos h0] at hbig
    exact Nat.not_lt_zero 1 hbig
  have hinside : ∀ i < L.tables, L.dirEntry file.bytes i ≠ 0 →
      L.dirEntry file.bytes i * sectorSize + L.numGtesPerGt * 4 ≤ file.len := by
    intro i hi
    have htable := (hstart (hview.table_start hi)).2.1
    rwa [Nat.mul_div_cancel _ hn] at htable
  rw [IntegrityReport.isOk_iff, hreport.tables, hreport.grains, and_iff_right hinside]
  constructor
  · intro h k hk _ hbig
    have h0 := hpresent hbig
    have hi := (hstart hk).1
    rw [hgte h0] at hbig ⊢
    exact h _ hi h0 (hinside _ hi h0) _ (Nat.mod_lt k hn) hbig
  · intro h i hi h0 _ j hj hbig
    rw [← hgte h0] at hbig ⊢
    obtain ⟨k, hk, rfl, rfl⟩ : ∃ k, k = i * L.numGtesPerGt + j ∧ k / L.numGtesPerGt = i ∧
        k % L.numGtesPerGt = j := by
      refine ⟨_, rfl, ?_, ?_⟩
      · rw [Nat.mul_comm, Nat.mul_add_div hn, Nat.div_eq_of_lt hj, Nat.add_zero]
      · rw [Nat.mul_comm, Nat.mul_add_mod, Nat.mod_eq_of_lt hj]
    have hused : k * L.grainSectors < L.capacity := by
      by_contra hspent
      have hzero := hspare _ hi _ hj (hk ▸ Nat.not_lt.mp hspent)
      rw [hzero] at hbig
      exact Nat.not_lt_zero 1 hbig
    by_cases hpart : L.ReadInPart k
    · exact h k hused hpart hbig
    · obtain ⟨hplain, hwhole⟩ := not_or.mp hpart
      have hlast := hview.grain_last (Nat.not_lt.mp hwhole)
      have hin := (hview.of_byteAt (Nat.sub_lt hg Nat.one_pos) hlast (hreads _ hlast)).2.2
        (Bool.not_eq_true _ ▸ hplain) hbig
      omega

end Vmdk4View

end Alarm

/-- A readable image raises no alarm: the integrity report is clean, no finding speaks of a
dangling pointer, and `verify` succeeds, with recovery or without. -/
structure NotAlarmed (fs : FileSystem) (path : FilePath) (file : Source) : Prop where
  report : ∃ report, VmdkIntegrity.checkIntegrity file = .ok report ∧ report.isOk = true
  findings : ∀ findings, VmdkIntegrity.analyse file = .ok findings →
    ∀ k ∈ findings, k.code ≠ "VMDK-DANGLING-GRAIN" ∧ k.code ≠ "VMDK-DANGLING-GT"
  verify : ∀ recover, Cli.succeeds (Cli.cmdVerify fs path recover) = true

/-- **No false alarm** on an image of which every byte can be read, and whose spare slots are empty,
exactly where the grains that are read in part have room for whole ones. -/
theorem VmdkReader.no_false_alarm [ZlibDecoder] {fs : FileSystem} {path : FilePath} {file : Source}
    {r : VmdkReader} (hfile : fs path = .ok file) (hmagic : numAt 4 file.bytes 0 = Header.magic)
    (hopen : VmdkReader.open file = .ok r)
    (hreads : ∀ o < r.virtualDiskSize, (r.byteAt o).isSome = true)
    (hspare : (vmdk4Layout file.bytes).SpareSlotsZero file.bytes) :
    NotAlarmed fs path file ↔ (vmdk4Layout file.bytes).PartsHaveRoom file.bytes := by
  obtain ⟨geom, hview⟩ := open_vmdk4View hmagic hopen
  obtain ⟨report, hreport⟩ := VmdkIntegrity.checkIntegrity_vmdk4_ok hmagic
  have hiff := hview.isOk_iff hreads hspare (vmdk4_reported hmagic hopen hreport)
  constructor
  · intro h
    obtain ⟨report', hreport', hok⟩ := h.report
    rw [hreport] at hreport'
    cases hreport'
    exact hiff.mp hok
  · intro h
    have hok := hiff.mpr h
    exact ⟨⟨report, hreport, hok⟩, fun findings => VmdkIntegrity.analyse_not_dangling hreport hok,
      fun recover => (Cli.cmdVerify_succeeds hfile hmagic hopen hreport).mpr (.inl hok)⟩

/-- A disk of one sector, whose only grain ends with the file after that sector. -/
def shortDisk : Source :=
  .ofBytes ((SparseExtentHeader.plain 1 0 1).toBytes ++ tableSector [2] ++ tableSector [3] ++
    padTo 512 [7]) (by simp [tableSector, recordWidth, sectorSize])

/-- Every read of it in range delivers a byte. -/
theorem shortDisk_delivers [ZlibDecoder] {r : VmdkReader}
    (hopen : VmdkReader.open shortDisk = .ok r) {o len : Nat} (ho : o < r.virtualDiskSize)
    (hlen : 0 < len) : ∃ b bs, r.readAt false o len = .ok (b :: bs) := by
  obtain ⟨geom, hview⟩ := open_vmdk4View (by decide +kernel) hopen
  exact hview.delivers_of_whole (by decide +kernel) o ho len hlen

theorem shortDisk_reads [ZlibDecoder] {r : VmdkReader} (hopen : VmdkReader.open shortDisk = .ok r) :
    ∀ o < r.virtualDiskSize, (r.byteAt o).isSome = true := by
  intro o ho
  obtain ⟨b, bs, hread⟩ := shortDisk_delivers hopen ho Nat.one_pos
  rw [Image.byteAt, hread]
  rfl

/-- The short disk is readable, and the check reports its grain. -/
theorem VmdkReader.false_alarm_shortDisk :
    letI := Stored.decoder
    (∃ r, VmdkReader.open shortDisk = .ok r ∧
      ∀ o < r.virtualDiskSize, (r.byteAt o).isSome = true) ∧
      (vmdk4Layout shortDisk.bytes).SpareSlotsZero shortDisk.bytes ∧
      VmdkIntegrity.checkIntegrity shortDisk = .ok ⟨1, 1, 0⟩ ∧
      VmdkIntegrity.analyse shortDisk = .ok [.ftpAsciiMangled, .danglingGrain 1] ∧
      Cli.succeeds (Cli.cmdVerify (fun _ => .ok shortDisk) [] false) = false ∧
      ¬ NotAlarmed (fun _ => .ok shortDisk) [] shortDisk := by
  let _ := Stored.decoder
  obtain ⟨r, hr⟩ := exists_of_isOk (x := VmdkReader.open shortDisk) (by decide +kernel)
  have hreport : VmdkIntegrity.checkIntegrity shortDisk = .ok ⟨1, 1, 0⟩ := by decide +kernel
  refine ⟨⟨r, hr, shortDisk_reads hr⟩, by decide +kernel, hreport, by decide +kernel,
    by decide +kernel, fun h => ?_⟩
  obtain ⟨report, hreport', hok⟩ := h.report
  rw [hreport] at hreport'
  cases hreport'
  cases hok

theorem VmdkReader.no_false_alarm_shortDisk :
    letI := Stored.decoder
    NotAlarmed (fun _ => .ok shortDisk) [] shortDisk ↔
      (vmdk4Layout shortDisk.bytes).PartsHaveRoom shortDisk.bytes := by
  let _ := Stored.decoder
  obtain ⟨r, hr⟩ := exists_of_isOk (x := VmdkReader.open shortDisk) (by decide +kernel)
  exact VmdkReader.no_false_alarm rfl (by decide +kernel) hr (shortDisk_reads hr) (by decide +kernel)

/-! ## Verification with recovery -/

/-- An entry whose table is out of bounds, with no usable copy of it. -/
theorem classify_unrecoverable {layout : SparseLayout} {p r : Nat} (h0 : p ≠ 0)
    (hp : Image.usable layout.numGtesPerGt layout.fileLen p = false)
    (hr : Image.usable layout.numGtesPerGt layout.fileLen r = false) :
    VmdkIntegrity.classify layout p r = .unrecoverable := by
  have hp' : VmdkIntegrity.inBounds p layout.numGtesPerGt layout.fileLen = false := hp
  have hr' : VmdkIntegrity.inBounds r layout.numGtesPerGt layout.fileLen = false := hr
  unfold VmdkIntegrity.classify
  simp [hp', hr', h0]

theorem classifyAlone_unrecoverable {layout : SparseLayout} {p : Nat} (h0 : p ≠ 0)
    (hp : Image.usable layout.numGtesPerGt layout.fileLen p = false) :
    VmdkIntegrity.classifyAlone layout p = .unrecoverable := by
  have hp' : VmdkIntegrity.inBounds p layout.numGtesPerGt layout.fileLen = false := hp
  unfold VmdkIntegrity.classifyAlone
  simp [hp', h0]

/-- An entry that is lost in both directories fails the triage, where there is a redundant one. -/
theorem unrecoverable_of_lost {file : Source} {r : VmdkReader} {geom : SparseFormat} {i : Nat}
    (hmagic : numAt 4 file.bytes 0 = Header.magic) (hopen : VmdkReader.open file = .ok r)
    (hfmt : r.fmt = .sparse file geom) (h0 : r.rgdOffset ≠ 0) (hend : r.rgdOffset ≠ Header.gdAtEnd)
    (hi : i < r.gdEntryCount) (hp0 : geom.grainDir.getD i 0 ≠ 0)
    (hp : Image.usable geom.numGtesPerGt file.len (geom.grainDir.getD i 0) = false)
    (hr : Image.usable geom.numGtesPerGt file.len (r.redundantPtr file i) = false) :
    ((VmdkIntegrity.grainDirectoryRecovery file).toOption.getD .default).unrecoverable ≠ 0 := by
  obtain ⟨hdrBytes, hdr, desc, gdOffset, gdBytes, hread, hparse, hparts, rfl⟩ :=
    open_of_magic hmagic hopen
  cases hfmt
  generalize him : (VmdkReader.vmdk4Image file hdr desc gdBytes).reader.toImage = im at *
  have hrgd : im.rgdOffset = hdr.rgdOffset := by rw [← him]; rfl
  have hcount : im.gdEntryCount = VmdkReader.numGts hdr := by rw [← him]; rfl
  have hcap : hdr.capacity ≠ 0 := by
    intro hcap
    rw [hcount, numGts_eq, hcap, divCeil_zero, divCeil_zero] at hi
    exact Nat.not_lt_zero _ hi
  have hlayout := VmdkIntegrity.sparseLayout_eq_some.mpr
    ⟨hdr, gdOffset, gdBytes, hparts.layoutParts hread hparse hcap, rfl⟩
  obtain ⟨report, hreport, -, hlost⟩ := report_of_classes (entryClasses_eq hlayout
    (layoutClasses_eq (hrgd ▸ h0) (hrgd ▸ hend) hparts.gdLen hrgd))
  rw [hreport]
  change report.unrecoverable ≠ 0
  rw [hlost, Ne, List.count_eq_zero, not_not]
  have hcopy : im.redundantPtr file i = im.redundantEntry file i :=
    if_neg (by simp only [h0, hend, Nat.not_le.mpr hi, or_self, not_false_eq_true])
  rw [hcopy] at hr
  split
  · refine List.mem_map.mpr ⟨i, List.mem_range.mpr (hcount ▸ hi), ?_⟩
    exact classify_unrecoverable hp0 hp hr
  · refine List.mem_map.mpr ⟨_, (getD_eq_zero_or_mem _ i).resolve_left hp0, ?_⟩
    exact classifyAlone_unrecoverable hp0 hp

section Recover
variable {file : Source} {im : Image} {geom : SparseFormat} {i j off : Nat}

/-- What success of `verify --recover` says of entry `j` of table `i`. -/
structure CheckedInside (file : Source) (im : Image) (geom : SparseFormat) (i j : Nat) : Prop where
  /-- A pointer that is lost in both directories fails the verification. -/
  table : im.rgdOffset ≠ 0 → im.rgdOffset ≠ Header.gdAtEnd → geom.grainDir.getD i 0 ≠ 0 →
    Image.usable geom.numGtesPerGt file.len (geom.grainDir.getD i 0) = false →
    Image.usable geom.numGtesPerGt file.len (im.redundantPtr file i) = true
  /-- A grain that the primary directory leads to is in the file. -/
  grain : Image.usable geom.numGtesPerGt file.len (geom.grainDir.getD i 0) = true →
    1 < tableEntry file.bytes (geom.grainDir.getD i 0) j →
    tableEntry file.bytes (geom.grainDir.getD i 0) j * sectorSize + geom.grainSizeBytes ≤ file.len

/-- What `verify --recover` does not look at stays inside the file, as far as byte `off` of the
grain at entry `j` of table `i` needs it. -/
structure UncheckedInside (file : Source) (im : Image) (geom : SparseFormat) (i j off : Nat) :
    Prop where
  /-- Where no redundant directory is named, the table is absent or in the file. -/
  table : im.rgdOffset = 0 ∨ im.rgdOffset = Header.gdAtEnd → geom.grainDir.getD i 0 ≠ 0 →
    Image.usable geom.numGtesPerGt file.len (geom.grainDir.getD i 0) = true
  /-- The byte is in the file when only the redundant directory leads to its grain. -/
  copy : (Image.usable geom.numGtesPerGt file.len (geom.grainDir.getD i 0) = true →
      tableEntry file.bytes (geom.grainDir.getD i 0) j ≤ 1) →
    1 < im.redundantCopy file geom.numGtesPerGt i j →
    im.redundantCopy file geom.numGtesPerGt i j * sectorSize + off < file.len

/-- **One byte of a verified image** is found in recovery mode exactly when what verification does
not look at stays inside the file. -/
theorem resilientEntry_inside (hchecked : CheckedInside file im geom i j)
    (hoff : off < geom.grainSizeBytes) :
    (∃ gte, im.resilientEntry file geom i j = some gte ∧
      (1 < gte → gte * sectorSize + off < file.len)) ↔ UncheckedInside file im geom i j off := by
  cases hp : Image.usable geom.numGtesPerGt file.len (geom.grainDir.getD i 0) with
  | true =>
    have hentry : im.resilientEntry file geom i j =
        some (if tableEntry file.bytes (geom.grainDir.getD i 0) j ≤ 1 ∧
            1 < im.redundantCopy file geom.numGtesPerGt i j then
          im.redundantCopy file geom.numGtesPerGt i j
        else tableEntry file.bytes (geom.grainDir.getD i 0) j) := if_pos hp
    simp only [hentry, Option.some.injEq, exists_eq_left']
    have hgrain := hchecked.grain hp
    constructor
    · intro h
      refine ⟨fun _ _ => hp, fun hlost hbig => ?_⟩
      rw [if_pos ⟨hlost hp, hbig⟩] at h
      exact h hbig
    · intro h
      split
      · next hfound => exact h.copy fun _ => hfound.1
      · intro hbig
        have hin := hgrain hbig
        omega
  | false =>
    cases hr : Image.usable geom.numGtesPerGt file.len (im.redundantPtr file i) with
    | true =>
      have hentry : im.resilientEntry file geom i j =
          some (im.redundantCopy file geom.numGtesPerGt i j) := by
        unfold Image.resilientEntry
        simp only [hp, hr, Bool.false_eq_true, if_false, if_true]
      simp only [hentry, Option.some.injEq, exists_eq_left']
      constructor
      · intro h
        refine ⟨fun hnone _ => ?_, fun _ => h⟩
        have hzero : im.redundantPtr file i = 0 := if_pos (hnone.imp_right .inl)
        rw [hzero, Image.usable_zero] at hr
        cases hr
      · intro h
        exact h.copy fun hused => absurd (hp.symm.trans hused) Bool.false_ne_true
    | false =>
      have hentry : im.resilientEntry file geom i j =
          if geom.grainDir.getD i 0 = 0 then some 0 else none := by
        unfold Image.resilientEntry
        simp only [hp, hr, Bool.false_eq_true, if_false]
      have hcopy : im.redundantCopy file geom.numGtesPerGt i j = 0 := by
        unfold Image.redundantCopy
        rw [hr]
        rfl
      rw [hentry]
      constructor
      · rintro ⟨gte, hgte, -⟩
        have h0 : geom.grainDir.getD i 0 = 0 := by
          by_contra hne
          rw [if_neg hne] at hgte
          cases hgte
        refine ⟨fun _ hne => absurd h0 hne, fun _ hbig => ?_⟩
        rw [hcopy] at hbig
        exact absurd hbig (by decide)
      · intro h
        have h0 : geom.grainDir.getD i 0 = 0 := by
          by_contra hne
          by_cases hnone : im.rgdOffset = 0 ∨ im.rgdOffset = Header.gdAtEnd
          · have hused := h.table hnone hne
            rw [hp] at hused
            cases hused
          · obtain ⟨hnamed, hplace⟩ := not_or.mp hnone
            have hused := hchecked.table hnamed hplace hne hp
            rw [hr] at hused
            cases hused
        exact ⟨0, if_pos h0, fun hbig => absurd hbig (by decide)⟩

end Recover

namespace VmdkReader
variable [ZlibDecoder] {file : Source} {r : VmdkReader}

/-- In recovery mode every read below the end of the disk delivers a byte, whatever was asked
before. -/
def RecoversAll (file : Source) : Prop :=
  ∀ r, Reachable file r → r.rgdFallback = true → r.pos < r.virtualDiskSize →
    ∀ len, 0 < len → ∃ b bs, (r.read len).1 = .ok (b :: bs)

/-- Reads that all succeed lead to every offset. -/
theorem RecoversAll.reaches (h : RecoversAll file) (hopen : VmdkReader.open file = .ok r) :
    ∀ o < r.virtualDiskSize, ∃ r', Reachable file r' ∧ r'.toImage = r.toImage ∧
      r'.rgdFallback = true ∧ r'.pos = o := by
  intro o
  induction o with
  | zero =>
    intro _
    obtain ⟨im, rfl, -⟩ := open_loads hopen
    exact ⟨_, .enableRgdFallback (.opened hopen), rfl, rfl, rfl⟩
  | succ o ih =>
    intro ho
    obtain ⟨r', hr', himage, hmode, rfl⟩ := ih (Nat.lt_of_succ_lt ho)
    have hpos : r'.pos < r'.virtualDiskSize := by
      rw [himage]
      exact Nat.lt_of_succ_lt ho
    obtain ⟨b, bs, hread⟩ := h r' hr' hmode hpos 1 Nat.one_pos
    have hc := hr'.inv.2
    obtain ⟨hfst, hmoves⟩ := read_spec hc 1
    rw [hread] at hfst
    have hnil : bs = [] := by
      have hlen := Image.readAt_length_le hfst.symm
      rw [List.length_cons] at hlen
      exact List.length_eq_zero_iff.mp (Nat.le_zero.mp (Nat.le_of_succ_le_succ hlen))
    subst hnil
    refine ⟨_, .step hr' (.read 1), hmoves.image.trans himage, hmoves.fallback.trans hmode, ?_⟩
    rw [← hfst] at hmoves
    exact hmoves.pos

/-- Recovery mode reads every byte when a read of every byte succeeds without a cursor. -/
theorem recoversAll_iff (hopen : VmdkReader.open file = .ok r) :
    RecoversAll file ↔ ∀ o < r.virtualDiskSize, ∀ len, 0 < len →
      ∃ b bs, r.readAt true o len = .ok (b :: bs) := by
  constructor
  · intro h o ho len hlen
    obtain ⟨r', hr', himage, hmode, rfl⟩ := h.reaches hopen o ho
    rw [← himage] at ho ⊢
    rw [← hmode, ← (read_spec hr'.inv.2 len).1]
    exact h r' hr' hmode ho len hlen
  · intro h r' hr' hmode hpos len hlen
    obtain ⟨⟨r₀, hopen₀, himage⟩, hc⟩ := hr'.inv
    rw [hopen] at hopen₀
    cases hopen₀
    rw [himage] at hpos
    rw [(read_spec hc len).1, hmode, himage]
    exact h _ hpos len hlen

end VmdkReader

/-- What a successful `verify --recover` has checked of every entry. -/
theorem checkedInside_of_succeeds [ZlibDecoder] {fs : FileSystem} {path : FilePath} {file : Source}
    {r : VmdkReader} {geom : SparseFormat} {L : TableLayout}
    (hfile : fs path = .ok file) (hmagic : numAt 4 file.bytes 0 = Header.magic)
    (hopen : VmdkReader.open file = .ok r) (hview : Vmdk4View file r.toImage geom L)
    (hL : L = vmdk4Layout file.bytes)
    (hsucc : Cli.succeeds (Cli.cmdVerify fs path true) = true) {i j : Nat} (hi : i < L.tables)
    (hj : j < L.numGtesPerGt) : CheckedInside file r.toImage geom i j := by
  subst hL
  obtain ⟨report, hreport⟩ := VmdkIntegrity.checkIntegrity_vmdk4_ok hmagic
  have hdir := hview.directory i hi
  have hn := hview.loaded.numGtesPerGt
  have hsaid := vmdk4_reported hmagic hopen hreport
  have hverdict := (Cli.cmdVerify_succeeds hfile hmagic hopen hreport).mp hsucc
  constructor
  · intro hnamed hplace h0 hp
    by_contra hr
    have hr' := Bool.eq_false_of_not_eq_true hr
    rcases hverdict with hok | ⟨-, -, hnone⟩
    · have hin := hsaid.tables.mp (IntegrityReport.isOk_iff.mp hok).1 i hi (hdir ▸ h0)
      rw [← hdir, ← hn] at hin
      rw [Image.usable_iff_fits.mpr ⟨h0, hin⟩] at hp
      cases hp
    · exact unrecoverable_of_lost hmagic hopen hview.fmt hnamed hplace
        (hview.gdEntryCount.symm ▸ hi) h0 hp hr' hnone
  · intro hp hbig
    have hgrains : report.outOfBoundsGrains = 0 :=
      hverdict.elim (fun hok => (IntegrityReport.isOk_iff.mp hok).2) fun h => h.2.1
    obtain ⟨h0, hin⟩ := Image.usable_iff_fits.mp hp
    rw [hview.loaded.grainSizeBytes]
    rw [hdir] at h0 hin hbig ⊢
    rw [hn] at hin
    exact hsaid.grains.mp hgrains i hi h0 hin j hj hbig

/-- **`verify --recover` succeeds** on an uncompressed VMDK4 image: recovery mode reads all of it
exactly when what the verification does not look at stays inside the file. -/
theorem VmdkReader.verify_recover_sound [ZlibDecoder] {fs : FileSystem} {path : FilePath}
    {file : Source} (hfile : fs path = .ok file) (hkind : UncompressedVmdk4 file)
    (hsucc : Cli.succeeds (Cli.cmdVerify fs path true) = true) :
    ∃ r geom, VmdkReader.open file = .ok r ∧ r.fmt = .sparse file geom ∧
      (RecoversAll file ↔ ∀ o < r.virtualDiskSize, UncheckedInside file r.toImage geom
        (o / geom.grainSizeBytes / geom.numGtesPerGt) (o / geom.grainSizeBytes % geom.numGtesPerGt)
        (o % geom.grainSizeBytes)) := by
  obtain ⟨hmagic, hplain⟩ := hkind
  cases hopen : VmdkReader.open file with
  | error e =>
    have hfailed : Cli.cmdVerify fs path true = .error e := by
      unfold Cli.cmdVerify
      rw [Cli.openPath_vmdk4 hfile hmagic, hopen]
      rfl
    rw [hfailed] at hsucc
    cases hsucc
  | ok r =>
    obtain ⟨geom, hview⟩ := open_vmdk4View hmagic hopen
    refine ⟨r, geom, rfl, hview.fmt, ?_⟩
    rw [recoversAll_iff hopen]
    refine forall₂_congr fun o ho => ?_
    have hi : o / geom.grainSizeBytes / geom.numGtesPerGt < (vmdk4Layout file.bytes).tables := by
      rw [hview.loaded.grainSizeBytes, hview.loaded.numGtesPerGt]
      exact hview.loaded.table_lt (hview.size ▸ ho)
    have hj : o / geom.grainSizeBytes % geom.numGtesPerGt <
        (vmdk4Layout file.bytes).numGtesPerGt := by
      rw [← hview.loaded.numGtesPerGt]
      exact Nat.mod_lt _ geom.numGtesPerGt_pos
    have hchecked := checkedInside_of_succeeds hfile hmagic hopen hview rfl hsucc hi hj
    rw [← resilientEntry_inside hchecked (Nat.mod_lt o geom.grainSizeBytes_pos)]
    have hread {len : Nat} (hlen : 0 < len) := @readAt_uncompressed _ _ _ _ o len true _ hview.fmt
      (hview.loaded.compressed.trans hplain) ho hlen (Image.locateSparse_recovering o)
    exact ⟨fun h => (hread Nat.one_pos).mp (h 1 Nat.one_pos),
      fun h len hlen => (hread hlen).mpr h⟩

theorem VmdkReader.verify_recover_sound_mirroredDisk :
    letI := Stored.decoder
    ∃ r geom, VmdkReader.open (mirroredDisk 11 3) = .ok r ∧ r.fmt = .sparse (mirroredDisk 11 3) geom ∧
      (RecoversAll (mirroredDisk 11 3) ↔ ∀ o < r.virtualDiskSize,
        UncheckedInside (mirroredDisk 11 3) r.toImage geom
          (o / geom.grainSizeBytes / geom.numGtesPerGt)
          (o / geom.grainSizeBytes % geom.numGtesPerGt) (o % geom.grainSizeBytes)) := by
  let _ := Stored.decoder
  exact @VmdkReader.verify_recover_sound _ (fun _ => .ok (mirroredDisk 11 3)) [] _ rfl
    ⟨by decide +kernel, by decide +kernel⟩ (by decide +kernel)

/-- A disk whose only directory points to a table beyond the end of the file. -/
def danglingTable : Source :=
  .ofBytes ((SparseExtentHeader.plain 16 0 1).toBytes ++ tableSector [1000])
    (by simp [tableSector, recordWidth, sectorSize])

/-- Without a redundant directory nothing is unrecoverable, and `verify --recover` succeeds on a
disk of which recovery mode reads no byte. -/
theorem VmdkReader.verify_recover_misses_danglingTable :
    letI := Stored.decoder
    UncompressedVmdk4 danglingTable ∧
      Cli.succeeds (Cli.cmdVerify (fun _ => .ok danglingTable) [] true) = true ∧
      (∃ r, VmdkReader.open danglingTable = .ok r ∧ 0 < r.virtualDiskSize ∧
        (r.enableRgdFallback.read 1).1 = .error Source.eofError) ∧
      ¬ RecoversAll danglingTable := by
  let _ := Stored.decoder
  have hread : ((VmdkReader.open danglingTable).map fun r =>
      (decide (0 < r.virtualDiskSize ∧ r.pos = 0), (r.enableRgdFallback.read 1).1)) =
      .ok (true, .error Source.eofError) := by decide +kernel
  obtain ⟨r, hr, hread⟩ := exists_of_map_eq hread
  obtain ⟨hstate, heof⟩ := Prod.mk.inj hread
  obtain ⟨hsize, hpos⟩ := of_decide_eq_true hstate
  refine ⟨⟨by decide +kernel, by decide +kernel⟩, by decide +kernel, ⟨r, hr, hsize, heof⟩,
    fun hall => ?_⟩
  obtain ⟨b, bs, hok⟩ := hall _ (.enableRgdFallback (.opened hr)) rfl (hpos ▸ hsize) 1 Nat.one_pos
  rw [heof] at hok
  cases hok
