import Vmdk.VerifySound
import Vmdk.Stream
import Vmdk.Lib.Lockstep

/-! # The command `diff`

Both disks are read through cursors of their own, 64 KiB at most at a time. Each
pair of reads is compared in its common prefix, but both cursors move over all
that was read, so after two reads of different lengths the loop compares bytes
of different offsets. It is exact as long as that does not happen
(`Cli.diff_exact`). -/

open Bytes Word

/-- Beyond the range of a seek nothing is read. -/
theorem Image.Shaped.byteAt_none [ZlibDecoder] {im : Image} (him : im.Shaped) {o : Nat}
    (h : 2 ^ 63 ≤ o) : im.byteAt o = none := by
  have hfmt := him.fmt
  have hsize := him.size_lt
  unfold byteAt
  cases hread : im.readAt false o 1 with
  | error e => rfl
  | ok bs =>
    unfold readAt readAtCounting at hread
    split at hread
    · cases hread
      rfl
    next hend =>
    cases hf : im.fmt with
    | flat inner =>
      rw [hf] at hread
      exact absurd (ExtentReader.readAt_lt (by omega) hread) (by omega)
    | sparse inner geom =>
      rw [hf] at hfmt
      omega
    | seSparse inner geom =>
      rw [hf] at hfmt
      omega

namespace Cli

/-- What `diff` counts and prints. -/
structure DiffTally where
  count : Nat
  /-- Offset and bytes of the first ten differences. -/
  printed : List (Nat × UInt8 × UInt8)
deriving DecidableEq, Repr

namespace DiffTally

def note (tally : DiffTally) (d : Nat × UInt8 × UInt8) : DiffTally where
  count := tally.count + 1
  printed := if tally.count < 10 then tally.printed ++ [d] else tally.printed

end DiffTally

/-- The comparison of the common prefix of two buffers at `offset`. -/
def compareBuffers : (offset : Nat) → List UInt8 → List UInt8 → DiffTally → DiffTally
  | offset, x :: xs, y :: ys, tally =>
    compareBuffers (offset + 1) xs ys (if x = y then tally else tally.note (offset, x, y))
  | _, _, _, tally => tally

/-- `read(..).unwrap_or(0)`: the part of the buffer that counts. -/
def bytesRead (result : Except IoError (List UInt8)) : List UInt8 := result.toOption.getD []

def diffBuffer : Nat := 65536

/-- The loop of `diff`. -/
def diffLoop [ZlibDecoder] :
    (fuel : Nat) → (ra rb : VmdkReader) → (offset : Nat) → DiffTally → DiffTally
  | 0, _, _, _, tally => tally
  | fuel + 1, ra, rb, offset, tally =>
    let na := bytesRead (ra.read diffBuffer).1
    let nb := bytesRead (rb.read diffBuffer).1
    if na = [] ∧ nb = [] then tally else
    diffLoop fuel (ra.read diffBuffer).2 (rb.read diffBuffer).2
      (offset + min na.length nb.length) (compareBuffers offset na nb tally)

inductive DiffReport where
  | sizesDiffer (sizeA sizeB : Nat)
  | compared (tally : DiffTally)
deriving DecidableEq, Repr

/-- `diff`. Every round but the last moves a cursor, so the rounds are fewer than the bytes of both
disks and one. -/
def cmdDiff [ZlibDecoder] (fs : FileSystem) (a b : FilePath) : Except VmdkError DiffReport := do
  let ra ← (VmdkReader.openPath fs .caller a).result
  let rb ← (VmdkReader.openPath fs .caller b).result
  let ra := (ra.seek (.start 0)).2
  let rb := (rb.seek (.start 0)).2
  if ra.virtualDiskSize ≠ rb.virtualDiskSize then
    return .sizesDiffer ra.virtualDiskSize rb.virtualDiskSize
  return .compared
    (diffLoop (ra.virtualDiskSize + rb.virtualDiskSize + 1) ra rb 0 { count := 0, printed := [] })

/-- Whether the command says that the disks are identical and exits successfully. -/
def diffSucceeds : Except VmdkError DiffReport → Bool
  | .ok (.compared tally) => tally.count == 0
  | _ => false

/-! ## The loop as a comparison of streams -/

/-- What the first differences of `ds` make of an empty tally. -/
def DiffTally.of (ds : List (Nat × UInt8 × UInt8)) : DiffTally := ⟨ds.length, ds.take 10⟩

theorem DiffTally.note_of (ds : List (Nat × UInt8 × UInt8)) (d : Nat × UInt8 × UInt8) :
    (DiffTally.of ds).note d = DiffTally.of (ds ++ [d]) := by
  unfold DiffTally.note DiffTally.of
  simp only [List.length_append, List.length_cons, List.length_nil, List.take_append]
  by_cases hroom : ds.length < 10
  · rw [if_pos hroom, List.take_of_length_le (l := [d]) (by rw [List.length_singleton]; omega)]
  · have hfull : 10 - ds.length = 0 := by omega
    rw [if_neg hroom, hfull, List.take_zero, List.append_nil]

theorem compareBuffers_of (offset : Nat) (xs ys : List UInt8) (ds : List (Nat × UInt8 × UInt8)) :
    compareBuffers offset xs ys (.of ds) =
      .of (ds ++ Lockstep.differences offset xs ys) := by
  induction xs generalizing offset ys ds with
  | nil => simp [compareBuffers, Lockstep.differences]
  | cons x xs ih =>
    cases ys with
    | nil => simp [compareBuffers, Lockstep.differences]
    | cons y ys =>
      unfold compareBuffers Lockstep.differences
      split
      · exact ih _ _ _
      · rw [DiffTally.note_of, ih, List.append_assoc, List.singleton_append]

section Streams
variable [ZlibDecoder]

/-- What one read of `diff` delivers at an offset. -/
def diskStream (im : Image) (o : Nat) : List UInt8 := bytesRead (im.readAt false o diffBuffer)

theorem read_stream {im : Image} {pos : Nat} {r : VmdkReader} (h : VmdkReader.At im false pos r) :
    bytesRead (r.read diffBuffer).1 = diskStream im pos ∧
      VmdkReader.At im false (pos + (diskStream im pos).length) (r.read diffBuffer).2 := by
  rcases hstep : r.read diffBuffer with ⟨res, r'⟩
  obtain ⟨rfl, hat⟩ := h.read_eq hstep
  refine ⟨rfl, ?_⟩
  have hlen : VmdkReader.delivered (im.readAt false pos diffBuffer) = (diskStream im pos).length := by
    unfold diskStream bytesRead
    cases im.readAt false pos diffBuffer with
    | ok bs => rfl
    | error e => rfl
  rwa [hlen] at hat

/-- The loop tallies what the comparison of the two streams finds. -/
theorem diffLoop_eq {imA imB : Image} {posA posB : Nat} {ra rb : VmdkReader}
    (ha : VmdkReader.At imA false posA ra) (hb : VmdkReader.At imB false posB rb) (fuel offset : Nat)
    (ds : List (Nat × UInt8 × UInt8)) :
    diffLoop fuel ra rb offset (.of ds) =
      .of (ds ++ Lockstep.scan (diskStream imA) (diskStream imB) fuel posA posB offset) := by
  induction fuel generalizing posA posB ra rb offset ds with
  | zero => rw [diffLoop, Lockstep.scan, List.append_nil]
  | succ fuel ih =>
    obtain ⟨hbytesA, hnextA⟩ := read_stream ha
    obtain ⟨hbytesB, hnextB⟩ := read_stream hb
    unfold diffLoop Lockstep.scan
    simp only [hbytesA, hbytesB]
    split
    · rw [List.append_nil]
    · rw [compareBuffers_of, ih hnextA hnextB, List.append_assoc]

variable {im : Image}

theorem diskStream_within (him : im.Shaped) (o : Nat) :
    diskStream im o = [] ∨ o + (diskStream im o).length ≤ im.virtualDiskSize := by
  unfold diskStream bytesRead
  cases hread : im.readAt false o diffBuffer with
  | error e => exact .inl rfl
  | ok bs =>
    cases bs with
    | nil => exact .inl rfl
    | cons b bs =>
      obtain ⟨c, hlast⟩ : ∃ c, (b :: bs)[bs.length]? = some c :=
        ⟨_, List.getElem?_eq_getElem (by simp)⟩
      have hin := (him.readAt_stretch hread hlast).2
      exact .inr hin

/-- What a read delivers within the range of a seek is the disk's. -/
theorem diskStream_value (him : im.Shaped) {p i : Nat} {x : UInt8} (h63 : p + i < 2 ^ 63)
    (h : (diskStream im p)[i]? = some x) : im.byteAt (p + i) = some x := by
  unfold diskStream at h
  cases hread : im.readAt false p diffBuffer with
  | error e =>
    rw [hread] at h
    cases h
  | ok bs =>
    rw [hread] at h
    exact him.readAt_byte h63 hread h

/-- A readable disk is the stream of its bytes. -/
theorem streamOf_readable (h : im.ReadableIn false) (him : im.Shaped) :
    Lockstep.StreamOf (diskStream im) im.byteAt im.virtualDiskSize := by
  refine ⟨fun o ho => ?_, diskStream_within him, fun o i b hb => ?_⟩
  · obtain ⟨b, bs, hread⟩ := h o ho diffBuffer (by decide)
    unfold diskStream
    rw [hread]
    exact List.cons_ne_nil b bs
  · have hi : i < (diskStream im o).length := (List.getElem?_eq_some_iff.mp hb).1
    have hsize := h.size_le him
    rcases diskStream_within him o with hnil | hin
    · rw [hnil] at hi
      exact absurd hi (Nat.not_lt_zero i)
    · exact diskStream_value him (by omega) hb

/-- **The loop ends** before its rounds run out. -/
theorem diffLoop_rounds {imA imB : Image} (ha : imA.Shaped) (hb : imB.Shaped) (more : Nat) :
    diffLoop (imA.virtualDiskSize + imB.virtualDiskSize + 1 + more) imA.reader imB.reader 0 (.of []) =
      diffLoop (imA.virtualDiskSize + imB.virtualDiskSize + 1) imA.reader imB.reader 0 (.of []) := by
  have hend : imA.virtualDiskSize - 0 + (imB.virtualDiskSize - 0) <
      imA.virtualDiskSize + imB.virtualDiskSize + 1 := Nat.lt_succ_self _
  have hra := VmdkReader.at_reader imA
  have hrb := VmdkReader.at_reader imB
  rw [diffLoop_eq hra hrb, diffLoop_eq hra hrb]
  exact congrArg (fun ds => DiffTally.of ([] ++ ds))
    (Lockstep.scan_fuel (diskStream_within ha) (diskStream_within hb) hend more)

/-! ## The verdict -/

/-- What `diff` reports on the images `a` and `b` is what their bytes say. -/
structure DiffExact (report : Except VmdkError DiffReport) (a b : Image) : Prop where
  verdict : diffSucceeds report = true ↔ ∀ o < a.virtualDiskSize, a.byteAt o = b.byteAt o
  count : ∃ tally, report = .ok (.compared tally) ∧
    tally.count = (List.range a.virtualDiskSize).countP fun o => decide (a.byteAt o ≠ b.byteAt o)
  printed : ∀ tally, report = .ok (.compared tally) → ∀ d ∈ tally.printed,
    d.1 < a.virtualDiskSize ∧ a.byteAt d.1 = some d.2.1 ∧ b.byteAt d.1 = some d.2.2 ∧ d.2.1 ≠ d.2.2

variable {fs : FileSystem} {pathA pathB : FilePath} {a b : VmdkReader}

omit [ZlibDecoder] in
theorem seek_zero_reader (im : Image) : (im.reader.seek (.start 0)).2 = im.reader := by
  have hseek : Cursor.seek 0 im.virtualDiskSize (.start 0) = .ok 0 :=
    Cursor.seek_start (n := 0) (by decide)
  have hsought : im.reader.seek (.start 0) = (.ok 0, { im.reader with pos := 0 }) := by
    unfold VmdkReader.seek
    have hpos : Cursor.seek im.reader.pos im.reader.virtualDiskSize (.start 0) = .ok 0 := hseek
    rw [hpos]
  rw [hsought]
  rfl

/-- What `diff` reports on two disks of one size, in however many rounds more. -/
theorem cmdDiff_eq (hopenA : (VmdkReader.openPath fs .caller pathA).result = .ok a)
    (hopenB : (VmdkReader.openPath fs .caller pathB).result = .ok b)
    (hsize : a.virtualDiskSize = b.virtualDiskSize) (more : Nat) :
    cmdDiff fs pathA pathB = .ok (.compared (.of (Lockstep.scan (diskStream a.toImage)
      (diskStream b.toImage) (a.virtualDiskSize + b.virtualDiskSize + 1 + more) 0 0 0))) := by
  obtain ⟨imA, rfl, hshapedA⟩ := openPath_shaped hopenA
  obtain ⟨imB, rfl, hshapedB⟩ := openPath_shaped hopenB
  unfold cmdDiff
  simp only [hopenA, hopenB, bind, Except.bind, seek_zero_reader]
  rw [if_neg (not_not.mpr hsize)]
  have hloop := diffLoop_eq (VmdkReader.at_reader imA) (VmdkReader.at_reader imB)
    (imA.virtualDiskSize + imB.virtualDiskSize + 1 + more) 0 []
  rw [diffLoop_rounds hshapedA hshapedB] at hloop
  exact congrArg (fun t => Except.ok (DiffReport.compared t)) hloop

theorem byteAt_isSome (h : im.ReadableIn false) {o : Nat} (ho : o < im.virtualDiskSize) :
    (im.byteAt o).isSome = true := by
  obtain ⟨b, bs, hread⟩ := h o ho 1 Nat.one_pos
  rw [Image.byteAt, hread]
  rfl

/-- A tally of all differences is exact. -/
theorem diffExact_of_differences {report : Except VmdkError DiffReport} {imA imB : Image}
    (hsize : imA.virtualDiskSize = imB.virtualDiskSize)
    (ha : imA.ReadableIn false) (hb : imB.ReadableIn false)
    (hreport : report = .ok (.compared
      (.of (Lockstep.allDifferences imA.byteAt imB.byteAt 0 imA.virtualDiskSize)))) :
    DiffExact report imA imB := by
  subst hreport
  have hmem {d : Nat × UInt8 × UInt8} :=
    @Lockstep.mem_allDifferences _ _ imA.byteAt imB.byteAt imA.virtualDiskSize 0 d
  have hdecided : diffSucceeds (.ok (.compared
      (.of (Lockstep.allDifferences imA.byteAt imB.byteAt 0 imA.virtualDiskSize)))) = true ↔
      Lockstep.allDifferences imA.byteAt imB.byteAt 0 imA.virtualDiskSize = [] := by
    change ((Lockstep.allDifferences imA.byteAt imB.byteAt 0 imA.virtualDiskSize).length == 0) = true ↔ _
    rw [beq_iff_eq, List.length_eq_zero_iff]
  refine ⟨?_, ⟨_, rfl, Lockstep.length_allDifferences (fun o ho => byteAt_isSome ha ho)
    fun o ho => byteAt_isSome hb (hsize ▸ ho)⟩, ?_⟩
  · rw [hdecided, List.eq_nil_iff_forall_not_mem]
    constructor
    · intro hnone o ho
      obtain ⟨x, hx⟩ := Option.isSome_iff_exists.mp (byteAt_isSome ha ho)
      obtain ⟨y, hy⟩ := Option.isSome_iff_exists.mp (byteAt_isSome hb (hsize ▸ ho))
      by_contra hne
      rw [hx, hy, Option.some.injEq] at hne
      exact hnone (o, x, y) (hmem.mpr ⟨Nat.zero_le o, by rwa [Nat.zero_add], hx, hy, hne⟩)
    · intro hsame d hd
      obtain ⟨-, hlt, hx, hy, hne⟩ := hmem.mp hd
      rw [Nat.zero_add] at hlt
      rw [hsame d.1 hlt, hy] at hx
      exact hne (Option.some.inj hx).symm
  · intro tally htally d hd
    cases htally
    obtain ⟨-, hlt, hrest⟩ := hmem.mp (List.mem_of_mem_take hd)
    exact ⟨by rwa [Nat.zero_add] at hlt, hrest⟩

/-- **`diff` is exact** on two readable disks of one size, as long as the two reads at every offset
it reaches deliver equally many bytes. -/
theorem diff_exact (hopenA : (VmdkReader.openPath fs .caller pathA).result = .ok a)
    (hopenB : (VmdkReader.openPath fs .caller pathB).result = .ok b)
    (hsize : a.virtualDiskSize = b.virtualDiskSize)
    (hreadA : a.toImage.ReadableIn false) (hreadB : b.toImage.ReadableIn false)
    (haligned : ∀ o < a.virtualDiskSize, Lockstep.Reached (diskStream a.toImage) o →
      (diskStream a.toImage o).length = (diskStream b.toImage o).length) :
    DiffExact (cmdDiff fs pathA pathB) a.toImage b.toImage := by
  refine diffExact_of_differences hsize hreadA hreadB ?_
  rw [cmdDiff_eq hopenA hopenB hsize 0]
  obtain ⟨imA, rfl, hshapedA⟩ := openPath_shaped hopenA
  obtain ⟨imB, rfl, hshapedB⟩ := openPath_shaped hopenB
  have hstreamB := streamOf_readable hreadB hshapedB
  rw [← hsize] at hstreamB
  have hscan := Lockstep.scan_aligned (streamOf_readable hreadA hshapedA) hstreamB haligned
    (show imA.virtualDiskSize ≤ imA.virtualDiskSize + imB.virtualDiskSize + 1 + 0 by omega)
  exact congrArg (fun ds => Except.ok (DiffReport.compared (.of ds))) hscan

end Streams

/-! ## Disks of two grains -/

/-- A disk of two grains of 8 sectors. The second one starts with a seven. -/
def narrowGrains : Source :=
  .ofBytes ((SparseExtentHeader.plain 16 0 1).toBytes ++ tableSector [2] ++ tableSector [0, 3] ++
    padTo 4096 [7]) (by simp [tableSector, recordWidth, sectorSize])

/-- Another one. Its first grain starts with a five, its second one is not there. -/
def firstGrain : Source :=
  .ofBytes ((SparseExtentHeader.plain 16 0 1).toBytes ++ tableSector [2] ++ tableSector [3] ++
    padTo 4096 [5]) (by simp [tableSector, recordWidth, sectorSize])

theorem narrowGrains_readable [ZlibDecoder] {r : VmdkReader}
    (hopen : VmdkReader.open narrowGrains = .ok r) : r.toImage.ReadableIn false := by
  obtain ⟨geom, hview⟩ := open_vmdk4View (by decide +kernel) hopen
  exact hview.delivers_of_whole (by decide +kernel)

theorem firstGrain_readable [ZlibDecoder] {r : VmdkReader}
    (hopen : VmdkReader.open firstGrain = .ok r) : r.toImage.ReadableIn false := by
  obtain ⟨geom, hview⟩ := open_vmdk4View (by decide +kernel) hopen
  exact hview.delivers_of_whole (by decide +kernel)

/-- Two reads of 4096 bytes go over a disk of 8192. -/
theorem reached_of_halves {s : Nat → List UInt8} (hfirst : (s 0).length = 4096)
    (hsecond : (s 4096).length = 4096) {o : Nat} (h : Lockstep.Reached s o) :
    o = 0 ∨ o = 4096 ∨ 8192 ≤ o := by
  induction h with
  | zero => exact .inl rfl
  | next h ih =>
    rcases ih with rfl | rfl | hbeyond
    · exact .inr (.inl (by rw [hfirst]))
    · exact .inr (.inr (by rw [hsecond]))
    · exact .inr (.inr (Nat.le_add_right_of_le hbeyond))

/-- Both disks are read in two pieces, and differ in both. -/
theorem diff_exact_narrowGrains :
    letI := Stored.decoder
    let fs : FileSystem := fun path => .ok (if path = [] then narrowGrains else firstGrain)
    ∃ a b, (VmdkReader.openPath fs .caller []).result = .ok a ∧
      (VmdkReader.openPath fs .caller ['b']).result = .ok b ∧
      a.byteAt 0 ≠ b.byteAt 0 ∧ a.byteAt 4096 ≠ b.byteAt 4096 ∧
      DiffExact (cmdDiff fs [] ['b']) a.toImage b.toImage := by
  let _ := Stored.decoder
  intro fs
  have hreadA : (VmdkReader.open narrowGrains).map (fun r => (r.virtualDiskSize,
      (diskStream r.toImage 0).length, (diskStream r.toImage 4096).length,
      r.byteAt 0, r.byteAt 4096)) = .ok (8192, 4096, 4096, some 0, some 7) := by
    decide +kernel
  obtain ⟨a, ha, hreadA⟩ := exists_of_map_eq hreadA
  have hreadB : (VmdkReader.open firstGrain).map (fun r => (r.virtualDiskSize,
      (diskStream r.toImage 0).length, (diskStream r.toImage 4096).length,
      r.byteAt 0, r.byteAt 4096)) = .ok (8192, 4096, 4096, some 5, some 0) := by
    decide +kernel
  obtain ⟨b, hb, hreadB⟩ := exists_of_map_eq hreadB
  simp only [Prod.mk.injEq] at hreadA hreadB
  obtain ⟨hsizeA, hfirstA, hsecondA, hzeroA, hsevenA⟩ := hreadA
  obtain ⟨hsizeB, hfirstB, hsecondB, hfiveB, hzeroB⟩ := hreadB
  have hopenA : (VmdkReader.openPath fs .caller []).result = .ok a := by
    rw [@openPath_vmdk4 _ _ narrowGrains rfl (by decide +kernel), ha]
  have hopenB : (VmdkReader.openPath fs .caller ['b']).result = .ok b := by
    rw [@openPath_vmdk4 _ _ firstGrain rfl (by decide +kernel), hb]
  refine ⟨a, b, hopenA, hopenB, by rw [hzeroA, hfiveB]; decide, by rw [hsevenA, hzeroB]; decide,
    diff_exact hopenA hopenB (hsizeA.trans hsizeB.symm) (narrowGrains_readable ha)
      (firstGrain_readable hb) fun o ho hreached => ?_⟩
  rcases reached_of_halves hfirstA hsecondA hreached with rfl | rfl | hbeyond
  · exact hfirstA.trans hfirstB.symm
  · exact hsecondA.trans hsecondB.symm
  · omega

/-! ## Disks with different grains -/

/-- A disk of one grain of 16 sectors, which is not there. -/
def wideGrain : Source :=
  .ofBytes ({ SparseExtentHeader.plain 16 0 1 with
    grainSize := 16, grainSize_ge := by decide, grainSize_le := by decide }.toBytes ++
      tableSector [2] ++ tableSector [0]) (by simp [tableSector, recordWidth, sectorSize])

theorem wideGrain_readable [ZlibDecoder] {r : VmdkReader}
    (hopen : VmdkReader.open wideGrain = .ok r) : r.toImage.ReadableIn false := by
  obtain ⟨geom, hview⟩ := open_vmdk4View (by decide +kernel) hopen
  exact hview.delivers_of_whole (by decide +kernel)

/-- The first two reads deliver 4096 and 8192 bytes. Then the second disk is at its end, nothing more
is compared, and disks that differ are called identical. -/
theorem diff_misses_narrowGrains :
    letI := Stored.decoder
    let fs : FileSystem := fun path => .ok (if path = [] then narrowGrains else wideGrain)
    ∃ a b, (VmdkReader.openPath fs .caller []).result = .ok a ∧
      (VmdkReader.openPath fs .caller ['b']).result = .ok b ∧
      a.virtualDiskSize = b.virtualDiskSize ∧ a.toImage.ReadableIn false ∧
      b.toImage.ReadableIn false ∧
      a.byteAt 4096 = some 7 ∧ b.byteAt 4096 = some 0 ∧
      cmdDiff fs [] ['b'] = .ok (.compared ⟨0, []⟩) ∧
      ¬ DiffExact (cmdDiff fs [] ['b']) a.toImage b.toImage := by
  let _ := Stored.decoder
  intro fs
  have hreadA : (VmdkReader.open narrowGrains).map (fun r => (r.virtualDiskSize, r.byteAt 4096)) =
      .ok (8192, some 7) := by decide +kernel
  obtain ⟨a, ha, hreadA⟩ := exists_of_map_eq hreadA
  have hreadB : (VmdkReader.open wideGrain).map (fun r => (r.virtualDiskSize, r.byteAt 4096)) =
      .ok (8192, some 0) := by decide +kernel
  obtain ⟨b, hb, hreadB⟩ := exists_of_map_eq hreadB
  have hreport : cmdDiff fs [] ['b'] = .ok (.compared ⟨0, []⟩) := by decide +kernel
  obtain ⟨hsizeA, hbyteA⟩ := Prod.mk.inj hreadA
  obtain ⟨hsizeB, hbyteB⟩ := Prod.mk.inj hreadB
  refine ⟨a, b, ?_, ?_, hsizeA.trans hsizeB.symm, narrowGrains_readable ha, wideGrain_readable hb,
    hbyteA, hbyteB, hreport, fun hexact => ?_⟩
  · rw [@openPath_vmdk4 _ _ narrowGrains rfl (by decide +kernel), ha]
  · rw [@openPath_vmdk4 _ _ wideGrain rfl (by decide +kernel), hb]
  · have hsame := hexact.verdict.mp (by rw [hreport]; rfl) 4096 (hsizeA ▸ by decide)
    rw [hbyteA, hbyteB] at hsame
    exact absurd hsame (by decide)

/-! ## Reads that fail

An error counts as a read of nothing, like the end of the disk. The cursor stays
where the read failed, so that nothing is compared from there on, and what was
found before decides. -/

section Failures
variable [ZlibDecoder]

/-- Below the end of the disk some read fails or delivers nothing. -/
def FailingRead (im : Image) : Prop :=
  ∃ o < im.virtualDiskSize, ∃ len, 0 < len ∧
    ((∃ e, im.readAt false o len = .error e) ∨ im.readAt false o len = .ok [])

theorem readable_iff (im : Image) : im.ReadableIn false ↔ ¬ FailingRead im := by
  constructor
  · rintro hreads ⟨o, ho, len, hlen, hfail⟩
    obtain ⟨b, bs, hok⟩ := hreads o ho len hlen
    rcases hfail with ⟨e, herr⟩ | hnil
    · rw [hok] at herr
      cases herr
    · rw [hok] at hnil
      cases hnil
  · intro hnone o ho len hlen
    cases hread : im.readAt false o len with
    | error e => exact absurd ⟨o, ho, len, hlen, .inl ⟨e, hread⟩⟩ hnone
    | ok bs =>
      cases bs with
      | nil => exact absurd ⟨o, ho, len, hlen, .inr hread⟩ hnone
      | cons b bs => exact ⟨b, bs, rfl⟩

theorem failingRead_of_stream {im : Image} {o : Nat} (ho : o < im.virtualDiskSize)
    (h : diskStream im o = []) : FailingRead im := by
  refine ⟨o, ho, diffBuffer, by decide, ?_⟩
  unfold diskStream at h
  cases hread : im.readAt false o diffBuffer with
  | error e => exact .inl ⟨e, rfl⟩
  | ok bs =>
    rw [hread] at h
    exact .inr (congrArg Except.ok h)

/-- A read of either disk that fails makes the command fail. -/
def ReportsFailure (report : Except VmdkError DiffReport) (a b : Image) : Prop :=
  FailingRead a ∨ FailingRead b → diffSucceeds report = false

variable {fs : FileSystem} {pathA pathB : FilePath} {a b : VmdkReader}

/-- The reads of two disks deliver equally much in every round up to `f`, where one of them delivers
nothing first. -/
structure LevelUntil (a b : Image) (f : Nat) : Prop where
  level : Lockstep.Level (diskStream a) (diskStream b) f
  ended : diskStream a f = [] ∨ diskStream b f = []
  le : f ≤ 2 ^ 63

/-- When a read of either disk that fails makes the command fail. -/
structure FailureExact (report : Except VmdkError DiffReport) (a b : Image) : Prop where
  enough : (a.ReadableIn false ∧ b.ReadableIn false) ∨
      (∃ o, Lockstep.Beside (diskStream a) (diskStream b) o ∧ a.byteAt o ≠ b.byteAt o) →
    ReportsFailure report a b
  exact : ∀ f, LevelUntil a b f → (ReportsFailure report a b ↔
    (a.ReadableIn false ∧ b.ReadableIn false) ∨ ∃ o < f, a.byteAt o ≠ b.byteAt o)

/-- Two disks of one size are called identical if and only if the loop finds no difference. -/
theorem diffSucceeds_iff (hopenA : (VmdkReader.openPath fs .caller pathA).result = .ok a)
    (hopenB : (VmdkReader.openPath fs .caller pathB).result = .ok b)
    (hsize : a.virtualDiskSize = b.virtualDiskSize) (more : Nat) :
    diffSucceeds (cmdDiff fs pathA pathB) = true ↔ Lockstep.scan (diskStream a.toImage)
      (diskStream b.toImage) (a.virtualDiskSize + b.virtualDiskSize + 1 + more) 0 0 0 = [] := by
  rw [cmdDiff_eq hopenA hopenB hsize more, ← List.length_eq_zero_iff]
  exact beq_iff_eq

theorem reportsFailure_iff {report : Except VmdkError DiffReport} {a b : Image} :
    ReportsFailure report a b ↔
      (a.ReadableIn false ∧ b.ReadableIn false) ∨ diffSucceeds report = false := by
  rw [readable_iff, readable_iff, ← not_or]
  exact imp_iff_not_or

/-- **A difference is reported** when both disks deliver it in one round with level cursors, whatever
fails afterwards. -/
theorem diff_fails_of_beside (hopenA : (VmdkReader.openPath fs .caller pathA).result = .ok a)
    (hopenB : (VmdkReader.openPath fs .caller pathB).result = .ok b)
    (hsize : a.virtualDiskSize = b.virtualDiskSize) {o : Nat}
    (hbeside : Lockstep.Beside (diskStream a.toImage) (diskStream b.toImage) o)
    (hne : a.byteAt o ≠ b.byteAt o) : diffSucceeds (cmdDiff fs pathA pathB) = false := by
  rw [← Bool.not_eq_true, diffSucceeds_iff hopenA hopenB hsize 0]
  obtain ⟨imA, rfl, hshapedA⟩ := openPath_shaped hopenA
  obtain ⟨imB, rfl, hshapedB⟩ := openPath_shaped hopenB
  have h63 : o < 2 ^ 63 := by
    by_contra hbeyond
    exact hne ((hshapedA.byteAt_none (Nat.not_lt.mp hbeyond)).trans
      (hshapedB.byteAt_none (Nat.not_lt.mp hbeyond)).symm)
  have hin : o < imA.virtualDiskSize := by
    obtain ⟨p, -, hpo, ho⟩ := hbeside
    rcases diskStream_within hshapedA p with hnil | hwithin
    · have hlen : (diskStream imA p).length = 0 := List.length_eq_zero_iff.mpr hnil
      change o < p + min (diskStream imA p).length _ at ho
      omega
    · change o < p + min (diskStream imA p).length _ at ho
      omega
  exact Lockstep.scan_ne_nil_of_beside hbeside
    (fun p i x hle hx => diskStream_value hshapedA (by omega) hx)
    (fun p i y hle hy => diskStream_value hshapedB (by omega) hy) hne
    (show o < imA.virtualDiskSize + imB.virtualDiskSize + 1 + 0 by omega)

/-- Where one of the disks first delivers nothing, the differences before decide. -/
theorem diff_fails_iff (hopenA : (VmdkReader.openPath fs .caller pathA).result = .ok a)
    (hopenB : (VmdkReader.openPath fs .caller pathB).result = .ok b)
    (hsize : a.virtualDiskSize = b.virtualDiskSize) {f : Nat}
    (huntil : LevelUntil a.toImage b.toImage f) :
    diffSucceeds (cmdDiff fs pathA pathB) = false ↔ ∃ o < f, a.byteAt o ≠ b.byteAt o := by
  constructor
  · rw [← Bool.not_eq_true, diffSucceeds_iff hopenA hopenB hsize 0]
    obtain ⟨imA, rfl, hshapedA⟩ := openPath_shaped hopenA
    obtain ⟨imB, rfl, hshapedB⟩ := openPath_shaped hopenB
    have hf := huntil.level.le (diskStream_within hshapedA)
    have hle := huntil.le
    have hscan := Lockstep.scan_ended (A := imA.byteAt) (B := imB.byteAt) huntil.level
      (fun p i x hlt hx => diskStream_value hshapedA (by omega) hx)
      (fun p i y hlt hy => diskStream_value hshapedB (by omega) hy) huntil.ended
      (show f ≤ imA.virtualDiskSize + imB.virtualDiskSize + 1 + 0 by
        change f ≤ imA.virtualDiskSize at hf
        omega)
    intro hfound
    obtain ⟨d, hd⟩ := List.exists_mem_of_ne_nil _ fun hnil => hfound (hscan.trans hnil)
    obtain ⟨-, hlt, hx, hy, hne⟩ := Lockstep.mem_allDifferences.mp hd
    refine ⟨d.1, by omega, fun hsame => hne (Option.some.inj ?_)⟩
    exact hx.symm.trans (hsame.trans hy)
  · rintro ⟨o, ho, hne⟩
    exact diff_fails_of_beside hopenA hopenB hsize (huntil.level.beside ho) hne

/-- **A failing read is reported** when the disks differ at a place that both deliver in one round with
level cursors, and where the cursors stay level up to the failure only then. -/
theorem diff_reports_failure
    (hopenA : (VmdkReader.openPath fs .caller pathA).result = .ok a)
    (hopenB : (VmdkReader.openPath fs .caller pathB).result = .ok b)
    (hsize : a.virtualDiskSize = b.virtualDiskSize) :
    FailureExact (cmdDiff fs pathA pathB) a.toImage b.toImage := by
  constructor
  · rintro (hreads | ⟨o, hbeside, hne⟩)
    · exact reportsFailure_iff.mpr (.inl hreads)
    · exact reportsFailure_iff.mpr (.inr (diff_fails_of_beside hopenA hopenB hsize hbeside hne))
  · intro f huntil
    exact reportsFailure_iff.trans (or_congr Iff.rfl (diff_fails_iff hopenA hopenB hsize huntil))

end Failures

/-- A disk of two grains of 8 sectors. The first one starts with a five, the second one is not in the
file. -/
def cutGrain : Source :=
  .ofBytes ((SparseExtentHeader.plain 16 0 1).toBytes ++ tableSector [2] ++
    tableSector [3, 1000] ++ padTo 4096 [5]) (by simp [tableSector, recordWidth, sectorSize])

/-- Its first half differs from that of `narrowGrains`, so that the failure of its second half is
reported. -/
theorem diff_reports_failure_cutGrain :
    letI := Stored.decoder
    let fs : FileSystem := fun path => .ok (if path = [] then cutGrain else narrowGrains)
    ∃ a b, (VmdkReader.openPath fs .caller []).result = .ok a ∧
      (VmdkReader.openPath fs .caller ['b']).result = .ok b ∧ FailingRead a.toImage ∧
      LevelUntil a.toImage b.toImage 4096 ∧ diffSucceeds (cmdDiff fs [] ['b']) = false := by
  let _ := Stored.decoder
  intro fs
  have hreadA : (VmdkReader.open cutGrain).map (fun r => (r.virtualDiskSize,
      (diskStream r.toImage 0).length, diskStream r.toImage 4096, r.byteAt 0)) =
      .ok (8192, 4096, [], some 5) := by
    decide +kernel
  obtain ⟨a, ha, hreadA⟩ := exists_of_map_eq hreadA
  have hreadB : (VmdkReader.open narrowGrains).map (fun r => (r.virtualDiskSize,
      (diskStream r.toImage 0).length, r.byteAt 0)) = .ok (8192, 4096, some 0) := by
    decide +kernel
  obtain ⟨b, hb, hreadB⟩ := exists_of_map_eq hreadB
  simp only [Prod.mk.injEq] at hreadA hreadB
  obtain ⟨hsizeA, hfirstA, hsecondA, hfiveA⟩ := hreadA
  obtain ⟨hsizeB, hfirstB, hzeroB⟩ := hreadB
  have hopenA : (VmdkReader.openPath fs .caller []).result = .ok a := by
    rw [@openPath_vmdk4 _ _ cutGrain rfl (by decide +kernel), ha]
  have hopenB : (VmdkReader.openPath fs .caller ['b']).result = .ok b := by
    rw [@openPath_vmdk4 _ _ narrowGrains rfl (by decide +kernel), hb]
  have hfail : FailingRead a.toImage := failingRead_of_stream (hsizeA ▸ (by decide)) hsecondA
  have hlevel := Lockstep.Level.next .start
    (List.length_pos_iff.mp (hfirstA ▸ (by decide : 0 < 4096))) (hfirstA.trans hfirstB.symm)
  rw [Nat.zero_add, hfirstA] at hlevel
  have huntil : LevelUntil a.toImage b.toImage 4096 := ⟨hlevel, .inl hsecondA, by decide⟩
  refine ⟨a, b, hopenA, hopenB, hfail, huntil, ?_⟩
  refine ((diff_reports_failure hopenA hopenB (hsizeA.trans hsizeB.symm)).exact 4096 huntil).mpr
    (.inr ⟨0, by decide, ?_⟩) (.inl hfail)
  rw [hfiveA, hzeroB]
  decide

/-- A disk whose every read fails, beside the disk of `narrowGrains`. -/
theorem danglingTable_read :
    letI := Stored.decoder
    let fs : FileSystem := fun path => .ok (if path = [] then danglingTable else narrowGrains)
    ∃ a b, (VmdkReader.openPath fs .caller []).result = .ok a ∧
      (VmdkReader.openPath fs .caller ['b']).result = .ok b ∧
      a.virtualDiskSize = b.virtualDiskSize ∧ FailingRead a.toImage := by
  let _ := Stored.decoder
  intro fs
  have hreadA : (VmdkReader.open danglingTable).map (fun r =>
      (r.virtualDiskSize, r.toImage.readAt false 0 1)) = .ok (8192, .error Source.eofError) := by
    decide +kernel
  obtain ⟨a, ha, hreadA⟩ := exists_of_map_eq hreadA
  have hsizeB : (VmdkReader.open narrowGrains).map (fun r => r.virtualDiskSize) = .ok 8192 := by
    decide +kernel
  obtain ⟨b, hb, hsizeB⟩ := exists_of_map_eq hsizeB
  obtain ⟨hsizeA, herr⟩ := Prod.mk.inj hreadA
  have hsizes : a.virtualDiskSize = b.virtualDiskSize := hsizeA.trans hsizeB.symm
  refine ⟨a, b, ?_, ?_, hsizes, 0, ?_, 1, Nat.one_pos, .inl ⟨_, herr⟩⟩
  · rw [@openPath_vmdk4 _ _ danglingTable rfl (by decide +kernel), ha]
  · rw [@openPath_vmdk4 _ _ narrowGrains rfl (by decide +kernel), hb]
  · exact hsizeA ▸ (by decide : 0 < 8192)

/-- The first read of one disk fails, and it is called identical to a disk with a seven in it. -/
theorem diff_hides_failure_danglingTable :
    letI := Stored.decoder
    let fs : FileSystem := fun path => .ok (if path = [] then danglingTable else narrowGrains)
    ∃ a b, (VmdkReader.openPath fs .caller []).result = .ok a ∧
      (VmdkReader.openPath fs .caller ['b']).result = .ok b ∧
      a.virtualDiskSize = b.virtualDiskSize ∧ FailingRead a.toImage ∧
      cmdDiff fs [] ['b'] = .ok (.compared ⟨0, []⟩) ∧
      ¬ ReportsFailure (cmdDiff fs [] ['b']) a.toImage b.toImage := by
  let _ := Stored.decoder
  intro fs
  have hreport : cmdDiff fs [] ['b'] = .ok (.compared ⟨0, []⟩) := by decide +kernel
  obtain ⟨a, b, hopenA, hopenB, hsize, hfail⟩ := danglingTable_read
  refine ⟨a, b, hopenA, hopenB, hsize, hfail, hreport, fun hreports => ?_⟩
  have hverdict := hreports (.inl hfail)
  rw [hreport] at hverdict
  cases hverdict

end Cli
