import Vmdk.ChainOpen
import Vmdk.DescriptorLines

/-! # What a descriptor says of itself

`cid()`, `parent_cid()`, `descriptor_text()` and `disk_database()` are those of
the descriptor in every branch of `openPath` but one: `seSparse` takes them from
the extent, whose own text is empty unless it is a VMDK4 file
(`VmdkReader.metadata_exact`). A chain whose delta is such a descriptor ends
there, and its base is never opened. -/

open Bytes Text Word

/-- A descriptor is a function of its text. -/
theorem parseTextDescriptor_congr {text text' : Text} {desc desc' : TextDescriptor}
    (h : parseTextDescriptor text = .ok desc) (h' : parseTextDescriptor text' = .ok desc')
    (hraw : desc.rawText = desc'.rawText) : desc = desc' := by
  rw [(parseTextDescriptor_lines h).1, (parseTextDescriptor_lines h').1] at hraw
  unfold parseTextDescriptor at h h'
  rw [hraw, h'] at h
  exact (Except.ok.inj h).symm

namespace VmdkReader
variable {fs : FileSystem} {origin : Origin} {path dir : FilePath} {file : Source}
  {desc : TextDescriptor} {r : VmdkReader}

/-- The text that an extent file carries itself: the one a VMDK4 file embeds, and none in the others. -/
def ownText (file : Source) : Option Text := do
  let hdrBytes ← (file.readExactAt 0 512).toOption
  if beNat (slice hdrBytes 0 4) = Cowd.magic ∨ leNat (slice hdrBytes 0 8) = SeSparse.constMagic then
    some []
  else do
    let hdr ← (SparseExtentHeader.parse hdrBytes).toOption
    (readDescriptor file hdr).toOption.map TextDescriptor.rawText

/-- The reader says of itself what the descriptor says. -/
structure Survives (desc : TextDescriptor) (r : VmdkReader) : Prop where
  cid : r.cid = desc.cid
  parentCid : r.parentCid = desc.parentCid
  descriptorText : r.descriptorText = desc.rawText
  diskDatabase : r.diskDatabase = DiskDatabase.parse desc.rawText

theorem readDescriptor_parsed {hdr : SparseExtentHeader} (h : readDescriptor file hdr = .ok desc) :
    ∃ text, parseTextDescriptor text = .ok desc := by
  unfold readDescriptor at h
  split at h
  · rw [asInvalidData_eq_ok] at h
    exact ⟨_, h⟩
  · simp only [bind_eq_ok, asInvalidData_eq_ok] at h
    obtain ⟨-, -, buf, -, h⟩ := h
    exact ⟨_, h⟩

theorem parse_nil : parseTextDescriptor [] = .ok (TextDescriptor.empty []) := rfl

/-- **A binary extent** says of itself what its own text says. -/
theorem open_survives (h : VmdkReader.open file = .ok r) :
    ∃ text desc, parseTextDescriptor text = .ok desc ∧ ownText file = some desc.rawText ∧
      Survives desc r := by
  unfold VmdkReader.open at h
  obtain ⟨hdrBytes, hread, h⟩ := bind_eq_ok.mp h
  rw [fromIo_eq_ok] at hread
  unfold ownText
  simp only [hread, Except.toOption, Option.bind_eq_bind, Option.bind_some]
  by_cases hcowd : beNat (slice hdrBytes 0 4) = Cowd.magic
  · rw [if_pos hcowd] at h
    unfold openCowdExtent at h
    simp only [bind_eq_ok] at h
    obtain ⟨geom, -, hdr, -, -, -, h⟩ := h
    cases h
    exact ⟨[], _, parse_nil, if_pos (.inl hcowd), rfl, rfl, rfl, rfl⟩
  rw [if_neg hcowd] at h
  by_cases hse : leNat (slice hdrBytes 0 8) = SeSparse.constMagic
  · rw [if_pos hse] at h
    unfold openSesparseExtent at h
    simp only [bind_eq_ok] at h
    obtain ⟨geom, -, hdr, -, -, -, h⟩ := h
    cases h
    exact ⟨[], _, parse_nil, if_pos (.inr hse), rfl, rfl, rfl, rfl⟩
  rw [if_neg hse] at h
  obtain ⟨hdr, desc, gdOffset, gdBytes, hparse, hparts, rfl⟩ := openVmdk4_eq_ok.mp h
  obtain ⟨text, htext⟩ := readDescriptor_parsed hparts.descriptor
  refine ⟨text, desc, htext, ?_, rfl, rfl, rfl, rfl⟩
  rw [if_neg (not_or.mpr ⟨hcowd, hse⟩)]
  simp only [hparse, hparts.descriptor, Option.bind_some, Option.map_some]

/-- The extent that a `seSparse` descriptor is opened as carries the text of the descriptor. -/
def Kept (fs : FileSystem) (dir : FilePath) (desc : TextDescriptor) : Prop :=
  branchOf desc = some .seSparse → ∀ entry file, desc.sparseExtents.head? = some entry →
    fs (FilePath.join dir entry.filename) = .ok file → ownText file = some desc.rawText

theorem descriptor_survives {text : Text} (hparse : parseTextDescriptor text = .ok desc)
    (h : (openDescriptor fs dir desc).result = .ok r) : Survives desc r ↔ Kept fs dir desc := by
  unfold Kept
  rcases @openDescriptor_eq fs dir desc with ⟨e, -, heq⟩ | ⟨hb, heq⟩ | ⟨hb, heq⟩ | ⟨hb, heq⟩
  · rw [heq] at h
    cases h
  · rw [heq] at h
    obtain ⟨multi, -, -, rfl⟩ := openFlatExtents_ok h
    rw [hb]
    constructor
    · intro _ hse
      cases hse
    · intro _
      exact ⟨rfl, rfl, rfl, rfl⟩
  · rw [heq] at h
    obtain ⟨multi, -, -, rfl⟩ := openSparseExtents_ok h
    rw [hb]
    constructor
    · intro _ hse
      cases hse
    · intro _
      exact ⟨rfl, rfl, rfl, rfl⟩
  · rw [heq] at h
    obtain ⟨entry, file, hhead, hfile, hopen⟩ := openSesparseDescriptor_ok h
    obtain ⟨text', own, hown, htext, hsurvives⟩ := open_survives hopen
    constructor
    · intro hs _ entry' file' hhead' hfile'
      rw [hhead] at hhead'
      cases hhead'
      rw [hfile] at hfile'
      cases hfile'
      rw [htext, ← hsurvives.descriptorText, hs.descriptorText]
    · intro hkept
      have hsame := hkept hb entry file hhead hfile
      rw [htext] at hsame
      rwa [← parseTextDescriptor_congr hown hparse (Option.some.inj hsame)]

/-! ## The walk -/

/-- Opening a chain at the descriptor opens the parent that it names, or fails. -/
def OpensParent (fs : FileSystem) (path : FilePath) (desc : TextDescriptor) : Prop :=
  desc.parentCid ≠ noCid → VmdkChainReader.extractParentFileName desc.rawText ≠ [] →
    ∀ chain, (VmdkChainReader.open fs path).result = .ok chain → ∃ parent r older,
      resolveExtentPath (directoryOf path)
        (VmdkChainReader.extractParentFileName desc.rawText) = .ok parent ∧
      VmdkChainReader.Descends fs parent older ∧ chain.layers = r :: older.map Prod.snd

theorem Survives.opensParent (h : Survives desc r)
    (hopen : (openPath fs origin path).result = .ok r) : OpensParent fs path desc := by
  intro hcid hhint chain hchain
  rw [openPath_origin fs origin .caller] at hopen
  have hdelta : ¬ r.EndsChain := by
    rintro (hend | hend)
    · exact hcid (h.parentCid ▸ hend)
    · unfold parentHint at hend
      rw [h.descriptorText] at hend
      exact hhint hend
  obtain ⟨steps, hsteps, rfl⟩ := VmdkChainReader.open_descends hchain
  cases hsteps with
  | base hopen' hend =>
    rw [hopen] at hopen'
    cases hopen'
    exact absurd hend hdelta
  | @delta _ parent r' older hopen' hend hnext holder =>
    rw [hopen] at hopen'
    cases hopen'
    unfold parentHint at hnext
    rw [h.descriptorText] at hnext
    exact ⟨parent, r, older, hnext, holder, rfl⟩

/-- **What a descriptor says of itself survives `openPath`**, and its parent is opened, exactly when it is
not opened as an extent that says something else. -/
theorem metadata_exact (hfile : fs path = .ok file) (hfirst : file.readExactAt 0 1 = .ok [35])
    (hparse : parseTextDescriptor (decodeDescriptor file.bytes) = .ok desc)
    (hopen : (openPath fs origin path).result = .ok r) :
    Survives desc r ∧ OpensParent fs path desc ↔ Kept fs (directoryOf path) desc := by
  have hiff := descriptor_survives hparse (openPath_descriptor hfile hfirst hparse hopen)
  constructor
  · rintro ⟨hsurvives, -⟩
    exact hiff.mp hsurvives
  · intro hkept
    have hsurvives := hiff.mpr hkept
    exact ⟨hsurvives, hsurvives.opensParent hopen⟩

/-- A flat delta is opened with its base. -/
theorem metadata_exact_chainFiles : ∃ desc r,
    (openPath VmdkChainReader.chainFiles .caller ['d']).result = .ok r ∧ Survives desc r ∧
      OpensParent VmdkChainReader.chainFiles ['d'] desc := by
  have hbranch : (parseTextDescriptor (decodeDescriptor
      (textBytes (VmdkChainReader.deltaText ['b'])))).map branchOf =
        .ok (some .flatExtents) := by
    decide +kernel
  obtain ⟨desc, hdesc, hflat⟩ := exists_of_map_eq hbranch
  obtain ⟨r, hr⟩ := exists_of_isOk
    (x := (openPath VmdkChainReader.chainFiles .caller ['d']).result) (by decide +kernel)
  have hfile : VmdkChainReader.chainFiles ['d'] = .ok (textFile (VmdkChainReader.deltaText ['b'])
      (VmdkChainReader.length_deltaText (by decide))) := by
    have hname : FilePath.HasFileName ['d'] ∧ FilePath.names ['d'] = [.normal ['d']] := by
      decide +kernel
    exact FileSystem.ofNames_eq hname
  refine ⟨desc, r, hr, (metadata_exact hfile (by decide +kernel) hdesc hr).mpr fun hse => ?_⟩
  rw [hflat] at hse
  cases hse

/-! ## A `seSparse` delta -/

def seDeltaText : Text :=
  "#\nCID=5\nparentCID=1\nparentFileNameHint=\"b\"\ncreateType=\"seSparse\"\nRW 8 SESPARSE \"e\"".toList

def emptySesparseBytes : List UInt8 :=
  SeConstHeader.toBytes {
    capacity := 8
    grainSize := 8
    gdOffset := 1
    gtOffset := 2
    grainsOffset := 2
    grainSize_eq := SeSparse.eight_sectors } ++ padTo 512 []

theorem length_emptySesparseBytes : emptySesparseBytes.length < 2 ^ 63 := by
  simp [emptySesparseBytes, SeConstHeader.toBytes, SeConstHeader.fields, recordWidth]

/-- A seSparse disk of one grain, which is not there. -/
def emptySesparse : Source := .ofBytes emptySesparseBytes length_emptySesparseBytes

/-- A `seSparse` delta, its extent and its base. -/
def seFiles : FileSystem := .ofNames fun names =>
  if names = [.normal ['b']] ∨ names = [.normal ['e']] then .ok emptySesparse
  else if names = [.normal ['d']] then .ok (textFile seDeltaText (by decide +kernel))
  else .error ⟨.notFound, "No such file or directory (os error 2)"⟩

/-- **The metadata of the delta are lost**, and its chain has one layer. -/
theorem metadata_lost_seFiles : ∃ desc r chain,
    parseTextDescriptor (decodeDescriptor (textBytes seDeltaText)) = .ok desc ∧
      (openPath seFiles .caller ['d']).result = .ok r ∧
      (VmdkChainReader.open seFiles ['d']).result = .ok chain ∧
      (desc.cid, desc.parentCid) = (5, 1) ∧ (r.cid, r.parentCid) = (noCid, noCid) ∧
      VmdkChainReader.extractParentFileName desc.rawText = ['b'] ∧ r.descriptorText = [] ∧
      chain.layers.length = 1 ∧ ¬ Survives desc r ∧ ¬ OpensParent seFiles ['d'] desc := by
  have hsays : (parseTextDescriptor (decodeDescriptor (textBytes seDeltaText))).map (fun d =>
      ((d.cid, d.parentCid), VmdkChainReader.extractParentFileName d.rawText)) =
        .ok ((5, 1), ['b']) := by
    decide +kernel
  have hkeeps : (openPath seFiles .caller ['d']).result.map (fun r =>
      ((r.cid, r.parentCid), r.descriptorText)) = .ok ((noCid, noCid), []) := by
    decide +kernel
  have hlayers : (VmdkChainReader.open seFiles ['d']).result.map (·.layers.length) = .ok 1 := by
    decide +kernel
  obtain ⟨desc, hdesc, hdescSays⟩ := exists_of_map_eq hsays
  obtain ⟨r, hr, hreaderSays⟩ := exists_of_map_eq hkeeps
  obtain ⟨chain, hchain, hone⟩ := exists_of_map_eq hlayers
  obtain ⟨hcids, hhint⟩ := Prod.mk.inj hdescSays
  obtain ⟨hlost, htext⟩ := Prod.mk.inj hreaderSays
  refine ⟨desc, r, chain, hdesc, hr, hchain, hcids, hlost, hhint, htext, hone, ?_, ?_⟩
  · intro h
    have hcid : noCid = 5 := (Prod.mk.inj hlost).1.symm.trans (h.cid.trans (Prod.mk.inj hcids).1)
    exact absurd hcid (by decide)
  · intro h
    have hparent : desc.parentCid = 1 := (Prod.mk.inj hcids).2
    obtain ⟨parent, r', older, -, holder, hlen⟩ := h (by rw [hparent]; decide)
      (by rw [hhint]; exact List.cons_ne_nil _ _) chain hchain
    rw [hlen, List.length_cons, List.length_map] at hone
    cases holder <;> simp at hone

end VmdkReader
