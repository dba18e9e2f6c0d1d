import Mathlib.Data.List.TakeWhile
import Mathlib.Data.Option.Basic
import Vmdk.OpenCases
import Vmdk.DescriptorLines
import Vmdk.Encode
import Vmdk.Lib.Utf8

/-! # Companion files

`extent_dependencies` lists the files that must be at hand before a descriptor
can be opened. It reads the descriptor as UTF-8 and leaves out extents without a
name, where `openPath` honours the declared encoding and leaves out none; the
list has what is opened exactly when the two readings name the same files
(`VmdkReader.companions_exact`). -/

open Text Word

namespace VmdkReader

/-- `std::fs::read_to_string`. -/
def readToString (file : Source) : Except IoError Text :=
  match fromUtf8 file.bytes with
  | some text => .ok text
  | none => .error (invalidData "stream did not contain valid UTF-8")

/-- The path of an extent in directory `dir`, if its name is not empty. -/
def namedPath (dir : FilePath) (name : Text) : Option FilePath :=
  if name.isEmpty then none else some (FilePath.join dir name)

/-- The files of the flat extents, then those of the sparse ones. -/
def dependenciesOf (dir : FilePath) (desc : TextDescriptor) : List FilePath :=
  desc.extents.filterMap (fun ext => if ext.isZero then none else namedPath dir ext.filename) ++
    desc.sparseExtents.filterMap fun ext => namedPath dir ext.filename

/-- `extent_dependencies`; the extents themselves are not opened. -/
def extentDependencies (fs : FileSystem) (path : FilePath) : Opens VmdkError (List FilePath) := do
  let peek ← (Opens.openFile fs .caller path).mapError .io
  let firstByte ← Opens.lift (fromIo (peek.readExactAt 0 1))
  if firstByte ≠ [35] then return [] else do
    let file ← (Opens.openFile fs .caller path).mapError .io
    let text ← Opens.lift (fromIo (readToString file))
    let desc ← Opens.lift (parseTextDescriptor text)
    return dependenciesOf (directoryOf path) desc

end VmdkReader

/-! ## What is opened -/

namespace Opens

/-- The paths that were opened because a file named them. -/
def namedPaths {ε α : Type} (x : Opens ε α) : List FilePath :=
  x.opened.filterMap fun o => if o.origin = .caller then none else some o.path

end Opens

namespace VmdkReader
variable {fs : FileSystem} {path dir : FilePath} {desc : TextDescriptor} {r : VmdkReader}

/-- The names of the extents that the branch of a descriptor opens. -/
def usedNames (desc : TextDescriptor) : List Text :=
  match branchOf desc with
  | some .flatExtents => (desc.extents.filter fun ext => !ext.isZero).map ExtentEntry.filename
  | some .sparseExtents => desc.sparseExtents.map SparseEntry.filename
  | some .seSparse => desc.sparseExtents.head?.toList.map SparseEntry.filename
  | none => []

/-- The opening of a file that a descriptor in `dir` names. -/
def opening (dir : FilePath) (name : Text) : Opened := ⟨.named dir name, FilePath.join dir name⟩

theorem flat_opened {exts : List ExtentEntry} {virt : Nat} {out : List FlatExtent × Nat}
    (h : (MultiExtentReader.openFrom fs dir virt exts).result = .ok out) :
    (MultiExtentReader.openFrom fs dir virt exts).opened =
      ((exts.filter fun ext => !ext.isZero).map ExtentEntry.filename).map (opening dir) := by
  induction exts generalizing virt out with
  | nil => rfl
  | cons ext rest ih =>
    unfold MultiExtentReader.openFrom at h ⊢
    simp only [Opens.result_bind, bind_eq_ok, Opens.result_pure] at h
    obtain ⟨file, hfile, ⟨flats, total⟩, hrest, -⟩ := h
    rw [Opens.opened_bind_ok hfile, Opens.opened_bind_ok hrest, ih hrest, Opens.opened_pure,
      List.append_nil]
    unfold MultiExtentReader.openExtent at hfile ⊢
    by_cases hzero : ext.isZero = true
    · rw [if_pos hzero, List.filter_cons_of_neg (by simp [hzero])]
      rfl
    · rw [if_neg hzero] at hfile ⊢
      simp only [Opens.result_bind, bind_eq_ok, Opens.result_lift] at hfile
      obtain ⟨p, hp, source, hsource, -⟩ := hfile
      obtain ⟨-, rfl⟩ := resolveExtentPath_ok hp
      rw [List.filter_cons_of_pos (by simp [hzero]), Opens.opened_bind_ok hp,
        Opens.opened_bind_ok hsource]
      rfl

theorem flatExtents_opened (h : (openFlatExtents fs dir desc).result = .ok r) :
    (openFlatExtents fs dir desc).opened =
      ((desc.extents.filter fun ext => !ext.isZero).map ExtentEntry.filename).map (opening dir) := by
  obtain ⟨multi, hmulti, -, -⟩ := openFlatExtents_ok h
  unfold MultiExtentReader.open at hmulti
  simp only [Opens.result_bind, bind_eq_ok] at hmulti
  obtain ⟨out, hout, -⟩ := hmulti
  unfold openFlatExtents
  rw [Opens.opened_bind_silent fun multi => Opens.opened_bind_silent fun _ => rfl,
    Opens.opened_mapError]
  unfold MultiExtentReader.open
  rw [Opens.opened_bind_silent fun out => rfl]
  exact flat_opened hout

theorem sparse_opened {entries : List SparseEntry} {byteOffset : Nat}
    {out : List SparseChunk × Nat}
    (h : (MultiSparseReader.openFrom fs dir byteOffset entries).result = .ok out) :
    (MultiSparseReader.openFrom fs dir byteOffset entries).opened =
      (entries.map SparseEntry.filename).map (opening dir) := by
  induction entries generalizing byteOffset out with
  | nil => rfl
  | cons entry rest ih =>
    unfold MultiSparseReader.openFrom at h ⊢
    simp only [Opens.result_bind, bind_eq_ok, Opens.result_pure, Opens.result_lift] at h
    obtain ⟨p, hp, file, hfile, chunk, hchunk, ⟨chunks, total⟩, hrest, -⟩ := h
    obtain ⟨-, rfl⟩ := resolveExtentPath_ok hp
    rw [Opens.opened_bind_ok hp, Opens.opened_bind_ok hfile, Opens.opened_bind_ok hchunk,
      Opens.opened_bind_ok hrest, ih hrest]
    simp only [Opens.opened_lift, Opens.opened_pure, List.nil_append, List.append_nil]
    rfl

theorem sparseExtents_opened (h : (openSparseExtents fs dir desc).result = .ok r) :
    (openSparseExtents fs dir desc).opened =
      (desc.sparseExtents.map SparseEntry.filename).map (opening dir) := by
  obtain ⟨multi, hmulti, -, -⟩ := openSparseExtents_ok h
  unfold MultiSparseReader.open at hmulti
  simp only [Opens.result_bind, bind_eq_ok] at hmulti
  obtain ⟨out, hout, -⟩ := hmulti
  unfold openSparseExtents
  rw [Opens.opened_bind_silent fun multi => Opens.opened_bind_silent fun _ => rfl,
    Opens.opened_mapError]
  unfold MultiSparseReader.open
  rw [Opens.opened_bind_silent fun out => rfl]
  exact sparse_opened hout

/-- **What a descriptor opens**: the extents of its branch, in the order of their lines. -/
theorem descriptor_opened (h : (openDescriptor fs dir desc).result = .ok r) :
    (openDescriptor fs dir desc).opened = (usedNames desc).map (opening dir) := by
  unfold usedNames
  rcases @openDescriptor_eq fs dir desc with ⟨e, -, heq⟩ | ⟨hb, heq⟩ | ⟨hb, heq⟩ | ⟨hb, heq⟩
  · rw [heq] at h
    cases h
  · rw [heq] at h ⊢
    rw [hb]
    exact flatExtents_opened h
  · rw [heq] at h ⊢
    rw [hb]
    exact sparseExtents_opened h
  · rw [heq] at h ⊢
    obtain ⟨entry, file, hhead, -, -⟩ := openSesparseDescriptor_ok h
    rw [hb]
    unfold openSesparseDescriptor
    rw [hhead]
    exact Opens.opened_bind_silent fun file => rfl

theorem namedPaths_opening (dir : FilePath) (names : List Text) :
    (names.map (opening dir)).filterMap (fun o => if o.origin = .caller then none else some o.path) =
      names.map (FilePath.join dir) := by
  induction names with
  | nil => rfl
  | cons name names ih =>
    rw [List.map_cons, List.map_cons, List.filterMap_cons_some (by rfl), ih]
    rfl

/-- **What opening a descriptor by path opens because it is named there.** -/
theorem openPath_namedPaths {file : Source} (hfile : fs path = .ok file)
    (hfirst : file.readExactAt 0 1 = .ok [35])
    (hparse : parseTextDescriptor (decodeDescriptor file.bytes) = .ok desc)
    (hopen : (openPath fs .caller path).result = .ok r) :
    (openPath fs .caller path).namedPaths =
      (usedNames desc).map (FilePath.join (directoryOf path)) := by
  have hdesc := openPath_descriptor hfile hfirst hparse hopen
  have hpeek : ((Opens.openFile fs .caller path).mapError VmdkError.io).result = .ok file :=
    congrArg (Except.mapError _) hfile
  have hbyte : (Opens.lift (fromIo (file.readExactAt 0 1))).result = .ok [35] := by
    rw [Opens.result_lift, hfirst]
    rfl
  unfold openPath Opens.namedPaths
  rw [Opens.opened_bind_ok hpeek, Opens.opened_bind_ok hbyte, Opens.opened_bind_ok hpeek, if_pos rfl,
    Opens.opened_bind_ok (by rw [Opens.result_lift]; exact hparse), descriptor_opened hdesc]
  exact namedPaths_opening _ _

/-- What a descriptor that begins with `#` lists. -/
theorem extentDependencies_eq {file : Source} (hfile : fs path = .ok file)
    (hfirst : file.readExactAt 0 1 = .ok [35]) :
    (extentDependencies fs path).result = (fromIo (readToString file) >>= fun text =>
      parseTextDescriptor text >>= fun desc => .ok (dependenciesOf (directoryOf path) desc)) := by
  have hpeek : ((Opens.openFile fs .caller path).mapError VmdkError.io).result = .ok file :=
    congrArg (Except.mapError _) hfile
  have hbyte : fromIo (file.readExactAt 0 1) = .ok [35] := by
    rw [hfirst]
    rfl
  unfold extentDependencies
  rw [Opens.result_bind, hpeek]
  change ((Opens.lift (fromIo (file.readExactAt 0 1)) >>= _) : Opens _ _).result = _
  rw [Opens.result_bind, Opens.result_lift, hbyte]
  change (if [35] ≠ [35] then _ else _ : Opens _ _).result = _
  rw [if_neg (fun h => h rfl), Opens.result_bind, hpeek]
  change ((Opens.lift (fromIo (readToString file)) >>= _) : Opens _ _).result = _
  rw [Opens.result_bind, Opens.result_lift]
  refine congrArg _ (funext fun text => ?_)
  rw [Opens.result_bind, Opens.result_lift]
  rfl

end VmdkReader

/-! ## The lines of the list -/

/-- Whether a trimmed line is an extent without a file: its access is `NOACCESS` or its type
`ZERO`. -/
def isHole (line : Text) : Bool :=
  let kinds : Option (Text × Text) := do
    let (access, rest) ← splitToken line
    let (_, rest) ← splitToken rest
    let (extType, _) ← splitToken rest
    return (access, extType)
  kinds.any fun k => k.1 == "NOACCESS".toList || k.2 == "ZERO".toList

/-- The file of a line. -/
def DescriptorLine.file? (dir : FilePath) : DescriptorLine → Option FilePath
  | .flat ext => VmdkReader.namedPath dir ext.filename
  | .sparse ext => VmdkReader.namedPath dir ext.filename
  | _ => none

/-- The files of the lines that are no holes, in file order. -/
def lineFiles (dir : FilePath) (text : Text) : List FilePath :=
  ((lines (cleanText text)).filter fun l => !isHole (trim l)).filterMap fun l =>
    (lineOf l).file? dir

theorem tryParseFlatExtent_isZero {line : Text} {ext : ExtentEntry}
    (h : tryParseFlatExtent line = some ext) :
    ext.isZero = isHole line ∧ (ext.isZero = true → ext.filename = []) := by
  unfold tryParseFlatExtent at h
  obtain ⟨⟨access, rest⟩, haccess, h⟩ := Option.bind_eq_some_iff.mp h
  obtain ⟨_, -, h⟩ := Option.bind_eq_some_iff.mp h
  obtain ⟨⟨sectors, rest⟩, hsectors, h⟩ := Option.bind_eq_some_iff.mp h
  obtain ⟨n, -, h⟩ := Option.bind_eq_some_iff.mp h
  obtain ⟨⟨extType, rest⟩, htype, h⟩ := Option.bind_eq_some_iff.mp h
  obtain ⟨_, -, h⟩ := Option.bind_eq_some_iff.mp h
  have hhole : isHole line = (access == "NOACCESS".toList || extType == "ZERO".toList) := by
    unfold isHole
    simp only [haccess, hsectors, htype, bind, Option.bind, pure, Option.any_some]
  simp only at h
  split at h
  · next hzero =>
    cases h
    refine ⟨?_, fun _ => rfl⟩
    rw [hhole]
    rcases hzero with hzero | hzero
    · rw [hzero, beq_self_eq_true, Bool.or_true]
    · rw [hzero, beq_self_eq_true, Bool.true_or]
  · next hzero =>
    obtain ⟨⟨filename, remaining⟩, -, h⟩ := Option.bind_eq_some_iff.mp h
    cases h
    refine ⟨?_, fun hz => by cases hz⟩
    rw [hhole]
    simpa [not_or, and_comm] using hzero

theorem tryParseSparseExtent_not_hole {line : Text} {ext : SparseEntry}
    (h : tryParseSparseExtent line = some ext) : isHole line = false := by
  unfold tryParseSparseExtent at h
  obtain ⟨⟨access, rest⟩, haccess, h⟩ := Option.bind_eq_some_iff.mp h
  obtain ⟨_, hread, h⟩ := Option.bind_eq_some_iff.mp h
  obtain ⟨⟨sectors, rest⟩, hsectors, h⟩ := Option.bind_eq_some_iff.mp h
  obtain ⟨n, -, h⟩ := Option.bind_eq_some_iff.mp h
  obtain ⟨⟨extType, rest⟩, htype, h⟩ := Option.bind_eq_some_iff.mp h
  obtain ⟨_, hkind, h⟩ := Option.bind_eq_some_iff.mp h
  have haccess' := (Option.guard_eq_some' _).mp hread
  have htype' := (Option.guard_eq_some' _).mp hkind
  unfold isHole
  simp only [haccess, hsectors, htype, bind, Option.bind, pure, Option.any_some]
  have hno : ∀ access ∈ ["RW", "RDONLY"].map String.toList,
      (access == "NOACCESS".toList) = false := by decide
  have hnz : ∀ extType ∈ sparseTypes, (extType == "ZERO".toList) = false := by decide
  rw [hno access haccess', hnz extType htype']
  rfl

theorem lineOf_eq_flat {line : Text} {ext : ExtentEntry} (h : lineOf line = .flat ext) :
    tryParseFlatExtent (trim line) = some ext := by
  unfold lineOf at h
  simp only at h
  split at h
  · cases h
  split at h
  · cases h
  split at h
  · cases h
  split at h
  · cases h
  split at h
  · next ext' hext =>
    cases h
    exact hext
  split at h <;> cases h

theorem lineOf_eq_sparse {line : Text} {ext : SparseEntry} (h : lineOf line = .sparse ext) :
    tryParseSparseExtent (trim line) = some ext := by
  unfold lineOf at h
  simp only at h
  split at h
  · cases h
  split at h
  · cases h
  split at h
  · cases h
  split at h
  · cases h
  split at h
  · cases h
  split at h
  · next ext' hext =>
    cases h
    exact hext
  · cases h

/-- A hole has no file. -/
theorem file?_of_hole {line : Text} (dir : FilePath) (h : isHole (trim line) = true) :
    (lineOf line).file? dir = none := by
  cases hline : lineOf line with
  | flat ext =>
    obtain ⟨hzero, hname⟩ := tryParseFlatExtent_isZero (lineOf_eq_flat hline)
    change VmdkReader.namedPath dir ext.filename = none
    rw [hname (hzero.trans h)]
    rfl
  | sparse ext =>
    have hno := tryParseSparseExtent_not_hole (lineOf_eq_sparse hline)
    rw [h] at hno
    cases hno
  | _ => rfl

namespace VmdkReader
variable {fs : FileSystem} {path dir : FilePath} {desc desc' : TextDescriptor} {r : VmdkReader}
  {text : Text}

/-- **The list has the files of the lines that are no holes**, the flat ones first. -/
theorem dependenciesOf_lines (hparse : parseTextDescriptor text = .ok desc) (dir : FilePath) :
    (dependenciesOf dir desc).Perm (lineFiles dir text) := by
  obtain ⟨-, hflats, hsparses⟩ := parseTextDescriptor_lines hparse
  let isFlat (l : Text) : Bool := (lineOf l).flat?.isSome
  let file (l : Text) : Option FilePath := (lineOf l).file? dir
  have hflat (l : Text) : ((lineOf l).flat?.bind fun ext =>
      if ext.isZero then none else namedPath dir ext.filename) =
        if isFlat l then file l else none := by
    cases hline : lineOf l with
    | flat ext =>
      obtain ⟨-, hname⟩ := tryParseFlatExtent_isZero (lineOf_eq_flat hline)
      simp only [isFlat, file, hline, DescriptorLine.flat?, DescriptorLine.file?, Option.bind_some,
        Option.isSome_some, if_true]
      split
      · next hz =>
        rw [hname hz]
        rfl
      · rfl
    | _ => simp only [isFlat, hline, DescriptorLine.flat?, Option.isSome_none]; rfl
  have hsparse (l : Text) : ((lineOf l).sparse?.bind fun ext => namedPath dir ext.filename) =
      if !isFlat l then file l else none := by
    cases hline : lineOf l with
    | sparse ext => simp only [isFlat, file, hline]; rfl
    | _ => simp only [isFlat, file, hline]; rfl
  have hholes (l : Text) : file l = if !isHole (trim l) then file l else none := by
    cases hhole : isHole (trim l) with
    | true => exact file?_of_hole dir hhole
    | false => rfl
  unfold dependenciesOf lineFiles
  rw [hflats, hsparses, List.filterMap_filterMap, List.filterMap_filterMap, List.filterMap_filter,
    ← funext hholes]
  simp only [hflat, hsparse]
  rw [← List.filterMap_filter, ← List.filterMap_filter, ← List.filterMap_append]
  exact (List.filter_append_perm isFlat _).filterMap file

/-- The paths of the extents that have a name, flat ones before sparse ones. -/
def writtenPaths (dir : FilePath) (desc : TextDescriptor) : List FilePath :=
  ((desc.extents.map ExtentEntry.filename ++ desc.sparseExtents.map SparseEntry.filename).filter
    fun name => !name.isEmpty).map (FilePath.join dir)

theorem filterMap_namedPath {α : Type} (dir : FilePath) (name : α → Text) (xs : List α) :
    xs.filterMap (fun x => namedPath dir (name x)) =
      ((xs.map name).filter fun n => !n.isEmpty).map (FilePath.join dir) := by
  induction xs with
  | nil => rfl
  | cons x xs ih =>
    cases hname : (name x).isEmpty with
    | true =>
      rw [List.filterMap_cons_none (by unfold namedPath; rw [hname]; rfl), List.map_cons,
        List.filter_cons_of_neg (by rw [hname]; decide), ih]
    | false =>
      rw [List.filterMap_cons_some (by unfold namedPath; rw [hname]; rfl), List.map_cons,
        List.filter_cons_of_pos (by rw [hname]; rfl), List.map_cons, ih]

/-- A hole among the parsed extents has no name. -/
theorem filename_of_isZero (hparse : parseTextDescriptor text = .ok desc) {ext : ExtentEntry}
    (hext : ext ∈ desc.extents) (hzero : ext.isZero = true) : ext.filename = [] := by
  obtain ⟨-, hflats, -⟩ := parseTextDescriptor_lines hparse
  rw [hflats] at hext
  obtain ⟨line, -, hline⟩ := List.mem_filterMap.mp hext
  cases hl : lineOf line with
  | flat ext' =>
    rw [hl] at hline
    cases hline
    exact (tryParseFlatExtent_isZero (lineOf_eq_flat hl)).2 hzero
  | _ =>
    rw [hl] at hline
    cases hline

/-- The extents that a parsed descriptor lists are those that have a name. -/
theorem dependenciesOf_eq (hparse : parseTextDescriptor text = .ok desc) (dir : FilePath) :
    dependenciesOf dir desc = writtenPaths dir desc := by
  have hflat : ∀ ext ∈ desc.extents,
      (if ext.isZero then none else namedPath dir ext.filename) = namedPath dir ext.filename := by
    intro ext hext
    split
    · next hzero =>
      rw [filename_of_isZero hparse hext hzero]
      rfl
    · rfl
  unfold dependenciesOf writtenPaths
  rw [List.filterMap_congr hflat, List.filter_append, List.map_append, filterMap_namedPath,
    filterMap_namedPath]

/-- The list has every file that opening the descriptor opens, in order, and no line but those that
are no holes has added to it. -/
def Discovers (fs : FileSystem) (path : FilePath) (file : Source) : Prop :=
  ∃ deps, (extentDependencies fs path).result = .ok deps ∧
    (openPath fs .caller path).namedPaths.Sublist deps ∧
    deps.Perm (lineFiles (directoryOf path) (fromUtf8Lossy file.bytes))

/-- The descriptor reads as UTF-8, and so read it names the extents that are used, as the declared
encoding names them. -/
def ReadsAlike (dir : FilePath) (bytes : List UInt8) (desc : TextDescriptor) : Prop :=
  ∃ text desc', fromUtf8 bytes = some text ∧ parseTextDescriptor text = .ok desc' ∧
    ((usedNames desc).map (FilePath.join dir)).Sublist (writtenPaths dir desc')

/-- **The list has what is opened exactly when the two readings agree.** -/
theorem companions_exact {file : Source} (hfile : fs path = .ok file)
    (hfirst : file.readExactAt 0 1 = .ok [35])
    (hparse : parseTextDescriptor (decodeDescriptor file.bytes) = .ok desc)
    (hopen : (openPath fs .caller path).result = .ok r) :
    Discovers fs path file ↔ ReadsAlike (directoryOf path) file.bytes desc := by
  unfold Discovers ReadsAlike
  rw [extentDependencies_eq hfile hfirst, openPath_namedPaths hfile hfirst hparse hopen]
  constructor
  · rintro ⟨deps, hdeps, hsub, -⟩
    obtain ⟨text, htext, hdeps⟩ := bind_eq_ok.mp hdeps
    obtain ⟨desc', hparse', hdeps⟩ := bind_eq_ok.mp hdeps
    cases hdeps
    rw [dependenciesOf_eq hparse'] at hsub
    refine ⟨text, desc', ?_, hparse', hsub⟩
    rw [fromIo_eq_ok] at htext
    unfold readToString at htext
    split at htext
    · next text' hutf8 =>
      cases htext
      exact hutf8
    · cases htext
  · rintro ⟨text, desc', htext, hparse', hsub⟩
    have hread : readToString file = .ok text := by
      unfold readToString
      rw [htext]
    refine ⟨dependenciesOf (directoryOf path) desc', ?_, ?_, ?_⟩
    · rw [hread]
      change (parseTextDescriptor text >>= _) = _
      rw [hparse']
      rfl
    · rw [dependenciesOf_eq hparse']
      exact hsub
    · rw [← fromUtf8_eq_some htext]
      exact dependenciesOf_lines hparse' _

/-! ## Where the readings agree -/

theorem usedNames_sublist (desc : TextDescriptor) : (usedNames desc).Sublist
    (desc.extents.map ExtentEntry.filename ++ desc.sparseExtents.map SparseEntry.filename) := by
  unfold usedNames
  split
  · exact (List.filter_sublist.map _).trans (List.sublist_append_left _ _)
  · exact List.sublist_append_right _ _
  · refine List.Sublist.trans ?_ (List.sublist_append_right _ _)
    cases desc.sparseExtents with
    | nil => exact List.Sublist.refl _
    | cons entry rest => exact (List.nil_sublist _).cons_cons _
  · exact List.nil_sublist _

theorem cleanText_cleanText (text : Text) : cleanText (cleanText text) = cleanText text :=
  List.takeWhile_idem

/-- The readings agree where the two decoders do and every used extent has a name. -/
theorem readsAlike_of_decodes {bytes : List UInt8} (hutf8 : fromUtf8 bytes = some text)
    (hdecodes : decodeDescriptor bytes = cleanText text)
    (hparse : parseTextDescriptor (decodeDescriptor bytes) = .ok desc)
    (hnames : ∀ name ∈ usedNames desc, name ≠ []) : ReadsAlike dir bytes desc := by
  refine ⟨text, desc, hutf8, ?_, ?_⟩
  · unfold parseTextDescriptor at hparse ⊢
    rwa [hdecodes, cleanText_cleanText] at hparse
  · have hall : (usedNames desc).filter (fun name => !name.isEmpty) = usedNames desc := by
      refine List.filter_eq_self.mpr fun name hname => ?_
      cases name with
      | nil => exact absurd rfl (hnames [] hname)
      | cons c cs => rfl
    unfold writtenPaths
    rw [← hall]
    exact ((usedNames_sublist desc).filter _).map _

/-- They agree on a file in UTF-8 that does not say it is in windows-1252. -/
theorem readsAlike_of_utf8 {bytes : List UInt8} (hutf8 : fromUtf8 bytes = some text)
    (hlabel : ¬ (declaredEncoding (cleanText text)).any (eqIgnoreAsciiCase "windows-1252".toList))
    (hparse : parseTextDescriptor (decodeDescriptor bytes) = .ok desc)
    (hnames : ∀ name ∈ usedNames desc, name ≠ []) : ReadsAlike dir bytes desc := by
  have hcut : fromUtf8Lossy (bytes.takeWhile (· != 0)) = cleanText text := by
    rw [fromUtf8_eq_some hutf8]
    exact fromUtf8Lossy_cut bytes
  refine readsAlike_of_decodes hutf8 ?_ hparse hnames
  unfold decodeDescriptor decodeBytes
  simp only [hcut]
  exact if_neg hlabel

/-- They agree on ASCII, whatever encoding it says it is in. -/
theorem readsAlike_of_ascii {bytes : List UInt8} (hascii : ∀ b ∈ bytes, b.toNat < 128)
    (hparse : parseTextDescriptor (decodeDescriptor bytes) = .ok desc)
    (hnames : ∀ name ∈ usedNames desc, name ≠ []) : ReadsAlike dir bytes desc := by
  have hcut : fromUtf8Lossy (bytes.takeWhile (· != 0)) = cleanText (fromUtf8Lossy bytes) :=
    fromUtf8Lossy_cut bytes
  have hbefore : ∀ b ∈ bytes.takeWhile (· != 0), b.toNat < 128 := fun b hb =>
    hascii b ((List.takeWhile_sublist _).subset hb)
  have hutf8 : fromUtf8 bytes = some (fromUtf8Lossy bytes) := by
    rw [fromUtf8_ascii hascii, fromUtf8Lossy_ascii hascii]
  refine readsAlike_of_decodes hutf8 ?_ hparse hnames
  unfold decodeDescriptor decodeBytes
  simp only
  split
  · rw [← hcut, fromUtf8Lossy_ascii hbefore]
    unfold decodeWindows1252
    refine List.map_congr_left fun b hb => ?_
    have hlt := hbefore b hb
    simp only
    rw [if_neg (by omega)]
  · exact hcut

/-! ## A descriptor in windows-1252 -/

/-- A flat disk of one sector whose extent is named `é`. -/
def accentText : Text :=
  "#\nencoding=\"windows-1252\"\ncreateType=\"monolithicFlat\"\nRW 1 FLAT \"é\" 0".toList

theorem length_accentText : accentText.length < 2 ^ 63 := by decide +kernel

/-- The descriptor, and beside it the extent. -/
def accentFiles : FileSystem := fun path =>
  if path = ['d'] then .ok (textFile accentText length_accentText)
  else if path = ['é'] then .ok (.ofBytes [7] (by decide))
  else .error ⟨.notFound, "No such file or directory (os error 2)"⟩

/-- It opens, with its extent, and is not UTF-8: nothing is listed. -/
theorem companions_missing_accentText :
    ∃ r, (openPath accentFiles .caller ['d']).result = .ok r ∧
      (openPath accentFiles .caller ['d']).namedPaths = [['é']] ∧
      (extentDependencies accentFiles ['d']).result =
        .error (.io (invalidData "stream did not contain valid UTF-8")) ∧
      ¬ Discovers accentFiles ['d'] (textFile accentText length_accentText) := by
  obtain ⟨r, hr⟩ := exists_of_isOk (x := (openPath accentFiles .caller ['d']).result)
    (by decide +kernel)
  have hlist : (extentDependencies accentFiles ['d']).result =
      .error (.io (invalidData "stream did not contain valid UTF-8")) := by decide +kernel
  refine ⟨r, hr, by decide +kernel, hlist, ?_⟩
  rintro ⟨deps, hdeps, -⟩
  rw [hlist] at hdeps
  cases hdeps

/-- The same disk with an extent that is named in ASCII. -/
def plainText : Text :=
  "#\nencoding=\"windows-1252\"\ncreateType=\"monolithicFlat\"\nRW 1 FLAT \"e\" 0".toList

theorem length_plainText : plainText.length < 2 ^ 63 := by decide +kernel

def plainFiles : FileSystem := fun path =>
  if path = ['d'] then .ok (textFile plainText length_plainText) else .ok (.ofBytes [7] (by decide))

theorem companions_exact_plainText :
    Discovers plainFiles ['d'] (textFile plainText length_plainText) := by
  obtain ⟨r, hr⟩ := exists_of_isOk (x := (openPath plainFiles .caller ['d']).result)
    (by decide +kernel)
  have hnames : (parseTextDescriptor (decodeDescriptor (textBytes plainText))).map usedNames =
      .ok [['e']] := by decide +kernel
  obtain ⟨desc, hdesc, hnames⟩ := exists_of_map_eq hnames
  have hfile : plainFiles ['d'] = .ok (textFile plainText length_plainText) := rfl
  have hfirst : (textFile plainText length_plainText).readExactAt 0 1 = .ok [35] := by
    decide +kernel
  refine (companions_exact hfile hfirst hdesc hr).mpr
    (readsAlike_of_ascii (by decide +kernel) hdesc fun name hname => ?_)
  rw [hnames] at hname
  rw [List.mem_singleton.mp hname]
  exact List.cons_ne_nil _ _

end VmdkReader
