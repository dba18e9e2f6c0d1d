import Vmdk.Metadata
import Vmdk.Companions

/-! # Names that lead out of the directory

Every branch but `seSparse` resolves the names of a descriptor with
`resolveExtentPath`, which refuses those that lead out of its directory. That
one joins the name as it is (`VmdkReader.confinement_exact`). -/

open Bytes Text Word

namespace VmdkReader
variable {fs : FileSystem} {origin : Origin} {path dir : FilePath} {desc : TextDescriptor}
  {name : Text} {r : VmdkReader} {α : Type} {o : Opened}

/-- The name has a root or a `..` in it. -/
def Escapes (name : Text) : Prop := (FilePath.components name).any FilePath.Component.escapes = true

instance : Decidable (Escapes name) := inferInstanceAs (Decidable (_ = true))

/-- If it was a descriptor that named the file, then by a name that stays inside its directory, and
so does the path. -/
def Confined (o : Opened) : Prop :=
  ∀ dir name, o.origin = .named dir name → ¬ Escapes name ∧ FilePath.Within dir o.path

theorem confined_caller : Confined ⟨.caller, path⟩ := fun dir name h => by cases h

theorem confined_join (h : ¬ Escapes name) : Confined (opening dir name) := by
  intro dir' name' horigin
  obtain ⟨rfl, rfl⟩ := Origin.named.inj horigin
  exact ⟨h, FilePath.within_join (by simpa [Escapes] using h)⟩

theorem confined_resolved {p : FilePath} (h : resolveExtentPath dir name = .ok p) :
    Confined ⟨.named dir name, p⟩ := by
  obtain ⟨hname, rfl⟩ := resolveExtentPath_ok h
  exact confined_join (by simpa [Escapes] using hname)

/-! ## Extents -/

theorem openExtent_confined (ext : ExtentEntry) :
    (MultiExtentReader.openExtent fs dir ext).All Confined := by
  unfold MultiExtentReader.openExtent
  split
  · exact Opens.all_pure _
  · refine (Opens.all_lift _).bind fun p hp => ?_
    refine Opens.All.bind (Opens.all_openFile (confined_resolved hp)).mapError fun file _ => ?_
    exact Opens.all_pure _

theorem flatExtents_confined : (openFlatExtents fs dir desc).All Confined := by
  have hfrom : ∀ (exts : List ExtentEntry) (virt : Nat),
      (MultiExtentReader.openFrom fs dir virt exts).All Confined := by
    intro exts
    induction exts with
    | nil => exact fun virt => Opens.all_pure _
    | cons ext rest ih =>
      intro virt
      unfold MultiExtentReader.openFrom
      exact (openExtent_confined ext).bind fun file _ =>
        (ih _).bind fun out _ => Opens.all_pure _
  have hopen : (MultiExtentReader.open fs dir desc.extents).All Confined :=
    (hfrom _ _).bind fun out _ => Opens.all_pure _
  exact hopen.mapError.bind fun multi _ => (Opens.all_lift _).bind fun _ _ => Opens.all_pure _

theorem sparseExtents_confined : (openSparseExtents fs dir desc).All Confined := by
  have hfrom : ∀ (entries : List SparseEntry) (byteOffset : Nat),
      (MultiSparseReader.openFrom fs dir byteOffset entries).All Confined := by
    intro entries
    induction entries with
    | nil => exact fun byteOffset => Opens.all_pure _
    | cons entry rest ih =>
      intro byteOffset
      unfold MultiSparseReader.openFrom
      refine (Opens.all_lift _).bind fun p hp => ?_
      refine Opens.All.bind (Opens.all_openFile (confined_resolved hp)) fun file _ => ?_
      refine (Opens.all_lift _).bind fun chunk _ => ?_
      exact (ih _).bind fun out _ => Opens.all_pure _
  have hopen : (MultiSparseReader.open fs dir desc.sparseExtents).All Confined :=
    (hfrom _ _).bind fun out _ => Opens.all_pure _
  exact hopen.mapError.bind fun multi _ => (Opens.all_lift _).bind fun _ _ => Opens.all_pure _

/-- The extent that a `seSparse` descriptor is opened as has a name that stays inside. -/
def SeNameConfined (desc : TextDescriptor) : Prop :=
  branchOf desc = some .seSparse → ∀ entry, desc.sparseExtents.head? = some entry →
    ¬ Escapes entry.filename

theorem openDescriptor_confined :
    (openDescriptor fs dir desc).All Confined ↔ SeNameConfined desc := by
  unfold SeNameConfined
  rcases @openDescriptor_eq fs dir desc with ⟨e, hb, heq⟩ | ⟨hb, heq⟩ | ⟨hb, heq⟩ | ⟨hb, heq⟩
  · rw [heq, hb]
    exact ⟨fun _ hse => (nomatch hse), fun _ => Opens.all_lift _⟩
  · rw [heq, hb]
    exact ⟨fun _ hse => (nomatch hse), fun _ => flatExtents_confined⟩
  · rw [heq, hb]
    exact ⟨fun _ hse => (nomatch hse), fun _ => sparseExtents_confined⟩
  · rw [heq]
    unfold openSesparseDescriptor
    cases hhead : desc.sparseExtents.head? with
    | none => exact ⟨fun _ _ entry h => (nomatch h), fun _ => Opens.all_lift _⟩
    | some entry =>
      have hopened : ((Opens.openFile fs (.named dir entry.filename)
          (FilePath.join dir entry.filename)).mapError VmdkError.io >>= fun file =>
            Opens.lift (VmdkReader.open file)).opened = [opening dir entry.filename] :=
        Opens.opened_bind_silent fun file => rfl
      show (∀ o ∈ _, Confined o) ↔ _
      rw [hopened, List.forall_mem_singleton]
      constructor
      · intro hconfined _ entry' hentry
        obtain rfl := Option.some.inj hentry
        exact (hconfined _ _ rfl).1
      · intro h
        exact confined_join (h hb entry rfl)

/-! ## Paths -/

/-- The descriptor that `openPath` finds at a path. -/
def descriptorAt (fs : FileSystem) (path : FilePath) : Option TextDescriptor := do
  let file ← (fs path).toOption
  let firstByte ← (file.readExactAt 0 1).toOption
  if firstByte = [35] then (parseTextDescriptor (decodeDescriptor file.bytes)).toOption else none

theorem descriptorAt_eq_some : descriptorAt fs path = some desc ↔ ∃ file, fs path = .ok file ∧
    file.readExactAt 0 1 = .ok [35] ∧
      parseTextDescriptor (decodeDescriptor file.bytes) = .ok desc := by
  unfold descriptorAt
  simp only [Option.bind_eq_bind, Option.bind_eq_some_iff, toOption_eq_some]
  constructor
  · rintro ⟨file, hfile, first, hfirst, h⟩
    split at h
    · next h35 =>
      subst h35
      exact ⟨file, hfile, hfirst, toOption_eq_some.mp h⟩
    · cases h
  · rintro ⟨file, hfile, hfirst, hparse⟩
    exact ⟨file, hfile, [35], hfirst, (if_pos rfl).trans (toOption_eq_some.mpr hparse)⟩

/-- The files that opening by path opens: the file itself, and what its descriptor names. -/
theorem openPath_opened : o ∈ (openPath fs origin path).opened ↔ o = ⟨origin, path⟩ ∨ ∃ desc,
    descriptorAt fs path = some desc ∧ o ∈ (openDescriptor fs (directoryOf path) desc).opened := by
  have hself : o ∈ (Opens.openFile fs origin path).opened ↔ o = ⟨origin, path⟩ :=
    List.mem_singleton
  unfold openPath
  simp only [Opens.mem_opened_bind, Opens.opened_mapError, Opens.result_mapError, mapError_eq_ok,
    Opens.result_lift, Opens.opened_lift, fromIo_eq_ok, List.not_mem_nil, false_or, hself,
    descriptorAt_eq_some]
  constructor
  · rintro (rfl | ⟨peek, hpeek, first, hfirst, rfl | ⟨file, hfile, ho⟩⟩)
    · exact .inl rfl
    · exact .inl rfl
    · obtain rfl : peek = file := Except.ok.inj (hpeek.symm.trans hfile)
      split at ho
      · next h35 =>
        subst h35
        rw [Opens.mem_opened_bind, Opens.opened_lift, Opens.result_lift] at ho
        rcases ho with ho | ⟨desc, hparse, ho⟩
        · cases ho
        · exact .inr ⟨desc, ⟨peek, hfile, hfirst, hparse⟩, ho⟩
      · cases ho
  · rintro (rfl | ⟨desc, ⟨file, hfile, hfirst, hparse⟩, ho⟩)
    · exact .inl rfl
    · refine .inr ⟨file, hfile, [35], hfirst, .inr ⟨file, hfile, ?_⟩⟩
      rw [if_pos rfl, Opens.mem_opened_bind, Opens.result_lift]
      exact .inr ⟨desc, hparse, ho⟩

theorem openPath_descriptorAt (h : descriptorAt fs path = some desc)
    (hopen : (openPath fs origin path).result = .ok r) :
    (openDescriptor fs (directoryOf path) desc).result = .ok r := by
  obtain ⟨file, hfile, hfirst, hparse⟩ := descriptorAt_eq_some.mp h
  exact openPath_descriptor hfile hfirst hparse hopen

/-- The name that a `seSparse` descriptor at the path opens stays inside. -/
def SeConfinedAt (fs : FileSystem) (path : FilePath) : Prop :=
  ∀ desc, descriptorAt fs path = some desc → SeNameConfined desc

theorem openPath_confined (h : Confined ⟨origin, path⟩) :
    (openPath fs origin path).All Confined ↔ SeConfinedAt fs path := by
  constructor
  · intro hall desc hdesc
    refine (@openDescriptor_confined fs (directoryOf path) desc).mp fun o ho => ?_
    exact hall o (openPath_opened.mpr (.inr ⟨desc, hdesc, ho⟩))
  · intro hse o ho
    rcases openPath_opened.mp ho with rfl | ⟨desc, hdesc, ho⟩
    · exact h
    · exact openDescriptor_confined.mpr (hse desc hdesc) o ho

/-- Nothing that the descriptors at `places` name leads out: every file that is opened is confined, and
the call fails where one of them would open an extent by a name that escapes, without opening it. -/
structure RefusesEscapes (fs : FileSystem) (places : List FilePath) (x : Opens VmdkError α) : Prop where
  confined : x.All Confined
  refused : ∀ path ∈ places, ∀ desc, descriptorAt fs path = some desc →
    ∀ name ∈ usedNames desc, Escapes name → (∃ e, x.result = .error e) ∧
      ∀ o ∈ x.opened, o.origin ≠ .named (directoryOf path) name

/-- A call that opens every place it comes to, and only confined files, refuses names that escape. -/
theorem refusesEscapes_of_confined {places : List FilePath} {x : Opens VmdkError α}
    (h : x.All Confined) (hplaces : ∀ a, x.result = .ok a → ∀ path ∈ places, ∃ origin r,
      (openPath fs origin path).result = .ok r ∧
        ∀ o ∈ (openPath fs origin path).opened, o ∈ x.opened) : RefusesEscapes fs places x := by
  refine ⟨h, fun path hpath desc hdesc name hname hescapes => ⟨?_, fun o ho horigin => ?_⟩⟩
  · cases hx : x.result with
    | error e => exact ⟨e, rfl⟩
    | ok a =>
      obtain ⟨origin, r, hopen, hsub⟩ := hplaces a hx path hpath
      have hopened := descriptor_opened (openPath_descriptorAt hdesc hopen)
      have hmem : opening (directoryOf path) name ∈ x.opened := by
        refine hsub _ (openPath_opened.mpr (.inr ⟨desc, hdesc, ?_⟩))
        rw [hopened]
        exact List.mem_map_of_mem hname
      exact absurd hescapes (h _ hmem _ _ rfl).1
  · exact (h o ho _ _ horigin).1 hescapes

end VmdkReader

/-! ## Chains -/

namespace VmdkChainReader
open VmdkReader
variable {fs : FileSystem} {levels : Nat} {origin : Origin} {path : FilePath}

/-- The calls that the walk makes are of confined files. -/
theorem calls_confined (h : Confined ⟨origin, path⟩) : ∀ c ∈ calls fs levels origin path, Confined c := by
  induction levels generalizing origin path with
  | zero => exact List.forall_mem_singleton.mpr h
  | succ levels ih =>
    rw [calls]
    refine List.forall_mem_cons.mpr ⟨h, ?_⟩
    split
    · exact List.forall_mem_nil _
    · split
      · exact List.forall_mem_nil _
      · split
        · exact List.forall_mem_nil _
        · next path' hnext => exact ih (confined_resolved hnext)

/-- A walk that succeeds opens every file that it comes to. -/
theorem calls_opened {layers : List VmdkReader}
    (h : (openLayers fs levels origin path).result = .ok layers) :
    ∀ c ∈ calls fs levels origin path, ∃ r, (openPath fs c.origin c.path).result = .ok r := by
  induction levels generalizing origin path layers with
  | zero =>
    unfold openLayers at h
    rw [Opens.result_bind] at h
    obtain ⟨r, hr, -⟩ := bind_eq_ok.mp h
    exact List.forall_mem_singleton.mpr ⟨r, hr⟩
  | succ levels ih =>
    unfold openLayers at h
    rw [Opens.result_bind] at h
    obtain ⟨r, hr, h⟩ := bind_eq_ok.mp h
    rw [calls]
    refine List.forall_mem_cons.mpr ⟨⟨r, hr⟩, ?_⟩
    simp only [hr]
    by_cases hend : r.EndsChain
    · rw [if_pos hend]
      exact List.forall_mem_nil _
    · obtain ⟨hcid, hhint⟩ := not_or.mp hend
      have hne : extractParentFileName r.descriptorText ≠ [] := hhint
      rw [if_neg hcid, if_neg hne] at h
      simp only [Opens.result_bind, Opens.result_lift, bind_eq_ok, fromIo_eq_ok] at h
      obtain ⟨path', hnext, older, holder, -⟩ := h
      have hresolved : resolveExtentPath (directoryOf path) r.parentHint = .ok path' := hnext
      rw [if_neg hend]
      simp only [hresolved]
      exact ih holder

/-- The paths of the descriptors and images that opening a chain comes to. -/
def places (fs : FileSystem) (path : FilePath) : List FilePath :=
  (calls fs maxChainDepth .caller path).map Opened.path

theorem mem_open_opened {o : Opened} : o ∈ (VmdkChainReader.open fs path).opened ↔
    ∃ c ∈ calls fs maxChainDepth .caller path, o ∈ (openPath fs c.origin c.path).opened := by
  unfold VmdkChainReader.open
  rw [Opens.opened_bind_silent fun layers => rfl, openLayers_opened, List.mem_flatMap]

theorem open_confined : (VmdkChainReader.open fs path).All Confined ↔
    ∀ p ∈ places fs path, SeConfinedAt fs p := by
  have hcalls := @calls_confined fs maxChainDepth .caller path confined_caller
  unfold places
  rw [List.forall_mem_map]
  constructor
  · intro hall c hc
    refine (openPath_confined (hcalls c hc)).mp fun o ho => ?_
    exact hall o (mem_open_opened.mpr ⟨c, hc, ho⟩)
  · intro hse o ho
    obtain ⟨c, hc, ho⟩ := mem_open_opened.mp ho
    exact (openPath_confined (hcalls c hc)).mpr (hse c hc) o ho

/-- **Descriptors lead nowhere outside their directory** exactly where those of type `seSparse` name an
extent inside it, in opening a path and in opening a chain. -/
theorem confinement_exact (fs : FileSystem) (path : FilePath) :
    (RefusesEscapes fs [path] (openPath fs .caller path) ↔ SeConfinedAt fs path) ∧
    (RefusesEscapes fs (places fs path) (VmdkChainReader.open fs path) ↔
      ∀ p ∈ places fs path, SeConfinedAt fs p) := by
  refine ⟨⟨fun h => (openPath_confined confined_caller).mp h.confined, fun h => ?_⟩,
    ⟨fun h => open_confined.mp h.confined, fun h => ?_⟩⟩
  · refine refusesEscapes_of_confined ((openPath_confined confined_caller).mpr h) fun r hr p hp => ?_
    rw [List.mem_singleton.mp hp]
    exact ⟨.caller, r, hr, fun o ho => ho⟩
  · refine refusesEscapes_of_confined (open_confined.mpr h) fun chain hchain p hp => ?_
    obtain ⟨c, hc, rfl⟩ := List.mem_map.mp hp
    unfold VmdkChainReader.open at hchain
    rw [Opens.result_bind] at hchain
    obtain ⟨layers, hlayers, -⟩ := bind_eq_ok.mp hchain
    obtain ⟨r, hr⟩ := calls_opened hlayers c hc
    exact ⟨c.origin, r, hr, fun o ho => mem_open_opened.mpr ⟨c, hc, ho⟩⟩

/-! ## A `seSparse` extent elsewhere -/

def climbingText : Text := "#\ncreateType=\"seSparse\"\nRW 8 SESPARSE \"../e\"".toList

/-- A `seSparse` descriptor, and an extent wherever it is looked for. -/
def climbingFiles : FileSystem := fun path =>
  .ok (if path = ['d'] then textFile climbingText (by decide +kernel) else emptySesparse)

/-- **A file above the directory is opened**, and the image as well. -/
theorem escapes_climbingFiles :
    ⟨.named [] "../e".toList, "../e".toList⟩ ∈ (openPath climbingFiles .caller ['d']).opened ∧
      Escapes "../e".toList ∧ (∃ r, (openPath climbingFiles .caller ['d']).result = .ok r) ∧
      (∃ chain, (VmdkChainReader.open climbingFiles ['d']).result = .ok chain) ∧
      ¬ RefusesEscapes climbingFiles [['d']] (openPath climbingFiles .caller ['d']) := by
  have hopened : ⟨.named [] "../e".toList, "../e".toList⟩ ∈
      (openPath climbingFiles .caller ['d']).opened := by decide +kernel
  have hescapes : Escapes "../e".toList := by decide +kernel
  refine ⟨hopened, hescapes, exists_of_isOk (by decide +kernel), exists_of_isOk (by decide +kernel), ?_⟩
  intro h
  exact (h.confined _ hopened _ _ rfl).1 hescapes

end VmdkChainReader
