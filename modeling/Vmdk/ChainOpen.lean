import Vmdk.Chain
import Vmdk.Encode
import Vmdk.OpenCases
import Vmdk.Lib.Lexical

/-! # Opening a chain

`Descends` is the walk from a delta down to its base: each file but the last
names the next one, and the last has no parent or no hint. The loop of
`VmdkChainReader.open` makes that walk and no other, in at most 65 calls of
`openPath`. Where paths that differ by `.` only lead to the same file, the walk
never comes back to a file, and never leaves the directory it began in
(`VmdkChainReader.open_exact`). -/

open Text

/-! ## Path resolution -/

/-- How the operating system resolves paths: what is not a name at its end leads to no file, and
`.` and repeated separators do not matter. -/
structure FileSystem.Resolves (fs : FileSystem) : Prop where
  hasFileName : ∀ {p file}, fs p = .ok file → FilePath.HasFileName p
  lexical : ∀ {p q file}, fs p = .ok file → FilePath.HasFileName q →
    FilePath.names p = FilePath.names q → fs q = .ok file

/-- The file system that looks files up by their names. -/
def FileSystem.ofNames (files : List FilePath.Component → Except IoError Source) : FileSystem :=
  fun p => if FilePath.HasFileName p then files (FilePath.names p)
    else .error ⟨.other, "Is a directory (os error 21)"⟩

theorem FileSystem.ofNames_eq {files : List FilePath.Component → Except IoError Source} {p : FilePath}
    {names : List FilePath.Component} (h : FilePath.HasFileName p ∧ FilePath.names p = names) :
    FileSystem.ofNames files p = files names := by
  unfold FileSystem.ofNames
  rw [if_pos h.1, h.2]

theorem FileSystem.resolves_ofNames (files : List FilePath.Component → Except IoError Source) :
    (FileSystem.ofNames files).Resolves where
  hasFileName := by
    intro p file h
    unfold FileSystem.ofNames at h
    split at h
    · next hname => exact hname
    · cases h
  lexical := by
    intro p q file h hq hnames
    unfold FileSystem.ofNames at h ⊢
    rw [if_pos hq, ← hnames]
    split at h
    · exact h
    · cases h

section
variable {fs : FileSystem} {dir dir' p q : FilePath} {name : Text} {file : Source}

theorem FilePath.names_join_congr (h : FilePath.names dir = FilePath.names dir') (name : Text) :
    FilePath.names (FilePath.join dir name) = FilePath.names (FilePath.join dir' name) := by
  by_cases habs : name.head? = some '/'
  · unfold FilePath.join
    rw [if_pos habs, if_pos habs]
  · rw [FilePath.names_join habs, FilePath.names_join habs, h]

theorem FilePath.hasFileName_join : FilePath.HasFileName (FilePath.join dir name) ↔
    FilePath.HasFileName name := by
  unfold FilePath.HasFileName
  rw [FilePath.lastSegment_join]

/-- A name means the same in two directories that are the same. -/
theorem FileSystem.Resolves.join (h : fs.Resolves) (hdir : FilePath.names dir = FilePath.names dir')
    (hfile : fs (FilePath.join dir name) = .ok file) : fs (FilePath.join dir' name) = .ok file :=
  h.lexical hfile (FilePath.hasFileName_join.mpr (FilePath.hasFileName_join.mp (h.hasFileName hfile)))
    (FilePath.names_join_congr hdir name)

theorem resolveExtentPath_congr (h : resolveExtentPath dir name = .ok p) :
    p = FilePath.join dir name ∧ resolveExtentPath dir' name = .ok (FilePath.join dir' name) := by
  obtain ⟨hconfined, rfl⟩ := resolveExtentPath_ok h
  refine ⟨rfl, ?_⟩
  unfold resolveExtentPath
  rw [if_neg (by rw [hconfined]; decide)]

end

/-! ## The same file under two paths -/

section
variable {fs : FileSystem} {dir dir' path path' : FilePath} (hfs : fs.Resolves)
  (hdir : FilePath.names dir = FilePath.names dir')
include hfs hdir

theorem MultiExtentReader.openFrom_congr {exts : List ExtentEntry} {virt : Nat}
    {out : List FlatExtent × Nat} (h : (openFrom fs dir virt exts).result = .ok out) :
    (openFrom fs dir' virt exts).result = .ok out := by
  induction exts generalizing virt out with
  | nil => exact h
  | cons ext rest ih =>
    unfold openFrom at h ⊢
    simp only [Opens.result_bind, bind_eq_ok, Opens.result_pure] at h ⊢
    obtain ⟨file, hfile, pair, hrest, h⟩ := h
    refine ⟨file, ?_, pair, ih hrest, h⟩
    unfold openExtent at hfile ⊢
    split
    · next hzero =>
      rw [if_pos hzero] at hfile
      exact hfile
    · next hzero =>
      rw [if_neg hzero] at hfile
      simp only [Opens.result_bind, bind_eq_ok, Opens.result_lift, Opens.result_mapError,
        mapError_eq_ok] at hfile ⊢
      obtain ⟨p, hp, source, hsource, hfile⟩ := hfile
      obtain ⟨rfl, hp'⟩ := @resolveExtentPath_congr dir dir' _ _ hp
      exact ⟨_, hp', source, hfs.join hdir hsource, hfile⟩

theorem MultiSparseReader.openFrom_congr {entries : List SparseEntry} {byteOffset : Nat}
    {out : List SparseChunk × Nat} (h : (openFrom fs dir byteOffset entries).result = .ok out) :
    (openFrom fs dir' byteOffset entries).result = .ok out := by
  induction entries generalizing byteOffset out with
  | nil => exact h
  | cons entry rest ih =>
    unfold openFrom at h ⊢
    simp only [Opens.result_bind, bind_eq_ok, Opens.result_pure, Opens.result_lift] at h ⊢
    obtain ⟨p, hp, file, hfile, chunk, hchunk, pair, hrest, h⟩ := h
    obtain ⟨rfl, hp'⟩ := @resolveExtentPath_congr dir dir' _ _ hp
    exact ⟨_, hp', file, hfs.join hdir hfile, chunk, hchunk, pair, ih hrest, h⟩

namespace VmdkReader
variable {desc : TextDescriptor} {r : VmdkReader}

theorem openDescriptor_congr (h : (openDescriptor fs dir desc).result = .ok r) :
    (openDescriptor fs dir' desc).result = .ok r := by
  rcases @openDescriptor_eq fs dir desc with ⟨e, hb, heq⟩ | ⟨hb, heq⟩ | ⟨hb, heq⟩ | ⟨hb, heq⟩
  · rw [heq] at h
    cases h
  · rw [heq] at h
    rw [openDescriptor_flat hb]
    obtain ⟨multi, hmulti, hfits, rfl⟩ := openFlatExtents_ok h
    unfold MultiExtentReader.open at hmulti
    simp only [Opens.result_bind, bind_eq_ok] at hmulti
    obtain ⟨out, hout, hmulti⟩ := hmulti
    unfold openFlatExtents MultiExtentReader.open
    simp only [Opens.result_bind, bind_eq_ok, Opens.result_mapError, mapError_eq_ok,
      Opens.result_lift, ensure_eq_ok, Opens.result_pure]
    exact ⟨multi, ⟨out, MultiExtentReader.openFrom_congr hfs hdir hout, hmulti⟩, ⟨hfits⟩, hfits, rfl⟩
  · rw [heq] at h
    rw [openDescriptor_sparse hb]
    obtain ⟨multi, hmulti, hfits, rfl⟩ := openSparseExtents_ok h
    unfold MultiSparseReader.open at hmulti
    simp only [Opens.result_bind, bind_eq_ok] at hmulti
    obtain ⟨out, hout, hmulti⟩ := hmulti
    unfold openSparseExtents MultiSparseReader.open
    simp only [Opens.result_bind, bind_eq_ok, Opens.result_mapError, mapError_eq_ok,
      Opens.result_lift, ensure_eq_ok, Opens.result_pure]
    exact ⟨multi, ⟨out, MultiSparseReader.openFrom_congr hfs hdir hout, hmulti⟩, ⟨hfits⟩, hfits, rfl⟩
  · rw [heq] at h
    rw [openDescriptor_seSparse hb]
    obtain ⟨entry, file, hentry, hfile, hopen⟩ := openSesparseDescriptor_ok h
    unfold openSesparseDescriptor
    rw [hentry]
    simp only [Opens.result_bind, bind_eq_ok, Opens.result_mapError, mapError_eq_ok,
      Opens.result_lift]
    exact ⟨file, hfs.join hdir hfile, hopen⟩

omit hdir in
/-- **A file that opens under one path opens under every path that says the same.** -/
theorem openPath_congr (h : (openPath fs .caller path).result = .ok r)
    (hname : FilePath.HasFileName path') (hsame : FilePath.names path = FilePath.names path') :
    (openPath fs .caller path').result = .ok r := by
  obtain ⟨file, firstByte, hfile, hfirst, hcase⟩ := openPath_cases h
  have hfile' := hfs.lexical hfile hname hsame
  rcases hcase with ⟨-, hopen⟩ | ⟨rfl, desc, hparse, hopen⟩
  · exact openPath_binary hfile' hopen
  · have hdir : FilePath.names (directoryOf path) = FilePath.names (directoryOf path') := by
      unfold directoryOf
      rw [FilePath.names_parent, FilePath.names_parent, hsame]
    exact openPath_of_descriptor hfile' hfirst hparse (openDescriptor_congr hfs hdir hopen)

end VmdkReader
end

/-! ## The walk down a chain -/

namespace VmdkReader

/-- The parent that the descriptor of a layer names. -/
def parentHint (r : VmdkReader) : Text := VmdkChainReader.extractParentFileName r.descriptorText

/-- A layer below which the chain does not go. -/
def EndsChain (r : VmdkReader) : Prop := r.parentCid = noCid ∨ r.parentHint = []

instance (r : VmdkReader) : Decidable r.EndsChain := inferInstanceAs (Decidable (_ ∨ _))

theorem openPath_origin (fs : FileSystem) (o o' : Origin) (path : FilePath) :
    (openPath fs o path).result = (openPath fs o' path).result := by
  unfold openPath
  simp only [Opens.result_bind, Opens.result_mapError]
  rfl

end VmdkReader

namespace VmdkChainReader
open VmdkReader
variable {fs : FileSystem} {path : FilePath} {layers : List VmdkReader}

/-- The file at `path` names the one at `path'` as its parent. -/
def Names (fs : FileSystem) (path path' : FilePath) : Prop :=
  ∃ r, (openPath fs .caller path).result = .ok r ∧ ¬ r.EndsChain ∧
    resolveExtentPath (directoryOf path) r.parentHint = .ok path'

/-- The files and their readers from `path` down to the base. -/
inductive Descends (fs : FileSystem) : FilePath → List (FilePath × VmdkReader) → Prop
  | base {path : FilePath} {r : VmdkReader} (hopen : (openPath fs .caller path).result = .ok r)
      (hend : r.EndsChain) : Descends fs path [(path, r)]
  | delta {path path' : FilePath} {r : VmdkReader} {older : List (FilePath × VmdkReader)}
      (hopen : (openPath fs .caller path).result = .ok r) (hend : ¬ r.EndsChain)
      (hnext : resolveExtentPath (directoryOf path) r.parentHint = .ok path')
      (holder : Descends fs path' older) : Descends fs path ((path, r) :: older)

theorem openLayers_descends {levels : Nat} {origin : Origin}
    (h : (openLayers fs levels origin path).result = .ok layers) :
    ∃ steps, Descends fs path steps ∧ layers = steps.map Prod.snd := by
  induction levels generalizing origin path layers with
  | zero =>
    unfold openLayers at h
    simp only [Opens.result_bind, bind_eq_ok] at h
    obtain ⟨r, hopen, h⟩ := h
    rw [openPath_origin fs origin .caller] at hopen
    split at h
    · next hcid =>
      cases h
      exact ⟨[(path, r)], .base hopen (.inl hcid), rfl⟩
    · cases h
  | succ levels ih =>
    unfold openLayers at h
    simp only [Opens.result_bind, bind_eq_ok] at h
    obtain ⟨r, hopen, h⟩ := h
    rw [openPath_origin fs origin .caller] at hopen
    split at h
    · next hcid =>
      cases h
      exact ⟨[(path, r)], .base hopen (.inl hcid), rfl⟩
    split at h
    · next hhint =>
      cases h
      exact ⟨[(path, r)], .base hopen (.inr hhint), rfl⟩
    next hcid hhint =>
    simp only [Opens.result_bind, bind_eq_ok, Opens.result_lift, fromIo_eq_ok,
      Opens.result_pure] at h
    obtain ⟨path', hnext, older, holder, h⟩ := h
    cases h
    obtain ⟨steps, hsteps, rfl⟩ := ih holder
    exact ⟨(path, r) :: steps, .delta hopen (not_or.mpr ⟨hcid, hhint⟩) hnext hsteps, rfl⟩

/-- The loop finds every walk that its levels leave room for. -/
theorem Descends.openLayers {steps : List (FilePath × VmdkReader)} (h : Descends fs path steps)
    {levels : Nat} (hlen : steps.length ≤ levels) (origin : Origin) :
    (VmdkChainReader.openLayers fs levels origin path).result = .ok (steps.map Prod.snd) := by
  induction h generalizing levels origin with
  | @base path r hopen hend =>
    cases levels with
    | zero => cases hlen
    | succ levels =>
      unfold VmdkChainReader.openLayers
      rw [Opens.result_bind, openPath_origin fs origin .caller, hopen]
      by_cases hcid : r.parentCid = noCid
      · simp only [bind, Except.bind, if_pos hcid]
        rfl
      · have hhint : extractParentFileName r.descriptorText = [] := hend.resolve_left hcid
        simp only [bind, Except.bind, if_neg hcid, hhint, if_true]
        rfl
  | @delta path path' r older hopen hend hnext holder ih =>
    cases levels with
    | zero => cases hlen
    | succ levels =>
      obtain ⟨hcid, hhint⟩ := not_or.mp hend
      have hne : extractParentFileName r.descriptorText ≠ [] := hhint
      have hnext' : resolveExtentPath (directoryOf path)
          (extractParentFileName r.descriptorText) = .ok path' := hnext
      have holder' := ih (Nat.le_of_succ_le_succ hlen)
        (.named (directoryOf path) (extractParentFileName r.descriptorText))
      unfold VmdkChainReader.openLayers
      rw [Opens.result_bind, openPath_origin fs origin .caller, hopen]
      show (if r.parentCid = noCid then _ else if extractParentFileName r.descriptorText = [] then _
        else _ : Opens VmdkError (List VmdkReader)).result = _
      rw [if_neg hcid, if_neg hne, Opens.result_bind, Opens.result_lift, hnext']
      show (VmdkChainReader.openLayers fs levels _ path' >>= fun older => pure (r :: older)).result = _
      rw [Opens.result_bind, holder']
      rfl

theorem Descends.open {steps : List (FilePath × VmdkReader)} (h : Descends fs path steps)
    (hlen : steps.length ≤ maxChainDepth) :
    (VmdkChainReader.open fs path).result = .ok (ofLayers (steps.map Prod.snd)) := by
  unfold VmdkChainReader.open
  rw [Opens.result_bind, h.openLayers hlen]
  rfl

theorem open_descends {chain : VmdkChainReader}
    (h : (VmdkChainReader.open fs path).result = .ok chain) :
    ∃ steps, Descends fs path steps ∧ chain = ofLayers (steps.map Prod.snd) := by
  unfold VmdkChainReader.open at h
  simp only [Opens.result_bind, bind_eq_ok, Opens.result_pure] at h
  obtain ⟨layers, hlayers, h⟩ := h
  cases h
  obtain ⟨steps, hsteps, rfl⟩ := openLayers_descends hlayers
  exact ⟨steps, hsteps, rfl⟩

/-- The readers on the way are fresh readers of shaped images. -/
theorem Descends.images {steps : List (FilePath × VmdkReader)} (h : Descends fs path steps) :
    ∃ ims : List Image, steps.map Prod.snd = ims.map Image.reader ∧ ims ≠ [] ∧
      ∀ im ∈ ims, im.Shaped := by
  induction h with
  | base hopen hend =>
    obtain ⟨im, rfl, him⟩ := openPath_shaped hopen
    exact ⟨[im], rfl, List.cons_ne_nil _ _, List.forall_mem_singleton.mpr him⟩
  | delta hopen hend hnext holder ih =>
    obtain ⟨im, rfl, him⟩ := openPath_shaped hopen
    obtain ⟨ims, hims, -, hshaped⟩ := ih
    refine ⟨im :: ims, ?_, List.cons_ne_nil _ _, List.forall_mem_cons.mpr ⟨him, hshaped⟩⟩
    rw [List.map_cons, List.map_cons, hims]

/-- **An opened chain** is the chain over the images it opened. -/
theorem open_images {chain : VmdkChainReader}
    (h : (VmdkChainReader.open fs path).result = .ok chain) :
    ∃ ims : List Image, chain = ofLayers (ims.map Image.reader) ∧ ims ≠ [] ∧
      ∀ im ∈ ims, im.Shaped := by
  obtain ⟨steps, hsteps, rfl⟩ := open_descends h
  obtain ⟨ims, hims, hne, hshaped⟩ := hsteps.images
  exact ⟨ims, by rw [hims], hne, hshaped⟩

/-- The calls of `openPath` that the loop makes from `path` down. -/
def calls (fs : FileSystem) : (levels : Nat) → Origin → FilePath → List Opened
  | 0, origin, path => [⟨origin, path⟩]
  | levels + 1, origin, path => ⟨origin, path⟩ ::
    match (openPath fs origin path).result with
    | .error _ => []
    | .ok r =>
      if r.EndsChain then [] else
      match resolveExtentPath (directoryOf path) r.parentHint with
      | .error _ => []
      | .ok path' => calls fs levels (.named (directoryOf path) r.parentHint) path'

theorem calls_length (fs : FileSystem) (levels : Nat) (origin : Origin) (path : FilePath) :
    (calls fs levels origin path).length ≤ levels + 1 := by
  induction levels generalizing origin path with
  | zero => exact Nat.le_refl _
  | succ levels ih =>
    rw [calls, List.length_cons]
    refine Nat.succ_le_succ ?_
    split
    · exact Nat.zero_le _
    · split
      · exact Nat.zero_le _
      · split
        · exact Nat.zero_le _
        · exact ih _ _

/-- **All the files opened are opened by one call of `openPath` a level.** -/
theorem openLayers_opened (fs : FileSystem) (levels : Nat) (origin : Origin) (path : FilePath) :
    (openLayers fs levels origin path).opened =
      (calls fs levels origin path).flatMap fun c => (openPath fs c.origin c.path).opened := by
  induction levels generalizing origin path with
  | zero =>
    unfold openLayers calls
    rw [List.flatMap_singleton, Opens.opened_bind_silent]
    intro r
    split <;> rfl
  | succ levels ih =>
    unfold openLayers calls
    rw [List.flatMap_cons]
    cases hopen : (openPath fs origin path).result with
    | error e => rw [Opens.opened_bind_error hopen, List.flatMap_nil, List.append_nil]
    | ok r =>
      rw [Opens.opened_bind_ok hopen]
      refine congrArg ((openPath fs origin path).opened ++ ·) ?_
      simp only
      by_cases hcid : r.parentCid = noCid
      · rw [if_pos hcid, if_pos (show r.EndsChain from .inl hcid)]
        rfl
      by_cases hhint : extractParentFileName r.descriptorText = []
      · rw [if_neg hcid, if_pos hhint, if_pos (show r.EndsChain from .inr hhint)]
        rfl
      rw [if_neg hcid, if_neg hhint, if_neg (show ¬ r.EndsChain from not_or.mpr ⟨hcid, hhint⟩)]
      have hsame : resolveExtentPath (directoryOf path) r.parentHint =
        resolveExtentPath (directoryOf path) (extractParentFileName r.descriptorText) := rfl
      cases hnext : resolveExtentPath (directoryOf path)
          (extractParentFileName r.descriptorText) with
      | error e =>
        rw [Opens.opened_bind_error (by rw [Opens.result_lift]; rfl), hsame, hnext]
        rfl
      | ok path' =>
        rw [Opens.opened_bind_ok (by rw [Opens.result_lift]; rfl),
          Opens.opened_bind_silent fun older => rfl, hsame, hnext, ih]
        rfl

theorem openLayers_calls (fs : FileSystem) (levels : Nat) (origin : Origin) (path : FilePath) :
    ∃ calls : List Opened, calls.length ≤ levels + 1 ∧ (openLayers fs levels origin path).opened =
      calls.flatMap fun c => (openPath fs c.origin c.path).opened :=
  ⟨_, calls_length fs levels origin path, openLayers_opened fs levels origin path⟩

/-! ## No way back, and no way out -/

/-- Every layer is opened from its own path. -/
theorem Descends.opened {steps : List (FilePath × VmdkReader)} (h : Descends fs path steps) :
    ∃ r, (openPath fs .caller path).result = .ok r := by
  cases h with
  | base hopen => exact ⟨_, hopen⟩
  | delta hopen => exact ⟨_, hopen⟩

section
variable (hfs : fs.Resolves)
include hfs

theorem Descends.hasFileName {steps : List (FilePath × VmdkReader)} (h : Descends fs path steps) :
    FilePath.HasFileName path := by
  obtain ⟨r, hopen⟩ := h.opened
  obtain ⟨file, -, hfile, -⟩ := openPath_cases hopen
  exact hfs.hasFileName hfile

/-- **The way down from a file has one length**, whatever path led to the file. -/
theorem Descends.length_eq {path' : FilePath} {steps steps' : List (FilePath × VmdkReader)}
    (h : Descends fs path steps) (h' : Descends fs path' steps')
    (hsame : FilePath.names path = FilePath.names path') : steps.length = steps'.length := by
  induction h generalizing path' steps' with
  | @base path r hopen hend =>
    have hr := openPath_congr hfs hopen (h'.hasFileName hfs) hsame
    cases h' with
    | base hopen' hend' => rfl
    | delta hopen' hend' =>
      rw [hopen'] at hr
      cases hr
      exact absurd hend hend'
  | @delta path next r older hopen hend hnext holder ih =>
    have hr := openPath_congr hfs hopen (h'.hasFileName hfs) hsame
    cases h' with
    | base hopen' hend' =>
      rw [hopen'] at hr
      cases hr
      exact absurd hend' hend
    | @delta _ next' r' older' hopen' hend' hnext' holder' =>
      rw [hopen'] at hr
      cases hr
      have hdir : FilePath.names (directoryOf path) = FilePath.names (directoryOf path') := by
        unfold directoryOf
        rw [FilePath.names_parent, FilePath.names_parent, hsame]
      obtain ⟨rfl, hjoin⟩ := @resolveExtentPath_congr _ (directoryOf path') _ _ hnext
      rw [hjoin] at hnext'
      cases hnext'
      rw [List.length_cons, List.length_cons, ih holder' (FilePath.names_join_congr hdir _)]

/-- The walk stays in a directory that it has entered. -/
theorem Descends.inside {steps : List (FilePath × VmdkReader)} (h : Descends fs path steps)
    {top : FilePath} {below : List FilePath.Component}
    (hbelow : FilePath.names path = FilePath.names top ++ below) (hne : below ≠ [])
    (hplain : ∀ c ∈ below, c.escapes = false) : ∀ s ∈ steps, FilePath.Inside top s.1 := by
  induction h generalizing below with
  | base hopen hend =>
    intro s hs
    rw [List.mem_singleton.mp hs]
    exact ⟨below, hbelow, hplain⟩
  | @delta path next r older hopen hend hnext holder ih =>
    intro s hs
    rcases List.mem_cons.mp hs with rfl | hs
    · exact ⟨below, hbelow, hplain⟩
    obtain ⟨hconfined, rfl⟩ := resolveExtentPath_ok hnext
    have hname := holder.hasFileName hfs
    obtain ⟨front, name, hlast⟩ :=
      FilePath.below_of_hasFileName (FilePath.hasFileName_join.mp hname)
    have hdir : FilePath.names (directoryOf path) = FilePath.names top ++ below.dropLast := by
      unfold directoryOf
      rw [FilePath.names_parent, hbelow, List.dropLast_append_of_ne_nil hne]
    have hin := @ih (below.dropLast ++ FilePath.below r.parentHint)
    refine hin ?_ ?_ (fun c hc => ?_) s hs
    · rw [FilePath.names_join (FilePath.not_absolute_of_confined (by simpa using hconfined)), hdir,
        List.append_assoc]
    · rw [hlast, ← List.append_assoc]
      exact List.concat_ne_nil _ _
    · rcases List.mem_append.mp hc with hc | hc
      · exact hplain c (List.dropLast_subset _ hc)
      · exact FilePath.filterMap_segment_confined hconfined c hc

omit hfs in
/-- Hints that are followed one after the other lead down the walk. -/
theorem Descends.along {q : Nat → FilePath} {steps : List (FilePath × VmdkReader)} {n : Nat}
    (h : Descends fs (q 0) steps) (hq : ∀ k < n, Names fs (q k) (q (k + 1))) :
    Descends fs (q n) (steps.drop n) := by
  induction n with
  | zero => exact h
  | succ n ih =>
    have hn := ih fun k hk => hq k (Nat.lt_succ_of_lt hk)
    obtain ⟨r, hopen, hend, hnext⟩ := hq n (Nat.lt_succ_self n)
    rw [← List.drop_drop]
    generalize steps.drop n = tail at hn ⊢
    cases hn with
    | base hopen' hend' =>
      rw [hopen] at hopen'
      cases hopen'
      exact absurd hend' hend
    | @delta _ next r' older hopen' hend' hnext' holder =>
      rw [hopen] at hopen'
      cases hopen'
      rw [hnext] at hnext'
      cases hnext'
      exact holder

theorem Descends.no_return {q : Nat → FilePath} {steps : List (FilePath × VmdkReader)} {i j : Nat}
    (h : Descends fs (q 0) steps) (hij : i < j) (hq : ∀ k < j, Names fs (q k) (q (k + 1))) :
    FilePath.names (q i) ≠ FilePath.names (q j) := by
  intro hsame
  have hi := h.along (n := i) fun k hk => hq k (Nat.lt_trans hk hij)
  have hj := h.along hq
  have hlen := hi.length_eq hfs hj hsame
  have hpos : (steps.drop j).length ≠ 0 := by
    generalize steps.drop j = tail at hj
    cases hj with
    | base => exact Nat.succ_ne_zero _
    | delta => exact Nat.succ_ne_zero _
  rw [List.length_drop, List.length_drop] at hlen
  rw [List.length_drop] at hpos
  omega

/-- **Opening a chain follows the hints exactly, and always ends**: after at most 65 calls of
`openPath`; when it succeeds, with the layers of the whole way down, all of them in the directory it
began in; and never when the hints lead back to a file. -/
theorem open_exact (path : FilePath) :
    (∃ calls : List Opened, calls.length ≤ maxChainDepth + 1 ∧
      (VmdkChainReader.open fs path).opened =
        calls.flatMap fun c => (openPath fs c.origin c.path).opened) ∧
    (∀ chain, (VmdkChainReader.open fs path).result = .ok chain →
      ∃ steps, Descends fs path steps ∧ chain.layers = steps.map Prod.snd ∧
        ∀ s ∈ steps, FilePath.Inside (directoryOf path) s.1) ∧
    ∀ q : Nat → FilePath, q 0 = path → ∀ i j, i < j → (∀ k < j, Names fs (q k) (q (k + 1))) →
      FilePath.names (q i) = FilePath.names (q j) →
        ∃ e, (VmdkChainReader.open fs path).result = .error e := by
  refine ⟨?_, fun chain h => ?_, fun q hq i j hij hsteps hsame => ?_⟩
  · unfold VmdkChainReader.open
    rw [Opens.opened_bind_silent fun layers => rfl]
    exact openLayers_calls fs maxChainDepth .caller path
  · obtain ⟨steps, hsteps, rfl⟩ := open_descends h
    obtain ⟨front, name, hname⟩ := FilePath.below_of_hasFileName (hsteps.hasFileName hfs)
    have hnames : FilePath.names path = FilePath.names (directoryOf path) ++ [.normal name] := by
      unfold directoryOf
      rw [FilePath.names_parent, FilePath.names_eq, hname, ← List.append_assoc, List.dropLast_concat]
    refine ⟨steps, hsteps, rfl, hsteps.inside hfs hnames (List.cons_ne_nil _ _) fun c hc => ?_⟩
    rw [List.mem_singleton.mp hc]
    rfl
  · cases h : (VmdkChainReader.open fs path).result with
    | error e => exact ⟨e, rfl⟩
    | ok chain =>
      obtain ⟨steps, hdescends, -⟩ := open_descends h
      exact absurd hsame ((hq ▸ hdescends).no_return hfs hij hsteps)

end

/-- A base, a delta over it, and a delta over itself. -/
def baseText : Text := "#\ncreateType=\"vmfs\"\nRW 1 ZERO".toList

def deltaText (parent : Text) : Text :=
  "#\nparentCID=1\nparentFileNameHint=\"".toList ++ parent ++
    "\"\ncreateType=\"vmfs\"\nRW 1 ZERO".toList

theorem length_deltaText {parent : Text} (h : parent.length < 8) :
    (deltaText parent).length < 2 ^ 63 := by
  unfold deltaText
  rw [List.length_append, List.length_append]
  have h₁ : "#\nparentCID=1\nparentFileNameHint=\"".toList.length < 100 := by decide +kernel
  have h₂ : "\"\ncreateType=\"vmfs\"\nRW 1 ZERO".toList.length < 100 := by decide +kernel
  omega

def chainFiles : FileSystem := .ofNames fun names =>
  if names = [.normal ['b']] then .ok (textFile baseText (by decide +kernel))
  else if names = [.normal ['d']] then .ok (textFile (deltaText ['b']) (length_deltaText (by decide)))
  else if names = [.normal ['s']] then
    .ok (textFile (deltaText ['.', '/', 's']) (length_deltaText (by decide)))
  else .error ⟨.notFound, "No such file or directory (os error 2)"⟩

/-- The delta opens with its base; the other one is named by itself, and does not open. -/
theorem open_exact_chainFiles :
    (∃ chain steps, (VmdkChainReader.open chainFiles ['d']).result = .ok chain ∧
      Descends chainFiles ['d'] steps ∧ chain.layers = steps.map Prod.snd ∧ steps.length = 2 ∧
      ∀ s ∈ steps, FilePath.Inside (directoryOf ['d']) s.1) ∧
    ∃ e, (VmdkChainReader.open chainFiles ['s']).result = .error e := by
  have hfs : chainFiles.Resolves := FileSystem.resolves_ofNames _
  constructor
  · have htwo : (VmdkChainReader.open chainFiles ['d']).result.map (·.layers.length) = .ok 2 := by
      decide +kernel
    obtain ⟨chain, hchain, hlen⟩ := exists_of_map_eq htwo
    obtain ⟨steps, hsteps, hlayers, hinside⟩ := (open_exact hfs ['d']).2.1 chain hchain
    refine ⟨chain, steps, hchain, hsteps, hlayers, ?_, hinside⟩
    rwa [hlayers, List.length_map] at hlen
  · have hself : (openPath chainFiles .caller ['s']).result.map
        (fun r => (decide r.EndsChain, r.parentHint)) = .ok (false, ['.', '/', 's']) := by
      decide +kernel
    obtain ⟨r, hr, hsays⟩ := exists_of_map_eq hself
    obtain ⟨hend, hhint⟩ := Prod.mk.inj hsays
    have hnames : Names chainFiles ['s'] ['.', '/', 's'] := by
      refine ⟨r, hr, of_decide_eq_false hend, ?_⟩
      rw [hhint]
      decide +kernel
    refine (open_exact hfs ['s']).2.2 (fun k => if k = 0 then ['s'] else ['.', '/', 's']) rfl 0 1
      Nat.one_pos (fun k hk => ?_) (by decide +kernel)
    rw [Nat.lt_one_iff.mp hk]
    exact hnames

end VmdkChainReader
