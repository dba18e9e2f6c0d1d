import Vmdk.Vfs
import Vmdk.Geometry
import Vmdk.RecoveryCount

/-! # The cache of grain tables

A reader keeps every grain table that a lookup had to read, and never drops one.
A table is only kept where it could be read whole, and a pointer to such a table
is usable, so recovery follows it as well: the entries of the directory lead to
one table each, whenever recovery is switched on. The cache of a reader in use
holds no others, and none of them twice (`VmdkReader.cache_bounded`). -/

open Bytes Word

namespace FormatState

/-- How many grain tables a grain directory of 4-byte entries names; 0 for the formats whose tables
are not cached. -/
def directoryLength : FormatState → Nat
  | .sparse _ geom => geom.grainDir.length
  | _ => 0

/-- How many entries these tables have in all. -/
def entryCount : FormatState → Nat
  | .sparse _ geom => geom.grainDir.length * geom.numGtesPerGt
  | _ => 0

end FormatState

namespace Image
variable {im : Image} {inner : Source} {geom : SparseFormat} {gdIdx gtSector : Nat}

/-- A lookup that finds a whole table finds it in recovery mode too. -/
theorem gtSectorFor_of_readGt {fallback : Bool} {gt : List Nat}
    (hsec : im.gtSectorFor fallback inner geom gdIdx = .ok gtSector) (h0 : gtSector ≠ 0)
    (hread : readGt inner geom.numGtesPerGt gtSector = .ok gt) :
    im.gtSectorFor true inner geom gdIdx = .ok gtSector := by
  cases fallback with
  | true => exact hsec
  | false =>
    have hprimary : geom.grainDir.getD gdIdx 0 = gtSector := Except.ok.inj hsec
    have husable : usable geom.numGtesPerGt inner.len gtSector = true :=
      usable_of_le h0 (readGt_ok_le geom.numGtesPerGt_pos hread)
    rw [gtSectorFor_recovering, hprimary, if_pos husable]

/-- Some entry of the directory leads to the table at `gtSector` in recovery mode. -/
def LeadsTo (im : Image) (inner : Source) (geom : SparseFormat) (gtSector : Nat) : Prop :=
  gtSector ≠ 0 ∧
    ∃ gdIdx < geom.grainDir.length, im.gtSectorFor true inner geom gdIdx = .ok gtSector

/-- The tables that the entries of the directory lead to, one for each. -/
def tableSectors (im : Image) (inner : Source) (geom : SparseFormat) : List Nat :=
  (List.range geom.grainDir.length).map fun gdIdx =>
    (im.gtSectorFor true inner geom gdIdx).toOption.getD 0

theorem LeadsTo.mem (h : im.LeadsTo inner geom gtSector) :
    gtSector ∈ im.tableSectors inner geom := by
  obtain ⟨-, gdIdx, hidx, hsec⟩ := h
  refine List.mem_map.mpr ⟨gdIdx, List.mem_range.mpr hidx, ?_⟩
  rw [hsec]
  rfl

/-- What a cache in front of the image may hold; and the directory has an entry for every offset of
the disk. -/
def Lists (im : Image) (cache : List (Nat × List Nat)) : Prop :=
  match im.fmt with
  | .sparse inner geom =>
    Memo.Within (readGt inner geom.numGtesPerGt) (im.LeadsTo inner geom) cache ∧
      ∀ o < im.virtualDiskSize, o / geom.grainSizeBytes / geom.numGtesPerGt < geom.grainDir.length
  | _ => cache = []

end Image

namespace VmdkReader

/-- `gt_cache_size` -/
def gtCacheSize (self : VmdkReader) : Nat := self.gtCache.length

variable {r : VmdkReader} {inner : Source} {geom : SparseFormat}

/-! ## What a call does to the cache -/

/-- A lookup asks the cache for one table at most: the one its directory entry leads to. -/
theorem grainLocationSparse_gtCache (inner : Source) (geom : SparseFormat) (off : Nat) :
    (r.grainLocationSparse inner geom off).2.gtCache = r.gtCache ∨ ∃ gtSector, gtSector ≠ 0 ∧
      r.gtSectorFor r.rgdFallback inner geom (off / geom.grainSizeBytes / geom.numGtesPerGt) =
        .ok gtSector ∧
      (r.grainLocationSparse inner geom off).2.gtCache =
        (Memo.fetch (readGt inner geom.numGtesPerGt) r.gtCache gtSector).2 := by
  unfold grainLocationSparse
  simp only
  cases hsec : r.gtSectorFor r.rgdFallback inner geom
    (off / geom.grainSizeBytes / geom.numGtesPerGt) with
  | error e => exact .inl rfl
  | ok gtSector =>
    by_cases h0 : gtSector = 0
    · subst h0
      exact .inl rfl
    refine .inr ⟨gtSector, h0, rfl, ?_⟩
    simp only [if_neg h0]
    cases (Memo.fetch (readGt inner geom.numGtesPerGt) r.gtCache gtSector).1 <;> rfl

theorem advance_gtCache (res : Except IoError (List UInt8)) :
    (r.advance res).2.gtCache = r.gtCache := by
  cases res <;> rfl

variable [ZlibDecoder]

/-- **A call asks the cache for one table at most**, and only a read inside the disk does. -/
theorem step_gtCache (q : Disk.Request Query) :
    (r.step q).2.gtCache = r.gtCache ∨ ∃ inner geom gtSector, r.fmt = .sparse inner geom ∧
      gtSector ≠ 0 ∧ r.pos < r.virtualDiskSize ∧
      r.gtSectorFor r.rgdFallback inner geom (r.pos / geom.grainSizeBytes / geom.numGtesPerGt) =
        .ok gtSector ∧
      (r.step q).2.gtCache =
        (Memo.fetch (readGt inner geom.numGtesPerGt) r.gtCache gtSector).2 := by
  cases q with
  | seek f =>
    refine .inl ?_
    simp only [step, seek]
    cases Cursor.seek r.pos r.virtualDiskSize f <;> rfl
  | query q => cases q <;> exact .inl rfl
  | read len =>
    simp only [step, read]
    by_cases hend : r.virtualDiskSize ≤ r.pos ∨ len = 0
    · exact .inl (by rw [if_pos hend])
    simp only [if_neg hend]
    cases hfmt : r.fmt with
    | flat inner => exact .inl (advance_gtCache _)
    | seSparse inner geom => exact .inl (advance_gtCache _)
    | sparse inner geom =>
      simp only [advance_gtCache]
      obtain hkept | ⟨gtSector, h0, hsec, hfetch⟩ :=
        grainLocationSparse_gtCache (r := r) inner geom r.pos
      · exact .inl hkept
      · exact .inr ⟨inner, geom, gtSector, rfl, h0, Nat.lt_of_not_le fun h => hend (.inl h), hsec,
          hfetch⟩

/-! ## What the cache holds -/

theorem step_lists (h : r.toImage.Lists r.gtCache) (hc : r.Coherent) (q : Disk.Request Query) :
    (r.step q).2.toImage.Lists (r.step q).2.gtCache := by
  rw [(step_keeps hc q).1]
  obtain hkept | ⟨inner, geom, gtSector, hfmt, h0, hpos, hsec, hfetch⟩ := step_gtCache (r := r) q
  · rwa [hkept]
  rw [hfetch]
  unfold Image.Lists at h ⊢
  rw [hfmt] at h ⊢
  refine ⟨h.1.fetch fun gt hread => ?_, h.2⟩
  exact ⟨h0, _, h.2 _ hpos, Image.gtSectorFor_of_readGt hsec h0 hread⟩

omit [ZlibDecoder] in
theorem open_lists {file : Source} (h : VmdkReader.open file = .ok r) :
    r.toImage.Lists r.gtCache := by
  have hcovered := open_covered h
  obtain ⟨im, rfl, -⟩ := open_shaped h
  unfold Image.Covered at hcovered
  unfold Image.Lists
  cases hfmt : im.reader.fmt with
  | sparse inner geom =>
    rw [hfmt] at hcovered
    exact ⟨.nil _ _, hcovered.2⟩
  | seSparse inner geom => rfl
  | flat inner => rfl

omit [ZlibDecoder] in
/-- A path opens to an extent, or to a reader of the files that a descriptor names. -/
theorem openPath_extent {fs : FileSystem} {origin : Origin} {path : FilePath}
    (h : (openPath fs origin path).result = .ok r) :
    (∃ file, VmdkReader.open file = .ok r) ∨
      ∃ (im : Image) (inner : ExtentReader), r = im.reader ∧ im.fmt = .flat inner := by
  obtain ⟨file, -, -, -, ⟨-, hopen⟩ | ⟨-, desc, -, hopen⟩⟩ := openPath_cases h
  · exact .inl ⟨file, hopen⟩
  rcases openDescriptor_eq with ⟨e, -, heq⟩ | ⟨-, heq⟩ | ⟨-, heq⟩ | ⟨-, heq⟩
  · rw [heq] at hopen
    cases hopen
  · rw [heq] at hopen
    obtain ⟨m, -, -, rfl⟩ := openFlatExtents_ok hopen
    exact .inr ⟨_, _, rfl, rfl⟩
  · rw [heq] at hopen
    obtain ⟨m, -, -, rfl⟩ := openSparseExtents_ok hopen
    exact .inr ⟨_, _, rfl, rfl⟩
  · rw [heq] at hopen
    obtain ⟨-, file, -, -, hfile⟩ := openSesparseDescriptor_ok hopen
    exact .inl ⟨file, hfile⟩

theorem InUse.lists (h : InUse r) : r.toImage.Lists r.gtCache := by
  induction h with
  | opened h => exact open_lists h
  | openedPath h =>
    obtain ⟨file, hfile⟩ | ⟨im, inner, rfl, hfmt⟩ := openPath_extent h
    · exact open_lists hfile
    · unfold Image.Lists
      rw [show im.reader.toImage.fmt = .flat inner from hfmt]
      rfl
  | step h q ih => exact step_lists ih h.inv.2 q
  | enableRgdFallback h ih => exact ih

/-! ## The bound -/

/-- The cache holds tables of the file only, each that an entry of the directory leads to and none
twice: no more than the directory has entries. -/
structure CacheBounded (r : VmdkReader) : Prop where
  size : r.gtCacheSize ≤ r.fmt.directoryLength
  distinct : (r.gtCache.map Prod.fst).Nodup
  tables : ∀ p ∈ r.gtCache, ∃ inner geom, r.fmt = .sparse inner geom ∧
    r.LeadsTo inner geom p.1 ∧ readGt inner geom.numGtesPerGt p.1 = .ok p.2
  entries : (r.gtCache.map fun p => p.2.length).sum ≤ r.fmt.entryCount

omit [ZlibDecoder] in
theorem length_readGt {n gtSector : Nat} {gt : List Nat}
    (h : readGt inner n gtSector = .ok gt) : gt.length = n := by
  unfold readGt at h
  cases hread : inner.readExactAt (gtSector * sectorSize) (n * 4) with
  | error e =>
    rw [hread] at h
    cases h
  | ok bytes =>
    rw [hread] at h
    cases h
    exact directory_length (by decide) hread

/-- **The cache of a reader in use is bounded by the directory**, whatever was read and whenever
recovery was switched on. -/
theorem cache_bounded (h : InUse r) : r.CacheBounded := by
  have hlists := h.lists
  unfold Image.Lists at hlists
  cases hfmt : r.fmt with
  | flat inner =>
    rw [hfmt] at hlists
    constructor <;> simp [gtCacheSize, hlists]
  | seSparse inner geom =>
    rw [hfmt] at hlists
    constructor <;> simp [gtCacheSize, hlists]
  | sparse inner geom =>
    rw [hfmt] at hlists
    obtain ⟨hwithin, -⟩ := hlists
    have hle : r.gtCache.length ≤ geom.grainDir.length := by
      have hle := hwithin.length_le fun k hk => Image.LeadsTo.mem hk
      unfold Image.tableSectors at hle
      rwa [List.length_map, List.length_range] at hle
    have hsum : (r.gtCache.map fun p => p.2.length).sum = r.gtCache.length * geom.numGtesPerGt := by
      have hconst : r.gtCache.map (fun p => p.2.length) =
          r.gtCache.map fun _ => geom.numGtesPerGt :=
        List.map_congr_left fun p hp => length_readGt (hwithin.entries p hp)
      rw [hconst, List.map_const', List.sum_replicate_nat]
    refine ⟨?_, hwithin.distinct, fun p hp => ?_, ?_⟩
    · rw [hfmt]
      exact hle
    · exact ⟨inner, geom, hfmt, hwithin.keys p hp, hwithin.entries p hp⟩
    · rw [hfmt, hsum]
      exact Nat.mul_le_mul_right _ hle

end VmdkReader

theorem VmdkReader.cache_bounded_mirroredDisk :
    letI := Stored.decoder
    ∃ r, InUse r ∧ r.gtCacheSize = 1 ∧ r.rgdFallback = true ∧ r.CacheBounded := by
  let _ := Stored.decoder
  have hread : (VmdkReader.open (mirroredDisk 11 1) >>= fun r =>
      .ok (r.step (.read 4)).2.gtCacheSize) = .ok 1 := by decide +kernel
  obtain ⟨r, hr, hsize⟩ := bind_eq_ok.mp hread
  have huse : InUse (r.step (.read 4)).2.enableRgdFallback :=
    .enableRgdFallback (.step (.opened hr) _)
  exact ⟨_, huse, Except.ok.inj hsize, rfl, cache_bounded huse⟩
