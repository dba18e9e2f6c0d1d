import Vmdk.OpenSound
import Vmdk.RecoverySound
import Vmdk.Encode
import Vmdk.Stored

/-! # The allocation map is the read path's map

The scan goes through the directory from the front, a lookup comes from an
offset. A table that the scan accepts allocates exactly the entries that a
lookup resolves to a grain (`scanTable_locates`, `scanTableSesparse_locates`),
and the grains of all tables are listed in order. So the list covers the sectors
that do not read as sparse, in every mode (`VmdkReader.allocation_map`). -/

open Bytes Word

namespace Image

/-! ## The order of the scan -/

/-- The grains that table `gdIdx` lists when its entries `alloc` are allocated. -/
def tableGrains (im : Image) (grainSizeBytes numGtes gdIdx : Nat) (alloc : Nat → Bool) :
    List AllocatedGrain :=
  ((List.range numGtes).filter alloc).flatMap fun gteIdx =>
    im.allocatedGrain grainSizeBytes (gdIdx * numGtes + gteIdx)

/-- A listed grain ends before the next one starts. -/
def Before (a b : AllocatedGrain) : Prop := a.startLba + a.sectorCount ≤ b.startLba

section Order
variable {im : Image} {gs n : Nat} {alloc : Nat → Bool} {a : AllocatedGrain}

theorem mem_allocatedGrain {k : Nat} :
    a ∈ im.allocatedGrain gs k ↔
      k * (gs / sectorSize) < im.virtualDiskSize / sectorSize ∧
        a = ⟨k * (gs / sectorSize), gs / sectorSize⟩ := by
  unfold allocatedGrain
  simp only
  split
  · next h => simp [h]
  · next h => simp [h]

theorem mem_tableGrains {i : Nat} :
    a ∈ im.tableGrains gs n i alloc ↔
      ∃ j < n, alloc j = true ∧ a ∈ im.allocatedGrain gs (i * n + j) := by
  simp only [tableGrains, List.mem_flatMap, List.mem_filter, List.mem_range, and_assoc]

/-- Grains of ascending indices lie in order. -/
theorem before_of_lt {k k' : Nat} {b : AllocatedGrain} (hk : k < k')
    (ha : a ∈ im.allocatedGrain gs k) (hb : b ∈ im.allocatedGrain gs k') : Before a b := by
  rw [(mem_allocatedGrain.mp ha).2, (mem_allocatedGrain.mp hb).2]
  change k * (gs / sectorSize) + gs / sectorSize ≤ k' * (gs / sectorSize)
  rw [← Nat.succ_mul]
  exact Nat.mul_le_mul_right _ hk

theorem tableGrains_pairwise (i : Nat) : (im.tableGrains gs n i alloc).Pairwise Before := by
  apply List.pairwise_flatMap.mpr
  refine ⟨fun j _ => ?_, ?_⟩
  · unfold allocatedGrain
    simp only
    split
    · exact List.pairwise_singleton _ _
    · exact .nil
  · refine (List.pairwise_lt_range.filter _).imp fun hlt x hx y hy => ?_
    exact before_of_lt (Nat.add_lt_add_left hlt _) hx hy

/-- The grains of tables in order are in order. -/
theorem scan_pairwise {tables : List Nat} (halloc : Nat → Nat → Bool)
    (htables : tables.Pairwise (· < ·)) :
    (tables.flatMap fun i => im.tableGrains gs n i (halloc i)).Pairwise Before := by
  apply List.pairwise_flatMap.mpr
  refine ⟨fun i _ => tableGrains_pairwise i, htables.imp fun hlt x hx y hy => ?_⟩
  obtain ⟨j, hj, -, hx⟩ := mem_tableGrains.mp hx
  obtain ⟨j', -, -, hy⟩ := mem_tableGrains.mp hy
  refine before_of_lt ?_ hx hy
  calc _ < _ := Nat.add_lt_add_left hj _
    _ = (_ + 1) * n := (Nat.succ_mul _ _).symm
    _ ≤ _ * n := Nat.mul_le_mul_right n hlt
    _ ≤ _ := Nat.le_add_right _ _

/-- A sector is covered when the entry of its grain is allocated. -/
theorem scan_covers {tables : List Nat} {halloc : Nat → Nat → Bool} {lba : Nat}
    (hg : 0 < gs / sectorSize) (hn : 0 < n) (hlba : lba < im.virtualDiskSize / sectorSize)
    (htable : lba / (gs / sectorSize) / n ∈ tables) :
    (∃ a ∈ tables.flatMap fun i => im.tableGrains gs n i (halloc i),
        a.startLba ≤ lba ∧ lba < a.startLba + a.sectorCount) ↔
      halloc (lba / (gs / sectorSize) / n) (lba / (gs / sectorSize) % n) = true := by
  constructor
  · rintro ⟨a, ha, hle, hlt⟩
    obtain ⟨i, -, ha⟩ := List.mem_flatMap.mp ha
    obtain ⟨j, hj, halloc, ha⟩ := mem_tableGrains.mp ha
    obtain ⟨-, rfl⟩ := mem_allocatedGrain.mp ha
    have hk : lba / (gs / sectorSize) = i * n + j := by
      refine Nat.div_eq_of_lt_le hle ?_
      rw [Nat.succ_mul]
      exact hlt
    rw [hk, Nat.mul_comm i n, Nat.mul_add_div hn, Nat.div_eq_of_lt hj, Nat.mul_add_mod,
      Nat.mod_eq_of_lt hj]
    exact halloc
  · intro halloc
    have hk : lba / (gs / sectorSize) / n * n + lba / (gs / sectorSize) % n =
        lba / (gs / sectorSize) := Nat.div_add_mod' _ _
    have hle : lba / (gs / sectorSize) * (gs / sectorSize) ≤ lba := Nat.div_mul_le_self _ _
    refine ⟨⟨lba / (gs / sectorSize) * (gs / sectorSize), gs / sectorSize⟩,
      List.mem_flatMap.mpr ⟨_, htable, mem_tableGrains.mpr ⟨_, Nat.mod_lt _ hn, halloc, ?_⟩⟩, hle,
      ?_⟩
    · rw [hk]
      exact mem_allocatedGrain.mpr ⟨Nat.lt_of_le_of_lt hle hlba, rfl⟩
    · rw [← Nat.succ_mul, Nat.mul_comm]
      exact Nat.lt_mul_div_succ lba hg

end Order

/-- The grains a table lists. -/
def listed (table : Nat → Except IoError (List AllocatedGrain × Nat)) (i : Nat) :
    List AllocatedGrain :=
  match table i with
  | .ok (grains, _) => grains
  | .error _ => []

theorem listed_of_ok {table : Nat → Except IoError (List AllocatedGrain × Nat)} {i recovered : Nat}
    {grains : List AllocatedGrain} (h : table i = .ok (grains, recovered)) :
    listed table i = grains := by
  unfold listed
  rw [h]

/-- A scan that succeeds accepts every table, and lists their grains in order. -/
theorem scanTables_ok {table : Nat → Except IoError (List AllocatedGrain × Nat)}
    {gdIdx tables : Nat} {list : List AllocatedGrain}
    (h : (scanTables table gdIdx tables).1 = .ok list) :
    (∀ i ∈ List.range' gdIdx tables, ∃ recovered, table i = .ok (listed table i, recovered)) ∧
      list = (List.range' gdIdx tables).flatMap (listed table) := by
  induction tables generalizing gdIdx list with
  | zero =>
    cases h
    exact ⟨(fun i hi => by cases hi), rfl⟩
  | succ tables ih =>
    unfold scanTables at h
    cases hfirst : table gdIdx with
    | error e => rw [hfirst] at h; cases h
    | ok first =>
      rw [hfirst] at h
      simp only at h
      cases hrest : (scanTables table (gdIdx + 1) tables).1 with
      | error e => rw [hrest] at h; cases h
      | ok rest =>
        rw [hrest] at h
        cases h
        obtain ⟨hall, rfl⟩ := ih hrest
        have hlisted : listed table gdIdx = first.1 := listed_of_ok hfirst
        rw [List.range'_succ]
        refine ⟨fun i hi => ?_, ?_⟩
        · rcases List.mem_cons.mp hi with rfl | hi
          · exact ⟨first.2, by rw [hfirst, hlisted]⟩
          · exact hall i hi
        · rw [List.flatMap_cons, hlisted]

/-- A scan succeeds when every table is accepted. -/
theorem scanTables_of_ok {table : Nat → Except IoError (List AllocatedGrain × Nat)}
    {gdIdx tables : Nat} (h : ∀ i ∈ List.range' gdIdx tables, ∃ x, table i = .ok x) :
    ∃ list, (scanTables table gdIdx tables).1 = .ok list := by
  induction tables generalizing gdIdx with
  | zero => exact ⟨[], rfl⟩
  | succ tables ih =>
    rw [List.range'_succ] at h
    obtain ⟨first, hfirst⟩ := h gdIdx (List.mem_cons_self ..)
    obtain ⟨rest, hrest⟩ := ih fun i hi => h i (List.mem_cons_of_mem _ hi)
    refine ⟨first.1 ++ rest, ?_⟩
    unfold scanTables
    rw [hfirst]
    simp only [hrest]
    rfl

/-! ## One table, scanned and looked up -/

/-- The place of a data entry is in the file. -/
theorem ofEntry_ne_sparse {inner : Source} {geom : SparseFormat} {gte off : Nat} {loc : GrainLookup}
    (h : GrainLookup.ofEntry inner geom gte off = .ok loc) : loc ≠ .sparse := by
  unfold GrainLookup.ofEntry at h
  split at h
  · simp only [bind_eq_ok] at h
    obtain ⟨_, _, _, _, h⟩ := h
    cases h
    exact fun h => by cases h
  · cases h
    exact fun h => by cases h

section Table
variable {im : Image} {inner : Source} {geom : SparseFormat} {i j n : Nat}

/-- Entry `j` of the redundant table a scan has at hand. -/
def redundantGte (redundant : Option (List UInt8)) (j : Nat) : Nat :=
  match redundant with
  | some rgt => leNat (slice rgt (j * 4) 4)
  | none => 0

/-- An entry of the redundant table, looked up by itself or in the whole table. -/
theorem rgdGte_of_redundantGt {redundant : Option (List UInt8)}
    (h : im.readRedundantGt inner i n = .ok redundant) (hj : j < n) :
    im.rgdGte inner i j n = .ok (redundantGte redundant j) := by
  unfold readRedundantGt at h
  unfold rgdGte
  simp only [seekEnd_zero, bind, Except.bind] at h ⊢
  cases hdir : im.rgdDirEntry inner i inner.len with
  | error e => rw [hdir] at h; cases h
  | ok sector =>
    rw [hdir] at h
    simp only at h ⊢
    split at h
    · next h0 =>
      cases h
      rw [if_pos h0]
      rfl
    · next h0 =>
      rw [if_neg h0]
      split at h
      · next hout =>
        cases h
        rw [if_pos hout]
        rfl
      · next hin =>
        rw [if_neg hin]
        cases hread : inner.readExactAt (sector * sectorSize) (n * 4) with
        | error e => rw [hread] at h; cases h
        | ok rgt =>
          rw [hread] at h
          cases h
          have hle := Source.readExactAt_ok_le (by omega) hread
          have hentry : sector * sectorSize + j * 4 + 4 ≤ inner.bytes.length := by omega
          have hnear : ¬ inner.len < satAdd (sector * sectorSize + j * 4) 4 := by
            have := satAdd_le (sector * sectorSize + j * 4) 4
            change ¬ inner.bytes.length < _
            omega
          rw [if_neg hnear, Source.readExactAt_of_le hentry, (Source.readExactAt_ok hread).1]
          simp only [redundantGte]
          rw [slice_slice _ _ _ _ _ (by omega)]
          rfl

/-- The entry a lookup uses is the one the scan uses. -/
theorem recoverEntry_scanEntry {fallback fromRgd : Bool} {gtBytes : List UInt8}
    {redundant : Option (List UInt8)} (h : im.redundantGtFor fallback inner i n = .ok redundant)
    (hn : geom.numGtesPerGt = n) (hj : j < n) :
    ∃ fromRgd', im.recoverEntry fallback inner geom i j (leNat (slice gtBytes (j * 4) 4)) fromRgd =
      .ok ((scanEntry gtBytes redundant j).1, fromRgd') := by
  have hscan : scanEntry gtBytes redundant j =
      if leNat (slice gtBytes (j * 4) 4) ≤ 1 ∧ redundantGte redundant j > 1 then
        (redundantGte redundant j, true)
      else (leNat (slice gtBytes (j * 4) 4), false) := rfl
  unfold redundantGtFor at h
  unfold recoverEntry
  subst hn
  cases fallback with
  | false =>
    cases h
    exact ⟨fromRgd, by simp [hscan, redundantGte]⟩
  | true =>
    simp only [if_true] at h
    rw [rgdGte_of_redundantGt h hj, hscan]
    simp only [Bool.true_and, decide_eq_true_eq, bind, Except.bind, pure, Except.pure]
    by_cases hlost : leNat (slice gtBytes (j * 4) 4) ≤ 1
    · simp only [hlost, if_true, true_and]
      split
      · exact ⟨true, rfl⟩
      · exact ⟨fromRgd, rfl⟩
    · simp only [hlost, if_false, false_and]
      exact ⟨fromRgd, rfl⟩

/-- **A scanned table allocates the entries that lookups resolve to a grain.** -/
theorem scanTable_locates {fallback : Bool} {grains : List AllocatedGrain} {recovered : Nat}
    (h : im.scanTable fallback inner geom i = .ok (grains, recovered)) :
    ∃ alloc : Nat → Bool,
      grains = im.tableGrains geom.grainSizeBytes geom.numGtesPerGt i alloc ∧
      ∀ o, o / geom.grainSizeBytes / geom.numGtesPerGt = i → ∀ loc,
        (im.locateSparse fallback inner geom o).1 = .ok loc →
          (alloc (o / geom.grainSizeBytes % geom.numGtesPerGt) = true ↔ loc ≠ .sparse) := by
  unfold scanTable at h
  obtain ⟨gtSector, hsector, h⟩ := bind_eq_ok.mp h
  obtain ⟨redundant, hredundant, h⟩ := bind_eq_ok.mp h
  split at h
  · next h0 =>
    cases h
    refine ⟨fun _ => false, by simp [tableGrains], fun o ho loc hloc => ?_⟩
    unfold locateSparse at hloc
    simp only [ho, hsector, h0, if_true] at hloc
    cases hloc
    simp
  · next h0 =>
    obtain ⟨gtBytes, hread, h⟩ := bind_eq_ok.mp h
    cases h
    refine ⟨fun j => (scanEntry gtBytes redundant j).1 > 1, rfl, fun o ho loc hloc => ?_⟩
    have hj : o / geom.grainSizeBytes % geom.numGtesPerGt < geom.numGtesPerGt :=
      Nat.mod_lt _ geom.numGtesPerGt_pos
    have hgt : readGt inner geom.numGtesPerGt gtSector = .ok (leTable 4 gtBytes) := by
      unfold readGt
      rw [hread]
      rfl
    have hlen : o / geom.grainSizeBytes % geom.numGtesPerGt < gtBytes.length / 4 := by
      rw [(Source.readExactAt_ok hread).2.1]
      omega
    unfold locateSparse locateIn at hloc
    simp only [ho, hsector, if_neg h0, hgt, getD_leTable hlen] at hloc
    obtain ⟨fromRgd', hentry⟩ := recoverEntry_scanEntry hredundant rfl hj
    rw [hentry] at hloc
    simp only at hloc
    split at hloc
    · next hle =>
      cases hloc
      simpa using hle
    · next hgt1 =>
      simp only [decide_eq_true_eq, Nat.not_le.mp hgt1, true_iff]
      exact ofEntry_ne_sparse hloc

end Table

/-- An entry looked up by itself is the one in the table read whole. -/
theorem seReadGte_of_table {inner : Source} {gdEntry gtOffset j : Nat} {gtBytes : List UInt8}
    (h0 : gdEntry ≠ 0) (hmarker : SeSparse.gdAllocField gdEntry = SeSparse.gdAllocFlag)
    (hread : inner.readExactAt
      (wrapMul (wrapAdd gtOffset (SeSparse.gdIndex gdEntry * SeSparse.gtSectors)) sectorSize)
      (SeSparse.gtesPerGt * 8) = .ok gtBytes) (hj : j < SeSparse.gtesPerGt) :
    seReadGte inner gdEntry gtOffset j = .ok (some (leNat (slice gtBytes (j * 8) 8))) := by
  have hin := Source.readExactAt_ok_le (by decide) hread
  have hlt := inner.length_lt
  unfold seReadGte
  rw [if_neg h0, if_neg (not_not.mpr hmarker)]
  simp only
  generalize wrapMul (wrapAdd gtOffset (SeSparse.gdIndex gdEntry * SeSparse.gtSectors)) sectorSize =
    start at hread hin ⊢
  unfold SeSparse.gtesPerGt at hin hj
  have hpos : wrapAdd start (j * 8) = start + j * 8 := by
    refine wrapAdd_eq ?_
    unfold u64Size
    omega
  have hentry : start + j * 8 + 8 ≤ inner.bytes.length := by omega
  rw [hpos, Source.readExactAt_of_le hentry, (Source.readExactAt_ok hread).1,
    slice_slice _ _ _ _ _ (by unfold SeSparse.gtesPerGt; omega)]
  rfl

/-- A seSparse entry leads to a grain exactly when its type says so. -/
theorem grainLocationSesparse_some {inner : Source} {geom : SeSparseFormat} {o gte : Nat}
    {loc : GrainLookup}
    (hentry : seReadGte inner (geom.grainDir.getD (o / geom.grainSizeBytes / SeSparse.gtesPerGt) 0)
      geom.gtOffsetSectors (o / geom.grainSizeBytes % SeSparse.gtesPerGt) = .ok (some gte))
    (hloc : grainLocationSesparse inner geom o = .ok loc) :
    SeSparse.gteType gte = SeSparse.gteTypeAllocated ↔ loc ≠ .sparse := by
  unfold grainLocationSesparse at hloc
  simp only [hentry, bind, Except.bind] at hloc
  split at hloc
  · next hzero =>
    cases hloc
    simp [hzero, SeSparse.gteType, SeSparse.gteTypeAllocated]
  next hzero =>
  split at hloc
  · next htype =>
    cases hloc
    rcases htype with htype | htype <;>
      simp [htype, SeSparse.gteTypeUnmapped, SeSparse.gteTypeZero, SeSparse.gteTypeAllocated]
  next htype =>
  split at hloc
  · next halloc =>
    cases hloc
    simp [halloc]
  · cases hloc

/-- **A scanned seSparse table allocates the entries that lookups resolve to a grain.** -/
theorem scanTableSesparse_locates {im : Image} {inner : Source} {geom : SeSparseFormat} {i : Nat}
    {grains : List AllocatedGrain} {recovered : Nat}
    (h : im.scanTableSesparse inner geom i = .ok (grains, recovered)) :
    ∃ alloc : Nat → Bool,
      grains = im.tableGrains geom.grainSizeBytes SeSparse.gtesPerGt i alloc ∧
      ∀ o, o / geom.grainSizeBytes / SeSparse.gtesPerGt = i → ∀ loc,
        grainLocationSesparse inner geom o = .ok loc →
          (alloc (o / geom.grainSizeBytes % SeSparse.gtesPerGt) = true ↔ loc ≠ .sparse) := by
  unfold scanTableSesparse at h
  simp only at h
  split at h
  · next h0 =>
    cases h
    refine ⟨fun _ => false, by simp [tableGrains], fun o ho loc hloc => ?_⟩
    unfold grainLocationSesparse seReadGte at hloc
    simp only [ho, h0, if_true, bind, Except.bind] at hloc
    cases hloc
    simp
  next h0 =>
  split at h
  · next hmarker =>
    cases h
    refine ⟨fun _ => false, by simp [tableGrains], fun o ho loc hloc => ?_⟩
    unfold grainLocationSesparse seReadGte at hloc
    simp only [ho, h0, hmarker, if_false, not_false_eq_true, if_true, ne_eq, bind, Except.bind]
      at hloc
    cases hloc
  next hmarker =>
  obtain ⟨gtBytes, hread, h⟩ := bind_eq_ok.mp h
  have hgrains := (Prod.mk.inj (Except.ok.inj h)).1
  refine ⟨fun j => SeSparse.gteType (leNat (slice gtBytes (j * 8) 8)) == SeSparse.gteTypeAllocated,
    hgrains.symm, fun o ho loc hloc => ?_⟩
  have hj : o / geom.grainSizeBytes % SeSparse.gtesPerGt < SeSparse.gtesPerGt :=
    Nat.mod_lt _ (by decide)
  have hentry := seReadGte_of_table h0 (not_not.mp hmarker) hread hj
  rw [beq_iff_eq]
  exact grainLocationSesparse_some (ho.symm ▸ hentry) hloc

end Image

/-! ## Reachable readers -/

namespace VmdkReader
variable [ZlibDecoder] {file : Source} {r : VmdkReader}

/-- A reader of `file` after any calls, with recovery switched on at any time. -/
inductive Reachable (file : Source) : VmdkReader → Prop
  | opened {r : VmdkReader} (h : VmdkReader.open file = .ok r) : Reachable file r
  | step {r : VmdkReader} (h : Reachable file r) (q : Disk.Request Query) :
      Reachable file (r.step q).2
  | enableRgdFallback {r : VmdkReader} (h : Reachable file r) :
      Reachable file r.enableRgdFallback

/-- One call keeps the image and the coherence of the cache. -/
theorem step_keeps (hc : r.Coherent) (q : Disk.Request Query) :
    (r.step q).2.toImage = r.toImage ∧ (r.step q).2.rgdFallback = r.rgdFallback ∧
      (r.step q).2.Coherent := by
  cases q with
  | seek f =>
    have hmoves := (seek_spec hc f).2
    exact ⟨hmoves.image, hmoves.fallback, hmoves.coherent⟩
  | read len =>
    have hmoves := (read_spec hc len).2
    exact ⟨hmoves.image, hmoves.fallback, hmoves.coherent⟩
  | query q =>
    cases q with
    | isAllocated lba => exact ⟨rfl, rfl, hc⟩
    | iterAllocatedGrains =>
      have hmoves := (iterAllocatedGrains_spec hc).2
      exact ⟨hmoves.image, hmoves.fallback, hmoves.coherent⟩

/-- What holds of every reader of the image holds along every run from it. -/
theorem steps_of_image {im : Image} {P : VmdkReader → Disk.Request Query → Prop}
    (h : ∀ s : VmdkReader, s.toImage = im → s.Coherent → ∀ q, P s q)
    (requests : List (Disk.Request Query)) : Machine.Steps VmdkReader.step P im.reader requests := by
  have hstep : ∀ (s : VmdkReader) q, (s.toImage = im ∧ s.Coherent) → True →
      P s q ∧ ((s.step q).2.toImage = im ∧ (s.step q).2.Coherent) := by
    rintro s q ⟨him, hc⟩ -
    obtain ⟨hkept, -, hc'⟩ := step_keeps hc q
    exact ⟨h s him hc q, hkept.trans him, hc'⟩
  exact Machine.steps_of_inv hstep ⟨rfl, coherent_reader im⟩ (Machine.steps_true _ _ _)

/-- A reachable reader has the image that was opened, and a coherent cache. -/
theorem Reachable.inv (h : Reachable file r) :
    (∃ r₀, VmdkReader.open file = .ok r₀ ∧ r.toImage = r₀.toImage) ∧ r.Coherent := by
  induction h with
  | @opened r h =>
    obtain ⟨im, rfl, -⟩ := open_loads h
    exact ⟨⟨_, h, rfl⟩, coherent_reader im⟩
  | step h q ih =>
    obtain ⟨⟨r₀, hopen, himage⟩, hc⟩ := ih
    obtain ⟨hkept, -, hc'⟩ := step_keeps hc q
    exact ⟨⟨r₀, hopen, hkept.trans himage⟩, hc'⟩
  | enableRgdFallback h ih => exact ih

end VmdkReader

namespace Image

/-- `grain_location` without a cache. -/
def locate (im : Image) (fallback : Bool) (virtualOffset : Nat) : Except IoError GrainLookup :=
  match im.fmt with
  | .sparse inner geom => (im.locateSparse fallback inner geom virtualOffset).1
  | .seSparse inner geom => grainLocationSesparse inner geom virtualOffset
  | .flat _ => .ok .sparse

/-- The directory has a table for every offset of the disk, and grains are whole sectors. -/
def Covered (im : Image) : Prop :=
  match im.fmt with
  | .sparse _ geom => sectorSize ∣ geom.grainSizeBytes ∧ ∀ o < im.virtualDiskSize,
      o / geom.grainSizeBytes / geom.numGtesPerGt < geom.grainDir.length
  | .seSparse _ geom => sectorSize ∣ geom.grainSizeBytes ∧ ∀ o < im.virtualDiskSize,
      o / geom.grainSizeBytes / SeSparse.gtesPerGt < geom.grainDir.length
  | .flat _ => False

end Image

section Covered
variable {file : Source} {r : VmdkReader}

/-- The length of a directory that was read whole. -/
theorem directory_length {w off tables : Nat} {buf : List UInt8} (hw : 0 < w)
    (h : file.readExactAt off (tables * w) = .ok buf) : (leTable w buf).length = tables := by
  rw [length_leTable, (Source.readExactAt_ok h).2.1, Nat.mul_div_cancel _ hw]

/-- A disk of `cap` sectors in grains of `g` sectors, in tables of `n` grains: the directory has as
many tables as that asks for, or `least`. -/
structure Image.Indexed (im : Image) (gs n tables least : Nat) : Prop where
  index : ∃ cap g, 0 < g ∧ gs = g * sectorSize ∧ im.virtualDiskSize = cap * sectorSize ∧
    tables = max (divCeil (divCeil cap g) n) least
  numGtes_pos : 0 < n

/-- A table for every offset of the disk. -/
theorem Image.Indexed.table_lt {im : Image} {gs n tables least o : Nat}
    (h : im.Indexed gs n tables least) (ho : o < im.virtualDiskSize) : o / gs / n < tables := by
  obtain ⟨⟨cap, g, hg, rfl, hsize, rfl⟩, hn⟩ := h
  rw [hsize] at ho
  exact Nat.lt_of_lt_of_le (table_lt_divCeil hg hn (by decide) ho) (Nat.le_max_left _ _)

/-- Every table is for an offset of the disk. -/
theorem Image.Indexed.table_reached {im : Image} {gs n tables i : Nat}
    (h : im.Indexed gs n tables 0) (hi : i < tables) :
    i * n * gs < im.virtualDiskSize ∧ i * n * gs / gs / n = i := by
  obtain ⟨⟨cap, g, hg, rfl, hsize, rfl⟩, hn⟩ := h
  rw [Nat.max_zero, lt_divCeil_iff hn, lt_divCeil_iff hg] at hi
  have hbytes : 0 < g * sectorSize := Nat.mul_pos hg (by decide)
  rw [hsize, Nat.mul_div_cancel _ hbytes, Nat.mul_div_cancel _ hn, ← Nat.mul_assoc]
  exact ⟨Nat.mul_lt_mul_of_pos_right hi (by decide), rfl⟩

/-- **Every binary extent that opens has the directory its capacity asks for.** -/
theorem open_indexed (h : VmdkReader.open file = .ok r) :
    (∃ inner geom, r.fmt = .sparse inner geom ∧
        r.Indexed geom.grainSizeBytes geom.numGtesPerGt geom.grainDir.length 0) ∨
      ∃ inner geom, r.fmt = .seSparse inner geom ∧
        r.Indexed geom.grainSizeBytes SeSparse.gtesPerGt geom.grainDir.length 1 := by
  obtain ⟨hdrBytes, hread, ⟨-, h⟩ | ⟨-, ⟨-, h⟩ | ⟨-, h⟩⟩⟩ := open_cases h
  · unfold VmdkReader.openCowdExtent openCowd at h
    simp only [bind_eq_ok, fromIo_eq_ok, hread, Except.ok.injEq] at h
    obtain ⟨geom, ⟨_, rfl, hdr, hparse, _, _, buf, hgd, hgeom⟩, hdr', hparse', _, _, h⟩ := h
    rw [hparse] at hparse'
    cases hparse'
    cases hgeom
    cases h
    refine .inl ⟨_, _, rfl, ⟨_, _, hdr.grainSize_pos, rfl, rfl, ?_⟩,
      show 0 < Cowd.gtesPerGt by decide⟩
    rw [Nat.max_zero]
    exact directory_length (by decide) hgd
  · unfold VmdkReader.openSesparseExtent openSesparse at h
    simp only [bind_eq_ok, fromIo_eq_ok, hread, Except.ok.injEq] at h
    obtain ⟨geom, ⟨_, rfl, hdr, hparse, _, _, buf, hgd, hgeom⟩, hdr', hparse', _, _, h⟩ := h
    rw [hparse] at hparse'
    cases hparse'
    cases hgeom
    cases h
    have hgrain : 0 < hdr.grainSize := by
      rw [hdr.grainSize_eq]
      decide
    exact .inr ⟨_, _, rfl, ⟨_, _, hgrain, rfl, rfl, directory_length (by decide) hgd⟩, by decide⟩
  · obtain ⟨hdr, desc, gdOffset, gdBytes, -, hp, rfl⟩ := openVmdk4_eq_ok.mp h
    refine .inl ⟨_, _, rfl, ⟨_, _, Nat.lt_of_lt_of_le (by decide) hdr.grainSize_ge, rfl, rfl, ?_⟩,
      hdr.numGtesPerGt_pos⟩
    rw [Nat.max_zero]
    exact (directory_length (by decide) hp.gdRead).trans (numGts_eq hdr)

theorem Image.Indexed.dvd {im : Image} {gs n tables least : Nat} (h : im.Indexed gs n tables least) :
    sectorSize ∣ gs := by
  obtain ⟨⟨cap, g, -, rfl, -, -⟩, -⟩ := h
  exact Nat.dvd_mul_left _ _

/-- **Every binary extent that opens has a directory for its whole disk.** -/
theorem open_covered (h : VmdkReader.open file = .ok r) : r.toImage.Covered := by
  unfold Image.Covered
  rcases open_indexed h with ⟨inner, geom, hfmt, hindex⟩ | ⟨inner, geom, hfmt, hindex⟩
  · rw [hfmt]
    exact ⟨hindex.dvd, fun o ho => hindex.table_lt ho⟩
  · rw [hfmt]
    exact ⟨hindex.dvd, fun o ho => hindex.table_lt ho⟩

end Covered

namespace VmdkReader
variable {r : VmdkReader}

/-- A lookup in any state is the lookup without a cache. -/
theorem grainLocation_fst (hc : r.Coherent) (o : Nat) :
    (r.grainLocation o).1 = r.locate r.rgdFallback o := by
  unfold grainLocation Image.locate
  cases hfmt : r.fmt with
  | flat inner => rfl
  | seSparse inner geom => rfl
  | sparse inner geom => exact (grainLocationSparse_spec hfmt hc o).1

/-- What a list of allocated grains promises of a reader: grains in ascending order that do not
overlap, each of them whole and within the disk; and a sector is in one of them exactly when its
place, if it can be found, is not sparse. -/
structure AllocationMap (r : VmdkReader) (list : List AllocatedGrain) : Prop where
  grains : ∀ a ∈ list, a.sectorCount = r.fmt.infoGrainSizeBytes / sectorSize ∧
    a.sectorCount ∣ a.startLba ∧ a.startLba < r.virtualDiskSize / sectorSize
  increasing : list.Pairwise fun a b => a.startLba < b.startLba
  disjoint : list.Pairwise Image.Before
  covers : ∀ lba < r.virtualDiskSize / sectorSize, ∀ loc,
    (r.grainLocation (lba * sectorSize)).1 = .ok loc →
      ((∃ a ∈ list, a.startLba ≤ lba ∧ lba < a.startLba + a.sectorCount) ↔ loc ≠ .sparse)

/-- An index counted in units of a divisor of the block size. -/
theorem mul_div_of_dvd {u gs : Nat} (k : Nat) (h : u ∣ gs) (hu : 0 < u) :
    k * u / gs = k / (gs / u) := by
  obtain ⟨g, rfl⟩ := h
  rw [Nat.mul_div_cancel_left g hu, Nat.mul_comm, Nat.mul_div_mul_left _ _ hu]

/-- Tables that each list what their lookups resolve make up an allocation map. -/
theorem allocationMap_of_tables {gs n tables : Nat} {list : List AllocatedGrain}
    {table : Nat → Except IoError (List AllocatedGrain × Nat)} (hc : r.Coherent)
    (hinfo : r.fmt.infoGrainSizeBytes = gs) (hdvd : sectorSize ∣ gs) (hgs : 0 < gs) (hn : 0 < n)
    (hcovered : ∀ o < r.virtualDiskSize, o / gs / n < tables)
    (hlist : (Image.scanTables table 0 tables).1 = .ok list)
    (htable : ∀ i grains recovered, table i = .ok (grains, recovered) →
      ∃ alloc : Nat → Bool, grains = r.tableGrains gs n i alloc ∧
        ∀ o, o / gs / n = i → ∀ loc, r.locate r.rgdFallback o = .ok loc →
          (alloc (o / gs % n) = true ↔ loc ≠ .sparse)) :
    r.AllocationMap list := by
  have hg : 0 < gs / sectorSize := Nat.div_pos (Nat.le_of_dvd hgs hdvd) (by decide)
  obtain ⟨htables, rfl⟩ := Image.scanTables_ok hlist
  have halloc : ∀ i, ∃ alloc : Nat → Bool, i ∈ List.range' 0 tables →
      Image.listed table i = r.tableGrains gs n i alloc ∧
        ∀ o, o / gs / n = i → ∀ loc, r.locate r.rgdFallback o = .ok loc →
          (alloc (o / gs % n) = true ↔ loc ≠ .sparse) := by
    intro i
    by_cases hi : i ∈ List.range' 0 tables
    · obtain ⟨recovered, hok⟩ := htables i hi
      obtain ⟨alloc, hgrains, hlocates⟩ := htable i _ _ hok
      exact ⟨alloc, fun _ => ⟨hgrains, hlocates⟩⟩
    · exact ⟨fun _ => false, fun h => absurd h hi⟩
  choose alloc halloc using halloc
  have hscan : (List.range' 0 tables).flatMap (Image.listed table) =
      (List.range' 0 tables).flatMap fun i => r.tableGrains gs n i (alloc i) :=
    List.flatMap_congr fun i hi => (halloc i hi).1
  rw [hscan]
  have hdisjoint : ((List.range' 0 tables).flatMap fun i =>
      r.tableGrains gs n i (alloc i)).Pairwise Image.Before :=
    Image.scan_pairwise alloc List.pairwise_lt_range'
  refine ⟨fun a ha => ?_, ?_, hdisjoint, fun lba hlba loc hloc => ?_⟩
  · obtain ⟨i, -, ha⟩ := List.mem_flatMap.mp ha
    obtain ⟨j, -, -, ha⟩ := Image.mem_tableGrains.mp ha
    obtain ⟨hlt, rfl⟩ := Image.mem_allocatedGrain.mp ha
    rw [hinfo]
    exact ⟨rfl, Nat.dvd_mul_left _ _, hlt⟩
  · refine hdisjoint.imp_of_mem fun ha _ hab => ?_
    obtain ⟨i, -, ha⟩ := List.mem_flatMap.mp ha
    obtain ⟨j, -, -, ha⟩ := Image.mem_tableGrains.mp ha
    obtain ⟨-, rfl⟩ := Image.mem_allocatedGrain.mp ha
    exact Nat.lt_of_lt_of_le (Nat.lt_add_of_pos_right hg) hab
  · rw [grainLocation_fst hc] at hloc
    have hbyte : lba * sectorSize < r.virtualDiskSize :=
      Nat.lt_of_lt_of_le (Nat.mul_lt_mul_of_pos_right hlba (by decide)) (Nat.div_mul_le_self _ _)
    have hidx : lba * sectorSize / gs = lba / (gs / sectorSize) :=
      mul_div_of_dvd lba hdvd (by decide)
    have hmem : lba / (gs / sectorSize) / n ∈ List.range' 0 tables := by
      rw [← hidx, List.mem_range'_1]
      exact ⟨Nat.zero_le _, by simpa using hcovered _ hbyte⟩
    rw [Image.scan_covers hg hn hlba hmem]
    have hlocates := (halloc _ hmem).2 (lba * sectorSize) (by rw [hidx]) loc hloc
    rwa [hidx] at hlocates

variable [ZlibDecoder] {file : Source}

/-- **The allocation map is the read path's map**: whatever a reader has been asked before, and in
either mode, the grains it lists are those its lookups lead to. -/
theorem allocation_map (h : Reachable file r) {list : List AllocatedGrain}
    (hlist : r.iterAllocatedGrains.1 = .ok list) : r.AllocationMap list := by
  obtain ⟨⟨r₀, hopen, himage⟩, hc⟩ := h.inv
  have hcovered := open_covered hopen
  rw [← himage] at hcovered
  rw [(iterAllocatedGrains_spec hc).1] at hlist
  unfold Image.Covered at hcovered
  unfold Image.allocatedGrains at hlist
  cases hfmt : r.fmt with
  | flat inner => rw [hfmt] at hcovered; exact hcovered.elim
  | sparse inner geom =>
    rw [hfmt] at hcovered hlist
    refine allocationMap_of_tables hc (by rw [hfmt]; rfl) hcovered.1 geom.grainSizeBytes_pos
      geom.numGtesPerGt_pos hcovered.2 hlist fun i grains recovered htable => ?_
    obtain ⟨alloc, hgrains, hlocates⟩ := Image.scanTable_locates htable
    refine ⟨alloc, hgrains, fun o ho loc hloc => hlocates o ho loc ?_⟩
    unfold Image.locate at hloc
    rwa [hfmt] at hloc
  | seSparse inner geom =>
    rw [hfmt] at hcovered hlist
    refine allocationMap_of_tables hc (by rw [hfmt]; rfl) hcovered.1 geom.grainSizeBytes_pos
      (by decide) hcovered.2 hlist fun i grains recovered htable => ?_
    obtain ⟨alloc, hgrains, hlocates⟩ := Image.scanTableSesparse_locates htable
    refine ⟨alloc, hgrains, fun o ho loc hloc => hlocates o ho loc ?_⟩
    unfold Image.locate at hloc
    rwa [hfmt] at hloc

end VmdkReader

theorem VmdkReader.allocation_map_mirroredDisk :
    letI := Stored.decoder
    ∃ r, VmdkReader.open (mirroredDisk 11 1) = .ok r ∧
      r.enableRgdFallback.iterAllocatedGrains.1 = .ok [⟨0, 8⟩] ∧
      r.enableRgdFallback.AllocationMap [⟨0, 8⟩] := by
  let _ := Stored.decoder
  have hscan : (VmdkReader.open (mirroredDisk 11 1) >>= fun r =>
      fromIo r.enableRgdFallback.iterAllocatedGrains.1) = .ok [⟨0, 8⟩] := by decide +kernel
  obtain ⟨r, hr, hlist⟩ := bind_eq_ok.mp hscan
  rw [fromIo_eq_ok] at hlist
  exact ⟨r, hr, hlist, VmdkReader.allocation_map (.enableRgdFallback (.opened hr)) hlist⟩
