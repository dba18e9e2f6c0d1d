import Mathlib.Data.Nat.Count
import Mathlib.Data.Finset.Card
import Vmdk.AllocQuery
import Vmdk.IntegritySound

/-! # What the recovery counter counts

The counter goes up with every lookup that is resolved through the redundant
directory, and a scan looks up every entry of every table. It is the number of
grains that were recovered as long as every recovered grain is come upon once
only, by a call that succeeds, and lies below the capacity
(`VmdkReader.recovery_count`). -/

open Bytes Word

namespace Image
variable {im : Image} {file : Source} {geom : SparseFormat} {i j k o : Nat}

/-! ## Recovered grains -/

/-- Grain `k` is recovered: the redundant directory has it, and its entry in the primary table is
lost, or that table is. -/
def Recovered (im : Image) (file : Source) (geom : SparseFormat) (k : Nat) : Prop :=
  1 < im.redundantCopy file geom.numGtesPerGt (k / geom.numGtesPerGt) (k % geom.numGtesPerGt) ∧
    (usable geom.numGtesPerGt file.len (geom.grainDir.getD (k / geom.numGtesPerGt) 0) = true →
      tableEntry file.bytes (geom.grainDir.getD (k / geom.numGtesPerGt) 0)
        (k % geom.numGtesPerGt) ≤ 1)

instance (im : Image) (file : Source) (geom : SparseFormat) (k : Nat) :
    Decidable (im.Recovered file geom k) :=
  inferInstanceAs (Decidable (_ ∧ _))

/-- Table `i` is in neither directory, and the primary one has a pointer to it. -/
def TableLost (im : Image) (file : Source) (geom : SparseFormat) (i : Nat) : Prop :=
  geom.grainDir.getD i 0 ≠ 0 ∧
    usable geom.numGtesPerGt file.len (geom.grainDir.getD i 0) = false ∧
    usable geom.numGtesPerGt file.len (im.redundantPtr file i) = false

instance (im : Image) (file : Source) (geom : SparseFormat) (i : Nat) :
    Decidable (im.TableLost file geom i) :=
  inferInstanceAs (Decidable (_ ∧ _ ∧ _))

/-- The table that recovery goes to. -/
theorem gtSectorFor_recovering (i : Nat) : im.gtSectorFor true file geom i =
    .ok (if usable geom.numGtesPerGt file.len (geom.grainDir.getD i 0) = true then
        geom.grainDir.getD i 0
      else if usable geom.numGtesPerGt file.len (im.redundantPtr file i) = true then
        im.redundantPtr file i
      else geom.grainDir.getD i 0) := by
  have hr := @rgdDirEntry_eq_redundantPtr im file i
  unfold gtSectorFor resilientGtSector
  simp only [if_true, seekEnd_zero, hr, bind, Except.bind, pure, Except.pure]
  split
  · rfl
  · split
    · rfl
    · rfl

/-- A redundant copy comes from a usable redundant table. -/
theorem usable_of_copy {n : Nat} (h : 1 < im.redundantCopy file n i j) :
    usable n file.len (im.redundantPtr file i) = true := by
  by_contra hnot
  rw [redundantCopy, if_neg hnot] at h
  exact absurd h (by decide)

/-- A replaced pointer is another one. -/
theorem redundantPtr_ne {n p : Nat} (hp : ¬ usable n file.len p = true)
    (hr : usable n file.len (im.redundantPtr file i) = true) :
    im.redundantPtr file i ≠ p ∧ im.redundantPtr file i ≠ 0 :=
  ⟨fun heq => hp (heq ▸ hr), (usable_iff_fits.mp hr).1⟩

theorem recovered_slot (hj : j < geom.numGtesPerGt) :
    im.Recovered file geom (i * geom.numGtesPerGt + j) ↔
      1 < im.redundantCopy file geom.numGtesPerGt i j ∧
        (usable geom.numGtesPerGt file.len (geom.grainDir.getD i 0) = true →
          tableEntry file.bytes (geom.grainDir.getD i 0) j ≤ 1) := by
  unfold Recovered
  rw [Nat.mul_comm i, Nat.mul_add_div geom.numGtesPerGt_pos, Nat.div_eq_of_lt hj, Nat.add_zero,
    Nat.mul_add_mod, Nat.mod_eq_of_lt hj]

/-! ## What one lookup counts -/

/-- The flag of a lookup whose table is at hand. -/
theorem locateIn_counts {s gte : Nat} {gt : List Nat}
    (hgt : gt.getD (o / geom.grainSizeBytes % geom.numGtesPerGt) 0 = gte) :
    (im.locateIn true file geom o s gt).2 =
      if gte ≤ 1 then
        decide (1 < im.redundantCopy file geom.numGtesPerGt
          (o / geom.grainSizeBytes / geom.numGtesPerGt) (o / geom.grainSizeBytes % geom.numGtesPerGt))
      else s != geom.grainDir.getD (o / geom.grainSizeBytes / geom.numGtesPerGt) 0 && s != 0 := by
  have hcopy := @rgdGte_eq_redundantCopy im file _ (o / geom.grainSizeBytes / geom.numGtesPerGt) _
    (Nat.mod_lt (o / geom.grainSizeBytes) geom.numGtesPerGt_pos)
  unfold locateIn recoverEntry
  simp only [hgt, hcopy, Bool.true_and, bind, Except.bind, decide_eq_true_eq]
  generalize im.redundantCopy file geom.numGtesPerGt _ _ = copy
  by_cases hlost : gte ≤ 1
  · simp only [hlost, if_true]
    by_cases hfound : 1 < copy
    · simp only [pure, Except.pure, gt_iff_lt, hfound, if_true, if_neg (Nat.not_le.mpr hfound),
        decide_true]
    · simp only [pure, Except.pure, gt_iff_lt, hfound, if_false, hlost, if_true, decide_false]
  · simp only [hlost, if_false]

/-- **A lookup counts its grain when it recovers it.** -/
theorem locateSparse_counts (o : Nat) : (im.locateSparse true file geom o).2 =
    decide (im.Recovered file geom (o / geom.grainSizeBytes)) := by
  have hj : o / geom.grainSizeBytes % geom.numGtesPerGt < geom.numGtesPerGt :=
    Nat.mod_lt _ geom.numGtesPerGt_pos
  have hcounts {s gte : Nat} {gt : List Nat} := @locateIn_counts im file geom o s gte gt
  rw [Bool.eq_iff_iff, decide_eq_true_iff]
  unfold locateSparse Recovered
  simp only [gtSectorFor_recovering]
  generalize o / geom.grainSizeBytes / geom.numGtesPerGt = i at hcounts ⊢
  generalize geom.grainDir.getD i 0 = primary at hcounts ⊢
  by_cases hp : usable geom.numGtesPerGt file.len primary = true
  · obtain ⟨h0, hin⟩ := usable_iff_fits.mp hp
    obtain ⟨gt, hgt, hgetD⟩ := readGt_of_le hj hin
    simp only [hp, if_true, if_neg h0, hgt, hcounts hgetD, bne_self_eq_false, Bool.false_and,
      forall_const]
    split
    · next hlost => simp only [decide_eq_true_eq, hlost, and_true]
    · next hkept => simp only [Bool.false_eq_true, hkept, and_false]
  · by_cases hr : usable geom.numGtesPerGt file.len (im.redundantPtr file i) = true
    · obtain ⟨h0, hin⟩ := usable_iff_fits.mp hr
      obtain ⟨gt, hgt, hgetD⟩ := readGt_of_le hj hin
      obtain ⟨hne, -⟩ := redundantPtr_ne hp hr
      have hcopy : im.redundantCopy file geom.numGtesPerGt i
          (o / geom.grainSizeBytes % geom.numGtesPerGt) = tableEntry file.bytes
            (im.redundantPtr file i) (o / geom.grainSizeBytes % geom.numGtesPerGt) := if_pos hr
      simp only [hp, hr, if_true, if_false, if_neg h0, hgt, hcounts hgetD, hcopy, Bool.false_eq_true,
        false_implies, and_true]
      split
      · exact decide_eq_true_iff
      · next hgt1 => simp [hne, h0, Nat.not_le.mp hgt1]
    · have hnone : ¬ 1 < im.redundantCopy file geom.numGtesPerGt i
          (o / geom.grainSizeBytes % geom.numGtesPerGt) := fun h => hr (usable_of_copy h)
      simp only [hp, hr, if_false, hnone, false_and, iff_false, Bool.false_eq_true]
      split
      · exact Bool.false_ne_true
      · next h0 =>
        cases hgt : readGt file geom.numGtesPerGt primary with
        | error e => exact Bool.false_ne_true
        | ok gt =>
          exact absurd (usable_iff_fits.mpr ⟨h0, readGt_ok_le geom.numGtesPerGt_pos hgt⟩) hp

/-! ## What a scan counts -/

/-- An entry of the scan counts when its grain is recovered. -/
theorem scanEntry_counts {gtBytes : List UInt8} {redundant : Option (List UInt8)} {sector : Nat}
    (hj : j < geom.numGtesPerGt)
    (hredundant : im.redundantGtFor true file i geom.numGtesPerGt = .ok redundant)
    (hsector : im.gtSectorFor true file geom i = .ok sector)
    (h0 : sector ≠ 0)
    (hread : file.readExactAt (sector * sectorSize) (geom.numGtesPerGt * 4) = .ok gtBytes) :
    ((scanEntry gtBytes redundant j).1 > 1 ∧
      ((sector != geom.grainDir.getD i 0 && sector != 0) ||
        (scanEntry gtBytes redundant j).2) = true) ↔
      im.Recovered file geom (i * geom.numGtesPerGt + j) := by
  have hgte : leNat (slice gtBytes (j * 4) 4) = tableEntry file.bytes sector j := by
    rw [(Source.readExactAt_ok hread).1, slice_slice _ _ _ _ _ (by omega)]
    rfl
  have hcopy : redundantGte redundant j = im.redundantCopy file geom.numGtesPerGt i j :=
    Except.ok.inj ((rgdGte_of_redundantGt hredundant hj).symm.trans (rgdGte_eq_redundantCopy hj))
  have hscan : scanEntry gtBytes redundant j =
      if tableEntry file.bytes sector j ≤ 1 ∧ 1 < im.redundantCopy file geom.numGtesPerGt i j then
        (im.redundantCopy file geom.numGtesPerGt i j, true)
      else (tableEntry file.bytes sector j, false) := by
    rw [← hgte, ← hcopy]
    rfl
  rw [gtSectorFor_recovering] at hsector
  have hsector := Except.ok.inj hsector
  rw [recovered_slot hj, hscan]
  generalize geom.grainDir.getD i 0 = primary at hsector ⊢
  by_cases hp : usable geom.numGtesPerGt file.len primary = true
  · rw [if_pos hp] at hsector
    subst hsector
    simp only [hp, bne_self_eq_false, Bool.false_and, Bool.false_or, forall_const]
    split
    · next hlost => exact ⟨fun _ => ⟨hlost.2, hlost.1⟩, fun _ => ⟨hlost.2, rfl⟩⟩
    · next hkept => exact ⟨fun h => absurd h.2 Bool.false_ne_true, fun h => absurd ⟨h.2, h.1⟩ hkept⟩
  · rw [if_neg hp] at hsector
    by_cases hr : usable geom.numGtesPerGt file.len (im.redundantPtr file i) = true
    · rw [if_pos hr] at hsector
      subst hsector
      obtain ⟨hne, -⟩ := redundantPtr_ne hp hr
      have hsame : im.redundantCopy file geom.numGtesPerGt i j =
          tableEntry file.bytes (im.redundantPtr file i) j := if_pos hr
      rw [hsame, if_neg (by omega)]
      simp [hne, h0, hp]
    · rw [if_neg hr] at hsector
      subst hsector
      have hin := Source.readExactAt_ok_le
        (Nat.mul_pos geom.numGtesPerGt_pos (by decide)) hread
      exact absurd (usable_iff_fits.mpr ⟨h0, hin⟩) hp

/-- A table is lost when recovery goes to one that is not whole. -/
theorem tableLost_iff {sector : Nat} (h : im.gtSectorFor true file geom i = .ok sector) :
    im.TableLost file geom i ↔ sector ≠ 0 ∧ ¬ usable geom.numGtesPerGt file.len sector = true := by
  rw [gtSectorFor_recovering] at h
  have h := Except.ok.inj h
  unfold TableLost
  generalize geom.grainDir.getD i 0 = primary at h ⊢
  by_cases hp : usable geom.numGtesPerGt file.len primary = true
  · rw [if_pos hp] at h
    subst h
    simp [hp]
  · rw [if_neg hp] at h
    by_cases hr : usable geom.numGtesPerGt file.len (im.redundantPtr file i) = true
    · rw [if_pos hr] at h
      subst h
      simp [hr]
    · rw [if_neg hr] at h
      subst h
      simp [hp, hr]

/-- Where recovery finds no table it recovers nothing. -/
theorem not_recovered_of_absent (hj : j < geom.numGtesPerGt)
    (h : im.gtSectorFor true file geom i = .ok 0) :
    ¬ im.Recovered file geom (i * geom.numGtesPerGt + j) := by
  rw [recovered_slot hj]
  rintro ⟨hcopy, -⟩
  have hr := usable_of_copy hcopy
  rw [gtSectorFor_recovering] at h
  have h := Except.ok.inj h
  rw [if_pos hr] at h
  split at h
  · next hp => exact (usable_iff_fits.mp hp).1 h
  · exact (usable_iff_fits.mp hr).1 h

/-- The recovered grains of table `i`. -/
def recoveredSlots (im : Image) (file : Source) (geom : SparseFormat) (i : Nat) : Nat :=
  Nat.count (fun j => im.Recovered file geom (i * geom.numGtesPerGt + j)) geom.numGtesPerGt

/-- **A table of the scan counts its recovered grains**, unless it is lost. -/
theorem scanTable_counts (i : Nat) :
    (im.TableLost file geom i → ∃ e, im.scanTable true file geom i = .error e) ∧
    (¬ im.TableLost file geom i → ∃ grains,
      im.scanTable true file geom i = .ok (grains, im.recoveredSlots file geom i)) := by
  obtain ⟨redundant, hredundant⟩ := im.redundantGtFor_total true file i geom.numGtesPerGt
  obtain ⟨sector, hsector⟩ : ∃ sector, im.gtSectorFor true file geom i = .ok sector :=
    ⟨_, gtSectorFor_recovering i⟩
  rw [tableLost_iff hsector]
  unfold scanTable
  simp only [hsector, hredundant, bind, Except.bind]
  by_cases h0 : sector = 0
  · subst h0
    refine ⟨fun h => absurd rfl h.1, fun _ => ⟨[], ?_⟩⟩
    have hnone : im.recoveredSlots file geom i = 0 := by
      refine List.countP_eq_zero.mpr fun j hj => ?_
      rw [decide_eq_true_eq]
      exact not_recovered_of_absent (List.mem_range.mp hj) hsector
    rw [hnone]
    rfl
  · rw [if_neg h0]
    cases hread : file.readExactAt (sector * sectorSize) (geom.numGtesPerGt * 4) with
    | error e =>
      refine ⟨fun _ => ⟨e, rfl⟩, fun h => ?_⟩
      have husable := not_not.mp fun hnot => h ⟨h0, hnot⟩
      rw [Source.readExactAt_of_le (usable_iff_fits.mp husable).2] at hread
      cases hread
    | ok gtBytes =>
      have hin := Source.readExactAt_ok_le (Nat.mul_pos geom.numGtesPerGt_pos (by decide)) hread
      have hcount : (((List.range geom.numGtesPerGt).filter fun gteIdx =>
          decide ((scanEntry gtBytes redundant gteIdx).1 > 1)).countP fun gteIdx =>
            (true && sector != geom.grainDir.getD i 0 && sector != 0) ||
              (scanEntry gtBytes redundant gteIdx).2) = im.recoveredSlots file geom i := by
        rw [List.countP_filter]
        refine List.countP_congr fun j hj => ?_
        have hslot := scanEntry_counts (List.mem_range.mp hj) hredundant hsector h0 hread
        rw [Bool.and_eq_true, decide_eq_true_eq, decide_eq_true_eq, Bool.true_and, and_comm]
        exact hslot
      rw [← hcount]
      exact ⟨fun h => absurd (usable_iff_fits.mpr ⟨h0, hin⟩) h.2, fun _ => ⟨_, rfl⟩⟩

/-! ## What the tables of a scan count together -/

theorem count_congr {p q : Nat → Prop} [DecidablePred p] [DecidablePred q] {n : Nat}
    (h : ∀ m < n, p m ↔ q m) : Nat.count p n = Nat.count q n :=
  Nat.le_antisymm (Nat.count_mono_left fun m hm => (h m hm).mp)
    (Nat.count_mono_left fun m hm => (h m hm).mpr)

/-- No table from `i` on is lost before grain `k`. -/
def Reached (im : Image) (file : Source) (geom : SparseFormat) (i k : Nat) : Prop :=
  ∀ t ≤ k / geom.numGtesPerGt, i ≤ t → ¬ im.TableLost file geom t

instance (im : Image) (file : Source) (geom : SparseFormat) (i k : Nat) :
    Decidable (im.Reached file geom i k) :=
  inferInstanceAs (Decidable (∀ t ≤ k / geom.numGtesPerGt, i ≤ t → ¬ im.TableLost file geom t))

theorem reached_slot (hj : j < geom.numGtesPerGt) :
    im.Reached file geom i (i * geom.numGtesPerGt + j) ↔ ¬ im.TableLost file geom i := by
  have hdiv : (i * geom.numGtesPerGt + j) / geom.numGtesPerGt = i := by
    rw [Nat.mul_comm, Nat.mul_add_div geom.numGtesPerGt_pos, Nat.div_eq_of_lt hj, Nat.add_zero]
  unfold Reached
  rw [hdiv]
  constructor
  · intro h
    exact h i (Nat.le_refl i) (Nat.le_refl i)
  · intro h t hle hge
    rwa [Nat.le_antisymm hle hge]

theorem reached_succ (hk : i * geom.numGtesPerGt ≤ k) : im.Reached file geom i k ↔
    ¬ im.TableLost file geom i ∧ im.Reached file geom (i + 1) k := by
  have hi : i ≤ k / geom.numGtesPerGt := (Nat.le_div_iff_mul_le geom.numGtesPerGt_pos).mpr hk
  constructor
  · intro h
    exact ⟨h i hi (Nat.le_refl i), fun t ht hge => h t ht (Nat.le_of_succ_le hge)⟩
  · rintro ⟨hfirst, h⟩ t ht hge
    rcases Nat.eq_or_lt_of_le hge with rfl | hlt
    · exact hfirst
    · exact h t ht hlt

/-- **A scan counts the recovered grains** of the tables up to the first lost one. -/
theorem scanTables_counts (i tables : Nat) :
    (scanTables (im.scanTable true file geom) i tables).2 =
      Nat.count (fun m => im.Reached file geom i (i * geom.numGtesPerGt + m) ∧
        im.Recovered file geom (i * geom.numGtesPerGt + m)) (tables * geom.numGtesPerGt) := by
  induction tables generalizing i with
  | zero =>
    rw [Nat.zero_mul, Nat.count_zero]
    rfl
  | succ tables ih =>
    obtain ⟨hlost, hkept⟩ := @scanTable_counts im file geom i
    rw [Nat.succ_mul, Nat.add_comm (tables * geom.numGtesPerGt), Nat.count_add]
    unfold scanTables
    by_cases h : im.TableLost file geom i
    · obtain ⟨e, he⟩ := hlost h
      have hunreached {m : Nat} : ¬ im.Reached file geom i (i * geom.numGtesPerGt + m) := fun hr =>
        ((reached_succ (Nat.le_add_right _ _)).mp hr).1 h
      simp only [he, hunreached, false_and, Nat.count_false]
    · obtain ⟨grains, hok⟩ := hkept h
      simp only [hok, ih]
      refine congrArg₂ (· + ·) (count_congr fun j hj => ?_) (count_congr fun m _ => ?_)
      · rw [reached_slot hj, iff_true_intro h, true_and]
      · have hnext : i * geom.numGtesPerGt + (geom.numGtesPerGt + m) =
            (i + 1) * geom.numGtesPerGt + m := by
          rw [Nat.succ_mul, Nat.add_assoc]
        rw [hnext, @reached_succ im file geom i _ (by rw [Nat.succ_mul]; omega),
          iff_true_intro h, true_and]

/-- The grains that a scan recovers, some of them perhaps beyond the capacity. -/
def scanFound (im : Image) (file : Source) (geom : SparseFormat) : Finset Nat :=
  (Finset.range (geom.grainDir.length * geom.numGtesPerGt)).filter fun k =>
    im.Reached file geom 0 k ∧ im.Recovered file geom k

theorem allocatedGrains_counts (hfmt : im.fmt = .sparse file geom) :
    (im.allocatedGrains true).2 = (im.scanFound file geom).card := by
  unfold allocatedGrains scanFound
  rw [hfmt]
  change (scanTables (im.scanTable true file geom) 0 geom.grainDir.length).2 = _
  rw [scanTables_counts, ← Nat.count_eq_card_filter_range]
  refine count_congr fun m _ => ?_
  rw [Nat.zero_mul, Nat.zero_add]

/-- The scan succeeds when no table is lost. -/
theorem allocatedGrains_succeeds (hfmt : im.fmt = .sparse file geom) :
    (∃ list, (im.allocatedGrains true).1 = .ok list) ↔
      ∀ i < geom.grainDir.length, ¬ im.TableLost file geom i := by
  unfold allocatedGrains
  rw [hfmt]
  change (∃ list, (scanTables (im.scanTable true file geom) 0 geom.grainDir.length).1 = .ok list) ↔ _
  constructor
  · rintro ⟨list, hlist⟩ i hi hlost
    obtain ⟨recovered, hok⟩ := (scanTables_ok hlist).1 i (by simpa using hi)
    obtain ⟨e, he⟩ := (scanTable_counts i).1 hlost
    rw [he] at hok
    cases hok
  · intro h
    refine scanTables_of_ok fun i hi => ?_
    obtain ⟨grains, hok⟩ := (scanTable_counts i).2 (h i (by simpa using hi))
    exact ⟨_, hok⟩

end Image

/-! ## Outside recovery mode -/

namespace Image

theorem readAtCounting_plain [ZlibDecoder] (im : Image) (pos len : Nat) :
    (im.readAtCounting false pos len).2 = false := by
  unfold readAtCounting
  split
  · rfl
  · cases im.fmt with
    | flat inner => rfl
    | seSparse inner geom => rfl
    | sparse inner geom =>
      unfold locateSparse gtSectorFor locateIn recoverEntry
      simp only [Bool.false_eq_true, if_false, Bool.false_and]
      split
      · rfl
      · split
        · rfl
        · split
          · rfl
          · rfl

theorem allocatedGrains_plain (im : Image) : (im.allocatedGrains false).2 = 0 := by
  unfold allocatedGrains
  cases im.fmt with
  | flat inner => rfl
  | seSparse inner geom =>
    refine scanTables_count (fun i grains recovered h => ?_) 0 _
    unfold scanTableSesparse at h
    simp only at h
    split at h
    · cases h
      rfl
    · split at h
      · cases h
        rfl
      · obtain ⟨gtBytes, -, h⟩ := bind_eq_ok.mp h
        exact (Prod.mk.inj (Except.ok.inj h)).2.symm
  | sparse inner geom =>
    refine scanTables_count (fun i grains recovered h => ?_) 0 _
    unfold scanTable at h
    obtain ⟨gtSector, -, h⟩ := bind_eq_ok.mp h
    obtain ⟨redundant, hredundant, h⟩ := bind_eq_ok.mp h
    obtain rfl : redundant = none := (Except.ok.inj hredundant).symm
    split at h
    · cases h
      rfl
    · obtain ⟨gtBytes, -, h⟩ := bind_eq_ok.mp h
      rw [← (Prod.mk.inj (Except.ok.inj h)).2]
      simp [scanEntry]

end Image

/-! ## The counter over a run -/

/-- A set united with part of another grows by all of it when that part is all, and is new. -/
theorem card_union_eq_add_iff {H F G : Finset Nat} (h : G ⊆ F) :
    H.card + F.card = (H ∪ G).card ↔ ∀ k ∈ F, k ∈ G ∧ k ∉ H := by
  have hunion := Finset.card_union_add_card_inter H G
  have hle := Finset.card_le_card h
  constructor
  · intro heq k hk
    have hsame : G = F := Finset.eq_of_subset_of_card_le h (by omega)
    have hdisjoint : H ∩ G = ∅ := Finset.card_eq_zero.mp (by omega)
    refine ⟨hsame ▸ hk, fun hkH => ?_⟩
    have hmem : k ∈ H ∩ G := Finset.mem_inter.mpr ⟨hkH, hsame ▸ hk⟩
    rw [hdisjoint] at hmem
    cases hmem
  · intro hnew
    have hsame : G = F := Finset.Subset.antisymm h fun k hk => (hnew k hk).1
    have hdisjoint : H ∩ G = ∅ := by
      refine Finset.eq_empty_of_forall_notMem fun k hk => ?_
      obtain ⟨hkH, hkG⟩ := Finset.mem_inter.mp hk
      exact (hnew k (h hkG)).2 hkH
    rw [hdisjoint, Finset.card_empty, Nat.add_zero] at hunion
    rw [hunion, hsame]

namespace VmdkReader
variable [ZlibDecoder]

/-- Whether a call returned `Ok`. -/
def succeeded : Disk.Answer Reply → Bool
  | .sought r => r.isOk
  | .data r => r.isOk
  | .answer (.allocated r) => r.isOk
  | .answer (.grains r) => r.isOk

omit [ZlibDecoder] in
/-- The grains that the lookups of a call recover, whether or not it succeeds. -/
def found (file : Source) (geom : SparseFormat) (r : VmdkReader) : Disk.Request Query → Finset Nat
  | .read len =>
    if r.pos < r.virtualDiskSize ∧ 0 < len ∧ r.Recovered file geom (r.pos / geom.grainSizeBytes) then
      {r.pos / geom.grainSizeBytes}
    else ∅
  | .query .iterAllocatedGrains => r.scanFound file geom
  | _ => ∅

/-- The grains below the capacity that a successful call recovers. -/
def resolved (file : Source) (geom : SparseFormat) (r : VmdkReader) (q : Disk.Request Query) :
    Finset Nat :=
  if succeeded (r.step q).1 then
    (found file geom r q).filter fun k => k * geom.grainSizeBytes < r.virtualDiskSize
  else ∅

/-- A call, with a record of the grains that successful calls have recovered so far. -/
def recordStep (file : Source) (geom : SparseFormat) (s : VmdkReader × Finset Nat)
    (q : Disk.Request Query) : Disk.Answer Reply × VmdkReader × Finset Nat :=
  ((s.1.step q).1, (s.1.step q).2, s.2 ∪ resolved file geom s.1 q)

/-- After the call the counter is the number of grains on record. -/
def CountsGrains (file : Source) (geom : SparseFormat) (s : VmdkReader × Finset Nat)
    (q : Disk.Request Query) : Prop :=
  (recordStep file geom s q).2.1.rgdRecoveryCount = (recordStep file geom s q).2.2.card

/-- What the image has to offer for a call that comes upon a recovered grain: the bytes at the
cursor, or every table of the directory. -/
def Intact (file : Source) (geom : SparseFormat) (r : VmdkReader) : Disk.Request Query → Prop
  | .read len => ∃ bs, r.readAt true r.pos len = .ok bs
  | _ => ∀ i < geom.grainDir.length, ¬ r.TableLost file geom i

/-- Every grain that the call recovers is below the capacity and not on record, and nothing makes
the call fail. -/
def Fresh (file : Source) (geom : SparseFormat) (s : VmdkReader × Finset Nat)
    (q : Disk.Request Query) : Prop :=
  ∀ k ∈ found file geom s.1 q, Intact file geom s.1 q ∧
    k * geom.grainSizeBytes < s.1.virtualDiskSize ∧ k ∉ s.2

variable {im : Image} {file : Source} {geom : SparseFormat} {r : VmdkReader}

/-- **Every call counts what it finds.** -/
theorem step_counts (hfmt : im.fmt = .sparse file geom) (him : r.toImage = im) (hc : r.Coherent)
    (hfallback : r.rgdFallback = true) (q : Disk.Request Query) :
    (r.step q).2.rgdRecoveryCount = r.rgdRecoveryCount + (found file geom r q).card := by
  subst him
  cases q with
  | seek f => exact (seek_spec hc f).2.count
  | read len =>
    rw [show (r.step (.read len)).2 = (r.read len).2 from rfl, (read_spec hc len).2.count, hfallback]
    refine congrArg _ ?_
    unfold Image.readAtCounting
    simp only [found]
    by_cases hend : r.virtualDiskSize ≤ r.pos ∨ len = 0
    · rw [if_pos hend, if_neg (by omega)]
      rfl
    · rw [if_neg hend, hfmt]
      simp only [Image.locateSparse_counts]
      by_cases hrec : r.Recovered file geom (r.pos / geom.grainSizeBytes)
      · rw [if_pos ⟨by omega, by omega, hrec⟩, decide_eq_true hrec]
        rfl
      · rw [if_neg fun h => hrec h.2.2, decide_eq_false hrec]
        rfl
  | query q =>
    cases q with
    | isAllocated lba => rfl
    | iterAllocatedGrains =>
      have hcount := (iterAllocatedGrains_spec hc).2.count
      rw [hfallback, Image.allocatedGrains_counts hfmt] at hcount
      exact hcount

/-- A call that finds anything succeeds when the image is intact there. -/
theorem succeeded_iff (hfmt : im.fmt = .sparse file geom) (him : r.toImage = im) (hc : r.Coherent)
    (hfallback : r.rgdFallback = true) (q : Disk.Request Query) {k : Nat}
    (hk : k ∈ found file geom r q) : succeeded (r.step q).1 = true ↔ Intact file geom r q := by
  subst him
  have isOk_iff {α : Type} (x : Except IoError α) : x.isOk = true ↔ ∃ a, x = .ok a := by
    cases x with
    | ok a => simp [Except.isOk, Except.toBool]
    | error e => simp [Except.isOk, Except.toBool]
  cases q with
  | seek f => cases hk
  | read len =>
    have hread := (read_spec hc len).1
    rw [hfallback] at hread
    change (r.read len).1.isOk = true ↔ _
    rw [hread, isOk_iff]
    exact Iff.rfl
  | query q =>
    cases q with
    | isAllocated lba => cases hk
    | iterAllocatedGrains =>
      have hscan := (iterAllocatedGrains_spec hc).1
      rw [hfallback] at hscan
      change r.iterAllocatedGrains.1.isOk = true ↔ _
      rw [hscan, isOk_iff]
      exact Image.allocatedGrains_succeeds hfmt

/-- The reader and the record of a run. -/
structure Recording (im : Image) (s : VmdkReader × Finset Nat) : Prop where
  image : s.1.toImage = im
  fallback : s.1.rgdFallback = true
  coherent : s.1.Coherent
  count : s.1.rgdRecoveryCount = s.2.card

/-- One call keeps the counter the number of grains on record if and only if what it finds is
fresh. -/
theorem countsGrains_iff (hfmt : im.fmt = .sparse file geom) {s : VmdkReader × Finset Nat}
    (hs : Recording im s) (q : Disk.Request Query) :
    CountsGrains file geom s q ↔ Fresh file geom s q := by
  have hcount := step_counts hfmt hs.image hs.coherent hs.fallback q
  have hsub : resolved file geom s.1 q ⊆ found file geom s.1 q := by
    unfold resolved
    split
    · exact Finset.filter_subset _ _
    · exact Finset.empty_subset _
  unfold CountsGrains recordStep Fresh
  simp only
  rw [hcount, hs.count, card_union_eq_add_iff hsub]
  refine forall₂_congr fun k hk => ?_
  rw [← succeeded_iff hfmt hs.image hs.coherent hs.fallback q hk]
  unfold resolved
  split
  · next hok => simp [hk, hok]
  · next hfail => simp [hfail]

/-- Outside recovery mode nothing is counted. -/
theorem step_counts_plain (hc : r.Coherent) (hfallback : r.rgdFallback = false)
    (q : Disk.Request Query) : (r.step q).2.rgdRecoveryCount = r.rgdRecoveryCount := by
  cases q with
  | seek f => exact (seek_spec hc f).2.count
  | read len =>
    have hcount := (read_spec hc len).2.count
    rwa [hfallback, Image.readAtCounting_plain] at hcount
  | query q =>
    cases q with
    | isAllocated lba => rfl
    | iterAllocatedGrains =>
      have hcount := (iterAllocatedGrains_spec hc).2.count
      rwa [hfallback, Image.allocatedGrains_plain] at hcount

/-- A reader of `im` that has never been in recovery mode. -/
def Unused (im : Image) (s : VmdkReader) : Prop :=
  s.toImage = im ∧ s.rgdFallback = false ∧ s.Coherent ∧ s.rgdRecoveryCount = 0

/-- A reader that is switched to recovery mode after any calls starts an empty record. -/
theorem recording_of_open (him : r = im.reader) (before : List (Disk.Request Query)) :
    Recording im ((Machine.final VmdkReader.step r before).enableRgdFallback, ∅) := by
  have hstep : ∀ (s : VmdkReader) q, Unused im s → Unused im (s.step q).2 := by
    rintro s q ⟨himage, hfallback, hc, hcount⟩
    obtain ⟨hkept, hmode, hc'⟩ := step_keeps hc q
    exact ⟨hkept.trans himage, hmode.trans hfallback, hc',
      (step_counts_plain hc hfallback q).trans hcount⟩
  have hopened : Unused im r := him ▸ ⟨rfl, rfl, coherent_reader im, rfl⟩
  have hinv := Machine.final_inv hstep hopened before
  obtain ⟨himage, -, hc, hcount⟩ := hinv
  exact ⟨himage, rfl, hc, hcount⟩

/-- **The counter counts grains** along a run in recovery mode if and only if every call finds only
fresh ones: it is the number of grains below the capacity that successful calls have recovered as
long as no recovered grain is looked up twice, by a call that fails, or beyond the capacity. -/
theorem recovery_count (hmagic : numAt 4 file.bytes 0 = Header.magic)
    (hopen : VmdkReader.open file = .ok r) :
    ∃ geom, r.fmt = .sparse file geom ∧ ∀ before requests : List (Disk.Request Query),
      Machine.Steps (recordStep file geom) (CountsGrains file geom)
          ((Machine.final VmdkReader.step r before).enableRgdFallback, ∅) requests ↔
        Machine.Steps (recordStep file geom) (Fresh file geom)
          ((Machine.final VmdkReader.step r before).enableRgdFallback, ∅) requests := by
  obtain ⟨geom, hview⟩ := open_vmdk4View hmagic hopen
  obtain ⟨im, rfl, -⟩ := open_loads hopen
  have hfmt : im.fmt = .sparse file geom := hview.fmt
  refine ⟨geom, hfmt, fun before requests => ?_⟩
  have hkeep : ∀ s q, Recording im s → CountsGrains file geom s q →
      Recording im (recordStep file geom s q).2 := by
    intro s q hs hcounts
    obtain ⟨hkept, hmode, hc⟩ := step_keeps hs.coherent q
    exact ⟨hkept.trans hs.image, hmode.trans hs.fallback, hc, hcounts⟩
  exact Machine.steps_iff_of_inv (fun s q hs => countsGrains_iff hfmt hs q) hkeep
    (recording_of_open rfl before) requests

end VmdkReader

theorem VmdkReader.recovery_count_mirroredDisk :
    letI := Stored.decoder
    ∃ r geom, VmdkReader.open (mirroredDisk 0 3) = .ok r ∧ r.fmt = .sparse (mirroredDisk 0 3) geom ∧
      ∀ before requests : List (Disk.Request VmdkReader.Query),
        Machine.Steps (VmdkReader.recordStep (mirroredDisk 0 3) geom)
            (VmdkReader.CountsGrains (mirroredDisk 0 3) geom)
            ((Machine.final VmdkReader.step r before).enableRgdFallback, ∅) requests ↔
          Machine.Steps (VmdkReader.recordStep (mirroredDisk 0 3) geom)
            (VmdkReader.Fresh (mirroredDisk 0 3) geom)
            ((Machine.final VmdkReader.step r before).enableRgdFallback, ∅) requests := by
  let _ := Stored.decoder
  obtain ⟨r, hopen⟩ := exists_of_isOk (x := VmdkReader.open (mirroredDisk 0 3)) (by decide +kernel)
  obtain ⟨geom, hfmt, hcounts⟩ := VmdkReader.recovery_count (by decide +kernel) hopen
  exact ⟨r, geom, hopen, hfmt, hcounts⟩

/-- The counter and the record after two reads of one byte each in recovery mode. -/
def VmdkReader.readTwice [ZlibDecoder] (file : Source) (r : VmdkReader) : Nat × Finset Nat :=
  match r.fmt with
  | .sparse _ geom =>
    let s := Machine.final (VmdkReader.recordStep file geom) (r.enableRgdFallback, ∅)
      [.read 1, .read 1]
    (s.1.rgdRecoveryCount, s.2)
  | _ => (0, ∅)

/-- Two reads of one byte each, both in the one grain that is recovered: the counter is two. -/
theorem VmdkReader.recovery_count_repeats_mirroredDisk :
    letI := Stored.decoder
    ∃ r geom, VmdkReader.open (mirroredDisk 0 3) = .ok r ∧ r.fmt = .sparse (mirroredDisk 0 3) geom ∧
      (Machine.final (VmdkReader.recordStep (mirroredDisk 0 3) geom) (r.enableRgdFallback, ∅)
        [.read 1, .read 1]).1.rgdRecoveryCount = 2 ∧
      (Machine.final (VmdkReader.recordStep (mirroredDisk 0 3) geom) (r.enableRgdFallback, ∅)
        [.read 1, .read 1]).2 = {0} ∧
      ¬ Machine.Steps (VmdkReader.recordStep (mirroredDisk 0 3) geom)
        (VmdkReader.CountsGrains (mirroredDisk 0 3) geom) (r.enableRgdFallback, ∅)
        [.read 1, .read 1] := by
  let _ := Stored.decoder
  have hrun : (VmdkReader.open (mirroredDisk 0 3)).map (VmdkReader.readTwice (mirroredDisk 0 3)) =
      .ok (2, {0}) := by decide +kernel
  obtain ⟨r, hopen, hrun⟩ := exists_of_map_eq hrun
  obtain ⟨geom, hview⟩ := open_vmdk4View (by decide +kernel) hopen
  have hfmt : r.fmt = .sparse (mirroredDisk 0 3) geom := hview.fmt
  simp only [VmdkReader.readTwice, hfmt] at hrun
  obtain ⟨hcount, hrecord⟩ := Prod.mk.inj hrun
  refine ⟨r, geom, hopen, hfmt, hcount, hrecord, fun hsteps => ?_⟩
  obtain ⟨-, hsecond, -⟩ := hsteps
  have hcard := congrArg Finset.card hrecord
  exact absurd (hcount.symm.trans (hsecond.trans hcard)) (by decide)
