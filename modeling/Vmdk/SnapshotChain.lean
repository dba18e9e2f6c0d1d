import Vmdk.AllocQuery
import Vmdk.ChainOpen
import Vmdk.ChainSound
import Vmdk.SparseWriterSound

/-! # A written snapshot chain

A disk and its snapshots, each written to a file whose descriptor names the
next older one, open as one chain (`Snapshot.chain_reads_back`). Where all have
grains of one size the chain presents the newest written grain of every place,
whatever is sought and read. -/

open Bytes Text Word

/-! ## Stacks of grains -/

namespace SparseDisk

/-- The newest grain that was written at place `j`; the newest disk is the first. -/
def topGrain (ds : List SparseDisk) (j : Nat) : Option (List UInt8) :=
  ds.findSome? fun d => d.grains[j]?.join

/-- The bytes that a stack of disks of `n` grains of `w` bytes stands for. -/
def stacked (ds : List SparseDisk) (w n : Nat) : List UInt8 :=
  ((List.range n).map fun j => (topGrain ds j).getD (List.replicate w 0)).flatten

/-- A disk of `n` grains of `w` bytes. -/
structure Shaped (w n : Nat) (d : SparseDisk) : Prop where
  grainBytes : d.grainBytes = w
  grains : d.grains.length = n

section Stack
variable {ds : List SparseDisk} {d : SparseDisk} {w n o i j : Nat}

theorem topGrain_cons_none (h : d.grains[j]?.join = none) : topGrain (d :: ds) j = topGrain ds j := by
  unfold topGrain
  rw [List.findSome?_cons, h]

theorem topGrain_cons_some {bs : List UInt8} (h : d.grains[j]?.join = some bs) :
    topGrain (d :: ds) j = some bs := by
  unfold topGrain
  rw [List.findSome?_cons, h]

theorem length_topGrain (h : ∀ d ∈ ds, Shaped w n d) (j : Nat) :
    ((topGrain ds j).getD (List.replicate w 0)).length = w := by
  cases htop : topGrain ds j with
  | none => exact List.length_replicate
  | some bs =>
    obtain ⟨d, hd, hj⟩ := List.exists_of_findSome?_eq_some htop
    rw [Option.join_eq_some_iff] at hj
    have hlen : bs.length = d.grainBytes := d.whole _ (List.mem_of_getElem? hj) bs rfl
    exact hlen.trans (h d hd).grainBytes

theorem length_stacked (h : ∀ d ∈ ds, Shaped w n d) : (stacked ds w n).length = n * w := by
  have hblocks : ∀ b ∈ (List.range n).map fun j => (topGrain ds j).getD (List.replicate w 0),
      b.length = w := by
    intro b hb
    obtain ⟨j, -, rfl⟩ := List.mem_map.mp hb
    exact length_topGrain h j
  unfold stacked
  rw [Pack.length_uniform hblocks, List.length_map, List.length_range]

theorem getElem?_stacked (h : ∀ d ∈ ds, Shaped w n d) (ho : o < n * w) :
    (stacked ds w n)[o]? = ((topGrain ds (o / w)).getD (List.replicate w 0))[o % w]? := by
  have hw : 0 < w := Nat.pos_of_lt_mul_left ho
  have hblocks : ∀ b ∈ (List.range n).map fun j => (topGrain ds j).getD (List.replicate w 0),
      b.length = w := by
    intro b hb
    obtain ⟨j, -, rfl⟩ := List.mem_map.mp hb
    exact length_topGrain h j
  refine Pack.getElem?_uniform hblocks hw ?_
  rw [List.getElem?_map, List.getElem?_range (Nat.div_lt_of_lt_mul (Nat.mul_comm n w ▸ ho))]
  rfl

end Stack

/-! ## The layers as images -/

/-- The image is that of the written disk. -/
structure Layer [ZlibDecoder] (d : SparseDisk) (im : Image) : Prop where
  holds : im.Holds false d.content
  allocated : ∀ o < d.grains.length * d.grainBytes,
    im.isAllocated (o / sectorSize) = .ok (d.grains[o / d.grainBytes]?.join.isSome)
  grainSize : im.fmt.infoGrainSizeBytes = d.grainBytes

/-- A query about a sector finds the entry of the layout. -/
theorem isAllocated_of_entry {file : Source} {im : Image} {L : TableLayout} {geom : SparseFormat}
    (hfmt : im.fmt = .sparse file geom) (hload : L.Loaded file.bytes geom)
    (hsize : im.virtualDiskSize = L.capacity * sectorSize) {o gte : Nat}
    (ho : o < L.capacity * sectorSize) (hgrain : sectorSize ∣ L.grainBytes)
    (hentry : L.entry file.bytes o = some gte) :
    im.isAllocated (o / sectorSize) = .ok (decide (1 < gte)) := by
  have hpos : 0 < sectorSize := by decide
  have hlba : o / sectorSize < im.virtualDiskSize / sectorSize := by
    rw [hsize, Nat.mul_div_cancel _ hpos]
    exact Nat.div_lt_of_lt_mul (Nat.mul_comm _ _ ▸ ho)
  have hgrainIdx : o / sectorSize * sectorSize / L.grainBytes = o / L.grainBytes :=
    Blocks.div_floor hpos hgrain
  have hquery := Image.isAllocated_sparse hfmt hlba
  rw [hload.grainSizeBytes, hload.numGtesPerGt, hgrainIdx] at hquery
  have hfound : Image.queriedEntry file geom (o / L.grainBytes / L.numGtesPerGt)
      (o / L.grainBytes % L.numGtesPerGt) = some gte := by
    unfold TableLayout.entry at hentry
    unfold Image.queriedEntry
    simp only [hload.grainDir o ho]
    split at hentry
    · next h0 => rw [if_pos h0, hentry]
    · next h0 =>
      obtain ⟨hin, hgte⟩ := leAt_eq_some.mp hentry
      rw [if_neg h0, if_pos (show _ ≤ file.len from hin), hgte]
      rfl
  rw [hfound] at hquery
  cases hal : im.isAllocated (o / sectorSize) with
  | error e =>
    rw [hal] at hquery
    cases hquery
  | ok b =>
    rw [hal] at hquery
    exact congrArg Except.ok (Option.some.inj hquery)

variable [ZlibDecoder]

/-- **The image that is opened is that of the written disk.** -/
theorem layer_file {d : SparseDisk} (h : d.Writable) {file : Source} (hfile : file.bytes = d.file)
    {im : Image} (hopen : VmdkReader.open file = .ok im.reader) : Layer d im := by
  have hlayout := h.layoutOf_file hfile
  obtain ⟨im', heq, him⟩ := open_loads hopen
  have hsame : im' = im := (congrArg VmdkReader.toImage heq).symm
  subst hsame
  obtain ⟨geom, hfmt, hload⟩ : ∃ geom, im'.fmt = .sparse file geom ∧
      d.layout.Loaded file.bytes geom := by
    have hindex := him.index
    rw [hlayout] at hindex
    exact hindex
  have hsize : im'.virtualDiskSize = d.layout.capacity * sectorSize := by
    rw [him.size, hlayout]
    rfl
  refine ⟨holds h hfile hopen, fun o ho => ?_, ?_⟩
  · have hcap : o < d.layout.capacity * sectorSize := by
      show o < d.grains.length * d.grainSectors * sectorSize
      rwa [Nat.mul_assoc]
    have hgrain : sectorSize ∣ d.layout.grainBytes := Nat.dvd_mul_left _ _
    obtain ⟨g, hg⟩ : ∃ g, d.grains[o / d.grainBytes]? = some g :=
      ⟨_, List.getElem?_eq_getElem (grain_lt hcap)⟩
    have hentry := h.entry_eq hcap (getElem?_entries hg)
    rw [← hfile] at hentry
    rw [isAllocated_of_entry hfmt hload hsize hcap hgrain hentry, hg]
    cases g with
    | none => rfl
    | some bs =>
      exact congrArg Except.ok (decide_eq_true (one_lt_blobSector d (o / d.grainBytes)))
  · rw [hfmt]
    exact hload.grainSizeBytes

end SparseDisk

/-! ## Reading the chain -/

namespace VmdkChainReader
open SparseDisk

variable [ZlibDecoder] {ds : List SparseDisk} {ims : List Image} {w n pos k : Nat}
  {c c₀ : VmdkChainReader}

/-- What a caller that seeks and reads sees of the chain is the list of bytes. -/
def Presents (c : VmdkChainReader) (bytes : List UInt8) : Prop :=
  ∀ reqs : List (Disk.Request Empty),
    Machine.Accepts (Disk.ofBytes bytes Empty.elim (A := Empty)).Permits 0 reqs
      (Machine.run step c reqs)

/-- **The loop of `read`** delivers the newest grain written at the cursor, and always some of it. -/
theorem readImages_stacked (h : List.Forall₂ Layer ds ims) (hshape : ∀ d ∈ ds, Shaped w n d)
    (hpos : pos < n * w) (h63 : pos < 2 ^ 63) (hk : 0 < k) (hwithin : k ≤ w - pos % w) :
    ∃ bs, readImages pos k ims = .ok bs ∧ bs ≠ [] ∧ bs.length ≤ k ∧ ∀ i b, bs[i]? = some b →
      ((topGrain ds (pos / w)).getD (List.replicate w 0))[pos % w + i]? = some b := by
  induction h with
  | nil =>
    refine ⟨List.replicate k 0, rfl, ?_, ?_, ?_⟩
    · intro hnil
      rw [List.replicate_eq_nil_iff] at hnil
      omega
    · rw [List.length_replicate]
    · intro i b hb
      obtain ⟨rfl, hi⟩ := getElem?_replicate_some hb
      exact List.getElem?_replicate_of_lt (by omega)
  | @cons d im ds ims hlayer hrest ih =>
    obtain ⟨hd, hds⟩ := List.forall_mem_cons.mp hshape
    have hin : pos < d.grains.length * d.grainBytes := by rwa [hd.grains, hd.grainBytes]
    have hal := hlayer.allocated pos hin
    rw [hd.grainBytes] at hal
    unfold readImages
    rw [show (512 : Nat) = sectorSize from rfl, hal]
    cases hj : d.grains[pos / w]?.join with
    | none =>
      rw [topGrain_cons_none hj]
      exact ih hds
    | some grain =>
      obtain ⟨bs, hread, hdeliver⟩ :=
        hlayer.holds.delivers (Empty.elim : Empty → Empty) pos k
      have hsize : pos < d.content.length := by
        rw [length_content]
        show pos < d.grains.length * d.grainSectors * sectorSize
        rwa [Nat.mul_assoc]
      refine ⟨bs, (if_pos h63).trans hread, hdeliver.progress hk hsize trivial,
        hdeliver.length_le, fun i b hb => ?_⟩
      have hi : i < w - pos % w := by
        have hlen := (List.getElem?_eq_some_iff.mp hb).1
        have := hdeliver.length_le
        omega
      have hw : 0 < w := Nat.pos_of_lt_mul_left hpos
      have hbyte : d.content[pos + i]? = some b := hdeliver.bytes i b hb
      have hplace : d.grains[(pos + i) / d.grainBytes]? = some (some grain) := by
        rw [hd.grainBytes, Blocks.div_add hw hi]
        exact Option.join_eq_some_iff.mp hj
      rw [getElem?_content hplace, hd.grainBytes, Blocks.mod_add hw hi] at hbyte
      rw [topGrain_cons_some hj]
      exact hbyte

/-- A chain of such layers, as `open` makes it. -/
structure StackOf (ds : List SparseDisk) (ims : List Image) (w n : Nat) (c₀ : VmdkChainReader) :
    Prop where
  layers : List.Forall₂ Layer ds ims
  shaped : ∀ d ∈ ds, Shaped w n d
  size : c₀.virtualDiskSize = n * w
  clamp : c₀.clampBytes = w
  size_lt : n * w < 2 ^ 63
  pos : 0 < w

/-- A read of a chain at a place of the disk. -/
theorem StackOf.read (h : StackOf ds ims w n c₀) (hc : ChainOf ims c₀ c) (len : Nat) :
    ∃ bs, (c.read len).1 = .ok bs ∧ (c.read len).2.pos = c.pos + bs.length ∧
      (Disk.ofBytes (stacked ds w n) Empty.elim (A := Empty)).Delivers c.pos len bs := by
  have hsize : c.virtualDiskSize = n * w := hc.size.trans h.size
  have hlength := length_stacked h.shaped
  have hlt := h.size_lt
  have hfst := (read_spec hc (by rw [h.size]; unfold u64Size; omega) len).1
  by_cases hend : len = 0 ∨ c.virtualDiskSize ≤ c.pos
  · rw [if_pos hend] at hfst
    refine ⟨[], hfst, ?_, Disk.delivers_nil_at_end ?_⟩
    · unfold VmdkChainReader.read
      rw [if_pos hend]
      rfl
    · show (stacked ds w n).length ≤ c.pos ∨ len = 0
      omega
  · rw [if_neg hend] at hfst
    have hw := h.pos
    have hrest := Blocks.rest_pos (o := c.pos) hw
    have hspan : c.span len = min (min len (n * w - c.pos)) (w - c.pos % w) := by
      unfold span
      rw [hc.clamp, h.clamp, hsize, if_pos hw]
    obtain ⟨bs, hread, hne, hle, hbytes⟩ := readImages_stacked (k := c.span len) h.layers h.shaped
      (show c.pos < n * w by omega) (by omega) (by omega) (by omega)
    rw [hread] at hfst
    refine ⟨bs, hfst, ?_, ?_⟩
    · have hread' : (c.read len).1 = .ok bs := hfst
      unfold VmdkChainReader.read at hread' ⊢
      rw [if_neg hend] at hread' ⊢
      generalize readLayers c.pos (c.span len) c.layers = out at hread' ⊢
      obtain ⟨r, layers⟩ := out
      cases r with
      | error e => cases hread'
      | ok bs' =>
        cases hread'
        rfl
    · refine { length_le := by omega, within := .inr ?_, bytes := ?_, progress := fun _ _ _ => hne }
      · show c.pos + bs.length ≤ (stacked ds w n).length
        omega
      · intro i b hb
        have hi : i < bs.length := (List.getElem?_eq_some_iff.mp hb).1
        have hin : i < w - c.pos % w := by omega
        show (stacked ds w n)[c.pos + i]? = some b
        rw [getElem?_stacked h.shaped (by omega), Blocks.div_add hw hin, Blocks.mod_add hw hin]
        exact hbytes i b hb

/-- One call to the chain is answered from the stack. -/
theorem StackOf.step_permitted (h : StackOf ds ims w n c₀) {p : Nat}
    (hc : ChainOf ims c₀ c ∧ c.pos = p ∧ p < 2 ^ 63) (q : Disk.Request Empty) :
    ∃ p', (Disk.ofBytes (stacked ds w n) Empty.elim (A := Empty)).Permits p q (c.step q).1 p' ∧
      ChainOf ims c₀ (c.step q).2 ∧ (c.step q).2.pos = p' ∧ p' < 2 ^ 63 := by
  obtain ⟨hchain, rfl, hp⟩ := hc
  have hlt := h.size_lt
  have hlength := length_stacked h.shaped
  have hsize : c.virtualDiskSize = (stacked ds w n).length := by
    rw [hchain.size, h.size, hlength]
  have hnext := step_chainOf hchain (by rw [h.size]; unfold u64Size; omega) q
  cases q with
  | seek f =>
    rcases Cursor.seek_spec hp (by omega : (stacked ds w n).length < 2 ^ 63) f with
      ⟨t, ht, htarget⟩ | ⟨herr, hout⟩
    · have hstep : c.step (.seek f) = (.sought (.ok t), { c with pos := t }) := by
        have hseek : c.seek f = (.ok t, { c with pos := t }) := by
          unfold VmdkChainReader.seek
          rw [hsize, ht]
        show (Disk.Answer.sought (c.seek f).1, (c.seek f).2) = _
        rw [hseek]
      rw [hstep] at hnext ⊢
      exact ⟨t, ⟨htarget, rfl⟩, hnext, rfl, Cursor.seek_lt ht⟩
    · have hstep : c.step (.seek f) = (.sought (.error Cursor.beforeStart), c) := by
        have hseek : c.seek f = (.error Cursor.beforeStart, c) := by
          unfold VmdkChainReader.seek
          rw [hsize, herr]
        show (Disk.Answer.sought (c.seek f).1, (c.seek f).2) = _
        rw [hseek]
      rw [hstep] at hnext ⊢
      exact ⟨c.pos, ⟨hout, rfl⟩, hnext, rfl, hp⟩
  | read len =>
    obtain ⟨bs, hread, hpos, hdeliver⟩ := h.read hchain len
    refine ⟨c.pos + bs.length, ?_, hnext, hpos, ?_⟩
    · show (Disk.ofBytes (stacked ds w n) Empty.elim (A := Empty)).Permits c.pos (.read len)
        (.data (c.read len).1) (c.pos + bs.length)
      rw [hread]
      exact ⟨hdeliver, rfl⟩
    · rcases hdeliver.within with rfl | hle
      · exact hp
      · have hin : c.pos + bs.length ≤ (stacked ds w n).length := hle
        omega
  | query q => cases q

/-- **Every run of the chain is one of the stack.** -/
theorem StackOf.presents (h : StackOf ds ims w n (ofLayers (ims.map Image.reader))) :
    (ofLayers (ims.map Image.reader)).Presents (stacked ds w n) := by
  intro reqs
  refine Machine.run_accepted (R := fun c p => ChainOf ims (ofLayers (ims.map Image.reader)) c ∧
    c.pos = p ∧ p < 2 ^ 63) ?_ ⟨chainOf_ofLayers ims, rfl, Nat.two_pow_pos 63⟩ reqs
  exact fun _ _ q hc => h.step_permitted hc q

end VmdkChainReader

/-! ## Files that name their parents -/

/-- A written disk, what its descriptor says, and the path of its file. -/
structure Snapshot where
  path : FilePath
  disk : SparseDisk
  doc : DescriptorDoc
  eol : LineEnd

namespace Snapshot
open VmdkReader VmdkChainReader SparseDisk

/-- The file of `s` is the one that was written. -/
structure StoredIn [ZlibDecoder] (s : Snapshot) (fs : FileSystem) : Prop where
  file : ∃ file, fs s.path = .ok file ∧ file.bytes = s.disk.file
  writable : s.disk.Writable
  doc : s.doc.WellFormed
  utf8 : SaysUtf8 (s.doc.text s.eol)
  descriptor : s.disk.descriptor = utf8Encode (s.doc.text s.eol)

/-- `s` names the file of `parent`, by a path that does not leave the directory. -/
structure ChildOf (s parent : Snapshot) : Prop where
  parentCid : s.doc.parentCid ≠ noCid
  named : s.doc.parentFileNameHint.getD [] ≠ []
  resolved : resolveExtentPath (directoryOf s.path) (s.doc.parentFileNameHint.getD []) =
    .ok parent.path

/-- Each file names the next older one, and the last is the base. -/
inductive Linked : Snapshot → List Snapshot → Prop
  | base {s : Snapshot} (h : s.doc.parentCid = noCid) : Linked s []
  | delta {s parent : Snapshot} {older : List Snapshot} (h : ChildOf s parent)
      (hrest : Linked parent older) : Linked s (parent :: older)

section Opening
variable [ZlibDecoder] {fs : FileSystem} {s : Snapshot} {older : List Snapshot} {w n : Nat}

/-- A stored file is opened as the layer of its disk, with the parent that the descriptor names. -/
theorem StoredIn.openPath (h : s.StoredIn fs) : ∃ im : Image, Layer s.disk im ∧
    (VmdkReader.openPath fs .caller s.path).result = .ok im.reader ∧
      im.parentCid = s.doc.parentCid ∧
        im.reader.parentHint = s.doc.parentFileNameHint.getD [] := by
  obtain ⟨file, hpath, hfile⟩ := h.file
  have hopen := open_written h.writable hfile h.doc h.utf8 h.descriptor
  exact ⟨_, layer_file h.writable hfile hopen, openPath_binary hpath hopen, rfl,
    DescriptorDoc.parentHint_text h.doc s.eol⟩

/-- **The walk down the files** finds the layer of every disk. -/
theorem Linked.descends (h : Linked s older) (hstored : ∀ t ∈ s :: older, t.StoredIn fs) :
    ∃ steps ims, Descends fs s.path steps ∧ steps.map Prod.snd = ims.map Image.reader ∧
      List.Forall₂ Layer ((s :: older).map Snapshot.disk) ims := by
  induction h with
  | @base s hbase =>
    obtain ⟨im, hlayer, hopen, hcid, -⟩ := (hstored s List.mem_cons_self).openPath
    exact ⟨[(s.path, im.reader)], [im], .base hopen (.inl (hcid.trans hbase)), rfl,
      .cons hlayer .nil⟩
  | @delta s parent older hchild hrest ih =>
    obtain ⟨hs, hstored'⟩ := List.forall_mem_cons.mp hstored
    obtain ⟨im, hlayer, hopen, hcid, hhint⟩ := hs.openPath
    obtain ⟨steps, ims, hsteps, himages, hlayers⟩ := ih hstored'
    have hend : ¬ im.reader.EndsChain := by
      rintro (hno | hno)
      · exact hchild.parentCid (hcid.symm.trans hno)
      · exact hchild.named (hhint.symm.trans hno)
    have hnext : resolveExtentPath (directoryOf s.path) im.reader.parentHint = .ok parent.path := by
      rw [hhint]
      exact hchild.resolved
    refine ⟨(s.path, im.reader) :: steps, im :: ims, .delta hopen hend hnext hsteps, ?_,
      .cons hlayer hlayers⟩
    rw [List.map_cons, List.map_cons, himages]

/-- The smallest grain size of layers of one grain size. -/
theorem clampBytes_layers {ds : List SparseDisk} {ims : List Image}
    (h : List.Forall₂ Layer ds ims) (hshape : ∀ d ∈ ds, Shaped w n d) (hne : ims ≠ []) (hw : 0 < w) :
    (ofLayers (ims.map Image.reader)).clampBytes = w := by
  have hsizes : ims.map (fun im => im.fmt.infoGrainSizeBytes) = List.replicate ims.length w := by
    refine List.eq_replicate_iff.mpr ⟨List.length_map _, fun g hg => ?_⟩
    obtain ⟨im, him, rfl⟩ := List.mem_map.mp hg
    obtain ⟨i, hi, rfl⟩ := List.mem_iff_getElem.mp him
    have hi' : i < ds.length := by rwa [h.length_eq]
    exact (h.get hi' hi).grainSize.trans (hshape _ (List.getElem_mem hi')).grainBytes
  show (((ims.map Image.reader).map fun l => l.fmt.infoGrainSizeBytes).filter (0 < ·)).min?.getD 0 = w
  rw [List.map_map]
  show ((ims.map (fun im => im.fmt.infoGrainSizeBytes)).filter (0 < ·)).min?.getD 0 = w
  rw [hsizes, List.filter_replicate_of_pos (p := fun g => decide (0 < g)) (decide_eq_true hw)]
  obtain ⟨im, rest, rfl⟩ := List.exists_cons_of_ne_nil hne
  rw [List.length_cons, List.min?_replicate_of_pos (Nat.succ_pos _)]
  rfl

/-- The chain that is opened is one over the layers of the disks. -/
theorem open_stack (h : Linked s older) (hstored : ∀ t ∈ s :: older, t.StoredIn fs)
    (hshape : ∀ t ∈ s :: older, Shaped w n t.disk) (hdepth : older.length < maxChainDepth) :
    ∃ ims : List Image, (VmdkChainReader.open fs s.path).result =
        .ok (ofLayers (ims.map Image.reader)) ∧ ims.length = older.length + 1 ∧
      StackOf ((s :: older).map Snapshot.disk) ims w n (ofLayers (ims.map Image.reader)) := by
  obtain ⟨steps, ims, hsteps, himages, hlayers⟩ := h.descends hstored
  have hlength : ims.length = older.length + 1 := by
    rw [← hlayers.length_eq, List.length_map, List.length_cons]
  have hcount : steps.length = ims.length := by
    rw [← List.length_map (f := Prod.snd), himages, List.length_map]
  have hopen := hsteps.open (by omega)
  rw [himages] at hopen
  have hdisks : ∀ d ∈ (s :: older).map Snapshot.disk, Shaped w n d := by
    intro d hd
    obtain ⟨t, ht, rfl⟩ := List.mem_map.mp hd
    exact hshape t ht
  have hs := hshape s List.mem_cons_self
  have hw : 0 < w := hs.grainBytes ▸ s.disk.grainBytes_pos
  have hne : ims ≠ [] := List.ne_nil_of_length_pos (by omega)
  obtain ⟨im, ims', rfl⟩ := List.exists_cons_of_ne_nil hne
  have hhead : Layer s.disk im := (List.forall₂_cons.mp hlayers).1
  have hsize : im.virtualDiskSize = n * w := by
    rw [← hhead.holds.length_eq, length_content, ← hs.grains, ← hs.grainBytes]
    exact Nat.mul_assoc _ _ _
  exact ⟨im :: ims', hopen, hlength,
    { layers := hlayers
      shaped := hdisks
      size := hsize
      clamp := clampBytes_layers hlayers hdisks hne hw
      size_lt := hsize ▸ hhead.holds.lt
      pos := hw }⟩

/-- What opening the newest file gives. -/
structure ReadsStack (fs : FileSystem) (s : Snapshot) (older : List Snapshot) (w n : Nat)
    (c : VmdkChainReader) : Prop where
  opened : (VmdkChainReader.open fs s.path).result = .ok c
  depth : c.layers.length = older.length + 1
  size : c.virtualDiskSize = n * w
  presents : c.Presents (stacked ((s :: older).map Snapshot.disk) w n)

/-- **A written chain is opened, and presents the newest grain written at every place.** -/
theorem chain_reads_back (h : Linked s older) (hstored : ∀ t ∈ s :: older, t.StoredIn fs)
    (hshape : ∀ t ∈ s :: older, Shaped w n t.disk) (hdepth : older.length < maxChainDepth) :
    ∃ c, ReadsStack fs s older w n c := by
  obtain ⟨ims, hopen, hlength, hstack⟩ := open_stack h hstored hshape hdepth
  refine ⟨_, hopen, ?_, hstack.size, hstack.presents⟩
  show (ims.map Image.reader).length = _
  rw [List.length_map, hlength]

end Opening

/-! ## A disk and one snapshot of it -/

/-- The base, of which only the second grain is written. -/
def baseDisk : Snapshot where
  path := "base disk.vmdk".toList
  disk := sample none
  doc := sampleDoc
  eol := .crlf

theorem length_splitChild :
    (utf8Encode (DescriptorDoc.splitChild.text .lf)).length ≤ 20 * sectorSize := by
  decide +kernel

theorem whole_childDisk : ∀ g ∈ [some (List.replicate 4096 (9 : UInt8)), none], ∀ bs ∈ g,
    bs.length = 8 * sectorSize :=
  List.forall_mem_cons.mpr ⟨length_filled 9, List.forall_mem_singleton.mpr (length_hole _)⟩

/-- The snapshot, of which only the first grain is written. -/
def childDisk : Snapshot where
  path := "child.vmdk".toList
  disk := { sample none with
    grains := [some (List.replicate 4096 9), none]
    descriptor := utf8Encode (DescriptorDoc.splitChild.text .lf)
    whole := whole_childDisk
    descriptor_le := length_splitChild }
  doc := DescriptorDoc.splitChild
  eol := .lf

theorem writable_childDisk [ZlibDecoder] : childDisk.disk.Writable :=
  writable_of_plain rfl (by decide) (by decide +kernel)

theorem length_childDisk : childDisk.disk.file.length < 2 ^ 63 :=
  letI := Stored.decoder
  writable_childDisk.length_lt (trailer_lt none)

theorem length_baseDisk : baseDisk.disk.file.length < 2 ^ 63 :=
  letI := Stored.decoder
  writable_plain.length_lt (trailer_lt none)

/-- The directory that holds both files. -/
def sampleFiles : FileSystem := fun p =>
  if p = childDisk.path then .ok (Source.ofBytes childDisk.disk.file length_childDisk)
  else .ok (Source.ofBytes baseDisk.disk.file length_baseDisk)

theorem storedIn_sampleFiles [ZlibDecoder] : ∀ t ∈ [childDisk, baseDisk], t.StoredIn sampleFiles := by
  intro t ht
  simp only [List.mem_cons, List.not_mem_nil, or_false] at ht
  rcases ht with rfl | rfl
  · exact {
      file := ⟨_, if_pos rfl, rfl⟩
      writable := writable_childDisk
      doc := DescriptorDoc.wellFormed_splitChild
      utf8 := by decide
      descriptor := rfl }
  · exact {
      file := ⟨_, if_neg (by decide), rfl⟩
      writable := writable_plain
      doc := wellFormed_sampleDoc
      utf8 := by decide
      descriptor := rfl }

theorem linked_sampleFiles : Linked childDisk [baseDisk] :=
  .delta { parentCid := by decide, named := by decide, resolved := by decide }
    (.base rfl)

theorem shaped_sampleFiles : ∀ t ∈ [childDisk, baseDisk], Shaped 4096 2 t.disk := by
  intro t ht
  simp only [List.mem_cons, List.not_mem_nil, or_false] at ht
  rcases ht with rfl | rfl <;> exact ⟨rfl, rfl⟩

theorem chain_reads_back_sampleFiles : let _ := Stored.decoder
    ∃ c, ReadsStack sampleFiles childDisk [baseDisk] 4096 2 c :=
  letI := Stored.decoder
  chain_reads_back linked_sampleFiles storedIn_sampleFiles shaped_sampleFiles (by decide)

end Snapshot
