import Vmdk.Diff
import Vmdk.Stream
import Vmdk.Lib.Mutex

/-! # A reader behind a mutex

`VmdkSource` serves positioned reads: `read_at` takes the lock, seeks, and reads
until the buffer is full or a read delivers nothing. Concurrent calls interleave
between the steps of `readAtProgram`; a call that nothing disturbs does what
`readAt` does (`VmdkSource.readAt_alone`). Every call seeks first, and every
step, finished or not, keeps the image, the mode and the coherence of the cache,
so no call sees another (`VmdkSource.reads_independent`). -/

open Bytes Word

/-- `VfsError::Io`. -/
structure VfsError where
  op : String
  source : IoError
deriving DecidableEq, Repr

abbrev VfsResult (α : Type) := Except VfsError α

/-- The reader behind the lock, and the length recorded when it was wrapped. -/
structure VmdkSource where
  inner : VmdkReader
  len : Nat

/-- A call of `read_at` with a buffer of `bufLen` bytes. -/
structure ReadCall where
  offset : UInt64
  bufLen : Nat
deriving DecidableEq, Repr

/-- Where a call is that holds the lock: before its seek, or after it with `got` in the buffer. -/
inductive ReadPhase where
  | seek (call : ReadCall)
  | fill (want : Nat) (got : List UInt8)
deriving DecidableEq, Repr

namespace VmdkReader

/-- How a seek or a read that does not finish may leave the reader. -/
inductive Interrupted [ZlibDecoder] (r : VmdkReader) : VmdkReader → Prop
  | untouched : Interrupted r r
  | sought (f : SeekFrom) : Interrupted r (r.seek f).2
  /-- With a grain table cached, and no grain found. -/
  | cached {inner : Source} {geom : SparseFormat} (hfmt : r.fmt = .sparse inner geom)
      (gtSector : Nat) : Interrupted r { r with
        gtCache := (Memo.fetch (readGt inner geom.numGtesPerGt) r.gtCache gtSector).2 }
  /-- With the grain found, and counted if it was recovered. -/
  | located {inner : Source} {geom : SparseFormat} (hfmt : r.fmt = .sparse inner geom) :
      Interrupted r (r.grainLocationSparse inner geom r.pos).2
  | read (len : Nat) : Interrupted r (r.read len).2

end VmdkReader

namespace VmdkSource
variable [ZlibDecoder]

def new (reader : VmdkReader) : VmdkSource := ⟨reader, reader.virtualDiskSize⟩

/-- `read_at`; the bytes it puts into the buffer are as many as it says. -/
def readAt (self : VmdkSource) (call : ReadCall) : VfsResult (List UInt8) × VmdkSource :=
  let avail := self.len - call.offset.toNat
  if avail = 0 then (.ok [], self) else
  let want := min call.bufLen avail
  match self.inner.seek (.start call.offset) with
  | (.error e, inner) => (.error ⟨"vmdk::seek", e⟩, { self with inner })
  | (.ok _, inner) =>
    let filled := Copy.pump VmdkReader.read (· ++ ·) id want inner [] want
    ((filled.1.map fun _ => filled.2.2).mapError (⟨"vmdk::read", ·⟩),
      { self with inner := filled.2.1 })

/-- The steps of `read_at` between which other threads run. -/
def readAtProgram (len : Nat) :
    Mutex.Program ReadCall VmdkReader ReadPhase (VfsResult (List UInt8)) where
  early call := if len - call.offset.toNat = 0 then some (.ok []) else none
  enter := .seek
  step
    | .seek call, guard =>
      match guard.seek (.start call.offset) with
      | (.error e, guard) => (.inr (.error ⟨"vmdk::seek", e⟩), guard)
      | (.ok _, guard) => (.inl (.fill (min call.bufLen (len - call.offset.toNat)) []), guard)
    | .fill want got, guard =>
      if want ≤ got.length then (.inr (.ok got), guard) else
      match guard.read (want - got.length) with
      | (.error e, guard) => (.inr (.error ⟨"vmdk::read", e⟩), guard)
      | (.ok [], guard) => (.inr (.ok got), guard)
      | (.ok (b :: bs), guard) => (.inl (.fill want (got ++ b :: bs)), guard)
  cut _ := VmdkReader.Interrupted

/-! ## A call that nothing disturbs -/

/-- The steps of the loop do what the loop does, from wherever it is. -/
theorem fill_runs {len want fuel : Nat} {guard : VmdkReader} {got : List UInt8}
    (hfuel : want - got.length ≤ fuel) :
    let filled := Copy.pump VmdkReader.read (· ++ ·) id fuel guard got (want - got.length)
    (readAtProgram len).Runs (.fill want got) guard
      ((filled.1.map fun _ => filled.2.2).mapError (⟨"vmdk::read", ·⟩)) filled.2.1 := by
  induction fuel generalizing guard got with
  | zero =>
    exact .finish (if_pos (Nat.sub_eq_zero_iff_le.mp (Nat.le_zero.mp hfuel)))
  | succ fuel ih =>
    unfold Copy.pump
    by_cases hfull : want - got.length = 0
    · simp only [if_pos hfull]
      exact .finish (if_pos (Nat.sub_eq_zero_iff_le.mp hfull))
    have hmore : ¬ want ≤ got.length := fun h => hfull (Nat.sub_eq_zero_iff_le.mpr h)
    simp only [if_neg hfull, id]
    rcases hread : guard.read (want - got.length) with ⟨e | bs, guard'⟩
    · refine .finish ?_
      simp only [readAtProgram, if_neg hmore, hread]
      rfl
    · cases bs with
      | nil =>
        refine .finish ?_
        simp only [readAtProgram, if_neg hmore, hread]
        rfl
      | cons b bs =>
        have hless : want - (got ++ b :: bs).length = want - got.length - (b :: bs).length := by
          rw [List.length_append, Nat.sub_add_eq]
        have hrest := @ih guard' (got ++ b :: bs) (by rw [hless, List.length_cons]; omega)
        rw [hless] at hrest
        refine .work ?_ hrest
        simp only [readAtProgram, if_neg hmore, hread]

/-- **A call that nothing disturbs does what `readAt` does.** -/
theorem readAt_alone {ι ε : Type} [DecidableEq ι] {i : ι} {source : VmdkSource}
    {calls : ι → ReadCall} {c : Mutex.Config ι VmdkReader ReadPhase (VfsResult (List UInt8)) ε}
    (hw : c.phase i = .waiting) (hfree : c.Unlocked) (hc : c.resource = source.inner) :
    Relation.ReflTransGen (Mutex.Step (readAtProgram source.len) calls i) c
      (c.set i (.returned (source.readAt (calls i)).1) (source.readAt (calls i)).2.inner) := by
  unfold readAt
  by_cases hend : source.len - (calls i).offset.toNat = 0
  · simp only [if_pos hend, ← hc]
    exact .single (.early hw (if_pos hend))
  simp only [if_neg hend, ← hc]
  have hearly : (readAtProgram source.len).early (calls i) = none := if_neg hend
  rcases hseek : c.resource.seek (.start (calls i).offset) with ⟨e | n, guard⟩
  · refine Mutex.Program.Runs.alone (.finish ?_) hw hearly hfree
    simp only [readAtProgram, hseek]
  · refine Mutex.Program.Runs.alone (.work ?_ (fill_runs (Nat.le_refl _))) hw hearly hfree
    simp only [readAtProgram, hseek]
    rfl

end VmdkSource

/-! ## Calls that share the reader -/

namespace VmdkReader
variable [ZlibDecoder]

/-- A reader as a caller may wrap it: opened, then used, with recovery switched on at any time. -/
inductive InUse : VmdkReader → Prop
  | opened {file : Source} {r : VmdkReader} (h : VmdkReader.open file = .ok r) : InUse r
  | openedPath {fs : FileSystem} {path : FilePath} {r : VmdkReader}
      (h : (openPath fs .caller path).result = .ok r) : InUse r
  | step {r : VmdkReader} (h : InUse r) (q : Disk.Request Query) : InUse (r.step q).2
  | enableRgdFallback {r : VmdkReader} (h : InUse r) : InUse r.enableRgdFallback

variable {r : VmdkReader} {im : Image} {fallback : Bool} {pos : Nat}

theorem InUse.inv (h : InUse r) : r.toImage.Shaped ∧ r.Coherent := by
  induction h with
  | opened h =>
    obtain ⟨im, rfl, him⟩ := open_shaped h
    exact ⟨him, coherent_reader im⟩
  | openedPath h =>
    obtain ⟨im, rfl, him⟩ := openPath_shaped h
    exact ⟨him, coherent_reader im⟩
  | step h q ih =>
    obtain ⟨him, hc⟩ := ih
    obtain ⟨himage, -, hc'⟩ := step_keeps hc q
    exact ⟨himage ▸ him, hc'⟩
  | enableRgdFallback h ih => exact ih

/-- The same image opened afresh, in the same mode. -/
def reopened (r : VmdkReader) : VmdkReader := { r.toImage.reader with rgdFallback := r.rgdFallback }

omit [ZlibDecoder] in
theorem at_reopened (r : VmdkReader) : VmdkReader.At r.toImage r.rgdFallback 0 r.reopened :=
  ⟨rfl, rfl, coherent_reader r.toImage, rfl⟩

/-- **An interrupted step leaves nothing that a later call sees**: only the cursor is somewhere. -/
theorem Interrupted.at {r' : VmdkReader} (h : Interrupted r r')
    (hr : VmdkReader.At im fallback pos r) : ∃ pos', VmdkReader.At im fallback pos' r' := by
  cases h with
  | untouched => exact ⟨pos, hr⟩
  | sought f => exact ⟨_, hr.of_moves (seek_spec hr.coherent f).2⟩
  | cached hfmt gtSector =>
    have hcache := (hr.coherent.memo hfmt).fetch_snd gtSector
    exact ⟨pos, hr.image, hr.fallback, coherent_of_sparse hfmt hcache, hr.pos⟩
  | located hfmt => exact ⟨_, hr.of_moves (grainLocationSparse_spec hfmt hr.coherent r.pos).2⟩
  | read len => exact ⟨_, hr.of_moves (read_spec hr.coherent len).2⟩

end VmdkReader

namespace VmdkSource
variable [ZlibDecoder] {im : Image} {fallback : Bool} {pos : Nat}

/-- The bytes of the disk that a call asks for. -/
def diskWindow (im : Image) (fallback : Bool) (call : ReadCall) : List UInt8 :=
  Copy.window (im.diskByte fallback) call.offset.toNat
    (min call.bufLen (im.virtualDiskSize - call.offset.toNat))

theorem length_diskWindow (call : ReadCall) : (diskWindow im fallback call).length =
    min call.bufLen (im.virtualDiskSize - call.offset.toNat) := Copy.length_window ..

theorem diskWindow_of_end {call : ReadCall} (h : im.virtualDiskSize - call.offset.toNat = 0) :
    diskWindow im fallback call = [] := by
  refine List.eq_nil_of_length_eq_zero ?_
  rw [length_diskWindow, h, Nat.min_zero]

/-- What holds of the reader while a call runs. -/
def Held (im : Image) (fallback : Bool) (call : ReadCall) : ReadPhase → VmdkReader → Prop
  | .seek call', guard => call' = call ∧ 0 < im.virtualDiskSize - call.offset.toNat ∧
      ∃ pos, VmdkReader.At im fallback pos guard
  | .fill want got, guard => want = min call.bufLen (im.virtualDiskSize - call.offset.toNat) ∧
      got.length ≤ want ∧
      got = Copy.window (im.diskByte fallback) call.offset.toNat got.length ∧
      VmdkReader.At im fallback (call.offset.toNat + got.length) guard

theorem Held.at {call : ReadCall} {k : ReadPhase} {guard : VmdkReader}
    (h : Held im fallback call k guard) : ∃ pos, VmdkReader.At im fallback pos guard := by
  cases k with
  | seek call' => exact h.2.2
  | fill want got => exact ⟨_, h.2.2.2⟩

/-- How far a call is from its return. -/
def remaining : ReadPhase → Nat
  | .seek call => call.bufLen + 1
  | .fill want got => want - got.length

section
variable (h : im.ReadableIn fallback) (him : im.Shaped)
include h him

theorem seek_at {call : ReadCall} {guard : VmdkReader} (hguard : VmdkReader.At im fallback pos guard)
    (hin : 0 < im.virtualDiskSize - call.offset.toNat) :
    ∃ guard', guard.seek (.start call.offset) = (.ok call.offset.toNat, guard') ∧
      VmdkReader.At im fallback call.offset.toNat guard' := by
  have hle := h.size_le him
  have hseek := hguard.seek (n := call.offset.toNat) (by omega)
  rwa [UInt64.ofNat_toNat] at hseek

/-- One step of a running call goes on, closer to the end, or returns the bytes of the disk. -/
theorem step_held {call : ReadCall} {k : ReadPhase} {guard : VmdkReader}
    (hheld : Held im fallback call k guard) :
    (∃ k' guard', (readAtProgram im.virtualDiskSize).step k guard = (.inl k', guard') ∧
      Held im fallback call k' guard' ∧ remaining k' < remaining k) ∨
    ∃ guard', (readAtProgram im.virtualDiskSize).step k guard =
        (.inr (.ok (diskWindow im fallback call)), guard') ∧
      ∃ pos, VmdkReader.At im fallback pos guard' := by
  cases k with
  | seek call' =>
    obtain ⟨rfl, hin, pos, hguard⟩ := hheld
    obtain ⟨guard', hseek, hat⟩ := seek_at h him hguard hin
    refine .inl ⟨.fill (min call'.bufLen (im.virtualDiskSize - call'.offset.toNat)) [], guard', ?_,
      ⟨rfl, Nat.zero_le _, rfl, hat⟩, ?_⟩
    · simp only [readAtProgram, hseek]
    · exact Nat.lt_succ_of_le (Nat.min_le_left ..)
  | fill want got =>
    obtain ⟨hwant, hlen, hgot, hguard⟩ := hheld
    by_cases hfull : want ≤ got.length
    · have hall : got = diskWindow im fallback call := by
        rw [hgot, Nat.le_antisymm hlen hfull, hwant]
        rfl
      exact .inr ⟨guard, hall ▸ if_pos hfull, _, hguard⟩
    -- the cursor is still inside the disk, so the read delivers
    obtain ⟨b, bs, guard', hread, hle, hwindow, hat⟩ := (h.serves him).deliver
      hguard (by omega) (show 0 < want - got.length by omega)
    refine .inl ⟨.fill want (got ++ b :: bs), guard', ?_, ⟨hwant, ?_, ?_, ?_⟩, ?_⟩
    · simp only [readAtProgram, if_neg hfull, hread]
    · rw [List.length_append]
      omega
    · conv_lhs => rw [hgot, hwindow]
      rw [Copy.window_append, List.length_append]
    · rw [List.length_append, ← Nat.add_assoc]
      exact hat
    · simp only [remaining, List.length_append, List.length_cons]
      omega

theorem work_held {call : ReadCall} {k k' : ReadPhase} {guard guard' : VmdkReader}
    (hheld : Held im fallback call k guard)
    (hstep : (readAtProgram im.virtualDiskSize).step k guard = (.inl k', guard')) :
    Held im fallback call k' guard' ∧ remaining k' < remaining k := by
  rcases step_held h him hheld with ⟨k'', guard'', hgoes, hkeeps⟩ | ⟨guard'', hreturns, -⟩
  · obtain ⟨hk, rfl⟩ := Prod.mk.inj (hgoes.symm.trans hstep)
    exact Sum.inl.inj hk ▸ hkeeps
  · cases hreturns.symm.trans hstep

/-- **Every step keeps the outline of a call.** -/
theorem outline : Mutex.Outline (readAtProgram im.virtualDiskSize)
    (fun guard => ∃ pos, VmdkReader.At im fallback pos guard) (Held im fallback)
    (fun call res => res = .ok (diskWindow im fallback call)) where
  early := by
    intro call res hearly
    by_cases hend : im.virtualDiskSize - call.offset.toNat = 0
    · rw [diskWindow_of_end hend]
      exact (Option.some.inj ((if_pos hend).symm.trans hearly)).symm
    · cases (if_neg hend).symm.trans hearly
  acquire := by
    intro call guard hearly hfree
    refine ⟨rfl, Nat.pos_of_ne_zero fun hend => ?_, hfree⟩
    cases (if_pos hend).symm.trans hearly
  work := fun hheld hstep => (work_held h him hheld hstep).1
  finish := by
    intro call k guard res guard' hheld hstep
    rcases step_held h him hheld with ⟨k', guard'', hgoes, -⟩ | ⟨guard'', hreturns, hfree⟩
    · cases hgoes.symm.trans hstep
    · obtain ⟨hres, rfl⟩ := Prod.mk.inj (hreturns.symm.trans hstep)
      exact ⟨(Sum.inr.inj hres).symm, hfree⟩
  cut := by
    intro call k guard guard' hheld hcut
    obtain ⟨pos, hguard⟩ := hheld.at
    exact VmdkReader.Interrupted.at hcut hguard

/-- A call that is alone returns the bytes of the disk. -/
theorem readAt_window {reader : VmdkReader} (hreader : VmdkReader.At im fallback pos reader)
    (call : ReadCall) : ((new reader).readAt call).1 = .ok (diskWindow im fallback call) := by
  have hlen : (new reader).len = im.virtualDiskSize :=
    congrArg Image.virtualDiskSize hreader.image
  have hsteps := @readAt_alone _ Unit VfsError _ () (new reader) (fun _ => call)
    (Mutex.start reader) rfl (fun _ _ h => by cases h) rfl
  rw [hlen] at hsteps
  have hinv := (outline h him).reachable ⟨pos, hreader⟩ (Mutex.Reachable.start.trans hsteps)
  have hok := hinv.ok ()
  rwa [Mutex.Config.set_self] at hok

end

/-- **Calls do not see each other**: in any interleaving, after calls cut short by an error or by a
panic too, a call returns what it returns alone on the image opened afresh, the bytes of the disk
from its offset on. A call that holds the lock, or finds it free, gets there. -/
theorem reads_independent {reader : VmdkReader} (hreader : reader.InUse)
    (hread : reader.ReadableIn reader.rgdFallback) {ι : Type} [DecidableEq ι]
    (calls : ι → ReadCall) {c : Mutex.Config ι VmdkReader ReadPhase (VfsResult (List UInt8)) VfsError}
    (hc : Mutex.Reachable (readAtProgram (new reader).len) calls (new reader).inner c) (i : ι) :
    let alone := ((new reader.reopened).readAt (calls i)).1
    alone = .ok (diskWindow reader.toImage reader.rgdFallback (calls i)) ∧
      (∀ res, c.phase i = .returned res → res = alone) ∧
      ((∃ k, c.phase i = .running k) ∨ c.phase i = .waiting ∧ c.Unlocked →
        ∃ c', Relation.ReflTransGen (Mutex.Step (readAtProgram (new reader).len) calls i) c c' ∧
          c'.phase i = .returned alone) := by
  obtain ⟨him, hcoherent⟩ := hreader.inv
  intro alone
  have halone : alone = .ok (diskWindow reader.toImage reader.rgdFallback (calls i)) :=
    readAt_window hread him reader.at_reopened (calls i)
  have houtline := outline hread him
  have hinv := houtline.reachable ⟨reader.pos, rfl, rfl, hcoherent, rfl⟩ hc
  refine ⟨halone, fun res hres => ?_, fun hgoes => ?_⟩
  · have hok := hinv.ok i
    rw [hres] at hok
    exact hok.trans halone.symm
  · obtain ⟨c', res, hsteps, hres, hpost⟩ := houtline.returns (fun k _ => remaining k)
      (fun hheld hstep => (work_held hread him hheld hstep).2) hinv hgoes
    exact ⟨c', hsteps, hres.trans (congrArg _ (hpost.trans halone.symm))⟩

end VmdkSource

/-- A call over the two grains returns their bytes after another one sought and panicked. -/
theorem VmdkSource.reads_independent_narrowGrains :
    letI := Stored.decoder
    let calls : Bool → ReadCall := fun b => cond b ⟨0, 8192⟩ ⟨4000, 200⟩
    ∃ reader, VmdkReader.open Cli.narrowGrains = .ok reader ∧
      ∃ c : Mutex.Config Bool VmdkReader ReadPhase (VfsResult (List UInt8)) VfsError,
        Mutex.Reachable (readAtProgram (new reader).len) calls (new reader).inner c ∧
        c.poisoned = true ∧ c.resource.pos = 0 ∧
        ∃ c', Relation.ReflTransGen (Mutex.Step (readAtProgram (new reader).len) calls false) c c' ∧
          c'.phase false = .returned (.ok (diskWindow reader.toImage false ⟨4000, 200⟩)) := by
  let _ := Stored.decoder
  intro calls
  have hsize : (VmdkReader.open Cli.narrowGrains).map (·.virtualDiskSize) = .ok 8192 := by
    decide +kernel
  obtain ⟨reader, hopen, hsize⟩ := exists_of_map_eq hsize
  have hlen : (new reader).len = 8192 := hsize
  have hmode : reader.rgdFallback = false := by
    obtain ⟨im, rfl, -⟩ := open_shaped hopen
    rfl
  have hread : reader.ReadableIn reader.rgdFallback := by
    rw [hmode]
    exact Cli.narrowGrains_readable hopen
  let start : Mutex.Config Bool VmdkReader ReadPhase (VfsResult (List UInt8)) VfsError :=
    Mutex.start reader
  let locked := start.set true (.running (.seek ⟨0, 8192⟩)) reader
  let panicked := { locked.set true (.interrupted none) (reader.seek (.start 0)).2 with
    poisoned := true }
  have hlocked : Mutex.Reachable (readAtProgram (new reader).len) calls reader locked := by
    refine .step .start (.acquire rfl ?_ fun i k h => ?_)
    · rw [hlen]
      rfl
    · cases h
  have hpanicked : Mutex.Reachable (readAtProgram (new reader).len) calls reader panicked :=
    .step hlocked (.panic rfl (.sought (.start 0)))
  have hfree : panicked.Unlocked := by
    rintro (_ | _) k h <;> cases h
  obtain ⟨halone, -, hgoes⟩ := reads_independent (.opened hopen) hread calls hpanicked false
  obtain ⟨c', hsteps, hres⟩ := hgoes (.inr ⟨rfl, hfree⟩)
  rw [halone, hmode] at hres
  exact ⟨reader, hopen, panicked, hpanicked, rfl, rfl, c', hsteps, hres⟩
