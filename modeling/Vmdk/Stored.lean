import Vmdk.Encode
import Vmdk.Read

/-! # Zlib streams of stored blocks

What an encoder writes when it does not compress: a stream of stored blocks,
with their checksum. Its decoder returns what was stored (`readToEnd_storeBlocks`). -/

open Bytes

namespace Stored

/-- Adler-32: the sum of the bytes plus one, and the sum of these sums, modulo 65521. -/
def adler32 (bs : List UInt8) : Nat :=
  let sums := bs.foldl
    (fun (s : Nat × Nat) b => ((s.1 + b.toNat) % 65521, (s.2 + s.1 + b.toNat) % 65521)) (1, 0)
  sums.2 * 65536 + sums.1

/-- A stored block; the last one of a stream is final. -/
def block (final : Bool) (bs : List UInt8) : List UInt8 :=
  record [(1, final.toNat), (2, bs.length), (2, 65535 - bs.length)] ++ bs

/-- The stream of stored blocks, of which `last` is the final one. -/
def storeBlocks (blocks : List (List UInt8)) (last : List UInt8) : List UInt8 :=
  [0x78, 0x01] ++ (blocks.flatMap (block false) ++ (block true last ++
    (leBytes 4 (adler32 (blocks.flatten ++ last))).reverse))

def store (bs : List UInt8) : List UInt8 := storeBlocks [] bs

/-- The bytes of the blocks, and what stands behind the final one. -/
def unblock : (fuel : Nat) → List UInt8 → Option (List UInt8 × List UInt8)
  | 0, _ => none
  | fuel + 1, stream =>
    let len := leNat (slice stream 1 2)
    let out := slice stream 5 len
    let rest := stream.drop (5 + len)
    if leNat (slice stream 3 2) = 65535 - len ∧ out.length = len then
      if slice stream 0 1 = [1] then some (out, rest)
      else if slice stream 0 1 = [0] then (unblock fuel rest).map fun r => (out ++ r.1, r.2)
      else none
    else none

/-- What a stream stores. A block has five bytes at least, so there are fewer than bytes. -/
def unstore (stream : List UInt8) : Option (List UInt8) :=
  if slice stream 0 2 = [0x78, 0x01] then
    (unblock stream.length (stream.drop 2)).bind fun r =>
      if beNat (slice r.2 0 4) = adler32 r.1 then some r.1 else none
  else none

def readToEnd (stream : List UInt8) (limit : Nat) : Except IoError (List UInt8) :=
  match unstore stream with
  | some out => .ok (out.take limit)
  | none => .error (invalidData "corrupt deflate stream")

/-- The zlib decoder on streams of stored blocks; it refuses any other. -/
@[reducible] def decoder : ZlibDecoder where
  readToEnd := readToEnd
  length_le := by
    intro stream limit out h
    unfold readToEnd at h
    split at h
    · cases h
      rw [List.length_take]
      omega
    · cases h

theorem adler32_lt (bs : List UInt8) : adler32 bs < 2 ^ 32 := by
  have hsums : ∀ (s : Nat × Nat), s.1 < 65521 → s.2 < 65521 →
      let t := bs.foldl
        (fun (s : Nat × Nat) b => ((s.1 + b.toNat) % 65521, (s.2 + s.1 + b.toNat) % 65521)) s
      t.1 < 65521 ∧ t.2 < 65521 := by
    induction bs with
    | nil => exact fun s h1 h2 => ⟨h1, h2⟩
    | cons b bs ih =>
      exact fun s _ _ => ih _ (Nat.mod_lt _ (by decide)) (Nat.mod_lt _ (by decide))
  have h := hsums (1, 0) (by decide) (by decide)
  simp only [adler32]
  omega

section Blocks
variable {blocks : List (List UInt8)} {last bs rest : List UInt8} {fuel : Nat}

theorem length_block (final : Bool) (bs : List UInt8) : (block final bs).length = 5 + bs.length := by
  simp [block, recordWidth]

theorem unblock_block (final : Bool) (h : bs.length < 65536) :
    unblock (fuel + 1) (block final bs ++ rest) =
      if final then some (bs, rest) else (unblock fuel rest).map fun r => (bs ++ r.1, r.2) := by
  have hlen : leNat (slice (block final bs ++ rest) 1 2) = bs.length := by
    rw [block, List.append_assoc]
    exact leNat_record 1 _ rfl rfl h
  have hnot : leNat (slice (block final bs ++ rest) 3 2) = 65535 - bs.length := by
    rw [block, List.append_assoc]
    exact leNat_record 2 _ rfl rfl (by omega)
  have hout : slice (block final bs ++ rest) 5 bs.length = bs := by
    rw [block, List.append_assoc, ← Nat.add_zero 5, slice_append_right (by simp [recordWidth]),
      slice_append_left rfl]
  have hrest : (block final bs ++ rest).drop (5 + bs.length) = rest :=
    List.drop_left' (length_block final bs)
  have hflag : slice (block final bs ++ rest) 0 1 = [if final then 1 else 0] := by
    cases final <;> rfl
  conv_lhs => unfold unblock
  simp only [hlen, hnot, hout, hrest, hflag, and_self, if_true]
  cases final <;> rfl

/-- The blocks are read one after another, up to the final one. -/
theorem unblock_blocks (hblocks : ∀ bs ∈ blocks, bs.length < 65536) (hlast : last.length < 65536)
    (hfuel : blocks.length < fuel) :
    unblock fuel (blocks.flatMap (block false) ++ (block true last ++ rest)) =
      some (blocks.flatten ++ last, rest) := by
  induction blocks generalizing fuel with
  | nil =>
    obtain ⟨fuel, rfl⟩ := Nat.exists_eq_add_one.mpr hfuel
    exact unblock_block true hlast
  | cons bs blocks ih =>
    obtain ⟨fuel, rfl⟩ := Nat.exists_eq_add_one.mpr (Nat.zero_lt_of_lt hfuel)
    rw [List.length_cons] at hfuel
    rw [List.flatMap_cons, List.append_assoc, unblock_block false (hblocks bs List.mem_cons_self),
      if_neg Bool.false_ne_true, ih (fun bs hbs => hblocks bs (List.mem_cons_of_mem _ hbs)) (by omega),
      Option.map_some, List.flatten_cons, List.append_assoc]

theorem length_blocks (blocks : List (List UInt8)) :
    (blocks.flatMap (block false)).length = 5 * blocks.length + blocks.flatten.length := by
  induction blocks with
  | nil => rfl
  | cons bs blocks ih =>
    rw [List.flatMap_cons, List.length_append, length_block, ih, List.length_cons,
      List.flatten_cons, List.length_append]
    omega

theorem length_storeBlocks (blocks : List (List UInt8)) (last : List UInt8) :
    (storeBlocks blocks last).length =
      11 + 5 * blocks.length + blocks.flatten.length + last.length := by
  simp only [storeBlocks, List.length_append, length_blocks, length_block, List.length_reverse,
    length_leBytes, List.length_cons, List.length_nil]
  omega

/-- **What was stored is read back.** -/
theorem readToEnd_storeBlocks (hblocks : ∀ bs ∈ blocks, bs.length < 65536)
    (hlast : last.length < 65536) (limit : Nat) :
    readToEnd (storeBlocks blocks last) limit = .ok ((blocks.flatten ++ last).take limit) := by
  have hfuel : blocks.length < (storeBlocks blocks last).length := by
    rw [length_storeBlocks]
    omega
  have hread := @unblock_blocks _ _ (leBytes 4 (adler32 (blocks.flatten ++ last))).reverse _
    hblocks hlast hfuel
  have hsum : beNat (slice (leBytes 4 (adler32 (blocks.flatten ++ last))).reverse 0 4) =
      adler32 (blocks.flatten ++ last) := by
    rw [slice, List.drop_zero, List.take_of_length_le (by simp), beNat, List.reverse_reverse,
      leNat_leBytes (adler32_lt _)]
  have hunstore : unstore (storeBlocks blocks last) = some (blocks.flatten ++ last) := by
    unfold unstore
    have hhead : slice (storeBlocks blocks last) 0 2 = [0x78, 0x01] := rfl
    rw [if_pos hhead]
    show (unblock (storeBlocks blocks last).length (blocks.flatMap (block false) ++
      (block true last ++ _))).bind _ = _
    rw [hread, Option.bind_some, if_pos hsum]
  unfold readToEnd
  rw [hunstore]

theorem readToEnd_store (h : bs.length < 65536) (limit : Nat) :
    readToEnd (store bs) limit = .ok (bs.take limit) :=
  readToEnd_storeBlocks (fun _ hbs => absurd hbs List.not_mem_nil) h limit

theorem length_store (bs : List UInt8) : (store bs).length = 11 + bs.length :=
  length_storeBlocks [] bs

end Blocks

end Stored

/-- A compressed grain as it is stored: its marker, and its payload. -/
def storedGrain (lba : Nat) (payload : List UInt8) : List UInt8 :=
  record [(8, lba), (4, payload.length)] ++ payload
