import Vmdk.Conversion
import Vmdk.Lib.Lines
import Vmdk.Lib.Number

/-! # Printed numbers and hex dumps

`fmt_commas` prints a number in groups of three, and loses nothing of it
(`Cli.fmtCommas_reads_back`). The lines of `dump --hex` are read back, each as a
place and its bytes; what they say of a readable disk is what the disk has, for
every place that was asked for and no other (`Cli.hex_dump_says`). -/

open Bytes Text Word

namespace Cli

/-- The loop runs from the last digit to the first. -/
def fmtCommas (n : Nat) : Text := (separate ',' 3 0 (Nat.toDigits 10 n).reverse).reverse

/-- A number whose digits stand in groups of three, and which is read back without its commas. -/
structure Grouped (n : Nat) : Prop where
  parse : parseU64 ((fmtCommas n).filter (· ≠ ',')) = some n
  groups : ∃ (first : Text) (rest : List Text),
    first ++ rest.flatten = Nat.toDigits 10 n ∧
      fmtCommas n = first ++ rest.flatMap (fun g => ',' :: g) ∧ 0 < first.length ∧
        first.length ≤ 3 ∧ ∀ g ∈ rest, g.length = 3

theorem comma_not_mem_digits (n : Nat) : ',' ∉ Nat.toDigits 10 n := by
  rw [← padded_zero]
  exact fun hmem => (mem_padded (by decide) (by decide) hmem).2 (by decide)

/-- **A number printed with commas loses nothing.** -/
theorem fmtCommas_reads_back (n : UInt64) : Grouped n.toNat := by
  have hdigits : ',' ∉ (Nat.toDigits 10 n.toNat).reverse := fun hmem =>
    comma_not_mem_digits n.toNat (List.mem_reverse.mp hmem)
  constructor
  · have hfilter : (fmtCommas n.toNat).filter (· ≠ ',') = Nat.toDigits 10 n.toNat := by
      unfold fmtCommas
      rw [List.filter_reverse, filter_separate hdigits, List.reverse_reverse]
    rw [hfilter]
    exact parseUnsigned_toDigits (by decide) (by decide) n.toNat_lt
  · have hne : (Nat.toDigits 10 n.toNat).reverse ≠ [] := fun h =>
      Nat.toDigits_ne_nil (List.reverse_eq_nil_iff.mp h)
    obtain ⟨full, last, hsep, hall, hfull, hpos, hle⟩ :=
      @separate_groups ',' 3 (by decide) _ hne
    refine ⟨last.reverse, full.reverse.map List.reverse, ?_, ?_, ?_, ?_, ?_⟩
    · rw [List.map_reverse, ← List.reverse_flatten, ← List.reverse_append, ← hall,
        List.reverse_reverse]
    · unfold fmtCommas
      rw [hsep, List.reverse_append, List.reverse_flatMap, List.flatMap_map]
      congr 2
      funext g
      show (g ++ [',']).reverse = _
      rw [List.reverse_append]
      rfl
    · rwa [List.length_reverse]
    · rwa [List.length_reverse]
    · intro g hg
      obtain ⟨g', hg', rfl⟩ := List.mem_map.mp hg
      rw [List.length_reverse]
      exact hfull g' (List.mem_reverse.mp hg')

/-! ## Lines of a hex dump -/

/-- Graphic ASCII and the space stand for themselves. -/
def asciiChar (c : UInt8) : Char :=
  if (0x21 ≤ c.toNat ∧ c.toNat ≤ 0x7e) ∨ c.toNat = 0x20 then Char.ofNat c.toNat else '.'

/-- The cell of byte `i`, blank behind the last, and the gap in the middle of a line. -/
def hexCell (row : List UInt8) (i : Nat) : Text :=
  (row[i]?).elim "   ".toList (fun b => padded 16 2 b.toNat ++ [' ']) ++
    if i = 7 then [' '] else []

def hexCells (row : List UInt8) : Text := (List.range 16).flatMap (hexCell row)

/-- One line without its end. -/
def hexLine (pos : Nat) (row : List UInt8) : Text :=
  padded 16 8 pos ++ ' ' :: ' ' :: (hexCells row ++ (" |".toList ++ (row.map asciiChar ++ ['|'])))

/-- What `dump_hex` prints, from `pos` on. -/
def hexText : (pos : Nat) → List (List UInt8) → Text
  | _, [] => []
  | pos, row :: rows => hexLine pos row ++ '\n' :: hexText (pos + row.length) rows

/-- The numbers of two digits between spaces. -/
def readHexCells : Text → List Nat
  | ' ' :: t => readHexCells t
  | a :: b :: t => (parseUnsigned 16 256 [a, b]).toList ++ readHexCells t
  | _ => []

/-- A line read back: the place of its first byte, and its bytes. -/
def readHexLine (line : Text) : Option (Nat × List Nat) :=
  (parseUnsigned 16 (2 ^ 64) (line.takeWhile (· != ' '))).map fun pos =>
    (pos, readHexCells (((line.dropWhile (· != ' ')).drop 2).take 49))

/-- Some line of the text says that the byte at `o` is `b`. -/
def Says (text : Text) (o : Nat) (b : UInt8) : Prop :=
  ∃ line ∈ lines text, ∃ pos bytes, readHexLine line = some (pos, bytes) ∧ pos ≤ o ∧
    bytes[o - pos]? = some b.toNat

section Line
variable {row : List UInt8} {rows : List (List UInt8)} {pos i k : Nat}

theorem readHexCells_byte (b : UInt8) (t : Text) :
    readHexCells (padded 16 2 b.toNat ++ t) = b.toNat :: readHexCells t := by
  have hlen : (padded 16 2 b.toNat).length = 2 :=
    length_padded (by decide) (by decide) b.toNat_lt
  have hparse : parseUnsigned 16 256 (padded 16 2 b.toNat) = some b.toNat :=
    parseUnsigned_padded (by decide) (by decide) b.toNat_lt
  have hword : ∀ c ∈ padded 16 2 b.toNat, isWhitespace c = false := fun c hc =>
    (mem_padded (by decide) (by decide) hc).1
  generalize padded 16 2 b.toNat = digits at hlen hparse hword
  obtain ⟨x, y, rfl⟩ := List.length_eq_two.mp hlen
  have hx : x ≠ ' ' := by
    rintro rfl
    exact absurd (hword ' ' List.mem_cons_self) (by decide)
  show readHexCells (x :: y :: t) = _
  rw [readHexCells, hparse]
  · rfl
  · exact hx

theorem readHexCells_gap (i : Nat) (t : Text) :
    readHexCells ((if i = 7 then [' '] else []) ++ t) = readHexCells t := by
  split <;> rfl

theorem readHexCells_cell (hi : i < row.length) (t : Text) :
    readHexCells (hexCell row i ++ t) = row[i].toNat :: readHexCells t := by
  unfold hexCell
  rw [List.getElem?_eq_getElem hi, Option.elim_some, List.append_assoc, List.append_assoc,
    readHexCells_byte, List.singleton_append, readHexCells, readHexCells_gap]

theorem readHexCells_blank (hi : row.length ≤ i) (t : Text) :
    readHexCells (hexCell row i ++ t) = readHexCells t := by
  unfold hexCell
  rw [List.getElem?_eq_none hi, Option.elim_none, List.append_assoc]
  exact readHexCells_gap i t

/-- The cells from byte `i` on say the bytes from there on. -/
theorem readHexCells_from (h : row.length ≤ i + k) :
    readHexCells ((List.range' i k).flatMap (hexCell row)) = (row.drop i).map UInt8.toNat := by
  induction k generalizing i with
  | zero =>
    rw [List.drop_of_length_le (by omega)]
    rfl
  | succ k ih =>
    rw [List.range'_succ, List.flatMap_cons]
    rcases Nat.lt_or_ge i row.length with hi | hi
    · rw [readHexCells_cell hi, ih (by omega), List.drop_eq_getElem_cons hi, List.map_cons]
    · rw [readHexCells_blank hi, ih (by omega), List.drop_of_length_le hi,
        List.drop_of_length_le (by omega)]

theorem readHexCells_hexCells (h : row.length ≤ 16) :
    readHexCells (hexCells row) = row.map UInt8.toNat := by
  unfold hexCells
  rw [List.range_eq_range', readHexCells_from (by omega), List.drop_zero]

theorem length_hexCell (row : List UInt8) (i : Nat) :
    (hexCell row i).length = 3 + if i = 7 then 1 else 0 := by
  have hbyte (b : UInt8) : (padded 16 2 b.toNat).length = 2 :=
    length_padded (by decide) (by decide) b.toNat_lt
  unfold hexCell
  rw [List.length_append]
  congr 1
  · cases row[i]? with
    | none => rfl
    | some b => rw [Option.elim_some, List.length_append, hbyte, List.length_singleton]
  · split <;> rfl

theorem length_hexCells (row : List UInt8) : (hexCells row).length = 49 := by
  unfold hexCells
  rw [List.length_flatMap]
  simp only [length_hexCell]
  rfl

/-- **A line is read back.** -/
theorem readHexLine_hexLine (hpos : pos < 2 ^ 64) (h : row.length ≤ 16) :
    readHexLine (hexLine pos row) = some (pos, row.map UInt8.toNat) := by
  have hspace : ' ' ∉ padded 16 8 pos := fun hmem =>
    absurd (mem_padded (by decide) (by decide) hmem).1 (by decide)
  unfold readHexLine hexLine
  rw [takeWhile_ne_append hspace, dropWhile_ne_append hspace,
    parseUnsigned_padded (by decide) (by decide) hpos]
  show some (pos, readHexCells ((hexCells row ++ _).take 49)) = _
  rw [List.take_append_of_le_length (Nat.le_of_eq (length_hexCells row).symm),
    List.take_of_length_le (Nat.le_of_eq (length_hexCells row)), readHexCells_hexCells h]

/-! ## The lines of the text -/

theorem asciiChar_ne (c : UInt8) : asciiChar c ≠ '\n' := by
  unfold asciiChar
  split
  · next h =>
    intro heq
    have hnat := congrArg Char.toNat heq
    rw [Char.ofNat, dif_pos (.inl (by omega))] at hnat
    change c.toNat = 10 at hnat
    omega
  · decide

theorem newline_not_mem_padded {width n : Nat} : '\n' ∉ padded 16 width n := fun hmem =>
  absurd (mem_padded (by decide) (by decide) hmem).1 (by decide)

theorem newline_not_mem_hexCells (row : List UInt8) : '\n' ∉ hexCells row := by
  intro hmem
  obtain ⟨i, -, hcell⟩ := List.mem_flatMap.mp hmem
  rcases List.mem_append.mp hcell with hbyte | hgap
  · cases hget : row[i]? with
    | none =>
      rw [hget] at hbyte
      exact absurd hbyte (by decide)
    | some b =>
      rw [hget, Option.elim_some] at hbyte
      rcases List.mem_append.mp hbyte with hdigits | hspace
      · exact newline_not_mem_padded hdigits
      · exact absurd hspace (by decide)
  · split at hgap
    · exact absurd hgap (by decide)
    · cases hgap

theorem newline_not_mem_hexLine (pos : Nat) (row : List UInt8) : '\n' ∉ hexLine pos row := by
  unfold hexLine
  simp only [List.mem_append, List.mem_cons, not_or, List.mem_map, not_exists, not_and]
  refine ⟨newline_not_mem_padded, by decide, by decide, newline_not_mem_hexCells row, by decide,
    fun c _ => asciiChar_ne c, by decide, List.not_mem_nil⟩

theorem stripCr_hexLine (pos : Nat) (row : List UInt8) : stripCr (hexLine pos row) = hexLine pos row := by
  have hlast : (hexLine pos row).getLast? = some '|' := by
    unfold hexLine
    rw [show padded 16 8 pos ++ ' ' :: ' ' :: (hexCells row ++ (" |".toList ++
        (row.map asciiChar ++ ['|']))) = (padded 16 8 pos ++ ' ' :: ' ' :: (hexCells row ++
          (" |".toList ++ row.map asciiChar))) ++ ['|'] by
      simp only [List.append_assoc, List.cons_append]]
    exact List.getLast?_concat
  unfold stripCr
  rw [hlast, if_neg (by decide)]

/-- Where the lines begin. -/
def linesFrom : (pos : Nat) → List (List UInt8) → List Text
  | _, [] => []
  | pos, row :: rows => hexLine pos row :: linesFrom (pos + row.length) rows

theorem lines_hexText (pos : Nat) (rows : List (List UInt8)) :
    lines (hexText pos rows) = linesFrom pos rows := by
  induction rows generalizing pos with
  | nil => rfl
  | cons row rows ih =>
    unfold hexText linesFrom
    rw [lines_cons (newline_not_mem_hexLine pos row), stripCr_hexLine, ih]

/-- A line of the text is the line of a row at the place of the row. -/
theorem mem_linesFrom {line : Text} :
    line ∈ linesFrom pos rows ↔
      ∃ i row, rows[i]? = some row ∧ line = hexLine (pos + Pack.start rows i) row := by
  induction rows generalizing pos with
  | nil =>
    constructor
    · intro h
      cases h
    · rintro ⟨i, row, hrow, -⟩
      cases hrow
  | cons first rows ih =>
    have hstart (i : Nat) : Pack.start (first :: rows) (i + 1) = first.length + Pack.start rows i := by
      unfold Pack.start
      rw [List.take_succ_cons, List.flatten_cons, List.length_append]
    unfold linesFrom
    rw [List.mem_cons, ih]
    constructor
    · rintro (rfl | ⟨i, row, hrow, rfl⟩)
      · exact ⟨0, first, rfl, rfl⟩
      · exact ⟨i + 1, row, hrow, by rw [hstart, Nat.add_assoc]⟩
    · rintro ⟨i, row, hrow, rfl⟩
      cases i with
      | zero =>
        cases hrow
        exact .inl rfl
      | succ i => exact .inr ⟨i, row, hrow, by rw [hstart, Nat.add_assoc]⟩

end Line

section Says
variable {rows : List (List UInt8)} {pos o : Nat} {b : UInt8}

/-- What the text of the rows says. -/
theorem says_hexText (hrows : ∀ row ∈ rows, row.length ≤ 16)
    (hfits : pos + rows.flatten.length < 2 ^ 64) :
    Says (hexText pos rows) o b ↔ pos ≤ o ∧ rows.flatten[o - pos]? = some b := by
  have hread {i : Nat} {row : List UInt8} (hrow : rows[i]? = some row) :
      readHexLine (hexLine (pos + Pack.start rows i) row) =
        some (pos + Pack.start rows i, row.map UInt8.toNat) := by
    have hle := Pack.start_le rows i
    exact readHexLine_hexLine (by omega) (hrows row (List.mem_of_getElem? hrow))
  have hbyte {row : List UInt8} {j : Nat} :
      (row.map UInt8.toNat)[j]? = some b.toNat ↔ row[j]? = some b := by
    rw [List.getElem?_map, Option.map_eq_some_iff]
    constructor
    · rintro ⟨c, hc, heq⟩
      rw [hc, UInt8.toNat_inj.mp heq]
    · exact fun h => ⟨b, h, rfl⟩
  unfold Says
  rw [lines_hexText]
  constructor
  · rintro ⟨line, hline, p, bytes, hsays, hp, hget⟩
    obtain ⟨i, row, hrow, rfl⟩ := mem_linesFrom.mp hline
    rw [hread hrow] at hsays
    cases hsays
    rw [hbyte] at hget
    have hin := (List.getElem?_eq_some_iff.mp hget).1
    have hflat := Pack.getElem?_flatten hrow hin []
    rw [List.append_nil, hget] at hflat
    refine ⟨by omega, ?_⟩
    rw [← hflat]
    congr 1
    omega
  · rintro ⟨hpos, hget⟩
    obtain ⟨i, row, j, hrow, hj, hplace⟩ := Pack.exists_block (List.getElem?_eq_some_iff.mp hget).1
    have hflat := Pack.getElem?_flatten hrow hj []
    rw [List.append_nil, ← hplace, hget] at hflat
    refine ⟨_, mem_linesFrom.mpr ⟨i, row, hrow, rfl⟩, _, _, hread hrow, by omega, ?_⟩
    rw [hbyte, hflat]
    congr 1
    omega

variable [ZlibDecoder] {fs : FileSystem} {path : FilePath} {opened : VmdkReader} {recover : Bool}

/-- The hex dump says of every place that was asked for the byte that the disk has there, and of no
other place anything; from an offset that cannot be sought it prints nothing. -/
structure SaysDisk (fs : FileSystem) (path : FilePath) (recover : Bool) (opened : VmdkReader) :
    Prop where
  bytes : ∀ offset length, offset.toNat < 2 ^ 63 → ∃ rows,
    cmdDumpHex fs path offset length recover = .ok rows ∧ ∀ o b,
      Says (hexText offset.toNat rows) o b ↔ offset.toNat ≤ o ∧
        o < offset.toNat + requested opened.virtualDiskSize offset length ∧
          opened.toImage.diskByte recover o = b
  refused : ∀ offset length, 2 ^ 63 ≤ offset.toNat →
    cmdDumpHex fs path offset length recover = .error (.seek Cursor.beforeStart)

/-- **A hex dump of a readable disk says what is on it**, for every range. -/
theorem hex_dump_says (hopen : (VmdkReader.openPath fs .caller path).result = .ok opened)
    (hreads : opened.toImage.ReadableIn recover) : SaysDisk fs path recover opened := by
  refine ⟨fun offset length hoffset => ?_,
    fun offset length hoffset => cmdDumpHex_refused hopen hoffset length⟩
  have hsize : opened.virtualDiskSize ≤ 2 ^ 63 := by
    obtain ⟨im, rfl, hshaped⟩ := openPath_shaped hopen
    exact hreads.size_le hshaped
  obtain ⟨rows, hrows, hflat, hwidth⟩ := cmdDumpHex_window hopen hreads hoffset length
  have hwithin := requested_within opened.virtualDiskSize offset length
  have hlength : rows.flatten.length = requested opened.virtualDiskSize offset length := by
    rw [hflat, Copy.length_window]
  refine ⟨rows, hrows, fun o b => ?_⟩
  rw [says_hexText (fun row hrow => (hwidth row hrow).2) (by omega), hflat]
  refine and_congr_right fun hle => ?_
  by_cases ho : o < offset.toNat + requested opened.virtualDiskSize offset length
  · rw [Copy.getElem?_window _ (by omega), Nat.add_sub_cancel' hle]
    exact ⟨fun h => ⟨ho, Option.some.inj h⟩, fun h => congrArg some h.2⟩
  · rw [List.getElem?_eq_none (by rw [Copy.length_window]; omega)]
    exact iff_of_false (fun h => by cases h) fun h => ho h.1

end Says

theorem hex_dump_says_cutTable :
    letI := Stored.decoder
    ∃ r, VmdkReader.open cutTable = .ok r ∧ SaysDisk (fun _ => .ok cutTable) [] false r := by
  let _ := Stored.decoder
  obtain ⟨r, hr⟩ := exists_of_isOk (x := VmdkReader.open cutTable) (by decide +kernel)
  exact ⟨r, hr, hex_dump_says (VmdkReader.openPath_binary rfl hr) (cutTable_readable hr false)⟩

end Cli
