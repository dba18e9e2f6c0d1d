import Mathlib.Algebra.Order.Ring.Int
import Mathlib.Tactic.Common

/-! # Text as the standard library reads it

`str` as a list of characters, and the methods a line-oriented parser calls:
`lines`, `trim`, `trim_matches`, `strip_prefix`, `split_once`, number parsing,
and decoding bytes as UTF-8 with replacement characters. -/

abbrev Text := List Char

namespace Text

instance : LawfulBEq Text := inferInstance

/-- The `White_Space` characters of Unicode, as `char::is_whitespace`. -/
def isWhitespace (c : Char) : Bool :=
  let n := c.toNat
  (9 ≤ n && n ≤ 13) || n == 32 || n == 0x85 || n == 0xA0 || n == 0x1680 ||
    (0x2000 ≤ n && n ≤ 0x200A) || n == 0x2028 || n == 0x2029 || n == 0x202F ||
    n == 0x205F || n == 0x3000

def trimStart (t : Text) : Text := t.dropWhile isWhitespace

def trimEnd (t : Text) : Text := (t.reverse.dropWhile isWhitespace).reverse

def trim (t : Text) : Text := trimEnd (trimStart t)

/-- `trim_matches(q)` for one character. -/
def trimMatches (q : Char) (t : Text) : Text :=
  ((t.dropWhile (· == q)).reverse.dropWhile (· == q)).reverse

def stripPrefix (p t : Text) : Option Text :=
  if p.isPrefixOf t then some (t.drop p.length) else none

/-- The text before and after the first `q`. -/
def splitOnce (q : Char) (t : Text) : Option (Text × Text) :=
  match t.dropWhile (· != q) with
  | [] => none
  | _ :: rest => some (t.takeWhile (· != q), rest)

/-- A line without the carriage return that came before its line feed. -/
def stripCr (line : Text) : Text :=
  if line.getLast? = some '\r' then line.dropLast else line

/-- `lines()`: a line ends at a line feed, alone or after a carriage return; the last line feed
of the text starts no line. -/
def lines (t : Text) : List Text :=
  let parts := t.splitOn '\n'
  parts.dropLast.map stripCr ++
    (match parts.getLast? with
    | some last => if last.isEmpty then [] else [last]
    | none => [])

def digitVal (radix : Nat) (c : Char) : Option Nat :=
  let n := c.toNat
  let v := if 48 ≤ n ∧ n ≤ 57 then some (n - 48)
    else if 97 ≤ n ∧ n ≤ 122 then some (n - 97 + 10)
    else if 65 ≤ n ∧ n ≤ 90 then some (n - 65 + 10)
    else none
  v.bind fun d => if d < radix then some d else none

/-- One digit of a number below `bound`. -/
def pushDigit (radix bound : Nat) (acc : Option Nat) (c : Char) : Option Nat := do
  let a ← acc
  let d ← digitVal radix c
  let v := a * radix + d
  if v < bound then some v else none

/-- `from_str_radix` of an unsigned type: an optional `+`, then one digit or more. -/
def parseUnsigned (radix bound : Nat) (t : Text) : Option Nat :=
  let digits := match t with
    | '+' :: rest => rest
    | _ => t
  if digits.isEmpty then none else digits.foldl (pushDigit radix bound) (some 0)

def parseU64 (t : Text) : Option Nat := parseUnsigned 10 (2 ^ 64) t

def parseU32 (t : Text) : Option Nat := parseUnsigned 10 (2 ^ 32) t

def toAsciiLower (c : Char) : Char :=
  if 65 ≤ c.toNat ∧ c.toNat ≤ 90 then Char.ofNat (c.toNat + 32) else c

def eqIgnoreAsciiCase (a b : Text) : Bool := a.map toAsciiLower == b.map toAsciiLower

/-- Whether `p` occurs in `t`. -/
def contains (p : Text) : Text → Bool
  | [] => p.isEmpty
  | c :: cs => p.isPrefixOf (c :: cs) || contains p cs

/-! ## UTF-8 -/

def isCont (b : UInt8) : Bool := 128 ≤ b.toNat && b.toNat < 192

/-- The range of the second byte after the lead byte `n` of a character of three or four bytes. -/
def secondRange (n : Nat) : Nat × Nat :=
  if n = 0xE0 then (0xA0, 0xBF) else if n = 0xED then (0x80, 0x9F)
  else if n = 0xF0 then (0x90, 0xBF) else if n = 0xF4 then (0x80, 0x8F) else (0x80, 0xBF)

/-- The first character of `b :: bs` and the bytes after it. An invalid sequence ends before the
byte that makes it so, and stands for one replacement character. -/
def utf8Next (b : UInt8) (bs : List UInt8) : Char × List UInt8 :=
  let bad := Char.ofNat 0xFFFD
  let n := b.toNat
  let (lo, hi) := secondRange n
  if n < 128 then (Char.ofNat n, bs)
  else if 0xC2 ≤ n ∧ n ≤ 0xDF then
    match bs with
    | b₁ :: rest => if isCont b₁ then (Char.ofNat ((n - 0xC0) * 64 + (b₁.toNat - 128)), rest) else (bad, bs)
    | [] => (bad, bs)
  else if 0xE0 ≤ n ∧ n ≤ 0xF4 then
    match bs with
    | b₁ :: rest₁ =>
      if lo ≤ b₁.toNat ∧ b₁.toNat ≤ hi then
        match rest₁ with
        | b₂ :: rest₂ =>
          if isCont b₂ then
            let v := (b₁.toNat - 128) * 64 + (b₂.toNat - 128)
            if n < 0xF0 then (Char.ofNat ((n - 0xE0) * 4096 + v), rest₂)
            else
              match rest₂ with
              | b₃ :: rest₃ =>
                if isCont b₃ then
                  (Char.ofNat ((n - 0xF0) * 262144 + v * 64 + (b₃.toNat - 128)), rest₃)
                else (bad, rest₂)
              | [] => (bad, rest₂)
          else (bad, rest₁)
        | [] => (bad, rest₁)
      else (bad, bs)
    | [] => (bad, bs)
  else (bad, bs)

/-- Decode with at most `fuel` characters; every character takes a byte. -/
def utf8Decode : (fuel : Nat) → List UInt8 → Text
  | 0, _ => []
  | _, [] => []
  | fuel + 1, b :: bs => (utf8Next b bs).1 :: utf8Decode fuel (utf8Next b bs).2

/-- `String::from_utf8_lossy`; on valid UTF-8 it is `str::from_utf8`. -/
def fromUtf8Lossy (bs : List UInt8) : Text := utf8Decode bs.length bs

theorem utf8Next_rest_length (b : UInt8) (bs : List UInt8) :
    (utf8Next b bs).2.length ≤ bs.length := by
  unfold utf8Next
  simp only
  repeat' split
  all_goals simp only [List.length_cons]; omega

end Text
