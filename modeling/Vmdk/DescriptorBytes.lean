import Vmdk.Companions
import Vmdk.DescriptorText

/-! # Descriptors as bytes

A descriptor is stored in UTF-8, or in windows-1252 where it says so, and the
room behind it is filled with zeros. Decoding gives the text back in the first
case (`decodeDescriptor_encode`) and loses no byte in the second
(`decodeWindows1252_injective`). -/

open Bytes Text Word

/-- The text does not say that it is in windows-1252. -/
def SaysUtf8 (t : Text) : Prop :=
  ¬ (declaredEncoding t).any (eqIgnoreAsciiCase "windows-1252".toList) = true

instance (t : Text) : Decidable (SaysUtf8 t) := inferInstanceAs (Decidable (¬ _ = true))

/-- Zeros behind a text are cut off with what the first zero in it hides. -/
theorem takeWhile_append_zeros (bs : List UInt8) (n : Nat) :
    (bs ++ List.replicate n 0).takeWhile (· != 0) = bs.takeWhile (· != 0) := by
  have hzeros : (List.replicate n (0 : UInt8)).takeWhile (· != 0) = [] := by
    cases n with
    | zero => rfl
    | succ n => rfl
  induction bs with
  | nil => rw [List.nil_append, hzeros, List.takeWhile_nil]
  | cons b bs ih =>
    rw [List.cons_append, List.takeWhile_cons, List.takeWhile_cons, ih]

/-- **A descriptor in UTF-8 is decoded to its text**, up to the first character that is a zero. -/
theorem decodeDescriptor_encode {t : Text} (h : SaysUtf8 (cleanText t)) (n : Nat) :
    decodeDescriptor (utf8Encode t ++ List.replicate n 0) = cleanText t := by
  have hcut : fromUtf8Lossy ((utf8Encode t).takeWhile (· != 0)) = cleanText t := by
    have hlossy : fromUtf8Lossy ((utf8Encode t).takeWhile (· != 0)) =
        cleanText (fromUtf8Lossy (utf8Encode t)) := fromUtf8Lossy_cut _
    rw [hlossy, fromUtf8Lossy_encode]
  unfold decodeDescriptor decodeBytes
  simp only [takeWhile_append_zeros, hcut]
  exact if_neg h

/-! ## windows-1252 -/

/-- The number of the character that stands for a byte. -/
def windows1252Value (n : Nat) : Nat :=
  if 0x80 ≤ n ∧ n ≤ 0x9F then windows1252C1.getD (n - 0x80) 0 else n

theorem windows1252Value_valid : ∀ n < 256, (windows1252Value n).isValidChar := by decide +kernel

/-- The byte for which a character stands. -/
def windows1252Byte (v : Nat) : Nat :=
  if v ∈ windows1252C1 then 0x80 + windows1252C1.idxOf v else v

theorem windows1252Byte_value : ∀ n < 256, windows1252Byte (windows1252Value n) = n := by
  decide +kernel

/-- No two bytes stand for one character. -/
theorem windows1252Value_injective {m n : Nat} (hm : m < 256) (hn : n < 256)
    (h : windows1252Value m = windows1252Value n) : m = n := by
  rw [← windows1252Byte_value m hm, h, windows1252Byte_value n hn]

theorem decodeWindows1252_cons (b : UInt8) (bs : List UInt8) :
    decodeWindows1252 (b :: bs) = Char.ofNat (windows1252Value b.toNat) :: decodeWindows1252 bs := rfl

/-- **Texts in windows-1252 that are decoded alike are equal.** -/
theorem decodeWindows1252_injective {as bs : List UInt8}
    (h : decodeWindows1252 as = decodeWindows1252 bs) : as = bs := by
  have hvalue (b : UInt8) : (Char.ofNat (windows1252Value b.toNat)).toNat =
      windows1252Value b.toNat := by
    rw [Char.ofNat, dif_pos (windows1252Value_valid _ b.toNat_lt)]
    rfl
  induction as generalizing bs with
  | nil =>
    cases bs with
    | nil => rfl
    | cons b bs => cases h
  | cons a as ih =>
    cases bs with
    | nil => cases h
    | cons b bs =>
      rw [decodeWindows1252_cons, decodeWindows1252_cons] at h
      obtain ⟨hchar, hrest⟩ := List.cons.inj h
      have hnum : windows1252Value a.toNat = windows1252Value b.toNat := by
        rw [← hvalue a, ← hvalue b, hchar]
      have hbyte := windows1252Value_injective a.toNat_lt b.toNat_lt hnum
      rw [ih hrest, UInt8.toNat_inj.mp hbyte]

/-- What the decoder keeps of a descriptor's bytes. -/
structure DecodesWhole (bytes : List UInt8) : Prop where
  utf8 : ∀ t n, bytes = utf8Encode t ++ List.replicate n 0 → SaysUtf8 (cleanText t) →
    decodeDescriptor bytes = cleanText t
  windows1252 : ∀ bytes', ¬ SaysUtf8 (fromUtf8Lossy (bytes.takeWhile (· != 0))) →
    ¬ SaysUtf8 (fromUtf8Lossy (bytes'.takeWhile (· != 0))) →
      decodeDescriptor bytes = decodeDescriptor bytes' →
        bytes.takeWhile (· != 0) = bytes'.takeWhile (· != 0)

/-- **Decoding a descriptor loses nothing before its first zero**, in either encoding. -/
theorem decodesWhole (bytes : List UInt8) : DecodesWhole bytes where
  utf8 := by
    rintro t n rfl h
    exact decodeDescriptor_encode h n
  windows1252 := by
    intro bytes' hb hb' heq
    have hdecode {bs : List UInt8} (hbs : ¬ SaysUtf8 (fromUtf8Lossy (bs.takeWhile (· != 0)))) :
        decodeDescriptor bs = decodeWindows1252 (bs.takeWhile (· != 0)) :=
      if_pos (not_not.mp hbs)
    rw [hdecode hb, hdecode hb'] at heq
    exact decodeWindows1252_injective heq

namespace DescriptorDoc
variable {d : DescriptorDoc}

/-- A stored descriptor is decoded to its text. -/
theorem decode_text (h : d.WellFormed) {eol : LineEnd} (hutf8 : SaysUtf8 (d.text eol)) (n : Nat) :
    decodeDescriptor (utf8Encode (d.text eol) ++ List.replicate n 0) = d.text eol := by
  have hclean : cleanText (d.text eol) = d.text eol := DescriptorEntry.cleanText_write h.entries eol
  have hdecode := decodeDescriptor_encode (t := d.text eol) (by rwa [hclean]) n
  rwa [hclean] at hdecode

end DescriptorDoc
