import Vmdk.Lib.Text

/-! # Strict UTF-8

`fromUtf8` accepts what lossy decoding keeps as it is. Decoding commutes with
cutting at the first NUL (`fromUtf8Lossy_cut`): no character of two bytes or
more contains one, and none of them is one. ASCII decodes to itself, and every
text is what its encoding decodes to (`fromUtf8Lossy_encode`). -/
namespace Text

/-- `str::from_utf8`: the bytes are valid when they are the encoding of what they decode to. -/
def fromUtf8 (bs : List UInt8) : Option Text :=
  if (fromUtf8Lossy bs).flatMap String.utf8EncodeChar = bs then some (fromUtf8Lossy bs) else none

theorem fromUtf8_eq_some {bs : List UInt8} {t : Text} (h : fromUtf8 bs = some t) :
    t = fromUtf8Lossy bs := by
  unfold fromUtf8 at h
  split at h
  · exact (Option.some.inj h).symm
  · cases h

/-! ## Cutting at a NUL -/

/-- The bytes before the first NUL. -/
def cut (bs : List UInt8) : List UInt8 := bs.takeWhile (· != 0)

theorem cut_cons {b : UInt8} (hb : b ≠ 0) (bs : List UInt8) : cut (b :: bs) = b :: cut bs :=
  List.takeWhile_cons_of_pos (by simpa using hb)

theorem cut_zero (bs : List UInt8) : cut (0 :: bs) = [] := rfl

theorem secondRange_ge (n : Nat) : 0x80 ≤ (secondRange n).1 := by
  unfold secondRange
  repeat' split
  all_goals decide

theorem isCont_zero : isCont 0 = false := rfl

/-- The next character of bytes that are cut. -/
theorem utf8Next_cut (b : UInt8) (bs : List UInt8) :
    utf8Next b (cut bs) = ((utf8Next b bs).1, cut (utf8Next b bs).2) := by
  have hlo := secondRange_ge b.toNat
  unfold utf8Next
  simp only
  generalize secondRange b.toNat = range at hlo ⊢
  generalize Char.ofNat 0xFFFD = bad
  obtain ⟨lo, hi⟩ := range
  simp only at hlo ⊢
  by_cases hn₁ : b.toNat < 128
  · simp only [if_pos hn₁]
  by_cases hn₂ : 0xC2 ≤ b.toNat ∧ b.toNat ≤ 0xDF
  · simp only [if_neg hn₁, if_pos hn₂]
    rcases bs with _ | ⟨b₁, bs⟩
    · rfl
    by_cases h₁ : b₁ = 0
    · subst h₁
      simp only [cut_zero, isCont_zero, Bool.false_eq_true, if_false]
    · simp only [cut_cons h₁]
      by_cases hc : isCont b₁ = true
      · simp only [if_pos hc]
      · simp only [if_neg hc, cut_cons h₁]
  by_cases hn₃ : 0xE0 ≤ b.toNat ∧ b.toNat ≤ 0xF4
  · simp only [if_neg hn₁, if_neg hn₂, if_pos hn₃]
    rcases bs with _ | ⟨b₁, bs⟩
    · rfl
    by_cases h₁ : b₁ = 0
    · subst h₁
      have hout : ¬ (lo ≤ (0 : UInt8).toNat ∧ (0 : UInt8).toNat ≤ hi) := fun h =>
        absurd (Nat.le_trans hlo h.1) (by decide)
      simp only [cut_zero, if_neg hout]
    simp only [cut_cons h₁]
    by_cases hin : lo ≤ b₁.toNat ∧ b₁.toNat ≤ hi
    · simp only [if_pos hin]
      rcases bs with _ | ⟨b₂, bs⟩
      · rfl
      by_cases h₂ : b₂ = 0
      · subst h₂
        simp only [cut_zero, isCont_zero, Bool.false_eq_true, if_false]
      simp only [cut_cons h₂]
      by_cases hc₂ : isCont b₂ = true
      · simp only [if_pos hc₂]
        by_cases hn₄ : b.toNat < 0xF0
        · simp only [if_pos hn₄]
        simp only [if_neg hn₄]
        rcases bs with _ | ⟨b₃, bs⟩
        · rfl
        by_cases h₃ : b₃ = 0
        · subst h₃
          simp only [cut_zero, isCont_zero, Bool.false_eq_true, if_false]
        · simp only [cut_cons h₃]
          by_cases hc₃ : isCont b₃ = true
          · simp only [if_pos hc₃]
          · simp only [if_neg hc₃, cut_cons h₃]
      · simp only [if_neg hc₂, cut_cons h₂]
    · simp only [if_neg hin, cut_cons h₁]
  · simp only [if_neg hn₁, if_neg hn₂, if_neg hn₃]

theorem isCont_iff {b : UInt8} : isCont b = true ↔ 128 ≤ b.toNat ∧ b.toNat < 192 := by
  unfold isCont
  rw [Bool.and_eq_true, decide_eq_true_eq, decide_eq_true_eq]

/-- A character of three or four bytes is none of those that need less, nor a surrogate. -/
theorem secondRange_spec {n m : Nat} (hm : (secondRange n).1 ≤ m ∧ m ≤ (secondRange n).2) :
    128 ≤ m ∧ m < 192 ∧ (n = 0xE0 → 0xA0 ≤ m) ∧ (n = 0xED → m ≤ 0x9F) ∧ (n = 0xF0 → 0x90 ≤ m) ∧
      (n = 0xF4 → m ≤ 0x8F) := by
  unfold secondRange at hm
  split_ifs at hm <;> simp only at hm <;> omega

/-- Only a NUL decodes to one. -/
theorem utf8Next_ne_zero {b : UInt8} (hb : b ≠ 0) (bs : List UInt8) :
    (utf8Next b bs).1.toNat ≠ 0 := by
  have hn : b.toNat ≠ 0 := fun h => hb (UInt8.toNat_inj.mp h)
  have hofNat {n : Nat} (h0 : n ≠ 0) (hv : n.isValidChar) : (Char.ofNat n).toNat ≠ 0 := by
    rw [Char.ofNat, dif_pos hv]
    exact h0
  have hbad : (Char.ofNat 0xFFFD).toNat ≠ 0 := by decide
  unfold utf8Next
  generalize Char.ofNat 0xFFFD = bad at hbad ⊢
  simp only
  split
  · exact hofNat hn (.inl (by omega))
  split
  · rcases bs with _ | ⟨b₁, bs⟩
    · exact hbad
    simp only
    by_cases hc : isCont b₁ = true
    · simp only [if_pos hc]
      have := b₁.toNat_lt
      exact hofNat (by omega) (.inl (by omega))
    · simp only [if_neg hc]
      exact hbad
  split
  · rcases bs with _ | ⟨b₁, bs⟩
    · exact hbad
    simp only
    by_cases hin : (secondRange b.toNat).1 ≤ b₁.toNat ∧ b₁.toNat ≤ (secondRange b.toNat).2
    · obtain ⟨hge, hlt, hE0, hED, hF0, hF4⟩ := secondRange_spec hin
      simp only [if_pos hin]
      rcases bs with _ | ⟨b₂, bs⟩
      · exact hbad
      simp only
      by_cases hc₂ : isCont b₂ = true
      · obtain ⟨hge₂, hlt₂⟩ := isCont_iff.mp hc₂
        simp only [if_pos hc₂]
        by_cases hn₄ : b.toNat < 0xF0
        · simp only [if_pos hn₄]
          exact hofNat (by omega) (by unfold Nat.isValidChar; omega)
        simp only [if_neg hn₄]
        rcases bs with _ | ⟨b₃, bs⟩
        · exact hbad
        simp only
        by_cases hc₃ : isCont b₃ = true
        · obtain ⟨hge₃, hlt₃⟩ := isCont_iff.mp hc₃
          simp only [if_pos hc₃]
          exact hofNat (by omega) (by unfold Nat.isValidChar; omega)
        · simp only [if_neg hc₃]
          exact hbad
      · simp only [if_neg hc₂]
        exact hbad
    · simp only [if_neg hin]
      exact hbad
  · exact hbad

/-- Fuel beyond the length of the text does not matter, and a NUL ends the text before it. -/
theorem utf8Decode_cut {fuel fuel' : Nat} {bs : List UInt8} (h : bs.length ≤ fuel)
    (h' : (cut bs).length ≤ fuel') :
    utf8Decode fuel' (cut bs) = (utf8Decode fuel bs).takeWhile (·.toNat != 0) := by
  induction fuel generalizing fuel' bs with
  | zero =>
    rw [List.eq_nil_of_length_eq_zero (Nat.le_zero.mp h)]
    cases fuel' <;> rfl
  | succ fuel ih =>
    cases bs with
    | nil => cases fuel' <;> rfl
    | cons b bs =>
      by_cases hb : b = 0
      · subst hb
        rw [cut_zero]
        cases fuel' <;> rfl
      · rw [cut_cons hb] at h' ⊢
        cases fuel' with
        | zero => cases h'
        | succ fuel' =>
          have hrest := utf8Next_rest_length b bs
          have hcut := utf8Next_rest_length b (cut bs)
          rw [utf8Next_cut] at hcut
          rw [List.length_cons] at h h'
          rw [utf8Decode, utf8Decode, utf8Next_cut,
            List.takeWhile_cons_of_pos (by simpa using utf8Next_ne_zero hb bs),
            ih (by omega) (by simp only at hcut; omega)]

/-- **Cutting at the first NUL and decoding commute.** -/
theorem fromUtf8Lossy_cut (bs : List UInt8) :
    fromUtf8Lossy (cut bs) = (fromUtf8Lossy bs).takeWhile (·.toNat != 0) :=
  utf8Decode_cut (Nat.le_refl _) (Nat.le_refl _)

/-! ## ASCII -/

theorem utf8Next_ascii {b : UInt8} (hb : b.toNat < 128) (bs : List UInt8) :
    utf8Next b bs = (Char.ofNat b.toNat, bs) := by
  unfold utf8Next
  simp only [if_pos hb]

theorem fromUtf8Lossy_ascii {bs : List UInt8} (h : ∀ b ∈ bs, b.toNat < 128) :
    fromUtf8Lossy bs = bs.map fun b => Char.ofNat b.toNat := by
  unfold fromUtf8Lossy
  induction bs with
  | nil => rfl
  | cons b bs ih =>
    rw [List.length_cons, utf8Decode, utf8Next_ascii (h b List.mem_cons_self), List.map_cons,
      ih fun b' hb' => h b' (List.mem_cons_of_mem _ hb')]

theorem utf8EncodeChar_ascii {b : UInt8} (hb : b.toNat < 128) :
    String.utf8EncodeChar (Char.ofNat b.toNat) = [b] := by
  have hval : (Char.ofNat b.toNat).toNat = b.toNat := by
    rw [Char.ofNat, dif_pos (.inl (by omega))]
    rfl
  have hsize : (Char.ofNat b.toNat).utf8Size = 1 := by
    unfold Char.utf8Size
    rw [if_pos]
    rw [UInt32.le_iff_toNat_le]
    change (Char.ofNat b.toNat).toNat ≤ 127
    omega
  rw [String.utf8EncodeChar_eq_singleton hsize]
  refine congrArg (fun x => [x]) ?_
  rw [← UInt8.toNat_inj]
  change (Char.ofNat b.toNat).toNat % 256 = _
  rw [hval]
  omega

theorem fromUtf8_ascii {bs : List UInt8} (h : ∀ b ∈ bs, b.toNat < 128) :
    fromUtf8 bs = some (bs.map fun b => Char.ofNat b.toNat) := by
  have hencode : (bs.map fun b => Char.ofNat b.toNat).flatMap String.utf8EncodeChar = bs := by
    induction bs with
    | nil => rfl
    | cons b bs ih =>
      rw [List.map_cons, List.flatMap_cons, utf8EncodeChar_ascii (h b List.mem_cons_self),
        ih fun b' hb' => h b' (List.mem_cons_of_mem _ hb')]
      rfl
  unfold fromUtf8
  rw [fromUtf8Lossy_ascii h, if_pos hencode]

/-! ## Encoding -/

theorem toNat_ofNat_lt {n : Nat} (h : n < 256) : (UInt8.ofNat n).toNat = n := by
  rw [UInt8.toNat_ofNat']
  omega

/-- The number of a character is in range and no surrogate. -/
theorem toNat_valid (c : Char) : c.toNat < 0xD800 ∨ (0xDFFF < c.toNat ∧ c.toNat < 0x110000) := c.valid

theorem isCont_ofNat {n : Nat} (h : n < 64) : isCont (UInt8.ofNat (n + 128)) = true := by
  rw [isCont_iff, toNat_ofNat_lt (by omega)]
  omega

/-- **A character is the next one of its bytes**, whatever follows them. -/
theorem utf8Next_encode (c : Char) : ∃ b bs, String.utf8EncodeChar c = b :: bs ∧
    ∀ rest, utf8Next b (bs ++ rest) = (c, rest) := by
  have hvalid := toNat_valid c
  have hc : Char.ofNat c.toNat = c := Char.ofNat_toNat c
  unfold String.utf8EncodeChar
  simp only [show c.val.toNat = c.toNat from rfl]
  generalize hn : c.toNat = n at hvalid hc
  by_cases h1 : n ≤ 0x7F
  · rw [if_pos h1]
    refine ⟨_, _, rfl, fun rest => ?_⟩
    rw [utf8Next_ascii (by rw [toNat_ofNat_lt (by omega)]; omega), toNat_ofNat_lt (by omega), hc]
    rfl
  rw [if_neg h1]
  by_cases h2 : n ≤ 0x7FF
  · rw [if_pos h2]
    refine ⟨_, _, rfl, fun rest => ?_⟩
    have hlead : (UInt8.ofNat (n / 64 % 32 + 192)).toNat = n / 64 + 192 := by
      rw [toNat_ofNat_lt (by omega)]
      omega
    have hlast : (UInt8.ofNat (n % 64 + 128)).toNat = n % 64 + 128 := toNat_ofNat_lt (by omega)
    unfold utf8Next
    simp only [List.cons_append, List.nil_append, hlead, hlast, isCont_ofNat (Nat.mod_lt n (by decide)),
      if_true]
    rw [if_neg (by omega), if_pos (by omega)]
    rw [show (n / 64 + 192 - 192) * 64 + (n % 64 + 128 - 128) = n by omega, hc]
  rw [if_neg h2]
  by_cases h3 : n ≤ 0xFFFF
  · rw [if_pos h3]
    refine ⟨_, _, rfl, fun rest => ?_⟩
    have hlead : (UInt8.ofNat (n / 4096 % 16 + 224)).toNat = n / 4096 + 224 := by
      rw [toNat_ofNat_lt (by omega)]
      omega
    have hmid : (UInt8.ofNat (n / 64 % 64 + 128)).toNat = n / 64 % 64 + 128 :=
      toNat_ofNat_lt (by omega)
    have hlast : (UInt8.ofNat (n % 64 + 128)).toNat = n % 64 + 128 := toNat_ofNat_lt (by omega)
    have hsecond : (secondRange (n / 4096 + 224)).1 ≤ n / 64 % 64 + 128 ∧
        n / 64 % 64 + 128 ≤ (secondRange (n / 4096 + 224)).2 := by
      unfold secondRange
      split_ifs <;> simp only <;> omega
    unfold utf8Next
    simp only [List.cons_append, List.nil_append, hlead, hmid, hlast,
      isCont_ofNat (Nat.mod_lt n (by decide)), if_true]
    rw [if_neg (by omega), if_neg (by omega), if_pos (by omega), if_pos hsecond, if_pos (by omega)]
    rw [show (n / 4096 + 224 - 224) * 4096 +
      ((n / 64 % 64 + 128 - 128) * 64 + (n % 64 + 128 - 128)) = n by omega, hc]
  rw [if_neg h3]
  refine ⟨_, _, rfl, fun rest => ?_⟩
  have hlead : (UInt8.ofNat (n / 262144 % 8 + 240)).toNat = n / 262144 + 240 := by
    rw [toNat_ofNat_lt (by omega)]
    omega
  have hsecond' : (UInt8.ofNat (n / 4096 % 64 + 128)).toNat = n / 4096 % 64 + 128 :=
    toNat_ofNat_lt (by omega)
  have hthird : (UInt8.ofNat (n / 64 % 64 + 128)).toNat = n / 64 % 64 + 128 :=
    toNat_ofNat_lt (by omega)
  have hlast : (UInt8.ofNat (n % 64 + 128)).toNat = n % 64 + 128 := toNat_ofNat_lt (by omega)
  have hsecond : (secondRange (n / 262144 + 240)).1 ≤ n / 4096 % 64 + 128 ∧
      n / 4096 % 64 + 128 ≤ (secondRange (n / 262144 + 240)).2 := by
    unfold secondRange
    split_ifs <;> simp only <;> omega
  unfold utf8Next
  simp only [List.cons_append, List.nil_append, hlead, hsecond', hthird, hlast,
    isCont_ofNat (Nat.mod_lt (n / 64) (by decide)), isCont_ofNat (Nat.mod_lt n (by decide)), if_true]
  rw [if_neg (by omega), if_neg (by omega), if_pos (by omega), if_pos hsecond, if_neg (by omega)]
  rw [show (n / 262144 + 240 - 240) * 262144 + ((n / 4096 % 64 + 128 - 128) * 64 +
    (n / 64 % 64 + 128 - 128)) * 64 + (n % 64 + 128 - 128) = n by omega, hc]

/-- The bytes of a text. -/
def utf8Encode (t : Text) : List UInt8 := t.flatMap String.utf8EncodeChar

theorem utf8Decode_encode (t : Text) (fuel : Nat) (h : (utf8Encode t).length ≤ fuel) :
    utf8Decode fuel (utf8Encode t) = t := by
  unfold utf8Encode at h ⊢
  induction t generalizing fuel with
  | nil => cases fuel <;> rfl
  | cons c t ih =>
    obtain ⟨b, bs, hencode, hnext⟩ := utf8Next_encode c
    rw [List.flatMap_cons, hencode, List.cons_append] at h ⊢
    rw [List.length_cons, List.length_append] at h
    obtain ⟨fuel, rfl⟩ : ∃ k, fuel = k + 1 := Nat.exists_eq_succ_of_ne_zero (by omega)
    rw [utf8Decode, hnext, ih fuel (by omega)]

/-- **A text is what its bytes decode to.** -/
theorem fromUtf8Lossy_encode (t : Text) : fromUtf8Lossy (utf8Encode t) = t :=
  utf8Decode_encode t _ (Nat.le_refl _)

end Text
