import SymbolAtlas.Proofs.Text.Strict

/-!
# Characters in bytes

What bytes are read as, said by the forms of characters: bytes that start with the form of a
character are read as this character and what follows (`decode_octetsOf_append`), and where they
start with no such form the first byte alone is stray (`decode_cons_of_not_startsCharacter`). So an
overlong form, an encoded surrogate, a number past the last character and a sequence that is cut
short are all read byte by byte.

A text without surrogates is what its bytes are read as (`decode_of_encode`). The texts that have no
bytes are those with a surrogate that stands for no byte (`encode_eq_error_iff`).
-/

namespace SymbolAtlas.Utf8

/-- Bytes that start with the form of a character. -/
def StartsCharacter (bs : Bytes) : Prop :=
  ∃ c rest, CodePoint.isSurrogate c = false ∧ bs = octetsOf c.val ++ rest

/-! ## First bytes -/

section Lead

variable {b : UInt8}

theorem lead?_of_two (h : 0xC2 ≤ b.toNat ∧ b.toNat < 0xE0) :
    lead? b = some ⟨1, 0x80, 0xBF, b.toNat - 0xC0⟩ := by
  have h1 : ¬ b.toNat < 0x80 := by omega
  have h2 : ¬ b.toNat < 0xC2 := by omega
  simp [lead?, h1, h2, h.2]

/-- The second of three bytes is bounded below so that the form is not overlong, and above so that
it spells no surrogate. -/
theorem lead?_of_three (h : 0xE0 ≤ b.toNat ∧ b.toNat < 0xF0) :
    lead? b = some ⟨2, if b.toNat = 0xE0 then 0xA0 else 0x80,
      if b.toNat = 0xED then 0x9F else 0xBF, b.toNat - 0xE0⟩ := by
  have h1 : ¬ b.toNat < 0x80 := by omega
  have h2 : ¬ b.toNat < 0xC2 := by omega
  have h3 : ¬ b.toNat < 0xE0 := by omega
  simp only [lead?, beq_iff_eq, if_neg h1, if_neg h2, if_neg h3, if_pos h.2]
  by_cases hlow : b.toNat = 0xE0
  · simp [hlow]
  · by_cases hsurrogate : b.toNat = 0xED
    · simp [hsurrogate]
    · simp [hlow, hsurrogate]

/-- The second of four bytes is bounded below so that the form is not overlong, and above so that it
spells no number past the last character. -/
theorem lead?_of_four (h : 0xF0 ≤ b.toNat ∧ b.toNat ≤ 0xF4) :
    lead? b = some ⟨3, if b.toNat = 0xF0 then 0x90 else 0x80,
      if b.toNat = 0xF4 then 0x8F else 0xBF, b.toNat - 0xF0⟩ := by
  have h1 : ¬ b.toNat < 0x80 := by omega
  have h2 : ¬ b.toNat < 0xC2 := by omega
  have h3 : ¬ b.toNat < 0xE0 := by omega
  have h4 : ¬ b.toNat < 0xF0 := by omega
  have h5 : b.toNat ≠ 0xE0 := by omega
  have h6 : b.toNat ≠ 0xED := by omega
  simp only [lead?, beq_iff_eq, if_neg h1, if_neg h2, if_neg h3, if_neg h4, if_neg h5, if_neg h6]
  by_cases hlow : b.toNat = 0xF0
  · simp [hlow]
  · by_cases hhigh : b.toNat = 0xF4
    · simp [hhigh]
    · have h7 : b.toNat < 0xF4 := by omega
      simp [hlow, hhigh, h7]

end Lead

/-! ## Characters -/

theorem tail_cons {k least greatest : Nat} {b : UInt8} (h : least ≤ b.toNat ∧ b.toNat ≤ greatest)
    (bs : Bytes) : tail (k + 1) least greatest (b :: bs) = b :: tail k 0x80 0xBF bs := by
  rw [tail, if_pos h]

/-- A first byte with the bytes it asks for is the character that their bits spell. -/
theorem pieceAt_of_complete {b : UInt8} {k least greatest bits n : Nat} {more rest : Bytes}
    (hl : lead? b = some ⟨k, least, greatest, bits⟩)
    (htail : tail k least greatest (more ++ rest) = more) (hlength : more.length = k)
    (hvalue : value bits more = n) :
    pieceAt b (more ++ rest) = .char (CodePoint.ofNat n) (b :: more) := by
  simp [pieceAt, hl, htail, hlength, hvalue]

theorem toNat_ofNat_of_lt {n : Nat} (h : n < 0x100) : (UInt8.ofNat n).toNat = n := by
  rw [UInt8.toNat_ofNat']
  omega

/-- The form of a number that is no surrogate is read as the character of this number, whatever
follows. -/
theorem pieceAt_octetsOf {n : Nat} (hlt : n < 0x110000) (hscalar : n < 0xD800 ∨ 0xDFFF < n)
    (rest : Bytes) : ∃ b more, octetsOf n = b :: more ∧
      pieceAt b (more ++ rest) = .char (CodePoint.ofNat n) (b :: more) := by
  have hlast : (UInt8.ofNat (0x80 + n % 0x40)).toNat = 0x80 + n % 0x40 :=
    toNat_ofNat_of_lt (by omega)
  have hmiddle : (UInt8.ofNat (0x80 + n / 0x40 % 0x40)).toNat = 0x80 + n / 0x40 % 0x40 :=
    toNat_ofNat_of_lt (by omega)
  unfold octetsOf
  -- One case for each length of a form.
  split
  · have hb : (UInt8.ofNat n).toNat = n := toNat_ofNat_of_lt (by omega)
    exact ⟨_, [], rfl, pieceAt_of_complete (lead?_of_lt (by omega)) rfl rfl hb⟩
  split
  · have hb : (UInt8.ofNat (0xC0 + n / 0x40)).toNat = 0xC0 + n / 0x40 :=
      toNat_ofNat_of_lt (by omega)
    refine ⟨_, [_], rfl, pieceAt_of_complete (lead?_of_two (by omega)) ?_ rfl ?_⟩
    · exact tail_cons (by omega) rest
    · simp only [value, List.foldl, hb, hlast]
      omega
  split
  · have hb : (UInt8.ofNat (0xE0 + n / 0x1000)).toNat = 0xE0 + n / 0x1000 :=
      toNat_ofNat_of_lt (by omega)
    refine ⟨_, [_, _], rfl, pieceAt_of_complete (lead?_of_three (by omega)) ?_ rfl ?_⟩
    · rw [List.cons_append, tail_cons (by split <;> split <;> omega), List.cons_append,
        tail_cons (by omega)]
      rfl
    · simp only [value, List.foldl, hb, hmiddle, hlast]
      omega
  · have hb : (UInt8.ofNat (0xF0 + n / 0x40000)).toNat = 0xF0 + n / 0x40000 :=
      toNat_ofNat_of_lt (by omega)
    have hc : (UInt8.ofNat (0x80 + n / 0x1000 % 0x40)).toNat = 0x80 + n / 0x1000 % 0x40 :=
      toNat_ofNat_of_lt (by omega)
    refine ⟨_, [_, _, _], rfl, pieceAt_of_complete (lead?_of_four (by omega)) ?_ rfl ?_⟩
    · rw [List.cons_append, tail_cons (by split <;> split <;> omega), List.cons_append,
        tail_cons (by omega), List.cons_append, tail_cons (by omega)]
      rfl
    · simp only [value, List.foldl, hb, hc, hmiddle, hlast]
      omega

theorem scalar_of_not_isSurrogate {c : CodePoint} (h : c.isSurrogate = false) :
    c.val < 0xD800 ∨ 0xDFFF < c.val := by
  simp only [CodePoint.isSurrogate, Bool.and_eq_false_iff, decide_eq_false_iff_not] at h
  omega

theorem decode_cons (b : UInt8) (bs : Bytes) :
    decode (b :: bs) = (pointAt b bs).1 :: decode (bs.drop ((pointAt b bs).2.length - 1)) := by
  rw [← map_fst_points, points_cons, List.map_cons, map_fst_points]

/-- The form of a character is read as the character, and reading goes on behind it. -/
theorem decode_octetsOf_append {c : CodePoint} (h : c.isSurrogate = false) (rest : Bytes) :
    decode (octetsOf c.val ++ rest) = c :: decode rest := by
  obtain ⟨b, more, hform, hpiece⟩ :=
    pieceAt_octetsOf c.val_lt (scalar_of_not_isSurrogate h) rest
  rw [hform, List.cons_append, decode_cons, pointAt, hpiece]
  simp

/-- Where no character has its form, the first byte is stray and reading goes on behind it. -/
theorem decode_cons_of_not_startsCharacter {b : UInt8} {bs : Bytes}
    (h : ¬ StartsCharacter (b :: bs)) :
    decode (b :: bs) = CodePoint.ofStrayByte b :: decode bs := by
  rw [decode_cons, pointAt]
  cases hpiece : pieceAt b bs with
  | stray o => rfl
  | char c o =>
    obtain ⟨l, hl, hlength, -, hc⟩ := pieceAt_eq_char hpiece
    obtain ⟨hform, hlt, -⟩ := spells_value hl hlength
    have hval : c.val = value l.bits (tail l.follow l.least l.greatest bs) := by
      rw [hc, CodePoint.val_ofNat hlt]
    refine absurd ⟨c, bs.drop (tail l.follow l.least l.greatest bs).length, ?_, ?_⟩ h
    · exact isSurrogate_of_char hpiece
    · rw [hval, hform, List.cons_append, tail_append_drop]

/-! ## Texts -/

theorem encodePoint?_eq_none_iff {c : CodePoint} :
    encodePoint? c = none ↔
      c.isSurrogate = true ∧ ¬ (0xDC80 ≤ c.val ∧ c.val ≤ 0xDCFF) := by
  unfold encodePoint? CodePoint.strayByte?
  by_cases hstray : 0xDC80 ≤ c.val ∧ c.val ≤ 0xDCFF
  · simp [hstray]
  · cases hsurrogate : c.isSurrogate <;> simp [hstray]

/-- A text with a surrogate that stands for no byte. -/
def IsUnwritable (t : Text) : Prop :=
  ∃ c ∈ t, c.isSurrogate = true ∧ ¬ (0xDC80 ≤ c.val ∧ c.val ≤ 0xDCFF)

/-- The texts without a form in bytes are those with a surrogate that stands for no byte. -/
theorem encode_eq_error_iff {t : Text} : (∃ e, encode t = .error e) ↔ IsUnwritable t := by
  have hnone : ∀ c, isEncodable c = false ↔
      c.isSurrogate = true ∧ ¬ (0xDC80 ≤ c.val ∧ c.val ≤ 0xDCFF) := by
    intro c
    rw [← encodePoint?_eq_none_iff, isEncodable, Option.isSome_eq_false_iff,
      Option.isNone_iff_eq_none]
  simp only [IsUnwritable, ← hnone]
  unfold encode
  split
  · next h =>
    rw [List.all_eq_true] at h
    simp only [reduceCtorEq, exists_false, false_iff, not_exists, not_and]
    exact fun c hc hnot => by simp [h c hc] at hnot
  · next h =>
    simp only [Bool.not_eq_true, List.all_eq_false] at h
    simpa using h

theorem encodePoint?_of_not_isSurrogate {c : CodePoint} (h : c.isSurrogate = false) :
    encodePoint? c = some (octetsOf c.val) := by
  have hscalar := scalar_of_not_isSurrogate h
  have hstray : c.strayByte? = none := by
    rw [CodePoint.strayByte?, if_neg (by omega)]
  simp [encodePoint?, hstray, h]

/-- A text without surrogates has bytes, and it is what they are read as. -/
theorem decode_encodeLossy {t : Text} (h : ∀ c ∈ t, c.isSurrogate = false) :
    decode (encodeLossy t) = t := by
  induction t with
  | nil => rfl
  | cons c t ih =>
    have hform := encodePoint?_of_not_isSurrogate (h c (by simp))
    have hrest := ih fun d hd => h d (List.mem_cons_of_mem c hd)
    unfold encodeLossy at hrest ⊢
    rw [List.flatMap_cons, hform, Option.getD_some, decode_octetsOf_append (h c (by simp)), hrest]

theorem decode_of_encode {t : Text} {bs : Bytes} (h : ∀ c ∈ t, c.isSurrogate = false)
    (hbytes : encode t = .ok bs) : decode bs = t := by
  obtain ⟨-, rfl⟩ := encode_eq_ok_iff.mp hbytes
  exact decode_encodeLossy h

end SymbolAtlas.Utf8
