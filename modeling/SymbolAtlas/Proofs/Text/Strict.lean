import SymbolAtlas.Proofs.Text.Points

/-!
# Valid UTF-8

Bytes are valid UTF-8 if all their pieces are characters. A reading shows whether they are: a
character is never read as a surrogate, and a stray byte always is (`isValid_iff`). Of valid bytes
all readings are the same, and what lies between two boundaries is valid again
(`IsValid.between`).
-/

namespace SymbolAtlas.Utf8

/-- Bytes without a stray run. -/
def IsValid (bs : Bytes) : Prop := ∀ p ∈ pieces bs, ∃ c octets, p = .char c octets

/-- Every piece is the piece that some bytes start with. -/
theorem exists_pieceAt_of_mem_pieces {bs : Bytes} {p : Piece} (h : p ∈ pieces bs) :
    ∃ b rest, p = pieceAt b rest := by
  match bs with
  | [] => simp at h
  | b :: bs =>
    rw [pieces_cons] at h
    rcases List.mem_cons.mp h with rfl | h
    · exact ⟨b, bs, rfl⟩
    · exact exists_pieceAt_of_mem_pieces h
termination_by bs.length
decreasing_by simp only [List.length_drop, List.length_cons]; omega

theorem isSurrogate_of_char {b : UInt8} {bs : Bytes} {c : CodePoint} {o : Bytes}
    (h : pieceAt b bs = .char c o) : c.isSurrogate = false := by
  obtain ⟨l, hl, hlen, -, rfl⟩ := pieceAt_eq_char h
  obtain ⟨-, hlt, hscalar⟩ := spells_value hl hlen
  simp only [CodePoint.isSurrogate, CodePoint.val_ofNat hlt, Bool.and_eq_false_iff,
    decide_eq_false_iff_not]
  omega

theorem isSurrogate_ofStrayByte (b : UInt8) : (CodePoint.ofStrayByte b).isSurrogate = true := by
  have hb := b.toNat_lt
  have hval : (CodePoint.ofStrayByte b).val = 0xDC00 + b.toNat := rfl
  simp only [CodePoint.isSurrogate, hval, Bool.and_eq_true, decide_eq_true_eq]
  omega

/-- A stray run has at least one byte. -/
theorem exists_mem_of_stray {b : UInt8} {bs o : Bytes} (h : pieceAt b bs = .stray o) : b ∈ o := by
  rcases pieceAt_eq_stray h with ⟨-, rfl⟩ | ⟨l, -, -, rfl⟩ <;> simp

variable {bs : Bytes}

/-- Bytes are valid exactly if nothing in them is read as a surrogate. -/
theorem isValid_iff : IsValid bs ↔ ∀ c ∈ decode bs, c.isSurrogate = false := by
  unfold IsValid decode
  constructor
  · intro h c hc
    obtain ⟨p, hp, hc⟩ := List.mem_flatMap.mp hc
    obtain ⟨c', o, rfl⟩ := h p hp
    obtain rfl := List.mem_singleton.mp hc
    obtain ⟨b, rest, hpiece⟩ := exists_pieceAt_of_mem_pieces hp
    exact isSurrogate_of_char hpiece.symm
  · intro h p hp
    obtain ⟨b, rest, rfl⟩ := exists_pieceAt_of_mem_pieces hp
    cases hpiece : pieceAt b rest with
    | char c o => exact ⟨c, o, rfl⟩
    | stray o =>
      have hread : CodePoint.ofStrayByte b ∈ o.map CodePoint.ofStrayByte :=
        List.mem_map_of_mem (exists_mem_of_stray hpiece)
      have hplain := h (CodePoint.ofStrayByte b)
        (List.mem_flatMap.mpr ⟨_, hp, by simpa only [hpiece] using hread⟩)
      rw [isSurrogate_ofStrayByte] at hplain
      cases hplain

theorem IsValid.decodeReplacing_eq (h : IsValid bs) : decodeReplacing bs = decode bs := by
  unfold IsValid at h
  rw [decodeReplacing, decode]
  generalize pieces bs = ps at h ⊢
  induction ps with
  | nil => rfl
  | cons p ps ih =>
    obtain ⟨c, o, rfl⟩ := h p (by simp)
    rw [List.map_cons, List.flatMap_cons, ih fun q hq => h q (by simp [hq])]
    rfl

/-- Bytes are read strictly exactly if they are valid. -/
theorem decodeStrict_eq_ok_iff {t : Text} :
    decodeStrict bs = .ok t ↔ IsValid bs ∧ t = decode bs := by
  have hfirst : ∀ (ps : List Piece) (k : Nat),
      firstStray? k ps = none ↔ ∀ p ∈ ps, ∃ c octets, p = .char c octets := by
    intro ps
    induction ps with
    | nil => simp [firstStray?]
    | cons p ps ih =>
      intro k
      cases p with
      | char c o => simp [firstStray?, ih]
      | stray o => simp [firstStray?]
  unfold decodeStrict IsValid
  rw [← hfirst (pieces bs) 0]
  cases firstStray? 0 (pieces bs) with
  | none => simp [eq_comm]
  | some e => simp

/-- What lies between two boundaries of valid bytes is valid. -/
theorem IsValid.between (h : IsValid bs) {j k : Nat} (hj : IsBoundary bs j) (hk : IsBoundary bs k)
    (hle : j ≤ k) (hk' : k ≤ bs.length) : IsValid ((bs.take k).drop j) := by
  rw [isValid_iff] at h ⊢
  intro c hc
  refine h c ?_
  rw [hk.decode_eq, hj.decode_take hk hle hk']
  simp [hc]

end SymbolAtlas.Utf8
