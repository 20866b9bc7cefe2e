import SymbolAtlas.Json.Parser

/-!
# Numerals

The decimal digits of a number are read back as the number, and where digits end is seen from what
follows them (`Json.takeDigits_ofNat_append`).
-/

namespace SymbolAtlas

namespace Text

theorem isDigit_ofChar (c : Char) : Json.isDigit (CodePoint.ofChar c) = c.isDigit := by
  have hval : (CodePoint.ofChar c).val = c.toNat := rfl
  simp only [Json.isDigit, hval, Char.isDigit, Char.toNat, ge_iff_le, UInt32.le_iff_toNat_le]
  rfl

theorem isDigit_of_mem_ofNat {c : CodePoint} {n : Nat} (h : c ∈ ofNat n) :
    Json.isDigit c = true := by
  obtain ⟨d, hd, rfl⟩ := List.mem_map.mp h
  rw [isDigit_ofChar]
  exact Nat.isDigit_of_mem_toDigits (by decide) (by decide) hd

theorem ofNat_ne_nil (n : Nat) : ofNat n ≠ [] := by
  simp [ofNat, Nat.toDigits_ne_nil]

/-- A numeral stands on one line. -/
theorem newline_notMem_ofNat (n : Nat) : newline ∉ ofNat n := by
  intro h
  have hdigit := isDigit_of_mem_ofNat h
  revert hdigit
  decide

end Text

namespace Json

theorem digitsValue_ofNat (n : Nat) : digitsValue (Text.ofNat n) = n := by
  have hvalue : digitsValue (Text.ofNat n) = Nat.ofDigitChars 10 (Nat.toDigits 10 n) 0 := by
    rw [digitsValue, Text.ofNat, List.foldl_map, Nat.ofDigitChars_eq_foldl]
    congr 1
    funext k c
    rw [Nat.mul_comm]
    rfl
  rw [hvalue, Nat.ofDigitChars_ten_toDigits]

/-- The digits of a numeral end where something else follows. -/
theorem takeDigits_ofNat_append (n : Nat) {rest : Text}
    (h : ∀ c ∈ rest.head?, isDigit c = false) :
    takeDigits (Text.ofNat n ++ rest) = (Text.ofNat n, rest) := by
  have hrest : rest.takeWhile isDigit = [] ∧ rest.dropWhile isDigit = rest := by
    cases rest with
    | nil => exact ⟨rfl, rfl⟩
    | cons c rest =>
      have hc := h c rfl
      simp [hc]
  have hdigits : ∀ c ∈ Text.ofNat n, isDigit c = true := fun c hc => Text.isDigit_of_mem_ofNat hc
  rw [takeDigits, List.takeWhile_append_of_pos hdigits, List.dropWhile_append_of_pos hdigits,
    hrest.1, hrest.2, List.append_nil]

end Json

end SymbolAtlas
