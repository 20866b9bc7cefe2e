/-!
# Code points

A text of this library is a list of `CodePoint`s: the characters of Unicode together with the
surrogates `U+D800`–`U+DFFF`. The surrogates `U+DC80`–`U+DCFF` stand for single bytes of a file that
belong to no valid UTF-8 sequence (`CodePoint.ofStrayByte`), so every file has a text and no byte is
lost on the way back; `Char` has no room for them.

`CodePoint.toChar?_ofChar` says that the characters embed, and `CodePoint.strayByte?_ofStrayByte`
that the stray bytes do.
-/

namespace SymbolAtlas

/-- A Unicode code point, surrogates included. -/
@[ext]
structure CodePoint where
  val : Nat
  val_lt : val < 0x110000
deriving DecidableEq

namespace CodePoint

def ofChar (c : Char) : CodePoint :=
  ⟨c.toNat, by
    have h := c.valid
    simp only [UInt32.isValidChar, Nat.isValidChar] at h
    show c.val.toNat < 0x110000
    omega⟩

instance : Coe Char CodePoint := ⟨ofChar⟩

instance : Inhabited CodePoint := ⟨ofChar ' '⟩

/-- The code point numbered `n`, and `U+FFFD` for a number past the last one. -/
def ofNat (n : Nat) : CodePoint :=
  if h : n < 0x110000 then ⟨n, h⟩ else ⟨0xFFFD, by omega⟩

@[simp]
theorem ofNat_val (c : CodePoint) : ofNat c.val = c := by
  simp [ofNat, c.val_lt]

theorem val_ofNat {n : Nat} (h : n < 0x110000) : (ofNat n).val = n := by
  simp [ofNat, h]

def isSurrogate (c : CodePoint) : Bool := 0xD800 ≤ c.val && c.val ≤ 0xDFFF

/-- The character a code point stands for; a surrogate stands for none. -/
def toChar? (c : CodePoint) : Option Char :=
  if c.isSurrogate then none else some (Char.ofNat c.val)

theorem isSurrogate_ofChar (c : Char) : (ofChar c).isSurrogate = false := by
  have h := c.valid
  simp only [UInt32.isValidChar, Nat.isValidChar] at h
  have e : (ofChar c).val = c.val.toNat := rfl
  simp only [isSurrogate, e, Bool.and_eq_false_iff, decide_eq_false_iff_not]
  omega

@[simp]
theorem toChar?_ofChar (c : Char) : (ofChar c).toChar? = some c := by
  have e : (ofChar c).val = c.toNat := rfl
  simp [toChar?, isSurrogate_ofChar, e]

/-! ## Stray bytes -/

/-- The code point that stands for a byte outside every valid UTF-8 sequence. -/
def ofStrayByte (b : UInt8) : CodePoint :=
  ⟨0xDC00 + b.toNat, by have := b.toNat_lt; omega⟩

/-- The byte that a code point of `U+DC80`–`U+DCFF` stands for. -/
def strayByte? (c : CodePoint) : Option UInt8 :=
  if 0xDC80 ≤ c.val ∧ c.val ≤ 0xDCFF then some (UInt8.ofNat (c.val - 0xDC00)) else none

theorem strayByte?_ofStrayByte {b : UInt8} (h : 0x80 ≤ b.toNat) :
    (ofStrayByte b).strayByte? = some b := by
  have hb := b.toNat_lt
  have e : (ofStrayByte b).val = 0xDC00 + b.toNat := rfl
  have : 0xDC80 ≤ (ofStrayByte b).val ∧ (ofStrayByte b).val ≤ 0xDCFF := by omega
  rw [strayByte?, if_pos this, e, Nat.add_sub_cancel_left]
  simp

/-! ## Blanks -/

/-- Whitespace: the ASCII controls for tabs, line ends and separators, the space, and the Unicode
spaces and line separators. -/
def isBlank (c : CodePoint) : Bool :=
  let n := c.val
  (0x09 ≤ n && n ≤ 0x0D) || (0x1C ≤ n && n ≤ 0x20) || n == 0x85 || n == 0xA0 || n == 0x1680 ||
    (0x2000 ≤ n && n ≤ 0x200A) || n == 0x2028 || n == 0x2029 || n == 0x202F || n == 0x205F ||
    n == 0x3000

end CodePoint

end SymbolAtlas
