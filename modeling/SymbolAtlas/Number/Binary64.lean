/-!
# Binary64 numbers

The numbers that a JSON text can denote beside the integers, as exact pairs of a significand and a
power of two. `Binary64.ofDecimal` is the nearest such number to a decimal one, a tie going to the
even significand.
-/

namespace SymbolAtlas

/-- A binary64 number; a finite one is `± significand * 2 ^ exponent`. -/
inductive Binary64 where
  | nan
  | infinity (negative : Bool)
  | finite (negative : Bool) (significand : Nat) (exponent : Int)
deriving DecidableEq

namespace Binary64

/-- The number of bits of a significand. -/
def precision : Nat := 53

/-- The least exponent, that of the subnormal numbers. -/
def leastExponent : Int := -1074

/-- The greatest exponent. -/
def greatestExponent : Int := 971

/-- A power of two. -/
def twoTo (k : Nat) : Nat := Nat.pow 2 k

/-- A power of ten. -/
def tenTo (k : Nat) : Nat := Nat.pow 10 k

/-- The quotient rounded to the nearest integer, a tie to the even one. -/
def roundHalfEven (num den : Nat) : Nat :=
  let q := num / den
  let r := num % den
  if 2 * r < den then q
  else if den < 2 * r then q + 1
  else q + q % 2

/-- The fraction `num / den` divided by `2 ^ exponent`, as a pair of numerator and denominator. -/
def scaled (num den : Nat) (exponent : Int) : Nat × Nat :=
  if exponent < 0 then (num * twoTo exponent.natAbs, den) else (num, den * twoTo exponent.natAbs)

/-- The nearest number to `± num / den`. -/
def ofRatio (negative : Bool) (num den : Nat) : Binary64 :=
  if num = 0 then finite negative 0 0
  else
    let low : Int := (num.log2 : Int) - den.log2 - precision
    let (n, d) := scaled num den low
    let exponent := max leastExponent (if d * twoTo precision ≤ n then low + 1 else low)
    let (n, d) := scaled num den exponent
    let m := roundHalfEven n d
    let (m, exponent) :=
      if m = twoTo precision then (twoTo (precision - 1), exponent + 1) else (m, exponent)
    if greatestExponent < exponent then infinity negative else finite negative m exponent

/-- The nearest number to `± digits * 10 ^ exponent`. Beyond the range of exponents that binary64
covers the power of ten is not worked out. -/
def ofDecimal (negative : Bool) (digits : Nat) (exponent : Int) : Binary64 :=
  let magnitude : Int := (digits.log2 : Int) * 30103 / 100000 + exponent
  if digits = 0 then finite negative 0 0
  else if 400 < magnitude then infinity negative
  else if magnitude < -400 then finite negative 0 0
  else if exponent < 0 then ofRatio negative digits (tenTo exponent.natAbs)
  else ofRatio negative (digits * tenTo exponent.natAbs) 1

/-- Whether the number equals zero. -/
def isZero : Binary64 → Bool
  | finite _ 0 _ => true
  | _ => false

end Binary64

end SymbolAtlas
