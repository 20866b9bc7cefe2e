import SymbolAtlas.Number.Binary64
import SymbolAtlas.Text.Basic

/-!
# Shortest decimal texts

The text of a binary64 number has the fewest digits that read back as the number, and of those
digits the nearest to it. It is positional from `0.0001` up to below `10 ^ 16`, with `.0` after a
whole number; beyond, it has an exponent with a sign and at least two digits.
-/

namespace SymbolAtlas.Binary64

/-- Both sides of a comparison of `m * 2 ^ e` with `d * 10 ^ p`, over one denominator. -/
def sides (m : Nat) (e : Int) (d : Nat) (p : Int) : Nat × Nat :=
  (m * twoTo e.toNat * tenTo (-p).toNat, d * tenTo p.toNat * twoTo (-e).toNat)

/-- Whether `m * 2 ^ e < d * 10 ^ p`. -/
def isBelow (m : Nat) (e : Int) (d : Nat) (p : Int) : Bool :=
  (sides m e d p).1 < (sides m e d p).2

/-- The greatest `d` with `d * 10 ^ p ≤ m * 2 ^ e`. -/
def floorAt (m : Nat) (e : Int) (p : Int) : Nat :=
  (sides m e 1 p).1 / (sides m e 1 p).2

/-- The exponent of the leading decimal digit of `m * 2 ^ e`. -/
def leadingExponent (m : Nat) (e : Int) : Int :=
  let guess := ((m.log2 : Int) + e) * 30103 / 100000
  if isBelow m e 1 guess then guess - 1
  else if isBelow m e 1 (guess + 1) then guess
  else guess + 1

/-- Whether `d * 10 ^ p` reads back as `m * 2 ^ e`: it lies between the midpoints to the
neighbours, which belong to the even significand. -/
def readsBack (m : Nat) (e : Int) (d : Nat) (p : Int) : Bool :=
  let low := if m = twoTo (precision - 1) ∧ leastExponent < e then 4 * m - 1 else 4 * m - 2
  let (lo, x) := sides low (e - 2) d p
  let (hi, _) := sides (4 * m + 2) (e - 2) d p
  if m % 2 = 0 then lo ≤ x && x ≤ hi else lo < x && x < hi

/-- The nearer of the two grid points around `m * 2 ^ e` that read back, if any does. -/
def gridPoint? (m : Nat) (e : Int) (p : Int) : Option Nat :=
  let d := floorAt m e p
  match readsBack m e d p, readsBack m e (d + 1) p with
  | true, true =>
    let (v, midpoint) := sides (2 * m) e (2 * d + 1) p
    some (if v < midpoint ∨ (v = midpoint ∧ d % 2 = 0) then d else d + 1)
  | true, false => some d
  | false, true => some (d + 1)
  | false, false => none

/-- Drops the zeros at the end of `d`, raising the exponent. -/
def trimZeros : Nat → Nat → Int → Nat × Int
  | 0, d, p => (d, p)
  | fuel + 1, d, p => if d % 10 = 0 ∧ d ≠ 0 then trimZeros fuel (d / 10) (p + 1) else (d, p)

/-- The shortest digits `d` and exponent `p` such that `d * 10 ^ p` reads back as `m * 2 ^ e`. -/
def shortestDigits (m : Nat) (e : Int) : Nat × Int :=
  let leading := leadingExponent m e
  let attempt (count : Nat) : Option (Nat × Int) :=
    let p := leading - count
    (gridPoint? m e p).map fun d => trimZeros 20 d p
  ((List.range 17).findSome? attempt).getD (m, e)

/-- So many zeros. -/
def zeros (n : Nat) : Text := List.replicate n (CodePoint.ofChar '0')

/-- Digits and exponent as a text. -/
def layout (d : Nat) (p : Int) : Text :=
  let ds := Text.ofNat d
  let lead : Int := p + ds.length - 1
  if -4 ≤ lead ∧ lead < 16 then
    if 0 ≤ p then ds ++ zeros p.toNat ++ Text.ofString ".0"
    else if 0 ≤ lead then
      ds.take (lead.toNat + 1) ++ Text.ofString "." ++ ds.drop (lead.toNat + 1)
    else Text.ofString "0." ++ zeros (-lead - 1).toNat ++ ds
  else
    let mantissa := if ds.length ≤ 1 then ds else ds.take 1 ++ Text.ofString "." ++ ds.drop 1
    let sign := if lead < 0 then "e-" else "e+"
    let ex := Text.ofNat lead.natAbs
    mantissa ++ Text.ofString sign ++ zeros (2 - ex.length) ++ ex

def text : Binary64 → Text
  | nan => "nan"
  | infinity negative => if negative then "-inf" else "inf"
  | finite negative m e =>
    let digits := if m = 0 then Text.ofString "0.0" else
      let (d, p) := shortestDigits m e
      layout d p
    if negative then Text.ofString "-" ++ digits else digits

end SymbolAtlas.Binary64
