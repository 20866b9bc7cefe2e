import SymbolAtlas.Text.CodePoint

/-!
# Properties of code points as ranges

A property of code points is given by the ascending list of the closed ranges that have it.
-/

namespace SymbolAtlas.CodePoint

/-- Whether a number lies in one of the ranges. -/
def inRanges (n : Nat) (ranges : List (Nat × Nat)) : Bool :=
  ranges.any fun r => r.1 ≤ n && n ≤ r.2

end SymbolAtlas.CodePoint
