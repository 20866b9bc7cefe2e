import SymbolAtlas.Failure

/-!
# Source ranges

A half-open stretch of a text from one line and column to another, both counted from zero, columns
in code points. `SourceRange.of` refuses a range that ends before it starts.
-/

namespace SymbolAtlas

/-- A stretch of a text that does not end before it starts. -/
structure SourceRange where
  startLine : Int
  startColumn : Int
  endLine : Int
  endColumn : Int
  ordered : startLine < endLine ∨ (startLine = endLine ∧ startColumn ≤ endColumn)

namespace SourceRange

/-- The range with the given ends. -/
def of (startLine startColumn endLine endColumn : Int) : Except Failure SourceRange :=
  if h : startLine < endLine ∨ (startLine = endLine ∧ startColumn ≤ endColumn) then
    .ok ⟨startLine, startColumn, endLine, endColumn, h⟩
  else .error (.invalidRange startLine startColumn endLine endColumn)

def toList (r : SourceRange) : List Int := [r.startLine, r.startColumn, r.endLine, r.endColumn]

theorem of_toList (r : SourceRange) :
    of r.startLine r.startColumn r.endLine r.endColumn = .ok r := by
  simp [of, r.ordered]

end SourceRange

end SymbolAtlas
