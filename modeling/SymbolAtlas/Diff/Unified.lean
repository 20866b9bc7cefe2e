import SymbolAtlas.Diff.Align
import SymbolAtlas.Text.Basic

/-!
# Unified diffs

The runs of two sequences of lines as hunks, each with up to three unchanged lines around its
changes, and the hunks as a text. Equal texts have no hunks and an empty diff.
-/

namespace SymbolAtlas.Diff

/-- The number of unchanged lines shown around changes. -/
def context : Nat := 3

/-- Changes that stand close together, with the unchanged lines around them. The starts count the
lines before the hunk on either side. -/
structure Hunk (α : Type) where
  oldStart : Nat
  newStart : Nat
  runs : List (Run α)

namespace Hunk

variable {α : Type}

def old (h : Hunk α) : List α := h.runs.flatMap Run.old

def new (h : Hunk α) : List α := h.runs.flatMap Run.new

def push (h : Hunk α) (r : Run α) : Hunk α := { h with runs := h.runs ++ [r] }

end Hunk

variable {α : Type}

/-- Groups the runs behind an open hunk. A long unchanged run ends the hunk and starts the next
one, the last run of all ends it. -/
def group (h : Hunk α) : List (Run α) → List (Hunk α)
  | [] => [h]
  | [.same xs] => [h.push (.same (xs.take context))]
  | .same xs :: r :: rest =>
    if 2 * context < xs.length then
      let skipped := xs.length - context
      let next : Hunk α :=
        ⟨h.oldStart + h.old.length + skipped, h.newStart + h.new.length + skipped,
          [.same (xs.drop skipped)]⟩
      h.push (.same (xs.take context)) :: group next (r :: rest)
    else group (h.push (.same xs)) (r :: rest)
  | .change xs ys :: rest => group (h.push (.change xs ys)) rest

def hunks : List (Run α) → List (Hunk α)
  | [] => []
  | [.same _] => []
  | .same xs :: rest =>
    let skipped := xs.length - context
    group ⟨skipped, skipped, [.same (xs.drop skipped)]⟩ rest
  | runs => group ⟨0, 0, []⟩ runs

/-! ## As text -/

/-- Where a hunk lies on one side: the number of its first line and, unless it is one, how many
lines there are. A side without lines gives the number of the line before. -/
def rangeText (start length : Nat) : Text :=
  if length = 1 then Text.ofNat (start + 1)
  else Text.concat [Text.ofNat (if length = 0 then start else start + 1), ",", Text.ofNat length]

def runLines : Run Text → List Text
  | .same xs => xs.map ((CodePoint.ofChar ' ') :: ·)
  | .change xs ys => xs.map ((CodePoint.ofChar '-') :: ·) ++ ys.map ((CodePoint.ofChar '+') :: ·)

def hunkLines (h : Hunk Text) : List Text :=
  Text.concat ["@@ -", rangeText h.oldStart h.old.length, " +",
      rangeText h.newStart h.new.length, " @@"] ::
    h.runs.flatMap runLines

def unified (old new path : Text) : Text :=
  match hunks (align (Text.lines old) (Text.lines new)) with
  | [] => []
  | hs =>
    Text.unlines (Text.concat ["--- a/", path] :: Text.concat ["+++ b/", path] ::
      hs.flatMap hunkLines)

end SymbolAtlas.Diff
