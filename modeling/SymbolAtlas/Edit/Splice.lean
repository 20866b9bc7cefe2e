import SymbolAtlas.Grammar
import SymbolAtlas.Text.Offset
import SymbolAtlas.Tree.Range

/-!
# Splicing texts

Edits on a range of a text that touch nothing outside it: replacing it, deleting it with the lines
it leaves empty, inserting a member at the end of a class, and appending a top-level symbol. Lines
and columns may be counted from the end, as `Offset` says; the range has to end on a line of the
text.
-/

namespace SymbolAtlas.Splice

/-- Cuts each run of three or more newlines to two. The counter holds how many newlines come
directly before the text. -/
def collapseAfter : Nat → Text → Text
  | _, [] => []
  | run, c :: t =>
    if c = Text.newline then
      if 2 ≤ run then collapseAfter run t else c :: collapseAfter (run + 1) t
    else c :: collapseAfter 0 t

/-- Cuts each run of three or more newlines to two. -/
def collapseBlankLines (t : Text) : Text := collapseAfter 0 t

/-- Refuses a range that ends past the last line. -/
def checkRange (ls : List Text) (r : SourceRange) : Except Failure Unit :=
  if (ls.length : Int) ≤ r.endLine then .error (.rangePastEnd r.endLine ls.length) else .ok ()

/-- The line that an offset names. -/
def lineAt (ls : List Text) (i : Int) : Except Failure Text :=
  match Offset.element? ls i with
  | some l => .ok l
  | none => .error (.noSuchLine i)

/-- The lines with the line at an offset replaced. -/
def setLine (ls : List Text) (i : Int) (new : Text) : List Text :=
  match Offset.index? ls.length i with
  | some k => ls.set k new
  | none => ls

/-- Puts `start` before the first line and `stop` behind the last. -/
def wrapLines (start stop : Text) (ls : List Text) : List Text :=
  match ls with
  | [] => [start ++ stop]
  | first :: rest =>
    let ls := (start ++ first) :: rest
    ls.dropLast ++ [ls.getLast (by simp) ++ stop]

/-- The text with `new` in place of a range. -/
def replaceRange (t : Text) (r : SourceRange) (new : Text) : Except Failure Text := do
  let ls := Text.lines t
  checkRange ls r
  let first ← lineAt ls r.startLine
  if r.startLine = r.endLine then
    pure (Text.unlines (setLine ls r.startLine
      (Offset.before first r.startColumn ++ new ++ Offset.onward first r.endColumn)))
  else
    let last ← lineAt ls r.endLine
    pure (Text.unlines (Offset.replaceSpan ls r.startLine (r.endLine + 1)
      (wrapLines (Offset.before first r.startColumn) (Offset.onward last r.endColumn)
        (Text.lines new))))

/-- The lines without one of two blank lines that meet at index `i`. -/
def mergeBlankAt (ls : List Text) (i : Int) : List Text :=
  if 0 < i ∧ i < ls.length then
    match Offset.element? ls i, Offset.element? ls (i - 1) with
    | some here, some above => if here.isBlank ∧ above.isBlank then ls.eraseIdx i.toNat else ls
    | _, _ => ls
  else ls

/-- The text without a range. A range with nothing but blanks beside it on its lines takes the lines
with it, and one of the blank lines that meet; otherwise only the range goes and long runs of
newlines collapse. -/
def deleteRange (t : Text) (r : SourceRange) : Except Failure Text := do
  let ls := Text.lines t
  checkRange ls r
  let first ← lineAt ls r.startLine
  let last ← lineAt ls r.endLine
  if Text.isBlank (Offset.before first r.startColumn) ∧
      Text.isBlank (Offset.onward last r.endColumn) then
    pure (Text.unlines (mergeBlankAt (Offset.replaceSpan ls r.startLine (r.endLine + 1) [])
      r.startLine))
  else
    let replaced ← replaceRange t r []
    pure (collapseBlankLines replaced)

/-! ## Inserting -/

/-- Indents the lines of a text that are not blank. -/
def indentLines (indent content : Text) : List Text :=
  (Text.lines content).map fun l => if l.isBlank then l else indent ++ l

/-- The offset of the last closing brace before the column `column` of a line. -/
def lastBrace? (line : Text) (column : Int) : Option Nat :=
  let before := Offset.before line column
  let behind := (before.reverse.takeWhile (· ≠ ('\x7d' : CodePoint))).length
  if behind < before.length then some (before.length - 1 - behind) else none

/-- The text with a member inserted at the end of the class that occupies a range: before the
closing brace, or below the last line where bodies have no braces. -/
def createInClass (t : Text) (r : SourceRange) (content : Text) (g : Grammar) :
    Except Failure Text := do
  let ls := Text.lines t
  checkRange ls r
  let first ← lineAt ls r.startLine
  let classIndent := first.indentation
  let indented := indentLines (classIndent ++ g.indentUnit) content
  if !g.usesBraces then
    pure (Text.unlines (Offset.replaceSpan ls (r.endLine + 1) (r.endLine + 1) ([] :: indented)))
  else
    let last ← lineAt ls r.endLine
    match lastBrace? last r.endColumn with
    | none => .error (.noClosingBrace (r.endLine + 1))
    | some k =>
      pure (Text.unlines (setLine ls r.endLine (Text.concat
        [last.take k, [Text.newline], Text.unlines indented, [Text.newline], classIndent,
          last.drop k])))

/-- The text with a new top-level symbol at its end. -/
def appendTopLevel (t content : Text) : Text :=
  if t.isBlank then content.trim else Text.concat [t.trim, [Text.newline], content.trim]

/-- The text with `new` in place of the code points between two offsets; without new text, long runs
of newlines collapse. -/
def spliceSpan (t : Text) (start stop : Int) (new : Text) : Text :=
  if new = [] then collapseBlankLines (Offset.before t start ++ Offset.onward t stop)
  else Offset.before t start ++ new ++ Offset.onward t stop

end SymbolAtlas.Splice
