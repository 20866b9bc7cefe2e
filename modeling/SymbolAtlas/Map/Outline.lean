import SymbolAtlas.Failure
import SymbolAtlas.Text.Offset

/-!
# Outlines of files

An outline shows a file by the lines on which its symbols are declared. For each symbol it takes the
nearest line of code at or above its declaration, or if there is none the first line of code below.
-/

namespace SymbolAtlas.Outline

/-- What a comment line starts with. -/
def commentMarks : List Text := ["//", "*", "/**", "*/"]

/-- Whether a line is a comment or blank. -/
def isQuiet (line : Text) : Bool :=
  let t := line.trim
  t = [] || commentMarks.any fun mark => Text.startsWith t mark

/-- The last line of code among the first `n` lines. -/
def lastCode? (ls : List Text) : Nat → Option Nat
  | 0 => none
  | n + 1 =>
    match ls[n]? with
    | some l => if isQuiet l then lastCode? ls n else some n
    | none => lastCode? ls n

/-- The first line of code. -/
def firstCode? (ls : List Text) : Option Nat := ls.findIdx? fun l => !isQuiet l

/-- The line to show for a symbol declared on the one-based line `line`, if the text has any line of
code. A symbol below the last line is a failure. -/
def pick? (ls : List Text) (line : Int) : Except Failure (Option Nat) :=
  if (ls.length : Int) < line then .error (.noSuchLine (line - 1))
  else .ok ((lastCode? ls line.toNat).or (firstCode? ls))

/-- Inserts a number into an ascending list of numbers, unless it is there already. -/
def insertAscending (n : Nat) : List Nat → List Nat
  | [] => [n]
  | m :: ms => if n < m then n :: m :: ms else if n = m then m :: ms else m :: insertAscending n ms

/-- The zero-based lines to show for symbols declared on the given lines, ascending. -/
def importantLines (t : Text) (declared : List Int) : Except Failure (List Nat) :=
  let ls := Text.lines t
  declared.foldlM (fun shown line =>
    match pick? ls line with
    | .ok (some n) => .ok (insertAscending n shown)
    | .ok none => .ok shown
    | .error e => .error e) []

/-- The outline of a file: its path, and below it the lines to show. -/
def ofFile (path t : Text) (declared : List Int) : Except Failure Text :=
  match importantLines t declared with
  | .error e => .error e
  | .ok shown =>
    let ls := Text.lines t
    .ok (Text.concat [path, ":", [Text.newline],
      shown.flatMap fun n => Text.concat ["- ", (ls.getD n []).trim, [Text.newline]]])

end SymbolAtlas.Outline
