import SymbolAtlas.Text.Basic

/-!
# Functions by their header

`functionSpan?` finds a top-level function of a name without a syntax tree: at a line start, blanks,
the word `function`, the name and an opening parenthesis; the span runs to the brace that closes the
first brace behind the closing parenthesis. Brackets are counted wherever they stand, in strings and
comments too.
-/

namespace SymbolAtlas.Header

/-- The blanks that may stand before the word `function`. -/
def isIndent (c : CodePoint) : Bool := c = ' ' || c = '\t'

/-- The word that starts a header. -/
def keyword : Text := "function"

/-- What follows the parenthesis behind the name, when `t` starts with the name. -/
def afterName? (name t : Text) : Option Text :=
  match (Text.after? name t).map Text.trimStart with
  | some (c :: rest) => if c = '(' then some rest else none
  | _ => none

/-- Tries to read the name behind one blank and then behind more, the longest run first. -/
def afterBlanks? (name : Text) : Text → Option Text
  | [] => none
  | c :: t =>
    if c.isBlank then
      match afterBlanks? name t with
      | some rest => some rest
      | none => afterName? name t
    else none

/-- What follows the parenthesis of a header of `name` that `t` starts with. -/
def read? (name t : Text) : Option Text :=
  (Text.after? keyword (t.dropWhile isIndent)).bind (afterBlanks? name)

/-- The first line start of a text from which a header can be read, and what follows the header.
The text comes behind `seen` code points; `atStart` says that it starts a line. -/
def find? (name : Text) : Nat → Bool → Text → Option (Nat × Text)
  | _, _, [] => none
  | seen, atStart, c :: t =>
    match if atStart then read? name (c :: t) else none with
    | some rest => some (seen, rest)
    | none => find? name (seen + 1) (c = Text.newline) t

/-- What follows the bracket that closes `depth` open ones. -/
def afterClosing? (opening closing : CodePoint) : Nat → Text → Option Text
  | _, [] => none
  | depth, c :: t =>
    if c = opening then afterClosing? opening closing (depth + 1) t
    else if c = closing then
      match depth with
      | 0 | 1 => some t
      | d + 2 => afterClosing? opening closing (d + 1) t
    else afterClosing? opening closing depth t

/-- The span of the first function of a name, as offsets of its start and of its end. -/
def functionSpan? (t name : Text) : Option (Nat × Nat) :=
  (find? name 0 true t).bind fun (start, inside) =>
    (afterClosing? '(' ')' 1 inside).bind fun rest =>
      match rest.dropWhile (· ≠ ('\x7b' : CodePoint)) with
      | [] => none
      | _ :: body =>
        (afterClosing? '\x7b' '\x7d' 1 body).map fun rest => (start, t.length - rest.length)

end SymbolAtlas.Header
