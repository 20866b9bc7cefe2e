import SymbolAtlas.Json.Basic
import SymbolAtlas.Number.Shortest

/-!
# Writing JSON

`Json.pretty` writes a value over several lines, two blanks to a level, members in their order, and
empty lists and objects on one line. Strings escape quotes, backslashes and control characters and
leave every other code point as it is.
-/

namespace SymbolAtlas.Json

/-- A code point inside a string. -/
def stringPointText (c : CodePoint) : Text :=
  if c = '"' then "\\\""
  else if c = '\\' then "\\\\"
  else if c = '\n' then "\\n"
  else if c = '\r' then "\\r"
  else if c = '\t' then "\\t"
  else if c = '\x0c' then "\\f"
  else if c = '\x08' then "\\b"
  else if c.val < 0x20 then ("\\u" : String) ++ Text.ofHex 4 c.val
  else [c]

/-- A string with its quotes. -/
def stringText (t : Text) : Text :=
  Text.ofString "\"" ++ t.flatMap stringPointText ++ Text.ofString "\""

/-- The text of a binary64 number. -/
def floatText : Binary64 → Text
  | .nan => "NaN"
  | .infinity negative => if negative then "-Infinity" else "Infinity"
  | x => x.text

/-- A line break and the blanks of a level. -/
def lineStart (level : Nat) : Text :=
  Text.newline :: List.replicate (2 * level) (CodePoint.ofChar ' ')

mutual

/-- The value as written at a level. -/
def prettyAt (level : Nat) : Json → Text
  | null => "null"
  | bool b => if b then "true" else "false"
  | int i => Text.ofInt i
  | float x => floatText x
  | text t => stringText t
  | list [] => "[]"
  | list (v :: vs) =>
    Text.ofString "[" ++ prettyItems (level + 1) (v :: vs) ++ lineStart level ++ Text.ofString "]"
  | object [] => "\x7b\x7d"
  | object (m :: ms) =>
    Text.ofString "\x7b" ++ prettyMembers (level + 1) (m :: ms) ++ lineStart level ++
      Text.ofString "\x7d"

/-- Items, each on a line of the level. -/
def prettyItems (level : Nat) : List Json → Text
  | [] => []
  | [v] => lineStart level ++ prettyAt level v
  | v :: vs => lineStart level ++ prettyAt level v ++ Text.ofString "," ++ prettyItems level vs

/-- Members, each on a line of the level. -/
def prettyMembers (level : Nat) : List (Text × Json) → Text
  | [] => []
  | [(n, v)] => lineStart level ++ stringText n ++ Text.ofString ": " ++ prettyAt level v
  | (n, v) :: ms =>
    lineStart level ++ stringText n ++ Text.ofString ": " ++ prettyAt level v ++
      Text.ofString "," ++ prettyMembers level ms

end

/-- The value over several lines. -/
def pretty (v : Json) : Text := prettyAt 0 v

end SymbolAtlas.Json
