import SymbolAtlas.Json.Basic
import SymbolAtlas.Number.Shortest
import SymbolAtlas.Text.Quoted

/-!
# Values in messages

How a message shows a JSON value: texts quoted, lists in brackets, members of objects as
`name: value` in braces, and the words `None`, `True` and `False`.
-/

namespace SymbolAtlas.Json

mutual

/-- The value as a message shows it. -/
def shown : Json → Text
  | null => "None"
  | bool b => if b then "True" else "False"
  | int i => Text.ofInt i
  | float x => x.text
  | text t => t.quoted
  | list items => Text.ofString "[" ++ shownItems items ++ Text.ofString "]"
  | object members => Text.ofString "\x7b" ++ shownMembers members ++ Text.ofString "\x7d"

/-- The items of a list, with commas between them. -/
def shownItems : List Json → Text
  | [] => []
  | [v] => v.shown
  | v :: vs => v.shown ++ Text.ofString ", " ++ shownItems vs

/-- The members of an object, with commas between them. -/
def shownMembers : List (Text × Json) → Text
  | [] => []
  | [(n, v)] => n.quoted ++ Text.ofString ": " ++ v.shown
  | (n, v) :: ms =>
    n.quoted ++ Text.ofString ": " ++ v.shown ++ Text.ofString ", " ++ shownMembers ms

end

/-- The value as a text: a text is itself, any other value is as a message shows it. -/
def asText : Json → Text
  | text t => t
  | v => v.shown

end SymbolAtlas.Json
