import SymbolAtlas.Text.Lowercase

/-!
# Grammars

The grammars that sources are parsed with, the conventions of their languages that edits rely on,
and the file extensions that choose them.
-/

namespace SymbolAtlas

/-- A grammar for source files. -/
inductive Grammar where
  | javascript
  | typescript
  | tsx
  | python
  | c
  | cpp
deriving DecidableEq

namespace Grammar

def all : List Grammar := [javascript, typescript, tsx, python, c, cpp]

def name : Grammar → Text
  | javascript => "javascript"
  | typescript => "typescript"
  | tsx => "tsx"
  | python => "python"
  | c => "c"
  | cpp => "cpp"

def ofName? (t : Text) : Option Grammar := all.find? fun g => g.name = t

/-- The name that every constructor bears; `none` where constructors are named after their class. -/
def constructorName? : Grammar → Option Text
  | javascript | typescript | tsx => some "constructor"
  | python => some "__init__"
  | c | cpp => none

/-- The name of the constructor of a class. -/
def constructorOf? (g : Grammar) (className : Option Text) : Option Text :=
  g.constructorName?.or className

/-- One level of indentation. -/
def indentUnit : Grammar → Text
  | python => "    "
  | _ => "  "

/-- Whether class bodies stand in braces. -/
def usesBraces : Grammar → Bool
  | python => false
  | _ => true

/-- Grammars of the JavaScript family, whose functions have headers that start with a keyword. -/
def hasFunctionHeaders : Grammar → Bool
  | javascript | typescript | tsx => true
  | _ => false

/-- The supported file extensions with their grammars, in the order in which messages name them. -/
def extensions : List (Text × Grammar) :=
  [(".js", javascript), (".jsx", javascript), (".ts", typescript), (".tsx", tsx), (".py", python),
   (".c", c), (".h", c), (".cpp", cpp), (".hpp", cpp), (".cxx", cpp), (".hxx", cpp)]

/-- The grammar for a file extension, in any case. -/
def ofExtension? (extension : Text) : Option Grammar :=
  (extensions.find? fun e => e.1 = extension.lower).map (·.2)

/-- The supported extensions as messages list them. -/
def supported : Text := List.intercalate (Text.ofString ", ") (extensions.map (·.1))

end Grammar

end SymbolAtlas
