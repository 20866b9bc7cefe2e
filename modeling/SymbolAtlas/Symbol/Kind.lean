import SymbolAtlas.Json.Shown
import SymbolAtlas.Text.Lowercase

/-!
# Kinds of symbols

The eight kinds under which symbols are listed and asked for. A request names a kind in any case
and with blanks around it (`SymbolKind.ofValue?`); `ofText?_name` says that every kind is found by
its own name.
-/

namespace SymbolAtlas

/-- The kind of a symbol. -/
inductive SymbolKind where
  | function
  | class_
  | variable_
  | method
  | export_
  | constructor
  | property
  | struct
deriving DecidableEq

namespace SymbolKind

/-- Every kind, in the order in which messages name them. -/
def all : List SymbolKind :=
  [function, class_, variable_, method, export_, constructor, property, struct]

def name : SymbolKind → Text
  | function => "function"
  | class_ => "class"
  | variable_ => "variable"
  | method => "method"
  | export_ => "export"
  | constructor => "constructor"
  | property => "property"
  | struct => "struct"

def ofText? (t : Text) : Option SymbolKind := all.find? fun k => k.name = t

theorem ofText?_name (k : SymbolKind) : ofText? k.name = some k := by
  cases k <;> decide

def ofValue? (v : Json) : Option SymbolKind := ofText? v.asText.trim.lower

/-- Kinds that live inside a class body and may have a parent class. -/
def isMember : SymbolKind → Bool
  | method | constructor | property => true
  | _ => false

end SymbolKind

end SymbolAtlas
