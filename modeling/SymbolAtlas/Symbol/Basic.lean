import SymbolAtlas.Tree.Source

/-!
# Symbols

A symbol is a named declaration of a source: its name and kind, its signature (the first line of its
text), the line on which it is declared, and for a member the class that it belongs to.
-/

namespace SymbolAtlas

/-- A named declaration. -/
structure Symbol where
  name : Text
  kind : SymbolKind
  signature : Text
  line : Nat
  parentClass : Option Text
deriving DecidableEq

namespace Symbol

/-- The symbol that the node `n` declares under a name and kind. -/
def ofNode (src : Source) (n : Node) (name : Text) (kind : SymbolKind)
    (parentClass : Option Text) : Symbol :=
  ⟨name, kind, src.signatureOf n, src.lineOf n, parentClass⟩

/-- The symbol as a JSON object; a parent class is named only if it has a name. -/
def toJson (s : Symbol) : Json :=
  .object ([(Text.ofString "name", .text s.name), (Text.ofString "kind", .text s.kind.name),
    (Text.ofString "signature", .text s.signature), (Text.ofString "line", .int s.line)] ++
    match s.parentClass with
    | some (c :: cs) => [(Text.ofString "parent_class", .text (c :: cs))]
    | _ => [])

end Symbol

end SymbolAtlas
