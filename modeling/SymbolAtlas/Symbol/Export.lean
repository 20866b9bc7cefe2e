import SymbolAtlas.Symbol.Basic

/-!
# Exports and variable declarations

What an export statement exports, and which declarator a variable declaration is known by.
-/

namespace SymbolAtlas

namespace Node

mutual

/-- The first variable declarator strictly inside a node, in depth-first order through named
children. -/
def firstDeclarator? : Node → Option Node
  | mk _ _ _ cs _ _ => firstDeclaratorIn? cs

/-- The first variable declarator among some nodes and inside them. -/
def firstDeclaratorIn? : List Node → Option Node
  | [] => none
  | c :: cs =>
    if c.isNamed then
      if c.type = .variableDeclarator then some c
      else match firstDeclarator? c with
        | some d => some d
        | none => firstDeclaratorIn? cs
    else firstDeclaratorIn? cs

end

end Node

/-- The name of a variable declarator. -/
def Source.declaratorName? (src : Source) (declarator : Node) : Option Text :=
  (declarator.child? .name).bind src.nameText?

/-- What an export statement exports. -/
structure Exported where
  kind : SymbolKind
  name : Text
  declaration : Node

/-- The function, class or variable that an export statement declares. -/
def Source.exported? (src : Source) (export_ : Node) : Option Exported :=
  (export_.child? .declaration).bind fun d =>
    let found : Option (SymbolKind × Option Node) :=
      if d.type.isFunction then some (.function, d.child? .name)
      else if d.type.isClass then some (.class_, d.child? .name)
      else if d.type.isVariableDeclaration then
        some (.variable_, d.firstDeclarator?.bind (·.child? .name))
      else none
    match found with
    | some (kind, some nameNode) => (src.nameText? nameNode).map fun name => ⟨kind, name, d⟩
    | _ => none

end SymbolAtlas
