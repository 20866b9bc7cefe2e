import SymbolAtlas.Report
import SymbolAtlas.Symbol.Export

/-!
# Listing symbols

`Source.listing` lists the symbols of a source in source order: the declarations at the top level
and the methods of the classes among them. Decorators, preprocessor blocks and templates are looked
through, and an export statement counts as the declaration that it exports. Each entry keeps the
place of the node that it was recorded from.

The walk goes as deep as the tree. That calls may nest only so deep on a host is left out here: on
trees of about a thousand levels the walk would stop there with a failure of its own.
-/

namespace SymbolAtlas

/-- How a listed symbol was met. -/
inductive Origin where
  | declaration
  | exportStatement
  | declarator
deriving DecidableEq

/-- A listed symbol with the node that it was recorded from. -/
structure Listed where
  symbol : Symbol
  node : Node
  above : List Node
  origin : Origin

namespace Source

variable (src : Source)

/-- The entry of an export statement. -/
def listExport (above : List Node) (n : Node) : List Listed :=
  match src.exported? n with
  | some x => [⟨Symbol.ofNode src n x.name x.kind none, n, above, .exportStatement⟩]
  | none => []

/-- The entry of a variable declaration, recorded from its first declarator. -/
def listVariable (above : List Node) (n : Node) : List Listed :=
  match n.firstDeclarator? with
  | none => []
  | some d =>
    match src.declaratorName? d with
    | some name => [⟨Symbol.ofNode src d name .variable_ none, d, n :: above, .declarator⟩]
    | none => []

/-- The entry of a declaration under its own name. -/
def listDeclaration (above : List Node) (n : Node) (kind : SymbolKind) (owner : Option Text) :
    List Listed :=
  match src.nameOf? n with
  | some name => [⟨Symbol.ofNode src n name kind owner, n, above, .declaration⟩]
  | none => []

mutual

/-- The entries of a node at a depth below the root, inside the class `owner` if one is being
listed. -/
def listNode (above : List Node) (depth : Nat) (owner : Option Text) : Node → List Listed
  | .mk t s e cs rs named =>
    let n : Node := .mk t s e cs rs named
    if t = .decoratedDefinition then
      match Node.indexOf? rs .definition with
      | some i => listNodeAt (n :: above) depth owner cs i
      | none => []
    else if t.isTransparentBlock then listNodes (n :: above) depth owner cs
    else match t.kind? with
      | none => listNodes (n :: above) (depth + 1) owner cs
      | some kind =>
        if t = .exportStatement then (if depth = 1 then src.listExport above n else [])
        else if t.isVariableDeclaration then (if depth = 1 then src.listVariable above n else [])
        else if owner.isSome ∧ (t = .methodDefinition ∨ kind = .function) then
          src.listDeclaration above n .method owner
        else if depth = 1 then
          let entries := src.listDeclaration above n kind none
          match kind, entries with
          | .class_, [entry] =>
            entry :: listNodes (n :: above) (depth + 1) (some entry.symbol.name) cs
          | _, _ => entries ++ listNodes (n :: above) (depth + 1) owner cs
        else
          listNodes (n :: above) (depth + 1) (if kind = .class_ then none else owner) cs

/-- The entries of some nodes, one after the other. -/
def listNodes (above : List Node) (depth : Nat) (owner : Option Text) : List Node → List Listed
  | [] => []
  | c :: cs => listNode above depth owner c ++ listNodes above depth owner cs

/-- The entries of the node at an index of a list. -/
def listNodeAt (above : List Node) (depth : Nat) (owner : Option Text) :
    List Node → Nat → List Listed
  | [], _ => []
  | c :: _, 0 => listNode above depth owner c
  | _ :: cs, i + 1 => listNodeAt above depth owner cs i

end

/-- The symbols of the source with the nodes they were recorded from. -/
def listing : List Listed := src.listNode [] 0 none src.root

def symbols : List Symbol := src.listing.map (·.symbol)

/-- What the log says about an entry: declarations under their own name are announced. -/
def announcement (entry : Listed) : List LogEntry :=
  match entry.origin with
  | .declaration =>
    match entry.symbol.parentClass with
    | some owner =>
      [⟨.debug, Text.concat ["Found method: ", owner, ".", entry.symbol.name]⟩]
    | none =>
      [⟨.debug, Text.concat ["Found ", entry.symbol.kind.name, ": ", entry.symbol.name]⟩]
  | _ => []

/-- Lists the symbols and logs what was found. -/
def reportSymbols : Report (List Symbol) := ⟨src.listing.flatMap announcement, .ok src.symbols⟩

end Source

end SymbolAtlas
