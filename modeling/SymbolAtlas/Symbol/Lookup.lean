import SymbolAtlas.Report
import SymbolAtlas.Symbol.Export

/-!
# Locating one symbol

`Source.locate` finds the first top-level symbol with a name and kind, `Source.locateInClass` the
first such member of one class. A located symbol comes with its range and text and, when an export
statement or a decorator stands directly around it, with the range of that wrapper.

Top-level declarations are found through decorators, preprocessor blocks and templates
(`Node.topLevel`). Inside a class the search passes over nested classes and does not enter the
members it meets (`Source.memberIn?`). As in listing, both go as deep as the tree, and the bound
that a host sets to nested calls is left out.
-/

namespace SymbolAtlas

/-- What can stand around a declaration and be edited together with it. -/
inductive Wrapper where
  | exported
  | decorated
deriving DecidableEq

namespace Wrapper

def ofType? : NodeType → Option Wrapper
  | .exportStatement => some exported
  | .decoratedDefinition => some decorated
  | _ => none

/-- What the text of a wrapper starts with. -/
def opening : Wrapper → Text
  | exported => "export"
  | decorated => "@"

end Wrapper

/-- A symbol with the place that it occupies. -/
structure Located where
  symbol : Symbol
  range : SourceRange
  text : Text
  spot : Spot
  wrapper : Option (Wrapper × SourceRange)

namespace Node

mutual

/-- The declarations that a node stands for at the top level: itself, or for a decorator, a
preprocessor block or a template the declarations inside. -/
def topLevelOf (above : List Node) : Node → List Spot
  | .mk t s e cs rs named =>
    let n : Node := .mk t s e cs rs named
    if t = .decoratedDefinition then
      match indexOf? rs .definition with
      | some i => topLevelAt (n :: above) cs i
      | none => []
    else if t.isTransparentBlock then topLevel (n :: above) cs
    else [⟨n, above⟩]

/-- The declarations that some nodes stand for. -/
def topLevel (above : List Node) : List Node → List Spot
  | [] => []
  | c :: cs => topLevelOf above c ++ topLevel above cs

/-- The declarations that the node at an index of a list stands for. -/
def topLevelAt (above : List Node) : List Node → Nat → List Spot
  | [], _ => []
  | c :: _, 0 => topLevelOf above c
  | _ :: cs, i + 1 => topLevelAt above cs i

end

end Node

namespace Source

variable (src : Source)

/-- The top-level declarations of the source. -/
def topLevel : List Spot := Node.topLevel [src.root] src.root.children

/-- The place of a node, under a symbol. -/
def place (s : Spot) (symbol : Symbol) : Except Failure Located := do
  let range ← src.rangeOf s.node
  let wrapper ← match s.parent? with
    | none => pure none
    | some p => match Wrapper.ofType? p.type with
      | none => pure none
      | some w => do
        let r ← src.rangeOf p
        pure (some (w, r))
  pure ⟨symbol, range, src.textOf s.node, s, wrapper⟩

/-! ## At the top level -/

/-- A declarator of a name directly under a variable declaration, and whether it is the first one
there. -/
def declaratorNamed? (n : Node) (name : Text) : Option (Node × Bool) :=
  match n.namedChildren.filter fun c => c.type = .variableDeclarator with
  | [] => none
  | first :: later =>
    if src.declaratorName? first = some name then some (first, true)
    else (later.find? fun d => src.declaratorName? d = some name).map fun d => (d, false)

/-- A variable of a name in a declaration. The first declarator takes the whole declaration, whose
signature and line are those of `shown` if that is given; a later one is located on its own. -/
def variableIn (s : Spot) (name : Text) (shown : Option Node) : Except Failure (Option Located) :=
  match src.declaratorNamed? s.node name with
  | none => pure none
  | some (d, true) =>
    let own := Symbol.ofNode src d name .variable_ none
    some <$> src.place s (match shown with
      | some n => { own with signature := src.signatureOf n, line := src.lineOf n }
      | none => own)
  | some (d, false) => some <$> src.place (s.under d) (Symbol.ofNode src d name .variable_ none)

/-- The symbol of a name and kind that an export statement exports. -/
def locateExported (s : Spot) (name : Text) (kind : SymbolKind) : Except Failure (Option Located) :=
  match src.exported? s.node with
  | none => pure none
  | some x =>
    if kind = .export_ then
      if x.name = name then some <$> src.place s (Symbol.ofNode src s.node name kind none)
      else pure none
    else if x.kind ≠ kind then pure none
    else if kind = .variable_ then src.variableIn (s.under x.declaration) name (some s.node)
    else if x.name = name then
      some <$> src.place (s.under x.declaration) (Symbol.ofNode src s.node name kind none)
    else pure none

/-- The symbol of a name and kind that a top-level declaration introduces. -/
def locateAt (s : Spot) (name : Text) (kind : SymbolKind) : Except Failure (Option Located) :=
  if s.node.type = .exportStatement then src.locateExported s name kind
  else if !s.node.type.declares kind then pure none
  else if kind = .variable_ then src.variableIn s name none
  else if src.nameOf? s.node = some name then
    some <$> src.place s (Symbol.ofNode src s.node name kind none)
  else pure none

/-- The first answer over some places. -/
def firstOver (find : Spot → Except Failure (Option Located)) :
    List Spot → Except Failure (Option Located)
  | [] => .ok none
  | s :: ss =>
    match find s with
    | .error e => .error e
    | .ok (some l) => .ok (some l)
    | .ok none => firstOver find ss

/-! ## Inside a class -/

/-- The names under which a member is found: its own and, for a constructor, the one that the
grammar gives to the constructors of the class. -/
def wantedNames (name : Text) (kind : SymbolKind) (className : Option Text) : List Text :=
  if kind = .constructor then
    match src.grammar.constructorOf? className with
    | some (c :: cs) => [name, c :: cs]
    | _ => [name]
  else [name]

/-- Whether a node is the member looked for. -/
def isWanted (wanted : List Text) (kind : SymbolKind) (n : Node) : Bool :=
  n.type.isMemberOfKind kind && match src.nameOf? n with
    | some name => wanted.contains name
    | none => false

mutual

/-- The first wanted member strictly inside a node. -/
def memberIn? (wanted : List Text) (kind : SymbolKind) (above : List Node) : Node → Option Spot
  | .mk t s e cs rs named => memberAmong? wanted kind (.mk t s e cs rs named :: above) cs

/-- The first wanted member among some nodes and inside them, nested classes and the insides of
members left out. -/
def memberAmong? (wanted : List Text) (kind : SymbolKind) (above : List Node) :
    List Node → Option Spot
  | [] => none
  | c :: cs =>
    if c.type.isClass then memberAmong? wanted kind above cs
    else if src.isWanted wanted kind c then some ⟨c, above⟩
    else if c.type.isMember then memberAmong? wanted kind above cs
    else match memberIn? wanted kind above c with
      | some s => some s
      | none => memberAmong? wanted kind above cs

end

/-- The first member of a class with a name and kind. The class goes by `className`, or by its own
name if none is given. -/
def locateInClass (class_ : Spot) (name : Text) (kind : SymbolKind) (className : Option Text) :
    Except Failure (Option Located) :=
  let className := className.or (src.nameOf? class_.node)
  match src.memberIn? (src.wantedNames name kind className) kind class_.above class_.node with
  | none => .ok none
  | some s =>
    some <$> src.place s (Symbol.ofNode src s.node ((src.nameOf? s.node).getD []) kind className)

/-- The class that a top-level declaration introduces or exports. -/
def classAt? (s : Spot) : Option Spot :=
  if s.node.type = .exportStatement then
    match s.child? .declaration with
    | some d => if d.node.type.isClass then some d else none
    | none => none
  else if s.node.type.isClass then some s
  else none

/-- The top-level classes, exported or not. -/
def classes : List Spot := src.topLevel.filterMap classAt?

/-! ## Anywhere -/

/-- The first symbol with a name and kind: a top-level declaration, or for the kinds of members a
member of a top-level class. -/
def locate (name : Text) (kind : SymbolKind) : Except Failure (Option Located) :=
  if kind.isMember then firstOver (fun c => src.locateInClass c name kind none) src.classes
  else firstOver (fun s => src.locateAt s name kind) src.topLevel

/-- Locates a symbol and logs what was found at the top level. -/
def reportLocate (name : Text) (kind : SymbolKind) : Report (Option Located) :=
  match src.locate name kind with
  | .ok (some l) =>
    if kind.isMember then ⟨[], .ok (some l)⟩
    else
      ⟨[⟨.debug, Text.concat ["Located ", kind.name, " '", name, "' at line ",
        Text.ofNat l.symbol.line]⟩], .ok (some l)⟩
  | r => ⟨[], r⟩

end Source

end SymbolAtlas
