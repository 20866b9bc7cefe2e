import SymbolAtlas.Tree.NodeType

/-!
# Syntax trees

A node has a type, a range of byte offsets into its source, children in source order, and roles: the
names under which some of the children can be asked for. A `Spot` is a node together with the nodes
around it, nearest first, so that a declaration found inside a tree still knows its wrapper.
-/

namespace SymbolAtlas

/-- The roles that name resolution and unwrapping ask for. -/
inductive Role where
  | name
  | property
  | left
  | declarator
  | declaration
  | definition
deriving DecidableEq

namespace Role

/-- The words for the roles. -/
def named : List (Text × Role) :=
  [("name", name), ("property", property), ("left", left), ("declarator", declarator),
   ("declaration", declaration), ("definition", definition)]

def ofText? (t : Text) : Option Role := (named.find? fun e => e.1 = t).map (·.2)

end Role

/-- A node of a syntax tree. -/
inductive Node where
  | mk (type : NodeType) (start stop : Int) (children : List Node) (roles : List (Role × Nat))
      (isNamed : Bool)

namespace Node

instance : Inhabited Node := ⟨mk (.other []) 0 0 [] [] true⟩

def type : Node → NodeType
  | mk t _ _ _ _ _ => t

def start : Node → Int
  | mk _ s _ _ _ _ => s

def stop : Node → Int
  | mk _ _ s _ _ _ => s

def children : Node → List Node
  | mk _ _ _ cs _ _ => cs

def roles : Node → List (Role × Nat)
  | mk _ _ _ _ rs _ => rs

/-- Whether the node stands for a named rule of the grammar rather than for a token. -/
def isNamed : Node → Bool
  | mk _ _ _ _ _ n => n

/-- The index of the child that fills a role. -/
def indexOf? (roles : List (Role × Nat)) (role : Role) : Option Nat :=
  (roles.find? fun r => r.1 = role).map (·.2)

def child? (n : Node) (role : Role) : Option Node :=
  (indexOf? n.roles role).bind (n.children[·]?)

def namedChildren (n : Node) : List Node := n.children.filter isNamed

mutual

/-- The innermost declarator: the node reached by following the role as far as it goes. -/
def innermostDeclarator : Node → Node
  | mk t s e cs rs n =>
    match indexOf? rs .declarator with
    | none => mk t s e cs rs n
    | some i => (innermostDeclaratorAt cs i).getD (mk t s e cs rs n)

/-- The innermost declarator of the node at an index of a list. -/
def innermostDeclaratorAt : List Node → Nat → Option Node
  | [], _ => none
  | c :: _, 0 => some (innermostDeclarator c)
  | _ :: cs, i + 1 => innermostDeclaratorAt cs i

end

end Node

/-- A node with the nodes around it, nearest first. -/
structure Spot where
  node : Node
  above : List Node

namespace Spot

def under (s : Spot) (child : Node) : Spot := ⟨child, s.node :: s.above⟩

def child? (s : Spot) (role : Role) : Option Spot := (s.node.child? role).map s.under

def parent? (s : Spot) : Option Node := s.above.head?

end Spot

end SymbolAtlas
