import SymbolAtlas.Symbol.Listing
import SymbolAtlas.Symbol.Lookup

/-!
# The listing by top-level declarations

`Source.listing` walks the tree once, with a depth and a class; `Source.topLevel` goes through the
same decorators, preprocessor blocks and templates and stops. Below the top level the walk lists
nothing but methods of the class that it is in (`isMethodOf_of_mem_listNode`), so the listing is
made of what each top-level declaration lists (`listing_eq_flatMap`): an export statement its
export, a variable declaration its first declarator, and anything else itself and then methods.
-/

namespace SymbolAtlas

namespace NodeType

/-- Types of nodes that the walk and the search look through. -/
def isTransparent (type : NodeType) : Bool :=
  type = .decoratedDefinition || type.isTransparentBlock

/-- Types that a tree can have at its root: not looked through, and with no entry of their own that
would stand for the tree below. -/
def isRoot (type : NodeType) : Bool :=
  !type.isTransparent && type ≠ .exportStatement && !type.isVariableDeclaration

theorem isTransparent_eq_false_iff {type : NodeType} : type.isTransparent = false ↔
    type ≠ .decoratedDefinition ∧ type.isTransparentBlock = false := by
  simp [isTransparent]

theorem isRoot_iff {type : NodeType} : type.isRoot = true ↔
    (type ≠ .decoratedDefinition ∧ type.isTransparentBlock = false) ∧
      type ≠ .exportStatement ∧ type.isVariableDeclaration = false := by
  simp [isRoot, isTransparent, and_assoc]

end NodeType

/-- An entry of a method of the class `owner`. -/
structure Listed.IsMethodOf (owner : Option Text) (e : Listed) : Prop where
  kind : e.symbol.kind = .method
  parentClass : e.symbol.parentClass = owner
  isSome : owner.isSome = true

namespace Source

variable (src : Source) {above : List Node} {depth : Nat} {owner : Option Text}

theorem mem_listDeclaration {n : Node} {kind : SymbolKind} {e : Listed} :
    e ∈ src.listDeclaration above n kind owner ↔ ∃ name, src.nameOf? n = some name ∧
      e = ⟨Symbol.ofNode src n name kind owner, n, above, .declaration⟩ := by
  unfold listDeclaration
  cases src.nameOf? n <;> simp

/-! ## Below the top level -/

mutual

/-- Below the top level only methods of the class around them are listed. -/
theorem isMethodOf_of_mem_listNode : ∀ {n : Node} {above : List Node} {depth : Nat}
    {owner : Option Text}, 2 ≤ depth → ∀ e ∈ src.listNode above depth owner n, e.IsMethodOf owner
  | .mk t b stop cs rs named, above, depth, owner, hdepth, e, he => by
    have htop : depth ≠ 1 := by omega
    have hdeeper : 2 ≤ depth + 1 := by omega
    simp only [listNode, if_neg htop] at he
    split at he
    · split at he
      · exact isMethodOf_of_mem_listNodeAt hdepth e he
      · simp at he
    split at he
    · exact isMethodOf_of_mem_listNodes hdepth e he
    split at he
    · exact isMethodOf_of_mem_listNodes hdeeper e he
    split at he
    · simp at he
    split at he
    · simp at he
    split at he
    · next hmethod =>
      obtain ⟨name, -, rfl⟩ := src.mem_listDeclaration.mp he
      exact ⟨rfl, rfl, hmethod.1⟩
    · -- A class that is not listed takes the class around it out of sight.
      have hinside := isMethodOf_of_mem_listNodes hdeeper e he
      split at hinside
      · exact absurd hinside.isSome (by simp)
      · exact hinside

theorem isMethodOf_of_mem_listNodes : ∀ {cs above : List Node} {depth : Nat}
    {owner : Option Text}, 2 ≤ depth → ∀ e ∈ src.listNodes above depth owner cs, e.IsMethodOf owner
  | [], _, _, _, _, e, he => by simp [listNodes] at he
  | c :: cs, _, _, _, hdepth, e, he => by
    rw [listNodes, List.mem_append] at he
    rcases he with he | he
    · exact isMethodOf_of_mem_listNode hdepth e he
    · exact isMethodOf_of_mem_listNodes hdepth e he

theorem isMethodOf_of_mem_listNodeAt : ∀ {cs above : List Node} {depth : Nat}
    {owner : Option Text} {i : Nat}, 2 ≤ depth →
    ∀ e ∈ src.listNodeAt above depth owner cs i, e.IsMethodOf owner
  | [], _, _, _, _, _, e, he => by simp [listNodeAt] at he
  | c :: cs, _, _, _, 0, hdepth, e, he => by
    rw [listNodeAt] at he
    exact isMethodOf_of_mem_listNode hdepth e he
  | c :: cs, _, _, _, i + 1, hdepth, e, he => by
    rw [listNodeAt] at he
    exact isMethodOf_of_mem_listNodeAt hdepth e he

end

/-- Outside of every class nothing is listed below the top level. -/
theorem listNodes_none (hdepth : 2 ≤ depth) (cs : List Node) :
    src.listNodes above depth none cs = [] := by
  rw [List.eq_nil_iff_forall_not_mem]
  intro e he
  simpa using (src.isMethodOf_of_mem_listNodes hdepth e he).isSome

/-! ## At the top level -/

/-- What a top-level declaration adds to the listing. -/
def entriesAt (s : Spot) : List Listed := src.listNode s.above 1 none s.node

mutual

/-- The walk lists what it is looked through to, at the depth and in the class of the node. -/
theorem listNode_eq_flatMap : ∀ (n : Node) (above : List Node) (depth : Nat) (owner : Option Text),
    src.listNode above depth owner n =
      (Node.topLevelOf above n).flatMap fun s => src.listNode s.above depth owner s.node
  | .mk t b stop cs rs named, above, depth, owner => by
    by_cases hdecorated : t = .decoratedDefinition
    · simp only [listNode, Node.topLevelOf, if_pos hdecorated]
      cases Node.indexOf? rs .definition with
      | none => rfl
      | some i => exact listNodeAt_eq_flatMap cs _ i depth owner
    by_cases hblock : t.isTransparentBlock
    · simp only [listNode, Node.topLevelOf, if_neg hdecorated, if_pos hblock]
      exact listNodes_eq_flatMap cs _ depth owner
    · simp [Node.topLevelOf, hdecorated, hblock]

theorem listNodes_eq_flatMap : ∀ (cs above : List Node) (depth : Nat) (owner : Option Text),
    src.listNodes above depth owner cs =
      (Node.topLevel above cs).flatMap fun s => src.listNode s.above depth owner s.node
  | [], _, _, _ => rfl
  | c :: cs, above, depth, owner => by
    rw [listNodes, Node.topLevel, List.flatMap_append, listNode_eq_flatMap c above,
      listNodes_eq_flatMap cs above]

theorem listNodeAt_eq_flatMap : ∀ (cs above : List Node) (i depth : Nat) (owner : Option Text),
    src.listNodeAt above depth owner cs i =
      (Node.topLevelAt above cs i).flatMap fun s => src.listNode s.above depth owner s.node
  | [], _, _, _, _ => rfl
  | c :: _, above, 0, depth, owner => listNode_eq_flatMap c above depth owner
  | _ :: cs, above, i + 1, depth, owner => listNodeAt_eq_flatMap cs above i depth owner

end

mutual

/-- The top-level declarations are what lies behind everything that is looked through. -/
theorem not_transparent_of_mem_topLevelOf : ∀ {n : Node} {above : List Node},
    ∀ s ∈ Node.topLevelOf above n, s.node.type.isTransparent = false
  | .mk t b stop cs rs named, above, s, hs => by
    simp only [Node.topLevelOf] at hs
    split at hs
    · cases hi : Node.indexOf? rs .definition with
      | none => simp [hi] at hs
      | some i =>
        rw [hi] at hs
        exact not_transparent_of_mem_topLevelAt s hs
    · next hdecorated =>
      split at hs
      · exact not_transparent_of_mem_topLevel s hs
      · next hblock =>
        obtain rfl := List.mem_singleton.mp hs
        simp [Node.type, NodeType.isTransparent, hdecorated, hblock]

theorem not_transparent_of_mem_topLevel : ∀ {cs above : List Node},
    ∀ s ∈ Node.topLevel above cs, s.node.type.isTransparent = false
  | [], _, s, hs => by simp [Node.topLevel] at hs
  | c :: cs, _, s, hs => by
    rw [Node.topLevel, List.mem_append] at hs
    rcases hs with hs | hs
    · exact not_transparent_of_mem_topLevelOf s hs
    · exact not_transparent_of_mem_topLevel s hs

theorem not_transparent_of_mem_topLevelAt : ∀ {cs : List Node} {above : List Node} {i : Nat},
    ∀ s ∈ Node.topLevelAt above cs i, s.node.type.isTransparent = false
  | [], _, _, s, hs => by simp [Node.topLevelAt] at hs
  | c :: cs, _, 0, s, hs => by
    rw [Node.topLevelAt] at hs
    exact not_transparent_of_mem_topLevelOf s hs
  | c :: cs, _, i + 1, s, hs => by
    rw [Node.topLevelAt] at hs
    exact not_transparent_of_mem_topLevelAt s hs

end

/-- A root that is not looked through lists nothing itself. It hides what is below it if it is an
export statement or a variable declaration. -/
theorem listNode_root {n : Node} (above : List Node) (h : n.type.isTransparent = false) :
    src.listNode above 0 none n =
      if n.type = .exportStatement ∨ n.type.isVariableDeclaration = true then []
      else src.listNodes (n :: above) 1 none n.children := by
  obtain ⟨t, b, stop, cs, rs, named⟩ := n
  rw [NodeType.isTransparent_eq_false_iff] at h
  simp only [Node.type] at h
  simp only [listNode, if_neg h.1, h.2, Bool.false_eq_true, if_false, Node.children, Node.type]
  by_cases hexport : t = .exportStatement
  · subst hexport
    simp [NodeType.kind?]
  by_cases hvariable : t.isVariableDeclaration = true
  · cases t <;> simp [NodeType.isVariableDeclaration] at hvariable <;>
      simp [NodeType.kind?, NodeType.isVariableDeclaration]
  · cases t.kind? <;> simp [hexport, hvariable]

/-- Below a root that is not looked through, the listing is made of what the top-level declarations
add to it. -/
theorem listing_eq_flatMap (hroot : src.root.type.isRoot = true) :
    src.listing = src.topLevel.flatMap src.entriesAt := by
  rw [NodeType.isRoot_iff, ← NodeType.isTransparent_eq_false_iff] at hroot
  obtain ⟨htransparent, hexport, hvariable⟩ := hroot
  rw [listing, listNode_root src [] htransparent, if_neg (by simp [hexport, hvariable]),
    listNodes_eq_flatMap]
  rfl

/-! ## One declaration -/

theorem entriesAt_export {s : Spot} (h : s.node.type = .exportStatement) :
    src.entriesAt s = src.listExport s.above s.node := by
  obtain ⟨⟨t, b, stop, cs, rs, named⟩, above⟩ := s
  obtain rfl : t = .exportStatement := h
  simp [entriesAt, listNode, NodeType.isTransparentBlock, NodeType.kind?]

theorem entriesAt_variable {s : Spot} (h : s.node.type.isVariableDeclaration = true) :
    src.entriesAt s = src.listVariable s.above s.node := by
  obtain ⟨⟨t, b, stop, cs, rs, named⟩, above⟩ := s
  have ht : t = .lexicalDeclaration ∨ t = .variableDeclaration := by
    cases t <;> simp_all [Node.type, NodeType.isVariableDeclaration]
  rcases ht with rfl | rfl <;>
    simp [entriesAt, listNode, NodeType.isTransparentBlock, NodeType.kind?,
      NodeType.isVariableDeclaration]

/-- The entry of a top-level declaration under its own name. -/
def ownEntryAt (s : Spot) : List Listed :=
  match s.node.type.kind? with
  | none => []
  | some kind => src.listDeclaration s.above s.node kind none

/-- The entries of the methods of a top-level class that has a name. -/
def methodsAt (s : Spot) : List Listed :=
  match s.node.type.kind?, src.nameOf? s.node with
  | some .class_, some name =>
    src.listNodes (s.node :: s.above) 2 (some name) s.node.children
  | _, _ => []

theorem mem_ownEntryAt {s : Spot} {e : Listed} : e ∈ src.ownEntryAt s ↔
    ∃ kind name, s.node.type.kind? = some kind ∧ src.nameOf? s.node = some name ∧
      e = ⟨Symbol.ofNode src s.node name kind none, s.node, s.above, .declaration⟩ := by
  unfold ownEntryAt
  cases s.node.type.kind? <;> simp [mem_listDeclaration]

theorem kind_of_mem_methodsAt {s : Spot} {e : Listed} (h : e ∈ src.methodsAt s) :
    e.symbol.kind = .method := by
  unfold methodsAt at h
  split at h
  · exact (src.isMethodOf_of_mem_listNodes (by omega) e h).kind
  · simp at h

/-- A declaration that is neither exported nor one of variables is listed with its methods. -/
theorem entriesAt_declaration {s : Spot} (h : s.node.type.isTransparent = false)
    (hexport : s.node.type ≠ .exportStatement)
    (hvariable : s.node.type.isVariableDeclaration = false) :
    src.entriesAt s = src.ownEntryAt s ++ src.methodsAt s := by
  obtain ⟨⟨t, b, stop, cs, rs, named⟩, above⟩ := s
  rw [NodeType.isTransparent_eq_false_iff] at h
  simp only [Node.type] at h hexport hvariable
  have hbelow : ∀ n : Node, src.listNodes (n :: above) 2 none cs = [] :=
    fun n => src.listNodes_none (by omega) cs
  simp only [entriesAt, ownEntryAt, methodsAt, listNode, Node.type, Node.children, if_neg h.1, h.2,
    if_neg hexport, hvariable]
  cases hkind : t.kind? with
  | none => simp [hbelow]
  | some kind =>
    simp only [listDeclaration]
    cases hname : src.nameOf? (.mk t b stop cs rs named) with
    | none => cases kind <;> simp [hbelow]
    | some name => cases kind <;> simp [hbelow, Symbol.ofNode]

/-- An entry of a top-level declaration is that of an export or a declarator, or its own, or that of
a method. -/
theorem cases_of_mem_entriesAt {s : Spot} (h : s.node.type.isTransparent = false) {e : Listed}
    (he : e ∈ src.entriesAt s) :
    (e.origin ≠ .declaration ∧ e.symbol.parentClass = none) ∨
    (src.entriesAt s = src.ownEntryAt s ++ src.methodsAt s ∧
      (e ∈ src.ownEntryAt s ∨ e ∈ src.methodsAt s)) := by
  by_cases hexport : s.node.type = .exportStatement
  · rw [entriesAt_export src hexport, listExport] at he
    split at he
    · obtain rfl := List.mem_singleton.mp he
      exact .inl ⟨by simp, rfl⟩
    · simp at he
  by_cases hvariable : s.node.type.isVariableDeclaration = true
  · rw [entriesAt_variable src hvariable, listVariable] at he
    split at he
    · simp at he
    split at he
    · obtain rfl := List.mem_singleton.mp he
      exact .inl ⟨by simp, rfl⟩
    · simp at he
  rw [Bool.not_eq_true] at hvariable
  have heq := src.entriesAt_declaration h hexport hvariable
  rw [heq] at he
  exact .inr ⟨heq, List.mem_append.mp he⟩

end Source

end SymbolAtlas
