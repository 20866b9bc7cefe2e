import SymbolAtlas.Proofs.Symbol.FirstListed
import SymbolAtlas.Proofs.Tree.Places

/-!
# Places in a class that are listed and places that are searched

The walk of the listing and the search for a member both go over the places inside a class, each
taking some steps and not others (`Step.isWalked`, `Step.isSearched`). What the walk lists below a
class are the places that it comes to with the type of a method or function
(`Source.listNodes_eq_places`); what the search finds is the first place that it comes to with the
type and the name that are looked for (`Source.memberAmong?_eq_find?`).
-/

namespace SymbolAtlas

namespace NodeType

/-- Types of declarations that are listed as methods inside a class. -/
def isMethodLike (type : NodeType) : Bool := type = .methodDefinition || type.isFunction

/-- Types of declarations inside a class that are neither listed nor looked into. -/
def isPassedOver (type : NodeType) : Bool :=
  type.isClass || type = .exportStatement || type.isVariableDeclaration

section

variable {type : NodeType}

theorem isMethodLike_iff :
    type.isMethodLike = true ↔ type = .methodDefinition ∨ type.kind? = some .function := by
  cases type <;> simp [isMethodLike, isFunction, kind?]

theorem isClass_iff : type.isClass = true ↔ type.kind? = some .class_ := by
  cases type <;> simp [isClass, kind?]

theorem isPassedOver_eq_false_iff : type.isPassedOver = false ↔ type.kind? ≠ some .class_ ∧
    type ≠ .exportStatement ∧ type.isVariableDeclaration = false := by
  rw [← Bool.not_eq_true, isPassedOver, Bool.or_eq_true, Bool.or_eq_true, isClass_iff,
    decide_eq_true_eq, not_or, not_or, Bool.not_eq_true, and_assoc]

end

end NodeType

/-- Whether the walk below a class takes a step. It does not go on inside what it passes over and
what it lists as a method, and through a decorator it goes to the definition alone. -/
def Step.isWalked (s : Step) : Bool :=
  !s.node.type.isPassedOver && !s.node.type.isMethodLike &&
    (s.node.type ≠ .decoratedDefinition ||
      Node.indexOf? s.node.roles .definition = some s.index)

/-- Whether the search for a member takes a step. It does not go on inside classes and members. -/
def Step.isSearched (s : Step) : Bool := !s.node.type.isClass && !s.node.type.isMember

namespace Place

/-- Whether the walk below a class lists the node as a method, if the node has a name. -/
def isListed (p : Place) : Bool := p.node.type.isMethodLike && p.steps.all Step.isWalked

/-- Whether the search for a member looks at the node. -/
def isSearched (p : Place) : Bool := !p.node.type.isClass && p.steps.all Step.isSearched

end Place

namespace Source

open Node (placesFrom placesAmong)

variable (src : Source)

/-! ## The search -/

section

variable {wanted : List Text} {kind : SymbolKind} {base : List Node}

/-- Inside a class or a member the search looks at nothing. -/
theorem find?_inside_of_not_searched {n : Node} {steps : List Step}
    (h : (⟨n, 0⟩ : Step).isSearched = false) :
    ((placesAmong (fun i => ⟨n, i⟩ :: steps) 0 n.children).find? fun p =>
      p.isSearched && src.isWanted wanted kind p.node) = none := by
  rw [List.find?_eq_none]
  intro p hp
  have hblocked : ∀ j, 0 ≤ j → (⟨n, j⟩ :: steps : List Step).all Step.isSearched = false := by
    intro j _
    rw [List.all_cons, show (⟨n, j⟩ : Step).isSearched = false from h, Bool.false_and]
  simp [Place.isSearched, Node.not_all_of_mem_placesAmong hblocked p hp]

mutual

theorem memberIn?_eq_find? : ∀ {n : Node} {above : List Node} {steps : List Step},
    (⟨n, 0⟩ :: steps : List Step).all Step.isSearched = true →
    above = steps.map (·.node) ++ base →
    src.memberIn? wanted kind above n =
      ((placesAmong (fun i => ⟨n, i⟩ :: steps) 0 n.children).find? fun p =>
        p.isSearched && src.isWanted wanted kind p.node).map (·.spot base)
  | .mk t b e cs rs named, above, steps, hsteps, habove => by
    rw [memberIn?]
    exact memberAmong?_eq_find? (fun j => hsteps) (fun j => by rw [habove]; rfl)

/-- The search for a member finds the first wanted place that it looks at. -/
theorem memberAmong?_eq_find? : ∀ {cs : List Node} {above : List Node} {steps : Nat → List Step}
    {i : Nat}, (∀ j, (steps j).all Step.isSearched = true) →
    (∀ j, above = (steps j).map (·.node) ++ base) →
    src.memberAmong? wanted kind above cs = ((placesAmong steps i cs).find? fun p =>
      p.isSearched && src.isWanted wanted kind p.node).map (·.spot base)
  | [], _, _, _, _, _ => rfl
  | c :: cs, above, steps, i, hsteps, habove => by
    have hlater : src.memberAmong? wanted kind above cs =
        ((placesAmong steps (i + 1) cs).find? fun p =>
          p.isSearched && src.isWanted wanted kind p.node).map (·.spot base) :=
      memberAmong?_eq_find? hsteps habove
    rw [memberAmong?, placesAmong, Node.placesFrom_eq, List.find?_append, List.find?_cons,
      Place.isSearched, hsteps i]
    -- A class is passed over, a wanted child ends the search, and other members are not entered.
    by_cases hclass : c.type.isClass = true
    · have hstep : (⟨c, 0⟩ : Step).isSearched = false := by simp [Step.isSearched, hclass]
      simp [hclass, find?_inside_of_not_searched src hstep, hlater]
    by_cases hwanted : src.isWanted wanted kind c = true
    · simp [hclass, hwanted, Place.spot, Place.above, ← habove i]
    by_cases hmember : c.type.isMember = true
    · have hstep : (⟨c, 0⟩ : Step).isSearched = false := by simp [Step.isSearched, hmember]
      simp [hclass, hwanted, hmember, find?_inside_of_not_searched src hstep, hlater]
    have hstep : (⟨c, 0⟩ :: steps i : List Step).all Step.isSearched = true := by
      rw [List.all_cons, hsteps i]
      simp [Step.isSearched, hclass, hmember]
    have hinside : src.memberIn? wanted kind above c =
        ((placesAmong (fun j => ⟨c, j⟩ :: steps i) 0 c.children).find? fun p =>
          p.isSearched && src.isWanted wanted kind p.node).map (·.spot base) :=
      memberIn?_eq_find? hstep (habove i)
    rw [Bool.not_eq_true] at hclass hwanted hmember
    simp only [hclass, hwanted, hmember, hinside, hlater, Bool.false_eq_true, if_false,
      Bool.and_false]
    cases List.find? _ (placesAmong (fun j => ⟨c, j⟩ :: steps i) 0 c.children) <;> rfl

end

end

/-- The search of a node for a member finds the first wanted place inside that it looks at. -/
theorem memberIn?_eq_find?_inside (wanted : List Text) (kind : SymbolKind) (above : List Node)
    (n : Node) : src.memberIn? wanted kind above n =
      (n.inside.find? fun p => p.isSearched && src.isWanted wanted kind p.node).map
        (·.spot (n :: above)) := by
  obtain ⟨t, b, e, cs, rs, named⟩ := n
  rw [memberIn?]
  exact src.memberAmong?_eq_find? (fun _ => rfl) (fun _ => rfl)

/-! ## The walk -/

/-- What the walk below a class adds to the listing at a place. -/
def methodEntry (owner : Text) (base : List Node) (p : Place) : List Listed :=
  src.listDeclaration (p.above base) p.node .method (some owner)

/-- Below a step that the walk does not take it lists nothing. -/
theorem filter_inside_of_not_walked {n : Node} {steps : List Step}
    (h : ∀ j, (⟨n, j⟩ : Step).isWalked = false) :
    (placesAmong (fun j => ⟨n, j⟩ :: steps) 0 n.children).filter Place.isListed = [] := by
  rw [List.filter_eq_nil_iff]
  intro p hp
  have hblocked : ∀ j, 0 ≤ j → (⟨n, j⟩ :: steps : List Step).all Step.isWalked = false := by
    intro j _
    rw [List.all_cons, h j, Bool.false_and]
  simp [Place.isListed, Node.not_all_of_mem_placesAmong hblocked p hp]

section

variable {owner : Text} {above : List Node} {depth : Nat} {n : Node}

/-- Inside a class a method is listed, and what is inside of it is not looked at. -/
theorem listNode_of_isMethodLike (h : n.type.isMethodLike = true) :
    src.listNode above depth (some owner) n =
      src.listDeclaration above n .method (some owner) := by
  obtain ⟨t, b, e, cs, rs, named⟩ := n
  cases t <;> simp [Node.type, NodeType.isMethodLike, NodeType.isFunction] at h <;>
    simp [listNode, NodeType.isTransparentBlock, NodeType.kind?, NodeType.isVariableDeclaration]

/-- Inside a class nothing is listed at or inside a declaration that is passed over. -/
theorem listNode_of_isPassedOver (hdepth : 2 ≤ depth) (h : n.type.isPassedOver = true) :
    src.listNode above depth (some owner) n = [] := by
  obtain ⟨t, b, e, cs, rs, named⟩ := n
  have htop : depth ≠ 1 := by omega
  have hnothing : src.listNodes (.mk t b e cs rs named :: above) (depth + 1) none cs = [] :=
    src.listNodes_none (by omega) cs
  cases t <;> simp [Node.type, NodeType.isPassedOver, NodeType.isClass,
      NodeType.isVariableDeclaration] at h <;>
    simp [listNode, NodeType.isTransparentBlock, NodeType.kind?, NodeType.isVariableDeclaration,
      htop, hnothing]

/-- Inside a class the walk goes through a decorator to the definition. -/
theorem listNode_of_decorated (h : n.type = .decoratedDefinition) :
    src.listNode above depth (some owner) n = match Node.indexOf? n.roles .definition with
      | some k => src.listNodeAt (n :: above) depth (some owner) n.children k
      | none => [] := by
  obtain ⟨t, b, e, cs, rs, named⟩ := n
  obtain rfl : t = .decoratedDefinition := h
  simp only [listNode, if_true]
  rfl

/-- Inside a class the walk goes on with all children of any other node. -/
theorem exists_listNode_eq (hdepth : 2 ≤ depth) (hmethod : n.type.isMethodLike = false)
    (hpassed : n.type.isPassedOver = false) (hdecorated : n.type ≠ .decoratedDefinition) :
    ∃ d, 2 ≤ d ∧ src.listNode above depth (some owner) n =
      src.listNodes (n :: above) d (some owner) n.children := by
  obtain ⟨t, b, e, cs, rs, named⟩ := n
  have htop : depth ≠ 1 := by omega
  rw [NodeType.isPassedOver_eq_false_iff] at hpassed
  rw [← Bool.not_eq_true, NodeType.isMethodLike_iff] at hmethod
  simp only [Node.type] at hmethod hpassed hdecorated
  obtain ⟨hclass, hexport, hvariable⟩ := hpassed
  by_cases hblock : t.isTransparentBlock = true
  · exact ⟨depth, hdepth, by simp [listNode, hdecorated, hblock, Node.children]⟩
  refine ⟨depth + 1, by omega, ?_⟩
  cases hkind : t.kind? with
  | none => simp [listNode, hdecorated, hblock, hkind, Node.children]
  | some kind =>
    have hlisted : ¬ (t = .methodDefinition ∨ kind = .function) := by simpa [hkind] using hmethod
    have hother : kind ≠ .class_ := by simpa [hkind] using hclass
    simp [listNode, hdecorated, hblock, hkind, hexport, hvariable, hlisted, htop, hother,
      Node.children]

end

variable {owner : Text} {base : List Node}

mutual

theorem listNode_eq_places : ∀ {n : Node} {above : List Node} {depth : Nat} {steps : List Step},
    2 ≤ depth → steps.all Step.isWalked = true → above = steps.map (·.node) ++ base →
    src.listNode above depth (some owner) n =
      ((placesFrom steps n).filter Place.isListed).flatMap (src.methodEntry owner base)
  | .mk t b e cs rs named, above, depth, steps, hdepth, hsteps, habove => by
    have haround : ∀ j, (.mk t b e cs rs named : Node) :: above =
        ((⟨.mk t b e cs rs named, j⟩ :: steps : List Step).map (·.node)) ++ base := by
      intro j
      rw [habove]
      rfl
    rw [Node.placesFrom_eq, List.filter_cons, Place.isListed, hsteps, Bool.and_true]
    -- One case for each thing that the walk can do at a node.
    by_cases hmethod : (Node.type (.mk t b e cs rs named)).isMethodLike = true
    · have hstep : ∀ j, (⟨.mk t b e cs rs named, j⟩ : Step).isWalked = false := by
        simp [Step.isWalked, hmethod]
      rw [listNode_of_isMethodLike src hmethod, if_pos hmethod, filter_inside_of_not_walked hstep]
      simp [methodEntry, Place.above, habove]
    rw [if_neg hmethod]
    by_cases hpassed : (Node.type (.mk t b e cs rs named)).isPassedOver = true
    · have hstep : ∀ j, (⟨.mk t b e cs rs named, j⟩ : Step).isWalked = false := by
        simp [Step.isWalked, hpassed]
      rw [listNode_of_isPassedOver src hdepth hpassed, filter_inside_of_not_walked hstep]
      rfl
    rw [Bool.not_eq_true] at hmethod hpassed
    by_cases hdecorated : Node.type (.mk t b e cs rs named) = .decoratedDefinition
    · have hstep : ∀ j, (⟨.mk t b e cs rs named, j⟩ : Step).isWalked =
          decide (Node.indexOf? (Node.roles (.mk t b e cs rs named)) .definition = some j) := by
        intro j
        simp only [Step.isWalked, hmethod, hpassed]
        simp [hdecorated]
      rw [listNode_of_decorated src hdecorated]
      cases hindex : Node.indexOf? (Node.roles (.mk t b e cs rs named)) .definition with
      | none =>
        rw [filter_inside_of_not_walked (by simpa [hindex] using hstep)]
        rfl
      | some k =>
        refine listNodeAt_eq_places hdepth ?_ haround
        intro j
        rw [List.all_cons, hstep j, hsteps, Bool.and_true, hindex]
        simp
    · obtain ⟨d, hd, heq⟩ := src.exists_listNode_eq hdepth hmethod hpassed hdecorated
      rw [heq]
      refine listNodes_eq_places hd ?_ haround
      intro j
      rw [List.all_cons, hsteps, Bool.and_true]
      simp [Step.isWalked, hmethod, hpassed, hdecorated]

theorem listNodes_eq_places : ∀ {cs : List Node} {above : List Node} {depth : Nat}
    {steps : Nat → List Step} {i : Nat}, 2 ≤ depth → (∀ j, (steps j).all Step.isWalked = true) →
    (∀ j, above = (steps j).map (·.node) ++ base) →
    src.listNodes above depth (some owner) cs =
      ((placesAmong steps i cs).filter Place.isListed).flatMap (src.methodEntry owner base)
  | [], _, _, _, _, _, _, _ => rfl
  | c :: cs, above, depth, steps, i, hdepth, hsteps, habove => by
    rw [listNodes, placesAmong, List.filter_append, List.flatMap_append,
      listNode_eq_places hdepth (hsteps i) (habove i),
      listNodes_eq_places (i := i + 1) hdepth hsteps habove]

theorem listNodeAt_eq_places : ∀ {cs : List Node} {above : List Node} {depth : Nat}
    {steps : Nat → List Step} {i k : Nat}, 2 ≤ depth →
    (∀ j, (steps j).all Step.isWalked = decide (i + k = j)) →
    (∀ j, above = (steps j).map (·.node) ++ base) →
    src.listNodeAt above depth (some owner) cs k =
      ((placesAmong steps i cs).filter Place.isListed).flatMap (src.methodEntry owner base)
  | [], _, _, _, _, _, _, _, _ => rfl
  | c :: cs, above, depth, steps, i, 0, hdepth, hsteps, habove => by
    -- No step to a later child is taken.
    have hlater : (placesAmong steps (i + 1) cs).filter Place.isListed = [] := by
      rw [List.filter_eq_nil_iff]
      intro p hp
      have hblocked : ∀ j, i + 1 ≤ j → (steps j).all Step.isWalked = false := by
        intro j hj
        rw [hsteps j, decide_eq_false_iff_not]
        omega
      simp [Place.isListed, Node.not_all_of_mem_placesAmong hblocked p hp]
    rw [listNodeAt, placesAmong, List.filter_append, hlater, List.append_nil]
    exact listNode_eq_places hdepth (by simpa using hsteps i) (habove i)
  | c :: cs, above, depth, steps, i, k + 1, hdepth, hsteps, habove => by
    have hfirst : (placesFrom (steps i) c).filter Place.isListed = [] := by
      rw [List.filter_eq_nil_iff]
      intro p hp
      have hblocked : (steps i).all Step.isWalked = false := by simp [hsteps i]
      simp [Place.isListed, Node.not_all_of_mem_placesFrom hblocked p hp]
    rw [listNodeAt, placesAmong, List.filter_append, hfirst, List.nil_append]
    refine listNodeAt_eq_places hdepth ?_ habove
    intro j
    rw [hsteps j, Nat.add_right_comm, Nat.add_assoc]

end

end Source

end SymbolAtlas
