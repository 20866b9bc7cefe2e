import SymbolAtlas.Tree.Node

/-!
# Places inside a node

The places inside a node are the nodes strictly below it in source order, a node before the nodes
inside it, each with the steps that lead there (`Node.inside`). A search that does not go
everywhere is a condition on steps: it comes to the places all of whose steps it takes. The nodes
below a step that it does not take drop out together (`not_all_of_mem_placesFrom`).
-/

namespace SymbolAtlas

/-- A step down a tree, from a node to its child at an index. -/
structure Step where
  node : Node
  index : Nat

/-- A node below another one, with the steps between them, the last step first. The step from the
upper node to its child is not counted. -/
structure Place where
  node : Node
  steps : List Step

namespace Place

/-- The nodes around a place in a node that has `base` around its children. -/
def above (base : List Node) (p : Place) : List Node := p.steps.map (·.node) ++ base

/-- The place as a spot of the whole tree. -/
def spot (base : List Node) (p : Place) : Spot := ⟨p.node, p.above base⟩

end Place

namespace Node

mutual

/-- The node that some steps lead to, and the places inside it. -/
def placesFrom (steps : List Step) : Node → List Place
  | mk t s e cs rs named =>
    ⟨mk t s e cs rs named, steps⟩ ::
      placesAmong (fun i => ⟨mk t s e cs rs named, i⟩ :: steps) 0 cs

/-- The nodes of a list and the places inside them. The list starts at the index `i` of the
children of its node, and `steps` are the steps that lead to the child at an index. -/
def placesAmong (steps : Nat → List Step) (i : Nat) : List Node → List Place
  | [] => []
  | c :: cs => placesFrom (steps i) c ++ placesAmong steps (i + 1) cs

end

theorem placesFrom_eq (steps : List Step) (n : Node) : placesFrom steps n =
    ⟨n, steps⟩ :: placesAmong (fun i => ⟨n, i⟩ :: steps) 0 n.children := by
  cases n
  rw [placesFrom, children]

/-- The places strictly inside a node. -/
def inside (n : Node) : List Place := placesAmong (fun _ => []) 0 n.children

/-! ## Steps that are not taken -/

mutual

/-- Inside a node the steps only become more. -/
theorem suffix_of_mem_placesFrom : ∀ {n : Node} {steps : List Step},
    ∀ p ∈ placesFrom steps n, steps <:+ p.steps
  | .mk t s e cs rs named, steps, p, hp => by
    rw [placesFrom, List.mem_cons] at hp
    rcases hp with rfl | hp
    · exact List.suffix_refl _
    · obtain ⟨j, -, hj⟩ := suffix_of_mem_placesAmong p hp
      exact (List.suffix_cons _ steps).trans hj

theorem suffix_of_mem_placesAmong : ∀ {cs : List Node} {steps : Nat → List Step} {i : Nat},
    ∀ p ∈ placesAmong steps i cs, ∃ j, i ≤ j ∧ steps j <:+ p.steps
  | [], _, _, p, hp => by simp [placesAmong] at hp
  | c :: cs, steps, i, p, hp => by
    rw [placesAmong, List.mem_append] at hp
    rcases hp with hp | hp
    · exact ⟨i, Nat.le_refl i, suffix_of_mem_placesFrom p hp⟩
    · obtain ⟨j, hij, hj⟩ := suffix_of_mem_placesAmong p hp
      exact ⟨j, by omega, hj⟩

end

variable {takes : Step → Bool}

/-- Behind a step that is not taken there is no place whose steps are all taken. -/
theorem not_all_of_mem_placesFrom {steps : List Step} (h : steps.all takes = false) {n : Node} :
    ∀ p ∈ placesFrom steps n, p.steps.all takes = false := by
  intro p hp
  obtain ⟨step, hstep, hblocked⟩ := List.all_eq_false.mp h
  exact List.all_eq_false.mpr ⟨step, (suffix_of_mem_placesFrom p hp).subset hstep, hblocked⟩

theorem not_all_of_mem_placesAmong {steps : Nat → List Step} {i : Nat}
    (h : ∀ j, i ≤ j → (steps j).all takes = false) {cs : List Node} :
    ∀ p ∈ placesAmong steps i cs, p.steps.all takes = false := by
  intro p hp
  obtain ⟨j, hij, hj⟩ := suffix_of_mem_placesAmong p hp
  obtain ⟨step, hstep, hblocked⟩ := List.all_eq_false.mp (h j hij)
  exact List.all_eq_false.mpr ⟨step, hj.subset hstep, hblocked⟩

end Node

end SymbolAtlas
