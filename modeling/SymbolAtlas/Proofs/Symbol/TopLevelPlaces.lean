import SymbolAtlas.Proofs.Symbol.TopLevel
import SymbolAtlas.Proofs.Tree.Places

/-!
# Where top-level declarations lie

The search for top-level declarations goes from a decorator to its definition, and from a
preprocessor block or a template to all children (`Step.isTransparent`). The declarations are the
places that it comes to and does not go through, in source order (`Source.topLevel_eq_places`).
-/

namespace SymbolAtlas

/-- Whether a step leads through what stands around top-level declarations: from a decorator to the
definition, or from a block to any child. -/
def Step.isTransparent (s : Step) : Bool :=
  if s.node.type = .decoratedDefinition then Node.indexOf? s.node.roles .definition = some s.index
  else s.node.type.isTransparentBlock

/-- Whether a place is a top-level declaration: only what is looked through stands around it, and it
is not looked through itself. -/
def Place.isTopLevel (p : Place) : Bool :=
  !p.node.type.isTransparent && p.steps.all Step.isTransparent

namespace Node

/-- The top-level declarations among some places. -/
def declarations (base : List Node) (places : List Place) : List Spot :=
  (places.filter Place.isTopLevel).map (·.spot base)

section

variable {base : List Node} {steps : List Step} {stepsAt : Nat → List Step} {i : Nat} {n : Node}
  {cs : List Node} {ps qs : List Place}

theorem declarations_append :
    declarations base (ps ++ qs) = declarations base ps ++ declarations base qs := by
  rw [declarations, List.filter_append, List.map_append, declarations, declarations]

/-- Behind steps of which one is not taken there are no top-level declarations. -/
theorem declarations_eq_nil (h : ∀ p ∈ ps, p.steps.all Step.isTransparent = false) :
    declarations base ps = [] := by
  have hfilter : ps.filter Place.isTopLevel = [] := by
    rw [List.filter_eq_nil_iff]
    intro p hp
    simp [Place.isTopLevel, h p hp]
  rw [declarations, hfilter, List.map_nil]

theorem declarations_placesFrom_of_transparent (h : n.type.isTransparent = true) :
    declarations base (placesFrom steps n) =
      declarations base (placesAmong (fun j => ⟨n, j⟩ :: steps) 0 n.children) := by
  have hnot : ¬ (Place.isTopLevel ⟨n, steps⟩ = true) := by simp [Place.isTopLevel, h]
  rw [placesFrom_eq, declarations, List.filter_cons, if_neg hnot, declarations]

end

variable {base : List Node}

mutual

theorem topLevelOf_eq_places : ∀ {n : Node} {above : List Node} {steps : List Step},
    steps.all Step.isTransparent = true → above = steps.map (·.node) ++ base →
    topLevelOf above n = declarations base (placesFrom steps n)
  | mk t b e cs rs named, above, steps, hsteps, habove => by
    have haround : ∀ j, mk t b e cs rs named :: above =
        ((⟨mk t b e cs rs named, j⟩ :: steps : List Step).map (·.node)) ++ base := by
      intro j
      rw [habove]
      rfl
    rw [topLevelOf]
    by_cases hdecorated : t = .decoratedDefinition
    · have htransparent : (mk t b e cs rs named).type.isTransparent = true := by
        simp [type, NodeType.isTransparent, hdecorated]
      have hstep : ∀ j, Step.isTransparent ⟨mk t b e cs rs named, j⟩ =
          decide (indexOf? rs .definition = some j) := by
        intro j
        unfold Step.isTransparent
        exact if_pos hdecorated
      rw [if_pos hdecorated, declarations_placesFrom_of_transparent htransparent, children]
      cases hindex : indexOf? rs .definition with
      | none =>
        refine (declarations_eq_nil (not_all_of_mem_placesAmong ?_)).symm
        intro j _
        rw [List.all_cons, hstep, hindex]
        rfl
      | some k =>
        refine topLevelAt_eq_places ?_ haround
        intro j
        rw [List.all_cons, hstep, hsteps, Bool.and_true, hindex]
        simp
    rw [if_neg hdecorated]
    by_cases hblock : t.isTransparentBlock = true
    · have htransparent : (mk t b e cs rs named).type.isTransparent = true := by
        simp [type, NodeType.isTransparent, hblock]
      rw [if_pos hblock, declarations_placesFrom_of_transparent htransparent, children]
      refine topLevel_eq_places ?_ haround
      intro j
      rw [List.all_cons, hsteps, Bool.and_true]
      simp [Step.isTransparent, type, hdecorated, hblock]
    · -- The declaration itself, and nothing inside of it.
      have hown : Place.isTopLevel ⟨mk t b e cs rs named, steps⟩ = true := by
        simp [Place.isTopLevel, type, NodeType.isTransparent, hdecorated, hblock, hsteps]
      have hinside : declarations base
          (placesAmong (fun j => ⟨mk t b e cs rs named, j⟩ :: steps) 0 cs) = [] := by
        refine declarations_eq_nil (not_all_of_mem_placesAmong ?_)
        intro j _
        simp [Step.isTransparent, type, hdecorated, hblock]
      rw [if_neg hblock, placesFrom, declarations, List.filter_cons, if_pos hown, List.map_cons]
      show _ = _ :: declarations base _
      rw [hinside, habove]
      rfl

theorem topLevel_eq_places : ∀ {cs above : List Node} {steps : Nat → List Step} {i : Nat},
    (∀ j, (steps j).all Step.isTransparent = true) →
    (∀ j, above = (steps j).map (·.node) ++ base) →
    topLevel above cs = declarations base (placesAmong steps i cs)
  | [], _, _, _, _, _ => rfl
  | c :: cs, above, steps, i, hsteps, habove => by
    rw [topLevel, placesAmong, declarations_append, topLevelOf_eq_places (hsteps i) (habove i),
      topLevel_eq_places (i := i + 1) hsteps habove]

theorem topLevelAt_eq_places : ∀ {cs above : List Node} {steps : Nat → List Step} {i k : Nat},
    (∀ j, (steps j).all Step.isTransparent = decide (i + k = j)) →
    (∀ j, above = (steps j).map (·.node) ++ base) →
    topLevelAt above cs k = declarations base (placesAmong steps i cs)
  | [], _, _, _, _, _, _ => rfl
  | c :: cs, above, steps, i, 0, hsteps, habove => by
    have hlater : declarations base (placesAmong steps (i + 1) cs) = [] := by
      refine declarations_eq_nil (not_all_of_mem_placesAmong ?_)
      intro j hj
      rw [hsteps j, decide_eq_false_iff_not]
      omega
    rw [topLevelAt, placesAmong, declarations_append, hlater, List.append_nil]
    exact topLevelOf_eq_places (by simpa using hsteps i) (habove i)
  | c :: cs, above, steps, i, k + 1, hsteps, habove => by
    have hfirst : declarations base (placesFrom (steps i) c) = [] := by
      refine declarations_eq_nil (not_all_of_mem_placesFrom ?_)
      simp [hsteps i]
    rw [topLevelAt, placesAmong, declarations_append, hfirst, List.nil_append]
    refine topLevelAt_eq_places ?_ habove
    intro j
    rw [hsteps j, Nat.add_right_comm, Nat.add_assoc]

end

end Node

/-- The top-level declarations are the places that are reached through nothing but what is looked
through. -/
theorem Source.topLevel_eq_places (src : Source) :
    src.topLevel = (src.root.inside.filter Place.isTopLevel).map (·.spot [src.root]) :=
  Node.topLevel_eq_places (fun _ => rfl) (fun _ => rfl)

end SymbolAtlas
