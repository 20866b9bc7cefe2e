import SymbolAtlas.Edit.Site
import SymbolAtlas.Proofs.Tree.Within

/-!
# Located symbols stand in the tree

A located symbol stands in a source if its node belongs to the tree of the source, its text is that
of its node, and its ranges are those of its node and of its wrapper (`Located.StandsIn`). In a tree
whose nodes are all placed in the bytes of the source, looking for a symbol never fails, and what it
finds stands in the source: `locate_answers` at the top level and in the top-level classes,
`locateInClass_answers` in one class.
-/

namespace SymbolAtlas

namespace Located

/-- The export statement or decorator directly around a located symbol. -/
def wrapperNode? (l : Located) : Option (Wrapper × Node) :=
  l.spot.parent?.bind fun p => (Wrapper.ofType? p.type).map fun w => (w, p)

/-- The node that an edit with the given content replaces: the wrapper if the content is empty or
restates it, the located node otherwise. -/
def targetNode (l : Located) (content : Text) : Node :=
  match l.wrapperNode? with
  | none => l.spot.node
  | some (w, p) =>
    if content = [] ∨ Text.startsWith content.trimStart w.opening then p else l.spot.node

/-- The text and the ranges of a located symbol are those of the nodes that it stands for. -/
structure StandsIn (src : Source) (l : Located) : Prop where
  spot : l.spot.In src.root
  text : l.text = src.textOf l.spot.node
  range : src.rangeOf l.spot.node = .ok l.range
  unwrapped : l.wrapperNode? = none → l.wrapper = none
  wrapped : ∀ w p, l.wrapperNode? = some (w, p) →
    ∃ r, l.wrapper = some (w, r) ∧ src.rangeOf p = .ok r

variable {src : Source} {l : Located}

theorem within_of_wrapperNode? {root : Node} (h : l.spot.In root) {w : Wrapper} {p : Node}
    (hp : l.wrapperNode? = some (w, p)) : p.Within root := by
  obtain ⟨q, hq, hw⟩ := Option.bind_eq_some_iff.mp hp
  obtain ⟨_, _, heq⟩ := Option.map_eq_some_iff.mp hw
  cases heq
  exact h.parent? hq

theorem StandsIn.targetNode_within (h : l.StandsIn src) (content : Text) :
    (l.targetNode content).Within src.root := by
  unfold targetNode
  split
  · exact h.spot.node
  · next w p hp =>
    split
    · exact within_of_wrapperNode? h.spot hp
    · exact h.spot.node

/-- The range that an edit replaces is the range of its target. -/
theorem StandsIn.rangeOf_targetNode (h : l.StandsIn src) (content : Text) :
    src.rangeOf (l.targetNode content) = .ok (EditSite.targetRange l content) := by
  unfold targetNode EditSite.targetRange
  cases hp : l.wrapperNode? with
  | none => simp only [h.unwrapped hp, h.range]
  | some wrapper =>
    obtain ⟨w, p⟩ := wrapper
    obtain ⟨r, hr, hrange⟩ := h.wrapped w p hp
    simp only [hr]
    split
    · exact hrange
    · exact h.range

end Located

namespace Source

/-- A search that does not fail and finds nothing but what stands in the source. -/
def Answers (src : Source) (x : Except Failure (Option Located)) : Prop :=
  x = .ok none ∨ ∃ l, x = .ok (some l) ∧ l.StandsIn src

variable {src : Source}

theorem answers_none : src.Answers (.ok none) := .inl rfl

/-- A search of which something is known that it found, found it. -/
theorem exists_of_toOption {α : Type} {f : Located → α} {x : Except Failure (Option Located)}
    {y : α} (h : x.toOption.bind (·.map f) = some y) : ∃ l, x = .ok (some l) ∧ f l = y := by
  rcases x with failure | _ | l
  · simp [Except.toOption] at h
  · simp [Except.toOption] at h
  · exact ⟨l, rfl, by simpa [Except.toOption] using h⟩

theorem Answers.exists_ok {x : Except Failure (Option Located)} (h : src.Answers x) :
    ∃ found, x = .ok found ∧ ∀ l, found = some l → l.StandsIn src := by
  rcases h with rfl | ⟨l, rfl, hl⟩
  · exact ⟨none, rfl, by simp⟩
  · refine ⟨some l, rfl, ?_⟩
    intro l' h'
    obtain rfl := Option.some.inj h'
    exact hl

section

variable (hplaced : src.root.PlacedIn src.bytes)

include hplaced

theorem exists_rangeOf {n : Node} (h : n.Within src.root) : ∃ r, src.rangeOf n = .ok r := by
  obtain ⟨r, hr, -⟩ := src.rangeOf_of_placed (hplaced n h)
  exact ⟨r, hr⟩

/-- A spot in a placed tree always has a place, which is its own. -/
theorem exists_place {s : Spot} (hs : s.In src.root) (symbol : Symbol) :
    ∃ l, src.place s symbol = .ok l ∧ l.spot = s ∧ l.StandsIn src := by
  obtain ⟨range, hrange⟩ := exists_rangeOf hplaced hs.node
  cases hp : s.parent? with
  | none =>
    refine ⟨⟨symbol, range, src.textOf s.node, s, none⟩, ?_, rfl, hs, rfl, hrange, fun _ => rfl, ?_⟩
    · simp only [place, hrange, hp, bind, Except.bind, pure, Except.pure]
    · simp [Located.wrapperNode?, hp]
  | some p =>
    cases hw : Wrapper.ofType? p.type with
    | none =>
      refine ⟨⟨symbol, range, src.textOf s.node, s, none⟩, ?_, rfl, hs, rfl, hrange,
        fun _ => rfl, ?_⟩
      · simp only [place, hrange, hp, hw, bind, Except.bind, pure, Except.pure]
      · simp [Located.wrapperNode?, hp, hw]
    | some w =>
      obtain ⟨r, hr⟩ := exists_rangeOf hplaced (hs.parent? hp)
      refine ⟨⟨symbol, range, src.textOf s.node, s, some (w, r)⟩, ?_, rfl, hs, rfl, hrange, ?_, ?_⟩
      · simp only [place, hrange, hp, hw, hr, bind, Except.bind, pure, Except.pure]
      · simp [Located.wrapperNode?, hp, hw]
      · intro w' p' h
        simp only [Located.wrapperNode?, hp, hw, Option.bind_some, Option.map_some,
          Option.some.injEq, Prod.mk.injEq] at h
        obtain ⟨rfl, rfl⟩ := h
        exact ⟨r, rfl, hr⟩

theorem answers_place {s : Spot} (hs : s.In src.root) (symbol : Symbol) :
    src.Answers (some <$> src.place s symbol) := by
  obtain ⟨l, hl, -, hstands⟩ := exists_place hplaced hs symbol
  rw [hl]
  exact .inr ⟨l, rfl, hstands⟩

/-! ## At the top level -/

theorem variableIn_answers {s : Spot} (hs : s.In src.root) (name : Text) (shown : Option Node) :
    src.Answers (src.variableIn s name shown) := by
  unfold variableIn
  split
  · exact answers_none
  · exact answers_place hplaced hs _
  · next d hd =>
    exact answers_place hplaced (hs.under (src.mem_children_of_declaratorNamed? hd)) _

theorem locateExported_answers {s : Spot} (hs : s.In src.root) (name : Text) (kind : SymbolKind) :
    src.Answers (src.locateExported s name kind) := by
  unfold locateExported
  split
  · exact answers_none
  · next x hx =>
    have hdeclaration : (s.under x.declaration).In src.root :=
      hs.under (src.mem_children_of_exported? hx)
    split
    · split
      · exact answers_place hplaced hs _
      · exact answers_none
    · split
      · exact answers_none
      · split
        · exact variableIn_answers hplaced hdeclaration name _
        · split
          · exact answers_place hplaced hdeclaration _
          · exact answers_none

theorem locateAt_answers {s : Spot} (hs : s.In src.root) (name : Text) (kind : SymbolKind) :
    src.Answers (src.locateAt s name kind) := by
  unfold locateAt
  split
  · exact locateExported_answers hplaced hs name kind
  · split
    · exact answers_none
    · split
      · exact variableIn_answers hplaced hs name none
      · split
        · exact answers_place hplaced hs _
        · exact answers_none

omit hplaced in
theorem firstOver_answers {find : Spot → Except Failure (Option Located)} {spots : List Spot}
    (h : ∀ s ∈ spots, src.Answers (find s)) : src.Answers (firstOver find spots) := by
  induction spots with
  | nil => exact answers_none
  | cons s ss ih =>
    rcases h s (by simp) with hs | ⟨l, hs, hl⟩
    · rw [firstOver, hs]
      exact ih fun s' hs' => h s' (by simp [hs'])
    · rw [firstOver, hs]
      exact .inr ⟨l, rfl, hl⟩

/-! ## Inside a class -/

/-- Looking for a member of a class never fails in a placed tree. -/
theorem locateInClass_answers {c : Spot} (hc : c.In src.root) (name : Text) (kind : SymbolKind)
    (className : Option Text) : src.Answers (src.locateInClass c name kind className) := by
  unfold locateInClass
  dsimp only
  split
  · exact answers_none
  · next s hs => exact answers_place hplaced (src.in_of_memberIn? hc.node hc.above s hs) _

/-! ## Anywhere -/

/-- Looking for a symbol never fails in a placed tree. -/
theorem locate_answers (name : Text) (kind : SymbolKind) : src.Answers (src.locate name kind) := by
  unfold locate
  split
  · exact firstOver_answers fun c hc =>
      locateInClass_answers hplaced (src.in_of_mem_classes hc) name kind none
  · exact firstOver_answers fun s hs =>
      locateAt_answers hplaced (src.in_of_mem_topLevel hs) name kind

theorem standsIn_of_locate {name : Text} {kind : SymbolKind} {l : Located}
    (h : src.locate name kind = .ok (some l)) : l.StandsIn src := by
  obtain ⟨found, hfound, hstands⟩ := (locate_answers hplaced name kind).exists_ok
  rw [h] at hfound
  exact hstands l (Except.ok.inj hfound).symm

end

/-! ## With a log -/

theorem result_reportLocate (src : Source) (name : Text) (kind : SymbolKind) :
    (src.reportLocate name kind).result = src.locate name kind := by
  unfold reportLocate
  split
  · next h =>
    rw [h]
    split <;> rfl
  · rfl

end Source

end SymbolAtlas
