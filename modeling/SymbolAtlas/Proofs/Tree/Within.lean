import SymbolAtlas.Proofs.Tree.Placement
import SymbolAtlas.Symbol.Lookup

/-!
# Nodes of one tree

`Node.Within` says that a node belongs to a tree, `Spot.In` that a node and everything around it
does. The searches of `Symbol.Lookup` only come upon spots in the tree that they search: one lemma
for each of them, by induction over the nodes that it visits.
-/

namespace SymbolAtlas

namespace Node

/-- A node is within a tree if it is the root or a child of a node within the tree. -/
inductive Within : Node → Node → Prop where
  | self (root : Node) : Within root root
  | child {root n c : Node} : Within n root → c ∈ n.children → Within c root

/-- A tree all of whose nodes are placed in some bytes. -/
def PlacedIn (bs : Bytes) (root : Node) : Prop := ∀ n : Node, n.Within root → n.Placed bs

theorem Within.eq_or_child {root n : Node} (h : n.Within root) :
    n = root ∨ ∃ c ∈ root.children, n.Within c := by
  induction h with
  | self root => exact .inl rfl
  | @child root n c _ hc ih =>
    rcases ih with rfl | ⟨d, hd, hn⟩
    · exact .inr ⟨c, hc, .self c⟩
    · exact .inr ⟨d, hd, hn.child hc⟩

theorem Within.trans {root n c : Node} (h : n.Within root) (hc : c.Within n) : c.Within root := by
  induction hc with
  | self => exact h
  | child _ hc ih => exact (ih h).child hc

/-- A tree is placed if its root and the trees below the root are. -/
theorem placedIn_of_children {bs : Bytes} {root : Node} (h : root.Placed bs)
    (hchildren : ∀ c ∈ root.children, c.PlacedIn bs) : root.PlacedIn bs := by
  intro n hn
  rcases hn.eq_or_child with rfl | ⟨c, hc, hn⟩
  · exact h
  · exact hchildren c hc n hn

mutual

/-- Checks that all nodes of a tree are placed in some bytes. -/
def isPlaced (bs : Bytes) : Node → Bool
  | mk type start stop cs roles isNamed =>
    decide ((mk type start stop cs roles isNamed).Placed bs) && arePlaced bs cs

/-- Checks that all nodes of some trees are placed in some bytes. -/
def arePlaced (bs : Bytes) : List Node → Bool
  | [] => true
  | n :: ns => isPlaced bs n && arePlaced bs ns

end

mutual

/-- A tree that passes the check is placed. -/
theorem placedIn_of_isPlaced {bs : Bytes} : ∀ {n : Node}, isPlaced bs n = true → n.PlacedIn bs
  | mk _ _ _ cs _ _, h => by
    rw [isPlaced, Bool.and_eq_true, decide_eq_true_eq] at h
    exact placedIn_of_children h.1 (placedIn_of_arePlaced h.2)

theorem placedIn_of_arePlaced {bs : Bytes} : ∀ {cs : List Node}, arePlaced bs cs = true →
    ∀ c ∈ cs, c.PlacedIn bs
  | [], _ => by simp
  | n :: ns, h => by
    rw [arePlaced, Bool.and_eq_true] at h
    intro c hc
    rcases List.mem_cons.mp hc with heq | hc
    · rw [heq]
      exact placedIn_of_isPlaced h.1
    · exact placedIn_of_arePlaced h.2 c hc

end

/-- A node of a type without a meaning of its own. -/
def plain (type : Text) (start stop : Int) (children : List Node) : Node :=
  mk (.other type) start stop children [] true

theorem mem_children_of_child? {n c : Node} {role : Role} (h : n.child? role = some c) :
    c ∈ n.children := by
  obtain ⟨i, -, hi⟩ := Option.bind_eq_some_iff.mp h
  exact List.mem_of_getElem? hi

mutual

/-- The first declarator inside a node is found inside the node. -/
theorem within_of_firstDeclarator? : ∀ {n d : Node}, firstDeclarator? n = some d → d.Within n
  | mk t b e cs rs named, d, h => by
    obtain ⟨c, hc, hd⟩ := within_of_firstDeclaratorIn? h
    exact ((Within.self _).child hc).trans hd

theorem within_of_firstDeclaratorIn? : ∀ {cs : List Node} {d : Node},
    firstDeclaratorIn? cs = some d → ∃ c ∈ cs, d.Within c
  | [], d, h => by cases h
  | c :: cs, d, h => by
    have hlater : firstDeclaratorIn? cs = some d → ∃ c' ∈ c :: cs, d.Within c' := by
      intro h
      obtain ⟨c', hc', hd⟩ := within_of_firstDeclaratorIn? h
      exact ⟨c', List.mem_cons_of_mem c hc', hd⟩
    rw [firstDeclaratorIn?] at h
    split at h
    · split at h
      · obtain rfl := Option.some.inj h
        exact ⟨c, List.mem_cons_self, .self c⟩
      cases hinside : firstDeclarator? c with
      | none =>
        rw [hinside] at h
        exact hlater h
      | some inside =>
        rw [hinside] at h
        obtain rfl := Option.some.inj h
        exact ⟨c, List.mem_cons_self, within_of_firstDeclarator? hinside⟩
    · exact hlater h

end

end Node

/-- A spot in a tree: the node and all nodes around it are within the tree. -/
structure Spot.In (root : Node) (s : Spot) : Prop where
  node : s.node.Within root
  above : ∀ p ∈ s.above, p.Within root

namespace Spot

variable {root : Node} {s : Spot}

theorem In.under (h : s.In root) {c : Node} (hc : c ∈ s.node.children) : (s.under c).In root := by
  refine ⟨h.node.child hc, ?_⟩
  intro p hp
  rcases List.mem_cons.mp hp with rfl | hp
  · exact h.node
  · exact h.above p hp

theorem In.child? (h : s.In root) {role : Role} {c : Spot} (hc : s.child? role = some c) :
    c.In root := by
  obtain ⟨n, hn, rfl⟩ := Option.map_eq_some_iff.mp hc
  exact h.under (Node.mem_children_of_child? hn)

theorem In.parent? (h : s.In root) {p : Node} (hp : s.parent? = some p) : p.Within root :=
  h.above p (List.mem_of_mem_head? hp)

end Spot

/-! ## The top level -/

namespace Node

variable {root : Node}

mutual

theorem in_of_mem_topLevelOf : ∀ {n : Node} {above : List Node}, n.Within root →
    (∀ p ∈ above, p.Within root) → ∀ s ∈ topLevelOf above n, s.In root
  | .mk t b e cs rs named, above, hn, habove, s, hs => by
    have haround : ∀ p ∈ mk t b e cs rs named :: above, p.Within root := by
      intro p hp
      rcases List.mem_cons.mp hp with rfl | hp
      · exact hn
      · exact habove p hp
    have hcs : ∀ c ∈ cs, c.Within root := fun c hc => hn.child hc
    simp only [topLevelOf] at hs
    split at hs
    · -- Through a decorator the search goes on with the definition alone.
      cases hi : indexOf? rs .definition with
      | none => simp [hi] at hs
      | some i =>
        rw [hi] at hs
        exact in_of_mem_topLevelAt hcs haround s hs
    · split at hs
      · exact in_of_mem_topLevel hcs haround s hs
      · rw [List.mem_singleton] at hs
        subst hs
        exact ⟨hn, habove⟩

theorem in_of_mem_topLevel : ∀ {cs above : List Node}, (∀ c ∈ cs, c.Within root) →
    (∀ p ∈ above, p.Within root) → ∀ s ∈ topLevel above cs, s.In root
  | [], _, _, _, s, hs => by simp [topLevel] at hs
  | c :: cs, _, hcs, habove, s, hs => by
    rw [topLevel, List.mem_append] at hs
    rcases hs with hs | hs
    · exact in_of_mem_topLevelOf (hcs c (by simp)) habove s hs
    · exact in_of_mem_topLevel (fun d hd => hcs d (by simp [hd])) habove s hs

theorem in_of_mem_topLevelAt : ∀ {cs : List Node} {above : List Node} {i : Nat},
    (∀ c ∈ cs, c.Within root) → (∀ p ∈ above, p.Within root) →
    ∀ s ∈ topLevelAt above cs i, s.In root
  | [], _, _, _, _, s, hs => by simp [topLevelAt] at hs
  | c :: cs, _, 0, hcs, habove, s, hs => by
    rw [topLevelAt] at hs
    exact in_of_mem_topLevelOf (hcs c (by simp)) habove s hs
  | c :: cs, _, i + 1, hcs, habove, s, hs => by
    rw [topLevelAt] at hs
    exact in_of_mem_topLevelAt (fun d hd => hcs d (by simp [hd])) habove s hs

end

end Node

namespace Source

variable (src : Source)

theorem in_of_mem_topLevel {s : Spot} (h : s ∈ src.topLevel) : s.In src.root := by
  refine Node.in_of_mem_topLevel (fun c hc => (Node.Within.self _).child hc) ?_ s h
  intro p hp
  rw [List.mem_singleton.mp hp]
  exact .self _

theorem in_of_mem_classes {c : Spot} (h : c ∈ src.classes) : c.In src.root := by
  obtain ⟨s, hs, hc⟩ := List.mem_filterMap.mp h
  have hin := src.in_of_mem_topLevel hs
  unfold classAt? at hc
  split at hc
  · -- An exported class stands inside its export statement.
    cases hd : s.child? .declaration with
    | none => simp [hd] at hc
    | some d =>
      simp only [hd] at hc
      split at hc
      · obtain rfl := Option.some.inj hc
        exact hin.child? hd
      · simp at hc
  · split at hc
    · obtain rfl := Option.some.inj hc
      exact hin
    · simp at hc

/-! ## Declarations with a name -/

theorem mem_children_of_declaratorNamed? {n d : Node} {name : Text} {isFirst : Bool}
    (h : src.declaratorNamed? n name = some (d, isFirst)) : d ∈ n.children := by
  unfold declaratorNamed? at h
  have hmem : ∀ c ∈ n.namedChildren.filter fun c => c.type = .variableDeclarator,
      c ∈ n.children := by
    intro c hc
    exact (List.mem_filter.mp (List.mem_filter.mp hc).1).1
  split at h
  · simp at h
  · next first later hfilter =>
    rw [hfilter] at hmem
    split at h
    · cases h
      exact hmem _ (by simp)
    · obtain ⟨c, hc, heq⟩ := Option.map_eq_some_iff.mp h
      cases heq
      exact hmem _ (List.mem_cons_of_mem _ (List.mem_of_find?_eq_some hc))

theorem mem_children_of_exported? {n : Node} {x : Exported} (h : src.exported? n = some x) :
    x.declaration ∈ n.children := by
  obtain ⟨d, hd, hx⟩ := Option.bind_eq_some_iff.mp h
  simp only at hx
  split at hx
  · obtain ⟨name, -, rfl⟩ := Option.map_eq_some_iff.mp hx
    exact Node.mem_children_of_child? hd
  · simp at hx

/-! ## Members -/

mutual

theorem in_of_memberIn? {wanted : List Text} {kind : SymbolKind} : ∀ {n : Node} {above : List Node},
    n.Within src.root → (∀ p ∈ above, p.Within src.root) →
    ∀ s, src.memberIn? wanted kind above n = some s → s.In src.root
  | .mk t b e cs rs named, above, hn, habove, s, hs => by
    rw [memberIn?] at hs
    refine in_of_memberAmong? (fun c hc => hn.child hc) ?_ s hs
    intro p hp
    rcases List.mem_cons.mp hp with rfl | hp
    · exact hn
    · exact habove p hp

theorem in_of_memberAmong? {wanted : List Text} {kind : SymbolKind} : ∀ {cs above : List Node},
    (∀ c ∈ cs, c.Within src.root) → (∀ p ∈ above, p.Within src.root) →
    ∀ s, src.memberAmong? wanted kind above cs = some s → s.In src.root
  | [], _, _, _, s, hs => by simp [memberAmong?] at hs
  | c :: cs, above, hcs, habove, s, hs => by
    have hc : c.Within src.root := hcs c (by simp)
    have hlater : ∀ d ∈ cs, d.Within src.root := fun d hd => hcs d (by simp [hd])
    rw [memberAmong?] at hs
    split at hs
    · exact in_of_memberAmong? hlater habove s hs
    · split at hs
      · cases hs
        exact ⟨hc, habove⟩
      · split at hs
        · exact in_of_memberAmong? hlater habove s hs
        · cases hinside : src.memberIn? wanted kind above c with
          | none =>
            simp only [hinside] at hs
            exact in_of_memberAmong? hlater habove s hs
          | some inside =>
            simp only [hinside, Option.some.injEq] at hs
            subst hs
            exact in_of_memberIn? hc habove inside hinside

end

end Source

end SymbolAtlas
