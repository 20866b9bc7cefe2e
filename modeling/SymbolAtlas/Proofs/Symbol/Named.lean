import SymbolAtlas.Proofs.Symbol.Methods

/-!
# The name of a located symbol

A symbol is located under the name that was asked for, unless a constructor was asked for: then the
name that constructors of a class have is accepted as well. Where all of them have one name, it is
the name of the grammar. Where they are named after their classes, each class accepts its own name,
and the first class with a constructor answers even if it was asked for that of another one
(`Source.not_bears_iff_of_locate`).
-/

namespace SymbolAtlas

/-- A place inside a top-level class, with the class. -/
structure ClassMember where
  owner : Spot
  place : Place

/-- The member as a spot of the whole tree. -/
def ClassMember.spot (m : ClassMember) : Spot := m.place.spot (m.owner.node :: m.owner.above)

namespace Source

variable (src : Source)

/-- The methods that the search looks at, class by class. -/
def methods : List ClassMember :=
  src.classes.flatMap fun c => (c.node.inside.filter Place.isSought).map fun p => ⟨c, p⟩

/-- Whether a method is taken for the constructor of a name: it has this name, or the one that the
constructors of its class have. -/
def isConstructor (name : Text) (m : ClassMember) : Bool :=
  match src.nameOf? m.place.node with
  | none => false
  | some own => own = name || src.grammar.constructorOf? (src.nameOf? m.owner.node) = some own

/-- A symbol has the name that was asked for or, as a constructor, the one that all constructors of
the grammar have. -/
def Bears (s : Symbol) (name : Text) (kind : SymbolKind) : Prop :=
  s.name = name ∨ (kind = .constructor ∧ src.grammar.constructorName? = some s.name)

variable {src} {name : Text} {kind : SymbolKind} {l : Located} {s : Spot}

theorem nameOf?_ne_nil {n : Node} {own : Text} (h : src.nameOf? n = some own) : own ≠ [] := by
  have hshown : ∀ c, src.nameText? c = some own → own ≠ [] := by
    intro c hc
    simp only [nameText?] at hc
    split at hc
    · cases hc
    · next hne =>
      obtain rfl := Option.some.inj hc
      exact hne
  unfold nameOf? at h
  split at h
  · exact hshown _ h
  split at h
  · exact hshown _ h
  · obtain ⟨c, -, hc⟩ := Option.bind_eq_some_iff.mp h
    exact hshown c hc

/-! ## Where an answer comes from -/

theorem symbol_of_place {symbol : Symbol} (h : some <$> src.place s symbol = .ok (some l)) :
    l.symbol = symbol ∧ l.spot = s := by
  cases hplace : src.place s symbol with
  | error f =>
    rw [hplace] at h
    cases h
  | ok found =>
    rw [hplace] at h
    obtain rfl : found = l := Option.some.inj (Except.ok.inj h)
    exact ⟨(of_place hplace).1, (of_place hplace).2.2⟩

theorem place_ne_none {symbol : Symbol} : some <$> src.place s symbol ≠ .ok none := by
  intro h
  cases hplace : src.place s symbol with
  | error f =>
    rw [hplace] at h
    cases h
  | ok found =>
    rw [hplace] at h
    cases h

/-- An answer over some places comes from the first of them that has one. -/
theorem exists_of_firstOver {find : Spot → Except Failure (Option Located)} {spots : List Spot}
    (h : firstOver find spots = .ok (some l)) : ∃ front s rear, spots = front ++ s :: rear ∧
      find s = .ok (some l) ∧ ∀ s' ∈ front, find s' = .ok none := by
  induction spots with
  | nil => cases h
  | cons s ss ih =>
    unfold firstOver at h
    split at h
    · cases h
    · next l' hs =>
      obtain rfl : l' = l := Option.some.inj (Except.ok.inj h)
      exact ⟨[], s, ss, rfl, hs, by simp⟩
    · next hs =>
      obtain ⟨front, s', rear, rfl, hs', hfront⟩ := ih h
      refine ⟨s :: front, s', rear, rfl, hs', ?_⟩
      intro s'' hs''
      rcases List.mem_cons.mp hs'' with rfl | hs''
      · exact hs
      · exact hfront s'' hs''

/-! ## At the top level -/

theorem name_of_variableIn {shown : Option Node} (h : src.variableIn s name shown = .ok (some l)) :
    l.symbol.name = name := by
  unfold variableIn at h
  split at h
  · cases h
  · rw [(symbol_of_place h).1]
    cases shown <;> rfl
  · rw [(symbol_of_place h).1]
    rfl

theorem name_of_locateExported (h : src.locateExported s name kind = .ok (some l)) :
    l.symbol.name = name := by
  unfold locateExported at h
  split at h
  · cases h
  split at h
  · split at h
    · rw [(symbol_of_place h).1]
      rfl
    · cases h
  split at h
  · cases h
  split at h
  · exact name_of_variableIn h
  split at h
  · rw [(symbol_of_place h).1]
    rfl
  · cases h

theorem name_of_locateAt (h : src.locateAt s name kind = .ok (some l)) : l.symbol.name = name := by
  unfold locateAt at h
  split at h
  · exact name_of_locateExported h
  split at h
  · cases h
  split at h
  · exact name_of_variableIn h
  split at h
  · rw [(symbol_of_place h).1]
    rfl
  · cases h

/-! ## In a class -/

theorem mem_wantedNames_iff {own : Text} (hown : own ≠ []) (owner : Option Text) :
    own ∈ src.wantedNames name kind owner ↔
      own = name ∨ (kind = .constructor ∧ src.grammar.constructorOf? owner = some own) := by
  unfold wantedNames
  by_cases hkind : kind = .constructor
  · rw [if_pos hkind]
    cases hconstructor : src.grammar.constructorOf? owner with
    | none => simp
    | some other =>
      cases other with
      | nil => simpa using fun _ h => absurd h hown
      | cons c cs => simp [hkind, eq_comm]
  · simp [hkind]

/-- Whether the search of a class for a member takes a place for it. -/
def isFound (src : Source) (name : Text) (kind : SymbolKind) (m : ClassMember) : Bool :=
  m.place.isSearched &&
    src.isWanted (src.wantedNames name kind (src.nameOf? m.owner.node)) kind m.place.node

/-- A place that is taken has a name, and it is one of those that are wanted. -/
theorem isFound_iff {m : ClassMember} : src.isFound name kind m = true ↔
    m.place.isSearched = true ∧ m.place.node.type.isMemberOfKind kind = true ∧
      ∃ own, src.nameOf? m.place.node = some own ∧ (own = name ∨ (kind = .constructor ∧
        src.grammar.constructorOf? (src.nameOf? m.owner.node) = some own)) := by
  rw [isFound, isWanted, Bool.and_eq_true, Bool.and_eq_true]
  cases hown : src.nameOf? m.place.node with
  | none => simp
  | some own =>
    simp [← mem_wantedNames_iff (nameOf?_ne_nil hown)]

theorem isConstructor_iff {m : ClassMember} : src.isConstructor name m = true ↔
    ∃ own, src.nameOf? m.place.node = some own ∧
      (own = name ∨ src.grammar.constructorOf? (src.nameOf? m.owner.node) = some own) := by
  unfold isConstructor
  cases src.nameOf? m.place.node <;> simp

/-- Asked for a constructor, the search takes the methods that `isConstructor` says. -/
theorem isFound_constructor (name : Text) (m : ClassMember) :
    src.isFound name .constructor m = (m.place.isSought && src.isConstructor name m) := by
  rw [Bool.eq_iff_iff, isFound_iff, Place.isSought, Bool.and_eq_true, Bool.and_eq_true,
    isConstructor_iff, and_assoc]
  simp [NodeType.isMemberOfKind]

section

variable {c : Spot}

theorem find?_eq_none_of_locateInClass (h : src.locateInClass c name kind none = .ok none) :
    (c.node.inside.find? fun p => src.isFound name kind ⟨c, p⟩) = none := by
  simp only [locateInClass, Option.none_or, memberIn?_eq_find?_inside] at h
  cases hfirst : c.node.inside.find? fun p => src.isFound name kind ⟨c, p⟩ with
  | none => rfl
  | some p =>
    simp only [isFound] at hfirst
    rw [hfirst] at h
    exact absurd h place_ne_none

/-- What is located in a class is the first place that the search takes. -/
theorem exists_of_locateInClass (h : src.locateInClass c name kind none = .ok (some l)) :
    ∃ p, (c.node.inside.find? fun p => src.isFound name kind ⟨c, p⟩) = some p ∧
      l.spot = (⟨c, p⟩ : ClassMember).spot ∧ src.nameOf? p.node = some l.symbol.name ∧
      l.symbol.parentClass = src.nameOf? c.node := by
  simp only [locateInClass, Option.none_or, memberIn?_eq_find?_inside] at h
  cases hfirst : c.node.inside.find? fun p => src.isFound name kind ⟨c, p⟩ with
  | none =>
    simp only [isFound] at hfirst
    rw [hfirst] at h
    cases h
  | some p =>
    have htaken : src.isFound name kind ⟨c, p⟩ = true := by simpa using List.find?_some hfirst
    obtain ⟨-, -, own, hown, -⟩ := isFound_iff.mp htaken
    simp only [isFound] at hfirst
    rw [hfirst] at h
    obtain ⟨hsymbol, hspot⟩ := symbol_of_place h
    refine ⟨p, rfl, hspot, ?_, ?_⟩
    · rw [hsymbol]
      show src.nameOf? p.node = some ((src.nameOf? p.node).getD [])
      rw [hown, Option.getD_some]
    · rw [hsymbol]
      rfl

end

/-! ## In all classes -/

/-- The first constructor of a name is found class by class. -/
theorem find?_methods (name : Text) : src.methods.find? (src.isConstructor name) =
    src.classes.findSome? fun c =>
      (c.node.inside.find? fun p => src.isFound name .constructor ⟨c, p⟩).map fun p => ⟨c, p⟩ := by
  rw [methods, List.find?_flatMap]
  congr 1
  funext c
  rw [List.find?_map, List.find?_filter]
  congr 2
  funext p
  rw [isFound_constructor, Bool.decide_and, Bool.decide_eq_true, Bool.decide_eq_true]
  rfl

/-- The constructor that is located is the first method with the name or with the name that
constructors of its class have. -/
theorem exists_constructor_of_locate (h : src.locate name .constructor = .ok (some l)) :
    ∃ m, src.methods.find? (src.isConstructor name) = some m ∧ l.spot = m.spot ∧
      src.nameOf? m.place.node = some l.symbol.name ∧
      l.symbol.parentClass = src.nameOf? m.owner.node := by
  have hsearch : firstOver (fun c => src.locateInClass c name .constructor none) src.classes =
      .ok (some l) := h
  obtain ⟨front, c, rear, hclasses, hc, hfront⟩ := exists_of_firstOver hsearch
  obtain ⟨p, hp, hspot, hname, hparent⟩ := exists_of_locateInClass hc
  refine ⟨⟨c, p⟩, ?_, hspot, hname, hparent⟩
  have hnone : (front.findSome? fun c => (c.node.inside.find? fun p =>
      src.isFound name .constructor ⟨c, p⟩).map fun p => (⟨c, p⟩ : ClassMember)) = none := by
    rw [List.findSome?_eq_none_iff]
    intro c' hc'
    rw [find?_eq_none_of_locateInClass (hfront c' hc'), Option.map_none]
  rw [find?_methods, hclasses, List.findSome?_append, hnone, Option.none_or, List.findSome?_cons,
    hp, Option.map_some]

/-- A symbol of any other kind is located under its own name. -/
theorem name_of_locate (hkind : kind ≠ .constructor) (h : src.locate name kind = .ok (some l)) :
    l.symbol.name = name := by
  unfold locate at h
  split at h
  · obtain ⟨-, c, -, -, hc, -⟩ := exists_of_firstOver h
    obtain ⟨p, hp, -, hname, -⟩ := exists_of_locateInClass hc
    have htaken : src.isFound name kind ⟨c, p⟩ = true := by simpa using List.find?_some hp
    obtain ⟨-, -, own, hown, hwanted⟩ := isFound_iff.mp htaken
    obtain rfl : own = l.symbol.name := Option.some.inj (hown.symm.trans hname)
    rcases hwanted with heq | ⟨hconstructor, -⟩
    · exact heq
    · exact absurd hconstructor hkind
  · obtain ⟨-, s, -, -, hs, -⟩ := exists_of_firstOver h
    exact name_of_locateAt hs

/-- A located symbol that is not a constructor has the name that was asked for. A located
constructor is the first method of the top-level classes that has this name or the one that
constructors of its class have. It fails to bear the name exactly where constructors are named after
their classes and that first method does not have the name itself. -/
theorem not_bears_iff_of_locate (h : src.locate name kind = .ok (some l)) :
    (kind ≠ .constructor → l.symbol.name = name) ∧
    (kind = .constructor → ∃ m, src.methods.find? (src.isConstructor name) = some m ∧
      l.spot = m.spot ∧ src.nameOf? m.place.node = some l.symbol.name ∧
      l.symbol.parentClass = src.nameOf? m.owner.node) ∧
    (¬ src.Bears l.symbol name kind ↔
      kind = .constructor ∧ src.grammar.constructorName? = none ∧
        ∃ m, src.methods.find? (src.isConstructor name) = some m ∧
          src.nameOf? m.place.node ≠ some name) := by
  have hconstructor : kind = .constructor → ∃ m,
      src.methods.find? (src.isConstructor name) = some m ∧ l.spot = m.spot ∧
        src.nameOf? m.place.node = some l.symbol.name ∧
        l.symbol.parentClass = src.nameOf? m.owner.node := by
    rintro rfl
    exact exists_constructor_of_locate h
  refine ⟨fun hkind => name_of_locate hkind h, hconstructor, ?_⟩
  constructor
  · intro hbears
    have hother : l.symbol.name ≠ name := fun heq => hbears (.inl heq)
    have hkind : kind = .constructor := by
      by_contra hkind
      exact hother (name_of_locate hkind h)
    obtain ⟨m, hm, -, hname, -⟩ := hconstructor hkind
    obtain ⟨own, hown, hwanted⟩ := isConstructor_iff.mp (List.find?_some hm)
    obtain rfl : own = l.symbol.name := Option.some.inj (hown.symm.trans hname)
    refine ⟨hkind, ?_, m, hm, fun heq => hother (Option.some.inj (hname.symm.trans heq))⟩
    -- The name of the grammar would be the name of the symbol.
    cases hgrammar : src.grammar.constructorName? with
    | none => rfl
    | some fixed =>
      exfalso
      apply hbears
      refine .inr ⟨hkind, ?_⟩
      rcases hwanted with heq | heq
      · exact absurd heq hother
      · rwa [Grammar.constructorOf?, hgrammar, Option.some_or, ← hgrammar] at heq
  · rintro ⟨hkind, hgrammar, m, hm, hne⟩ hbears
    obtain ⟨m', hm', -, hname, -⟩ := hconstructor hkind
    obtain rfl : m = m' := Option.some.inj (hm.symm.trans hm')
    rcases hbears with heq | ⟨-, hfixed⟩
    · apply hne
      rw [hname, heq]
    · rw [hgrammar] at hfixed
      cases hfixed

end Source

namespace Constructors

/-- Two classes with a constructor each. -/
def text : Text := "class A \x7b\n  A() \x7b\x7d\n\x7d;\nclass B \x7b\n  B() \x7b\x7d\n\x7d;\n"

/-- The bytes of the file. -/
def bytes : Bytes := Utf8.encodeLossy text

/-- A class with a constructor, at an offset. -/
def class_ (start : Int) : Node :=
  .mk .classSpecifier start (start + 20)
    [.plain "type_identifier" (start + 6) (start + 7) [],
      .plain "field_declaration_list" (start + 8) (start + 20)
        [.mk .functionDefinition (start + 12) (start + 18)
          [.mk (.other "function_declarator") (start + 12) (start + 15)
            [.plain "identifier" (start + 12) (start + 13) [],
              .plain "parameter_list" (start + 13) (start + 15) []] [(.declarator, 0)] true,
            .plain "compound_statement" (start + 16) (start + 18) []] [(.declarator, 0)] true]]
    [(.name, 0)] true

/-- The source that the parser gives. -/
def source : Source :=
  ⟨Utf8.decode bytes, bytes, .plain "translation_unit" 0 44 [class_ 0, class_ 22], .cpp,
    Utf8.encode_decode bytes⟩

end Constructors

/-- The constructor of the first class is located under its name. -/
theorem Source.bears_first : ∃ l, Constructors.source.locate "A" .constructor = .ok (some l) ∧
    Constructors.source.Bears l.symbol "A" .constructor := by
  have hfound : (Constructors.source.locate "A" .constructor).toOption.bind
      (·.map (·.symbol.name)) = some "A" := by
    decide +kernel
  obtain ⟨l, hlocated, -⟩ := Source.exists_of_toOption hfound
  obtain ⟨-, -, hiff⟩ := Source.not_bears_iff_of_locate hlocated
  have hfirst : (Constructors.source.methods.find? (Constructors.source.isConstructor "A")).bind
      (fun m => Constructors.source.nameOf? m.place.node) = some "A" := by
    decide +kernel
  refine ⟨l, hlocated, ?_⟩
  by_contra hbears
  obtain ⟨-, -, m, hm, hne⟩ := hiff.mp hbears
  rw [hm] at hfirst
  exact hne hfirst

/-- Asked for the constructor of the second class, the search answers with that of the first. -/
theorem Source.not_bears_second :
    ∃ l, Constructors.source.locate "B" .constructor = .ok (some l) ∧ l.symbol.name = "A" ∧
      ¬ Constructors.source.Bears l.symbol "B" .constructor := by
  have hfound : (Constructors.source.locate "B" .constructor).toOption.bind
      (·.map (·.symbol.name)) = some "A" := by
    decide +kernel
  obtain ⟨l, hlocated, hname⟩ := Source.exists_of_toOption hfound
  refine ⟨l, hlocated, hname, ?_⟩
  rintro (heq | ⟨-, hfixed⟩)
  · rw [hname] at heq
    revert heq
    decide
  · cases hfixed

end SymbolAtlas
