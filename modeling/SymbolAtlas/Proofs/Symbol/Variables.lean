import SymbolAtlas.Proofs.Symbol.Candidates

/-!
# Listed variables are located

A variable declaration is listed under its first declarator and located under all of them. So every
listed variable is located (`Source.exists_locate_variable`): as the whole declaration that is
listed first under the name, unless an earlier declaration has a later declarator of the name, which
is then located on its own.

The search and the listing meet at each top-level declaration in one of three ways (`Source.Meets`).
The first declaration that the search does not pass by decides.
-/

namespace SymbolAtlas

namespace Node

/-- The declarators directly under a variable declaration. -/
def declarators (n : Node) : List Node :=
  n.namedChildren.filter fun c => c.type = .variableDeclarator

end Node

theorem NodeType.kind?_eq_variable_iff {type : NodeType} : type.kind? = some .variable_ ↔
    type = .variableDeclarator ∨ type.isVariableDeclaration = true := by
  cases type <;> simp [kind?, isVariableDeclaration]

/-- The variable declaration that a top-level declaration is or exports. -/
def Spot.variables? (s : Spot) : Option Spot :=
  if s.node.type = .exportStatement then
    (s.child? .declaration).filter fun d => d.node.type.isVariableDeclaration
  else if s.node.type.isVariableDeclaration then some s
  else none

namespace Source

/-- Trees as the grammars give them: under the root there are declarations, no declarator stands
among them on its own, and of the declarators inside a variable declaration the first one is
directly under it. -/
structure DeclaresVariables (src : Source) : Prop where
  root : src.root.type.isRoot = true
  inDeclarations : ∀ s ∈ src.topLevel, s.node.type ≠ .variableDeclarator
  direct : ∀ s ∈ src.topLevel, ∀ d, s.variables? = some d →
    d.node.firstDeclarator? = d.node.declarators.head?

/-- A declarator behind the first one is the first declarator of its declaration that has the
name. -/
structure IsLater (src : Source) (name : Text) (declaration : Spot) (d : Node) : Prop where
  tail : IsFirst (fun d => src.declaratorName? d = some name) declaration.node.declarators.tail d
  head : ∀ first, declaration.node.declarators.head? = some first →
    src.declaratorName? first ≠ some name

/-- What the search for a variable finds at a top-level declaration, beside what is listed there. -/
inductive Meets (src : Source) (name : Text) (s : Spot) : Option Located → Prop where
  | nothing (listed : firstOf? name .variable_ (src.entriesAt s) = none) : Meets src name s none
  | declaration {l : Located} (spot : s.variables? = some l.spot)
      (listed : firstOf? name .variable_ (src.entriesAt s) = some l.symbol) :
      Meets src name s (some l)
  | later {l : Located} {declaration : Spot} {d : Node} (spot : s.variables? = some declaration)
      (isLater : src.IsLater name declaration d) (under : l.spot = declaration.under d)
      (symbol : l.symbol = Symbol.ofNode src d name .variable_ none)
      (listed : firstOf? name .variable_ (src.entriesAt s) = none) : Meets src name s (some l)

variable {src : Source} {name : Text} {s : Spot} {l : Located}

/-! ## Declarators -/

/-- Under a declaration the search takes the first declarator, or else a later one. -/
theorem declaratorNamed?_cases (src : Source) (s : Spot) (name : Text) :
    (src.declaratorNamed? s.node name = none ∧
      s.node.declarators.head?.bind src.declaratorName? ≠ some name) ∨
    (∃ first, s.node.declarators.head? = some first ∧ src.declaratorName? first = some name ∧
      src.declaratorNamed? s.node name = some (first, true)) ∨
    (∃ d, src.IsLater name s d ∧ src.declaratorNamed? s.node name = some (d, false)) := by
  cases hdeclarators : s.node.declarators with
  | nil =>
    have hsearch : src.declaratorNamed? s.node name = none := by
      rw [Node.declarators] at hdeclarators
      simp only [declaratorNamed?, hdeclarators]
    exact .inl ⟨hsearch, by simp⟩
  | cons first later =>
    have hsearch : src.declaratorNamed? s.node name =
        if src.declaratorName? first = some name then some (first, true)
        else (later.find? fun d => src.declaratorName? d = some name).map fun d => (d, false) := by
      rw [Node.declarators] at hdeclarators
      simp only [declaratorNamed?, hdeclarators]
    rw [hsearch]
    by_cases hfirst : src.declaratorName? first = some name
    · exact .inr (.inl ⟨first, rfl, hfirst, if_pos hfirst⟩)
    simp only [if_neg hfirst]
    cases hlater : later.find? fun d => src.declaratorName? d = some name with
    | none => exact .inl ⟨rfl, by simpa using hfirst⟩
    | some d =>
      refine .inr (.inr ⟨d, ⟨?_, ?_⟩, rfl⟩)
      · rw [hdeclarators]
        exact (find?_eq_some_iff_isFirst (by simp)).mp hlater
      · simp [hdeclarators, hfirst]

/-- What an export statement of a variable declaration exports. -/
theorem exported?_of_variable {n d : Node} (hd : n.child? .declaration = some d)
    (htype : d.type.isVariableDeclaration = true) : src.exported? n =
      (d.firstDeclarator?.bind src.declaratorName?).map fun name => ⟨.variable_, name, d⟩ := by
  have hfunction : d.type.isFunction = false := by
    cases h : d.type <;> simp_all [NodeType.isVariableDeclaration, NodeType.isFunction]
  have hclass : d.type.isClass = false := by
    cases h : d.type <;> simp_all [NodeType.isVariableDeclaration, NodeType.isClass]
  simp only [exported?, hd, Option.bind_some, hfunction, hclass, htype, Bool.false_eq_true,
    if_false, if_true]
  cases d.firstDeclarator? with
  | none => rfl
  | some first =>
    simp only [Option.bind_some, declaratorName?]
    cases first.child? .name <;> rfl

/-- What an export statement of anything else exports is no variable. -/
theorem kind_of_exported? (hexport : s.node.type = .exportStatement)
    (hvariables : s.variables? = none) {x : Exported} (hx : src.exported? s.node = some x) :
    x.kind ≠ .variable_ := by
  obtain ⟨d, hd, hx⟩ := Option.bind_eq_some_iff.mp hx
  have htype : d.type.isVariableDeclaration = false := by
    simpa [Spot.variables?, hexport, Spot.child?, hd, Spot.under, Option.filter] using hvariables
  simp only [htype, Bool.false_eq_true, if_false] at hx
  split at hx
  next kind nameNode hfound =>
    obtain ⟨own, -, rfl⟩ := Option.map_eq_some_iff.mp hx
    split at hfound
    · rw [Option.some.injEq, Prod.mk.injEq] at hfound
      rw [← hfound.1]
      simp
    split at hfound
    · rw [Option.some.injEq, Prod.mk.injEq] at hfound
      rw [← hfound.1]
      simp
    · cases hfound
  · cases hx

/-! ## At one declaration -/

section

variable (hplaced : src.root.PlacedIn src.bytes)

include hplaced

/-- A variable is located as the whole declaration under the name of the first declarator, and on
its own under that of a later one. -/
theorem variableIn_cases {t : Spot} (ht : t.In src.root) (name : Text) (shown : Option Node) :
    (src.variableIn t name shown = .ok none ∧
      t.node.declarators.head?.bind src.declaratorName? ≠ some name) ∨
    (∃ first l, t.node.declarators.head? = some first ∧ src.declaratorName? first = some name ∧
      src.variableIn t name shown = .ok (some l) ∧ l.spot = t ∧
      l.symbol = Symbol.ofNode src (shown.getD first) name .variable_ none) ∨
    (∃ d l, src.IsLater name t d ∧ src.variableIn t name shown = .ok (some l) ∧
      l.spot = t.under d ∧ l.symbol = Symbol.ofNode src d name .variable_ none) := by
  unfold variableIn
  rcases src.declaratorNamed?_cases t name with ⟨hnone, hother⟩ | ⟨first, hhead, hfirst, hsome⟩ |
    ⟨d, hlater, hsome⟩
  · rw [hnone]
    exact .inl ⟨rfl, hother⟩
  · obtain ⟨l, hl, hspot, -⟩ := exists_place hplaced ht
      (Symbol.ofNode src (shown.getD first) name .variable_ none)
    refine .inr (.inl ⟨first, l, hhead, hfirst, ?_, hspot, (of_place hl).1⟩)
    rw [hsome]
    cases shown <;>
    · simp only [Option.getD] at hl
      simp only [Symbol.ofNode] at hl ⊢
      rw [hl]
      rfl
  · have hd : d ∈ t.node.children := src.mem_children_of_declaratorNamed? hsome
    obtain ⟨l, hl, hspot, -⟩ := exists_place hplaced (ht.under hd)
      (Symbol.ofNode src d name .variable_ none)
    refine .inr (.inr ⟨d, l, hlater, ?_, hspot, (of_place hl).1⟩)
    rw [hsome]
    simp only [hl]
    rfl

/-- The search for a variable meets a top-level declaration at the declaration that it is or
exports. -/
theorem exists_meets_of_variables {t : Spot} (ht : t.In src.root)
    (hvariables : s.variables? = some t) (shown : Option Node)
    (hlisted : firstOf? name .variable_ (src.entriesAt s) =
      t.node.declarators.head?.bind fun first =>
        if src.declaratorName? first = some name then
          some (Symbol.ofNode src (shown.getD first) name .variable_ none)
        else none) :
    ∃ found, src.variableIn t name shown = .ok found ∧ src.Meets name s found := by
  rcases src.variableIn_cases hplaced ht name shown with ⟨hnone, hother⟩ |
    ⟨first, l, hhead, hfirst, hl, hspot, hsymbol⟩ | ⟨d, l, hlater, hl, hspot, hsymbol⟩
  · refine ⟨none, hnone, .nothing ?_⟩
    rw [hlisted]
    cases hhead : t.node.declarators.head? with
    | none => rfl
    | some first =>
      rw [hhead] at hother
      exact if_neg hother
  · refine ⟨some l, hl, .declaration (hspot ▸ hvariables) ?_⟩
    rw [hlisted, hhead, hsymbol]
    exact if_pos hfirst
  · refine ⟨some l, hl, .later hvariables hlater hspot hsymbol ?_⟩
    rw [hlisted]
    cases hhead : t.node.declarators.head? with
    | none => rfl
    | some first => exact if_neg (hlater.head first hhead)

theorem exists_meets_of_export (hs : s.In src.root) (hexport : s.node.type = .exportStatement)
    (hdirect : ∀ d, s.variables? = some d → d.node.firstDeclarator? = d.node.declarators.head?) :
    ∃ found, src.locateExported s name .variable_ = .ok found ∧ src.Meets name s found := by
  unfold locateExported
  cases hvariables : s.variables? with
  | none =>
    cases hx : src.exported? s.node with
    | none =>
      refine ⟨none, rfl, .nothing ?_⟩
      rw [entriesAt_export src hexport, listExport, hx]
      rfl
    | some x =>
      have hkind := kind_of_exported? hexport hvariables hx
      refine ⟨none, if_pos hkind, .nothing ?_⟩
      rw [entriesAt_export src hexport, listExport, hx]
      exact firstOf?_eq_none (by simpa [Symbol.ofNode] using hkind)
  | some t =>
    obtain ⟨d, hd, rfl, htype⟩ : ∃ d, s.node.child? .declaration = some d ∧ s.under d = t ∧
        d.type.isVariableDeclaration = true := by
      rw [Spot.variables?, if_pos hexport, Option.filter_eq_some_iff, Spot.child?,
        Option.map_eq_some_iff] at hvariables
      obtain ⟨⟨d, hd, rfl⟩, htype⟩ := hvariables
      exact ⟨d, hd, rfl, htype⟩
    have hdeclaration := hs.under (Node.mem_children_of_child? hd)
    have hfirst : d.firstDeclarator? = d.declarators.head? := hdirect _ hvariables
    have hexported := src.exported?_of_variable hd htype
    rw [hfirst] at hexported
    cases hname : d.declarators.head?.bind src.declaratorName? with
    | none =>
      rw [hname] at hexported
      refine ⟨none, by rw [hexported]; rfl, .nothing ?_⟩
      rw [entriesAt_export src hexport, listExport, hexported]
      rfl
    | some own =>
      obtain ⟨first, hhead, hown⟩ := Option.bind_eq_some_iff.mp hname
      rw [hname] at hexported
      rw [hexported]
      refine exists_meets_of_variables hplaced hdeclaration hvariables (some s.node) ?_
      have hhead' : (s.under d).node.declarators.head? = some first := hhead
      rw [entriesAt_export src hexport, listExport, hexported, hhead']
      by_cases hsame : own = name <;> simp [firstOf?_singleton, Symbol.ofNode, hown, hsame]

/-- The search for a variable and the listing meet at every top-level declaration. -/
theorem exists_meets (hdeclares : src.DeclaresVariables) (hs : s ∈ src.topLevel) (name : Text) :
    ∃ found, src.locateAt s name .variable_ = .ok found ∧ src.Meets name s found := by
  have hin := src.in_of_mem_topLevel hs
  have htransparent := not_transparent_of_mem_topLevel s hs
  have hdirect := hdeclares.direct s hs
  unfold locateAt
  by_cases hexport : s.node.type = .exportStatement
  · rw [if_pos hexport]
    exact exists_meets_of_export hplaced hin hexport hdirect
  rw [if_neg hexport, if_pos rfl, NodeType.declares]
  by_cases hvariable : s.node.type.isVariableDeclaration = true
  · have hvariables : s.variables? = some s := by
      rw [Spot.variables?, if_neg hexport, if_pos hvariable]
    rw [hvariable]
    refine exists_meets_of_variables hplaced hin hvariables none ?_
    rw [entriesAt_variable src hvariable, listVariable, hdirect s hvariables]
    cases s.node.declarators.head? with
    | none => rfl
    | some first =>
      cases hown : src.declaratorName? first with
      | none => simp [hown, firstOf?]
      | some own =>
        by_cases hsame : own = name <;> simp [firstOf?_singleton, Symbol.ofNode, hown, hsame]
  · rw [Bool.not_eq_true] at hvariable
    rw [hvariable]
    refine ⟨none, rfl, .nothing (firstOf?_eq_none ?_)⟩
    intro e he
    rw [entriesAt_declaration src htransparent hexport hvariable, List.mem_append] at he
    rcases he with he | he
    · -- Only a declarator on its own would be listed as a variable.
      obtain ⟨kind, own, hkind, -, rfl⟩ := src.mem_ownEntryAt.mp he
      rintro rfl
      rcases NodeType.kind?_eq_variable_iff.mp hkind with halone | hdeclaration
      · exact hdeclares.inDeclarations s hs halone
      · rw [hvariable] at hdeclaration
        cases hdeclaration
    · rw [src.kind_of_mem_methodsAt he]
      decide

end

/-! ## At the first declaration that answers -/

/-- A located variable is a later declarator on its own. Its declaration stands before all that are
listed under the name. -/
def IsAlone (src : Source) (name : Text) (l : Located) : Prop :=
  ∃ front s rear declaration d, src.topLevel = front ++ s :: rear ∧
    s.variables? = some declaration ∧ src.IsLater name declaration d ∧
    l.spot = declaration.under d ∧ l.symbol = Symbol.ofNode src d name .variable_ none ∧
    ∀ e ∈ (front ++ [s]).flatMap src.entriesAt,
      ¬ (e.symbol.name = name ∧ e.symbol.kind = .variable_)

theorem isVariableDeclaration_of_variables? {declaration : Spot}
    (h : s.variables? = some declaration) :
    declaration.node.type.isVariableDeclaration = true := by
  unfold Spot.variables? at h
  split at h
  · exact (Option.filter_eq_some_iff.mp h).2
  split at h
  next hvariable =>
    obtain rfl := Option.some.inj h
    exact hvariable
  · cases h

theorem IsLater.type_eq {declaration : Spot} {d : Node} (h : src.IsLater name declaration d) :
    d.type = .variableDeclarator := by
  obtain ⟨front, rear, htail, -, -⟩ := h.tail
  have hmem : d ∈ declaration.node.declarators.tail := htail ▸ by simp
  simpa using (List.mem_filter.mp (List.mem_of_mem_tail hmem)).2

theorem firstOf?_eq_none_iff {entries : List Listed} : firstOf? name .variable_ entries = none ↔
    ∀ e ∈ entries, ¬ (e.symbol.name = name ∧ e.symbol.kind = .variable_) := by
  simp [firstOf?, List.find?_eq_none]

theorem firstOf?_append (entries more : List Listed) : firstOf? name .variable_ (entries ++ more) =
    (firstOf? name .variable_ entries).or (firstOf? name .variable_ more) := by
  rw [firstOf?, List.map_append, List.find?_append]
  rfl

section

variable (hdeclares : src.DeclaresVariables) (hplaced : src.root.PlacedIn src.bytes)

include hdeclares hplaced

/-- A declaration that the search passes by is not listed under the name. -/
theorem firstOf?_of_passed (hs : s ∈ src.topLevel)
    (hnone : src.locateAt s name .variable_ = .ok none) :
    firstOf? name .variable_ (src.entriesAt s) = none := by
  obtain ⟨found, hfound, hmeets⟩ := exists_meets hplaced hdeclares hs name
  rw [hnone] at hfound
  obtain rfl := Except.ok.inj hfound
  cases hmeets with
  | nothing listed => exact listed

/-- A listed variable is not passed by everywhere. -/
theorem exists_locate_of_listed (hlisted : firstOf? name .variable_ src.listing ≠ none) :
    ∃ l, src.locate name .variable_ = .ok (some l) := by
  obtain ⟨found, hfound, -⟩ := (locate_answers hplaced name .variable_).exists_ok
  cases found with
  | some l => exact ⟨l, hfound⟩
  | none =>
    have hpassed : ∀ s ∈ src.topLevel, src.locateAt s name .variable_ = .ok none :=
      firstOver_eq_none_iff.mp hfound
    refine absurd ?_ hlisted
    rw [listing_eq_flatMap src hdeclares.root, firstOf?_eq_none_iff]
    intro e he
    obtain ⟨s, hs, he⟩ := List.mem_flatMap.mp he
    exact firstOf?_eq_none_iff.mp (firstOf?_of_passed hdeclares hplaced hs (hpassed s hs)) e he

/-- What is located comes from the first declaration that is not passed by. -/
theorem exists_meets_of_locate (hl : src.locate name .variable_ = .ok (some l)) :
    ∃ front s rear, src.topLevel = front ++ s :: rear ∧ src.Meets name s (some l) ∧
      firstOf? name .variable_ (front.flatMap src.entriesAt) = none := by
  have hfirst : firstOver (fun s => src.locateAt s name .variable_) src.topLevel =
      .ok (some l) := hl
  obtain ⟨front, s, rear, hspots, hs, hfront⟩ := exists_of_firstOver hfirst
  have hmem : s ∈ src.topLevel := by simp [hspots]
  obtain ⟨found, hfound, hmeets⟩ := exists_meets hplaced hdeclares hmem name
  rw [hs] at hfound
  obtain rfl := Except.ok.inj hfound
  refine ⟨front, s, rear, hspots, hmeets, ?_⟩
  rw [firstOf?_eq_none_iff]
  intro e he
  obtain ⟨s', hs', he⟩ := List.mem_flatMap.mp he
  have hpassed := firstOf?_of_passed hdeclares hplaced (by simp [hspots, hs']) (hfront s' hs')
  exact firstOf?_eq_none_iff.mp hpassed e he

/-- Every listed variable is located. What is located is the whole declaration that is listed first
under the name, or else one later declarator of a declaration that stands before. -/
theorem exists_locate_variable {v : Symbol} (hv : v ∈ src.symbols) (hkind : v.kind = .variable_) :
    ∃ l, src.locate v.name .variable_ = .ok (some l) ∧
      (l.spot.node.type.isVariableDeclaration = true →
        src.symbols.find? (fun s => s.name = v.name ∧ s.kind = .variable_) = some l.symbol) ∧
      (l.spot.node.type.isVariableDeclaration = false → src.IsAlone v.name l) := by
  have hlisted : firstOf? v.name .variable_ src.listing ≠ none := by
    obtain ⟨e, he, rfl⟩ := List.mem_map.mp hv
    rw [ne_eq, firstOf?_eq_none_iff]
    exact fun hnone => hnone e he ⟨rfl, hkind⟩
  obtain ⟨l, hl⟩ := exists_locate_of_listed hdeclares hplaced hlisted
  obtain ⟨front, s, rear, hspots, hmeets, hfront⟩ := exists_meets_of_locate hdeclares hplaced hl
  refine ⟨l, hl, ?_⟩
  cases hmeets with
  | declaration hspot hentry =>
    have htype := isVariableDeclaration_of_variables? hspot
    refine ⟨fun _ => ?_, by simp [htype]⟩
    show firstOf? v.name .variable_ src.listing = some l.symbol
    rw [listing_eq_flatMap src hdeclares.root, hspots, List.flatMap_append, List.flatMap_cons,
      firstOf?_append, firstOf?_append, hfront, hentry]
    rfl
  | later hspot hlater hunder hsymbol hentry =>
    have htype : l.spot.node.type = .variableDeclarator := hunder ▸ hlater.type_eq
    refine ⟨by simp [htype, NodeType.isVariableDeclaration], fun _ => ?_⟩
    refine ⟨front, s, rear, _, _, hspots, hspot, hlater, hunder, hsymbol, ?_⟩
    rw [← firstOf?_eq_none_iff, List.flatMap_append, List.flatMap_singleton, firstOf?_append,
      hfront, hentry]
    rfl

end

end Source

namespace Redeclared

/-- A declaration of two variables, and the second of them declared and exported again. -/
def text : Text := "var a = 1, b = 2;\nexport var b = 3, c = 4;\n"

/-- The bytes of the file. -/
def bytes : Bytes := Utf8.encodeLossy text

/-- A declarator of a variable with one letter and one digit. -/
def declarator (start : Int) : Node :=
  .mk .variableDeclarator start (start + 5)
    [.plain "identifier" start (start + 1) [], .plain "number" (start + 4) (start + 5) []]
    [(.name, 0)] true

def first : Node := .mk .variableDeclaration 0 17 [declarator 4, declarator 11] [] true

def second : Node := .mk .variableDeclaration 25 42 [declarator 29, declarator 36] [] true

def exported : Node := .mk .exportStatement 18 42 [second] [(.declaration, 0)] true

/-- The source that the parser gives. -/
def source : Source :=
  ⟨Utf8.decode bytes, bytes, .plain "program" 0 43 [first, exported], .javascript,
    Utf8.encode_decode bytes⟩

theorem declares : source.DeclaresVariables where
  root := by decide
  inDeclarations := by decide
  direct := by
    have hspots : source.topLevel = [⟨first, [source.root]⟩, ⟨exported, [source.root]⟩] := rfl
    intro s hs d hd
    rw [hspots, List.mem_cons, List.mem_singleton] at hs
    rcases hs with rfl | rfl
    · obtain rfl := Option.some.inj hd
      rfl
    · obtain rfl := Option.some.inj hd
      rfl

theorem placed : source.root.PlacedIn source.bytes := Node.placedIn_of_isPlaced (by decide +kernel)

end Redeclared

/-- Of the two listed variables the first is located as its whole declaration. The second is the
later declarator of this declaration, and is not located where it is listed. -/
theorem Source.exists_locate_variable_redeclared :
    Redeclared.source.DeclaresVariables ∧ Redeclared.source.root.PlacedIn Redeclared.source.bytes ∧
    Redeclared.source.symbols = [⟨"a", .variable_, "a = 1", 1, none⟩,
      ⟨"b", .variable_, "export var b = 3, c = 4;", 2, none⟩] ∧
    (∃ l, Redeclared.source.locate "a" .variable_ = .ok (some l) ∧
      l.symbol = ⟨"a", .variable_, "a = 1", 1, none⟩) ∧
    ∃ l, Redeclared.source.locate "b" .variable_ = .ok (some l) ∧
      Redeclared.source.IsAlone "b" l ∧ l.symbol = ⟨"b", .variable_, "b = 2", 1, none⟩ := by
  have hsymbols : Redeclared.source.symbols = [⟨"a", .variable_, "a = 1", 1, none⟩,
      ⟨"b", .variable_, "export var b = 3, c = 4;", 2, none⟩] := by decide +kernel
  refine ⟨Redeclared.declares, Redeclared.placed, hsymbols, ?_, ?_⟩
  · obtain ⟨l, hl, hwhole, -⟩ := Source.exists_locate_variable Redeclared.declares Redeclared.placed
      (v := ⟨"a", .variable_, "a = 1", 1, none⟩) (by simp [hsymbols]) rfl
    obtain ⟨l', hl', htype⟩ : ∃ l', Redeclared.source.locate "a" .variable_ = .ok (some l') ∧
        l'.spot.node.type.isVariableDeclaration = true :=
      Source.exists_of_toOption (by decide +kernel)
    obtain rfl : l' = l := Option.some.inj (Except.ok.inj (hl'.symm.trans hl))
    have hfirst := hwhole htype
    rw [hsymbols] at hfirst
    refine ⟨l', hl, (Option.some.inj (Eq.trans ?_ hfirst)).symm⟩
    decide +kernel
  · obtain ⟨l, hl, -, halone⟩ := Source.exists_locate_variable Redeclared.declares Redeclared.placed
      (v := ⟨"b", .variable_, "export var b = 3, c = 4;", 2, none⟩) (by simp [hsymbols]) rfl
    obtain ⟨l', hl', hfound⟩ : ∃ l', Redeclared.source.locate "b" .variable_ = .ok (some l') ∧
        (l'.spot.node.type.isVariableDeclaration, l'.symbol) =
          (false, ⟨"b", .variable_, "b = 2", 1, none⟩) :=
      Source.exists_of_toOption (by decide +kernel)
    obtain rfl : l' = l := Option.some.inj (Except.ok.inj (hl'.symm.trans hl))
    obtain ⟨htype, hsymbol⟩ := Prod.mk.inj hfound
    exact ⟨l', hl, halone htype, hsymbol⟩

end SymbolAtlas
