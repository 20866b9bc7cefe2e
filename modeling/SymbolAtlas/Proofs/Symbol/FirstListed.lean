import SymbolAtlas.Proofs.Symbol.Locating
import SymbolAtlas.Proofs.Symbol.TopLevel

/-!
# What is listed is what is located

For functions, classes and structs the listing and the search agree: `Source.locate` answers with
the first symbol of the name and kind in `Source.symbols`, and with nothing if there is none
(`Source.locate_first_listed`). Both go over the same top-level declarations, so it is enough that
each of them is located under the names that it is listed under (`locateAt_yields`).
-/

namespace SymbolAtlas

/-- The kinds of symbols that are declared at the top level under a name of their own. -/
def SymbolKind.isDefinition : SymbolKind → Bool
  | .function | .class_ | .struct => true
  | _ => false

namespace Source

variable {src : Source} {name : Text} {kind : SymbolKind}

/-- A search that answers, with a located symbol that is the given one or with nothing if none is
given. -/
def Yields (x : Except Failure (Option Located)) (symbol : Option Symbol) : Prop :=
  ∃ found, x = .ok found ∧ found.map (·.symbol) = symbol

theorem yields_none : Yields (.ok none) none := ⟨none, rfl, rfl⟩

/-- A place holds the symbol that it was made for, the text of its node and the node itself. -/
theorem of_place {s : Spot} {symbol : Symbol} {l : Located} (h : src.place s symbol = .ok l) :
    l.symbol = symbol ∧ l.text = src.textOf s.node ∧ l.spot = s := by
  cases hrange : src.rangeOf s.node with
  | error f => simp [place, hrange, bind, Except.bind] at h
  | ok range =>
    simp only [place, hrange, bind, Except.bind, pure, Except.pure] at h
    split at h
    · cases h
      exact ⟨rfl, rfl, rfl⟩
    split at h
    · cases h
      exact ⟨rfl, rfl, rfl⟩
    split at h
    · cases h
    · cases h
      exact ⟨rfl, rfl, rfl⟩

theorem yields_firstOver {find : Spot → Except Failure (Option Located)}
    {answer : Spot → Option Symbol} {spots : List Spot}
    (h : ∀ s ∈ spots, Yields (find s) (answer s)) :
    Yields (firstOver find spots) (spots.findSome? answer) := by
  induction spots with
  | nil => exact yields_none
  | cons s ss ih =>
    obtain ⟨found, hfind, hanswer⟩ := h s (by simp)
    have hrest := ih fun s' hs' => h s' (by simp [hs'])
    rw [firstOver, hfind, List.findSome?_cons, ← hanswer]
    cases found with
    | none => exact hrest
    | some l => exact ⟨some l, rfl, rfl⟩

/-! ## One declaration -/

/-- The first symbol of a name and kind among some entries. -/
def firstOf? (name : Text) (kind : SymbolKind) (entries : List Listed) : Option Symbol :=
  (entries.map (·.symbol)).find? fun s => s.name = name ∧ s.kind = kind

theorem firstOf?_eq_none {entries : List Listed} (h : ∀ e ∈ entries, e.symbol.kind ≠ kind) :
    firstOf? name kind entries = none := by
  simp only [firstOf?, List.find?_eq_none, List.mem_map, forall_exists_index, and_imp,
    forall_apply_eq_imp_iff₂, decide_eq_true_eq, not_and]
  exact fun e he _ => h e he

theorem firstOf?_singleton (e : Listed) : firstOf? name kind [e] =
    if e.symbol.name = name ∧ e.symbol.kind = kind then some e.symbol else none := by
  simp only [firstOf?, List.map_cons, List.map_nil, List.find?_singleton, decide_eq_true_eq]

theorem declares_iff (hkind : kind.isDefinition = true) (type : NodeType) :
    type.declares kind = true ↔ type.kind? = some kind := by
  cases kind <;> simp [SymbolKind.isDefinition] at hkind <;>
    cases type <;> simp [NodeType.declares, NodeType.kind?, NodeType.isFunction, NodeType.isClass]

section

variable (hplaced : src.root.PlacedIn src.bytes)

include hplaced

theorem yields_place {s : Spot} (hs : s.In src.root) (symbol : Symbol) :
    Yields (some <$> src.place s symbol) (some symbol) := by
  obtain ⟨l, hl, -, -⟩ := exists_place hplaced hs symbol
  rw [hl]
  exact ⟨some l, rfl, congrArg some (of_place hl).1⟩

theorem locateExported_yields {s : Spot} (hs : s.In src.root) (hkind : kind.isDefinition = true) :
    Yields (src.locateExported s name kind)
      (firstOf? name kind (src.listExport s.above s.node)) := by
  have hexport : kind ≠ .export_ := by rintro rfl; simp [SymbolKind.isDefinition] at hkind
  have hvariable : kind ≠ .variable_ := by rintro rfl; simp [SymbolKind.isDefinition] at hkind
  unfold locateExported listExport
  cases hx : src.exported? s.node with
  | none => exact yields_none
  | some x =>
    simp only [if_neg hexport, if_neg hvariable]
    by_cases hsame : x.name = name ∧ x.kind = kind
    · obtain ⟨rfl, rfl⟩ := hsame
      have hdeclaration := hs.under (src.mem_children_of_exported? hx)
      rw [firstOf?_singleton]
      simpa [Symbol.ofNode] using yields_place hplaced hdeclaration _
    · simp only [firstOf?_singleton, Symbol.ofNode, if_neg hsame]
      split
      · exact yields_none
      · next hk =>
        rw [if_neg fun hname => hsame ⟨hname, by simpa using hk⟩]
        exact yields_none

/-- A top-level declaration is located under the names that it is listed under. -/
theorem locateAt_yields {s : Spot} (hs : s.In src.root) (ht : s.node.type.isTransparent = false)
    (hkind : kind.isDefinition = true) :
    Yields (src.locateAt s name kind) (firstOf? name kind (src.entriesAt s)) := by
  have hmethod : kind ≠ .method := by rintro rfl; simp [SymbolKind.isDefinition] at hkind
  have hvariable : kind ≠ .variable_ := by rintro rfl; simp [SymbolKind.isDefinition] at hkind
  unfold locateAt
  by_cases hexport : s.node.type = .exportStatement
  · rw [if_pos hexport, entriesAt_export src hexport]
    exact locateExported_yields hplaced hs hkind
  rw [if_neg hexport, if_neg hvariable]
  by_cases hdeclared : s.node.type.isVariableDeclaration = true
  · -- Variables are neither listed nor asked for under these kinds.
    have hdeclares : s.node.type.declares kind = false := by
      cases kind <;> simp [SymbolKind.isDefinition] at hkind <;>
        cases htype : s.node.type <;>
        simp_all [NodeType.isVariableDeclaration, NodeType.declares, NodeType.isFunction,
          NodeType.isClass]
    rw [entriesAt_variable src hdeclared, firstOf?_eq_none, hdeclares]
    · exact yields_none
    · unfold listVariable
      split
      · simp
      · split
        · simpa [Symbol.ofNode] using hvariable.symm
        · simp
  rw [entriesAt_declaration src ht hexport (by simpa using hdeclared)]
  have hmethods : firstOf? name kind (src.methodsAt s) = none :=
    firstOf?_eq_none fun e he => by rw [src.kind_of_mem_methodsAt he]; exact hmethod.symm
  have hown : firstOf? name kind (src.ownEntryAt s ++ src.methodsAt s) =
      firstOf? name kind (src.ownEntryAt s) := by
    simp only [firstOf?, List.map_append, List.find?_append] at hmethods ⊢
    rw [hmethods, Option.or_none]
  rw [hown]
  by_cases hdeclares : s.node.type.declares kind = true
  · rw [ownEntryAt, (declares_iff hkind _).mp hdeclares, hdeclares]
    unfold listDeclaration
    cases hname : src.nameOf? s.node with
    | none => exact yields_none
    | some own =>
      by_cases hsame : own = name
      · subst hsame
        rw [firstOf?_singleton]
        simpa [Symbol.ofNode] using yields_place hplaced hs _
      · have hother : ¬ some own = some name := by simpa using hsame
        simp only [firstOf?_singleton, Symbol.ofNode, hsame, false_and, if_false, if_neg hother]
        exact yields_none
  · have hother : s.node.type.kind? ≠ some kind := fun h => hdeclares ((declares_iff hkind _).mpr h)
    rw [Bool.not_eq_true] at hdeclares
    rw [hdeclares, firstOf?_eq_none]
    · exact yields_none
    · intro e he
      obtain ⟨k, own, htype, -, rfl⟩ := src.mem_ownEntryAt.mp he
      rw [htype] at hother
      exact fun h => hother (congrArg some h)

end

/-! ## All declarations -/

/-- Only methods are listed with a class. -/
theorem parentClass_of_mem_entriesAt {s : Spot} (ht : s.node.type.isTransparent = false)
    {e : Listed} (he : e ∈ src.entriesAt s) (hkind : e.symbol.kind ≠ .method) :
    e.symbol.parentClass = none := by
  rcases src.cases_of_mem_entriesAt ht he with ⟨-, hnone⟩ | ⟨-, hown | hmethod⟩
  · exact hnone
  · obtain ⟨k, n, -, -, rfl⟩ := src.mem_ownEntryAt.mp hown
    rfl
  · exact absurd (src.kind_of_mem_methodsAt hmethod) hkind

/-- In a placed tree the search for a function, class or struct never fails. It finds nothing if
nothing of the name and kind is listed, and otherwise exactly the first listed symbol. -/
theorem locate_first_listed (hroot : src.root.type.isRoot = true)
    (hplaced : src.root.PlacedIn src.bytes) (hkind : kind.isDefinition = true) (name : Text) :
    ∃ found, src.locate name kind = .ok found ∧
      (found = none ↔ ∀ s ∈ src.symbols, ¬ (s.name = name ∧ s.kind = kind)) ∧
      ∀ l, found = some l →
        src.symbols.find? (fun s => s.name = name ∧ s.kind = kind) = some l.symbol ∧
        l.symbol.parentClass = none := by
  have hmember : kind.isMember = false := by
    cases kind <;> simp_all [SymbolKind.isDefinition, SymbolKind.isMember]
  have htransparent : ∀ s ∈ src.topLevel, s.node.type.isTransparent = false :=
    fun s hs => not_transparent_of_mem_topLevel s hs
  have hyields : Yields (src.locate name kind) (firstOf? name kind src.listing) := by
    have hfirst : Yields (firstOver (fun s => src.locateAt s name kind) src.topLevel)
        (src.topLevel.findSome? fun s => firstOf? name kind (src.entriesAt s)) :=
      yields_firstOver fun s hs =>
        locateAt_yields hplaced (src.in_of_mem_topLevel hs) (htransparent s hs) hkind
    rw [locate, hmember, listing_eq_flatMap src hroot, firstOf?, List.map_flatMap,
      List.find?_flatMap]
    exact hfirst
  obtain ⟨found, hfound, hsymbol⟩ := hyields
  refine ⟨found, hfound, ?_, ?_⟩
  · rw [← Option.map_eq_none_iff, hsymbol, firstOf?, List.find?_eq_none]
    simp [symbols]
  · rintro l rfl
    have hlisted : src.symbols.find? (fun s => s.name = name ∧ s.kind = kind) = some l.symbol :=
      hsymbol.symm
    refine ⟨hlisted, ?_⟩
    obtain ⟨e, he, hl⟩ := List.mem_map.mp (List.mem_of_find?_eq_some hlisted)
    have hsame := List.find?_some hlisted
    simp only [decide_eq_true_eq] at hsame
    rw [listing_eq_flatMap src hroot] at he
    obtain ⟨s, hs, he⟩ := List.mem_flatMap.mp he
    rw [← hl] at hsame ⊢
    refine parentClass_of_mem_entriesAt (htransparent s hs) he ?_
    rw [hsame.2]
    rintro rfl
    simp [SymbolKind.isDefinition] at hkind

end Source

namespace Guarded

/-- A function inside two preprocessor conditionals and another one of its name below. -/
def text : Text := "#if A\n#if B\nint f() {}\n#endif\n#endif\nint f(int x) {}\n"

/-- The bytes of the file. -/
def bytes : Bytes := Utf8.encodeLossy text

/-- A function of the name `f`, whose parameters end at an offset. -/
def function (start parametersEnd : Int) : Node :=
  .mk .functionDefinition start (parametersEnd + 3)
    [.plain "primitive_type" start (start + 3) [],
      .mk (.other "function_declarator") (start + 4) parametersEnd
        [.plain "identifier" (start + 4) (start + 5) [],
          .plain "parameter_list" (start + 5) parametersEnd []] [(.declarator, 0)] true,
      .plain "compound_statement" (parametersEnd + 1) (parametersEnd + 3) []]
    [(.declarator, 1)] true

/-- The tree of the file. -/
def tree : Node :=
  .plain "translation_unit" 0 53
    [.mk .preprocIf 0 36 [.mk .preprocIf 6 29 [function 12 19] [] true] [] true, function 37 49]

/-- The source that the parser gives. -/
def source : Source :=
  ⟨Utf8.decode bytes, bytes, tree, .c, Utf8.encode_decode bytes⟩

end Guarded

/-- Of two functions with one name the one inside the conditionals is listed first, and located. -/
theorem Source.locate_first_listed_guarded :
    Guarded.source.root.type.isRoot = true ∧
    Guarded.source.root.PlacedIn Guarded.source.bytes ∧
    SymbolKind.function.isDefinition = true ∧
    ∃ l, Guarded.source.locate "f" .function = .ok (some l) ∧
      l.symbol = ⟨"f", .function, "int f() {}", 3, none⟩ := by
  have hroot : Guarded.source.root.type.isRoot = true := by decide
  have hplaced : Guarded.source.root.PlacedIn Guarded.source.bytes :=
    Node.placedIn_of_isPlaced (by decide +kernel)
  have hkind : SymbolKind.function.isDefinition = true := rfl
  have hfirst : Guarded.source.symbols.find? (fun s => s.name = ("f" : Text) ∧ s.kind = .function) =
      some ⟨"f", .function, "int f() {}", 3, none⟩ := by decide +kernel
  obtain ⟨found, hfound, hnone, hsome⟩ :=
    Source.locate_first_listed hroot hplaced hkind "f"
  refine ⟨hroot, hplaced, hkind, ?_⟩
  cases found with
  | none =>
    have hmem := List.mem_of_find?_eq_some hfirst
    exact absurd ⟨rfl, rfl⟩ (hnone.mp rfl _ hmem)
  | some l =>
    obtain ⟨hl, -⟩ := hsome l rfl
    exact ⟨l, hfound, Option.some.inj (hl.symm.trans hfirst)⟩

end SymbolAtlas
