import Mathlib.Data.List.TakeWhile
import SymbolAtlas.Proofs.Symbol.Methods

/-!
# The classes that methods belong to

The walk credits a method to a class that it lists (`Source.exists_class_of_mem_entriesAt`). Between
the method and this class there is no other class, since the walk forgets the class around a class
that it does not list. It does not forget it around a struct. So the class is the type directly
around the method exactly if no struct lies between them (`Source.enclosingType?_eq_owner_iff`).
-/

namespace SymbolAtlas

/-- Classes and structs. -/
def NodeType.hasMembers (type : NodeType) : Bool := type.isClass || type = .structSpecifier

/-- The class or struct that is met first on the way up from a listed node. -/
def Listed.enclosingType? (e : Listed) : Option Spot :=
  match e.above.dropWhile fun n => !n.type.hasMembers with
  | [] => none
  | n :: above => some ⟨n, above⟩

namespace Listed

variable {e c : Listed} {between : List Node}

/-- The way up from a listed node comes to a class first if it comes to no other class or struct
before. -/
theorem enclosingType?_eq_iff (h : e.above = between ++ c.node :: c.above)
    (hc : c.node.type.isClass = true) : e.enclosingType? = some c.spot ↔
      ∀ n ∈ between, n.type.hasMembers = false := by
  have hstop : (!c.node.type.hasMembers) = false := by simp [NodeType.hasMembers, hc]
  unfold enclosingType?
  rw [h]
  constructor
  · intro hfirst
    by_contra hstruct
    have hne : between.dropWhile (fun n => !n.type.hasMembers) ≠ [] := by
      intro hnil
      apply hstruct
      intro n hn
      simpa using List.dropWhile_eq_nil_iff.mp hnil n hn
    obtain ⟨n, rest, hcons⟩ := List.exists_cons_of_ne_nil hne
    rw [List.dropWhile_append, hcons] at hfirst
    -- The spot that is met lies deeper than the class.
    have hspot : (⟨n, rest ++ c.node :: c.above⟩ : Spot) = c.spot := Option.some.inj hfirst
    have hlength := congrArg (·.above.length) hspot
    simp [spot] at hlength
    omega
  · intro hnone
    rw [List.dropWhile_append_of_pos (by simpa using hnone),
      List.dropWhile_cons_of_neg (by simp [hstop])]
    rfl

end Listed

namespace Source

variable {src : Source} {e : Listed} {owner : Text}

/-- A method that a top-level declaration adds is listed inside the class that the declaration
adds. -/
theorem exists_class_of_mem_entriesAt {s : Spot} (ht : s.node.type.isTransparent = false)
    (he : e ∈ src.entriesAt s) (howner : e.symbol.parentClass = some owner) :
    ∃ c ∈ src.entriesAt s, c.symbol.kind = .class_ ∧ c.symbol.name = owner ∧
      c.origin = .declaration ∧ c.node.type.isClass = true ∧ e ∈ src.listedInside c := by
  rcases src.cases_of_mem_entriesAt ht he with ⟨-, hnone⟩ | ⟨heq, hown | hmethod⟩
  · rw [hnone] at howner
    cases howner
  · obtain ⟨kind, name, -, -, rfl⟩ := src.mem_ownEntryAt.mp hown
    cases howner
  · unfold methodsAt at hmethod
    split at hmethod
    · next name htype hname =>
      refine ⟨⟨Symbol.ofNode src s.node name .class_ none, s.node, s.above, .declaration⟩, ?_, rfl,
        ?_, rfl, NodeType.isClass_iff.mpr htype, hmethod⟩
      · rw [heq]
        exact List.mem_append_left _ (src.mem_ownEntryAt.mpr ⟨_, _, htype, hname, rfl⟩)
      · have hparent := (src.isMethodOf_of_mem_listNodes (Nat.le_refl 2) e hmethod).parentClass
        rw [howner] at hparent
        exact (Option.some.inj hparent).symm
    · simp at hmethod

/-- What is listed inside a class lies below it, with no class between. -/
theorem exists_between_of_mem_listedInside {c : Listed} (he : e ∈ src.listedInside c) :
    ∃ between, e.above = between ++ c.node :: c.above ∧ ∀ n ∈ between, n.type.isClass = false := by
  rw [listedInside_eq_places, List.mem_flatMap] at he
  obtain ⟨p, hp, hentry⟩ := he
  obtain ⟨-, hlisted⟩ := List.mem_filter.mp hp
  obtain ⟨name, -, rfl⟩ := src.mem_listDeclaration.mp hentry
  refine ⟨p.steps.map (·.node), rfl, ?_⟩
  intro n hn
  obtain ⟨step, hstep, rfl⟩ := List.mem_map.mp hn
  rw [Place.isListed, Bool.and_eq_true] at hlisted
  have hwalked := List.all_eq_true.mp hlisted.2 step hstep
  cases hclass : step.node.type.isClass with
  | false => rfl
  | true => simp [Step.isWalked, NodeType.isPassedOver, hclass] at hwalked

/-- A method is credited to a listed class that it lies inside of, with no other class between. This
class is the type directly around the method exactly if no struct lies between them. -/
theorem enclosingType?_eq_owner_iff (he : e ∈ src.listing)
    (howner : e.symbol.parentClass = some owner) :
    ∃ c ∈ src.listing, c.symbol.kind = .class_ ∧ c.symbol.name = owner ∧
      c.origin = .declaration ∧ c.node.type.isClass = true ∧ e ∈ src.listedInside c ∧
      ∃ between, e.above = between ++ c.node :: c.above ∧
        (∀ n ∈ between, n.type.isClass = false) ∧
        (e.enclosingType? = some c.spot ↔ ∀ n ∈ between, n.type ≠ .structSpecifier) := by
  obtain ⟨s, -, ht, hentry, hpart⟩ := src.adds_of_mem_listing he
  obtain ⟨c, hc, hkind, hname, horigin, hclass, hinside⟩ :=
    exists_class_of_mem_entriesAt ht hentry howner
  obtain ⟨between, habove, hbetween⟩ := exists_between_of_mem_listedInside hinside
  refine ⟨c, hpart.subset hc, hkind, hname, horigin, hclass, hinside, between, habove,
    hbetween, ?_⟩
  rw [Listed.enclosingType?_eq_iff habove hclass]
  constructor
  · intro hnone n hn hstruct
    have := hnone n hn
    simp [NodeType.hasMembers, hstruct] at this
  · intro hnone n hn
    simp [NodeType.hasMembers, hbetween n hn, hnone n hn]

end Source

namespace InnerStruct

/-- A class with a struct inside and a method behind the struct. -/
def text : Text :=
  "class A \x7b\n  struct B \x7b\n    void f() \x7b\x7d\n  \x7d;\n  void g() \x7b\x7d\n\x7d;\n"

/-- The bytes of the file. -/
def bytes : Bytes := Utf8.encodeLossy text

/-- A function without parameters or statements, at an offset. -/
def function (start : Int) : Node :=
  .mk .functionDefinition start (start + 11)
    [.plain "primitive_type" start (start + 4) [],
      .mk (.other "function_declarator") (start + 5) (start + 8)
        [.plain "field_identifier" (start + 5) (start + 6) [],
          .plain "parameter_list" (start + 6) (start + 8) []] [(.declarator, 0)] true,
      .plain "compound_statement" (start + 9) (start + 11) []] [(.declarator, 1)] true

/-- The field that declares the struct. -/
def field : Node :=
  .mk .fieldDeclaration 12 43
    [.mk .structSpecifier 12 42 [.plain "type_identifier" 19 20 [],
      .plain "field_declaration_list" 21 42 [function 27]] [(.name, 0)] true] [] true

/-- The source that the parser gives. -/
def source : Source :=
  ⟨Utf8.decode bytes, bytes, .plain "translation_unit" 0 61
    [.mk .classSpecifier 0 59 [.plain "type_identifier" 6 7 [],
      .plain "field_declaration_list" 8 59 [field, function 46]] [(.name, 0)] true], .cpp,
    Utf8.encode_decode bytes⟩

end InnerStruct

/-- The method behind the struct belongs to the class, which is the type around it. -/
theorem Source.enclosingType?_eq_owner_behind :
    ∃ e ∈ InnerStruct.source.listing, e.symbol.name = "g" ∧ e.symbol.parentClass = some "A" ∧
      ∃ c ∈ InnerStruct.source.listing, c.symbol.name = "A" ∧ e.enclosingType? = some c.spot := by
  have hlisted : (InnerStruct.source.listing.any fun e => e.symbol.name = "g" ∧
      e.symbol.parentClass = some (Text.ofString "A") ∧
      e.above.all fun n => n.type ≠ .structSpecifier) = true := by
    decide +kernel
  obtain ⟨e, he, htest⟩ := List.any_eq_true.mp hlisted
  obtain ⟨hname, howner, hstruct⟩ := of_decide_eq_true htest
  obtain ⟨c, hc, -, hcname, -, -, -, between, habove, -, hiff⟩ :=
    Source.enclosingType?_eq_owner_iff he howner
  refine ⟨e, he, hname, howner, c, hc, hcname, hiff.mpr ?_⟩
  intro n hn
  have hmem : n ∈ e.above := by
    rw [habove]
    exact List.mem_append_left _ hn
  simpa using List.all_eq_true.mp hstruct n hmem

/-- The method of the struct is listed as one of the class, and the type around it is the struct. -/
theorem Source.enclosingType?_ne_owner_inside :
    ∃ e ∈ InnerStruct.source.listing, e.symbol.name = "f" ∧ e.symbol.parentClass = some "A" ∧
      ∃ s, e.enclosingType? = some s ∧ s.node.type = .structSpecifier ∧
        ∀ c : Listed, c.node.type.isClass = true → e.enclosingType? ≠ some c.spot := by
  have hlisted : (InnerStruct.source.listing.any fun e => e.symbol.name = "f" ∧
      e.symbol.parentClass = some (Text.ofString "A") ∧
      e.enclosingType?.map (·.node.type) = some .structSpecifier) = true := by
    decide +kernel
  obtain ⟨e, he, htest⟩ := List.any_eq_true.mp hlisted
  obtain ⟨hname, howner, htype⟩ := of_decide_eq_true htest
  obtain ⟨s, hs, hstruct⟩ := Option.map_eq_some_iff.mp htype
  refine ⟨e, he, hname, howner, s, hs, hstruct, ?_⟩
  intro c hclass heq
  obtain rfl : s = c.spot := Option.some.inj (hs.symm.trans heq)
  have hother : c.node.type = .structSpecifier := hstruct
  rw [hother] at hclass
  cases hclass

end SymbolAtlas
