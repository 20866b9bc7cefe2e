import SymbolAtlas.Proofs.Symbol.Named
import SymbolAtlas.Proofs.Symbol.Placing
import SymbolAtlas.Proofs.Symbol.TopLevelPlaces

/-!
# The first candidate of a class

The candidates for the members of a class are the nodes inside of it in source order, without nested
classes and what is inside of them, and without what is inside of members (`Spot.candidates`). What
is located in a class is the first candidate that qualifies, and nothing if none does; a member
without a class is looked for in the top-level classes one after the other
(`Source.locate_first_candidate`). The search itself does not fail. But what it finds comes with a
range, and a range that ends before it starts is refused.
-/

namespace SymbolAtlas

/-- An element of a list is the first one with a property. -/
def IsFirst {α : Type} (q : α → Prop) (l : List α) (a : α) : Prop :=
  ∃ front rear, l = front ++ a :: rear ∧ q a ∧ ∀ b ∈ front, ¬ q b

section

variable {α : Type} {q : α → Prop} {p : α → Bool} {l : List α} {a : α}

theorem IsFirst.holds (h : IsFirst q l a) : q a := by
  obtain ⟨-, -, -, ha, -⟩ := h
  exact ha

theorem find?_eq_some_iff_isFirst (h : ∀ a, p a = true ↔ q a) :
    l.find? p = some a ↔ IsFirst q l a := by
  rw [List.find?_eq_some_iff_append]
  constructor
  · rintro ⟨ha, front, rear, rfl, hfront⟩
    refine ⟨front, rear, rfl, (h a).mp ha, ?_⟩
    intro b hb hq
    have hnot := hfront b hb
    rw [(h b).mpr hq] at hnot
    cases hnot
  · rintro ⟨front, rear, rfl, ha, hfront⟩
    refine ⟨(h a).mpr ha, front, rear, rfl, ?_⟩
    intro b hb
    rw [Bool.not_eq_true', ← Bool.not_eq_true, h b]
    exact hfront b hb

end

/-- The candidates for members of a class: what is inside of it in source order, without nested
classes and what is inside of them, and without what is inside of members. -/
def Spot.candidates (c : Spot) : List Spot :=
  (c.node.inside.filter Place.isSearched).map (·.spot (c.node :: c.above))

namespace Source

variable {src : Source} {name : Text} {kind : SymbolKind} {owner className : Option Text}
  {c s : Spot}

/-- A node is taken for a member of a name and kind: it has a type of that kind, and the name is its
own or, for a constructor, its own name is that of the constructors of the class. -/
structure Qualifies (src : Source) (name : Text) (kind : SymbolKind) (owner : Option Text)
    (s : Spot) : Prop where
  type : s.node.type.isMemberOfKind kind = true
  named : ∃ own, src.nameOf? s.node = some own ∧
    (own = name ∨ (kind = .constructor ∧ src.grammar.constructorOf? owner = some own))

/-- The name by which a class goes: the one that is given, or else its own. -/
def ownerName (src : Source) (c : Spot) (className : Option Text) : Option Text :=
  className.or (src.nameOf? c.node)

theorem isWanted_wantedNames_iff :
    src.isWanted (src.wantedNames name kind owner) kind s.node = true ↔
      src.Qualifies name kind owner s := by
  rw [isWanted, Bool.and_eq_true]
  cases hown : src.nameOf? s.node with
  | none =>
    constructor
    · rintro ⟨-, hnone⟩
      cases hnone
    · rintro ⟨-, own, hname, -⟩
      rw [hown] at hname
      cases hname
  | some own =>
    have hwanted : own ∈ src.wantedNames name kind owner ↔ own = name ∨
        (kind = .constructor ∧ src.grammar.constructorOf? owner = some own) :=
      mem_wantedNames_iff (nameOf?_ne_nil hown) owner
    constructor
    · rintro ⟨htype, hmem⟩
      exact ⟨htype, own, hown, hwanted.mp (by simpa using hmem)⟩
    · rintro ⟨htype, own', hown', hnamed⟩
      obtain rfl : own = own' := Option.some.inj (hown.symm.trans hown')
      exact ⟨htype, by simpa using hwanted.mpr hnamed⟩

/-- The search finds the first candidate that is wanted. -/
theorem memberIn?_eq_find?_candidates (src : Source) (wanted : List Text) (kind : SymbolKind)
    (c : Spot) : src.memberIn? wanted kind c.above c.node =
      c.candidates.find? fun s => src.isWanted wanted kind s.node := by
  rw [memberIn?_eq_find?_inside, Spot.candidates, List.find?_map, List.find?_filter]
  congr 2
  funext p
  rw [Bool.decide_and, Bool.decide_eq_true, Bool.decide_eq_true]
  rfl

/-- What is located in a class is the first candidate that qualifies. -/
theorem locateInClass_of_isFirst
    (h : IsFirst (src.Qualifies name kind (src.ownerName c className)) c.candidates s) :
    ∃ own, src.nameOf? s.node = some own ∧ src.locateInClass c name kind className =
      some <$> src.place s (Symbol.ofNode src s.node own kind (src.ownerName c className)) := by
  obtain ⟨own, hown, -⟩ := h.holds.named
  have hfound := (find?_eq_some_iff_isFirst fun s => isWanted_wantedNames_iff).mpr h
  rw [← memberIn?_eq_find?_candidates] at hfound
  refine ⟨own, hown, ?_⟩
  unfold ownerName at hfound
  rw [locateInClass, hfound]
  show some <$> src.place s (Symbol.ofNode src s.node ((src.nameOf? s.node).getD []) kind _) = _
  rw [hown, Option.getD_some]
  rfl

/-- Nothing is located in a class exactly if no candidate qualifies. -/
theorem locateInClass_eq_none_iff : src.locateInClass c name kind className = .ok none ↔
    ∀ s ∈ c.candidates, ¬ src.Qualifies name kind (src.ownerName c className) s := by
  have hfind : (∀ s ∈ c.candidates, ¬ src.Qualifies name kind (src.ownerName c className) s) ↔
      src.memberIn? (src.wantedNames name kind (src.ownerName c className)) kind c.above c.node =
        none := by
    rw [memberIn?_eq_find?_candidates, List.find?_eq_none]
    simp only [isWanted_wantedNames_iff]
  rw [hfind]
  unfold locateInClass ownerName
  dsimp only
  split
  · next hnone => exact ⟨fun _ => hnone, fun _ => rfl⟩
  · next s hs =>
    constructor
    · intro hplace
      exact absurd hplace place_ne_none
    · intro hnone
      rw [hs] at hnone
      cases hnone

/-! ## Over some classes -/

section

variable {find : Spot → Except Failure (Option Located)} {spots : List Spot}

theorem firstOver_eq_none_iff :
    firstOver find spots = .ok none ↔ ∀ s ∈ spots, find s = .ok none := by
  induction spots with
  | nil => simp [firstOver]
  | cons s ss ih =>
    rw [firstOver, List.forall_mem_cons, ← ih]
    split
    next hs => simp [hs]
    next hs => simp [hs]
    next hs => simp [hs]

/-- The answer over some places is that of the first place that does not answer with nothing. -/
theorem firstOver_of_isFirst (h : IsFirst (fun s => find s ≠ .ok none) spots c) :
    firstOver find spots = find c := by
  obtain ⟨front, rear, rfl, hc, hfront⟩ := h
  induction front with
  | nil =>
    rw [List.nil_append, firstOver]
    split
    next hs => exact hs.symm
    next hs => exact hs.symm
    next hs => exact absurd hs hc
  | cons s front ih =>
    obtain ⟨hs, hrest⟩ := List.forall_mem_cons.mp hfront
    rw [List.cons_append, firstOver, not_not.mp hs]
    exact ih hrest

end

/-! ## What is located -/

/-- The first candidate that qualifies is located, unless its range or the range of what is directly
around it ends before it starts. -/
theorem locateInClass_cases
    (h : IsFirst (src.Qualifies name kind (src.ownerName c className)) c.candidates s) :
    (src.Placeable s ∧ ∃ own l, src.nameOf? s.node = some own ∧
      src.locateInClass c name kind className = .ok (some l) ∧ l.spot = s ∧
      l.symbol = Symbol.ofNode src s.node own kind (src.ownerName c className)) ∨
    (¬ src.Placeable s ∧ ∃ a b c' d,
      src.locateInClass c name kind className = .error (.invalidRange a b c' d)) := by
  obtain ⟨own, hown, hlocate⟩ := locateInClass_of_isFirst h
  rcases src.place_cases s (Symbol.ofNode src s.node own kind (src.ownerName c className)) with
    ⟨hplaceable, l, hl, hsymbol, hspot⟩ | ⟨hnot, a, b, c', d, herror⟩
  · rw [hl] at hlocate
    exact .inl ⟨hplaceable, own, l, hown, hlocate, hspot, hsymbol⟩
  · rw [herror] at hlocate
    exact .inr ⟨hnot, a, b, c', d, hlocate⟩

/-- In a placed tree the first candidate that qualifies can be placed. -/
theorem placeable_of_placedIn (hplaced : src.root.PlacedIn src.bytes) (hc : c.In src.root)
    (h : IsFirst (src.Qualifies name kind (src.ownerName c className)) c.candidates s) :
    src.Placeable s := by
  rcases locateInClass_cases h with ⟨hplaceable, -⟩ | ⟨-, a, b, c', d, herror⟩
  · exact hplaceable
  · obtain ⟨found, hfound, -⟩ := (locateInClass_answers hplaced hc name kind className).exists_ok
    rw [herror] at hfound
    cases hfound

/-- In a class the first candidate that qualifies is located, and nothing if none does; the range of
what is found is refused if it ends before it starts, which is never so in a placed tree. Without a
class, a member is located in the first top-level class that answers. These classes are the
top-level declarations in source order that are classes or export one, what is decorated and what
stands in preprocessor blocks and templates among them. -/
theorem locate_first_candidate (src : Source) (name : Text) (kind : SymbolKind) :
    (∀ (c : Spot) (className : Option Text),
      (src.locateInClass c name kind className = .ok none ↔
        ∀ s ∈ c.candidates, ¬ src.Qualifies name kind (src.ownerName c className) s) ∧
      ∀ s, IsFirst (src.Qualifies name kind (src.ownerName c className)) c.candidates s →
        (src.Placeable s → ∃ own l, src.nameOf? s.node = some own ∧
          src.locateInClass c name kind className = .ok (some l) ∧ l.spot = s ∧
          l.symbol = Symbol.ofNode src s.node own kind (src.ownerName c className)) ∧
        (¬ src.Placeable s → ∃ startLine startColumn endLine endColumn,
          src.locateInClass c name kind className =
            .error (.invalidRange startLine startColumn endLine endColumn)) ∧
        (src.root.PlacedIn src.bytes → c.In src.root → src.Placeable s)) ∧
    (kind.isMember = true →
      (src.locate name kind = .ok none ↔
        ∀ c ∈ src.classes, src.locateInClass c name kind none = .ok none) ∧
      ∀ c, IsFirst (fun c => src.locateInClass c name kind none ≠ .ok none) src.classes c →
        src.locate name kind = src.locateInClass c name kind none) ∧
    src.classes =
      ((src.root.inside.filter Place.isTopLevel).map (·.spot [src.root])).filterMap classAt? := by
  refine ⟨fun c className => ⟨locateInClass_eq_none_iff, fun s hs => ⟨?_, ?_, ?_⟩⟩, ?_, ?_⟩
  · intro hplaceable
    rcases locateInClass_cases hs with ⟨-, hfound⟩ | ⟨hnot, -⟩
    · exact hfound
    · exact absurd hplaceable hnot
  · intro hnot
    rcases locateInClass_cases hs with ⟨hplaceable, -⟩ | ⟨-, hrefused⟩
    · exact absurd hplaceable hnot
    · exact hrefused
  · exact fun hplaced hc => placeable_of_placedIn hplaced hc hs
  · intro hkind
    have hlocate : src.locate name kind =
        firstOver (fun c => src.locateInClass c name kind none) src.classes := by
      rw [locate, if_pos hkind]
    rw [hlocate]
    exact ⟨firstOver_eq_none_iff, fun c hc => firstOver_of_isFirst hc⟩
  · rw [classes, topLevel_eq_places]

end Source

/-- The method of a class is located as the first candidate of its name. The function inside of the
field is no candidate. -/
theorem Source.locate_first_candidate_stop :
    (∃ l, Arrow.source.locateInClass Arrow.entry.spot "stop" .method none = .ok (some l) ∧
      l.spot.node = Arrow.method) ∧
    Arrow.source.locateInClass Arrow.entry.spot "helper" .method none = .ok none := by
  have hclass := (Arrow.source.isFollowed_of_mem_listing Arrow.entry_mem rfl rfl).spot
  constructor
  · obtain ⟨hsearch, -, -⟩ := Source.locate_first_candidate Arrow.source "stop" .method
    obtain ⟨-, hlocated⟩ := hsearch Arrow.entry.spot none
    -- The name and the body of the class and the field come first, and are no methods.
    obtain ⟨s, hfirst, hnode⟩ : ∃ s, IsFirst (Arrow.source.Qualifies "stop" .method
        (Arrow.source.ownerName Arrow.entry.spot none)) Arrow.entry.spot.candidates s ∧
        s.node = Arrow.method := by
      refine ⟨_, ⟨Arrow.entry.spot.candidates.take 3, [], rfl,
        ⟨rfl, "stop", by decide +kernel, .inl rfl⟩, ?_⟩, rfl⟩
      intro s hs hqualifies
      have htypes : ∀ s ∈ Arrow.entry.spot.candidates.take 3,
          s.node.type.isMemberOfKind .method = false := by decide
      have htype := hqualifies.type
      rw [htypes s hs] at htype
      cases htype
    obtain ⟨hfound, -, hplaceable⟩ := hlocated s hfirst
    obtain ⟨-, l, -, hl, hspot, -⟩ := hfound (hplaceable Arrow.placed hclass)
    exact ⟨l, hl, by rw [hspot, hnode]⟩
  · obtain ⟨hsearch, -, -⟩ := Source.locate_first_candidate Arrow.source "helper" .method
    obtain ⟨hnone, -⟩ := hsearch Arrow.entry.spot none
    refine hnone.mpr ?_
    intro s hs hqualifies
    have hwanted : ∀ s ∈ Arrow.entry.spot.candidates, Arrow.source.isWanted
        (Arrow.source.wantedNames "helper" .method
          (Arrow.source.ownerName Arrow.entry.spot none)) .method s.node = false := by
      decide +kernel
    have hnot := hwanted s hs
    rw [Source.isWanted_wantedNames_iff.mpr hqualifies] at hnot
    cases hnot

namespace Reversed

/-- A class with a method. -/
def text : Text := "class A \x7b\n  f() \x7b\x7d\n\x7d\n"

/-- The bytes of the file. -/
def bytes : Bytes := Utf8.encodeLossy text

/-- A node of the method that ends before it starts. -/
def method : Node :=
  .mk .methodDefinition 18 12 [.plain "property_identifier" 12 13 []] [(.name, 0)] true

/-- The class. -/
def declaration : Node :=
  .mk .classDeclaration 0 20 [.plain "identifier" 6 7 [], .plain "class_body" 8 20 [method]]
    [(.name, 0)] true

/-- The source with a tree that no parser gives. -/
def source : Source :=
  ⟨Utf8.decode bytes, bytes, .plain "program" 0 21 [declaration], .javascript,
    Utf8.encode_decode bytes⟩

/-- The class as a spot of the tree. -/
def class_ : Spot := ⟨declaration, [source.root]⟩

end Reversed

/-- It is not so that the first candidate that qualifies is always located: a range that ends before
it starts is refused. -/
theorem Source.not_locate_first_candidate :
    Reversed.class_ ∈ Reversed.source.classes ∧
    (∃ s, IsFirst (Reversed.source.Qualifies "f" .method
      (Reversed.source.ownerName Reversed.class_ none)) Reversed.class_.candidates s) ∧
    Reversed.source.locateInClass Reversed.class_ "f" .method none =
      .error (.invalidRange 1 8 1 2) ∧
    Reversed.source.locate "f" .method = .error (.invalidRange 1 8 1 2) := by
  refine ⟨?_, ?_, rfl, rfl⟩
  · show Reversed.class_ ∈ [Reversed.class_]
    exact List.mem_singleton_self _
  · -- The method is the last candidate, behind the name and the body of the class.
    refine ⟨_, Reversed.class_.candidates.take 2, [], rfl,
      ⟨rfl, "f", by decide +kernel, .inl rfl⟩, ?_⟩
    intro s hs hqualifies
    have htypes : ∀ s ∈ Reversed.class_.candidates.take 2,
        s.node.type.isMemberOfKind .method = false := by decide
    have htype := hqualifies.type
    rw [htypes s hs] at htype
    cases htype

end SymbolAtlas
