import Mathlib.Data.List.Find
import Mathlib.Data.List.Pairwise
import SymbolAtlas.Proofs.Symbol.Members

/-!
# Methods that are listed and methods that are located

The methods of a listed class follow it in the listing (`Source.isFollowed_of_mem_listing`), and a
method of it is located by its name. Both the walk and the search go over the places inside the
class in the same order, but they do not stop at the same nodes and do not take the same nodes for
methods. They agree on a name exactly if the first place of the name that the one lists stands on
the line of the first place that the other looks at (`Source.methodsAgree_iff`), and they agree on
all names if every place with a name is listed exactly if it is sought. Functions inside a field
are listed but not located (`Source.not_methodsAgree`).
-/

namespace SymbolAtlas

/-- The place of an entry in the tree. -/
def Listed.spot (e : Listed) : Spot := ⟨e.node, e.above⟩

/-- Whether the search for a method takes the node for one, if it has the name. -/
def Place.isSought (p : Place) : Bool := p.isSearched && p.node.type.isMethod

namespace Source

variable (src : Source)

/-- What the walk lists below the class of an entry. -/
def listedInside (e : Listed) : List Listed :=
  src.listNodes (e.node :: e.above) 2 (some e.symbol.name) e.node.children

/-- The line of the first of the places inside a node that pass a test and have a name. -/
def firstLine? (test : Place → Bool) (n : Node) (name : Text) : Option Nat :=
  (n.inside.find? fun p => test p && src.nameOf? p.node = some name).map fun p => src.lineOf p.node

/-- Under a name the class of an entry has a method that is located exactly if it has one that is
listed, and the located one is on the line of the first one listed. -/
structure MethodsAgree (e : Listed) (name : Text) : Prop where
  located_iff :
    (∃ l, src.locateInClass e.spot name .method (some e.symbol.name) = .ok (some l)) ↔
      ∃ m ∈ src.listedInside e, m.symbol.name = name
  line : ∀ l, src.locateInClass e.spot name .method (some e.symbol.name) = .ok (some l) →
    ((src.listedInside e).find? fun m => m.symbol.name = name).map (·.symbol.line) =
      some l.symbol.line

/-! ## Listed classes -/

/-- An entry among others that stands in the tree and that what the walk lists below it follows. -/
structure IsFollowed (e : Listed) (entries : List Listed) : Prop where
  spot : e.spot.In src.root
  follows : ∃ front rear, entries = front ++ e :: (src.listedInside e ++ rear)

theorem IsFollowed.of_isInfix {src : Source} {e : Listed} {entries all : List Listed}
    (h : src.IsFollowed e entries) (hpart : entries <:+: all) : src.IsFollowed e all := by
  obtain ⟨hspot, front, rear, rfl⟩ := h
  obtain ⟨earlier, later, rfl⟩ := hpart
  exact ⟨hspot, earlier ++ front, rear ++ later, by simp⟩

/-- A top-level declaration that is listed as a class is followed by its methods. -/
theorem isFollowed_of_mem_entriesAt {s : Spot} (hs : s.In src.root)
    (ht : s.node.type.isTransparent = false) {e : Listed} (he : e ∈ src.entriesAt s)
    (hkind : e.symbol.kind = .class_) (horigin : e.origin = .declaration) :
    src.IsFollowed e (src.entriesAt s) := by
  rcases src.cases_of_mem_entriesAt ht he with ⟨hother, -⟩ | ⟨heq, hown | hmethod⟩
  · exact absurd horigin hother
  · obtain ⟨kind, name, htype, hname, rfl⟩ := src.mem_ownEntryAt.mp hown
    obtain rfl : kind = .class_ := hkind
    refine ⟨hs, [], [], ?_⟩
    simp [heq, ownEntryAt, methodsAt, listDeclaration, listedInside, htype, hname, Symbol.ofNode]
  · have hmethodKind := src.kind_of_mem_methodsAt hmethod
    rw [hkind] at hmethodKind
    simp at hmethodKind

/-- A top-level declaration of the tree adds the entry to others, next to all else that it adds. -/
def Adds (e : Listed) (entries : List Listed) : Prop :=
  ∃ s : Spot, s.In src.root ∧ s.node.type.isTransparent = false ∧ e ∈ src.entriesAt s ∧
    src.entriesAt s <:+: entries

theorem Adds.of_isInfix {src : Source} {e : Listed} {entries all : List Listed}
    (h : src.Adds e entries) (hpart : entries <:+: all) : src.Adds e all := by
  obtain ⟨s, hs, ht, he, hentries⟩ := h
  exact ⟨s, hs, ht, he, hentries.trans hpart⟩

mutual

/-- The walk lists what the top-level declarations that it comes to add. -/
theorem adds_of_mem_listNode : ∀ {n : Node} {above : List Node} {depth : Nat}, depth ≤ 1 →
    (⟨n, above⟩ : Spot).In src.root → ∀ e ∈ src.listNode above depth none n,
    src.Adds e (src.listNode above depth none n)
  | .mk t b stop cs rs named, above, depth, hdepth, hn, e, he => by
    have hcs : ∀ c ∈ cs, (⟨c, .mk t b stop cs rs named :: above⟩ : Spot).In src.root :=
      fun c hc => hn.under hc
    by_cases hdecorated : t = .decoratedDefinition
    · simp only [listNode, if_pos hdecorated] at he ⊢
      cases hi : Node.indexOf? rs .definition with
      | none => simp [hi] at he
      | some i =>
        rw [hi] at he
        exact adds_of_mem_listNodeAt hdepth hcs e he
    by_cases hblock : t.isTransparentBlock = true
    · simp only [listNode, if_neg hdecorated, if_pos hblock] at he ⊢
      exact adds_of_mem_listNodes hdepth hcs e he
    have ht : (Node.type (.mk t b stop cs rs named)).isTransparent = false :=
      NodeType.isTransparent_eq_false_iff.mpr ⟨hdecorated, by simpa [Node.type] using hblock⟩
    -- Only the root is at depth 0, and it does not count as a declaration.
    obtain rfl | rfl : depth = 0 ∨ depth = 1 := by omega
    · rw [src.listNode_root above ht] at he ⊢
      split at he
      · simp at he
      · next hbelow =>
        rw [if_neg hbelow]
        exact adds_of_mem_listNodes (Nat.le_refl 1) hcs e he
    · exact ⟨_, hn, ht, he, List.infix_refl _⟩

theorem adds_of_mem_listNodes : ∀ {cs above : List Node} {depth : Nat}, depth ≤ 1 →
    (∀ c ∈ cs, (⟨c, above⟩ : Spot).In src.root) → ∀ e ∈ src.listNodes above depth none cs,
    src.Adds e (src.listNodes above depth none cs)
  | [], _, _, _, _, e, he => by simp [listNodes] at he
  | c :: cs, _, _, hdepth, hcs, e, he => by
    rw [listNodes] at he ⊢
    rcases List.mem_append.mp he with he | he
    · have h := adds_of_mem_listNode hdepth (hcs c (by simp)) e he
      exact h.of_isInfix (List.prefix_append ..).isInfix
    · have hlater := fun d hd => hcs d (List.mem_cons_of_mem c hd)
      have h := adds_of_mem_listNodes hdepth hlater e he
      exact h.of_isInfix (List.suffix_append ..).isInfix

theorem adds_of_mem_listNodeAt : ∀ {cs above : List Node} {depth i : Nat}, depth ≤ 1 →
    (∀ c ∈ cs, (⟨c, above⟩ : Spot).In src.root) → ∀ e ∈ src.listNodeAt above depth none cs i,
    src.Adds e (src.listNodeAt above depth none cs i)
  | [], _, _, _, _, _, e, he => by simp [listNodeAt] at he
  | c :: cs, _, _, 0, hdepth, hcs, e, he => by
    rw [listNodeAt] at he ⊢
    exact adds_of_mem_listNode hdepth (hcs c (by simp)) e he
  | c :: cs, _, _, i + 1, hdepth, hcs, e, he => by
    rw [listNodeAt] at he ⊢
    have hlater := fun d hd => hcs d (List.mem_cons_of_mem c hd)
    exact adds_of_mem_listNodeAt hdepth hlater e he

end

theorem adds_of_mem_listing {e : Listed} (he : e ∈ src.listing) : src.Adds e src.listing := by
  have hroot : (⟨src.root, []⟩ : Spot).In src.root := ⟨.self _, by simp⟩
  exact src.adds_of_mem_listNode (by omega) hroot e he

/-- Classes are listed at the top level only, each of them before its methods. -/
theorem isFollowed_of_mem_listing {e : Listed} (he : e ∈ src.listing)
    (hkind : e.symbol.kind = .class_) (horigin : e.origin = .declaration) :
    src.IsFollowed e src.listing := by
  obtain ⟨s, hs, ht, hentry, hpart⟩ := src.adds_of_mem_listing he
  exact (src.isFollowed_of_mem_entriesAt hs ht hentry hkind horigin).of_isInfix hpart

/-! ## Methods by their names -/

section

variable {src} {e : Listed} {name : Text}

theorem listedInside_eq_places (e : Listed) : src.listedInside e =
    (e.node.inside.filter Place.isListed).flatMap
      (src.methodEntry e.symbol.name (e.node :: e.above)) :=
  src.listNodes_eq_places (Nat.le_refl 2) (fun _ => rfl) (fun _ => rfl)

/-- The first method of a name below a class comes from the first listed place of the name. -/
theorem find?_listedInside (e : Listed) (name : Text) :
    ((src.listedInside e).find? fun m => m.symbol.name = name).map (·.symbol.line) =
      src.firstLine? Place.isListed e.node name := by
  rw [listedInside_eq_places, firstLine?]
  induction e.node.inside with
  | nil => rfl
  | cons p ps ih =>
    rw [List.filter_cons, List.find?_cons]
    by_cases hlisted : p.isListed = true
    · rw [if_pos hlisted, hlisted, Bool.true_and, List.flatMap_cons, methodEntry, listDeclaration]
      cases hown : src.nameOf? p.node with
      | none => simpa using ih
      | some own =>
        by_cases hsame : own = name
        · simp [hsame, Symbol.ofNode]
        · simpa [hsame, Symbol.ofNode] using ih
    · rw [Bool.not_eq_true] at hlisted
      simpa [hlisted] using ih

theorem memberIn?_method (n : Node) (above : List Node) (name : Text) :
    src.memberIn? [name] .method above n =
      (n.inside.find? fun p => p.isSought && src.nameOf? p.node = some name).map
        (·.spot (n :: above)) := by
  have htest : (fun p : Place => p.isSearched && src.isWanted [name] .method p.node) =
      fun p => p.isSought && decide (src.nameOf? p.node = some name) := by
    funext p
    rw [Place.isSought, Bool.and_assoc, isWanted]
    cases src.nameOf? p.node <;> simp [NodeType.isMemberOfKind]
  rw [memberIn?_eq_find?_inside, htest]

/-- The method of a name that is located is the first place of the name that the search takes for
a method. -/
theorem line_locateInClass (hplaced : src.root.PlacedIn src.bytes) (he : e.spot.In src.root)
    (name : Text) :
    ∃ found, src.locateInClass e.spot name .method (some e.symbol.name) = .ok found ∧
      found.map (·.symbol.line) = src.firstLine? Place.isSought e.node name := by
  have hwanted : src.wantedNames name .method (some e.symbol.name) = [name] := rfl
  have hmember := src.memberIn?_method e.node e.above name
  simp only [locateInClass, Option.some_or, hwanted, Listed.spot, hmember, firstLine?]
  cases hfirst : e.node.inside.find? fun p => p.isSought && src.nameOf? p.node = some name with
  | none => exact ⟨none, rfl, rfl⟩
  | some p =>
    have hspot : (p.spot (e.node :: e.above)).In src.root := by
      have hfound : src.memberIn? [name] .method e.above e.node =
          some (p.spot (e.node :: e.above)) := by rw [hmember, hfirst, Option.map_some]
      exact src.in_of_memberIn? he.node he.above _ hfound
    obtain ⟨l, hl, -, -⟩ := exists_place hplaced hspot _
    refine ⟨some l, ?_, ?_⟩
    · simp only [Option.map_some]
      rw [hl]
      rfl
    · simp [(of_place hl).1, Symbol.ofNode, Place.spot]

/-- Under a name the listing and the search agree exactly if the first place of the name that is
listed stands on the line of the first one that is sought, if there are such places. -/
theorem methodsAgree_iff_firstLine? (hplaced : src.root.PlacedIn src.bytes)
    (he : e.spot.In src.root) (name : Text) : src.MethodsAgree e name ↔
      src.firstLine? Place.isListed e.node name = src.firstLine? Place.isSought e.node name := by
  obtain ⟨found, hfound, hsought⟩ := line_locateInClass hplaced he name
  have hlisted := src.find?_listedInside e name
  have hsome : (∃ m ∈ src.listedInside e, m.symbol.name = name) ↔
      (src.firstLine? Place.isListed e.node name).isSome = true := by
    rw [← hlisted, Option.isSome_map, List.find?_isSome]
    simp
  have hlocated : (∃ l, src.locateInClass e.spot name .method (some e.symbol.name) =
      .ok (some l)) ↔ (src.firstLine? Place.isSought e.node name).isSome = true := by
    rw [← hsought, hfound, Option.isSome_map, Option.isSome_iff_exists]
    simp
  constructor
  · rintro ⟨hiff, hline⟩
    rw [hlocated, hsome] at hiff
    cases found with
    | none =>
      rw [← hsought] at hiff ⊢
      simpa using hiff
    | some l =>
      rw [← hlisted, ← hsought]
      exact hline l hfound
  · intro heq
    refine ⟨by rw [hlocated, hsome, heq], ?_⟩
    intro l hl
    obtain rfl : found = some l := Except.ok.inj (hfound.symm.trans hl)
    rw [hlisted, heq, ← hsought]
    rfl

/-! ## All names -/

/-- A name has a first line exactly if a place with the name passes the test. -/
theorem isSome_firstLine?_iff {test : Place → Bool} {n : Node} :
    (src.firstLine? test n name).isSome = true ↔
      ∃ p ∈ n.inside, test p = true ∧ src.nameOf? p.node = some name := by
  simp [firstLine?, List.find?_isSome]

theorem firstLine?_congr {test test' : Place → Bool} {n : Node}
    (h : ∀ p ∈ n.inside, src.nameOf? p.node = some name → test p = test' p) :
    src.firstLine? test n name = src.firstLine? test' n name := by
  rw [firstLine?, firstLine?, List.find?_congr]
  intro p hp
  by_cases hname : src.nameOf? p.node = some name
  · rw [h p hp hname]
  · simp [hname]

/-- Two places that do not have one name. -/
def Apart (src : Source) (p q : Place) : Prop :=
  ∀ name, ¬ (src.nameOf? p.node = some name ∧ src.nameOf? q.node = some name)

instance : Std.Symm src.Apart := ⟨fun _ _ h name hboth => h name hboth.symm⟩

/-- Of the places inside a node that are listed or sought no two have the same name. -/
def HasDistinctMethods (src : Source) (n : Node) : Prop :=
  (n.inside.filter fun p => p.isListed || p.isSought).Pairwise src.Apart

/-- If no name is there twice, two places of one name that are listed or sought are the same. -/
theorem HasDistinctMethods.eq {n : Node} (h : src.HasDistinctMethods n) {p q : Place}
    (hp : p ∈ n.inside) (hq : q ∈ n.inside) (hp' : (p.isListed || p.isSought) = true)
    (hq' : (q.isListed || q.isSought) = true) (hpname : src.nameOf? p.node = some name)
    (hqname : src.nameOf? q.node = some name) : p = q := by
  by_contra hne
  have hapart := h.forall (List.mem_filter.mpr ⟨hp, hp'⟩) (List.mem_filter.mpr ⟨hq, hq'⟩) hne
  exact hapart name ⟨hpname, hqname⟩

/-- If no name is there twice, the listing and the search agree on all names only if they take the
same places with names for methods. -/
theorem isListed_eq_isSought {n : Node} (hdistinct : src.HasDistinctMethods n)
    (h : ∀ name, src.firstLine? Place.isListed n name = src.firstLine? Place.isSought n name)
    {p : Place} (hp : p ∈ n.inside) (hname : src.nameOf? p.node = some name) :
    p.isListed = p.isSought := by
  rw [Bool.eq_iff_iff]
  constructor
  · intro hlisted
    have hsought := isSome_firstLine?_iff.mpr ⟨p, hp, hlisted, hname⟩
    rw [h name] at hsought
    obtain ⟨q, hq, hq', hqname⟩ := isSome_firstLine?_iff.mp hsought
    rwa [hdistinct.eq hp hq (by simp [hlisted]) (by simp [hq']) hname hqname]
  · intro hsought
    have hlisted := isSome_firstLine?_iff.mpr ⟨p, hp, hsought, hname⟩
    rw [← h name] at hlisted
    obtain ⟨q, hq, hq', hqname⟩ := isSome_firstLine?_iff.mp hlisted
    rwa [hdistinct.eq hp hq (by simp [hsought]) (by simp [hq']) hname hqname]

end

/-- A class that is listed as a declaration is followed in the listing by its methods. On a name
the listing and the search for methods of the class agree exactly if the first listed place of the
name is on the line of the first sought one. So they agree if every place with a name is listed
exactly if it is sought, and only then if no name is there twice. -/
theorem methodsAgree_iff (hplaced : src.root.PlacedIn src.bytes) {e : Listed}
    (he : e ∈ src.listing) (hkind : e.symbol.kind = .class_) (horigin : e.origin = .declaration) :
    (∃ front rear, src.listing = front ++ e :: (src.listedInside e ++ rear)) ∧
    (∀ m ∈ src.listedInside e, m.IsMethodOf (some e.symbol.name)) ∧
    (∀ name, src.MethodsAgree e name ↔
      src.firstLine? Place.isListed e.node name = src.firstLine? Place.isSought e.node name) ∧
    ((∀ p ∈ e.node.inside, (src.nameOf? p.node).isSome = true → p.isListed = p.isSought) →
      ∀ name, src.MethodsAgree e name) ∧
    (src.HasDistinctMethods e.node → (∀ name, src.MethodsAgree e name) →
      ∀ p ∈ e.node.inside, (src.nameOf? p.node).isSome = true → p.isListed = p.isSought) := by
  obtain ⟨hspot, hfollows⟩ := src.isFollowed_of_mem_listing he hkind horigin
  have hiff := fun name => methodsAgree_iff_firstLine? hplaced hspot name
  refine ⟨hfollows, src.isMethodOf_of_mem_listNodes (Nat.le_refl 2), hiff, ?_, ?_⟩
  · intro hsame name
    refine (hiff name).mpr (firstLine?_congr ?_)
    intro p hp hname
    exact hsame p hp (by simp [hname])
  · intro hdistinct hagree p hp hnamed
    obtain ⟨name, hname⟩ := Option.isSome_iff_exists.mp hnamed
    exact isListed_eq_isSought hdistinct (fun name => (hiff name).mp (hagree name)) hp hname

end Source

namespace Arrow

/-- A class with a function inside a field and a method below. -/
def text : Text :=
  "class A \x7b\n  run = () => \x7b\n    function helper() {}\n  \x7d;\n  stop() {}\n\x7d\n"

/-- The bytes of the file. -/
def bytes : Bytes := Utf8.encodeLossy text

/-- The function inside the field. -/
def helper : Node :=
  .mk .functionDeclaration 30 50 [.plain "identifier" 39 45 [], .plain "formal_parameters" 45 47 [],
    .plain "statement_block" 48 50 []] [(.name, 0)] true

/-- The field. -/
def field : Node :=
  .mk .fieldDefinition 12 54 [.plain "property_identifier" 12 15 [],
    .plain "arrow_function" 18 54 [.plain "formal_parameters" 18 20 [],
      .plain "statement_block" 24 54 [helper]]] [(.property, 0)] true

/-- The method. -/
def method : Node :=
  .mk .methodDefinition 58 67 [.plain "property_identifier" 58 62 [],
    .plain "formal_parameters" 62 64 [], .plain "statement_block" 65 67 []] [(.name, 0)] true

/-- The class. -/
def declaration : Node :=
  .mk .classDeclaration 0 69 [.plain "identifier" 6 7 [], .plain "class_body" 8 69 [field, method]]
    [(.name, 0)] true

/-- The source that the parser gives. -/
def source : Source :=
  ⟨Utf8.decode bytes, bytes, .plain "program" 0 70 [declaration], .javascript,
    Utf8.encode_decode bytes⟩

/-- The entry of the class. -/
def entry : Listed :=
  ⟨Symbol.ofNode source declaration "A" .class_ none, declaration, [source.root], .declaration⟩

theorem placed : source.root.PlacedIn source.bytes := Node.placedIn_of_isPlaced (by decide +kernel)

theorem entry_mem : entry ∈ source.listing := by
  have htop : (⟨declaration, [source.root]⟩ : Spot) ∈ source.topLevel := by
    show _ ∈ [(⟨declaration, [source.root]⟩ : Spot)]
    exact List.mem_singleton_self _
  rw [source.listing_eq_flatMap (by decide), List.mem_flatMap]
  refine ⟨_, htop, ?_⟩
  rw [source.entriesAt_declaration rfl (by decide) rfl]
  refine List.mem_append_left _ (source.mem_listDeclaration.mpr ⟨"A", ?_, rfl⟩)
  decide +kernel

end Arrow

/-- The method of the class is located on the line where it is listed. -/
theorem Source.methodsAgree_stop :
    Arrow.source.root.PlacedIn Arrow.source.bytes ∧ Arrow.entry ∈ Arrow.source.listing ∧
    Arrow.entry.symbol.kind = .class_ ∧ Arrow.entry.origin = .declaration ∧
    Arrow.source.MethodsAgree Arrow.entry "stop" := by
  obtain ⟨-, -, hiff, -⟩ := Source.methodsAgree_iff _ Arrow.placed Arrow.entry_mem rfl rfl
  exact ⟨Arrow.placed, Arrow.entry_mem, rfl, rfl, (hiff _).mpr (by decide +kernel)⟩

/-- The function inside the field of the class is listed as a method, and it is not located. -/
theorem Source.not_methodsAgree :
    Arrow.source.root.PlacedIn Arrow.source.bytes ∧ Arrow.entry ∈ Arrow.source.listing ∧
    Arrow.entry.symbol.kind = .class_ ∧ Arrow.entry.origin = .declaration ∧
    (∃ m ∈ Arrow.source.listedInside Arrow.entry, m.symbol.name = ("helper" : Text)) ∧
    Arrow.source.locateInClass Arrow.entry.spot "helper" .method (some Arrow.entry.symbol.name) =
      .ok none ∧
    ¬ Arrow.source.MethodsAgree Arrow.entry "helper" := by
  have hlisted : (Arrow.source.listedInside Arrow.entry).any
      (fun m => m.symbol.name = ("helper" : Text)) = true := by decide +kernel
  have hsought : Arrow.source.firstLine? Place.isSought Arrow.entry.node "helper" = none := by
    decide +kernel
  have hspot := (Arrow.source.isFollowed_of_mem_listing Arrow.entry_mem rfl rfl).spot
  obtain ⟨found, hfound, hline⟩ := Source.line_locateInClass Arrow.placed hspot "helper"
  rw [hsought, Option.map_eq_none_iff] at hline
  subst hline
  obtain ⟨m, hm, hname⟩ := List.any_eq_true.mp hlisted
  have hmember : ∃ m ∈ Arrow.source.listedInside Arrow.entry, m.symbol.name = ("helper" : Text) :=
    ⟨m, hm, by simpa using hname⟩
  refine ⟨Arrow.placed, Arrow.entry_mem, rfl, rfl, hmember, hfound, ?_⟩
  intro hagree
  obtain ⟨l, hl⟩ := hagree.located_iff.mpr hmember
  rw [hfound] at hl
  simp at hl

end SymbolAtlas
