import SymbolAtlas.Proofs.Symbol.DeclarationLines
import SymbolAtlas.Proofs.Symbol.TopLevel
import SymbolAtlas.Proofs.Tree.Within

/-!
# The order of the listing

In a tree whose nodes follow one another inside their parents the symbols are listed line by line,
and in any tree the methods of a class come right behind the class
(`Source.symbols_ordered_and_grouped`).

For the order the walk is followed node by node: what a node adds to the listing starts inside of
the node (`Source.Run`), and so before what the next node adds. The groups are those of the
top-level declarations (`Grouped.flatMap`).
-/

namespace SymbolAtlas

namespace Node

/-- How far a node reaches: as far as the later one of its ends. -/
def reach (n : Node) : Int := max n.start n.stop

/-- The children of a node lie inside it and follow one another without overlap. -/
structure InOrder (n : Node) : Prop where
  start : 0 ≤ n.start
  inside : ∀ c ∈ n.children, n.start ≤ c.start ∧ c.reach ≤ n.stop
  apart : n.children.Pairwise fun c d => c.reach ≤ d.start

instance (n : Node) : Decidable n.InOrder :=
  decidable_of_iff
    (0 ≤ n.start ∧ (∀ c ∈ n.children, n.start ≤ c.start ∧ c.reach ≤ n.stop) ∧
      n.children.Pairwise fun c d => c.reach ≤ d.start)
    ⟨fun ⟨h₁, h₂, h₃⟩ => ⟨h₁, h₂, h₃⟩, fun ⟨h₁, h₂, h₃⟩ => ⟨h₁, h₂, h₃⟩⟩

/-- A tree in which the children of every node are in order. -/
def Nested (root : Node) : Prop := ∀ n : Node, n.Within root → n.InOrder

variable {root n c : Node}

theorem Nested.child (h : root.Nested) (hc : c ∈ root.children) : c.Nested :=
  fun _ hn => h _ (((Within.self root).child hc).trans hn)

theorem nested_of_children (h : root.InOrder) (hchildren : ∀ c ∈ root.children, c.Nested) :
    root.Nested := by
  intro n hn
  rcases hn.eq_or_child with rfl | ⟨c, hc, hn⟩
  · exact h
  · exact hchildren c hc n hn

mutual

/-- Checks that the children of every node of a tree are in order. -/
def isNested : Node → Bool
  | mk type start stop cs roles isNamed =>
    decide (mk type start stop cs roles isNamed).InOrder && areNested cs

/-- Checks that the children of every node of some trees are in order. -/
def areNested : List Node → Bool
  | [] => true
  | n :: ns => isNested n && areNested ns

end

mutual

/-- A tree that passes the check is nested. -/
theorem nested_of_isNested : ∀ {n : Node}, isNested n = true → n.Nested
  | mk _ _ _ cs _ _, h => by
    rw [isNested, Bool.and_eq_true, decide_eq_true_eq] at h
    exact nested_of_children h.1 (nested_of_areNested h.2)

theorem nested_of_areNested : ∀ {cs : List Node}, areNested cs = true → ∀ c ∈ cs, c.Nested
  | [], _ => by simp
  | n :: ns, h => by
    rw [areNested, Bool.and_eq_true] at h
    exact List.forall_mem_cons.mpr ⟨nested_of_isNested h.1, nested_of_areNested h.2⟩

end

/-- What is below a node of a nested tree lies inside the node. -/
theorem Nested.bounds (h : root.Nested) (hn : n.Within root) :
    root.start ≤ n.start ∧ n.reach ≤ root.reach := by
  induction hn with
  | self => exact ⟨Int.le_refl _, Int.le_refl _⟩
  | @child root n c hn hc ih =>
    obtain ⟨hstart, hreach⟩ := ih h
    obtain ⟨hafter, hbefore⟩ := (h n hn).inside c hc
    have hstop : n.stop ≤ n.reach := Int.le_max_right ..
    exact ⟨by omega, by omega⟩

end Node

/-! ## Order -/

/-- Entries whose nodes start one after the other, from one offset on and up to another one. -/
structure Run (low high : Int) (entries : List Listed) : Prop where
  between : ∀ e ∈ entries, low ≤ e.node.start ∧ e.node.start ≤ high
  ordered : entries.Pairwise fun d e => d.node.start ≤ e.node.start

namespace Run

variable {low middle high : Int} {entries more : List Listed}

theorem nil : Run low high [] := ⟨by simp, List.Pairwise.nil⟩

theorem singleton {e : Listed} (h : low ≤ e.node.start ∧ e.node.start ≤ high) :
    Run low high [e] :=
  ⟨by simpa using h, List.pairwise_singleton _ _⟩

theorem mono (h : Run low high entries) {lower higher : Int} (hlow : lower ≤ low)
    (hhigh : high ≤ higher) : Run lower higher entries := by
  refine ⟨fun e he => ?_, h.ordered⟩
  obtain ⟨hfrom, hto⟩ := h.between e he
  exact ⟨by omega, by omega⟩

theorem append (h : Run low middle entries) (hmore : Run middle high more)
    (hle : low ≤ middle ∧ middle ≤ high) : Run low high (entries ++ more) := by
  refine ⟨fun e he => ?_, ?_⟩
  · rcases List.mem_append.mp he with he | he
    · exact (h.mono (Int.le_refl _) hle.2).between e he
    · exact (hmore.mono hle.1 (Int.le_refl _)).between e he
  · rw [List.pairwise_append]
    refine ⟨h.ordered, hmore.ordered, fun d hd e he => ?_⟩
    have hbefore := (h.between d hd).2
    have hbehind := (hmore.between e he).1
    omega

end Run

namespace Source

variable (src : Source)

variable {n : Node} {above : List Node}

theorem run_listExport : Run n.start n.start (src.listExport above n) := by
  unfold listExport
  split
  · exact .singleton ⟨Int.le_refl _, Int.le_refl _⟩
  · exact .nil

theorem run_listDeclaration {kind : SymbolKind} {owner : Option Text} :
    Run n.start n.start (src.listDeclaration above n kind owner) := by
  unfold listDeclaration
  split
  · exact .singleton ⟨Int.le_refl _, Int.le_refl _⟩
  · exact .nil

theorem run_listVariable (hn : n.Nested) : Run n.start n.reach (src.listVariable above n) := by
  unfold listVariable
  split
  · exact .nil
  next d hd =>
    split
    · obtain ⟨hstart, hreach⟩ := hn.bounds (Node.within_of_firstDeclarator? hd)
      have hown : d.start ≤ d.reach := Int.le_max_left ..
      exact .singleton ⟨hstart, Int.le_trans hown hreach⟩
    · exact .nil

mutual

/-- What a node of a nested tree adds to the listing starts inside of it, one after the other. -/
theorem run_listNode : ∀ {n : Node} {above : List Node} {depth : Nat} {owner : Option Text},
    n.Nested → Run n.start n.reach (src.listNode above depth owner n)
  | .mk t b stop cs rs named, above, depth, owner, hn => by
    obtain ⟨-, hinside, hapart⟩ := hn _ (.self _)
    have hreach : b ≤ (Node.mk t b stop cs rs named).reach := Int.le_max_left ..
    have hcs : ∀ c ∈ cs,
        c.Nested ∧ b ≤ c.start ∧ c.reach ≤ (Node.mk t b stop cs rs named).reach := by
      intro c hc
      obtain ⟨hstart, hstop⟩ := hinside c hc
      exact ⟨hn.child hc, hstart, Int.le_trans hstop (Int.le_max_right ..)⟩
    have hbelow : ∀ above depth owner, Run b (Node.mk t b stop cs rs named).reach
        (src.listNodes above depth owner cs) :=
      fun _ _ _ => run_listNodes hcs hapart hreach
    have hself : ∀ {entries}, Run b b entries →
        Run b (Node.mk t b stop cs rs named).reach entries :=
      fun h => h.mono (Int.le_refl _) hreach
    have hentry : ∀ kind owner,
        Run b b (src.listDeclaration above (.mk t b stop cs rs named) kind owner) :=
      fun _ _ => run_listDeclaration src (n := .mk t b stop cs rs named)
    simp only [listNode]
    split
    · split
      · exact run_listNodeAt hcs
      · exact .nil
    split
    · exact hbelow _ _ _
    split
    · exact hbelow _ _ _
    split
    · split
      · exact hself (run_listExport src (n := .mk t b stop cs rs named))
      · exact .nil
    split
    · split
      · exact run_listVariable src hn
      · exact .nil
    split
    · exact hself (hentry _ _)
    split
    · -- The declaration comes first, what is listed inside it behind.
      split
      next entry hone =>
        have hfirst := hentry .class_ none
        rw [hone] at hfirst
        exact hfirst.append (hbelow _ _ _) ⟨Int.le_refl _, hreach⟩
      next => exact (hentry _ _).append (hbelow _ _ _) ⟨Int.le_refl _, hreach⟩
    · exact hbelow _ _ _

theorem run_listNodes : ∀ {cs above : List Node} {depth : Nat} {owner : Option Text}
    {low high : Int}, (∀ c ∈ cs, c.Nested ∧ low ≤ c.start ∧ c.reach ≤ high) →
    cs.Pairwise (fun c d => c.reach ≤ d.start) → low ≤ high →
    Run low high (src.listNodes above depth owner cs)
  | [], _, _, _, _, _, _, _, _ => by
    rw [listNodes]
    exact .nil
  | c :: cs, above, depth, owner, low, high, hcs, hapart, hle => by
    rw [listNodes]
    obtain ⟨⟨hc, hlow, hhigh⟩, hlater⟩ := List.forall_mem_cons.mp hcs
    obtain ⟨hnext, hapart⟩ := List.pairwise_cons.mp hapart
    have hreach : c.start ≤ c.reach := Int.le_max_left ..
    refine ((run_listNode hc).mono hlow (Int.le_refl _)).append
      (run_listNodes ?_ hapart hhigh) ⟨by omega, hhigh⟩
    intro d hd
    exact ⟨(hlater d hd).1, hnext d hd, (hlater d hd).2.2⟩

theorem run_listNodeAt : ∀ {cs above : List Node} {depth i : Nat} {owner : Option Text}
    {low high : Int}, (∀ c ∈ cs, c.Nested ∧ low ≤ c.start ∧ c.reach ≤ high) →
    Run low high (src.listNodeAt above depth owner cs i)
  | [], _, _, _, _, _, _, _ => by
    rw [listNodeAt]
    exact .nil
  | c :: cs, _, _, 0, _, _, _, hcs => by
    obtain ⟨hc, hlow, hhigh⟩ := hcs c List.mem_cons_self
    rw [listNodeAt]
    exact (run_listNode hc).mono hlow hhigh
  | c :: cs, _, _, i + 1, _, _, _, hcs => by
    rw [listNodeAt]
    exact run_listNodeAt fun d hd => hcs d (List.mem_cons_of_mem c hd)

end

/-- A node that starts later does not start on an earlier line. -/
theorem lineOf_le_lineOf {m n : Node} (hm : 0 ≤ m.start) (h : m.start ≤ n.start) :
    src.lineOf m ≤ src.lineOf n := by
  have hcut : Offset.cut src.bytes.length m.start ≤ Offset.cut src.bytes.length n.start := by
    unfold Offset.cut
    rw [if_neg (by omega), if_neg (by omega)]
    omega
  have hbefore : Offset.before src.bytes m.start <+: Offset.before src.bytes n.start :=
    List.take_prefix_take_left hcut
  exact Nat.succ_le_succ (hbefore.sublist.count_le _)

/-- In a nested tree the symbols are listed line by line. -/
theorem pairwise_symbols (h : src.root.Nested) :
    src.symbols.Pairwise fun s t => s.line ≤ t.line := by
  have hrun : Run src.root.start src.root.reach src.listing := src.run_listNode h
  have hstart := (h _ (.self _)).start
  rw [symbols, List.pairwise_map]
  refine hrun.ordered.imp_of_mem fun {d e} hd he hle => ?_
  rw [line_of_mem_listNode hd, line_of_mem_listNode he]
  have hbetween := (hrun.between d hd).1
  exact src.lineOf_le_lineOf (by omega) hle

end Source

/-! ## Groups -/

/-- In a list of symbols each symbol with a class is a method of it. The class comes before, and
there is nothing but methods of the class between. -/
def Grouped (symbols : List Symbol) : Prop :=
  ∀ before s after owner, symbols = before ++ s :: after → s.parentClass = some owner →
    s.kind = .method ∧ ∃ front c run, before = front ++ c :: run ∧
      c.kind = .class_ ∧ c.parentClass = none ∧ c.name = owner ∧
      ∀ m ∈ run, m.kind = .method ∧ m.parentClass = some owner

namespace Grouped

variable {symbols more : List Symbol}

theorem of_parentClass (h : ∀ s ∈ symbols, s.parentClass = none) : Grouped symbols := by
  rintro before s after owner rfl howner
  rw [h s (by simp)] at howner
  cases howner

theorem append (h : Grouped symbols) (hmore : Grouped more) : Grouped (symbols ++ more) := by
  intro before s after owner heq howner
  rcases List.append_eq_append_iff.mp heq with ⟨rest, hbefore, hafter⟩ | ⟨rest, hsymbols, hrest⟩
  · -- The symbol is one of the second list.
    obtain ⟨hkind, front, c, run, rfl, hclass⟩ := hmore _ _ _ _ hafter howner
    exact ⟨hkind, symbols ++ front, c, run, by rw [hbefore, List.append_assoc], hclass⟩
  · cases rest with
    | nil =>
      obtain ⟨hkind, front, c, run, hnil, -⟩ := hmore [] s after owner hrest.symm howner
      simp at hnil
    | cons t rest =>
      obtain ⟨rfl, rfl⟩ := List.cons.inj hrest
      exact h _ _ _ _ hsymbols howner

theorem class_append {c : Symbol} (hkind : c.kind = .class_) (hparent : c.parentClass = none)
    (h : ∀ m ∈ symbols, m.kind = .method ∧ m.parentClass = some c.name) :
    Grouped (c :: symbols) := by
  intro before s after owner heq howner
  cases before with
  | nil =>
    obtain ⟨rfl, -⟩ := List.cons.inj heq
    rw [hparent] at howner
    cases howner
  | cons d before =>
    obtain ⟨rfl, rfl⟩ := List.cons.inj heq
    obtain ⟨hs, hs'⟩ := h s (by simp)
    obtain rfl : c.name = owner := Option.some.inj (hs'.symm.trans howner)
    exact ⟨hs, [], c, before, rfl, hkind, hparent, rfl, fun m hm => h m (by simp [hm])⟩

theorem flatMap {spots : List Spot} {entries : Spot → List Listed}
    (h : ∀ s ∈ spots, Grouped ((entries s).map (·.symbol))) :
    Grouped ((spots.flatMap entries).map (·.symbol)) := by
  induction spots with
  | nil => exact of_parentClass (by simp)
  | cons s spots ih =>
    rw [List.flatMap_cons, List.map_append]
    exact (h s (by simp)).append (ih fun t ht => h t (by simp [ht]))

end Grouped

namespace Source

variable (src : Source)

/-- What a top-level declaration adds to the listing is grouped. -/
theorem grouped_entriesAt {s : Spot} (ht : s.node.type.isTransparent = false) :
    Grouped ((src.entriesAt s).map (·.symbol)) := by
  by_cases hother : ∀ e ∈ src.entriesAt s, e.symbol.parentClass = none
  · exact .of_parentClass (by simpa using hother)
  push Not at hother
  obtain ⟨e, he, howner⟩ := hother
  rcases src.cases_of_mem_entriesAt ht he with ⟨-, hnone⟩ | ⟨heq, hown | hmethod⟩
  · exact absurd hnone howner
  · obtain ⟨kind, name, -, -, rfl⟩ := src.mem_ownEntryAt.mp hown
    exact absurd rfl howner
  · -- Only a class with a name has methods.
    unfold methodsAt at hmethod
    split at hmethod
    next name hkind hname =>
      simp only [heq, ownEntryAt, methodsAt, listDeclaration, hkind, hname, List.singleton_append,
        List.map_cons]
      refine Grouped.class_append rfl rfl fun m hm => ?_
      obtain ⟨entry, hentry, rfl⟩ := List.mem_map.mp hm
      have h := src.isMethodOf_of_mem_listNodes (Nat.le_refl 2) entry hentry
      exact ⟨h.kind, h.parentClass⟩
    next => simp at hmethod

theorem grouped_symbols : Grouped src.symbols := by
  rw [symbols, listing, listNode_eq_flatMap]
  refine .flatMap fun s hs => ?_
  have htransparent := not_transparent_of_mem_topLevelOf s hs
  rw [listNode_root src s.above htransparent]
  split
  · exact .of_parentClass (by simp)
  · rw [listNodes_eq_flatMap]
    exact .flatMap fun t ht => src.grouped_entriesAt (not_transparent_of_mem_topLevel t ht)

/-- If the nodes of the tree follow one another inside their parents, the symbols are listed line by
line. Whatever the tree, their lines are lines of the text and the methods of a class come right
behind the class. -/
theorem symbols_ordered_and_grouped :
    (src.root.Nested → src.symbols.Pairwise fun s t => s.line ≤ t.line) ∧
      (∀ s ∈ src.symbols, 1 ≤ s.line ∧ s.line ≤ (Text.lines src.text).length) ∧
      Grouped src.symbols :=
  ⟨src.pairwise_symbols, fun _ => line_of_mem_symbols, src.grouped_symbols⟩

end Source

namespace OverLines

/-- A class with two methods, an exported variable, and a variable below its keyword. -/
def text : Text :=
  "class A \x7b\n  f() \x7b\x7d\n  g() \x7b\x7d\n\x7d\nexport var\n  b = 1;\nvar\n  c = 2;\n"

/-- The bytes of the file. -/
def bytes : Bytes := Utf8.encodeLossy text

/-- A method without parameters or statements, at an offset. -/
def method (start : Int) : Node :=
  .mk .methodDefinition start (start + 6)
    [.plain "property_identifier" start (start + 1) [],
      .plain "formal_parameters" (start + 1) (start + 3) [],
      .plain "statement_block" (start + 4) (start + 6) []] [(.name, 0)] true

/-- The class. -/
def declaration : Node :=
  .mk .classDeclaration 0 29 [.plain "identifier" 6 7 [],
    .plain "class_body" 8 29 [method 12, method 21]] [(.name, 0)] true

/-- A declaration of a variable with one letter and one digit in the next line. -/
def declared (start : Int) : Node :=
  .mk .variableDeclaration start (start + 12)
    [.mk .variableDeclarator (start + 6) (start + 11)
      [.plain "identifier" (start + 6) (start + 7) [],
        .plain "number" (start + 10) (start + 11) []] [(.name, 0)] true] [] true

/-- The source that the parser gives. -/
def source : Source :=
  ⟨Utf8.decode bytes, bytes, .plain "program" 0 63 [declaration,
    .mk .exportStatement 30 49 [declared 37] [(.declaration, 0)] true, declared 50], .javascript,
    Utf8.encode_decode bytes⟩

end OverLines

/-- The methods follow their class. The exported variable is listed on the line of its export, the
other one on the line of its declarator. -/
theorem Source.symbols_ordered_and_grouped_overLines :
    OverLines.source.root.Nested ∧
    OverLines.source.symbols.map (fun s => (s.name, s.line, s.parentClass)) =
      ([("A", 1, none), ("f", 2, some "A"), ("g", 3, some "A"), ("b", 5, none), ("c", 8, none)] :
        List (Text × Nat × Option Text)) ∧
    OverLines.source.symbols.Pairwise (fun s t => s.line ≤ t.line) ∧
    (∀ s ∈ OverLines.source.symbols,
      1 ≤ s.line ∧ s.line ≤ (Text.lines OverLines.source.text).length) ∧
    Grouped OverLines.source.symbols := by
  have hnested : OverLines.source.root.Nested := Node.nested_of_isNested (by decide +kernel)
  obtain ⟨hordered, hlines, hgrouped⟩ := OverLines.source.symbols_ordered_and_grouped
  exact ⟨hnested, by decide +kernel, hordered hnested, hlines, hgrouped⟩

end SymbolAtlas
