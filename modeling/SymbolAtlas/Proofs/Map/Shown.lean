import SymbolAtlas.Map.Outline
import SymbolAtlas.Proofs.Symbol.DeclarationLines
import SymbolAtlas.Proofs.Text.CodeLines
import SymbolAtlas.Proofs.Tree.Within

/-!
# The lines that an outline shows

Main statement: an outline shows the line on which a listed symbol is declared if and only if this
line is neither blank nor starts as comments do (`ofFile_shows_iff`). A declaration behind a comment
on its own line, or one that starts with a star, is not shown.

The lines that are shown are the picks of the declared lines (`exists_importantLines`), and a pick
is always a line of code.
-/

namespace SymbolAtlas

namespace Outline

/-! ## The line picked for a symbol -/

/-- The line to show for a symbol declared on a line of the text. -/
def choice? (ls : List Text) (line : Nat) : Option Nat := (lastCode? ls line).or (firstCode? ls)

/-- A line of code. -/
def IsCode (ls : List Text) (n : Nat) : Prop := ∃ l, ls[n]? = some l ∧ isQuiet l = false

theorem isCode_of_lastCode? {ls : List Text} {n k : Nat} (h : lastCode? ls n = some k) :
    IsCode ls k := by
  induction n with
  | zero => simp [lastCode?] at h
  | succ n ih =>
    rw [lastCode?] at h
    split at h
    next l hl =>
      split at h
      · exact ih h
      next hquiet =>
        obtain rfl : n = k := Option.some.inj h
        exact ⟨l, hl, by simpa using hquiet⟩
    next => exact ih h

theorem isCode_of_firstCode? {ls : List Text} {k : Nat} (h : firstCode? ls = some k) :
    IsCode ls k := by
  obtain ⟨hk, hcode, -⟩ := List.findIdx?_eq_some_iff_getElem.mp h
  exact ⟨ls[k], List.getElem?_eq_getElem hk, by simpa using hcode⟩

/-- What is picked is a line of code. -/
theorem isCode_of_choice? {ls : List Text} {line k : Nat} (h : choice? ls line = some k) :
    IsCode ls k := by
  rcases Option.or_eq_some_iff.mp h with h | ⟨-, h⟩
  · exact isCode_of_lastCode? h
  · exact isCode_of_firstCode? h

/-- A declaration on a line of code is shown by this line. -/
theorem choice?_of_isCode {ls : List Text} {n : Nat} (h : IsCode ls n) :
    choice? ls (n + 1) = some n := by
  obtain ⟨l, hl, hquiet⟩ := h
  simp [choice?, lastCode?, hl, hquiet]

/-! ## The lines shown -/

theorem mem_insertAscending {n k : Nat} {ns : List Nat} :
    k ∈ insertAscending n ns ↔ k = n ∨ k ∈ ns := by
  induction ns with
  | nil => simp [insertAscending]
  | cons m ms ih =>
    rw [insertAscending]
    split
    · simp
    split
    next heq => simp [heq]
    next => simp [ih, or_left_comm]

/-- Declarations whose picks are inserted one after the other leave all their picks, beside what was
there before. -/
theorem exists_foldlM_insertAscending {declared : List Int} {pick : Int → Option Nat}
    {step : List Nat → Int → Except Failure (List Nat)}
    (h : ∀ line ∈ declared, ∀ shown,
      step shown line = .ok ((pick line).elim shown fun n => insertAscending n shown))
    (before : List Nat) :
    ∃ shown, declared.foldlM step before = .ok shown ∧
      ∀ k, k ∈ shown ↔ k ∈ before ∨ ∃ line ∈ declared, pick line = some k := by
  induction declared generalizing before with
  | nil => exact ⟨before, rfl, by simp⟩
  | cons line declared ih =>
    obtain ⟨hline, hdeclared⟩ := List.forall_mem_cons.mp h
    obtain ⟨shown, hshown, hmem⟩ :=
      ih hdeclared ((pick line).elim before fun n => insertAscending n before)
    refine ⟨shown, ?_, fun k => ?_⟩
    · rw [List.foldlM_cons, hline]
      exact hshown
    · rw [hmem]
      cases hpick : pick line with
      | none => simp [hpick]
      | some n => simp [hpick, mem_insertAscending, or_assoc, or_left_comm, eq_comm]

/-- The lines shown for declarations are the picks for their lines, if the text has these lines. -/
theorem exists_importantLines {t : Text} {declared : List Int}
    (h : ∀ line ∈ declared, line ≤ (Text.lines t).length) :
    ∃ shown, importantLines t declared = .ok shown ∧
      ∀ k, k ∈ shown ↔ ∃ line ∈ declared, choice? (Text.lines t) line.toNat = some k := by
  have hpick : ∀ line ∈ declared,
      pick? (Text.lines t) line = .ok (choice? (Text.lines t) line.toNat) := by
    intro line hline
    have hle := h line hline
    rw [pick?, if_neg (by omega), choice?]
  suffices hfold : ∃ shown, importantLines t declared = .ok shown ∧ ∀ k, k ∈ shown ↔
      k ∈ [] ∨ ∃ line ∈ declared, choice? (Text.lines t) line.toNat = some k by simpa using hfold
  refine exists_foldlM_insertAscending (fun line hline shown => ?_) []
  rw [hpick line hline]
  cases choice? (Text.lines t) line.toNat <;> rfl

/-! ## Entries -/

/-- The line of an outline that shows a line. -/
def entry (line : Text) : Text := "- " ++ line.trim

theorem isQuiet_eq_of_entry_eq {l l' : Text} (h : entry l = entry l') : isQuiet l = isQuiet l' := by
  have htrim : l.trim = l'.trim := List.append_cancel_left h
  simp [isQuiet, htrim]

theorem newline_notMem_entry {l : Text} (h : Text.newline ∉ l) : Text.newline ∉ entry l := by
  have hmark : Text.newline ∉ Text.ofString "- " := by decide
  obtain ⟨lead, rear, hl, -, -⟩ := Text.exists_append_trim l
  rw [hl] at h
  simp only [List.mem_append, not_or] at h
  simp [entry, hmark, h.1.2]

/-- What stands below the path in an outline has the entries as its lines. -/
theorem lines_entries {ls : List Text} (h : ∀ l ∈ ls, Text.newline ∉ l) :
    Text.lines (ls.flatMap fun l => Text.concat ["- ", l.trim, [Text.newline]]) =
      ls.map entry ++ [[]] := by
  have hjoined : ls.flatMap (fun l => Text.concat ["- ", l.trim, [Text.newline]]) =
      Text.unlines (ls.map entry ++ [[]]) := by
    rw [Text.unlines_concat, List.flatMap_map, List.append_nil]
    simp [Text.concat, entry]
  have hunbroken : ∀ l ∈ ls.map entry ++ [[]], Text.newline ∉ l := by
    intro l hl
    rcases List.mem_append.mp hl with hl | hl
    · obtain ⟨line, hline, rfl⟩ := List.mem_map.mp hl
      exact newline_notMem_entry (h line hline)
    · simp [List.mem_singleton.mp hl]
  rw [hjoined, Text.lines_unlines (by simp) hunbroken]

/-- A file of which every declared line exists has an outline, and this shows the lines that are
picked. -/
theorem exists_ofFile (path : Text) {t : Text} {declared : List Int}
    (h : ∀ line ∈ declared, line ≤ (Text.lines t).length) :
    ∃ body, ofFile path t declared = .ok (Text.concat [path, ":", [Text.newline], body]) ∧
      ∀ l, entry l ∈ Text.lines body ↔ ∃ line ∈ declared, ∃ k l',
        choice? (Text.lines t) line.toNat = some k ∧ (Text.lines t)[k]? = some l' ∧
          entry l' = entry l := by
  obtain ⟨shown, hshown, hmem⟩ := exists_importantLines h
  have hcode : ∀ k ∈ shown, ∃ l, (Text.lines t)[k]? = some l ∧ (Text.lines t).getD k [] = l := by
    intro k hk
    obtain ⟨line, -, hchoice⟩ := (hmem k).mp hk
    obtain ⟨l, hl, -⟩ := isCode_of_choice? hchoice
    exact ⟨l, hl, by rw [List.getD_eq_getElem?_getD, hl, Option.getD_some]⟩
  let ls := shown.map fun n => (Text.lines t).getD n []
  have hbody : Text.lines (ls.flatMap fun l => Text.concat ["- ", l.trim, [Text.newline]]) =
      ls.map entry ++ [[]] := by
    apply lines_entries
    intro l hl
    obtain ⟨k, hk, rfl⟩ := List.mem_map.mp hl
    obtain ⟨l, hl, heq⟩ := hcode k hk
    rw [heq]
    exact Text.newline_notMem_of_mem_lines (List.mem_of_getElem? hl)
  refine ⟨ls.flatMap fun l => Text.concat ["- ", l.trim, [Text.newline]], ?_, fun l => ?_⟩
  · simp only [ofFile, hshown, ls, List.flatMap_map]
  rw [hbody]
  constructor
  · intro hentry
    rcases List.mem_append.mp hentry with hentry | hentry
    · obtain ⟨l', hl', heq⟩ := List.mem_map.mp hentry
      obtain ⟨k, hk, rfl⟩ := List.mem_map.mp hl'
      obtain ⟨l', hl', hget⟩ := hcode k hk
      obtain ⟨line, hline, hchoice⟩ := (hmem k).mp hk
      exact ⟨line, hline, k, l', hchoice, hl', hget ▸ heq⟩
    · simp [entry, Text.ofString] at hentry
  · rintro ⟨line, hline, k, l', hchoice, hl', heq⟩
    have hk : k ∈ shown := (hmem k).mpr ⟨line, hline, hchoice⟩
    obtain ⟨l'', hl'', hget⟩ := hcode k hk
    obtain rfl : l' = l'' := Option.some.inj (hl'.symm.trans hl'')
    rw [← heq, ← hget]
    exact List.mem_append_left _ (List.mem_map_of_mem (List.mem_map_of_mem hk))

/-- For each listed symbol the outline of its file shows the line of the declaration, if and only if
this line is neither blank nor starts as comments do. -/
theorem ofFile_shows_iff (path : Text) (src : Source) :
    ∃ body, ofFile path src.text (src.symbols.map fun s => (s.line : Int)) =
        .ok (Text.concat [path, ":", [Text.newline], body]) ∧
      ∀ s ∈ src.symbols, ∃ line, 1 ≤ s.line ∧ (Text.lines src.text)[s.line - 1]? = some line ∧
        (entry line ∈ Text.lines body ↔ isQuiet line = false) := by
  have hdeclared : ∀ line ∈ src.symbols.map (fun s => (s.line : Int)),
      line ≤ (Text.lines src.text).length := by
    intro line hline
    obtain ⟨s, hs, rfl⟩ := List.mem_map.mp hline
    exact Int.ofNat_le.mpr (Source.line_of_mem_symbols hs).2
  obtain ⟨body, hbody, hshows⟩ := exists_ofFile path hdeclared
  refine ⟨body, hbody, fun s hs => ?_⟩
  obtain ⟨hpos, hle⟩ := Source.line_of_mem_symbols hs
  have hlt : s.line - 1 < (Text.lines src.text).length := by omega
  have hline := List.getElem?_eq_getElem hlt
  refine ⟨_, hpos, hline, ?_⟩
  rw [hshows]
  constructor
  · rintro ⟨_, -, k, l, hchoice, hl, heq⟩
    obtain ⟨l', hl', hquiet⟩ := isCode_of_choice? hchoice
    obtain rfl : l = l' := Option.some.inj (hl.symm.trans hl')
    rw [← isQuiet_eq_of_entry_eq heq, hquiet]
  · intro hquiet
    have hchoice := choice?_of_isCode ⟨_, hline, hquiet⟩
    rw [Nat.sub_add_cancel hpos] at hchoice
    exact ⟨s.line, List.mem_map_of_mem hs, _, _, hchoice, hline, rfl⟩

end Outline

namespace Starred

/-- A class with a method and a generator, and a function behind a comment. -/
def text : Text :=
  Text.unlines ["class A \x7b", "  first() \x7b\x7d", "  *items() \x7b\x7d", "\x7d",
    "/** Adds. */ function add(a, b) \x7b\x7d", ""]

/-- The method. -/
def first : Node :=
  .mk .methodDefinition 12 22 [.plain "property_identifier" 12 17 [],
    .plain "formal_parameters" 17 19 [], .plain "statement_block" 20 22 []] [(.name, 0)] true

/-- The generator. -/
def items : Node :=
  .mk .methodDefinition 25 36 [.plain "property_identifier" 26 31 [],
    .plain "formal_parameters" 31 33 [], .plain "statement_block" 34 36 []] [(.name, 0)] true

/-- The function. -/
def add : Node :=
  .mk .functionDeclaration 52 73 [.plain "identifier" 61 64 [], .plain "formal_parameters" 64 70 [],
    .plain "statement_block" 71 73 []] [(.name, 0)] true

/-- The source that the parser gives. -/
def source : Source :=
  ⟨text, Utf8.encodeLossy text, .plain "program" 0 74
    [.mk .classDeclaration 0 38 [.plain "identifier" 6 7 [],
      .plain "class_body" 8 38 [first, items]] [(.name, 0)] true,
      .plain "comment" 39 51 [], add], .javascript,
    Utf8.encode_eq_ok_iff.mpr ⟨by decide +kernel, rfl⟩⟩

/-- The outline of the file. -/
def outline : Text := "a.js:\n- class A \x7b\n- first() \x7b\x7d\n- \x7d\n"

end Starred

/-- The method is shown. -/
theorem Outline.ofFile_shows_first :
    Symbol.ofNode Starred.source Starred.first "first" .method (some "A") ∈ Starred.source.symbols ∧
      ∃ body, Outline.ofFile "a.js" Starred.source.text
          (Starred.source.symbols.map fun s => (s.line : Int)) =
            .ok (Text.concat ["a.js", ":", [Text.newline], body]) ∧
        ("- first() \x7b\x7d" : Text) ∈ Text.lines body := by
  have hsymbol : Symbol.ofNode Starred.source Starred.first "first" .method (some "A") ∈
      Starred.source.symbols := by decide +kernel
  obtain ⟨body, hbody, hshows⟩ := Outline.ofFile_shows_iff "a.js" Starred.source
  obtain ⟨line, -, hline, hiff⟩ := hshows _ hsymbol
  have hfirst : (Text.lines Starred.source.text)[1]? =
      some (Text.ofString "  first() \x7b\x7d") := by decide +kernel
  obtain rfl : line = Text.ofString "  first() \x7b\x7d" :=
    Option.some.inj (hline.symm.trans hfirst)
  exact ⟨hsymbol, body, hbody, hiff.mpr (by decide +kernel)⟩

/-- The generator and the function are listed, and their lines are not shown. -/
theorem Outline.not_ofFile_shows_generator :
    Outline.ofFile "a.js" Starred.source.text
        (Starred.source.symbols.map fun s => (s.line : Int)) = .ok Starred.outline ∧
      Symbol.ofNode Starred.source Starred.items "items" .method (some "A") ∈
        Starred.source.symbols ∧
      (Text.lines Starred.source.text)[Starred.source.lineOf Starred.items - 1]? =
        some (Text.ofString "  *items() \x7b\x7d") ∧
      ("- *items() \x7b\x7d" : Text) ∉ Text.lines Starred.outline ∧
      Symbol.ofNode Starred.source Starred.add "add" .function none ∈ Starred.source.symbols ∧
      (Text.lines Starred.source.text)[Starred.source.lineOf Starred.add - 1]? =
        some (Text.ofString "/** Adds. */ function add(a, b) \x7b\x7d") ∧
      ("- /** Adds. */ function add(a, b) \x7b\x7d" : Text) ∉ Text.lines Starred.outline := by
  refine ⟨by rfl, by decide +kernel, by decide +kernel, by decide +kernel, by decide +kernel,
    by decide +kernel, by decide +kernel⟩

end SymbolAtlas
