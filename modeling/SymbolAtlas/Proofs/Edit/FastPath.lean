import SymbolAtlas.Proofs.Edit.ByHeader
import SymbolAtlas.Proofs.Edit.ByteExact
import SymbolAtlas.Proofs.Edit.Transaction

/-!
# Functions with and without the fast path

A function of the JavaScript family may be edited by its header alone. Whether this leaves the same
code lines as an edit by the syntax tree depends on the node that the edit by the tree replaces: it
does for every content if the header matcher measures this node as a whole, and only then
(`Atlas.fastPath_alike_iff`). A header with a word before it, as in an exported function, is
not found: the content is added at the end of the file then, and the function stays.
-/

namespace SymbolAtlas

open Utf8 (decode)

/-- The header matcher measures a node of a source as a whole. -/
def Source.MeasuredByHeader (src : Source) (name : Text) (n : Node) : Prop :=
  Header.Measures name (src.textBefore n) (src.textWithin n) (src.textBehind n)

/-! ## Contents with the same target -/

namespace Located

theorem startsWith_cons_opening (w : Wrapper) (t : Text) :
    Text.startsWith (CodePoint.ofChar 'x' :: t) w.opening = false := by
  cases w <;> rfl

theorem trimStart_probe_nil (t : Text) :
    ∃ rest, (EditSite.probe [] t).trimStart = CodePoint.ofChar 'x' :: rest := by
  refine ⟨List.replicate (t.length + 1) (CodePoint.ofChar 'x') ++ [Text.newline], ?_⟩
  have hx : (CodePoint.ofChar 'x').isBlank = false := by decide
  simp [EditSite.probe, EditSite.longLine, Text.trimStart, Text.isBlank_newline,
    List.replicate_succ, hx]

theorem startsWith_probe_opening (w : Wrapper) (t : Text) :
    Text.startsWith (EditSite.probe w.opening t).trimStart w.opening = true := by
  have htrim : (EditSite.probe w.opening t).trimStart =
      w.opening ++ Text.newline :: (EditSite.longLine w.opening t ++ [Text.newline]) := by
    cases w <;> rfl
  rw [htrim, Text.startsWith, List.isPrefixOf_iff_prefix]
  exact List.prefix_append ..

/-- For every content there is a probe that restates the wrapper if the content does. -/
theorem exists_probe (l : Located) {content : Text} (hcontent : content ≠ []) :
    ∃ lead, ∀ t, l.targetNode (EditSite.probe lead t) = l.targetNode content := by
  unfold targetNode
  cases l.wrapperNode? with
  | none => exact ⟨[], fun _ => rfl⟩
  | some wrapper =>
    obtain ⟨w, p⟩ := wrapper
    by_cases hw : Text.startsWith content.trimStart w.opening
    · refine ⟨w.opening, fun t => ?_⟩
      simp [hw, startsWith_probe_opening]
    · refine ⟨[], fun t => ?_⟩
      obtain ⟨rest, hrest⟩ := trimStart_probe_nil t
      have hne : EditSite.probe [] t ≠ [] := by simp [EditSite.probe]
      simp [hw, hcontent, hrest, startsWith_cons_opening, hne]

end Located

/-! ## Requests for functions -/

/-- The request to replace a function. -/
def EditRequest.ofFunction (file name content : Text) (parentClass : Option Text) : EditRequest :=
  ⟨file, name, .text "function", some (.text content), parentClass⟩

/-- The task of such a request. -/
def EditTask.ofFunction (file name content : Text) : EditTask :=
  ⟨file, name, .function, .text content, none⟩

theorem EditRequest.check_ofFunction {file name : Text} (hfile : file ≠ []) (hname : name ≠ [])
    (content : Text) (parentClass : Option Text) :
    (ofFunction file name content parentClass).check.result =
      .ok (.ok (EditTask.ofFunction file name content)) := by
  have hkind : SymbolKind.ofValue? (.text "function") = some .function := by decide
  have hgiven : Json.isGiven (.text "function") = true := by decide
  unfold check ofFunction
  simp only [hfile, hname, hgiven, hkind, Bool.not_true, Bool.false_eq_true, or_self, if_false]
  rcases parentClass with _ | _ | ⟨c, cs⟩
  · rfl
  · rfl
  · rfl

namespace EditTask

variable {settings : Settings} {parsers : Parsers} {g : Grammar} {file name content : Text}

/-- The new text of a task that goes by the header. -/
theorem revise_byHeader (parsers : Parsers) (hfast : settings.fastPath = true)
    (hheaders : g.hasFunctionHeaders = true) (t : Text) :
    ((ofFunction file name content).revise settings parsers g t).result =
      .ok (.ok (EditSite.byHeaderText t name content)) := by
  have huses : (ofFunction file name content).usesHeader settings g = true := by
    simp [usesHeader, ofFunction, hfast, hheaders]
  have hsite : ((ofFunction file name content).site settings parsers g t).result =
      .ok (.ok (.byHeader t name)) := by
    unfold site
    rw [if_pos huses]
    rfl
  have hcontent : (ofFunction file name content).content = .text content := rfl
  simp only [revise, Report.result_bind, hsite, Except.bind, hcontent, EditSite.revise,
    EditSite.put_byHeader, Report.ofExcept, Report.result_pure]

/-- The new text of a task that goes by the tree. -/
theorem revise_byTree {src : Source} {l : Located} (hfast : settings.fastPath = false)
    (hparse : (parsers.parse (decode src.bytes) g).result = .ok (some src))
    (hplaced : src.root.PlacedIn src.bytes) (hlocated : src.locate name .function = .ok (some l))
    (hcontent : content ≠ []) :
    ((ofFunction file name content).revise settings parsers g (decode src.bytes)).result =
      .ok (.ok (src.textWith (l.targetNode content) content)) := by
  have huses : ¬ (ofFunction file name content).usesHeader settings g = true := by
    simp [usesHeader, hfast]
  refine revise_of_symbol hplaced (Source.standsIn_of_locate hplaced hlocated) ?_ rfl hcontent
  unfold site
  rw [if_neg huses, Report.result_bind, hparse]
  simp only [Except.bind, ofFunction, topLevelSite, Report.result_bind,
    Source.result_reportLocate, hlocated, Report.result_pure]

end EditTask

/-! ## Editing a function in a project -/

namespace Atlas

variable {σ : Type} [ProjectFiles σ]

/-- The project with the fast path on or off. -/
def withFastPath (a : Atlas σ) (on : Bool) : Atlas σ :=
  { a with settings := { a.settings with fastPath := on } }

/-- A request is answered with an edit: a dry run shows it and otherwise it is committed. If its
text is read back as it was written, an edit that was applied is what the file holds afterwards. -/
structure CarriesOut (a : Atlas σ) (r : EditRequest) (e : Edit) : Prop where
  shown : (a.edit r true).2.result = .ok (.ok (.preview e))
  files : (a.edit r false).1 = (a.commit e).1
  answer : (a.edit r false).2.result = (a.commit e).2.result
  stored : ProjectFiles.ReadsBack a.files r.file e.revised →
    (a.edit r false).2.result = .ok (.ok (.applied e)) →
      (ProjectFiles.read (a.edit r false).1.files r.file).result = .ok (some e.revised)

theorem carriesOut_of_plan {a : Atlas σ} {r : EditRequest} {e : Edit}
    (h : (r.plan a.files a.parsers a.settings).result = .ok (.ok e)) : a.CarriesOut r e := by
  have hdry := edit_dry_of_planned h
  obtain ⟨hfiles, hanswer⟩ := edit_of_planned h
  refine ⟨hdry.2, hfiles, hanswer, ?_⟩
  intro hback happlied
  rw [hanswer] at happlied
  obtain ⟨hwritten, hcommitted⟩ := commit_of_applied happlied
  rw [hfiles, hcommitted]
  rw [← EditRequest.file_of_plan h] at hback ⊢
  exact (hback hwritten).2

/-- A request is answered with edits to the same code lines with the fast path on and off. -/
def Alike (a : Atlas σ) (r : EditRequest) : Prop :=
  ∃ on off, (a.withFastPath true).CarriesOut r on ∧ (a.withFastPath false).CarriesOut r off ∧
    on.revised.codeLines = off.revised.codeLines

section

variable {a : Atlas σ} {file name content : Text} {parentClass : Option Text} {g : Grammar}
  {src : Source} {l : Located}

/-- What a request for a function does with the fast path on. -/
theorem exists_carriesOut_byHeader {r : EditRequest} {t : Text} (hfast : a.settings.fastPath = true)
    (hcheck : r.check.result = .ok (.ok (.ofFunction r.file name content)))
    (hgrammar : Grammar.ofExtension? (Path.parse r.file).extension.lower = some g)
    (hheaders : g.hasFunctionHeaders = true)
    (hfile : ProjectFiles.isFile a.files r.file = .ok true)
    (hread : (ProjectFiles.read a.files r.file).result = .ok (some t)) :
    ∃ e : Edit, a.CarriesOut r e ∧ e.file = r.file ∧ e.present = t ∧
      e.revised = EditSite.byHeaderText t name content := by
  have hplan := EditRequest.result_plan hcheck hfile hgrammar hread
    (EditTask.revise_byHeader a.parsers hfast hheaders t)
  exact ⟨_, carriesOut_of_plan hplan, rfl, rfl, rfl⟩

/-- Both ways of editing a located function, by the texts that they leave. -/
theorem exists_carriesOut (hname : name ≠ []) (hfile : ProjectFiles.isFile a.files file = .ok true)
    (hread : (ProjectFiles.read a.files file).result = .ok (some (decode src.bytes)))
    (hgrammar : Grammar.ofExtension? (Path.parse file).extension.lower = some g)
    (hheaders : g.hasFunctionHeaders = true)
    (hparse : (a.parsers.parse (decode src.bytes) g).result = .ok (some src))
    (hplaced : src.root.PlacedIn src.bytes) (hlocated : src.locate name .function = .ok (some l))
    (hcontent : content ≠ []) (parentClass : Option Text) :
    ∃ on off : Edit,
      (a.withFastPath true).CarriesOut (.ofFunction file name content parentClass) on ∧
      (a.withFastPath false).CarriesOut (.ofFunction file name content parentClass) off ∧
      on.revised = EditSite.byHeaderText (decode src.bytes) name content ∧
      off.revised = src.textWith (l.targetNode content) content := by
  have hne : file ≠ [] := by
    rintro rfl
    have hnone : Grammar.ofExtension? (Path.parse []).extension.lower = none := by decide
    rw [hnone] at hgrammar
    cases hgrammar
  have hcheck := EditRequest.check_ofFunction hne hname content parentClass
  have hfast : (a.withFastPath true).settings.fastPath = true := rfl
  have hslow : (a.withFastPath false).settings.fastPath = false := rfl
  obtain ⟨on, hon, -, -, hrevised⟩ :=
    exists_carriesOut_byHeader hfast hcheck hgrammar hheaders hfile hread
  have hoff := EditRequest.result_plan hcheck hfile hgrammar hread
    (EditTask.revise_byTree hslow hparse hplaced hlocated hcontent)
  exact ⟨on, _, hon, carriesOut_of_plan hoff, hrevised, rfl⟩

/-- The edits with the fast path on and off are alike if the texts that they leave have the same
code lines, and only then. -/
theorem alike_iff {r : EditRequest} {on off : Edit} (hon : (a.withFastPath true).CarriesOut r on)
    (hoff : (a.withFastPath false).CarriesOut r off) :
    a.Alike r ↔ on.revised.codeLines = off.revised.codeLines := by
  constructor
  · rintro ⟨on', off', hon', hoff', h⟩
    have hsame := hon.shown.symm.trans hon'.shown
    have hsame' := hoff.shown.symm.trans hoff'.shown
    cases hsame
    cases hsame'
    exact h
  · intro h
    exact ⟨on, off, hon, hoff, h⟩

/-- The fast path leaves the code lines that the syntax tree leaves, for every content that has a
node as its target, if the header matcher measures this node as a whole. For a node that starts and
ends with ink it does so only then. -/
theorem fastPath_alike_iff {bs : Bytes} (hname : name ≠ [])
    (hfile : ProjectFiles.isFile a.files file = .ok true)
    (hread : (ProjectFiles.read a.files file).result = .ok (some (decode bs)))
    (hgrammar : Grammar.ofExtension? (Path.parse file).extension.lower = some g)
    (hheaders : g.hasFunctionHeaders = true)
    (hparse : (a.parsers.parse (decode bs) g).result = .ok (some src))
    (hplaced : src.root.PlacedIn bs) (hlocated : src.locate name .function = .ok (some l))
    (hcontent : content ≠ []) :
    (src.MeasuredByHeader name (l.targetNode content) →
      a.Alike (.ofFunction file name content parentClass)) ∧
    ((src.textWithin (l.targetNode content)).Tight →
      (∀ content', content' ≠ [] → l.targetNode content' = l.targetNode content →
        a.Alike (.ofFunction file name content' parentClass)) →
      src.MeasuredByHeader name (l.targetNode content)) := by
  obtain rfl : src.bytes = bs := Parsers.bytes_of_parse hparse
  have hedits := fun (content' : Text) (h : content' ≠ []) =>
    exists_carriesOut hname hfile hread hgrammar hheaders hparse hplaced hlocated h parentClass
  have hstands := Source.standsIn_of_locate hplaced hlocated
  have htext := src.textBefore_append_append (hplaced _ (hstands.targetNode_within content))
  constructor
  · intro hmeasured
    obtain ⟨on, off, hon, hoff, hon', hoff'⟩ := hedits content hcontent
    rw [alike_iff hon hoff, hon', hoff', ← htext]
    exact EditSite.codeLines_byHeaderText_of_measures hmeasured hcontent
  · intro htight halike
    obtain ⟨lead, htarget⟩ := l.exists_probe hcontent
    have hprobe : EditSite.probe lead (decode src.bytes) ≠ [] := by simp [EditSite.probe]
    have hsame := halike _ hprobe (htarget _)
    obtain ⟨on, off, hon, hoff, hon', hoff'⟩ := hedits _ hprobe
    rw [alike_iff hon hoff, hon', hoff', htarget] at hsame
    exact EditSite.measures_of_codeLines_probe htight htext.symm hsame

end

end Atlas

namespace Headers

/-- A file with two functions, one of them exported. -/
def text : Text := "function kept() {}\nexport function gone() {}\n"

/-- The bytes of the file. -/
def bytes : Bytes := Utf8.encodeLossy text

/-- A function without parameters or statements, at an offset. -/
def function (start : Int) : Node :=
  .mk .functionDeclaration start (start + 18)
    [.mk (.other "identifier") (start + 9) (start + 13) [] [] true,
      .mk (.other "formal_parameters") (start + 13) (start + 15) [] [] true,
      .mk (.other "statement_block") (start + 16) (start + 18) [] [] true] [(.name, 0)] true

/-- The tree of the file. -/
def tree : Node :=
  .mk (.other "program") 0 45
    [function 0, .mk .exportStatement 19 44 [function 26] [(.declaration, 0)] true] [] true

/-- A project with the file in memory. -/
def atlas : Atlas MemoryFiles :=
  ⟨⟨[("m.js", some text)], false⟩, false, .default, some fun _ => .ok fun _ => .ok tree,
    ⟨false, true⟩⟩

/-- The source that the parser gives. -/
def source : Source := ⟨decode bytes, bytes, tree, .javascript, Utf8.encode_decode bytes⟩

theorem placedIn : source.root.PlacedIn source.bytes :=
  Node.placedIn_of_isPlaced (by decide +kernel)

theorem isFile : ProjectFiles.isFile atlas.files "m.js" = .ok true := rfl

theorem read :
    (ProjectFiles.read atlas.files "m.js").result = .ok (some (decode source.bytes)) := by
  have htext : decode source.bytes = text := by decide +kernel
  rw [htext]
  rfl

theorem grammar : Grammar.ofExtension? (Path.parse "m.js").extension.lower = some .javascript := by
  decide

theorem parse :
    (atlas.parsers.parse (decode source.bytes) .javascript).result = .ok (some source) :=
  Parsers.parse_decode rfl rfl

end Headers

/-- A function that starts its line is edited alike by its header and in the tree. -/
theorem Atlas.fastPath_alike_plain :
    Headers.atlas.Alike (.ofFunction "m.js" "kept" "function kept() { a() }" none) := by
  have hcontent : ("function kept() { a() }" : Text) ≠ [] := by decide
  have hname : ("kept" : Text) ≠ [] := by decide
  have hmeasured : Headers.source.MeasuredByHeader "kept" (Headers.function 0) := by
    refine ⟨⟨[], [], by decide, .inl rfl, by simp, ?_⟩, by decide⟩
    intro f z r _ hlt
    simp at hlt
  have hfound : (Headers.source.locate "kept" .function).toOption.bind
      (·.map (·.targetNode "function kept() { a() }")) = some (Headers.function 0) := rfl
  obtain ⟨l, hlocated, htarget⟩ := Source.exists_of_toOption hfound
  rw [← htarget] at hmeasured
  exact (Atlas.fastPath_alike_iff hname Headers.isFile Headers.read Headers.grammar rfl
    Headers.parse Headers.placedIn hlocated hcontent).1 hmeasured

/-- An exported function is added once more at the end of the file by its header, and replaced in
the tree. -/
theorem Atlas.not_alike_exported :
    (Headers.atlas.parsers.parse (decode Headers.source.bytes) .javascript).result =
        .ok (some Headers.source) ∧
      Headers.source.root.PlacedIn Headers.source.bytes ∧
      (∃ l, Headers.source.locate "gone" .function = .ok (some l)) ∧
      ¬ Headers.atlas.Alike (.ofFunction "m.js" "gone" "function gone() { a() }" none) := by
  have hcontent : ("function gone() { a() }" : Text) ≠ [] := by decide
  have hname : ("gone" : Text) ≠ [] := by decide
  have hfound : (Headers.source.locate "gone" .function).toOption.bind
      (·.map (·.targetNode "function gone() { a() }")) = some (Headers.function 26) := rfl
  obtain ⟨l, hlocated, htarget⟩ := Source.exists_of_toOption hfound
  refine ⟨Headers.parse, Headers.placedIn, ⟨l, hlocated⟩, ?_⟩
  obtain ⟨on, off, hon, hoff, hon', hoff'⟩ := Atlas.exists_carriesOut hname Headers.isFile
    Headers.read Headers.grammar rfl Headers.parse Headers.placedIn hlocated hcontent none
  have hlines : ¬ (EditSite.byHeaderText (decode Headers.source.bytes) "gone"
      "function gone() { a() }").codeLines =
      (Headers.source.textWith (Headers.function 26) "function gone() { a() }").codeLines := by
    decide +kernel
  rw [Atlas.alike_iff hon hoff, hon', hoff', htarget]
  exact hlines

end SymbolAtlas
