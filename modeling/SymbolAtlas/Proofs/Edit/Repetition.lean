import SymbolAtlas.Proofs.Edit.FastPath
import SymbolAtlas.Proofs.Edit.HeaderLines

/-!
# The same edit twice

An edit by the header of a function that is carried out a second time finds the function that the
first one put into the file. So it changes nothing if the span that it finds is the content, and
only then (`EditSite.exists_span_of_byHeaderText_eq`). A new function is put in without the blanks
around the content, but one that is replaced is replaced by the content as it is: the second edit
leaves the file as it is if the content `Fits` (`EditSite.byHeaderText_twice_iff`), and otherwise
the blanks pile up. That is so where the second edit reads what the first one stored
(`ProjectFiles.ReadsBack`): files on disk hold bytes, and stray bytes in a content may come back as
a character (`DiskFiles.readsBack_iff`).
-/

namespace SymbolAtlas

namespace EditSite

open Header (Absent Clear isIndent)
open Text (Tight newline)

/-- A content that is one function of a name without blanks, and blanks around it. -/
structure Declares (name content : Text) : Prop where
  ink : ∀ c ∈ name, c.isBlank = false
  whole : Header.functionSpan? content.trim name = some (0, content.trim.length)

/-- What an edit by the header of a function puts into a file is what it finds there again: the
content has no blanks around the function if the function is new, and only indentation before it if
one is replaced. -/
def Fits (t name content : Text) : Prop :=
  match Header.functionSpan? t name with
  | none => content = content.trim
  | some _ => ∃ indent, content = indent ++ content.trim ∧ ∀ c ∈ indent, isIndent c = true

section

variable {t name content front behind : Text}

theorem Declares.tight (h : Declares name content) : content.trim.Tight := by
  apply Text.tight_trim
  intro hnil
  obtain ⟨inside, hreads, -⟩ := Header.functionSpan?_whole_iff.mp h.whole
  rw [hnil] at hreads
  exact Header.not_reads_nil hreads

theorem Declares.ink_ne_nil (h : Declares name content) : content.ink ≠ [] := by
  obtain ⟨d, ds, hds, hd⟩ := h.tight.first
  rw [← Text.ink_trim, hds]
  simp [Text.ink, hd]

/-- An edit that changes nothing puts in the content where it stands already. -/
theorem exists_span_of_byHeaderText_eq (hcontent : content.ink ≠ [])
    (h : byHeaderText t name content = t) :
    ∃ front behind, t = front ++ content ++ behind ∧
      Header.functionSpan? t name = some (front.length, (front ++ content).length) := by
  have hne : content ≠ [] := by
    rintro rfl
    exact hcontent rfl
  unfold byHeaderText at h
  split at h
  · next start stop hspan =>
    obtain ⟨front, inner, behind, ht, rfl, rfl⟩ := Header.functionSpan?_eq_append hspan
    rw [ht, spliceSpan_append hne] at h
    have hsame := List.append_cancel_left (List.append_cancel_right h)
    rw [← hsame] at ht hspan
    exact ⟨front, behind, ht, hspan⟩
  · -- A file that grows has more ink.
    exfalso
    apply hcontent
    have hink := congrArg Text.ink h
    unfold Splice.appendTopLevel at hink
    split at hink
    · next hblank =>
      rw [Text.ink_trim] at hink
      rw [hink]
      exact Text.ink_eq_nil_iff.mpr (List.all_eq_true.mp hblank)
    · have hnew : Text.concat [t.trim, [newline], content.trim] =
          t.trim ++ ([newline] ++ content.trim) := by
        simp [Text.concat]
      rw [hnew, Text.ink_append, Text.ink_append, Text.ink_trim, Text.ink_trim] at hink
      exact (List.append_eq_nil_iff.mp (List.append_right_eq_self.mp hink)).2

/-- A content that is found as a span has only indentation before the function and nothing behind
it. -/
theorem Declares.exists_indent (h : Declares name content)
    (hspan : Header.functionSpan? (front ++ content ++ behind) name =
      some (front.length, (front ++ content).length)) :
    ∃ indent, content = indent ++ content.trim ∧ ∀ c ∈ indent, isIndent c = true := by
  obtain ⟨lead, rear, hcontent, hlead, hrear⟩ := Text.exists_append_trim content
  obtain ⟨d, ds, hds, hd⟩ := h.tight.first
  -- The span ends with a brace, so no blanks stand behind the function.
  obtain ⟨front', inner, behind', hcut, hstart, hstop⟩ := Header.functionSpan?_eq_append hspan
  have hspans : front ++ content = front' ++ (inner ++ [CodePoint.ofChar '\x7d']) :=
    (List.append_inj hcut hstop).1
  have hbrace : content = inner ++ [CodePoint.ofChar '\x7d'] := (List.append_inj hspans hstart).2
  obtain rfl : rear = [] :=
    Text.eq_nil_of_concat_eq_append (hbrace.symm.trans hcontent) (by decide) hrear
  rw [List.append_nil] at hcontent
  have hmeasured : Header.Measures name (front ++ lead) content.trim behind := by
    apply Header.measures_of_functionSpan? rfl hlead hds hd
    rwa [List.append_assoc front, ← hcontent]
  obtain ⟨front₁, indent, hfront, -, hindent, hspan'⟩ := hmeasured.functionSpan?
  rw [List.append_assoc front, ← hcontent, hspan, Option.some.injEq, Prod.mk.injEq] at hspan'
  obtain ⟨-, rfl⟩ := List.append_inj hfront hspan'.1
  exact ⟨lead, hcontent, hindent⟩

/-- A content with only indentation around its function is found as a span behind lines from which
no header can be read. -/
theorem Declares.functionSpan? (h : Declares name content) (hfront : Clear name front)
    {indent : Text} (hcontent : content = indent ++ content.trim)
    (hindent : ∀ c ∈ indent, isIndent c = true) (behind : Text) :
    Header.functionSpan? (front ++ content ++ behind) name =
      some (front.length, (front ++ content).length) := by
  obtain ⟨d, ds, hds, hd⟩ := h.tight.first
  have hspan := hfront.functionSpan? h.whole hds hd h.ink hindent behind
  rwa [List.append_assoc front, ← hcontent] at hspan

/-- Where a function is replaced, the second edit changes nothing if the content is the function
behind indentation, and only then. -/
theorem Declares.twice_replaced_iff (h : Declares name content) (hfront : Clear name front) :
    byHeaderText (front ++ content ++ behind) name content = front ++ content ++ behind ↔
      ∃ indent, content = indent ++ content.trim ∧ ∀ c ∈ indent, isIndent c = true := by
  constructor
  · intro hsame
    obtain ⟨front', behind', ht, hspan⟩ := exists_span_of_byHeaderText_eq h.ink_ne_nil hsame
    rw [ht] at hspan
    exact h.exists_indent hspan
  · rintro ⟨indent, hcontent, hindent⟩
    have hne : content ≠ [] := by
      rintro rfl
      exact h.ink_ne_nil rfl
    unfold byHeaderText
    rw [h.functionSpan? hfront hcontent hindent behind]
    exact spliceSpan_append hne

/-- Where a function is new, the second edit changes nothing if the content is nothing else. -/
theorem Declares.twice_created_iff (h : Declares name content) (hfront : Clear name front) :
    byHeaderText (front ++ content.trim) name content = front ++ content.trim ↔
      content = content.trim := by
  constructor
  · intro hsame
    obtain ⟨front', behind, ht, hspan⟩ := exists_span_of_byHeaderText_eq h.ink_ne_nil hsame
    obtain ⟨d, ds, hds, hd⟩ := h.tight.first
    have hnone : ∀ c ∈ ([] : Text), isIndent c = true := by simp
    have hown := hfront.functionSpan? h.whole hds hd h.ink hnone []
    rw [List.append_nil, List.append_nil, hspan, Option.some.injEq, Prod.mk.injEq] at hown
    -- Both spans are the same, so the content is what the first edit put in.
    rw [List.append_assoc] at ht
    obtain ⟨rfl, htrim⟩ := List.append_inj ht hown.1.symm
    have hlength := hown.2
    rw [htrim] at hlength
    simp only [List.length_append] at hlength
    obtain rfl : behind = [] := List.eq_nil_of_length_eq_zero (by omega)
    rw [htrim, List.append_nil]
  · intro hcontent
    have hfits : ∃ indent, content = indent ++ content.trim ∧ ∀ c ∈ indent, isIndent c = true :=
      ⟨[], hcontent, by simp⟩
    have hsame : byHeaderText (front ++ content ++ []) name content = front ++ content ++ [] :=
      (h.twice_replaced_iff hfront).mpr hfits
    rw [List.append_nil] at hsame
    rwa [← hcontent]

/-- An edit by the header of a function that is carried out a second time changes nothing if the
content fits, and only then. -/
theorem byHeaderText_twice_iff (h : Declares name content)
    (ht : Header.find? name 0 true t.trim = none ∨ (Header.functionSpan? t name).isSome) :
    byHeaderText (byHeaderText t name content) name content = byHeaderText t name content ↔
      Fits t name content := by
  have hne : content ≠ [] := by
    rintro rfl
    exact h.ink_ne_nil rfl
  unfold Fits
  cases hspan : Header.functionSpan? t name with
  | some span =>
    obtain ⟨start, stop⟩ := span
    obtain ⟨front, body, behind, rfl, rfl, rfl, hfront, -⟩ :=
      Header.exists_clear_of_functionSpan? hspan
    have hfirst :
        byHeaderText (front ++ body ++ behind) name content = front ++ content ++ behind := by
      unfold byHeaderText
      rw [hspan]
      exact spliceSpan_append hne
    rw [hfirst]
    exact h.twice_replaced_iff hfront
  | none =>
    have habsent : Absent name t.trim := by
      rcases ht with hnone | hsome
      · exact Header.absent_iff.mpr hnone
      · rw [hspan] at hsome
        cases hsome
    have hfirst : byHeaderText t name content = Splice.appendTopLevel t content := by
      unfold byHeaderText
      rw [hspan]
    rw [hfirst]
    by_cases hblank : t.isBlank = true
    · have hempty : Splice.appendTopLevel t content = [] ++ content.trim := if_pos hblank
      rw [hempty]
      exact h.twice_created_iff (.inl rfl)
    · have hnew : Splice.appendTopLevel t content = (t.trim ++ [newline]) ++ content.trim := by
        rw [Splice.appendTopLevel, if_neg hblank]
        simp [Text.concat]
      rw [hnew]
      exact h.twice_created_iff (.inr ⟨t.trim, rfl, habsent⟩)

end

end EditSite

/-! ## What is read back -/

/-- A text is read back from a file on disk exactly if its bytes are decoded to it. Stray bytes that
are a character when they are put together are not read back as they were. -/
theorem DiskFiles.readsBack_iff [Host] {d : DiskFiles} {file text : Text} {old new : Bytes}
    (h : d.stored file = .ok old) (hhome : Path.here ∉ d.home.names)
    (hnew : Utf8.encode text = .ok new) :
    ProjectFiles.ReadsBack d file text ↔ Utf8.decode new = text := by
  obtain ⟨d', hwrite, hstored⟩ := writeAt_of_stored h hhome hnew
  have hwrite' : ProjectFiles.write d file text = (d', pure true) := hwrite
  unfold ProjectFiles.ReadsBack
  rw [hwrite', isFile_of_stored hstored, result_read_of_stored hstored]
  simp

/-- An edit by the header of a function stores the bytes of the new text on disk. -/
theorem Atlas.stored_edit_byHeader [Host] {a : Atlas DiskFiles} {r : EditRequest}
    {name content : Text} {g : Grammar} {old new : Bytes} (hfast : a.settings.fastPath = true)
    (hhome : Path.here ∉ a.files.home.names)
    (hcheck : r.check.result = .ok (.ok (.ofFunction r.file name content)))
    (hgrammar : Grammar.ofExtension? (Path.parse r.file).extension.lower = some g)
    (hheaders : g.hasFunctionHeaders = true) (hstored : a.files.stored r.file = .ok old)
    (hnew : Utf8.encode (EditSite.byHeaderText (Utf8.decode old) name content) = .ok new) :
    ∃ files : DiskFiles, (a.edit r false).1 = { a with files := files, dirty := true } ∧
      files.home = a.files.home ∧ files.stored r.file = .ok new := by
  obtain ⟨e, hcarries, hedit, -, hrevised⟩ := exists_carriesOut_byHeader hfast hcheck hgrammar
    hheaders (DiskFiles.isFile_of_stored hstored) (DiskFiles.result_read_of_stored hstored)
  obtain ⟨place, hopened, hput⟩ := DiskFiles.exists_opened hstored hhome
  have hwrite : ProjectFiles.write a.files e.file e.revised =
      ({ a.files with volume := a.files.volume.put place (.file new) }, pure true) := by
    rw [hedit, hrevised]
    show a.files.writeAt r.file _ = _
    rw [DiskFiles.writeAt_of_opened? hopened, hnew]
  obtain ⟨hcommitted, -⟩ := commit_of_written hwrite (Report.result_pure true)
  exact ⟨_, hcarries.files.trans hcommitted, rfl, hput new⟩

/-! ## The same request twice -/

namespace Atlas

variable {σ : Type} [ProjectFiles σ] {a : Atlas σ} {r : EditRequest} {name content t : Text}
  {g : Grammar}

/-- A request for a function is carried out a second time on what the first left in the file. It
leaves the file as it is if the content fits, and only then. -/
theorem edit_twice_iff (hfast : a.settings.fastPath = true)
    (hcheck : r.check.result = .ok (.ok (.ofFunction r.file name content)))
    (hgrammar : Grammar.ofExtension? (Path.parse r.file).extension.lower = some g)
    (hheaders : g.hasFunctionHeaders = true)
    (hfile : ProjectFiles.isFile a.files r.file = .ok true)
    (hread : (ProjectFiles.read a.files r.file).result = .ok (some t))
    (hback : ProjectFiles.ReadsBack a.files r.file (EditSite.byHeaderText t name content))
    (hcontent : EditSite.Declares name content)
    (ht : Header.find? name 0 true t.trim = none ∨ (Header.functionSpan? t name).isSome) :
    ∃ e : Edit, a.CarriesOut r e ∧ e.present = t ∧
      ((a.edit r false).2.result = .ok (.ok (.applied e)) →
        ∃ e' : Edit, (a.edit r false).1.CarriesOut r e' ∧ e'.present = e.revised ∧
          (e'.revised = e.revised ↔ EditSite.Fits t name content)) := by
  obtain ⟨e, hcarries, hedit, hpresent, hrevised⟩ :=
    exists_carriesOut_byHeader hfast hcheck hgrammar hheaders hfile hread
  refine ⟨e, hcarries, hpresent, ?_⟩
  intro happlied
  rw [hcarries.answer] at happlied
  obtain ⟨hwritten, hcommitted⟩ := commit_of_applied happlied
  -- The second request finds the text that the first one left.
  rw [← hrevised, ← hedit] at hback
  obtain ⟨hfile', hread'⟩ := hback hwritten
  rw [hcarries.files, hcommitted]
  rw [hedit] at hfile' hread' ⊢
  obtain ⟨e', hcarries', -, hpresent', hrevised'⟩ :=
    exists_carriesOut_byHeader (a := { a with files := _, dirty := true }) hfast hcheck hgrammar
      hheaders hfile' hread'
  refine ⟨e', hcarries', hpresent', ?_⟩
  rw [hrevised', hrevised]
  exact EditSite.byHeaderText_twice_iff hcontent ht

end Atlas

/-- A function that is replaced by an indented one stays the same the second time. -/
theorem Atlas.edit_twice_indented :
    EditSite.Fits "function f() {}\n" "f" "  function f() { a() }" ∧
    ∃ e e' : Edit, InMemory.atlas.CarriesOut (InMemory.request "  function f() { a() }") e ∧
      e.revised = "  function f() { a() }\n" ∧
      (InMemory.atlas.edit (InMemory.request "  function f() { a() }") false).1.CarriesOut
        (InMemory.request "  function f() { a() }") e' ∧ e'.revised = e.revised := by
  have hfast : InMemory.atlas.settings.fastPath = true := rfl
  have hcheck : (InMemory.request "  function f() { a() }").check.result =
      .ok (.ok (.ofFunction "b.js" "f" "  function f() { a() }")) := rfl
  have hgrammar : Grammar.ofExtension? (Path.parse "b.js").extension.lower = some .javascript := by
    decide
  have hread : (ProjectFiles.read InMemory.atlas.files "b.js").result =
      .ok (some "function f() {}\n") := rfl
  have hcontent : EditSite.Declares "f" "  function f() { a() }" := ⟨by decide, by decide⟩
  have hfits : EditSite.Fits "function f() {}\n" "f" "  function f() { a() }" :=
    ⟨"  ", by decide, by decide⟩
  obtain ⟨e, hcarries, -, htwice⟩ := Atlas.edit_twice_iff hfast hcheck hgrammar rfl rfl hread
    (MemoryFiles.atomicWrite _ _ _).readsBack hcontent (.inr (by decide))
  have hshown : (InMemory.atlas.edit (InMemory.request "  function f() { a() }") true).2.result =
      .ok (.ok (.preview ⟨"function 'f'", "b.js", "function f() {}\n",
        "  function f() { a() }\n"⟩)) := by
    rfl
  have hedit := hcarries.shown.symm.trans hshown
  simp only [Except.ok.injEq, EditOutcome.preview.injEq] at hedit
  subst hedit
  obtain ⟨e', hcarries', -, hsame⟩ := htwice rfl
  exact ⟨hfits, _, e', hcarries, rfl, hcarries', hsame.mpr hfits⟩

namespace Reread

/-- Two stray bytes that are a letter when they are put together. -/
def name : Text := [CodePoint.ofNat 0xDCC3, CodePoint.ofNat 0xDCA9]

/-- A function of that name. -/
def content : Text := "function " ++ name ++ "() {}"

/-- A project with an empty file on disk. -/
def atlas : Atlas DiskFiles where
  files := ⟨⟨.folder [("p", .folder [("b.js", .file [])])]⟩, ⟨[Path.slash], ["p"]⟩⟩
  dirty := false
  settings := .default
  parsers := none
  stream := ⟨false, true⟩

/-- The request to put the function into the file. -/
def request : EditRequest := ⟨"b.js", name, .text "function", some (.text content), none⟩

/-- The bytes of the file, with the function in it once. -/
def once : Bytes := Utf8.encodeLossy "function é() {}"

/-- The bytes of the file, with the function in it twice. -/
def twice : Bytes := Utf8.encodeLossy "function é() {}\nfunction é() {}"

theorem stored :
    (atlas.afterEdits [(request, false)]).files.stored "b.js" = .ok once ∧
      (atlas.afterEdits [(request, false), (request, false)]).files.stored "b.js" = .ok twice := by
  have hhome : Path.here ∉ atlas.files.home.names := by decide
  have hcheck : request.check.result = .ok (.ok (.ofFunction request.file name content)) := rfl
  have hgrammar : Grammar.ofExtension? (Path.parse request.file).extension.lower =
      some .javascript := by decide
  have honce : Utf8.encode (EditSite.byHeaderText (Utf8.decode []) name content) = .ok once := by
    decide
  have htwice : Utf8.encode (EditSite.byHeaderText (Utf8.decode once) name content) =
      .ok twice := by decide
  obtain ⟨files, hfirst, hsame, hstored⟩ :=
    Atlas.stored_edit_byHeader (a := atlas) rfl hhome hcheck hgrammar rfl rfl honce
  obtain ⟨files', hsecond, -, hstored'⟩ :=
    Atlas.stored_edit_byHeader (a := { atlas with files := files, dirty := true }) rfl
      (hsame ▸ hhome) hcheck hgrammar rfl hstored htwice
  constructor
  · show (atlas.edit request false).1.files.stored "b.js" = .ok once
    rw [hfirst]
    exact hstored
  · show ((atlas.edit request false).1.edit request false).1.files.stored "b.js" = .ok twice
    rw [hfirst, hsecond]
    exact hstored'

end Reread

/-- A function with a newline behind it is put in the place of the function, which leaves a newline
more each time. -/
theorem InMemory.read_newlines :
    (ProjectFiles.read (atlas.afterEdits
      [(request "function f() {}\n", false)]).files "b.js").result =
        .ok (some "function f() {}\n\n") ∧
    (ProjectFiles.read (atlas.afterEdits
      [(request "function f() {}\n", false), (request "function f() {}\n", false)]).files
        "b.js").result = .ok (some "function f() {}\n\n\n") := by
  constructor
  · rfl
  · rfl

/-- It is not so that a second edit leaves the file as the first one left it. A function with a
newline behind it, put in the place of one that is the same without it, adds an empty line each
time. And a function is added each time if its name is read as another one. -/
theorem Atlas.not_edit_twice :
    (EditSite.Declares "f" "function f() {}\n" ∧
      (ProjectFiles.read InMemory.atlas.files "b.js").result = .ok (some "function f() {}\n") ∧
      (Header.functionSpan? "function f() {}\n" "f").isSome ∧
      (ProjectFiles.read (InMemory.atlas.afterEdits
        [(InMemory.request "function f() {}\n", false)]).files "b.js").result ≠
      (ProjectFiles.read (InMemory.atlas.afterEdits
        [(InMemory.request "function f() {}\n", false),
          (InMemory.request "function f() {}\n", false)]).files "b.js").result) ∧
    (EditSite.Declares Reread.name Reread.content ∧
      Reread.content = Reread.content.trim ∧
      (ProjectFiles.read Reread.atlas.files "b.js").result = .ok (some []) ∧
      Header.find? Reread.name 0 true [] = none ∧
      (Reread.atlas.afterEdits [(Reread.request, false)]).files.stored "b.js" ≠
      (Reread.atlas.afterEdits
        [(Reread.request, false), (Reread.request, false)]).files.stored "b.js") := by
  constructor
  · obtain ⟨honce, htwice⟩ := InMemory.read_newlines
    refine ⟨⟨by decide, by decide⟩, rfl, by decide, ?_⟩
    rw [honce, htwice]
    intro heq
    have hsame : Text.ofString "function f() {}\n\n" = "function f() {}\n\n\n" :=
      Option.some.inj (Except.ok.inj heq)
    revert hsame
    decide
  · obtain ⟨honce, htwice⟩ := Reread.stored
    refine ⟨⟨by decide, by decide⟩, by decide, rfl, by decide, ?_⟩
    rw [honce, htwice]
    intro heq
    have hsame : Reread.once = Reread.twice := Except.ok.inj heq
    revert hsame
    decide

end SymbolAtlas
