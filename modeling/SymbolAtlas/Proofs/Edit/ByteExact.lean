import SymbolAtlas.Proofs.Edit.Outcome
import SymbolAtlas.Proofs.Files.Storing
import SymbolAtlas.Proofs.Symbol.Locating

/-!
# Edits are exact to the byte

Offsets of nodes count bytes, ranges count lines and code points, and files are written as bytes
again. `Atlas.edit_located_bytes` says that all of this agrees: where the tree of a file is placed
in its bytes, replacing a located symbol puts the bytes of the new content in the place of the
bytes of its target, and every other byte stays as it was, readable or not. Nothing on the way
fails.
-/

namespace SymbolAtlas

open Utf8 (decode)

/-! ## Trees from parsers -/

theorem Source.text_of_build {text : Text} {g : Grammar} {parse : Bytes → Except Text Node}
    {src : Source} (h : Source.build text g parse = .ok src) : src.text = text := by
  unfold Source.build at h
  split at h
  · simp at h
  · split at h
    · simp at h
    · rw [← Except.ok.inj h]

/-- A tree is a tree of the bytes that were parsed. -/
theorem Parsers.bytes_of_parse {parsers : Parsers} {g : Grammar} {bs : Bytes} {src : Source}
    (h : (parsers.parse (decode bs) g).result = .ok (some src)) : src.bytes = bs := by
  have htext : src.text = decode bs := by
    unfold Parsers.parse at h
    rw [Report.result_bind] at h
    rcases hget : (parsers.get g).result with f | none | parser
    · simp [hget, Except.bind] at h
    · simp [hget, Except.bind] at h
    · simp only [hget, Except.bind, Report.ofExcept] at h
      cases hbuild : Source.build (decode bs) g parser with
      | error f => simp [hbuild, Except.map] at h
      | ok built =>
        simp only [hbuild, Except.map, Except.ok.injEq, Option.some.injEq] at h
        rw [← h]
        exact Source.text_of_build hbuild
  have hbytes := src.encode_text
  rw [htext, Utf8.encode_decode] at hbytes
  exact (Except.ok.inj hbytes).symm

/-- The source that a parser's tree for the bytes of a file gives. -/
theorem Parsers.parse_decode {parsers : Grammar → Except Text Parser} {g : Grammar}
    {parser : Parser} {bs : Bytes} {root : Node} (hparser : parsers g = .ok parser)
    (hroot : parser bs = .ok root) :
    (Parsers.parse (some parsers) (decode bs) g).result =
      .ok (some ⟨decode bs, bs, root, g, Utf8.encode_decode bs⟩) := by
  have hbuild : Source.build (decode bs) g parser =
      .ok ⟨decode bs, bs, root, g, Utf8.encode_decode bs⟩ := by
    unfold Source.build
    split
    · next e h => simp [Utf8.encode_decode] at h
    · next bytes h =>
      obtain rfl : bs = bytes := Except.ok.inj ((Utf8.encode_decode bs).symm.trans h)
      simp only [hroot]
  simp only [Parsers.parse, Report.result_bind, Parsers.get, hparser, Report.tell, Except.bind,
    Report.result_pure, hbuild, Report.ofExcept, Except.map]

/-! ## Sites -/

namespace EditTask

variable {src : Source} (hplaced : src.root.PlacedIn src.bytes)

include hplaced

theorem findClass_answers (name : Text) : src.Answers (findClass src name).result := by
  unfold findClass
  rw [Report.result_bind, Source.result_reportLocate]
  rcases Source.locate_answers hplaced name .class_ with h | ⟨l, h, hl⟩
  · rw [h]
    show src.Answers (src.reportLocate name .struct).result
    rw [Source.result_reportLocate]
    exact Source.locate_answers hplaced name .struct
  · rw [h]
    exact .inr ⟨l, rfl, hl⟩

/-- In a placed tree the site of a member is found, or it is known why there is none. -/
theorem exists_memberSite (task : EditTask) (className : Text) :
    ∃ site, (task.memberSite src className).result = .ok site ∧
      ∀ l, site = .ok (.symbol l) → l.StandsIn src := by
  unfold memberSite
  rw [Report.result_bind]
  rcases findClass_answers hplaced className with h | ⟨c, h, hc⟩
  · rw [h]
    exact ⟨_, rfl, by simp⟩
  · rw [h]
    simp only [Except.bind, Report.result_bind, Report.ofExcept]
    rcases Source.locateInClass_answers hplaced hc.spot task.name task.kind (some className) with
      hmember | ⟨member, hmember, hstands⟩
    · rw [hmember]
      dsimp only
      split
      · exact ⟨_, rfl, by simp⟩
      · exact ⟨_, rfl, by simp⟩
    · rw [hmember]
      refine ⟨_, rfl, ?_⟩
      intro l hl
      obtain rfl : member = l := by simpa using hl
      exact hstands

theorem exists_topLevelSite (task : EditTask) :
    ∃ site, (task.topLevelSite src).result = .ok site ∧
      ∀ l, site = .symbol l → l.StandsIn src := by
  unfold topLevelSite
  rw [Report.result_bind, Source.result_reportLocate]
  rcases Source.locate_answers hplaced task.name task.kind with h | ⟨located, h, hstands⟩
  · rw [h]
    exact ⟨_, rfl, by simp⟩
  · rw [h]
    refine ⟨_, rfl, ?_⟩
    intro l hl
    obtain rfl : located = l := by simpa using hl
    exact hstands

/-- In a placed tree the site of a task is found, or it is known why there is none. -/
theorem exists_site (task : EditTask) {settings : Settings} {parsers : Parsers} {g : Grammar}
    {t : Text} (htree : task.usesHeader settings g = false)
    (hparse : (parsers.parse t g).result = .ok (some src)) :
    ∃ site, (task.site settings parsers g t).result = .ok site ∧
      ∀ l, site = .ok (.symbol l) → l.StandsIn src := by
  unfold site
  rw [if_neg (by simp [htree]), Report.result_bind, hparse]
  simp only [Except.bind]
  split
  · next className hclass => exact exists_memberSite hplaced task className
  · obtain ⟨site, hsite, hstands⟩ := exists_topLevelSite hplaced task
    refine ⟨.ok site, by rw [Report.result_bind, hsite]; rfl, ?_⟩
    intro l hl
    exact hstands l (Except.ok.inj hl)

end EditTask

/-! ## Replacing -/

namespace Located

variable {src : Source} {l : Located} {content : Text}

/-- Replacing the target of an edit never fails, and puts the content in the place of the target. -/
theorem reviseLocated_of_placed (hplaced : src.root.PlacedIn src.bytes) (hl : l.StandsIn src)
    (hcontent : content ≠ []) :
    EditSite.reviseLocated (decode src.bytes) l content =
      .ok (src.textWith (l.targetNode content) content) := by
  obtain ⟨r, hr, hreplace⟩ :=
    src.replaceRange_of_placed (hplaced _ (hl.targetNode_within content)) content
  obtain rfl : r = EditSite.targetRange l content :=
    Except.ok.inj (hr.symm.trans (hl.rangeOf_targetNode content))
  simpa only [EditSite.reviseLocated, if_neg hcontent] using hreplace

end Located

/-- The new text of a task at a located symbol. -/
theorem EditTask.revise_of_symbol {task : EditTask} {settings : Settings} {parsers : Parsers}
    {g : Grammar} {src : Source} {l : Located} {content : Text}
    (hplaced : src.root.PlacedIn src.bytes) (hl : l.StandsIn src)
    (hsite : (task.site settings parsers g (decode src.bytes)).result = .ok (.ok (.symbol l)))
    (htask : task.content = .text content) (hcontent : content ≠ []) :
    (task.revise settings parsers g (decode src.bytes)).result =
      .ok (.ok (src.textWith (l.targetNode content) content)) := by
  have hrevised := Located.reviseLocated_of_placed hplaced hl hcontent
  simp only [revise, Report.result_bind, hsite, Except.bind, htask, EditSite.revise, EditSite.put,
    hrevised, Report.ofExcept, Report.result_pure]

/-! ## On disk -/

/-- In a file whose tree is placed in its bytes, node ranges and replacements never fail, and
replacing a located symbol changes the bytes of its target to those of the content and no others.
The folder of a project has no name that is a single dot, as no parsed path has one
(`Path.here_not_mem_parse`). -/
theorem Atlas.edit_located_bytes [Host] {a : Atlas DiskFiles} {r : EditRequest} {task : EditTask}
    {g : Grammar} {src : Source} {bs encoded : Bytes} {content : Text}
    (hhome : Path.here ∉ a.files.home.names)
    (hstored : a.files.stored r.file = .ok bs)
    (hcheck : r.check.result = .ok (.ok task))
    (htask : task.content = .text content) (hcontent : content ≠ [])
    (hencoded : Utf8.encode content = .ok encoded)
    (hgrammar : Grammar.ofExtension? (Path.parse r.file).extension.lower = some g)
    (htree : task.usesHeader a.settings g = false)
    (hparse : (a.parsers.parse (decode bs) g).result = .ok (some src))
    (hplaced : src.root.PlacedIn bs) :
    (∀ n : Node, n.Within src.root → ∀ new,
      ∃ range t, src.rangeOf n = .ok range ∧ Splice.replaceRange (decode bs) range new = .ok t) ∧
    ∃ site, (task.site a.settings a.parsers g (decode bs)).result = .ok site ∧
      ∀ l, site = .ok (.symbol l) →
        src.rangeOf (l.targetNode content) = .ok (EditSite.targetRange l content) ∧
        (∃ e, (a.edit r false).2.result = .ok (.ok (.applied e))) ∧
        (a.edit r false).1.files.stored r.file =
          .ok (bs.take (l.targetNode content).start.toNat ++ encoded ++
            bs.drop (l.targetNode content).stop.toNat) := by
  obtain rfl : src.bytes = bs := Parsers.bytes_of_parse hparse
  refine ⟨?_, ?_⟩
  · intro n hn new
    obtain ⟨range, hrange, hreplace⟩ := src.replaceRange_of_placed (hplaced n hn) new
    exact ⟨range, _, hrange, hreplace⟩
  obtain ⟨site, hsite, hstands⟩ := task.exists_site hplaced htree hparse
  refine ⟨site, hsite, ?_⟩
  rintro l rfl
  have hbytes := src.encode_textWith (l.targetNode content) hencoded
  have hrevise := EditTask.revise_of_symbol hplaced (hstands l rfl) hsite htask hcontent
  have hplan := EditRequest.result_plan hcheck (DiskFiles.isFile_of_stored hstored) hgrammar
    (DiskFiles.result_read_of_stored hstored) hrevise
  -- The path that was read leads to the same place when it is written to.
  obtain ⟨d, hwrite, hnow⟩ := DiskFiles.writeAt_of_stored hstored hhome hbytes
  let e : Edit := ⟨task.description, r.file, decode src.bytes,
    src.textWith (l.targetNode content) content⟩
  obtain ⟨hfiles, hanswer⟩ := Atlas.edit_of_planned hplan
  obtain ⟨hcommitted, happlied⟩ :=
    Atlas.commit_of_written (a := a) (e := e) hwrite (Report.result_pure true)
  refine ⟨(hstands l rfl).rangeOf_targetNode content, ⟨e, hanswer.trans happlied⟩, ?_⟩
  rw [hfiles, hcommitted]
  exact hnow

namespace Stray

/-- A file with a stray byte before, inside and after the definition of a function. -/
def bytes : Bytes :=
  [0x23, 0xC3, 0xA9, 0xFF, 0x0A] ++ Utf8.encodeLossy "def f(): '" ++ [0xFF, 0x27, 0x0A, 0x23, 0xFF]

/-- The tree of the file. -/
def tree : Node :=
  .mk (.other "module") 0 20
    [.mk .functionDefinition 5 17 [.mk (.other "identifier") 9 10 [] [] true] [(.name, 0)] true] []
    true

/-- The project with the file. -/
def atlas : Atlas DiskFiles where
  files := ⟨⟨.folder [("p", .folder [("s.py", .file bytes)])]⟩, ⟨[Path.slash], ["p"]⟩⟩
  dirty := false
  settings := .default
  parsers := some fun _ => .ok fun _ => .ok tree
  stream := ⟨false, true⟩

/-- The request to replace the function. -/
def request : EditRequest := ⟨"s.py", "f", .text "function", some (.text "def f(): 2"), none⟩

/-- The task of the request. -/
def task : EditTask := ⟨"s.py", "f", .function, .text "def f(): 2", none⟩

/-- The bytes that the request replaces at a site. -/
def target? : Except EditRefusal EditSite → Option (Int × Int)
  | .ok (.symbol l) => some ((l.targetNode "def f(): 2").start, (l.targetNode "def f(): 2").stop)
  | _ => none

theorem exists_target {site : Except EditRefusal EditSite} {start stop : Int}
    (h : target? site = some (start, stop)) :
    ∃ l, site = .ok (.symbol l) ∧ (l.targetNode "def f(): 2").start = start ∧
      (l.targetNode "def f(): 2").stop = stop := by
  unfold target? at h
  split at h
  · next l =>
    obtain ⟨hstart, hstop⟩ := Prod.mk.inj (Option.some.inj h)
    exact ⟨l, rfl, hstart, hstop⟩
  · cases h

end Stray

/-- Replacing a function among stray bytes. -/
theorem Atlas.edit_located_bytes_stray :
    (Stray.atlas.edit Stray.request false).1.files.stored "s.py" =
      .ok ([0x23, 0xC3, 0xA9, 0xFF, 0x0A] ++ Utf8.encodeLossy "def f(): 2" ++
        [0x0A, 0x23, 0xFF]) := by
  have hstored : Stray.atlas.files.stored Stray.request.file = .ok Stray.bytes := rfl
  have hcheck : Stray.request.check.result = .ok (.ok Stray.task) := rfl
  have hgrammar : Grammar.ofExtension? (Path.parse Stray.request.file).extension.lower =
      some .python := by decide
  obtain ⟨-, site, hsite, hsymbol⟩ := Atlas.edit_located_bytes (by decide) hstored hcheck rfl
    (by decide) rfl hgrammar (by decide) (Parsers.parse_decode rfl rfl)
    (Node.placedIn_of_isPlaced (by decide))
  have htarget : (Stray.task.site Stray.atlas.settings Stray.atlas.parsers .python
      (decode Stray.bytes)).result.map Stray.target? = .ok (some (5, 17)) := rfl
  rw [hsite] at htarget
  obtain ⟨l, rfl, hstart, hstop⟩ := Stray.exists_target (Except.ok.inj htarget)
  obtain ⟨-, -, hnow⟩ := hsymbol l rfl
  rw [hstart, hstop] at hnow
  exact hnow

end SymbolAtlas
