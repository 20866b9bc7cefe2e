import SymbolAtlas.Proofs.Edit.Outcome
import SymbolAtlas.Proofs.Files.Refused

/-!
# Refused edits and the files

A refused edit leaves the bytes of its file as they are, with one exception: an edit that was
planned, but whose new text has no form in bytes, empties the file that it was to change
(`DiskFiles.refused_files`).
-/

namespace SymbolAtlas

/-- Whether a request has a plan whose new text has no form in bytes. -/
def Atlas.PlansUnencodable [Host] (a : Atlas DiskFiles) (r : EditRequest) : Prop :=
  ∃ e f, (r.plan a.files a.parsers a.settings).result = .ok (.ok e) ∧
    Utf8.encode e.revised = .error f

/-- A request that is refused when it is to be carried out changes the bytes of its file only if
their new text has no form in bytes, and then no byte is left. -/
theorem Atlas.stored_of_edit_refused [Host] {a : Atlas DiskFiles} {r : EditRequest}
    {refusal : EditRefusal} {bs : Bytes} (hhome : Path.here ∉ a.files.home.names)
    (hstored : a.files.stored r.file = .ok bs)
    (h : (a.edit r false).2.result = .ok (.error refusal)) :
    (a.PlansUnencodable r ∧ (a.edit r false).1.files.stored r.file = .ok []) ∨
      (¬ a.PlansUnencodable r ∧ (a.edit r false).1.files.stored r.file = .ok bs) := by
  rcases hplan : (r.plan a.files a.parsers a.settings).result with f | refusal' | e
  · rw [(Atlas.edit_of_failed false hplan).2] at h
    simp at h
  · right
    rw [(Atlas.edit_of_refused false hplan).1]
    refine ⟨?_, hstored⟩
    rintro ⟨e, f, he, -⟩
    simp [hplan] at he
  · obtain ⟨hfiles, hanswer⟩ := Atlas.edit_of_planned hplan
    have hfile := EditRequest.file_of_plan hplan
    rw [← hfile] at hstored ⊢
    cases hencode : Utf8.encode e.revised with
    | ok new =>
      -- The text could be stored, so the request was not refused.
      obtain ⟨d, hwrite, -⟩ := DiskFiles.writeAt_of_stored hstored hhome hencode
      obtain ⟨-, happlied⟩ :=
        Atlas.commit_of_written (a := a) (e := e) hwrite (Report.result_pure true)
      rw [hanswer, happlied] at h
      simp at h
    | error f =>
      obtain ⟨d, hwrite, hempty⟩ := DiskFiles.writeAt_unencodable hstored hhome hencode
      obtain ⟨hcommitted, -⟩ := Atlas.commit_of_not_written (a := a) (e := e) hwrite rfl
      rw [hfiles, hcommitted]
      exact .inl ⟨⟨e, f, hplan, hencode⟩, hempty⟩

/-- A refused text leaves all files as they are unless it has no form in bytes and a file was opened
for it that was not empty already; this file is empty then, and no other file changes. A refused
edit leaves the bytes of its file as they are unless there are some, the edit was to be carried out
and its new text has no form in bytes; no byte is left then. -/
theorem DiskFiles.refused_files [Host] (a : Atlas DiskFiles) (file text : Text) (r : EditRequest)
    (dryRun : Bool) :
    ((a.files.writeAt file text).2.result = .ok false →
      (a.files.volume.SameFiles (a.files.writeAt file text).1.volume ↔
        ∀ place, ¬ a.files.Empties file text place) ∧
      ∀ place, a.files.Empties file text place →
        a.files.volume.SameFilesBut place (a.files.writeAt file text).1.volume) ∧
    (∀ refusal bs, Path.here ∉ a.files.home.names → a.files.stored r.file = .ok bs →
      (a.edit r dryRun).2.result = .ok (.error refusal) →
      ((a.edit r dryRun).1.files.stored r.file = .ok bs ↔
        ¬ (dryRun = false ∧ a.PlansUnencodable r ∧ bs ≠ [])) ∧
      (dryRun = false ∧ a.PlansUnencodable r →
        (a.edit r dryRun).1.files.stored r.file = .ok [])) := by
  constructor
  · intro h
    obtain ⟨hbut, hsame⟩ := writeAt_refused h
    refine ⟨⟨?_, hsame⟩, hbut⟩
    intro hfiles place hempties
    exact (hbut place hempties).not_sameFiles hempties.2.2 hfiles
  · intro refusal bs hhome hstored h
    cases dryRun with
    | true =>
      rw [Atlas.fst_edit_dry]
      exact ⟨⟨fun _ hand => absurd hand.1 (by decide), fun _ => hstored⟩,
        fun hand => absurd hand.1 (by decide)⟩
    | false =>
      rcases Atlas.stored_of_edit_refused hhome hstored h with ⟨hplans, hnow⟩ | ⟨hplans, hnow⟩
      · refine ⟨?_, fun _ => hnow⟩
        rw [hnow]
        simp [hplans, eq_comm]
      · refine ⟨?_, fun hand => absurd hand.2 hplans⟩
        rw [hnow]
        simp [hplans]

namespace Surrogate

/-- A project with one file. -/
def atlas : Atlas DiskFiles where
  files := ⟨⟨.folder [("p", .folder [("s.py", .file [0x78])])]⟩, ⟨[Path.slash], ["p"]⟩⟩
  dirty := false
  settings := .default
  parsers := some fun _ => .ok fun _ => .ok (.mk (.other "module") 0 1 [] [] true)
  stream := ⟨false, true⟩

/-- A content that has no form in bytes. -/
def content : Text := [CodePoint.ofNat 0xD800]

/-- A request to add a function with that content. -/
def request : EditRequest := ⟨"s.py", "f", .text "function", some (.text content), none⟩

/-- The edit that the request plans. -/
def planned : Edit := ⟨"function 'f'", "s.py", "x", Splice.appendTopLevel "x" content⟩

theorem stored : atlas.files.stored "s.py" = .ok [0x78] := rfl

theorem result_plan :
    (request.plan atlas.files atlas.parsers atlas.settings).result = .ok (.ok planned) := by
  have hcheck : request.check.result =
      .ok (.ok ⟨"s.py", "f", .function, .text content, none⟩) := rfl
  have hgrammar : Grammar.ofExtension? (Path.parse request.file).extension.lower = some .python :=
    rfl
  refine EditRequest.result_plan hcheck (DiskFiles.isFile_of_stored stored) hgrammar
    (DiskFiles.result_read_of_stored stored) ?_
  simp only [EditTask.revise, EditTask.site, Report.result_bind]
  rfl

theorem exists_writeAt (text : Text) {e : Utf8.EncodeError} (h : Utf8.encode text = .error e) :
    ∃ d', atlas.files.writeAt "s.py" text = (d', DiskFiles.notWritten "s.py" (.unencodable e)) ∧
      d'.stored "s.py" = .ok [] :=
  DiskFiles.writeAt_unencodable stored (by decide) h

end Surrogate

/-- A lone surrogate in an edit costs a file its content. -/
theorem DiskFiles.refused_files_surrogate :
    (Surrogate.atlas.edit Surrogate.request false).1.files.stored "s.py" = .ok [] := by
  have hplans : Surrogate.atlas.PlansUnencodable Surrogate.request :=
    ⟨_, _, Surrogate.result_plan, rfl⟩
  have hrefused : (Surrogate.atlas.edit Surrogate.request false).2.result =
      .ok (.error (.notWritten "s.py")) := by
    obtain ⟨d, hwrite, -⟩ := Surrogate.exists_writeAt Surrogate.planned.revised rfl
    rw [(Atlas.edit_of_planned Surrogate.result_plan).2]
    exact (Atlas.commit_of_not_written (a := Surrogate.atlas) (e := Surrogate.planned) hwrite rfl).2
  obtain ⟨-, hedit⟩ := DiskFiles.refused_files Surrogate.atlas "s.py" Surrogate.content
    Surrogate.request false
  obtain ⟨-, hempty⟩ := hedit (.notWritten "s.py") [0x78] (by decide) Surrogate.stored hrefused
  exact hempty ⟨rfl, hplans⟩

/-- It is not so that a refused text leaves every file as it is. -/
theorem DiskFiles.not_stored_of_refused :
    ¬ ∀ (d : DiskFiles) (file text : Text) (bs : Bytes), d.stored file = .ok bs →
      (d.writeAt file text).2.result = .ok false →
      (d.writeAt file text).1.stored file = .ok bs := by
  intro h
  obtain ⟨d, hwrite, hempty⟩ := Surrogate.exists_writeAt Surrogate.content rfl
  have hkept := h Surrogate.atlas.files "s.py" Surrogate.content [0x78] rfl (by rw [hwrite]; rfl)
  rw [hwrite, hempty] at hkept
  simp at hkept

end SymbolAtlas
