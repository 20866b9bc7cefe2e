import SymbolAtlas.Atlas

/-!
# Outcomes of edit requests

What `Atlas.edit` leaves behind and answers, by what came of planning: a plan that fails or is
refused leaves the atlas as it is, and so does a dry run; a plan that is carried out is the plan
committed. `Atlas.commit` in turn goes by what writing answers.
-/

namespace SymbolAtlas

namespace EditRequest

variable {r : EditRequest} {task : EditTask}

/-- A task is about the file, the symbol and the content that the request names. -/
theorem of_check (h : r.check.result = .ok (.ok task)) :
    task.file = r.file ∧ task.name = r.name ∧ r.content = some task.content := by
  unfold check at h
  cases hcontent : r.content with
  | none => simp [hcontent] at h
  | some content =>
    simp only [hcontent] at h
    split at h
    · simp at h
    · split at h
      · simp at h
      · split at h
        · split at h
          · cases h
            exact ⟨rfl, rfl, rfl⟩
          · cases h
            exact ⟨rfl, rfl, rfl⟩
        · cases h
          exact ⟨rfl, rfl, rfl⟩

variable {σ : Type} [ProjectFiles σ] {files : σ} {parsers : Parsers} {settings : Settings}

/-- The edit of a task is made from what is read of its file. -/
theorem of_planTask {e : Edit} (h : (planTask files parsers settings task).result = .ok (.ok e)) :
    e.file = task.file ∧ (ProjectFiles.read files task.file).result = .ok (some e.present) := by
  simp only [planTask, Report.result_bind, Report.tell, Report.ofExcept, Except.bind] at h
  cases hfile : ProjectFiles.isFile files task.file with
  | error f => simp [hfile] at h
  | ok isFile =>
    cases isFile with
    | false => simp [hfile] at h
    | true =>
      simp only [hfile, Bool.not_true, Bool.false_eq_true, if_false] at h
      split at h
      · simp at h
      · rw [Report.result_bind] at h
        rcases hread : (ProjectFiles.read files task.file).result with f | none | present
        · simp [hread, Except.bind] at h
        · simp [hread, Except.bind] at h
        simp only [hread, Except.bind, Report.result_bind, Report.attempt] at h
        split at h
        · simp [Report.result_bind, Except.bind] at h
        · simp at h
        · cases h
          exact ⟨rfl, rfl⟩

/-- A planned edit is an edit of the file of the request, made from what is read there. -/
theorem of_plan {e : Edit} (h : (r.plan files parsers settings).result = .ok (.ok e)) :
    e.file = r.file ∧ (ProjectFiles.read files r.file).result = .ok (some e.present) := by
  unfold plan at h
  rw [Report.result_bind] at h
  rcases hcheck : r.check.result with f | refusal | task
  · simp [hcheck, Except.bind] at h
  · simp [hcheck, Except.bind] at h
  rw [← (of_check hcheck).1]
  rw [hcheck] at h
  exact of_planTask h

theorem file_of_plan {e : Edit} (h : (r.plan files parsers settings).result = .ok (.ok e)) :
    e.file = r.file := (of_plan h).1

/-- The plan of a task whose file can be read and whose new text is known. -/
theorem result_plan {g : Grammar} {present revised : Text}
    (hcheck : r.check.result = .ok (.ok task))
    (hfile : ProjectFiles.isFile files r.file = .ok true)
    (hgrammar : Grammar.ofExtension? (Path.parse r.file).extension.lower = some g)
    (hread : (ProjectFiles.read files r.file).result = .ok (some present))
    (hrevise : (task.revise settings parsers g present).result = .ok (.ok revised)) :
    (r.plan files parsers settings).result =
      .ok (.ok ⟨task.description, r.file, present, revised⟩) := by
  rw [← (of_check hcheck).1] at hfile hgrammar hread ⊢
  simp only [plan, Report.result_bind, hcheck, Except.bind, planTask, Report.tell,
    Report.ofExcept, hfile, Bool.not_true, Bool.false_eq_true, if_false, hgrammar, hread,
    Report.attempt, hrevise, Report.result_pure]

end EditRequest

namespace Atlas

variable {σ : Type} [ProjectFiles σ] {a : Atlas σ} {r : EditRequest}

/-! ## Planning -/

theorem edit_of_failed (dryRun : Bool) {f : Failure}
    (h : (r.plan a.files a.parsers a.settings).result = .error f) :
    (a.edit r dryRun).1 = a ∧ (a.edit r dryRun).2.result = .error f := by
  rcases hplan : r.plan a.files a.parsers a.settings with ⟨log, result⟩
  rw [hplan] at h
  obtain rfl : result = .error f := h
  simp [edit, hplan]

theorem edit_of_refused (dryRun : Bool) {refusal : EditRefusal}
    (h : (r.plan a.files a.parsers a.settings).result = .ok (.error refusal)) :
    (a.edit r dryRun).1 = a ∧ (a.edit r dryRun).2.result = .ok (.error refusal) := by
  rcases hplan : r.plan a.files a.parsers a.settings with ⟨log, result⟩
  rw [hplan] at h
  obtain rfl : result = .ok (.error refusal) := h
  simp [edit, hplan]

variable {e : Edit}

theorem edit_dry_of_planned (h : (r.plan a.files a.parsers a.settings).result = .ok (.ok e)) :
    (a.edit r true).1 = a ∧ (a.edit r true).2.result = .ok (.ok (.preview e)) := by
  rcases hplan : r.plan a.files a.parsers a.settings with ⟨log, result⟩
  rw [hplan] at h
  obtain rfl : result = .ok (.ok e) := h
  simp [edit, hplan]

theorem edit_of_planned (h : (r.plan a.files a.parsers a.settings).result = .ok (.ok e)) :
    (a.edit r false).1 = (a.commit e).1 ∧
      (a.edit r false).2.result = (a.commit e).2.result := by
  rcases hplan : r.plan a.files a.parsers a.settings with ⟨log, result⟩
  rw [hplan] at h
  obtain rfl : result = .ok (.ok e) := h
  simp [edit, hplan]

/-- A dry run leaves the atlas as it is. -/
theorem fst_edit_dry : (a.edit r true).1 = a := by
  rcases hplan : (r.plan a.files a.parsers a.settings).result with f | refusal | e
  · exact (edit_of_failed true hplan).1
  · exact (edit_of_refused true hplan).1
  · exact (edit_dry_of_planned hplan).1

/-! ## Committing -/

variable {files : σ} {report : Report Bool}

theorem commit_of_written (h : ProjectFiles.write a.files e.file e.revised = (files, report))
    (hreport : report.result = .ok true) :
    (a.commit e).1 = { a with files := files, dirty := true } ∧
      (a.commit e).2.result = .ok (.ok (.applied e)) := by
  obtain ⟨log, result⟩ := report
  obtain rfl : result = .ok true := hreport
  simp [commit, h]

theorem commit_of_not_written (h : ProjectFiles.write a.files e.file e.revised = (files, report))
    (hreport : report.result = .ok false) :
    (a.commit e).1 = { a with files := files } ∧
      (a.commit e).2.result = .ok (.error (.notWritten e.file)) := by
  obtain ⟨log, result⟩ := report
  obtain rfl : result = .ok false := hreport
  simp [commit, h]

/-- An edit is applied only if writing says that its text was stored. -/
theorem commit_of_applied {applied : Edit}
    (h : (a.commit e).2.result = .ok (.ok (.applied applied))) :
    (ProjectFiles.write a.files e.file e.revised).2.result = .ok true ∧
      (a.commit e).1 =
        { a with files := (ProjectFiles.write a.files e.file e.revised).1, dirty := true } := by
  rcases hwrite : ProjectFiles.write a.files e.file e.revised with ⟨files, log, f | stored⟩
  · simp [commit, hwrite] at h
  · cases stored with
    | false => simp [commit, hwrite] at h
    | true => exact ⟨rfl, (commit_of_written hwrite rfl).1⟩

end Atlas

end SymbolAtlas
