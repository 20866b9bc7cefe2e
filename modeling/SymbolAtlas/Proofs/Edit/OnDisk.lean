import SymbolAtlas.Proofs.Edit.Transaction
import SymbolAtlas.Proofs.Files.Rewriting

/-!
# Edits of files on disk

An edit is planned on a file that can be read, so no folder is made when it is carried out, the path
leads to the same place when it is written, and nothing else changes, not even if the new text turns
out to have no form in bytes (`Atlas.files_edit`). A text that is what its bytes are decoded to is
stored as a whole (`DiskFiles.atomicWrite`), so edits with such texts are seen under all paths that
lead to their files and under no others (`Atlas.reflects_afterEdits_onDisk`).
-/

namespace SymbolAtlas

open ProjectFiles

namespace DiskFiles

variable [Host] {d : DiskFiles} {file text : Text} {old new : Bytes}

theorem exists_stored_of_read {present : Text}
    (h : (ProjectFiles.read d file).result = .ok (some present)) :
    ∃ old, d.stored file = .ok old := by
  change (d.readAt file).result = _ at h
  unfold readAt at h
  dsimp only at h
  split at h
  next old hold => exact ⟨old, hold⟩
  · rw [Report.result_bind] at h
    cases h
  · cases h

/-- A text that is what its bytes are decoded to is stored in a file that can be read, for all paths
that lead to the file. -/
theorem atomicWrite (h : d.stored file = .ok old) (hhome : Path.here ∉ d.home.names)
    (hnew : Utf8.encode text = .ok new) (hback : Utf8.decode new = text) :
    AtomicWrite d.place? d file text := by
  obtain ⟨d', hwrite, hstored⟩ := writeAt_of_stored h hhome hnew
  obtain ⟨w, place, hfiles, hplace, hchanged⟩ := exists_changedAt h hhome text
  have hwrite' : write d file text = ({ d with volume := w }, pure true) := by
    show d.writeAt file text = _
    rw [hwrite] at hfiles ⊢
    rw [← hfiles]
  obtain rfl : d' = { d with volume := w } := by rw [← hfiles, hwrite]
  have halias : ∀ p, d.place? p = d.place? file →
      ({ d with volume := w } : DiskFiles).stored p = .ok new := by
    intro p hp
    rw [← place?_of_changedAt hchanged, ← place?_of_changedAt hchanged] at hp
    rw [stored_iff_place?, hp]
    exact stored_iff_place?.mp hstored
  unfold AtomicWrite
  rw [hwrite']
  refine .inl ⟨⟨?_, ?_, ?_⟩, rfl⟩
  · intro p hp
    exact isFile_of_stored (halias p hp)
  · intro p hp
    rw [result_read_of_stored (halias p hp), hback]
  · intro p hp
    exact unchanged_of_changedAt hchanged (hplace ▸ hp)

end DiskFiles

namespace Atlas

theorem files_commit {σ : Type} [ProjectFiles σ] (a : Atlas σ) (e : Edit) :
    (a.commit e).1.files = (write a.files e.file e.revised).1 := by
  unfold commit
  split
  next hwrite => rw [hwrite]
  next hwrite => rw [hwrite]
  next hwrite => rw [hwrite]

variable [Host] {a : Atlas DiskFiles} {r : EditRequest}

/-- An edit changes nothing, or it changes the file of the request. -/
theorem files_edit (hhome : Path.here ∉ a.files.home.names) (r : EditRequest) (dryRun : Bool) :
    (a.edit r dryRun).1.files = a.files ∨
      ∃ w place, (a.edit r dryRun).1.files = { a.files with volume := w } ∧
        a.files.place? r.file = some place ∧ a.files.volume.ChangedAt w place := by
  rcases hplan : (r.plan a.files a.parsers a.settings).result with f | refusal | e
  · exact .inl (by rw [(edit_of_failed dryRun hplan).1])
  · exact .inl (by rw [(edit_of_refused dryRun hplan).1])
  · cases dryRun with
    | true => exact .inl (by rw [fst_edit_dry])
    | false =>
      right
      obtain ⟨hfile, hread⟩ := EditRequest.of_plan hplan
      obtain ⟨old, hstored⟩ := DiskFiles.exists_stored_of_read hread
      rw [(edit_of_planned hplan).1, files_commit, hfile]
      exact DiskFiles.exists_changedAt hstored hhome e.revised

/-- The text of every edit that a request may ask for is what its bytes are decoded to. -/
def PlansReadable (a : Atlas DiskFiles) (r : EditRequest) : Prop :=
  ∀ e, (r.plan a.files a.parsers a.settings).result = .ok (.ok e) →
    ∃ new, Utf8.encode e.revised = .ok new ∧ Utf8.decode new = e.revised

theorem writesAtomically_onDisk (hhome : Path.here ∉ a.files.home.names)
    (h : a.PlansReadable r) : a.WritesAtomically a.files.place? r := by
  intro e hplan
  obtain ⟨new, hnew, hback⟩ := h e hplan
  obtain ⟨hfile, hread⟩ := EditRequest.of_plan hplan
  obtain ⟨old, hstored⟩ := DiskFiles.exists_stored_of_read hread
  rw [hfile]
  exact DiskFiles.atomicWrite hstored hhome hnew hback

/-- Where paths lead is the same after a run of requests. -/
theorem place?_afterEdits (hhome : Path.here ∉ a.files.home.names)
    (steps : List (EditRequest × Bool)) :
    (a.afterEdits steps).files.place? = a.files.place? ∧
      (a.afterEdits steps).files.home = a.files.home := by
  induction steps generalizing a with
  | nil => exact ⟨rfl, rfl⟩
  | cons step steps ih =>
    have hstep : (a.edit step.1 step.2).1.files.place? = a.files.place? ∧
        (a.edit step.1 step.2).1.files.home = a.files.home := by
      rcases files_edit hhome step.1 step.2 with hsame | ⟨w, place, hfiles, -, hchanged⟩
      · rw [hsame]
        exact ⟨rfl, rfl⟩
      · rw [hfiles]
        exact ⟨funext fun p => DiskFiles.place?_of_changedAt hchanged p, rfl⟩
    obtain ⟨hplace, hhome'⟩ := ih (a := (a.edit step.1 step.2).1) (hstep.2 ▸ hhome)
    exact ⟨hplace.trans hstep.1, hhome'.trans hstep.2⟩

/-- After a run of requests on disk, each file holds the text of the last edit that was applied to
it under all paths that lead to it, if the texts of the edits are what their bytes are decoded
to. -/
theorem reflects_afterEdits_onDisk (hhome : Path.here ∉ a.files.home.names)
    {steps : List (EditRequest × Bool)}
    (h : ∀ front r, front ++ [(r, false)] <+: steps → (a.afterEdits front).PlansReadable r) :
    a.Reflects a.files.place? (a.appliedEdits steps) (a.afterEdits steps) := by
  refine reflects_afterEdits fun front r hfront => ?_
  obtain ⟨hplace, hhome'⟩ := place?_afterEdits hhome front
  rw [← hplace]
  exact writesAtomically_onDisk (hhome' ▸ hhome) (h front r hfront)

end Atlas

end SymbolAtlas
