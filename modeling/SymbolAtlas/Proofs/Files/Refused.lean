import SymbolAtlas.Proofs.Files.Storing

/-!
# Texts that are not stored

A file is emptied before its new text is encoded. So storing a text that has no form in bytes loses
the content of the file that was opened, and this is the only way in which refusing a text changes
a file: `DiskFiles.writeAt_refused` says for every refused text which files are left as they were.
-/

namespace SymbolAtlas

namespace Volume

variable {v w : Volume} {names : List Text}

/-- The files of a volume with one of them emptied. -/
def SameFilesBut (place : List Text) (v w : Volume) : Prop :=
  w.at? place = some (.file []) ∧
    ∀ ns content, ns ≠ place →
      (v.at? ns = some (.file content) ↔ w.at? ns = some (.file content))

/-! ## Folders -/

theorem sameFiles_of_makeFolder (h : v.makeFolder names = .ok w) : v.SameFiles w := by
  unfold makeFolder at h
  split at h
  · simp at h
  · split at h
    · simp at h
    · next n _ _ a hwalk =>
      have hwalks : Walks v false linkLimit [] names.dropLast a := walkThrough_eq_ok_iff.mp hwalk
      have hon := (hwalks.on .nil).trail
      have hnames : a.names = a.trail.names := by simp [Arrival.names, hwalks.new_eq_none]
      split at h
      · next es hend =>
        rw [hnames] at h
        split at h
        · simp at h
        · split at h
          · simp at h
          · split at h
            · simp at h
            · next hfree =>
              have hn : Entry.named? es n = none := by simpa using hfree
              rw [← Except.ok.inj h]
              exact sameFiles_put_folder (hon.takes_new hend hn) (hon.at?_new hend hn)
      · simp at h

theorem sameFiles_of_ensureFolder (h : v.ensureFolder names = .ok w) : v.SameFiles w := by
  unfold ensureFolder at h
  split at h
  · next made hmade =>
    rw [← Except.ok.inj h]
    exact sameFiles_of_makeFolder hmade
  · split at h
    · rw [← Except.ok.inj h]
      exact .refl v
    · simp at h

/-- However far folders are made, the files stay as they are. -/
theorem sameFiles_ensureFolders (v : Volume) (anchor : Text) (around : Nat) (names : List Text) :
    v.SameFiles (v.ensureFolders anchor around names).1 := by
  induction names generalizing around with
  | nil => simpa [ensureFolders] using SameFiles.refl v
  | cons n outer ih =>
    unfold ensureFolders
    dsimp only
    split
    · next made hmade => exact sameFiles_of_ensureFolder hmade
    · exact .refl v
    · next around _ =>
      have houter := ih around
      split
      · next made e heq =>
        rw [heq] at houter
        exact houter
      · next made heq =>
        rw [heq] at houter
        split
        · next again hagain => exact houter.trans (sameFiles_of_ensureFolder hagain)
        · exact houter
    · exact .refl v

/-- Where a file is written to, an entry can be put. -/
theorem takes_of_target {place : List Text} (h : v.target names = .ok place) :
    Entry.Takes place (some v.top) := by
  unfold target at h
  split at h
  · simp at h
  · next trail n hwalk =>
    have hon := (walks_of_walkThrough hwalk).on .nil
    obtain ⟨es, hend, hn⟩ := hon.new n rfl
    rw [← Except.ok.inj h]
    exact hon.trail.takes_new hend hn
  · next trail hwalk =>
    have hon := (walks_of_walkThrough hwalk).on .nil
    split at h
    · simp at h
    · next hfolder =>
      rw [← Except.ok.inj h]
      exact hon.trail.takes (Entry.isBare_of_not_folder hfolder)

/-- A file that is put empty is the only one that changes. -/
theorem sameFilesBut_put {place : List Text} (h : Entry.Takes place (some v.top)) :
    v.SameFilesBut place (v.put place (.file [])) := by
  refine ⟨at?_put_self v place _, ?_⟩
  intro ns content hne
  exact eq_file_iff_of_face_eq (face_at?_put (Entry.isBare_file []) h hne).symm content

theorem SameFiles.but {u : Volume} {place : List Text} (huv : u.SameFiles v)
    (hvw : v.SameFilesBut place w) : u.SameFilesBut place w :=
  ⟨hvw.1, fun ns content hne => (huv ns content).trans (hvw.2 ns content hne)⟩

/-- Emptying an empty file changes nothing. -/
theorem SameFilesBut.sameFiles {place : List Text} (h : v.SameFilesBut place w)
    (hempty : v.at? place = some (.file [])) : v.SameFiles w := by
  intro ns content
  by_cases hns : ns = place
  · rw [hns, hempty, h.1]
  · exact h.2 ns content hns

theorem SameFilesBut.not_sameFiles {place : List Text} (h : v.SameFilesBut place w)
    (hne : v.at? place ≠ some (.file [])) : ¬ v.SameFiles w :=
  fun hsame => hne ((hsame place []).mpr h.1)

end Volume

namespace DiskFiles

open Volume

variable [Host] {d : DiskFiles} {file text : Text}

theorem sameFiles_prepare (v : Volume) (p : Path) : v.SameFiles (prepare v p).1 := by
  unfold prepare
  split
  · exact .refl v
  · exact sameFiles_ensureFolders v _ _ _

/-- Without opening a file nothing is stored and no file changes. -/
theorem writeAt_of_not_opened (h : d.opened? file = none) (text : Text) :
    d.volume.SameFiles (d.writeAt file text).1.volume ∧
      (d.writeAt file text).2.result ≠ .ok true := by
  have hfolders := sameFiles_prepare d.volume (d.locate file)
  have hnotWritten : ∀ e, (notWritten file e).result ≠ .ok true := by
    intro e
    simp [notWritten, Report.result_bind, Report.tell, Except.bind]
  unfold opened? at h
  unfold writeAt
  dsimp only at h ⊢
  split
  · next v e hprepare =>
    rw [hprepare] at hfolders
    split
    · exact ⟨hfolders, hnotWritten _⟩
    · exact ⟨hfolders, hnotWritten _⟩
    · exact ⟨hfolders, by simp [Report.fail]⟩
  · next v hprepare =>
    rw [hprepare] at hfolders
    simp only [hprepare] at h
    split
    · next e hrefusal =>
      split
      · exact ⟨hfolders, hnotWritten _⟩
      · exact ⟨hfolders, hnotWritten _⟩
      · exact ⟨hfolders, by simp [Report.fail]⟩
    · next hrefusal =>
      split
      · exact ⟨hfolders, hnotWritten _⟩
      · next place htarget => simp [hrefusal, htarget] at h

/-- Storing a text would empty the file at a place: the text has no form in bytes, and the file is
opened and is not empty already. -/
def Empties (d : DiskFiles) (file text : Text) (place : List Text) : Prop :=
  (∃ e, Utf8.encode text = .error e) ∧ (∃ v, d.opened? file = some (v, place)) ∧
    d.volume.at? place ≠ some (.file [])

/-- What a refused text leaves behind: one file emptied if the text has no form in bytes, and
otherwise all files as they were. -/
theorem writeAt_refused (h : (d.writeAt file text).2.result = .ok false) :
    (∀ place, d.Empties file text place →
      d.volume.SameFilesBut place (d.writeAt file text).1.volume) ∧
    ((∀ place, ¬ d.Empties file text place) →
      d.volume.SameFiles (d.writeAt file text).1.volume) := by
  cases hopened : d.opened? file with
  | none =>
    refine ⟨?_, fun _ => (writeAt_of_not_opened hopened text).1⟩
    rintro place ⟨-, ⟨v, hv⟩, -⟩
    simp [hopened] at hv
  | some opened =>
    obtain ⟨v, place⟩ := opened
    obtain ⟨hprepare, -, htarget⟩ := of_opened? hopened
    have hfolders := sameFiles_prepare d.volume (d.locate file)
    rw [hprepare] at hfolders
    have hwrite := writeAt_of_opened? hopened text
    cases hencode : Utf8.encode text with
    | ok bytes =>
      rw [hwrite, hencode] at h
      simp at h
    | error e =>
      -- The file is open and empty when encoding fails.
      rw [hencode] at hwrite
      have hbut : d.volume.SameFilesBut place (d.writeAt file text).1.volume := by
        rw [hwrite]
        exact hfolders.but (sameFilesBut_put (takes_of_target htarget))
      refine ⟨?_, ?_⟩
      · rintro place' ⟨-, ⟨v', hv'⟩, -⟩
        rw [hopened] at hv'
        obtain ⟨-, rfl⟩ := Prod.mk.inj (Option.some.inj hv')
        exact hbut
      · intro hnot
        by_cases hempty : d.volume.at? place = some (.file [])
        · exact hbut.sameFiles hempty
        · exact absurd ⟨⟨e, hencode⟩, ⟨v, hopened⟩, hempty⟩ (hnot place)

end DiskFiles

end SymbolAtlas
