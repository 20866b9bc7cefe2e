import Mathlib.Data.List.Induction
import SymbolAtlas.Files.Memory
import SymbolAtlas.Proofs.Edit.Outcome

/-!
# Edits are all or nothing

Where the text that a request would write is stored as a whole or not at all
(`Atlas.WritesAtomically`), carrying out the request does what its dry run says, or nothing
(`Atlas.Foretold`). So after any run of requests a file holds the text of the last edit that was
applied to it, and the project counts as changed if some edit was applied
(`Atlas.edits_all_or_nothing`). Several paths may lead to one file: `place` stands for whatever
tells where a path leads. Files in memory, which compare paths as they are written, are always
written in this way (`MemoryFiles.atomicWrite`). A file on disk is if the text is what its bytes are
decoded to (`DiskFiles.atomicWrite`), though not if the text has no form in bytes.
-/

namespace SymbolAtlas

variable {σ κ : Type} [ProjectFiles σ]

namespace ProjectFiles

/-- The files `t` are the files `s` with a text stored in the file that a path leads to. -/
structure Stores (place : Text → κ) (s : σ) (path text : Text) (t : σ) : Prop where
  isFile : ∀ p, place p = place path → ProjectFiles.isFile t p = .ok true
  read : ∀ p, place p = place path → (ProjectFiles.read t p).result = .ok (some text)
  others : ∀ p, place p ≠ place path →
    ProjectFiles.isFile t p = ProjectFiles.isFile s p ∧
      ProjectFiles.read t p = ProjectFiles.read s p

/-- Writing a text to a path either stores the text and says so, or changes nothing and says so. -/
def AtomicWrite (place : Text → κ) (s : σ) (path text : Text) : Prop :=
  (Stores place s path text (write s path text).1 ∧ (write s path text).2.result = .ok true) ∨
    ((write s path text).1 = s ∧ (write s path text).2.result = .ok false)

/-- A text that is stored in a file is what is read there afterwards. -/
def ReadsBack (s : σ) (path text : Text) : Prop :=
  (write s path text).2.result = .ok true →
    isFile (write s path text).1 path = .ok true ∧
      (read (write s path text).1 path).result = .ok (some text)

variable {place : Text → κ} {s : σ} {path text : Text}

theorem AtomicWrite.readsBack (h : AtomicWrite place s path text) : ReadsBack s path text := by
  intro hwritten
  rcases h with ⟨hstores, -⟩ | ⟨-, hrefused⟩
  · exact ⟨hstores.isFile path rfl, hstores.read path rfl⟩
  · rw [hrefused] at hwritten
    cases hwritten

end ProjectFiles

open ProjectFiles

namespace Atlas

/-! ## One request -/

/-- What a dry run of a request says of carrying it out. The project stays as it is, and the answer
is the same, unless the dry run shows an edit: that edit is applied then, to the file of the request
and to nothing else, or it could not be written and the project stays as it is. -/
structure Foretold (place : Text → κ) (a : Atlas σ) (r : EditRequest) : Prop where
  kept : (a.edit r true).1 = a
  stopped : ∀ f, (a.edit r true).2.result = .error f →
    (a.edit r false).1 = a ∧ (a.edit r false).2.result = .error f
  refused : ∀ refusal, (a.edit r true).2.result = .ok (.error refusal) →
    (a.edit r false).1 = a ∧ (a.edit r false).2.result = .ok (.error refusal)
  shown : ∀ outcome, (a.edit r true).2.result = .ok (.ok outcome) →
    ∃ e, outcome = .preview e ∧
      (((a.edit r false).1 = a ∧ (a.edit r false).2.result = .ok (.error (.notWritten r.file))) ∨
        ((a.edit r false).2.result = .ok (.ok (.applied e)) ∧
          ∃ files, (a.edit r false).1 = { a with files := files, dirty := true } ∧
            Stores place a.files r.file e.revised files))

/-- The text that a request would write, if it has a plan, is written as a whole or not at all. -/
def WritesAtomically (place : Text → κ) (a : Atlas σ) (r : EditRequest) : Prop :=
  ∀ e, (r.plan a.files a.parsers a.settings).result = .ok (.ok e) →
    AtomicWrite place a.files e.file e.revised

variable {place : Text → κ} {a : Atlas σ} {r : EditRequest}

theorem commit_of_atomic {e : Edit} (h : AtomicWrite place a.files e.file e.revised) :
    ((a.commit e).1 = a ∧ (a.commit e).2.result = .ok (.error (.notWritten e.file))) ∨
      ((a.commit e).2.result = .ok (.ok (.applied e)) ∧
        ∃ files, (a.commit e).1 = { a with files := files, dirty := true } ∧
          Stores place a.files e.file e.revised files) := by
  unfold AtomicWrite at h
  rcases hwrite : write a.files e.file e.revised with ⟨files, report⟩
  rw [hwrite] at h
  rcases h with ⟨hstores, hreport⟩ | ⟨rfl, hreport⟩
  · obtain ⟨hcommitted, hanswer⟩ := commit_of_written hwrite hreport
    exact .inr ⟨hanswer, files, hcommitted, hstores⟩
  · exact .inl (commit_of_not_written hwrite hreport)

/-- A dry run foretells what a request does. -/
theorem foretold_of_atomic (h : a.WritesAtomically place r) : a.Foretold place r := by
  -- Both runs have the same plan; only a plan that succeeds is dealt with differently.
  rcases hplan : (r.plan a.files a.parsers a.settings).result with f | refusal | e
  · have hdry := edit_of_failed true hplan
    refine ⟨hdry.1, ?_, by simp [hdry.2], by simp [hdry.2]⟩
    intro f' hf'
    rw [← hf', hdry.2]
    exact edit_of_failed false hplan
  · have hdry := edit_of_refused true hplan
    refine ⟨hdry.1, by simp [hdry.2], ?_, by simp [hdry.2]⟩
    intro refusal' hrefusal'
    rw [← hrefusal', hdry.2]
    exact edit_of_refused false hplan
  · have hdry := edit_dry_of_planned hplan
    refine ⟨hdry.1, by simp [hdry.2], by simp [hdry.2], ?_⟩
    intro outcome houtcome
    obtain rfl : EditOutcome.preview e = outcome := by simpa [hdry.2] using houtcome
    obtain ⟨hfiles, hanswer⟩ := edit_of_planned hplan
    refine ⟨e, rfl, ?_⟩
    rw [hfiles, hanswer, ← EditRequest.file_of_plan hplan]
    exact commit_of_atomic (h e hplan)

/-! ## Runs of requests -/

/-- The edit that an answer says was applied. -/
def applied? (answer : Report EditAnswer) : Option Edit :=
  match answer.result with
  | .ok (.ok (.applied e)) => some e
  | _ => none

/-- The project after a run of requests, each carried out or only shown. -/
def afterEdits (a : Atlas σ) (steps : List (EditRequest × Bool)) : Atlas σ :=
  steps.foldl (fun a step => (a.edit step.1 step.2).1) a

/-- The edits that a run of requests applies, in order. -/
def appliedEdits (a : Atlas σ) : List (EditRequest × Bool) → List Edit
  | [] => []
  | step :: steps =>
    (applied? (a.edit step.1 step.2).2).toList ++ (a.edit step.1 step.2).1.appliedEdits steps

theorem appliedEdits_append (a : Atlas σ) (steps later : List (EditRequest × Bool)) :
    a.appliedEdits (steps ++ later) =
      a.appliedEdits steps ++ (a.afterEdits steps).appliedEdits later := by
  induction steps generalizing a with
  | nil => rfl
  | cons step steps ih =>
    rw [List.cons_append, appliedEdits, appliedEdits, ih, List.append_assoc]
    rfl

theorem afterEdits_concat (a : Atlas σ) (steps : List (EditRequest × Bool))
    (step : EditRequest × Bool) :
    a.afterEdits (steps ++ [step]) = ((a.afterEdits steps).edit step.1 step.2).1 := by
  simp [afterEdits]

/-- One step of a run changes nothing, or it applies an edit and stores its text. -/
theorem edit_step {dryRun : Bool} (h : dryRun = false → a.WritesAtomically place r) :
    (applied? (a.edit r dryRun).2 = none ∧ (a.edit r dryRun).1 = a) ∨
      ∃ e, applied? (a.edit r dryRun).2 = some e ∧ (a.edit r dryRun).1.dirty = true ∧
        Stores place a.files e.file e.revised (a.edit r dryRun).1.files := by
  rcases hplan : (r.plan a.files a.parsers a.settings).result with f | refusal | e
  · obtain ⟨hsame, hanswer⟩ := edit_of_failed dryRun hplan
    exact .inl ⟨by simp [applied?, hanswer], hsame⟩
  · obtain ⟨hsame, hanswer⟩ := edit_of_refused dryRun hplan
    exact .inl ⟨by simp [applied?, hanswer], hsame⟩
  · cases dryRun with
    | true =>
      obtain ⟨hsame, hanswer⟩ := edit_dry_of_planned hplan
      exact .inl ⟨by simp [applied?, hanswer], hsame⟩
    | false =>
      obtain ⟨hfiles, hanswer⟩ := edit_of_planned hplan
      rcases commit_of_atomic (h rfl e hplan) with
        ⟨hsame, hcommit⟩ | ⟨hcommit, files, hstate, hstores⟩
      · exact .inl ⟨by simp [applied?, hanswer, hcommit], hfiles.trans hsame⟩
      · right
        refine ⟨e, by simp [applied?, hanswer, hcommit], ?_⟩
        rw [hfiles, hstate]
        exact ⟨rfl, hstores⟩

variable [DecidableEq κ]

/-- What a run leaves behind: in each file the text of the last edit applied to it, or what it held
before, and the mark of a change if there was one. -/
structure Reflects (place : Text → κ) (a : Atlas σ) (edits : List Edit) (b : Atlas σ) : Prop where
  last : ∀ file e, edits.reverse.find? (fun e => place e.file = place file) = some e →
    (ProjectFiles.read b.files file).result = .ok (some e.revised)
  untouched : ∀ file, edits.reverse.find? (fun e => place e.file = place file) = none →
    ProjectFiles.read b.files file = ProjectFiles.read a.files file
  dirty : b.dirty = true ↔ a.dirty = true ∨ edits ≠ []

theorem reflects_afterEdits {steps : List (EditRequest × Bool)}
    (h : ∀ front r, front ++ [(r, false)] <+: steps →
      (a.afterEdits front).WritesAtomically place r) :
    a.Reflects place (a.appliedEdits steps) (a.afterEdits steps) := by
  induction steps using List.reverseRecOn with
  | nil => exact ⟨by simp [appliedEdits], fun _ _ => rfl, by simp [appliedEdits, afterEdits]⟩
  | append_singleton steps step ih =>
    obtain ⟨r, dryRun⟩ := step
    have hbefore := ih fun front r hfront => h front r (hfront.trans (List.prefix_append ..))
    have hatomic : dryRun = false → (a.afterEdits steps).WritesAtomically place r := by
      rintro rfl
      exact h steps r List.prefix_rfl
    rw [appliedEdits_append, afterEdits_concat]
    -- The last step changes nothing, or it applies the last edit to its file.
    rcases edit_step hatomic with ⟨hnone, hsame⟩ | ⟨e, hsome, hdirty, hstores⟩
    · simpa [appliedEdits, hnone, hsame] using hbefore
    · have hedits : (a.afterEdits steps).appliedEdits [(r, dryRun)] = [e] := by
        simp [appliedEdits, hsome]
      rw [hedits]
      refine ⟨?_, ?_, by simp [hdirty]⟩
      · intro file e' he'
        by_cases hfile : place e.file = place file
        · obtain rfl : e = e' := by simpa [hfile] using he'
          exact hstores.read file hfile.symm
        · rw [(hstores.others file fun heq => hfile heq.symm).2]
          exact hbefore.last file e' (by simpa [hfile] using he')
      · intro file hnone
        have hfile : ¬ place e.file = place file := by
          intro heq
          simp [heq] at hnone
        rw [(hstores.others file fun heq => hfile heq.symm).2]
        exact hbefore.untouched file (by simpa [hfile] using hnone)

/-- Edits are all or nothing, and a dry run foretells them: wherever a run of requests has come to,
a request does what its dry run says or nothing, provided that its text would be written as a whole
or not at all; and if this is so of each request that is carried out, the run leaves in each file
the text of the last edit applied to it. -/
theorem edits_all_or_nothing (place : Text → κ) (a : Atlas σ) (steps : List (EditRequest × Bool)) :
    (∀ front, front <+: steps → ∀ r, (a.afterEdits front).WritesAtomically place r →
      (a.afterEdits front).Foretold place r) ∧
    ((∀ front r, front ++ [(r, false)] <+: steps →
        (a.afterEdits front).WritesAtomically place r) →
      a.Reflects place (a.appliedEdits steps) (a.afterEdits steps)) :=
  ⟨fun _ _ _ => foretold_of_atomic, reflects_afterEdits⟩

end Atlas

/-! ## Files in memory -/

namespace MemoryFiles

theorem find?_setText (path text : Text) (es : List (Text × Option Text)) :
    (setText path text es).find? (fun e => e.1 = path) = some (path, some text) := by
  induction es with
  | nil => simp [setText]
  | cons e es ih =>
    unfold setText
    split
    · next h => simp [h]
    · next h => simpa [h] using ih

theorem find?_setText_of_ne {path p : Text} (h : p ≠ path) (text : Text)
    (es : List (Text × Option Text)) :
    (setText path text es).find? (fun e => e.1 = p) = es.find? fun e => e.1 = p := by
  induction es with
  | nil => simp [setText, h.symm]
  | cons e es ih =>
    obtain ⟨q, t⟩ := e
    unfold setText
    split
    · next heq =>
      have hne : ¬ path = p := fun hp => h hp.symm
      simp [heq, hne]
    · by_cases hp : q = p
      · simp [hp]
      · simpa [hp] using ih

theorem any_eq_isSome_find? (p : Text) (es : List (Text × Option Text)) :
    (es.any fun e => e.1 = p) = (es.find? fun e => e.1 = p).isSome := by
  rw [Bool.eq_iff_iff, List.find?_isSome, List.any_eq_true]

/-- Files in memory are always written as a whole or not at all. -/
theorem atomicWrite (m : MemoryFiles) (path text : Text) : AtomicWrite id m path text := by
  unfold AtomicWrite
  cases hfails : m.failsToWrite with
  | true => exact .inr (by simp [write, hfails])
  | false =>
    left
    have hwrite : write m path text =
        ({ m with entries := setText path text m.entries }, pure true) := by
      simp [write, hfails]
    rw [hwrite]
    refine ⟨⟨?_, ?_, ?_⟩, rfl⟩
    · rintro p rfl
      simp [isFile, any_eq_isSome_find?, find?_setText]
    · rintro p rfl
      simp [ProjectFiles.read, text?, find?_setText]
    · intro p hp
      have hne : p ≠ path := hp
      simp [isFile, ProjectFiles.read, text?, any_eq_isSome_find?, find?_setText_of_ne hne]

end MemoryFiles

namespace InMemory

/-- A project with one file in memory. -/
def atlas : Atlas MemoryFiles :=
  ⟨⟨[("b.js", some "function f() {}\n")], false⟩, false, .default, none, ⟨false, true⟩⟩

/-- The request to replace the function in the file. -/
def request (content : Text) : EditRequest :=
  ⟨"b.js", "f", .text "function", some (.text content), none⟩

/-- A run: one edit is applied, one is only shown, and one is refused. -/
def steps : List (EditRequest × Bool) :=
  [(request "function f() { a() }", false), (request "function f() { b() }", true),
    ({ request "function f() { c() }" with file := "c.js" }, false)]

end InMemory

/-- Every request does what its dry run says, and only the applied edit of a run is seen in the
file. -/
theorem Atlas.edits_all_or_nothing_in_memory :
    (∀ r, InMemory.atlas.Foretold id r) ∧
      (ProjectFiles.read (InMemory.atlas.afterEdits InMemory.steps).files "b.js").result =
        .ok (some "function f() { a() }\n") ∧
      (InMemory.atlas.afterEdits InMemory.steps).dirty = true := by
  have hatomic : ∀ (a : Atlas MemoryFiles) r, a.WritesAtomically id r :=
    fun _ _ _ _ => MemoryFiles.atomicWrite _ _ _
  obtain ⟨hforetold, hreflects⟩ :=
    Atlas.edits_all_or_nothing id InMemory.atlas InMemory.steps
  have hleft := hreflects fun _ _ _ => hatomic _ _
  have hedits : InMemory.atlas.appliedEdits InMemory.steps =
      [⟨"function 'f'", "b.js", "function f() {}\n", "function f() { a() }\n"⟩] := by rfl
  rw [hedits] at hleft
  exact ⟨fun r => hforetold [] List.nil_prefix r (hatomic _ r), hleft.last "b.js" _ rfl,
    hleft.dirty.mpr (.inr (by simp))⟩

end SymbolAtlas
