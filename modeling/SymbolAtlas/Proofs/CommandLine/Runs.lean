import SymbolAtlas.Proofs.CommandLine.Answers
import SymbolAtlas.Proofs.CommandLine.Applying
import SymbolAtlas.Proofs.Edit.OnDisk
import SymbolAtlas.Proofs.Files.Names

/-!
# Runs of the program

What one start of the program may do to a volume and what it says of it (`Launch.Sound`), and so for
any number of starts one after another (`launches_sound`). Only an edit that is to be applied writes
(`volume_act`), and what it changes is the one file that its path leads to (`Atlas.files_edit`).
-/

namespace SymbolAtlas

namespace CommandLine

/-! ## Changes of a run -/

variable {v : Volume} {cwd : List Text} {parsers : Parsers} {a : Atlas DiskFiles}

/-- The folder of the project that a command line speaks of: what its path comes to, and that again
from the folder of the project and from that of its files. -/
def ProjectAt (v : Volume) (cwd : List Text) (o : Options) (home : Path) : Prop :=
  ∃ given place inner, o.project = some given ∧ v.realPath cwd (Path.parse given) = .ok place ∧
    v.realPath cwd place = .ok inner ∧ v.realPath cwd inner = .ok home

/-- A project is opened on the volume as it is, in a folder whose path has names of entries. -/
theorem of_openProject [Host] {o : Options} (hcwd : ∀ n ∈ cwd, Path.IsRead n)
    (h : (openProject v cwd parsers o).result = .ok a) :
    a.files.volume = v ∧ ProjectAt v cwd o a.files.home ∧ Path.here ∉ a.files.home.names := by
  unfold openProject at h
  split at h
  next given hgiven =>
    obtain ⟨place, hplace, h⟩ := Report.exists_of_bind h
    obtain ⟨settings, -, h⟩ := Report.exists_of_bind h
    obtain ⟨inner, hinner, h⟩ := Report.exists_of_bind h
    obtain ⟨home, hhome, h⟩ := Report.exists_of_bind h
    obtain ⟨-, -, h⟩ := Report.exists_of_bind h
    cases h
    refine ⟨rfl, ⟨given, place, inner, hgiven, hplace, hinner, hhome⟩, fun hhere => ?_⟩
    have hplace := Volume.names_of_realPath hcwd
      (fun n hn => (Path.isRead_of_mem_parse hn).slash_notMem) hplace
    have hinner := Volume.names_of_realPath hcwd (fun n hn => (hplace.2 n hn).slash_notMem) hinner
    have hhome := Volume.names_of_realPath hcwd (fun n hn => (hinner.2 n hn).slash_notMem) hhome
    exact (hhome.2 _ hhere).ne_here rfl
  · cases h

theorem file_of_request? {file : Text} {content : Option Content} {o : Options} {r : EditRequest}
    (h : request? file content o = some r) : r.file = file := by
  unfold request? at h
  split at h
  · rw [← Option.some.inj h]
  · cases h

/-- An action changes nothing, or it is an edit that is to be applied and changes its target. -/
theorem volume_act [Host] (i : Invocation) (hhome : Path.here ∉ a.files.home.names) :
    (act a cwd i).1.files.volume = a.files.volume ∨
      i.action = .symbol ∧ i.options.apply = true ∧ ∃ file place, i.target = some file ∧
        a.files.volume.resolve (a.files.locate file).names = .ok place ∧
        a.files.volume.ChangedAt (act a cwd i).1.files.volume place := by
  unfold act
  split
  · exact .inl rfl
  · exact .inl rfl
  · exact .inl rfl
  · exact .inl rfl
  next file _ haction htarget =>
    split
    · exact .inl rfl
    next content _ =>
      split
      · exact .inl rfl
      next r hr =>
        rw [← file_of_request? hr] at htarget
        cases happly : i.options.apply with
        | false => exact .inl (by simp [Atlas.fst_edit_dry])
        | true =>
          rcases Atlas.files_edit hhome r false with hsame | ⟨w, place, hfiles, hplace, hchanged⟩
          · exact .inl (congrArg DiskFiles.volume hsame)
          · have hresolve := (DiskFiles.place?_eq_some_iff.mp hplace).2
            have hvolume : (a.edit r false).1.files.volume = w := by rw [hfiles]
            rw [← hvolume] at hchanged
            exact .inr ⟨haction, rfl, _, place, htarget, hresolve, hchanged⟩

/-- Whatever is answered, the volume is the one that the action leaves, or the one before. -/
theorem volume_runInvocation_eq [Host] (v : Volume) (cwd : List Text) (parsers : Parsers)
    (i : Invocation) :
    (runInvocation v cwd parsers i).volume = v ∨
      ∃ a, (openProject v cwd parsers i.options).result = .ok a ∧
        (runInvocation v cwd parsers i).volume = (act a cwd i).1.files.volume := by
  unfold runInvocation
  dsimp only
  split
  · exact .inl rfl
  next a ha =>
    have hopen := Report.result_of_through ha
    split <;> dsimp only <;> split
    · exact .inr ⟨a, hopen, rfl⟩
    · exact .inl rfl
    · exact .inr ⟨a, hopen, rfl⟩
    · exact .inl rfl

/-- The place of the file that the target of a command line names, in the folder of the project and
with links followed. -/
def TargetAt (v : Volume) (cwd : List Text) (i : Invocation) (place : List Text) : Prop :=
  ∃ home file, ProjectAt v cwd i.options home ∧ i.target = some file ∧
    v.resolve ((Path.parse file).below home).names = .ok place

/-- Running changes nothing, or it applies an edit and changes its target. -/
theorem volume_runInvocation [Host] (v : Volume) (parsers : Parsers) (i : Invocation)
    (hcwd : ∀ n ∈ cwd, Path.IsRead n) :
    (runInvocation v cwd parsers i).volume = v ∨
      i.action = .symbol ∧ i.options.apply = true ∧ ∃ place, TargetAt v cwd i place ∧
        v.ChangedAt (runInvocation v cwd parsers i).volume place := by
  rcases volume_runInvocation_eq v cwd parsers i with hsame | ⟨a, hopen, hvolume⟩
  · exact .inl hsame
  · obtain ⟨hopened, hproject, hhome⟩ := of_openProject hcwd hopen
    rcases volume_act i hhome with hsame | ⟨haction, happly, file, place, htarget, hplace, hchanged⟩
    · exact .inl (by rw [hvolume, hsame, hopened])
    · rw [hopened, ← hvolume] at hchanged
      rw [hopened] at hplace
      exact .inr ⟨haction, happly, place, ⟨a.files.home, file, hproject, htarget, hplace⟩, hchanged⟩

theorem exitCode_runInvocation [Host] (i : Invocation) :
    (runInvocation v cwd parsers i).exitCode = 0 ∨
      (runInvocation v cwd parsers i).exitCode = 1 := by
  unfold runInvocation
  dsimp only
  split
  · exact .inr rfl
  · split
    · dsimp only
      split
      · exact .inl rfl
      · exact .inr rfl
    · exact .inr rfl

/-! ## Runs one after another -/

/-- The program started in a working folder, with parsers and arguments. -/
structure Launch where
  cwd : List Text
  parsers : Parsers
  arguments : List Text
  /-- The working folder has a path that could be read. -/
  isRead : ∀ n ∈ cwd, Path.IsRead n

section

variable [Host]

namespace Launch

def run (l : Launch) (v : Volume) : Outcome := CommandLine.run v l.cwd l.parsers l.arguments

/-- The launch is an edit that is to be applied. -/
def Applies (l : Launch) : Prop :=
  AsksToApply l.arguments ∧ ∃ i, read l.arguments = .run i ∧ i.action = .symbol

/-- The target of the launch leads to a place of a volume. -/
def TargetsPlace (l : Launch) (v : Volume) (place : List Text) : Prop :=
  ∃ i, read l.arguments = .run i ∧ TargetAt v l.cwd i place

/-- What a launch may do to a volume, and what it says of it. -/
structure Sound (l : Launch) (v : Volume) : Prop where
  exitCode : (l.run v).exitCode = 0 ∨ (l.run v).exitCode = 1 ∨ (l.run v).exitCode = 2
  kept : ¬ l.Applies → (l.run v).volume = v
  changed : (l.run v).volume = v ∨
    ∃ place, l.TargetsPlace v place ∧ v.ChangedAt (l.run v).volume place
  answered : ∀ i, read l.arguments = .run i → i.action ≠ .map →
    ∃ ms, (l.run v).output = written (.object ms) ∧
      ((l.run v).exitCode = 0 ↔ (Json.object ms).get? "success" = some (.bool true)) ∧
      (i.action = .symbol ∨ (Json.object ms).isReadable = true →
        ∃ read, Json.parse (l.run v).output = .ok (.object read) ∧
          (Json.object read).get? "success" = (Json.object ms).get? "success")

theorem run_eq_runInvocation {l : Launch} {i : Invocation} (h : read l.arguments = .run i)
    (v : Volume) : l.run v = runInvocation v l.cwd l.parsers i := by
  simp only [run, CommandLine.run, h]

/-- A command line that is refused, or that asks for help, changes nothing. -/
theorem sound_of_not_run {l : Launch} {v : Volume} (hread : ∀ i, read l.arguments ≠ .run i)
    (hcode : (l.run v).exitCode = 0 ∨ (l.run v).exitCode = 2) (hvolume : (l.run v).volume = v) :
    l.Sound v :=
  ⟨hcode.imp_right .inr, fun _ => hvolume, .inl hvolume, fun i hi => absurd hi (hread i)⟩

theorem sound (l : Launch) (v : Volume) : l.Sound v := by
  cases hread : read l.arguments with
  | help =>
    have hrun : l.run v = ⟨0, help, [], v⟩ := by simp only [run, CommandLine.run, hread]
    exact sound_of_not_run (by simp [hread]) (.inl (by rw [hrun])) (by rw [hrun])
  | refused fault =>
    have hrun : l.run v = ⟨2, [], fault.report, v⟩ := by simp only [run, CommandLine.run, hread]
    exact sound_of_not_run (by simp [hread]) (.inr (by rw [hrun])) (by rw [hrun])
  | run i =>
    have hrun := run_eq_runInvocation hread v
    have hvolume := volume_runInvocation v l.parsers i l.isRead
    rw [← hrun] at hvolume
    refine ⟨?_, ?_, ?_, ?_⟩
    · rw [hrun]
      exact (exitCode_runInvocation i).imp_right .inl
    · intro happlies
      rcases hvolume with hsame | ⟨haction, happly, -⟩
      · exact hsame
      · exact absurd ⟨(apply_iff_asksToApply hread).mp happly, i, hread, haction⟩ happlies
    · exact hvolume.imp_right fun ⟨_, _, place, htarget, hchanged⟩ =>
        ⟨place, ⟨i, hread, htarget⟩, hchanged⟩
    · intro i' hi' hmap
      obtain rfl : i = i' := by simpa [hread] using hi'
      obtain ⟨answer, htells⟩ := exists_tells_of_runInvocation v l.cwd l.parsers hmap
      rw [← hrun] at htells
      exact htells.exists_object

end Launch

/-- A volume after some launches. -/
def afterRuns (v : Volume) (launches : List Launch) : Volume :=
  launches.foldl (fun v l => (l.run v).volume) v

/-- Launches leave alone what none of them is to change. -/
theorem face_afterRuns (v : Volume) {launches : List Launch} {place : List Text}
    (hplace : ∀ front l rear, launches = front ++ l :: rear → l.Applies →
      ¬ l.TargetsPlace (afterRuns v front) place) :
    ((afterRuns v launches).at? place).map Entry.face = (v.at? place).map Entry.face := by
  induction launches generalizing v with
  | nil => rfl
  | cons l launches ih =>
    have hrest := ih (l.run v).volume fun front l' rear heq =>
      hplace (l :: front) l' rear (by rw [heq, List.cons_append])
    refine Eq.trans hrest ?_
    have hsound := l.sound v
    by_cases happlies : l.Applies
    · rcases hsound.changed with hsame | ⟨changed, htargets, hchanged⟩
      · rw [hsame]
      · refine hchanged.others place ?_
        rintro rfl
        exact hplace [] l launches rfl happlies htargets
    · rw [hsound.kept happlies]

/-- However often the program is started, each run is read-only unless it is asked to apply an edit,
changes at most the file that its target names, and tells by its exit code and by one JSON object
whether it was a success. So what no run was to change is as it was after all of them. -/
theorem launches_sound (v : Volume) (launches : List Launch) :
    (∀ front l rear, launches = front ++ l :: rear → l.Sound (afterRuns v front)) ∧
      ∀ place, (∀ front l rear, launches = front ++ l :: rear → l.Applies →
          ¬ l.TargetsPlace (afterRuns v front) place) →
        ((afterRuns v launches).at? place).map Entry.face = (v.at? place).map Entry.face :=
  ⟨fun front l _ _ => l.sound (afterRuns v front), fun _ => face_afterRuns v⟩

end

namespace OneFile

/-- A project with one file, and a file beside the project. -/
def volume : Volume :=
  ⟨.folder [("p", .folder [("b.js", .file (Utf8.encodeLossy "function f() {}\n"))]),
    ("b.js", .file [])]⟩

/-- The arguments that replace the function in the file. -/
def arguments : List Text :=
  ["symbol", "b.js", "--name", "f", "--kind", "function", "--content", "function f() { a() }"]

theorem isRead_folder : ∀ n ∈ [Text.ofString "p"], Path.IsRead n := by
  intro n hn
  rw [List.mem_singleton.mp hn]
  exact ⟨by decide, by decide, by decide⟩

/-- The edit is only shown. -/
def showing : Launch := ⟨["p"], none, arguments, isRead_folder⟩

/-- The edit is applied, which is asked for in short. -/
def applying : Launch := ⟨["p"], none, arguments ++ [Text.ofString "--app"], isRead_folder⟩

end OneFile

/-- An edit that is shown and then applied changes the volume the second time only, and says that it
was a success. -/
theorem launches_sound_shown_first :
    afterRuns OneFile.volume [OneFile.showing] = OneFile.volume ∧
      (∃ place, OneFile.applying.TargetsPlace OneFile.volume place ∧
        OneFile.volume.ChangedAt (OneFile.applying.run OneFile.volume).volume place) ∧
      ∃ ms, (OneFile.applying.run OneFile.volume).output = written (.object ms) ∧
        (Json.object ms).get? "success" = some (.bool true) := by
  obtain ⟨hsound, -⟩ := launches_sound OneFile.volume [OneFile.showing, OneFile.applying]
  have hshowing : ¬ OneFile.showing.Applies := fun happlies => absurd happlies.1 (by decide)
  have hkept : afterRuns OneFile.volume [OneFile.showing] = OneFile.volume :=
    (hsound [] OneFile.showing [OneFile.applying] rfl).kept hshowing
  have happlying := hsound [OneFile.showing] OneFile.applying [] rfl
  rw [hkept] at happlying
  refine ⟨hkept, happlying.changed.resolve_left ?_, ?_⟩
  · intro hsame
    have hcontent : (OneFile.applying.run OneFile.volume).volume.content ["p", "b.js"] ≠
        OneFile.volume.content ["p", "b.js"] := by decide +kernel
    rw [hsame] at hcontent
    exact hcontent rfl
  · have hcode : (OneFile.applying.run OneFile.volume).exitCode = 0 := by decide +kernel
    obtain ⟨i, hi, haction⟩ : ∃ i, read OneFile.applying.arguments = .run i ∧
      i.action = .symbol := ⟨_, rfl, rfl⟩
    obtain ⟨ms, houtput, hsuccess, -⟩ := happlying.answered i hi (by simp [haction])
    exact ⟨ms, houtput, hsuccess.mp hcode⟩

end CommandLine

end SymbolAtlas
