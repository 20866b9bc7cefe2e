import SymbolAtlas.CommandLine.Run
import SymbolAtlas.Proofs.Json.ReadBack

/-!
# Answers

Every answer but a map is written as one JSON object that says first whether it was a success
(`Json.Attests`). So does what the reader makes of the output (`Json.Attests.parse_written`).
-/

namespace SymbolAtlas

namespace Json

/-! ## Objects that speak of success -/

/-- An object that says first, and only there, whether something was a success. -/
def Attests (v : Json) (success : Bool) : Prop :=
  ∃ ms, v = .object ((Text.ofString "success", .bool success) :: ms) ∧
    ∀ m ∈ ms, m.1.joinHalves ≠ Text.ofString "success"

theorem find?_setMember_of_ne {name n : Text} (h : name ≠ n) (value : Json)
    (ms : List (Text × Json)) :
    (setMember name value ms).find? (fun m => m.1 = n) = ms.find? fun m => m.1 = n := by
  induction ms with
  | nil => simp [setMember, h]
  | cons m ms ih =>
    obtain ⟨k, v⟩ := m
    unfold setMember
    split
    next hk =>
      have hne : k ≠ n := hk ▸ h
      simp [hne]
    next =>
      by_cases hk : k = n
      · simp [hk]
      · simp [hk, ih]

/-- Members with other names leave the value of a name as it is. -/
theorem find?_foldl_setMember {n : Text} {ms : List (Text × Json)} (h : ∀ m ∈ ms, m.1 ≠ n)
    (done : List (Text × Json)) :
    (ms.foldl (fun ms m => setMember m.1 m.2 ms) done).find? (fun m => m.1 = n) =
      done.find? fun m => m.1 = n := by
  induction ms generalizing done with
  | nil => rfl
  | cons m ms ih =>
    obtain ⟨hm, hms⟩ := List.forall_mem_cons.mp h
    rw [List.foldl_cons, ih hms, find?_setMember_of_ne hm]

theorem readBackMembers_eq_map (ms : List (Text × Json)) :
    readBackMembers ms = ms.map fun m => (m.1.joinHalves, m.2.readBack) := by
  induction ms with
  | nil => rfl
  | cons m ms ih => rw [readBackMembers, ih, List.map_cons]

namespace Attests

variable {v : Json} {success : Bool}

theorem get?_success (h : v.Attests success) : v.get? "success" = some (.bool success) := by
  obtain ⟨ms, rfl, -⟩ := h
  simp [get?]

/-- What an object says is read back. -/
theorem readBack (h : v.Attests success) :
    ∃ ms, v.readBack = .object ms ∧
      (Json.object ms).get? "success" = some (.bool success) := by
  obtain ⟨ms, rfl, hms⟩ := h
  refine ⟨_, rfl, ?_⟩
  have hname : (Text.ofString "success").joinHalves = Text.ofString "success" := by decide
  have hother : ∀ m ∈ readBackMembers ms, m.1 ≠ Text.ofString "success" := by
    rw [readBackMembers_eq_map]
    intro m hm
    obtain ⟨m', hm', rfl⟩ := List.mem_map.mp hm
    exact hms m' hm'
  simp only [readBackMembers, hname, List.foldl_cons, get?]
  rw [find?_foldl_setMember hother]
  simp [setMember, Json.readBack]

theorem parse_written (h : v.Attests success) (hv : v.isReadable = true) :
    ∃ ms, parse (CommandLine.written v) = .ok (.object ms) ∧
      (Json.object ms).get? "success" = some (.bool success) := by
  obtain ⟨ms, hms, hsuccess⟩ := h.readBack
  exact ⟨ms, (Json.parse_written hv).trans (congrArg _ hms), hsuccess⟩

end Attests

end Json

/-! ## The answers of the program -/

theorem attests_refusalJson (code message : Text) : (refusalJson code message).Attests false := by
  refine ⟨_, rfl, ?_⟩
  simp only [List.forall_mem_cons]
  exact ⟨by decide, by decide, by simp⟩

theorem attests_listing (l : ListingAnswer) : l.toJson.Attests l.toBool := by
  rcases l with r | ⟨file, symbols⟩
  · exact attests_refusalJson _ _
  · refine ⟨_, rfl, ?_⟩
    simp only [List.forall_mem_cons]
    exact ⟨by decide, by decide, by decide, by simp⟩

theorem attests_edit (e : EditAnswer) : e.toJson.Attests e.toBool := by
  rcases e with r | e | e
  · exact attests_refusalJson _ _
  · refine ⟨_, rfl, ?_⟩
    simp only [List.forall_mem_cons]
    exact ⟨by decide, by decide, by decide, by simp⟩
  · refine ⟨_, rfl, ?_⟩
    simp only [List.forall_mem_cons]
    exact ⟨by decide, by decide, by simp⟩

theorem isReadable_edit (e : EditAnswer) : e.toJson.isReadable = true := by
  rcases e with r | e | e <;> rfl

namespace Report

variable {α β : Type} {x : Report α}

/-- What comes of two operations one after the other comes of each of them. -/
theorem exists_of_bind {f : α → Report β} {b : β} (h : (x >>= f).result = .ok b) :
    ∃ a, x.result = .ok a ∧ (f a).result = .ok b := by
  rw [result_bind] at h
  cases hx : x.result with
  | error e => simp [hx, Except.bind] at h
  | ok a =>
    rw [hx] at h
    exact ⟨a, rfl, h⟩

theorem exists_of_map {f : α → β} {b : β} (h : (f <$> x).result = .ok b) :
    ∃ a, x.result = .ok a ∧ f a = b := by
  obtain ⟨a, hx, h⟩ := exists_of_bind (f := fun a => pure (f a)) h
  exact ⟨a, hx, Except.ok.inj h⟩

/-- What comes of an operation whose log is written comes of the operation. -/
theorem result_of_through {s : LogStream} {a : α} (h : (x.through s).result = .ok a) :
    x.result = .ok a := by
  unfold through at h
  split at h
  · exact h
  · cases h

end Report

namespace CommandLine

variable {a : Atlas DiskFiles} {cwd : List Text} {i : Invocation}

/-- An answer that is written as a JSON object, which can be read whatever its length unless the
answer is a listing. -/
structure Answer.Tells (answer : Answer) (i : Invocation) (v : Json) : Prop where
  output : answer.output = written v
  attests : v.Attests answer.succeeds
  readable : i.action = .symbol → v.isReadable = true

theorem Answer.tells_refusal (code message : Text) :
    (refusal code message).Tells i (refusalJson code message) :=
  ⟨rfl, attests_refusalJson code message, fun _ => rfl⟩

/-- All actions but the map answer with a JSON object. -/
theorem exists_tells_of_act [Host] (hmap : i.action ≠ .map) {answer : Answer}
    (h : (act a cwd i).2.result = .ok answer) : ∃ v, answer.Tells i v := by
  unfold act at h
  split at h
  next hi => exact absurd hi hmap
  · cases h
    exact ⟨_, Answer.tells_refusal _ _⟩
  · cases h
    exact ⟨_, Answer.tells_refusal _ _⟩
  next hi _ =>
    obtain ⟨listing, -, rfl⟩ := Report.exists_of_map h
    exact ⟨_, rfl, attests_listing listing, by simp [hi]⟩
  · split at h
    · cases h
    · split at h
      · cases h
        exact ⟨_, Answer.tells_refusal _ _⟩
      · obtain ⟨edit, -, rfl⟩ := Report.exists_of_map h
        exact ⟨_, rfl, attests_edit edit, fun _ => isReadable_edit edit⟩

/-- What a run writes is one JSON object, and the exit code goes by what the object says. -/
structure Outcome.Tells (o : Outcome) (i : Invocation) (v : Json) : Prop where
  output : o.output = written v
  attests : ∃ success, v.Attests success ∧ o.exitCode = if success then 0 else 1
  readable : i.action = .symbol → v.isReadable = true

theorem Outcome.tells_of_failed {o : Outcome} (hcode : o.exitCode = 1) {v : Json}
    (houtput : o.output = written v) (hv : v.Attests false) (hreadable : v.isReadable = true) :
    o.Tells i v :=
  ⟨houtput, ⟨false, hv, hcode⟩, fun _ => hreadable⟩

theorem attests_failureOutput [Host] (verbose : Bool) (f : Failure) :
    ∃ v, failureOutput verbose f = written v ∧ v.Attests false ∧ v.isReadable = true := by
  refine ⟨_, rfl, ⟨_, rfl, ?_⟩, rfl⟩
  simp only [List.forall_mem_cons]
  exact ⟨by decide, by decide, by decide, by simp⟩

/-- Whatever comes of an action other than the map is told as a JSON object. -/
theorem exists_tells_of_runInvocation [Host] (v : Volume) (cwd : List Text) (parsers : Parsers)
    (hmap : i.action ≠ .map) : ∃ answer, (runInvocation v cwd parsers i).Tells i answer := by
  unfold runInvocation
  dsimp only
  split
  next e _ => exact ⟨_, Outcome.tells_of_failed rfl rfl (attests_refusalJson _ _) rfl⟩
  next a _ =>
    split
    next answer hanswer =>
      obtain ⟨json, hjson⟩ := exists_tells_of_act hmap (Report.result_of_through hanswer)
      exact ⟨json, hjson.output, ⟨_, hjson.attests, rfl⟩, hjson.readable⟩
    next e _ =>
      obtain ⟨json, houtput, hattests, hreadable⟩ := attests_failureOutput _ e
      exact ⟨json, Outcome.tells_of_failed rfl houtput hattests hreadable⟩

/-- The object that a run writes has a member that is true exactly if the exit code is zero, and the
object that is read back has it too. -/
theorem Outcome.Tells.exists_object {o : Outcome} {v : Json} (h : o.Tells i v) :
    ∃ ms, o.output = written (.object ms) ∧
      (o.exitCode = 0 ↔ (Json.object ms).get? "success" = some (.bool true)) ∧
      (i.action = .symbol ∨ (Json.object ms).isReadable = true →
        ∃ read, Json.parse o.output = .ok (.object read) ∧
          (Json.object read).get? "success" = (Json.object ms).get? "success") := by
  obtain ⟨success, hattests, hcode⟩ := h.attests
  obtain ⟨ms, hms, -⟩ := id hattests
  have houtput := h.output
  have hreadable := h.readable
  rw [hms] at hattests houtput hreadable
  refine ⟨_, houtput, ?_, ?_⟩
  · rw [hattests.get?_success, hcode]
    cases success <;> simp
  · intro hread
    rw [houtput, hattests.get?_success]
    exact hattests.parse_written (hread.elim hreadable id)

end CommandLine

end SymbolAtlas
