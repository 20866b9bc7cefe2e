import SymbolAtlas.Json.Parser

/-!
# Patches

A unified diff as its reader takes it: two file names and hunks, each with the ranges of its head
and with lines that are kept, removed or added. `Patch.read?` reads a text as one, `Patch.apply`
puts it on the lines of a file, and does so only where every hunk finds the lines it was made from.

Hunks that were made from two lists of lines account for both of them (`Patch.Turns`). They stand in
order, apply to the first list with the second as the result, and apply in reverse.
-/

namespace SymbolAtlas

namespace Patch

/-- What a line of a hunk says of the two files. -/
inductive Mark where
  | kept
  | removed
  | added
deriving DecidableEq

namespace Mark

/-- The sign in front of a line. -/
def sign : Mark → CodePoint
  | kept => CodePoint.ofChar ' '
  | removed => CodePoint.ofChar '-'
  | added => CodePoint.ofChar '+'

def reverse : Mark → Mark
  | kept => kept
  | removed => added
  | added => removed

end Mark

/-- A hunk: the ranges its head gives for the old and the new file, and its marked lines. -/
structure Hunk where
  oldFirst : Nat
  oldCount : Nat
  newFirst : Nat
  newCount : Nat
  body : List (Mark × Text)
deriving DecidableEq

namespace Hunk

/-- The lines that a hunk expects. -/
def old (h : Hunk) : List Text := (h.body.filter (·.1 ≠ .added)).map (·.2)

/-- The lines that a hunk leaves. -/
def new (h : Hunk) : List Text := (h.body.filter (·.1 ≠ .removed)).map (·.2)

/-- The number of lines before a range. An empty range names the line it follows. -/
def linesBefore (first count : Nat) : Nat := if count = 0 then first else first - 1

def oldStart (h : Hunk) : Nat := linesBefore h.oldFirst h.oldCount

def newStart (h : Hunk) : Nat := linesBefore h.newFirst h.newCount

/-- Both counts of the head are those of the body. -/
def IsCounted (h : Hunk) : Prop := h.oldCount = h.old.length ∧ h.newCount = h.new.length

/-- One hunk ends before the other one starts, in both files. -/
def Precedes (h k : Hunk) : Prop :=
  h.oldStart + h.oldCount ≤ k.oldStart ∧ h.newStart + h.newCount ≤ k.newStart

/-- The hunk that takes its changes back. -/
def reverse (h : Hunk) : Hunk :=
  ⟨h.newFirst, h.newCount, h.oldFirst, h.oldCount, h.body.map fun l => (l.1.reverse, l.2)⟩

@[simp]
theorem oldStart_reverse (h : Hunk) : h.reverse.oldStart = h.newStart := rfl

@[simp]
theorem newStart_reverse (h : Hunk) : h.reverse.newStart = h.oldStart := rfl

@[simp]
theorem old_reverse (h : Hunk) : h.reverse.old = h.new := by
  unfold old new reverse
  induction h.body with
  | nil => rfl
  | cons l ls ih =>
    obtain ⟨mark, line⟩ := l
    cases mark <;> simpa [Mark.reverse] using ih

theorem reverse_reverse (h : Hunk) : h.reverse.reverse = h := by
  have hmark : ∀ l : Mark × Text, (l.1.reverse.reverse, l.2) = l := by
    rintro ⟨mark, line⟩
    cases mark <;> rfl
  simp [reverse, Function.comp_def, hmark]

@[simp]
theorem new_reverse (h : Hunk) : h.reverse.new = h.old := by
  rw [← old_reverse, reverse_reverse]

end Hunk

end Patch

/-- A patch: the two file names it gives, and its hunks. -/
structure Patch where
  oldFile : Text
  newFile : Text
  hunks : List Patch.Hunk

namespace Patch

/-! ## Reading -/

/-- The number at the front of a text, and the rest. -/
def readNumber? (t : Text) : Option (Nat × Text) :=
  let (digits, rest) := Json.takeDigits t
  if digits = [] then none else some (Json.digitsValue digits, rest)

/-- The range at the front of a text: its first line and its count, which is one unless given. -/
def readRange? (t : Text) : Option ((Nat × Nat) × Text) := do
  let (first, rest) ← readNumber? t
  match Text.after? "," rest with
  | none => some ((first, 1), rest)
  | some rest =>
    let (count, rest) ← readNumber? rest
    some ((first, count), rest)

/-- The hunk with the head `line` and the given body. -/
def readHead? (body : List (Mark × Text)) (line : Text) : Option Hunk := do
  let rest ← Text.after? "@@ -" line
  let ((oldFirst, oldCount), rest) ← readRange? rest
  let rest ← Text.after? " +" rest
  let ((newFirst, newCount), rest) ← readRange? rest
  if rest = " @@" then some ⟨oldFirst, oldCount, newFirst, newCount, body⟩ else none

/-- A line of a body: its mark and what follows the sign. -/
def readLine? : Text → Option (Mark × Text)
  | [] => none
  | c :: line =>
    if c = Mark.kept.sign then some (.kept, line)
    else if c = Mark.removed.sign then some (.removed, line)
    else if c = Mark.added.sign then some (.added, line)
    else none

/-- The hunks of some lines, after the marked lines in front of the first head. -/
def readHunks? : List Text → Option (List (Mark × Text) × List Hunk)
  | [] => some ([], [])
  | line :: rest => do
    let (body, hunks) ← readHunks? rest
    match readLine? line with
    | some marked => some (marked :: body, hunks)
    | none => (readHead? body line).map fun h => ([], h :: hunks)

/-- A text read as a unified diff: two file names, then hunks and nothing else. -/
def read? (t : Text) : Option Patch :=
  match Text.lines t with
  | first :: second :: rest => do
    let oldFile ← Text.after? "--- " first
    let newFile ← Text.after? "+++ " second
    match ← readHunks? rest with
    | ([], hunks) => some ⟨oldFile, newFile, hunks⟩
    | (_ :: _, _) => none
  | _ => none

/-! ## Applying -/

/-- Applies hunks to the lines from number `done` on. A hunk that overlaps what is done, that starts
behind the end or that does not find the lines it expects where it expects them is refused. -/
def applyFrom (done : Nat) : List Hunk → List Text → Option (List Text)
  | [], lines => some lines
  | h :: hs, lines =>
    let gap := h.oldStart - done
    if done ≤ h.oldStart ∧ gap ≤ lines.length ∧ h.old <+: lines.drop gap then
      (applyFrom (h.oldStart + h.old.length) hs (lines.drop (gap + h.old.length))).map
        fun rest => lines.take gap ++ h.new ++ rest
    else none

def apply (p : Patch) (lines : List Text) : Option (List Text) := applyFrom 0 p.hunks lines

/-- The patch that takes the changes back. -/
def reverse (p : Patch) : Patch := ⟨p.newFile, p.oldFile, p.hunks.map Hunk.reverse⟩

/-! ## Hunks between two lists of lines -/

/-- The hunks turn the first list, which stands behind `i` old lines, into the second one, which
stands behind `j` new lines: between the hunks both lists have the same lines. -/
inductive Turns : Nat → Nat → List Hunk → List Text → List Text → Prop
  | done (i j : Nat) (kept : List Text) : Turns i j [] kept kept
  | hunk {i j : Nat} {h : Hunk} {hs : List Hunk} {xs ys : List Text} (kept : List Text)
      (old_start : h.oldStart = i + kept.length) (new_start : h.newStart = j + kept.length)
      (rest : Turns (h.oldStart + h.old.length) (h.newStart + h.new.length) hs xs ys) :
      Turns i j (h :: hs) (kept ++ (h.old ++ xs)) (kept ++ (h.new ++ ys))

namespace Turns

variable {i j : Nat} {hs : List Hunk} {xs ys : List Text}

theorem reverse (t : Turns i j hs xs ys) : Turns j i (hs.map Hunk.reverse) ys xs := by
  induction t with
  | done i j kept => exact .done j i kept
  | @hunk i j h hs xs ys kept hold hnew _ ih =>
    have hrest : Turns (h.reverse.oldStart + h.reverse.old.length)
        (h.reverse.newStart + h.reverse.new.length) (hs.map Hunk.reverse) ys xs := by
      simpa using ih
    simpa using Turns.hunk (h := h.reverse) kept hnew hold hrest

theorem eq_of_nil (t : Turns i j [] xs ys) : xs = ys := by
  cases t
  rfl

/-- Applied to the one list, the hunks give the other. -/
theorem applyFrom_eq (t : Turns i j hs xs ys) : applyFrom i hs xs = some ys := by
  induction t with
  | done i j kept => rfl
  | @hunk i j h hs xs ys kept hold hnew _ ih =>
    have hgap : h.oldStart - i = kept.length := by omega
    have hfinds : i ≤ h.oldStart ∧ kept.length ≤ (kept ++ (h.old ++ xs)).length ∧
        h.old <+: (kept ++ (h.old ++ xs)).drop kept.length := by
      refine ⟨by omega, by simp, ?_⟩
      rw [List.drop_left]
      exact List.prefix_append h.old xs
    have hskip : (kept ++ (h.old ++ xs)).drop (kept.length + h.old.length) = xs := by
      rw [← List.drop_drop, List.drop_left, List.drop_left]
    simp only [applyFrom, hgap]
    rw [if_pos hfinds, hskip, ih, List.take_left, Option.map_some, List.append_assoc]

/-- No hunk starts before the place where the lists do. -/
theorem le_start (t : Turns i j hs xs ys) : ∀ h ∈ hs, i ≤ h.oldStart ∧ j ≤ h.newStart := by
  induction t with
  | done => simp
  | hunk kept hold hnew _ ih =>
    intro k hk
    rcases List.mem_cons.mp hk with rfl | hk
    · omega
    · have := ih k hk
      omega

/-- Hunks with true counts stand in order and apart. -/
theorem ordered (t : Turns i j hs xs ys) (hcounted : ∀ h ∈ hs, h.IsCounted) :
    hs.Pairwise Hunk.Precedes := by
  induction t with
  | done => exact .nil
  | @hunk i j h hs xs ys kept hold hnew trest ih =>
    obtain ⟨hcount, hcounts⟩ := List.forall_mem_cons.mp hcounted
    refine .cons (fun k hk => ?_) (ih hcounts)
    have hstart := trest.le_start k hk
    rw [← hcount.1, ← hcount.2] at hstart
    exact hstart

/-- What the hunks expect and leave are lines of the two lists. -/
theorem mem_of_mem (t : Turns i j hs xs ys) {h : Hunk} (hh : h ∈ hs) :
    (∀ l ∈ h.old, l ∈ xs) ∧ ∀ l ∈ h.new, l ∈ ys := by
  induction t with
  | done => simp at hh
  | hunk kept _ _ _ ih =>
    rcases List.mem_cons.mp hh with rfl | hh
    · exact ⟨fun l hl => by simp [hl], fun l hl => by simp [hl]⟩
    · have hrest := ih hh
      exact ⟨fun l hl => by simp [hrest.1 l hl], fun l hl => by simp [hrest.2 l hl]⟩

end Turns

end Patch

end SymbolAtlas
