import SymbolAtlas.Diff.Unified
import SymbolAtlas.Proofs.Diff.Identical
import SymbolAtlas.Proofs.Diff.Patch
import SymbolAtlas.Proofs.Text.Lines
import SymbolAtlas.Proofs.Text.Numerals

/-!
# The diff of two texts is a patch between them

Main statement: the diff of equal texts is empty, and that of different ones reads as a patch whose
hunks have true counts, stand in order and apart, turn the one text into the other and, in reverse,
the other into the one (`unified_patches`).

Three facts carry it. The runs of the alignment hold the two texts (`old_alignBy`, `new_alignBy`),
because the search finds a common stretch only where the texts agree (`longest_isCommon`). The hunks
that are grouped from runs account for both sides of the runs, whichever runs they are
(`turns_hunks`). And what is printed of hunks is read back as these hunks (`readHunks?_hunkLines`).
-/

namespace SymbolAtlas.Diff

open Patch (Mark)

/-! ## Hunks as they are read -/

/-- The lines of a run with their marks. -/
def Run.marked : Run Text → List (Mark × Text)
  | .same xs => xs.map (.kept, ·)
  | .change xs ys => xs.map (.removed, ·) ++ ys.map (.added, ·)

/-- The number that a head gives for the first line behind `start` lines. -/
def firstLine (start count : Nat) : Nat := if count = 0 then start else start + 1

theorem linesBefore_firstLine (start count : Nat) :
    Patch.Hunk.linesBefore (firstLine start count) count = start := by
  unfold Patch.Hunk.linesBefore firstLine
  split <;> simp

namespace Hunk

/-- The hunk that the text of a hunk is read as. -/
def written (h : Hunk Text) : Patch.Hunk :=
  ⟨firstLine h.oldStart h.old.length, h.old.length, firstLine h.newStart h.new.length,
    h.new.length, h.runs.flatMap Run.marked⟩

@[simp]
theorem old_written (h : Hunk Text) : h.written.old = h.old := by
  have hrun : ∀ r : Run Text, (r.marked.filter (·.1 ≠ .added)).map (·.2) = r.old := by
    intro r
    cases r <;> simp [Run.marked, Run.old, List.filter_map, Function.comp_def]
  unfold written Patch.Hunk.old old
  rw [List.filter_flatMap, List.map_flatMap]
  simp only [hrun]

@[simp]
theorem new_written (h : Hunk Text) : h.written.new = h.new := by
  have hrun : ∀ r : Run Text, (r.marked.filter (·.1 ≠ .removed)).map (·.2) = r.new := by
    intro r
    cases r <;> simp [Run.marked, Run.new, List.filter_map, Function.comp_def]
  unfold written Patch.Hunk.new new
  rw [List.filter_flatMap, List.map_flatMap]
  simp only [hrun]

@[simp]
theorem oldStart_written (h : Hunk Text) : h.written.oldStart = h.oldStart :=
  linesBefore_firstLine h.oldStart h.old.length

@[simp]
theorem newStart_written (h : Hunk Text) : h.written.newStart = h.newStart :=
  linesBefore_firstLine h.newStart h.new.length

theorem isCounted_written (h : Hunk Text) : h.written.IsCounted :=
  ⟨congrArg List.length h.old_written.symm, congrArg List.length h.new_written.symm⟩

@[simp]
theorem oldStart_push {α : Type} (h : Hunk α) (r : Run α) : (h.push r).oldStart = h.oldStart := rfl

@[simp]
theorem newStart_push {α : Type} (h : Hunk α) (r : Run α) : (h.push r).newStart = h.newStart := rfl

@[simp]
theorem old_push {α : Type} (h : Hunk α) (r : Run α) : (h.push r).old = h.old ++ r.old := by
  simp [push, old]

@[simp]
theorem new_push {α : Type} (h : Hunk α) (r : Run α) : (h.push r).new = h.new ++ r.new := by
  simp [push, new]

end Hunk

/-! ## Hunks account for the runs -/

/-- The hunks that an open hunk and the runs behind it are grouped into, if the lines `kept` stand
before the open hunk. -/
theorem turns_group (h : Hunk Text) (runs : List (Run Text)) {i j : Nat} (kept : List Text)
    (hold : h.oldStart = i + kept.length) (hnew : h.newStart = j + kept.length) :
    Patch.Turns i j ((group h runs).map Hunk.written)
      (kept ++ (h.old ++ runs.flatMap Run.old)) (kept ++ (h.new ++ runs.flatMap Run.new)) := by
  fun_induction group h runs generalizing i j kept with
  | case1 h =>
    have hturns := Patch.Turns.hunk (h := h.written) kept (by simpa using hold)
      (by simpa using hnew) (.done _ _ [])
    simpa using hturns
  | case2 h xs =>
    have hturns := Patch.Turns.hunk (h := (h.push (.same (xs.take context))).written) kept
      (by simpa using hold) (by simpa using hnew) (.done _ _ (xs.drop context))
    simpa [Run.old, Run.new] using hturns
  | case3 h xs r rest hlong skipped =>
    rename_i next ih
    -- The lines in the middle of the long run stand between the two hunks.
    let shown := h.push (.same (xs.take context))
    let middle := (xs.drop context).take (skipped - context)
    have hside : ∀ ls, xs ++ ls = xs.take context ++ (middle ++ (xs.drop skipped ++ ls)) := by
      intro ls
      have hsum : context + (skipped - context) = skipped := by omega
      have hcut := take_append_slice_append_drop xs context (skipped - context)
      rw [hsum] at hcut
      rw [← List.append_assoc middle, ← List.append_assoc, hcut]
    have hold' : next.oldStart = h.oldStart + shown.old.length + middle.length := by
      simp [next, shown, middle, Run.old]
      omega
    have hnew' : next.newStart = h.newStart + shown.new.length + middle.length := by
      simp [next, shown, middle, Run.new]
      omega
    have hrest := ih middle hold' hnew'
    have hturns := Patch.Turns.hunk (h := shown.written) kept (by simpa [shown] using hold)
      (by simpa [shown] using hnew) (by simpa [shown] using hrest)
    simpa [shown, next, Hunk.old, Hunk.new, Hunk.push, Run.old, Run.new, hside] using hturns
  | case4 h xs r rest hshort ih =>
    have hturns := ih kept hold hnew
    simpa [Run.old, Run.new] using hturns
  | case5 h xs ys rest ih =>
    have hturns := ih kept hold hnew
    simpa [Run.old, Run.new] using hturns

theorem turns_hunks (runs : List (Run Text)) :
    Patch.Turns 0 0 ((hunks runs).map Hunk.written) (runs.flatMap Run.old)
      (runs.flatMap Run.new) := by
  unfold hunks
  split
  next => exact .done 0 0 []
  next xs => simpa [Run.old, Run.new] using Patch.Turns.done 0 0 xs
  next xs rest _ =>
    have hlength : xs.length - context = 0 + (xs.take (xs.length - context)).length := by simp
    have hturns := turns_group ⟨xs.length - context, xs.length - context,
      [.same (xs.drop (xs.length - context))]⟩ rest (xs.take (xs.length - context)) hlength hlength
    have hside : ∀ ls, xs.take (xs.length - context) ++ (xs.drop (xs.length - context) ++ ls) =
        xs ++ ls := by
      intro ls
      rw [← List.append_assoc, List.take_append_drop]
    simpa [Hunk.old, Hunk.new, Run.old, Run.new, hside] using hturns
  next => exact turns_group ⟨0, 0, []⟩ runs [] rfl rfl

/-! ## What is printed is read -/

/-- The sign of a line tells its mark. -/
theorem readLine?_sign (m : Mark) (line : Text) :
    Patch.readLine? (m.sign :: line) = some (m, line) := by
  cases m <;> rfl

theorem runLines_eq_marked (r : Run Text) : runLines r = r.marked.map fun l => l.1.sign :: l.2 := by
  cases r <;> simp [runLines, Run.marked, Mark.sign, Function.comp_def]

theorem readHunks?_marked (marked : List (Mark × Text)) {lines : List Text}
    {body : List (Mark × Text)} {hs : List Patch.Hunk}
    (h : Patch.readHunks? lines = some (body, hs)) :
    Patch.readHunks? ((marked.map fun l => l.1.sign :: l.2) ++ lines) =
      some (marked ++ body, hs) := by
  induction marked with
  | nil => exact h
  | cons l ls ih =>
    rw [List.map_cons, List.cons_append, Patch.readHunks?, ih]
    simp [readLine?_sign]

theorem readNumber?_ofNat_append (n : Nat) {rest : Text}
    (h : ∀ c ∈ rest.head?, Json.isDigit c = false) :
    Patch.readNumber? (Text.ofNat n ++ rest) = some (n, rest) := by
  rw [Patch.readNumber?, Json.takeDigits_ofNat_append n h]
  simp [Text.ofNat_ne_nil, Json.digitsValue_ofNat]

/-- A printed range ends at the space behind it. -/
theorem readRange?_rangeText (start count : Nat) (rest : Text) :
    Patch.readRange? (rangeText start count ++ CodePoint.ofChar ' ' :: rest) =
      some ((firstLine start count, count), CodePoint.ofChar ' ' :: rest) := by
  have hspace : ∀ c ∈ (CodePoint.ofChar ' ' :: rest).head?, Json.isDigit c = false := by
    intro c hc
    obtain rfl : CodePoint.ofChar ' ' = c := by simpa using hc
    rfl
  have hcomma : ∀ t : Text, ∀ c ∈ (CodePoint.ofChar ',' :: t).head?, Json.isDigit c = false := by
    intro t c hc
    obtain rfl : CodePoint.ofChar ',' = c := by simpa using hc
    rfl
  unfold rangeText
  split
  next hone =>
    subst hone
    rw [Patch.readRange?, readNumber?_ofNat_append _ hspace]
    rfl
  next =>
    have hprinted : Text.concat [Text.ofNat (firstLine start count), ",", Text.ofNat count] ++
        CodePoint.ofChar ' ' :: rest =
          Text.ofNat (firstLine start count) ++ CodePoint.ofChar ',' ::
            (Text.ofNat count ++ CodePoint.ofChar ' ' :: rest) := by
      simp [Text.concat, Text.ofString]
    have hread : Patch.readRange? (Text.ofNat (firstLine start count) ++ CodePoint.ofChar ',' ::
        (Text.ofNat count ++ CodePoint.ofChar ' ' :: rest)) =
          (Patch.readNumber? (Text.ofNat count ++ CodePoint.ofChar ' ' :: rest)).bind
            fun r => some ((firstLine start count, r.1), r.2) := by
      rw [Patch.readRange?, readNumber?_ofNat_append _ (hcomma _)]
      rfl
    show Patch.readRange? (Text.concat [Text.ofNat (firstLine start count), ",",
      Text.ofNat count] ++ CodePoint.ofChar ' ' :: rest) = _
    rw [hprinted, hread, readNumber?_ofNat_append _ hspace]
    rfl

/-- The head that a hunk is printed with. -/
def headLine (h : Hunk Text) : Text :=
  Text.concat ["@@ -", rangeText h.oldStart h.old.length, " +",
    rangeText h.newStart h.new.length, " @@"]

theorem readHead?_headLine (h : Hunk Text) :
    Patch.readHead? (h.runs.flatMap Run.marked) (headLine h) = some h.written := by
  have hhead : headLine h = "@@ -" ++ (rangeText h.oldStart h.old.length ++ (" +" ++
      (rangeText h.newStart h.new.length ++ " @@"))) := by
    simp [headLine, Text.concat]
  have hafter : ∀ s t : Text, Text.after? s (s ++ t) = some t := fun _ _ =>
    Text.after?_eq_some_iff.mpr rfl
  have hold : Patch.readRange? (rangeText h.oldStart h.old.length ++ (" +" ++
      (rangeText h.newStart h.new.length ++ " @@"))) =
        some ((firstLine h.oldStart h.old.length, h.old.length), " +" ++
          (rangeText h.newStart h.new.length ++ " @@")) :=
    readRange?_rangeText h.oldStart h.old.length _
  have hnew : Patch.readRange? (rangeText h.newStart h.new.length ++ " @@") =
      some ((firstLine h.newStart h.new.length, h.new.length), (" @@" : Text)) :=
    readRange?_rangeText h.newStart h.new.length _
  rw [hhead, Patch.readHead?, hafter]
  simp only [Option.bind_eq_bind, Option.bind_some, hold, hafter, hnew, if_true]
  rfl

/-- A head is no line of a body. -/
theorem readLine?_headLine (h : Hunk Text) : Patch.readLine? (headLine h) = none := rfl

/-- What is printed of hunks is read back, and nothing is left over. -/
theorem readHunks?_hunkLines (hs : List (Hunk Text)) :
    Patch.readHunks? (hs.flatMap hunkLines) = some ([], hs.map Hunk.written) := by
  induction hs with
  | nil => rfl
  | cons h hs ih =>
    have hlines : h.runs.flatMap runLines =
        (h.runs.flatMap Run.marked).map fun l => l.1.sign :: l.2 := by
      rw [List.map_flatMap]
      exact congrArg (h.runs.flatMap ·) (funext runLines_eq_marked)
    have hbody := readHunks?_marked (h.runs.flatMap Run.marked) ih
    rw [List.append_nil] at hbody
    show Patch.readHunks? (headLine h :: h.runs.flatMap runLines ++ hs.flatMap hunkLines) = _
    rw [List.cons_append, hlines, Patch.readHunks?, hbody]
    simp [readLine?_headLine, readHead?_headLine]

/-! ## No printed line is broken -/

theorem newline_notMem_rangeText (start count : Nat) : Text.newline ∉ rangeText start count := by
  have hnumber := Text.newline_notMem_ofNat
  have hcomma : Text.newline ∉ (("," : String) : Text) := by decide
  unfold rangeText
  split
  · exact hnumber _
  · simp [Text.concat, hnumber, hcomma]

theorem newline_notMem_headLine (h : Hunk Text) : Text.newline ∉ headLine h := by
  have hrange := newline_notMem_rangeText
  have hfixed : Text.newline ∉ Text.ofString "@@ -" ∧ Text.newline ∉ Text.ofString " +" ∧
      Text.newline ∉ Text.ofString " @@" := by decide
  simp [headLine, Text.concat, hrange, hfixed]

/-- Hunks whose lines hold no newline are printed as lines. -/
theorem newline_notMem_of_mem_hunkLines {h : Hunk Text} (hold : ∀ l ∈ h.old, Text.newline ∉ l)
    (hnew : ∀ l ∈ h.new, Text.newline ∉ l) {line : Text} (hline : line ∈ hunkLines h) :
    Text.newline ∉ line := by
  have hsign : ∀ (m : Mark) {l : Text}, Text.newline ∉ l → Text.newline ∉ m.sign :: l := by
    intro m l hl
    have hm : Text.newline ≠ m.sign := by cases m <;> decide
    simp [hm, hl]
  rcases List.mem_cons.mp hline with rfl | hline
  · exact newline_notMem_headLine h
  · obtain ⟨r, hr, hmem⟩ := List.mem_flatMap.mp hline
    have holdr : ∀ l ∈ r.old, Text.newline ∉ l := fun l hl =>
      hold l (List.mem_flatMap.mpr ⟨r, hr, hl⟩)
    have hnewr : ∀ l ∈ r.new, Text.newline ∉ l := fun l hl =>
      hnew l (List.mem_flatMap.mpr ⟨r, hr, hl⟩)
    cases r with
    | same xs =>
      obtain ⟨l, hl, rfl⟩ := List.mem_map.mp hmem
      exact hsign .kept (holdr l hl)
    | change xs ys =>
      rcases List.mem_append.mp hmem with hmem | hmem
      · obtain ⟨l, hl, rfl⟩ := List.mem_map.mp hmem
        exact hsign .removed (holdr l hl)
      · obtain ⟨l, hl, rfl⟩ := List.mem_map.mp hmem
        exact hsign .added (hnewr l hl)

/-! ## The patch -/

/-- The lines that a diff with hunks is printed as. -/
def patchLines (path : Text) (hs : List (Hunk Text)) : List Text :=
  Text.concat ["--- a/", path] :: Text.concat ["+++ b/", path] :: hs.flatMap hunkLines

theorem unified_eq (old new path : Text) :
    unified old new path =
      if hunks (align (Text.lines old) (Text.lines new)) = [] then []
      else Text.unlines (patchLines path (hunks (align (Text.lines old) (Text.lines new)))) := by
  unfold unified
  split <;> simp_all [patchLines]

theorem hunks_align_self (t : Text) : hunks (align (Text.lines t) (Text.lines t)) = [] := by
  rw [align, alignBy_self _ (Text.lines_ne_nil t)]
  rfl

theorem turns_align (a b : List Text) :
    Patch.Turns 0 0 ((hunks (align a b)).map Hunk.written) a b := by
  have h := turns_hunks (align a b)
  rwa [align, old_alignBy, new_alignBy] at h

/-- Texts with the same lines are equal, so a diff without hunks is one of equal texts. -/
theorem hunks_align_eq_nil_iff {old new : Text} :
    hunks (align (Text.lines old) (Text.lines new)) = [] ↔ old = new := by
  constructor
  · intro h
    have hturns := turns_align (Text.lines old) (Text.lines new)
    rw [h] at hturns
    rw [← Text.unlines_lines old, hturns.eq_of_nil, Text.unlines_lines]
  · rintro rfl
    exact hunks_align_self old

theorem read?_unlines_patchLines {path : Text} (hpath : Text.newline ∉ path)
    {hs : List (Hunk Text)} {xs ys : List Text} {i j : Nat}
    (hturns : Patch.Turns i j (hs.map Hunk.written) xs ys) (hxs : ∀ l ∈ xs, Text.newline ∉ l)
    (hys : ∀ l ∈ ys, Text.newline ∉ l) :
    Patch.read? (Text.unlines (patchLines path hs)) =
      some ⟨"a/" ++ path, "b/" ++ path, hs.map Hunk.written⟩ := by
  have hnames : Text.newline ∉ Text.concat ["--- a/", path] ∧
      Text.newline ∉ Text.concat ["+++ b/", path] := by
    have hfixed : Text.newline ∉ Text.ofString "--- a/" ∧
        Text.newline ∉ Text.ofString "+++ b/" := by decide
    simpa [Text.concat, hpath] using hfixed
  have hunbroken : ∀ line ∈ patchLines path hs, Text.newline ∉ line := by
    refine List.forall_mem_cons.mpr ⟨hnames.1, List.forall_mem_cons.mpr ⟨hnames.2, ?_⟩⟩
    intro line hline
    obtain ⟨h, hh, hline⟩ := List.mem_flatMap.mp hline
    obtain ⟨hold, hnew⟩ := hturns.mem_of_mem (List.mem_map_of_mem hh)
    rw [Hunk.old_written] at hold
    rw [Hunk.new_written] at hnew
    exact newline_notMem_of_mem_hunkLines (fun l hl => hxs l (hold l hl))
      (fun l hl => hys l (hnew l hl)) hline
  have holdFile : Text.after? "--- " (Text.concat ["--- a/", path]) =
      some (("a/" : Text) ++ path) := by
    rw [Text.after?_eq_some_iff]
    simp [Text.concat, Text.ofString]
  have hnewFile : Text.after? "+++ " (Text.concat ["+++ b/", path]) =
      some (("b/" : Text) ++ path) := by
    rw [Text.after?_eq_some_iff]
    simp [Text.concat, Text.ofString]
  rw [Patch.read?, Text.lines_unlines (by simp [patchLines]) hunbroken, patchLines]
  simp only [holdFile, hnewFile, readHunks?_hunkLines, Option.bind_eq_bind, Option.bind_some]

/-- The diff of two texts is empty if and only if they are equal. Otherwise it reads as a patch: its
hunks have true counts, stand in order and apart, and applied to the lines of the old text they give
those of the new one, in reverse those of the old one from the new. -/
theorem unified_patches {old new path : Text} (hpath : Text.newline ∉ path) :
    (unified old new path = [] ↔ old = new) ∧
      (old ≠ new → ∃ p : Patch, Patch.read? (unified old new path) = some p ∧
        p.oldFile = "a/" ++ path ∧ p.newFile = "b/" ++ path ∧
        (∀ h ∈ p.hunks, h.IsCounted) ∧ p.hunks.Pairwise Patch.Hunk.Precedes ∧
        p.apply (Text.lines old) = some (Text.lines new) ∧
        p.reverse.apply (Text.lines new) = some (Text.lines old)) := by
  have hturns := turns_align (Text.lines old) (Text.lines new)
  have hcounted : ∀ h ∈ (hunks (align (Text.lines old) (Text.lines new))).map Hunk.written,
      h.IsCounted := by
    intro h hh
    obtain ⟨k, -, rfl⟩ := List.mem_map.mp hh
    exact k.isCounted_written
  have hread := read?_unlines_patchLines hpath hturns
    (fun l hl => Text.newline_notMem_of_mem_lines hl)
    (fun l hl => Text.newline_notMem_of_mem_lines hl)
  rw [unified_eq]
  constructor
  · have hempty : hunks (align (Text.lines old) (Text.lines new)) = [] ↔ old = new :=
      hunks_align_eq_nil_iff
    rw [← hempty]
    split
    next hnil => simp [hnil]
    next hne => simp [hne, patchLines, Text.unlines_cons_cons]
  · intro hne
    rw [if_neg (fun h => hne (hunks_align_eq_nil_iff.mp h))]
    exact ⟨_, hread, rfl, rfl, hcounted, hturns.ordered hcounted, hturns.applyFrom_eq,
      hturns.reverse.applyFrom_eq⟩

namespace TwoHunks

/-- Nine lines. -/
def before : Text := "a\nb\nc\nd\ne\nf\ng\nh\ni"

/-- The second line is replaced, and a line is put behind the last one. -/
def after : Text := "a\nB\nc\nd\ne\nf\ng\nh\ni\nj"

theorem unified_patches_twoHunks :
    Text.newline ∉ Text.ofString "shop.js" ∧ before ≠ after ∧
      ∃ p : Patch, Patch.read? (unified before after "shop.js") = some p ∧
        p.oldFile = "a/" ++ ("shop.js" : Text) ∧ p.newFile = "b/" ++ ("shop.js" : Text) ∧
        (∀ h ∈ p.hunks, h.IsCounted) ∧ p.hunks.Pairwise Patch.Hunk.Precedes ∧
        p.apply (Text.lines before) = some (Text.lines after) ∧
        p.reverse.apply (Text.lines after) = some (Text.lines before) :=
  ⟨by decide, by decide, (unified_patches (by decide)).2 (by decide)⟩

end TwoHunks

end SymbolAtlas.Diff
