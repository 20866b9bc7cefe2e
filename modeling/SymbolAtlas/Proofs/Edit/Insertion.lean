import Mathlib.Data.List.TakeWhile
import SymbolAtlas.Proofs.Edit.Replacement
import SymbolAtlas.Proofs.Text.BlankLines

/-!
# Inserting a member into a class

A member is inserted by rewriting one line of the class, or by adding lines below its last one.
Either way the text is cut in one place and nothing but the new lines comes between: in front of the
last closing brace of the class, or behind the last line of the class where bodies have no braces
(`Splice.createInClass_inserts`). The new lines are those of the content, one level deeper than the
class, so that taking the indentation off gives the content back.
-/

namespace SymbolAtlas

open Text

/-- A range whose lines and columns are counted from the start. -/
structure SourceRange.Nonneg (r : SourceRange) : Prop where
  startLine : 0 ≤ r.startLine
  startColumn : 0 ≤ r.startColumn
  endColumn : 0 ≤ r.endColumn

/-- The number of code points before a place of a text. A column behind the end of its line falls on
the end. -/
def Text.place (t : Text) (line column : Int) : Nat :=
  offset t line.toNat (min column.toNat ((lines t)[line.toNat]?.getD []).length)

/-- The text that stands in a range. -/
def SourceRange.textIn (r : SourceRange) (t : Text) : Text :=
  (t.take (t.place r.endLine r.endColumn)).drop (t.place r.startLine r.startColumn)

namespace Splice

/-! ## Indented lines -/

/-- An indented line without its indentation. A blank line has none. -/
def unindent? (indent l : Text) : Option Text :=
  if l.isBlank then some l else after? indent l

theorem unindent?_indentLines (indent content : Text) :
    (indentLines indent content).map (unindent? indent) = (lines content).map some := by
  rw [indentLines, List.map_map]
  apply List.map_congr_left
  intro l _
  show unindent? indent (if l.isBlank then l else indent ++ l) = some l
  unfold unindent?
  by_cases hblank : l.isBlank = true
  · rw [if_pos hblank, if_pos hblank]
  · have hindented : ¬ (indent ++ l).isBlank = true := by
      rw [isBlank_append, Bool.and_eq_true]
      exact fun h => hblank h.2
    rw [if_neg hblank, if_neg hindented]
    exact after?_eq_some_iff.mpr rfl

theorem newline_notMem_indentation {t l : Text} (h : l ∈ lines t) : newline ∉ l.indentation := by
  intro hmem
  exact newline_notMem_of_mem_lines h ((List.takeWhile_prefix _).subset hmem)

theorem newline_notMem_indentUnit (g : Grammar) : newline ∉ g.indentUnit := by
  cases g <;> decide

/-- Indenting by something without a newline makes no new lines. -/
theorem newline_notMem_indentLines {indent : Text} (h : newline ∉ indent) (content : Text) :
    ∀ l ∈ indentLines indent content, newline ∉ l := by
  intro l hl
  obtain ⟨l', hl', rfl⟩ := List.mem_map.mp hl
  have hnewline := newline_notMem_of_mem_lines hl'
  split
  · exact hnewline
  · rw [List.mem_append]
    rintro (hmem | hmem)
    · exact h hmem
    · exact hnewline hmem

/-! ## The closing brace -/

/-- The brace that closes a class. -/
abbrev closingBrace : CodePoint := '\x7d'

/-- The last closing brace of a line before a column stands at `k`. -/
structure LastBrace (row : Text) (column : Int) (k : Nat) : Prop where
  brace : row[k]? = some closingBrace
  before : (k : Int) < column
  last : ∀ j : Nat, k < j → (j : Int) < column → row[j]? ≠ some closingBrace

section

variable {row front rear : Text} {column : Int}

/-- The last brace is found by what stands behind it. -/
theorem lastBrace?_of_append (h : Offset.before row column = front ++ closingBrace :: rear)
    (hrear : closingBrace ∉ rear) : lastBrace? row column = some front.length := by
  have hbehind : (front ++ closingBrace :: rear).reverse.takeWhile (· ≠ closingBrace) =
      rear.reverse := by
    rw [List.reverse_append, List.reverse_cons, List.append_assoc, List.singleton_append,
      List.takeWhile_append_of_pos, List.takeWhile_cons_of_neg, List.append_nil]
    · simp
    · intro c hc
      have hne : c ≠ closingBrace := fun heq => hrear (heq ▸ List.mem_reverse.mp hc)
      simpa using hne
  unfold lastBrace?
  rw [h]
  simp only [hbehind, List.length_reverse, List.length_append, List.length_cons]
  rw [if_pos (by omega)]
  congr 1
  omega

theorem lastBrace?_of_notMem (h : closingBrace ∉ Offset.before row column) :
    lastBrace? row column = none := by
  have hbehind : (Offset.before row column).reverse.takeWhile (· ≠ closingBrace) =
      (Offset.before row column).reverse := by
    apply List.takeWhile_eq_self_iff.mpr
    intro c hc
    have hne : c ≠ closingBrace := fun heq => h (heq ▸ List.mem_reverse.mp hc)
    simpa using hne
  unfold lastBrace?
  simp only [hbehind, List.length_reverse, Nat.lt_irrefl, if_false]

end

theorem before_eq_take (row : Text) {column : Int} (h : 0 ≤ column) :
    Offset.before row column = row.take column.toNat := by
  obtain ⟨c, rfl⟩ := Int.eq_ofNat_of_zero_le h
  rw [Offset.before, Offset.cut_natCast, Int.toNat_natCast, ← List.take_eq_take_min]

namespace LastBrace

variable {row : Text} {column : Int} {k : Nat}

/-- There is no more than one last brace. -/
theorem eq {k' : Nat} (h : LastBrace row column k) (h' : LastBrace row column k') : k = k' := by
  rcases Nat.lt_trichotomy k k' with hlt | heq | hlt
  · exact absurd h'.brace (h.last k' hlt h'.before)
  · exact heq
  · exact absurd h.brace (h'.last k hlt h.before)

theorem le_length (h : LastBrace row column k) : k ≤ row.length := by
  obtain ⟨hlt, -⟩ := List.getElem?_eq_some_iff.mp h.brace
  omega

/-- A last brace, by what stands before the column. -/
theorem of_take {front rear : Text} (h : row.take column.toNat = front ++ closingBrace :: rear)
    (hrear : closingBrace ∉ rear) : LastBrace row column front.length := by
  have hlength := congrArg List.length h
  simp only [List.length_take, List.length_append, List.length_cons] at hlength
  have hline : ∀ j : Nat, (j : Int) < column →
      row[j]? = (front ++ closingBrace :: rear)[j]? := by
    intro j hj
    rw [← h, List.getElem?_take_of_lt (by omega)]
  refine ⟨?_, by omega, ?_⟩
  · rw [hline _ (by omega)]
    simp
  · intro j hj hbefore heq
    rw [hline j hbefore, List.getElem?_append_right (by omega),
      show j - front.length = (j - front.length - 1) + 1 by omega, List.getElem?_cons_succ] at heq
    exact hrear (List.mem_of_getElem? heq)

end LastBrace

/-- The search for the last closing brace finds it, if there is one. -/
theorem lastBrace?_eq_some_iff {row : Text} {column : Int} (h : 0 ≤ column) {k : Nat} :
    lastBrace? row column = some k ↔ LastBrace row column k := by
  have hbefore := before_eq_take row h
  by_cases hmem : closingBrace ∈ Offset.before row column
  · -- What stands behind the last brace is what comes before the first one backwards.
    obtain ⟨rear, front, hsplit, hrear⟩ :=
      List.eq_append_cons_of_mem (List.mem_reverse.mpr hmem)
    have hcut : Offset.before row column = front.reverse ++ closingBrace :: rear.reverse := by
      have hreverse := congrArg List.reverse hsplit
      simpa using hreverse
    have hnone : closingBrace ∉ rear.reverse := fun hin => hrear (List.mem_reverse.mp hin)
    have hlast : LastBrace row column front.reverse.length :=
      LastBrace.of_take (hbefore.symm.trans hcut) hnone
    rw [lastBrace?_of_append hcut hnone, Option.some.injEq]
    constructor
    · rintro rfl
      exact hlast
    · exact fun hk => hlast.eq hk
  · rw [lastBrace?_of_notMem hmem]
    refine iff_of_false (by simp) ?_
    intro hk
    apply hmem
    have hlt := hk.before
    rw [hbefore]
    apply List.mem_of_getElem? (i := k)
    rw [List.getElem?_take_of_lt (by omega)]
    exact hk.brace

/-! ## The two ways to insert -/

/-- The indentation of the line that a class starts on. -/
def classIndent (t : Text) (r : SourceRange) : Text :=
  ((lines t)[r.startLine.toNat]?.getD []).indentation

/-- The indentation of the members of a class. -/
def memberIndent (t : Text) (r : SourceRange) (g : Grammar) : Text :=
  classIndent t r ++ g.indentUnit

section

variable {t content last : Text} {r : SourceRange} {g : Grammar} {j : Nat}

theorem createInClass_of_past (h : ((lines t).length : Int) ≤ r.endLine) :
    createInClass t r content g = .error (.rangePastEnd r.endLine (lines t).length) := by
  simp only [createInClass, checkRange, if_pos h, bind, Except.bind]

theorem lineAt_startLine (hr : r.Nonneg) (h : r.endLine < (lines t).length) :
    ∃ first, lineAt (lines t) r.startLine = .ok first ∧ first.indentation = classIndent t r := by
  have hordered := r.ordered
  have hstart := hr.startLine
  obtain ⟨i, hi⟩ := Int.eq_ofNat_of_zero_le hstart
  have hlt : i < (lines t).length := by omega
  have hline : (lines t)[i]? = some (lines t)[i] := List.getElem?_eq_getElem hlt
  refine ⟨(lines t)[i], ?_, ?_⟩
  · rw [hi]
    exact lineAt_natCast hline
  · rw [classIndent, hi, Int.toNat_natCast, hline, Option.getD_some]

/-- Without braces the new lines come below the last line of the class. -/
theorem createInClass_of_unbraced (hr : r.Nonneg) (h : r.endLine < (lines t).length)
    (hg : g.usesBraces = false) :
    createInClass t r content g = .ok (unlines (Offset.replaceSpan (lines t) (r.endLine + 1)
      (r.endLine + 1) ([] :: indentLines (memberIndent t r g) content))) := by
  obtain ⟨first, hfirst, hindent⟩ := lineAt_startLine hr h
  simp only [createInClass, checkRange_of_lt h, hfirst, hindent, hg, memberIndent, bind,
    Except.bind, pure, Except.pure, Bool.not_false, if_true]

theorem createInClass_of_noBrace (hr : r.Nonneg) (h : r.endLine < (lines t).length)
    (hg : g.usesBraces = true) (hlast : lineAt (lines t) r.endLine = .ok last)
    (hnone : lastBrace? last r.endColumn = none) :
    createInClass t r content g = .error (.noClosingBrace (r.endLine + 1)) := by
  obtain ⟨first, hfirst, hindent⟩ := lineAt_startLine hr h
  simp only [createInClass, checkRange_of_lt h, hfirst, hlast, hnone, hg, bind, Except.bind,
    Bool.not_true, Bool.false_eq_true, if_false]

/-- With braces they come before the last one of the class. -/
theorem createInClass_of_brace {k : Nat} (hr : r.Nonneg) (h : r.endLine < (lines t).length)
    (hg : g.usesBraces = true) (hlast : lineAt (lines t) r.endLine = .ok last)
    (hbrace : lastBrace? last r.endColumn = some k) :
    createInClass t r content g = .ok (unlines (setLine (lines t) r.endLine (Text.concat
      [last.take k, [newline], unlines (indentLines (memberIndent t r g) content), [newline],
        classIndent t r, last.drop k]))) := by
  obtain ⟨first, hfirst, hindent⟩ := lineAt_startLine hr h
  simp only [createInClass, checkRange_of_lt h, hfirst, hlast, hbrace, hindent, hg, memberIndent,
    bind, Except.bind, pure, Except.pure, Bool.not_true, Bool.false_eq_true, if_false]

end

/-! ## What an insertion is -/

/-- The cut between `u` and `v` is at the last closing brace of a class. That is the brace of the
class itself, if the text of the class ends in one. -/
structure AtBrace (t : Text) (r : SourceRange) (u v : Text) : Prop where
  last : ∃ row k, (lines t)[r.endLine.toNat]? = some row ∧ LastBrace row r.endColumn k ∧
    u = t.take (offset t r.endLine.toNat k) ∧ v = t.drop (offset t r.endLine.toNat k)
  own : ∀ inner, r.textIn t = inner ++ [closingBrace] →
    u = t.take (t.place r.startLine r.startColumn) ++ inner ∧
      v = closingBrace :: t.drop (t.place r.endLine r.endColumn)

/-- The cut between `u` and `v` is at the end of a class, and `w` is the content put in there: from
a new line on to the indentation of the brace, or below a blank line. -/
structure InsertsMember (t content : Text) (r : SourceRange) (g : Grammar) (u w v : Text) :
    Prop where
  cut : t = u ++ v
  braced : g.usesBraces = true → AtBrace t r u v ∧
    ∃ new, lines w = [] :: (new ++ [classIndent t r]) ∧
      new.map (unindent? (memberIndent t r g)) = (lines content).map some
  unbraced : g.usesBraces = false → lines u = (lines t).take (r.endLine.toNat + 1) ∧
    ∃ new, lines w = [] :: [] :: new ∧
      new.map (unindent? (memberIndent t r g)) = (lines content).map some

section

variable {t content : Text} {r : SourceRange} {g : Grammar}

theorem newline_notMem_classIndent (t : Text) (r : SourceRange) : newline ∉ classIndent t r := by
  unfold classIndent
  cases hline : (lines t)[r.startLine.toNat]? with
  | none =>
    show newline ∉ indentation []
    simp [indentation]
  | some first => exact newline_notMem_indentation (List.mem_of_getElem? hline)

theorem newline_notMem_memberLines (t content : Text) (r : SourceRange) (g : Grammar) :
    ∀ l ∈ indentLines (memberIndent t r g) content, newline ∉ l := by
  apply newline_notMem_indentLines
  rw [memberIndent, List.mem_append]
  rintro (hmem | hmem)
  · exact newline_notMem_classIndent t r hmem
  · exact newline_notMem_indentUnit g hmem

/-! ### Below the last line -/

theorem inserts_unbraced (hr : r.Nonneg) (h : r.endLine < (lines t).length)
    (hg : g.usesBraces = false) : ∃ u w v,
      createInClass t r content g = .ok (u ++ w ++ v) ∧ InsertsMember t content r g u w v := by
  have hordered := r.ordered
  have hstart := hr.startLine
  obtain ⟨j, hj⟩ := Int.eq_ofNat_of_zero_le (show 0 ≤ r.endLine by omega)
  have hnext : r.endLine + 1 = ((j + 1 : Nat) : Int) := by omega
  have hlt : j < (lines t).length := by omega
  let new := indentLines (memberIndent t r g) content
  have hfront : (lines t).take (j + 1) ≠ [] := by
    intro hnil
    have := congrArg List.length hnil
    simp only [List.length_take, List.length_nil] at this
    omega
  refine ⟨unlines ((lines t).take (j + 1)), unlines ([] :: [] :: new),
    unlines ([] :: (lines t).drop (j + 1)), ?_, ?_⟩
  · have hcut : unlines ([] :: [] :: new ++ (lines t).drop (j + 1)) =
        unlines ([] :: [] :: new) ++ unlines ([] :: (lines t).drop (j + 1)) :=
      unlines_append_of_ne_nil (by simp) _
    rw [createInClass_of_unbraced hr h hg, hnext,
      Offset.replaceSpan_natCast (Nat.le_refl _) (by omega), List.append_assoc,
      unlines_append_of_ne_nil hfront, List.append_assoc, ← hcut]
    rfl
  · constructor
    case cut =>
      rw [← unlines_append_of_ne_nil hfront, List.take_append_drop, unlines_lines]
    case braced => simp [hg]
    case unbraced =>
      intro _
      refine ⟨?_, new, ?_, unindent?_indentLines ..⟩
      · rw [hj, Int.toNat_natCast]
        exact lines_unlines hfront fun l hl => newline_notMem_of_mem_lines (List.mem_of_mem_take hl)
      · apply lines_unlines (by simp)
        intro l hl
        rcases List.mem_cons.mp hl with rfl | hl
        · simp
        rcases List.mem_cons.mp hl with rfl | hl
        · simp
        · exact newline_notMem_memberLines t content r g l hl

/-! ### In front of the brace -/

/-- What ends a stretch of lines, if it is not a newline, stands on the last line. -/
theorem exists_concat_of_flatMap {ls : List Text} {s pre : Text} {c : CodePoint}
    (h : (ls.flatMap fun l => l ++ [newline]) ++ s = pre ++ [c]) (hc : c ≠ newline) :
    ∃ s', s = s' ++ [c] ∧ pre = (ls.flatMap fun l => l ++ [newline]) ++ s' := by
  rcases List.eq_nil_or_concat' s with rfl | ⟨s', c', rfl⟩
  · rw [List.append_nil] at h
    rcases List.eq_nil_or_concat' ls with rfl | ⟨ls', l, rfl⟩
    · simp at h
    · rw [List.flatMap_append, List.flatMap_singleton, ← List.append_assoc] at h
      obtain ⟨-, hlast⟩ := List.append_inj' h rfl
      exact absurd (List.cons.inj hlast).1.symm hc
  · rw [← List.append_assoc] at h
    obtain ⟨hpre, hlast⟩ := List.append_inj' h rfl
    obtain rfl : c' = c := (List.cons.inj hlast).1
    exact ⟨s', rfl, hpre.symm⟩

/-- A place on an earlier line comes first. -/
theorem offset_le_offset {i j c d : Nat} {l : Text} (h : i < j) (hline : (lines t)[i]? = some l)
    (hc : c ≤ l.length) : offset t i c ≤ offset t j d := by
  have htake : ((lines t).take j)[i]? = some l := by rwa [List.getElem?_take_of_lt h]
  obtain ⟨hlt, hl⟩ := List.getElem?_eq_some_iff.mp htake
  have hsplit : (lines t).take j = (lines t).take i ++ l :: ((lines t).take j).drop (i + 1) := by
    rw [← hl, ← List.drop_eq_getElem_cons hlt]
    nth_rewrite 1 [← List.take_append_drop i ((lines t).take j)]
    rw [List.take_take, Nat.min_eq_left (Nat.le_of_lt h)]
  rw [offset, offset, hsplit, List.flatMap_append, List.flatMap_cons]
  simp only [List.length_append, List.length_cons, List.length_nil]
  omega

theorem place_le_place (hr : r.Nonneg) (h : r.endLine < (lines t).length) :
    t.place r.startLine r.startColumn ≤ t.place r.endLine r.endColumn := by
  have hstart := hr.startLine
  rcases r.ordered with hlt | ⟨heq, hle⟩
  · have hrow : r.startLine.toNat < (lines t).length := by omega
    have hline : (lines t)[r.startLine.toNat]? = some (lines t)[r.startLine.toNat] :=
      List.getElem?_eq_getElem hrow
    apply offset_le_offset (by omega) hline
    rw [hline, Option.getD_some]
    exact Nat.min_le_right ..
  · rw [heq]
    have hcolumn : r.startColumn.toNat ≤ r.endColumn.toNat := by omega
    apply Nat.add_le_add_left
    omega

/-- Where the text of a class ends in a brace, that one is the last before the end of the class. -/
theorem cut_of_own {row inner : Text} {k : Nat} (hr : r.Nonneg)
    (hline : (lines t)[r.endLine.toNat]? = some row) (hlt : r.endLine < (lines t).length)
    (hbrace : LastBrace row r.endColumn k) (hown : r.textIn t = inner ++ [closingBrace]) :
    t.take (offset t r.endLine.toNat k) = t.take (t.place r.startLine r.startColumn) ++ inner ∧
      t.drop (offset t r.endLine.toNat k) =
        closingBrace :: t.drop (t.place r.endLine r.endColumn) := by
  have hend := hr.endColumn
  have hle := place_le_place hr hlt
  let c := min r.endColumn.toNat row.length
  have hplace : t.place r.endLine r.endColumn = offset t r.endLine.toNat c := by
    rw [place, hline, Option.getD_some]
  have hupto : t.take (t.place r.endLine r.endColumn) =
      t.take (t.place r.startLine r.startColumn) ++ inner ++ [closingBrace] := by
    rw [List.append_assoc, ← hown, SourceRange.textIn]
    nth_rewrite 1 [← List.take_append_drop (t.place r.startLine r.startColumn)
      (t.take (t.place r.endLine r.endColumn))]
    rw [List.take_take, Nat.min_eq_left hle]
  -- The brace stands on the last line, since it is not a newline.
  have htake := (cut_at_offset hline (Nat.min_le_right r.endColumn.toNat row.length)).1
  rw [← hplace, hupto, unlines_concat] at htake
  obtain ⟨s, hs, hpre⟩ := exists_concat_of_flatMap htake.symm (by decide)
  rw [← List.take_eq_take_min] at hs
  obtain rfl : s.length = k := (LastBrace.of_take hs (by simp)).eq hbrace
  have hshort : row.take s.length = s := by
    have hlength := congrArg List.length hs
    simp only [List.length_take, List.length_append, List.length_singleton] at hlength
    have hcut := congrArg (List.take s.length) hs
    rwa [List.take_take, Nat.min_eq_left (by omega), List.take_left] at hcut
  have hcut := (cut_at_offset hline hbrace.le_length).1
  rw [hshort, unlines_concat] at hcut
  have hu : t.take (offset t r.endLine.toNat s.length) =
      t.take (t.place r.startLine r.startColumn) ++ inner := hcut.trans hpre.symm
  refine ⟨hu, ?_⟩
  have hwhole := List.take_append_drop (t.place r.endLine r.endColumn) t
  have hwhole' := List.take_append_drop (offset t r.endLine.toNat s.length) t
  rw [hupto, ← hu, List.append_assoc] at hwhole
  exact (List.append_cancel_left (hwhole.trans hwhole'.symm)).symm

theorem inserts_braced {row : Text} {k : Nat} (hr : r.Nonneg)
    (h : r.endLine < (lines t).length) (hg : g.usesBraces = true)
    (hline : (lines t)[r.endLine.toNat]? = some row) (hbrace : LastBrace row r.endColumn k) :
    ∃ u w v, createInClass t r content g = .ok (u ++ w ++ v) ∧
      InsertsMember t content r g u w v := by
  have hordered := r.ordered
  have hstart := hr.startLine
  obtain ⟨j, hj⟩ := Int.eq_ofNat_of_zero_le (show 0 ≤ r.endLine by omega)
  have hrow : r.endLine.toNat = j := by omega
  have hlt : j < (lines t).length := by omega
  have hlast : lineAt (lines t) r.endLine = .ok row := by
    rw [hj]
    exact lineAt_natCast (hrow ▸ hline)
  let new := indentLines (memberIndent t r g) content
  have hnew : new ≠ [] := by
    intro hnil
    exact lines_ne_nil content (List.map_eq_nil_iff.mp hnil)
  have hfound := (lastBrace?_eq_some_iff hr.endColumn).mpr hbrace
  obtain ⟨hfront, hrear⟩ := cut_at_offset hline hbrace.le_length
  refine ⟨t.take (offset t r.endLine.toNat k), unlines ([] :: (new ++ [classIndent t r])),
    t.drop (offset t r.endLine.toNat k), ?_, ?_⟩
  · have hw : unlines ([] :: (new ++ [classIndent t r])) =
        newline :: (unlines new ++ newline :: classIndent t r) := by
      rw [unlines_cons_of_ne_nil (by simp), unlines_append_of_ne_nil hnew, unlines_cons_cons,
        unlines_singleton, List.nil_append, List.nil_append]
    have hmiddle := unlines_append [] ((lines t).drop (j + 1))
      (newline :: (unlines new ++ newline :: classIndent t r)) (row.drop k)
    rw [List.nil_append, List.nil_append, unlines_singleton] at hmiddle
    have hwhole : Text.concat [row.take k, [newline], unlines new, [newline], classIndent t r,
        row.drop k] =
        row.take k ++ (newline :: (unlines new ++ newline :: classIndent t r) ++ row.drop k) := by
      simp [Text.concat]
    rw [createInClass_of_brace hr h hg hlast hfound, hj, setLine_natCast hlt,
      List.set_eq_take_append_cons_drop, if_pos hlt, hwhole, unlines_append, hmiddle, ← hj, hfront,
      hrear, hw, hrow, List.append_assoc]
  · constructor
    case cut => exact (List.take_append_drop ..).symm
    case braced =>
      intro _
      refine ⟨⟨⟨row, k, hline, hbrace, rfl, rfl⟩, ?_⟩, new, ?_, unindent?_indentLines ..⟩
      · intro inner hown
        exact cut_of_own hr hline h hbrace hown
      · apply lines_unlines (by simp)
        intro l hl
        rcases List.mem_cons.mp hl with rfl | hl
        · simp
        rcases List.mem_append.mp hl with hl | hl
        · exact newline_notMem_memberLines t content r g l hl
        · rw [List.mem_singleton.mp hl]
          exact newline_notMem_classIndent t r
    case unbraced => simp [hg]

end

/-- There is nowhere to put a member: the class ends behind the text, or no brace closes it where
one should. -/
def NoPlace (t : Text) (r : SourceRange) (g : Grammar) : Prop :=
  ((lines t).length : Int) ≤ r.endLine ∨ (g.usesBraces = true ∧
    ¬ ∃ row k, (lines t)[r.endLine.toNat]? = some row ∧ LastBrace row r.endColumn k)

theorem createInClass_cases {r : SourceRange} (hr : r.Nonneg) (t content : Text) (g : Grammar) :
    (∃ failure, createInClass t r content g = .error failure ∧ NoPlace t r g) ∨
    (∃ u w v, createInClass t r content g = .ok (u ++ w ++ v) ∧
      InsertsMember t content r g u w v ∧ ¬ NoPlace t r g) := by
  by_cases hpast : ((lines t).length : Int) ≤ r.endLine
  · exact .inl ⟨_, createInClass_of_past hpast, .inl hpast⟩
  have hlt : r.endLine < (lines t).length := by omega
  by_cases hg : g.usesBraces = true
  · have hordered := r.ordered
    have hstart := hr.startLine
    have hrow : r.endLine.toNat < (lines t).length := by omega
    have hline : (lines t)[r.endLine.toNat]? = some (lines t)[r.endLine.toNat] :=
      List.getElem?_eq_getElem hrow
    cases hbrace : lastBrace? (lines t)[r.endLine.toNat] r.endColumn with
    | some k =>
      have hk := (lastBrace?_eq_some_iff hr.endColumn).mp hbrace
      obtain ⟨u, w, v, hok, hinserts⟩ := inserts_braced hr hlt hg hline hk
      refine .inr ⟨u, w, v, hok, hinserts, ?_⟩
      rintro (h | ⟨-, hno⟩)
      · exact hpast h
      · exact hno ⟨_, k, hline, hk⟩
    | none =>
      have hlast : lineAt (lines t) r.endLine = .ok (lines t)[r.endLine.toNat] := by
        have hat := lineAt_natCast hline
        rwa [Int.toNat_of_nonneg (by omega)] at hat
      refine .inl ⟨_, createInClass_of_noBrace hr hlt hg hlast hbrace, .inr ⟨hg, ?_⟩⟩
      rintro ⟨row, k, hline', hk⟩
      obtain rfl := Option.some.inj (hline.symm.trans hline')
      rw [(lastBrace?_eq_some_iff hr.endColumn).mpr hk] at hbrace
      cases hbrace
  · have hunbraced := Bool.eq_false_iff.mpr hg
    obtain ⟨u, w, v, hok, hinserts⟩ := inserts_unbraced hr hlt hunbraced
    refine .inr ⟨u, w, v, hok, hinserts, ?_⟩
    rintro (h | ⟨h, -⟩)
    · exact hpast h
    · exact hg h

/-- Creating a member puts it in at the end of the class and changes nothing else. It fails where
there is nowhere to put it, and only there. -/
theorem createInClass_inserts {r : SourceRange} (hr : r.Nonneg) (t content : Text) (g : Grammar) :
    (∀ t', createInClass t r content g = .ok t' →
      ∃ u w v, t' = u ++ w ++ v ∧ InsertsMember t content r g u w v) ∧
    ((∃ failure, createInClass t r content g = .error failure) ↔ NoPlace t r g) := by
  rcases createInClass_cases hr t content g with
    ⟨failure, hfail, hno⟩ | ⟨u, w, v, hok, hinserts, hplace⟩
  · refine ⟨?_, iff_of_true ⟨failure, hfail⟩ hno⟩
    intro t' h
    cases hfail.symm.trans h
  · refine ⟨?_, iff_of_false ?_ hplace⟩
    · intro t' h
      exact ⟨u, w, v, (Except.ok.inj (hok.symm.trans h)).symm, hinserts⟩
    · rintro ⟨failure, hfail⟩
      cases hok.symm.trans hfail

/-- A file with a class whose closing brace has another one behind it on its line. -/
def nested : Text := "ns \x7b\n  class A \x7b\n  \x7d \x7d\n"

/-- The range of the class. -/
def nestedClass : SourceRange := ⟨1, 2, 2, 3, .inl (by decide)⟩

/-- A method with a blank line in its body is put into the class. -/
theorem createInClass_inserts_nested :
    nestedClass.Nonneg ∧ ¬ NoPlace nested nestedClass .javascript ∧ ∃ u w v,
      createInClass nested nestedClass "f() \x7b\n\n\x7d" .javascript = .ok (u ++ w ++ v) ∧
      u = "ns \x7b\n  class A \x7b\n  " ∧ v = "\x7d \x7d\n" ∧
      lines w = ["", "    f() \x7b", "", "    \x7d", "  "] := by
  have hr : nestedClass.Nonneg := ⟨by decide, by decide, by decide⟩
  obtain ⟨hok, hfails⟩ := createInClass_inserts hr nested "f() \x7b\n\n\x7d" .javascript
  have hresult : createInClass nested nestedClass "f() \x7b\n\n\x7d" .javascript =
      .ok "ns \x7b\n  class A \x7b\n  \n    f() \x7b\n\n    \x7d\n  \x7d \x7d\n" := by
    rfl
  obtain ⟨u, w, v, heq, hinserts⟩ := hok _ hresult
  obtain ⟨hbrace, -⟩ := hinserts.braced rfl
  -- The text of the class ends in its own brace, so the cut is there.
  obtain ⟨hu, hv⟩ := hbrace.own "class A \x7b\n  " (by rfl)
  have hu' : u = "ns \x7b\n  class A \x7b\n  " := hu.trans (by rfl)
  have hv' : v = "\x7d \x7d\n" := hv.trans (by rfl)
  refine ⟨hr, ?_, u, w, v, hresult.trans (congrArg _ heq), hu', hv', ?_⟩
  · intro hno
    obtain ⟨failure, hfail⟩ := hfails.mpr hno
    cases hresult.symm.trans hfail
  · have hcut : u ++ w ++ v = u ++ "\n    f() \x7b\n\n    \x7d\n  " ++ v := by
      rw [← heq, hu', hv']
      rfl
    rw [List.append_cancel_left (List.append_cancel_right hcut)]
    rfl

end Splice

end SymbolAtlas
