import SymbolAtlas.Proofs.Edit.Replacement
import SymbolAtlas.Proofs.Text.BlankLines

/-!
# Deleting a stretch of a text

Deleting a range goes one of two ways, which what is left of its first and its last line decides:
if that is blank, all lines of the range go, and perhaps one blank line more; otherwise the range is
cut out and long runs of newlines collapse (`Splice.deleteRange_of_blank`,
`Splice.deleteRange_of_filled`). Either way the lines that are not blank are those of the text
without the range, and blank lines that were apart stay apart (`Splice.filledLines_delete`).
-/

namespace SymbolAtlas

open Text

/-- A range inside a text: its lines are lines of the text, counted from the first, and its columns
lie on them. -/
structure SourceRange.IsWithin (r : SourceRange) (t : Text) : Prop where
  startLine : 0 ≤ r.startLine
  startColumn : 0 ≤ r.startColumn
  endColumn : 0 ≤ r.endColumn
  first : ∃ l, (lines t)[r.startLine.toNat]? = some l ∧ r.startColumn ≤ l.length
  last : ∃ l, (lines t)[r.endLine.toNat]? = some l ∧ r.endColumn ≤ l.length

namespace Splice

/-- The text with the code points of a range cut out. -/
def cutOut (t : Text) (r : SourceRange) : Text :=
  t.take (offset t r.startLine.toNat r.startColumn.toNat) ++
    t.drop (offset t r.endLine.toNat r.endColumn.toNat)

/-! ## Lines that meet -/

section

variable {front rear : List Text}

/-- Where lines were taken out between `front` and `rear`, one of two blank lines that meet is taken
out too. -/
theorem mergeBlankAt_cases (front rear : List Text) :
    (∃ here rest, rear = here :: rest ∧ here.isBlank = true ∧
      mergeBlankAt (front ++ rear) front.length = front ++ rest) ∨
    (mergeBlankAt (front ++ rear) front.length = front ++ rear ∧
      ∀ above ∈ front.getLast?, ∀ here ∈ rear.head?,
        ¬ (above.isBlank = true ∧ here.isBlank = true)) := by
  cases rear with
  | nil => exact .inr ⟨by simp [mergeBlankAt], by simp⟩
  | cons here rest =>
    rcases List.eq_nil_or_concat' front with rfl | ⟨front, above, rfl⟩
    · exact .inr ⟨by simp [mergeBlankAt], by simp⟩
    have hinside : 0 < ((front ++ [above]).length : Int) ∧
        ((front ++ [above]).length : Int) < (front ++ [above] ++ here :: rest).length := by
      simp only [List.length_append, List.length_cons, List.length_nil]
      omega
    have hhere : Offset.element? (front ++ [above] ++ here :: rest)
        ((front ++ [above]).length : Int) = some here := by
      rw [Offset.element?_natCast]
      simp
    have habove : Offset.element? (front ++ [above] ++ here :: rest)
        (((front ++ [above]).length : Int) - 1) = some above := by
      have hindex : ((front ++ [above]).length : Int) - 1 = (front.length : Nat) := by simp
      rw [hindex, Offset.element?_natCast]
      simp
    simp only [mergeBlankAt, if_pos hinside, hhere, habove]
    by_cases hblank : here.isBlank = true ∧ above.isBlank = true
    · refine .inl ⟨here, rest, rfl, hblank.1, ?_⟩
      rw [if_pos hblank, Int.toNat_natCast, List.eraseIdx_append_of_length_le (Nat.le_refl _)]
      simp
    · have hapart : ¬ (above.isBlank = true ∧ here.isBlank = true) := fun h => hblank h.symm
      exact .inr ⟨if_neg hblank, by simpa using hapart⟩

theorem mem_of_mem_mergeBlankAt {l : Text} (h : l ∈ mergeBlankAt (front ++ rear) front.length) :
    l ∈ front ++ rear := by
  rcases mergeBlankAt_cases front rear with ⟨here, rest, rfl, -, heq⟩ | ⟨heq, -⟩
  · rw [heq, List.mem_append] at h
    rw [List.mem_append, List.mem_cons]
    rcases h with h | h
    · exact .inl h
    · exact .inr (.inr h)
  · rwa [heq] at h

theorem filled_mergeBlankAt :
    filled (mergeBlankAt (front ++ rear) front.length) = filled front ++ filled rear := by
  rcases mergeBlankAt_cases front rear with ⟨here, rest, rfl, hblank, heq⟩ | ⟨heq, -⟩
  · rw [heq, filled_append, filled_cons_of_blank hblank]
  · rw [heq, filled_append]

theorem blanksApart_mergeBlankAt (hfront : BlanksApart front) (hrear : BlanksApart rear) :
    BlanksApart (mergeBlankAt (front ++ rear) front.length) := by
  rcases mergeBlankAt_cases front rear with ⟨here, rest, rfl, hblank, heq⟩ | ⟨heq, hapart⟩
  · rw [heq]
    refine List.IsChain.append hfront hrear.tail ?_
    -- The line behind the one taken out is not blank.
    intro above _ below hbelow hboth
    exact hrear.rel_head? hbelow ⟨hblank, hboth.2⟩
  · rw [heq]
    exact List.IsChain.append hfront hrear hapart

end

/-! ## The two ways to delete -/

section

variable {t first last cut : Text} {r : SourceRange}

theorem deleteRange_of_blank (hcheck : checkRange (lines t) r = .ok ())
    (hfirst : lineAt (lines t) r.startLine = .ok first)
    (hlast : lineAt (lines t) r.endLine = .ok last)
    (h : Text.isBlank (Offset.before first r.startColumn) = true ∧
      Text.isBlank (Offset.onward last r.endColumn) = true) :
    deleteRange t r = .ok (unlines (mergeBlankAt
      (Offset.replaceSpan (lines t) r.startLine (r.endLine + 1) []) r.startLine)) := by
  simp only [deleteRange, hcheck, hfirst, hlast, if_pos h, bind, Except.bind, pure, Except.pure]

theorem deleteRange_of_filled (hcheck : checkRange (lines t) r = .ok ())
    (hfirst : lineAt (lines t) r.startLine = .ok first)
    (hlast : lineAt (lines t) r.endLine = .ok last)
    (h : ¬ (Text.isBlank (Offset.before first r.startColumn) = true ∧
      Text.isBlank (Offset.onward last r.endColumn) = true))
    (hcut : replaceRange t r [] = .ok cut) :
    deleteRange t r = .ok (collapseBlankLines cut) := by
  simp only [deleteRange, hcheck, hfirst, hlast, if_neg h, hcut, bind, Except.bind, pure,
    Except.pure]

end

/-! ## What a range leaves -/

section

variable {t first last : Text} {r : SourceRange} {i a j b : Nat}

/-- A range at rows and columns inside a text, with its first and its last line. -/
structure Spans (t : Text) (r : SourceRange) (i a j b : Nat) (first last : Text) : Prop where
  startLine : r.startLine = i
  startColumn : r.startColumn = a
  endLine : r.endLine = j
  endColumn : r.endColumn = b
  firstLine : (lines t)[i]? = some first
  lastLine : (lines t)[j]? = some last
  start : a ≤ first.length
  stop : b ≤ last.length

/-- What a range leaves of the lines of a text. What is left of its first and its last line is put
together. -/
def linesWithout (t : Text) (i a j b : Nat) (first last : Text) : List Text :=
  (lines t).take i ++ (first.take a ++ last.drop b) :: (lines t).drop (j + 1)

theorem exists_spans (h : r.IsWithin t) : ∃ i a j b first last, Spans t r i a j b first last := by
  have hordered := r.ordered
  obtain ⟨hi, ha, hb, ⟨first, hfirst, hstart⟩, last, hlast, hstop⟩ := h
  exact ⟨r.startLine.toNat, r.startColumn.toNat, r.endLine.toNat, r.endColumn.toNat, first, last,
    by omega, by omega, by omega, by omega, hfirst, hlast, by omega, by omega⟩

namespace Spans

variable (h : Spans t r i a j b first last)

include h

theorem le : i ≤ j := by
  have hordered := r.ordered
  have hi := h.startLine
  have hj := h.endLine
  omega

theorem lt_length : j < (lines t).length := (List.getElem?_eq_some_iff.mp h.lastLine).1

theorem checkRange_eq : checkRange (lines t) r = .ok () := by
  have hlt := h.lt_length
  have hj := h.endLine
  exact checkRange_of_lt (by omega)

theorem lineAt_startLine : lineAt (lines t) r.startLine = .ok first := by
  rw [h.startLine]
  exact lineAt_natCast h.firstLine

theorem lineAt_endLine : lineAt (lines t) r.endLine = .ok last := by
  rw [h.endLine]
  exact lineAt_natCast h.lastLine

theorem before_eq : Offset.before first r.startColumn = first.take a := by
  rw [h.startColumn, Offset.before_natCast h.start]

theorem onward_eq : Offset.onward last r.endColumn = last.drop b := by
  rw [h.endColumn, Offset.onward_natCast h.stop]

theorem replaceSpan_eq (new : List Text) :
    Offset.replaceSpan (lines t) r.startLine (r.endLine + 1) new =
      (lines t).take i ++ new ++ (lines t).drop (j + 1) := by
  have hle := h.le
  have hlt := h.lt_length
  have hj : r.endLine + 1 = ((j + 1 : Nat) : Int) := by
    have := h.endLine
    omega
  rw [h.startLine, hj, Offset.replaceSpan_natCast (by omega) (by omega)]

/-- The text without the range is made of the lines that the range leaves. -/
theorem cutOut_eq : cutOut t r = unlines (linesWithout t i a j b first last) := by
  have hi : r.startLine.toNat = i := by rw [h.startLine, Int.toNat_natCast]
  have ha : r.startColumn.toNat = a := by rw [h.startColumn, Int.toNat_natCast]
  have hj : r.endLine.toNat = j := by rw [h.endLine, Int.toNat_natCast]
  have hb : r.endColumn.toNat = b := by rw [h.endColumn, Int.toNat_natCast]
  rw [cutOut, hi, ha, hj, hb, (cut_at_offset h.firstLine h.start).1,
    (cut_at_offset h.lastLine h.stop).2, ← unlines_append, linesWithout]

/-- So is the text with nothing in the place of the range. -/
theorem replaceRange_nil :
    replaceRange t r [] = .ok (unlines (linesWithout t i a j b first last)) := by
  have hlt := h.lt_length
  by_cases hline : r.startLine = r.endLine
  · obtain rfl : i = j := by
      have hi := h.startLine
      have hj := h.endLine
      omega
    obtain rfl : first = last := Option.some.inj (h.firstLine.symm.trans h.lastLine)
    rw [replaceRange_within_line h.checkRange_eq h.lineAt_startLine hline, h.before_eq, h.onward_eq,
      h.startLine, setLine_natCast hlt, List.set_eq_take_append_cons_drop, if_pos hlt,
      List.append_nil, linesWithout]
  · have hnothing : wrapLines (first.take a) (last.drop b) (lines []) =
        [first.take a ++ last.drop b] := by
      simp [wrapLines, lines]
    rw [replaceRange_over_lines h.checkRange_eq h.lineAt_startLine h.lineAt_endLine hline,
      h.before_eq, h.onward_eq, hnothing, h.replaceSpan_eq, linesWithout, List.append_assoc,
      List.singleton_append]

/-- No line that is left contains a newline. -/
theorem newline_notMem : ∀ l ∈ linesWithout t i a j b first last, newline ∉ l := by
  have hfirst := newline_notMem_of_mem_lines (List.mem_of_getElem? h.firstLine)
  have hlast := newline_notMem_of_mem_lines (List.mem_of_getElem? h.lastLine)
  intro l hl
  rcases List.mem_append.mp hl with hl | hl
  · exact newline_notMem_of_mem_lines (List.mem_of_mem_take hl)
  rcases List.mem_cons.mp hl with rfl | hl
  · rw [List.mem_append]
    rintro (hnewline | hnewline)
    · exact hfirst (List.mem_of_mem_take hnewline)
    · exact hlast (List.mem_of_mem_drop hnewline)
  · exact newline_notMem_of_mem_lines (List.mem_of_mem_drop hl)

/-- Nothing but blanks is left on the lines of the range. -/
theorem delete_of_blank
    (hblank : Text.isBlank (first.take a) = true ∧ Text.isBlank (last.drop b) = true) :
    ∃ t', deleteRange t r = .ok t' ∧ filledLines t' = filledLines (cutOut t r) ∧
      (BlanksApart (lines t) → BlanksApart (lines t')) := by
  have hlength : r.startLine = (((lines t).take i).length : Nat) := by
    have hle := h.le
    have hlt := h.lt_length
    rw [h.startLine, List.length_take, Nat.min_eq_left (by omega)]
  have hdelete := deleteRange_of_blank h.checkRange_eq h.lineAt_startLine h.lineAt_endLine
    (by rwa [h.before_eq, h.onward_eq])
  rw [h.replaceSpan_eq, List.append_nil, hlength] at hdelete
  -- The lines that stay are lines of the text, so they are read again after joining.
  have hmerged : ∀ l ∈ mergeBlankAt ((lines t).take i ++ (lines t).drop (j + 1))
      ((lines t).take i).length, newline ∉ l := by
    intro l hl
    rcases List.mem_append.mp (mem_of_mem_mergeBlankAt hl) with hl | hl
    · exact newline_notMem_of_mem_lines (List.mem_of_mem_take hl)
    · exact newline_notMem_of_mem_lines (List.mem_of_mem_drop hl)
  have hmiddle : Text.isBlank (first.take a ++ last.drop b) = true := by
    rw [isBlank_append, hblank.1, hblank.2]
    rfl
  refine ⟨_, hdelete, ?_, ?_⟩
  · rw [filledLines_unlines hmerged, h.cutOut_eq, filledLines_unlines h.newline_notMem,
      filled_mergeBlankAt, linesWithout, filled_append, filled_cons_of_blank hmiddle]
  · intro hapart
    exact blanksApart_lines_unlines hmerged
      (blanksApart_mergeBlankAt (hapart.take i) (hapart.drop (j + 1)))

/-- Something that is not blank is left on the lines of the range. -/
theorem delete_of_filled
    (hfilled : ¬ (Text.isBlank (first.take a) = true ∧ Text.isBlank (last.drop b) = true)) :
    ∃ t', deleteRange t r = .ok t' ∧ filledLines t' = filledLines (cutOut t r) ∧
      (BlanksApart (lines t) → BlanksApart (lines t')) := by
  have hdelete := deleteRange_of_filled h.checkRange_eq h.lineAt_startLine h.lineAt_endLine
    (by rwa [h.before_eq, h.onward_eq]) h.replaceRange_nil
  refine ⟨_, hdelete, ?_, ?_⟩
  · rw [filledLines_collapseBlankLines, h.cutOut_eq]
  · intro hapart
    have hmiddle : Text.isBlank (first.take a ++ last.drop b) = false := by
      rw [isBlank_append, Bool.and_eq_false_iff]
      simpa [imp_iff_not_or] using hfilled
    -- Blank lines that are apart leave nothing to collapse.
    have hcut : BlanksApart (lines (unlines (linesWithout t i a j b first last))) :=
      blanksApart_lines_unlines h.newline_notMem
        (BlanksApart.append_filled (hapart.take i) hmiddle (hapart.drop (j + 1)))
    rwa [collapseBlankLines_eq_self hcut]

end Spans

end

/-- Deleting a range inside a text never fails. The lines that are not blank are then those of the
text without the code points of the range, and if no two blank lines followed one another, none do
afterwards. Cutting out the code points between two offsets keeps the same lines. -/
theorem filledLines_delete (t : Text) :
    (∀ r : SourceRange, r.IsWithin t → ∃ t', deleteRange t r = .ok t' ∧
      filledLines t' = filledLines (cutOut t r) ∧
      (BlanksApart (lines t) → BlanksApart (lines t'))) ∧
    ∀ start stop : Int, 0 ≤ start → start ≤ stop → stop ≤ t.length →
      filledLines (spliceSpan t start stop []) =
        filledLines (t.take start.toNat ++ t.drop stop.toNat) := by
  constructor
  · intro r hr
    obtain ⟨i, a, j, b, first, last, h⟩ := exists_spans hr
    by_cases hblank : Text.isBlank (first.take a) = true ∧ Text.isBlank (last.drop b) = true
    · exact h.delete_of_blank hblank
    · exact h.delete_of_filled hblank
  · intro start stop hstart hle hstop
    obtain ⟨i, rfl⟩ := Int.eq_ofNat_of_zero_le hstart
    obtain ⟨j, rfl⟩ := Int.eq_ofNat_of_zero_le (Int.le_trans hstart hle)
    have hcut : Offset.before t (i : Int) ++ Offset.onward t (j : Int) = t.take i ++ t.drop j := by
      rw [Offset.before_natCast (by omega), Offset.onward_natCast (by omega)]
    rw [spliceSpan, if_pos rfl, hcut, filledLines_collapseBlankLines, Int.toNat_natCast,
      Int.toNat_natCast]

/-- A file with a line between blank lines. -/
def apart : Text := "a\n\nf\n\nb\n"

/-- The range of that line. -/
def between : SourceRange := ⟨2, 0, 2, 1, .inr (by decide)⟩

/-- Deleting the line between the blank lines, by its range and by its offsets. -/
theorem filledLines_delete_between :
    between.IsWithin apart ∧ BlanksApart (lines apart) ∧
    (∃ t', deleteRange apart between = .ok t' ∧ filledLines t' = ["a", "b"] ∧
      BlanksApart (lines t')) ∧
    filledLines (spliceSpan apart 3 4 []) = ["a", "b"] := by
  have hwithin : between.IsWithin apart :=
    ⟨by decide, by decide, by decide, ⟨"f", by decide, by decide⟩, ⟨"f", by decide, by decide⟩⟩
  have hapart : BlanksApart (lines apart) := by
    unfold BlanksApart
    decide
  obtain ⟨hrange, hspan⟩ := filledLines_delete apart
  obtain ⟨t', hdelete, hfilled, hkept⟩ := hrange between hwithin
  refine ⟨hwithin, hapart, ⟨t', hdelete, ?_, hkept hapart⟩, ?_⟩
  · rw [hfilled]
    decide
  · rw [hspan 3 4 (by decide) (by decide) (by decide)]
    decide

end Splice

end SymbolAtlas
