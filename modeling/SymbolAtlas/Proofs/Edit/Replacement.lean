import SymbolAtlas.Edit.Splice
import SymbolAtlas.Proofs.Text.Lines

/-!
# Replacing a stretch of a text

`Splice.replaceRange` works on lines and columns. `replaceRange_eq_append` says what it does to the
text: where a range runs from the end of `u` to the end of `u ++ m`, replacing it in `u ++ m ++ v`
puts the new text in place of `m`, on one line or on many, and never fails.
-/

namespace SymbolAtlas

/-- The range starts where `u` ends and ends where `w` ends. -/
structure SourceRange.RunsBetween (r : SourceRange) (u w : Text) : Prop where
  startLine : r.startLine = u.endRow
  startColumn : r.startColumn = u.endColumn
  endLine : r.endLine = w.endRow
  endColumn : r.endColumn = w.endColumn

/-! ## Offsets that count from the start -/

namespace Offset

variable {α : Type} {xs new : List α} {i j : Nat}

theorem before_natCast (h : i ≤ xs.length) : before xs i = xs.take i := by
  rw [before, cut_natCast, Nat.min_eq_left h]

theorem onward_natCast (h : i ≤ xs.length) : onward xs i = xs.drop i := by
  rw [onward, cut_natCast, Nat.min_eq_left h]

theorem span_natCast (hi : i ≤ xs.length) (hj : j ≤ xs.length) :
    span xs i j = (xs.take j).drop i := by
  rw [span, cut_natCast, cut_natCast, Nat.min_eq_left hi, Nat.min_eq_left hj]

theorem replaceSpan_natCast (hij : i ≤ j) (hj : j ≤ xs.length) :
    replaceSpan xs i j new = xs.take i ++ new ++ xs.drop j := by
  rw [replaceSpan, cut_natCast, cut_natCast, Nat.min_eq_left hj,
    Nat.min_eq_left (Nat.le_trans hij hj), Nat.max_eq_right hij]

end Offset

namespace Splice

theorem lineAt_natCast {ls : List Text} {i : Nat} {l : Text} (h : ls[i]? = some l) :
    lineAt ls i = .ok l := by
  simp [lineAt, h]

theorem setLine_natCast {ls : List Text} {i : Nat} (h : i < ls.length) (new : Text) :
    setLine ls i new = ls.set i new := by
  have h0 : ¬ (i : Int) < 0 := by omega
  have h1 : 0 ≤ (i : Int) ∧ (i : Int) < ls.length := by omega
  simp [setLine, Offset.index?, h0, h]

theorem checkRange_of_lt {ls : List Text} {r : SourceRange} (h : r.endLine < ls.length) :
    checkRange ls r = .ok () := by
  have : ¬ (ls.length : Int) ≤ r.endLine := by omega
  simp [checkRange, this]

/-! ## The two ways to replace -/

section

variable {t new first last : Text} {r : SourceRange}

theorem replaceRange_within_line (hcheck : checkRange (Text.lines t) r = .ok ())
    (hfirst : lineAt (Text.lines t) r.startLine = .ok first) (h : r.startLine = r.endLine) :
    replaceRange t r new = .ok (Text.unlines (setLine (Text.lines t) r.startLine
      (Offset.before first r.startColumn ++ new ++ Offset.onward first r.endColumn))) := by
  simp only [replaceRange, hcheck, hfirst, if_pos h, bind, Except.bind, pure, Except.pure]

theorem replaceRange_over_lines (hcheck : checkRange (Text.lines t) r = .ok ())
    (hfirst : lineAt (Text.lines t) r.startLine = .ok first)
    (hlast : lineAt (Text.lines t) r.endLine = .ok last) (h : r.startLine ≠ r.endLine) :
    replaceRange t r new = .ok (Text.unlines (Offset.replaceSpan (Text.lines t) r.startLine
      (r.endLine + 1) (wrapLines (Offset.before first r.startColumn)
        (Offset.onward last r.endColumn) (Text.lines new)))) := by
  simp only [replaceRange, hcheck, hfirst, hlast, if_neg h, bind, Except.bind, pure, Except.pure]

end

/-- The lines of a text with another before and one behind it, as `wrapLines` joins them. -/
theorem lines_append_append {u new v : Text} {front rear : List Text} {last first : Text}
    (hu : Text.lines u = front ++ [last]) (hv : Text.lines v = first :: rear) :
    Text.lines (u ++ new ++ v) = front ++ wrapLines last first (Text.lines new) ++ rear := by
  obtain ⟨n, ns, hn⟩ := Text.lines_eq_cons new
  have hun : Text.lines (u ++ new) = front ++ (last ++ n) :: ns := Text.lines_append hu hn
  have hsplit : (last ++ n) :: ns =
      ((last ++ n) :: ns).dropLast ++ [((last ++ n) :: ns).getLast (by simp)] :=
    (List.dropLast_concat_getLast (by simp)).symm
  rw [hsplit, ← List.append_assoc] at hun
  rw [Text.lines_append hun hv, hn]
  simp [wrapLines]

section

variable {u m v new m₀ first : Text} {front ms rear : List Text} {r : SourceRange}

/-- Replacing a stretch that stands on one line. -/
theorem replaceRange_of_line (hr : r.RunsBetween u (u ++ m))
    (hu : Text.lines u = front ++ [u.lastLine]) (hstart : r.startLine = front.length)
    (hm : Text.lines m = [m.lastLine]) (hv : Text.lines v = first :: rear) :
    replaceRange (u ++ m ++ v) r new = .ok (u ++ new ++ v) := by
  have hum : Text.lines (u ++ m) = front ++ [u.lastLine ++ m.lastLine] := Text.lines_append hu hm
  have hall : Text.lines (u ++ m ++ v) = front ++ (u.lastLine ++ m.lastLine ++ first) :: rear :=
    Text.lines_append hum hv
  obtain ⟨hlast, hend⟩ := Text.last_of_lines hum
  have hendLine : r.endLine = front.length := by rw [hr.endLine, hend]
  have hcount : front.length < (Text.lines (u ++ m ++ v)).length := by
    rw [hall, List.length_append, List.length_cons]
    omega
  have hcheck : checkRange (Text.lines (u ++ m ++ v)) r = .ok () :=
    checkRange_of_lt (by rw [hendLine]; omega)
  have hline : lineAt (Text.lines (u ++ m ++ v)) r.startLine =
      .ok (u.lastLine ++ m.lastLine ++ first) := by
    rw [hstart, hall]
    exact lineAt_natCast (by simp)
  have hbefore :
      Offset.before (u.lastLine ++ m.lastLine ++ first) r.startColumn = u.lastLine := by
    rw [hr.startColumn, List.append_assoc]
    exact Offset.before_append ..
  have honward : Offset.onward (u.lastLine ++ m.lastLine ++ first) r.endColumn = first := by
    rw [hr.endColumn, Text.endColumn, hlast]
    exact Offset.onward_append ..
  rw [replaceRange_within_line hcheck hline (hstart.trans hendLine.symm), hbefore, honward,
    hstart, setLine_natCast hcount, hall]
  have hset : (front ++ (u.lastLine ++ m.lastLine ++ first) :: rear).set front.length
      (u.lastLine ++ new ++ first) = front ++ (u.lastLine ++ (new ++ first)) :: rear := by simp
  rw [hset, Text.unlines_append, ← hu, Text.unlines_lines]
  have hnewv := Text.unlines_append [] rear new first
  rw [List.nil_append, List.nil_append, ← hv, Text.unlines_lines, Text.unlines_singleton] at hnewv
  rw [hnewv, List.append_assoc]

/-- Replacing a stretch that ends on a later line than it starts on. -/
theorem replaceRange_of_lines (hr : r.RunsBetween u (u ++ m))
    (hu : Text.lines u = front ++ [u.lastLine]) (hstart : r.startLine = front.length)
    (hm : Text.lines m = m₀ :: (ms ++ [m.lastLine])) (hv : Text.lines v = first :: rear) :
    replaceRange (u ++ m ++ v) r new = .ok (u ++ new ++ v) := by
  have hum : Text.lines (u ++ m) = front ++ (u.lastLine ++ m₀) :: ms ++ [m.lastLine] := by
    simpa using Text.lines_append hu hm
  have hall : Text.lines (u ++ m ++ v) =
      front ++ ((u.lastLine ++ m₀) :: ms ++ [m.lastLine ++ first]) ++ rear := by
    simpa using Text.lines_append hum hv
  obtain ⟨hlast, hend⟩ := Text.last_of_lines hum
  have hendLine : r.endLine = ((front ++ (u.lastLine ++ m₀) :: ms).length : Nat) := by
    rw [hr.endLine, hend]
  have hlength : (front ++ (u.lastLine ++ m₀) :: ms).length = front.length + (ms.length + 1) := by
    rw [List.length_append, List.length_cons]
  have hcheck : checkRange (Text.lines (u ++ m ++ v)) r = .ok () := by
    refine checkRange_of_lt ?_
    rw [hendLine, hlength, hall]
    simp only [List.length_append, List.length_cons, List.length_nil]
    omega
  have hfirst : lineAt (Text.lines (u ++ m ++ v)) r.startLine = .ok (u.lastLine ++ m₀) := by
    rw [hstart, hall]
    exact lineAt_natCast (by simp)
  have hlastLine : lineAt (Text.lines (u ++ m ++ v)) r.endLine = .ok (m.lastLine ++ first) := by
    rw [hendLine, hall]
    exact lineAt_natCast (by simp)
  have hbefore : Offset.before (u.lastLine ++ m₀) r.startColumn = u.lastLine := by
    rw [hr.startColumn]
    exact Offset.before_append ..
  have honward : Offset.onward (m.lastLine ++ first) r.endColumn = first := by
    rw [hr.endColumn, Text.endColumn, hlast]
    exact Offset.onward_append ..
  rw [replaceRange_over_lines hcheck hfirst hlastLine (by omega), hbefore, honward, hall,
    Offset.replaceSpan_append hstart ?_, ← lines_append_append hu hv, Text.unlines_lines]
  simp only [hendLine, hlength, List.length_append, List.length_cons, List.length_nil]
  omega

/-- Replacing a stretch of a text puts the new text in its place. -/
theorem replaceRange_eq_append (hr : r.RunsBetween u (u ++ m)) :
    replaceRange (u ++ m ++ v) r new = .ok (u ++ new ++ v) := by
  obtain ⟨front, hu, hrow⟩ := Text.lines_eq_concat u
  obtain ⟨middle, hm, -⟩ := Text.lines_eq_concat m
  obtain ⟨first, rear, hv⟩ := Text.lines_eq_cons v
  have hstart : r.startLine = front.length := by rw [hr.startLine, hrow]
  cases middle with
  | nil => exact replaceRange_of_line hr hu hstart hm hv
  | cons m₀ ms => exact replaceRange_of_lines hr hu hstart hm hv

end

end Splice

end SymbolAtlas
