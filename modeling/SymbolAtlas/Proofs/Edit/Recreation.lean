import SymbolAtlas.Proofs.Edit.Exchange
import SymbolAtlas.Proofs.Text.BlankLines

/-!
# Functions that are deleted and created again

Deleting a function by its header takes the code lines of the function out of the file and no other
ones: the newlines that collapse stand between blank lines. Creating it again puts its code lines
behind those that are left, unless another function of the name was left behind the first. Then
that one is replaced, and ink is lost (`EditSite.put_byHeader_recreated`).
-/

namespace SymbolAtlas.EditSite

open Text (codeLines ink)

variable {t name content : Text} {start stop : Nat}

/-- A new symbol is put behind all code lines of a file. -/
theorem codeLines_appendTopLevel_eq (t content : Text) :
    codeLines (Splice.appendTopLevel t content) = codeLines t ++ codeLines content := by
  cases hblank : t.isBlank with
  | false => exact codeLines_appendTopLevel hblank
  | true =>
    have hnone : codeLines t = [] := by
      rw [← Text.codeLines_trim, Text.trim_eq_nil_iff.mpr hblank, Text.codeLines_nil]
    rw [Splice.appendTopLevel, if_pos hblank, Text.codeLines_trim, hnone, List.nil_append]

/-- Deleting a function takes out its code lines. -/
theorem codeLines_byHeaderText_nil
    (h : Header.functionSpan? t name = some (start, stop)) :
    codeLines (byHeaderText t name []) =
      codeLines (Offset.before t start) ++ codeLines (Offset.onward t stop) := by
  obtain ⟨front, body, behind, rfl, rfl, rfl, hfront, -⟩ := exists_exact_of_functionSpan? h
  have hcut : byHeaderText (front ++ body ++ behind) name [] =
      Splice.collapseBlankLines (front ++ behind) := by
    unfold byHeaderText
    rw [h]
    show Splice.spliceSpan _ _ _ [] = _
    rw [Splice.spliceSpan, if_pos rfl, Offset.onward_append, List.append_assoc front body,
      Offset.before_append]
  rw [hcut, Splice.codeLines_collapseBlankLines, Text.codeLines_append_of_endsLine hfront.endsLine,
    Offset.onward_append, List.append_assoc front body, Offset.before_append]

/-- An edit puts a content behind all code lines of a file where no function is found. One that is
found is replaced, and its ink is lost. -/
theorem codeLines_byHeaderText_eq_append_iff (hcontent : content ≠ []) :
    codeLines (byHeaderText t name content) = codeLines t ++ codeLines content ↔
      Header.functionSpan? t name = none := by
  constructor
  · intro hlines
    cases hspan : Header.functionSpan? t name with
    | none => rfl
    | some span =>
      exfalso
      obtain ⟨start, stop⟩ := span
      obtain ⟨front, inner, behind, rfl, rfl, rfl⟩ := Header.functionSpan?_eq_append hspan
      have hput : byHeaderText (front ++ (inner ++ [CodePoint.ofChar '\x7d']) ++ behind) name
          content = front ++ content ++ behind := by
        unfold byHeaderText
        rw [hspan]
        exact spliceSpan_append hcontent
      -- The texts would have the same ink, but the brace of the body is gone.
      have hink := congrArg (List.flatMap ink) hlines
      rw [List.flatMap_append, Text.flatMap_ink_codeLines, Text.flatMap_ink_codeLines,
        Text.flatMap_ink_codeLines, hput] at hink
      have hbrace : ink [CodePoint.ofChar '\x7d'] = [CodePoint.ofChar '\x7d'] := by decide
      have hlength := congrArg List.length hink
      simp only [Text.ink_append, hbrace, List.length_append, List.length_singleton] at hlength
      omega
  · intro hspan
    unfold byHeaderText
    rw [hspan]
    exact codeLines_appendTopLevel_eq t content

/-- A function that is deleted and created again stands behind the code that was before it and the
code that was behind it, and all of this code is kept. That is so if no header of the name is left
when the function is deleted, and exactly if no function is found then. -/
theorem put_byHeader_recreated (h : Header.functionSpan? t name = some (start, stop)) :
    ∃ cut again : Text,
      (byHeader t name).put t [] = .ok cut ∧
      (byHeader cut name).put cut (Offset.span t start stop) = .ok again ∧
      codeLines cut = codeLines (Offset.before t start) ++ codeLines (Offset.onward t stop) ∧
      (Header.Absent name cut →
        codeLines again = codeLines (Offset.before t start) ++ codeLines (Offset.onward t stop) ++
          codeLines (Offset.span t start stop)) ∧
      (codeLines again = codeLines (Offset.before t start) ++ codeLines (Offset.onward t stop) ++
          codeLines (Offset.span t start stop) ↔
        Header.functionSpan? cut name = none) := by
  have hcut := codeLines_byHeaderText_nil h
  have hspan : Offset.span t start stop ≠ [] := by
    obtain ⟨front, body, behind, rfl, rfl, rfl, -, hbody⟩ := exists_exact_of_functionSpan? h
    rw [span_append]
    exact hbody.ne_nil
  have hagain : codeLines (byHeaderText (byHeaderText t name []) name (Offset.span t start stop)) =
      codeLines (byHeaderText t name []) ++ codeLines (Offset.span t start stop) ↔
        Header.functionSpan? (byHeaderText t name []) name = none :=
    codeLines_byHeaderText_eq_append_iff hspan
  rw [hcut] at hagain
  refine ⟨_, _, put_byHeader t name [], put_byHeader _ name _, hcut, ?_, hagain⟩
  intro habsent
  apply hagain.mpr
  rw [Header.functionSpan?_eq, Header.absent_iff.mp habsent, Option.bind_none]

namespace Between

/-- A function between statements, with empty lines around it. -/
def text : Text :=
  Text.unlines ["a();", "", "", "function f() \x7b", "  b();", "\x7d", "", "", " c();", ""]

end Between

/-- A function between statements goes to the end. -/
theorem put_byHeader_recreated_between :
    Header.functionSpan? Between.text "f" = some (7, 30) ∧
    ∃ cut again : Text,
      (byHeader Between.text "f").put Between.text [] = .ok cut ∧
      (byHeader cut "f").put cut (Offset.span Between.text 7 30) = .ok again ∧
      codeLines again = ["a();", "c();", "function f() \x7b", "b();", "\x7d"] := by
  have hspan : Header.functionSpan? Between.text "f" = some (7, 30) := by decide
  obtain ⟨cut, again, hcut, hagain, -, -, hlines⟩ := put_byHeader_recreated hspan
  refine ⟨hspan, cut, again, hcut, hagain, ?_⟩
  have hnone : Header.functionSpan? cut "f" = none := by
    rw [put_byHeader] at hcut
    obtain rfl := Except.ok.inj hcut
    decide
  rw [hlines.mpr hnone]
  decide

end SymbolAtlas.EditSite
