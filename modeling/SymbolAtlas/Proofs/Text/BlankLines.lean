import Mathlib.Data.List.Chain
import SymbolAtlas.Edit.Splice
import SymbolAtlas.Proofs.Text.CodeLines

/-!
# Blank lines

`Text.filledLines` are the lines of a text that are not blank, and `Text.BlanksApart` says of some
lines that no two blank ones meet. Collapsing long runs of newlines takes out empty lines only, so
it keeps the filled lines (`filledLines_collapseBlankLines`) and with them the code lines, and it
does nothing where no two blank lines meet (`collapseBlankLines_eq_self`).
-/

namespace SymbolAtlas

namespace Text

/-- The lines that are not blank. -/
def filled (ls : List Text) : List Text := ls.filter fun l => !l.isBlank

/-- The lines of a text that are not blank. -/
def filledLines (t : Text) : List Text := filled (lines t)

/-- No two blank lines follow one another. -/
def BlanksApart (ls : List Text) : Prop :=
  ls.IsChain fun l l' => ¬ (l.isBlank = true ∧ l'.isBlank = true)

/-- Three newlines in a row. -/
def HasLongRun (t : Text) : Prop := [newline, newline, newline] <:+: t

section

variable {l : Text} {ls front rear : List Text}

theorem filled_append (front rear : List Text) :
    filled (front ++ rear) = filled front ++ filled rear := List.filter_append ..

theorem filled_cons_of_blank (h : l.isBlank = true) : filled (l :: ls) = filled ls := by
  simp [filled, h]

@[simp]
theorem isBlank_nil : isBlank [] = true := rfl

theorem isBlank_append (s t : Text) : isBlank (s ++ t) = (isBlank s && isBlank t) :=
  List.all_append

/-- The code lines are the filled lines without the blanks around them. -/
theorem codeLines_eq_map_filledLines (t : Text) : codeLines t = (filledLines t).map trim := by
  rw [codeLines, filledLines, filled, List.filter_map]
  congr 1
  apply List.filter_congr
  intro l _
  show decide (l.trim ≠ []) = !l.isBlank
  cases hl : l.isBlank with
  | true => simp [trim_eq_nil_iff.mpr hl]
  | false =>
    have hne : l.trim ≠ [] := by
      intro hnil
      rw [trim_eq_nil_iff.mp hnil] at hl
      cases hl
    simp [hne]

/-- The filled lines of joined lines are those that were joined. -/
theorem filledLines_unlines (h : ∀ l ∈ ls, newline ∉ l) : filledLines (unlines ls) = filled ls := by
  cases ls with
  | nil => rfl
  | cons l ls => rw [filledLines, lines_unlines (by simp) h]

/-- Blank lines are as far apart in joined lines as in those that were joined. -/
theorem blanksApart_lines_unlines (h : ∀ l ∈ ls, newline ∉ l) (hapart : BlanksApart ls) :
    BlanksApart (lines (unlines ls)) := by
  cases ls with
  | nil => exact List.isChain_singleton _
  | cons l ls => rwa [lines_unlines (by simp) h]

/-- A filled line between lines keeps them apart. -/
theorem BlanksApart.append_filled (hfront : BlanksApart front) (hl : l.isBlank = false)
    (hrear : BlanksApart rear) : BlanksApart (front ++ l :: rear) := by
  refine List.IsChain.append hfront (hrear.cons ?_) ?_
  · simp [hl]
  · simp [hl]

/-- A code point that is no newline keeps the newlines before it from those behind it. -/
theorem hasLongRun_append_cons {c : CodePoint} {run : Nat} (hrun : run ≤ 2) (hc : c ≠ newline)
    (t : Text) : HasLongRun (List.replicate run newline ++ c :: t) ↔ HasLongRun t := by
  have hcases : run = 0 ∨ run = 1 ∨ run = 2 := by omega
  unfold HasLongRun
  rcases hcases with rfl | rfl | rfl <;>
    simp [List.replicate_succ, List.infix_cons_iff, Ne.symm hc]

end

end Text

namespace Splice

open Text

/-! ## Runs of newlines -/

section

variable {run : Nat} {t : Text}

theorem collapseAfter_newline_of_lt (h : run < 2) :
    collapseAfter run (newline :: t) = newline :: collapseAfter (run + 1) t := by
  rw [collapseAfter, if_pos rfl, if_neg (by omega)]

theorem collapseAfter_newline_of_le (h : 2 ≤ run) :
    collapseAfter run (newline :: t) = collapseAfter run t := by
  rw [collapseAfter, if_pos rfl, if_pos h]

theorem collapseAfter_cons_of_ne {c : CodePoint} (h : c ≠ newline) :
    collapseAfter run (c :: t) = c :: collapseAfter 0 t := by
  rw [collapseAfter, if_neg h]

end

/-- Collapsing keeps all lines of a kind that an empty line is not of. It keeps the first line too,
unless a long run of newlines comes before it. -/
theorem filter_lines_collapseAfter {p : Text → Bool} (hp : p [] = false) (t : Text) : ∀ run,
    (run < 2 → ∀ first rear, lines t = first :: rear →
      ∃ rear', lines (collapseAfter run t) = first :: rear' ∧ rear'.filter p = rear.filter p) ∧
    (lines (collapseAfter run t)).filter p = (lines t).filter p := by
  induction t with
  | nil =>
    intro run
    exact ⟨fun _ first rear h => ⟨rear, h, rfl⟩, rfl⟩
  | cons c t ih =>
    intro run
    by_cases hc : c = newline
    · subst hc
      -- The newline ends an empty line, which does not count whether it is kept or not.
      have hdrop : ∀ s : Text, (lines (newline :: s)).filter p = (lines s).filter p := by
        intro s
        rw [lines_cons_newline, List.filter_cons_of_neg (by simp [hp])]
      by_cases hrun : run < 2
      · obtain ⟨-, hrest⟩ := ih (run + 1)
        rw [collapseAfter_newline_of_lt hrun]
        constructor
        · intro _ first rear h
          rw [lines_cons_newline] at h ⊢
          obtain ⟨rfl, rfl⟩ := List.cons.inj h
          exact ⟨_, rfl, hrest⟩
        · rw [hdrop, hdrop, hrest]
      · obtain ⟨-, hrest⟩ := ih run
        rw [collapseAfter_newline_of_le (by omega)]
        exact ⟨fun h => absurd h hrun, hrest.trans (hdrop t).symm⟩
    · obtain ⟨first, rear, ht⟩ := lines_eq_cons t
      obtain ⟨hkeep, -⟩ := ih 0
      obtain ⟨rear', hrear', hkept⟩ := hkeep (by omega) first rear ht
      rw [collapseAfter_cons_of_ne hc, lines_cons_of_ne hc ht, lines_cons_of_ne hc hrear']
      refine ⟨?_, by rw [List.filter_cons, List.filter_cons, hkept]⟩
      intro _ first' rear'' h
      obtain ⟨rfl, rfl⟩ := List.cons.inj h
      exact ⟨rear', rfl, hkept⟩

theorem filter_lines_collapseBlankLines {p : Text → Bool} (hp : p [] = false) (t : Text) :
    (lines (collapseBlankLines t)).filter p = (lines t).filter p :=
  (filter_lines_collapseAfter hp t 0).2

theorem filledLines_collapseBlankLines (t : Text) :
    filledLines (collapseBlankLines t) = filledLines t :=
  filter_lines_collapseBlankLines rfl t

theorem codeLines_collapseBlankLines (t : Text) :
    codeLines (collapseBlankLines t) = codeLines t := by
  rw [codeLines_eq_map_filledLines, filledLines_collapseBlankLines,
    ← codeLines_eq_map_filledLines]

/-! ## What collapsing leaves as it is -/

section

variable {run : Nat} {t : Text}

/-- Collapsing again with as many newlines before the text changes nothing. -/
theorem collapseAfter_collapseAfter (t : Text) (run : Nat) :
    collapseAfter run (collapseAfter run t) = collapseAfter run t := by
  induction t generalizing run with
  | nil => rfl
  | cons c t ih =>
    by_cases hc : c = newline
    · subst hc
      by_cases hrun : run < 2
      · rw [collapseAfter_newline_of_lt hrun, collapseAfter_newline_of_lt hrun, ih]
      · rw [collapseAfter_newline_of_le (by omega), ih]
    · rw [collapseAfter_cons_of_ne hc, collapseAfter_cons_of_ne hc, ih]

/-- Collapsing only takes code points out. -/
theorem collapseAfter_sublist (t : Text) (run : Nat) : (collapseAfter run t).Sublist t := by
  induction t generalizing run with
  | nil => exact .slnil
  | cons c t ih =>
    by_cases hc : c = newline
    · subst hc
      by_cases hrun : run < 2
      · rw [collapseAfter_newline_of_lt hrun]
        exact (ih (run + 1)).cons_cons newline
      · rw [collapseAfter_newline_of_le (by omega)]
        exact (ih run).cons newline
    · rw [collapseAfter_cons_of_ne hc]
      exact (ih 0).cons_cons c

/-- A text stays as it is exactly if, with the newlines before it, it has no three in a row. -/
theorem collapseAfter_eq_self_iff (hrun : run ≤ 2) :
    collapseAfter run t = t ↔ ¬ HasLongRun (List.replicate run newline ++ t) := by
  induction t generalizing run with
  | nil =>
    refine iff_of_true rfl ?_
    intro hlong
    have hlength := hlong.length_le
    simp only [List.append_nil, List.length_replicate, List.length_cons, List.length_nil] at hlength
    omega
  | cons c t ih =>
    by_cases hc : c = newline
    · subst hc
      by_cases hlt : run < 2
      · rw [collapseAfter_newline_of_lt hlt, List.cons_inj_right, ih (by omega),
          List.replicate_succ', List.append_assoc, List.singleton_append]
      · -- The third newline is dropped.
        obtain rfl : run = 2 := by omega
        rw [collapseAfter_newline_of_le (Nat.le_refl 2)]
        refine iff_of_false ?_ ?_
        · intro hself
          have hlength := (collapseAfter_sublist t 2).length_le
          rw [hself, List.length_cons] at hlength
          omega
        · exact not_not.mpr (List.prefix_append [newline, newline, newline] t).isInfix
    · rw [collapseAfter_cons_of_ne hc, List.cons_inj_right, ih (Nat.zero_le 2),
        hasLongRun_append_cons hrun hc, List.replicate_zero, List.nil_append]

theorem collapseBlankLines_idem (t : Text) :
    collapseBlankLines (collapseBlankLines t) = collapseBlankLines t :=
  collapseAfter_collapseAfter t 0

theorem collapseBlankLines_eq_self_iff : collapseBlankLines t = t ↔ ¬ HasLongRun t :=
  collapseAfter_eq_self_iff (Nat.zero_le 2)

/-- Where no two blank lines meet there are no three newlines in a row. -/
theorem collapseBlankLines_eq_self (h : BlanksApart (lines t)) : collapseBlankLines t = t := by
  rw [collapseBlankLines_eq_self_iff]
  rintro ⟨s, u, rfl⟩
  obtain ⟨front, hs, -⟩ := lines_eq_concat s
  have hlines : lines (s ++ [newline, newline, newline] ++ u) =
      front ++ lastLine s :: [] :: [] :: lines u := by
    rw [List.append_assoc]
    simpa [lines_cons_newline] using lines_append hs (lines_cons_newline (newline :: newline :: u))
  rw [hlines, List.append_cons, BlanksApart, List.isChain_append_cons_cons] at h
  exact h.2.1 ⟨rfl, rfl⟩

end

end Splice

end SymbolAtlas
