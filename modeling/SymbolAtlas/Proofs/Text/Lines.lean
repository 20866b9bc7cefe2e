import Mathlib.Data.List.Induction
import SymbolAtlas.Text.Basic

/-!
# Lines of a text put together

Cutting two lists that stand one after the other cuts each of them and joins the last part of the
first to the first part of the second (`separate_append`). From it come the lines of a text that is
put together from pieces, and the place at which a piece ends: `Text.endRow` and `Text.endColumn`
count the lines and the code points that come before it.
-/

namespace SymbolAtlas.Text

section Separate

variable {α : Type} [DecidableEq α] {sep : α}

theorem separate_eq_singleton {xs : List α} (h : sep ∉ xs) : separate sep xs = [xs] := by
  induction xs with
  | nil => rfl
  | cons x xs ih =>
    simp only [List.mem_cons, not_or] at h
    rw [separate_cons_of_ne (Ne.symm h.1), ih h.2]
    rfl

/-- The last part of the first list and the first part of the second become one. -/
theorem separate_append {xs ys : List α} {front rear : List (List α)} {last first : List α}
    (hx : separate sep xs = front ++ [last]) (hy : separate sep ys = first :: rear) :
    separate sep (xs ++ ys) = front ++ (last ++ first) :: rear := by
  induction xs generalizing front last with
  | nil =>
    have h : [[]] = front ++ [last] := hx
    cases front with
    | nil =>
      obtain rfl : [] = last := by simpa using h
      simpa using hy
    | cons p ps =>
      have := congrArg List.length h
      simp at this
  | cons x xs ih =>
    by_cases hsep : x = sep
    · subst hsep
      rw [separate_cons_sep] at hx
      cases front with
      | nil =>
        have : separate x xs = [] := by
          have := congrArg List.tail hx
          simpa using this
        exact absurd this (separate_ne_nil xs)
      | cons p ps =>
        simp only [List.cons_append, List.cons.injEq] at hx
        rw [List.cons_append, separate_cons_sep, ih hx.2, ← hx.1]
        rfl
    · rw [separate_cons_of_ne hsep] at hx
      cases hp : separate sep xs with
      | nil => exact absurd hp (separate_ne_nil xs)
      | cons p ps =>
        rw [hp] at hx
        rw [List.cons_append, separate_cons_of_ne hsep]
        -- `x` belongs to the first part, which is the last one if there is no other.
        cases front with
        | nil =>
          simp only [consFirst, List.nil_append, List.cons.injEq] at hx
          obtain ⟨rfl, rfl⟩ := hx
          have hparts : separate sep xs = [] ++ [p] := hp
          rw [ih hparts]
          rfl
        | cons q qs =>
          simp only [consFirst, List.cons_append, List.cons.injEq] at hx
          obtain ⟨rfl, rfl⟩ := hx
          have hparts : separate sep xs = p :: qs ++ [last] := hp
          rw [ih hparts]
          rfl

/-- No part contains a separator. -/
theorem notMem_of_mem_separate {xs part : List α} (h : part ∈ separate sep xs) : sep ∉ part := by
  induction xs generalizing part with
  | nil =>
    obtain rfl : part = [] := by simpa using h
    simp
  | cons x xs ih =>
    by_cases hx : x = sep
    · subst hx
      rw [separate_cons_sep] at h
      rcases List.mem_cons.mp h with rfl | h
      · simp
      · exact ih h
    · have hparts : separate sep xs ≠ [] := separate_ne_nil xs
      obtain ⟨first, rear, hxs⟩ := List.exists_cons_of_ne_nil hparts
      rw [hxs] at ih
      rw [separate_cons_of_ne hx, hxs] at h
      rcases List.mem_cons.mp h with rfl | h
      · have hfirst := ih (List.mem_cons_self (a := first))
        simpa [hfirst] using Ne.symm hx
      · exact ih (List.mem_cons_of_mem _ h)

/-- Parts that are joined are found again. -/
theorem separate_intercalate {parts : List (List α)} (hne : parts ≠ [])
    (h : ∀ part ∈ parts, sep ∉ part) : separate sep ([sep].intercalate parts) = parts := by
  induction parts with
  | nil => exact absurd rfl hne
  | cons part parts ih =>
    have hpart : separate sep part = [] ++ [part] := separate_eq_singleton (h part (by simp))
    cases parts with
    | nil => simpa [List.intercalate] using hpart
    | cons next parts =>
      have hrest := ih (by simp) fun p hp => h p (List.mem_cons_of_mem part hp)
      have hjoin : [sep].intercalate (part :: next :: parts) =
          part ++ sep :: [sep].intercalate (next :: parts) := by
        simp [List.intercalate]
      rw [hjoin, separate_append hpart (separate_cons_sep _), hrest]
      simp

/-- What follows the last separator of a list. -/
def lastPart (sep : α) (xs : List α) : List α := (xs.reverse.takeWhile (· ≠ sep)).reverse

/-- The last part comes after as many others as there are separators. -/
theorem separate_eq_concat (sep : α) (xs : List α) :
    ∃ front, separate sep xs = front ++ [lastPart sep xs] ∧ front.length = xs.count sep := by
  induction xs using List.reverseRecOn with
  | nil => exact ⟨[], rfl, rfl⟩
  | append_singleton xs x ih =>
    obtain ⟨front, hfront, hlen⟩ := ih
    by_cases h : x = sep
    · subst h
      refine ⟨front ++ [lastPart x xs], ?_, by simp [hlen]⟩
      rw [separate_append hfront (separate_cons_sep [])]
      simp [lastPart]
    · refine ⟨front, ?_, by simp [hlen, h]⟩
      rw [separate_append hfront (separate_eq_singleton (by simpa using Ne.symm h))]
      simp [lastPart, h]

end Separate

/-! ## Places in a text -/

/-- The number of lines before the last one of a text. -/
def endRow (t : Text) : Nat := t.count newline

/-- The last line of a text. -/
def lastLine (t : Text) : Text := lastPart newline t

/-- The number of code points on the last line of a text. -/
def endColumn (t : Text) : Nat := (lastLine t).length

theorem lines_eq_concat (t : Text) :
    ∃ front, lines t = front ++ [lastLine t] ∧ front.length = endRow t :=
  separate_eq_concat newline t

/-- The last line and the number of lines before it are read off the lines. -/
theorem last_of_lines {t : Text} {front : List Text} {last : Text}
    (h : lines t = front ++ [last]) : lastLine t = last ∧ endRow t = front.length := by
  obtain ⟨front', h', hlen⟩ := lines_eq_concat t
  obtain ⟨rfl, hlast⟩ := List.append_inj' (h.symm.trans h') rfl
  simp only [List.cons.injEq, and_true] at hlast
  exact ⟨hlast.symm, hlen.symm⟩

theorem lines_eq_cons (t : Text) : ∃ first rear, lines t = first :: rear :=
  List.exists_cons_of_ne_nil (lines_ne_nil t)

theorem lines_cons_newline (t : Text) : lines (newline :: t) = [] :: lines t := separate_cons_sep t

theorem lines_cons_of_ne {c : CodePoint} (hc : c ≠ newline) {t first : Text} {rear : List Text}
    (ht : lines t = first :: rear) : lines (c :: t) = (c :: first) :: rear := by
  unfold lines at ht ⊢
  rw [separate_cons_of_ne hc, ht]
  rfl

theorem lines_append {s t : Text} {front rear : List Text} {last first : Text}
    (hs : lines s = front ++ [last]) (ht : lines t = first :: rear) :
    lines (s ++ t) = front ++ (last ++ first) :: rear :=
  separate_append hs ht

theorem endRow_append (s t : Text) : endRow (s ++ t) = endRow s + endRow t := List.count_append

theorem lastLine_append {s t : Text} (h : endRow t = 0) : lastLine (s ++ t) = lastLine s ++ t := by
  obtain ⟨front, hs, -⟩ := lines_eq_concat s
  have ht : lines t = [t] := separate_eq_singleton (List.count_eq_zero.mp h)
  exact (last_of_lines (lines_append hs ht)).1

/-- A text that goes on does not end before the place where it was cut. -/
theorem place_le_append (s t : Text) :
    endRow s < endRow (s ++ t) ∨
      (endRow s = endRow (s ++ t) ∧ endColumn s ≤ endColumn (s ++ t)) := by
  rw [endRow_append]
  by_cases h : endRow t = 0
  · refine .inr ⟨by omega, ?_⟩
    rw [endColumn, endColumn, lastLine_append h, List.length_append]
    omega
  · exact .inl (by omega)

/-! ## Joining lines -/

@[simp]
theorem unlines_singleton (l : Text) : unlines [l] = l := by
  simp [unlines, List.intercalate]

theorem unlines_cons_cons (l l' : Text) (ls : List Text) :
    unlines (l :: l' :: ls) = l ++ newline :: unlines (l' :: ls) := by
  simp [unlines, List.intercalate]

theorem unlines_cons_of_ne_nil {ls : List Text} (h : ls ≠ []) (l : Text) :
    unlines (l :: ls) = l ++ newline :: unlines ls := by
  obtain ⟨l', ls', rfl⟩ := List.exists_cons_of_ne_nil h
  exact unlines_cons_cons l l' ls'

/-- Joined lines may be cut inside a line. -/
theorem unlines_append (front rear : List Text) (s t : Text) :
    unlines (front ++ (s ++ t) :: rear) = unlines (front ++ [s]) ++ unlines (t :: rear) := by
  induction front with
  | nil =>
    cases rear with
    | nil => simp
    | cons l ls => simp [unlines_cons_cons]
  | cons l ls ih =>
    cases ls with
    | nil => simpa [unlines_cons_cons] using ih
    | cons l' ls => simpa [unlines_cons_cons] using ih

/-- Some lines joined with the lines behind them. -/
theorem unlines_append_of_ne_nil {front : List Text} (h : front ≠ []) (rear : List Text) :
    unlines (front ++ rear) = unlines front ++ unlines ([] :: rear) := by
  have hcut := unlines_append front.dropLast rear (front.getLast h) []
  rwa [List.append_nil, List.dropLast_concat_getLast, List.append_cons,
    List.dropLast_concat_getLast] at hcut

/-- No line of a text contains a newline. -/
theorem newline_notMem_of_mem_lines {t l : Text} (h : l ∈ lines t) : newline ∉ l :=
  notMem_of_mem_separate h

/-- Lines that are joined are read again. -/
theorem lines_unlines {ls : List Text} (hne : ls ≠ []) (h : ∀ l ∈ ls, newline ∉ l) :
    lines (unlines ls) = ls :=
  separate_intercalate hne h

/-! ## Offsets -/

/-- The number of code points before a place of a text, given by its row and column. -/
def offset (t : Text) (row column : Nat) : Nat :=
  (((lines t).take row).flatMap fun l => l ++ [newline]).length + column

/-- In joined lines every line but the last is followed by a newline. -/
theorem unlines_concat (front : List Text) (s : Text) :
    unlines (front ++ [s]) = (front.flatMap fun l => l ++ [newline]) ++ s := by
  induction front with
  | nil => simp
  | cons l ls ih =>
    rw [List.cons_append, unlines_cons_of_ne_nil (by simp), ih, List.flatMap_cons]
    simp

/-- A text is cut at a place by cutting the line of the place. -/
theorem cut_at_offset {t line : Text} {row column : Nat} (h : (lines t)[row]? = some line)
    (hcolumn : column ≤ line.length) :
    t.take (offset t row column) = unlines ((lines t).take row ++ [line.take column]) ∧
      t.drop (offset t row column) = unlines (line.drop column :: (lines t).drop (row + 1)) := by
  obtain ⟨hrow, hline⟩ := List.getElem?_eq_some_iff.mp h
  have hlines : lines t = (lines t).take row ++ line :: (lines t).drop (row + 1) := by
    rw [← hline, ← List.drop_eq_getElem_cons hrow, List.take_append_drop]
  have ht : t = unlines ((lines t).take row ++ [line.take column]) ++
      unlines (line.drop column :: (lines t).drop (row + 1)) := by
    rw [← unlines_append, List.take_append_drop, ← hlines, unlines_lines]
  have hlength : offset t row column =
      (unlines ((lines t).take row ++ [line.take column])).length := by
    rw [offset, unlines_concat, List.length_append, List.length_take, Nat.min_eq_left hcolumn]
  rw [hlength]
  constructor
  · nth_rewrite 2 [ht]
    exact List.take_left
  · nth_rewrite 2 [ht]
    exact List.drop_left

end SymbolAtlas.Text
