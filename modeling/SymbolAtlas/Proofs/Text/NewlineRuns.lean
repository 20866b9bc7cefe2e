import Mathlib.Data.List.SplitBy
import SymbolAtlas.Proofs.Text.BlankLines

/-!
# Runs of newlines

A text falls into maximal runs: newlines alone and stretches without a newline, in turn
(`Text.runs`, `Text.IsRuns`). Collapsing blank lines cuts the runs of three or more newlines to two
and keeps all others, so it is a normaliser: its results are the texts without three newlines in a
row, which it leaves as they are, and it takes no line out of a text but empty ones
(`Splice.collapseBlankLines_cuts_runs`). The same comes of replacing each match of three or more
newlines by two, from the left and each match as long as it goes (`Splice.replaced_iff`).
-/

namespace SymbolAtlas

namespace Text

/-- Newlines alone, and three or more of them. -/
def IsLong (r : Text) : Prop := 3 ≤ r.length ∧ ∀ c ∈ r, c = newline

instance (r : Text) : Decidable (IsLong r) :=
  inferInstanceAs (Decidable (3 ≤ r.length ∧ ∀ c ∈ r, c = newline))

/-- Two newlines in place of a long run of them. -/
def cutLong (r : Text) : Text := if IsLong r then [newline, newline] else r

/-- The maximal runs of a text: pieces of newlines alone and pieces without a newline, in turn. -/
structure IsRuns (t : Text) (runs : List Text) : Prop where
  flatten_eq : runs.flatten = t
  nil_notMem : [] ∉ runs
  alone : ∀ r ∈ runs, (∀ c ∈ r, c = newline) ∨ newline ∉ r
  turns : runs.IsChain fun r r' => newline ∈ r ↔ newline ∉ r'

/-- The text cut between newlines and what are none. -/
def runs (t : Text) : List Text := t.splitBy fun c d => decide (c = newline) == decide (d = newline)

section

variable {t r : Text} {rs : List Text}

/-- Code points that are all of a kind with their neighbours are all of one kind. -/
theorem alone_of_isChain
    (h : r.IsChain fun c d => (decide (c = newline) == decide (d = newline)) = true) :
    (∀ c ∈ r, c = newline) ∨ newline ∉ r := by
  induction r with
  | nil => exact .inl (by simp)
  | cons c r ih =>
    cases r with
    | nil =>
      by_cases hc : c = newline
      · exact .inl (by simpa using hc)
      · exact .inr (by simpa using Ne.symm hc)
    | cons d r =>
      obtain ⟨hcd, hrest⟩ := List.isChain_cons_cons.mp h
      have hkind : c = newline ↔ d = newline := by simpa using hcd
      rcases ih hrest with hall | hnone
      · have hd : d = newline := hall d (by simp)
        exact .inl (List.forall_mem_cons.mpr ⟨hkind.mpr hd, hall⟩)
      · have hd : d ≠ newline := fun hd => hnone (by simp [hd])
        refine .inr (List.not_mem_cons_of_ne_of_not_mem ?_ hnone)
        exact fun hc => hd (hkind.mp hc.symm)

/-- Whether a piece is of newlines can be read off any code point of it. -/
theorem newline_mem_iff_of_alone {c : CodePoint} (h : (∀ c ∈ r, c = newline) ∨ newline ∉ r)
    (hc : c ∈ r) : newline ∈ r ↔ c = newline := by
  constructor
  · intro hmem
    rcases h with hall | hnone
    · exact hall c hc
    · exact absurd hmem hnone
  · rintro rfl
    exact hc

theorem isRuns_runs (t : Text) : IsRuns t (runs t) := by
  have halone : ∀ r ∈ runs t, (∀ c ∈ r, c = newline) ∨ newline ∉ r :=
    fun r hr => alone_of_isChain (List.isChain_of_mem_splitBy hr)
  refine ⟨List.flatten_splitBy _ t, List.nil_notMem_splitBy _ t, halone, ?_⟩
  refine (List.isChain_getLast_head_splitBy _ t).imp_of_mem_imp ?_
  rintro r r' hr hr' ⟨hne, hne', hcut⟩
  rw [newline_mem_iff_of_alone (halone r hr) (r.getLast_mem hne),
    newline_mem_iff_of_alone (halone r' hr') (r'.head_mem hne')]
  have hkinds : decide (r.getLast hne = newline) ≠ decide (r'.head hne' = newline) := by
    simpa using hcut
  rw [Ne, decide_eq_decide] at hkinds
  tauto

/-- The runs behind the first one. -/
theorem IsRuns.tail (h : IsRuns t (r :: rs)) : IsRuns rs.flatten rs where
  flatten_eq := rfl
  nil_notMem := fun hmem => h.nil_notMem (List.mem_cons_of_mem r hmem)
  alone := fun r' hr' => h.alone r' (List.mem_cons_of_mem r hr')
  turns := h.turns.tail

/-- No newline follows a run of newlines. -/
theorem IsRuns.head?_ne_newline (h : IsRuns t (r :: rs)) (hr : newline ∈ r) :
    rs.flatten.head? ≠ some newline := by
  cases rs with
  | nil => simp
  | cons r' rs =>
    have hnone : newline ∉ r' := (List.isChain_cons_cons.mp h.turns).1.mp hr
    cases r' with
    | nil => exact absurd (by simp) h.nil_notMem
    | cons d r' =>
      have hd : d ≠ newline := fun hd => hnone (by simp [hd])
      simpa using hd

theorem isLong_replicate {n : Nat} : IsLong (List.replicate n newline) ↔ 3 ≤ n := by
  simp [IsLong]

theorem cutLong_replicate (n : Nat) :
    cutLong (List.replicate n newline) = List.replicate (min n 2) newline := by
  by_cases hn : 3 ≤ n
  · rw [cutLong, if_pos (isLong_replicate.mpr hn), Nat.min_eq_right (by omega)]
    rfl
  · rw [cutLong, if_neg (mt isLong_replicate.mp hn), Nat.min_eq_left (by omega)]

theorem cutLong_of_notMem (h : newline ∉ r) : cutLong r = r := by
  refine if_neg ?_
  rintro ⟨hlength, hall⟩
  cases r with
  | nil => simp at hlength
  | cons c r => exact h (by simp [hall c])

theorem IsLong.hasLongRun (h : IsLong r) : HasLongRun r := by
  obtain ⟨hlength, hall⟩ := h
  rw [List.eq_replicate_iff.mpr ⟨rfl, hall⟩, ← Nat.add_sub_cancel' hlength, List.replicate_add]
  exact (List.prefix_append _ _).isInfix

end

end Text

namespace Splice

open Text

section

variable {t r : Text} {rs : List Text}

/-! ## Run by run -/

/-- How many newlines came before counts only for a text that starts with one. -/
theorem collapseAfter_of_head? (h : t.head? ≠ some newline) (run : Nat) :
    collapseAfter run t = collapseBlankLines t := by
  cases t with
  | nil => rfl
  | cons c t =>
    have hc : c ≠ newline := by simpa using h
    rw [collapseBlankLines, collapseAfter_cons_of_ne hc, collapseAfter_cons_of_ne hc]

/-- Newlines that no other one follows are kept until there are two. -/
theorem collapseAfter_replicate_append (h : t.head? ≠ some newline) (n run : Nat) :
    collapseAfter run (List.replicate n newline ++ t) =
      List.replicate (min n (2 - run)) newline ++ collapseBlankLines t := by
  induction n generalizing run with
  | zero => simpa using collapseAfter_of_head? h run
  | succ n ih =>
    rw [List.replicate_succ, List.cons_append]
    by_cases hrun : run < 2
    · have hmin : min (n + 1) (2 - run) = min n (2 - (run + 1)) + 1 := by omega
      rw [collapseAfter_newline_of_lt hrun, ih, hmin, List.replicate_succ, List.cons_append]
    · have hmin : min (n + 1) (2 - run) = min n (2 - run) := by omega
      rw [collapseAfter_newline_of_le (by omega), ih, hmin]

theorem collapseBlankLines_append_of_notMem (h : newline ∉ r) (t : Text) :
    collapseBlankLines (r ++ t) = r ++ collapseBlankLines t := by
  induction r with
  | nil => rfl
  | cons c r ih =>
    obtain ⟨hc, hr⟩ := not_or.mp (mt List.mem_cons.mpr h)
    rw [List.cons_append, List.cons_append, ← ih hr]
    exact collapseAfter_cons_of_ne (Ne.symm hc)

/-- Collapsing cuts the long ones of the maximal runs of a text, and these alone. -/
theorem collapseBlankLines_eq_flatten (h : IsRuns t rs) :
    collapseBlankLines t = (rs.map cutLong).flatten := by
  induction rs generalizing t with
  | nil =>
    obtain rfl : [] = t := h.flatten_eq
    rfl
  | cons r rs ih =>
    rw [← h.flatten_eq, List.flatten_cons, List.map_cons, List.flatten_cons, ← ih h.tail]
    by_cases hr : newline ∈ r
    · have hall : ∀ c ∈ r, c = newline := (h.alone r (by simp)).resolve_right (not_not.mpr hr)
      obtain ⟨n, rfl⟩ : ∃ n, r = List.replicate n newline :=
        ⟨r.length, List.eq_replicate_iff.mpr ⟨rfl, hall⟩⟩
      -- The run ends before the next one, so its newlines are all that count for it.
      rw [cutLong_replicate]
      exact collapseAfter_replicate_append (h.head?_ne_newline hr) n 0
    · rw [cutLong_of_notMem hr, collapseBlankLines_append_of_notMem hr]

/-- Three newlines in a row stand in a text exactly if one of its maximal runs is long. -/
theorem hasLongRun_iff_of_isRuns (h : IsRuns t rs) : HasLongRun t ↔ ∃ r ∈ rs, IsLong r := by
  constructor
  · contrapose!
    intro hshort
    -- Without a long run nothing is cut, and a text that stays as it is has no three in a row.
    have hcut : rs.map cutLong = rs :=
      (List.map_congr_left fun r hr => if_neg (hshort r hr)).trans (List.map_id rs)
    rw [← collapseBlankLines_eq_self_iff, collapseBlankLines_eq_flatten h, hcut, h.flatten_eq]
  · rintro ⟨r, hr, hlong⟩
    rw [← h.flatten_eq]
    exact hlong.hasLongRun.trans (List.infix_of_mem_flatten hr)

/-! ## Replacing matches -/

/-- The second text is the first with each match of three or more newlines replaced by two, the
matches taken from the left, each as long as it goes and none inside another. -/
inductive Replaced : Text → Text → Prop
  | nil : Replaced [] []
  | skip {c : CodePoint} {t new : Text} (hno : ¬ [newline, newline, newline] <+: c :: t)
      (hrest : Replaced t new) : Replaced (c :: t) (c :: new)
  | cut {n : Nat} {t new : Text} (hlong : 3 ≤ n) (hstop : t.head? ≠ some newline)
      (hrest : Replaced t new) :
      Replaced (List.replicate n newline ++ t) (newline :: newline :: new)

/-- A newline at which no match starts is kept, and the ones behind it are as well. -/
theorem collapseAfter_one_of_not_prefix (h : ¬ [newline, newline, newline] <+: newline :: t) :
    collapseAfter 1 t = collapseBlankLines t := by
  cases t with
  | nil => rfl
  | cons c t =>
    by_cases hc : c = newline
    · subst hc
      have ht : t.head? ≠ some newline := by
        intro hhead
        obtain ⟨rest, rfl⟩ := List.head?_eq_some_iff.mp hhead
        exact h (List.prefix_append [newline, newline, newline] rest)
      have hone := collapseAfter_replicate_append ht 1 1
      have hzero := collapseAfter_replicate_append ht 1 0
      exact hone.trans hzero.symm
    · exact collapseAfter_of_head? (by simpa using hc) 1

theorem Replaced.collapseBlankLines_eq {new : Text} (h : Replaced t new) :
    collapseBlankLines t = new := by
  induction h with
  | nil => rfl
  | @skip c t new hno _ ih =>
    by_cases hc : c = newline
    · subst hc
      rw [collapseBlankLines, collapseAfter_newline_of_lt (by omega),
        collapseAfter_one_of_not_prefix hno, ih]
    · rw [collapseBlankLines, collapseAfter_cons_of_ne hc, ← collapseBlankLines, ih]
  | @cut n t new hlong hstop _ ih =>
    rw [collapseBlankLines, collapseAfter_replicate_append hstop, Nat.min_eq_right (by omega), ih]
    rfl

/-- The newlines at the start of a text, and what follows them. -/
theorem exists_eq_replicate_append (t : Text) :
    ∃ n rest, t = List.replicate n newline ++ rest ∧ rest.head? ≠ some newline := by
  induction t with
  | nil => exact ⟨0, [], rfl, by simp⟩
  | cons c t ih =>
    by_cases hc : c = newline
    · subst hc
      obtain ⟨n, rest, rfl, hstop⟩ := ih
      exact ⟨n + 1, rest, rfl, hstop⟩
    · exact ⟨0, c :: t, rfl, by simpa using hc⟩

/-- At each place a match starts or none does, so every text has one with its matches replaced. -/
theorem exists_replaced (t : Text) : ∃ new, Replaced t new := by
  induction hlength : t.length using Nat.strong_induction_on generalizing t with
  | _ length ih =>
    by_cases hmatch : [newline, newline, newline] <+: t
    · obtain ⟨behind, rfl⟩ := hmatch
      obtain ⟨n, rest, rfl, hstop⟩ := exists_eq_replicate_append behind
      have hwhole : [newline, newline, newline] ++ (List.replicate n newline ++ rest) =
          List.replicate (3 + n) newline ++ rest := by
        rw [← List.append_assoc, List.replicate_add]
        rfl
      rw [hwhole, List.length_append, List.length_replicate] at hlength
      obtain ⟨new, hnew⟩ := ih rest.length (by omega) rest rfl
      rw [hwhole]
      exact ⟨_, .cut (by omega) hstop hnew⟩
    · cases t with
      | nil => exact ⟨[], .nil⟩
      | cons c t =>
        rw [List.length_cons] at hlength
        obtain ⟨new, hnew⟩ := ih t.length (by omega) t rfl
        exact ⟨c :: new, .skip hmatch hnew⟩

/-- Collapsing is replacing the matches of three or more newlines from the left, each as long as it
goes. -/
theorem replaced_iff {new : Text} : Replaced t new ↔ collapseBlankLines t = new := by
  constructor
  · exact Replaced.collapseBlankLines_eq
  · rintro rfl
    obtain ⟨new, hnew⟩ := exists_replaced t
    rwa [hnew.collapseBlankLines_eq]

/-! ## The normaliser -/

/-- Collapsing blank lines is a normaliser that touches only newlines. No result has three of them
in a row, a result stays as it is, and so does exactly a text without three in a row. Of the maximal
runs of a text the long ones are cut to two newlines, if there are any, and all others are kept. So
the lines that are not empty stay the same, and with them the lines that are not blank. -/
theorem collapseBlankLines_cuts_runs (t : Text) :
    ¬ HasLongRun (collapseBlankLines t) ∧
    collapseBlankLines (collapseBlankLines t) = collapseBlankLines t ∧
    (collapseBlankLines t = t ↔ ¬ HasLongRun t) ∧
    (IsRuns t (runs t) ∧ (HasLongRun t ↔ ∃ r ∈ runs t, IsLong r) ∧
      collapseBlankLines t = ((runs t).map cutLong).flatten) ∧
    (lines (collapseBlankLines t)).filter (· ≠ []) = (lines t).filter (· ≠ []) ∧
    filledLines (collapseBlankLines t) = filledLines t := by
  have hruns := isRuns_runs t
  refine ⟨?_, collapseBlankLines_idem t, collapseBlankLines_eq_self_iff,
    ⟨hruns, hasLongRun_iff_of_isRuns hruns, collapseBlankLines_eq_flatten hruns⟩,
    filter_lines_collapseBlankLines (by simp) t, filledLines_collapseBlankLines t⟩
  exact collapseBlankLines_eq_self_iff.mp (collapseBlankLines_idem t)

/-- Runs of four, two and three newlines, and one of three with a blank in it. -/
example : collapseBlankLines "a\n\n\n\nb\n\nc\n \n\nd\n\n\n" = "a\n\nb\n\nc\n \n\nd\n\n" := rfl

end

end Splice

end SymbolAtlas
