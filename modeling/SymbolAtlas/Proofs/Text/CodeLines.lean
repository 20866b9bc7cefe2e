import Mathlib.Data.List.Basic
import Mathlib.Data.List.TakeWhile
import SymbolAtlas.Proofs.Text.Lines

/-!
# Code lines

The code lines of a text are its lines without the blanks around them, blank lines left out
(`Text.codeLines`). Texts with a newline between them have the code lines of each (the law
`codeLines_append_newline`), blanks at the start or at the end do not count, and texts with the same
code lines have the same ink, which is all that is not blank (`ink_eq_of_codeLines_eq`).
-/

namespace SymbolAtlas.Text

/-- The lines of a text that are not blank, without the blanks around them. -/
def codeLines (t : Text) : List Text := ((lines t).map trim).filter (· ≠ [])

/-- The code points of a text that are not blank. -/
def ink (t : Text) : Text := t.filter fun c => !c.isBlank

/-! ## Trimming -/

variable {t : Text} {c : CodePoint}

theorem isBlank_newline : newline.isBlank = true := by decide

theorem trim_cons_of_blank (hc : c.isBlank = true) (t : Text) : trim (c :: t) = trim t := by
  simp [trim, trimStart, hc]

theorem trim_concat_of_blank (hc : c.isBlank = true) (t : Text) : trim (t ++ [c]) = trim t := by
  unfold trim trimStart
  rw [List.dropWhile_append]
  split
  · next h =>
    rw [List.isEmpty_iff] at h
    simp [h, hc, trimEnd]
  · simp [trimEnd, hc]

theorem trimStart_eq_append (t : Text) :
    ∃ rear, trimStart t = trim t ++ rear ∧ ∀ c ∈ rear, c.isBlank = true := by
  refine ⟨((trimStart t).reverse.takeWhile CodePoint.isBlank).reverse, ?_, ?_⟩
  · rw [trim, trimEnd, ← List.reverse_append, List.takeWhile_append_dropWhile,
      List.reverse_reverse]
  · exact fun c hc => List.mem_takeWhile_imp (List.mem_reverse.mp hc)

/-- A text is what is left of it without the blanks around it, with these put back. -/
theorem exists_append_trim (t : Text) : ∃ lead rear, t = lead ++ trim t ++ rear ∧
    (∀ c ∈ lead, c.isBlank = true) ∧ ∀ c ∈ rear, c.isBlank = true := by
  obtain ⟨rear, hrear, hblank⟩ := trimStart_eq_append t
  refine ⟨t.takeWhile CodePoint.isBlank, rear, ?_, fun c hc => List.mem_takeWhile_imp hc, hblank⟩
  rw [List.append_assoc, ← hrear, trimStart, List.takeWhile_append_dropWhile]

theorem ink_dropWhile (t : Text) : ink (t.dropWhile CodePoint.isBlank) = ink t := by
  induction t with
  | nil => rfl
  | cons c t ih =>
    cases hc : c.isBlank with
    | true => simpa [ink, hc] using ih
    | false => simp [hc]

theorem ink_reverse (t : Text) : ink t.reverse = (ink t).reverse := by
  simp [ink]

theorem ink_trim (t : Text) : ink (trim t) = ink t := by
  rw [trim, trimEnd, ink_reverse, ink_dropWhile, ink_reverse, List.reverse_reverse, trimStart,
    ink_dropWhile]

theorem ink_append (s t : Text) : ink (s ++ t) = ink s ++ ink t := by
  simp [ink]

theorem ink_eq_nil_iff : ink t = [] ↔ ∀ c ∈ t, c.isBlank = true := by
  simp [ink]

/-! ## Code lines of texts put together -/

theorem codeLines_nil : codeLines [] = [] := rfl

theorem codeLines_append_newline (s t : Text) :
    codeLines (s ++ newline :: t) = codeLines s ++ codeLines t := by
  obtain ⟨front, hs, -⟩ := lines_eq_concat s
  have hst : lines (s ++ newline :: t) = lines s ++ lines t := by
    rw [lines_append hs (lines_cons_newline t), hs]
    simp
  simp [codeLines, hst]

/-- A text that is empty or ends a line. -/
def EndsLine (t : Text) : Prop := t = [] ∨ ∃ s, t = s ++ [newline]

theorem codeLines_append_of_endsLine {s : Text} (h : EndsLine s) (t : Text) :
    codeLines (s ++ t) = codeLines s ++ codeLines t := by
  rcases h with rfl | ⟨s, rfl⟩
  · rfl
  · rw [codeLines_append_newline s [], codeLines_nil, List.append_nil, List.append_assoc,
      List.singleton_append, codeLines_append_newline]

theorem codeLines_cons_of_blank (hc : c.isBlank = true) (t : Text) :
    codeLines (c :: t) = codeLines t := by
  by_cases hn : c = newline
  · subst hn
    exact codeLines_append_newline [] t
  · obtain ⟨first, rear, ht⟩ := lines_eq_cons t
    simp [codeLines, lines_cons_of_ne hn ht, ht, trim_cons_of_blank hc]

/-- Blanks at the start of a text do not count. -/
theorem codeLines_append_left {blanks : Text} (h : ∀ c ∈ blanks, c.isBlank = true) (t : Text) :
    codeLines (blanks ++ t) = codeLines t := by
  induction blanks with
  | nil => rfl
  | cons c blanks ih =>
    rw [List.cons_append, codeLines_cons_of_blank (h c (by simp))]
    exact ih fun d hd => h d (by simp [hd])

theorem codeLines_concat_of_blank (hc : c.isBlank = true) (t : Text) :
    codeLines (t ++ [c]) = codeLines t := by
  by_cases hn : c = newline
  · subst hn
    rw [codeLines_append_newline, codeLines_nil, List.append_nil]
  · obtain ⟨front, ht, -⟩ := lines_eq_concat t
    have hc' : lines [c] = [[c]] := separate_eq_singleton (by simpa using Ne.symm hn)
    simp [codeLines, lines_append ht hc', ht, trim_concat_of_blank hc]

/-- Blanks at the end of a text do not count. -/
theorem codeLines_append_right {blanks : Text} (h : ∀ c ∈ blanks, c.isBlank = true) (t : Text) :
    codeLines (t ++ blanks) = codeLines t := by
  induction blanks using List.reverseRecOn with
  | nil => rw [List.append_nil]
  | append_singleton blanks c ih =>
    rw [← List.append_assoc, codeLines_concat_of_blank (h c (by simp))]
    exact ih fun d hd => h d (by simp [hd])

theorem codeLines_trim (t : Text) : codeLines (trim t) = codeLines t := by
  obtain ⟨lead, rear, ht, hlead, hrear⟩ := exists_append_trim t
  nth_rewrite 2 [ht]
  rw [codeLines_append_right hrear, codeLines_append_left hlead]

/-! ## Ink -/

theorem flatMap_ink_lines (t : Text) : (lines t).flatMap ink = ink t := by
  induction t with
  | nil => rfl
  | cons c t ih =>
    by_cases hc : c = newline
    · subst hc
      rw [lines_cons_newline, List.flatMap_cons, ih]
      simp [ink, isBlank_newline]
    · obtain ⟨first, rear, ht⟩ := lines_eq_cons t
      rw [ht] at ih
      rw [List.flatMap_cons] at ih
      rw [lines_cons_of_ne hc ht, List.flatMap_cons, ← List.singleton_append, ink_append,
        List.append_assoc, ih, ← ink_append, List.singleton_append]

theorem flatMap_ink_codeLines (t : Text) : (codeLines t).flatMap ink = ink t := by
  have hfilter : ∀ ls : List Text, (ls.filter (· ≠ [])).flatMap ink = ls.flatMap ink := by
    intro ls
    induction ls with
    | nil => rfl
    | cons l ls ih =>
      by_cases hl : l = []
      · simpa [hl, ink] using ih
      · simpa [hl] using ih
  rw [codeLines, hfilter, List.flatMap_map]
  simp only [ink_trim, flatMap_ink_lines]

theorem ink_eq_of_codeLines_eq {s : Text} (h : codeLines s = codeLines t) : ink s = ink t := by
  rw [← flatMap_ink_codeLines s, h, flatMap_ink_codeLines]

/-- What goes beyond a text without more code lines is blank. -/
theorem blank_of_codeLines_append {s : Text} (h : codeLines (s ++ t) = codeLines s) :
    ∀ c ∈ t, c.isBlank = true := by
  have hink := ink_eq_of_codeLines_eq h
  rw [ink_append] at hink
  exact ink_eq_nil_iff.mp (by simpa using hink)

/-- What comes before a text without more code lines is blank. -/
theorem blank_of_append_codeLines {s : Text} (h : codeLines (s ++ t) = codeLines t) :
    ∀ c ∈ s, c.isBlank = true := by
  have hink := ink_eq_of_codeLines_eq h
  rw [ink_append] at hink
  exact ink_eq_nil_iff.mp (by simpa using hink)

/-- A text that starts and ends with ink. -/
structure Tight (t : Text) : Prop where
  first : ∃ c rest, t = c :: rest ∧ c.isBlank = false
  last : ∃ front c, t = front ++ [c] ∧ c.isBlank = false

/-- What is left without the blanks around it starts and ends with ink, if anything is left. -/
theorem tight_trim (h : trim t ≠ []) : Tight (trim t) := by
  have hhead : ∀ s : Text, s.dropWhile CodePoint.isBlank ≠ [] →
      ∃ c rest, s.dropWhile CodePoint.isBlank = c :: rest ∧ c.isBlank = false := by
    intro s hs
    obtain ⟨c, rest, hcons⟩ := List.exists_cons_of_ne_nil hs
    have hfirst := List.head?_dropWhile_not CodePoint.isBlank s
    rw [hcons] at hfirst
    exact ⟨c, rest, hcons, by simpa using hfirst⟩
  have hlast : (trimStart t).reverse.dropWhile CodePoint.isBlank ≠ [] := by
    intro hnil
    apply h
    rw [trim, trimEnd, hnil, List.reverse_nil]
  obtain ⟨d, back, hback, hd⟩ := hhead _ hlast
  have htrim : trim t = back.reverse ++ [d] := by
    rw [trim, trimEnd, hback, List.reverse_cons]
  refine ⟨?_, back.reverse, d, htrim, hd⟩
  -- The trimmed text starts as the text does behind its first blanks.
  obtain ⟨rear, hstart, -⟩ := trimStart_eq_append t
  obtain ⟨c, rest, hcons⟩ := List.exists_cons_of_ne_nil h
  rw [hcons, List.cons_append] at hstart
  have hne : t.dropWhile CodePoint.isBlank ≠ [] := by
    intro hnil
    cases hstart.symm.trans hnil
  obtain ⟨c', rest', hcons', hc'⟩ := hhead t hne
  obtain ⟨rfl, -⟩ := List.cons.inj (hstart.symm.trans hcons')
  exact ⟨c, rest, hcons, hc'⟩

theorem trim_eq_nil_iff : t.trim = [] ↔ t.isBlank = true := by
  rw [isBlank, List.all_eq_true, ← ink_eq_nil_iff]
  constructor
  · intro h
    rw [← ink_trim, h]
    rfl
  · intro h
    by_contra hne
    obtain ⟨c, rest, hcons, hc⟩ := (tight_trim hne).first
    rw [← ink_trim, hcons] at h
    simp [ink, hc] at h

/-- No blanks stand at the end of a text that ends with ink. -/
theorem eq_nil_of_concat_eq_append {s front : Text} (h : front ++ [c] = s ++ t)
    (hc : c.isBlank = false) (ht : ∀ d ∈ t, d.isBlank = true) : t = [] := by
  rcases List.eq_nil_or_concat' t with rfl | ⟨t', d, rfl⟩
  · rfl
  · rw [← List.append_assoc] at h
    obtain ⟨-, hd⟩ := List.append_inj' h rfl
    obtain rfl : c = d := by simpa using hd
    have hblank := ht c (by simp)
    rw [hc] at hblank
    cases hblank

/-! ## A line that nothing else is as long as -/

theorem length_trim_le (t : Text) : (trim t).length ≤ t.length := by
  have hend : ∀ s : Text, (trimEnd s).length ≤ s.length := by
    intro s
    have := (List.dropWhile_sublist CodePoint.isBlank (l := s.reverse)).length_le
    simpa [trimEnd] using this
  exact Nat.le_trans (hend _) (List.dropWhile_sublist CodePoint.isBlank).length_le

theorem length_le_of_mem_lines {l : Text} (h : l ∈ lines t) : l.length ≤ t.length := by
  induction t generalizing l with
  | nil =>
    rw [show lines [] = [[]] from rfl, List.mem_singleton] at h
    simp [h]
  | cons c t ih =>
    by_cases hc : c = newline
    · subst hc
      rw [lines_cons_newline] at h
      rcases List.mem_cons.mp h with rfl | h
      · simp
      · have := ih h
        simp only [List.length_cons]
        omega
    · obtain ⟨first, rear, ht⟩ := lines_eq_cons t
      rw [lines_cons_of_ne hc ht] at h
      rcases List.mem_cons.mp h with rfl | h
      · have := ih (l := first) (by simp [ht])
        simp only [List.length_cons]
        omega
      · have := ih (l := l) (by simp [ht, h])
        simp only [List.length_cons]
        omega

theorem length_le_of_mem_codeLines {l : Text} (h : l ∈ codeLines t) : l.length ≤ t.length := by
  obtain ⟨l', hl', rfl⟩ := List.mem_map.mp (List.mem_filter.mp h).1
  exact Nat.le_trans (length_trim_le l') (length_le_of_mem_lines hl')

/-- A line longer than two texts together tells them apart from one another. -/
theorem codeLines_split {s t s' t' run : Text} (hs : s.length < run.length)
    (ht : t.length < run.length)
    (h : codeLines s ++ run :: codeLines t = codeLines s' ++ run :: codeLines t') :
    codeLines s = codeLines s' ∧ codeLines t = codeLines t' := by
  -- The long line is none of the lines around it, so it stands at the same place on both sides.
  have hshort : ∀ x : Text, x.length < run.length → run ∉ codeLines x := by
    intro x hx hmem
    have := length_le_of_mem_codeLines hmem
    omega
  obtain ⟨hfront, -, hrear⟩ := (List.append_cons_inj_of_notMem (hshort s hs) (hshort t ht)).mp h
  exact ⟨hfront, hrear⟩

/-- A line that is all ink. -/
theorem codeLines_of_ink {run : Text} (hne : run ≠ []) (h : ∀ c ∈ run, c.isBlank = false) :
    codeLines run = [run] := by
  have hnewline : newline ∉ run := by
    intro hmem
    have hblank := h newline hmem
    rw [isBlank_newline] at hblank
    cases hblank
  have hdrop : ∀ s : Text, (∀ c ∈ s, c.isBlank = false) → s.dropWhile CodePoint.isBlank = s := by
    intro s hs
    cases s with
    | nil => rfl
    | cons c s => exact List.dropWhile_cons_of_neg (by simp [hs c (by simp)])
  have htrim : trim run = run := by
    rw [trim, trimStart, hdrop run h, trimEnd, hdrop run.reverse (by simpa using h),
      List.reverse_reverse]
  have hlines : lines run = [run] := separate_eq_singleton hnewline
  simp [codeLines, hlines, htrim, hne]

end SymbolAtlas.Text
