import SymbolAtlas.Edit.Site
import SymbolAtlas.Proofs.Edit.HeaderMatch

/-!
# Edits by the header of a function

An edit by the header of a function puts its content in the place of the span that the matcher
finds, or at the end of the file (`EditSite.byHeaderText`). Where the matcher measures a declaration
as a whole, this leaves the code lines that putting the content in the place of the declaration
leaves (`codeLines_byHeaderText_of_measures`). The converse needs one content only: a line that is
longer than the file shows where it was put (`measures_of_codeLines_probe`).
-/

namespace SymbolAtlas.EditSite

open Header (Measures)
open Text (codeLines Tight newline)

/-- The text that an edit by the header of a function leaves. -/
def byHeaderText (t name content : Text) : Text :=
  match Header.functionSpan? t name with
  | some (start, stop) => Splice.spliceSpan t start stop content
  | none => Splice.appendTopLevel t content

theorem put_byHeader (t name content : Text) :
    (byHeader t name).put t content = .ok (byHeaderText t name content) := by
  unfold byHeader byHeaderText
  cases Header.functionSpan? t name <;> rfl

variable {name content front body rest before decl behind : Text}

theorem spliceSpan_append (hcontent : content ≠ []) :
    Splice.spliceSpan (front ++ body ++ rest) front.length (front ++ body).length content =
      front ++ content ++ rest := by
  rw [Splice.spliceSpan, if_neg hcontent, Offset.onward_append, List.append_assoc front body,
    Offset.before_append]

theorem codeLines_appendTopLevel {t : Text} (ht : t.isBlank = false) :
    codeLines (Splice.appendTopLevel t content) = codeLines t ++ codeLines content := by
  have hconcat : Splice.appendTopLevel t content = t.trim ++ newline :: content.trim := by
    simp [Splice.appendTopLevel, ht, Text.concat]
  rw [hconcat, Text.codeLines_append_newline, Text.codeLines_trim, Text.codeLines_trim]

/-- Where the matcher measures a declaration as a whole, an edit by the header replaces it. -/
theorem codeLines_byHeaderText_of_measures (h : Measures name before decl behind)
    (hcontent : content ≠ []) :
    codeLines (byHeaderText (before ++ decl ++ behind) name content) =
      codeLines (before ++ content ++ behind) := by
  obtain ⟨front, indent, rfl, hline, hindent, hspan⟩ := h.functionSpan?
  have hsplice : byHeaderText (front ++ indent ++ decl ++ behind) name content =
      front ++ content ++ behind := by
    unfold byHeaderText
    rw [hspan, List.append_assoc front indent decl]
    exact spliceSpan_append hcontent
  rw [hsplice, List.append_assoc, List.append_assoc, List.append_assoc,
    Text.codeLines_append_of_endsLine hline, Text.codeLines_append_of_endsLine hline,
    Text.codeLines_append_left fun c hc => Header.isBlank_of_isIndent (hindent c hc)]

/-! ## A content that shows where it was put -/

/-- A line of ink that is longer than two texts together. -/
def longLine (s t : Text) : Text := List.replicate (s.length + t.length + 2) 'x'

/-- A content of two lines: a text, and a line that is longer than another text. -/
def probe (lead t : Text) : Text := newline :: (lead ++ newline :: (longLine lead t ++ [newline]))

variable {lead t : Text}

theorem codeLines_probe (s u : Text) :
    codeLines (s ++ probe lead t ++ u) =
      codeLines (s ++ newline :: lead) ++ longLine lead t :: codeLines u := by
  have hrun : codeLines (longLine lead t) = [longLine lead t] := by
    refine Text.codeLines_of_ink (by simp [longLine]) ?_
    intro c hc
    rw [List.eq_of_mem_replicate hc]
    decide
  have hsplit : s ++ probe lead t ++ u =
      (s ++ newline :: lead) ++ newline :: (longLine lead t ++ newline :: u) := by
    simp [probe]
  rw [hsplit, Text.codeLines_append_newline (s ++ newline :: lead),
    Text.codeLines_append_newline (longLine lead t), hrun, List.singleton_append]

/-- A probe is found again between the same code lines. -/
theorem codeLines_of_codeLines_probe {s u s' u' : Text} (hs : s.length ≤ t.length)
    (hu : u.length ≤ t.length)
    (h : codeLines (s ++ probe lead t ++ u) = codeLines (s' ++ probe lead t ++ u')) :
    codeLines s = codeLines s' ∧ codeLines u = codeLines u' := by
  rw [codeLines_probe, codeLines_probe] at h
  obtain ⟨hfront, hrear⟩ := Text.codeLines_split
    (by simp [longLine]; omega) (by simp [longLine]; omega) h
  rw [Text.codeLines_append_newline, Text.codeLines_append_newline] at hfront
  exact ⟨List.append_cancel_right hfront, hrear⟩

/-- Two cuts of a text with a tight stretch behind the second have only blanks between them if the
code lines before them are the same, and the first does not come later. -/
theorem exists_blanks_before (hdecl : Tight decl) (h : front ++ body = before ++ (decl ++ behind))
    (hlines : codeLines front = codeLines before) :
    ∃ blanks, before = front ++ blanks ∧ ∀ c ∈ blanks, c.isBlank = true := by
  rcases List.append_eq_append_iff.mp h with ⟨m, rfl, -⟩ | ⟨m, rfl, hm⟩
  · exact ⟨m, rfl, Text.blank_of_codeLines_append hlines.symm⟩
  · have hblank := Text.blank_of_codeLines_append hlines
    obtain ⟨d, ds, rfl, hd⟩ := hdecl.first
    cases m with
    | nil => exact ⟨[], by simp, by simp⟩
    | cons c m =>
      obtain ⟨rfl, -⟩ := List.cons.inj hm
      have hc := hblank d (by simp)
      rw [hd] at hc
      cases hc

/-- Two stretches that end with ink end at the same place if the code lines behind them are the
same. -/
theorem eq_of_codeLines_behind {s s' u u' : Text} {c c' : CodePoint}
    (h : (s ++ [c]) ++ u = (s' ++ [c']) ++ u') (hc : c.isBlank = false) (hc' : c'.isBlank = false)
    (hlines : codeLines u = codeLines u') : s ++ [c] = s' ++ [c'] ∧ u = u' := by
  rcases List.append_eq_append_iff.mp h with ⟨m, hm, rfl⟩ | ⟨m, hm, rfl⟩
  · have hblank := Text.blank_of_append_codeLines hlines
    obtain rfl := Text.eq_nil_of_concat_eq_append hm hc' hblank
    exact ⟨by simpa using hm.symm, rfl⟩
  · have hblank := Text.blank_of_append_codeLines hlines.symm
    obtain rfl := Text.eq_nil_of_concat_eq_append hm hc hblank
    exact ⟨by simpa using hm, rfl⟩

/-- The matcher measures a tight declaration as a whole if it finds a span in whose place a probe
stands as it stands in the place of the declaration. -/
theorem measures_of_codeLines_span {start stop : Nat} (hdecl : Tight decl)
    (hspan : Header.functionSpan? (before ++ decl ++ behind) name = some (start, stop))
    (ht : t = before ++ decl ++ behind)
    (h : codeLines (Splice.spliceSpan t start stop (probe lead t)) =
      codeLines (before ++ probe lead t ++ behind)) : Measures name before decl behind := by
  obtain ⟨front, inner, rest, hcut, rfl, rfl⟩ := Header.functionSpan?_eq_append hspan
  rw [ht, hcut, spliceSpan_append (by simp [probe]), ← hcut, ← ht] at h
  -- The probe splits both texts, and the two cuts have to be the ends of the declaration.
  obtain ⟨hfront, hrest⟩ := codeLines_of_codeLines_probe (by simp [ht, hcut])
    (by simp [ht, hcut]; omega) h
  obtain ⟨blanks, hbefore, hblanks⟩ := exists_blanks_before hdecl (by simpa using hcut.symm) hfront
  obtain ⟨d, ds, hds, hd⟩ := hdecl.first
  obtain ⟨es, e, hes, he⟩ := hdecl.last
  have hends : (front ++ inner ++ [CodePoint.ofChar '\x7d']) ++ rest =
      (before ++ es ++ [e]) ++ behind := by
    rw [hes] at hcut
    simpa using hcut.symm
  obtain ⟨hstop, -⟩ := eq_of_codeLines_behind hends (by decide) he hrest
  refine Header.measures_of_functionSpan? hbefore hblanks hds hd ?_
  have hlen : (front ++ (inner ++ [CodePoint.ofChar '\x7d'])).length = (before ++ decl).length := by
    rw [hes, ← List.append_assoc, hstop, List.append_assoc]
  rw [← hlen]
  exact hspan

/-- A probe at the end of a text does not stand in the place of a declaration. -/
theorem codeLines_appendTopLevel_probe_ne (hdecl : Tight decl) (ht : t = before ++ decl ++ behind) :
    codeLines (Splice.appendTopLevel t (probe lead t)) ≠
      codeLines (before ++ probe lead t ++ behind) := by
  intro h
  obtain ⟨d, ds, hds, hd⟩ := hdecl.first
  have hblank : t.isBlank = false := by
    rw [Text.isBlank, List.all_eq_false]
    exact ⟨d, by simp [ht, hds], by simp [hd]⟩
  have happend : codeLines (Splice.appendTopLevel t (probe lead t)) =
      codeLines (t ++ probe lead t ++ []) := by
    rw [codeLines_appendTopLevel hblank, List.append_nil, probe, Text.codeLines_append_newline,
      Text.codeLines_cons_of_blank Text.isBlank_newline]
  rw [happend] at h
  obtain ⟨hfront, -⟩ := codeLines_of_codeLines_probe (Nat.le_refl _) (by simp) h
  rw [ht, List.append_assoc] at hfront
  have hd' := Text.blank_of_codeLines_append hfront d (by simp [hds])
  rw [hd] at hd'
  cases hd'

/-- The matcher measures a tight declaration as a whole if an edit by the header puts a probe where
the declaration stands. -/
theorem measures_of_codeLines_probe (hdecl : Tight decl) (ht : t = before ++ decl ++ behind)
    (h : codeLines (byHeaderText t name (probe lead t)) =
      codeLines (before ++ probe lead t ++ behind)) : Measures name before decl behind := by
  unfold byHeaderText at h
  split at h
  · next start stop hspan => exact measures_of_codeLines_span hdecl (ht ▸ hspan) ht h
  · exact absurd h (codeLines_appendTopLevel_probe_ne hdecl ht)

end SymbolAtlas.EditSite
