import SymbolAtlas.Proofs.Edit.ByHeader
import SymbolAtlas.Proofs.Edit.HeaderLines
import SymbolAtlas.Proofs.Edit.Replacement

/-!
# Functions exchanged by their header

A text is exact for a name if the header matcher finds the whole of it (`EditSite.Exact`). What is
found in a file is exact, and an exact text is found again wherever it is put in place of what was
found: behind the same lines no other header comes first (`Exact.functionSpan?`). So edits by the
header overwrite one another, and putting back what was there restores the file
(`put_byHeader_exact`).
-/

namespace SymbolAtlas.EditSite

open Header (Absent Clear isIndent)
open Text (newline)

/-- What stands between two texts is the span between their ends. -/
theorem span_append (front body behind : Text) :
    Offset.span (front ++ body ++ behind) front.length (front ++ body).length = body := by
  rw [Offset.span_natCast (by simp) (by simp), List.take_left, List.drop_left]

/-- A text that is one function of a name and nothing else. -/
def Exact (name content : Text) : Prop :=
  Header.functionSpan? content name = some (0, content.length)

instance (name content : Text) : Decidable (Exact name content) :=
  inferInstanceAs (Decidable (_ = _))

variable {t name content front behind : Text}

/-- Before the keyword of an exact text there is indentation only. -/
theorem Exact.exists_indent (h : Exact name content) :
    ∃ indent d ds, content = indent ++ d :: ds ∧ (∀ c ∈ indent, isIndent c = true) ∧
      d.isBlank = false ∧ Exact name (d :: ds) := by
  obtain ⟨inside, ⟨indent, gap, pad, rfl, hindent, hgap⟩, hbody⟩ :=
    Header.functionSpan?_whole_iff.mp h
  obtain ⟨k, ks, hks, -, hk⟩ := Header.keyword_eq_cons
  refine ⟨indent, k, ks ++ (gap ++ (name ++ (pad ++ Header.opening :: inside))), ?_, hindent, hk,
    Header.functionSpan?_whole_iff.mpr ⟨inside, ⟨[], gap, pad, ?_, by simp, hgap⟩, hbody⟩⟩
  · rw [hks, List.cons_append]
  · rw [hks, List.cons_append, List.nil_append]

theorem Exact.ne_nil (h : Exact name content) : content ≠ [] := by
  obtain ⟨indent, d, ds, rfl, -⟩ := h.exists_indent
  simp

/-- An exact text ends with the brace that closes the body. -/
theorem Exact.exists_concat (h : Exact name content) :
    ∃ inner, content = inner ++ [CodePoint.ofChar '\x7d'] := by
  obtain ⟨front, inner, rest, hcontent, hstart, hstop⟩ := Header.functionSpan?_eq_append h
  obtain rfl : front = [] := List.eq_nil_of_length_eq_zero hstart.symm
  obtain rfl : rest = [] := by
    apply List.eq_nil_of_length_eq_zero
    have hlength := congrArg List.length hcontent
    simp only [List.nil_append, List.length_append] at hlength hstop
    omega
  exact ⟨inner, by simpa using hcontent⟩

/-- An exact text is found behind lines from which no header can be read, whatever follows it. -/
theorem Exact.functionSpan? (h : Exact name content) (hname : ∀ c ∈ name, c.isBlank = false)
    (hfront : Clear name front) (behind : Text) :
    Header.functionSpan? (front ++ content ++ behind) name =
      some (front.length, (front ++ content).length) := by
  obtain ⟨indent, d, ds, rfl, hindent, hd, hwhole⟩ := h.exists_indent
  rw [← List.append_assoc]
  exact hfront.functionSpan? hwhole rfl hd hname hindent behind

/-- What is found in a text is exact, and no header can be read from the lines before it. -/
theorem exists_exact_of_functionSpan? {start stop : Nat}
    (h : Header.functionSpan? t name = some (start, stop)) :
    ∃ front body behind, t = front ++ body ++ behind ∧ start = front.length ∧
      stop = (front ++ body).length ∧ Clear name front ∧ Exact name body :=
  Header.exists_clear_of_functionSpan? h

/-- An edit by the header puts a content in the place of the exact text that it finds. -/
theorem byHeaderText_exact {body : Text} (hbody : Exact name body)
    (hname : ∀ c ∈ name, c.isBlank = false) (hfront : Clear name front) (hcontent : content ≠ []) :
    byHeaderText (front ++ body ++ behind) name content = front ++ content ++ behind := by
  unfold byHeaderText
  rw [hbody.functionSpan? hname hfront behind]
  exact spliceSpan_append hcontent

/-- An exact text without blanks around it is found where it is put at the end of a file from which
no header could be read. -/
theorem Exact.functionSpan?_appendTopLevel (h : Exact name content)
    (hname : ∀ c ∈ name, c.isBlank = false) (habsent : Absent name t.trim)
    (htrim : content = content.trim) :
    ∃ front, Splice.appendTopLevel t content = front ++ content ∧
      Header.functionSpan? (front ++ content) name =
        some (front.length, (front ++ content).length) := by
  have hspan : ∀ {front}, Clear name front → Header.functionSpan? (front ++ content) name =
      some (front.length, (front ++ content).length) := by
    intro front hfront
    have hfound := h.functionSpan? hname hfront []
    rwa [List.append_nil] at hfound
  unfold Splice.appendTopLevel
  rw [← htrim]
  split
  · exact ⟨[], rfl, hspan (.inl rfl)⟩
  · exact ⟨t.trim ++ [newline], by simp [Text.concat], hspan (.inr ⟨t.trim, rfl, habsent⟩)⟩

/-- An edit by the header finds again what it has put in place of a function, so that a further edit
overwrites it and what stood there can be put back. At the end of a file it finds what was put there
if there was no header before. -/
theorem put_byHeader_exact (hname : ∀ c ∈ name, c.isBlank = false) (hcontent : Exact name content) :
    (∀ start stop, Header.functionSpan? t name = some (start, stop) →
      ∃ t' : Text, (byHeader t name).put t content = .ok t' ∧
        t' = Offset.before t start ++ content ++ Offset.onward t stop ∧
        Header.functionSpan? t' name = some (start, start + content.length) ∧
        Exact name (Offset.span t start stop) ∧
        (∀ other, Exact name other →
          (byHeader t' name).put t' other = (byHeader t name).put t other) ∧
        (byHeader t' name).put t' (Offset.span t start stop) = .ok t) ∧
    (Header.find? name 0 true t.trim = none → content = content.trim →
      ∃ front, Splice.appendTopLevel t content = front ++ content ∧
        Header.functionSpan? (front ++ content) name =
          some (front.length, (front ++ content).length)) := by
  constructor
  · intro start stop hspan
    obtain ⟨front, body, behind, rfl, rfl, rfl, hfront, hbody⟩ :=
      exists_exact_of_functionSpan? hspan
    have hfound := span_append front body behind
    refine ⟨front ++ content ++ behind, ?_, ?_, ?_, ?_, ?_, ?_⟩
    · rw [put_byHeader, byHeaderText_exact hbody hname hfront hcontent.ne_nil]
    · rw [Offset.onward_append, List.append_assoc front body, Offset.before_append]
    · rw [hcontent.functionSpan? hname hfront behind, List.length_append]
    · rwa [hfound]
    · intro other hother
      rw [put_byHeader, put_byHeader, byHeaderText_exact hbody hname hfront hother.ne_nil,
        byHeaderText_exact hcontent hname hfront hother.ne_nil]
    · rw [hfound, put_byHeader, byHeaderText_exact hcontent hname hfront hbody.ne_nil]
  · intro hnone htrim
    exact hcontent.functionSpan?_appendTopLevel hname (Header.absent_iff.mpr hnone) htrim

namespace OverLines

/-- A function with a header that runs over lines, below the keyword. -/
def text : Text := "function\n\tfunction f\n(a) \x7b\n\x7d\nf(1)"

def replacement : Text := "function\nf() { return }"

end OverLines

open OverLines in
/-- The keyword on the line above belongs to no header, before and after. -/
theorem put_byHeader_exact_overLines :
    (∀ c ∈ ("f" : Text), c.isBlank = false) ∧ Exact "f" replacement ∧
      Header.functionSpan? text "f" = some (9, 28) ∧
      ∃ t' : Text, (byHeader text "f").put text replacement = .ok t' ∧
        Header.functionSpan? t' "f" = some (9, 9 + replacement.length) ∧
        (byHeader t' "f").put t' "\tfunction f\n(a) \x7b\n\x7d" = .ok text := by
  have hname : ∀ c ∈ ("f" : Text), c.isBlank = false := by decide
  have hcontent : Exact "f" replacement := by decide
  have hspan : Header.functionSpan? text "f" = some (9, 28) := by decide
  obtain ⟨t', hput, -, hfound, -, -, hback⟩ :=
    (put_byHeader_exact (t := text) hname hcontent).1 9 28 hspan
  have hold : Offset.span text 9 28 = "\tfunction f\n(a) \x7b\n\x7d" := by decide
  exact ⟨hname, hcontent, hspan, t', hput, hfound, by rwa [← hold]⟩

end SymbolAtlas.EditSite
