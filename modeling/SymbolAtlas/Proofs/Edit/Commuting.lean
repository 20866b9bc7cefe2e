import SymbolAtlas.Proofs.Edit.Exchange

/-!
# Functions exchanged one after the other

Two functions of different names whose spans lie apart are exchanged by their headers in either
order with the same result (`put_byHeader_comm`). An edit before a function moves it and leaves it
the first of its name: a header of its name that comes earlier would start in the new content, which
has none, or on a line above it, and then end there (`Header.Exact.clear_exchange`).
-/

namespace SymbolAtlas

namespace Header

/-- A name like a word: ink without the brackets that a function has around its parts. Letters,
digits, underscores and dollar signs are such ink. -/
structure IsWord (name : Text) : Prop where
  ne_nil : name ≠ []
  ink : ∀ c ∈ name, c.isBlank = false
  opening_notMem : opening ∉ name
  closing_notMem : CodePoint.ofChar '\x7d' ∉ name

variable {name other t rest front mid old new behind : Text} {c : CodePoint}

theorem IsWord.exists_cons (h : IsWord name) :
    ∃ k ks, name = k :: ks ∧ k.isBlank = false ∧ k ≠ opening := by
  obtain ⟨k, ks, rfl⟩ := List.exists_cons_of_ne_nil h.ne_nil
  refine ⟨k, ks, rfl, h.ink k (by simp), ?_⟩
  rintro rfl
  exact h.opening_notMem (by simp)

/-- A header ends before anything that stands in none. -/
theorem Reads.exists_of_notMem (h : Reads name (front ++ c :: behind) rest)
    (hc : c.isBlank = false) (hopening : c ≠ opening) (hkeyword : c ∉ keyword) (hname : c ∉ name) :
    ∃ rest, Reads name front rest := by
  obtain ⟨indent, gap, pad, heq, hindent, hne, hgap, hpad⟩ := h
  have hblank : ∀ {s : Text}, (∀ d ∈ s, d.isBlank = true) → c ∉ s := by
    intro s hs hmem
    rw [hs c hmem] at hc
    cases hc
  have hindent' : c ∉ indent := hblank fun d hd => isBlank_of_isIndent (hindent d hd)
  obtain ⟨z₁, rfl, h₁⟩ := append_eq_append_cons_of_notMem heq.symm hindent'
  obtain ⟨z₂, rfl, h₂⟩ := append_eq_append_cons_of_notMem h₁ hkeyword
  obtain ⟨z₃, rfl, h₃⟩ := append_eq_append_cons_of_notMem h₂ (hblank hgap)
  obtain ⟨z₄, rfl, h₄⟩ := append_eq_append_cons_of_notMem h₃ hname
  obtain ⟨z₅, rfl, h₅⟩ := append_eq_append_cons_of_notMem h₄ (hblank hpad)
  cases z₅ with
  | nil => exact absurd (List.cons.inj h₅).1.symm hopening
  | cons d rest =>
    obtain ⟨rfl, -⟩ := List.cons.inj h₅
    exact ⟨rest, indent, gap, pad, by simp, hindent, hne, hgap, hpad⟩

/-! ## Headers in texts that are put together -/

/-- No header of a name can be read behind a newline of a text. -/
def AbsentBelow (name t : Text) : Prop :=
  ∀ above y rest, t = above ++ Text.newline :: y → ¬ Reads name y rest

theorem exists_concat_of_endsLine (h : Text.EndsLine (front ++ behind)) (hne : behind ≠ []) :
    ∃ s, behind = s ++ [Text.newline] := by
  rcases List.eq_nil_or_concat behind with rfl | ⟨s, c, rfl⟩
  · exact absurd rfl hne
  · rw [List.concat_eq_append] at h ⊢
    rcases h with hnil | ⟨s', hs⟩
    · simp at hnil
    · rw [← List.append_assoc, List.append_singleton_inj] at hs
      exact ⟨s, by rw [hs.2]⟩

theorem not_endsLine_closed : ¬ Text.EndsLine (front ++ [CodePoint.ofChar '\x7d']) := by
  intro h
  obtain ⟨s, hs⟩ := exists_concat_of_endsLine h (by simp)
  have hlast := congrArg List.getLast? hs
  rw [List.getLast?_singleton, List.getLast?_concat] at hlast
  exact absurd hlast (by decide)

/-- A header that starts in a text which ends with a closing brace ends there too. -/
theorem absent_append_closed_iff (hname : IsWord name)
    (hclosed : t = front ++ [CodePoint.ofChar '\x7d']) :
    Absent name (t ++ behind) ↔ Absent name t ∧ AbsentBelow name behind := by
  constructor
  · intro h
    constructor
    · rintro p y rest rfl hline hreads
      exact h p (y ++ behind) (rest ++ behind) (by simp) hline ((reads_append_iff _).mpr hreads)
    · rintro above y rest rfl hreads
      exact h (t ++ above ++ [Text.newline]) y rest (by simp) (.inr ⟨t ++ above, rfl⟩) hreads
  · rintro ⟨hfirst, hbelow⟩ p y rest heq hline hreads
    rcases List.append_eq_append_iff.mp heq with ⟨q, rfl, rfl⟩ | ⟨m, hm, rfl⟩
    · -- The header starts behind the text, on a new line.
      rcases eq_or_ne q [] with rfl | hq
      · rw [List.append_nil, hclosed] at hline
        exact not_endsLine_closed hline
      · obtain ⟨above, rfl⟩ := exists_concat_of_endsLine hline hq
        exact hbelow above y rest (by simp) hreads
    · -- The header starts in the text, and the brace is behind it.
      rcases List.eq_nil_or_concat m with rfl | ⟨inner, d, rfl⟩
      · rw [List.append_nil] at hm
        rw [← hm, hclosed] at hline
        exact not_endsLine_closed hline
      · rw [List.concat_eq_append] at hm hreads
        rw [hclosed, ← List.append_assoc, List.append_singleton_inj] at hm
        obtain ⟨rfl, rfl⟩ := hm
        rw [List.append_assoc] at hreads
        obtain ⟨r, hr⟩ :=
          hreads.exists_of_notMem (by decide) (by decide) (by decide) hname.closing_notMem
        refine hfirst p (inner ++ [CodePoint.ofChar '\x7d']) _ (by rw [hclosed]; simp) hline
          ((reads_append_iff _).mpr hr)

/-- Lines from which no header can be read and a text with none make a text with none if a function
starts the text. -/
theorem Clear.absent_append {indent inside ds : Text} {d : CodePoint} (h : Clear name front)
    (hname : IsWord name) (hother : IsWord other) (hindent : ∀ c ∈ indent, isIndent c = true)
    (hd : d.isBlank = false) (hreads : Reads other (d :: ds) inside)
    (habsent : Absent name (indent ++ d :: ds)) : Absent name (front ++ (indent ++ d :: ds)) := by
  intro p y rest heq hline hy
  rcases List.append_eq_append_iff.mp heq with ⟨q, rfl, hq⟩ | ⟨m, hm, rfl⟩
  · refine habsent q y rest hq ?_ hy
    rcases eq_or_ne q [] with rfl | hne
    · exact .inl rfl
    · exact .inr (exists_concat_of_endsLine hline hne)
  · -- The header starts on a line above, and ends there.
    rcases eq_or_ne m [] with rfl | hne
    · exact habsent [] _ rest rfl (.inl rfl) hy
    · obtain ⟨lines, rfl⟩ := exists_concat_of_endsLine (hm ▸ h.endsLine) hne
      rcases h with rfl | ⟨above, rfl, hnone⟩
      · simp at hm
      · rw [← List.append_assoc, List.append_singleton_inj] at hm
        obtain ⟨rfl, -⟩ := hm
        have hlead : ∀ c ∈ indent, c.isBlank = true :=
          fun c hc => isBlank_of_isIndent (hindent c hc)
        rw [List.append_assoc] at hy
        obtain ⟨r, hr⟩ := hreads.exists_of_line_above rfl hd hname.ink hlead
          (fun _ => hother.exists_cons) hy
        exact hnone p lines r rfl hline hr

theorem Absent.clear (h : Absent name (front ++ behind)) (hline : Text.EndsLine front) :
    Clear name front := by
  rcases hline with rfl | ⟨above, rfl⟩
  · exact .inl rfl
  · refine .inr ⟨above, rfl, ?_⟩
    rintro p y rest rfl hline hreads
    exact h p _ _ (by simp) hline ((reads_append_iff (Text.newline :: behind)).mpr hreads)

end Header

namespace EditSite

open Header (Absent Clear IsWord)

variable {f g t front mid behind old new : Text}

/-- A function further down stays the first of its name if another function is exchanged for a text
without a header of the name. -/
theorem Exact.clear_exchange (hold : Exact f old) (hnew : Exact f new) (hf : IsWord f)
    (hg : IsWord g) (hfront : Clear f front) (habsent : Absent g new)
    (hclear : Clear g (front ++ old ++ mid)) : Clear g (front ++ new ++ mid) := by
  obtain ⟨inner, hinner⟩ := hold.exists_concat
  obtain ⟨inner', hinner'⟩ := hnew.exists_concat
  rcases hclear with hnil | ⟨above, habove, hnone⟩
  · simp [hold.ne_nil] at hnil
  · -- The line break before the function further down stands behind the one that is exchanged.
    have hmid : mid ≠ [] := by
      rintro rfl
      rw [List.append_nil, hinner, ← List.append_assoc] at habove
      exact Header.not_endsLine_closed (.inr ⟨above, habove⟩)
    obtain ⟨lines, rfl⟩ := Header.exists_concat_of_endsLine (.inr ⟨above, habove⟩) hmid
    rw [← List.append_assoc, List.append_singleton_inj] at habove
    obtain ⟨rfl, -⟩ := habove
    refine .inr ⟨front ++ new ++ lines, by simp, ?_⟩
    obtain ⟨hfirst, hbelow⟩ := (Header.absent_append_closed_iff (t := front ++ old) hg
      (by rw [hinner, ← List.append_assoc])).mp hnone
    refine (Header.absent_append_closed_iff (t := front ++ new) hg
      (by rw [hinner', ← List.append_assoc])).mpr ⟨?_, hbelow⟩
    obtain ⟨indent, d, ds, rfl, hindent, hd, hwhole⟩ := hnew.exists_indent
    obtain ⟨inside, hreads, -⟩ := Header.functionSpan?_whole_iff.mp hwhole
    exact (hfirst.clear hfront.endsLine).absent_append hg hf hindent hd hreads habsent

/-- The text with two spans replaced, the one further up first. -/
def spliceTwo (t : Text) (start₁ stop₁ : Nat) (new₁ : Text) (start₂ stop₂ : Nat) (new₂ : Text) :
    Text :=
  t.take start₁ ++ new₁ ++ (t.take start₂).drop stop₁ ++ new₂ ++ t.drop stop₂

theorem spliceTwo_append (front old₁ mid old₂ behind new₁ new₂ : Text) :
    spliceTwo (front ++ old₁ ++ mid ++ old₂ ++ behind) front.length (front ++ old₁).length new₁
      (front ++ old₁ ++ mid).length (front ++ old₁ ++ mid ++ old₂).length new₂ =
        front ++ new₁ ++ mid ++ new₂ ++ behind := by
  have hfront : (front ++ old₁ ++ mid ++ old₂ ++ behind).take front.length = front := by
    simp only [List.append_assoc, List.take_left]
  have hmid : ((front ++ old₁ ++ mid ++ old₂ ++ behind).take (front ++ old₁ ++ mid).length).drop
      (front ++ old₁).length = mid := by
    rw [List.append_assoc _ old₂, List.take_left, List.drop_left]
  rw [spliceTwo, hfront, hmid, List.drop_left]

/-- Two functions are exchanged in either order, the first one further up. -/
theorem byHeaderText_exchange {start₁ stop₁ start₂ stop₂ : Nat} {F G : Text} (hf : IsWord f)
    (hg : IsWord g) (hspanf : Header.functionSpan? t f = some (start₁, stop₁))
    (hspang : Header.functionSpan? t g = some (start₂, stop₂)) (hle : stop₁ ≤ start₂)
    (hF : Exact f F) (hG : Exact g G) (habsent : Absent g F) :
    byHeaderText (byHeaderText t f F) g G = spliceTwo t start₁ stop₁ F start₂ stop₂ G ∧
      byHeaderText (byHeaderText t g G) f F = spliceTwo t start₁ stop₁ F start₂ stop₂ G := by
  obtain ⟨front, old, rear, rfl, rfl, rfl, hfront, hold⟩ := exists_exact_of_functionSpan? hspanf
  obtain ⟨front', old', behind, ht, rfl, rfl, hfront', hold'⟩ :=
    exists_exact_of_functionSpan? hspang
  obtain ⟨mid, rfl⟩ : ∃ mid, front' = front ++ old ++ mid := by
    have hprefix : front' <+: front ++ old ++ rear := ⟨old' ++ behind, by rw [ht]; simp⟩
    obtain ⟨mid, hmid⟩ := List.prefix_of_prefix_length_le (List.prefix_append ..) hprefix hle
    exact ⟨mid, hmid.symm⟩
  rw [ht, spliceTwo_append]
  -- The function further down, seen from the one further up, belongs to what follows.
  have hcut : ∀ x y : Text, front ++ x ++ mid ++ y ++ behind =
      front ++ x ++ (mid ++ y ++ behind) := by simp
  have hclear := hold.clear_exchange hF hf hg hfront habsent hfront'
  constructor
  · rw [hcut old, byHeaderText_exact hold hf.ink hfront hF.ne_nil, ← hcut F,
      byHeaderText_exact hold' hg.ink hclear hG.ne_nil]
  · rw [byHeaderText_exact hold' hg.ink hfront' hG.ne_nil, hcut old,
      byHeaderText_exact hold hf.ink hfront hF.ne_nil, ← hcut F]

/-- Two functions whose spans lie apart are exchanged in either order with the same result: both
spans are replaced, and all else is kept. -/
theorem put_byHeader_comm {start₁ stop₁ start₂ stop₂ : Nat} {F G : Text} (hf : IsWord f)
    (hg : IsWord g) (hspanf : Header.functionSpan? t f = some (start₁, stop₁))
    (hspang : Header.functionSpan? t g = some (start₂, stop₂))
    (hapart : stop₁ ≤ start₂ ∨ stop₂ ≤ start₁) (hF : Exact f F) (hG : Exact g G)
    (hgF : Header.find? g 0 true F = none) (hfG : Header.find? f 0 true G = none) :
    ∃ t₁ t₂ t' : Text,
      (byHeader t f).put t F = .ok t₁ ∧ (byHeader t₁ g).put t₁ G = .ok t' ∧
      (byHeader t g).put t G = .ok t₂ ∧ (byHeader t₂ f).put t₂ F = .ok t' ∧
      t' = if stop₁ ≤ start₂ then spliceTwo t start₁ stop₁ F start₂ stop₂ G
        else spliceTwo t start₂ stop₂ G start₁ stop₁ F := by
  have hboth : ∀ t', byHeaderText (byHeaderText t f F) g G = t' →
      byHeaderText (byHeaderText t g G) f F = t' → ∃ t₁ t₂ : Text,
        (byHeader t f).put t F = .ok t₁ ∧ (byHeader t₁ g).put t₁ G = .ok t' ∧
        (byHeader t g).put t G = .ok t₂ ∧ (byHeader t₂ f).put t₂ F = .ok t' := by
    rintro t' h₁ h₂
    exact ⟨_, _, put_byHeader .., by rw [put_byHeader, h₁], put_byHeader ..,
      by rw [put_byHeader, h₂]⟩
  by_cases hle : stop₁ ≤ start₂
  · obtain ⟨h₁, h₂⟩ :=
      byHeaderText_exchange hf hg hspanf hspang hle hF hG (Header.absent_iff.mpr hgF)
    obtain ⟨t₁, t₂, hputs⟩ := hboth _ h₁ h₂
    exact ⟨t₁, t₂, _, hputs.1, hputs.2.1, hputs.2.2.1, hputs.2.2.2, (if_pos hle).symm⟩
  · obtain ⟨h₂, h₁⟩ := byHeaderText_exchange hg hf hspang hspanf (hapart.resolve_left hle) hG hF
      (Header.absent_iff.mpr hfG)
    obtain ⟨t₁, t₂, hputs⟩ := hboth _ h₁ h₂
    exact ⟨t₁, t₂, _, hputs.1, hputs.2.1, hputs.2.2.1, hputs.2.2.2, (if_neg hle).symm⟩

namespace Neighbours

/-- Two functions, the second one with a header that runs over lines. -/
def text : Text := "function g() {}\n\nfunction\n  $f\n() {}"

def contentF : Text := "function $f(a) \x7b\n  g(a)\n\x7d"

def contentG : Text := "  function\n\tg(a) { $f() }"

end Neighbours

open Neighbours in
/-- Each function calls the other one in its new form, and the second one is exchanged first or
last. -/
theorem put_byHeader_comm_neighbours :
    IsWord "$f" ∧ IsWord "g" ∧ Header.functionSpan? text "$f" = some (17, 36) ∧
      Header.functionSpan? text "g" = some (0, 15) ∧ Exact "$f" contentF ∧ Exact "g" contentG ∧
      ∃ t₁ t₂ : Text,
        (byHeader text "$f").put text contentF = .ok t₁ ∧
        (byHeader t₁ "g").put t₁ contentG = .ok (contentG ++ "\n\n" ++ contentF) ∧
        (byHeader text "g").put text contentG = .ok t₂ ∧
        (byHeader t₂ "$f").put t₂ contentF = .ok (contentG ++ "\n\n" ++ contentF) := by
  have hf : IsWord "$f" := ⟨by decide, by decide, by decide, by decide⟩
  have hg : IsWord "g" := ⟨by decide, by decide, by decide, by decide⟩
  have hspanf : Header.functionSpan? text "$f" = some (17, 36) := by decide
  have hspang : Header.functionSpan? text "g" = some (0, 15) := by decide
  have hF : Exact "$f" contentF := by decide
  have hG : Exact "g" contentG := by decide
  obtain ⟨t₁, t₂, t', h₁, h₂, h₃, h₄, ht'⟩ :=
    put_byHeader_comm hf hg hspanf hspang (.inr (by decide)) hF hG (by decide) (by decide)
  have hresult : t' = contentG ++ "\n\n" ++ contentF := by
    rw [ht']
    decide
  rw [hresult] at h₂ h₄
  exact ⟨hf, hg, hspanf, hspang, hF, hG, t₁, t₂, h₁, h₂, h₃, h₄⟩

end EditSite

end SymbolAtlas
