import SymbolAtlas.Proofs.Edit.HeaderMatch

/-!
# Headers and the lines before them

A header may run over several lines, as newlines are blanks. Still no header of a name without
blanks starts on a line above a declaration and ends inside of it: behind the newline it would go on
with the name or with the parenthesis, where the declaration has the keyword and then a name of its
own (`Reads.exists_of_line_above`). So a declaration that is put on a new line is the first one of
its name if there was none before that line (`Clear.functionSpan?`).
-/

namespace SymbolAtlas.Header

variable {name t rest : Text}

/-! ## Texts without a header -/

/-- No header of a name can be read at a line start of a text. -/
def Absent (name t : Text) : Prop :=
  ∀ front y rest, t = front ++ y → Text.EndsLine front → ¬ Reads name y rest

theorem find?_eq_none_iff {seen : Nat} {atStart : Bool} :
    find? name seen atStart t = none ↔
      ∀ front y rest, t = front ++ y → LineStarts atStart front → ¬ Reads name y rest := by
  constructor
  · -- A header that can be read is found, or another one before it is.
    intro h
    induction t generalizing seen atStart with
    | nil =>
      intro front y rest heq _ hreads
      rw [(List.append_eq_nil_iff.mp heq.symm).2] at hreads
      exact not_reads_nil hreads
    | cons c t ih =>
      intro front y rest heq hline hreads
      unfold find? at h
      split at h
      · cases h
      next hnone =>
        cases front with
        | nil =>
          obtain rfl : c :: t = y := heq
          rcases hline with ⟨-, hstart⟩ | ⟨s, hs⟩
          · rw [if_pos hstart, read?_eq_some_iff.mpr hreads] at hnone
            cases hnone
          · simp at hs
        | cons d front =>
          obtain ⟨rfl, htail⟩ := List.cons.inj heq
          exact ih h front y rest htail (lineStarts_cons_iff.mp hline) hreads
  · intro h
    cases hfound : find? name seen atStart t with
    | none => rfl
    | some found =>
      obtain ⟨front, y, heq, -, hline, hreads, -⟩ := find?_eq_some_iff.mp hfound
      exact absurd hreads (h front y _ heq hline)

theorem absent_iff : Absent name t ↔ find? name 0 true t = none := by
  rw [find?_eq_none_iff]
  simp only [lineStarts_true_iff]
  exact Iff.rfl

/-! ## Headers that run over a newline -/

section

variable {α : Type} {c : α} {xs ys front rear : List α}

/-- An element stands in the first of two lists or in the second. -/
theorem append_eq_append_cons (h : xs ++ ys = front ++ c :: rear) :
    (∃ m, front = xs ++ m ∧ ys = m ++ c :: rear) ∨ ∃ m, xs = front ++ c :: m ∧ rear = m ++ ys := by
  rcases List.append_eq_append_iff.mp h with ⟨m, hfront, hys⟩ | ⟨m, hxs, hrear⟩
  · exact .inl ⟨m, hfront, hys⟩
  · cases m with
    | nil => exact .inl ⟨[], by simpa using hxs.symm, by simpa using hrear.symm⟩
    | cons d m =>
      obtain ⟨rfl, htail⟩ := List.cons.inj hrear
      exact .inr ⟨m, hxs, htail⟩

theorem append_eq_append_cons_of_notMem (h : xs ++ ys = front ++ c :: rear) (hc : c ∉ xs) :
    ∃ m, front = xs ++ m ∧ ys = m ++ c :: rear := by
  rcases append_eq_append_cons h with hbehind | ⟨m, rfl, -⟩
  · exact hbehind
  · simp at hc

end

/-- A declaration with its header. -/
theorem Reads.eq_keyword_append {decl inside : Text} (h : Reads name decl inside) {d : CodePoint}
    {ds : Text} (hdecl : decl = d :: ds) (hd : d.isBlank = false) :
    ∃ gap pad, decl = keyword ++ (gap ++ (name ++ (pad ++ opening :: inside))) ∧ gap ≠ [] ∧
      (∀ c ∈ gap, c.isBlank = true) ∧ ∀ c ∈ pad, c.isBlank = true := by
  obtain ⟨indent, gap, pad, heq, hindent, hgap⟩ := h
  cases indent with
  | nil => exact ⟨gap, pad, heq, hgap⟩
  | cons c indent =>
    rw [hdecl, List.cons_append] at heq
    obtain ⟨rfl, -⟩ := List.cons.inj heq
    have hblank := isBlank_of_isIndent (hindent d (by simp))
    rw [hd] at hblank
    cases hblank

theorem opening_notMem_keyword : opening ∉ keyword := by decide

theorem isBlank_of_mem_keyword : ∀ c ∈ keyword, c.isBlank = false := by decide

theorem isBlank_opening : opening.isBlank = false := by decide

section

variable {other decl inside lead gap pad above : Text} {d : CodePoint} {ds : Text}
  (h : Reads other decl inside) (hdecl : decl = d :: ds) (hd : d.isBlank = false)
  (hname : ∀ c ∈ name, c.isBlank = false) (hlead : ∀ c ∈ lead, c.isBlank = true)
  (hother : name.head? = keyword.head? →
    ∃ k ks, other = k :: ks ∧ k.isBlank = false ∧ k ≠ opening)

include h hdecl hd

/-- A declaration is not a parenthesis. -/
theorem Reads.head_ne_opening : d ≠ opening := by
  rintro rfl
  obtain ⟨gap, pad, hown, -⟩ := h.eq_keyword_append hdecl hd
  obtain ⟨k, ks, hks, -⟩ := keyword_eq_cons
  rw [hdecl, hks] at hown
  obtain ⟨hk, -⟩ := List.cons.inj hown
  apply opening_notMem_keyword
  rw [hks, hk]
  exact List.mem_cons_self

include hname hlead hother

/-- A name does not stand where the declaration of a function starts. -/
theorem Reads.ne_name_append (hgap : ∀ c ∈ gap, c.isBlank = true)
    (hpad : ∀ c ∈ pad, c.isBlank = true) :
    lead ++ decl ≠ gap ++ (name ++ (pad ++ opening :: rest)) := by
  intro heq
  cases name with
  | nil =>
    have hblank : ∀ c ∈ gap ++ pad, c.isBlank = true := by
      intro c hc
      rcases List.mem_append.mp hc with hc | hc
      · exact hgap c hc
      · exact hpad c hc
    rw [List.nil_append, ← List.append_assoc, hdecl] at heq
    exact h.head_ne_opening hdecl hd
      (append_cons_inj_of_run heq hlead hblank hd isBlank_opening).1
  | cons n ns =>
    obtain ⟨gap', pad', hown, hne, hgap', -⟩ := h.eq_keyword_append hdecl hd
    obtain ⟨k, ks, hks, -, hk⟩ := keyword_eq_cons
    obtain ⟨g, gs, rfl⟩ := List.exists_cons_of_ne_nil hne
    rw [hown, hks] at heq
    obtain ⟨rfl, hrest⟩ := append_cons_inj_of_run heq hlead hgap hk (hname n (by simp))
    obtain ⟨o, os, rfl, ho, hopen⟩ := hother (by rw [hks]; rfl)
    have hword : (k :: ns) ++ (pad ++ opening :: rest) =
        keyword ++ g :: (gs ++ ((o :: os) ++ (pad' ++ opening :: inside))) := by
      rw [hks]
      exact congrArg (k :: ·) hrest.symm
    have hg : g ∉ k :: ns := by
      intro hmem
      have hink := hname g hmem
      rw [hgap' g (by simp)] at hink
      cases hink
    -- The name ends inside the keyword or with it, and the parenthesis does not come next.
    obtain ⟨m, hm, hpadded⟩ := append_eq_append_cons_of_notMem hword hg
    cases m with
    | nil =>
      have hrun : pad ++ opening :: rest =
          (g :: gs) ++ o :: (os ++ (pad' ++ opening :: inside)) := hpadded
      exact hopen (append_cons_inj_of_run hrun hpad hgap' isBlank_opening ho).1.symm
    | cons c m =>
      have hc : c ∈ keyword := by
        rw [hm]
        simp
      have hrun : pad ++ opening :: rest =
          [] ++ c :: (m ++ g :: (gs ++ ((o :: os) ++ (pad' ++ opening :: inside)))) := hpadded
      have hink := isBlank_of_mem_keyword c hc
      apply opening_notMem_keyword
      rwa [(append_cons_inj_of_run hrun hpad (by simp) isBlank_opening hink).1]

/-- A header of a name without blanks that starts on a line above the declaration of a function ends
there. -/
theorem Reads.exists_of_line_above
    (hreads : Reads name (above ++ Text.newline :: (lead ++ decl)) rest) :
    ∃ rest, Reads name above rest := by
  obtain ⟨indent, gap, pad, heq, hindent, hne, hgap, hpad⟩ := hreads
  have hink : ∀ {s : Text}, (∀ c ∈ s, c.isBlank = false) → Text.newline ∉ s := by
    intro s hs hmem
    have hnewline := hs _ hmem
    rw [Text.isBlank_newline] at hnewline
    cases hnewline
  have hindent' : Text.newline ∉ indent := fun hmem => absurd (hindent _ hmem) (by decide)
  -- The newline stands behind the indentation, behind the keyword, and so on.
  obtain ⟨z₁, rfl, h₁⟩ := append_eq_append_cons_of_notMem heq.symm hindent'
  obtain ⟨z₂, rfl, h₂⟩ := append_eq_append_cons_of_notMem h₁ (hink isBlank_of_mem_keyword)
  rcases append_eq_append_cons h₂ with ⟨z₃, rfl, h₃⟩ | ⟨gap', rfl, hbehind⟩
  · obtain ⟨z₄, rfl, h₄⟩ := append_eq_append_cons_of_notMem h₃ (hink hname)
    rcases append_eq_append_cons h₄ with ⟨z₅, rfl, h₅⟩ | ⟨pad', rfl, hbehind⟩
    · cases z₅ with
      | nil =>
        obtain ⟨hnewline, -⟩ := List.cons.inj h₅
        exact absurd hnewline (by decide)
      | cons c rest' =>
        obtain ⟨rfl, -⟩ := List.cons.inj h₅
        exact ⟨rest', indent, gap, pad, by simp, hindent, hne, hgap, hpad⟩
    · have hpad' : ∀ c ∈ pad', c.isBlank = true := fun c hc => hpad c (by simp [hc])
      rw [hdecl] at hbehind
      exact absurd (append_cons_inj_of_run hbehind hlead hpad' hd isBlank_opening).1
        (h.head_ne_opening hdecl hd)
  · have hgap' : ∀ c ∈ gap', c.isBlank = true := fun c hc => hgap c (by simp [hc])
    exact absurd hbehind (h.ne_name_append hdecl hd hname hlead hother hgap' hpad)

end

/-- A name that starts as the keyword does starts with ink that is no parenthesis. -/
theorem exists_cons_of_head?_keyword (h : name.head? = keyword.head?) :
    ∃ k ks, name = k :: ks ∧ k.isBlank = false ∧ k ≠ opening := by
  obtain ⟨k, ks, hks, -, hk⟩ := keyword_eq_cons
  rw [hks, List.head?_cons, List.head?_eq_some_iff] at h
  obtain ⟨ns, rfl⟩ := h
  refine ⟨k, ns, rfl, hk, ?_⟩
  rintro rfl
  apply opening_notMem_keyword
  rw [hks]
  exact List.mem_cons_self

/-! ## Declarations on a new line -/

/-- A text that comes before a line: it is empty, or no header of a name can be read from the lines
that it ends. -/
def Clear (name front : Text) : Prop :=
  front = [] ∨ ∃ above, front = above ++ [Text.newline] ∧ Absent name above

variable {front : Text}

theorem Clear.endsLine (h : Clear name front) : Text.EndsLine front := by
  rcases h with rfl | ⟨above, rfl, -⟩
  · exact .inl rfl
  · exact .inr ⟨above, rfl⟩

/-- Before the first header of a name there is none. -/
theorem FirstBehind.clear {behind : Text} (h : FirstBehind name (front ++ behind) front)
    (hline : Text.EndsLine front) : Clear name front := by
  rcases hline with rfl | ⟨above, rfl⟩
  · exact .inl rfl
  · refine .inr ⟨above, rfl, ?_⟩
    rintro f z r rfl hstarts hreads
    apply h f (z ++ Text.newline :: behind) (r ++ Text.newline :: behind) (by simp) ?_ hstarts
    · exact (reads_append_iff _).mpr hreads
    · simp only [List.length_append, List.length_singleton]
      omega

section

variable {decl indent : Text} {d : CodePoint} {ds : Text}
  (hfront : Clear name front) (hwhole : functionSpan? decl name = some (0, decl.length))
  (hdecl : decl = d :: ds) (hd : d.isBlank = false) (hname : ∀ c ∈ name, c.isBlank = false)

include hfront hwhole hdecl hd hname

theorem Clear.firstBehind {lead : Text} (hlead : ∀ c ∈ lead, c.isBlank = true) (behind : Text) :
    FirstBehind name (front ++ (lead ++ (decl ++ behind))) front := by
  rcases hfront with rfl | ⟨above, rfl, habsent⟩
  · intro f z r _ hlt
    simp at hlt
  · intro f z r heq hlt hstarts hreads
    obtain ⟨inside, hown, -⟩ := functionSpan?_whole_iff.mp hwhole
    have hown' : Reads name (decl ++ behind) (inside ++ behind) :=
      (reads_append_iff behind).mpr hown
    have hdecl' : decl ++ behind = d :: (ds ++ behind) := by rw [hdecl, List.cons_append]
    have hle : f.length ≤ above.length := by
      simp only [List.length_append, List.length_singleton] at hlt
      omega
    -- The place is on a line above, so what is read there ends there.
    obtain ⟨m, rfl⟩ : ∃ m, above = f ++ m := by
      have hprefix : f <+: above ++ Text.newline :: (lead ++ (decl ++ behind)) := by
        refine ⟨z, ?_⟩
        rw [← heq]
        simp
      obtain ⟨m, hm⟩ := List.prefix_of_prefix_length_le hprefix (List.prefix_append ..) hle
      exact ⟨m, hm.symm⟩
    have hfz : f ++ z = f ++ (m ++ Text.newline :: (lead ++ (decl ++ behind))) := by
      rw [← heq]
      simp
    rw [List.append_cancel_left hfz] at hreads
    obtain ⟨r', habove⟩ := hown'.exists_of_line_above hdecl' hd hname hlead
      exists_cons_of_head?_keyword hreads
    exact habsent f m r' rfl hstarts habove

/-- The span of a declaration that is put on a new line. -/
theorem Clear.functionSpan? (hindent : ∀ c ∈ indent, isIndent c = true) (behind : Text) :
    Header.functionSpan? (front ++ indent ++ decl ++ behind) name =
      some (front.length, (front ++ indent ++ decl).length) := by
  have hfirst := hfront.firstBehind hwhole hdecl hd hname
    (fun c hc => isBlank_of_isIndent (hindent c hc)) behind
  rw [← List.append_assoc, ← List.append_assoc] at hfirst
  exact functionSpan?_of_first hfront.endsLine hindent hfirst hwhole

end

/-- A function that is found stands behind lines from which no header can be read, and its own text
is found as a whole. -/
theorem exists_clear_of_functionSpan? {start stop : Nat}
    (h : functionSpan? t name = some (start, stop)) :
    ∃ front body behind, t = front ++ body ++ behind ∧ start = front.length ∧
      stop = (front ++ body).length ∧ Clear name front ∧
      functionSpan? body name = some (0, body.length) := by
  obtain ⟨front, y, inside, rest, rfl, rfl, hline, hreads, hfirst, hbody, rfl⟩ :=
    functionSpan?_eq_some_iff.mp h
  obtain ⟨header, rfl⟩ := hreads.exists_eq_append
  obtain ⟨inner, rfl⟩ := afterBody?_eq_append hbody
  refine ⟨front, header ++ (inner ++ [CodePoint.ofChar '\x7d']), rest, by simp, rfl, ?_,
    hfirst.clear hline,
    functionSpan?_whole_iff.mpr ⟨inner ++ [CodePoint.ofChar '\x7d'], ?_, ?_⟩⟩
  · simp only [List.length_append, List.length_cons, List.length_nil]
    omega
  · rw [← reads_append_iff rest]
    simpa using hreads
  · rw [← afterBody?_append_iff rest]
    simpa using hbody

end SymbolAtlas.Header
