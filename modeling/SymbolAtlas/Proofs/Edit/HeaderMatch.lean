import SymbolAtlas.Edit.Header
import SymbolAtlas.Proofs.Text.CodeLines

/-!
# What the header matcher finds

`Header.Reads` says what a header is, without the order in which the matcher tries its readings;
`read?_eq_some_iff` says that the matcher reads headers and nothing else. A header and the brackets
behind it are read from a declaration alone as they are read from the file around it, so the span
that is found in a file can be told from the declaration and from what stands before it
(`functionSpan?_eq_some_iff`).
-/

namespace SymbolAtlas.Header

open Text (after?_eq_some_iff)

section Lists

variable {α : Type} {p : α → Bool} {c d : α} {xs ys : List α}

theorem dropWhile_eq_cons_iff {l : List α} :
    l.dropWhile p = c :: ys ↔
      ∃ front, l = front ++ c :: ys ∧ (∀ x ∈ front, p x = true) ∧ p c = false := by
  constructor
  · intro h
    refine ⟨l.takeWhile p, ?_, fun x hx => List.mem_takeWhile_imp hx, ?_⟩
    · rw [← h, List.takeWhile_append_dropWhile]
    · have hhead := List.head?_dropWhile_not p l
      rw [h] at hhead
      simpa using hhead
  · rintro ⟨front, rfl, hfront, hc⟩
    rw [List.dropWhile_append_of_pos hfront, List.dropWhile_cons_of_neg (by simp [hc])]

/-- A run that is left out ends where the first other element stands. -/
theorem append_cons_inj_of_run {fs gs : List α} (h : fs ++ c :: xs = gs ++ d :: ys)
    (hf : ∀ x ∈ fs, p x = true) (hg : ∀ x ∈ gs, p x = true) (hc : p c = false)
    (hd : p d = false) : c = d ∧ xs = ys := by
  have hx : (fs ++ c :: xs).dropWhile p = c :: xs :=
    dropWhile_eq_cons_iff.mpr ⟨fs, rfl, hf, hc⟩
  have hy : (gs ++ d :: ys).dropWhile p = d :: ys :=
    dropWhile_eq_cons_iff.mpr ⟨gs, rfl, hg, hd⟩
  rw [h, hy] at hx
  exact List.cons.inj hx.symm

end Lists

/-! ## Reading a header -/

/-- The parenthesis that ends a header. -/
abbrev opening : CodePoint := '('

/-- A header of `name` stands at the start of a text, and `rest` follows it. -/
def Reads (name t rest : Text) : Prop :=
  ∃ indent gap pad, t = indent ++ (keyword ++ (gap ++ (name ++ (pad ++ opening :: rest)))) ∧
    (∀ c ∈ indent, isIndent c = true) ∧ gap ≠ [] ∧ (∀ c ∈ gap, c.isBlank = true) ∧
    (∀ c ∈ pad, c.isBlank = true)

variable {name t rest : Text}

theorem afterName?_eq_some_iff :
    afterName? name t = some rest ↔
      ∃ pad, t = name ++ (pad ++ opening :: rest) ∧ ∀ c ∈ pad, c.isBlank = true := by
  unfold afterName?
  constructor
  · intro h
    split at h
    · next c tail htail =>
      split at h
      · next hc =>
        obtain rfl := Option.some.inj h
        obtain ⟨y, hy, htrim⟩ := Option.map_eq_some_iff.mp htail
        obtain ⟨pad, hpad, hblank, -⟩ := dropWhile_eq_cons_iff.mp htrim
        refine ⟨pad, ?_, hblank⟩
        rw [after?_eq_some_iff.mp hy, hpad, hc]
      · simp at h
    · simp at h
  · rintro ⟨pad, rfl, hblank⟩
    have hafter : Text.after? name (name ++ (pad ++ opening :: rest)) =
        some (pad ++ opening :: rest) := after?_eq_some_iff.mpr rfl
    have htrim : Text.trimStart (pad ++ opening :: rest) = opening :: rest :=
      dropWhile_eq_cons_iff.mpr ⟨pad, rfl, hblank, by decide⟩
    simp [hafter, htrim]

/-- However many of the blanks before the name are counted to it, the rest is the same. -/
theorem afterName?_unique {g₁ g₂ z₁ z₂ r₁ r₂ : Text} (h : g₁ ++ z₁ = g₂ ++ z₂)
    (hg₁ : ∀ c ∈ g₁, c.isBlank = true) (hg₂ : ∀ c ∈ g₂, c.isBlank = true)
    (hz₁ : afterName? name z₁ = some r₁) (hz₂ : afterName? name z₂ = some r₂) : r₁ = r₂ := by
  obtain ⟨p₁, rfl, hp₁⟩ := afterName?_eq_some_iff.mp hz₁
  obtain ⟨p₂, rfl, hp₂⟩ := afterName?_eq_some_iff.mp hz₂
  have hopen : opening.isBlank = false := by decide
  have hname : ∀ y : Text, (name ++ y).dropWhile CodePoint.isBlank =
      if (name.dropWhile CodePoint.isBlank).isEmpty then y.dropWhile CodePoint.isBlank
      else name.dropWhile CodePoint.isBlank ++ y := fun y => List.dropWhile_append
  have hdrop := congrArg (List.dropWhile CodePoint.isBlank) h
  rw [List.dropWhile_append_of_pos hg₁, List.dropWhile_append_of_pos hg₂, hname, hname] at hdrop
  -- A name of blanks leaves the parenthesis as the first ink; otherwise the name has it.
  split at hdrop
  · rw [dropWhile_eq_cons_iff.mpr ⟨p₁, rfl, hp₁, hopen⟩,
      dropWhile_eq_cons_iff.mpr ⟨p₂, rfl, hp₂, hopen⟩] at hdrop
    exact (List.cons.inj hdrop).2
  · exact (append_cons_inj_of_run (List.append_cancel_left hdrop) hp₁ hp₂ hopen hopen).2

theorem afterBlanks?_eq_some_iff :
    afterBlanks? name t = some rest ↔
      ∃ gap z, t = gap ++ z ∧ gap ≠ [] ∧ (∀ c ∈ gap, c.isBlank = true) ∧
        afterName? name z = some rest := by
  induction t generalizing rest with
  | nil =>
    simp only [afterBlanks?, reduceCtorEq, false_iff]
    rintro ⟨gap, z, hz, hgap, -⟩
    exact hgap (List.append_eq_nil_iff.mp hz.symm).1
  | cons c t ih =>
    constructor
    · intro h
      unfold afterBlanks? at h
      split at h
      · next hc =>
        split at h
        · next longer hlonger =>
          obtain rfl := Option.some.inj h
          obtain ⟨gap, z, rfl, -, hblank, hz⟩ := ih.mp hlonger
          exact ⟨c :: gap, z, rfl, by simp, by simpa [hc] using hblank, hz⟩
        · exact ⟨[c], t, rfl, by simp, by simpa using hc, h⟩
      · simp at h
    · rintro ⟨gap, z, heq, hgap, hblank, hz⟩
      obtain ⟨d, gap, rfl⟩ := List.exists_cons_of_ne_nil hgap
      obtain ⟨rfl, rfl⟩ := List.cons.inj heq
      have hc : c.isBlank = true := hblank c (by simp)
      have hgap' : ∀ d ∈ gap, d.isBlank = true := fun d hd => hblank d (by simp [hd])
      unfold afterBlanks?
      rw [if_pos hc]
      -- More blanks are tried first, and lead to the same rest.
      cases hlonger : afterBlanks? name (gap ++ z) with
      | some longer =>
        obtain ⟨gap₂, z₂, heq₂, -, hblank₂, hz₂⟩ := ih.mp hlonger
        rw [afterName?_unique heq₂ hgap' hblank₂ hz hz₂]
      | none =>
        cases gap with
        | nil => exact hz
        | cons d gap =>
          have hsome : afterBlanks? name (d :: gap ++ z) = some rest :=
            ih.mpr ⟨d :: gap, z, rfl, by simp, hgap', hz⟩
          rw [hlonger] at hsome
          simp at hsome

theorem keyword_eq_cons :
    ∃ k ks, keyword = k :: ks ∧ isIndent k = false ∧ k.isBlank = false :=
  ⟨_, _, rfl, by decide, by decide⟩

/-- The matcher reads headers and nothing else. -/
theorem read?_eq_some_iff : read? name t = some rest ↔ Reads name t rest := by
  obtain ⟨k, ks, hks, hk, -⟩ := keyword_eq_cons
  unfold read? Reads
  constructor
  · intro h
    obtain ⟨y, hy, hblanks⟩ := Option.bind_eq_some_iff.mp h
    obtain ⟨gap, z, rfl, hgap, hblank, hz⟩ := afterBlanks?_eq_some_iff.mp hblanks
    obtain ⟨pad, rfl, hpad⟩ := afterName?_eq_some_iff.mp hz
    refine ⟨t.takeWhile isIndent, gap, pad, ?_, fun c hc => List.mem_takeWhile_imp hc, hgap, hblank,
      hpad⟩
    rw [← after?_eq_some_iff.mp hy, List.takeWhile_append_dropWhile]
  · rintro ⟨indent, gap, pad, rfl, hindent, hgap, hblank, hpad⟩
    have hdrop :
        (indent ++ (keyword ++ (gap ++ (name ++ (pad ++ opening :: rest))))).dropWhile isIndent =
          keyword ++ (gap ++ (name ++ (pad ++ opening :: rest))) := by
      rw [hks]
      exact dropWhile_eq_cons_iff.mpr ⟨indent, rfl, hindent, hk⟩
    rw [hdrop, after?_eq_some_iff.mpr rfl, Option.bind_some]
    exact afterBlanks?_eq_some_iff.mpr
      ⟨gap, _, rfl, hgap, hblank, afterName?_eq_some_iff.mpr ⟨pad, rfl, hpad⟩⟩

/-- A header is read in the same way whatever follows. -/
theorem reads_append_iff (behind : Text) :
    Reads name (t ++ behind) (rest ++ behind) ↔ Reads name t rest := by
  unfold Reads
  constructor
  · rintro ⟨indent, gap, pad, heq, h⟩
    have hsame : t ++ behind =
        indent ++ (keyword ++ (gap ++ (name ++ (pad ++ opening :: rest)))) ++ behind := by
      rw [heq]
      simp
    exact ⟨indent, gap, pad, List.append_cancel_right hsame, h⟩
  · rintro ⟨indent, gap, pad, rfl, h⟩
    exact ⟨indent, gap, pad, by simp, h⟩

theorem isBlank_of_isIndent {c : CodePoint} (h : isIndent c = true) : c.isBlank = true := by
  simp only [isIndent, Bool.or_eq_true, decide_eq_true_eq] at h
  rcases h with rfl | rfl <;> decide

/-- Indentation before a header belongs to it. -/
theorem Reads.indent (h : Reads name t rest) {indent : Text}
    (hindent : ∀ c ∈ indent, isIndent c = true) : Reads name (indent ++ t) rest := by
  obtain ⟨own, gap, pad, rfl, hown, h⟩ := h
  refine ⟨indent ++ own, gap, pad, by simp, ?_, h⟩
  intro c hc
  rcases List.mem_append.mp hc with hc | hc
  · exact hindent c hc
  · exact hown c hc

/-- Blanks before a header that stands at the first ink of its line are its indentation. -/
theorem Reads.of_blanks {blanks : Text} (h : Reads name (blanks ++ t) rest)
    (hblanks : ∀ c ∈ blanks, c.isBlank = true) {d : CodePoint} {ds : Text} (ht : t = d :: ds)
    (hd : d.isBlank = false) : (∀ c ∈ blanks, isIndent c = true) ∧ Reads name t rest := by
  obtain ⟨indent, gap, pad, heq, hindent, h⟩ := h
  have hsame : t = keyword ++ (gap ++ (name ++ (pad ++ opening :: rest))) := by
    obtain ⟨k, ks, hks, -, hk⟩ := keyword_eq_cons
    have hdrop := congrArg (List.dropWhile CodePoint.isBlank) heq
    rw [dropWhile_eq_cons_iff.mpr ⟨blanks, by rw [ht], hblanks, hd⟩, hks, List.cons_append,
      dropWhile_eq_cons_iff.mpr ⟨indent, rfl, fun c hc => isBlank_of_isIndent (hindent c hc), hk⟩,
      ← ht, ← List.cons_append, ← hks] at hdrop
    exact hdrop
  rw [hsame] at heq
  rw [List.append_cancel_right heq]
  exact ⟨hindent, [], gap, pad, hsame, by simp, h⟩

theorem not_reads_nil : ¬ Reads name [] rest := by
  rintro ⟨indent, gap, pad, heq, -⟩
  simp [keyword, Text.ofString] at heq

theorem Reads.exists_eq_append (h : Reads name t rest) : ∃ header, t = header ++ rest := by
  obtain ⟨indent, gap, pad, rfl, -⟩ := h
  exact ⟨indent ++ (keyword ++ (gap ++ (name ++ (pad ++ [opening])))), by simp⟩

/-! ## Looking for a header -/

/-- A line starts behind a text: the text is empty, where a line is known to start, or it ends with
a newline. -/
def LineStarts (atStart : Bool) (front : Text) : Prop :=
  (front = [] ∧ atStart = true) ∨ ∃ s, front = s ++ [Text.newline]

theorem lineStarts_cons_iff {atStart : Bool} {c : CodePoint} {front : Text} :
    LineStarts atStart (c :: front) ↔ LineStarts (c = Text.newline) front := by
  unfold LineStarts
  constructor
  · rintro (⟨h, -⟩ | ⟨s, hs⟩)
    · cases h
    · cases s with
      | nil =>
        obtain ⟨rfl, rfl⟩ := List.cons.inj hs
        exact .inl ⟨rfl, by simp⟩
      | cons d s => exact .inr ⟨s, (List.cons.inj hs).2⟩
  · rintro (⟨rfl, hc⟩ | ⟨s, rfl⟩)
    · exact .inr ⟨[], by simpa using hc⟩
    · exact .inr ⟨c :: s, rfl⟩

theorem lineStarts_true_iff {front : Text} : LineStarts true front ↔ Text.EndsLine front := by
  simp [LineStarts, Text.EndsLine]

/-- The matcher finds the first line start at which a header can be read. -/
theorem find?_eq_some_iff {seen start : Nat} {atStart : Bool} :
    find? name seen atStart t = some (start, rest) ↔
      ∃ front y, t = front ++ y ∧ start = seen + front.length ∧ LineStarts atStart front ∧
        Reads name y rest ∧ ∀ f z r, t = f ++ z → f.length < front.length → LineStarts atStart f →
          ¬ Reads name z r := by
  -- By induction on the text; a place in the tail is a place in the text, one code point on.
  induction t generalizing seen atStart with
  | nil =>
    simp only [find?, reduceCtorEq, false_iff]
    rintro ⟨front, y, heq, -, -, hreads, -⟩
    rw [(List.append_eq_nil_iff.mp heq.symm).2] at hreads
    exact not_reads_nil hreads
  | cons c t ih =>
    have hhere : (if atStart then read? name (c :: t) else none) = none ↔
        (atStart = true → ∀ r, ¬ Reads name (c :: t) r) := by
      cases atStart with
      | false => simp
      | true =>
        simp only [if_true, forall_const, ← read?_eq_some_iff]
        exact Option.eq_none_iff_forall_ne_some
    constructor
    · intro h
      unfold find? at h
      split at h
      · next r hr =>
        obtain ⟨rfl, rfl⟩ := Prod.mk.inj (Option.some.inj h)
        split at hr
        · next hstart =>
          exact ⟨[], c :: t, rfl, rfl, .inl ⟨rfl, hstart⟩, read?_eq_some_iff.mp hr, by simp⟩
        · simp at hr
      · next hnone =>
        obtain ⟨front, y, rfl, rfl, hline, hreads, hfirst⟩ := ih.mp h
        refine ⟨c :: front, y, rfl, by simp only [List.length_cons]; omega,
          lineStarts_cons_iff.mpr hline, hreads, ?_⟩
        intro f z r heq hlt hstarts
        cases f with
        | nil =>
          obtain rfl : c :: (front ++ y) = z := heq
          rcases hstarts with ⟨-, hstart⟩ | ⟨s, hs⟩
          · exact hhere.mp hnone hstart r
          · simp at hs
        | cons d f =>
          obtain ⟨rfl, htail⟩ := List.cons.inj heq
          exact hfirst f z r htail (by simpa using hlt) (lineStarts_cons_iff.mp hstarts)
    · rintro ⟨front, y, heq, rfl, hline, hreads, hfirst⟩
      unfold find?
      cases front with
      | nil =>
        obtain rfl : c :: t = y := heq
        rcases hline with ⟨-, hstart⟩ | ⟨s, hs⟩
        · simp [hstart, read?_eq_some_iff.mpr hreads]
        · simp at hs
      | cons d front =>
        obtain ⟨rfl, htail⟩ := List.cons.inj heq
        have hnone := hhere.mpr fun hstart r =>
          hfirst [] (c :: t) r rfl (by simp) (.inl ⟨rfl, hstart⟩)
        simp only [hnone]
        refine ih.mpr ⟨front, y, htail, by simp only [List.length_cons]; omega,
          lineStarts_cons_iff.mp hline, hreads, ?_⟩
        intro f z r htail' hlt hstarts
        exact hfirst (c :: f) z r (by rw [htail']; rfl) (by simpa using hlt)
          (lineStarts_cons_iff.mpr hstarts)

/-! ## Closing brackets -/

section Closing

variable {opened closed : CodePoint} {depth : Nat}

/-- What is read up to a closing bracket ends with it. -/
theorem afterClosing?_eq_append (h : afterClosing? opened closed depth t = some rest) :
    ∃ inside, t = inside ++ closed :: rest := by
  fun_induction afterClosing? opened closed depth t with
  | case1 => simp at h
  | case2 depth t ih =>
    obtain ⟨inside, rfl⟩ := ih h
    exact ⟨opened :: inside, rfl⟩
  | case3 t => exact ⟨[], by rw [Option.some.inj h]; rfl⟩
  | case4 t => exact ⟨[], by rw [Option.some.inj h]; rfl⟩
  | case5 t _ depth ih =>
    obtain ⟨inside, rfl⟩ := ih h
    exact ⟨closed :: inside, rfl⟩
  | case6 depth c t _ _ ih =>
    obtain ⟨inside, rfl⟩ := ih h
    exact ⟨c :: inside, rfl⟩

/-- Brackets are closed in the same way whatever follows. -/
theorem afterClosing?_append_iff (behind : Text) :
    afterClosing? opened closed depth (t ++ behind) = some (rest ++ behind) ↔
      afterClosing? opened closed depth t = some rest := by
  induction t generalizing depth with
  | nil =>
    simp only [List.nil_append, afterClosing?, reduceCtorEq, iff_false]
    intro h
    obtain ⟨inside, heq⟩ := afterClosing?_eq_append h
    have := congrArg List.length heq
    simp at this
    omega
  | cons c t ih =>
    rw [List.cons_append]
    unfold afterClosing?
    split
    · exact ih
    · split
      · split
        · simp
        · simp
        · exact ih
      · exact ih

end Closing

/-- The brace that opens a body. -/
abbrev brace : CodePoint := '\x7b'

/-- What follows the body of a function, behind the opening parenthesis of its header. -/
def afterBody? (inside : Text) : Option Text :=
  (afterClosing? '(' ')' 1 inside).bind fun rest =>
    match rest.dropWhile (· ≠ brace) with
    | [] => none
    | _ :: body => afterClosing? '\x7b' '\x7d' 1 body

theorem functionSpan?_eq (t name : Text) :
    functionSpan? t name = (find? name 0 true t).bind fun (start, inside) =>
      (afterBody? inside).map fun rest => (start, t.length - rest.length) := by
  unfold functionSpan? afterBody?
  congr 1
  funext ⟨start, inside⟩
  dsimp only
  cases afterClosing? '(' ')' 1 inside with
  | none => rfl
  | some rest =>
    simp only [Option.bind_some]
    cases rest.dropWhile (· ≠ brace) <;> rfl

theorem afterBody?_eq_some_iff {inside rest : Text} :
    afterBody? inside = some rest ↔
      ∃ front body, afterClosing? '(' ')' 1 inside = some (front ++ brace :: body) ∧
        (∀ c ∈ front, c ≠ brace) ∧ afterClosing? '\x7b' '\x7d' 1 body = some rest := by
  unfold afterBody?
  constructor
  · intro h
    obtain ⟨y, hy, hbody⟩ := Option.bind_eq_some_iff.mp h
    split at hbody
    · simp at hbody
    · next c body hdrop =>
      obtain ⟨front, rfl, hfront, hc⟩ := dropWhile_eq_cons_iff.mp hdrop
      obtain rfl : c = brace := by simpa using hc
      exact ⟨front, body, hy, fun d hd => by simpa using hfront d hd, hbody⟩
  · rintro ⟨front, body, hy, hfront, hbody⟩
    have hdrop : (front ++ brace :: body).dropWhile (· ≠ brace) = brace :: body :=
      dropWhile_eq_cons_iff.mpr ⟨front, rfl, fun d hd => by simpa using hfront d hd, by simp⟩
    rw [hy, Option.bind_some, hdrop]
    exact hbody

theorem afterBody?_eq_append {inside rest : Text} (h : afterBody? inside = some rest) :
    ∃ front, inside = front ++ CodePoint.ofChar '\x7d' :: rest := by
  obtain ⟨front, body, hy, -, hbody⟩ := afterBody?_eq_some_iff.mp h
  obtain ⟨parameters, rfl⟩ := afterClosing?_eq_append hy
  obtain ⟨inner, rfl⟩ := afterClosing?_eq_append hbody
  exact ⟨parameters ++ CodePoint.ofChar ')' :: (front ++ brace :: inner), by simp⟩

/-- A body is read in the same way whatever follows. -/
theorem afterBody?_append_iff {inside rest : Text} (behind : Text) :
    afterBody? (inside ++ behind) = some (rest ++ behind) ↔ afterBody? inside = some rest := by
  rw [afterBody?_eq_some_iff, afterBody?_eq_some_iff]
  constructor
  · rintro ⟨front, body, hy, hfront, hbody⟩
    obtain ⟨inner, rfl⟩ := afterClosing?_eq_append hbody
    refine ⟨front, inner ++ CodePoint.ofChar '\x7d' :: rest, ?_, hfront, ?_⟩
    · rw [← afterClosing?_append_iff behind, hy]
      simp
    · rw [← afterClosing?_append_iff behind, ← hbody]
      simp
  · rintro ⟨front, body, hy, hfront, hbody⟩
    refine ⟨front, body ++ behind, ?_, hfront, (afterClosing?_append_iff behind).mpr hbody⟩
    rw [(afterClosing?_append_iff behind).mpr hy]
    simp

/-! ## The span of a function -/

/-- No header can be read at a line start before the place behind `front`. -/
def FirstBehind (name t front : Text) : Prop :=
  ∀ f z r, t = f ++ z → f.length < front.length → Text.EndsLine f → ¬ Reads name z r

/-- The span that is found, in terms of the header that is read first and of what stands behind
it. -/
theorem functionSpan?_eq_some_iff {start stop : Nat} :
    functionSpan? t name = some (start, stop) ↔
      ∃ front y inside rest, t = front ++ y ∧ start = front.length ∧ Text.EndsLine front ∧
        Reads name y inside ∧ FirstBehind name t front ∧ afterBody? inside = some rest ∧
        stop = t.length - rest.length := by
  rw [functionSpan?_eq]
  simp only [Option.bind_eq_some_iff, Option.map_eq_some_iff, Prod.exists, Prod.mk.injEq,
    find?_eq_some_iff, lineStarts_true_iff, Nat.zero_add]
  constructor
  · rintro ⟨_, inside, ⟨front, y, ht, rfl, hline, hreads, hfirst⟩, rest, hbody, rfl, rfl⟩
    exact ⟨front, y, inside, rest, ht, rfl, hline, hreads, hfirst, hbody, rfl⟩
  · rintro ⟨front, y, inside, rest, ht, rfl, hline, hreads, hfirst, hbody, rfl⟩
    exact ⟨_, inside, ⟨front, y, ht, rfl, hline, hreads, hfirst⟩, rest, hbody, rfl, rfl⟩

/-- A span ends with the brace that closes the body. -/
theorem functionSpan?_eq_append {start stop : Nat} (h : functionSpan? t name = some (start, stop)) :
    ∃ front inner rest, t = front ++ (inner ++ [CodePoint.ofChar '\x7d']) ++ rest ∧
      start = front.length ∧ stop = (front ++ (inner ++ [CodePoint.ofChar '\x7d'])).length := by
  obtain ⟨front, y, inside, rest, rfl, rfl, -, hreads, -, hbody, rfl⟩ :=
    functionSpan?_eq_some_iff.mp h
  obtain ⟨header, rfl⟩ := hreads.exists_eq_append
  obtain ⟨body, rfl⟩ := afterBody?_eq_append hbody
  refine ⟨front, header ++ body, rest, by simp, rfl, ?_⟩
  simp only [List.length_append, List.length_cons, List.length_nil]
  omega

/-- A declaration of which the whole is found if it is looked for alone. -/
theorem functionSpan?_whole_iff {decl : Text} :
    functionSpan? decl name = some (0, decl.length) ↔
      ∃ inside, Reads name decl inside ∧ afterBody? inside = some [] := by
  rw [functionSpan?_eq_some_iff]
  constructor
  · rintro ⟨front, y, inside, rest, rfl, hfront, -, hreads, -, hbody, hstop⟩
    obtain rfl : front = [] := List.eq_nil_of_length_eq_zero hfront.symm
    rw [List.nil_append] at hstop
    obtain ⟨header, rfl⟩ := hreads.exists_eq_append
    obtain ⟨body, rfl⟩ := afterBody?_eq_append hbody
    simp only [List.length_append, List.length_cons] at hstop
    obtain rfl : rest = [] := List.eq_nil_of_length_eq_zero (by omega)
    exact ⟨_, hreads, hbody⟩
  · rintro ⟨inside, hreads, hbody⟩
    refine ⟨[], decl, inside, [], rfl, rfl, .inl rfl, hreads, ?_, hbody, by simp⟩
    intro f z r _ hlt
    simp at hlt

section

variable {front indent before decl behind : Text}

/-- The span of a declaration that is the first of its name: from its line start to its end. -/
theorem functionSpan?_of_first (hline : Text.EndsLine front)
    (hindent : ∀ c ∈ indent, isIndent c = true)
    (hfirst : FirstBehind name (front ++ indent ++ decl ++ behind) front)
    (hwhole : functionSpan? decl name = some (0, decl.length)) :
    functionSpan? (front ++ indent ++ decl ++ behind) name =
      some (front.length, (front ++ indent ++ decl).length) := by
  obtain ⟨inside, hreads, hbody⟩ := functionSpan?_whole_iff.mp hwhole
  refine functionSpan?_eq_some_iff.mpr ⟨front, indent ++ (decl ++ behind), inside ++ behind, behind,
    by simp, rfl, hline, ?_, hfirst, (afterBody?_append_iff behind).mpr hbody, ?_⟩
  · exact ((reads_append_iff behind).mpr hreads).indent hindent
  · simp only [List.length_append]
    omega

/-- A declaration in a file that the matcher finds as a whole: it starts a line but for its
indentation, no line start before it reads a header of its name, and its own text is found as a
whole if it is looked for alone. -/
structure Measures (name before decl behind : Text) : Prop where
  first : ∃ front indent, before = front ++ indent ∧ Text.EndsLine front ∧
    (∀ c ∈ indent, isIndent c = true) ∧ FirstBehind name (before ++ decl ++ behind) front
  whole : functionSpan? decl name = some (0, decl.length)

/-- The span of such a declaration starts with its indentation and ends where it ends. -/
theorem Measures.functionSpan? (h : Measures name before decl behind) :
    ∃ front indent, before = front ++ indent ∧ Text.EndsLine front ∧
      (∀ c ∈ indent, isIndent c = true) ∧
      functionSpan? (before ++ decl ++ behind) name =
        some (front.length, (before ++ decl).length) := by
  obtain ⟨front, indent, rfl, hline, hindent, hfirst⟩ := h.first
  exact ⟨front, indent, rfl, hline, hindent, functionSpan?_of_first hline hindent hfirst h.whole⟩

/-- Only such declarations have a span that starts with the blanks before them and ends where they
end. -/
theorem measures_of_functionSpan? {blanks : Text} {d : CodePoint} {ds : Text}
    (hbefore : before = front ++ blanks) (hblanks : ∀ c ∈ blanks, c.isBlank = true)
    (hdecl : decl = d :: ds) (hd : d.isBlank = false)
    (h : Header.functionSpan? (before ++ decl ++ behind) name =
      some (front.length, (before ++ decl).length)) : Measures name before decl behind := by
  obtain ⟨front', y, inside, rest, ht, hstart, hline, hreads, hfirst, hbody, hstop⟩ :=
    functionSpan?_eq_some_iff.mp h
  have hsplit : front ++ (blanks ++ (decl ++ behind)) = front' ++ y := by
    rw [← ht, hbefore]
    simp
  obtain ⟨rfl, rfl⟩ := List.append_inj hsplit hstart
  obtain ⟨header, hheader⟩ := hreads.exists_eq_append
  obtain ⟨body, rfl⟩ := afterBody?_eq_append hbody
  -- What follows the body is what stands behind the declaration, as it is as long.
  have hrest : rest = behind := by
    have hlen := congrArg List.length hheader
    have hends : (blanks ++ decl) ++ behind =
        (header ++ (body ++ [CodePoint.ofChar '\x7d'])) ++ rest := by
      simpa using hheader
    refine ((List.append_inj' hends ?_).2).symm
    simp only [hbefore, List.length_append, List.length_cons] at hstop hlen
    omega
  subst hrest
  have hreads' : Reads name (blanks ++ decl) (body ++ [CodePoint.ofChar '\x7d']) := by
    rw [← reads_append_iff rest]
    simpa using hreads
  obtain ⟨hindent, hown⟩ := hreads'.of_blanks hblanks hdecl hd
  have hwhole : afterBody? (body ++ [CodePoint.ofChar '\x7d']) = some [] := by
    rw [← afterBody?_append_iff rest]
    simpa using hbody
  exact ⟨⟨front, blanks, hbefore, hline, hindent, hfirst⟩,
    functionSpan?_whole_iff.mpr ⟨_, hown, hwhole⟩⟩

end

end SymbolAtlas.Header
