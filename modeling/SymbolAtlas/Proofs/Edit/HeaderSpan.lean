import Mathlib.Order.Bounds.Image
import SymbolAtlas.Proofs.Edit.HeaderMatch

/-!
# The span of a function, by indices

The matcher goes over a text once and counts the open brackets. What it finds is told here without
the order in which it reads: by indices of the text, each of which is the least one with a property
(`Header.SpanAt`). The first line start from which a header can be read decides. If the brackets
behind it are not closed nothing is found, whatever stands further below
(`Header.functionSpan?_isLeast`).
-/

namespace SymbolAtlas.Header

/-! ## Closing brackets -/

/-- What stands in a text from one index up to another one, with both. -/
def stretch (t : Text) (i j : Nat) : Text := (t.drop i).take (j + 1 - i)

/-- From one index up to another one, as many brackets are closed as are opened. -/
structure Balances (opened closed : CodePoint) (t : Text) (i j : Nat) : Prop where
  le : i ≤ j
  lt : j < t.length
  count : (stretch t i j).count closed = (stretch t i j).count opened

/-- The indices up to which a text closes all brackets in it and a number of other ones. -/
def closings (opened closed : CodePoint) (depth : Nat) (t : Text) : Set Nat :=
  {k | k < t.length ∧ (t.take (k + 1)).count closed = (t.take (k + 1)).count opened + depth}

theorem isLeast_image_iff {f : Nat → Nat} (hf : StrictMono f) {S : Set Nat} {k : Nat} :
    IsLeast (f '' S) k ↔ ∃ j, IsLeast S j ∧ k = f j := by
  constructor
  · intro h
    obtain ⟨j, hj, rfl⟩ := h.1
    exact ⟨j, hf.map_isLeast.mp h, rfl⟩
  · rintro ⟨j, hj, rfl⟩
    exact hf.map_isLeast.mpr hj

section

variable {opened closed c : CodePoint} {depth depth' i j : Nat} {t rest : Text}

/-- A code point that does not close the last bracket changes the depth for what follows. -/
theorem closings_cons (hdepth : [c].count opened + depth = [c].count closed + depth')
    (hpos : 0 < depth') :
    closings opened closed depth (c :: t) = Nat.succ '' closings opened closed depth' t := by
  have hcount : ∀ (d : CodePoint) (s : Text), (c :: s).count d = [c].count d + s.count d := by
    intro d s
    rw [← List.count_append, List.singleton_append]
  ext k
  constructor
  · rintro ⟨hlt, hk⟩
    cases k with
    | zero =>
      rw [List.take_succ_cons, List.take_zero] at hk
      omega
    | succ k =>
      rw [List.take_succ_cons, hcount closed, hcount opened] at hk
      rw [List.length_cons] at hlt
      exact ⟨k, ⟨by omega, by omega⟩, rfl⟩
  · rintro ⟨k, ⟨hlt, hk⟩, rfl⟩
    refine ⟨Nat.succ_lt_succ hlt, ?_⟩
    rw [List.take_succ_cons, hcount closed, hcount opened]
    omega

theorem exists_isLeast_closings_cons_iff
    (hdepth : [c].count opened + depth = [c].count closed + depth') (hpos : 0 < depth') :
    (∃ k, IsLeast (closings opened closed depth (c :: t)) k ∧ rest = (c :: t).drop (k + 1)) ↔
      ∃ k, IsLeast (closings opened closed depth' t) k ∧ rest = t.drop (k + 1) := by
  have hsucc : StrictMono Nat.succ := fun _ _ => Nat.succ_lt_succ
  rw [closings_cons hdepth hpos]
  constructor
  · rintro ⟨k, hk, hrest⟩
    obtain ⟨j, hj, rfl⟩ := (isLeast_image_iff hsucc).mp hk
    exact ⟨j, hj, hrest⟩
  · rintro ⟨k, hk, hrest⟩
    exact ⟨k.succ, hsucc.map_isLeast.mpr hk, hrest⟩

/-- The matcher stops at the first index at which the open brackets are closed. -/
theorem afterClosing?_eq_some_iff_isLeast (hne : opened ≠ closed) (hdepth : 0 < depth) :
    afterClosing? opened closed depth t = some rest ↔
      ∃ k, IsLeast (closings opened closed depth t) k ∧ rest = t.drop (k + 1) := by
  fun_induction afterClosing? opened closed depth t with
  | case1 => simp [closings, IsLeast]
  | case2 depth t ih =>
    refine (ih (by omega)).trans (exists_isLeast_closings_cons_iff ?_ (by omega)).symm
    rw [List.count_singleton_self, List.count_eq_zero.mpr (by simpa using Ne.symm hne)]
    omega
  | case3 => omega
  | case4 t hc =>
    -- The bracket closes the last one that is open.
    have hleast : IsLeast (closings opened closed 1 (closed :: t)) 0 := by
      refine ⟨⟨by simp, ?_⟩, fun _ _ => Nat.zero_le _⟩
      simp [Ne.symm hne]
    constructor
    · intro h
      obtain rfl := Option.some.inj h
      exact ⟨0, hleast, rfl⟩
    · rintro ⟨k, hk, rfl⟩
      rw [hk.unique hleast]
      rfl
  | case5 t hc depth ih =>
    refine (ih (by omega)).trans (exists_isLeast_closings_cons_iff ?_ (by omega)).symm
    rw [List.count_singleton_self, List.count_eq_zero.mpr (by simpa using hne)]
    omega
  | case6 depth c t hopened hclosed ih =>
    refine (ih hdepth).trans (exists_isLeast_closings_cons_iff ?_ hdepth).symm
    rw [List.count_eq_zero.mpr (by simpa using Ne.symm hopened),
      List.count_eq_zero.mpr (by simpa using Ne.symm hclosed)]

theorem balances_eq_image (opened closed : CodePoint) (t : Text) (i : Nat) :
    {j | Balances opened closed t i j} = (i + ·) '' closings opened closed 0 (t.drop i) := by
  have hstretch : ∀ k, stretch t i (i + k) = (t.drop i).take (k + 1) := by
    intro k
    rw [stretch, show i + k + 1 - i = k + 1 by omega]
  ext j
  constructor
  · rintro ⟨hle, hlt, hcount⟩
    obtain ⟨k, rfl⟩ := Nat.exists_eq_add_of_le hle
    rw [hstretch] at hcount
    exact ⟨k, ⟨by rw [List.length_drop]; omega, hcount⟩, rfl⟩
  · rintro ⟨k, ⟨hlt, hcount⟩, rfl⟩
    rw [List.length_drop] at hlt
    refine ⟨Nat.le_add_right i k, by show i + k < t.length; omega, ?_⟩
    rw [hstretch]
    exact hcount

/-- What follows the bracket that closes the one at an index. -/
theorem afterClosing?_iff_isLeast_balances (hne : opened ≠ closed)
    (hopened : t[i]? = some opened) :
    afterClosing? opened closed 1 (t.drop (i + 1)) = some rest ↔
      ∃ j, IsLeast {j | Balances opened closed t i j} j ∧ rest = t.drop (j + 1) := by
  have hdrop : t.drop i = opened :: t.drop (i + 1) := by
    obtain ⟨hlt, rfl⟩ := List.getElem?_eq_some_iff.mp hopened
    exact List.drop_eq_getElem_cons hlt
  have hone : [opened].count opened + 0 = [opened].count closed + 1 := by
    rw [List.count_singleton_self, List.count_eq_zero.mpr (by simpa using Ne.symm hne)]
  rw [afterClosing?_eq_some_iff_isLeast hne Nat.one_pos,
    ← exists_isLeast_closings_cons_iff hone Nat.one_pos, ← hdrop, balances_eq_image]
  have hshift : StrictMono (i + ·) := fun _ _ h => Nat.add_lt_add_left h i
  constructor
  · rintro ⟨k, hk, rfl⟩
    refine ⟨i + k, hshift.map_isLeast.mpr hk, ?_⟩
    rw [List.drop_drop, Nat.add_assoc]
  · rintro ⟨j, hj, rfl⟩
    obtain ⟨k, hk, rfl⟩ := (isLeast_image_iff hshift).mp hj
    refine ⟨k, hk, ?_⟩
    rw [List.drop_drop, Nat.add_assoc]

end

/-! ## The body behind a header -/

section

variable {d : CodePoint} {i o p : Nat} {t gap body rest : Text}

theorem isLeast_of_drop_eq_append (h : t.drop i = gap ++ d :: body) (hgap : ∀ c ∈ gap, c ≠ d) :
    IsLeast {o | i ≤ o ∧ t[o]? = some d} (i + gap.length) ∧
      body = t.drop (i + gap.length + 1) := by
  have hget : ∀ k, t[i + k]? = (gap ++ d :: body)[k]? := by
    intro k
    rw [← h, List.getElem?_drop]
  refine ⟨⟨⟨Nat.le_add_right .., ?_⟩, ?_⟩, ?_⟩
  · rw [hget, List.getElem?_append_right (Nat.le_refl _), Nat.sub_self, List.getElem?_cons_zero]
  · rintro o ⟨hle, ho⟩
    obtain ⟨k, rfl⟩ := Nat.exists_eq_add_of_le hle
    by_contra hlt
    have hk : k < gap.length := by omega
    rw [hget, List.getElem?_append_left hk] at ho
    exact hgap d (List.mem_of_getElem? ho) rfl
  · rw [Nat.add_assoc, ← List.drop_drop, h, ← List.drop_drop, List.drop_left]
    rfl

theorem exists_drop_eq_append (h : IsLeast {o | i ≤ o ∧ t[o]? = some d} o) :
    ∃ gap, t.drop i = gap ++ d :: t.drop (o + 1) ∧ ∀ c ∈ gap, c ≠ d := by
  obtain ⟨⟨hle, ho⟩, hleast⟩ := h
  obtain ⟨k, rfl⟩ := Nat.exists_eq_add_of_le hle
  refine ⟨(t.drop i).take k, ?_, ?_⟩
  · obtain ⟨hlt, hd⟩ := List.getElem?_eq_some_iff.mp ho
    rw [← hd, ← List.drop_eq_getElem_cons hlt, ← List.drop_drop, List.take_append_drop]
  · rintro c hc rfl
    obtain ⟨j, hj⟩ := List.mem_iff_getElem?.mp hc
    rw [List.getElem?_take] at hj
    split at hj
    · rw [List.getElem?_drop] at hj
      have hfirst := hleast ⟨Nat.le_add_right .., hj⟩
      omega
    · cases hj

/-- The body behind a parenthesis: where the parameters end, where the next brace stands, and where
it is closed. -/
structure BodyAt (t : Text) (p q o c : Nat) : Prop where
  parameters : IsLeast {q | Balances '(' ')' t p q} q
  brace : IsLeast {o | q < o ∧ t[o]? = some brace} o
  stop : IsLeast {c | Balances '\x7b' '\x7d' t o c} c

theorem afterBody?_eq_some_iff_bodyAt (hp : t[p]? = some opening) :
    afterBody? (t.drop (p + 1)) = some rest ↔
      ∃ q o c, BodyAt t p q o c ∧ rest = t.drop (c + 1) := by
  rw [afterBody?_eq_some_iff]
  constructor
  · rintro ⟨gap, body, hparameters, hgap, hstop⟩
    obtain ⟨q, hq, hdrop⟩ := (afterClosing?_iff_isLeast_balances (by decide) hp).mp hparameters
    obtain ⟨ho, rfl⟩ := isLeast_of_drop_eq_append hdrop.symm hgap
    obtain ⟨c, hc, rfl⟩ := (afterClosing?_iff_isLeast_balances (by decide) ho.1.2).mp hstop
    exact ⟨q, _, c, ⟨hq, ho, hc⟩, rfl⟩
  · rintro ⟨q, o, c, ⟨hq, ho, hc⟩, rfl⟩
    obtain ⟨gap, hdrop, hgap⟩ := exists_drop_eq_append ho
    refine ⟨gap, t.drop (o + 1), ?_, hgap, ?_⟩
    · exact (afterClosing?_iff_isLeast_balances (by decide) hp).mpr ⟨q, hq, hdrop.symm⟩
    · exact (afterClosing?_iff_isLeast_balances (by decide) ho.1.2).mpr ⟨c, hc, rfl⟩

end

/-! ## Headers by indices -/

/-- A line starts at an index: the text starts there, or a newline stands before it. -/
def StartsLine (t : Text) (s : Nat) : Prop := s = 0 ∨ ∃ k, s = k + 1 ∧ t[k]? = some Text.newline

/-- A header of a name can be read at one index, where a line starts, and its parenthesis stands at
another one. -/
structure HeaderAt (name t : Text) (s p : Nat) : Prop where
  line : StartsLine t s
  parenthesis : t[p]? = some opening
  reads : Reads name (t.drop s) (t.drop (p + 1))

variable {name t front y inside rest : Text} {s p p' stop : Nat}

theorem startsLine_append_iff : StartsLine (front ++ y) front.length ↔ Text.EndsLine front := by
  constructor
  · rintro (hzero | ⟨k, hk, hnewline⟩)
    · exact .inl (List.eq_nil_of_length_eq_zero hzero)
    · rw [List.getElem?_append_left (by omega)] at hnewline
      obtain ⟨hlt, hget⟩ := List.getElem?_eq_some_iff.mp hnewline
      refine .inr ⟨front.take k, ?_⟩
      rw [← hget, List.take_append_getElem, ← hk, List.take_length]
  · rintro (rfl | ⟨above, rfl⟩)
    · exact .inl rfl
    · exact .inr ⟨above.length, by simp, by simp⟩

theorem HeaderAt.exists_append (h : HeaderAt name t s p) :
    ∃ front y, t = front ++ y ∧ s = front.length ∧ Text.EndsLine front ∧
      Reads name y (t.drop (p + 1)) := by
  have hle : s ≤ t.length := by
    rcases h.line with rfl | ⟨k, rfl, hk⟩
    · exact Nat.zero_le _
    · exact (List.getElem?_eq_some_iff.mp hk).1
  have hlength : (t.take s).length = s := List.length_take_of_le hle
  refine ⟨t.take s, t.drop s, (List.take_append_drop s t).symm, hlength.symm, ?_, h.reads⟩
  have hline := h.line
  rw [← List.take_append_drop s t] at hline
  nth_rewrite 3 [← hlength] at hline
  exact startsLine_append_iff.mp hline

theorem Reads.exists_headerAt (h : Reads name y inside) (hline : Text.EndsLine front) :
    ∃ p, HeaderAt name (front ++ y) front.length p ∧ inside = (front ++ y).drop (p + 1) := by
  obtain ⟨header, hy⟩ : ∃ header, y = header ++ opening :: inside := by
    obtain ⟨indent, gap, pad, rfl, -⟩ := h
    exact ⟨indent ++ keyword ++ gap ++ name ++ pad, by simp⟩
  have hsplit : front ++ y = (front ++ header) ++ opening :: inside := by simp [hy]
  have hinside : (front ++ y).drop ((front ++ header).length + 1) = inside := by
    rw [hsplit, ← List.drop_drop, List.drop_left]
    rfl
  refine ⟨(front ++ header).length, ⟨startsLine_append_iff.mpr hline, ?_, ?_⟩, hinside.symm⟩
  · rw [hsplit, List.getElem?_append_right (Nat.le_refl _), Nat.sub_self, List.getElem?_cons_zero]
  · rwa [hinside, List.drop_left]

/-- However a header is read from a line start, its parenthesis is the same. -/
theorem HeaderAt.unique (h : HeaderAt name t s p) (h' : HeaderAt name t s p') : p = p' := by
  have hsame := (read?_eq_some_iff.mpr h.reads).symm.trans (read?_eq_some_iff.mpr h'.reads)
  have hlength := congrArg List.length (Option.some.inj hsame)
  obtain ⟨hlt, -⟩ := List.getElem?_eq_some_iff.mp h.parenthesis
  obtain ⟨hlt', -⟩ := List.getElem?_eq_some_iff.mp h'.parenthesis
  rw [List.length_drop, List.length_drop] at hlength
  omega

/-- What the matcher finds: the first line start from which a header can be read, and the body
behind the header. -/
structure SpanAt (name t : Text) (s p q o c : Nat) : Prop where
  start : IsLeast {s | ∃ p, HeaderAt name t s p} s
  header : HeaderAt name t s p
  body : BodyAt t p q o c

theorem functionSpan?_eq_some_iff_spanAt :
    functionSpan? t name = some (s, stop) ↔ ∃ p q o c, SpanAt name t s p q o c ∧ stop = c + 1 := by
  rw [functionSpan?_eq_some_iff]
  constructor
  · rintro ⟨front, y, inside, rest, rfl, rfl, hline, hreads, hfirst, hbody, rfl⟩
    obtain ⟨p, hp, rfl⟩ := hreads.exists_headerAt hline
    obtain ⟨q, o, c, hat, rfl⟩ := (afterBody?_eq_some_iff_bodyAt hp.parenthesis).mp hbody
    refine ⟨p, q, o, c, ⟨⟨⟨p, hp⟩, ?_⟩, hp, hat⟩, ?_⟩
    · rintro s ⟨p', hp'⟩
      obtain ⟨f, z, heq, rfl, hstarts, hz⟩ := hp'.exists_append
      by_contra hlt
      exact hfirst f z _ heq (by omega) hstarts hz
    · have hlt := hat.stop.1.lt
      rw [List.length_drop]
      omega
  · rintro ⟨p, q, o, c, ⟨hstart, hp, hat⟩, rfl⟩
    obtain ⟨front, y, heq, rfl, hline, hreads⟩ := hp.exists_append
    refine ⟨front, y, _, t.drop (c + 1), heq, rfl, hline, hreads, ?_,
      (afterBody?_eq_some_iff_bodyAt hp.parenthesis).mpr ⟨q, o, c, hat, rfl⟩, ?_⟩
    · rintro f z r rfl hlt hstarts hz
      obtain ⟨p', hp', -⟩ := hz.exists_headerAt hstarts
      have hle := hstart.2 ⟨p', hp'⟩
      omega
    · have hlt := hat.stop.1.lt
      rw [List.length_drop]
      omega

/-- The matcher finds the span from the first line start from which a header can be read up to the
brace that closes the body behind it, and nothing if the header or a bracket behind it is
missing. -/
theorem functionSpan?_isLeast (t name : Text) :
    (∀ s p p', HeaderAt name t s p → HeaderAt name t s p' → p = p') ∧
    (∀ s stop, functionSpan? t name = some (s, stop) ↔
      ∃ p q o c, SpanAt name t s p q o c ∧ stop = c + 1) ∧
    (functionSpan? t name = none ↔ ¬ ∃ s p q o c, SpanAt name t s p q o c) := by
  refine ⟨fun _ _ _ h h' => h.unique h', fun _ _ => functionSpan?_eq_some_iff_spanAt, ?_⟩
  constructor
  · rintro hnone ⟨s, p, q, o, c, hat⟩
    rw [functionSpan?_eq_some_iff_spanAt.mpr ⟨p, q, o, c, hat, rfl⟩] at hnone
    cases hnone
  · intro hno
    cases hspan : functionSpan? t name with
    | none => rfl
    | some span =>
      obtain ⟨s, stop⟩ := span
      obtain ⟨p, q, o, c, hat, -⟩ := functionSpan?_eq_some_iff_spanAt.mp hspan
      exact absurd ⟨s, p, q, o, c, hat⟩ hno

/-- A header whose parenthesis is not closed hides the functions below it. -/
example : functionSpan? "function f(\nfunction f() {}\n" "f" = none := by decide

end SymbolAtlas.Header
