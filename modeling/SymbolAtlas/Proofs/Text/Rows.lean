import SymbolAtlas.Proofs.Text.Lines
import SymbolAtlas.Proofs.Text.Points
import SymbolAtlas.Tree.Source

/-!
# Rows of bytes and lines of text

Bytes are cut into rows at the byte of a newline, texts into lines at the code point. No byte of a
longer sequence and no stray byte is the byte of a newline, so the rows of some bytes, read one by
one, are the lines of the text that all of them are read as (`lines_decode`).
-/

namespace SymbolAtlas.Utf8

/-- The point that ends a line. -/
def newlinePoint : CodePoint × Bytes := (Text.newline, [newlineByte])

theorem newlineByte_mem_octetsOf {n : Nat} (h : newlineByte ∈ octetsOf n) (hn : n < 0x110000) :
    n = 0x0A := by
  have hbyte : ∀ k, newlineByte = UInt8.ofNat k → k % 256 = 0x0A := by
    intro k hk
    have := congrArg UInt8.toNat hk
    simpa [newlineByte] using this.symm
  unfold octetsOf at h
  split at h
  · have := hbyte n (by simpa using h)
    omega
  · -- Every byte of a longer form has its highest bit set.
    exfalso
    split at h
    · simp only [List.mem_cons, List.not_mem_nil, or_false] at h
      rcases h with h | h <;> have := hbyte _ h <;> omega
    split at h
    · simp only [List.mem_cons, List.not_mem_nil, or_false] at h
      rcases h with h | h | h <;> have := hbyte _ h <;> omega
    · simp only [List.mem_cons, List.not_mem_nil, or_false] at h
      rcases h with h | h | h | h <;> have := hbyte _ h <;> omega

theorem newlineByte_mem_iff {p : CodePoint × Bytes} (h : encodePoint? p.1 = some p.2) :
    newlineByte ∈ p.2 ↔ p = newlinePoint := by
  constructor
  · intro hmem
    obtain ⟨c, o⟩ := p
    simp only [encodePoint?] at h hmem
    split at h
    · rename_i b hb
      obtain rfl : [b] = o := by simpa using h
      obtain rfl : newlineByte = b := by simpa using hmem
      rw [CodePoint.strayByte?] at hb
      split at hb
      · have := congrArg UInt8.toNat (Option.some.inj hb)
        simp [newlineByte] at this
        omega
      · cases hb
    · split at h
      · cases h
      · obtain rfl : octetsOf c.val = o := by simpa using h
        have hc := newlineByte_mem_octetsOf hmem c.val_lt
        have : c = Text.newline := CodePoint.ext hc
        subst this
        rfl
  · rintro rfl
    exact List.mem_singleton.mpr rfl

theorem eq_newlinePoint {p : CodePoint × Bytes} (h : encodePoint? p.1 = some p.2)
    (hp : p.1 = Text.newline) : p = newlinePoint := by
  obtain ⟨c, o⟩ := p
  obtain rfl : c = Text.newline := hp
  have : encodePoint? Text.newline = some [newlineByte] := by decide
  obtain rfl : [newlineByte] = o := Option.some.inj (this.symm.trans h)
  rfl

/-! ## Cutting into rows -/

/-- Points cut at the newlines. -/
def rowsOf (ps : List (CodePoint × Bytes)) : List (List (CodePoint × Bytes)) :=
  Text.separate newlinePoint ps

theorem map_consFirst {α β : Type} (f : α → β) (x : α) (parts : List (List α)) :
    (Text.consFirst x parts).map (List.map f) = Text.consFirst (f x) (parts.map (List.map f)) := by
  cases parts <;> rfl

/-- The code points of the rows are the lines. -/
theorem map_rowsOf_fst {ps : List (CodePoint × Bytes)}
    (h : ∀ p ∈ ps, p.1 = Text.newline → p = newlinePoint) :
    (rowsOf ps).map (List.map Prod.fst) = Text.lines (ps.map Prod.fst) := by
  induction ps with
  | nil => rfl
  | cons p ps ih =>
    have hps := ih fun q hq => h q (by simp [hq])
    rw [rowsOf, Text.lines] at hps ⊢
    by_cases hp : p = newlinePoint
    · subst hp
      simp [newlinePoint, ← hps]
    · have hne : p.1 ≠ Text.newline := fun e => hp (h p (by simp) e)
      rw [List.map_cons, Text.separate_cons_of_ne hp, Text.separate_cons_of_ne hne, ← hps]
      exact map_consFirst ..

theorem separate_append_of_not_mem {xs : Bytes} (h : newlineByte ∉ xs) (ys : Bytes) :
    ∃ first rear, Text.separate newlineByte ys = first :: rear ∧
      Text.separate newlineByte (xs ++ ys) = (xs ++ first) :: rear := by
  have hne : Text.separate newlineByte ys ≠ [] := Text.separate_ne_nil ys
  obtain ⟨first, rear, hys⟩ := List.exists_cons_of_ne_nil hne
  have hxs : Text.separate newlineByte xs = [] ++ [xs] := Text.separate_eq_singleton h
  exact ⟨first, rear, hys, Text.separate_append hxs hys⟩

/-- The bytes of the rows are the bytes cut at the byte of a newline. -/
theorem map_rowsOf_snd {ps : List (CodePoint × Bytes)}
    (h : ∀ p ∈ ps, newlineByte ∈ p.2 ↔ p = newlinePoint) :
    (rowsOf ps).map (List.flatMap Prod.snd) =
      Text.separate newlineByte (ps.flatMap Prod.snd) := by
  induction ps with
  | nil => rfl
  | cons p ps ih =>
    have hps := ih fun q hq => h q (by simp [hq])
    rw [rowsOf] at hps ⊢
    by_cases hp : p = newlinePoint
    · subst hp
      simp [newlinePoint, ← hps]
    · have hmem : newlineByte ∉ p.2 := fun e => hp ((h p (by simp)).mp e)
      obtain ⟨first, rear, hys, hall⟩ :=
        separate_append_of_not_mem hmem (ps.flatMap Prod.snd)
      rw [List.flatMap_cons, hall, Text.separate_cons_of_ne hp]
      rw [hys] at hps
      cases hrows : Text.separate newlinePoint ps with
      | nil => exact absurd hrows (Text.separate_ne_nil ps)
      | cons row rows =>
        rw [hrows, List.map_cons, List.cons.injEq] at hps
        simp [Text.consFirst, hps.1, hps.2]

theorem isInfix_intercalate {α : Type} {sep part : List α} {parts : List (List α)}
    (h : part ∈ parts) : part <:+: sep.intercalate parts := by
  induction parts with
  | nil => cases h
  | cons p ps ih =>
    cases ps with
    | nil =>
      obtain rfl : part = p := by simpa using h
      simp [List.intercalate]
    | cons q qs =>
      have hjoin : sep.intercalate (p :: q :: qs) = p ++ (sep ++ sep.intercalate (q :: qs)) := by
        simp [List.intercalate]
      rw [hjoin]
      rcases List.mem_cons.mp h with rfl | h
      · exact (List.prefix_append ..).isInfix
      · exact (ih h).trans ((List.suffix_append ..).trans (List.suffix_append ..)).isInfix

/-- Each part is a stretch of the list. -/
theorem isInfix_of_mem_separate {α : Type} [DecidableEq α] {sep : α} {xs row : List α}
    (h : row ∈ Text.separate sep xs) : row <:+: xs := by
  have hparts : [sep].intercalate (Text.separate sep xs) = xs := Text.intercalate_separate xs
  rw [← hparts]
  exact isInfix_intercalate h

theorem points_flatMap_of_isInfix {bs : Bytes} {row : List (CodePoint × Bytes)}
    (h : row <:+: points bs) : points (row.flatMap Prod.snd) = row := by
  obtain ⟨front, rear, hrow⟩ := h
  have hfront := (points_of_append hrow.symm).1
  exact (points_of_append hfront).2

/-- Reading row by row gives the lines of the whole text. -/
theorem lines_decode (bs : Bytes) :
    Text.lines (decode bs) = (Text.separate newlineByte bs).map decode := by
  have hencode : ∀ p ∈ points bs, encodePoint? p.1 = some p.2 :=
    fun p hp => encodePoint?_of_mem_points hp
  have hmem : ∀ p ∈ points bs, newlineByte ∈ p.2 ↔ p = newlinePoint :=
    fun p hp => newlineByte_mem_iff (hencode p hp)
  have hfst : ∀ p ∈ points bs, p.1 = Text.newline → p = newlinePoint :=
    fun p hp => eq_newlinePoint (hencode p hp)
  have hrows := map_rowsOf_snd hmem
  rw [flatMap_snd_points] at hrows
  rw [← map_fst_points, ← map_rowsOf_fst hfst, ← hrows, List.map_map]
  -- Each row is cut out between points, so reading its bytes gives its points.
  apply List.map_congr_left
  intro row hrow
  rw [Function.comp, ← map_fst_points, points_flatMap_of_isInfix (isInfix_of_mem_separate hrow)]

end SymbolAtlas.Utf8
