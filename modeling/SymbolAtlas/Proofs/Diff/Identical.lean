import Mathlib.Data.List.DropRight
import Mathlib.Data.List.GetD
import SymbolAtlas.Diff.Align

/-!
# Aligning a sequence with itself

A sequence aligned with itself is one unchanged run, whatever its elements and however frequent they
are (`alignBy_self`).

The search walks the rows of the sequence against all its columns. The stretch on the diagonal that
ends in a row is as long as any other that ends there, and the stretches before it end in columns
whose own diagonal was met earlier. So the search never leaves the diagonal, and a stretch on the
diagonal extends to the whole sequence.
-/

namespace SymbolAtlas.Diff

variable {α : Type}

/-- A stretch at one place in both sequences. -/
def Stretch.IsDiagonal (s : Stretch) : Prop := s.oldStart = s.newStart

/-- The number of anchors that a sequence ends with. -/
def anchorRun (anchor : α → Bool) (xs : List α) : Nat := (xs.rtakeWhile anchor).length

theorem anchorRun_concat (anchor : α → Bool) (xs : List α) (x : α) :
    anchorRun anchor (xs ++ [x]) = if anchor x then anchorRun anchor xs + 1 else 0 := by
  by_cases h : anchor x <;> simp [anchorRun, h]

/-! ## One row -/

/-- Stretches that are no longer than the best one leave it. -/
theorem improve_of_le (i j : Nat) {ks : List Nat} {best : Stretch}
    (h : ∀ k ∈ ks, k ≤ best.length) : improve i j ks best = best := by
  induction ks generalizing j with
  | nil => rfl
  | cons k ks ih =>
    obtain ⟨hk, hks⟩ := List.forall_mem_cons.mp h
    rw [improve, if_neg (by omega)]
    exact ih (j + 1) hks

theorem improve_append (i j : Nat) (ks ks' : List Nat) (best : Stretch) :
    improve i j (ks ++ ks') best = improve i (j + ks.length) ks' (improve i j ks best) := by
  induction ks generalizing j best with
  | nil => rfl
  | cons k ks ih =>
    rw [List.cons_append, improve, ih, improve, List.length_cons]
    congr 1
    omega

/-- A row in which only the stretch on the diagonal can be longer than the best one. -/
theorem improve_diagonal {i : Nat} {ks : List Nat} {best : Stretch} (hi : i < ks.length)
    (hbefore : ∀ j < i, ks.getD j 0 ≤ best.length)
    (hafter : ∀ j, i < j → ks.getD j 0 ≤ ks.getD i 0) :
    improve i 0 ks best =
      if best.length < ks.getD i 0 then ⟨i + 1 - ks.getD i 0, i + 1 - ks.getD i 0, ks.getD i 0⟩
      else best := by
  have hsplit : ks = ks.take i ++ ks.getD i 0 :: ks.drop (i + 1) := by
    rw [List.getD_eq_getElem _ _ hi, ← List.drop_eq_getElem_cons hi, List.take_append_drop]
  have hfront : ∀ l ∈ ks.take i, l ≤ best.length := by
    intro l hl
    obtain ⟨j, hj, rfl⟩ := List.mem_take_iff_getElem.mp hl
    rw [← List.getD_eq_getElem ks 0]
    exact hbefore j (by omega)
  have hrear : ∀ l ∈ ks.drop (i + 1), l ≤ ks.getD i 0 := by
    intro l hl
    obtain ⟨j, hj, rfl⟩ := List.mem_drop_iff_getElem.mp hl
    rw [← List.getD_eq_getElem ks 0]
    exact hafter (i + 1 + j) (by omega)
  nth_rewrite 1 [hsplit]
  rw [improve_append, improve_of_le i 0 hfront, improve, Nat.zero_add, List.length_take,
    Nat.min_eq_left hi.le]
  apply improve_of_le
  intro l hl
  have hle := hrear l hl
  split
  · exact hle
  · omega

/-! ## All rows -/

/-- What the search of `b` in itself knows behind the rows `front`. The list `lengths` is read with
a zero in front, so that a number belongs to the columns before it. -/
structure OnDiagonal (anchor : α → Bool) (b front : List α) (lengths : List Nat)
    (best : Stretch) : Prop where
  diagonal : best.IsDiagonal
  longest : ∀ p ≤ front.length, anchorRun anchor (b.take p) ≤ best.length
  at_diagonal : (0 :: lengths).getD front.length 0 = anchorRun anchor front
  le_columns : ∀ j, (0 :: lengths).getD j 0 ≤ anchorRun anchor (b.take j)
  le_rows : ∀ j, (0 :: lengths).getD j 0 ≤ anchorRun anchor front

namespace OnDiagonal

variable {anchor : α → Bool} {front xs : List α} {x : α} {lengths : List Nat} {best : Stretch}

theorem start (anchor : α → Bool) (b : List α) : OnDiagonal anchor b [] [] ⟨0, 0, 0⟩ where
  diagonal := rfl
  longest p hp := by simp [Nat.le_zero.mp hp, anchorRun]
  at_diagonal := rfl
  le_columns j := by cases j <;> simp
  le_rows j := by cases j <;> simp

/-- A row of an element that is no anchor ends all stretches. -/
theorem skip (h : OnDiagonal anchor (front ++ x :: xs) front lengths best)
    (hx : anchor x = false) : OnDiagonal anchor (front ++ x :: xs) (front ++ [x]) [] best := by
  have hrun : anchorRun anchor (front ++ [x]) = 0 := by simp [anchorRun_concat, hx]
  have hzero : ∀ j, [0].getD j 0 = 0 := by
    intro j
    cases j <;> simp
  refine ⟨h.diagonal, fun p hp => ?_, ?_, fun j => ?_, fun j => ?_⟩
  · by_cases hlast : p ≤ front.length
    · exact h.longest p hlast
    · obtain rfl : p = front.length + 1 := by simp at hp; omega
      rw [List.append_cons, List.take_left' (by simp), hrun]
      exact Nat.zero_le _
  · rw [hzero, hrun]
  · rw [hzero]
    exact Nat.zero_le _
  · rw [hzero]
    exact Nat.zero_le _

section Row

variable [DecidableEq α]

theorem row_le_columns (h : OnDiagonal anchor (front ++ x :: xs) front lengths best)
    (hx : anchor x = true) (j : Nat) :
    (stretchesTo x (front ++ x :: xs) 0 lengths).getD j 0 ≤
      anchorRun anchor ((front ++ x :: xs).take (j + 1)) := by
  rw [getD_stretchesTo]
  split
  next hj =>
    rw [List.take_add_one, hj, Option.toList_some, anchorRun_concat, if_pos hx]
    exact Nat.succ_le_succ (h.le_columns j)
  next => exact Nat.zero_le _

theorem row_le_rows (h : OnDiagonal anchor (front ++ x :: xs) front lengths best) (j : Nat) :
    (stretchesTo x (front ++ x :: xs) 0 lengths).getD j 0 ≤ anchorRun anchor front + 1 := by
  rw [getD_stretchesTo]
  split
  next => exact Nat.succ_le_succ (h.le_rows j)
  next => exact Nat.zero_le _

theorem row_at_diagonal (h : OnDiagonal anchor (front ++ x :: xs) front lengths best) :
    (stretchesTo x (front ++ x :: xs) 0 lengths).getD front.length 0 =
      anchorRun anchor front + 1 := by
  rw [getD_stretchesTo, if_pos (by simp), h.at_diagonal]

/-- In the row of an anchor the stretch on the diagonal becomes the best one, if any does. -/
theorem improve_row (h : OnDiagonal anchor (front ++ x :: xs) front lengths best)
    (hx : anchor x = true) :
    improve front.length 0 (stretchesTo x (front ++ x :: xs) 0 lengths) best =
      if best.length < anchorRun anchor front + 1 then
        ⟨front.length + 1 - (anchorRun anchor front + 1),
          front.length + 1 - (anchorRun anchor front + 1), anchorRun anchor front + 1⟩
      else best := by
  have hlength : front.length < (stretchesTo x (front ++ x :: xs) 0 lengths).length := by
    simp [length_stretchesTo]
  have hbest := improve_diagonal hlength
    (fun j hj => (h.row_le_columns hx j).trans (h.longest (j + 1) hj))
    (fun j _ => h.row_at_diagonal ▸ h.row_le_rows j)
  rwa [h.row_at_diagonal] at hbest

theorem step (h : OnDiagonal anchor (front ++ x :: xs) front lengths best) (hx : anchor x = true) :
    OnDiagonal anchor (front ++ x :: xs) (front ++ [x])
      (stretchesTo x (front ++ x :: xs) 0 lengths)
      (improve front.length 0 (stretchesTo x (front ++ x :: xs) 0 lengths) best) := by
  have hrun : anchorRun anchor (front ++ [x]) = anchorRun anchor front + 1 := by
    simp [anchorRun_concat, hx]
  rw [h.improve_row hx]
  refine ⟨?_, fun p hp => ?_, ?_, fun j => ?_, fun j => ?_⟩
  · split
    · rfl
    · exact h.diagonal
  · by_cases hlast : p ≤ front.length
    · have hlongest := h.longest p hlast
      split
      · show _ ≤ anchorRun anchor front + 1
        omega
      · exact hlongest
    · obtain rfl : p = front.length + 1 := by simp at hp; omega
      rw [List.append_cons, List.take_left' (by simp), hrun]
      split
      · exact Nat.le_refl _
      · omega
  · rw [List.length_append, List.length_singleton, List.getD_cons_succ, h.row_at_diagonal, hrun]
  · cases j with
    | zero => exact Nat.zero_le _
    | succ j => exact h.row_le_columns hx j
  · rw [hrun]
    cases j with
    | zero => exact Nat.zero_le _
    | succ j => exact h.row_le_rows j

end Row

end OnDiagonal

variable [DecidableEq α]

/-- The search of a sequence in itself stays on the diagonal. -/
theorem search_diagonal {anchor : α → Bool} (front xs : List α) {b : List α} {lengths : List Nat}
    {best : Stretch} (hb : b = front ++ xs) (h : OnDiagonal anchor b front lengths best) :
    (search anchor b front.length xs lengths best).IsDiagonal := by
  induction xs generalizing front lengths best with
  | nil => exact h.diagonal
  | cons x xs ih =>
    subst hb
    have hnext : front.length + 1 = (front ++ [x]).length := by simp
    rw [search, hnext]
    by_cases hx : anchor x = true
    · rw [if_pos hx]
      exact ih (front ++ [x]) (by simp) (h.step hx)
    · rw [if_neg hx, improve]
      exact ih (front ++ [x]) (by simp) (h.skip (by simpa using hx))

/-! ## Whole sequences -/

@[simp]
theorem commonStart_self (xs : List α) : commonStart xs xs = xs.length := by
  induction xs with
  | nil => rfl
  | cons x xs ih => simp [commonStart, ih]

/-- On the diagonal a stretch grows to the whole sequence. -/
theorem extend_self {a : List α} {s : Stretch} (hdiagonal : s.IsDiagonal)
    (hwithin : s.oldStart + s.length ≤ a.length) : extend a a s = ⟨0, 0, a.length⟩ := by
  have hstart : s.newStart = s.oldStart := hdiagonal.symm
  simp only [extend, hstart, commonStart_self, List.length_reverse, List.length_take,
    List.length_drop, Stretch.mk.injEq]
  omega

theorem longest_self (anchor : α → Bool) (a : List α) : longest anchor a a = ⟨0, 0, a.length⟩ := by
  have hcommon : (search anchor a 0 a [] ⟨0, 0, 0⟩).IsCommon a a :=
    search_isCommon anchor [] a (RowOf.nil [] a) (.empty a a)
  exact extend_self (search_diagonal [] a rfl (.start anchor a)) hcommon.within_old

@[simp]
theorem alignBy_nil (anchor : α → Bool) : alignBy anchor ([] : List α) [] = [] := by
  rw [alignBy]
  simp [longest_self, changed]

/-- A sequence is one run that is the same in both. -/
theorem alignBy_self (anchor : α → Bool) {a : List α} (ha : a ≠ []) :
    alignBy anchor a a = [.same a] := by
  have hpos := List.length_pos_of_ne_nil ha
  rw [alignBy, longest_self]
  simp [ha]

end SymbolAtlas.Diff
