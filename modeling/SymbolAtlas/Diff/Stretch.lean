/-!
# Common stretches of two sequences

`longest` finds the longest common stretch of two sequences, the earliest one of those. The search
reads the old sequence row by row and keeps, for every element of the new one, how far the rows and
the columns that end there agree. Elements that are no anchors do not start a stretch, they only
extend one.

`longest_isCommon` says that the two sequences agree on what is found. Behind each row, a kept
number is the length of a common ending of the rows read and of the columns up to its own
(`RowOf`); the best stretch so far is then common whichever number it comes from, and it is
extended by a common start on either side.
-/

namespace SymbolAtlas.Diff

/-- Where a stretch starts in the old and in the new sequence, and its length. -/
structure Stretch where
  oldStart : Nat
  newStart : Nat
  length : Nat

/-- The stretch lies in both sequences, and they agree on it. -/
structure Stretch.IsCommon {α : Type} (s : Stretch) (a b : List α) : Prop where
  within_old : s.oldStart + s.length ≤ a.length
  within_new : s.newStart + s.length ≤ b.length
  agrees : (a.drop s.oldStart).take s.length = (b.drop s.newStart).take s.length

section Search

variable {α : Type} [DecidableEq α]

/-- For each element of the new sequence, the length of the common stretch that ends with it and
with `x`. The list holds these lengths for the old element before `x`, shifted by one place: `diag`
belongs to the first element. -/
def stretchesTo (x : α) : List α → Nat → List Nat → List Nat
  | [], _, _ => []
  | y :: ys, diag, lengths =>
    (if x = y then diag + 1 else 0) :: stretchesTo x ys (lengths.headD 0) lengths.tail

/-- The longer of `best` and the stretches that end at the old index `i`; of equal ones the
earlier. -/
def improve (i : Nat) : Nat → List Nat → Stretch → Stretch
  | _, [], best => best
  | j, k :: ks, best =>
    improve i (j + 1) ks (if best.length < k then ⟨i + 1 - k, j + 1 - k, k⟩ else best)

/-- The longest stretch of anchors from the old index `i` on. -/
def search (anchor : α → Bool) (b : List α) : Nat → List α → List Nat → Stretch → Stretch
  | _, [], _, best => best
  | i, x :: xs, lengths, best =>
    let lengths := if anchor x then stretchesTo x b 0 lengths else []
    search anchor b (i + 1) xs lengths (improve i 0 lengths best)

def commonStart : List α → List α → Nat
  | x :: xs, y :: ys => if x = y then commonStart xs ys + 1 else 0
  | _, _ => 0

/-- A stretch extended on both sides as far as the sequences agree. -/
def extend (a b : List α) (s : Stretch) : Stretch :=
  let back := commonStart (a.take s.oldStart).reverse (b.take s.newStart).reverse
  let ahead := commonStart (a.drop (s.oldStart + s.length)) (b.drop (s.newStart + s.length))
  ⟨s.oldStart - back, s.newStart - back, back + s.length + ahead⟩

/-- The longest common stretch of two sequences. -/
def longest (anchor : α → Bool) (a b : List α) : Stretch :=
  extend a b (search anchor b 0 a [] ⟨0, 0, 0⟩)

end Search

/-! ## A common stretch between what is before and behind it -/

namespace Stretch.IsCommon

variable {α : Type} {s : Stretch} {a b : List α}

theorem empty (a b : List α) : IsCommon ⟨0, 0, 0⟩ a b := ⟨Nat.zero_le _, Nat.zero_le _, rfl⟩

theorem of_append (before before' xs behind behind' : List α) :
    IsCommon ⟨before.length, before'.length, xs.length⟩ (before ++ (xs ++ behind))
      (before' ++ (xs ++ behind')) where
  within_old := by simp
  within_new := by simp
  agrees := by simp

theorem exists_append (h : s.IsCommon a b) :
    ∃ before before' xs behind behind', a = before ++ (xs ++ behind) ∧
      b = before' ++ (xs ++ behind') ∧ s = ⟨before.length, before'.length, xs.length⟩ := by
  have hold := h.within_old
  have hnew := h.within_new
  have hb : b = b.take s.newStart ++ ((a.drop s.oldStart).take s.length ++
      (b.drop s.newStart).drop s.length) := by
    rw [h.agrees, List.take_append_drop, List.take_append_drop]
  refine ⟨a.take s.oldStart, b.take s.newStart, (a.drop s.oldStart).take s.length,
    (a.drop s.oldStart).drop s.length, (b.drop s.newStart).drop s.length, ?_, hb, ?_⟩
  · rw [List.take_append_drop, List.take_append_drop]
  · have hbefore : (a.take s.oldStart).length = s.oldStart := List.length_take_of_le (by omega)
    have hbefore' : (b.take s.newStart).length = s.newStart := List.length_take_of_le (by omega)
    have hxs : ((a.drop s.oldStart).take s.length).length = s.length :=
      List.length_take_of_le (by rw [List.length_drop]; omega)
    rw [hbefore, hbefore', hxs]

end Stretch.IsCommon

/-! ## Common endings -/

/-- Two sequences end with the same `k` elements. -/
def EndAlike {α : Type} (k : Nat) (a b : List α) : Prop :=
  ∃ xs : List α, xs.length = k ∧ xs <:+ a ∧ xs <:+ b

namespace EndAlike

variable {α : Type} {k : Nat} {a b : List α}

theorem zero (a b : List α) : EndAlike 0 a b := ⟨[], rfl, a.nil_suffix, b.nil_suffix⟩

theorem concat (h : EndAlike k a b) (x : α) : EndAlike (k + 1) (a ++ [x]) (b ++ [x]) := by
  obtain ⟨xs, rfl, ⟨before, rfl⟩, ⟨before', rfl⟩⟩ := h
  exact ⟨xs ++ [x], by simp, ⟨before, by simp⟩, ⟨before', by simp⟩⟩

/-- The common ending is a common stretch, also before what follows in either sequence. -/
theorem isCommon (h : EndAlike k a b) (behind behind' : List α) :
    Stretch.IsCommon ⟨a.length - k, b.length - k, k⟩ (a ++ behind) (b ++ behind') := by
  obtain ⟨xs, rfl, ⟨before, rfl⟩, ⟨before', rfl⟩⟩ := h
  simpa using Stretch.IsCommon.of_append before before' xs behind behind'

end EndAlike

variable {α : Type}

/-- What the numbers of a row mean: the rows read and the columns before a place end with that many
equal elements. A zero stands in front, so that a number belongs to the columns before it. -/
def RowOf (rows b : List α) (lengths : List Nat) : Prop :=
  ∀ j, EndAlike ((0 :: lengths).getD j 0) rows (b.take j)

theorem RowOf.nil (rows b : List α) : RowOf rows b [] := by
  intro j
  cases j <;> exact EndAlike.zero _ _

/-- Of equally long stretches the earlier is kept, but all of a row are common. -/
theorem improve_isCommon {rows b behind : List α} {i : Nat} (hi : rows.length = i + 1)
    {ks : List Nat} {j : Nat} {best : Stretch} (hj : j + ks.length ≤ b.length)
    (hrow : ∀ l, EndAlike (ks.getD l 0) rows (b.take (j + l + 1)))
    (hbest : best.IsCommon (rows ++ behind) b) :
    (improve i j ks best).IsCommon (rows ++ behind) b := by
  induction ks generalizing j best with
  | nil => exact hbest
  | cons k ks ih =>
    rw [List.length_cons] at hj
    refine ih (by omega) (fun l => ?_) ?_
    · have hnext := hrow (l + 1)
      rw [List.getD_cons_succ] at hnext
      rwa [show j + 1 + l + 1 = j + (l + 1) + 1 by omega]
    · split
      · have hstretch := (hrow 0).isCommon behind (b.drop (j + 1))
        have hlength : (b.take (j + 1)).length = j + 1 := by
          rw [List.length_take]
          omega
        rwa [Nat.add_zero, List.take_append_drop, hlength, hi] at hstretch
      · exact hbest

section Search

variable [DecidableEq α]

theorem length_stretchesTo (x : α) (ys : List α) (diag : Nat) (lengths : List Nat) :
    (stretchesTo x ys diag lengths).length = ys.length := by
  induction ys generalizing diag lengths with
  | nil => rfl
  | cons y ys ih => simp [stretchesTo, ih]

/-- A stretch that ends in a column goes on from the one in the column before. -/
theorem getD_stretchesTo (x : α) (ys : List α) (diag : Nat) (lengths : List Nat) (j : Nat) :
    (stretchesTo x ys diag lengths).getD j 0 =
      if ys[j]? = some x then (diag :: lengths).getD j 0 + 1 else 0 := by
  induction ys generalizing diag lengths j with
  | nil => simp [stretchesTo]
  | cons y ys ih =>
    cases j with
    | zero => simp [stretchesTo, eq_comm]
    | succ j =>
      have hnext : (lengths.headD 0 :: lengths.tail).getD j 0 = lengths.getD j 0 := by
        cases lengths <;> cases j <;> rfl
      rw [stretchesTo, List.getD_cons_succ, ih, hnext, List.getElem?_cons_succ,
        List.getD_cons_succ]

/-- One more row. -/
theorem RowOf.stretchesTo {rows b : List α} {lengths : List Nat} (h : RowOf rows b lengths)
    (x : α) : RowOf (rows ++ [x]) b (stretchesTo x b 0 lengths) := by
  intro j
  cases j with
  | zero => exact EndAlike.zero _ _
  | succ j =>
    rw [List.getD_cons_succ, getD_stretchesTo]
    split
    next hj =>
      rw [List.take_add_one, hj]
      exact (h j).concat x
    next => exact EndAlike.zero _ _

theorem search_isCommon (anchor : α → Bool) (rows xs : List α) {b : List α} {lengths : List Nat}
    {best : Stretch} (hrow : RowOf rows b lengths) (hbest : best.IsCommon (rows ++ xs) b) :
    (search anchor b rows.length xs lengths best).IsCommon (rows ++ xs) b := by
  induction xs generalizing rows lengths best with
  | nil => exact hbest
  | cons x xs ih =>
    have hlength : (rows ++ [x]).length = rows.length + 1 := List.length_append
    rw [List.append_cons] at hbest ⊢
    rw [search, ← hlength]
    split
    · have hnext := hrow.stretchesTo x
      have hwidth := length_stretchesTo x b 0 lengths
      refine ih (rows ++ [x]) hnext (improve_isCommon hlength (by omega) (fun l => ?_) hbest)
      rw [Nat.zero_add]
      exact hnext (l + 1)
    · exact ih (rows ++ [x]) (RowOf.nil _ _) hbest

theorem exists_commonStart (a b : List α) :
    ∃ xs behind behind', a = xs ++ behind ∧ b = xs ++ behind' ∧ commonStart a b = xs.length := by
  fun_induction commonStart a b with
  | case1 as x bs ih =>
    obtain ⟨xs, behind, behind', rfl, rfl, hlength⟩ := ih
    exact ⟨x :: xs, behind, behind', rfl, rfl, congrArg (· + 1) hlength⟩
  | case2 x as y bs => exact ⟨[], x :: as, y :: bs, rfl, rfl, rfl⟩
  | case3 as bs => exact ⟨[], as, bs, rfl, rfl, rfl⟩

theorem Stretch.IsCommon.extend {s : Stretch} {a b : List α} (h : s.IsCommon a b) :
    (extend a b s).IsCommon a b := by
  obtain ⟨before, before', xs, behind, behind', rfl, rfl, rfl⟩ := h.exists_append
  have hextend : Diff.extend (before ++ (xs ++ behind)) (before' ++ (xs ++ behind'))
      ⟨before.length, before'.length, xs.length⟩ =
        ⟨before.length - commonStart before.reverse before'.reverse,
          before'.length - commonStart before.reverse before'.reverse,
          commonStart before.reverse before'.reverse + xs.length + commonStart behind behind'⟩ := by
    simp [Diff.extend, ← List.drop_drop]
  obtain ⟨us, front, front', hback, hback', hus⟩ :=
    exists_commonStart before.reverse before'.reverse
  obtain ⟨vs, rear, rear', hahead, hahead', hvs⟩ := exists_commonStart behind behind'
  rw [hextend, hus, hvs, List.reverse_eq_iff.mp hback, List.reverse_eq_iff.mp hback', hahead,
    hahead']
  have hcommon := of_append front.reverse front'.reverse (us.reverse ++ (xs ++ vs)) rear rear'
  simpa [Nat.add_assoc] using hcommon

/-- The two sequences agree on the stretch that is found, whatever elements are anchors. -/
theorem longest_isCommon (anchor : α → Bool) (a b : List α) : (longest anchor a b).IsCommon a b :=
  (search_isCommon anchor [] a (RowOf.nil [] b) (.empty a b)).extend

end Search

end SymbolAtlas.Diff
