import SymbolAtlas.Diff.Stretch

/-!
# Aligning two sequences

`align` cuts two sequences into runs that are the same in both and runs that changed. It takes the
longest common stretch, the earliest one of those, and goes on to its left and right. Elements that
are very frequent in a long new sequence do not start a stretch, they only extend one
(`isAnchor`).

`old_alignBy` and `new_alignBy` say that the runs hold exactly the two sequences. An unchanged run
is cut from the old one, so for the new one it matters that the stretch is common.
-/

namespace SymbolAtlas.Diff

/-- A stretch of two sequences: the same in both, or old elements that gave way to new ones. -/
inductive Run (α : Type) where
  | same (elements : List α)
  | change (old new : List α)

namespace Run

variable {α : Type}

def old : Run α → List α
  | same xs => xs
  | change xs _ => xs

def new : Run α → List α
  | same xs => xs
  | change _ ys => ys

end Run

/-- A run of changes, unless there is nothing to change. -/
def changed {α : Type} (a b : List α) : List (Run α) :=
  match a, b with
  | [], [] => []
  | _, _ => [.change a b]

theorem old_changed {α : Type} (a b : List α) : (changed a b).flatMap Run.old = a := by
  cases a <;> cases b <;> simp [changed, Run.old]

theorem new_changed {α : Type} (a b : List α) : (changed a b).flatMap Run.new = b := by
  cases a <;> cases b <;> simp [changed, Run.new]

theorem take_append_slice_append_drop {α : Type} (xs : List α) (i k : Nat) :
    xs.take i ++ ((xs.drop i).take k ++ xs.drop (i + k)) = xs := by
  rw [← List.drop_drop, List.take_append_drop, List.take_append_drop]

variable {α : Type} [DecidableEq α]

/-- From this length on, frequent elements of the new sequence are no anchors. -/
def crowded : Nat := 200

/-- Whether an element may start a common stretch with the new sequence `b`. -/
def isAnchor (b : List α) (x : α) : Bool :=
  b.length < crowded || b.count x ≤ b.length / 100 + 1

/-- The runs of two sequences, given which elements may start a common stretch. -/
def alignBy (anchor : α → Bool) (a b : List α) : List (Run α) :=
  let s := longest anchor a b
  if _h : s.length = 0 then changed a b
  else
    alignBy anchor (a.take s.oldStart) (b.take s.newStart) ++
      .same ((a.drop s.oldStart).take s.length) ::
        alignBy anchor (a.drop (s.oldStart + s.length)) (b.drop (s.newStart + s.length))
termination_by a.length
decreasing_by
  -- A stretch that is not empty and lies in the old sequence leaves less of it on either side.
  all_goals
    have hwithin := (longest_isCommon anchor a b).within_old
    simp only [List.length_take, List.length_drop]
    simp only [s] at _h
    omega

def align (a b : List α) : List (Run α) := alignBy (isAnchor b) a b

/-- The runs hold the old sequence. -/
theorem old_alignBy (anchor : α → Bool) (a b : List α) :
    (alignBy anchor a b).flatMap Run.old = a := by
  fun_induction alignBy anchor a b with
  | case1 a b s h => exact old_changed a b
  | case2 a b s h ih1 ih2 =>
    rw [List.flatMap_append, List.flatMap_cons, ih1, ih2]
    exact take_append_slice_append_drop a s.oldStart s.length

/-- The runs hold the new sequence. -/
theorem new_alignBy (anchor : α → Bool) (a b : List α) :
    (alignBy anchor a b).flatMap Run.new = b := by
  fun_induction alignBy anchor a b with
  | case1 a b s h => exact new_changed a b
  | case2 a b s h ih1 ih2 =>
    have hagrees := (longest_isCommon anchor a b).agrees
    rw [List.flatMap_append, List.flatMap_cons, ih1, ih2, Run.new, hagrees]
    exact take_append_slice_append_drop b s.newStart s.length

end SymbolAtlas.Diff
