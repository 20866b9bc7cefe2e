/-!
# Signed offsets

A position in a list of `n` elements may be given from the end: `-1` is the last element, and as a
cut `-1` lies just before it. Cuts beyond an end fall on that end (`cut`, `span`, `replaceSpan`); an
element beyond an end does not exist (`element?`).

For positions inside the list all of this is `List.take`, `List.drop` and indexing
(`cut_natCast`, `element?_natCast`).
-/

namespace SymbolAtlas.Offset

/-- The cut that the signed offset `i` names in a list of `n` elements. -/
def cut (n : Nat) (i : Int) : Nat :=
  if i < 0 then ((n : Int) + i).toNat else min i.toNat n

theorem cut_le (n : Nat) (i : Int) : cut n i ≤ n := by
  unfold cut
  split <;> omega

@[simp]
theorem cut_natCast (n i : Nat) : cut n (i : Int) = min i n := by
  unfold cut
  split <;> omega

variable {α : Type}

/-- The elements before the cut `i`. -/
def before (xs : List α) (i : Int) : List α := xs.take (cut xs.length i)

/-- The elements from the cut `i` on. -/
def onward (xs : List α) (i : Int) : List α := xs.drop (cut xs.length i)

/-- The elements between the cuts `i` and `j`; none if `j` does not lie behind `i`. -/
def span (xs : List α) (i j : Int) : List α :=
  (xs.take (cut xs.length j)).drop (cut xs.length i)

/-- The list with `new` in place of the elements between the cuts `i` and `j`, or inserted at `i` if
`j` does not lie behind it. -/
def replaceSpan (xs : List α) (i j : Int) (new : List α) : List α :=
  xs.take (cut xs.length i) ++ new ++ xs.drop (max (cut xs.length i) (cut xs.length j))

@[simp]
theorem before_append (xs ys : List α) : before (xs ++ ys) xs.length = xs := by
  simp [before]

@[simp]
theorem onward_append (xs ys : List α) : onward (xs ++ ys) xs.length = ys := by
  simp [onward]

/-- What stands between two cuts is replaced, and nothing else. -/
theorem replaceSpan_append {front middle rear new : List α} {i j : Int}
    (hi : i = front.length) (hj : j = front.length + middle.length) :
    replaceSpan (front ++ middle ++ rear) i j new = front ++ new ++ rear := by
  have hj' : j = ((front.length + middle.length : Nat) : Int) := by omega
  rw [hi, hj', replaceSpan, cut_natCast, cut_natCast]
  have hmin : min front.length (front ++ middle ++ rear).length = front.length := by
    simp only [List.length_append]
    omega
  have hmax : max front.length (min (front.length + middle.length)
      (front ++ middle ++ rear).length) = (front ++ middle).length := by
    simp only [List.length_append]
    omega
  rw [hmin, hmax, List.drop_left, List.append_assoc front, List.take_left]

/-- Whether an offset goes beyond what a word of 64 bits can count. -/
def isWide (i : Int) : Bool := i < -0x8000000000000000 || 0x7FFFFFFFFFFFFFFF < i

/-- The index of the element at offset `i`. -/
def index? (n : Nat) (i : Int) : Option Nat :=
  let k := if i < 0 then (n : Int) + i else i
  if 0 ≤ k ∧ k < n then some k.toNat else none

/-- The element at offset `i`. -/
def element? (xs : List α) (i : Int) : Option α :=
  (index? xs.length i).bind (xs[·]?)

@[simp]
theorem element?_natCast (xs : List α) (i : Nat) : element? xs (i : Int) = xs[i]? := by
  have h0 : ¬ ((i : Int) < 0) := by omega
  by_cases h : i < xs.length
  · have h1 : 0 ≤ (i : Int) ∧ (i : Int) < xs.length := by omega
    simp [element?, index?, h0, h]
  · simp [element?, index?, h0, h]

end SymbolAtlas.Offset
