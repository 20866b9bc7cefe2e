import SymbolAtlas.Text.Basic

/-!
# Regular expressions

`Regex` is the form that a regular expression has once it is read. What it matches is said by
places: `Regex.ends` takes a list of places of a text to the list of all places that a match begun
at one of them can end at, so a search asks whether any place at all can be reached
(`Regex.occursIn`).
-/

namespace SymbolAtlas

/-- A regular expression. -/
inductive Regex where
  | nothing
  | point (c : CodePoint)
  | anyPoint
  /-- One code point in one of the ranges, or if negated in none of them. -/
  | set (negated : Bool) (ranges : List (CodePoint × CodePoint))
  | start
  /-- The empty text at the end, or before a newline at the end. -/
  | stop
  | both (first second : Regex)
  | either (left right : Regex)
  | optional (inner : Regex)
  | many (inner : Regex)

namespace Regex

/-- Whether a code point belongs to a set. -/
def inSet (negated : Bool) (ranges : List (CodePoint × CodePoint)) (c : CodePoint) : Bool :=
  (ranges.any fun r => r.1.val ≤ c.val && c.val ≤ r.2.val) != negated

/-- The places behind the code points that satisfy `p`. -/
def behind (p : CodePoint → Bool) (t : Array CodePoint) (places : List Nat) : List Nat :=
  places.filterMap fun i => if (t[i]?).any p then some (i + 1) else none

def union (places more : List Nat) : List Nat := places ++ more.filter fun i => !places.contains i

/-- Whether a place is the end of a text, or the place before a newline at its end. -/
def isStop (t : Array CodePoint) (i : Nat) : Bool :=
  i == t.size || (i + 1 == t.size && t[i]? == some Text.newline)

/-- The places `found` with all that at most so many steps lead to from the places `fresh`. -/
def reachable (step : List Nat → List Nat) : Nat → List Nat → List Nat → List Nat
  | 0, found, _ => found
  | n + 1, found, fresh =>
    match (step fresh).filter fun i => !found.contains i with
    | [] => found
    | new => reachable step n (found ++ new) new

/-- The places at which a match can end that is begun at one of the given places. A text of `n` code
points has `n + 1` places, so no more steps than that find a new one. -/
def ends (t : Array CodePoint) : Regex → List Nat → List Nat
  | nothing, places => places
  | point c, places => behind (· = c) t places
  | anyPoint, places => behind (· ≠ Text.newline) t places
  | set negated ranges, places => behind (inSet negated ranges) t places
  | start, places => places.filter (· == 0)
  | stop, places => places.filter (isStop t)
  | both first second, places => second.ends t (first.ends t places)
  | either left right, places => union (left.ends t places) (right.ends t places)
  | optional inner, places => union places (inner.ends t places)
  | many inner, places => reachable (inner.ends t) (t.size + 1) places places

/-- Whether the expression matches some part of a text. -/
def occursIn (r : Regex) (t : Text) : Bool :=
  !(r.ends t.toArray (List.range (t.length + 1))).isEmpty

end Regex

end SymbolAtlas
