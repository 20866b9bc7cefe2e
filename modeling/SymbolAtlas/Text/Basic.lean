import SymbolAtlas.Text.CodePoint

/-!
# Texts

`Text` is a list of code points. This module holds what the rest of the library does with texts:
writing them from literals and numbers, cutting them at a separator (`separate`) and into lines,
trimming blanks, comparing them by code point and printing them.

`intercalate_separate` says that joining the parts of a text with the separator gives the text back.
-/

namespace SymbolAtlas

/-- A text: code points in order. -/
abbrev Text := List CodePoint

namespace Text

def ofString (s : String) : Text := s.toList.map CodePoint.ofChar

instance : Coe String Text := ⟨ofString⟩

def concat (parts : List Text) : Text := parts.flatten

def ofNat (n : Nat) : Text := (Nat.toDigits 10 n).map CodePoint.ofChar

/-- An integer in decimal digits, after a minus sign if it is negative. -/
def ofInt (i : Int) : Text :=
  if i < 0 then ('-' : Char) :: ofNat i.natAbs else ofNat i.natAbs

/-- A natural number in lower-case hexadecimal digits, filled with zeros up to `width`. -/
def ofHex (width n : Nat) : Text :=
  let digits := Nat.toDigits 16 n
  (List.replicate (width - digits.length) '0' ++ digits).map CodePoint.ofChar

/-! ## Cutting at a separator -/

/-- Puts `x` in front of the first part. -/
def consFirst {α : Type} (x : α) : List (List α) → List (List α)
  | [] => [[x]]
  | part :: parts => (x :: part) :: parts

/-- The parts of a list between the occurrences of `sep`: one more than there are occurrences. -/
def separate {α : Type} [DecidableEq α] (sep : α) (xs : List α) : List (List α) :=
  xs.foldr (fun x parts => if x = sep then [] :: parts else consFirst x parts) [[]]

section Separate

variable {α : Type} [DecidableEq α] {sep : α}

@[simp]
theorem separate_nil : separate sep [] = [[]] := rfl

@[simp]
theorem separate_cons_sep (xs : List α) : separate sep (sep :: xs) = [] :: separate sep xs := by
  simp [separate]

theorem separate_cons_of_ne {x : α} (h : x ≠ sep) (xs : List α) :
    separate sep (x :: xs) = consFirst x (separate sep xs) := by
  simp [separate, h]

theorem separate_ne_nil (xs : List α) : separate sep xs ≠ [] := by
  cases xs with
  | nil => simp
  | cons x xs =>
    by_cases h : x = sep
    · simp [h]
    · rw [separate_cons_of_ne h]
      cases separate sep xs <;> simp [consFirst]

/-- Joining the parts gives the list back. -/
theorem intercalate_separate (xs : List α) : [sep].intercalate (separate sep xs) = xs := by
  induction xs with
  | nil => rfl
  | cons x xs ih =>
    by_cases h : x = sep
    · subst h
      rw [separate_cons_sep]
      cases hp : separate x xs with
      | nil => exact absurd hp (separate_ne_nil xs)
      | cons p ps =>
        rw [hp] at ih
        simpa [List.intercalate] using ih
    · rw [separate_cons_of_ne h]
      cases hp : separate sep xs with
      | nil => exact absurd hp (separate_ne_nil xs)
      | cons p ps =>
        rw [hp] at ih
        cases ps with
        | nil => simpa [consFirst, List.intercalate] using ih
        | cons q qs =>
          have : x :: [sep].intercalate (p :: q :: qs) = x :: xs := congrArg (x :: ·) ih
          simpa [consFirst, List.intercalate] using this

end Separate

def newline : CodePoint := CodePoint.ofChar '\n'

/-- The lines of a text: what stands between its newlines, a carriage return staying in its line. -/
def lines (t : Text) : List Text := separate newline t

/-- Lines as one text, with a newline between each two. -/
def unlines (ls : List Text) : Text := [newline].intercalate ls

@[simp]
theorem unlines_lines (t : Text) : unlines (lines t) = t := intercalate_separate t

theorem lines_ne_nil (t : Text) : lines t ≠ [] := separate_ne_nil t

/-- Line ends of every convention as newlines. -/
def withNewlines : Text → Text
  | [] => []
  | [c] => [if c = ('\r' : CodePoint) then newline else c]
  | c :: d :: t =>
    if c = ('\r' : CodePoint) then
      if d = newline then withNewlines (d :: t) else newline :: withNewlines (d :: t)
    else c :: withNewlines (d :: t)

/-! ## Blanks -/

def trimStart (t : Text) : Text := t.dropWhile CodePoint.isBlank

def trimEnd (t : Text) : Text := (t.reverse.dropWhile CodePoint.isBlank).reverse

def trim (t : Text) : Text := trimEnd (trimStart t)

def isBlank (t : Text) : Bool := t.all CodePoint.isBlank

def indentation (t : Text) : Text := t.takeWhile CodePoint.isBlank

/-! ## Searching and order -/

def startsWith (t start : Text) : Bool := start.isPrefixOf t

/-- What follows `start` in a text that starts with it. -/
def after? : Text → Text → Option Text
  | [], t => some t
  | _ :: _, [] => none
  | c :: start, d :: t => if c = d then after? start t else none

theorem after?_eq_some_iff {start t rest : Text} :
    after? start t = some rest ↔ t = start ++ rest := by
  induction start generalizing t with
  | nil => simp [after?]
  | cons c start ih =>
    cases t with
    | nil => simp [after?]
    | cons d t =>
      unfold after?
      by_cases h : c = d
      · simp [h, ih]
      · simp [h, Ne.symm h]

/-- Comparison by code point; a text comes after the texts it starts with. -/
def precedes : Text → Text → Bool
  | _, [] => false
  | [], _ :: _ => true
  | c :: s, d :: t => c.val < d.val || (c.val == d.val && precedes s t)

/-- Inserts a text into an ascending list of texts, unless it is there already. -/
def insertSorted (t : Text) : List Text → List Text
  | [] => [t]
  | u :: us =>
    if t = u then u :: us
    else if precedes t u then t :: u :: us
    else u :: insertSorted t us

/-! ## Printing -/

/-- A code point as the standard streams show it: a surrogate, which no stream can carry, as its
escape. -/
def shownPoint (c : CodePoint) : Text :=
  if c.isSurrogate then ("\\u" : String) ++ ofHex 4 c.val else [c]

/-- The text as the standard streams show it. -/
def shown (t : Text) : Text := t.flatMap shownPoint

def toString (t : Text) : String := String.ofList ((shown t).filterMap CodePoint.toChar?)

end Text

end SymbolAtlas
