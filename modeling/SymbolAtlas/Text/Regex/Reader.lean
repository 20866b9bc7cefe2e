import SymbolAtlas.Text.Regex.Basic

/-!
# Reading regular expressions

`Regex.read` reads the written form: alternatives between bars, brackets, sets in square brackets,
`.`, `^` and `$`, a star or a question mark behind what it repeats, and a backslash before a code
point that stands for itself. Every other code point stands for itself, too. A fault keeps its place
in the written form; `ReadError.message` tells it, with the line and the column where the written
form has more than one line.

Every call spends one unit of fuel and reads at least one code point before it calls for another
item, so the length of the written form is fuel enough.
-/

namespace SymbolAtlas.Regex

/-- What keeps a text from being a regular expression. -/
inductive Fault where
  | unterminatedSet
  | badRange (first last : Text)
  | nothingToRepeat
  | multipleRepeat
  | unterminatedGroup
  | unbalancedBracket
  | loneBackslash
deriving DecidableEq

def Fault.message : Fault → Text
  | unterminatedSet => "unterminated character set"
  | badRange first last => Text.concat ["bad character range ", first, "-", last]
  | nothingToRepeat => "nothing to repeat"
  | multipleRepeat => "multiple repeat"
  | unterminatedGroup => "missing ), unterminated subpattern"
  | unbalancedBracket => "unbalanced parenthesis"
  | loneBackslash => "bad escape (end of pattern)"

/-- A fault, and the number of code points left to read where it lies. -/
structure ReadFault where
  fault : Fault
  left : Nat
deriving DecidableEq

/-- A reader's answer: a value and the rest of the text. -/
abbrev Reading (α : Type) := Except ReadFault (α × Text)

/-- The answer that a fault lies at the front of `t`. -/
def faultAt {α : Type} (fault : Fault) (t : Text) : Reading α := .error ⟨fault, t.length⟩

/-! ## Sets -/

/-- The code point that the front of a text stands for, as it is written, and the rest. -/
def member (c : CodePoint) (t : Text) : CodePoint × Text × Text :=
  match t with
  | d :: rest => if c = '\\' then (d, [c, d], rest) else (c, [c], t)
  | [] => (c, [c], [])

/-- Reads the members of a set up to its closing bracket; the set opens at `opening`. A closing
bracket that comes first is a member. A dash between two members makes a range of them. -/
def setMembers (opening : Text) :
    Nat → Bool → Text → Reading (List (CodePoint × CodePoint))
  | 0, _, _ => faultAt .unterminatedSet opening
  | _, _, [] => faultAt .unterminatedSet opening
  | fuel + 1, isFirst, c :: t =>
    if c = ']' ∧ !isFirst then .ok ([], t)
    else
      let (low, written, rest) := member c t
      let single := (setMembers opening fuel false rest).map fun a => ((low, low) :: a.1, a.2)
      match rest with
      | d :: e :: more =>
        if d = '-' then
          if e = ']' then .ok ([(low, low), (d, d)], more)
          else
            let (high, writtenHigh, more) := member e more
            if high.val < low.val then faultAt (.badRange written writtenHigh) (c :: t)
            else (setMembers opening fuel false more).map fun a => ((low, high) :: a.1, a.2)
        else single
      | _ => single

/-- Reads a set behind its opening bracket. -/
def readSet (t : Text) : Reading Regex :=
  let opening := CodePoint.ofChar '[' :: t
  let negated := t.head? = some (CodePoint.ofChar '^')
  let t := if negated then t.tail else t
  (setMembers opening t.length true t).map fun a => (set negated a.1, a.2)

/-! ## Expressions -/

/-- An item under a mark of repetition, which stands at the front of `mark`. -/
def repeatItem (item : Option Regex) (repeated : Regex → Regex) (mark : Text) :
    Except ReadFault Regex :=
  match item with
  | none | some start | some stop => .error ⟨.nothingToRepeat, mark.length⟩
  | some (optional _) | some (many _) => .error ⟨.multipleRepeat, mark.length⟩
  | some r => .ok (repeated r)

/-- Items one after the other, the last of them given first. -/
def ofItems (items : List Regex) : Regex := items.foldl (fun r item => both item r) nothing

/-- Reads an expression up to a closing bracket or the end. `items` have been read since the last
bar, the last of them first. -/
def expression : Nat → List Regex → Text → Reading Regex
  | 0, items, t => .ok (ofItems items, t)
  | _, items, [] => .ok (ofItems items, [])
  | fuel + 1, items, c :: t =>
    if c = ')' then .ok (ofItems items, c :: t)
    else if c = '|' then
      (expression fuel [] t).map fun a => (either (ofItems items) a.1, a.2)
    else if c = '[' then
      match readSet t with
      | .error e => .error e
      | .ok (r, rest) => expression fuel (r :: items) rest
    else if c = '(' then
      match expression fuel [] t with
      | .error e => .error e
      | .ok (_, []) => faultAt .unterminatedGroup (c :: t)
      | .ok (r, _ :: rest) => expression fuel (r :: items) rest
    else if c = '*' ∨ c = '?' then
      match repeatItem items.head? (if c = '*' then many else optional) (c :: t) with
      | .error e => .error e
      | .ok r => expression fuel (r :: items.tail) t
    else if c = '\\' then
      match t with
      | [] => faultAt .loneBackslash (c :: t)
      | d :: rest => expression fuel (point d :: items) rest
    else
      let item := if c = '.' then anyPoint else if c = '^' then start else if c = '$' then stop
        else point c
      expression fuel (item :: items) t

/-- A fault in a written form. -/
structure ReadError where
  written : Text
  fault : Fault
  offset : Nat
deriving DecidableEq

def ReadError.message (e : ReadError) : Text :=
  let place := Text.concat [e.fault.message, " at position ", Text.ofNat e.offset]
  if e.written.contains Text.newline then
    let ls := Text.lines (e.written.take e.offset)
    Text.concat [place, " (line ", Text.ofNat ls.length, ", column ",
      Text.ofNat ((ls.getLastD []).length + 1), ")"]
  else place

def read (t : Text) : Except ReadError Regex :=
  match expression t.length [] t with
  | .error e => .error ⟨t, e.fault, t.length - e.left⟩
  | .ok (r, []) => .ok r
  | .ok (_, rest) => .error ⟨t, .unbalancedBracket, t.length - rest.length⟩

end SymbolAtlas.Regex
