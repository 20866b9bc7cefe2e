import SymbolAtlas.Text.Quoted
import SymbolAtlas.Text.Decimal

/-!
# Words of a command line

Each argument of a command line is read for itself first (`Word.ofText`): it is plain, the divider
behind which everything is plain, a switch in one of its spellings, or looks like a switch that does
not exist. A long switch may be cut short as far as it stays the only one that it can mean.
-/

namespace SymbolAtlas.CommandLine

/-- A switch of the command line. -/
inductive Switch where
  | help
  | project
  | name
  | kind
  | parentClass
  | content
  | contentFile
  | apply_
  | noFastPath
  | verbose
deriving DecidableEq

namespace Switch

def all : List Switch :=
  [help, project, name, kind, parentClass, content, contentFile, apply_, noFastPath, verbose]

def long : Switch → Text
  | help => "--help"
  | project => "--project"
  | name => "--name"
  | kind => "--kind"
  | parentClass => "--parent-class"
  | content => "--content"
  | contentFile => "--content-file"
  | apply_ => "--apply"
  | noFastPath => "--no-fast-path"
  | verbose => "--verbose"

def letter? : Switch → Option CodePoint
  | help => some 'h'
  | project => some 'p'
  | name => some 'n'
  | kind => some 'k'
  | content => some 'c'
  | verbose => some 'v'
  | parentClass | contentFile | apply_ | noFastPath => none

def takesValue : Switch → Bool
  | project | name | kind | parentClass | content | contentFile => true
  | help | apply_ | noFastPath | verbose => false

/-- The code point that switches start with. -/
def dash : CodePoint := CodePoint.ofChar '-'

def ofLetter? (c : CodePoint) : Option Switch := all.find? fun s => s.letter? = some c

def short? (s : Switch) : Option Text := s.letter?.map fun c => [dash, c]

def label (s : Switch) : Text :=
  match s, s.short? with
  | help, some short => Text.concat [short, "/", s.long]
  | _, some short => Text.concat [s.long, "/", short]
  | _, none => s.long

def ofName? (t : Text) : Option Switch := all.find? fun s => s.long = t || s.short? = some t

end Switch

/-- What is wrong with a command line. -/
inductive UsageFault where
  | ambiguous (given : Text) (candidates : List Switch)
  | noValue (switch : Switch)
  | unwantedValue (switch : Switch) (given : Text)
  | unknownKind (given : Text)
  | unknownAction (given : Text)
  | noAction
  | surplus (given : List Text)

/-- A switch as it stands in one argument. -/
structure Spelling where
  switch : Switch
  isShort : Bool
  /-- What is attached to it in the same argument, an equals sign behind a whole name left out. -/
  attached : Option Text

/-- One argument. -/
inductive Word where
  | plain (t : Text)
  | divider
  | switch (spelling : Spelling)
  | stray (t : Text)

namespace Word

/-- Whether a text is written like a negative number; one line end may follow. -/
def isNegativeNumber (t : Text) : Bool :=
  match t with
  | [] => false
  | c :: body =>
    let body := if body.getLast? = some Text.newline then body.dropLast else body
    let whole := body.takeWhile CodePoint.isDecimal
    c = Switch.dash &&
      match body.drop whole.length with
      | [] => whole ≠ []
      | p :: fraction =>
        p = CodePoint.ofChar '.' && fraction ≠ [] && fraction.all CodePoint.isDecimal

/-- The text before the first equals sign and the text behind it, if there is one. -/
def splitEquals (t : Text) : Text × Option Text :=
  let before := t.takeWhile (· ≠ CodePoint.ofChar '=')
  match t.drop before.length with
  | [] => (before, none)
  | _ :: after => (before, some after)

/-- Whether a text starts with one dash only. -/
def hasOneDash (t : Text) : Bool := t.take 2 ≠ [Switch.dash, Switch.dash]

/-- An argument that names no switch: plain if it is a number or has blanks, stray otherwise. -/
def nameless (t : Text) : Word :=
  if isNegativeNumber t || t.contains (CodePoint.ofChar ' ') then plain t else stray t

/-- An argument that starts with a dash and is no name as a whole. -/
def ofDashed (t : Text) : Except UsageFault Word :=
  let (before, after) := splitEquals t
  match after, Switch.ofName? before with
  | some value, some s => .ok (switch ⟨s, hasOneDash before, some value⟩)
  | _, _ =>
    if hasOneDash t then
      match t with
      | _ :: c :: rest =>
        match Switch.ofLetter? c with
        | some s => .ok (switch ⟨s, true, some rest⟩)
        | none => .ok (nameless t)
      | _ => .ok (plain t)
    else
      match Switch.all.filter fun s => Text.startsWith s.long before with
      | [] => .ok (nameless t)
      | [s] => .ok (switch ⟨s, false, after⟩)
      | candidates => .error (.ambiguous t candidates)

def ofText (t : Text) : Except UsageFault Word :=
  if t.head? ≠ some Switch.dash then .ok (plain t)
  else if t = [Switch.dash, Switch.dash] then .ok divider
  else
    match Switch.ofName? t with
    | some s => .ok (switch ⟨s, hasOneDash t, none⟩)
    | none => ofDashed t

/-- Reads the arguments; behind the divider everything is plain. -/
def readAll : List Text → Except UsageFault (List Word)
  | [] => .ok []
  | t :: ts =>
    match ofText t with
    | .error e => .error e
    | .ok divider => .ok (divider :: ts.map plain)
    | .ok w =>
      match readAll ts with
      | .error e => .error e
      | .ok ws => .ok (w :: ws)

end Word

/-- What is left to do for the last switch of an argument. -/
inductive Rest where
  | nothing
  | value (switch : Switch) (given : Text)
  | wanted (switch : Switch)

namespace Spelling

/-- A switch with nothing attached. -/
def bare (s : Switch) : List Switch × Rest :=
  if s.takesValue then ([], .wanted s) else ([s], .nothing)

/-- The switches of an argument: those that are flags, and what is left to do. Letters may follow
the letter of a flag; behind the letter of a switch with a value comes the value. -/
def unbundle : Switch → Text → Except UsageFault (List Switch × Rest)
  | s, [] => if s.takesValue then .ok ([], .value s []) else .error (.unwantedValue s [])
  | s, c :: rest =>
    if s.takesValue then .ok ([], .value s (c :: rest))
    else
      match Switch.ofLetter? c, rest with
      | none, _ => .error (.unwantedValue s (c :: rest))
      | some next, [] => .ok (s :: (bare next).1, (bare next).2)
      | some next, d :: after => (unbundle next (d :: after)).map fun m => (s :: m.1, m.2)

def read (w : Spelling) : Except UsageFault (List Switch × Rest) :=
  match w.attached with
  | none => .ok (bare w.switch)
  | some t =>
    if w.isShort ∨ w.switch.takesValue then unbundle w.switch t
    else .error (.unwantedValue w.switch t)

end Spelling

end SymbolAtlas.CommandLine
