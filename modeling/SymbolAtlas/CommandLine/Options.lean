import SymbolAtlas.CommandLine.Word
import SymbolAtlas.Edit.Site
import SymbolAtlas.Files.Path

/-!
# Options

What a command line asks for. The words of the command line are taken one after another
(`Draft.takeAll`): switches in any order, and one action with its target, which has to follow the
action at once. A switch given twice counts as it was given last, and a divider attached to a switch
leaves it without a text. What fits nowhere is refused when everything has been read, so that a
request for help goes before it.
-/

namespace SymbolAtlas.CommandLine

/-- What the program is to do. -/
inductive Action where
  | map
  | symbols
  | symbol
deriving DecidableEq

namespace Action

def all : List Action := [map, symbols, symbol]

def name : Action → Text
  | map => "map"
  | symbols => "symbols"
  | symbol => "symbol"

def ofText? (t : Text) : Option Action := all.find? fun a => a.name = t

end Action

/-- What the switches of a command line say. -/
structure Options where
  /-- The project folder, unless a divider stands in its place. -/
  project : Option Text
  name : Option Text
  kind : Option SymbolKind
  parentClass : Option Text
  content : Option Content
  contentFile : Option Text
  apply : Bool
  /-- Whether functions may be found by their header alone, as far as the settings allow it. -/
  fastPath : Bool
  verbose : Bool

def Options.default : Options where
  project := some Path.here
  name := none
  kind := none
  parentClass := none
  content := none
  contentFile := none
  apply := false
  fastPath := true
  verbose := false

/-- Why reading the words stops. -/
inductive Halt where
  | help
  | fault (fault : UsageFault)

/-- How much of the action and its target has been read. -/
inductive Stage where
  | beforeAction
  | beforeTarget
  /-- The target has been read just now; the divider may still follow it. -/
  | atTarget
  | afterTarget

/-- What has been read of a command line. -/
structure Draft where
  stage : Stage
  action : Option Action
  target : Option Text
  options : Options
  surplus : List Text

namespace Draft

def start : Draft := ⟨.beforeAction, none, none, Options.default, []⟩

/-- The text of the divider. -/
def dividerText : Text := [Switch.dash, Switch.dash]

def setAside (d : Draft) (t : Text) : Draft := { d with surplus := d.surplus ++ [t] }

/-- Takes a plain argument. A second divider in the place of the target is none. -/
def takePlain (d : Draft) (t : Text) : Except Halt Draft :=
  match d.stage with
  | .beforeAction =>
    match Action.ofText? t with
    | some a => .ok { d with stage := .beforeTarget, action := some a }
    | none => .error (.fault (.unknownAction t))
  | .beforeTarget =>
    .ok { d with stage := .atTarget, target := if t = dividerText then none else some t }
  | .atTarget | .afterTarget => .ok ({ d with stage := .afterTarget }.setAside t)

def takeDivider (d : Draft) : Draft :=
  match d.stage with
  | .beforeAction | .beforeTarget => d
  | .atTarget => { d with stage := .afterTarget }
  | .afterTarget => d.setAside dividerText

/-- Ends a row of plain arguments: a target has to follow its action at once. -/
def endRow (d : Draft) : Draft :=
  match d.stage with
  | .beforeAction => d
  | .beforeTarget | .atTarget | .afterTarget => { d with stage := .afterTarget }

def takeFlag (d : Draft) : Switch → Except Halt Draft
  | .help => .error .help
  | .apply_ => .ok { d with options := { d.options with apply := true } }
  | .noFastPath => .ok { d with options := { d.options with fastPath := false } }
  | .verbose => .ok { d with options := { d.options with verbose := true } }
  | .project | .name | .kind | .parentClass | .content | .contentFile => .ok d

/-- Takes a switch with its value, which is none for a divider. -/
def takeValue (d : Draft) (s : Switch) (t : Text) : Except Halt Draft :=
  let o := d.options
  let value := if t = dividerText then none else some t
  match s with
  | .project => .ok { d with options := { o with project := value } }
  | .name => .ok { d with options := { o with name := value } }
  | .kind =>
    match value, SymbolKind.ofText? t with
    | none, _ => .ok { d with options := { o with kind := none } }
    | some _, some k => .ok { d with options := { o with kind := some k } }
    | some t, none => .error (.fault (.unknownKind t))
  | .parentClass => .ok { d with options := { o with parentClass := value } }
  | .content =>
    .ok { d with options := { o with content := some (value.elim .emptyList .text) } }
  | .contentFile => .ok { d with options := { o with contentFile := value } }
  | .help | .apply_ | .noFastPath | .verbose => .ok d

/-- Takes the flags of an argument, and its last switch if that has a value. -/
def takeSwitches (d : Draft) (flags : List Switch) (value : Option (Switch × Text)) :
    Except Halt Draft := do
  let d ← flags.foldlM takeFlag d
  match value with
  | some (s, t) => d.takeValue s t
  | none => pure d

def takeAll : Draft → List Word → Except Halt Draft
  | d, [] => .ok d
  | d, .plain t :: ws => do takeAll (← d.takePlain t) ws
  | d, .divider :: ws => takeAll d.takeDivider ws
  | d, .stray t :: ws => takeAll (d.endRow.setAside t) ws
  | d, .switch w :: ws =>
    match w.read with
    | .error e => .error (.fault e)
    | .ok (flags, rest) =>
      match rest, ws with
      | .nothing, ws => do takeAll (← d.endRow.takeSwitches flags none) ws
      | .value s t, ws => do takeAll (← d.endRow.takeSwitches flags (some (s, t))) ws
      | .wanted s, .plain t :: ws =>
        do takeAll (← d.endRow.takeSwitches flags (some (s, t))) ws
      | .wanted s, _ => .error (.fault (.noValue s))

end Draft

/-- A command line that can be run. -/
structure Invocation where
  action : Action
  target : Option Text
  options : Options

/-- What a command line comes to. -/
inductive Reading where
  | run (invocation : Invocation)
  | help
  | refused (fault : UsageFault)

def Draft.finish (d : Draft) : Reading :=
  match d.action, d.surplus with
  | none, _ => .refused .noAction
  | some a, [] => .run ⟨a, d.target, d.options⟩
  | some _, surplus => .refused (.surplus surplus)

def read (arguments : List Text) : Reading :=
  match Word.readAll arguments with
  | .error e => .refused e
  | .ok words =>
    match Draft.start.takeAll words with
    | .error .help => .help
    | .error (.fault e) => .refused e
    | .ok d => d.finish

end SymbolAtlas.CommandLine
