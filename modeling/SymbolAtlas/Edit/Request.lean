import SymbolAtlas.Diff.Unified
import SymbolAtlas.Edit.Site
import SymbolAtlas.Files.Path
import SymbolAtlas.Files.ProjectFiles
import SymbolAtlas.Settings
import SymbolAtlas.Tree.Parsers

/-!
# Edit requests

A request to create, replace or delete one symbol of a file. `EditRequest.plan` works out the edit:
the text of the file before and after it, or the reason why there is none. Planning reads files and
writes nothing.

The site of the edit is looked for first (`EditTask.site`): where the symbol stands, or for a symbol
that is not found the end of the file, or of the class that it is to belong to.
-/

namespace SymbolAtlas

/-- A request to create, replace or delete one symbol. -/
structure EditRequest where
  file : Text
  name : Text
  kind : Json
  /-- The new source of the symbol; empty to delete it. -/
  content : Option Content
  parentClass : Option Text

def EditRequest.isDelete (r : EditRequest) : Bool := r.content = some (.text [])

/-- Why a request leaves everything as it is. -/
inductive EditRefusal where
  | missingArguments
  | unknownKind (given : Json)
  | fileNotFound (file : Text)
  | unsupportedType (file extension : Text)
  | unreadable (file : Text)
  | stopped (failure : Failure)
  | noParser (grammar : Grammar) (file : Text)
  | classNotFound (name file : Text)
  | memberNotFound (kind : SymbolKind) (name class_ : Text)
  | notWritten (file : Text)

namespace EditRefusal

def code : EditRefusal → Text
  | missingArguments => "missing_args"
  | unknownKind _ => "invalid_kind"
  | fileNotFound _ => "file_not_found"
  | unsupportedType .. => "unsupported_file_type"
  | unreadable _ => "unreadable_file"
  | stopped _ => "execution_failed"
  | noParser .. => "grammar_unavailable"
  | classNotFound .. => "parent_class_not_found"
  | memberNotFound .. => "symbol_not_found"
  | notWritten _ => "write_failed"

def message : EditRefusal → Text
  | missingArguments =>
    "Missing required parameters. Please provide path, symbol name, symbol kind, and content."
  | unknownKind given => (Failure.unknownKind given).message
  | fileNotFound file => Text.concat ["File ", file, " not found. Please create the file first."]
  | unsupportedType file extension =>
    Text.concat ["Unsupported file type '", if extension = [] then "(none)" else extension,
      "' for ", file, ". Supported: ", Grammar.supported]
  | unreadable file => Text.concat ["Could not read content for file ", file, "."]
  | stopped failure => Text.concat ["Error modifying symbol: ", failure.message]
  | noParser g file =>
    Text.concat ["No parser available for ", g.name, "; cannot edit ", file, "."]
  | classNotFound name file => Text.concat ["Parent class '", name, "' not found in ", file, "."]
  | memberNotFound kind name class_ =>
    Text.concat [kind.name, " '", name, "' not found in class '", class_, "'."]
  | notWritten file => Text.concat ["Failed to write changes to ", file]

end EditRefusal

/-- An edit that has been worked out. -/
structure Edit where
  description : Text
  file : Text
  present : Text
  revised : Text

def Edit.diff (e : Edit) : Text := Diff.unified e.present e.revised e.file

/-- A request whose arguments have been checked. -/
structure EditTask where
  file : Text
  name : Text
  kind : SymbolKind
  content : Content
  /-- The class that the symbol is to belong to, if its kind allows one. -/
  parentClass : Option Text

namespace EditTask

def description (task : EditTask) : Text :=
  match task.parentClass with
  | some c => Text.concat [task.kind.name, " '", task.name, "' in class '", c, "'"]
  | none => Text.concat [task.kind.name, " '", task.name, "'"]

/-! ## Working out the new text -/

/-- Whether the task may go by the header of a function instead of a syntax tree. -/
def usesHeader (task : EditTask) (settings : Settings) (g : Grammar) : Bool :=
  settings.fastPath && task.parentClass.isNone && task.kind = .function && g.hasFunctionHeaders

def findClass (src : Source) (name : Text) : Report (Option Located) := do
  match ← src.reportLocate name .class_ with
  | some l => pure (some l)
  | none => src.reportLocate name .struct

/-- The site of a member of a class; a member that is to be deleted has to be there. -/
def memberSite (task : EditTask) (src : Source) (className : Text) :
    Report (Except EditRefusal EditSite) := do
  match ← findClass src className with
  | none => pure (.error (.classNotFound className task.file))
  | some c =>
    match ← Report.ofExcept (src.locateInClass c.spot task.name task.kind (some className)) with
    | some member => pure (.ok (.symbol member))
    | none =>
      if task.content = .text [] then
        pure (.error (.memberNotFound task.kind task.name className))
      else pure (.ok (.classEnd c.range src.grammar))

/-- The site of a top-level symbol. -/
def topLevelSite (task : EditTask) (src : Source) : Report EditSite := do
  match ← src.reportLocate task.name task.kind with
  | none => pure .fileEnd
  | some located => pure (.symbol located)

/-- The site of a task in a text. -/
def site (task : EditTask) (settings : Settings) (parsers : Parsers) (g : Grammar) (t : Text) :
    Report (Except EditRefusal EditSite) :=
  if task.usesHeader settings g then do
    Report.tell .debug (Text.concat ["Using heuristic matcher for function '", task.name, "'"])
    pure (.ok (.byHeader t task.name))
  else do
    match ← parsers.parse t g with
    | none => pure (.error (.noParser g task.file))
    | some src =>
      match task.parentClass with
      | some c => task.memberSite src c
      | none => do
        let site ← task.topLevelSite src
        pure (.ok site)

/-- The new text of the file for its present text. -/
def revise (task : EditTask) (settings : Settings) (parsers : Parsers) (g : Grammar) (t : Text) :
    Report (Except EditRefusal Text) := do
  match ← task.site settings parsers g t with
  | .error refusal => pure (.error refusal)
  | .ok site =>
    let revised ← Report.ofExcept (site.revise t task.content)
    pure (.ok revised)

end EditTask

namespace EditRequest

/-- What the log puts before the messages of edits. -/
def logMark : Text := "[repo-map/symbol] "

/-- The task of a request. A parent class is passed over where the kind allows none. -/
def check (r : EditRequest) : Report (Except EditRefusal EditTask) :=
  match r.content with
  | none => pure (.error .missingArguments)
  | some content =>
    if r.file = [] ∨ r.name = [] ∨ !r.kind.isGiven then pure (.error .missingArguments)
    else
      match SymbolKind.ofValue? r.kind with
      | none => pure (.error (.unknownKind r.kind))
      | some kind =>
        match r.parentClass with
        | some (c :: cs) =>
          if kind.isMember then pure (.ok ⟨r.file, r.name, kind, content, some (c :: cs)⟩)
          else do
            Report.tell .warn (Text.concat ["Ignoring parent class '", c :: cs, "' for ", kind.name,
              " '", r.name, "'"])
            pure (.ok ⟨r.file, r.name, kind, content, none⟩)
        | _ => pure (.ok ⟨r.file, r.name, kind, content, none⟩)

variable {σ : Type} [ProjectFiles σ]

/-- Works out the edit of a task. -/
def planTask (files : σ) (parsers : Parsers) (settings : Settings) (task : EditTask) :
    Report (Except EditRefusal Edit) := do
  Report.tell .info (Text.concat [logMark, "Modifying ", task.description, " in ", task.file])
  if !(← Report.ofExcept (ProjectFiles.isFile files task.file)) then
    pure (.error (.fileNotFound task.file))
  else
    let extension := (Path.parse task.file).extension.lower
    match Grammar.ofExtension? extension with
    | none => pure (.error (.unsupportedType task.file extension))
    | some g =>
      match ← ProjectFiles.read files task.file with
      | none => pure (.error (.unreadable task.file))
      | some present =>
        match ← (task.revise settings parsers g present).attempt with
        | .error e =>
          Report.tell .error (Text.concat [logMark, "Error modifying ", task.description, ": ",
            e.message])
          pure (.error (.stopped e))
        | .ok (.error refusal) => pure (.error refusal)
        | .ok (.ok revised) => pure (.ok ⟨task.description, task.file, present, revised⟩)

/-- Works out the edit that a request asks for. -/
def plan (files : σ) (parsers : Parsers) (settings : Settings) (r : EditRequest) :
    Report (Except EditRefusal Edit) := do
  match ← r.check with
  | .error refusal => pure (.error refusal)
  | .ok task => planTask files parsers settings task

end EditRequest

end SymbolAtlas
