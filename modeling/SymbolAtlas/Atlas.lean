import SymbolAtlas.Edit.Request
import SymbolAtlas.Map.RepositoryMap

/-!
# The atlas of a project

An `Atlas` holds the files of a project with its settings and parsers, and answers what users ask:
the symbols of a file, the map of the project, and edits of single symbols. Only `Atlas.edit` with
`dryRun` off writes, and then at most the one file of the request.
-/

namespace SymbolAtlas

/-- A project that is being mapped and edited. -/
structure Atlas (σ : Type) where
  files : σ
  dirty : Bool
  settings : Settings
  parsers : Parsers
  stream : LogStream

/-- The answer that something was refused. -/
def refusalJson (code message : Text) : Json :=
  .object [(Text.ofString "success", .bool false), (Text.ofString "error", .text code),
    (Text.ofString "message", .text message)]

/-! ## Symbols of a file -/

/-- Why the symbols of a file are not listed. -/
inductive ListingRefusal where
  | fileNotFound (file : Text)
  | unsupportedType (file : Text)
  | unreadable (file : Text)
  | noParser (grammar : Grammar)

namespace ListingRefusal

def code : ListingRefusal → Text
  | fileNotFound _ => "file_not_found"
  | unsupportedType _ => "unsupported_file_type"
  | unreadable _ => "unreadable_file"
  | noParser _ => "grammar_unavailable"

def message : ListingRefusal → Text
  | fileNotFound file => Text.concat ["File not found: ", file]
  | unsupportedType file =>
    Text.concat ["Unsupported file type for ", file, ". Supported: ", Grammar.supported]
  | unreadable file => Text.concat ["Could not read content for file ", file]
  | noParser g => Text.concat ["No parser available for ", g.name]

end ListingRefusal

/-- The symbols of a file, or why they are not listed. -/
abbrev ListingAnswer := Except ListingRefusal (Text × List Symbol)

def ListingAnswer.toJson : ListingAnswer → Json
  | .error r => refusalJson r.code r.message
  | .ok (file, symbols) =>
    .object [(Text.ofString "success", .bool true), (Text.ofString "file", .text file),
      (Text.ofString "total_symbols", .int symbols.length),
      (Text.ofString "symbols", .list (symbols.map Symbol.toJson))]

/-! ## Edits -/

/-- What became of an edit that was worked out. -/
inductive EditOutcome where
  | preview (edit : Edit)
  | applied (edit : Edit)

/-- The outcome of a request, or why it was refused. -/
abbrev EditAnswer := Except EditRefusal EditOutcome

def EditAnswer.toJson : EditAnswer → Json
  | .error r => refusalJson r.code r.message
  | .ok (.preview e) =>
    .object [(Text.ofString "success", .bool true), (Text.ofString "diff", .text e.diff),
      (Text.ofString "new_content", .text e.revised),
      (Text.ofString "message", .text "Dry run - no changes applied")]
  | .ok (.applied e) =>
    .object [(Text.ofString "success", .bool true), (Text.ofString "diff", .text e.diff),
      (Text.ofString "message", .text (Text.concat [e.description, " successfully modified"]))]

namespace Atlas

variable {σ : Type} [ProjectFiles σ]

def symbols (a : Atlas σ) (file : Text) : Report ListingAnswer := do
  if !(← Report.ofExcept (ProjectFiles.isFile a.files file)) then
    pure (.error (.fileNotFound file))
  else
    match Grammar.ofExtension? (Path.parse file).extension with
    | none => pure (.error (.unsupportedType file))
    | some g =>
      match ← ProjectFiles.read a.files file with
      | none => pure (.error (.unreadable file))
      | some text =>
        match ← a.parsers.parse text g with
        | none => pure (.error (.noParser g))
        | some src => do
          let symbols ← src.reportSymbols
          pure (.ok (file, symbols))

def mapFiles (a : Atlas σ) : Report (List Text) := ProjectFiles.collect a.files a.settings.items

def chosenFiles (a : Atlas σ) : Option (List Text) → Report (List Text)
  | some paths => pure paths
  | none => a.mapFiles

def map (a : Atlas σ) (paths : Option (List Text)) : Report (Option Text) := do
  let paths ← a.chosenFiles paths
  Report.tell .info
    (Text.concat ["Building repository map for ", Text.ofNat paths.length, " files"])
  RepositoryMap.build a.files a.parsers a.stream paths

/-- The map of the given files, or of the project, for use in a conversation. -/
def memory (a : Atlas σ) (paths : Option (List Text)) : Report (Option Text) := do
  let paths ← a.chosenFiles paths
  RepositoryMap.build a.files a.parsers a.stream paths

/-- Writes an edit and marks the project as changed. -/
def commit (a : Atlas σ) (e : Edit) : Atlas σ × Report EditAnswer :=
  match ProjectFiles.write a.files e.file e.revised with
  | (files, ⟨log, .ok true⟩) =>
    ({ a with files := files, dirty := true },
      ⟨log ++ [⟨.info, Text.concat [EditRequest.logMark, "Successfully modified ", e.description,
        " in ", e.file]⟩], .ok (.ok (.applied e))⟩)
  | (files, ⟨log, .ok false⟩) =>
    ({ a with files := files }, ⟨log, .ok (.error (.notWritten e.file))⟩)
  | (files, ⟨log, .error f⟩) => ({ a with files := files }, ⟨log, .error f⟩)

/-- Answers a request to edit a symbol. A dry run only shows the edit. -/
def edit (a : Atlas σ) (r : EditRequest) (dryRun : Bool) : Atlas σ × Report EditAnswer :=
  match r.plan a.files a.parsers a.settings with
  | ⟨log, .error f⟩ => (a, ⟨log, .error f⟩)
  | ⟨log, .ok (.error refusal)⟩ => (a, ⟨log, .ok (.error refusal)⟩)
  | ⟨log, .ok (.ok e)⟩ =>
    if dryRun then (a, ⟨log, .ok (.ok (.preview e))⟩)
    else
      let (a, report) := a.commit e
      (a, ⟨log ++ report.log, report.result⟩)

end Atlas

end SymbolAtlas
