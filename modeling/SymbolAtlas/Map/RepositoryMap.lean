import SymbolAtlas.Files.Path
import SymbolAtlas.Files.ProjectFiles
import SymbolAtlas.Map.Outline
import SymbolAtlas.Symbol.Listing
import SymbolAtlas.Tree.Parsers

/-!
# The repository map

The outlines of the source files of a project, one below the other. A file that cannot be outlined
is left out with a word in the log; it never keeps the others from the map.
-/

namespace SymbolAtlas.RepositoryMap

variable {σ : Type} [ProjectFiles σ]

/-- What the map starts with. -/
def preamble : Text :=
  Text.concat ["// These are snippets of the symbols in the project. This DOES NOT contain ",
    "the full file contents. This only includes relevant symbols for you to ",
    "reference so you know what to retrieve with the retrieveFiles tool:\n"]

/-- The outline of one file; none if it is no source file or cannot be parsed. -/
def outline (files : σ) (parsers : Parsers) (file : Text) : Report (Option Text) :=
  match Grammar.ofExtension? (Path.parse file).extension with
  | none => pure none
  | some g => do
    match ← ProjectFiles.read files file with
    | none =>
      Report.tell .error (Text.concat ["Could not read content for file ", file, ". Skipping."])
      pure none
    | some text =>
      match ← parsers.parse text g with
      | none =>
        Report.tell .error (Text.concat ["No parser available for ", file, ". Skipping."])
        pure none
      | some src =>
        let symbols ← src.reportSymbols
        Report.tell .debug (Text.concat ["Mapped ", file, ": ", Text.ofNat symbols.length,
          " symbols"])
        let shown ← Report.ofExcept (Outline.ofFile file text (symbols.map fun s => (s.line : Int)))
        pure (some shown)

/-- The outlines of files, those that fail left out. A file of which the log cannot tell fails. -/
def outlines (files : σ) (parsers : Parsers) (stream : LogStream) :
    List Text → Report (List Text)
  | [] => pure []
  | file :: rest => do
    match ← ((outline files parsers file).through stream).attempt with
    | .error e =>
      Report.tell .error (Text.concat ["Error processing file ", file, ": ", e.message])
      outlines files parsers stream rest
    | .ok none => outlines files parsers stream rest
    | .ok (some shown) => do
      let more ← outlines files parsers stream rest
      pure (shown :: more)

/-- The map of files; none if no file has an outline. -/
def build (files : σ) (parsers : Parsers) (stream : LogStream) (paths : List Text) :
    Report (Option Text) := do
  match ← outlines files parsers stream paths with
  | [] => pure none
  | shown => pure (some (preamble ++ List.intercalate [Text.newline] shown))

end SymbolAtlas.RepositoryMap
