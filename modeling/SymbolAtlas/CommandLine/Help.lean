import SymbolAtlas.CommandLine.Options

/-!
# Help

What the program says about its own command line: how it is used, and what is wrong with a command
line that it refuses.
-/

namespace SymbolAtlas.CommandLine

def programName : Text := "repomap"

def kindChoices : Text :=
  Text.concat ["\x7b", List.intercalate (Text.ofString ",") (SymbolKind.all.map SymbolKind.name),
    "\x7d"]

def usage : Text :=
  Text.unlines
    ["usage: repomap [-h] [--project PROJECT] [--name NAME]",
     Text.concat ["               [--kind ", kindChoices, "]"],
     "               [--parent-class PARENT_CLASS] [--content CONTENT]",
     "               [--content-file CONTENT_FILE] [--apply] [--no-fast-path]",
     "               [--verbose]",
     "               \x7bmap,symbols,symbol\x7d [target]",
     ""]

def switchHelp : Text :=
  Text.unlines
    ["positional arguments:",
     "  \x7bmap,symbols,symbol\x7d  Action to perform",
     "  target                File path for symbols/symbol",
     "",
     "options:",
     "  -h, --help            show this help message and exit",
     "  --project PROJECT, -p PROJECT",
     "                        Project root directory (default: current directory)",
     "  --name NAME, -n NAME  Symbol name to create, replace or delete",
     Text.concat ["  --kind ", kindChoices, ", -k ", kindChoices],
     "                        Symbol kind",
     "  --parent-class PARENT_CLASS",
     "                        Enclosing class for methods, constructors and",
     "                        properties",
     "  --content CONTENT, -c CONTENT",
     "                        Full new source of the symbol; an empty string deletes",
     "                        it",
     "  --content-file CONTENT_FILE",
     "                        Read the new symbol source from a file",
     "  --apply               Actually apply changes (default is dry-run)",
     "  --no-fast-path        Always use tree-sitter, never the heuristic function",
     "                        matcher",
     "  --verbose, -v         Enable verbose logging to stderr",
     ""]

def examples : Text :=
  Text.unlines
    ["Examples:",
     "  # Repository map",
     "  repomap map",
     "  repomap map --project ../webapp",
     "",
     "  # Symbols of one file",
     "  repomap symbols src/auth.js",
     "",
     "  # Editing (defaults to dry-run)",
     "  repomap symbol src/auth.js --name login --kind function --content-file login.js",
     "  repomap symbol src/auth.js --name login --kind function --content-file login.js --apply",
     "  repomap symbol src/auth.js --name logout --kind function --content \"\" --apply",
     ("  repomap symbol src/app.py --name __init__ --kind constructor " : String) ++
       "--parent-class App --content-file init.py",
     "        ",
     ""]

def help : Text :=
  Text.concat
    [usage, "\nRepoMap Engine - Symbol map and syntax-aware symbol editing\n\n", switchHelp, "\n",
      examples]

def quotedList (ts : List Text) : Text :=
  List.intercalate (Text.ofString ", ") (ts.map Text.quoted)

def UsageFault.message : UsageFault → Text
  | ambiguous given candidates =>
    Text.concat ["ambiguous option: ", given, " could match ",
      List.intercalate (Text.ofString ", ") (candidates.map Switch.long)]
  | noValue s => Text.concat ["argument ", s.label, ": expected one argument"]
  | unwantedValue s given =>
    Text.concat ["argument ", s.label, ": ignored explicit argument ", given.quoted]
  | unknownKind given =>
    Text.concat ["argument ", Switch.kind.label, ": invalid choice: ", given.quoted,
      " (choose from ", quotedList (SymbolKind.all.map SymbolKind.name), ")"]
  | unknownAction given =>
    Text.concat ["argument action: invalid choice: ", given.quoted, " (choose from ",
      quotedList (Action.all.map Action.name), ")"]
  | noAction => "the following arguments are required: action"
  | surplus given =>
    Text.concat ["unrecognized arguments: ", List.intercalate (Text.ofString " ") given]

def UsageFault.report (f : UsageFault) : Text :=
  Text.concat [usage, programName, ": error: ", f.message, "\n"]

end SymbolAtlas.CommandLine
