import SymbolAtlas.Report
import SymbolAtlas.Tree.Source

/-!
# Parsers

Syntax trees come from parsers outside this library. `Parsers` is what the library knows of them:
whether there is a parser for a grammar, and what tree or complaint it answers for the bytes of a
source.
-/

namespace SymbolAtlas

/-- A parser for one grammar: the tree of some bytes, or its complaint about them. -/
abbrev Parser := Bytes → Except Text Node

/-- Parsers by grammar; a grammar without a parser has a reason. `none` if there are no parsers at
all. -/
abbrev Parsers := Option (Grammar → Except Text Parser)

namespace Parsers

def get (ps : Parsers) (g : Grammar) : Report (Option Parser) :=
  match ps with
  | none => pure none
  | some find =>
    match find g with
    | .error reason => do
      Report.tell .debug (Text.concat ["No parser available for ", g.name, ": ", reason])
      pure none
    | .ok parser => do
      Report.tell .debug (Text.concat ["Created parser for ", g.name])
      pure (some parser)

/-- The source of a text under a grammar, if there is a parser for it. -/
def parse (ps : Parsers) (text : Text) (g : Grammar) : Report (Option Source) := do
  match ← ps.get g with
  | none => pure none
  | some parser => Report.ofExcept ((Source.build text g parser).map some)

/-- What is logged when the parsers are set up. -/
def announce (ps : Parsers) : Report Unit :=
  match ps with
  | some _ => Report.tell .debug "tree-sitter-languages loaded successfully"
  | none => do
    Report.tell .error "Failed to import tree-sitter-languages: no parsers"
    Report.tell .error "Install with: pip install tree-sitter-languages"

end Parsers

end SymbolAtlas
