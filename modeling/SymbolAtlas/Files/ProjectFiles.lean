import SymbolAtlas.Files.MapItem
import SymbolAtlas.Report

/-!
# Files of a project

What the map and the edits need to know of the files of a project. Asking and reading answer
reports and change nothing; only `write` answers new files.
-/

namespace SymbolAtlas

/-- Files that can be asked for, read, written and collected under paths relative to a project. -/
class ProjectFiles (σ : Type) where
  isFile : σ → Text → Except Failure Bool
  /-- The text of the file at a path, if there is one that can be read. -/
  read : σ → Text → Report (Option Text)
  /-- The files after a text was stored at a path, and whether it was. -/
  write : σ → Text → Text → σ × Report Bool
  /-- The paths of the files that map items name, ascending. -/
  collect : σ → List MapItem → Report (List Text)

end SymbolAtlas
