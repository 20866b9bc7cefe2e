import SymbolAtlas.Files.ProjectFiles

/-!
# Files in memory

Files held as a list of paths with their texts; a path may also be known without a text. Paths are
compared as they are written.
-/

namespace SymbolAtlas

/-- Files in memory, and whether writing to them fails. -/
structure MemoryFiles where
  entries : List (Text × Option Text)
  failsToWrite : Bool

namespace MemoryFiles

/-- The entries with the text of a path set. -/
def setText (path text : Text) : List (Text × Option Text) → List (Text × Option Text)
  | [] => [(path, some text)]
  | (p, t) :: es => if p = path then (p, some text) :: es else (p, t) :: setText path text es

/-- The text at a path. -/
def text? (m : MemoryFiles) (path : Text) : Option Text :=
  (m.entries.find? fun e => e.1 = path).bind (·.2)

instance : ProjectFiles MemoryFiles where
  isFile m path := .ok (m.entries.any fun e => e.1 = path)
  read m path := pure (m.text? path)
  write m path text :=
    if m.failsToWrite then (m, pure false)
    else ({ m with entries := setText path text m.entries }, pure true)
  collect m _ := pure (m.entries.foldl (fun paths e => Text.insertSorted e.1 paths) [])

end MemoryFiles

end SymbolAtlas
