import SymbolAtlas.Files.Gitignore
import SymbolAtlas.Files.ProjectFiles
import SymbolAtlas.Files.RealPath
import SymbolAtlas.Host

/-!
# Files on a volume

The files of a project whose folder lies on a volume. Texts are written as UTF-8 with stray bytes
kept; a file is emptied before its new text is encoded. Collecting goes through the folders of the
map items, takes each file under its path without links, and leaves out what lies outside the
project, below ignored or hidden folders, what the patterns ignore and what is too large.
-/

namespace SymbolAtlas

/-- The files of the project in the folder `home` of a volume. -/
structure DiskFiles where
  volume : Volume
  /-- The project folder, a path without links. -/
  home : Path

namespace DiskFiles

/-- The absolute path for a path relative to the project. -/
def locate (d : DiskFiles) (file : Text) : Path := (Path.parse file).below d.home

/-- Whether a path leads to a file. A path that nothing can have leads to none; one with something
too long in it cannot be looked at. -/
def isFileAt (v : Volume) (p : Path) : Except Failure Bool :=
  match Volume.refusal? p with
  | some (.path fault place) => .error (.path fault place)
  | some _ => .ok false
  | none =>
    match v.find p.names with
    | .ok (.file _) => .ok true
    | .error .nameTooLong => .error (.path .nameTooLong p.text)
    | _ => .ok false

/-- The bytes of the file at an absolute path, or why they cannot be read; `shown` is the path as it
was given. -/
def bytesAt (v : Volume) (p shown : Path) : Except Failure Bytes :=
  match Volume.refusal? shown with
  | some e => .error e
  | none =>
    match v.content p.names with
    | .ok bytes => .ok bytes
    | .error e => .error (.path e shown.text)

def readAt (d : DiskFiles) (file : Text) : Report (Option Text) :=
  let p := d.locate file
  match bytesAt d.volume p p with
  | .ok bytes => pure (some (Utf8.decode bytes))
  | .error (.path fault place) => do
    Report.tell .debug (Text.concat ["Error reading ", file, ": ",
      (Failure.path fault place).message])
    pure none
  | .error e => .fail e

/-- The report of a text that could not be stored. -/
def notWritten (file : Text) (e : Failure) : Report Bool := do
  Report.tell .error (Text.concat ["Error writing ", file, ": ", e.message])
  pure false

/-- Makes the folders around a path. -/
def prepare [Host] (v : Volume) (p : Path) : Volume × Except Failure Unit :=
  match Volume.refusal? p.parent with
  | some e => (v, .error e)
  | none => v.ensureFolders p.anchor Host.folderLimit p.parent.names.reverse

/-- Stores a text at a path. Failures of the file system and of the encoding are logged; a null
character in the path, and too many folders to make, stop the operation. -/
def writeAt [Host] (d : DiskFiles) (file text : Text) : DiskFiles × Report Bool :=
  let p := d.locate file
  let settle (v : Volume) (e : Failure) : DiskFiles × Report Bool :=
    match e with
    | .path .. | .unencodable _ => ({ d with volume := v }, notWritten file e)
    | e => ({ d with volume := v }, .fail e)
  match prepare d.volume p with
  | (v, .error e) => settle v e
  | (v, .ok ()) =>
    match Volume.refusal? p with
    | some e => settle v e
    | none =>
      match v.target p.names with
      | .error e => settle v (.path e p.text)
      | .ok place =>
        match Utf8.encode text with
        | .ok bytes => ({ d with volume := v.put place (.file bytes) }, pure true)
        | .error e => settle (v.put place (.file [])) (.unencodable e)

/-! ## Collecting -/

/-- Folders that no map file lies below. -/
def skippedFolders : List Text :=
  ["node_modules", ".git", ".svn", ".hg", "__pycache__", ".pytest_cache", ".mypy_cache", ".tox",
   ".nox", ".eggs", "dist", "build", ".next", ".nuxt", ".output", "coverage", ".cache", ".turbo",
   "venv", ".venv", "env", "virtualenv", "target", "out", "bin", "obj", ".idea", ".vs", "vendor",
   "bower_components", ".repomap", "site-packages"]

/-- Hidden folders that map files may lie below all the same. -/
def shownFolders : List Text := [".github", ".vscode"]

/-- Whether a name keeps everything of that name and below it out of the map. -/
def isSkipped (name : Text) : Bool :=
  skippedFolders.contains name ||
    (name.head? = some (CodePoint.ofChar '.') && !shownFolders.contains name)

/-- The size in bytes of the largest file of the map. -/
def sizeLimit : Nat := 5 * 1024 * 1024

/-- The names of a path below a folder, if it lies there. -/
def namesBelow? (base p : Path) : Option (List Text) :=
  if base.anchor = p.anchor ∧ base.names.isPrefixOf p.names then
    some (p.names.drop base.names.length)
  else none

/-- The candidates of an item: paths that lead to files, with the folder that the patterns belong
to. -/
structure Candidates where
  base : Path
  files : List Path

/-- The files and links below a folder, under the path of the folder; what lies behind links is left
out. -/
def pathsBelow (v : Volume) (p : Path) : List Path :=
  match v.find p.names with
  | .ok folder => (folder.leaves p.names).map fun leaf => ⟨p.anchor, leaf.1⟩
  | .error _ => []

/-- The files that an item names: the file itself, or all files below the folder. -/
def candidates? (v : Volume) (place : Path) : Except Failure (Option Candidates) := do
  if ← isFileAt v place then pure (some ⟨place.parent, [place]⟩)
  else if v.isFolder place.names then
    let files ← (pathsBelow v place).filterM (isFileAt v)
    pure (some ⟨place, files⟩)
  else pure none

/-- The path of a file in the map, without links and relative to the project, unless the file is
left out. -/
def mapPath? (d : DiskFiles) (reader : PatternReader) (rules : List reader.Rule)
    (base file : Path) : Report (Option Text) := do
  let real ← Report.ofExcept (d.volume.realPath [] file)
  match namesBelow? d.home real with
  | none => pure none
  | some below =>
    if below.any isSkipped then pure none
    else
      match (match namesBelow? base real with
        | some inside => reader.isIgnored rules base inside
        | none => .ok false) with
      | .error e => .fail e
      | .ok true => pure none
      | .ok false =>
        match d.volume.content file.names with
        | .error _ => pure none
        | .ok bytes =>
          let path := Path.text ⟨[], below⟩
          if sizeLimit < bytes.length then do
            Report.tell .debug (Text.concat ["Skipping large file: ", path])
            pure none
          else pure (some path)

/-- The paths of the files of one item, added to those of the items before. -/
def collectItem (d : DiskFiles) (reader : PatternReader) (found : List Text) (item : MapItem) :
    Report (List Text) := do
  let place ← Report.ofExcept (d.volume.realPath [] (d.locate item.path))
  match ← Report.ofExcept (candidates? d.volume place) with
  | none =>
    Report.tell .warn (Text.concat ["Map item not found: ", item.path])
    pure found
  | some candidates =>
    let rules ← Report.ofExcept (reader.rulesOf candidates.base item.ignore)
    candidates.files.foldlM (fun found file => do
      match ← d.mapPath? reader rules candidates.base file with
      | some path => pure (Text.insertSorted path found)
      | none => pure found) found

/-- The paths of the files that map items name, ascending. -/
def collectItems (d : DiskFiles) (reader : PatternReader) (items : List MapItem) :
    Report (List Text) :=
  items.foldlM (d.collectItem reader) []

instance [Host] : ProjectFiles DiskFiles where
  isFile d file := isFileAt d.volume (d.locate file)
  read := readAt
  write := writeAt
  collect d := d.collectItems gitignore

end DiskFiles

end SymbolAtlas
