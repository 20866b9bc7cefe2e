import SymbolAtlas.CommandLine.Run

/-!
# The program

The program takes a picture of what a command line speaks of, runs the command line on the picture,
and writes back the files that the run has changed. No parsers are built in: what can be done
without a syntax tree is done, and for the rest the program says that there is no parser.
-/

namespace SymbolAtlas.Program

/-- The files of a volume that differ from what another volume has in their place. -/
def changes (before after : Volume) : List (List Text × Bytes) :=
  (after.top.leaves []).filterMap fun leaf =>
    match leaf.2, before.at? leaf.1 with
    | .file new, some (.file old) => if new = old then none else some (leaf.1, new)
    | .file new, _ => some (leaf.1, new)
    | _, _ => none

/-- The path of a row of names from the top. -/
def pathOf (names : List Text) : String := (Path.text ⟨[Path.slash], names⟩).toString

/-- The names of an absolute path, each `..` taken together with the name before it. -/
def namesOf (path : String) : List Text := Path.cancelUps (Path.parse (Text.ofString path)).names

/-- How many folders deep a picture goes. -/
def depthLimit : Nat := 64

/-- Adds what lies at a path to a picture: a file, a folder with what lies in it down to a depth,
or a link, which is taken to lead straight to its end. What cannot be looked at is left out. -/
def addPicture : Nat → Volume → String → IO Volume
  | 0, v, _ => pure v
  | depth + 1, v, path =>
    try
      let real := (← IO.FS.realPath path).toString
      if namesOf real ≠ namesOf path then
        let v := v.put (namesOf path) (.link (Text.ofString real))
        if (v.at? (namesOf real)).isSome then pure v else addPicture depth v real
      else
        match (← (← IO.FS.realPath path).metadata).type with
        | .dir =>
          let mut v := v.put (namesOf path) (.folder [])
          for entry in ← (← IO.FS.realPath path).readDir do
            v ← addPicture depth v entry.path.toString
          pure v
        | .file => pure (v.put (namesOf path) (.file (← IO.FS.readBinFile path).toList))
        | _ => pure v
    catch _ => pure v

/-- The picture of what a command line speaks of: the project and the files named beside it. -/
def takePicture (cwd : List Text) (reading : CommandLine.Reading) : IO Volume := do
  match reading with
  | .run i =>
    let place (t : Text) (base : Path) : String := pathOf ((Path.parse t).below base).names
    let here : Path := ⟨[Path.slash], cwd⟩
    let project := i.options.project.getD Path.here
    let v ← addPicture depthLimit Volume.empty (place project here)
    let v ← match i.options.contentFile with
      | some file => addPicture depthLimit v (place file here)
      | none => pure v
    match i.target, v.realPath cwd (Path.parse project) with
    | some file, .ok home =>
      match v.content ((Path.parse file).below home).names with
      | .ok _ => pure v
      | .error _ => addPicture depthLimit v (place file home)
    | _, _ => pure v
  | _ => pure Volume.empty

/-- Writes back what a run has changed. -/
def writeBack (before after : Volume) : IO Unit := do
  for (names, bytes) in changes before after do
    IO.FS.createDirAll (pathOf names.dropLast)
    IO.FS.writeBinFile (pathOf names) ⟨bytes.toArray⟩

end SymbolAtlas.Program

open SymbolAtlas in
/-- Runs the program on its arguments. -/
def main (arguments : List String) : IO UInt32 := do
  let words := arguments.map Text.ofString
  let cwd := Program.namesOf (← IO.currentDir).toString
  let before ← Program.takePicture cwd (CommandLine.read words)
  let outcome := CommandLine.run before cwd none words
  Program.writeBack before outcome.volume
  IO.print outcome.output.toString
  IO.eprint outcome.errors.toString
  return UInt32.ofNat outcome.exitCode
