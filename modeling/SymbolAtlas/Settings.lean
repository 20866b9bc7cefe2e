import SymbolAtlas.Files.Disk

/-!
# Settings

The settings of a project: whether functions may be found by their header alone, and the map items.
They stand in a JSON file in the project's own settings folder. A file that is missing, that cannot
be read as JSON or that holds no object leaves the defaults; items without a path are passed over.
-/

namespace SymbolAtlas

/-- The settings of a project. -/
structure Settings where
  /-- Whether functions of the JavaScript family are found by their header alone. -/
  fastPath : Bool
  items : List MapItem

namespace Settings

def default : Settings := ⟨true, [MapItem.everything]⟩

def file : List Text := [".repomap", "config.json"]

/-- Reads the items of a settings file. -/
def readItems : List Json → Report (List MapItem)
  | [] => pure []
  | v :: vs => do
    match v with
    | .object _ =>
      if ((v.get? "path").map Json.isGiven).getD false then
        let item ← Report.ofExcept (MapItem.ofJson v)
        let items ← readItems vs
        pure (item :: items)
      else
        Report.tell .warn (Text.concat ["Ignoring invalid map item: ", v.shown])
        readItems vs
    | _ =>
      Report.tell .warn (Text.concat ["Ignoring invalid map item: ", v.shown])
      readItems vs

/-- The settings that the JSON value of a settings file describes. -/
def ofJson (place : Text) (v : Json) : Report Settings :=
  match v with
  | .object _ => do
    let fastPath := ((v.get? "heuristic_fast_path").map Json.isGiven).getD default.fastPath
    let items ← match v.get? "items" with
      | some (.list vs) => readItems vs
      | _ => pure default.items
    Report.tell .debug (Text.concat ["Loaded config from ", place])
    pure ⟨fastPath, items⟩
  | _ => do
    Report.tell .warn (Text.concat ["Ignoring ", place, ": expected a JSON object"])
    pure default

def ofText [Host] (place t : Text) : Report Settings :=
  let t := Text.withNewlines t
  match Json.parseWithin Host.readingDepth t with
  | .ok v => ofJson place v
  | .error e =>
    if e.fault.isBound then .fail (.beyondReading e.fault)
    else do
      Report.tell .warn (Text.concat ["Could not read ", place, ": ", e.message t,
        ". Using defaults."])
      pure default

/-- Loads the settings of the project in the folder `home`. -/
def load [Host] (v : Volume) (home : Path) : Report Settings :=
  let p : Path := ⟨home.anchor, home.names ++ file⟩
  match DiskFiles.isFileAt v p with
  | .error e => .fail e
  | .ok false => do
    Report.tell .debug (Text.concat ["No config file at ", p.text, ", using defaults"])
    pure default
  | .ok true =>
    match DiskFiles.bytesAt v p p with
    | .error e => do
      Report.tell .warn (Text.concat ["Could not read ", p.text, ": ", e.message,
        ". Using defaults."])
      pure default
    | .ok bytes =>
      match Utf8.decodeStrict bytes with
      | .error e => .fail (.undecodable e)
      | .ok t => ofText p.text t

end Settings

end SymbolAtlas
