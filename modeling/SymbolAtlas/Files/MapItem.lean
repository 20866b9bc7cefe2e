import SymbolAtlas.Failure

/-!
# Map items

A map item names a file or folder that belongs to the repository map, with patterns for what to
leave out of it. The patterns come as a list, or as one text with commas or line ends between them.
-/

namespace SymbolAtlas

/-- A file or folder of the map with its ignore patterns, which settings may give as any value. -/
structure MapItem where
  path : Text
  ignore : List Json

namespace MapItem

/-- The parts of a text between commas and line ends. -/
def splitPatterns (t : Text) : List Text :=
  (Text.lines t).flatMap (Text.separate (CodePoint.ofChar ','))

/-- The patterns of a text without the blanks around them, blank ones left out. -/
def patternsOf (t : Text) : List Text := ((splitPatterns t).map Text.trim).filter (· ≠ [])

/-- The patterns that an ignore setting gives; a setting that is not given has none. -/
def ignoreOf (setting : Option Json) : Except Failure (List Json) :=
  match setting with
  | none => .ok []
  | some v =>
    if v.isGiven then
      match v with
      | .text t => .ok ((patternsOf t).map .text)
      | .list vs => .ok vs
      | .object ms => .ok (ms.map fun m => .text m.1)
      | v => .error (.notIterable v)
    else .ok []

/-- The map item that a JSON object describes. -/
def ofJson (v : Json) : Except Failure MapItem :=
  match v.get? "path" with
  | none => .error .missingPath
  | some path =>
    match ignoreOf (v.get? "ignore") with
    | .ok ignore => .ok ⟨path.asText, ignore⟩
    | .error e => .error e

/-- The item of the whole project. -/
def everything : MapItem := ⟨".", []⟩

end MapItem

end SymbolAtlas
