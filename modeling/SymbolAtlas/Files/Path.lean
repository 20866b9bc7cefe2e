import SymbolAtlas.Text.Basic

/-!
# Paths

A path is a row of names, absolute if it has an anchor. Reading a path drops empty names and single
dots and keeps `..`, which only a look at the links on the way can resolve.
-/

namespace SymbolAtlas

/-- A path: its anchor, empty for a relative path, and its names. -/
@[ext]
structure Path where
  anchor : Text
  names : List Text
deriving DecidableEq

namespace Path

/-- The code point between names. -/
def slash : CodePoint := CodePoint.ofChar '/'

/-- The name that stands for the folder around. -/
def up : Text := ".."

/-- The name that stands for the folder itself. -/
def here : Text := "."

/-- Reads a path. Two slashes at the start are an anchor of their own, any other number of them is
the anchor of one. -/
def parse (t : Text) : Path where
  anchor := match (t.takeWhile (· = slash)).length with
    | 0 => []
    | 2 => [slash, slash]
    | _ => [slash]
  names := (Text.separate slash t).filter fun n => n ≠ [] && n ≠ here

/-- Whether the path starts at the top folder. -/
def isAbsolute (p : Path) : Bool := p.anchor ≠ []

/-- Names with slashes between them. -/
def joined (names : List Text) : Text := List.intercalate [slash] names

def text (p : Path) : Text :=
  if p.names = [] then (if p.anchor = [] then here else p.anchor) else p.anchor ++ joined p.names

/-- The path that some names lead to from the folder at a path. -/
def inside (p : Path) (names : List Text) : Path := ⟨p.anchor, p.names ++ names⟩

/-- The path below a base, unless it is absolute. -/
def below (p base : Path) : Path :=
  if p.isAbsolute then p else ⟨base.anchor, base.names ++ p.names⟩

/-- The path without its last name. -/
def parent (p : Path) : Path := ⟨p.anchor, p.names.dropLast⟩

/-- The path of the folder around, as far as the names alone tell. A relative path that has no name
to drop goes up by one more `..`. -/
def above (p : Path) : Path :=
  if p.names.getLast? = some up ∨ (p.names = [] ∧ !p.isAbsolute) then ⟨p.anchor, p.names ++ [up]⟩
  else p.parent

/-- The extension of a name: from its last dot on, unless that dot is its first or last code
point. -/
def extensionOf (name : Text) : Text :=
  let after := name.reverse.takeWhile (· ≠ ('.' : CodePoint))
  if 0 < after.length ∧ after.length + 1 < name.length then
    name.drop (name.length - after.length - 1)
  else []

/-- The extension of the last name. -/
def extension (p : Path) : Text := extensionOf (p.names.getLastD [])

/-- The names with each `..` taken together with the name before it. -/
def cancelUps (names : List Text) : List Text :=
  (names.foldl (fun done n => if n = up then done.tail else n :: done) []).reverse

end Path

end SymbolAtlas
