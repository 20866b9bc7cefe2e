import SymbolAtlas.Files.Volume

/-!
# Paths without links

`Volume.realPath` works out the path without links that a path stands for, whether or not something
is there. Names that lead nowhere stay, and going up drops the name before. A link is followed where
it is met, once: what it leads to is kept for the next time (`Met`). A link that is met again while
it is being followed closes a circle; the path up to it and the rest as it is written are then the
answer, unless looking there finds the circle too.
-/

namespace SymbolAtlas

namespace Volume

/-- Where following the links on a path leads. -/
inductive Lead where
  /-- To a path without links. -/
  | settled (place : Path)
  /-- Into a circle: what is left is a path as it is written. -/
  | circle (written : Text)

/-- The links met so far: each with the path it leads to, or none while it is being followed. -/
abbrev Met := List (Path × Option Path)

/-- A relative path as seen from a folder, an absolute one as it is, each `..` taken together with
the name before it. -/
def absolute (cwd : List Text) (p : Path) : Path :=
  let p := p.below ⟨[Path.slash], cwd⟩
  ⟨p.anchor, Path.cancelUps p.names⟩

/-- The target of the link at a path, if there is one. A path that is too long leads to none. -/
def linkAt? (v : Volume) (cwd : List Text) (p : Path) : Except Failure (Option Text) :=
  match refusal? p with
  | some (.path ..) => .ok none
  | some e => .error e
  | none =>
    match v.at? (absolute cwd p).names with
    | some (.link target) => .ok (some target)
    | _ => .ok none

/-- The rest of a path as it is written behind another path. A rest that starts with a slash is a
path of its own. -/
def behind (start : Text) (rest : List Text) : Text :=
  let rest := Path.joined rest
  if rest.head? = some Path.slash then rest else Text.concat [start, [Path.slash], rest]

/-- Follows the links on a row of names, as it is written, from a path without links. `follow` goes
along the target of a link. -/
def leadWith (v : Volume) (cwd : List Text)
    (follow : Met → Path → List Text → Except Failure (Met × Lead)) :
    Met → Path → List Text → Except Failure (Met × Lead)
  | met, place, [] => .ok (met, .settled place)
  | met, place, n :: rest =>
    if n = [] ∨ n = Path.here then leadWith v cwd follow met place rest
    else if n = Path.up then leadWith v cwd follow met place.above rest
    else
      let next : Path := ⟨place.anchor, place.names ++ [n]⟩
      match v.linkAt? cwd next with
      | .error e => .error e
      | .ok none => leadWith v cwd follow met next rest
      | .ok (some target) =>
        match met.find? fun m => m.1 = next with
        | some (_, some there) => leadWith v cwd follow met there rest
        | some (_, none) => .ok (met, .circle (behind next.text rest))
        | none =>
          let from_ : Path := if target.head? = some Path.slash then ⟨[Path.slash], []⟩ else place
          match follow ((next, none) :: met) from_ (Text.separate Path.slash target) with
          | .error e => .error e
          | .ok (met, .circle written) => .ok (met, .circle (behind written rest))
          | .ok (met, .settled there) =>
            leadWith v cwd follow ((next, some there) :: met) there rest

/-- Follows links inside links to a depth. -/
def leadWithin (v : Volume) (cwd : List Text) :
    Nat → Met → Path → List Text → Except Failure (Met × Lead)
  | 0 => v.leadWith cwd fun met place rest => .ok (met, .circle (behind place.text rest))
  | depth + 1 => v.leadWith cwd (v.leadWithin cwd depth)

/-- A depth to which links can stand inside links: a link is followed once under every path that
it has, one from the top and one from each folder around the folder `cwd`. -/
def leadDepth (v : Volume) (cwd : List Text) (p : Path) : Nat :=
  v.top.linkCount * (cwd.length + p.names.length + 2)

/-- The absolute path without links that a path stands for, as seen from the folder `cwd`, unless
its links go round in a circle. -/
def realPath (v : Volume) (cwd : List Text) (p : Path) : Except Failure Path :=
  let start : Path := ⟨if p.isAbsolute then [Path.slash] else [], []⟩
  match v.leadWithin cwd (v.leadDepth cwd p) [] start p.names with
  | .error e => .error e
  | .ok (_, lead) =>
    let place := absolute cwd (match lead with
      | .settled place => place
      | .circle written => Path.parse written)
    match refusal? place with
    | some (.path ..) => .ok place
    | some e => .error e
    | none =>
      match v.walk false place.names with
      | .error .tooManyLinks => .error (.linkLoop place.text)
      | _ => .ok place

end Volume

end SymbolAtlas
