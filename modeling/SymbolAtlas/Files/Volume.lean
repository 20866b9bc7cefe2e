import SymbolAtlas.Failure
import SymbolAtlas.Files.Path

/-!
# Volumes

A volume is a tree of folders, files and symbolic links. A path is walked from the top folder: every
name but the last has to lead to a folder, links are followed where they are met, and more than
forty of them are too many (`Volume.find`). A walk holds the trail of what it has come through, so
that going up is a step back on the trail.
-/

namespace SymbolAtlas

/-- What a name in a folder stands for. -/
inductive Entry where
  | file (content : Bytes)
  | folder (entries : List (Text × Entry))
  | link (target : Text)

namespace Entry

/-- The entry of a name. -/
def named? (entries : List (Text × Entry)) (name : Text) : Option Entry :=
  (entries.find? fun e => e.1 = name).map (·.2)

/-- The entries with the entry of a name set. -/
def setNamed (name : Text) (new : Entry) : List (Text × Entry) → List (Text × Entry)
  | [] => [(name, new)]
  | (n, e) :: es => if n = name then (n, new) :: es else (n, e) :: setNamed name new es

/-- The entry at the end of a row of names, links not followed. -/
def at? (e : Entry) : List Text → Option Entry
  | [] => some e
  | n :: ns =>
    match e with
    | folder es => (named? es n).bind fun e => e.at? ns
    | _ => none

/-- Puts an entry at the end of a row of names, with folders on the way where there are none. -/
def put (new : Entry) : List Text → Option Entry → Entry
  | [], _ => new
  | n :: ns, some (folder es) => folder (setNamed n (put new ns (named? es n)) es)
  | n :: ns, _ => folder [(n, put new ns none)]

mutual

/-- The number of links in an entry. -/
def linkCount : Entry → Nat
  | file _ => 0
  | link _ => 1
  | folder es => linkCountIn es

/-- The number of links in some entries. -/
def linkCountIn : List (Text × Entry) → Nat
  | [] => 0
  | (_, e) :: es => e.linkCount + linkCountIn es

end

mutual

/-- The files and links in an entry with their names from `base` on, folders behind links left
out. -/
def leaves (base : List Text) : Entry → List (List Text × Entry)
  | file content => [(base, file content)]
  | link target => [(base, link target)]
  | folder es => leavesIn base es

/-- The files and links in some entries. -/
def leavesIn (base : List Text) : List (Text × Entry) → List (List Text × Entry)
  | [] => []
  | (n, e) :: es => e.leaves (base ++ [n]) ++ leavesIn base es

end

end Entry

/-- A tree of folders, files and links. -/
structure Volume where
  top : Entry

namespace Volume

/-- The volume with nothing in it. -/
def empty : Volume := ⟨.folder []⟩

/-- The entry at a row of names from the top, links not followed. -/
def at? (v : Volume) (names : List Text) : Option Entry := v.top.at? names

/-- The volume with an entry put at a row of names from the top. -/
def put (v : Volume) (names : List Text) (e : Entry) : Volume := ⟨e.put names (some v.top)⟩

/-- The greatest number of links that one path may lead through. -/
def linkLimit : Nat := 40

/-- The longest name, in bytes. -/
def nameLimit : Nat := 255

/-- The longest path as it is written, in bytes. -/
def pathLimit : Nat := 4095

/-- Whether a name has more bytes than the volume allows. -/
def isTooLong (name : Text) : Bool := nameLimit < (Utf8.encodeLossy name).length

/-- Why no volume takes a path as it is written: it has no form in bytes, holds a null character, or
is too long. -/
def refusal? (p : Path) : Option Failure :=
  match Utf8.encode p.text with
  | .error e => some (.unencodable e)
  | .ok bytes =>
    if bytes.contains 0 then some .nullInPath
    else if pathLimit < bytes.length then some (.path .nameTooLong p.text)
    else none

/-! ## Walking -/

/-- The way from the top to an entry: each name with what it stands for, the last name first. -/
abbrev Trail := List (Text × Entry)

/-- The names on a trail, the first one first. -/
def Trail.names (trail : Trail) : List Text := (trail.map (·.1)).reverse

/-- The entry at the end of a trail. -/
def atEnd (v : Volume) : Trail → Entry
  | [] => v.top
  | (_, e) :: _ => e

/-- Where a walk ends: at the end of a trail, or at a new name below it. -/
structure Arrival where
  trail : Trail
  new : Option Text

/-- The names from the top to where a walk ends. -/
def Arrival.names (a : Arrival) : List Text := a.trail.names ++ a.new.toList

/-- The names that the target of a link leads along. A slash at the end asks for a folder, as a
single dot in its place does. -/
def stepsOf (target : Text) : List Text :=
  let names := (Text.separate Path.slash target).filter (· ≠ [])
  if target.getLast? = some Path.slash then names ++ [Path.here] else names

/-- Walks a row of names from the end of a trail. `follow` goes on behind a link. With `creating`
the last name may be a new one. -/
def walkWith (v : Volume) (creating : Bool)
    (follow : Trail → List Text → Except PathFault Arrival) :
    Trail → List Text → Except PathFault Arrival
  | trail, [] => .ok ⟨trail, none⟩
  | trail, n :: rest =>
    match v.atEnd trail with
    | .folder es =>
      if n = Path.up then walkWith v creating follow trail.tail rest
      else if n = Path.here then walkWith v creating follow trail rest
      else if isTooLong n then .error .nameTooLong
      else match Entry.named? es n with
        | some (.link target) =>
          follow (if target.head? = some Path.slash then [] else trail) (stepsOf target ++ rest)
        | some e => walkWith v creating follow ((n, e) :: trail) rest
        | none => if creating ∧ rest = [] then .ok ⟨trail, some n⟩ else .error .missing
    | _ => .error .notDirectory

/-- Walks a row of names through at most so many links. -/
def walkThrough (v : Volume) (creating : Bool) :
    Nat → Trail → List Text → Except PathFault Arrival
  | 0 => v.walkWith creating fun _ _ => .error .tooManyLinks
  | links + 1 => v.walkWith creating (v.walkThrough creating links)

/-- Walks a row of names from the top. -/
def walk (v : Volume) (creating : Bool) (names : List Text) : Except PathFault Arrival :=
  v.walkThrough creating linkLimit [] names

/-- The names without links of the existing entry that a row of names leads to. -/
def resolve (v : Volume) (names : List Text) : Except PathFault (List Text) :=
  (v.walk false names).map Arrival.names

/-- The entry that a row of names leads to. -/
def find (v : Volume) (names : List Text) : Except PathFault Entry :=
  (v.walk false names).map fun a => v.atEnd a.trail

/-- The content of the file that a row of names leads to. -/
def content (v : Volume) (names : List Text) : Except PathFault Bytes :=
  match v.find names with
  | .ok (.file bytes) => .ok bytes
  | .ok _ => .error .isDirectory
  | .error e => .error e

/-- Whether a row of names leads to a folder. -/
def isFolder (v : Volume) (names : List Text) : Bool :=
  match v.find names with
  | .ok (.folder _) => true
  | _ => false

/-! ## Writing -/

/-- Makes a folder in an existing folder. -/
def makeFolder (v : Volume) (names : List Text) : Except PathFault Volume :=
  match names.getLast? with
  | none => .error .exists_
  | some n =>
    match v.walk false names.dropLast with
    | .error e => .error e
    | .ok a =>
      match v.atEnd a.trail with
      | .folder es =>
        if n = Path.up then .error .exists_
        else if isTooLong n then .error .nameTooLong
        else if (Entry.named? es n).isSome then .error .exists_
        else .ok (v.put (a.names ++ [n]) (.folder []))
      | _ => .error .notDirectory

/-- Makes a folder, which may exist already. -/
def ensureFolder (v : Volume) (names : List Text) : Except PathFault Volume :=
  match v.makeFolder names with
  | .ok v => .ok v
  | .error e => if e ≠ .missing ∧ v.isFolder names then .ok v else .error e

/-- Makes a folder with at most so many folders that it needs around it: the names are those of the
folder, last name first. The volume is returned as far as folders were made. -/
def ensureFolders (v : Volume) (anchor : Text) :
    Nat → List Text → Volume × Except Failure Unit
  | _, [] => (v, .ok ())
  | around, n :: outer =>
    let names := (n :: outer).reverse
    let failed (e : PathFault) : Except Failure Unit := .error (.path e (Path.text ⟨anchor, names⟩))
    match v.ensureFolder names, around with
    | .ok v, _ => (v, .ok ())
    | .error .missing, 0 => (v, .error .tooManyFolders)
    | .error .missing, around + 1 =>
      match v.ensureFolders anchor around outer with
      | (v, .error e) => (v, .error e)
      | (v, .ok ()) =>
        match v.ensureFolder names with
        | .ok v => (v, .ok ())
        | .error e => (v, failed e)
    | .error e, _ => (v, failed e)

/-- The names of the file that writing to a row of names changes or makes. -/
def target (v : Volume) (names : List Text) : Except PathFault (List Text) :=
  match v.walk true names with
  | .error e => .error e
  | .ok ⟨trail, some n⟩ => .ok (trail.names ++ [n])
  | .ok ⟨trail, none⟩ =>
    match v.atEnd trail with
    | .folder _ => .error .isDirectory
    | _ => .ok trail.names

end Volume

end SymbolAtlas
