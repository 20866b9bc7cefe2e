import SymbolAtlas.Number.Binary64
import SymbolAtlas.Text.Basic

/-!
# JSON values

Values of JSON, with integers of any size beside binary64 numbers and texts that may hold
surrogates. An object is the list of its members in the order in which their names first appeared;
`Json.ofMembers` keeps a name once, with the value given last.
-/

namespace SymbolAtlas

/-- A JSON value. -/
inductive Json where
  | null
  | bool (b : Bool)
  | int (i : Int)
  | float (x : Binary64)
  | text (t : Text)
  | list (items : List Json)
  | object (members : List (Text × Json))

namespace Json

instance : Inhabited Json := ⟨null⟩

instance : Coe Text Json := ⟨text⟩

/-- The members with the value of `name` set: in its place if the name is there, at the end
otherwise. -/
def setMember (name : Text) (value : Json) : List (Text × Json) → List (Text × Json)
  | [] => [(name, value)]
  | (n, v) :: members =>
    if n = name then (n, value) :: members else (n, v) :: setMember name value members

/-- The object with the given members, of which a later one replaces an earlier one of its name. -/
def ofMembers (members : List (Text × Json)) : Json :=
  object (members.foldl (fun ms m => setMember m.1 m.2 ms) [])

/-- The value of a member of an object. -/
def get? (v : Json) (name : Text) : Option Json :=
  match v with
  | object members => (members.find? fun m => m.1 = name).map (·.2)
  | _ => none

/-- Whether the value counts as given: not null, false, zero or empty. -/
def isGiven : Json → Bool
  | null => false
  | bool b => b
  | int i => i != 0
  | float x => !x.isZero
  | text t => !t.isEmpty
  | list items => !items.isEmpty
  | object members => !members.isEmpty

/-- The word that messages use for the type of a value. -/
def typeWord : Json → Text
  | null => "NoneType"
  | bool _ => "bool"
  | int _ => "int"
  | float _ => "float"
  | text _ => "str"
  | list _ => "list"
  | object _ => "dict"

end Json

end SymbolAtlas
