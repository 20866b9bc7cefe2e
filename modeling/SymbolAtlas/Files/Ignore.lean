import SymbolAtlas.Failure
import SymbolAtlas.Files.Path

/-!
# Ignore patterns

A map item has patterns for what is not to be collected. Each pattern becomes a rule or has none.
The last rule that matches a path decides about it (`isIgnoredBy`), and what lies in an ignored
folder is ignored (`isIgnored`).

Which rule a pattern becomes, and what the rule matches, is up to a `PatternReader`. What is said of
collecting files holds whatever reads the patterns.
-/

namespace SymbolAtlas

/-- A reader of patterns, by the rules that it makes of them. -/
structure PatternReader where
  /-- A compiled pattern. -/
  Rule : Type
  /-- The rule of a pattern that belongs to a folder, if the pattern has one. -/
  ruleOf? : Path → Text → Except Failure (Option Rule)
  /-- Whether a match takes a path in again. -/
  isNegated : Rule → Bool
  /-- Whether a rule matches a path. -/
  isMatch : Rule → Path → Except Failure Bool

namespace PatternReader

variable (reader : PatternReader)

/-- The rules of the patterns of a map item, in order. The patterns belong to the folder `base`. -/
def rulesOf (base : Path) : List Json → Except Failure (List reader.Rule)
  | [] => .ok []
  | .text t :: ps =>
    match reader.ruleOf? base t.trim with
    | .error e => .error e
    | .ok none => rulesOf base ps
    | .ok (some r) =>
      match rulesOf base ps with
      | .ok rs => .ok (r :: rs)
      | .error e => .error e
  | v :: _ => .error (.notText v .trim)

/-- What the first matching rule decides, the last rule of a pattern list coming first. -/
def decidedBy (p : Path) : List reader.Rule → Except Failure Bool
  | [] => .ok false
  | r :: rs =>
    match reader.isMatch r p with
    | .error e => .error e
    | .ok true => .ok !reader.isNegated r
    | .ok false => decidedBy p rs

/-- Whether the rules ignore the file or folder at a path. -/
def isIgnoredBy (rules : List reader.Rule) (p : Path) : Except Failure Bool :=
  reader.decidedBy p rules.reverse

/-- Whether the rules ignore what some names lead to from a folder, or a folder on the way to it. -/
def isIgnored (rules : List reader.Rule) : Path → List Text → Except Failure Bool
  | _, [] => .ok false
  | folder, n :: names =>
    match reader.isIgnoredBy rules (folder.inside [n]) with
    | .error e => .error e
    | .ok true => .ok true
    | .ok false => isIgnored rules (folder.inside [n]) names

end PatternReader

end SymbolAtlas
