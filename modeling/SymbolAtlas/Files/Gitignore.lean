import SymbolAtlas.Files.Ignore
import SymbolAtlas.Text.Regex.Reader

/-!
# Patterns in the manner of `.gitignore` files

The reader of patterns that the program uses (`gitignore`). A pattern becomes a rule
(`IgnoreRule.ofPattern`): it is written as a regular expression (`writtenSteps`), which is then read
and searched for in the path of a file or folder relative to the folder that the rule belongs to.

What a pattern means is settled by its written form alone. In particular a set that excludes nothing
takes what follows it for its members, as far as the next closing bracket of the written form.
-/

namespace SymbolAtlas

/-- A compiled pattern. -/
structure IgnoreRule where
  /-- The folder that the pattern belongs to. -/
  base : Path
  /-- What a path has to contain, or why that cannot be read. -/
  regex : Except Regex.ReadError Regex
  /-- Whether a match takes a path in again. -/
  negated : Bool

namespace IgnoreRule

/-- Whether the rule matches a path below its folder. -/
def isMatch (r : IgnoreRule) (p : Path) : Except Failure Bool :=
  match r.regex with
  | .error e => .error (.badPattern e)
  | .ok regex => .ok (regex.occursIn (Path.joined (p.names.drop r.base.names.length)))

/-! ## Reading patterns -/

/-- The star of patterns. -/
def star : CodePoint := CodePoint.ofChar '*'

/-- Makes one star of two or more that follow a code point other than a slash. -/
def joinStarsBehind : Nat → Text → Text
  | 0, t => t
  | _, [] => []
  | fuel + 1, c :: t =>
    if c ≠ Path.slash ∧ 2 ≤ (t.takeWhile (· = star)).length then
      c :: star :: joinStarsBehind fuel (t.dropWhile (· = star))
    else c :: joinStarsBehind fuel t

/-- Makes one star of two or more that come before a code point other than a slash, which may be the
last of three or more stars. -/
def joinStarsBefore : Nat → Text → Text
  | 0, t => t
  | _, [] => []
  | fuel + 1, c :: t =>
    let stars := ((c :: t).takeWhile (· = star)).length
    if 2 ≤ stars then
      match (c :: t).drop stars with
      | d :: rest =>
        if d ≠ Path.slash then star :: d :: joinStarsBefore fuel rest
        else if 3 ≤ stars then star :: star :: joinStarsBefore fuel (d :: rest)
        else c :: joinStarsBefore fuel t
      | [] => if 3 ≤ stars then [star, star] else c :: joinStarsBefore fuel t
    else c :: joinStarsBefore fuel t

/-- Runs of stars reduced to those that a pattern can mean. -/
def joinStars (t : Text) : Text :=
  let t := joinStarsBehind t.length t
  joinStarsBefore t.length t

/-- Drops the blanks at the end of a pattern, looking back from the index `i`. A blank behind a
backslash stays and keeps those before it; the backslash goes. -/
def dropEndBlanks : Nat → Bool → Text → Text
  | i + 2, dropping, t =>
    if t[i + 2]? = some (CodePoint.ofChar ' ') then
      if t[i + 1]? = some (CodePoint.ofChar '\\') then dropEndBlanks i false (t.eraseIdx (i + 1))
      else dropEndBlanks (i + 1) dropping (if dropping then t.take (i + 2) else t)
    else t
  | _, _, t => t

/-- The first code point of a pattern, which must not be empty. -/
def first (t : Text) : Except Failure CodePoint :=
  match t with
  | c :: _ => .ok c
  | [] => .error .truncatedPattern

/-- Takes the slashes and stars off the ends of a pattern that only say where it applies. Answers
the rest and whether two stars at the start free the pattern from its anchor. -/
def strip (t : Text) : Except Failure (Text × Bool) := do
  let c ← first t
  let t := if c = Path.slash then t.tail else t
  let c ← first t
  let free := c = star ∧ t.tail.head? = some star
  let t := if free then t.drop 2 else t
  let c ← first t
  let t := if c = Path.slash then t.tail else t
  let c ← first t.reverse
  let t := if c = Path.slash then t.dropLast else t
  let c ← first t
  if c = '\\' then
    let d ← first t.tail
    if d = '#' ∨ d = '!' then pure (t.tail, free) else pure (t, free)
  else pure (t, free)

/-! ## Written forms -/

/-- The written form of one code point other than a slash. -/
def writtenOne : Text := "[^/]"

/-- The written form of a slash. -/
def writtenSlash : Text := "[/]"

/-- The code points that are written with a backslash before them. -/
def special : Text := "()[]\x7b\x7d?*+-|^$\\.&~# \t\n\r\x0b\x0c"

/-- The written form of a code point that stands for itself. -/
def writtenPoint (c : CodePoint) : Text :=
  if special.contains c then [CodePoint.ofChar '\\', c] else [c]

/-- What stands between the brackets of a set whose opening bracket comes before `t`, and the rest
behind the closing one. A closing bracket right at the start belongs to the set. -/
def setInside? (t : Text) : Option (Text × Text) :=
  let mark := t.head? = some (CodePoint.ofChar '!')
  let t1 := if mark then t.tail else t
  let closing := CodePoint.ofChar ']'
  let lead := (if mark then t.take 1 else []) ++ (if t1.head? = some closing then [closing] else [])
  let t2 := t.drop lead.length
  let body := t2.takeWhile (· ≠ closing)
  match t2.drop body.length with
  | _ :: rest => some (lead ++ body, rest)
  | [] => none

/-- The written form of members of a set: a backslash is doubled. -/
def writtenMembers (members : Text) : Text :=
  members.flatMap fun (c : CodePoint) => if c = '\\' then [c, c] else [c]

/-- The written form of a set. Slashes are left out of it, and a mark of exclusion becomes that of
the written form. -/
def writtenSet (inside : Text) : Except Failure Text := do
  let inside := inside.filter (· ≠ Path.slash)
  let c ← first inside
  let written : Text :=
    if c = '!' then Text.concat ["^", writtenMembers inside.tail]
    else if c = '^' then Text.concat ["\\", writtenMembers inside]
    else writtenMembers inside
  pure (Text.concat ["[", written, "]"])

/-- The written form of the steps of a pattern. -/
def writtenSteps : Nat → Text → Except Failure Text
  | 0, _ => .ok []
  | _, [] => .ok []
  | fuel + 1, c :: t =>
    let go (written rest : Text) : Except Failure Text :=
      (writtenSteps fuel rest).map (written ++ ·)
    if c = star then
      match t with
      | d :: rest =>
        if d = star then
          match rest with
          | e :: more => if e = Path.slash then go "(.*[/])?" more else go ".*" rest
          | [] => go ".*" []
        else go (writtenOne ++ [star]) t
      | [] => go (writtenOne ++ [star]) []
    else if c = '?' then go writtenOne t
    else if c = Path.slash then go writtenSlash t
    else if c = '[' then
      match setInside? t with
      | none => go (writtenPoint c) t
      | some (inside, rest) =>
        match writtenSet inside with
        | .error e => .error e
        | .ok written => go written rest
    else go (writtenPoint c) t

/-- What comes before the steps: a match starts with the path or, unless the pattern is anchored,
behind any slash of it. -/
def writtenStart (anchored : Bool) : Text := if anchored then "^" else "(^|[/])"

/-- What comes behind the steps: a match ends with the path, or with a folder of it if the pattern
is for folders. -/
def writtenStop (foldersOnly negated : Bool) : Text :=
  if !foldersOnly then "$" else if negated then "/$" else "($|\\/)"

/-- The rule of a pattern that is not blank and no comment. -/
def ofWords (base : Path) (negated : Bool) (t : Text) : Except Failure (Option IgnoreRule) :=
  let t := joinStars t
  if t.trimEnd = [Path.slash] then .ok none
  else do
    let last ← first t.reverse
    let foldersOnly := last = Path.slash
    let anchored := t.dropLast.contains Path.slash
    let (t, free) ← strip t
    let anchored := anchored && !free
    let t := dropEndBlanks (t.length - 1) true t
    let steps ← writtenSteps t.length t
    let written :=
      Text.concat [writtenStart anchored, steps, writtenStop foldersOnly negated]
    pure (some ⟨base, Regex.read written, negated⟩)

/-- The rule of a pattern; a blank pattern and a comment have none. -/
def ofPattern (base : Path) (t : Text) : Except Failure (Option IgnoreRule) :=
  match t with
  | [] => .ok none
  | c :: rest =>
    if t.isBlank ∨ c = '#' then .ok none
    else if c = '!' then ofWords base true rest
    else ofWords base false t

end IgnoreRule

/-- The reader of patterns in the manner of `.gitignore` files. -/
def gitignore : PatternReader where
  Rule := IgnoreRule
  ruleOf? := IgnoreRule.ofPattern
  isNegated r := r.negated
  isMatch := IgnoreRule.isMatch

end SymbolAtlas
