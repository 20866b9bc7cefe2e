import SymbolAtlas.Json.Parser
import SymbolAtlas.Symbol.Kind
import SymbolAtlas.Text.Offset
import SymbolAtlas.Text.Regex.Reader
import SymbolAtlas.Text.Utf8

/-!
# Failures

Everything that can stop an operation, by cause. `Failure.message` is the wording that users see and
`Failure.label` the word for the class of failure that goes with it.
-/

namespace SymbolAtlas

/-- Why a path leads to nothing that the operation can use. -/
inductive PathFault where
  | missing
  | exists_
  | notDirectory
  | isDirectory
  | nameTooLong
  | tooManyLinks
deriving DecidableEq

namespace PathFault

def number : PathFault → Nat
  | missing => 2
  | exists_ => 17
  | notDirectory => 20
  | isDirectory => 21
  | nameTooLong => 36
  | tooManyLinks => 40

def reason : PathFault → Text
  | missing => "No such file or directory"
  | exists_ => "File exists"
  | notDirectory => "Not a directory"
  | isDirectory => "Is a directory"
  | nameTooLong => "File name too long"
  | tooManyLinks => "Too many levels of symbolic links"

def label : PathFault → Text
  | missing => "FileNotFoundError"
  | exists_ => "FileExistsError"
  | notDirectory => "NotADirectoryError"
  | isDirectory => "IsADirectoryError"
  | nameTooLong => "OSError"
  | tooManyLinks => "OSError"

end PathFault

/-- What a text is needed for. -/
inductive TextUse where
  | trim
  | trimStart
  | cut
  | append
  | path
deriving DecidableEq

/-- The message for a value of some type where a text is needed. -/
def TextUse.refusal (use : TextUse) (typeWord : Text) : Text :=
  let lacking (member : Text) : Text :=
    Text.concat ["'", typeWord, "' object has no attribute '", member, "'"]
  match use with
  | trim => lacking "strip"
  | trimStart => lacking "lstrip"
  | cut => lacking "split"
  | append => Text.concat ["can only concatenate str (not \"", typeWord, "\") to str"]
  | path => Text.concat ["expected str, bytes or os.PathLike object, not ", typeWord]

/-- What stops an operation. -/
inductive Failure where
  | unknownKind (given : Json)
  | invalidRange (startLine startColumn endLine endColumn : Int)
  | rangePastEnd (endLine : Int) (lines : Nat)
  | noClosingBrace (line : Int)
  | noSuchLine (offset : Int)
  | missingPath
  | notIterable (given : Json)
  | notText (given : Json) (use : TextUse)
  | truncatedPattern
  | badPattern (error : Regex.ReadError)
  | parser (complaint : Text)
  | undecodable (error : Utf8.DecodeError)
  | unencodable (error : Utf8.EncodeError)
  /-- A settings file with something in it that goes beyond what is read. -/
  | beyondReading (fault : Json.Fault)
  | linkLoop (path : Text)
  | nullInPath
  | tooManyFolders
  | path (fault : PathFault) (path : Text)

namespace Failure

/-- The wording of a failure. -/
def message : Failure → Text
  | unknownKind given =>
    Text.concat ["Unknown symbol kind: ", given.shown, ". Expected one of: ",
      List.intercalate (Text.ofString ", ") (SymbolKind.all.map SymbolKind.name)]
  | invalidRange sl sc el ec =>
    Text.concat ["Invalid range ", Text.ofInt sl, ":", Text.ofInt sc, "-", Text.ofInt el, ":",
      Text.ofInt ec]
  | rangePastEnd endLine lines =>
    Text.concat ["Range ends at line ", Text.ofInt (endLine + 1), " but the source has ",
      Text.ofNat lines, " lines"]
  | noClosingBrace line => Text.concat ["No closing brace found on line ", Text.ofInt line]
  | noSuchLine offset =>
    if Offset.isWide offset then "cannot fit 'int' into an index-sized integer"
    else "list index out of range"
  | missingPath => Text.quoted "path"
  | notIterable given => Text.concat ["'", given.typeWord, "' object is not iterable"]
  | notText given use => use.refusal given.typeWord
  | truncatedPattern => "string index out of range"
  | badPattern error => error.message
  | parser complaint => complaint
  | undecodable error => error.message
  | unencodable error => error.message
  | beyondReading fault => fault.message
  | linkLoop place => Text.concat ["Symlink loop from ", place.quoted]
  | nullInPath => "embedded null byte"
  | tooManyFolders => "maximum recursion depth exceeded"
  | .path fault place =>
    Text.concat ["[Errno ", Text.ofNat fault.number, "] ", fault.reason, ": ", place.quoted]

def label : Failure → Text
  | unknownKind _ | invalidRange .. | rangePastEnd .. | noClosingBrace _ | nullInPath =>
    "ValueError"
  | noSuchLine _ | truncatedPattern => "IndexError"
  | missingPath => "KeyError"
  | notIterable _ | notText _ .append | notText _ .path => "TypeError"
  | notText .. => "AttributeError"
  | badPattern _ => "error"
  | parser _ | linkLoop _ => "RuntimeError"
  | undecodable _ => "UnicodeDecodeError"
  | unencodable _ => "UnicodeEncodeError"
  | beyondReading fault => if fault.isDepth then "RecursionError" else "ValueError"
  | tooManyFolders => "RecursionError"
  | .path fault _ => fault.label

end Failure

/-- What comes of two steps one after the other comes of the second step, with what came of the
first. -/
theorem exists_of_bind {α β ε : Type} {x : Except ε α} {f : α → Except ε β} {b : β}
    (h : (x >>= f) = .ok b) : ∃ a, x = .ok a ∧ f a = .ok b := by
  cases x with
  | error e => cases h
  | ok a => exact ⟨a, rfl, h⟩

end SymbolAtlas
