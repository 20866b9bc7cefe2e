import SymbolAtlas.Json.Basic

/-!
# Reading JSON

`Json.parse` reads a JSON text: one value with blanks around it. Beside the standard it accepts the
words `NaN`, `Infinity` and `-Infinity`, and it keeps escaped surrogates that form no pair. Control
characters inside strings are faults, and so is a byte order mark at the start.

Lists and objects may stand inside one another to a depth (`Json.parseWithin`); `Json.parse` sets no
bound, since a text has fewer levels than code points.

The functions below read from the front of a text and return what they have not read. Every call
spends one unit of fuel and reads at least one code point before it calls for another item, so a
text's own length is fuel enough.
-/

namespace SymbolAtlas.Json

/-- What keeps a text from being JSON. -/
inductive Fault where
  | byteOrderMark
  | value
  | memberName
  | colon
  | comma
  | unterminated
  | control
  | escape
  | unicodeEscape
  | extra
  /-- An integer of so many digits that it is refused. -/
  | integerTooLong (digits : Nat)
  /-- A list inside too many lists and objects. -/
  | listTooDeep
  /-- An object inside too many lists and objects. -/
  | objectTooDeep
deriving DecidableEq

/-- A fault and the number of code points left to read where it lies. -/
structure ParseError where
  fault : Fault
  left : Nat
deriving DecidableEq

/-- A reader's answer: a value and the rest of the text. -/
abbrev Parsed (α : Type) := Except ParseError (α × Text)

/-- The answer that a fault lies at the front of `t`. -/
def faultAt {α : Type} (fault : Fault) (t : Text) : Parsed α := .error ⟨fault, t.length⟩

/-- The blanks of JSON. -/
def isSpace (c : CodePoint) : Bool :=
  c.val == 0x20 || c.val == 0x09 || c.val == 0x0A || c.val == 0x0D

/-- The text without the blanks it starts with. -/
def skipSpace (t : Text) : Text := t.dropWhile isSpace

/-! ## Numbers -/

/-- The longest integer that is read, in digits. -/
def longestInteger : Nat := 4300

/-- The value of decimal digits. -/
def digitsValue (ds : Text) : Nat := ds.foldl (fun n d => n * 10 + (d.val - 0x30)) 0

/-- Whether a code point is a decimal digit of ASCII. -/
def isDigit (c : CodePoint) : Bool := 0x30 ≤ c.val && c.val ≤ 0x39

/-- The digits at the front of a text, and the rest. -/
def takeDigits (t : Text) : Text × Text := (t.takeWhile isDigit, t.dropWhile isDigit)

/-- The digits of an integer part: a zero alone, or digits that do not start with one. -/
def integerPart (t : Text) : Text × Text :=
  match t with
  | c :: rest => if c = '0' then ([c], rest) else takeDigits t
  | [] => ([], [])

/-- The digits of a fraction, if a point and a digit are next. -/
def fractionPart (t : Text) : Text × Text :=
  match t with
  | c :: rest => if c = '.' ∧ (takeDigits rest).1 ≠ [] then takeDigits rest else ([], t)
  | [] => ([], [])

/-- The value of an exponent, if a mark and digits are next. -/
def exponentPart (t : Text) : Option Int × Text :=
  match t with
  | [] => (none, [])
  | c :: rest =>
    if c = 'e' ∨ c = 'E' then
      let (negative, unsigned) := match rest with
        | s :: more =>
          if s = '-' then (true, more) else if s = '+' then (false, more) else (false, rest)
        | [] => (false, [])
      let (ds, left) := takeDigits unsigned
      if ds = [] then (none, t)
      else (some (if negative then -(digitsValue ds : Int) else digitsValue ds), left)
    else (none, t)

/-- Reads the part of a number behind its sign; `start` is the text from the sign on. -/
def number (negative : Bool) (start t : Text) : Parsed Json :=
  let (whole, t1) := integerPart t
  if whole = [] then faultAt .value start
  else
    let (fraction, t2) := fractionPart t1
    let (exponent, t3) := exponentPart t2
    if fraction = [] ∧ exponent = none then
      if longestInteger < whole.length then faultAt (.integerTooLong whole.length) start
      else .ok (.int (if negative then -(digitsValue whole : Int) else digitsValue whole), t3)
    else
      .ok (.float (Binary64.ofDecimal negative (digitsValue (whole ++ fraction))
        (exponent.getD 0 - fraction.length)), t3)

/-! ## Strings -/

/-- The value of a hexadecimal digit. -/
def hexDigit? (c : CodePoint) : Option Nat :=
  let n := c.val
  if 0x30 ≤ n ∧ n ≤ 0x39 then some (n - 0x30)
  else if 0x61 ≤ n ∧ n ≤ 0x66 then some (n - 0x57)
  else if 0x41 ≤ n ∧ n ≤ 0x46 then some (n - 0x37)
  else none

/-- The value of four hexadecimal digits at the front of a text, and the rest. -/
def hexQuad? : Text → Option (Nat × Text)
  | a :: b :: c :: d :: rest =>
    match hexDigit? a, hexDigit? b, hexDigit? c, hexDigit? d with
    | some a, some b, some c, some d => some (a * 4096 + b * 256 + c * 16 + d, rest)
    | _, _, _, _ => none
  | _ => none

/-- What a letter behind a backslash stands for. -/
def escaped? (c : CodePoint) : Option CodePoint :=
  if c = '"' ∨ c = '\\' ∨ c = '/' then some c
  else if c = 'b' then some '\x08'
  else if c = 'f' then some '\x0c'
  else if c = 'n' then some '\n'
  else if c = 'r' then some '\r'
  else if c = 't' then some '\t'
  else none

/-- The low half of a pair of escaped surrogates, if it is next. -/
def lowHalf? (t : Text) : Option (Nat × Text) :=
  match t with
  | a :: b :: rest =>
    if a = '\\' ∧ b = 'u' then
      match hexQuad? rest with
      | some (n, rest) => if 0xDC00 ≤ n ∧ n ≤ 0xDFFF then some (n, rest) else none
      | none => none
    else none
  | _ => none

/-- Reads a number behind `\u`, joining a pair of surrogates. -/
def unicodeEscape (t : Text) : Parsed CodePoint :=
  match hexQuad? t with
  | none => faultAt .unicodeEscape t
  | some (n, rest) =>
    if 0xD800 ≤ n ∧ n ≤ 0xDBFF then
      match lowHalf? rest with
      | some (low, rest) => .ok (.ofNat (0x10000 + (n - 0xD800) * 0x400 + (low - 0xDC00)), rest)
      | none => .ok (.ofNat n, rest)
    else .ok (.ofNat n, rest)

/-- Reads one code point of a string that does not end here. -/
def stringPoint (t : Text) : Parsed CodePoint :=
  match t with
  | [] => faultAt .unterminated t
  | c :: rest =>
    if c = '\\' then
      match rest with
      | [] => faultAt .unterminated t
      | e :: more =>
        if e = 'u' then unicodeEscape more
        else match escaped? e with
          | some c => .ok (c, more)
          | none => faultAt .escape t
    else if c.val < 0x20 then faultAt .control t
    else .ok (c, rest)

/-- Reads a string behind its opening quote. -/
def stringBody : Nat → Text → Parsed Text
  | 0, t => faultAt .unterminated t
  | fuel + 1, t =>
    match t with
    | [] => faultAt .unterminated t
    | c :: rest =>
      if c = '"' then .ok ([], rest)
      else match stringPoint t with
        | .error e => .error e
        | .ok (c, rest) =>
          match stringBody fuel rest with
          | .error e => .error e
          | .ok (cs, rest) => .ok (c :: cs, rest)

/-! ## Values -/

/-- The words that are values. -/
def words : List (Text × Json) :=
  [("null", .null), ("true", .bool true), ("false", .bool false), ("NaN", .float .nan),
   ("Infinity", .float (.infinity false)), ("-Infinity", .float (.infinity true))]

/-- Reads a word or a number. -/
def scalar (t : Text) : Parsed Json :=
  match words.findSome? fun w => (Text.after? w.1 t).map fun rest => (w.2, rest) with
  | some answer => .ok answer
  | none =>
    match t with
    | [] => faultAt .value t
    | c :: rest => if c = '-' then number true t rest else number false t t

mutual

/-- Reads a value at the front of a text, with lists and objects down to a depth. -/
def value : Nat → Nat → Text → Parsed Json
  | _, 0, t => faultAt .value t
  | depth, fuel + 1, t =>
    match t with
    | [] => faultAt .value t
    | c :: rest =>
      if c = '"' then
        match stringBody fuel rest with
        | .error e => .error e
        | .ok (s, rest) => .ok (.text s, rest)
      else if c = '[' then
        match depth, skipSpace rest with
        | 0, _ => faultAt .listTooDeep t
        | _, [] => faultAt .value []
        | depth + 1, d :: more =>
          if d = ']' then .ok (.list [], more)
          else match items depth fuel (d :: more) with
            | .error e => .error e
            | .ok (vs, rest) => .ok (.list vs, rest)
      else if c = '\x7b' then
        match depth, skipSpace rest with
        | 0, _ => faultAt .objectTooDeep t
        | _, [] => faultAt .memberName []
        | depth + 1, d :: more =>
          if d = '\x7d' then .ok (.object [], more)
          else match members depth fuel (d :: more) with
            | .error e => .error e
            | .ok (ms, rest) => .ok (.ofMembers ms, rest)
      else scalar t

/-- Reads the items of a list up to its closing bracket; one item at least is next. -/
def items : Nat → Nat → Text → Parsed (List Json)
  | _, 0, t => faultAt .value t
  | depth, fuel + 1, t =>
    match value depth fuel t with
    | .error e => .error e
    | .ok (v, rest) =>
      match skipSpace rest with
      | [] => faultAt .comma []
      | c :: more =>
        if c = ']' then .ok ([v], more)
        else if c = ',' then
          match items depth fuel (skipSpace more) with
          | .error e => .error e
          | .ok (vs, rest) => .ok (v :: vs, rest)
        else faultAt .comma (c :: more)

/-- Reads the members of an object up to its closing brace; one member at least is next. -/
def members : Nat → Nat → Text → Parsed (List (Text × Json))
  | _, 0, t => faultAt .memberName t
  | depth, fuel + 1, t =>
    match t with
    | [] => faultAt .memberName t
    | c :: rest =>
      if c = '"' then
        match stringBody fuel rest with
        | .error e => .error e
        | .ok (name, rest) =>
          match skipSpace rest with
          | [] => faultAt .colon []
          | d :: more =>
            if d = ':' then
              match value depth fuel (skipSpace more) with
              | .error e => .error e
              | .ok (v, rest) =>
                match skipSpace rest with
                | [] => faultAt .comma []
                | c :: more =>
                  if c = '\x7d' then .ok ([(name, v)], more)
                  else if c = ',' then
                    match members depth fuel (skipSpace more) with
                    | .error e => .error e
                    | .ok (ms, rest) => .ok ((name, v) :: ms, rest)
                  else faultAt .comma (c :: more)
            else faultAt .colon (d :: more)
      else faultAt .memberName t

end

/-- Reads a JSON text with lists and objects down to a depth. -/
def parseWithin (depth : Nat) (t : Text) : Except ParseError Json :=
  if t.head? = some (CodePoint.ofNat 0xFEFF) then .error ⟨.byteOrderMark, t.length⟩
  else
    match value depth (t.length + 1) (skipSpace t) with
    | .error e => .error e
    | .ok (v, rest) =>
      if skipSpace rest = [] then .ok v else .error ⟨.extra, (skipSpace rest).length⟩

/-- Reads a JSON text. -/
def parse (t : Text) : Except ParseError Json := parseWithin t.length t

/-! ## Messages -/

/-- Whether a fault lies in the depth of a text. -/
def Fault.isDepth : Fault → Bool
  | listTooDeep | objectTooDeep => true
  | _ => false

/-- Whether a fault lies in the bounds of what is read, and not in the grammar. -/
def Fault.isBound : Fault → Bool
  | integerTooLong _ | listTooDeep | objectTooDeep => true
  | _ => false

def Fault.message : Fault → Text
  | byteOrderMark => "Unexpected UTF-8 BOM (decode using utf-8-sig)"
  | value => "Expecting value"
  | memberName => "Expecting property name enclosed in double quotes"
  | colon => "Expecting ':' delimiter"
  | comma => "Expecting ',' delimiter"
  | unterminated => "Unterminated string starting at"
  | control => "Invalid control character at"
  | escape => "Invalid \\escape"
  | unicodeEscape => "Invalid \\uXXXX escape"
  | extra => "Extra data"
  | integerTooLong digits =>
    Text.concat ["Exceeds the limit (", Text.ofNat longestInteger,
      " digits) for integer string conversion: value has ", Text.ofNat digits,
      " digits; use sys.set_int_max_str_digits() to increase the limit"]
  | listTooDeep =>
    "maximum recursion depth exceeded while decoding a JSON array from a unicode string"
  | objectTooDeep =>
    "maximum recursion depth exceeded while decoding a JSON object from a unicode string"

/-- The message for a fault in the text `t`, with its line, column and offset. -/
def ParseError.message (e : ParseError) (t : Text) : Text :=
  if e.fault.isBound then e.fault.message
  else
    let offset := t.length - e.left
    let ls := Text.lines (t.take offset)
    Text.concat [e.fault.message, ": line ", Text.ofNat ls.length, " column ",
      Text.ofNat ((ls.getLastD []).length + 1), " (char ", Text.ofNat offset, ")"]

end SymbolAtlas.Json
