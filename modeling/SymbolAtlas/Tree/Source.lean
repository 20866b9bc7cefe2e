import SymbolAtlas.Grammar
import SymbolAtlas.Text.Offset
import SymbolAtlas.Tree.Node
import SymbolAtlas.Tree.Range

/-!
# Parsed sources

A source text with its bytes, its syntax tree and its grammar. Trees count bytes and texts count
code points; this module turns the offsets of a node into rows and columns of the text.
-/

namespace SymbolAtlas

/-- A source text with its bytes and its syntax tree. -/
structure Source where
  text : Text
  bytes : Bytes
  root : Node
  grammar : Grammar
  encode_text : Utf8.encode text = .ok bytes

/-- The byte that ends a line. -/
def newlineByte : UInt8 := 0x0A

namespace Source

/-- The source of a text whose tree is worked out from its bytes. -/
def build (text : Text) (grammar : Grammar) (parse : Bytes → Except Text Node) :
    Except Failure Source :=
  match h : Utf8.encode text with
  | .error e => .error (.unencodable e)
  | .ok bytes =>
    match parse bytes with
    | .error complaint => .error (.parser complaint)
    | .ok root => .ok ⟨text, bytes, root, grammar, h⟩

/-- The text of the bytes of a node, with replacement characters for stray bytes. -/
def textOf (src : Source) (n : Node) : Text :=
  Utf8.decodeReplacing (Offset.span src.bytes n.start n.stop)

/-- The text of a node, unless it is empty. -/
def nameText? (src : Source) (n : Node) : Option Text :=
  let t := src.textOf n
  if t = [] then none else some t

/-- The row of a byte offset, and the number of bytes before it in its row. -/
def point (bytes : Bytes) (offset : Int) : Nat × Nat :=
  let before := Offset.before bytes offset
  (before.count newlineByte, (before.reverse.takeWhile (· ≠ newlineByte)).length)

/-- The column in code points for a column in bytes of the row `row`. Rows past the last keep the
column in bytes. -/
def column (bytes : Bytes) (row byteColumn : Int) : Except Failure Int :=
  let rows := Text.separate newlineByte bytes
  if (rows.length : Int) ≤ row then .ok byteColumn
  else match Offset.element? rows row with
    | some line => .ok (Utf8.decode (Offset.before line byteColumn)).length
    | none => .error (.noSuchLine row)

/-- The range of a node in rows and columns. -/
def rangeOf (src : Source) (n : Node) : Except Failure SourceRange :=
  let (startRow, startByte) := point src.bytes n.start
  let (endRow, endByte) := point src.bytes n.stop
  match column src.bytes startRow startByte, column src.bytes endRow endByte with
  | .ok startColumn, .ok endColumn => SourceRange.of startRow startColumn endRow endColumn
  | .error e, _ => .error e
  | _, .error e => .error e

/-- The one-based line on which a node starts. -/
def lineOf (src : Source) (n : Node) : Nat := (point src.bytes n.start).1 + 1

/-- The longest signature, in code points. -/
def signatureLength : Nat := 120

/-- The first line of a node's text, cut to the longest signature. -/
def signatureOf (src : Source) (n : Node) : Text :=
  ((Text.lines (src.textOf n)).headD []).take signatureLength

/-- The identifier that a declaration introduces: the child in the role of name, property or left
side, else the innermost declarator, else the first named child. -/
def nameOf? (src : Source) (n : Node) : Option Text :=
  match [Role.name, Role.property, Role.left].findSome? n.child? with
  | some c => src.nameText? c
  | none =>
    match n.child? .declarator with
    | some d => src.nameText? d.innermostDeclarator
    | none => n.namedChildren.head?.bind src.nameText?

end Source

end SymbolAtlas
