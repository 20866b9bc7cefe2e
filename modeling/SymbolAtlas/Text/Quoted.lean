import SymbolAtlas.Text.Basic
import SymbolAtlas.Text.Unprintable

/-!
# Quoted texts

Messages show a text between quotes. Single quotes are used unless the text holds single quotes and
no double ones. The quote in use and the backslash are written with a backslash, tab, newline and
carriage return by their letters, every other unprintable code point by its number.
-/

namespace SymbolAtlas.Text

/-- The quote that goes around a text. -/
def quoteFor (t : Text) : Char :=
  if t.contains (CodePoint.ofChar '\'') && !t.contains (CodePoint.ofChar '"') then '"' else '\''

/-- A code point inside a text quoted by `quote`. -/
def quotedPoint (quote : Char) (c : CodePoint) : Text :=
  if c = quote ∨ c = '\\' then ['\\', c]
  else if c = '\t' then "\\t"
  else if c = '\n' then "\\n"
  else if c = '\r' then "\\r"
  else if c.isPrintable then [c]
  else if c.val < 0x100 then ("\\x" : String) ++ ofHex 2 c.val
  else if c.val < 0x10000 then ("\\u" : String) ++ ofHex 4 c.val
  else ("\\U" : String) ++ ofHex 8 c.val

/-- The text between quotes. -/
def quoted (t : Text) : Text :=
  let quote := quoteFor t
  (quote : CodePoint) :: (t.flatMap (quotedPoint quote) ++ [(quote : CodePoint)])

end SymbolAtlas.Text
