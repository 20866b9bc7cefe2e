import SymbolAtlas.Edit.Header
import SymbolAtlas.Edit.Splice
import SymbolAtlas.Symbol.Lookup

/-!
# Sites of edits

Where an edit takes place is settled before its content is looked at: a site is a function found by
its header, a symbol found in the syntax tree, or the end of a class or file that lacks the symbol.
`EditSite.revise` then puts the content there. At a found symbol empty content deletes it, wrapper
and all, and other content replaces it, together with the wrapper if it restates the wrapper.
-/

namespace SymbolAtlas

/-- What is given as the new source of a symbol. -/
inductive Content where
  | text (t : Text)
  /-- An empty list, which is no source. -/
  | emptyList
deriving DecidableEq

/-- Where an edit takes place. -/
inductive EditSite where
  /-- The span of a function found by its header. -/
  | span (start stop : Nat)
  /-- A symbol found in the syntax tree. -/
  | symbol (located : Located)
  /-- The end of a class that lacks the symbol. -/
  | classEnd (range : SourceRange) (grammar : Grammar)
  /-- The end of a file that lacks the symbol. -/
  | fileEnd

namespace EditSite

/-- The site of a function found by its header, or else the end of the file. -/
def byHeader (t name : Text) : EditSite :=
  match Header.functionSpan? t name with
  | some (start, stop) => span start stop
  | none => fileEnd

/-- The range that an edit with the given content replaces: that of the wrapper if the content is
empty or restates the wrapper, that of the symbol otherwise. -/
def targetRange (located : Located) (content : Text) : SourceRange :=
  match located.wrapper with
  | none => located.range
  | some (w, range) =>
    if content = [] ∨ Text.startsWith content.trimStart w.opening then range else located.range

/-- The text with a located symbol replaced or deleted. -/
def reviseLocated (t : Text) (located : Located) (content : Text) : Except Failure Text :=
  let range := targetRange located content
  if content = [] then Splice.deleteRange t range else Splice.replaceRange t range content

/-- The text with a content put at a site. -/
def put (site : EditSite) (t content : Text) : Except Failure Text :=
  match site with
  | span start stop => .ok (Splice.spliceSpan t start stop content)
  | symbol located => reviseLocated t located content
  | classEnd range grammar => Splice.createInClass t range content grammar
  | fileEnd => .ok (Splice.appendTopLevel t content)

/-- What a content is needed for first at a site, if the lines of the site are there. -/
def firstUse (site : EditSite) (t : Text) : Except Failure TextUse := do
  let ls := Text.lines t
  match site with
  | span .. => pure .append
  | fileEnd => pure .trim
  | classEnd range _ =>
    Splice.checkRange ls range
    let _ ← Splice.lineAt ls range.startLine
    pure .cut
  | symbol ⟨_, range, _, _, none⟩ =>
    Splice.checkRange ls range
    let _ ← Splice.lineAt ls range.startLine
    if range.startLine = range.endLine then pure .append
    else
      let _ ← Splice.lineAt ls range.endLine
      pure .cut
  | symbol _ => pure .trimStart

/-- The text after an edit at a site. Something that is no text fails at its first use. -/
def revise (site : EditSite) (t : Text) : Content → Except Failure Text
  | .text content => site.put t content
  | .emptyList => do
    let use ← site.firstUse t
    .error (.notText (.list []) use)

end EditSite

end SymbolAtlas
