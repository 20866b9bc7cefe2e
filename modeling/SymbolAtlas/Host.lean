import SymbolAtlas.Failure

/-!
# The host

What the program takes over from the host that it runs on: how deep calls may nest there, which
bounds settings files and the making of folders, and how the way to a failure is shown. Functions
that depend on the host take it as an instance, so what is said of them holds on every host.
-/

namespace SymbolAtlas

/-- What the program takes over from a host. -/
class Host where
  /-- How deep lists and objects may stand inside one another in a settings file. -/
  readingDepth : Nat
  /-- The greatest number of folders that are made around another one. -/
  folderLimit : Nat
  /-- The trace of a failure, as verbose runs show it. -/
  trace : Failure → Text

/-- A host on which a thousand calls may nest, with traces that leave out the calls. -/
instance Host.usual : Host where
  readingDepth := 989
  folderLimit := 988
  trace f := Text.concat ["Traceback (most recent call last):\n", f.label, ": ", f.message, "\n"]

end SymbolAtlas
