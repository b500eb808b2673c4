import QmlPreview.Path

/-!
Locators: where a document is loaded from.

A document on disk is located by its file. A document that exists only as text is located by the
directory that its relative imports resolve against.
-/

namespace QmlPreview

/-- The location handed to the rendering engine: a file, or a base directory. -/
structure Locator where
  path : Path
  isDirectory : Bool
  deriving DecidableEq, Repr

namespace Locator

def file (path : Path) : Locator := ⟨path, false⟩

def directory (path : Path) : Locator := ⟨path, true⟩

/-- The directory that relative imports resolve against. -/
def baseDirectory (l : Locator) : Path :=
  if l.isDirectory then l.path else (Path.parent? l.path).getD ['/']

/-- The locator as a URL. Backslashes separate too, a URL path starts with a slash, and the URL of a
directory ends in one. -/
def url (l : Locator) : Text :=
  let path := l.path.map (fun c => if c = '\\' then '/' else c)
  let rooted := if path.head? = some '/' then path else '/' :: path
  let closed := if l.isDirectory && rooted.getLast? != some '/' then rooted ++ ['/'] else rooted
  "file://".toList ++ closed

end Locator

end QmlPreview
