import QmlPreview.Document.Locator
import QmlPreview.Time

/-!
Documents: authored sources, and the texts generated from them.

A document is a snapshot of a file: its path, its text and the time of its last change. A generated
document is located by the directory of its source, so that the relative imports inside the authored
content keep resolving.
-/

namespace QmlPreview

/-- A snapshot of an authored file. -/
structure Document where
  path : Path
  text : Text
  modified : Time := Time.epoch
  deriving DecidableEq, Repr

namespace Document

def directory (doc : Document) : Path := (Path.parent? doc.path).getD ['/']

/-- The file name, for window titles; a path that names no file stands for itself. -/
def displayName (doc : Document) : Text := (Path.fileName? doc.path).getD doc.path

def locator (doc : Document) : Locator := .file doc.path

end Document

inductive WrapKind where
  /-- A synthetic window around content that has none. -/
  | window
  /-- The silhouette of a phone. -/
  | frame
  deriving DecidableEq, Repr

/-- A synthesized text and the place it is to be loaded from. -/
structure GeneratedDocument where
  text : Text
  locator : Locator
  kind : WrapKind
  /-- The path of the document it was made from. -/
  source : Path
  deriving DecidableEq, Repr

end QmlPreview
