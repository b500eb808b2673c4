import QmlPreview.Error
import QmlPreview.FileRequest

/-!
Reading a document from disk.

The path is resolved first, so the document carries the one path of its file, however the path was
spelled.
-/

namespace QmlPreview

/-- The error of a document that cannot be read: a missing file is named by its path. -/
def Error.ofReading (path : Path) (fault : Fault) : Error :=
  if fault.isNotFound then .sourceNotFound path else .io fault

/-- Reads the document that a path leads to. The time of its last change is asked for before its
text. -/
def Document.read (path : Path) : FileScript (Except Error Document) := do
  match ← FileScript.resolve path with
  | .error fault => return .error (.ofReading path fault)
  | .ok resolved =>
    match ← FileScript.modified resolved with
    | .error fault => return .error (.ofReading resolved fault)
    | .ok modified =>
      match ← FileScript.readText resolved with
      | .error fault => return .error (.ofReading resolved fault)
      | .ok text => return .ok { path := resolved, text, modified }

end QmlPreview
