import QmlPreview.Fault
import QmlPreview.Path
import QmlPreview.Script
import QmlPreview.Text.Utf8
import QmlPreview.Time

/-!
What a program asks of the file system.
-/

namespace QmlPreview

inductive FileRequest where
  /-- The absolute path without links that a path leads to. -/
  | resolve (path : Path)
  /-- The time of the last change of what a path leads to. -/
  | modified (path : Path)
  /-- The time of the last change of an entry itself, links not followed. -/
  | entryModified (path : Path)
  /-- The bytes of a file. -/
  | read (path : Path)
  /-- Make the bytes the content of a file, whatever it held before. -/
  | write (path : Path) (bytes : List UInt8)
  /-- Add bytes to the end of a file, which is made if there is none. -/
  | append (path : Path) (bytes : List UInt8)
  /-- Remove an entry that is no directory. -/
  | remove (path : Path)
  /-- The path leads to something. -/
  | isPresent (path : Path)
  /-- The names in a directory. -/
  | list (path : Path)
  /-- Make a directory and those above it, as far as they are missing. -/
  | makeDirectories (path : Path)
  deriving DecidableEq, Repr

abbrev FileRequest.Answer : FileRequest → Type
  | resolve _ => Except Fault Path
  | modified _ | entryModified _ => Except Fault Time
  | read _ => Except Fault (List UInt8)
  | write _ _ | append _ _ | remove _ | makeDirectories _ => Except Fault Unit
  | isPresent _ => Bool
  | list _ => Except Fault (List Text)

abbrev FileScript := Script FileRequest FileRequest.Answer

namespace FileScript

def resolve (path : Path) : FileScript (Except Fault Path) := Script.request (FileRequest.resolve path)
def modified (path : Path) : FileScript (Except Fault Time) := Script.request (FileRequest.modified path)

def entryModified (path : Path) : FileScript (Except Fault Time) :=
  Script.request (FileRequest.entryModified path)

def read (path : Path) : FileScript (Except Fault (List UInt8)) := Script.request (FileRequest.read path)

def writeText (path : Path) (t : Text) : FileScript (Except Fault Unit) :=
  Script.request (FileRequest.write path (Utf8.encode t))

def append (path : Path) (t : Text) : FileScript (Except Fault Unit) :=
  Script.request (FileRequest.append path (Utf8.encode t))

def remove (path : Path) : FileScript (Except Fault Unit) := Script.request (FileRequest.remove path)
def isPresent (path : Path) : FileScript Bool := Script.request (FileRequest.isPresent path)
def list (path : Path) : FileScript (Except Fault (List Text)) := Script.request (FileRequest.list path)

def makeDirectories (path : Path) : FileScript (Except Fault Unit) :=
  Script.request (FileRequest.makeDirectories path)

def readText (path : Path) : FileScript (Except Fault Text) := do
  match ← read path with
  | .error fault => return .error fault
  | .ok bytes =>
    match Utf8.decode? bytes with
    | none => return .error .notUtf8
    | some t => return .ok t

/-- Removes an entry, and lets it be if that fails. -/
def discard (path : Path) : FileScript Unit := do
  let _ ← remove path
  return ()

end FileScript

end QmlPreview
