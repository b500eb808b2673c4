import QmlPreview.Document
import QmlPreview.Document.Parts
import QmlPreview.Fault

/-!
The errors of the previewer, their texts and the exit codes they end the program with.
-/

namespace QmlPreview

/-- What can stop a document from being shown. -/
inductive Error where
  /-- No file has the path of the source. -/
  | sourceNotFound (path : Path)
  /-- The text is not a header followed by one element. -/
  | malformedSource (path : Path) (reason : Text)
  /-- The document cannot be wrapped in the way that was asked for. -/
  | wrapFailed (path : Path) (reason : Text)
  /-- The engine created no root object. -/
  | engineLoadFailed (url : Text)
  /-- A generated file could not be written. -/
  | sideFile (path : Path) (fault : Fault)
  /-- Any other failed request to the machine. -/
  | io (fault : Fault)
  deriving DecidableEq, Repr

namespace Error

def malformed (path : Path) (m : Malformation) : Error := .malformedSource path m.message

def message : Error → Text
  | sourceNotFound path => "file not found: ".toList ++ path
  | malformedSource path reason =>
    "malformed source ".toList ++ path ++ ": ".toList ++ reason
  | wrapFailed path reason => "cannot wrap ".toList ++ path ++ ": ".toList ++ reason
  | engineLoadFailed url => "qml root object could not be created from ".toList ++ url
  | sideFile path fault => "side file ".toList ++ path ++ ": ".toList ++ fault.text
  | io fault => fault.text

/-- Trying again on the next tick may succeed. -/
def isTransient : Error → Bool
  | sideFile _ _ | io _ => true
  | sourceNotFound _ | malformedSource _ _ | wrapFailed _ _ | engineLoadFailed _ => false

def exitCode : Error → Int
  | engineLoadFailed _ | sideFile _ _ | io _ => 1
  | sourceNotFound _ => 2
  | malformedSource _ _ => 4
  | wrapFailed _ _ => 5

def describe : Error → Text
  | sourceNotFound path =>
    "qmlview error: File Not Found [".toList ++ path ++
      "]\nPlease write the file path in full, or run qmlview --help".toList
  | sideFile path fault => fault.friendly ("qmlview error: cannot write ".toList ++ path)
  | io fault => fault.friendly "qmlview error".toList
  | error => "qmlview error: ".toList ++ error.message

end Error

end QmlPreview
