import QmlPreview.Fault.SystemText

/-!
Faults: what can go wrong when the machine is asked for something.

A fault is either a number that the operating system gave, or a kind with a message of its own. For
the user, faults fall into four categories, three of which have advice in place of the plain text.
-/

namespace QmlPreview

/-- The kinds of fault that carry their own message. -/
inductive FaultKind where
  | notFound
  | permissionDenied
  | storageFull
  | writeZero
  | invalidData
  | invalidInput
  | timedOut
  | interrupted
  | alreadyExists
  | unexpectedEnd
  | other
  deriving DecidableEq, Repr

/-- A failed request to the machine. -/
inductive Fault where
  /-- The operating system refused with an error number. -/
  | system (number : Nat)
  /-- A failure with a message of its own. -/
  | described (kind : FaultKind) (message : Text)
  deriving DecidableEq, Repr

/-- What a fault means to a user. -/
inductive FaultCategory where
  | diskFull
  | permissionDenied
  | notFound
  | other
  deriving DecidableEq, Repr

namespace FaultCategory

def advice : FaultCategory → Text
  | diskFull => "disk full, free space is needed to write generated files".toList
  | permissionDenied => "permission denied in the source directory".toList
  | notFound => "file or directory not found".toList
  | other => "failed to access file".toList

end FaultCategory

namespace Fault

def noEntry : Fault := .system 2
def accessDenied : Fault := .system 13
def fileExists : Fault := .system 17
def notDirectory : Fault := .system 20
def isDirectory : Fault := .system 21
def nameTooLong : Fault := .system 36
def tooManyLinks : Fault := .system 40

/-- The bytes of a file that was to be read as text are not UTF-8. -/
def notUtf8 : Fault := .described .invalidData "stream did not contain valid UTF-8".toList

/-- A path holds the character that ends paths for the operating system. -/
def nulInPath : Fault :=
  .described .invalidInput "file name contained an unexpected NUL byte".toList

def isNotFound : Fault → Bool
  | system n => n == 2
  | described kind _ => kind == .notFound

def text : Fault → Text
  | system n => SystemText.ofNumber n ++ " (os error ".toList ++ Text.ofNat n ++ [')']
  | described _ message => message

/-- The category of a fault. A full disk, a used-up quota and a write of nothing ask for space. -/
def category : Fault → FaultCategory
  | system n =>
    if n = 28 ∨ n = 69 ∨ n = 122 then .diskFull
    else if n = 1 ∨ n = 13 then .permissionDenied
    else if n = 2 then .notFound
    else .other
  | described .storageFull _ | described .writeZero _ => .diskFull
  | described .permissionDenied _ => .permissionDenied
  | described .notFound _ => .notFound
  | described _ _ => .other

/-- A message for the user: the context, then advice where there is any, else the fault's own text. -/
def friendly (f : Fault) (context : Text) : Text :=
  context ++ ": ".toList ++ (if f.category = .other then f.text else f.category.advice)

end Fault

end QmlPreview
