import QmlPreview.Fault
import QmlPreview.Path
import QmlPreview.Script

/-!
What a program asks of the processes that it starts.
-/

namespace QmlPreview

/-- How a process is started. Its input is empty; its output goes where the program's own goes. -/
structure Launch where
  command : Text
  arguments : List Text
  /-- Variables that are set in addition to those of the program. -/
  environment : List (Text × Text) := []
  /-- The directory that the process runs in, where it is not the program's own. -/
  directory : Option Path := none
  deriving DecidableEq, Repr

inductive ExitStatus where
  | exited (code : Int)
  /-- A signal ended it. -/
  | killed
  deriving DecidableEq, Repr

namespace ExitStatus

def isSuccess (s : ExitStatus) : Bool := s = exited 0

/-- The exit code; that of a killed process is one. -/
def code : ExitStatus → Int
  | exited code => code
  | killed => 1

end ExitStatus

structure ProcessOutput where
  output : List UInt8
  errors : List UInt8
  deriving DecidableEq, Repr

/-- One request about processes; a started process is known by its number. -/
inductive ProcessRequest where
  | start (launch : Launch)
  /-- How the process ended, if it has. -/
  | status (process : Nat)
  | kill (process : Nat)
  /-- Wait until the process has ended. -/
  | wait (process : Nat)
  /-- Run a process to its end. -/
  | collect (launch : Launch)
  deriving DecidableEq, Repr

abbrev ProcessRequest.Answer : ProcessRequest → Type
  | start _ => Except Fault Nat
  | status _ => Except Fault (Option ExitStatus)
  | kill _ | wait _ => Unit
  | collect _ => Except Fault ProcessOutput

end QmlPreview
