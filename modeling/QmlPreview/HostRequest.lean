import QmlPreview.FileRequest
import QmlPreview.Process
import QmlPreview.Token

/-!
What the previewer asks of the machine it runs on.
-/

namespace QmlPreview

inductive HostRequest where
  | file (r : FileRequest)
  | process (r : ProcessRequest)
  /-- A token that has not been drawn before. -/
  | token
  /-- The time of day. -/
  | now
  | sleep (milliseconds : Nat)
  /-- Write to the standard output. -/
  | print (t : Text)
  /-- Write to the standard error output. -/
  | report (t : Text)
  deriving DecidableEq, Repr

abbrev HostRequest.Answer : HostRequest → Type
  | file r => r.Answer
  | process r => r.Answer
  | token => Token
  | now => Time
  | sleep _ | print _ | report _ => Unit

abbrev HostScript := Script HostRequest HostRequest.Answer

namespace HostScript

def ofFileScript {α : Type} (s : FileScript α) : HostScript α :=
  s.expand (fun r => Script.request (HostRequest.file r))

instance : MonadLift FileScript HostScript := ⟨ofFileScript⟩

def start (launch : Launch) : HostScript (Except Fault Nat) :=
  Script.request (HostRequest.process (.start launch))

def status (process : Nat) : HostScript (Except Fault (Option ExitStatus)) :=
  Script.request (HostRequest.process (.status process))

def kill (process : Nat) : HostScript Unit := Script.request (HostRequest.process (.kill process))
def wait (process : Nat) : HostScript Unit := Script.request (HostRequest.process (.wait process))

def collect (launch : Launch) : HostScript (Except Fault ProcessOutput) :=
  Script.request (HostRequest.process (.collect launch))

def token : HostScript Token := Script.request HostRequest.token
def now : HostScript Time := Script.request HostRequest.now
def sleep (milliseconds : Nat) : HostScript Unit := Script.request (HostRequest.sleep milliseconds)
def print (t : Text) : HostScript Unit := Script.request (HostRequest.print t)
def report (t : Text) : HostScript Unit := Script.request (HostRequest.report t)

end HostScript

end QmlPreview
