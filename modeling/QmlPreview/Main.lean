import QmlPreview.Program
import Std.Time.DateTime.Timestamp

/-!
The program on a real machine: the requests of its script are answered by the operating system.

This build has no way to start other programs, so a request for a process is answered by the system's
own refusal, and a session ends with that error.
-/

namespace QmlPreview.Machine

/-- The number of a system error, which some calls give as a negative word. -/
def errorNumber (n : UInt32) : Nat := n.toInt32.toInt.natAbs

def faultOf : IO.Error → Fault
  | .userError message => .described .other message.toList
  | .unexpectedEof => .described .unexpectedEnd "unexpected end of file".toList
  | .alreadyExists _ n _ | .otherError n _ | .resourceBusy n _ | .resourceVanished n _
  | .unsupportedOperation n _ | .hardwareFault n _ | .unsatisfiedConstraints n _
  | .illegalOperation n _ | .protocolError n _ | .timeExpired n _ | .interrupted _ n _
  | .noFileOrDirectory _ n _ | .invalidArgument _ n _ | .permissionDenied _ n _
  | .resourceExhausted _ n _ | .inappropriateType _ n _ | .noSuchThing _ n _ =>
    .system (errorNumber n)

def notImplemented : Fault := .system 38

def attempt {α : Type} (act : IO α) : IO (Except Fault α) := do
  return (← act.toBaseIO).mapError faultOf

def timeOf : IO.FS.SystemTime → Time
  | ⟨seconds, nanoseconds⟩ => ⟨seconds * 1000000000 + nanoseconds.toNat⟩

def file : (r : FileRequest) → IO r.Answer
  | .resolve p => attempt do
    -- Looking at the file first gives the fault its own number.
    let _ ← (System.mkFilePath [String.ofList p]).metadata
    return (← IO.FS.realPath (String.ofList p)).toString.toList
  | .modified p => attempt do
    return timeOf (← (System.mkFilePath [String.ofList p]).metadata).modified
  | .entryModified p => attempt do
    return timeOf (← (System.mkFilePath [String.ofList p]).symlinkMetadata).modified
  | .read p => attempt do
    return (← IO.FS.readBinFile (String.ofList p)).toList
  | .write p bytes => attempt (IO.FS.writeBinFile (String.ofList p) ⟨bytes.toArray⟩)
  | .append p bytes => attempt do
    (← IO.FS.Handle.mk (String.ofList p) .append).write ⟨bytes.toArray⟩
  | .remove p => attempt (IO.FS.removeFile (String.ofList p))
  | .isPresent p => (System.mkFilePath [String.ofList p]).pathExists
  | .list p => attempt do
    return (← (System.mkFilePath [String.ofList p]).readDir).toList.map (·.fileName.toList)
  | .makeDirectories p => attempt (IO.FS.createDirAll (String.ofList p))

/-- Answers a request about processes, none of which can be started. -/
def process : (r : ProcessRequest) → r.Answer
  | .start _ | .status _ | .collect _ => .error notImplemented
  | .kill _ | .wait _ => ()

/-- The number that bytes write, the first of them being the highest. -/
def numberOf (bytes : List UInt8) : Nat := bytes.foldl (fun n b => n * 256 + b.toNat) 0

def answer : (r : HostRequest) → IO r.Answer
  | .file r => file r
  | .process r => return process r
  | .token => return Token.ofNat (numberOf (← IO.getRandomBytes 16).toList)
  | .now => return ⟨(← Std.Time.Timestamp.now).toNanosecondsSinceUnixEpoch.val⟩
  | .sleep milliseconds => IO.sleep (.ofNat milliseconds)
  | .print t => do (← IO.getStdout).putStr (String.ofList t)
  | .report t => do (← IO.getStderr).putStr (String.ofList t)

def run (args : List String) : IO UInt32 := do
  let home := (← IO.getEnv "HOME").getD "/"
  let program := (← IO.appPath).fileName.getD "qmlview"
  let invocation : Invocation := ⟨program.toList, home.toList, args.map String.toList⟩
  let code ← Script.interpret answer (Program.run invocation (Nat.pow 2 62))
  return .ofNat (code % 256).toNat

end QmlPreview.Machine

def main (args : List String) : IO UInt32 := QmlPreview.Machine.run args
