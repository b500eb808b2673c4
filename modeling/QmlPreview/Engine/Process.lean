import QmlPreview.Engine.Options
import QmlPreview.Engine.Request

/-!
The engine that runs each document in a process of the runtime.

The runtime cannot be told to show another document, so a reload starts a second process. The running
one is stopped only after the new one has stayed up for a while; a document that the runtime refuses
leaves the window before it in place. A text is staged as a hidden file in its base directory, so that
its relative imports resolve.
-/

namespace QmlPreview

structure ProcessEngine where
  options : EngineOptions := {}
  /-- The process that shows the present document. -/
  child : Option Nat := none
  /-- The staged file of the present document. -/
  staged : Option Path := none
  deriving DecidableEq, Repr

namespace EngineOptions

/-- How the runtime is started on a file: in the directory of the file. -/
def launchOn (o : EngineOptions) (file : Path) : Launch where
  command := o.command
  arguments := (if o.widgetApp then ["--apptype".toList, "widget".toList] else []) ++ [file]
  environment :=
    (o.style.map (fun s => ("QT_QUICK_CONTROLS_STYLE".toList, s))).toList ++
      (o.backend.map (fun b => ("QT_QUICK_BACKEND".toList, b.name))).toList
  directory := Path.parent? file

end EngineOptions

namespace ProcessEngine

/-- How many milliseconds pass between two looks at a new process. -/
def settleStep : Nat := 20

/-- Waits until a process has ended or stayed up for the given number of milliseconds, and says
whether it may be taken as loaded: a process that failed in that time may not. -/
def settle (process : Nat) (remaining : Nat) : HostScript (Except Fault Bool) := do
  match ← HostScript.status process with
  | .error fault => return .error fault
  | .ok (some status) => return .ok status.isSuccess
  | .ok none =>
    if _nonzero : remaining ≠ 0 then
      HostScript.sleep (min remaining settleStep)
      settle process (remaining - settleStep)
    else return .ok true
termination_by remaining
decreasing_by
  have : settleStep = 20 := rfl
  omega

/-- Starts the runtime on a file; nothing is the answer where it fails at once. -/
def launch (options : EngineOptions) (file : Path) : HostScript (Except Fault (Option Nat)) := do
  match ← HostScript.start (options.launchOn file) with
  | .error fault => return .error fault
  | .ok process =>
    match ← settle process options.settle.toNat with
    | .error fault => return .error fault
    | .ok loaded => return .ok (if loaded then some process else none)

/-- Ends the process that shows the present document. -/
def stop (e : ProcessEngine) : HostScript ProcessEngine := do
  match e.child with
  | none => return e
  | some process =>
    match ← HostScript.status process with
    | .ok none => HostScript.kill process
    | _ => pure ()
    HostScript.wait process
    return { e with child := none }

def removeStaged (e : ProcessEngine) : HostScript ProcessEngine := do
  match e.staged with
  | none => return e
  | some path =>
    FileScript.discard path
    return { e with staged := none }

def close (e : ProcessEngine) : HostScript ProcessEngine := do
  let e ← e.stop
  e.removeStaged

/-- Shows a file where nothing is shown. -/
def present (e : ProcessEngine) (file : Path) :
    HostScript (Except Fault (List Nat) × ProcessEngine) := do
  match ← launch e.options file with
  | .error fault => return (.error fault, e)
  | .ok none => return (.ok [], e)
  | .ok (some process) => return (.ok [process], { e with child := some process })

/-- Loads a file in place of the present document. -/
def load (e : ProcessEngine) (locator : Locator) :
    HostScript (Except Fault (List Nat) × ProcessEngine) := do
  let e ← e.close
  e.present locator.path

def stagedName (token : Token) : Text := ".qmlview-".toList ++ token.digits ++ ".qml".toList

def loadText (e : ProcessEngine) (text : Text) (base : Locator) :
    HostScript (Except Fault (List Nat) × ProcessEngine) := do
  let e ← e.close
  let path := Path.join base.baseDirectory (stagedName (← HostScript.token))
  match ← FileScript.writeText path text with
  | .error fault => return (.error fault, e)
  | .ok () => present { e with staged := some path } path

/-- Replaces the present document. It ends only once the new one is loaded. -/
def reload (e : ProcessEngine) (locator : Locator) (facts : Facts) :
    HostScript (Except Error Unit × ProcessEngine) := do
  let e := { e with options := e.options.follow facts }
  match ← launch e.options locator.path with
  | .error fault => return (.error (.io fault), e)
  | .ok none => return (.error (.engineLoadFailed locator.url), e)
  | .ok (some process) =>
    let e ← e.close
    return (.ok (), { e with child := some process })

/-- The exit code of the process that shows the present document; zero if there is none. -/
def exitCode (e : ProcessEngine) : HostScript (Except Fault (Option Int)) := do
  match e.child with
  | none => return .ok (some 0)
  | some process => return (← HostScript.status process).map (·.map ExitStatus.code)

def answer : (r : EngineRequest) → ProcessEngine → HostScript (r.Answer × ProcessEngine)
  | .load locator, e => e.load locator
  | .loadText text base, e => e.loadText text base
  | .reload locator facts, e => e.reload locator facts
  | .exitCode, e => do return (← e.exitCode, e)

/-- Answers a request of a session, where those to the engine go to this one. -/
def serve : (r : SessionRequest) → StateT ProcessEngine HostScript r.Answer
  | .host r => StateT.lift (Script.request r)
  | .engine r => answer r

end ProcessEngine

/-- The first line that a runtime prints for `--version`, without the blanks around it. What it prints
to its error output counts where it prints nothing else. -/
def runtimeVersion (command : Text) : HostScript (Option Text) := do
  match ← HostScript.collect ⟨command, ["--version".toList], [], none⟩ with
  | .error _ => return none
  | .ok printed =>
    let bytes := if printed.output.isEmpty then printed.errors else printed.output
    return ((Text.lines (Utf8.decodeLenient bytes)).map Text.trim).find? (fun l => !l.isEmpty)

def runtimeVersionLine (command : Text) : HostScript Text := do
  match ← runtimeVersion command with
  | some version => return "runtime: ".toList ++ version
  | none => return "runtime: ".toList ++ command ++ " (not found)".toList

end QmlPreview
