import QmlPreview.Engine.Process
import QmlPreview.Session
import QmlPreview.Time.Civil

/-!
The program: from its arguments to its exit code.
-/

namespace QmlPreview

/-- What the program is told about its user and itself. -/
structure Invocation where
  /-- The name that the program was started by. -/
  program : Text
  /-- The user's home directory. -/
  home : Path
  arguments : List Text
  deriving DecidableEq, Repr

/-- The name of a log file that is begun at the given time. -/
def Logs.fileName (now : Time) : Text :=
  namePrefix ++ (CivilTime.ofTime now).stamp ++ nameSuffix

def UsageProblem.message : UsageProblem → Text
  | unknownArgument => "error: unexpected argument".toList
  | invalidValue => "error: invalid value".toList
  | argumentConflict => "error: an argument is given more than once".toList
  | tooManyValues => "error: a flag takes no value".toList
  | missingRequiredArgument => "error: no source is given".toList

namespace Program

def line (t : Text) : Text := t ++ ['\n']

/-- Says why there is nothing to run. A request for the version also names the runtime. -/
def refuse (i : Invocation) (r : Refusal) : HostScript Int := do
  match r with
  | .help => HostScript.print (CommandLine.helpText i.program)
  | .version =>
    HostScript.print CommandLine.versionText
    let settings := match ← Settings.load i.home with
      | .ok s => s
      | .error _ => {}
    let version ← runtimeVersionLine (Settings.expandHome i.home settings.engineCommand)
    HostScript.print (line version)
  | .problem p => HostScript.report (line p.message)
  return r.exitCode

/-- Describes an error to the user and gives the exit code that it ends the program with. -/
def report (e : Error) : HostScript Int := do
  HostScript.report (line e.describe)
  return e.exitCode

/-- A failure before the session. -/
def fail (reason : Text) : HostScript Int := do
  HostScript.report (line ("qmlview error: ".toList ++ reason))
  return 1

/-- The settings of the user; those that cannot be used are reported and left aside. -/
def settings (home : Path) : HostScript Settings := do
  match ← Settings.load home with
  | .ok s => return s
  | .error fault =>
    HostScript.report (line ("qmlview: ignoring config file: ".toList ++ fault.message))
    return {}

/-- Runs a session with an engine of its own, which is closed at the end. -/
def session (ctx : Context) (ticks : Nat) : HostScript Int := do
  match ← Session.inspect ctx with
  | .error e => report e
  | .ok facts =>
    let engine : ProcessEngine := { options := ctx.engineOptions facts }
    let (result, engine) ← (Script.interpret ProcessEngine.serve (Session.run ctx ticks)).run engine
    let code ← match result with
      | .ok code => pure code
      | .error e => report e
    let _ ← engine.close
    return code

def launch (i : Invocation) (c : CommandLine) (ticks : Nat) : HostScript Int := do
  match ← Settings.makeDirectories i.home with
  | .error fault => fail (fault.message ++ ": ".toList ++ fault.cause.text)
  | .ok () =>
    let settings ← settings i.home
    let now ← HostScript.now
    let logs := Settings.logDirectory i.home
    match ← FileScript.append (Path.join logs (Logs.fileName now)) [] with
    | .error fault => fail ("Failed to open log file: ".toList ++ fault.text)
    | .ok () =>
      let _ ← Logs.clean (← HostScript.now) logs settings.logRetention
      session (Context.ofCommandLine i.home c settings) ticks

/-- Runs the program and gives its exit code; a session ends after the given number of ticks at the
latest. -/
def run (i : Invocation) (ticks : Nat) : HostScript Int :=
  match CommandLine.parse i.arguments with
  | .error r => refuse i r
  | .ok c => launch i c ticks

end Program

end QmlPreview
