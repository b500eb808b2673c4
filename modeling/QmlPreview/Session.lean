import QmlPreview.CommandLine
import QmlPreview.Engine.Options
import QmlPreview.Settings

/-!
A preview session: a source is loaded into the engine, and kept up to date until the engine exits.
-/

namespace QmlPreview

structure Context where
  settings : Settings
  source : Path
  operation : Operation
  backend : Option SceneBackend
  deriving DecidableEq, Repr

namespace Context

/-- The context of a command line, for a user with the given home directory. The command line's own
engine counts before that of the settings. -/
def ofCommandLine (home : Path) (c : CommandLine) (s : Settings) : Context where
  settings := { s with
    engineCommand := Settings.expandHome home (c.engine.getD s.engineCommand) }
  source := Settings.expandHome home c.source
  operation := c.operation
  backend := c.backend

def engineOptions (ctx : Context) (facts : Facts) : EngineOptions :=
  EngineOptions.follow
    { command := ctx.settings.engineCommand
      backend := ctx.backend
      settle := ctx.settings.reloadSettle } facts

end Context

namespace Session

def inspect (ctx : Context) : FileScript (Except Error Facts) := do
  return (← Document.read ctx.source).map (fun doc => scan doc.text)

/-- The root objects of a loaded document; a document without one did not load. -/
def rootsOf (locator : Locator) : Except Fault (List Nat) → Except Error (List Nat)
  | .error fault => .error (.io fault)
  | .ok roots => if roots.isEmpty then .error (.engineLoadFailed locator.url) else .ok roots

/-- Hands a document to the engine: the file of a source, or the text of a generated one. -/
def loadInto (l : Loadable) : SessionScript (Except Error (List Nat)) := do
  let answer ← match l with
    | .source _ => SessionScript.load l.locator
    | .generated _ => SessionScript.loadText l.text l.locator
  return rootsOf l.locator answer

def preview (ctx : Context) (layout : Layout) : SessionScript (Except Error (List Nat)) := do
  match ← Document.read ctx.source with
  | .error e => return .error e
  | .ok doc =>
    match doc.present (scan doc.text) layout ctx.settings.windowSize with
    | .error e => return .error e
    | .ok loadable => loadInto loadable

def abandon (w : Watcher) (e : Error) : SessionScript (Except Error Watcher) := do
  let _ ← w.close
  return .error e

def startLive (ctx : Context) (layout : Layout) : SessionScript (Except Error Watcher) := do
  match ← Watcher.start ctx.source (ctx.settings.watchOptions layout) with
  | .error e => return .error e
  | .ok w =>
    let (made, w) ← w.generate
    match made with
    | .error e => abandon w e
    | .ok g =>
      match rootsOf g.locator (← SessionScript.load g.locator) with
      | .error e => abandon w e
      | .ok _ => return .ok (← w.commit g)

def pollIfLive : Option Watcher → SessionScript (Option Watcher)
  | none => return none
  | some w => do
    let (_, w) ← w.poll
    return some w

/-- Waits until the engine exits. At each tick the watcher is polled, and then the engine is asked for
its exit code. After the given number of ticks the wait ends as if it was interrupted, with code
zero. -/
def waitForExit (interval : Nat) : (ticks : Nat) → Option Watcher →
    SessionScript (Except Error Int × Option Watcher)
  | 0, watcher => return (.ok 0, watcher)
  | ticks + 1, watcher => do
    let watcher ← pollIfLive watcher
    match ← SessionScript.exitCode with
    | .error fault => return (.error (.io fault), watcher)
    | .ok (some code) => return (.ok code, watcher)
    | .ok none =>
      HostScript.sleep interval
      waitForExit interval ticks watcher

/-- Runs a session and gives the exit code. A watcher is closed however the session ends. -/
def run (ctx : Context) (ticks : Nat) : SessionScript (Except Error Int) := do
  let interval := ctx.settings.usedPollInterval.toNat
  match ctx.operation with
  | .preview layout =>
    match ← preview ctx layout with
    | .error e => return .error e
    | .ok _ => return (← waitForExit interval ticks none).1
  | .live layout =>
    match ← startLive ctx layout with
    | .error e => return .error e
    | .ok w =>
      let (code, watcher) ← waitForExit interval ticks (some w)
      match watcher with
      | none => return code
      | some w =>
        let _ ← w.close
        return code

end Session

end QmlPreview
