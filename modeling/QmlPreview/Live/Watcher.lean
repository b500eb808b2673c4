import QmlPreview.Document.Reading
import QmlPreview.Engine.Request
import QmlPreview.Live.Sweep
import QmlPreview.Wrap.Presentation

/-!
Watching a source: a side file for its present text, and a new one whenever the source changes.

A watcher shows one side file at a time. Each poll looks at the time of the last change of the source.
If it moved, the source is read, presented and written to a new side file, the engine is asked to show
it, and the side files before it are deleted. A failure that may pass is tried again on the next poll;
a text that cannot be shown is rejected, and the side file before it stays.
-/

namespace QmlPreview

structure WatchOptions where
  layout : Layout := .plain
  size : WindowSize := {}
  /-- The number of failures in a row that is worth a warning. -/
  maxFailures : UInt32 := 3
  deriving DecidableEq, Repr

inductive WatchPhase where
  | idle
  | watching
  | regenerating
  | closed
  deriving DecidableEq, Repr

structure Watcher where
  /-- The resolved path of the source. -/
  target : Path
  /-- The directory of the source, which side files are written to. -/
  directory : Path
  options : WatchOptions
  /-- The side files that are not yet deleted; the last one is shown. -/
  generations : List Path := []
  /-- How many side files have been named. -/
  counter : UInt64 := 0
  /-- The time of change of the source that was dealt with last. -/
  lastModified : Option Time := none
  /-- How many polls failed in a row. -/
  failures : UInt32 := 0
  /-- How often the number of failures in a row reached the one worth a warning. -/
  escalations : UInt32 := 0
  phase : WatchPhase := .idle
  deriving DecidableEq, Repr

/-- A side file that is written but not yet shown. -/
structure Generation where
  path : Path
  /-- The time of change of the source that it was made from. -/
  modified : Time
  facts : Facts
  deriving DecidableEq, Repr

def Generation.locator (g : Generation) : Locator := .file g.path

inductive PollOutcome where
  /-- The source has not changed. -/
  | unchanged
  /-- A new side file is shown. -/
  | reloaded (path : Path)
  /-- The poll failed, and the next one tries again. -/
  | retrying
  /-- The source cannot be shown as it is; the side file before it stays. -/
  | rejected
  deriving DecidableEq, Repr

namespace Watcher

/-- A watcher of a resolved source that has not looked at it yet. -/
def idle (target : Path) (options : WatchOptions) : Watcher where
  target := target
  directory := (Path.parent? target).getD ['.']
  options := options

/-- The side file that is shown. -/
def current (w : Watcher) : Option Path := w.generations.getLast?

def isClosed (w : Watcher) : Bool := w.phase = .closed

/-- Begins to watch a source. Side files that earlier runs left behind are swept first. -/
def start (path : Path) (options : WatchOptions) : FileScript (Except Error Watcher) := do
  match ← FileScript.resolve path with
  | .error fault => return .error (.ofReading path fault)
  | .ok target =>
    let w := idle target options
    let _ ← sweep w.directory [w.target]
    match ← FileScript.modified w.target with
    | .error fault => return .error (.io fault)
    | .ok modified =>
      return .ok { w with lastModified := some modified, phase := .watching }

/-- Writes a side file for the source as it is now. The counter moves on once there is a text to
write, whether writing it succeeds or not. -/
def generate (w : Watcher) : HostScript (Except Error Generation × Watcher) := do
  match ← Document.read w.target with
  | .error e => return (.error e, w)
  | .ok doc =>
    let facts := scan doc.text
    match doc.present facts w.options.layout w.options.size with
    | .error e => return (.error e, w)
    | .ok loadable =>
      let w := { w with counter := w.counter + 1 }
      let token ← HostScript.token
      let path := Path.join w.directory (sideFileName w.counter token)
      match ← FileScript.writeText path loadable.text with
      | .error fault =>
        FileScript.discard path
        return (.error (.sideFile path fault), w)
      | .ok () => return (.ok ⟨path, doc.modified, facts⟩, w)

/-- Removes side files and gives those that are still there. -/
def removeOld : List Path → FileScript (List Path)
  | [] => return []
  | path :: rest => do
    match ← FileScript.remove path with
    | .ok () => removeOld rest
    | .error fault =>
      let left ← removeOld rest
      return if fault.isNotFound then left else path :: left

/-- Takes a side file as the one shown, and deletes those before it. -/
def commit (w : Watcher) (g : Generation) : FileScript Watcher := do
  let left ← removeOld w.generations
  return { w with
    generations := left ++ [g.path]
    lastModified := some g.modified
    failures := 0 }

/-- The watcher after a failure that may pass. -/
def noteFailure (w : Watcher) : Watcher :=
  let failures := w.failures + 1
  { w with
    failures
    escalations := if failures = w.options.maxFailures then w.escalations + 1 else w.escalations }

/-- The watcher after a text that cannot be shown: the same text would fail again, so the next change
is waited for. -/
def reject (w : Watcher) (modified : Time) : Watcher :=
  { w with lastModified := some modified, failures := 0 }

/-- A failure to make a side file that may pass: the source may be missing for a moment only. -/
def mayPass : Error → Bool
  | .sourceNotFound _ => true
  | e => e.isTransient

/-- Shows the source as it is now; `modified` is its time of change as the poll saw it. -/
def regenerate (w : Watcher) (modified : Time) : SessionScript (PollOutcome × Watcher) := do
  let (made, w) ← w.generate
  match made with
  | .error e =>
    if mayPass e then return (.retrying, w.noteFailure)
    else return (.rejected, w.reject modified)
  | .ok g =>
    match ← SessionScript.reload g.locator g.facts with
    | .ok () =>
      let w ← w.commit g
      return (.reloaded g.path, w)
    | .error e =>
      FileScript.discard g.path
      if e.isTransient then return (.retrying, w.noteFailure)
      else return (.rejected, w.reject modified)

def poll (w : Watcher) : SessionScript (PollOutcome × Watcher) := do
  if w.phase ≠ .watching then return (.unchanged, w)
  else
    match ← FileScript.modified w.target with
    | .error _ => return (.retrying, w.noteFailure)
    | .ok modified =>
      if w.lastModified = some modified then return (.unchanged, w)
      else
        let (outcome, w) ← regenerate { w with phase := .regenerating } modified
        return (outcome, { w with phase := .watching })

/-- Removes paths, and lets be those that cannot be removed. -/
def discardAll : List Path → FileScript Unit
  | [] => return ()
  | path :: rest => do
    FileScript.discard path
    discardAll rest

/-- Ends watching and deletes all side files. Closing twice is closing once. -/
def close (w : Watcher) : FileScript Watcher := do
  if w.phase = .closed then return w
  else
    discardAll w.generations
    let _ ← sweep w.directory [w.target]
    return { w with generations := [], phase := .closed }

end Watcher

end QmlPreview
