import QmlPreview.FileRequest
import QmlPreview.Live.SideFileName

/-!
Sweeping a directory: deleting the side files that nobody shows any more.
-/

namespace QmlPreview

/-- Removes each path and counts how many could be removed. -/
def removeEach : List Path → FileScript Nat
  | [] => return 0
  | path :: rest => do
    let removed ← FileScript.remove path
    let count ← removeEach rest
    return if removed.isOk then count + 1 else count

/-- A path is among those to keep. Paths are compared by their components. -/
def isKept (keep : List Path) (path : Path) : Bool :=
  keep.any (fun k => Path.components k = Path.components path)

def sweepable (dir : Path) (keep : List Path) (names : List Text) : List Path :=
  ((names.filter isSideFileName).map (Path.join dir)).filter (fun path => !isKept keep path)

/-- Deletes every side file in `dir` but those to keep, and gives the number deleted. A directory that
is not there has none. -/
def sweep (dir : Path) (keep : List Path) : FileScript (Except Fault Nat) := do
  if ← FileScript.isPresent dir then
    match ← FileScript.list dir with
    | .error fault => return .error fault
    | .ok names => return .ok (← removeEach (sweepable dir keep names))
  else return .ok 0

end QmlPreview
