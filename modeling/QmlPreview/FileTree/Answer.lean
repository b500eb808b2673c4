import QmlPreview.FileRequest
import QmlPreview.FileTree

/-!
A file tree as the surroundings of a script: how it answers requests, and what it becomes.
-/

namespace QmlPreview.FileTree

/-- The answer and the new tree, where a request that failed leaves the old one. -/
def settle (t : FileTree) : Except Fault FileTree → Except Fault Unit × FileTree
  | .ok t => (.ok (), t)
  | .error fault => (.error fault, t)

/-- Answers a request at a point in time. Relative paths are seen from the directory `base`. -/
def answer (base : Location) (now : Time) :
    (r : FileRequest) → FileTree → r.Answer × FileTree
  | .resolve p, t => (t.resolve base p, t)
  | .modified p, t => ((t.lookUp true base p).map (·.2.modified), t)
  | .entryModified p, t => ((t.lookUp false base p).map (·.2.modified), t)
  | .read p, t => (t.read base p, t)
  | .write p bytes, t => t.settle (t.change now base p (fun _ => bytes))
  | .append p bytes, t => t.settle (t.change now base p (· ++ bytes))
  | .remove p, t => t.settle (t.remove base p)
  | .isPresent p, t => ((t.lookUp true base p).isOk, t)
  | .list p, t => (t.list base p, t)
  | .makeDirectories p, t => t.settle (t.makeDirectories now base p.length p)

end QmlPreview.FileTree
