import QmlPreview.Fault
import QmlPreview.Path
import QmlPreview.Time

/-!
File trees: directories, files and symbolic links, and where a path leads in them.

A tree is a finite map from locations to nodes; a location is the list of names from the root. A path
is walked one component at a time from a directory. A link on the way is replaced by its target, and
after forty links the walk is given up.
-/

namespace QmlPreview

/-- The names on the way from the root to a place in the tree. -/
abbrev Location := List Text

inductive Node where
  | file (bytes : List UInt8) (modified : Time)
  | directory (modified : Time)
  /-- A symbolic link. -/
  | link (target : Path) (modified : Time)
  deriving DecidableEq, Repr

namespace Node

/-- The time of the last change of the node itself. -/
def modified : Node → Time
  | file _ m | directory m | link _ m => m

def withModified (time : Time) : Node → Node
  | file bytes _ => file bytes time
  | directory _ => directory time
  | link target _ => link target time

def isDirectory : Node → Bool
  | directory _ => true
  | file _ _ | link _ _ => false

end Node

/-- A tree of files. The root is a directory that always exists. -/
structure FileTree where
  entries : List (Location × Node) := []
  deriving DecidableEq, Repr

namespace FileTree

def node? (t : FileTree) : Location → Option Node
  | [] => some (.directory Time.epoch)
  | loc => t.entries.lookup loc

def isDirectoryAt (t : FileTree) (loc : Location) : Bool := (t.node? loc).any (·.isDirectory)

def put (t : FileTree) (loc : Location) (n : Node) : FileTree :=
  ⟨(loc, n) :: t.entries.filter (·.1 ≠ loc)⟩

/-- The tree without a location and all that is below it. -/
def erase (t : FileTree) (loc : Location) : FileTree :=
  ⟨t.entries.filter (fun e => !loc.isPrefixOf e.1)⟩

/-- The tree with all that stands at one location, or below it, standing at another instead. What stood
there before is gone. -/
def move (t : FileTree) (source target : Location) : FileTree :=
  let moved := t.entries.filter (fun e => source.isPrefixOf e.1)
  ⟨moved.map (fun e => (target ++ e.1.drop source.length, e.2)) ++
    ((t.erase source).erase target).entries⟩

/-- The tree with the time of the last change at a location set, where something stands. -/
def touch (t : FileTree) (loc : Location) (time : Time) : FileTree :=
  match t.node? loc with
  | none => t
  | some n => t.put loc (n.withModified time)

def names (t : FileTree) (loc : Location) : List Text :=
  t.entries.filterMap fun e =>
    match e.1.getLast? with
    | some name => if e.1.dropLast = loc then some name else none
    | none => none

def pathOf (loc : Location) : Path :=
  if loc.isEmpty then ['/'] else loc.flatMap ('/' :: ·)

/-- The longest name of a file, in bytes. -/
def nameLimit : Nat := 255

/-- The longest path, in bytes. -/
def pathLimit : Nat := 4095

def linkLimit : Nat := 40

/-- The components that a walk along a path takes, the empty ones included. -/
def steps (p : Path) : List Text := (if Path.isAbsolute p then p.drop 1 else p).splitOn '/'

/-- Where a walk starts: at the root for an absolute path, else at the given directory. -/
def origin (base : Location) (p : Path) : Location := if Path.isAbsolute p then [] else base

/-- Walks from the location `here` along the steps. At most `links` links are followed; one at the end
is followed if `followLast` says so. The last step may lead to a place where nothing stands yet. -/
def walk (t : FileTree) (followLast : Bool) (links : Nat) (here : Location) (steps : List Text) :
    Except Fault Location :=
  match steps with
  | [] => .ok here
  | step :: rest =>
    if !t.isDirectoryAt here then .error .notDirectory
    else if Path.isSilent step then walk t followLast links here rest
    else if step = ['.', '.'] then walk t followLast links here.dropLast rest
    else if nameLimit < Text.byteLength step then .error .nameTooLong
    else
      let next := here ++ [step]
      match t.node? next with
      | none => if rest.isEmpty then .ok next else .error .noEntry
      | some (.link target _) =>
        if rest.isEmpty && !followLast then .ok next
        else
          match links with
          | 0 => .error .tooManyLinks
          | links + 1 =>
            walk t followLast links (origin here target) (FileTree.steps target ++ rest)
      | some _ => walk t followLast links next rest
termination_by (links, steps.length)

/-- Where a path leads from a directory. The place may be empty; the way to it may not. -/
def locate (t : FileTree) (followLast : Bool) (base : Location) (p : Path) :
    Except Fault Location :=
  if p.contains '\x00' then .error .nulInPath
  else if p.isEmpty then .error .noEntry
  else t.walk followLast linkLimit (origin base p) (steps p)

/-- Where a path leads, which must be short enough for the operating system. -/
def find (t : FileTree) (followLast : Bool) (base : Location) (p : Path) : Except Fault Location :=
  if pathLimit < Text.byteLength p then .error .nameTooLong else t.locate followLast base p

def lookUp (t : FileTree) (followLast : Bool) (base : Location) (p : Path) :
    Except Fault (Location × Node) := do
  let loc ← t.find followLast base p
  match t.node? loc with
  | none => .error .noEntry
  | some n => .ok (loc, n)

/-- The path without links that a path leads to. The result must be short enough; the path may be
spelled at any length. -/
def resolve (t : FileTree) (base : Location) (p : Path) : Except Fault Path := do
  let loc ← t.locate true base p
  if pathLimit < Text.byteLength (pathOf loc) then .error .nameTooLong
  else if (t.node? loc).isNone then .error .noEntry
  else .ok (pathOf loc)

def read (t : FileTree) (base : Location) (p : Path) : Except Fault (List UInt8) := do
  match ← t.lookUp true base p with
  | (_, .file bytes _) => .ok bytes
  | _ => .error .isDirectory

/-- Changes the bytes of the file that a path leads to; there may be none yet. -/
def change (t : FileTree) (now : Time) (base : Location) (p : Path)
    (f : List UInt8 → List UInt8) : Except Fault FileTree := do
  let loc ← t.find true base p
  match t.node? loc with
  | none => .ok (t.put loc (.file (f []) now))
  | some (.file bytes _) => .ok (t.put loc (.file (f bytes) now))
  | some _ => .error .isDirectory

/-- Removes the entry of a path, unless it is a directory. -/
def remove (t : FileTree) (base : Location) (p : Path) : Except Fault FileTree := do
  match ← t.lookUp false base p with
  | (_, .directory _) => .error .isDirectory
  | (loc, _) => .ok (t.erase loc)

def list (t : FileTree) (base : Location) (p : Path) : Except Fault (List Text) := do
  match ← t.lookUp true base p with
  | (loc, .directory _) => .ok (t.names loc)
  | _ => .error .notDirectory

def makeDirectory (t : FileTree) (now : Time) (base : Location) (p : Path) :
    Except Fault FileTree := do
  let loc ← t.find false base p
  if (t.node? loc).isSome then .error .fileExists else .ok (t.put loc (.directory now))

def leadsToDirectory (t : FileTree) (base : Location) (p : Path) : Bool :=
  match t.lookUp true base p with
  | .ok (_, n) => n.isDirectory
  | .error _ => false

def ensureDirectory (t : FileTree) (now : Time) (base : Location) (p : Path) :
    Except Fault FileTree :=
  match t.makeDirectory now base p with
  | .ok t => .ok t
  | .error fault => if t.leadsToDirectory base p then .ok t else .error fault

/-- Makes a directory and those above it, going up at most `levels` levels. -/
def makeDirectories (t : FileTree) (now : Time) (base : Location) (levels : Nat) (p : Path) :
    Except Fault FileTree :=
  match levels with
  | 0 => t.ensureDirectory now base p
  | levels + 1 =>
    if p.isEmpty then .ok t
    else
      match t.makeDirectory now base p, Path.parent? p with
      | .error fault, some parent =>
        if fault.isNotFound then do
          let t ← t.makeDirectories now base levels parent
          t.ensureDirectory now base p
        else t.ensureDirectory now base p
      | _, _ => t.ensureDirectory now base p

end FileTree

end QmlPreview
