import QmlPreview.Engine.Options
import QmlPreview.Wrap.Presentation

/-!
The command line: a source, and options around it.

Arguments are read from left to right. A request for help or for the version, and the first argument
that cannot stand where it stands, end the reading. A value that stands in an argument of its own is
looked at only when the next option or source is read, or at the end; so an unknown option behind it
is reported first.
-/

namespace QmlPreview

inductive Operation where
  /-- Load once and show until the window closes. -/
  | preview (layout : Layout)
  /-- Reload on every change. -/
  | live (layout : Layout)
  deriving DecidableEq, Repr

def Operation.layout : Operation → Layout
  | preview layout | live layout => layout

structure CommandLine where
  source : Path
  phone : Bool
  live : Bool
  backend : Option SceneBackend
  engine : Option Text
  /-- How often more messages were asked for, at most 255 times. -/
  verbosity : Nat
  deriving DecidableEq, Repr

def CommandLine.operation (c : CommandLine) : Operation :=
  let layout := if c.phone then Layout.phone else .plain
  if c.live then .live layout else .preview layout

inductive UsageProblem where
  | unknownArgument
  | invalidValue
  /-- An argument is given twice. -/
  | argumentConflict
  /-- A flag is given a value. -/
  | tooManyValues
  | missingRequiredArgument
  deriving DecidableEq, Repr

inductive Refusal where
  | help
  | version
  | problem (p : UsageProblem)
  deriving DecidableEq, Repr

/-- The exit code after a refusal: a request for information is no failure. -/
def Refusal.exitCode : Refusal → Int
  | help | version => 0
  | problem _ => 3

namespace CommandLine

inductive ValueOption where
  | backend
  | engine
  deriving DecidableEq, Repr

/-- What an option without a value does. -/
inductive Flag where
  | phone
  | live
  | verbose
  | help
  | version
  deriving DecidableEq, Repr

/-- An argument that is read but not yet looked at. -/
inductive Pending where
  | option (o : ValueOption) (value : Option Text)
  | source (path : Path)
  deriving DecidableEq, Repr

structure State where
  source : Option Path := none
  phone : Bool := false
  live : Bool := false
  backend : Option SceneBackend := none
  engine : Option Text := none
  verbosity : Nat := 0
  pending : Option Pending := none
  deriving DecidableEq, Repr

/-- Reading goes on, or ends in a refusal. -/
abbrev Reading (α : Type) := Except Refusal α

def fail {α : Type} (p : UsageProblem) : Reading α := .error (.problem p)

namespace State

/-- Gives an option its value. An option can be given once; a backend must be known. -/
def setOption (s : State) (o : ValueOption) (value : Text) : Reading State :=
  match o with
  | .backend =>
    if s.backend.isSome then fail .argumentConflict
    else
      match SceneBackend.ofName? value with
      | none => fail .invalidValue
      | some b => .ok { s with backend := some b }
  | .engine =>
    if s.engine.isSome then fail .argumentConflict else .ok { s with engine := some value }

def settle (s : State) : Reading State :=
  let rest := { s with pending := none }
  match s.pending with
  | none => .ok s
  | some (.option _ none) => fail .invalidValue
  | some (.option o (some value)) => rest.setOption o value
  | some (.source path) =>
    if path.isEmpty then fail .invalidValue else .ok { rest with source := some path }

def setFlag (s : State) (flag : Flag) : Reading State := do
  let s ← s.settle
  match flag with
  | .phone => if s.phone then fail .argumentConflict else return { s with phone := true }
  | .live => if s.live then fail .argumentConflict else return { s with live := true }
  | .verbose => return { s with verbosity := min 255 (s.verbosity + 1) }
  | .help => .error .help
  | .version => .error .version

def hasSource (s : State) : Bool :=
  s.source.isSome ||
    match s.pending with
    | some (.source _) => true
    | _ => false

/-- Reads an argument that is no option: there is room for one source. -/
def addSource (s : State) (arg : Text) : Reading State :=
  if s.hasSource then fail .unknownArgument
  else do
    let s ← s.settle
    return { s with pending := some (.source arg) }

end State

def shortFlag? : Char → Option Flag
  | 'p' => some .phone
  | 'l' => some .live
  | 'v' => some .verbose
  | 'h' => some .help
  | 'V' => some .version
  | _ => none

def longFlag? (name : Text) : Option Flag :=
  [("phone".toList, Flag.phone), ("live".toList, .live), ("verbose".toList, .verbose),
    ("help".toList, .help), ("version".toList, .version)].lookup name

def valueOption? (name : Text) : Option ValueOption :=
  [("backend".toList, ValueOption.backend), ("engine".toList, .engine)].lookup name

def readShort (s : State) : Text → Reading State
  | [] => .ok s
  | c :: rest =>
    match shortFlag? c with
    | none => fail .unknownArgument
    | some flag => do readShort (← s.setFlag flag) rest

/-- Reads a long option, whose name may be followed by `=` and a value. -/
def readLong (s : State) (arg : Text) : Reading State :=
  let name := arg.takeWhile (· != '=')
  let attached : Option Text := (arg.dropWhile (· != '=')).tail?
  match longFlag? name, valueOption? name with
  | some flag, _ => if attached.isSome then fail .tooManyValues else s.setFlag flag
  | none, some o => do
    let s ← s.settle
    match attached with
    | some value => s.setOption o value
    | none => return { s with pending := some (.option o none) }
  | none, none => fail .unknownArgument

/-- Reads one argument, before `--`. -/
def readArgument (s : State) (arg : Text) : Reading State :=
  match arg with
  | '-' :: '-' :: rest => readLong s rest
  | '-' :: c :: rest => readShort s (c :: rest)
  | _ =>
    match s.pending with
    | some (.option o none) => .ok { s with pending := some (.option o (some arg)) }
    | _ => s.addSource arg

/-- Reads all arguments. After `--` every argument is a source. -/
def readAll (s : State) : List Text → Reading State
  | [] => .ok s
  | arg :: rest =>
    if arg = ['-', '-'] then rest.foldlM State.addSource s
    else do readAll (← readArgument s arg) rest

def parse (args : List Text) : Reading CommandLine := do
  let s ← (← readAll {} args).settle
  match s.source with
  | none => fail .missingRequiredArgument
  | some source => return { s with source }

def versionText : Text := "qmlview 0.4.0\n".toList

/-- The text that answers a request for help, for a program of the given name. -/
def helpText (program : Text) : Text :=
  "Preview a QML file standalone, in a phone frame, or with live reload\n\nUsage: ".toList ++
    program ++
    (" [OPTIONS] <SOURCE>\n\n" ++
      "Arguments:\n" ++
      "  <SOURCE>  The .qml file to run\n\n" ++
      "Options:\n" ++
      "  -p, --phone              Run the source inside a phone frame\n" ++
      "  -l, --live               Reload automatically whenever the source changes\n" ++
      "      --backend <BACKEND>  Scene graph backend for the runtime " ++
      "[possible values: software, openvg, rhi, gtk]\n" ++
      "      --engine <CMD>       QML runtime executable (overrides the config file)\n" ++
      "  -v, --verbose...         Increase log verbosity (-v debug, -vv trace)\n" ++
      "  -h, --help               Print help\n" ++
      "  -V, --version            Print version\n\n" ++
      "Examples:\n" ++
      "    qmlview ~/ui/main.qml\n" ++
      "    qmlview ~/ui/Card.qml --phone --live\n").toList

end CommandLine

def Refusal.text? (program : Text) : Refusal → Option Text
  | .help => some (CommandLine.helpText program)
  | .version => some CommandLine.versionText
  | .problem _ => none

end QmlPreview
