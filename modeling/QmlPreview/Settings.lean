import QmlPreview.FileRequest
import QmlPreview.Live.Watcher
import QmlPreview.Logs.Retention
import QmlPreview.Toml.Reader

/-!
The settings of the program, which a file in the user's home directory may change.
-/

namespace QmlPreview

structure Settings where
  /-- Milliseconds between two polls of a watched source. -/
  pollInterval : UInt64 := 300
  /-- How many failures in a row are worth a warning. -/
  maxFailures : UInt32 := 3
  /-- The executable of the runtime. -/
  engineCommand : Text := "qml".toList
  /-- How many milliseconds a new runtime must stay up before it replaces the running one. -/
  reloadSettle : UInt64 := 400
  windowWidth : UInt32 := 640
  windowHeight : UInt32 := 480
  /-- How many days log files are kept. -/
  logRetention : UInt64 := Logs.defaultDays
  deriving DecidableEq, Repr

inductive SettingsFault where
  | unreadable
  | unparsable
  deriving DecidableEq, Repr

def SettingsFault.message : SettingsFault → Text
  | unreadable => "Failed to read config file".toList
  | unparsable => "Failed to parse config file".toList

namespace Settings

/-- The interval between polls that is used, at least ten milliseconds. -/
def usedPollInterval (s : Settings) : UInt64 := max s.pollInterval 10

def windowSize (s : Settings) : WindowSize := ⟨s.windowWidth, s.windowHeight⟩

/-- The settings of a watcher, which warns after one failure at the earliest. -/
def watchOptions (s : Settings) (layout : Layout) : WatchOptions :=
  ⟨layout, s.windowSize, max s.maxFailures 1⟩

/-- The number under a key, which must lie between zero and `limit`, and the default without one. -/
def number? (entries : Toml.Entries) (key : String) (limit default : Nat) : Option Nat :=
  match entries.lookup key.toList with
  | none => some default
  | some (.integer n) => if 0 ≤ n && n ≤ limit then some n.toNat else none
  | some _ => none

/-- The string under a key, and the default without one. -/
def text? (entries : Toml.Entries) (key : String) (default : Text) : Option Text :=
  match entries.lookup key.toList with
  | none => some default
  | some (.string t) => some t
  | some _ => none

/-- The settings in the entries of a settings file. Unknown keys are ignored; a value of the wrong
type or out of range makes the file unusable. -/
def ofEntries? (entries : Toml.Entries) : Option Settings := do
  let d : Settings := {}
  let word := UInt32.size - 1
  let doubleWord := UInt64.size - 1
  let pollInterval ← number? entries "poll_interval_ms" doubleWord d.pollInterval.toNat
  let maxFailures ← number? entries "max_consecutive_failures" word d.maxFailures.toNat
  let engineCommand ← text? entries "engine_command" d.engineCommand
  let reloadSettle ← number? entries "reload_settle_ms" doubleWord d.reloadSettle.toNat
  let windowWidth ← number? entries "window_width" word d.windowWidth.toNat
  let windowHeight ← number? entries "window_height" word d.windowHeight.toNat
  let logRetention ← number? entries "log_retention_days" doubleWord d.logRetention.toNat
  return {
    pollInterval := .ofNat pollInterval
    maxFailures := .ofNat maxFailures
    engineCommand
    reloadSettle := .ofNat reloadSettle
    windowWidth := .ofNat windowWidth
    windowHeight := .ofNat windowHeight
    logRetention := .ofNat logRetention }

/-- The directory of the program's own files in a home directory. -/
def directory (home : Path) : Path := Path.join home ".qmlview".toList

def file (home : Path) : Path := Path.join (directory home) "config.toml".toList

def logDirectory (home : Path) : Path := Path.join (directory home) "logs".toList

/-- Reads the settings of a user. Without a settings file they are the defaults. -/
def load (home : Path) : FileScript (Except SettingsFault Settings) := do
  if ← FileScript.isPresent (file home) then
    match ← FileScript.readText (file home) with
    | .error _ => return .error .unreadable
    | .ok t =>
      match (Toml.parse? t).bind ofEntries? with
      | none => return .error .unparsable
      | some s => return .ok s
  else return .ok {}

/-- A path with the home directory in place of a leading `~` that stands alone or before a slash. -/
def expandHome (home : Path) : Path → Path
  | ['~'] => home
  | '~' :: '/' :: rest => home ++ '/' :: rest
  | path => path

end Settings

inductive DirectoryFault where
  | settings (fault : Fault)
  | logs (fault : Fault)
  deriving DecidableEq, Repr

namespace DirectoryFault

/-- The wording without its cause. -/
def message : DirectoryFault → Text
  | settings _ => "Failed to create config directory".toList
  | logs _ => "Failed to create logs directory".toList

def cause : DirectoryFault → Fault
  | settings fault | logs fault => fault

end DirectoryFault

def Settings.makeDirectories (home : Path) : FileScript (Except DirectoryFault Unit) := do
  match ← FileScript.makeDirectories (directory home) with
  | .error fault => return .error (.settings fault)
  | .ok () =>
    match ← FileScript.makeDirectories (logDirectory home) with
    | .error fault => return .error (.logs fault)
    | .ok () => return .ok ()

end QmlPreview
