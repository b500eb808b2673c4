import QmlPreview.FileRequest

/-!
Log retention: deleting the log files that are older than a number of days.
-/

namespace QmlPreview.Logs

def namePrefix : Text := "qmlview-".toList

def nameSuffix : Text := ".log".toList

def isLogName (name : Text) : Bool :=
  namePrefix.isPrefixOf name && nameSuffix.isSuffixOf name

/-- How many days log files are kept unless the settings say otherwise. -/
def defaultDays : UInt64 := 7

/-- The number of seconds in a number of days, as a word. -/
def secondsOfDays (days : UInt64) : UInt64 := days * 24 * 60 * 60

/-- The time before which log files have expired. A time that the clock cannot tell, because its
seconds do not fit a signed word, is taken as the start of 1970. -/
def cutoff (now : Time) (days : UInt64) : Time :=
  let seconds : Int := (secondsOfDays days).toNat
  if now.nanoseconds / 1000000000 - seconds < Int64.minValue.toInt then Time.epoch
  else ⟨now.nanoseconds - seconds * 1000000000⟩

/-- Removes the entries last changed before a time, and counts how many could be removed. -/
def removeOlder (limit : Time) : List Path → FileScript Nat
  | [] => return 0
  | path :: rest => do
    match ← FileScript.entryModified path with
    | .error _ => removeOlder limit rest
    | .ok modified =>
      if modified.nanoseconds < limit.nanoseconds then
        let removed ← FileScript.remove path
        let count ← removeOlder limit rest
        return if removed.isOk then count + 1 else count
      else removeOlder limit rest

/-- Deletes the log files in `dir` that are older than a number of days at the time `now`, and gives
the number deleted. A directory that is not there has none. -/
def clean (now : Time) (dir : Path) (days : UInt64) : FileScript (Except Fault Nat) := do
  if ← FileScript.isPresent dir then
    match ← FileScript.list dir with
    | .error fault => return .error fault
    | .ok names =>
      return .ok (← removeOlder (cutoff now days) ((names.filter isLogName).map (Path.join dir)))
  else return .ok 0

end QmlPreview.Logs
