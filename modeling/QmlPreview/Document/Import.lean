import QmlPreview.Text

/-!
Import statements: `import QtQuick.Controls 2.15 as QQC`, `import "components"`.

The target is a module name or a quoted path. A version and a qualifier may follow; other words are
skipped.
-/

namespace QmlPreview

structure Import where
  /-- The dotted module name, or the path without its quotes. -/
  target : Text
  version : Option Text
  /-- The name after `as`. -/
  qualifier : Option Text
  /-- The target was quoted. -/
  isPath : Bool
  /-- The statement as written, without the semicolons and blanks at its end. -/
  raw : Text
  deriving DecidableEq, Repr

namespace Import

/-- A version is made of digits and dots and starts with a digit. -/
def isVersion (word : Text) : Bool :=
  word.all (fun c => c.isDigit || c == '.') && word.head?.any Char.isDigit

/-- The version and the qualifier among the words that follow the target, given those found so far.
The first version counts, and the last `as`; the word after `as` is its qualifier, whatever it is. -/
def readWords (version qualifier : Option Text) : List Text → Option Text × Option Text
  | [] => (version, qualifier)
  | [word] =>
    if word = "as".toList then (version, none)
    else if version.isNone && isVersion word then (some word, qualifier)
    else (version, qualifier)
  | word :: next :: rest =>
    if word = "as".toList then readWords version (some next) rest
    else if version.isNone && isVersion word then readWords (some word) qualifier (next :: rest)
    else readWords version qualifier (next :: rest)

/-- The target at the start of a text, whether it is quoted, and what follows it. -/
def readTarget? : Text → Option (Text × Bool × Text)
  | '"' :: t =>
    match t.dropWhile (· != '"') with
    | [] => none
    | _ :: tail => some (t.takeWhile (· != '"'), true, tail)
  | t => some (t.takeWhile (fun c => !Text.isBlank c), false, t.dropWhile (fun c => !Text.isBlank c))

/-- A statement without the blanks around it and the semicolons after it. -/
def bare (statement : Text) : Text :=
  Text.trimEnd ((Text.trim statement).reverse.dropWhile (· == ';')).reverse

/-- Reads one statement. There is none without the keyword, a blank after it and a target. -/
def parse? (statement : Text) : Option Import :=
  let raw := bare statement
  match Text.dropLead? "import".toList raw with
  | none => none
  | some rest =>
    if rest.head?.any Text.isBlank then
      match readTarget? (Text.trimStart rest) with
      | none => none
      | some (target, isPath, tail) =>
        if target.isEmpty then none
        else
          let (version, qualifier) := readWords none none (Text.words tail)
          some ⟨target, version, qualifier, isPath, raw⟩
    else none

/-- An import is displayed as it was written. -/
def display (i : Import) : Text := i.raw

def providesUnqualified (i : Import) (module : Text) : Bool :=
  !i.isPath && i.qualifier.isNone && i.target == module

end Import

end QmlPreview
