import QmlPreview.Document.Import

/-!
The header of a document: the `pragma` and `import` statements before its element.

A statement starts with its keyword and runs to the next newline or semicolon. The header ends at the
first text that is neither a blank nor such a statement; that offset is where the content starts. A
header is read from a text whose comments are masked.
-/

namespace QmlPreview

inductive Keyword where
  | «import»
  | pragma
  deriving DecidableEq, Repr

namespace Keyword

def spelling : Keyword → Text
  | .«import» => "import".toList
  | .pragma => "pragma".toList

/-- The text starts with the keyword and a blank. -/
def startsText (k : Keyword) (t : Text) : Bool :=
  match Text.dropLead? k.spelling t with
  | some rest => rest.head?.any Text.isBlank
  | none => false

def ofText? (t : Text) : Option Keyword :=
  if startsText .«import» t then some .«import»
  else if startsText .pragma t then some .pragma
  else none

theorem ofText?_nil : ofText? [] = none := rfl

end Keyword

/-- One statement of a header, from its keyword on, without the blanks at its end. -/
structure Statement where
  keyword : Keyword
  text : Text
  deriving DecidableEq, Repr

namespace Statement

/-- A newline or a semicolon ends a statement. -/
def isEnd (c : Char) : Bool := c == '\n' || c == ';'

/-- The statements that a text starts with, and what is left after them and the blanks that follow. -/
def readAll (t : Text) : List Statement × Text :=
  match _isStatement : Keyword.ofText? (Text.trimStart t) with
  | none => ([], Text.trimStart t)
  | some keyword =>
    let start := Text.trimStart t
    let (rest, left) := readAll (start.dropWhile (fun c => !isEnd c)).tail
    (⟨keyword, Text.trimEnd (start.takeWhile (fun c => !isEnd c))⟩ :: rest, left)
termination_by t.length
decreasing_by
  have trimmed : (Text.trimStart t).length ≤ t.length := (List.dropWhile_sublist _).length_le
  have left : ((Text.trimStart t).dropWhile (fun c => !isEnd c)).length ≤
      (Text.trimStart t).length := (List.dropWhile_sublist _).length_le
  have nonempty : Text.trimStart t ≠ [] := by
    intro e
    rw [e, Keyword.ofText?_nil] at _isStatement
    cases _isStatement
  have : 0 < (Text.trimStart t).length := List.length_pos_iff.2 nonempty
  simp only [List.length_tail]
  omega

end Statement

structure Header where
  pragmas : List Text
  imports : List Import
  /-- The byte offset of the first character after the header and the blanks that follow it. -/
  contentStart : Nat
  deriving DecidableEq, Repr

namespace Header

/-- The header made of the given statements. A statement that names nothing to import is skipped. -/
def ofStatements (statements : List Statement) (contentStart : Nat) : Header where
  pragmas := (statements.filter (·.keyword = .pragma)).map (·.text)
  imports := (statements.filter (·.keyword = .«import»)).filterMap (Import.parse? ·.text)
  contentStart := contentStart

def ofMasked (masked : Text) : Header :=
  let (statements, rest) := Statement.readAll masked
  ofStatements statements (Text.byteLength masked - Text.byteLength rest)

end Header

end QmlPreview
