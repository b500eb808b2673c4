import QmlPreview.Text

/-!
The head of an element: its type name, then `{`.

A type name is one identifier, or several joined by dots, where all but the last qualify the last.
Blanks may stand between the name and the brace.
-/

namespace QmlPreview

structure ElementHead where
  /-- The type name as written, with its qualifier. -/
  typeName : Text
  /-- The byte offset of the opening brace. -/
  brace : Nat
  deriving DecidableEq, Repr

namespace ElementHead

def startsIdentifier (c : Char) : Bool := c.isAlpha || c == '_'

def continuesIdentifier (c : Char) : Bool := c.isAlphanum || c == '_'

/-- An identifier is a letter or underscore, followed by letters, digits and underscores. -/
def isIdentifier : Text → Bool
  | [] => false
  | c :: t => startsIdentifier c && t.all continuesIdentifier

/-- A type name is a chain of identifiers joined by dots. -/
def isTypeName (t : Text) : Bool := (t.splitOn '.').all isIdentifier

/-- Reads the head of the element that the text starts with. The name is the longest run of
identifier characters and dots, because neither a blank nor a brace continues one. -/
def parse? (t : Text) : Option ElementHead :=
  let name := t.takeWhile (fun c => continuesIdentifier c || c == '.')
  let rest := t.dropWhile (fun c => continuesIdentifier c || c == '.')
  let blanks := rest.takeWhile Text.isBlank
  if isTypeName name && (rest.dropWhile Text.isBlank).head? == some '{' then
    some ⟨name, Text.byteLength name + Text.byteLength blanks⟩
  else none

def unqualified (typeName : Text) : Text :=
  (typeName.reverse.takeWhile (· != '.')).reverse

/-- The qualifier of a type name, with the dot it ends in. -/
def qualifier (typeName : Text) : Text :=
  (typeName.reverse.dropWhile (· != '.')).reverse

/-- A type name is its qualifier followed by its unqualified name. -/
theorem qualifier_append_unqualified (typeName : Text) :
    qualifier typeName ++ unqualified typeName = typeName := by
  rw [qualifier, unqualified, ← List.reverse_append, List.takeWhile_append_dropWhile,
    List.reverse_reverse]

end ElementHead

end QmlPreview
