import QmlPreview.Document.Container
import QmlPreview.Document.Parts

/-!
Re-hosting: turning a window root into a visual item that fills its parent.

The root changes its type, and loses the assignments of properties that only windows have. An
assignment is met at the start of a line or after a semicolon, directly in the root; it goes from
there to the first newline or semicolon back at the root's level, so a value that is an element goes
with it. The closing brace of the root always stays.
-/

namespace QmlPreview

namespace Container

/-- The visual item that stands in for the container. -/
def replacement : Container → Text
  | window => "Rectangle".toList
  | applicationWindow => "Page".toList

/-- Properties of all windows that visual items do not have. -/
def windowOnly : List Text :=
  ["visible".toList, "x".toList, "y".toList, "width".toList, "height".toList,
    "minimumWidth".toList, "minimumHeight".toList, "maximumWidth".toList, "maximumHeight".toList,
    "flags".toList, "visibility".toList, "modality".toList, "screen".toList,
    "transientParent".toList]

/-- Properties of this container that its replacement does not have. -/
def ownOnly : Container → List Text
  | window => ["title".toList]
  | applicationWindow => ["color".toList, "menuBar".toList]

def loses (c : Container) (name : Text) : Bool := windowOnly.contains name || c.ownOnly.contains name

end Container

namespace Rehosting

def isNameChar (c : Char) : Bool := c.isAlphanum || c == '_'

def isIndent (c : Char) : Bool := c == ' ' || c == '\t'

/-- The name that a line assigns: `name: value`, but not `name.sub: value`. -/
def assignedName? (line : Text) : Option Text :=
  let name := line.takeWhile isNameChar
  let rest := line.dropWhile isNameChar
  if !name.isEmpty && (Text.trimStart rest).head? == some ':' then some name else none

/-- Where the removal of assignments stands between two characters of the root's body. -/
structure State where
  /-- The brace depth, zero directly in the root and negative after it. It has no bound; only a text
  with 2^31 braces open at once tells it from a count in signed words of 32 bits. -/
  depth : Int := 0
  /-- An assignment may start here. -/
  lineStart : Bool := true
  /-- An assignment is being removed. -/
  skipping : Bool := false
  deriving DecidableEq, Repr

def startsRemoved (remove : Text → Bool) (line : Text) : Bool :=
  (assignedName? (line.dropWhile isIndent)).any remove

/-- The state in which the character that `line` starts with is met. -/
def State.enter (s : State) (remove : Text → Bool) (line : Text) : State :=
  if s.lineStart && s.depth == 0 && !s.skipping then
    { s with skipping := startsRemoved remove line }
  else s

def State.count (s : State) (x : Lexeme) : State :=
  if x.isCode '{' then { s with depth := s.depth + 1 }
  else if x.isCode '}' then
    { s with depth := s.depth - 1, skipping := s.skipping && s.depth != 0 }
  else s

def endsStatement (x : Lexeme) : Bool := x.endsLine || x.isCode ';'

def State.leave (s : State) (x : Lexeme) : State :=
  if endsStatement x && s.depth == 0 then { s with lineStart := true, skipping := false }
  else { s with lineStart := x.endsLine }

def stripFrom (remove : Text → Bool) : State → List Lexeme → Text
  | _, [] => []
  | s, x :: xs =>
    let met := (s.enter remove ((x :: xs).map (·.char))).count x
    let rest := stripFrom remove (met.leave x) xs
    if met.skipping then rest else x.char :: rest

/-- The body of a root element, which follows its opening brace, without the assignments of the
properties to remove. -/
def strip (body : Text) (remove : Text → Bool) : Text := stripFrom remove {} (lex body)

end Rehosting

/-- The root of a document as a visual item that fills its parent; none for a root that is no
container. -/
def Parts.rehosted? (parts : Parts) : Option Text :=
  (Container.ofKind? parts.rootKind).map fun container =>
    let body := Rehosting.strip (Text.dropBytes (parts.rootOpen + 1) parts.content) container.loses
    let trimmed := (body.dropWhile Rehosting.isIndent).dropWhile (· == '\n')
    ElementHead.qualifier parts.rootType ++ container.replacement ++
      " \x7b\n    anchors.fill: parent\n".toList ++ trimmed

end QmlPreview
