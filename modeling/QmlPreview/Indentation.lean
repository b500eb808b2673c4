import QmlPreview.Lexer

/-!
Indenting a document without touching its string literals.

A line that begins inside a literal is content of the literal and stays as it is, to its last
character. Every other line gets the indentation in front, unless it is blank, and loses the blanks at
its end.
-/

namespace QmlPreview

/-- For each line of a lexed text, whether it begins inside a string literal. -/
def linesInLiteral (xs : List Lexeme) : List Bool :=
  false :: (xs.filter (·.char == '\n')).map (·.region.isLiteral)

def indentLine (indent : Text) (line : Text) (inLiteral : Bool) : Text :=
  if inLiteral then line
  else if (Text.trim line).isEmpty then Text.trimEnd line
  else indent ++ Text.trimEnd line

/-- The text with every line indented, literals excepted. -/
def reindent (t indent : Text) : Text :=
  ['\n'].intercalate (List.zipWith (indentLine indent) (Text.lines t) (linesInLiteral (lex t)))

end QmlPreview
