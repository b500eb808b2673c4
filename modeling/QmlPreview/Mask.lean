import QmlPreview.Lexer

/-!
Masking the comments of a document: each of their characters becomes as many spaces as it has bytes.

The masked text has its newlines and all that is no comment at the offsets of the document, so an
offset found in it also cuts the document.
-/

namespace QmlPreview

def Lexeme.masked (x : Lexeme) : Text :=
  if x.region.isComment && x.char != '\n' then List.replicate x.char.utf8Size ' ' else [x.char]

/-- The text with its comments blanked out. -/
def maskComments (t : Text) : Text := (lex t).flatMap Lexeme.masked

end QmlPreview
