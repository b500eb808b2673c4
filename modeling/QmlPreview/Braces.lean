import QmlPreview.Lexer

/-!
Counting braces. Only braces in code count: a brace in a comment or a string literal opens nothing.
-/

namespace QmlPreview

/-- Braces balance from depth `depth` on: none closes more than was opened, and none stays open. -/
def Lexeme.balancedFrom : (depth : Nat) → List Lexeme → Bool
  | depth, [] => depth == 0
  | depth, x :: xs =>
    if x.isCode '{' then balancedFrom (depth + 1) xs
    else if x.isCode '}' then
      match depth with
      | 0 => false
      | depth + 1 => balancedFrom depth xs
    else balancedFrom depth xs

def bracesBalanced (t : Text) : Bool := Lexeme.balancedFrom 0 (lex t)

/-- The offset of the first closing brace that brings the depth to zero, where the lexemes start at
byte offset `offset` and at brace depth `depth`. The depth has no bound; only a text with 2^32 braces
open at once tells it from a count in words of 32 bits. -/
def Lexeme.firstReturn : (depth offset : Nat) → List Lexeme → Option Nat
  | _, _, [] => none
  | depth, offset, x :: xs =>
    if x.isCode '{' then firstReturn (depth + 1) (offset + x.char.utf8Size) xs
    else if x.isCode '}' then
      if depth ≤ 1 then some offset else firstReturn (depth - 1) (offset + x.char.utf8Size) xs
    else firstReturn depth (offset + x.char.utf8Size) xs

/-- The byte offset of the brace that closes the first element of the text. -/
def rootClose (t : Text) : Option Nat := Lexeme.firstReturn 0 0 (lex t)

end QmlPreview
