import QmlPreview.Text

/-!
Which region of a document each character lies in: code, a comment or a string literal.

Documents mix declarative structure with script expressions. All structural decisions are made on
code characters only, so a brace in a string or an import in a comment never counts. The lexer reads
one character at a time and looks at most one character ahead.
-/

namespace QmlPreview

/-- The lexical region of a character. A delimiter belongs to the region that it delimits. -/
inductive Region where
  | code
  | lineComment
  | blockComment
  /-- A string literal, opened by `quote`. -/
  | literal (quote : Char)
  deriving DecidableEq, Repr

namespace Region

def isComment : Region → Bool
  | lineComment | blockComment => true
  | code | literal _ => false

def isLiteral : Region → Bool
  | literal _ => true
  | code | lineComment | blockComment => false

end Region

structure Lexeme where
  char : Char
  region : Region
  deriving DecidableEq, Repr

namespace Lexeme

/-- The lexeme is the character `c`, met in code. -/
def isCode (x : Lexeme) (c : Char) : Bool := x.region == .code && x.char == c

/-- A newline, unless it lies inside a string literal. -/
def endsLine (x : Lexeme) : Bool := x.char == '\n' && !x.region.isLiteral

end Lexeme

namespace Lexer

structure State where
  /-- The region that the next character continues. -/
  region : Region := .code
  /-- The region of the next character where it is the second one of `//`, `/*`, `*/` or an escape. -/
  pending : Option Region := none
  deriving DecidableEq, Repr

/-- A string literal opens with a double quote, a single quote or a backtick. -/
def isQuote (c : Char) : Bool := c == '"' || c == '\'' || c == '`'

/-- The region of `c` and the state after it; `next` is the character that follows `c`.

A comment opens with two characters and a block comment closes with two, so the first of them decides
and leaves the second one pending. A literal in double or single quotes that its line does not close
ends before the newline. -/
def step (s : State) (c : Char) (next : Option Char) : Region × State :=
  match s.pending with
  | some r => (r, { s with pending := none })
  | none =>
    match s.region with
    | .code =>
      if c = '/' ∧ next = some '/' then (.lineComment, ⟨.lineComment, some .lineComment⟩)
      else if c = '/' ∧ next = some '*' then (.blockComment, ⟨.blockComment, some .blockComment⟩)
      else if isQuote c then (.literal c, ⟨.literal c, none⟩)
      else (.code, s)
    | .lineComment => if c = '\n' then (.code, ⟨.code, none⟩) else (.lineComment, s)
    | .blockComment =>
      if c = '*' ∧ next = some '/' then (.blockComment, ⟨.code, some .blockComment⟩)
      else (.blockComment, s)
    | .literal quote =>
      if c = '\\' then (.literal quote, ⟨.literal quote, some (.literal quote)⟩)
      else if c = quote then (.literal quote, ⟨.code, none⟩)
      else if c = '\n' ∧ quote ≠ '`' then (.code, ⟨.code, none⟩)
      else (.literal quote, s)

/-- Every character of a text with its region, the lexer starting in state `s`. -/
def lexFrom : State → Text → List Lexeme
  | _, [] => []
  | s, c :: t => ⟨c, (step s c t.head?).1⟩ :: lexFrom (step s c t.head?).2 t

def stateAfter : State → Text → State
  | s, [] => s
  | s, c :: t => stateAfter (step s c t.head?).2 t

/-- Lexing neither drops nor changes a character. -/
@[simp] theorem map_char_lexFrom (s : State) (t : Text) : (lexFrom s t).map (·.char) = t := by
  induction t generalizing s with
  | nil => rfl
  | cons c t ih => simp [lexFrom, ih]

end Lexer

def lex (t : Text) : List Lexeme := Lexer.lexFrom {} t

/-- A stretch of neighbouring characters in the same region, and the byte offset where it starts. -/
structure Stretch where
  offset : Nat
  region : Region
  text : Text
  deriving DecidableEq, Repr

/-- The stretches of a lexed text, the first of which starts at the given offset. Two literals with
the same quote that touch form one stretch. -/
def Stretch.ofLexemes (offset : Nat) : List Lexeme → List Stretch
  | [] => []
  | x :: xs =>
    match ofLexemes (offset + x.char.utf8Size) xs with
    | [] => [⟨offset, x.region, [x.char]⟩]
    | s :: rest =>
      if s.region = x.region then ⟨offset, x.region, x.char :: s.text⟩ :: rest
      else ⟨offset, x.region, [x.char]⟩ :: s :: rest

end QmlPreview
