import QmlPreview.Toml.Value

/-!
TOML values without parts: strings, numbers, booleans and dates.

Each reader takes the text from where a value starts, and gives the value and the text after it, or
nothing where the text is no such value.
-/

namespace QmlPreview.Toml

/-- Puts a character in front of a string that is read after it. -/
def prepend (c : Char) : Option (Text × Text) → Option (Text × Text) :=
  Option.map (fun (s, rest) => (c :: s, rest))

def isSpace (c : Char) : Bool := c == ' ' || c == '\t'

/-- The characters of comments: all but control characters, of which only the tab is one. -/
def isPlain (c : Char) : Bool := c == '\t' || (' ' ≤ c && c != '\x7f')

def isHexDigit (c : Char) : Bool := c.isDigit || ('a' ≤ c && c ≤ 'f') || ('A' ≤ c && c ≤ 'F')

def digitValue (c : Char) : Nat :=
  if c.isDigit then c.toNat - '0'.toNat
  else if 'a' ≤ c then c.toNat - 'a'.toNat + 10
  else c.toNat - 'A'.toNat + 10

def number (base : Nat) (digits : Text) : Nat := digits.foldl (fun n c => base * n + digitValue c) 0

/-! ## Strings -/

def escape? : Char → Option Char
  | 'b' => some '\x08'
  | 't' => some '\t'
  | 'n' => some '\n'
  | 'f' => some '\x0c'
  | 'r' => some '\r'
  | '"' => some '"'
  | '\\' => some '\\'
  | _ => none

/-- The character with the given hexadecimal code point; surrogates are none. -/
def codePoint? (digits : Text) : Option Char :=
  let n := number 16 digits
  if digits.all isHexDigit && (n < 0xD800 || (0xDFFF < n && n < 0x110000)) then some (Char.ofNat n)
  else none

def basicString : Text → Option (Text × Text)
  | [] => none
  | '"' :: r => some ([], r)
  | '\\' :: 'u' :: a :: b :: c :: d :: r =>
    (codePoint? [a, b, c, d]).bind (fun x => prepend x (basicString r))
  | '\\' :: 'U' :: a :: b :: c :: d :: e :: f :: g :: h :: r =>
    (codePoint? [a, b, c, d, e, f, g, h]).bind (fun x => prepend x (basicString r))
  | '\\' :: c :: r => (escape? c).bind (fun x => prepend x (basicString r))
  | c :: r => if isPlain c && c != '\\' then prepend c (basicString r) else none

/-- The text after a backslash at the end of a line: blanks, then a newline. -/
def continuesLine (t : Text) : Bool :=
  match t.dropWhile isSpace with
  | '\n' :: _ => true
  | '\r' :: '\n' :: _ => true
  | _ => false

/-- Reads a basic string of several lines after its opening quotes. `skipping` says that a backslash
at the end of a line takes the blanks and newlines that follow. Up to two quotes may stand before the
closing ones. -/
def basicLines (skipping : Bool) : Text → Option (Text × Text)
  | [] => none
  | '"' :: '"' :: '"' :: '"' :: '"' :: r => some (['"', '"'], r)
  | '"' :: '"' :: '"' :: '"' :: r => some (['"'], r)
  | '"' :: '"' :: '"' :: r => some ([], r)
  | '\r' :: '\n' :: r =>
    if skipping then basicLines true r else prepend '\n' (basicLines false r)
  | '\n' :: r => if skipping then basicLines true r else prepend '\n' (basicLines false r)
  | '\\' :: 'u' :: a :: b :: c :: d :: r =>
    (codePoint? [a, b, c, d]).bind (fun x => prepend x (basicLines false r))
  | '\\' :: 'U' :: a :: b :: c :: d :: e :: f :: g :: h :: r =>
    (codePoint? [a, b, c, d, e, f, g, h]).bind (fun x => prepend x (basicLines false r))
  | '\\' :: c :: r =>
    match escape? c with
    | some x => prepend x (basicLines false r)
    | none => if continuesLine (c :: r) then basicLines true r else none
  | c :: r =>
    if skipping && isSpace c then basicLines true r
    else if isPlain c && c != '\\' then prepend c (basicLines false r)
    else none

def literalString : Text → Option (Text × Text)
  | [] => none
  | '\'' :: r => some ([], r)
  | c :: r => if isPlain c then prepend c (literalString r) else none

def literalLines : Text → Option (Text × Text)
  | [] => none
  | '\'' :: '\'' :: '\'' :: '\'' :: '\'' :: r => some (['\'', '\''], r)
  | '\'' :: '\'' :: '\'' :: '\'' :: r => some (['\''], r)
  | '\'' :: '\'' :: '\'' :: r => some ([], r)
  | '\r' :: '\n' :: r => prepend '\n' (literalLines r)
  | '\n' :: r => prepend '\n' (literalLines r)
  | c :: r => if isPlain c then prepend c (literalLines r) else none

def afterNewline : Text → Text
  | '\n' :: r => r
  | '\r' :: '\n' :: r => r
  | t => t

def string? : Text → Option (Text × Text)
  | '"' :: '"' :: '"' :: r => basicLines false (afterNewline r)
  | '"' :: r => basicString r
  | '\'' :: '\'' :: '\'' :: r => literalLines (afterNewline r)
  | '\'' :: r => literalString r
  | _ => none

/-! ## Numbers -/

/-- The digits that a text starts with, and the rest. An underscore may stand between two digits;
`afterDigit` says that a digit stands before the text. -/
def digitRun (isDigit : Char → Bool) (afterDigit : Bool) : Text → Text × Text
  | [] => ([], [])
  | c :: r =>
    if isDigit c then
      let (digits, rest) := digitRun isDigit true r
      (c :: digits, rest)
    else if c == '_' && afterDigit && r.head?.any isDigit then digitRun isDigit false r
    else ([], c :: r)

/-- At least one digit, and the rest. -/
def digits? (isDigit : Char → Bool) (t : Text) : Option (Text × Text) :=
  let (digits, rest) := digitRun isDigit false t
  if digits.isEmpty then none else some (digits, rest)

/-- The digits of a decimal integer, which has no zero in front. -/
def decimal? : Text → Option (Text × Text)
  | '0' :: r => some (['0'], r)
  | t => digits? Char.isDigit t

/-- An integer is a signed word of sixty-four bits. -/
def integer? (n : Int) : Option Value :=
  if Int64.minValue.toInt ≤ n && n ≤ Int64.maxValue.toInt then some (.integer n) else none

def basedInteger (base : Nat) (isDigit : Char → Bool) (t : Text) : Option (Value × Text) := do
  let (digits, rest) ← digits? isDigit t
  return (← integer? (number base digits), rest)

/-- The number `digits · 10 ^ exponent` rounds to a double below infinity. Between `2 ^ 1024` and
the greatest double, the half way point rounds up. -/
def isFinite (digits : Text) (exponent : Int) : Bool :=
  let n := number 10 digits
  let magnitude : Int := (Nat.toDigits 10 n).length + exponent
  if n = 0 then true
  else if magnitude < 300 then true
  else if magnitude > 320 then false
  else
    let bound := Nat.pow 2 1024 - Nat.pow 2 970
    if 0 ≤ exponent then n * Nat.pow 10 exponent.toNat < bound
    else n < bound * Nat.pow 10 (-exponent).toNat

def exponent? (t : Text) : Option (Int × Text) :=
  match t with
  | '-' :: r => (digits? Char.isDigit r).map (fun (ds, rest) => (-(number 10 ds : Int), rest))
  | '+' :: r => (digits? Char.isDigit r).map (fun (ds, rest) => ((number 10 ds : Int), rest))
  | r => (digits? Char.isDigit r).map (fun (ds, rest) => ((number 10 ds : Int), rest))

/-- A float; a positive one must be finite. -/
def float? (negative : Bool) (digits : Text) (exponent : Int) (rest : Text) :
    Option (Value × Text) :=
  if negative || isFinite digits exponent then some (.float, rest) else none

/-- Reads a decimal integer or a float after its sign. -/
def unsigned (negative : Bool) (t : Text) : Option (Value × Text) := do
  let (whole, rest) ← decimal? t
  match rest with
  | '.' :: r =>
    let (fraction, rest) ← digits? Char.isDigit r
    let digits := whole ++ fraction
    let places : Int := fraction.length
    match rest with
    | 'e' :: r | 'E' :: r =>
      let (exponent, rest) ← exponent? r
      float? negative digits (exponent - places) rest
    | _ => float? negative digits (-places) rest
  | 'e' :: r | 'E' :: r =>
    let (exponent, rest) ← exponent? r
    float? negative whole exponent rest
  | _ =>
    let n : Int := number 10 whole
    return (← integer? (if negative then -n else n), rest)

def signed (negative : Bool) (t : Text) : Option (Value × Text) :=
  match t with
  | 'i' :: 'n' :: 'f' :: r => some (.float, r)
  | 'n' :: 'a' :: 'n' :: r => some (.float, r)
  | _ => unsigned negative t

def number? : Text → Option (Value × Text)
  | '0' :: 'x' :: r => basedInteger 16 isHexDigit r
  | '0' :: 'o' :: r => basedInteger 8 (fun c => '0' ≤ c && c ≤ '7') r
  | '0' :: 'b' :: r => basedInteger 2 (fun c => c == '0' || c == '1') r
  | '+' :: r => signed false r
  | '-' :: r => signed true r
  | t => signed false t

/-! ## Dates and times -/

/-- Reads exactly `count` digits as a number between two bounds. -/
def field (count low high : Nat) (t : Text) : Option (Nat × Text) :=
  let digits := t.take count
  let n := number 10 digits
  if digits.length == count && digits.all Char.isDigit && low ≤ n && n ≤ high then
    some (n, t.drop count)
  else none

def mark (c : Char) : Text → Option Text
  | d :: r => if c = d then some r else none
  | [] => none

def isLeapYear (year : Nat) : Bool := year % 4 == 0 && (year % 100 != 0 || year % 400 == 0)

def daysOfMonth (year month : Nat) : Nat :=
  if month = 2 then (if isLeapYear year then 29 else 28)
  else if month ∈ [4, 6, 9, 11] then 30
  else 31

def date (t : Text) : Option Text := do
  let (year, t) ← field 4 0 9999 t
  let t ← mark '-' t
  let (month, t) ← field 2 1 12 t
  let t ← mark '-' t
  let (_, t) ← field 2 1 (daysOfMonth year month) t
  return t

/-- Reads a time of day, with a fraction of the second where there is one. -/
def timeOfDay (t : Text) : Option Text := do
  let (_, t) ← field 2 0 23 t
  let t ← mark ':' t
  let (_, t) ← field 2 0 59 t
  let t ← mark ':' t
  let (_, t) ← field 2 0 60 t
  match t with
  | '.' :: r => if r.head?.any Char.isDigit then return r.dropWhile Char.isDigit else none
  | _ => return t

/-- Skips the offset from universal time, where there is one. -/
def offset : Text → Option Text
  | 'Z' :: r => some r
  | 'z' :: r => some r
  | '+' :: r => hours r
  | '-' :: r => hours r
  | t => some t
where
  hours (t : Text) : Option Text := do
    let (_, t) ← field 2 0 23 t
    let t ← mark ':' t
    let (_, t) ← field 2 0 59 t
    return t

/-- A date starts with four digits and a dash. -/
def looksLikeDate (t : Text) : Bool :=
  (t.take 4).length == 4 && (t.take 4).all Char.isDigit && (t.drop 4).head? == some '-'

/-- A time starts with two digits and a colon. -/
def looksLikeTime (t : Text) : Bool :=
  (t.take 2).length == 2 && (t.take 2).all Char.isDigit && (t.drop 2).head? == some ':'

/-- Reads a date, with a time behind it where there is one, or a time. -/
def datetime? (t : Text) : Option (Value × Text) :=
  if looksLikeTime t then (timeOfDay t).map (fun rest => (.datetime, rest))
  else do
    let t ← date t
    match t with
    | 'T' :: r | 't' :: r => return (.datetime, ← offset (← timeOfDay r))
    | ' ' :: r =>
      if looksLikeTime r then return (.datetime, ← offset (← timeOfDay r))
      else return (.datetime, t)
    | _ => return (.datetime, t)

/-! ## All of them -/

/-- Reads a value without parts. -/
def scalar? (t : Text) : Option (Value × Text) :=
  match t with
  | '"' :: _ | '\'' :: _ => (string? t).map (fun (s, rest) => (.string s, rest))
  | 't' :: 'r' :: 'u' :: 'e' :: r => some (.boolean true, r)
  | 'f' :: 'a' :: 'l' :: 's' :: 'e' :: r => some (.boolean false, r)
  | _ => if looksLikeDate t || looksLikeTime t then datetime? t else number? t

end QmlPreview.Toml
