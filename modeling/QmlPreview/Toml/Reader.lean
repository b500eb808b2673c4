import QmlPreview.Toml.Scalar

/-!
Reading TOML documents.

A document is a sequence of headers and of keys with values. Reading gives the entries of its root
table, or nothing where the text is not TOML, or sets a key twice.
-/

namespace QmlPreview.Toml

def nestingLimit : Nat := 79

def keyLimit : Nat := 79

/-- Skips blanks, newlines and comments between the elements of an array. `inComment` says that the
text is inside a comment; a comment must end in a newline. -/
def skipBetween (inComment : Bool) : Text → Option Text
  | [] => if inComment then none else some []
  | '\n' :: r => skipBetween false r
  | '\r' :: '\n' :: r => skipBetween false r
  | c :: r =>
    if inComment then (if isPlain c then skipBetween true r else none)
    else if isSpace c then skipBetween false r
    else if c = '#' then skipBetween true r
    else some (c :: r)

def isBareKeyChar (c : Char) : Bool := c.isAlphanum || c == '_' || c == '-'

def keyPart? (t : Text) : Option (Text × Text) :=
  match t with
  | '"' :: r => basicString r
  | '\'' :: r => literalString r
  | _ =>
    let part := t.takeWhile isBareKeyChar
    if part.isEmpty then none else some (part, t.dropWhile isBareKeyChar)

/-- Reads a key: parts between dots, with blanks around each. At most `limit` parts are read. -/
def key? : (limit : Nat) → Text → Option (List Text × Text)
  | 0, _ => none
  | limit + 1, t => do
    let (part, t) ← keyPart? (t.dropWhile isSpace)
    match t.dropWhile isSpace with
    | '.' :: r =>
      let (parts, rest) ← key? limit r
      return (part :: parts, rest)
    | rest => return ([part], rest)

/-- Reads a key, an equals sign and a value. The parts of the key before its last are its path. -/
def pair? (value : Text → Option (Value × Text)) (t : Text) :
    Option (List Text × Text × Value × Text) := do
  let (parts, t) ← key? keyLimit t
  let name ← parts.getLast?
  let t ← mark '=' t
  let (v, rest) ← value (t.dropWhile isSpace)
  return (parts.dropLast, name, v, rest)

/-- Reads the elements of an array after its opening bracket, at most `limit` of them. -/
def elements? (value : Text → Option (Value × Text)) : (limit : Nat) → Text →
    Option (List Value × Text)
  | 0, _ => none
  | limit + 1, t => do
    match ← skipBetween false t with
    | ']' :: rest => return ([], rest)
    | t =>
      let (v, t) ← value t
      match ← skipBetween false t with
      | ',' :: t =>
        let (vs, rest) ← elements? value limit t
        return (v :: vs, rest)
      | ']' :: rest => return ([v], rest)
      | _ => none

/-- Reads the pairs of an inline table up to its closing brace, at most `limit` of them, and adds
them to the entries read so far. -/
def pairs? (value : Text → Option (Value × Text)) : (limit : Nat) → Entries → Text →
    Option (Entries × Text)
  | 0, _, _ => none
  | limit + 1, es, t => do
    let (path, name, v, t) ← pair? value t
    let es ← es.insert name v path
    match t.dropWhile isSpace with
    | ',' :: t => pairs? value limit es t
    | '}' :: rest => return (es, rest)
    | _ => none

/-- Reads a value; `nesting` is how many arrays and inline tables may still be opened. -/
def value? : (nesting : Nat) → Text → Option (Value × Text)
  | 0, t => scalar? t
  | nesting + 1, t =>
    match t with
    | '[' :: r =>
      (elements? (value? nesting) (r.length + 1) r).map (fun (vs, rest) => (.array vs, rest))
    | '{' :: r =>
      match r.dropWhile isSpace with
      | '}' :: rest => some (.table .inline [], rest)
      | _ =>
        (pairs? (value? nesting) (r.length + 1) [] r).map
          (fun (es, rest) => (.table .inline es, rest))
    | _ => scalar? t

inductive Line where
  /-- A header in single brackets. -/
  | table (path : List Text)
  /-- A header in double brackets. -/
  | element (path : List Text)
  | pair (path : List Text) (key : Text) (value : Value)

/-- The text after the end of a line, before which only blanks and a comment may stand. -/
def lineEnd? (t : Text) : Option Text :=
  let rest :=
    match t.dropWhile isSpace with
    | '#' :: r => r.dropWhile isPlain
    | r => r
  match rest with
  | [] => some []
  | '\n' :: r => some r
  | '\r' :: '\n' :: r => some r
  | _ => none

/-- Reads a line that is neither empty nor only a comment. -/
def line? (t : Text) : Option (Line × Text) := do
  match t with
  | '[' :: '[' :: r =>
    let (path, t) ← key? keyLimit r
    return (.element path, ← mark ']' (← mark ']' t))
  | '[' :: r =>
    let (path, t) ← key? keyLimit r
    return (.table path, ← mark ']' t)
  | _ =>
    let (path, key, v, rest) ← pair? (value? nestingLimit) t
    return (.pair path key v, rest)

def lines? : (limit : Nat) → Text → Option (List Line)
  | 0, _ => none
  | limit + 1, t =>
    match t.dropWhile isSpace with
    | [] => some []
    | t =>
      match lineEnd? t with
      | some rest => lines? limit rest
      | none => do
        let (line, t) ← line? t
        let rest ← lineEnd? t
        return line :: (← lines? limit rest)

/-- A document as far as it is read: the root table, and the path of the open header. -/
structure Draft where
  root : Entries := []
  current : List Text := []

namespace Draft

def add (d : Draft) : Line → Option Draft
  | .table path => (Entries.openTable path d.root).map (fun root => ⟨root, path⟩)
  | .element path => (Entries.openElement path d.root).map (fun root => ⟨root, path⟩)
  | .pair path key v =>
    (Entries.within (Entries.insert key v path) d.current d.root).map
      (fun root => { d with root := root })

end Draft

/-- Reads a document; a byte order mark may stand before it. -/
def parse? (t : Text) : Option Entries := do
  let t := if t.head? = some '\uFEFF' then t.tail else t
  let lines ← lines? (t.length + 1) t
  let draft ← lines.foldlM Draft.add {}
  return draft.root

end QmlPreview.Toml
