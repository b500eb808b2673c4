import QmlPreview.Text

/-!
TOML values, and the rules by which tables grow.

A table remembers how it was made, because that decides what may still be added to it: an inline table
is complete, a table with a header of its own is opened once, and a table made by a dotted key grows by
dotted keys only.
-/

namespace QmlPreview.Toml

/-- How a table came to be. -/
inductive TableForm where
  /-- Written between braces. -/
  | inline
  /-- Opened by its own header. -/
  | header
  /-- Needed by the header of a table inside it. -/
  | implied
  /-- Made by a dotted key. -/
  | dotted
  deriving DecidableEq, Repr

/-- A TOML value. Of floats and dates only the kind is kept. -/
inductive Value where
  | string (t : Text)
  | integer (n : Int)
  | float
  | boolean (b : Bool)
  | datetime
  | array (elements : List Value)
  | table (form : TableForm) (entries : List (Text × Value))
  /-- The elements opened by headers in double brackets. -/
  | tables (elements : List (List (Text × Value)))

abbrev Entries := List (Text × Value)

namespace Entries

/-- Sets the value of a key, at its place if it has one. -/
def put (key : Text) (value : Value) (es : Entries) : Entries :=
  if (es.lookup key).isSome then es.map (fun e => if e.1 = key then (key, value) else e)
  else es ++ [(key, value)]

def changeLast (f : Entries → Option Entries) : List Entries → Option (List Entries)
  | [] => none
  | [es] => (f es).map ([·])
  | es :: rest => (changeLast f rest).map (es :: ·)

/-- Adds a value under a key that may be preceded by a dotted path. Dotted keys make tables and add
to tables that dotted keys made; no key is set twice. -/
def insert (key : Text) (value : Value) : List Text → Entries → Option Entries
  | [], es => if (es.lookup key).isSome then none else some (es ++ [(key, value)])
  | part :: path, es =>
    match es.lookup part with
    | none => (insert key value path []).map (fun inner => es.put part (.table .dotted inner))
    | some (.table .dotted inner) =>
      (insert key value path inner).map (fun inner => es.put part (.table .dotted inner))
    | some (.table .implied inner) =>
      if path.isEmpty then none
      else (insert key value path inner).map (fun inner => es.put part (.table .implied inner))
    | some (.tables elements) =>
      if path.isEmpty then none
      else (changeLast (insert key value path) elements).map (fun ts => es.put part (.tables ts))
    | some _ => none

/-- Changes what stands under the first key of a header path: a table, the last element of an array of
tables, or a table that the header implies. -/
def descend (part : Text) (f : Entries → Option Entries) (es : Entries) : Option Entries :=
  match es.lookup part with
  | none => (f []).map (fun inner => es.put part (.table .implied inner))
  | some (.table .inline _) => none
  | some (.table form inner) => (f inner).map (fun inner => es.put part (.table form inner))
  | some (.tables elements) => (changeLast f elements).map (fun ts => es.put part (.tables ts))
  | some _ => none

/-- Opens the table of a header in single brackets. A table is opened once. -/
def openTable : List Text → Entries → Option Entries
  | [], _ => none
  | [key], es =>
    match es.lookup key with
    | none => some (es.put key (.table .header []))
    | some (.table .implied inner) => some (es.put key (.table .header inner))
    | some _ => none
  | part :: path, es => es.descend part (openTable path)

/-- Opens one more element of the array of a header in double brackets. -/
def openElement : List Text → Entries → Option Entries
  | [], _ => none
  | [key], es =>
    match es.lookup key with
    | none => some (es.put key (.tables [[]]))
    | some (.tables elements) => some (es.put key (.tables (elements ++ [[]])))
    | some _ => none
  | part :: path, es => es.descend part (openElement path)

def within (f : Entries → Option Entries) : List Text → Entries → Option Entries
  | [], es => f es
  | part :: path, es => es.descend part (within f path)

end Entries

end QmlPreview.Toml
