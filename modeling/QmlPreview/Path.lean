import QmlPreview.Text

/-!
Paths, as written.

A path is a text. Its components are what stands between slashes; empty components and inner `.`
components say nothing and are skipped. A path keeps its spelling: `parent?` and `join` cut and extend
the text, and two spellings of one path are compared by `components`.
-/

namespace QmlPreview

/-- A path, as written. -/
abbrev Path := Text

namespace Path

/-- Where a path starts: at the root, at an explicit `.`, or at a name. The lead is the part of the
text that says so. -/
def lead : Path → Text
  | '/' :: _ => ['/']
  | ['.'] => ['.']
  | '.' :: '/' :: _ => ['.']
  | _ => []

def body (p : Path) : Text := p.drop (lead p).length

/-- A component that says nothing. -/
def isSilent (s : Text) : Bool := s.isEmpty || s == ['.']

/-- The pieces of the body up to the last one that says something, in reverse order. -/
def backwards (p : Path) : List Text := ((body p).splitOn '/').reverse.dropWhile isSilent

/-- The last component, unless it is `..` or there is none. -/
def fileName? (p : Path) : Option Text :=
  match backwards p with
  | [] => none
  | name :: _ => if name = ['.', '.'] then none else some name

/-- The path without its last component. The root and the empty path have no parent. -/
def parent? (p : Path) : Option Path :=
  match backwards p with
  | [] => if lead p = ['.'] then some [] else none
  | _ :: rest => some (lead p ++ ['/'].intercalate (rest.dropWhile isSilent).reverse)

/-- The lead and the components that say something; two spellings of one path agree in them. -/
def components (p : Path) : Text × List Text :=
  (lead p, ((body p).splitOn '/').filter (fun s => !isSilent s))

def isAbsolute (p : Path) : Bool := p.head? == some '/'

def join (dir name : Path) : Path :=
  if isAbsolute name then name
  else if dir.isEmpty then name
  else if dir.getLast? = some '/' then dir ++ name
  else dir ++ '/' :: name

end Path

end QmlPreview
