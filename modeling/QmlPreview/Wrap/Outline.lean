import QmlPreview.Document.Parts
import QmlPreview.Indentation

/-!
Outlines: the lines and blocks of a generated document, indented when they are rendered.

An outline is a list of items. Opening an element indents what follows, closing it ends that; a block
is text of several lines, re-indented as a whole.
-/

namespace QmlPreview

inductive Outline.Item where
  | line (text : Text)
  | blank
  /-- The line `name: value`. -/
  | property (name value : Text)
  /-- The line `Type {`, after which items are one level deeper. -/
  | opening (typeName : Text)
  /-- The line `}`, one level less deep; at the outermost level it stays there. -/
  | closing
  | block (text : Text)
  deriving DecidableEq, Repr

/-- The items of a generated text, in order. -/
abbrev Outline := List Outline.Item

namespace Outline

/-- The indentation of items at the given depth: four spaces a level. -/
def indentation (depth : Nat) : Text := List.replicate (4 * depth) ' '

/-- One line at the given depth, with its newline. -/
def lineAt (depth : Nat) (text : Text) : Text := indentation depth ++ text ++ ['\n']

namespace Item

def render (depth : Nat) : Item → Text
  | line text => lineAt depth text
  | blank => ['\n']
  | property name value => lineAt depth (name ++ ": ".toList ++ value)
  | opening typeName => lineAt depth (typeName ++ " \x7b".toList)
  | closing => lineAt (depth - 1) ['}']
  | block text => reindent text (indentation depth) ++ ['\n']

def depthAfter (depth : Nat) : Item → Nat
  | opening _ => depth + 1
  | closing => depth - 1
  | line _ | blank | property _ _ | block _ => depth

end Item

/-- The text of each item of an outline that starts at the given depth. -/
def pieces (depth : Nat) : Outline → List Text
  | [] => []
  | item :: rest => item.render depth :: pieces (item.depthAfter depth) rest

def renderFrom (depth : Nat) (o : Outline) : Text := (pieces depth o).flatten

def render (o : Outline) : Text := renderFrom 0 o

/-- The items that repeat a header: pragmas, imports, the required modules that are not yet imported
without a qualifier, and an empty line. -/
def ofHeader (parts : Parts) (required : List Text) : Outline :=
  parts.pragmas.map .line ++ parts.imports.map (.line ·.raw) ++
    (required.filter (fun m => !parts.importsUnqualified m)).map
      (fun m => .line ("import ".toList ++ m)) ++ [.blank]

end Outline

end QmlPreview
