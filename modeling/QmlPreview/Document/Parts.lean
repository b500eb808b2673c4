import QmlPreview.Braces
import QmlPreview.Document.ElementHead
import QmlPreview.Document.Header
import QmlPreview.Mask
import QmlPreview.Text.Slice

/-!
Taking a document apart: its header, and the one element that is its content.

Header and content end are found in the masked text, where comments are blanks; the content itself is
cut from the document, comments included. A document is malformed when no element follows the header,
when braces do not balance, or when something other than comments follows the element.
-/

namespace QmlPreview

inductive Malformation where
  | noContent
  | notAnElement
  | unbalancedBraces
  | textAfterRoot
  deriving DecidableEq, Repr

def Malformation.message : Malformation → Text
  | noContent => "no element content".toList
  | notAnElement => "content does not start with an element".toList
  | unbalancedBraces => "unbalanced braces".toList
  | textAfterRoot => "text after the root element".toList

/-- A document taken apart. -/
structure Parts extends Header where
  /-- The root element, from its type name to its closing brace. -/
  content : Text
  /-- The type name of the root as written, with its qualifier. -/
  rootType : Text
  /-- The byte offset of the root's opening brace in the content. -/
  rootOpen : Nat
  deriving DecidableEq, Repr

namespace Parts

/-- The type of the root without its qualifier. -/
def rootKind (parts : Parts) : Text := ElementHead.unqualified parts.rootType

def importsUnqualified (parts : Parts) (module : Text) : Bool :=
  parts.imports.any (·.providesUnqualified module)

end Parts

def decompose (t : Text) : Except Malformation Parts :=
  let masked := maskComments t
  let header := Header.ofMasked masked
  let maskedContent := Text.trimEnd (Text.dropBytes header.contentStart masked)
  if maskedContent.isEmpty then .error .noContent
  else
    match ElementHead.parse? maskedContent with
    | none => .error .notAnElement
    | some head =>
      let stop := header.contentStart + Text.byteLength maskedContent
      let content := Text.slice header.contentStart stop t
      if !bracesBalanced content then .error .unbalancedBraces
      else if (rootClose content).any (fun close => close + 1 < Text.byteLength content) then
        .error .textAfterRoot
      else .ok { header with content, rootType := head.typeName, rootOpen := head.brace }

end QmlPreview
