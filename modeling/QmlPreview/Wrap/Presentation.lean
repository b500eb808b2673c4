import QmlPreview.Document.Facts
import QmlPreview.Wrap.Frame

/-!
Presenting a document: as it is, in a window, or in the phone.

A document that already has a usable root is shown as it is, unless the phone is asked for. A generated
document is scanned in turn; one without a usable root is an error of the wrapper.
-/

namespace QmlPreview

inductive Layout where
  /-- As they are, wrapped only where they have no usable root. -/
  | plain
  /-- Inside the phone. -/
  | phone
  deriving DecidableEq, Repr

inductive Loadable where
  | source (doc : Document)
  | generated (doc : GeneratedDocument)
  deriving DecidableEq, Repr

namespace Loadable

def text : Loadable → Text
  | source doc => doc.text
  | generated doc => doc.text

def locator : Loadable → Locator
  | source doc => doc.locator
  | generated doc => doc.locator

def isGenerated : Loadable → Bool
  | source _ => false
  | generated _ => true

/-- A generated document with a usable root; any other breaks the contract of the wrappers. -/
def ofGenerated (doc : Document) (g : GeneratedDocument) : Except Error Loadable :=
  if (scan g.text).hasUsableRoot then .ok (.generated g)
  else .error (.wrapFailed doc.path "generated document has no usable root".toList)

end Loadable

def Document.present (doc : Document) (facts : Facts) (layout : Layout) (size : WindowSize) :
    Except Error Loadable :=
  match layout with
  | .plain =>
    if facts.hasUsableRoot then .ok (.source doc)
    else wrapInWindow doc size >>= Loadable.ofGenerated doc
  | .phone => frameInPhone doc facts.hasUsableRoot >>= Loadable.ofGenerated doc

end QmlPreview
