import QmlPreview.Document.ElementHead

/-!
Containers: the kinds of root element that can be loaded standalone.
-/

namespace QmlPreview

/-- The root kinds that open a window of their own. -/
inductive Container where
  | window
  | applicationWindow
  deriving DecidableEq, Repr

namespace Container

def typeName : Container → Text
  | window => "Window".toList
  | applicationWindow => "ApplicationWindow".toList

def ofKind? (kind : Text) : Option Container :=
  [window, applicationWindow].find? (fun c => c.typeName = kind)

theorem ofKind?_eq_some_iff {kind : Text} {c : Container} :
    ofKind? kind = some c ↔ kind = c.typeName := by
  constructor
  · intro h
    have := List.find?_some h
    simpa using (of_decide_eq_true this).symm
  · rintro rfl
    cases c <;> decide

end Container

def isContainer (kind : Text) : Bool := (Container.ofKind? kind).isSome

end QmlPreview
