import QmlPreview.Document.Container
import QmlPreview.Document.Header
import QmlPreview.Mask
import QmlPreview.Text.Slice

/-!
Structural facts: what a document's text says about how to show it.

Scanning never fails. It looks at the masked text only, so commented-out imports and elements never
count.
-/

namespace QmlPreview

inductive ControlsStyle where
  | basic
  | fusion
  | imagine
  | material
  | universal
  | macOS
  | iOS
  | windows
  | fluentWinUI3
  deriving DecidableEq, Repr

namespace ControlsStyle

def all : List ControlsStyle :=
  [basic, fusion, imagine, material, universal, macOS, iOS, windows, fluentWinUI3]

/-- The name that the runtime knows the style by. -/
def name : ControlsStyle → Text
  | basic => "Basic".toList
  | fusion => "Fusion".toList
  | imagine => "Imagine".toList
  | material => "Material".toList
  | universal => "Universal".toList
  | macOS => "macOS".toList
  | iOS => "iOS".toList
  | windows => "Windows".toList
  | fluentWinUI3 => "FluentWinUI3".toList

/-- The module whose import selects the style. -/
def module (s : ControlsStyle) : Text := "QtQuick.Controls.".toList ++ s.name

def ofModule? (module : Text) : Option ControlsStyle := all.find? (fun s => s.module = module)

end ControlsStyle

/-- The module that needs an application with widgets. -/
def chartModule : Text := "QtCharts".toList

/-- What is known about a document without running it. -/
structure Facts where
  /-- The first element is a container. -/
  hasUsableRoot : Bool := false
  /-- The Controls style that an import selects. -/
  style : Option ControlsStyle := none
  /-- The chart module is imported. -/
  usesCharts : Bool := false
  /-- The type name of the first element, as written. -/
  rootType : Option Text := none
  deriving DecidableEq, Repr

namespace Facts

def styleOf (imports : List Import) : Option ControlsStyle :=
  (imports.filter (fun i => !i.isPath)).findSome? (fun i => ControlsStyle.ofModule? i.target)

def importsCharts (imports : List Import) : Bool :=
  imports.any (fun i => !i.isPath && i.target == chartModule)

def ofParts (imports : List Import) (rootType : Option Text) : Facts where
  hasUsableRoot := rootType.any (fun t => isContainer (ElementHead.unqualified t))
  style := styleOf imports
  usesCharts := importsCharts imports
  rootType := rootType

end Facts

/-- Derives the facts of a text. -/
def scan (t : Text) : Facts :=
  let masked := maskComments t
  let header := Header.ofMasked masked
  let head := ElementHead.parse? (Text.dropBytes header.contentStart masked)
  Facts.ofParts header.imports (head.map (·.typeName))

end QmlPreview
