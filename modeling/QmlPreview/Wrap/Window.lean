import QmlPreview.Error
import QmlPreview.Wrap.Outline
import QmlPreview.Wrap.Quoted

/-!
The synthetic window: content that cannot be loaded standalone, inside an item that fills a window.
-/

namespace QmlPreview

structure WindowSize where
  width : UInt32 := 640
  height : UInt32 := 480
  deriving DecidableEq, Repr

def requiredModules : List Text := ["QtQuick".toList]

namespace Outline

/-- The property of a generated root that holds the path of the source. -/
def sourceProperty (path : Path) : Item :=
  .line ("property string filename: ".toList ++ quoted path)

def numberProperty (name : Text) (value : UInt32) : Item := .property name (Text.ofNat value.toNat)

def host (content : Text) : Outline :=
  [.opening "Item".toList, .property "id".toList "qmlviewHost".toList,
    .property "anchors.fill".toList "parent".toList, .blank, .block content, .closing]

def window (doc : Document) (size : WindowSize) (parts : Parts) : Outline :=
  ofHeader parts requiredModules ++
    [.opening "Window".toList,
      .property "id".toList "qmlviewWindow".toList,
      sourceProperty doc.path,
      numberProperty "width".toList size.width,
      numberProperty "height".toList size.height,
      .property "visible".toList "true".toList,
      .property "title".toList (quoted doc.displayName),
      .blank] ++
    host parts.content ++ [.closing]

end Outline

/-- Takes a document apart, or says which document could not be. -/
def Document.decompose (doc : Document) : Except Error Parts :=
  (QmlPreview.decompose doc.text).mapError (Error.malformed doc.path)

/-- Wraps the content of a document in a window, whether it needs one or not. -/
def wrapInWindow (doc : Document) (size : WindowSize) : Except Error GeneratedDocument := do
  let parts ← doc.decompose
  return {
    text := (Outline.window doc size parts).render
    locator := .directory doc.directory
    kind := .window
    source := doc.path }

end QmlPreview
