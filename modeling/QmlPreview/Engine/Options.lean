import QmlPreview.Document.Facts

/-!
How the runtime is launched for a document.
-/

namespace QmlPreview

inductive SceneBackend where
  | software
  | openVg
  | rhi
  | gtk
  deriving DecidableEq, Repr

namespace SceneBackend

def all : List SceneBackend := [software, openVg, rhi, gtk]

/-- The name of the backend, for the command line and for the runtime. -/
def name : SceneBackend → Text
  | software => "software".toList
  | openVg => "openvg".toList
  | rhi => "rhi".toList
  | gtk => "gtk".toList

def ofName? (name : Text) : Option SceneBackend := all.find? (fun b => b.name = name)

end SceneBackend

structure EngineOptions where
  /-- The executable. -/
  command : Text := "qml".toList
  /-- The Controls style, where the document selects one. -/
  style : Option Text := none
  /-- Start an application with widgets. -/
  widgetApp : Bool := false
  backend : Option SceneBackend := none
  /-- A runtime that fails within this many milliseconds did not load its document. -/
  settle : UInt64 := 400
  deriving DecidableEq, Repr

namespace EngineOptions

/-- The options with the settings that a document asks for. -/
def follow (o : EngineOptions) (facts : Facts) : EngineOptions :=
  { o with style := facts.style.map (·.name), widgetApp := facts.usesCharts }

end EngineOptions

end QmlPreview
