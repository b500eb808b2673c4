import QmlPreview.Wrap.Device
import QmlPreview.Wrap.Rehosting
import QmlPreview.Wrap.Window

/-!
The phone frame: a document inside the silhouette of a device.

Content without a window goes into an item that fills the screen. A document with a window root is
re-hosted: its root becomes a visual item that fills the screen.
-/

namespace QmlPreview

namespace Outline

def geometry (r : Rectangle) : Outline :=
  [numberProperty "x".toList r.x, numberProperty "y".toList r.y,
    numberProperty "width".toList r.width, numberProperty "height".toList r.height]

def color (value : String) : Item := .property "color".toList (quoted value.toList)

/-- Half of a number of pixels, with one decimal where it is odd. -/
def half (n : UInt32) : Text :=
  Text.ofNat (n.toNat / 2) ++ (if n.toNat % 2 = 1 then ".5".toList else [])

def statusBar (d : DeviceFrame) : Outline :=
  [.opening "Rectangle".toList, .property "id".toList "qmlviewStatusBar".toList] ++
    geometry d.statusBar ++
    [color "#000000",
      .opening "Text".toList,
      .property "anchors.centerIn".toList "parent".toList,
      .property "text".toList "Qt.formatTime(new Date(), \"hh:mm\")".toList,
      color "#ffffff",
      .property "font.pixelSize".toList "12".toList,
      .closing, .closing, .blank]

def homeIndicator (d : DeviceFrame) : Outline :=
  [.opening "Rectangle".toList, .property "id".toList "qmlviewHomeIndicator".toList] ++
    geometry d.homeIndicator ++
    [.property "radius".toList (half d.homeIndicator.height), color "#dddddd", .closing]

def deviceHead (doc : Document) (d : DeviceFrame) : Outline :=
  [.opening "Window".toList,
    .property "id".toList "qmlviewDevice".toList,
    sourceProperty doc.path,
    numberProperty "width".toList d.width,
    numberProperty "height".toList d.height,
    numberProperty "minimumWidth".toList d.width,
    numberProperty "minimumHeight".toList d.height,
    numberProperty "maximumWidth".toList d.width,
    numberProperty "maximumHeight".toList d.height,
    .property "visible".toList "true".toList,
    .property "title".toList (quoted (doc.displayName ++ " - phone".toList)),
    color "#202124",
    .blank,
    .opening "Rectangle".toList,
    .property "id".toList "qmlviewBezel".toList,
    .property "anchors.fill".toList "parent".toList,
    numberProperty "radius".toList d.cornerRadius,
    color "#111111",
    .blank] ++
    statusBar d ++
    [.opening "Item".toList, .property "id".toList "qmlviewScreen".toList] ++
    geometry d.screen ++
    [.property "clip".toList "true".toList, .blank]

def deviceTail (d : DeviceFrame) : Outline :=
  [.closing, .blank] ++ homeIndicator d ++ [.closing, .closing]

def device (doc : Document) (d : DeviceFrame) (parts : Parts) (shown : Outline) : Outline :=
  ofHeader parts requiredModules ++ deviceHead doc d ++ shown ++ deviceTail d

end Outline

/-- What the screen shows of a document: its content in a host, or its root re-hosted. -/
def shownContent (doc : Document) (alreadyHasRoot : Bool) (parts : Parts) : Except Error Outline :=
  if alreadyHasRoot then
    match parts.rehosted? with
    | some text => .ok [.block text]
    | none =>
      .error (.wrapFailed doc.path
        ("no visual replacement for root type ".toList ++ parts.rootType))
  else .ok (Outline.host parts.content)

/-- Places a document inside the phone; `alreadyHasRoot` says that its root is a container. -/
def frameInPhone (doc : Document) (alreadyHasRoot : Bool) : Except Error GeneratedDocument := do
  let parts ← doc.decompose
  let shown ← shownContent doc alreadyHasRoot parts
  return {
    text := (Outline.device doc .phone parts shown).render
    locator := .directory doc.directory
    kind := .frame
    source := doc.path }

end QmlPreview
