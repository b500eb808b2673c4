/-!
The silhouette of a device: a bezel around a status bar, a screen and a home bar, one below the other.

All sizes are 32-bit words and all arithmetic is that of words, so a frame too small for its parts has
rectangles that wrap around.
-/

namespace QmlPreview

/-- A rectangle relative to the top left corner of the device, in pixels. -/
structure Rectangle where
  x : UInt32
  y : UInt32
  width : UInt32
  height : UInt32
  deriving DecidableEq, Repr

/-- The measures of a device, in pixels. -/
structure DeviceFrame where
  width : UInt32
  height : UInt32
  bezel : UInt32
  cornerRadius : UInt32
  statusBarHeight : UInt32
  homeBarHeight : UInt32
  indicatorWidth : UInt32
  indicatorHeight : UInt32
  deriving DecidableEq, Repr

namespace DeviceFrame

def phone : DeviceFrame where
  width := 380
  height := 780
  bezel := 16
  cornerRadius := 44
  statusBarHeight := 28
  homeBarHeight := 28
  indicatorWidth := 120
  indicatorHeight := 5

def statusBar (d : DeviceFrame) : Rectangle where
  x := d.bezel
  y := d.bezel
  width := d.width - 2 * d.bezel
  height := d.statusBarHeight

/-- What the bars leave for the content. -/
def screen (d : DeviceFrame) : Rectangle where
  x := d.bezel
  y := d.bezel + d.statusBarHeight
  width := d.width - 2 * d.bezel
  height := d.height - 2 * d.bezel - d.statusBarHeight - d.homeBarHeight

def homeBar (d : DeviceFrame) : Rectangle where
  x := d.bezel
  y := d.height - d.bezel - d.homeBarHeight
  width := d.width - 2 * d.bezel
  height := d.homeBarHeight

def homeIndicator (d : DeviceFrame) : Rectangle where
  x := d.homeBar.x + (d.homeBar.width - d.indicatorWidth) / 2
  y := d.homeBar.y + (d.homeBar.height - d.indicatorHeight) / 2
  width := d.indicatorWidth
  height := d.indicatorHeight

end DeviceFrame

end QmlPreview
