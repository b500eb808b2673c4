import QmlPreview.Wrap.Device

/-! The geometry of a device, in whole numbers. The functions here compute the rectangles of a device
and refuse a result that is no word. Nothing is refused exactly if the parts of the device have room in
it; then the bars and the screen fill the inside of its bezel, and the pill is in the middle of the home
bar. -/

namespace QmlPreview

def exactSum? (a b : UInt32) : Option UInt32 :=
  if a.toNat + b.toNat < UInt32.size then some (a + b) else none

def exactDouble? (a : UInt32) : Option UInt32 :=
  if 2 * a.toNat < UInt32.size then some (2 * a) else none

def exactDifference? (a b : UInt32) : Option UInt32 :=
  if b.toNat ≤ a.toNat then some (a - b) else none

section
variable {a b c : UInt32}

theorem exactSum?_eq_some_iff : exactSum? a b = some c ↔ c.toNat = a.toNat + b.toNat := by
  rw [exactSum?, Option.ite_none_right_eq_some, Option.some_inj]
  constructor
  · rintro ⟨small, rfl⟩
    exact Nat.mod_eq_of_lt small
  · intro sum
    have small : a.toNat + b.toNat < UInt32.size := sum ▸ c.toNat_lt
    exact ⟨small, UInt32.toNat_inj.mp ((Nat.mod_eq_of_lt small).trans sum.symm)⟩

theorem exactDouble?_eq_some_iff : exactDouble? a = some c ↔ c.toNat = 2 * a.toNat := by
  rw [exactDouble?, Option.ite_none_right_eq_some, Option.some_inj]
  constructor
  · rintro ⟨small, rfl⟩
    exact Nat.mod_eq_of_lt small
  · intro double
    have small : 2 * a.toNat < UInt32.size := double ▸ c.toNat_lt
    exact ⟨small, UInt32.toNat_inj.mp ((Nat.mod_eq_of_lt small).trans double.symm)⟩

theorem exactDifference?_eq_some_iff :
    exactDifference? a b = some c ↔ c.toNat + b.toNat = a.toNat := by
  rw [exactDifference?, Option.ite_none_right_eq_some, Option.some_inj]
  have exact (small : b.toNat ≤ a.toNat) : (a - b).toNat = a.toNat - b.toNat :=
    UInt32.toNat_sub_of_le a b (UInt32.le_iff_toNat_le.mpr small)
  constructor
  · rintro ⟨small, rfl⟩
    rw [exact small, Nat.sub_add_cancel small]
  · intro difference
    have small : b.toNat ≤ a.toNat := difference ▸ Nat.le_add_left ..
    refine ⟨small, UInt32.toNat_inj.mp ?_⟩
    rw [exact small, ← difference, Nat.add_sub_cancel]

end

namespace Rectangle

def left (r : Rectangle) : Nat := r.x.toNat
def top (r : Rectangle) : Nat := r.y.toNat
def right (r : Rectangle) : Nat := r.left + r.width.toNat
def bottom (r : Rectangle) : Nat := r.top + r.height.toNat

/-- The rectangle lies in another, as far from the left of it as from the right and as far from the top
as from the bottom, up to one pixel. -/
structure IsCenteredIn (inner outer : Rectangle) : Prop where
  left : outer.left ≤ inner.left
  right : inner.right ≤ outer.right
  top : outer.top ≤ inner.top
  bottom : inner.bottom ≤ outer.bottom
  across : ((inner.left - outer.left : Int) - (outer.right - inner.right)).natAbs ≤ 1
  down : ((inner.top - outer.top : Int) - (outer.bottom - inner.bottom)).natAbs ≤ 1

end Rectangle

namespace DeviceFrame

variable (d : DeviceFrame)

def statusBar? : Option Rectangle := do
  let frame ← exactDouble? d.bezel
  let width ← exactDifference? d.width frame
  return ⟨d.bezel, d.bezel, width, d.statusBarHeight⟩

def screen? : Option Rectangle := do
  let y ← exactSum? d.bezel d.statusBarHeight
  let frame ← exactDouble? d.bezel
  let width ← exactDifference? d.width frame
  let inside ← exactDifference? d.height frame
  let below ← exactDifference? inside d.statusBarHeight
  let height ← exactDifference? below d.homeBarHeight
  return ⟨d.bezel, y, width, height⟩

def homeBar? : Option Rectangle := do
  let bottom ← exactDifference? d.height d.bezel
  let y ← exactDifference? bottom d.homeBarHeight
  let frame ← exactDouble? d.bezel
  let width ← exactDifference? d.width frame
  return ⟨d.bezel, y, width, d.homeBarHeight⟩

def homeIndicator? : Option Rectangle := do
  let bar ← d.homeBar?
  let across ← exactDifference? bar.width d.indicatorWidth
  let x ← exactSum? bar.x (across / 2)
  let down ← exactDifference? bar.height d.indicatorHeight
  let y ← exactSum? bar.y (down / 2)
  return ⟨x, y, d.indicatorWidth, d.indicatorHeight⟩

structure Fits : Prop where
  across : 2 * d.bezel.toNat ≤ d.width.toNat
  down : 2 * d.bezel.toNat + d.statusBarHeight.toNat + d.homeBarHeight.toNat ≤ d.height.toNat
  indicatorAcross : d.indicatorWidth.toNat ≤ d.width.toNat - 2 * d.bezel.toNat
  indicatorDown : d.indicatorHeight.toNat ≤ d.homeBarHeight.toNat

/-- Nothing is refused on the way to the rectangles, and they are those of the device. -/
structure IsExact : Prop where
  statusBar : d.statusBar? = some d.statusBar
  screen : d.screen? = some d.screen
  homeBar : d.homeBar? = some d.homeBar
  homeIndicator : d.homeIndicator? = some d.homeIndicator

/-- The bars and the screen lie one below the other and fill the inside of the bezel. -/
structure IsTiled : Prop where
  left : ∀ r ∈ [d.statusBar, d.screen, d.homeBar], r.left = d.bezel.toNat
  right : ∀ r ∈ [d.statusBar, d.screen, d.homeBar], r.right + d.bezel.toNat = d.width.toNat
  top : d.statusBar.top = d.bezel.toNat
  screen : d.statusBar.bottom = d.screen.top
  homeBar : d.screen.bottom = d.homeBar.top
  bottom : d.homeBar.bottom + d.bezel.toNat = d.height.toNat

variable {d} {r : Rectangle}

theorem measures_of_statusBar? (h : d.statusBar? = some r) :
    r.left = d.bezel.toNat ∧ r.right + d.bezel.toNat = d.width.toNat ∧
      r.top = d.bezel.toNat ∧ r.bottom = d.bezel.toNat + d.statusBarHeight.toNat := by
  simp only [statusBar?, Option.bind_eq_bind, Option.bind_eq_some_iff, exactDouble?_eq_some_iff,
    exactDifference?_eq_some_iff, Option.pure_def, Option.some_inj] at h
  obtain ⟨frame, double, width, across, rfl⟩ := h
  refine ⟨rfl, ?_, rfl, rfl⟩
  simp only [Rectangle.left, Rectangle.right]
  omega

theorem measures_of_screen? (h : d.screen? = some r) :
    r.left = d.bezel.toNat ∧ r.right + d.bezel.toNat = d.width.toNat ∧
      r.top = d.bezel.toNat + d.statusBarHeight.toNat ∧
      r.bottom + d.homeBarHeight.toNat + d.bezel.toNat = d.height.toNat := by
  simp only [screen?, Option.bind_eq_bind, Option.bind_eq_some_iff, exactSum?_eq_some_iff,
    exactDouble?_eq_some_iff, exactDifference?_eq_some_iff, Option.pure_def, Option.some_inj] at h
  obtain ⟨y, sum, frame, double, width, across, inside, down, below, down', height, down'', rfl⟩ := h
  refine ⟨rfl, ?_, sum, ?_⟩
  · simp only [Rectangle.left, Rectangle.right]
    omega
  · simp only [Rectangle.top, Rectangle.bottom]
    omega

theorem measures_of_homeBar? (h : d.homeBar? = some r) :
    r.left = d.bezel.toNat ∧ r.right + d.bezel.toNat = d.width.toNat ∧
      r.bottom + d.bezel.toNat = d.height.toNat ∧ r.height = d.homeBarHeight := by
  simp only [homeBar?, Option.bind_eq_bind, Option.bind_eq_some_iff, exactDouble?_eq_some_iff,
    exactDifference?_eq_some_iff, Option.pure_def, Option.some_inj] at h
  obtain ⟨bottom, down, y, down', frame, double, width, across, rfl⟩ := h
  refine ⟨rfl, ?_, ?_, rfl⟩
  · simp only [Rectangle.left, Rectangle.right]
    omega
  · simp only [Rectangle.top, Rectangle.bottom]
    omega

theorem measures_of_homeIndicator? (h : d.homeIndicator? = some r) :
    ∃ bar, d.homeBar? = some bar ∧
      d.indicatorWidth.toNat ≤ bar.width.toNat ∧ d.indicatorHeight.toNat ≤ bar.height.toNat ∧
      r.IsCenteredIn bar := by
  simp only [homeIndicator?, Option.bind_eq_bind, Option.bind_eq_some_iff, exactSum?_eq_some_iff,
    exactDifference?_eq_some_iff, Option.pure_def, Option.some_inj, UInt32.toNat_div] at h
  obtain ⟨bar, home, width, across, x, sum, height, down, y, sum', rfl⟩ := h
  have two : (2 : UInt32).toNat = 2 := rfl
  rw [two] at sum sum'
  refine ⟨bar, home, by omega, by omega, ?_⟩
  constructor <;>
    simp only [Rectangle.left, Rectangle.right, Rectangle.top, Rectangle.bottom] <;> omega

section
variable (fits : d.Fits)
include fits

theorem Fits.frame : exactDouble? d.bezel = some (2 * d.bezel) :=
  if_pos (Nat.lt_of_le_of_lt fits.across d.width.toNat_lt)

theorem Fits.innerWidth :
    exactDifference? d.width (2 * d.bezel) = some (d.width - 2 * d.bezel) := by
  refine if_pos ?_
  rw [exactDouble?_eq_some_iff.mp fits.frame]
  exact fits.across

theorem Fits.statusBar : d.statusBar? = some d.statusBar := by
  rw [statusBar?, fits.frame]
  simp only [Option.bind_eq_bind, Option.bind_some, fits.innerWidth]
  rfl

theorem Fits.screen : d.screen? = some d.screen := by
  have down := fits.down
  have height := d.height.toNat_lt
  have frame := exactDouble?_eq_some_iff.mp fits.frame
  have y : exactSum? d.bezel d.statusBarHeight = some (d.bezel + d.statusBarHeight) :=
    if_pos (Nat.lt_of_le_of_lt (by omega) height)
  have inside : exactDifference? d.height (2 * d.bezel) = some (d.height - 2 * d.bezel) :=
    if_pos (by omega)
  have inside' := exactDifference?_eq_some_iff.mp inside
  have below : exactDifference? (d.height - 2 * d.bezel) d.statusBarHeight =
      some (d.height - 2 * d.bezel - d.statusBarHeight) :=
    if_pos (by omega)
  have below' := exactDifference?_eq_some_iff.mp below
  have rest : exactDifference? (d.height - 2 * d.bezel - d.statusBarHeight) d.homeBarHeight =
      some (d.height - 2 * d.bezel - d.statusBarHeight - d.homeBarHeight) :=
    if_pos (by omega)
  rw [screen?, fits.frame]
  simp only [Option.bind_eq_bind, Option.bind_some, y, fits.innerWidth, inside, below, rest]
  rfl

theorem Fits.homeBar : d.homeBar? = some d.homeBar := by
  have down := fits.down
  have bottom : exactDifference? d.height d.bezel = some (d.height - d.bezel) := if_pos (by omega)
  have bottom' := exactDifference?_eq_some_iff.mp bottom
  have y : exactDifference? (d.height - d.bezel) d.homeBarHeight =
      some (d.height - d.bezel - d.homeBarHeight) :=
    if_pos (by omega)
  rw [homeBar?, fits.frame]
  simp only [Option.bind_eq_bind, Option.bind_some, bottom, y, fits.innerWidth]
  rfl

theorem Fits.homeIndicator : d.homeIndicator? = some d.homeIndicator := by
  have wide := d.width.toNat_lt
  have high := d.height.toNat_lt
  have indicatorAcross := fits.indicatorAcross
  obtain ⟨left, right, bottom, same⟩ := measures_of_homeBar? fits.homeBar
  simp only [Rectangle.right, Rectangle.left] at left right
  simp only [Rectangle.bottom, Rectangle.top, same] at bottom
  have two : (2 : UInt32).toNat = 2 := rfl
  have across : exactDifference? d.homeBar.width d.indicatorWidth =
      some (d.homeBar.width - d.indicatorWidth) :=
    if_pos (by omega)
  have across' := exactDifference?_eq_some_iff.mp across
  have x : exactSum? d.homeBar.x ((d.homeBar.width - d.indicatorWidth) / 2) =
      some (d.homeBar.x + (d.homeBar.width - d.indicatorWidth) / 2) := by
    refine if_pos (Nat.lt_of_le_of_lt ?_ wide)
    rw [UInt32.toNat_div, two]
    omega
  have down : exactDifference? d.homeBar.height d.indicatorHeight =
      some (d.homeBar.height - d.indicatorHeight) := by
    rw [same]
    exact if_pos fits.indicatorDown
  have down' := exactDifference?_eq_some_iff.mp down
  rw [same] at down'
  have y : exactSum? d.homeBar.y ((d.homeBar.height - d.indicatorHeight) / 2) =
      some (d.homeBar.y + (d.homeBar.height - d.indicatorHeight) / 2) := by
    refine if_pos (Nat.lt_of_le_of_lt ?_ high)
    rw [UInt32.toNat_div, two, same]
    omega
  rw [homeIndicator?, fits.homeBar]
  simp only [Option.bind_eq_bind, Option.bind_some, across, x, down, y]
  rfl

end

/-- The parts have room exactly if nothing is refused. -/
theorem isExact_iff_fits : d.IsExact ↔ d.Fits := by
  constructor
  · rintro ⟨statusBar, screen, homeBar, homeIndicator⟩
    obtain ⟨left, right, -, -⟩ := measures_of_statusBar? statusBar
    obtain ⟨-, -, top, bottom⟩ := measures_of_screen? screen
    obtain ⟨left', right', -, height⟩ := measures_of_homeBar? homeBar
    obtain ⟨bar, same, across, down, -⟩ := measures_of_homeIndicator? homeIndicator
    obtain rfl := Option.some_inj.mp (homeBar.symm.trans same)
    rw [height] at down
    simp only [Rectangle.right, Rectangle.bottom] at right right' bottom
    constructor <;> omega
  · intro fits
    exact ⟨fits.statusBar, fits.screen, fits.homeBar, fits.homeIndicator⟩

/-- The phone has room for its parts. -/
example : phone.Fits := ⟨by decide, by decide, by decide, by decide⟩

end DeviceFrame

/-- Where the parts of a device have room in it, no step on the way to its rectangles overflows or goes
below zero, the bars and the screen fill the inside of the bezel, and the pill is in the middle of the
home bar. -/
theorem device_parts_tile (d : DeviceFrame) (fits : d.Fits) :
    d.IsExact ∧ d.IsTiled ∧ d.homeIndicator.IsCenteredIn d.homeBar := by
  have exact := DeviceFrame.isExact_iff_fits.mpr fits
  obtain ⟨left, right, top, bottom⟩ := DeviceFrame.measures_of_statusBar? exact.statusBar
  obtain ⟨left', right', top', bottom'⟩ := DeviceFrame.measures_of_screen? exact.screen
  obtain ⟨left'', right'', bottom'', height⟩ := DeviceFrame.measures_of_homeBar? exact.homeBar
  obtain ⟨bar, same, -, -, centered⟩ := DeviceFrame.measures_of_homeIndicator? exact.homeIndicator
  obtain rfl := Option.some_inj.mp (exact.homeBar.symm.trans same)
  have size : d.homeBar.bottom = d.homeBar.top + d.homeBarHeight.toNat := by
    rw [Rectangle.bottom, height]
  refine ⟨exact, ⟨?_, ?_, top, bottom.trans top'.symm, by omega, bottom''⟩, centered⟩
  · simp only [List.forall_mem_cons]
    exact ⟨left, left', left'', nofun⟩
  · simp only [List.forall_mem_cons]
    exact ⟨right, right', right'', nofun⟩

/-- The largest frame there is, with a screen of one pixel's width and no height. -/
theorem device_parts_tile_around_sliver :
    let d : DeviceFrame :=
      { width := 4294967295, height := 4294967295, bezel := 2147483647, cornerRadius := 0
        statusBarHeight := 0, homeBarHeight := 1, indicatorWidth := 0, indicatorHeight := 1 }
    d.Fits ∧ (d.IsExact ∧ d.IsTiled ∧ d.homeIndicator.IsCenteredIn d.homeBar) ∧
      d.screen.height = 0 ∧ d.screen.width = 1 := by
  intro d
  have fits : d.Fits := ⟨by decide, by decide, by decide, by decide⟩
  exact ⟨fits, device_parts_tile d fits, by decide, by decide⟩

end QmlPreview
