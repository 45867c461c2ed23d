import IUserApps.Words

/-!
# Rectangles and the interface library

The compositor takes its rectangles, its rounded corners and its fonts from the interface library,
which is not part of this repository. `Ui` is what the compositor calls of it; the modules that
rely on what a call does state it as a hypothesis. The constants are those of
`graphics-compositor/src/common.hpp`.
-/

namespace IUserApps.Compositor

/-- A rectangle: its corner and its size. -/
structure Rect where
  x : ℤ
  y : ℤ
  width : ℤ
  height : ℤ
deriving DecidableEq, Repr

/-- The interface library's functions that the compositor uses. -/
class Ui where
  /-- `Rect::contains`. -/
  contains : Rect → ℤ → ℤ → Bool
  /-- `Rect::empty`. -/
  empty : Rect → Bool
  /-- `Rect::unite`. -/
  unite : Rect → Rect → Rect
  /-- `Rect::intersect`. -/
  intersect : Rect → Rect → Rect
  /-- `Rect::offset`. -/
  offset : Rect → ℤ → ℤ → Rect
  /-- `Rect::right`. -/
  right : Rect → ℤ
  /-- `in_rounded_rect`: the rectangle, the radius and the point. -/
  inRoundedRect : Rect → ℤ → ℤ → ℤ → Bool
  /-- The width of a text in the theme's small font. -/
  smallWidth : String → ℤ

/-- In a rectangle and, near a corner, within the radius of the corner's circle. -/
def plainInRoundedRect (r : Rect) (radius x y : ℤ) : Bool :=
  let cx := if x < r.x + radius then r.x + radius else min x (r.x + r.width - radius - 1)
  let cy := if y < r.y + radius then r.y + radius else min y (r.y + r.height - radius - 1)
  decide (r.x ≤ x ∧ x < r.x + r.width ∧ r.y ≤ y ∧ y < r.y + r.height) &&
    decide ((x - cx) * (x - cx) + (y - cy) * (y - cy) ≤ radius * radius)

/-- The interface library with half-open rectangles: empty ones contain no point, `unite` is the
bounding box of what is not empty and `intersect` the common part. A character is 7 wide. -/
abbrev plainUi : Ui where
  contains r x y := decide (r.x ≤ x ∧ x < r.x + r.width ∧ r.y ≤ y ∧ y < r.y + r.height)
  empty r := decide (r.width ≤ 0 ∨ r.height ≤ 0)
  unite r s :=
    if r.width ≤ 0 ∨ r.height ≤ 0 then s
    else if s.width ≤ 0 ∨ s.height ≤ 0 then r
    else
      ⟨min r.x s.x, min r.y s.y, max (r.x + r.width) (s.x + s.width) - min r.x s.x,
        max (r.y + r.height) (s.y + s.height) - min r.y s.y⟩
  intersect r s :=
    ⟨max r.x s.x, max r.y s.y, min (r.x + r.width) (s.x + s.width) - max r.x s.x,
      min (r.y + r.height) (s.y + s.height) - max r.y s.y⟩
  offset r dx dy := ⟨r.x + dx, r.y + dy, r.width, r.height⟩
  right r := r.x + r.width
  inRoundedRect := plainInRoundedRect
  smallWidth text := 7 * text.length

namespace Rect

variable [Ui]

/-- The point lies in the rectangle. -/
def contains (r : Rect) (x y : ℤ) : Bool := Ui.contains r x y

/-- The rectangle has no point. -/
def empty (r : Rect) : Bool := Ui.empty r

/-- The least rectangle about both. -/
def unite (r s : Rect) : Rect := Ui.unite r s

/-- The points both have. -/
def intersect (r s : Rect) : Rect := Ui.intersect r s

/-- The rectangle moved by `dx` and `dy`. -/
def offset (r : Rect) (dx dy : ℤ) : Rect := Ui.offset r dx dy

/-- One past the last column. -/
def right (r : Rect) : ℤ := Ui.right r

end Rect

/-- The width of a window's border. -/
def kBorder : ℤ := 1
/-- The height of a window's title bar. -/
def kTitleBarHeight : ℤ := 40
/-- The radius of a window's corners. -/
def kWindowCornerRadius : ℤ := 12
/-- The width of a button in the title bar. -/
def kControlWidth : ℤ := 46
/-- How far a window's shadow is blurred. -/
def kShadowBlur : ℤ := 24
/-- How far a window's shadow is moved down. -/
def kShadowOffsetY : ℤ := 10
/-- How far a window's shadow reaches. -/
def kShadowMargin : ℤ := kShadowBlur + kShadowOffsetY
/-- The height of the taskbar. -/
def kTaskbarHeight : ℤ := 52
/-- The distance of the taskbar from the screen's edges. -/
def kTaskbarMargin : ℤ := 12
/-- The distance of a maximized window from the taskbar. -/
def kWorkAreaGap : ℤ := 12
/-- The side of the start button. -/
def kStartSize : ℤ := 36
/-- The side of a tile. -/
def kTileSize : ℤ := 44
/-- The distance between two tiles. -/
def kTileGap : ℤ := 6
/-- The height of a tooltip. -/
def kTooltipHeight : ℤ := 26
/-- The applications that are pinned to the taskbar. -/
def kPinnedCount : ℕ := 5
/-- The tiles a taskbar holds at most. -/
def kMaxTiles : ℕ := 16
/-- The side of the corner that resizes a window. -/
def kResizeGripSize : ℤ := 14

end IUserApps.Compositor
