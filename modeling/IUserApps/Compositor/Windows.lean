import IUserApps.Compositor.Geometry

/-!
# Windows

The window list that the kernel gives the compositor, and where a window's parts are: its frame,
its controls, its title bar, its resize grip and its content (`input.cpp`, `surface.cpp`).
-/

namespace IUserApps.Compositor

/-- The bits of a window's state. -/
structure WindowState where
  focused : Bool
  minimized : Bool
  maximized : Bool
  closed : Bool
deriving DecidableEq, Repr

/-- A window of the kernel's list. -/
structure WindowInfo where
  id : ℕ
  state : WindowState
  x : ℤ
  y : ℤ
  width : ℤ
  height : ℤ
  surfaceID : ℕ
  /-- The title up to its end or its first NUL. -/
  title : String
  /-- Zero stands for no window (`PointerRoute`, `WindowHover`, `DragState`). -/
  id_ne_zero : id ≠ 0
deriving DecidableEq, Repr

/-- The width of a window with its border. -/
def frameWidth (window : WindowInfo) : ℤ := window.width + kBorder * 2

/-- The height of a window with its title bar and border. -/
def frameHeight (window : WindowInfo) : ℤ := window.height + kTitleBarHeight + kBorder

/-- The window is open and not minimized. -/
def isWindowVisible (window : WindowInfo) : Bool :=
  !(window.state.minimized || window.state.closed)

/-- The rectangle of a window with its title bar and border. -/
def windowFrameRect (window : WindowInfo) : Rect :=
  ⟨window.x, window.y, frameWidth window, frameHeight window⟩

/-- The frame and its shadow: what must be repainted when the window moves. -/
def windowDamageRect (window : WindowInfo) : Rect :=
  let frame := windowFrameRect window
  ⟨frame.x - kShadowMargin, frame.y - kShadowMargin, frame.width + 2 * kShadowMargin,
    frame.height + 2 * kShadowMargin⟩

/-- The content area, which the window's program draws. -/
def contentRect (window : WindowInfo) : Rect :=
  ⟨window.x + kBorder, window.y + kTitleBarHeight, window.width, window.height⟩

/-- The controls of a title bar. -/
inductive WindowControl
  | close
  | maximize
  | minimize
deriving DecidableEq, Repr

/-- Close at the right edge, then maximize, then minimize. -/
def windowControlRect (window : WindowInfo) (control : WindowControl) : Rect :=
  let slotFromRight : ℤ := match control with
    | .close => 0
    | .minimize => 2
    | .maximize => 1
  let x := window.x + frameWidth window - kBorder - (slotFromRight + 1) * kControlWidth
  ⟨x, window.y + kBorder, kControlWidth, kTitleBarHeight - kBorder⟩

/-- The first window of an id. -/
def windowById (windows : List WindowInfo) (id : ℕ) : Option WindowInfo :=
  windows.find? (fun window => window.id = id)

variable [Ui]

/-- Inside the rectangle whose top corners are rounded by `radius`. -/
def inTopRoundedRect (rect : Rect) (radius x y : ℤ) : Bool :=
  if rect.empty || !rect.contains x y then false
  else
    let radius := if radius > rect.width.tdiv 2 then rect.width.tdiv 2 else radius
    let radius := if radius > rect.height.tdiv 2 then rect.height.tdiv 2 else radius
    if radius ≤ 0 ∨ rect.y + radius ≤ y then true
    else
      let leftCenterX := rect.x + radius
      let rightCenterX := rect.x + rect.width - radius - 1
      if leftCenterX ≤ x ∧ x ≤ rightCenterX then true
      else
        let dx := x - (if x < leftCenterX then leftCenterX else rightCenterX)
        let dy := y - (rect.y + radius)
        decide (dx * dx + dy * dy ≤ radius * radius)

/-- The topmost visible window whose frame holds the point: the last of the list. -/
def topWindowAt (windows : List WindowInfo) (x y : ℤ) : Option WindowInfo :=
  windows.reverse.find? fun window =>
    isWindowVisible window &&
      Ui.inRoundedRect (windowFrameRect window) kWindowCornerRadius x y

/-- The button under a point. -/
def windowControlAt (window : WindowInfo) (x y : ℤ) : Option WindowControl :=
  [.close, .maximize, .minimize].find? fun control =>
    (windowControlRect window control).contains x y

/-- The point lies on the close button. -/
def pointerOnClose (window : WindowInfo) (x y : ℤ) : Bool :=
  (windowControlRect window .close).contains x y

/-- The point lies on the maximize button. -/
def pointerOnMaximize (window : WindowInfo) (x y : ℤ) : Bool :=
  (windowControlRect window .maximize).contains x y

/-- The point lies on the minimize button. -/
def pointerOnMinimize (window : WindowInfo) (x y : ℤ) : Bool :=
  (windowControlRect window .minimize).contains x y

/-- The point lies on the corner that resizes the window. -/
def pointerOnResizeGrip (window : WindowInfo) (x y : ℤ) : Bool :=
  Rect.contains
    ⟨window.x + frameWidth window - kBorder - kResizeGripSize,
      window.y + frameHeight window - kBorder - kResizeGripSize,
      kResizeGripSize, kResizeGripSize⟩ x y

/-- The point lies on the title bar. -/
def pointerOnTitlebar (window : WindowInfo) (x y : ℤ) : Bool :=
  inTopRoundedRect
    ⟨window.x + kBorder, window.y + kBorder, window.width, kTitleBarHeight - kBorder⟩
    (if kBorder < kWindowCornerRadius then kWindowCornerRadius - kBorder else 0) x y

end IUserApps.Compositor
