import IUserApps.Compositor.Taskbar

/-!
# Pointer events

What the compositor does with a pointer event (`input.cpp`, and `handlePointerEventMessage` of
`main.cpp`). `routePointerToWindow` gives the event to a program: to the window that holds the
pointer since a press in its content, or else to the one whose content is under it. Only then does
`handlePointerEvent` act on it for the compositor itself: it follows the hovered control, moves or
resizes the window being dragged, and starts a drag or clicks on a press of the left button. Each
of the two looks at what the other left, `routePointerToWindow` at the drag and at nothing else.

The calls an event leads to are listed in order; `Outcome` says which of them succeed.
-/

namespace IUserApps.Compositor

/-- Where pointer input goes: a press inside a window's content holds the pointer for that window
until every button is up. -/
structure PointerRoute where
  /-- Zero for none. -/
  grabWindowId : ℕ
deriving DecidableEq, Repr

/-- The window that is moved or resized, and where the pointer took hold. -/
structure DragState where
  windowId : ℕ
  moving : Bool
  resizing : Bool
  grabOffsetX : ℤ
  grabOffsetY : ℤ
  anchorX : ℤ
  anchorY : ℤ
  startWidth : ℤ
  startHeight : ℤ
deriving DecidableEq, Repr

/-- The window control under the pointer; window zero for none. -/
structure WindowHover where
  windowId : ℕ
  control : WindowControl
deriving DecidableEq, Repr

/-- What the compositor keeps between pointer events. -/
structure PointerState where
  route : PointerRoute
  drag : DragState
  pointerButtons : BitVec 16
  cursor : CursorState
  windowHover : WindowHover
  /-- The taskbar tile under the pointer. -/
  taskbarHover : Option ℕ
  fullSceneDirty : Bool
  windowDirty : Rect
deriving DecidableEq, Repr

/-- One pointer event and what the compositor has at hand then: the window list, the size of the
screen and whether its calls will succeed. -/
structure PointerInput where
  event : PointerEvent
  windows : List WindowInfo
  screenWidth : ℕ
  screenHeight : ℕ
  outcome : Outcome
deriving DecidableEq, Repr

/-- The left button's bit. -/
def leftDown (buttons : BitVec 16) : Bool := buttons &&& 1 != 0

/-- A window is being moved or resized. -/
def DragState.active (drag : DragState) : Bool := drag.moving || drag.resizing

/-- The pointer takes hold of a title bar. -/
def beginMove (drag : DragState) (window : WindowInfo) (pointerX pointerY : ℤ) : DragState :=
  { drag with
    windowId := window.id
    moving := true
    resizing := false
    grabOffsetX := pointerX - window.x
    grabOffsetY := pointerY - window.y }

/-- The pointer takes hold of a resize grip. -/
def beginResize (drag : DragState) (window : WindowInfo) (pointerX pointerY : ℤ) : DragState :=
  { drag with
    windowId := window.id
    moving := false
    resizing := true
    anchorX := pointerX
    anchorY := pointerY
    startWidth := window.width
    startHeight := window.height }

/-- The pointer lets go. -/
def clearDrag (drag : DragState) : DragState :=
  { drag with windowId := 0, moving := false, resizing := false }

variable [Ui]

/-- The window an event goes to when none holds the pointer: the one whose content is under it. The
taskbar is drawn over the windows, so it is the taskbar's. -/
def contentTarget (i : PointerInput) : Option WindowInfo :=
  let layout := taskbarLayout i.screenWidth i.screenHeight i.windows
  if taskbarHit layout i.event.x i.event.y ≠ .none then none
  else
    (topWindowAt i.windows i.event.x i.event.y).filter fun top =>
      (contentRect top).contains i.event.x i.event.y

/-- The window that holds the pointer. -/
def grabTarget (route : PointerRoute) (windows : List WindowInfo) : Option WindowInfo :=
  if route.grabWindowId ≠ 0 then windowById windows route.grabWindowId else none

/-- Gives the event to a program, in its window's coordinates. -/
def routePointerToWindow (i : PointerInput) (drag : DragState) (route : PointerRoute) :
    PointerRoute × List Call :=
  if drag.active then (route, [])
  else
    let grabbed := grabTarget route i.windows
    let route := if grabbed.isSome then route else ⟨0⟩
    match grabbed.or (contentTarget i) with
    | none => (route, [])
    | some target =>
      let route : PointerRoute :=
        if i.event.action = .button then ⟨if i.event.buttons ≠ 0 then target.id else 0⟩ else route
      let event := { i.event with
        x := i.event.x - (target.x + kBorder), y := i.event.y - (target.y + kTitleBarHeight) }
      (route, [.windowPostEvent target.id event])

/-- Follows the taskbar tile under the pointer; a change repaints both tiles and their tooltips. -/
def followTile (i : PointerInput) (s : PointerState) : PointerState :=
  let layout := taskbarLayout i.screenWidth i.screenHeight i.windows
  let tile : Option ℕ :=
    match taskbarHit layout i.event.x i.event.y with
    | .tile t => if s.drag.active then none else some t
    | _ => none
  if tile = s.taskbarHover then s
  else
    let before := taskbarTooltipRect layout s.taskbarHover i.windows
    let after := taskbarTooltipRect layout tile i.windows
    let dirty := (s.windowDirty.unite before).unite after
    let dirty := match s.taskbarHover.filter (fun t => t < layout.tileCount) with
      | some t => dirty.unite (layout.tiles t).rect
      | none => dirty
    let dirty := match tile with
      | some t => dirty.unite (layout.tiles t).rect
      | none => dirty
    { s with windowDirty := dirty, taskbarHover := tile }

/-- The window control under the pointer. -/
def controlUnder (i : PointerInput) (drag : DragState) : WindowHover :=
  let layout := taskbarLayout i.screenWidth i.screenHeight i.windows
  let none' : WindowHover := ⟨0, .close⟩
  if drag.active ∨ taskbarHit layout i.event.x i.event.y ≠ .none then none'
  else
    match topWindowAt i.windows i.event.x i.event.y with
    | none => none'
    | some top =>
      match windowControlAt top i.event.x i.event.y with
      | some control => ⟨top.id, control⟩
      | none => none'

/-- Follows the window control under the pointer; a change repaints the old and the new button. -/
def updateControlHover (i : PointerInput) (s : PointerState) : PointerState :=
  let s := followTile i s
  let hover := controlUnder i s.drag
  if hover = s.windowHover then s
  else
    let repaint (dirty : Rect) (h : WindowHover) : Rect :=
      match windowById i.windows h.windowId with
      | some window => dirty.unite (windowControlRect window h.control)
      | none => dirty
    { s with
      windowDirty := repaint (repaint s.windowDirty s.windowHover) hover
      windowHover := hover }

/-- Moves the window being dragged. -/
def moveDragged (i : PointerInput) (s : PointerState) : PointerState × List Call :=
  let newX := i.event.x - s.drag.grabOffsetX
  let newY := i.event.y - s.drag.grabOffsetY
  match windowById i.windows s.drag.windowId with
  | none => (s, [])
  | some before =>
    let calls := [Call.compositorMoveWindow s.drag.windowId newX newY]
    if i.outcome.moves then
      let oldFrame := windowDamageRect before
      let newFrame := oldFrame.offset (newX - before.x) (newY - before.y)
      ({ s with windowDirty := s.windowDirty.unite (oldFrame.unite newFrame) }, calls)
    else (s, calls)

/-- Resizes the window being dragged, to no less than 64 by 48. -/
def resizeDragged (i : PointerInput) (s : PointerState) : PointerState × List Call :=
  let newWidth := max 64 (s.drag.startWidth + (i.event.x - s.drag.anchorX))
  let newHeight := max 48 (s.drag.startHeight + (i.event.y - s.drag.anchorY))
  match windowById i.windows s.drag.windowId with
  | none => (s, [])
  | some before =>
    let calls := [Call.compositorResizeWindow s.drag.windowId newWidth newHeight]
    if i.outcome.resizes then
      let oldFrame := windowDamageRect before
      let newFrame : Rect :=
        ⟨oldFrame.x, oldFrame.y, newWidth + kBorder * 2 + 2 * kShadowMargin,
          newHeight + kTitleBarHeight + kBorder + 2 * kShadowMargin⟩
      ({ s with windowDirty := s.windowDirty.unite (oldFrame.unite newFrame) }, calls)
    else (s, calls)

/-- Follows the pointer with the window being dragged, while the left button is down. -/
def followDrag (i : PointerInput) (s : PointerState) : PointerState × List Call :=
  if s.drag.moving && leftDown i.event.buttons then moveDragged i s
  else if s.drag.resizing && leftDown i.event.buttons then resizeDragged i s
  else (s, [])

/-- Maximizes a window, or restores it. The frame fills the work area, 8 px in from the screen's
edges. -/
def maximizeAction (i : PointerInput) (window : WindowInfo) : WindowControlAction :=
  if window.state.maximized then .restore
  else
    let frameWidth := int32 i.screenWidth - 16
    let frameHeight := workAreaBottom i.screenHeight - 8
    .maximize 8 8 (frameWidth - 2 * kBorder) (frameHeight - kTitleBarHeight - kBorder)

/-- What a press of the left button on a window does: its drag, the calls after the one that
focuses it. -/
def pressWindow (i : PointerInput) (drag : DragState) (window : WindowInfo) :
    DragState × List Call :=
  let x := i.event.x
  let y := i.event.y
  if pointerOnClose window x y then (clearDrag drag, [.compositorControlWindow window.id .close])
  else if pointerOnMaximize window x y then
    (clearDrag drag, [.compositorControlWindow window.id (maximizeAction i window)])
  else if pointerOnMinimize window x y then
    (clearDrag drag, [.compositorControlWindow window.id .minimize])
  else if pointerOnResizeGrip window x y then (beginResize drag window x y, [])
  else if pointerOnTitlebar window x y then (beginMove drag window x y, [])
  else (drag, [])

/-- A press of the left button: the drag after it, the calls, and whether the scene is redrawn. The
taskbar comes first, as it is drawn over the windows. -/
def pressLeft (i : PointerInput) (drag : DragState) : DragState × List Call × Bool :=
  let layout := taskbarLayout i.screenWidth i.screenHeight i.windows
  match taskbarHit layout i.event.x i.event.y with
  | .tile t => (clearDrag drag, taskbarClick i.outcome layout t i.windows)
  | .bar | .start => (clearDrag drag, [], false)
  | .none =>
    match topWindowAt i.windows i.event.x i.event.y with
    | none => (drag, [], false)
    | some window =>
      let (drag, calls) := pressWindow i drag window
      (drag, .compositorFocusWindow window.id :: calls, true)

/-- The compositor's own part of a pointer event: the state after it, the calls, and whether the
scene is redrawn. -/
def handlePointerEvent (i : PointerInput) (s : PointerState) : PointerState × List Call × Bool :=
  let s := updateControlHover i s
  let leftWasDown := leftDown s.pointerButtons
  let leftIsDown := leftDown i.event.buttons
  let (s, calls) := followDrag i { s with pointerButtons := i.event.buttons }
  -- A press and a release exclude each other, so a press that falls through ends here too.
  if !leftWasDown && leftIsDown then
    let (drag, pressCalls, fullRedraw) := pressLeft i s.drag
    ({ s with drag := drag }, calls ++ pressCalls, fullRedraw)
  else if leftWasDown && !leftIsDown then ({ s with drag := clearDrag s.drag }, calls, false)
  else (s, calls, false)

omit [Ui] in
/-- The cursor at a place, kept on the screen. -/
def moveCursor (screenWidth screenHeight : ℕ) (x y : ℤ) : CursorState :=
  let maxX := max 0 (int32 screenWidth - 1)
  let maxY := max 0 (int32 screenHeight - 1)
  ⟨if x < 0 then 0 else if maxX < x then maxX else x,
    if y < 0 then 0 else if maxY < y then maxY else y⟩

/-- A pointer event of the compositor's queue: the programs' part before our own, which may start a
drag from this press. -/
def handlePointerEventMessage (i : PointerInput) (s : PointerState) : PointerState × List Call :=
  let (route, posts) := routePointerToWindow i s.drag s.route
  let previousCursor := s.cursor
  let cursor := moveCursor i.screenWidth i.screenHeight i.event.x i.event.y
  let (s, calls, fullRedraw) := handlePointerEvent i { s with route := route, cursor := cursor }
  if fullRedraw then ({ s with fullSceneDirty := true }, posts ++ calls)
  else if !s.fullSceneDirty && decide (previousCursor ≠ s.cursor) then
    (s, posts ++ calls ++ [.presentCursorMove previousCursor s.cursor])
  else (s, posts ++ calls)

end IUserApps.Compositor
