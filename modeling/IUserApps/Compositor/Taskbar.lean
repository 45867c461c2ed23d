import IUserApps.Compositor.Windows

/-!
# The taskbar

Where the taskbar's parts are, what a point of it hits and what a click on a tile does
(`scene.cpp`). The tiles are the pinned apps and then one for each open window of another app,
oldest first, up to `kMaxTiles`.
-/

namespace IUserApps.Compositor

/-- What the compositor asks of the kernel about a window's state. -/
inductive WindowControlAction
  | close
  | minimize
  | restore
  | maximize (frameX frameY width height : ℤ)
deriving DecidableEq, Repr

/-- Where the cursor is. -/
structure CursorState where
  x : ℤ
  y : ℤ
deriving DecidableEq, Repr

/-- What a pointer event reports beside its place. -/
inductive PointerEventAction
  | button
  | other
deriving DecidableEq, Repr

/-- A pointer event: its place, the buttons that are down after it and what happened. -/
structure PointerEvent where
  x : ℤ
  y : ℤ
  buttons : BitVec 16
  action : PointerEventAction
deriving DecidableEq, Repr

/-- A call that leaves the compositor. -/
inductive Call
  | windowPostEvent (id : ℕ) (event : PointerEvent)
  | compositorMoveWindow (id : ℕ) (x y : ℤ)
  | compositorResizeWindow (id : ℕ) (width height : ℤ)
  | compositorFocusWindow (id : ℕ)
  | compositorControlWindow (id : ℕ) (action : WindowControlAction)
  | spawn (path : String)
  | writeStr (text : String)
  | presentCursorMove (previous cursor : CursorState)
deriving DecidableEq, Repr

/-- Whether the calls that an event may lead to succeed. -/
structure Outcome where
  moves : Bool
  resizes : Bool
  spawns : Bool
deriving DecidableEq, Repr

/-- A tile: a pinned application or a loose window. -/
structure TaskbarTile where
  rect : Rect
  /-- The pinned app, or `-1`. -/
  slot : ℤ
  /-- The window an unpinned tile stands for. -/
  windowId : ℕ
deriving DecidableEq, Repr

/-- The bar, the start button and the tiles. -/
structure TaskbarLayout where
  bar : Rect
  start : Rect
  tileCount : ℕ
  tiles : ℕ → TaskbarTile

/-- What a point of the screen hits; a tile by its index. -/
inductive TaskbarHit
  | none
  | bar
  | start
  | tile (i : ℕ)
deriving DecidableEq, Repr

/-- The rectangle of the taskbar on a screen. -/
def taskbarBarRect (screenWidth screenHeight : ℕ) : Rect :=
  ⟨kTaskbarMargin, int32 screenHeight - kTaskbarMargin - kTaskbarHeight,
    int32 screenWidth - 2 * kTaskbarMargin, kTaskbarHeight⟩

/-- The lowest a window's frame may reach. -/
def workAreaBottom (screenHeight : ℕ) : ℤ :=
  int32 screenHeight - kTaskbarMargin - kTaskbarHeight - kWorkAreaGap

/-- The name of a pinned application. -/
def taskbarSlotLabel (slot : ℤ) : String :=
  if 0 ≤ slot ∧ slot < kPinnedCount then
    ["Terminal", "Files", "Wallpapers", "Cube", "Web"].getD slot.toNat ""
  else ""

/-- The title a pinned application's window has. -/
def taskbarSlotWindowTitle (slot : ℤ) : String :=
  if 0 ≤ slot ∧ slot < kPinnedCount then
    ["Terminal", "File Browser", "Background Switcher", "Cube", "NetSurf"].getD slot.toNat ""
  else ""

/-- The pinned app whose window has this title. -/
def pinnedSlotOf (title : String) : Option ℕ :=
  (List.range kPinnedCount).find? fun slot => title = taskbarSlotWindowTitle slot

/-- The window has not been closed. -/
def isOpen (window : WindowInfo) : Bool := !window.state.closed

/-- The window has the focus and is not minimized. -/
def isActive (window : WindowInfo) : Bool := window.state.focused && !window.state.minimized

/-- A pass of the loop of `tileWindow` over the windows of a pinned app. -/
def betterWindow (slot : ℤ) (best : Option WindowInfo) (window : WindowInfo) : Option WindowInfo :=
  if !isOpen window || (pinnedSlotOf window.title).map Int.ofNat != some slot then best
  else
    match best with
    | none => some window
    | some b =>
      if isActive window || (!isActive b && decide (b.id < window.id)) then some window else best

/-- The window a tile stands for: an unpinned tile's own, a pinned app's focused window or else its
newest. -/
def tileWindow (tile : TaskbarTile) (windows : List WindowInfo) : Option WindowInfo :=
  if tile.slot < 0 then (windowById windows tile.windowId).filter isOpen
  else windows.foldl (betterWindow tile.slot) none

/-- The text of a tile's tooltip. -/
def tileLabel (tile : TaskbarTile) (window : Option WindowInfo) : String :=
  match window.filter (fun w => w.title != "") with
  | some w => w.title
  | none => if 0 ≤ tile.slot then taskbarSlotLabel tile.slot else "Window"

/-- Puts the tile of a window in at a place, or further to the left: the loop of `taskbarLayout`
that moves the tiles of newer windows to the right. -/
def placeTile (id : ℕ) : ℕ → (ℕ → TaskbarTile) → ℕ → TaskbarTile
  | 0, tiles => Function.update tiles 0 ⟨⟨0, 0, 0, 0⟩, -1, id⟩
  | at' + 1, tiles =>
    if kPinnedCount < at' + 1 ∧ id < (tiles at').windowId then
      placeTile id at' (Function.update tiles (at' + 1) (tiles at'))
    else Function.update tiles (at' + 1) ⟨⟨0, 0, 0, 0⟩, -1, id⟩

/-- Adds the tile of a window of another app, if it is among the oldest that fit. -/
def addTile (layout : TaskbarLayout) (window : WindowInfo) : TaskbarLayout :=
  if !isOpen window || (pinnedSlotOf window.title).isSome then layout
  else if layout.tileCount = kMaxTiles ∧ (layout.tiles (kMaxTiles - 1)).windowId < window.id then
    layout
  else
    let at' := if layout.tileCount < kMaxTiles then layout.tileCount else kMaxTiles - 1
    let count := if layout.tileCount < kMaxTiles then layout.tileCount + 1 else layout.tileCount
    { layout with tileCount := count, tiles := placeTile window.id at' layout.tiles }

/-- The tiles of the taskbar, the pinned ones first. -/
def taskbarLayout (screenWidth screenHeight : ℕ) (windows : List WindowInfo) : TaskbarLayout :=
  let bar := taskbarBarRect screenWidth screenHeight
  let start : Rect :=
    ⟨bar.x + 8, bar.y + (kTaskbarHeight - kStartSize).tdiv 2, kStartSize, kStartSize⟩
  let pinned : ℕ → TaskbarTile := fun i =>
    if i < kPinnedCount then ⟨⟨0, 0, 0, 0⟩, i, 0⟩ else ⟨⟨0, 0, 0, 0⟩, 0, 0⟩
  let layout := windows.foldl addTile ⟨bar, start, kPinnedCount, pinned⟩
  let total := layout.tileCount * kTileSize + (layout.tileCount - 1) * kTileGap
  let x0 := bar.x + (bar.width - total).tdiv 2
  { layout with
    tiles := fun i =>
      if i < layout.tileCount then
        { layout.tiles i with
          rect := ⟨x0 + i * (kTileSize + kTileGap), bar.y + (kTaskbarHeight - kTileSize).tdiv 2,
            kTileSize, kTileSize⟩ }
      else layout.tiles i }

/-- The program of a pinned app. -/
def slotPath (slot : ℕ) : Option String :=
  ["/bin/terminal", "/bin/file-browser", "/bin/background-switcher", "/bin/cube",
    "/bin/netsurf"][slot]?

/-- Starts a pinned app. -/
def launchTaskbarSlot (outcome : Outcome) (slot : ℤ) : List Call × Bool :=
  match (if 0 ≤ slot then slotPath slot.toNat else none) with
  | some path => ([.spawn path], outcome.spawns)
  | none => ([], false)

variable [Ui]

/-- What of the taskbar lies under a point. -/
def taskbarHit (layout : TaskbarLayout) (x y : ℤ) : TaskbarHit :=
  if !layout.bar.contains x y then .none
  else if layout.start.contains x y then .start
  else
    match (List.range layout.tileCount).find? fun i => (layout.tiles i).rect.contains x y with
    | some i => .tile i
    | none => .bar

/-- A tile's tooltip, above it. -/
def taskbarTooltipRect (layout : TaskbarLayout) (tile : Option ℕ) (windows : List WindowInfo) :
    Rect :=
  match tile.filter (fun i => i < layout.tileCount) with
  | none => ⟨0, 0, 0, 0⟩
  | some i =>
    let t := layout.tiles i
    let width := Ui.smallWidth (tileLabel t (tileWindow t windows)) + 20
    let x := t.rect.x + t.rect.width.tdiv 2 - width.tdiv 2
    let x := if x < layout.bar.x then layout.bar.x else x
    let x := if layout.bar.right < x + width then layout.bar.right - width else x
    ⟨x, layout.bar.y - 8 - kTooltipHeight, width, kTooltipHeight⟩

omit [Ui] in
/-- A click on a tile: focus or minimize its app's window, or start the app. True when windows
changed. -/
def taskbarClick (outcome : Outcome) (layout : TaskbarLayout) (tile : ℕ)
    (windows : List WindowInfo) : List Call × Bool :=
  if layout.tileCount ≤ tile then ([], false)
  else
    let t := layout.tiles tile
    match tileWindow t windows with
    | none =>
      if 0 ≤ t.slot then
        let (calls, launched) := launchTaskbarSlot outcome t.slot
        (if launched then calls
          else calls ++ [.writeStr "[graphics.compositor] FAIL spawn taskbar slot\n"], false)
      else ([], false)
    | some window =>
      if isActive window then ([.compositorControlWindow window.id .minimize], true)
      else ([.compositorFocusWindow window.id], true)

end IUserApps.Compositor
