import IUserApps.Checked
import IUserApps.Compositor.Passes

/-!
# The number of windows

The compositor has room for `kMaxWindows` windows, and the call that lists them returns a number of
its own. Here the two arrays of `updateWindowSnapshot` are arrays, whose reads are checked, and
every function that is given them with the number reads them as the source does: the comparison of
two lists, `logNewWindows`, `forgetUnshownSurfaces`, the routing of pointer events and the drawing
of both backends.

Two of these loops stop at `kMaxWindows`. The others trust the number, so a run stays inside the
arrays, whatever the windows are, exactly when no number it is given is larger
(`runs_inside_iff`).

What is left out are the results that no read depends on: the calls, what is drawn and the
rectangles to repaint. The pointer's state is the input of an event.
-/

namespace IUserApps.Compositor.Counted

open Checked

/-- An entry of an array of windows, as the kernel leaves it. -/
structure WindowEntry where
  id : ℕ
  ownerPID : ℕ
  flags : ℕ
  state : WindowState
  x : ℤ
  y : ℤ
  width : ℤ
  height : ℤ
  surfaceID : ℕ
  zOrder : ℕ
  title : String
deriving DecidableEq, Repr

/-- An entry that nothing was written to. -/
def WindowEntry.cleared : WindowEntry :=
  ⟨0, 0, 0, ⟨false, false, false, false⟩, 0, 0, 0, 0, 0, 0, ""⟩

/-- All of an entry but its number. -/
def WindowEntry.looks (window : WindowEntry) : ListedWindow where
  id := 1
  ownerPID := window.ownerPID
  flags := window.flags
  state := window.state
  x := window.x
  y := window.y
  width := window.width
  height := window.height
  surfaceID := window.surfaceID
  zOrder := window.zOrder
  title := window.title
  id_ne_zero := Nat.one_ne_zero

/-- `std::WindowInfo[kMaxWindows]`. -/
abbrev WindowArray := Vector WindowEntry kMaxWindows

/-- An array of windows that were never listed. -/
def WindowArray.cleared : WindowArray := Vector.replicate kMaxWindows .cleared

/-- Reads an entry. -/
def windowAt (windows : WindowArray) (i : ℕ) : Access WindowEntry := readAt windows.toList i

/-- Writes an entry. -/
def setWindow (windows : WindowArray) (i : ℕ) (window : WindowEntry) : Access WindowArray :=
  if h : i < kMaxWindows then .ok (windows.set i window h) else .error (.write i)

/-- What the kernel answers when the windows are listed: the array after the call, of which it may
have written any part, and the number it returns. -/
structure Answer where
  windows : WindowArray
  count : ℕ

/-- The value that a failed call returns. -/
def fail : ℕ := 2^64 - 1

/-- The number of windows in an answer; a refused call counts none. -/
def fetchWindows (answer : Answer) : ℕ := if answer.count = fail then 0 else answer.count

/-! ## The snapshot -/

/-- What the compositor keeps of the windows. -/
structure Snapshot where
  windowSnapshot : WindowArray
  windowSnapshotCount : ℕ
  windowSnapshotReady : Bool
  surfaceCache : SurfaceCache

/-- Before the first list. -/
def Snapshot.initial : Snapshot := ⟨.cleared, 0, false, .empty⟩

/-- Two entries of the same window, at the same place and in the same state. -/
def sameWindow (a b : WindowEntry) : Bool :=
  decide (a.id = b.id) && Compositor.sameWindow a.looks b.looks

/-- The comparison of the list with the one before, up to the first difference. -/
def windowsDiffer (current snapshot : WindowArray) (count : ℕ) : Access Bool :=
  loop count false fun i _ => do
    let a ← windowAt current i
    let b ← windowAt snapshot i
    .ok (!sameWindow a b, !sameWindow a b)

/-- A window is moved up if it would stand under the taskbar. -/
def keepAboveTaskbar (fbHeight : ℕ) (outcome : Outcome) (window : WindowEntry) : WindowEntry :=
  let moved := Compositor.keepAboveTaskbar fbHeight outcome window.looks
  { window with y := moved.y, height := moved.height }

/-- Keeps every window that was not there before above the taskbar. -/
def logNewWindows (fbHeight : ℕ) (outcome : ℕ → Outcome) (s : Snapshot) (current : WindowArray)
    (count : ℕ) : Access WindowArray :=
  loop (min count kMaxWindows) current fun i current => do
    let window ← windowAt current i
    let known ← loop s.windowSnapshotCount false fun j _ => do
      let old ← windowAt s.windowSnapshot j
      .ok (decide (old.id = window.id), decide (old.id = window.id))
    if known || decide (window.x < 0) || decide (window.y < 0) then .ok (false, current)
    else do
      let current ← setWindow current i (keepAboveTaskbar fbHeight (outcome window.id) window)
      .ok (false, current)

/-- Drops the surfaces that no window shows any more. -/
def forgetUnshownSurfaces (cache : SurfaceCache) (windows : WindowArray) (windowCount : ℕ) :
    Access SurfaceCache :=
  loop kMaxSurfaceCache cache fun i cache =>
    let entry := cache.entries i
    if !entry.valid then .ok (false, cache)
    else do
      let shown ← loop windowCount false fun w _ => do
        let window ← windowAt windows w
        .ok (decide (window.surfaceID = entry.id), decide (window.surfaceID = entry.id))
      let entry :=
        if shown then { entry with unshownLists := 0 }
        else if kSurfaceForgetLists < entry.unshownLists + 1 then .cleared
        else { entry with unshownLists := entry.unshownLists + 1 }
      .ok (false, { cache with entries := Function.update cache.entries i entry })

/-- Fetches the window list. -/
def updateWindowSnapshot (fbHeight : ℕ) (outcome : ℕ → Outcome) (s : Snapshot) (answer : Answer) :
    Access Snapshot := do
  let current := answer.windows
  let count := fetchWindows answer
  -- The comparison trusts the number; only the copy at the end stops at `kMaxWindows`.
  let comparable := s.windowSnapshotReady && decide (count = s.windowSnapshotCount)
  let changed ← doWhen comparable (windowsDiffer current s.windowSnapshot count) true
  let current ← doWhen changed (logNewWindows fbHeight outcome s current count) current
  let surfaceCache ←
    doWhen changed (forgetUnshownSurfaces s.surfaceCache current count) s.surfaceCache
  let windowSnapshot ← loop (min count kMaxWindows) WindowArray.cleared fun i windows => do
    let window ← windowAt current i
    let windows ← setWindow windows i window
    .ok (false, windows)
  .ok ⟨windowSnapshot, count, true, surfaceCache⟩

/-! ## The readers of the snapshot -/

variable {σ : Type}

/-- A loop over all windows. -/
def forEach (windows : WindowArray) (count : ℕ) (s : σ) (f : σ → WindowEntry → σ) : Access σ :=
  loop count s fun i s => do
    let window ← windowAt windows i
    .ok (false, f s window)

/-- The window of an id, among the first `count`. -/
def windowById (windows : WindowArray) (count id : ℕ) : Access (Option WindowEntry) :=
  loop count none fun i _ => do
    let window ← windowAt windows i
    .ok (if window.id = id then (true, some window) else (false, none))

variable [Ui]

/-- The topmost visible window whose frame holds the point: the loop runs down from the last. -/
def topWindowAt (windows : WindowArray) (count : ℕ) (x y : ℤ) : Access (Option WindowEntry) :=
  loop count none fun i _ => do
    let window ← windowAt windows (count - 1 - i)
    .ok (if isWindowVisible window.looks.toWindowInfo &&
        Ui.inRoundedRect (windowFrameRect window.looks.toWindowInfo) kWindowCornerRadius x y then
      (true, some window) else (false, none))

omit [Ui] in
/-- A pass of the loop of `tileWindow` over the windows of a pinned app. -/
def betterWindow (slot : ℤ) (best : Option WindowEntry) (window : WindowEntry) :
    Option WindowEntry :=
  if !isOpen window.looks.toWindowInfo ||
      (pinnedSlotOf window.title).map Int.ofNat != some slot then best
  else
    match best with
    | none => some window
    | some b =>
      if isActive window.looks.toWindowInfo ||
          (!isActive b.looks.toWindowInfo && decide (b.id < window.id)) then some window else best

omit [Ui] in
/-- The window a tile stands for. -/
def tileWindow (tile : TaskbarTile) (windows : WindowArray) (count : ℕ) :
    Access (Option WindowEntry) :=
  if tile.slot < 0 then do
    let window ← windowById windows count tile.windowId
    .ok (window.filter fun w => isOpen w.looks.toWindowInfo)
  else forEach windows count none (betterWindow tile.slot)

omit [Ui] in
/-- Adds the tile of a window of another app, if it is among the oldest that fit. -/
def addTile (layout : TaskbarLayout) (window : WindowEntry) : TaskbarLayout :=
  if !isOpen window.looks.toWindowInfo || (pinnedSlotOf window.title).isSome then layout
  else if layout.tileCount = kMaxTiles ∧ (layout.tiles (kMaxTiles - 1)).windowId < window.id then
    layout
  else
    let at' := if layout.tileCount < kMaxTiles then layout.tileCount else kMaxTiles - 1
    let count := if layout.tileCount < kMaxTiles then layout.tileCount + 1 else layout.tileCount
    { layout with tileCount := count, tiles := placeTile window.id at' layout.tiles }

omit [Ui] in
/-- The tiles of the taskbar for the first `count` windows. -/
def taskbarLayout (screenWidth screenHeight : ℕ) (windows : WindowArray) (count : ℕ) :
    Access TaskbarLayout := do
  let bar := taskbarBarRect screenWidth screenHeight
  let start : Rect :=
    ⟨bar.x + 8, bar.y + (kTaskbarHeight - kStartSize).tdiv 2, kStartSize, kStartSize⟩
  let pinned : ℕ → TaskbarTile := fun i =>
    if i < kPinnedCount then ⟨⟨0, 0, 0, 0⟩, i, 0⟩ else ⟨⟨0, 0, 0, 0⟩, 0, 0⟩
  let layout ← forEach windows count ⟨bar, start, kPinnedCount, pinned⟩ addTile
  let total := layout.tileCount * kTileSize + (layout.tileCount - 1) * kTileGap
  let x0 := bar.x + (bar.width - total).tdiv 2
  .ok { layout with
    tiles := fun i =>
      if i < layout.tileCount then
        { layout.tiles i with
          rect := ⟨x0 + i * (kTileSize + kTileGap), bar.y + (kTaskbarHeight - kTileSize).tdiv 2,
            kTileSize, kTileSize⟩ }
      else layout.tiles i }

/-- A tile's tooltip, above it. -/
def taskbarTooltipRect (layout : TaskbarLayout) (tile : Option ℕ) (windows : WindowArray)
    (count : ℕ) : Access Rect :=
  match tile.filter (fun i => i < layout.tileCount) with
  | none => .ok ⟨0, 0, 0, 0⟩
  | some i => do
    let t := layout.tiles i
    let window ← tileWindow t windows count
    let label := tileLabel t (window.map fun w => w.looks.toWindowInfo)
    let width := Ui.smallWidth label + 20
    let x := t.rect.x + t.rect.width.tdiv 2 - width.tdiv 2
    let x := if x < layout.bar.x then layout.bar.x else x
    let x := if layout.bar.right < x + width then layout.bar.right - width else x
    .ok ⟨x, layout.bar.y - 8 - kTooltipHeight, width, kTooltipHeight⟩

/-! ## Events -/

/-- The screen, and an event of the pointer. -/
structure Pointed where
  screenWidth : ℕ
  screenHeight : ℕ
  event : PointerEvent

/-- Gives the event to a program: the window that gets it. -/
def routePointerToWindow (i : Pointed) (drag : DragState) (route : PointerRoute)
    (windows : WindowArray) (count : ℕ) : Access (Option WindowEntry) :=
  if drag.active then .ok none
  else do
    let target ←
      doWhen (route.grabWindowId ≠ 0) (windowById windows count route.grabWindowId) none
    if target.isSome then .ok target
    else do
      let layout ← taskbarLayout i.screenWidth i.screenHeight windows count
      if taskbarHit layout i.event.x i.event.y ≠ .none then .ok none
      else do
        let top ← topWindowAt windows count i.event.x i.event.y
        .ok (top.filter fun top =>
          (contentRect top.looks.toWindowInfo).contains i.event.x i.event.y)

/-- Follows the taskbar tile under the pointer: the two tooltips that a change repaints. -/
def followTile (layout : TaskbarLayout) (tile taskbarHover : Option ℕ) (windows : WindowArray)
    (count : ℕ) : Access (Rect × Rect) := do
  let before ← taskbarTooltipRect layout taskbarHover windows count
  let after ← taskbarTooltipRect layout tile windows count
  .ok (before, after)

/-- The window control under the pointer. -/
def controlUnder (i : Pointed) (windows : WindowArray) (count : ℕ) : Access WindowHover := do
  let top ← topWindowAt windows count i.event.x i.event.y
  .ok (match top with
    | none => ⟨0, .close⟩
    | some top =>
      match windowControlAt top.looks.toWindowInfo i.event.x i.event.y with
      | some control => ⟨top.id, control⟩
      | none => ⟨0, .close⟩)

/-- The windows of the old and the new control, which a change repaints. -/
def followControl (before hover : WindowHover) (windows : WindowArray) (count : ℕ) :
    Access (List (Option WindowEntry)) := do
  let old ← windowById windows count before.windowId
  let now ← windowById windows count hover.windowId
  .ok [old, now]

/-- Follows what is under the pointer, a taskbar tile or a window control. -/
def updateControlHover (i : Pointed) (s : PointerState) (windows : WindowArray) (count : ℕ) :
    Access WindowHover := do
  let layout ← taskbarLayout i.screenWidth i.screenHeight windows count
  let hit := taskbarHit layout i.event.x i.event.y
  let tile : Option ℕ :=
    match hit with
    | .tile t => if s.drag.active then none else some t
    | _ => none
  let _ ← doWhen (tile ≠ s.taskbarHover) (followTile layout tile s.taskbarHover windows count)
    (⟨0, 0, 0, 0⟩, ⟨0, 0, 0, 0⟩)
  let hover ← doWhen (s.drag.active = false ∧ hit = .none) (controlUnder i windows count)
    ⟨0, .close⟩
  let _ ← doWhen (hover ≠ s.windowHover) (followControl s.windowHover hover windows count) []
  .ok hover

omit [Ui] in
/-- A click on a tile. -/
def taskbarClick (layout : TaskbarLayout) (tile : ℕ) (windows : WindowArray) (count : ℕ) :
    Access (Option WindowEntry) :=
  if layout.tileCount ≤ tile then .ok none else tileWindow (layout.tiles tile) windows count

/-- A press of the left button: the window that it is for. -/
def pressLeft (i : Pointed) (windows : WindowArray) (count : ℕ) :
    Access (Option WindowEntry) := do
  let layout ← taskbarLayout i.screenWidth i.screenHeight windows count
  match taskbarHit layout i.event.x i.event.y with
  | .tile t => taskbarClick layout t windows count
  | .bar | .start => .ok none
  | .none => topWindowAt windows count i.event.x i.event.y

/-- The compositor's own part of a pointer event: the window that is dragged or pressed. -/
def handlePointerEvent (i : Pointed) (s : PointerState) (windows : WindowArray) (count : ℕ) :
    Access (Option WindowEntry) := do
  let _ ← updateControlHover i s windows count
  let dragged ← doWhen (s.drag.active && leftDown i.event.buttons)
    (windowById windows count s.drag.windowId) none
  doWhen (!leftDown s.pointerButtons && leftDown i.event.buttons) (pressLeft i windows count)
    dragged

/-! ## Drawing -/

/-- The tooltip of the hovered tile. -/
def drawTooltip (layout : TaskbarLayout) (taskbarHover : Option ℕ) (windows : WindowArray)
    (count : ℕ) : Access (Rect × Option WindowEntry) :=
  match taskbarHover.filter (fun i => i < layout.tileCount) with
  | none => .ok (⟨0, 0, 0, 0⟩, none)
  | some i => do
    let tip ← taskbarTooltipRect layout taskbarHover windows count
    let window ← tileWindow (layout.tiles i) windows count
    .ok (tip, window)

/-- The taskbar on a canvas: the window of each tile. -/
def drawTaskbar (canvasWidth canvasHeight : ℕ) (taskbarHover : Option ℕ) (windows : WindowArray)
    (count : ℕ) : Access (List (Option WindowEntry)) := do
  let layout ← taskbarLayout canvasWidth canvasHeight windows count
  let tiles ← loop layout.tileCount [] fun i tiles => do
    let window ← tileWindow (layout.tiles i) windows count
    .ok (false, tiles ++ [window])
  let _ ← drawTooltip layout taskbarHover windows count
  .ok tiles

/-- The windows that reach into the clip, bottom to top, and the taskbar. -/
def drawScene (canvasWidth canvasHeight : ℕ) (clip : Rect) (taskbarHover : Option ℕ)
    (windows : WindowArray) (count : ℕ) : Access (List WindowEntry) := do
  let drawn ← forEach windows count [] fun drawn window =>
    if !isWindowVisible window.looks.toWindowInfo ||
        ((windowDamageRect window.looks.toWindowInfo).intersect clip).empty then drawn
    else drawn ++ [window]
  let _ ← drawTaskbar canvasWidth canvasHeight taskbarHover windows count
  .ok drawn

/-- The taskbar of the GPU's picture: what it shows decides whether it is drawn anew, which it is
when its texture is `stale`. -/
def drawBar (width height : ℕ) (stale : Bool) (taskbarHover : Option ℕ) (windows : WindowArray)
    (count : ℕ) : Access (List (ℕ × WindowState × String)) := do
  let key ← forEach windows count [] fun key window =>
    key ++ [(window.id, window.state, window.title)]
  let _ ← doWhen stale (drawTaskbar width height taskbarHover windows count) []
  .ok key

/-- The tooltip of the GPU's picture, of which the taskbar's drawing is cut out. -/
def drawTip (width height : ℕ) (layout : TaskbarLayout) (taskbarHover : Option ℕ)
    (windows : WindowArray) (count : ℕ) : Access Rect := do
  let tip ← taskbarTooltipRect layout taskbarHover windows count
  let _ ← doWhen (!(tip.intersect ⟨0, 0, width, height⟩).empty)
    (drawTaskbar width height taskbarHover windows count) []
  .ok tip

/-- A frame by the GPU: the visible windows, the taskbar and its tooltip. -/
def drawFrame (width height : ℕ) (stale : Bool) (taskbarHover : Option ℕ) (windows : WindowArray)
    (count : ℕ) : Access (List WindowEntry) := do
  let drawn ← forEach windows count [] fun drawn window =>
    if !isWindowVisible window.looks.toWindowInfo then drawn else drawn ++ [window]
  let layout ← taskbarLayout width height windows count
  let _ ← doWhen (!(layout.bar.intersect ⟨0, 0, width, height⟩).empty)
    (drawBar width height stale taskbarHover windows count) []
  let _ ← doWhen (taskbarHover.filter (fun i => i < layout.tileCount)).isSome
    (drawTip width height layout taskbarHover windows count) ⟨0, 0, 0, 0⟩
  .ok drawn

/-- Where the windows show a change. -/
def consumeSurfaceDirtyRect (windows : WindowArray) (count : ℕ) (cache : SurfaceCache) :
    Access Rect :=
  forEach windows count ⟨0, 0, 0, 0⟩ fun dirty window =>
    uniteWindowDirty cache dirty window.looks.toWindowInfo

/-! ## Runs -/

/-- What happens between two reads of the list, in any order. -/
inductive Step
  /-- Commits of surfaces. -/
  | pumpSurfaceUpdates (polled : List SurfaceInfo)
  | updateWindowSnapshot (answer : Answer) (outcome : ℕ → Outcome)
  | routePointerToWindow (event : PointerEvent) (drag : DragState) (route : PointerRoute)
  | handlePointerEvent (event : PointerEvent) (pointer : PointerState)
  | redrawScene (clip : Rect) (taskbarHover : Option ℕ)
  | drawFrame (stale : Bool) (taskbarHover : Option ℕ)
  | consumeSurfaceDirtyRect

/-- A step of a compositor on a screen of this size. -/
def step (fbWidth fbHeight : ℕ) (s : Snapshot) : Step → Access Snapshot
  | .pumpSurfaceUpdates polled =>
    .ok { s with surfaceCache := polled.foldl rememberSurface s.surfaceCache }
  | .updateWindowSnapshot answer outcome => updateWindowSnapshot fbHeight outcome s answer
  | .routePointerToWindow event drag route => do
    let _ ← routePointerToWindow ⟨fbWidth, fbHeight, event⟩ drag route s.windowSnapshot
      s.windowSnapshotCount
    .ok s
  | .handlePointerEvent event pointer => do
    let _ ← handlePointerEvent ⟨fbWidth, fbHeight, event⟩ pointer s.windowSnapshot
      s.windowSnapshotCount
    .ok s
  | .redrawScene clip taskbarHover => do
    let _ ← drawScene fbWidth fbHeight clip taskbarHover s.windowSnapshot s.windowSnapshotCount
    .ok s
  | .drawFrame stale taskbarHover => do
    let _ ← drawFrame fbWidth fbHeight stale taskbarHover s.windowSnapshot s.windowSnapshotCount
    .ok s
  | .consumeSurfaceDirtyRect => do
    let _ ← consumeSurfaceDirtyRect s.windowSnapshot s.windowSnapshotCount s.surfaceCache
    .ok { s with surfaceCache := clearSurfaceDirtyFlags s.surfaceCache }

/-- A run from the compositor's start. -/
def run (fbWidth fbHeight : ℕ) (steps : List Step) : Access Snapshot :=
  steps.foldlM (step fbWidth fbHeight) .initial

/-- No access is outside an array. -/
def Inside {α : Type} (x : Access α) : Prop := Safe x fun _ => True

/-- The answers of the kernel in the run are among these. -/
def AnsweredBy (answers : Set Answer) (steps : List Step) : Prop :=
  ∀ answer outcome, .updateWindowSnapshot answer outcome ∈ steps → answer ∈ answers

/-! ## Numbers that fit -/

omit [Ui] in
/-- A value that is at hand takes no access. -/
theorem inside_ok {α : Type} (a : α) : Inside (.ok a) := safe_ok trivial

omit [Ui] in
/-- An access follows another inside the arrays. -/
theorem Inside.bind {α β : Type} {x : Access α} {f : α → Access β} (hx : Inside x)
    (hf : ∀ a, Inside (f a)) : Inside (x >>= f) := Safe.bind hx fun a _ => hf a

omit [Ui] in
/-- A step that may be left out stays inside if it does so where it is taken. -/
theorem inside_doWhen {α : Type} (p : Prop) [Decidable p] {x : Access α} (hx : Inside x) (a : α) :
    Inside (doWhen p x a) := doWhen_safe (fun _ => hx) fun _ => trivial

omit [Ui] in
/-- A loop stays inside if each of its rounds does. -/
theorem inside_loop {n : ℕ} {s : σ} {body : ℕ → σ → Access (Bool × σ)}
    (h : ∀ i s, i < n → Inside (body i s)) : Inside (loop n s body) :=
  loop_safe trivial fun i s hi _ => h i s hi

omit [Ui] in
/-- Reading below the array's length is inside. -/
theorem windowAt_inside (windows : WindowArray) {i : ℕ} (h : i < kMaxWindows) :
    Inside (windowAt windows i) := by
  have hlength : i < windows.toList.length := by
    rw [Vector.length_toList]
    exact h
  exact (readAt_safe hlength).mono fun _ _ => trivial

omit [Ui] in
/-- Storing below the array's length is inside. -/
theorem setWindow_inside (windows : WindowArray) {i : ℕ} (h : i < kMaxWindows)
    (window : WindowEntry) : Inside (setWindow windows i window) := by
  unfold setWindow
  rw [dif_pos h]
  exact inside_ok _

omit [Ui] in
/-- The comparison of two lists. -/
theorem windowsDiffer_inside (current snapshot : WindowArray) {count : ℕ}
    (h : count ≤ kMaxWindows) : Inside (windowsDiffer current snapshot count) := by
  refine inside_loop fun i _ hi => ?_
  refine (windowAt_inside current (by omega)).bind fun a => ?_
  exact (windowAt_inside snapshot (by omega)).bind fun b => inside_ok _

omit [Ui] in
/-- Logging the new windows reads only the two arrays. -/
theorem logNewWindows_inside (fbHeight : ℕ) (outcome : ℕ → Outcome) {s : Snapshot}
    (hs : s.windowSnapshotCount ≤ kMaxWindows) (current : WindowArray) (count : ℕ) :
    Inside (logNewWindows fbHeight outcome s current count) := by
  refine inside_loop fun i current hi => ?_
  have hi' : i < kMaxWindows := by omega
  refine (windowAt_inside current hi').bind fun window => ?_
  refine Inside.bind ?_ fun known => ?_
  · refine inside_loop fun j _ hj => ?_
    exact (windowAt_inside s.windowSnapshot (by omega)).bind fun old => inside_ok _
  · split
    · exact inside_ok _
    · exact (setWindow_inside current hi' _).bind fun current => inside_ok _

omit [Ui] in
/-- Forgetting surfaces reads only the windows of the list. -/
theorem forgetUnshownSurfaces_inside (cache : SurfaceCache) (windows : WindowArray)
    {windowCount : ℕ} (h : windowCount ≤ kMaxWindows) :
    Inside (forgetUnshownSurfaces cache windows windowCount) := by
  refine inside_loop fun i cache _ => ?_
  simp only
  split
  · exact inside_ok _
  · refine Inside.bind ?_ fun shown => inside_ok _
    refine inside_loop fun w _ hw => ?_
    exact (windowAt_inside windows (by omega)).bind fun window => inside_ok _

omit [Ui] in
/-- A list whose number fits, after one whose number fits: the compositor keeps the number. -/
theorem updateWindowSnapshot_safe (fbHeight : ℕ) (outcome : ℕ → Outcome) {s : Snapshot}
    (hs : s.windowSnapshotCount ≤ kMaxWindows) {answer : Answer}
    (h : fetchWindows answer ≤ kMaxWindows) :
    Safe (updateWindowSnapshot fbHeight outcome s answer) fun s' =>
      s'.windowSnapshotCount = fetchWindows answer := by
  have hdiffer := windowsDiffer_inside answer.windows s.windowSnapshot h
  unfold updateWindowSnapshot
  refine Safe.bind (inside_doWhen _ hdiffer _) fun changed _ => ?_
  have hlog := logNewWindows_inside fbHeight outcome hs answer.windows (fetchWindows answer)
  refine Safe.bind (inside_doWhen _ hlog _) fun current _ => ?_
  have hforget := forgetUnshownSurfaces_inside s.surfaceCache current h
  refine Safe.bind (inside_doWhen _ hforget _) fun cache _ => ?_
  refine Safe.bind (inside_loop fun i windows hi => ?_) fun windowSnapshot _ => safe_ok rfl
  refine (windowAt_inside current (by omega)).bind fun window => ?_
  exact (setWindow_inside windows (by omega) window).bind fun windows => inside_ok _

omit [Ui] in
/-- Visiting the first `count` windows stays inside. -/
theorem forEach_inside (windows : WindowArray) {count : ℕ} (h : count ≤ kMaxWindows) (s : σ)
    (f : σ → WindowEntry → σ) : Inside (forEach windows count s f) := by
  refine inside_loop fun i s hi => ?_
  exact (windowAt_inside windows (by omega)).bind fun window => inside_ok _

omit [Ui] in
/-- Looking a window up by its id stays inside. -/
theorem windowById_inside (windows : WindowArray) {count : ℕ} (h : count ≤ kMaxWindows) (id : ℕ) :
    Inside (windowById windows count id) := by
  refine inside_loop fun i _ hi => ?_
  exact (windowAt_inside windows (by omega)).bind fun window => inside_ok _

/-- Looking for the window under a point stays inside. -/
theorem topWindowAt_inside (windows : WindowArray) {count : ℕ} (h : count ≤ kMaxWindows)
    (x y : ℤ) : Inside (topWindowAt windows count x y) := by
  refine inside_loop fun i _ hi => ?_
  exact (windowAt_inside windows (by omega)).bind fun window => inside_ok _

omit [Ui] in
/-- Looking up a tile's window stays inside. -/
theorem tileWindow_inside (tile : TaskbarTile) (windows : WindowArray) {count : ℕ}
    (h : count ≤ kMaxWindows) : Inside (tileWindow tile windows count) := by
  unfold tileWindow
  split
  · exact (windowById_inside windows h _).bind fun window => inside_ok _
  · exact forEach_inside windows h _ _

omit [Ui] in
/-- Laying the taskbar out stays inside. -/
theorem taskbarLayout_inside (screenWidth screenHeight : ℕ) (windows : WindowArray) {count : ℕ}
    (h : count ≤ kMaxWindows) :
    Inside (taskbarLayout screenWidth screenHeight windows count) :=
  (forEach_inside windows h _ _).bind fun _ => inside_ok _

/-- Measuring a tooltip stays inside. -/
theorem taskbarTooltipRect_inside (layout : TaskbarLayout) (tile : Option ℕ)
    (windows : WindowArray) {count : ℕ} (h : count ≤ kMaxWindows) :
    Inside (taskbarTooltipRect layout tile windows count) := by
  unfold taskbarTooltipRect
  split
  · exact inside_ok _
  · exact (tileWindow_inside _ windows h).bind fun window => inside_ok _

/-- The routing of an event to a program. -/
theorem routePointerToWindow_inside (i : Pointed) (drag : DragState) (route : PointerRoute)
    (windows : WindowArray) {count : ℕ} (h : count ≤ kMaxWindows) :
    Inside (routePointerToWindow i drag route windows count) := by
  unfold routePointerToWindow
  split
  · exact inside_ok _
  refine (inside_doWhen _ (windowById_inside windows h _) _).bind fun target => ?_
  split
  · exact inside_ok _
  refine (taskbarLayout_inside _ _ windows h).bind fun layout => ?_
  split
  · exact inside_ok _
  exact (topWindowAt_inside windows h _ _).bind fun top => inside_ok _

/-- Following the pointer over the controls stays inside. -/
theorem updateControlHover_inside (i : Pointed) (s : PointerState) (windows : WindowArray)
    {count : ℕ} (h : count ≤ kMaxWindows) :
    Inside (updateControlHover i s windows count) := by
  have htile : ∀ layout tile, Inside (followTile layout tile s.taskbarHover windows count) := by
    intro layout tile
    refine (taskbarTooltipRect_inside layout _ windows h).bind fun before => ?_
    exact (taskbarTooltipRect_inside layout tile windows h).bind fun after => inside_ok _
  have hunder : Inside (controlUnder i windows count) :=
    (topWindowAt_inside windows h _ _).bind fun top => inside_ok _
  have hcontrol : ∀ hover, Inside (followControl s.windowHover hover windows count) := by
    intro hover
    refine (windowById_inside windows h _).bind fun old => ?_
    exact (windowById_inside windows h _).bind fun now => inside_ok _
  refine (taskbarLayout_inside _ _ windows h).bind fun layout => ?_
  refine (inside_doWhen _ (htile layout _) _).bind fun _ => ?_
  refine (inside_doWhen _ hunder _).bind fun hover => ?_
  exact (inside_doWhen _ (hcontrol hover) _).bind fun _ => inside_ok _

/-- The compositor's own part of an event. -/
theorem handlePointerEvent_inside (i : Pointed) (s : PointerState) (windows : WindowArray)
    {count : ℕ} (h : count ≤ kMaxWindows) :
    Inside (handlePointerEvent i s windows count) := by
  have hpress : Inside (pressLeft i windows count) := by
    refine (taskbarLayout_inside _ _ windows h).bind fun layout => ?_
    split
    · unfold taskbarClick
      split
      · exact inside_ok _
      · exact tileWindow_inside _ windows h
    · exact inside_ok _
    · exact inside_ok _
    · exact topWindowAt_inside windows h _ _
  refine (updateControlHover_inside i s windows h).bind fun _ => ?_
  refine (inside_doWhen _ (windowById_inside windows h _) _).bind fun dragged => ?_
  exact inside_doWhen _ hpress _

/-- Drawing the taskbar stays inside. -/
theorem drawTaskbar_inside (canvasWidth canvasHeight : ℕ) (taskbarHover : Option ℕ)
    (windows : WindowArray) {count : ℕ} (h : count ≤ kMaxWindows) :
    Inside (drawTaskbar canvasWidth canvasHeight taskbarHover windows count) := by
  have htip : ∀ layout, Inside (drawTooltip layout taskbarHover windows count) := by
    intro layout
    unfold drawTooltip
    split
    · exact inside_ok _
    · refine (taskbarTooltipRect_inside layout _ windows h).bind fun tip => ?_
      exact (tileWindow_inside _ windows h).bind fun window => inside_ok _
  refine (taskbarLayout_inside _ _ windows h).bind fun layout => ?_
  refine Inside.bind ?_ fun tiles => ?_
  · refine inside_loop fun i tiles _ => ?_
    exact (tileWindow_inside _ windows h).bind fun window => inside_ok _
  · exact (htip layout).bind fun _ => inside_ok _

/-- The software backend's drawing. -/
theorem drawScene_inside (canvasWidth canvasHeight : ℕ) (clip : Rect) (taskbarHover : Option ℕ)
    (windows : WindowArray) {count : ℕ} (h : count ≤ kMaxWindows) :
    Inside (drawScene canvasWidth canvasHeight clip taskbarHover windows count) := by
  refine (forEach_inside windows h _ _).bind fun drawn => ?_
  exact (drawTaskbar_inside _ _ _ windows h).bind fun _ => inside_ok _

/-- The GPU backend's drawing. -/
theorem drawFrame_inside (width height : ℕ) (stale : Bool) (taskbarHover : Option ℕ)
    (windows : WindowArray) {count : ℕ} (h : count ≤ kMaxWindows) :
    Inside (drawFrame width height stale taskbarHover windows count) := by
  have hbar : Inside (drawBar width height stale taskbarHover windows count) := by
    refine (forEach_inside windows h _ _).bind fun key => ?_
    exact (inside_doWhen _ (drawTaskbar_inside _ _ _ windows h) _).bind fun _ => inside_ok _
  have htip : ∀ layout, Inside (drawTip width height layout taskbarHover windows count) := by
    intro layout
    refine (taskbarTooltipRect_inside layout _ windows h).bind fun tip => ?_
    exact (inside_doWhen _ (drawTaskbar_inside _ _ _ windows h) _).bind fun _ => inside_ok _
  refine (forEach_inside windows h _ _).bind fun drawn => ?_
  refine (taskbarLayout_inside _ _ windows h).bind fun layout => ?_
  refine (inside_doWhen _ hbar _).bind fun _ => ?_
  exact (inside_doWhen _ (htip layout) _).bind fun _ => inside_ok _

/-- A step whose number fits, from a number that fits. -/
theorem step_safe (fbWidth fbHeight : ℕ) {s : Snapshot}
    (hs : s.windowSnapshotCount ≤ kMaxWindows) (i : Step)
    (hi : ∀ answer outcome, i = .updateWindowSnapshot answer outcome →
      fetchWindows answer ≤ kMaxWindows) :
    Safe (step fbWidth fbHeight s i) fun s' => s'.windowSnapshotCount ≤ kMaxWindows := by
  cases i with
  | pumpSurfaceUpdates polled => exact safe_ok hs
  | updateWindowSnapshot answer outcome =>
    have hanswer := hi answer outcome rfl
    refine (updateWindowSnapshot_safe fbHeight outcome hs hanswer).mono fun s' hs' => ?_
    rw [hs']
    exact hanswer
  | routePointerToWindow event drag route =>
    exact Safe.bind (routePointerToWindow_inside _ drag route _ hs) fun _ _ => safe_ok hs
  | handlePointerEvent event pointer =>
    exact Safe.bind (handlePointerEvent_inside _ pointer _ hs) fun _ _ => safe_ok hs
  | redrawScene clip taskbarHover =>
    exact Safe.bind (drawScene_inside _ _ clip taskbarHover _ hs) fun _ _ => safe_ok hs
  | drawFrame stale taskbarHover =>
    exact Safe.bind (drawFrame_inside _ _ stale taskbarHover _ hs) fun _ _ => safe_ok hs
  | consumeSurfaceDirtyRect =>
    exact Safe.bind (forEach_inside _ hs _ _) fun _ _ => safe_ok hs

/-! ## Numbers that do not -/

omit [Ui] in
/-- A loop over all windows reads past the array. -/
theorem not_inside_forEach (windows : WindowArray) {count : ℕ} (h : kMaxWindows < count) (s : σ)
    (f : σ → WindowEntry → σ) : ¬Inside (forEach windows count s f) := by
  refine not_safe_loopFrom (k := kMaxWindows) ⟨by omega, by omega⟩ ?_ ?_ s _
  · -- No pass stops the loop.
    intro j s r hr
    obtain ⟨window, -, hr⟩ := ok_of_bind hr
    rw [← Except.ok.inj hr]
  · -- There is no entry behind the last one.
    rintro s post ⟨r, hr, -⟩
    obtain ⟨window, hwindow, -⟩ := ok_of_bind hr
    have hread : windowAt windows kMaxWindows = .error (.read kMaxWindows) := by
      unfold windowAt readAt
      rw [List.getElem?_eq_none (Nat.le_of_eq (Vector.length_toList ..))]
    rw [hread] at hwindow
    exact nomatch hwindow

omit [Ui] in
/-- The number is kept as it is. -/
theorem updateWindowSnapshot_count {fbHeight : ℕ} {outcome : ℕ → Outcome} {s s' : Snapshot}
    {answer : Answer} (h : updateWindowSnapshot fbHeight outcome s answer = .ok s') :
    s'.windowSnapshotCount = fetchWindows answer := by
  unfold updateWindowSnapshot at h
  obtain ⟨changed, -, h⟩ := ok_of_bind h
  obtain ⟨current, -, h⟩ := ok_of_bind h
  obtain ⟨cache, -, h⟩ := ok_of_bind h
  obtain ⟨windowSnapshot, -, h⟩ := ok_of_bind h
  rw [← Except.ok.inj h]

/-- Every run on the kernel's answers stays inside the arrays of windows exactly when each answer
returns a number of windows that they have room for, or that of a failure. -/
theorem runs_inside_iff (fbWidth fbHeight : ℕ) (answers : Set Answer) :
    (∀ steps, AnsweredBy answers steps → Inside (run fbWidth fbHeight steps)) ↔
      ∀ answer ∈ answers, fetchWindows answer ≤ kMaxWindows := by
  constructor
  · intro h answer hanswer
    by_contra hcount
    -- The scene is drawn after the list.
    have hrun := h [.updateWindowSnapshot answer fun _ => ⟨true, true, true⟩,
      .redrawScene ⟨0, 0, fbWidth, fbHeight⟩ none] ?_
    · obtain ⟨t, ht, -⟩ := hrun
      unfold run at ht
      rw [List.foldlM_cons] at ht
      obtain ⟨s, hs, ht⟩ := ok_of_bind ht
      rw [List.foldlM_cons] at ht
      obtain ⟨s', hs', -⟩ := ok_of_bind ht
      obtain ⟨drawn, hdrawn, -⟩ := ok_of_bind hs'
      obtain ⟨windows, hwindows, -⟩ := ok_of_bind hdrawn
      refine not_inside_forEach s.windowSnapshot ?_ _ _ ⟨windows, hwindows, trivial⟩
      rw [updateWindowSnapshot_count hs]
      omega
    · intro answer' outcome hmem
      rcases List.mem_cons.1 hmem with heq | hmem
      · rw [(Step.updateWindowSnapshot.inj heq).1]
        exact hanswer
      · exact nomatch List.mem_singleton.1 hmem
  · intro h steps hsteps
    -- The number that is kept is the last answer's, or zero before the first list.
    have hrun : Safe (run fbWidth fbHeight steps) fun s =>
        s.windowSnapshotCount ≤ kMaxWindows := by
      refine foldlM_safe ?_ (Nat.zero_le _)
      intro s i hi hs
      refine step_safe fbWidth fbHeight hs i ?_
      rintro answer outcome rfl
      exact h answer (hsteps answer outcome hi)
    exact hrun.mono fun _ _ => trivial

omit [Ui] in
/-- An answer of 64 windows of a screen on which there are 65. -/
def sixtyFive : Answer where
  windows := Vector.ofFn fun i =>
    ⟨i.val + 1, 1, 0, ⟨false, false, false, false⟩, 8, 8, 200, 100, 0, 0, "Cube"⟩
  count := 65

omit [Ui] in
/-- A second list with the same windows is compared with the first one past the end of both. -/
theorem sixtyFive_outside :
    let update := Step.updateWindowSnapshot sixtyFive fun _ => ⟨true, true, true⟩
    @run plainUi 1280 800 [update, update] = .error (.read 64) ∧
      ¬Inside (@run plainUi 1280 800 [update, update]) := by
  intro update
  have hrun : @run plainUi 1280 800 [update, update] = .error (.read 64) := by rfl
  refine ⟨hrun, ?_⟩
  rintro ⟨s, hs, -⟩
  rw [hrun] at hs
  exact nomatch hs

end IUserApps.Compositor.Counted
