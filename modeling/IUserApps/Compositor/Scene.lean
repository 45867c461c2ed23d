import IUserApps.Compositor.Backdrop
import IUserApps.Compositor.WindowDrawing

/-!
# The scene

The canvas calls for the whole scene (`scene.cpp`, and `draw_background` of `background.cpp`):
the wallpaper, the windows from the bottom to the top, the taskbar with its tooltip. A part of the
scene is drawn again with a clip, and what the clip does not need is left out.

Drawing a part again makes it what drawing all of the scene would, whatever the canvas held before,
and leaves the rest (`redrawSceneRect_at`).
-/

namespace IUserApps.Compositor

open Pictures

/-- The colour at the top of the desktop. -/
def kBackground : ℕ := 0x00101820
/-- The colour at the bottom of the desktop. -/
def kBackgroundBottom : ℕ := 0x001d2b3a
/-- The radius of the taskbar's corners. -/
def kTaskbarRadius : ℤ := 14
/-- The radius of the start button's corners. -/
def kStartRadius : ℤ := 10
/-- The radius of a tile's corners. -/
def kTileRadius : ℤ := 10
/-- The side of the icon on a tile. -/
def kTileIconSize : ℤ := 22
/-- The side of an icon in the tray. -/
def kTrayIconSize : ℤ := 18

/-- `DesktopBackground`: its pixels, if it has any, and the blurred part under the taskbar. -/
structure Background where
  wallpaper : Option DesktopBackground
  ready : Bool
  barBlur : Option BarBlur

/-- "29 Oct 2026". -/
def formatDate (now : DateTime) : String :=
  let digit (n : ℕ) : String := String.singleton (Char.ofNat (48 + n))
  let month := if 1 ≤ now.month then
      ["Jan", "Feb", "Mar", "Apr", "May", "Jun", "Jul", "Aug", "Sep", "Oct", "Nov", "Dec"].getD
        (now.month - 1) ""
    else ""
  (if 10 ≤ now.day then digit (now.day / 10) else "") ++ digit (now.day % 10) ++ " " ++ month ++
    " " ++ digit (now.year / 1000 % 10) ++ digit (now.year / 100 % 10) ++
    digit (now.year / 10 % 10) ++ digit (now.year % 10)

example : formatDate ⟨2026, 10, 29, 0, 0⟩ = "29 Oct 2026" := by decide

variable [Ui] [UiCanvas]

/-- The images of the taskbar. -/
structure TaskbarAssets where
  /-- The app icons at tile size: of an app that runs and of one that does not. -/
  apps : ℕ → Bool → Icon kTileIconSize
  wifi : Icon kTrayIconSize
  wifiOff : Icon kTrayIconSize
  volumeOff : Icon kTrayIconSize
  startFont : UiCanvas.Font

/-- What a scene is drawn from. -/
structure Scene where
  windows : List WindowInfo
  cache : SurfaceCache
  /-- The words at a surface's address. -/
  memory : ℕ → ℕ → BitVec 32
  background : Option Background
  taskbar : Option TaskbarAssets
  controls : Option WindowControlAssets
  windowHover : WindowHover
  taskbarHover : Option ℕ
  networkOnline : Bool
  now : DateTime

/-! ## The wallpaper and the bar -/

/-- A canvas of this size. -/
def screenRect (width height : ℕ) : Rect := ⟨0, 0, width, height⟩

omit [Ui] in
/-- The wallpaper, or the default gradient without one. -/
def drawBackground (width height : ℕ) (background : Option Background) : List CanvasCall :=
  match background.bind (fun b => b.wallpaper.filter fun w =>
      b.ready && decide (w.width = width ∧ w.height = height)) with
  | none =>
    [.gradient (screenRect width height) (UiCanvas.rgb kBackground) (UiCanvas.rgb kBackgroundBottom)]
  | some w => [.copy w.pixels w.width (screenRect width height) 0 0 false]

/-- A row of the blurred wallpaper, cut to the bar's rounded corners. -/
def barBackdropRow (blur : ℕ → BitVec 32) (bar area : Rect) (y : ℤ) : List CanvasCall :=
  let inside := fun x => Ui.inRoundedRect bar kTaskbarRadius x y
  let left := skipUp inside (area.right - area.x).toNat area.x
  let right := skipDown inside (area.right - left).toNat area.right
  if left < right then
    [.copy blur bar.width ⟨left - bar.x, y - bar.y, right - left, 1⟩ left y false]
  else []

/-- The blurred wallpaper under the bar. -/
def drawBarBackdrop (clip bar : Rect) (background : Option Background) : List CanvasCall :=
  match background.bind (fun b => b.barBlur.filter fun blur => blur.rect = bar) with
  | none => []
  | some blur =>
    let area := bar.intersect clip
    (rows area).flatMap (barBackdropRow blur.pixels bar area)

/-- A tile of the taskbar: a running app has a dot, the focused one a light tile and an accent bar. -/
def drawTile (windows : List WindowInfo) (assets : Option TaskbarAssets) (hover : Option ℕ)
    (layout : TaskbarLayout) (i : ℕ) : List CanvasCall :=
  let tile := layout.tiles i
  let window := tileWindow tile windows
  let active := (window.map isActive).getD false
  let icon := if 0 ≤ tile.slot then tile.slot.toNat
    else titleIconIndex ((window.map (·.title)).getD "")
  (if active then [.fillRounded tile.rect kTileRadius (UiCanvas.rgba 0xffffff 26)]
    else if some i = hover then [.fillRounded tile.rect kTileRadius (UiCanvas.rgba 0xffffff 15)]
    else []) ++
  iconCalls (assets.map fun a => a.apps icon window.isSome)
    (tile.rect.x + (kTileSize - kTileIconSize).tdiv 2)
    (tile.rect.y + (kTileSize - kTileIconSize).tdiv 2 - 1) ++
  (if active then
    [.fillRounded ⟨tile.rect.x + (kTileSize - 16).tdiv 2, tile.rect.bottom - 4, 16, 3⟩ 2
      UiCanvas.theme.accentLight]
  else if window.isSome then
    [.fillRounded ⟨tile.rect.x + (kTileSize - 6).tdiv 2, tile.rect.bottom - 4, 6, 3⟩ 2
      UiCanvas.theme.textDim]
  else [])

/-- The hovered tile's tooltip. -/
def drawTooltip (windows : List WindowInfo) (hover : Option ℕ) (layout : TaskbarLayout) :
    List CanvasCall :=
  match hover.filter (fun i => i < layout.tileCount) with
  | none => []
  | some i =>
    let tile := layout.tiles i
    let tip := taskbarTooltipRect layout (some i) windows
    [.fillRounded tip 8 UiCanvas.theme.tooltip, .frame tip UiCanvas.theme.border 1 8,
      .text tip (tileLabel tile (tileWindow tile windows)) UiCanvas.theme.fontSmall
        UiCanvas.theme.text .center]

/-- The bar with its start button, before the tiles. -/
def drawBar (clip : Rect) (layout : TaskbarLayout) (assets : Option TaskbarAssets)
    (background : Option Background) : List CanvasCall :=
  let bar := layout.bar
  let startFont := match assets.filter (fun a => UiCanvas.fontValid a.startFont) with
    | some a => a.startFont
    | none => UiCanvas.theme.fontMedium
  drawBarBackdrop clip bar background ++
  [.fillRounded bar kTaskbarRadius (UiCanvas.rgba 0x0e131b 219),
    .frame bar UiCanvas.theme.border 1 kTaskbarRadius,
    .fillRounded layout.start kStartRadius UiCanvas.theme.accent,
    .text layout.start "IO" startFont UiCanvas.theme.accentText .center,
    .text ⟨layout.start.right + 10, bar.y, 120, bar.height⟩ "InstantOS" UiCanvas.theme.fontMedium
      UiCanvas.theme.text .left]

/-- Network, sound, then the clock. -/
def drawTray (bar : Rect) (assets : Option TaskbarAssets) (networkOnline : Bool) (now : DateTime) :
    List CanvasCall :=
  let trayY := bar.y + (kTaskbarHeight - kTrayIconSize).tdiv 2
  iconCalls (assets.map fun a => if networkOnline then a.wifi else a.wifiOff)
    (bar.right - 168) trayY ++
  iconCalls (assets.map (·.volumeOff)) (bar.right - 138) trayY ++
  [.fill ⟨bar.right - 108, bar.y + 14, 1, kTaskbarHeight - 28⟩ UiCanvas.theme.border,
    .text ⟨bar.right - 104, bar.y + 7, 88, 20⟩ (UiCanvas.timeString now) UiCanvas.theme.fontMedium
      UiCanvas.theme.text .right,
    .text ⟨bar.right - 104, bar.y + 26, 88, 18⟩ (formatDate now) UiCanvas.theme.fontSmall
      UiCanvas.theme.textDim .right]

/-- The calls that draw the taskbar. -/
def drawTaskbar (width height : ℕ) (clip : Rect) (scene : Scene) : List CanvasCall :=
  let layout := taskbarLayout width height scene.windows
  drawBar clip layout scene.taskbar scene.background ++
  (List.range layout.tileCount).flatMap
    (drawTile scene.windows scene.taskbar scene.taskbarHover layout) ++
  drawTray layout.bar scene.taskbar scene.networkOnline scene.now ++
  drawTooltip scene.windows scene.taskbarHover layout

/-! ## All of the scene -/

variable [ShadowTables]

/-- A window, unless the clip does not reach it. -/
def drawSceneWindow (clip : Rect) (scene : Scene) (window : WindowInfo) : List CanvasCall :=
  if isWindowVisible window = false then []
  else if ((windowDamageRect window).intersect clip).empty then []
  else
    drawWindowFrame clip scene.windowHover window scene.controls ++
    blitWindowSurface scene.memory window
      ((findSurfaceCache scene.cache window.surfaceID).map scene.cache.entries)

/-- Everything the clip covers: wallpaper, the windows that reach into it (bottom to top), the
taskbar. -/
def drawScene (width height : ℕ) (clip : Rect) (scene : Scene) : List CanvasCall :=
  drawBackground width height scene.background ++
  scene.windows.flatMap (drawSceneWindow clip scene) ++
  drawTaskbar width height clip scene

/-- All of the canvas. -/
def PixelView.rect (canvas : Canvas) : Rect := screenRect canvas.width canvas.height

/-- The canvas with the scene drawn over all of it. -/
def redrawScene (canvas : Canvas) (scene : Scene) : Canvas :=
  drawCalls canvas canvas.rect (drawScene canvas.width canvas.height canvas.rect scene)

/-- The canvas with the scene drawn again inside a rectangle. -/
def redrawSceneRect (canvas : Canvas) (scene : Scene) (dirty : Rect) : Canvas :=
  let clip := canvas.rect.intersect dirty
  if clip.empty then canvas
  else drawCalls canvas clip (drawScene canvas.width canvas.height clip scene)

/-! ## A part of the scene again -/

section Again

variable [LawfulRects] [LawfulShapes] {clip clip' : Rect} {p : ℤ × ℤ}

section Bar

omit [ShadowTables] [LawfulRects]

/-- A row of the taskbar's backdrop stays in its row. -/
theorem barBackdropRow_in (blur : ℕ → BitVec 32) (bar area : Rect) (y : ℤ) :
    DrawIn (Rect.Mem ⟨area.x, y, area.width, 1⟩) (barBackdropRow blur bar area y) := by
  unfold barBackdropRow
  simp only
  set left := skipUp (fun x => Ui.inRoundedRect bar kTaskbarRadius x y)
    (area.right - area.x).toNat area.x
  have hlo := (skipUp_spec (fun x => Ui.inRoundedRect bar kTaskbarRadius x y)
    (area.right - area.x).toNat area.x).1
  have hhi := (skipDown_spec (fun x => Ui.inRoundedRect bar kTaskbarRadius x y)
    (area.right - left).toNat area.right).1
  rw [LawfulShapes.right_eq] at hhi ⊢
  split_ifs
  · refine .singleton ?_
    simp only [CanvasCall.extent, Rect.Mem]
    omega
  · exact .nil

/-- A row of the bar's backdrop is the blurred wallpaper inside the bar's rounded shape. -/
theorem barBackdropRow_wordAt (blur : ℕ → BitVec 32) {bar area : Rect} {y : ℤ} (hp : p.2 = y)
    (hx : area.x ≤ p.1) (hx' : p.1 < area.x + area.width) (w : BitVec 32) :
    wordAt (barBackdropRow blur bar area y) p w =
      if Ui.inRoundedRect bar kTaskbarRadius p.1 p.2 = true then
        UiCanvas.copyWord false (blur ((p.2 - bar.y) * bar.width + (p.1 - bar.x)).toNat)
      else w := by
  have hgaps := LawfulShapes.rounded_noGaps bar kTaskbarRadius y
  have hle := (skipUp_spec (fun x => Ui.inRoundedRect bar kTaskbarRadius x y)
    (area.right - area.x).toNat area.x).2.1
  unfold barBackdropRow
  simp only
  set left := skipUp (fun x => Ui.inRoundedRect bar kTaskbarRadius x y)
    (area.right - area.x).toNat area.x with hleft
  set right := skipDown (fun x => Ui.inRoundedRect bar kTaskbarRadius x y)
    (area.right - left).toNat area.right with hright
  rw [LawfulShapes.right_eq] at hle hright hleft
  have hspan := mem_span_iff hgaps (by omega) hleft (by omega) hright p.1
  simp only [← hp] at hspan
  have hplace : left = bar.x + (left - bar.x) ∧ y = bar.y + (y - bar.y) := by omega
  split_ifs with hlr hin hin
  · have hcolumn := hspan.2 ⟨hx, hx', hin⟩
    rw [copy_wordAt hplace.1 hplace.2, if_pos]
    simp only [Rect.Mem]
    omega
  · rw [copy_wordAt hplace.1 hplace.2, if_neg]
    simp only [Rect.Mem]
    intro hmem
    exact hin (hspan.1 ⟨by omega, by omega⟩).2.2
  · have hcolumn := hspan.2 ⟨hx, hx', hin⟩
    omega
  · rfl

end Bar

omit [ShadowTables] in
/-- The bar's backdrop makes a pixel of the clip the same with any clip that has it. -/
theorem drawBarBackdrop_same (hp : clip.Mem p.1 p.2) (hp' : clip'.Mem p.1 p.2) (bar : Rect)
    (background : Option Background) :
    DrawSame p (drawBarBackdrop clip bar background) (drawBarBackdrop clip' bar background) := by
  unfold drawBarBackdrop
  split
  · exact .refl _
  · next blur _ =>
    simp only
    -- With any clip that has the pixel, it is the bar's if it is inside the rounded shape.
    have hone : ∀ {c : Rect}, c.Mem p.1 p.2 → ∀ w,
        wordAt ((rows (bar.intersect c)).flatMap
          (barBackdropRow blur.pixels bar (bar.intersect c))) p w =
        if bar.Mem p.1 p.2 ∧ Ui.inRoundedRect bar kTaskbarRadius p.1 p.2 = true then
          UiCanvas.copyWord false (blur.pixels ((p.2 - bar.y) * bar.width + (p.1 - bar.x)).toNat)
        else w := by
      intro c hc w
      have hmem : (bar.intersect c).Mem p.1 p.2 ↔ bar.Mem p.1 p.2 := by
        rw [LawfulRects.mem_intersect]
        exact and_iff_left hc
      generalize bar.intersect c = area at hmem ⊢
      have hmiss : ∀ y, y ≠ p.2 → ∀ call ∈ barBackdropRow blur.pixels bar area y,
          Misses CanvasCall.stroke call p := fun y hy => (barBackdropRow_in _ _ _ _).misses (by
        simp only [Rect.Mem]
        omega)
      by_cases hbar : bar.Mem p.1 p.2
      · obtain ⟨hx, hx', hy⟩ := hmem.2 hbar
        have hrows := colorAt_flatMap_one (rows_nodup area) p.2 (fun y _ hy => hmiss y hy) w
        rw [if_pos (mem_rows.2 hy)] at hrows
        simp only [hbar, true_and]
        exact hrows.trans (barBackdropRow_wordAt _ rfl hx hx' w)
      · rw [if_neg (fun h => hbar h.1)]
        refine colorAt_of_misses (fun call hcall => ?_) w
        obtain ⟨y, hy, hcall⟩ := List.mem_flatMap.1 hcall
        rw [mem_rows] at hy
        refine (barBackdropRow_in _ _ _ _).misses (fun h => hbar (hmem.1 ?_)) call hcall
        simp only [Rect.Mem] at h ⊢
        omega
    exact fun w => (hone hp w).trans (hone hp' w).symm

omit [ShadowTables] in
/-- The taskbar colours a point the same under every clip that holds it. -/
theorem drawTaskbar_same (hp : clip.Mem p.1 p.2) (hp' : clip'.Mem p.1 p.2) (width height : ℕ)
    (scene : Scene) :
    DrawSame p (drawTaskbar width height clip scene) (drawTaskbar width height clip' scene) := by
  unfold drawTaskbar drawBar
  exact .append (.append (.append (.append (drawBarBackdrop_same hp hp' _ _) (.refl _)) (.refl _))
    (.refl _)) (.refl _)

/-- The windows that show are wide enough for their controls. -/
def AllFit (windows : List WindowInfo) : Prop :=
  ∀ window ∈ windows, isWindowVisible window = true → FitsControls window

/-- A window is drawn in its damage. -/
theorem drawSceneWindow_in {scene : Scene} {window : WindowInfo}
    (hfits : isWindowVisible window = true → FitsControls window) :
    DrawIn (windowDamageRect window).Mem (drawSceneWindow clip scene window) := by
  unfold drawSceneWindow
  split_ifs with hvisible
  · exact .nil
  · exact .nil
  · have hfits := hfits (by simpa using hvisible)
    refine .append (drawWindowFrame_in hfits) ((blitWindowSurface_in _).mono fun x y hmem => ?_)
    obtain ⟨hwidth, hheight⟩ := hfits
    simp only [contentRect, windowDamageRect, windowFrameRect, frameWidth, frameHeight, kBorder,
      kTitleBarHeight, kShadowMargin, kShadowBlur, kShadowOffsetY, Rect.Mem] at hmem ⊢
    omega

/-- A window with room for its controls colours a point the same under every clip that holds it. -/
theorem drawSceneWindow_same {scene : Scene} {window : WindowInfo}
    (hfits : isWindowVisible window = true → FitsControls window) (hp : clip.Mem p.1 p.2)
    (hp' : clip'.Mem p.1 p.2) :
    DrawSame p (drawSceneWindow clip scene window) (drawSceneWindow clip' scene window) := by
  by_cases hreach : (windowDamageRect window).Mem p.1 p.2
  · have hin : ∀ {c : Rect}, c.Mem p.1 p.2 →
        ((windowDamageRect window).intersect c).empty = false :=
      fun hc => empty_of_mem ((LawfulRects.mem_intersect _ _ _ _).2 ⟨hreach, hc⟩)
    unfold drawSceneWindow
    split_ifs with hvisible hempty hempty' hempty'
    · exact .refl _
    · exact .refl _
    · exact absurd hempty (by simp [hin hp])
    · exact absurd hempty' (by simp [hin hp'])
    · exact .append (drawWindowFrame_same (hfits (by simpa using hvisible)) hp hp') (.refl _)
  · exact (drawSceneWindow_in hfits).drawSame (drawSceneWindow_in hfits) hreach

/-- The scene has a pixel the same with any clip that has the pixel. -/
theorem drawScene_same {scene : Scene} (hfits : AllFit scene.windows) (hp : clip.Mem p.1 p.2)
    (hp' : clip'.Mem p.1 p.2) (width height : ℕ) :
    DrawSame p (drawScene width height clip scene) (drawScene width height clip' scene) :=
  .append (.append (.refl _) (.flatMap fun window hwindow =>
    drawSceneWindow_same (hfits window hwindow) hp hp')) (drawTaskbar_same hp hp' width height scene)

omit [LawfulRects] [LawfulShapes] in
/-- The wallpaper covers the screen, so what was there before does not show. -/
theorem drawScene_covers (width height : ℕ) (scene : Scene)
    (hp : (screenRect width height).Mem p.1 p.2) (w w' : BitVec 32) :
    wordAt (drawScene width height clip scene) p w =
      wordAt (drawScene width height clip scene) p w' := by
  have hcover : ∃ call, drawBackground width height scene.background = [call] ∧
      Covers CanvasCall.stroke call p := by
    unfold drawBackground
    split
    · exact ⟨_, rfl, covers_of_mem hp (.inl ⟨_, _, _, rfl⟩)⟩
    · exact ⟨_, rfl, covers_of_mem hp (.inr ⟨_, _, _, _, _, _, rfl⟩)⟩
  obtain ⟨call, hcall, hcovers⟩ := hcover
  unfold drawScene
  rw [hcall, List.append_assoc]
  exact colorAt_of_covers hcovers w w'

/-- The pixel of a scene. -/
def scenePixel (width height : ℕ) (scene : Scene) (p : ℤ × ℤ) : BitVec 32 :=
  wordAt (drawScene width height (screenRect width height) scene) p 0

omit [Ui] [UiCanvas] [ShadowTables] [LawfulRects] [LawfulShapes] in
/-- A pixel of the canvas is on the screen. -/
theorem mem_screenRect {canvas : Canvas} {x y : ℕ} (h : canvas.Has x y) :
    (screenRect canvas.width canvas.height).Mem x y := by
  obtain ⟨hx, hy⟩ := h
  simp only [screenRect, Rect.Mem]
  omega

omit [LawfulRects] [LawfulShapes] in
/-- Drawing all of the scene gives each pixel of the canvas the scene's. -/
theorem redrawScene_at (canvas : Canvas) (scene : Scene) {x y : ℕ} (h : canvas.Has x y) :
    (redrawScene canvas scene).at x y = scenePixel canvas.width canvas.height scene (x, y) := by
  have hmem := mem_screenRect h
  rw [redrawScene, drawCalls_at canvas _ _ h, PixelView.rect, if_pos hmem]
  exact drawScene_covers _ _ _ hmem _ _

/-- Drawing a part of the scene again gives each pixel of the part the scene's, and leaves the
others, whatever the canvas held. -/
theorem redrawSceneRect_at (canvas : Canvas) {scene : Scene} (hfits : AllFit scene.windows)
    (dirty : Rect) {x y : ℕ} (h : canvas.Has x y) :
    (redrawSceneRect canvas scene dirty).at x y =
      if dirty.Mem x y then scenePixel canvas.width canvas.height scene (x, y)
      else canvas.at x y := by
  have hscreen := mem_screenRect h
  have hclip : (canvas.rect.intersect dirty).Mem x y ↔ dirty.Mem x y := by
    rw [LawfulRects.mem_intersect]
    exact and_iff_right hscreen
  unfold redrawSceneRect
  simp only
  by_cases hempty : (canvas.rect.intersect dirty).empty = true
  · rw [if_pos hempty, if_neg (fun hdirty => not_mem_of_empty hempty _ _ (hclip.2 hdirty))]
  · rw [if_neg hempty, drawCalls_at canvas _ _ h]
    refine if_ctx_congr hclip (fun hdirty => ?_) fun _ => rfl
    have hsame := drawScene_same (p := ((x : ℤ), (y : ℤ))) hfits (hclip.2 hdirty) hscreen
      canvas.width canvas.height (canvas.at x y)
    exact hsame.trans (drawScene_covers _ _ _ hscreen _ _)

/-- Drawing a part of the scene again agrees with drawing all of it, on the part, and leaves the
rest. -/
theorem redrawSceneRect_eq (canvas other : Canvas) (hsize : canvas.SameSize other) {scene : Scene}
    (hfits : AllFit scene.windows) (dirty : Rect) {x y : ℕ} (h : canvas.Has x y) :
    (redrawSceneRect canvas scene dirty).at x y =
      if dirty.Mem x y then (redrawScene other scene).at x y else canvas.at x y := by
  obtain ⟨hwidth, hheight⟩ := hsize
  have hother : other.Has x y := by
    obtain ⟨hx, hy⟩ := h
    exact ⟨hwidth ▸ hx, hheight ▸ hy⟩
  rw [redrawSceneRect_at canvas hfits dirty h, redrawScene_at other scene hother, hwidth, hheight]

end Again

/-! ## The windows' surfaces -/

section Surfaces

variable [LawfulRects] [LawfulShapes] {p : ℤ × ℤ} {width height : ℕ} {scene : Scene}
  {window : WindowInfo} {above below : List WindowInfo} {entry : SurfaceCacheEntry}

omit [ShadowTables] [LawfulRects] [LawfulShapes] in
/-- A tooltip stays in its rectangle. -/
theorem drawTooltip_in {windows : List WindowInfo} (layout : TaskbarLayout) (hover : Option ℕ) :
    DrawIn (taskbarTooltipRect layout hover windows).Mem (drawTooltip windows hover layout) := by
  unfold drawTooltip
  cases hfilter : hover.filter (fun i => i < layout.tileCount) with
  | none => exact .nil
  | some i =>
    obtain ⟨hhover, -⟩ := Option.filter_eq_some_iff.1 hfilter
    rw [hhover]
    exact .cons (fun _ _ h => h) (.cons (fun _ _ h => h) (.singleton fun _ _ h => h))

omit [Ui] [UiCanvas] [ShadowTables] [LawfulRects] [LawfulShapes] in
/-- Adding tiles leaves the bar and the start button. -/
theorem foldl_addTile_bar (windows : List WindowInfo) (layout : TaskbarLayout) :
    (windows.foldl addTile layout).bar = layout.bar ∧
      (windows.foldl addTile layout).start = layout.start := by
  induction windows generalizing layout with
  | nil => exact ⟨rfl, rfl⟩
  | cons window windows ih =>
    obtain ⟨hbar, hstart⟩ := ih (addTile layout window)
    rw [List.foldl_cons, hbar, hstart]
    unfold addTile
    split_ifs
    all_goals exact ⟨rfl, rfl⟩

omit [Ui] [UiCanvas] [ShadowTables] [LawfulRects] [LawfulShapes] in
/-- Where the taskbar's parts are from top to bottom. -/
theorem taskbarLayout_level (width height : ℕ) (windows : List WindowInfo) :
    (taskbarLayout width height windows).bar = taskbarBarRect width height ∧
      (taskbarLayout width height windows).start.y = (taskbarBarRect width height).y + 8 ∧
      ∀ i < (taskbarLayout width height windows).tileCount,
        ((taskbarLayout width height windows).tiles i).rect.y =
          (taskbarBarRect width height).y + 4 ∧
        ((taskbarLayout width height windows).tiles i).rect.height = 44 := by
  have hplace : (kTaskbarHeight - kTileSize).tdiv 2 = 4 ∧
      (kTaskbarHeight - kStartSize).tdiv 2 = 8 := by decide
  unfold taskbarLayout
  simp only [(foldl_addTile_bar windows _).1, (foldl_addTile_bar windows _).2, hplace, true_and]
  intro i hi
  rw [if_pos hi]
  exact ⟨rfl, rfl⟩

omit [ShadowTables] in
/-- The taskbar is level with its bar, but for the tooltip. -/
theorem drawTaskbar_in (width height : ℕ) (clip : Rect) (scene : Scene) :
    DrawIn (fun x y => (taskbarBarRect width height).y ≤ y ∨
      (taskbarTooltipRect (taskbarLayout width height scene.windows) scene.taskbarHover
        scene.windows).Mem x y) (drawTaskbar width height clip scene) := by
  obtain ⟨hbar, hstart, htiles⟩ := taskbarLayout_level width height scene.windows
  unfold drawTaskbar
  simp only
  generalize taskbarLayout width height scene.windows = layout at hbar hstart htiles ⊢
  refine .append (.append (.append ?_ (.flatMap fun i hi => ?_)) ?_) ((drawTooltip_in _ _).mono
    fun x y hmem => .inr hmem)
  · -- The bar: its backdrop row by row, its edges and the start button.
    unfold drawBar
    simp only
    refine .append ?_ (.cons ?_ (.cons ?_ (.cons ?_ (.cons ?_ (.singleton ?_)))))
    · unfold drawBarBackdrop
      split
      · exact .nil
      · refine .flatMap fun y hy => (barBackdropRow_in _ _ _ _).mono fun x y' hmem => .inl ?_
        rw [mem_rows] at hy
        have hrow : (layout.bar.intersect clip).Mem x y' := by
          simp only [Rect.Mem] at hmem ⊢
          omega
        rw [LawfulRects.mem_intersect, hbar] at hrow
        exact hrow.1.2.2.1
    all_goals
      simp only [CanvasCall.extent, Rect.Mem, hbar, hstart]
      omega
  · -- A tile: a ground when it is active or hovered, its icon, and a mark below for its window.
    obtain ⟨hy, hheight⟩ := htiles i (List.mem_range.1 hi)
    have hicon : (kTileSize - kTileIconSize).tdiv 2 = 11 := by decide
    unfold drawTile
    simp only [LawfulShapes.bottom_eq, hicon]
    refine .append (.append ?_ ((iconCalls_in _ _ _).mono ?_)) ?_
    · split_ifs
      all_goals first
        | exact .nil
        | refine .singleton fun x y hmem => .inl ?_
          simp only [CanvasCall.extent, Rect.Mem] at hmem
          omega
    · simp only [Rect.Mem]
      omega
    · split_ifs
      all_goals first
        | exact .nil
        | refine .singleton fun x y hmem => .inl ?_
          simp only [CanvasCall.extent, Rect.Mem] at hmem
          omega
  · -- The tray, with its icons in the middle of the bar's height.
    have hicon : (kTaskbarHeight - kTrayIconSize).tdiv 2 = 17 := by decide
    unfold drawTray
    simp only [hbar, hicon]
    refine .append (.append ((iconCalls_in _ _ _).mono ?_) ((iconCalls_in _ _ _).mono ?_))
      (.cons ?_ (.cons ?_ (.singleton ?_)))
    all_goals
      simp only [CanvasCall.extent, Rect.Mem]
      omega

/-- The words of a surface's row, before they are an `int`. -/
def surfaceWords (entry : SurfaceCacheEntry) : ℕ :=
  if 4 ≤ entry.info.pitch then entry.info.pitch / 4 else entry.info.width

/-- A column and a row of a window's surface are a pixel of the screen. -/
def surfacePlace (window : WindowInfo) (column row : ℕ) : ℤ × ℤ :=
  (window.x + kBorder + column, window.y + kTitleBarHeight + row)

omit [Ui] [UiCanvas] [ShadowTables] [LawfulRects] [LawfulShapes] in
/-- A surface whose words are counted by an `int` is read at the pixel's own place. -/
theorem surfaceIndex_surfacePlace (window : WindowInfo) (hwords : surfaceWords entry < 2^31)
    (column row : ℕ) :
    surfaceIndex window entry (surfacePlace window column row) =
      row * surfaceWords entry + column := by
  have hpitch : sourcePitch entry = surfaceWords entry := by
    have hint : sourcePitch entry = int32 (surfaceWords entry) := by
      unfold sourcePitch surfaceWords
      split_ifs <;> simp
    rw [hint, int32]
    omega
  unfold surfaceIndex surfacePlace copiedRect
  simp only [hpitch, add_sub_cancel_left]
  exact_mod_cast Int.toNat_natCast (row * surfaceWords entry + column)

/-- A pixel of a window's content is the word of its surface in the same column and row, when no
window above reaches it and it is neither level with the taskbar nor under the tooltip. -/
theorem scenePixel_surface {column row : ℕ} (hwindows : scene.windows = below ++ window :: above)
    (hp : p = surfacePlace window column row) (hwords : surfaceWords entry < 2^31)
    (hfits : AllFit scene.windows) (hvisible : isWindowVisible window = true)
    (hentry : (findSurfaceCache scene.cache window.surfaceID).map scene.cache.entries = some entry)
    (hvalid : entry.valid = true) (haddress : entry.info.address ≠ 0)
    (hscreen : (screenRect width height).Mem p.1 p.2) (hshows : ShowsSurface window entry p)
    (habove : ∀ window' ∈ above, isWindowVisible window' = true →
      ¬(windowDamageRect window').Mem p.1 p.2)
    (hbar : p.2 < (taskbarBarRect width height).y)
    (htip : ¬(taskbarTooltipRect (taskbarLayout width height scene.windows) scene.taskbarHover
      scene.windows).Mem p.1 p.2) :
    scenePixel width height scene p = UiCanvas.copyWord true
      (scene.memory entry.info.address (row * surfaceWords entry + column)) := by
  have hmem : window ∈ scene.windows := hwindows ▸ by simp
  have hreach : ((windowDamageRect window).intersect (screenRect width height)).empty = false := by
    refine empty_of_mem ((LawfulRects.mem_intersect _ _ _ _).2 ⟨?_, hscreen⟩)
    obtain ⟨hwidth, hheight⟩ := hfits window hmem hvisible
    have hcontent := copiedRect_mem hshows.1
    simp only [contentRect, windowDamageRect, windowFrameRect, frameWidth, frameHeight, kBorder,
      kTitleBarHeight, kShadowMargin, kShadowBlur, kShadowOffsetY, Rect.Mem] at hcontent ⊢
    omega
  -- The windows above and the taskbar miss the pixel, so the surface is the last to draw it.
  have hlast : ∀ call ∈ above.flatMap (drawSceneWindow (screenRect width height) scene),
      Misses CanvasCall.stroke call p := by
    intro call hcall
    obtain ⟨window', hmem', hcall⟩ := List.mem_flatMap.1 hcall
    by_cases hvisible' : isWindowVisible window' = true
    · exact (drawSceneWindow_in fun h => hfits window' (hwindows ▸ by simp [hmem']) h).misses
        (habove window' hmem' hvisible') call hcall
    · rw [drawSceneWindow, if_pos (by simpa using hvisible')] at hcall
      exact absurd hcall List.not_mem_nil
  have htaskbar := (drawTaskbar_in width height (screenRect width height) scene).misses (p := p)
    fun h => h.elim (fun h => by omega) htip
  have hdraw : drawSceneWindow (screenRect width height) scene window =
      drawWindowFrame (screenRect width height) scene.windowHover window scene.controls ++
        blitWindowSurface scene.memory window (some entry) := by
    unfold drawSceneWindow
    rw [if_neg (by simp [hvisible]), if_neg (by simp [hreach]), hentry]
  have hindex := surfaceIndex_surfacePlace window hwords column row
  rw [← hp] at hindex
  unfold scenePixel drawScene
  rw [hwindows, List.flatMap_append, List.flatMap_cons, hdraw]
  rw [wordAt_append, wordAt_of_misses htaskbar, wordAt_append, wordAt_append, wordAt_append,
    wordAt_append, wordAt_of_misses hlast, blitWindowSurface_wordAt hvalid haddress, if_pos hshows,
    hindex]

/-- What is drawn of a window's surface: the word in the column and the row of the content. -/
theorem surface_shown (canvas : Canvas) {x y column row : ℕ} (h : canvas.Has x y)
    (hplace : surfacePlace window column row = ((x : ℤ), (y : ℤ)))
    (hwords : surfaceWords entry < 2^31)
    (hwindows : scene.windows = below ++ window :: above) (hfits : AllFit scene.windows)
    (hvisible : isWindowVisible window = true)
    (hentry : (findSurfaceCache scene.cache window.surfaceID).map scene.cache.entries = some entry)
    (hvalid : entry.valid = true) (haddress : entry.info.address ≠ 0)
    (hshows : ShowsSurface window entry ((x : ℤ), (y : ℤ)))
    (habove : ∀ window' ∈ above, isWindowVisible window' = true →
      ¬(windowDamageRect window').Mem x y)
    (hbar : y < (taskbarBarRect canvas.width canvas.height).y)
    (htip : ¬(taskbarTooltipRect (taskbarLayout canvas.width canvas.height scene.windows)
      scene.taskbarHover scene.windows).Mem x y) :
    (redrawScene canvas scene).at x y = UiCanvas.copyWord true
      (scene.memory entry.info.address (row * surfaceWords entry + column)) := by
  rw [redrawScene_at canvas scene h]
  exact scenePixel_surface hwindows hplace.symm hwords hfits hvisible hentry hvalid haddress
    (mem_screenRect h) hshows habove hbar htip

end Surfaces

/-! ## A small scene -/

section Small

omit [Ui] [UiCanvas] [ShadowTables]

/-- A shadow of 20 pixels. -/
abbrev plainShadow : ShadowTables where
  alpha focused a b := if a + b < 20 then if focused then 120 else 70 else 0

/-- A window of 120 by 60 that shows surface 7. -/
def smallWindow : WindowInfo where
  id := 1
  state := ⟨true, false, false, false⟩
  x := 40
  y := 30
  width := 120
  height := 60
  surfaceID := 7
  title := "Editor"
  id_ne_zero := Nat.one_ne_zero

/-- Surface 7, of the window's size. -/
def smallEntry : SurfaceCacheEntry :=
  { SurfaceCacheEntry.cleared with
    valid := true
    id := 7
    info := ⟨7, 120, 60, 480, 4096, 0, 0, 0, 0⟩ }

/-- The window over the default gradient, without assets. -/
def smallScene : @Scene plainCanvas :=
  @Scene.mk plainCanvas [smallWindow] ⟨fun _ => smallEntry, 1, fun _ => 1⟩
    (fun _ i => BitVec.ofNat 32 i) none none none ⟨0, .close⟩ none true ⟨2026, 10, 29, 12, 0⟩

/-- A canvas of 320 by 240 filled with a word. -/
def smallCanvas (word : BitVec 32) : Canvas := ⟨fun _ => word, 320, 240, 320, by decide, by decide⟩

/-- The small window has room for its controls. -/
theorem smallScene_fits : AllFit [smallWindow] := by
  intro window hmem _
  rw [List.mem_singleton.1 hmem]
  exact ⟨by decide, by decide⟩

/-- A corner of the window drawn again over white is as in a whole new scene; the first pixel stays
white. -/
theorem redrawSceneRect_eq_corner :
    (@redrawSceneRect plainUi plainCanvas plainShadow (smallCanvas 0xFFFFFFFF) smallScene
        ⟨30, 20, 40, 40⟩).at 45 35 =
      (@redrawScene plainUi plainCanvas plainShadow (smallCanvas 0) smallScene).at 45 35 ∧
    (@redrawSceneRect plainUi plainCanvas plainShadow (smallCanvas 0xFFFFFFFF) smallScene
        ⟨30, 20, 40, 40⟩).at 0 0 = 0xFFFFFFFF := by
  have h := @redrawSceneRect_eq plainUi plainCanvas plainShadow plainUi_lawful plainCanvas_lawful
    (smallCanvas 0xFFFFFFFF) (smallCanvas 0) ⟨rfl, rfl⟩ smallScene smallScene_fits ⟨30, 20, 40, 40⟩
  constructor
  · exact (h ⟨by decide, by decide⟩).trans (if_pos (by decide))
  · exact (h ⟨by decide, by decide⟩).trans (if_neg (by decide))

/-- The surface's word in the fourth column of its third row. -/
theorem surface_shown_word :
    (@redrawScene plainUi plainCanvas plainShadow (smallCanvas 0) smallScene).at 44 72 =
      0xFF0000F3 := by
  exact @surface_shown plainUi plainCanvas plainShadow plainUi_lawful plainCanvas_lawful smallScene
    smallWindow [] [] smallEntry (smallCanvas 0) 44 72 3 2 ⟨by decide, by decide⟩ (by decide)
    (by decide) rfl smallScene_fits rfl rfl rfl (by decide) (by decide)
    (fun _ h => absurd h List.not_mem_nil) (by decide) (by decide)

end Small

end IUserApps.Compositor
