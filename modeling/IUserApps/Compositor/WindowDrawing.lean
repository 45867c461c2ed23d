import IUserApps.Compositor.Drawing
import IUserApps.Compositor.Pointer
import IUserApps.Compositor.Surfaces

/-!
# Drawing a window

The canvas calls for a window's shadow, frame, title bar and surface (`surface.cpp`). Three of these
look at the canvas's clip to make fewer calls: the shadow, which has corners drawn pixel by pixel,
and the red behind the close button, which is cut to the frame's corner row by row. Each makes the
same pixels as with any other clip that has the pixel (`shadow_same`, `fillCloseHover_same`), and
all of a window is in the rectangle that stands for its damage (`drawWindowFrame_in`,
`blitWindowSurface_in`) if the window is wide enough for its three controls.
-/

namespace IUserApps.Compositor

open Pictures

/-- The side of the glyph on a button. -/
def kControlGlyphSize : ℤ := 12
/-- The side of the icon in a title bar. -/
def kTitleIconSize : ℤ := 16
/-- Where the icon begins in a title bar. -/
def kTitleIconX : ℤ := 14
/-- Where the title begins in a title bar. -/
def kTitleTextX : ℤ := 38
/-- The shadow's rows and columns about a corner. -/
def kShadowReach : ℕ := 37

/-- The shadow's alpha by the distances from a corner circle's centre, of a focused window and of
another (`shadow_table`). -/
class ShadowTables where
  alpha : Bool → ℕ → ℕ → ℕ

/-- A glyph of a control; `restore` is what a maximized window shows instead of `maximize`. -/
inductive Glyph
  | close
  | maximize
  | minimize
  | restore
deriving DecidableEq, Repr

/-- The colour of a glyph: of a focused window's, of another's, white on the red close. -/
inductive GlyphTint
  | focused
  | unfocused
  | white
deriving DecidableEq, Repr

/-- The place in `kTitles` of a window's title, or the last. -/
def titleIconIndex (title : String) : ℕ :=
  ["Terminal", "File Browser", "Background Switcher", "Cube", "NetSurf"].idxOf title

section Assets

variable [UiCanvas]

/-- An icon that is not valid was not loaded; one that is has the size it was loaded at. -/
structure Icon (size : ℤ) where
  image : UiCanvas.Image
  size_eq : UiCanvas.imageValid image = true →
    UiCanvas.imageWidth image = size ∧ UiCanvas.imageHeight image = size

/-- The glyphs of the buttons, and the app icons of title bars. -/
structure WindowControlAssets where
  glyphs : Glyph → GlyphTint → Icon kControlGlyphSize
  /-- The app icons of title bars: of a focused window and of another. -/
  apps : ℕ → Bool → Icon kTitleIconSize

/-- Draws an icon that is there. -/
def iconCalls {size : ℤ} (icon : Option (Icon size)) (x y : ℤ) : List CanvasCall :=
  match icon with
  | some icon => if UiCanvas.imageValid icon.image then [.image icon.image x y] else []
  | none => []

end Assets

variable [Ui] [UiCanvas]

/-! ## The shadow -/

/-- Black with an alpha. -/
def shade (alpha : ℕ) : UiColors.Color := UiCanvas.rgba 0x000000 alpha

/-- The spans along the straight edges that are `d` past the corner circles' centres. -/
def shadowEdges (frame : Rect) (left right top bottom : ℤ) (alpha : ℕ) (d : ℤ) :
    List CanvasCall :=
  [.fill ⟨left - d, top, 1, bottom - top + 1⟩ (shade (if left - d < frame.x then alpha else 0)),
    .fill ⟨right + d, top, 1, bottom - top + 1⟩
      (shade (if frame.right ≤ right + d then alpha else 0))] ++
  (if top - d < frame.y then [.fill ⟨left, top - d, right - left + 1, 1⟩ (shade alpha)] else []) ++
  (if frame.bottom ≤ bottom + d then
    [.fill ⟨left, bottom + d, right - left + 1, 1⟩ (shade alpha)]
  else [])

/-- The distances of the shadow's loops. -/
def shadowSteps : List ℕ := List.range' 1 (kShadowReach - 1)

/-- A pixel of a corner; the frame covers what is inside it. -/
def shadowPixel (clip frame : Rect) (alpha : ℕ) (x y : ℤ) : List CanvasCall :=
  if x < clip.x ∨ clip.right ≤ x then []
  else if frame.x ≤ x ∧ x < frame.right ∧ frame.y ≤ y ∧ y < frame.bottom ∧
      Ui.inRoundedRect frame kWindowCornerRadius x y = true then []
  else if alpha ≠ 0 then [.blendPixel x y (UiCanvas.rgb 0x000000) alpha]
  else []

/-- A row of a corner, from the circle's centre outwards. -/
def shadowRow [ShadowTables] (clip frame : Rect) (focused : Bool) (cornerX stepX : ℤ) (dy : ℕ) (y : ℤ) :
    List CanvasCall :=
  if y < clip.y ∨ clip.bottom ≤ y then []
  else shadowSteps.flatMap fun (dx : ℕ) =>
    shadowPixel clip frame (ShadowTables.alpha focused dx dy) (cornerX + stepX * dx) y

/-- The calls that draw the shadow about one corner. -/
def shadowCorner [ShadowTables] (clip frame : Rect) (focused : Bool) (cornerX stepX cornerY stepY : ℤ) :
    List CanvasCall :=
  shadowSteps.flatMap fun (dy : ℕ) =>
    shadowRow clip frame focused cornerX stepX dy (cornerY + stepY * dy)

/-- How far the shadow reaches. -/
def shadowRect (frame : Rect) : Rect :=
  let shape := frame.offset 0 kShadowOffsetY
  ⟨shape.x - kShadowBlur, shape.y - kShadowBlur, shape.width + 2 * kShadowBlur,
    shape.height + 2 * kShadowBlur⟩

/-- The shadow's calls, without the test that it is in the clip. -/
def shadowCalls [ShadowTables] (clip frame : Rect) (focused : Bool) : List CanvasCall :=
  let shape := frame.offset 0 kShadowOffsetY
  let left := shape.x + kWindowCornerRadius
  let right := shape.right - 1 - kWindowCornerRadius
  let top := shape.y + kWindowCornerRadius
  let bottom := shape.bottom - 1 - kWindowCornerRadius
  -- The loop along the edges ends at the first alpha that is zero.
  ((shadowSteps.takeWhile fun d => ShadowTables.alpha focused d 0 != 0).flatMap
    fun (d : ℕ) => shadowEdges frame left right top bottom (ShadowTables.alpha focused d 0) d) ++
  [(left, (-1 : ℤ), top, (-1 : ℤ)), (right, 1, top, -1), (left, -1, bottom, 1),
      (right, 1, bottom, 1)].flatMap fun corner =>
    shadowCorner clip frame focused corner.1 corner.2.1 corner.2.2.1 corner.2.2.2

/-- The calls that draw a window's shadow. -/
def drawWindowShadow [ShadowTables] (clip frame : Rect) (focused : Bool) : List CanvasCall :=
  if ((shadowRect frame).intersect clip).empty then [] else shadowCalls clip frame focused

/-! ## The frame and the title bar -/

/-- A row of the close button's red, up to the last pixel that is inside the frame. -/
def closeHoverRow (area inner : Rect) (radius : ℤ) (color : UiColors.Color) (y : ℤ) :
    List CanvasCall :=
  let right := skipDown (fun x => Ui.inRoundedRect inner radius x y) (area.right - area.x).toNat
    area.right
  if area.x < right then [.fill ⟨area.x, y, right - area.x, 1⟩ color] else []

/-- The close button's red, cut to the frame's rounded top right corner. -/
def fillCloseHover (clip button inner : Rect) (radius : ℤ) (color : UiColors.Color) :
    List CanvasCall :=
  let area := button.intersect clip
  (rows area).flatMap (closeHoverRow area inner radius color)

/-- The glyph of a button; a maximized window is given the one that restores it. -/
def restoreGlyph (maximized : Bool) : WindowControl → Glyph
  | .close => .close
  | .maximize => if maximized then .restore else .maximize
  | .minimize => .minimize

/-- A control of the title bar, with its highlight if it is hovered. -/
def drawControl (clip : Rect) (hover : WindowHover) (window : WindowInfo)
    (controls : Option WindowControlAssets) (control : WindowControl) : List CanvasCall :=
  let inner := (windowFrameRect window).inset kBorder
  let button := windowControlRect window control
  let hovered := hover.windowId = window.id ∧ hover.control = control
  let tint := if window.state.focused then GlyphTint.focused else .unfocused
  let background := if hovered then
      if control = .close then
        fillCloseHover clip button inner (kWindowCornerRadius - kBorder) UiCanvas.theme.danger
      else [.fill button UiCanvas.theme.faceHover]
    else []
  let glyphTint := if hovered then if control = .close then .white else .focused else tint
  background ++
    iconCalls (controls.map fun c => c.glyphs (restoreGlyph window.state.maximized control) glyphTint)
      (button.x + (button.width - kControlGlyphSize).tdiv 2)
      (button.y + (button.height - kControlGlyphSize).tdiv 2)

/-- What the title bar shows over the window colour: the app's icon and name, the controls. -/
def drawWindowTitle (clip : Rect) (hover : WindowHover) (window : WindowInfo)
    (controls : Option WindowControlAssets) : List CanvasCall :=
  let frame := windowFrameRect window
  let title := if window.title = "" then "Window" else window.title
  let controlsLeft := (windowControlRect window .minimize).x
  iconCalls (controls.map fun c => c.apps (titleIconIndex window.title) window.state.focused)
    (frame.x + kTitleIconX) (frame.y + (kTitleBarHeight - kTitleIconSize).tdiv 2) ++
  [.text ⟨frame.x + kTitleTextX, frame.y, controlsLeft - frame.x - kTitleTextX - 8,
      kTitleBarHeight⟩ title UiCanvas.theme.fontMedium
    (if window.state.focused then UiCanvas.theme.text else UiCanvas.theme.textUnfocused) .left] ++
  [WindowControl.close, .maximize, .minimize].flatMap (drawControl clip hover window controls)

/-- The calls that draw a window's shadow, border, title bar and buttons. -/
def drawWindowFrame [ShadowTables] (clip : Rect) (hover : WindowHover) (window : WindowInfo)
    (controls : Option WindowControlAssets) : List CanvasCall :=
  let frame := windowFrameRect window
  drawWindowShadow clip frame window.state.focused ++
  [.fillRounded frame kWindowCornerRadius UiCanvas.theme.window,
    .frame frame (UiCanvas.rgba 0xffffff (if window.state.focused then 26 else 15)) 1
      kWindowCornerRadius] ++
  drawWindowTitle clip hover window controls

/-! ## The surface -/

/-- The row of a surface that is level with the frame's rounded bottom corners. -/
def blitBandRow (source : ℕ → BitVec 32) (sourcePitch copyWidth destX destY : ℤ) (inner : Rect)
    (innerRadius : ℤ) (row : ℤ) : List CanvasCall :=
  let y := destY + row
  let inside := fun column => Ui.inRoundedRect inner innerRadius (destX + column) y
  let left := skipUp inside copyWidth.toNat 0
  let right := skipDown inside (copyWidth - left).toNat copyWidth
  if left < right then
    [.copy source sourcePitch ⟨left, row, right - left, 1⟩ (destX + left) y true]
  else []

/-- The words of a row of a surface. -/
def sourcePitch (entry : SurfaceCacheEntry) : ℤ :=
  int32 (if 4 ≤ entry.info.pitch then entry.info.pitch / 4 else entry.info.width)

/-- The part of a window's content that its surface fills. -/
def copiedRect (window : WindowInfo) (entry : SurfaceCacheEntry) : Rect :=
  ⟨window.x + kBorder, window.y + kTitleBarHeight, min (int32 entry.info.width) window.width,
    min (int32 entry.info.height) window.height⟩

/-- The frame without its border. -/
def blitInner (window : WindowInfo) : Rect :=
  ⟨window.x + kBorder, window.y + kBorder, window.width, frameHeight window - kBorder * 2⟩

/-- The radius of the corners of a window's content. -/
def blitRadius : ℤ := if kBorder < kWindowCornerRadius then kWindowCornerRadius - kBorder else 0

/-- The first row of the screen that is level with the frame's rounded bottom corners. -/
def bandStart (window : WindowInfo) : ℤ := window.y + frameHeight window - kBorder - blitRadius

/-- A surface into a rectangle; the rows from `band` on are cut to the part inside the frame. -/
def blitCalls (source : ℕ → BitVec 32) (pitch : ℤ) (dest : Rect) (band : ℤ) (inner : Rect)
    (innerRadius : ℤ) : List CanvasCall :=
  if dest.width ≤ 0 ∨ dest.height ≤ 0 then []
  else
    let bandRows := band - dest.y
    if innerRadius ≤ 0 ∨ dest.height ≤ bandRows then
      [.copy source pitch ⟨0, 0, dest.width, dest.height⟩ dest.x dest.y true]
    else
      (if 0 < bandRows then
        [.copy source pitch ⟨0, 0, dest.width, bandRows⟩ dest.x dest.y true]
      else []) ++
      (rows ⟨0, max bandRows 0, dest.width, dest.height - max bandRows 0⟩).flatMap
        (blitBandRow source pitch dest.width dest.x dest.y inner innerRadius)

/-- The window's surface into its content area, solid. `memory` has the words at an address. -/
def blitWindowSurface (memory : ℕ → ℕ → BitVec 32) (window : WindowInfo)
    (surfaceEntry : Option SurfaceCacheEntry) : List CanvasCall :=
  match surfaceEntry.filter (fun e => e.valid && e.info.address != 0) with
  | none => []
  | some entry =>
    blitCalls (memory entry.info.address) (sourcePitch entry) (copiedRect window entry)
      (bandStart window) (blitInner window) blitRadius

/-! ## What the clip saves -/

omit [Ui] [UiCanvas] in
/-- The steps of a shadow are those from 1 to 36. -/
theorem mem_shadowSteps {d : ℕ} : d ∈ shadowSteps ↔ 1 ≤ d ∧ d ≤ 36 := by
  simp only [shadowSteps, kShadowReach, List.mem_range'_1]
  omega

variable {clip clip' frame : Rect} {p : ℤ × ℤ}

/-- A pixel of the shadow stays in its place. -/
theorem shadowPixel_in (alpha : ℕ) (x y : ℤ) :
    DrawIn (Rect.Mem ⟨x, y, 1, 1⟩) (shadowPixel clip frame alpha x y) := by
  unfold shadowPixel
  split_ifs
  · exact .nil
  · exact .nil
  · exact .singleton fun _ _ h => h
  · exact .nil

section Shadow

variable [LawfulShapes]

/-- A pixel of the clip is drawn with any clip that has it. -/
theorem shadowPixel_same (hp : clip.Mem p.1 p.2) (hp' : clip'.Mem p.1 p.2) (alpha : ℕ) (x y : ℤ) :
    DrawSame p (shadowPixel clip frame alpha x y) (shadowPixel clip' frame alpha x y) := by
  by_cases hplace : Rect.Mem ⟨x, y, 1, 1⟩ p.1 p.2
  · have hx : x = p.1 := by
      simp only [Rect.Mem] at hplace
      omega
    have hin : ∀ {c : Rect}, c.Mem p.1 p.2 → ¬(x < c.x ∨ c.right ≤ x) := by
      intro c hc
      rw [LawfulShapes.right_eq, hx]
      simp only [Rect.Mem] at hc
      omega
    unfold shadowPixel
    rw [if_neg (hin hp), if_neg (hin hp')]
    exact .refl _
  · exact (shadowPixel_in alpha x y).drawSame (shadowPixel_in alpha x y) hplace

variable [ShadowTables] {focused : Bool}

omit [LawfulShapes] in
/-- A row's calls are in the row. -/
theorem shadowRow_misses {cornerX stepX : ℤ} {dy : ℕ} {y : ℤ} (h : y ≠ p.2) :
    ∀ call ∈ shadowRow clip frame focused cornerX stepX dy y,
      Misses CanvasCall.stroke call p := by
  unfold shadowRow
  split_ifs
  · exact fun call hcall => absurd hcall List.not_mem_nil
  · intro call hcall
    obtain ⟨dx, -, hcall⟩ := List.mem_flatMap.1 hcall
    refine (shadowPixel_in _ _ _).misses ?_ call hcall
    simp only [Rect.Mem]
    omega

/-- A row of the shadow colours a point the same under every clip that holds it. -/
theorem shadowRow_same (hp : clip.Mem p.1 p.2) (hp' : clip'.Mem p.1 p.2) (cornerX stepX : ℤ)
    (dy : ℕ) (y : ℤ) :
    DrawSame p (shadowRow clip frame focused cornerX stepX dy y)
      (shadowRow clip' frame focused cornerX stepX dy y) := by
  by_cases hy : y = p.2
  · have hin : ∀ {c : Rect}, c.Mem p.1 p.2 → ¬(y < c.y ∨ c.bottom ≤ y) := by
      intro c hc
      rw [LawfulShapes.bottom_eq, hy]
      simp only [Rect.Mem] at hc
      omega
    unfold shadowRow
    rw [if_neg (hin hp), if_neg (hin hp')]
    exact .flatMap fun dx _ => shadowPixel_same hp hp' _ _ _
  · exact .of_misses (shadowRow_misses hy) (shadowRow_misses hy)

omit [LawfulShapes] in
/-- A corner's pixels are as far from its circle's centre as the shadow's steps go. -/
theorem shadowCorner_in {r : Rect} {cornerX stepX cornerY stepY : ℤ}
    (h : ∀ dx dy : ℕ, 1 ≤ dx → dx ≤ 36 → 1 ≤ dy → dy ≤ 36 →
      r.Mem (cornerX + stepX * dx) (cornerY + stepY * dy)) :
    DrawIn r.Mem (shadowCorner clip frame focused cornerX stepX cornerY stepY) := by
  refine .flatMap fun dy hdy => ?_
  obtain ⟨hdy, hdy'⟩ := mem_shadowSteps.1 hdy
  unfold shadowRow
  split_ifs
  · exact .nil
  · refine .flatMap fun dx hdx => (shadowPixel_in _ _ _).mono fun x y hmem => ?_
    obtain ⟨hdx, hdx'⟩ := mem_shadowSteps.1 hdx
    have hcorner := h dx dy hdx hdx' hdy hdy'
    simp only [Rect.Mem] at hmem hcorner ⊢
    omega

/-- The shadow is in its rectangle. -/
theorem shadowCalls_in (hwidth : 0 ≤ frame.width) (hheight : 0 ≤ frame.height) :
    DrawIn (shadowRect frame).Mem (shadowCalls clip frame focused) := by
  unfold shadowCalls shadowRect
  simp only [LawfulShapes.offset_eq, LawfulShapes.right_eq, LawfulShapes.bottom_eq, kShadowBlur,
    kShadowOffsetY, kWindowCornerRadius]
  refine .append (.flatMap fun d hd => ?_) (.flatMap fun corner hcorner => ?_)
  · obtain ⟨hd, hd'⟩ := mem_shadowSteps.1 (List.takeWhile_subset _ hd)
    unfold shadowEdges
    refine .append (.append (.cons ?_ (.singleton ?_)) ?_) ?_
    · simp only [CanvasCall.extent, Rect.Mem]
      omega
    · simp only [CanvasCall.extent, Rect.Mem]
      omega
    · split_ifs
      · refine .singleton ?_
        simp only [CanvasCall.extent, Rect.Mem]
        omega
      · exact .nil
    · split_ifs
      · refine .singleton ?_
        simp only [CanvasCall.extent, Rect.Mem]
        omega
      · exact .nil
  · refine shadowCorner_in fun dx dy hdx hdx' hdy hdy' => ?_
    simp only [List.mem_cons, List.not_mem_nil, or_false] at hcorner
    rcases hcorner with rfl | rfl | rfl | rfl
    all_goals
      simp only [Rect.Mem]
      omega

variable [LawfulRects]

/-- The shadow makes a pixel of the clip the same with any clip that has it. -/
theorem shadow_same (hwidth : 0 ≤ frame.width) (hheight : 0 ≤ frame.height)
    (hp : clip.Mem p.1 p.2) (hp' : clip'.Mem p.1 p.2) :
    DrawSame p (drawWindowShadow clip frame focused) (drawWindowShadow clip' frame focused) := by
  have hdraw : ∀ c : Rect, DrawIn (shadowRect frame).Mem (drawWindowShadow c frame focused) := by
    intro c
    unfold drawWindowShadow
    split_ifs
    · exact .nil
    · exact shadowCalls_in hwidth hheight
  by_cases hreach : (shadowRect frame).Mem p.1 p.2
  · have hin : ∀ {c : Rect}, c.Mem p.1 p.2 → ((shadowRect frame).intersect c).empty = false :=
      fun hc => empty_of_mem ((LawfulRects.mem_intersect _ _ _ _).2 ⟨hreach, hc⟩)
    unfold drawWindowShadow
    rw [hin hp, hin hp']
    simp only [Bool.false_eq_true, if_false]
    unfold shadowCalls
    exact .append (.refl _) (.flatMap fun corner _ => .flatMap fun dy _ =>
      shadowRow_same hp hp' _ _ _ _)
  · exact (hdraw clip).drawSame (hdraw clip') hreach

end Shadow

/-! ## The controls -/

section Hover

variable [LawfulRects] [LawfulShapes] {button inner : Rect} {radius : ℤ} {color : UiColors.Color}

omit [LawfulRects] in
/-- A row of the lit close button stays in its row. -/
theorem closeHoverRow_in (area inner : Rect) (radius y : ℤ) (color : UiColors.Color) :
    DrawIn (Rect.Mem ⟨area.x, y, area.width, 1⟩) (closeHoverRow area inner radius color y) := by
  unfold closeHoverRow
  simp only
  split_ifs with h
  · have hscan := (skipDown_spec (fun x => Ui.inRoundedRect inner radius x y)
      (area.right - area.x).toNat area.right).1
    rw [LawfulShapes.right_eq] at hscan h ⊢
    refine .singleton ?_
    simp only [CanvasCall.extent, Rect.Mem]
    omega
  · exact .nil

/-- The close button's red is in the button. -/
theorem fillCloseHover_in : DrawIn button.Mem (fillCloseHover clip button inner radius color) := by
  refine .flatMap fun y hy => (closeHoverRow_in _ _ _ _ _).mono fun x y' hmem => ?_
  have harea : (button.intersect clip).Mem x y' := by
    rw [mem_rows] at hy
    simp only [Rect.Mem] at hmem ⊢
    omega
  exact ((LawfulRects.mem_intersect _ _ _ _).1 harea).1

/-- The red is on the part of the button that the frame's rounded shape has, whatever the clip, when
the button is right of the shape's left corners. -/
theorem fillCloseHover_wordAt (hradius : 0 ≤ radius) (hleft : inner.x + radius ≤ button.x)
    (hwide : 2 * radius < inner.width) (hp : clip.Mem p.1 p.2) (w : BitVec 32) :
    wordAt (fillCloseHover clip button inner radius color) p w =
      if button.Mem p.1 p.2 ∧ Ui.inRoundedRect inner radius p.1 p.2 = true then
        UiCanvas.fillWord color w
      else w := by
  by_cases hb : button.Mem p.1 p.2
  swap
  · rw [if_neg (fun h => hb h.1)]
    exact colorAt_of_misses (fillCloseHover_in.misses hb) w
  set area := button.intersect clip with harea
  have hmem : area.Mem p.1 p.2 := (LawfulRects.mem_intersect _ _ _ _).2 ⟨hb, hp⟩
  have hrow : p.2 ∈ rows area := by
    rw [mem_rows]
    exact hmem.2.2
  -- The other rows miss the pixel.
  have hone : wordAt (fillCloseHover clip button inner radius color) p w =
      wordAt (closeHoverRow area inner radius color p.2) p w := by
    have hrows : wordAt ((rows area).flatMap (closeHoverRow area inner radius color)) p w =
        if p.2 ∈ rows area then wordAt (closeHoverRow area inner radius color p.2) p w else w :=
      colorAt_flatMap_one (rows_nodup area) p.2 (fun y _ hy =>
        (closeHoverRow_in area inner radius y color).misses (by
          simp only [Rect.Mem]
          omega)) w
    rwa [if_pos hrow] at hrows
  rw [hone]
  unfold closeHoverRow
  simp only
  obtain ⟨-, hlo, hout, hin⟩ := skipDown_spec (fun x => Ui.inRoundedRect inner radius x p.2)
    (area.right - area.x).toNat area.right
  set right := skipDown (fun x => Ui.inRoundedRect inner radius x p.2)
    (area.right - area.x).toNat area.right with hright
  rw [LawfulShapes.right_eq] at hlo hout hin
  simp only [Rect.Mem] at hmem hb
  by_cases hinside : Ui.inRoundedRect inner radius p.1 p.2 = true
  · have hlt : p.1 < right := by
      by_contra hge
      rw [hout p.1 (by omega) (by omega)] at hinside
      exact Bool.false_ne_true hinside
    rw [if_pos (by omega), if_pos ⟨hb, hinside⟩]
    refine if_pos ?_
    simp only [CanvasCall.extent, Rect.Mem]
    omega
  · -- Between a column right of the left corners and the last one inside there is no gap.
    have hge : right ≤ p.1 := by
      by_contra hlt
      have hlast := hin (by omega)
      have hlastMem := LawfulShapes.mem_of_rounded _ _ _ _ hlast
      simp only [Rect.Mem] at hlastMem
      have hfirst := LawfulShapes.rounded_middle inner radius (inner.x + radius) p.2 hradius
        (by simp only [Rect.Mem]; omega) (le_refl _) (by omega)
      exact hinside (LawfulShapes.rounded_noGaps inner radius p.2 _ p.1 _ hfirst hlast (by omega)
        (by omega))
    have hno : ¬(button.Mem p.1 p.2 ∧ Ui.inRoundedRect inner radius p.1 p.2 = true) :=
      fun h => hinside h.2
    rw [if_neg hno]
    refine colorAt_of_misses (fun call hcall => misses_of_not_mem ?_) w
    split_ifs at hcall
    · rw [List.mem_singleton.1 hcall]
      simp only [CanvasCall.extent, Rect.Mem]
      omega
    · exact absurd hcall List.not_mem_nil

end Hover

/-- Wide enough for its three controls, and with a content. -/
def FitsControls (window : WindowInfo) : Prop := 103 ≤ window.width ∧ 0 ≤ window.height

omit [Ui] in
/-- An icon is in the square of its size. -/
theorem iconCalls_in {size : ℤ} (icon : Option (Icon size)) (x y : ℤ) :
    DrawIn (Rect.Mem ⟨x, y, size, size⟩) (iconCalls icon x y) := by
  unfold iconCalls
  split
  · next icon =>
    split_ifs with hvalid
    · obtain ⟨hwidth, hheight⟩ := icon.size_eq hvalid
      refine .singleton fun x' y' hmem => ?_
      simp only [CanvasCall.extent, hwidth, hheight] at hmem
      exact hmem
    · exact .nil
  · exact .nil

section Window

variable [LawfulRects] [LawfulShapes] {window : WindowInfo} {hover : WindowHover}
  {controls : Option WindowControlAssets} {control : WindowControl}

/-- A control is drawn in its button. -/
theorem drawControl_in : DrawIn (windowControlRect window control).Mem
    (drawControl clip hover window controls control) := by
  unfold drawControl
  simp only
  refine .append ?_ ((iconCalls_in _ _ _).mono fun x y hmem => ?_)
  · split_ifs
    · exact fillCloseHover_in
    · exact .singleton fun _ _ h => h
    · exact .nil
  · have hglyph : (kControlWidth - kControlGlyphSize).tdiv 2 = 17 ∧
        (kTitleBarHeight - kBorder - kControlGlyphSize).tdiv 2 = 13 := by decide
    simp only [windowControlRect, hglyph] at hmem ⊢
    simp only [kControlWidth, kTitleBarHeight, kBorder, kControlGlyphSize, Rect.Mem] at hmem ⊢
    omega

/-- A control makes a pixel of the clip the same with any clip that has it. -/
theorem drawControl_same (hfits : FitsControls window) (hp : clip.Mem p.1 p.2)
    (hp' : clip'.Mem p.1 p.2) :
    DrawSame p (drawControl clip hover window controls control)
      (drawControl clip' hover window controls control) := by
  unfold drawControl
  simp only
  refine .append ?_ (.refl _)
  split_ifs with hhover hclose
  · obtain ⟨hwidth, -⟩ := hfits
    have hinner : ((windowFrameRect window).inset kBorder).x + (kWindowCornerRadius - kBorder) ≤
          (windowControlRect window control).x ∧
        2 * (kWindowCornerRadius - kBorder) < ((windowFrameRect window).inset kBorder).width := by
      rw [LawfulShapes.inset_eq, hclose]
      simp only [windowFrameRect, windowControlRect, frameWidth, kBorder, kWindowCornerRadius,
        kControlWidth]
      omega
    intro w
    show wordAt _ p w = wordAt _ p w
    rw [fillCloseHover_wordAt (by decide) hinner.1 hinner.2 hp,
      fillCloseHover_wordAt (by decide) hinner.1 hinner.2 hp']
  · exact .refl _
  · exact .refl _

/-- The title bar is in the frame. -/
theorem drawWindowTitle_in (hfits : FitsControls window) :
    DrawIn (windowDamageRect window).Mem (drawWindowTitle clip hover window controls) := by
  obtain ⟨hwidth, hheight⟩ := hfits
  unfold drawWindowTitle
  simp only
  refine .append (.append ((iconCalls_in _ _ _).mono ?_) (.singleton ?_)) (.flatMap ?_)
  · have hicon : (kTitleBarHeight - kTitleIconSize).tdiv 2 = 12 := by decide
    rw [hicon]
    simp only [windowDamageRect, windowFrameRect, frameWidth, frameHeight, kTitleIconX,
      kTitleBarHeight, kTitleIconSize, kBorder, kShadowMargin, kShadowBlur, kShadowOffsetY, Rect.Mem]
    omega
  · simp only [CanvasCall.extent, windowDamageRect, windowFrameRect, windowControlRect, frameWidth,
      frameHeight, kTitleTextX, kTitleBarHeight, kControlWidth, kBorder, kShadowMargin,
      kShadowBlur, kShadowOffsetY, Rect.Mem]
    omega
  · refine fun control _ => drawControl_in.mono ?_
    cases control <;>
      simp only [windowDamageRect, windowFrameRect, windowControlRect, frameWidth, frameHeight,
        kTitleBarHeight, kControlWidth, kBorder, kShadowMargin, kShadowBlur, kShadowOffsetY,
        Rect.Mem] <;>
      omega

/-- A title bar colours a point the same under every clip that holds it. -/
theorem drawWindowTitle_same (hfits : FitsControls window) (hp : clip.Mem p.1 p.2)
    (hp' : clip'.Mem p.1 p.2) :
    DrawSame p (drawWindowTitle clip hover window controls)
      (drawWindowTitle clip' hover window controls) :=
  .append (.refl _) (.flatMap fun _ _ => drawControl_same hfits hp hp')

omit [LawfulRects] in
/-- The shadow's rectangle is in the window's damage. -/
theorem shadowRect_mem {x y : ℤ} (h : (shadowRect (windowFrameRect window)).Mem x y) :
    (windowDamageRect window).Mem x y := by
  simp only [shadowRect, LawfulShapes.offset_eq, windowDamageRect, windowFrameRect, kShadowBlur,
    kShadowMargin, kShadowOffsetY, Rect.Mem] at h ⊢
  omega

variable [ShadowTables]

/-- A frame with room for its controls stays in the window's damage rectangle. -/
theorem drawWindowFrame_in (hfits : FitsControls window) :
    DrawIn (windowDamageRect window).Mem (drawWindowFrame clip hover window controls) := by
  have hframe : ∀ x y, (windowFrameRect window).Mem x y → (windowDamageRect window).Mem x y := by
    simp only [windowDamageRect, kShadowMargin, kShadowBlur, kShadowOffsetY, Rect.Mem]
    omega
  unfold drawWindowFrame
  simp only
  refine .append (.append ?_ (.cons hframe (.singleton hframe))) (drawWindowTitle_in hfits)
  unfold drawWindowShadow
  obtain ⟨hwidth, hheight⟩ := hfits
  split_ifs
  · exact .nil
  · refine (shadowCalls_in ?_ ?_).mono fun _ _ h => shadowRect_mem h
    · simp only [windowFrameRect, frameWidth, kBorder]
      omega
    · simp only [windowFrameRect, frameHeight, kTitleBarHeight, kBorder]
      omega

/-- A frame colours a point the same under every clip that holds it. -/
theorem drawWindowFrame_same (hfits : FitsControls window) (hp : clip.Mem p.1 p.2)
    (hp' : clip'.Mem p.1 p.2) :
    DrawSame p (drawWindowFrame clip hover window controls)
      (drawWindowFrame clip' hover window controls) := by
  refine .append (.append ?_ (.refl _)) (drawWindowTitle_same hfits hp hp')
  obtain ⟨hwidth, hheight⟩ := hfits
  refine shadow_same ?_ ?_ hp hp'
  · simp only [windowFrameRect, frameWidth, kBorder]
    omega
  · simp only [windowFrameRect, frameHeight, kTitleBarHeight, kBorder]
    omega

end Window

/-! ## The surface's pixels -/

section Surface

variable {memory : ℕ → ℕ → BitVec 32} {window : WindowInfo} {entry : SurfaceCacheEntry}
  {source : ℕ → BitVec 32} {pitch copyWidth destX destY row radius : ℤ} {inner : Rect}

/-- A row of the band is in its row of the content. -/
theorem blitBandRow_in : DrawIn (Rect.Mem ⟨destX, destY + row, copyWidth, 1⟩)
    (blitBandRow source pitch copyWidth destX destY inner radius row) := by
  unfold blitBandRow
  simp only
  obtain ⟨hlo, -⟩ := skipUp_spec
    (fun column => Ui.inRoundedRect inner radius (destX + column) (destY + row))
    copyWidth.toNat 0
  set left := skipUp (fun column => Ui.inRoundedRect inner radius (destX + column) (destY + row))
    copyWidth.toNat 0
  obtain ⟨hhi, -⟩ := skipDown_spec
    (fun column => Ui.inRoundedRect inner radius (destX + column) (destY + row))
    (copyWidth - left).toNat copyWidth
  split_ifs
  · refine .singleton ?_
    simp only [CanvasCall.extent, Rect.Mem]
    omega
  · exact .nil

omit [Ui] [UiCanvas] in
/-- What a surface fills is in the content. -/
theorem copiedRect_mem {x y : ℤ} (h : (copiedRect window entry).Mem x y) :
    (contentRect window).Mem x y := by
  have hwidth : (copiedRect window entry).width ≤ window.width := min_le_right _ _
  have hheight : (copiedRect window entry).height ≤ window.height := min_le_right _ _
  obtain ⟨hx, hx', hy, hy'⟩ := h
  exact ⟨hx, lt_of_lt_of_le hx' (Int.add_le_add_left hwidth _), hy,
    lt_of_lt_of_le hy' (Int.add_le_add_left hheight _)⟩

/-- The content stays in its rectangle. -/
theorem blitCalls_in {dest : Rect} {band : ℤ} :
    DrawIn dest.Mem (blitCalls source pitch dest band inner radius) := by
  unfold blitCalls
  simp only
  split_ifs
  · exact .nil
  · exact .singleton fun _ _ h => h
  · refine .append (.singleton fun x y hmem => ?_) (.flatMap fun row hrow =>
      blitBandRow_in.mono fun x y hmem => ?_)
    · simp only [CanvasCall.extent, Rect.Mem] at hmem ⊢
      omega
    · rw [mem_rows] at hrow
      simp only [Rect.Mem] at hmem hrow ⊢
      omega
  · refine .append .nil (.flatMap fun row hrow => blitBandRow_in.mono fun x y hmem => ?_)
    rw [mem_rows] at hrow
    simp only [Rect.Mem] at hmem hrow ⊢
    omega

/-- The surface is drawn in the content. -/
theorem blitWindowSurface_in (surfaceEntry : Option SurfaceCacheEntry) :
    DrawIn (contentRect window).Mem (blitWindowSurface memory window surfaceEntry) := by
  unfold blitWindowSurface
  split
  · exact .nil
  · exact blitCalls_in.mono fun _ _ => copiedRect_mem

omit [Ui] in
/-- What a copy of a part of a surface to its place makes of a pixel there. -/
theorem copy_wordAt {part : Rect} {x y : ℤ} {solid : Bool} (hx : x = destX + part.x)
    (hy : y = destY + part.y) (w : BitVec 32) :
    wordAt [.copy source pitch part x y solid] p w =
      if Rect.Mem ⟨x, y, part.width, part.height⟩ p.1 p.2 then
        UiCanvas.copyWord solid (source ((p.2 - destY) * pitch + (p.1 - destX)).toNat)
      else w := by
  show (if _ then _ else _) = _
  refine if_congr Iff.rfl ?_ rfl
  have hcolumn : part.x + (p.1 - x) = p.1 - destX := by omega
  have hrow : part.y + (p.2 - y) = p.2 - destY := by omega
  simp only [CanvasCall.inside, hcolumn, hrow]

omit [Ui] in
/-- A copy of rows from the first. -/
theorem copyRows_wordAt (x y width height : ℤ) (solid : Bool) (w : BitVec 32) :
    wordAt [.copy source pitch ⟨0, 0, width, height⟩ x y solid] p w =
      if Rect.Mem ⟨x, y, width, height⟩ p.1 p.2 then
        UiCanvas.copyWord solid (source ((p.2 - y) * pitch + (p.1 - x)).toNat)
      else w := copy_wordAt (Int.add_zero x).symm (Int.add_zero y).symm w

variable [LawfulShapes]

/-- A row of the band shows the pixels that are inside the frame. -/
theorem blitBandRow_wordAt (hwidth : 0 ≤ copyWidth) (hp : p.2 = destY + row) (w : BitVec 32) :
    wordAt (blitBandRow source pitch copyWidth destX destY inner radius row) p w =
      if destX ≤ p.1 ∧ p.1 < destX + copyWidth ∧ Ui.inRoundedRect inner radius p.1 p.2 = true then
        UiCanvas.copyWord true (source ((p.2 - destY) * pitch + (p.1 - destX)).toNat)
      else w := by
  have hgaps : NoGaps fun column => Ui.inRoundedRect inner radius (destX + column) (destY + row) :=
    fun x y z hx hz hxy hyz => LawfulShapes.rounded_noGaps inner radius _ (destX + x) (destX + y)
      (destX + z) hx hz (by omega) (by omega)
  have hle := (skipUp_spec
    (fun column => Ui.inRoundedRect inner radius (destX + column) (destY + row))
    copyWidth.toNat 0).2.1
  unfold blitBandRow
  simp only
  set left := skipUp (fun column => Ui.inRoundedRect inner radius (destX + column) (destY + row))
    copyWidth.toNat 0 with hleft
  set right := skipDown
    (fun column => Ui.inRoundedRect inner radius (destX + column) (destY + row))
    (copyWidth - left).toNat copyWidth with hright
  have hspan := mem_span_iff hgaps (by omega) hleft (by omega) hright (p.1 - destX)
  rw [← hp, add_sub_cancel] at hspan
  split_ifs with hlr hin hin
  · have hcolumn := hspan.2 ⟨by omega, by omega, hin.2.2⟩
    rw [copy_wordAt rfl rfl, if_pos]
    simp only [Rect.Mem]
    omega
  · rw [copy_wordAt rfl rfl, if_neg]
    simp only [Rect.Mem]
    intro hmem
    obtain ⟨hlo, hhi, hinside⟩ := hspan.1 ⟨by omega, by omega⟩
    exact hin ⟨by omega, by omega, hinside⟩
  · have := hspan.2 ⟨by omega, by omega, hin.2.2⟩
    omega
  · rfl

/-- A surface's pixels show, each at its own place: all above the band, those inside the frame in
the band. -/
theorem blitCalls_wordAt {dest : Rect} {band : ℤ} (hradius : 0 < radius) (w : BitVec 32) :
    wordAt (blitCalls source pitch dest band inner radius) p w =
      if dest.Mem p.1 p.2 ∧ (p.2 < band ∨ Ui.inRoundedRect inner radius p.1 p.2 = true) then
        UiCanvas.copyWord true (source ((p.2 - dest.y) * pitch + (p.1 - dest.x)).toNat)
      else w := by
  by_cases hp : dest.Mem p.1 p.2
  swap
  · rw [if_neg (fun h => hp h.1)]
    exact colorAt_of_misses (blitCalls_in.misses hp) w
  have hmem := hp
  simp only [hp, true_and]
  simp only [Rect.Mem] at hmem
  unfold blitCalls
  simp only
  rw [if_neg (by omega)]
  by_cases habove : dest.height ≤ band - dest.y
  · have hband : p.2 < band := by omega
    rw [if_pos (.inr habove), copyRows_wordAt, if_pos hp]
    simp [hband]
  rw [if_neg (by omega), wordAt_append]
  -- Of the band's rows only the pixel's own reaches it.
  have hrows : ∀ w', wordAt ((rows ⟨0, max (band - dest.y) 0, dest.width,
        dest.height - max (band - dest.y) 0⟩).flatMap
        (blitBandRow source pitch dest.width dest.x dest.y inner radius)) p w' =
      if p.2 - dest.y ∈ rows ⟨0, max (band - dest.y) 0, dest.width,
          dest.height - max (band - dest.y) 0⟩ then
        wordAt (blitBandRow source pitch dest.width dest.x dest.y inner radius (p.2 - dest.y)) p w'
      else w' :=
    colorAt_flatMap_one (rows_nodup _) (p.2 - dest.y) fun row _ hrow => blitBandRow_in.misses (by
      simp only [Rect.Mem]
      omega)
  have hrow : p.2 - dest.y ∈ rows ⟨0, max (band - dest.y) 0, dest.width,
      dest.height - max (band - dest.y) 0⟩ ↔ band ≤ p.2 := by
    rw [mem_rows]
    simp only
    omega
  rw [hrows]
  by_cases hband : p.2 < band
  · have hfirst : Rect.Mem ⟨dest.x, dest.y, dest.width, band - dest.y⟩ p.1 p.2 := by
      simp only [Rect.Mem]
      omega
    rw [if_neg (mt hrow.1 (by omega)), if_pos (by omega), copyRows_wordAt, if_pos hfirst]
    simp [hband]
  · have hfirst : wordAt (if 0 < band - dest.y then
        [.copy source pitch ⟨0, 0, dest.width, band - dest.y⟩ dest.x dest.y true]
        else []) p w = w := by
      split_ifs
      · rw [copyRows_wordAt, if_neg]
        simp only [Rect.Mem]
        omega
      · rfl
    rw [hfirst, if_pos (hrow.2 (by omega)), blitBandRow_wordAt (by omega) (by omega)]
    refine if_congr ?_ rfl rfl
    simp [hband, hmem]

/-- The pixel is one of the surface's that the window shows. -/
def ShowsSurface (window : WindowInfo) (entry : SurfaceCacheEntry) (p : ℤ × ℤ) : Prop :=
  (copiedRect window entry).Mem p.1 p.2 ∧
    (p.2 < bandStart window ∨ Ui.inRoundedRect (blitInner window) blitRadius p.1 p.2 = true)

instance (window : WindowInfo) (entry : SurfaceCacheEntry) (p : ℤ × ℤ) :
    Decidable (ShowsSurface window entry p) := inferInstanceAs (Decidable (_ ∧ _))

/-- The place in a surface of a pixel of the screen. -/
def surfaceIndex (window : WindowInfo) (entry : SurfaceCacheEntry) (p : ℤ × ℤ) : ℕ :=
  ((p.2 - (copiedRect window entry).y) * sourcePitch entry +
    (p.1 - (copiedRect window entry).x)).toNat

/-- A window shows its surface's pixels, each at its own place, and leaves the others. -/
theorem blitWindowSurface_wordAt (hvalid : entry.valid = true) (haddress : entry.info.address ≠ 0)
    (w : BitVec 32) :
    wordAt (blitWindowSurface memory window (some entry)) p w =
      if ShowsSurface window entry p then
        UiCanvas.copyWord true (memory entry.info.address (surfaceIndex window entry p))
      else w := by
  have hentry : (some entry).filter (fun e => e.valid && e.info.address != 0) = some entry := by
    simp [Option.filter, hvalid, haddress]
  unfold blitWindowSurface
  rw [hentry]
  exact blitCalls_wordAt (by decide) w

end Surface

end IUserApps.Compositor
