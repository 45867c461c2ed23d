import IUserApps.Compositor.Drags
import IUserApps.Compositor.Scene
import IUserApps.Compositor.Tiles

/-!
# What pointer events leave to repaint

A pointer event changes which control and which tile are shown as hovered, and moves or resizes the
window that is dragged. `windowDirty` gathers where: over any run of events that does not ask for
the whole scene, a pixel outside it stays what it was (`shownStep_off`), so that drawing the scene
again there makes all of the canvas show the scene (`repaint_shows`).
-/

namespace IUserApps.Compositor

open Pictures Runs

variable [Ui] [UiCanvas] [ShadowTables]

/-- The scene with a window list and what the pointer hovers. -/
def Scene.under (scene : Scene) (s : PointerState) (windows : List WindowInfo) : Scene :=
  { scene with windows := windows, windowHover := s.windowHover, taskbarHover := s.taskbarHover }

/-! ## Hovered controls and tiles -/

section Hover

variable [LawfulRects] [LawfulShapes] {clip : Rect} {p : ℤ × ℤ} {hover hover' : WindowHover}
  {window : WindowInfo} {windows : List WindowInfo}

omit [ShadowTables] in
/-- Outside a control's button it does not matter whether the control is hovered. -/
theorem drawControl_hover {controls : Option WindowControlAssets} {control : WindowControl}
    (h : hover.windowId = window.id ∧ hover.control = control →
      ¬(windowControlRect window control).Mem p.1 p.2)
    (h' : hover'.windowId = window.id ∧ hover'.control = control →
      ¬(windowControlRect window control).Mem p.1 p.2) :
    DrawSame p (drawControl clip hover window controls control)
      (drawControl clip hover' window controls control) := by
  by_cases hp : (windowControlRect window control).Mem p.1 p.2
  · have hoff := fun hon => h hon hp
    have hoff' := fun hon => h' hon hp
    unfold drawControl
    simp only [if_neg hoff, if_neg hoff']
    exact .refl _
  · exact drawControl_in.drawSame drawControl_in hp

/-- The pixel is not on the control that is hovered. -/
def OffControl (windows : List WindowInfo) (hover : WindowHover) (p : ℤ × ℤ) : Prop :=
  ∀ window, windowById windows hover.windowId = some window →
    ¬(windowControlRect window hover.control).Mem p.1 p.2

/-- A window is drawn the same off the controls that are hovered. -/
theorem drawSceneWindow_hover {scene : Scene} {s s' : PointerState} (hids : (windows.map (·.id)).Nodup)
    (hmem : window ∈ windows) (h : OffControl windows s.windowHover p)
    (h' : OffControl windows s'.windowHover p) :
    DrawSame p (drawSceneWindow clip (scene.under s windows) window)
      (drawSceneWindow clip (scene.under s' windows) window) := by
  have hoff : ∀ {hover : WindowHover}, OffControl windows hover p → ∀ control,
      hover.windowId = window.id ∧ hover.control = control →
        ¬(windowControlRect window control).Mem p.1 p.2 := by
    rintro hover hoff control ⟨hid, rfl⟩
    exact hoff window ((windowById_eq_some hids).2 ⟨hmem, hid.symm⟩)
  unfold drawSceneWindow
  split_ifs
  · exact .refl _
  · exact .refl _
  · refine .append (.append (.refl _) (.append (.refl _) (.flatMap fun control _ => ?_))) (.refl _)
    exact drawControl_hover (hoff h control) (hoff h' control)

/-- The pixel is neither on the tile that is hovered nor on its tooltip. -/
def OffTile (layout : TaskbarLayout) (windows : List WindowInfo) (hover : Option ℕ) (p : ℤ × ℤ) :
    Prop :=
  ¬(taskbarTooltipRect layout hover windows).Mem p.1 p.2 ∧
    ∀ i, hover = some i → i < layout.tileCount → ¬(layout.tiles i).rect.Mem p.1 p.2

omit [ShadowTables] [LawfulRects] [LawfulShapes] in
/-- A tile is drawn the same where it matters not whether it is hovered. -/
theorem drawTile_hover {assets : Option TaskbarAssets} {layout : TaskbarLayout}
    {tile tile' : Option ℕ} (h : OffTile layout windows tile p) (h' : OffTile layout windows tile' p)
    {i : ℕ} (hi : i < layout.tileCount) :
    DrawSame p (drawTile windows assets tile layout i) (drawTile windows assets tile' layout i) := by
  have hlight : ∀ {hover : Option ℕ}, OffTile layout windows hover p →
      DrawSame p (if some i = hover then
        [CanvasCall.fillRounded (layout.tiles i).rect kTileRadius (UiCanvas.rgba 0xffffff 15)]
        else []) [] := by
    intro hover hoff
    split_ifs with heq
    · refine .of_misses (DrawIn.misses (.singleton fun _ _ hmem => hmem) (hoff.2 i heq.symm hi)) ?_
      exact fun call hcall => absurd hcall List.not_mem_nil
    · exact .refl _
  unfold drawTile
  simp only
  refine .append (.append ?_ (.refl _)) (.refl _)
  cases ((tileWindow (layout.tiles i) windows).map isActive).getD false with
  | true => exact .refl _
  | false =>
    simp only [Bool.false_eq_true, if_false]
    exact (hlight h).trans (hlight h').symm

/-- Nothing that is shown as hovered changed at the pixel. -/
structure HoverKept (layout : TaskbarLayout) (windows : List WindowInfo) (s s' : PointerState)
    (p : ℤ × ℤ) : Prop where
  control : s'.windowHover = s.windowHover ∨
    OffControl windows s.windowHover p ∧ OffControl windows s'.windowHover p
  tile : s'.taskbarHover = s.taskbarHover ∨
    OffTile layout windows s.taskbarHover p ∧ OffTile layout windows s'.taskbarHover p

/-- Such a pixel is the same. -/
theorem scenePixel_hover {width height : ℕ} {scene : Scene} {s s' : PointerState}
    (hids : (windows.map (·.id)).Nodup)
    (h : HoverKept (taskbarLayout width height windows) windows s s' p) :
    scenePixel width height (scene.under s windows) p =
      scenePixel width height (scene.under s' windows) p := by
  have hwindows : DrawSame p
      (windows.flatMap (drawSceneWindow (screenRect width height) (scene.under s windows)))
      (windows.flatMap (drawSceneWindow (screenRect width height) (scene.under s' windows))) := by
    refine .flatMap fun window hmem => ?_
    rcases h.control with heq | ⟨hoff, hoff'⟩
    · have hsame : drawSceneWindow (screenRect width height) (scene.under s' windows) window =
          drawSceneWindow (screenRect width height) (scene.under s windows) window := by
        unfold drawSceneWindow Scene.under
        rw [heq]
      rw [hsame]
      exact .refl _
    · exact drawSceneWindow_hover hids hmem hoff hoff'
  have htaskbar : DrawSame p
      (drawTaskbar width height (screenRect width height) (scene.under s windows))
      (drawTaskbar width height (screenRect width height) (scene.under s' windows)) := by
    unfold drawTaskbar Scene.under
    simp only
    rcases h.tile with heq | ⟨hoff, hoff'⟩
    · rw [heq]
      exact .refl _
    · exact .append (.append (.append (.refl _) (.flatMap fun i hi =>
        drawTile_hover hoff hoff' (List.mem_range.1 hi))) (.refl _))
        (.of_misses ((drawTooltip_in _ _).misses hoff.1) ((drawTooltip_in _ _).misses hoff'.1))
  exact SameAt.append (.append (.refl _) hwindows) htaskbar 0

end Hover

/-! ## What an event adds to the rectangle -/

section Dirty

variable [LawfulRects] {p : ℤ × ℤ}

omit [UiCanvas] [ShadowTables] in
/-- What is outside two rectangles' union is outside both. -/
theorem not_mem_of_unite {r s : Rect} (h : ¬(r.unite s).Mem p.1 p.2) :
    ¬r.Mem p.1 p.2 ∧ ¬s.Mem p.1 p.2 :=
  ⟨fun hr => h (mem_unite (.inl hr)), fun hs => h (mem_unite (.inr hs))⟩

omit [UiCanvas] [ShadowTables] [LawfulRects] in
/-- A tile that is hovered no longer, or a new one, adds itself and its tooltip. -/
theorem followTile_eq (i : PointerInput) (s : PointerState) : ∃ tile : Option ℕ,
    followTile i s =
      let layout := taskbarLayout i.screenWidth i.screenHeight i.windows
      let dirty := (s.windowDirty.unite (taskbarTooltipRect layout s.taskbarHover i.windows)).unite
        (taskbarTooltipRect layout tile i.windows)
      let dirty := match s.taskbarHover.filter (fun t => t < layout.tileCount) with
        | some t => dirty.unite (layout.tiles t).rect
        | none => dirty
      let dirty := match tile with
        | some t => dirty.unite (layout.tiles t).rect
        | none => dirty
      if tile = s.taskbarHover then s
      else { s with windowDirty := dirty, taskbarHover := tile } := ⟨_, rfl⟩

omit [UiCanvas] [ShadowTables] in
/-- Following the tile gathers the tiles and the tooltips that change. -/
theorem followTile_off (i : PointerInput) (s : PointerState)
    (hp : ¬(followTile i s).windowDirty.Mem p.1 p.2) :
    ¬s.windowDirty.Mem p.1 p.2 ∧ ((followTile i s).taskbarHover = s.taskbarHover ∨
      OffTile (taskbarLayout i.screenWidth i.screenHeight i.windows) i.windows s.taskbarHover p ∧
        OffTile (taskbarLayout i.screenWidth i.screenHeight i.windows) i.windows
          (followTile i s).taskbarHover p) := by
  obtain ⟨tile, heq⟩ := followTile_eq i s
  rw [heq] at hp ⊢
  revert hp
  simp only
  generalize taskbarLayout i.screenWidth i.screenHeight i.windows = layout
  split_ifs with hsame
  · exact fun hp => ⟨hp, .inl rfl⟩
  · intro hp
    -- The new tile, the old tile, the new tooltip, the old tooltip, and what was there.
    obtain ⟨hp, hnew⟩ : ¬(match s.taskbarHover.filter (fun t => t < layout.tileCount) with
        | some t => ((s.windowDirty.unite (taskbarTooltipRect layout s.taskbarHover i.windows)).unite
            (taskbarTooltipRect layout tile i.windows)).unite (layout.tiles t).rect
        | none => (s.windowDirty.unite (taskbarTooltipRect layout s.taskbarHover i.windows)).unite
            (taskbarTooltipRect layout tile i.windows)).Mem p.1 p.2 ∧
        ∀ t, tile = some t → ¬(layout.tiles t).rect.Mem p.1 p.2 := by
      cases tile with
      | none => exact ⟨hp, fun t ht => nomatch ht⟩
      | some t =>
        obtain ⟨hp, ht⟩ := not_mem_of_unite hp
        exact ⟨hp, fun t' ht' => Option.some.inj ht' ▸ ht⟩
    obtain ⟨hp, hold⟩ : ¬((s.windowDirty.unite
          (taskbarTooltipRect layout s.taskbarHover i.windows)).unite
        (taskbarTooltipRect layout tile i.windows)).Mem p.1 p.2 ∧
        ∀ t, s.taskbarHover = some t → t < layout.tileCount →
          ¬(layout.tiles t).rect.Mem p.1 p.2 := by
      split at hp
      · next t hfilter =>
        obtain ⟨hp, ht⟩ := not_mem_of_unite hp
        refine ⟨hp, fun t' ht' _ => ?_⟩
        have hhover := (Option.filter_eq_some_iff.1 hfilter).1
        rw [hhover] at ht'
        exact Option.some.inj ht' ▸ ht
      · next hfilter =>
        refine ⟨hp, fun t ht hlt => ?_⟩
        rw [ht] at hfilter
        simp [Option.filter, hlt] at hfilter
    obtain ⟨hp, htip'⟩ := not_mem_of_unite hp
    obtain ⟨hp, htip⟩ := not_mem_of_unite hp
    exact ⟨hp, .inr ⟨⟨htip, hold⟩, htip', fun t ht _ => hnew t ht⟩⟩

/-- A rectangle with a hovered control's button added. -/
def controlAdded (windows : List WindowInfo) (dirty : Rect) (hover : WindowHover) : Rect :=
  (windowById windows hover.windowId).elim dirty fun window =>
    dirty.unite (windowControlRect window hover.control)

omit [UiCanvas] [ShadowTables] in
/-- A point outside the grown rectangle is outside the old one and off the control. -/
theorem controlAdded_off {windows : List WindowInfo} {dirty : Rect} {hover : WindowHover}
    (hp : ¬(controlAdded windows dirty hover).Mem p.1 p.2) :
    ¬dirty.Mem p.1 p.2 ∧ OffControl windows hover p := by
  unfold controlAdded at hp
  unfold OffControl
  cases hwindow : windowById windows hover.windowId with
  | none =>
    rw [hwindow] at hp
    exact ⟨hp, fun window hw => nomatch hw⟩
  | some window =>
    rw [hwindow] at hp
    obtain ⟨hp, hw⟩ := not_mem_of_unite hp
    exact ⟨hp, fun window' hw' => Option.some.inj hw' ▸ hw⟩

omit [UiCanvas] [ShadowTables] [LawfulRects] in
/-- A control that is hovered no longer, or a new one, adds its button. -/
theorem updateControlHover_eq (i : PointerInput) (s : PointerState) : ∃ hover : WindowHover,
    updateControlHover i s =
      let s := followTile i s
      if hover = s.windowHover then s
      else
        { s with
          windowDirty := controlAdded i.windows (controlAdded i.windows s.windowDirty s.windowHover)
            hover
          windowHover := hover } := by
  refine ⟨controlUnder i (followTile i s).drag, ?_⟩
  unfold updateControlHover controlAdded
  simp only
  generalize controlUnder i (followTile i s).drag = hover
  cases windowById i.windows (followTile i s).windowHover.windowId with
  | none => cases windowById i.windows hover.windowId <;> rfl
  | some window => cases windowById i.windows hover.windowId <;> rfl

omit [UiCanvas] [ShadowTables] in
/-- Following the pointer gathers all that is shown as hovered before or after. -/
theorem updateControlHover_off (i : PointerInput) (s : PointerState)
    (hp : ¬(updateControlHover i s).windowDirty.Mem p.1 p.2) :
    ¬s.windowDirty.Mem p.1 p.2 ∧
      HoverKept (taskbarLayout i.screenWidth i.screenHeight i.windows) i.windows s
        (updateControlHover i s) p := by
  have hhover : (followTile i s).windowHover = s.windowHover := by
    obtain ⟨tile, heq⟩ := followTile_eq i s
    rw [heq]
    simp only
    split_ifs
    · rfl
    · rfl
  obtain ⟨hover, heq⟩ := updateControlHover_eq i s
  rw [heq] at hp ⊢
  revert hp
  simp only
  split_ifs with hsame
  · intro hp
    obtain ⟨hdirty, htile⟩ := followTile_off i s hp
    exact ⟨hdirty, .inl hhover, htile⟩
  · intro hp
    obtain ⟨hp, hnew⟩ := controlAdded_off hp
    obtain ⟨hp, hold⟩ := controlAdded_off hp
    obtain ⟨hdirty, htile⟩ := followTile_off i s hp
    rw [hhover] at hold
    exact ⟨hdirty, .inr ⟨hold, hnew⟩, htile⟩

end Dirty

/-! ## Windows that were moved or resized -/

section Reshaped

variable {f : WindowInfo → WindowInfo} {windows : List WindowInfo}

/-- Only the places and sizes of windows change. -/
def Reshapes (f : WindowInfo → WindowInfo) : Prop :=
  ∀ window, (f window).id = window.id ∧ (f window).state = window.state ∧
    (f window).title = window.title

omit [Ui] [UiCanvas] [ShadowTables] in
/-- Windows that only change place keep the taskbar's layout. -/
theorem taskbarLayout_reshaped (hf : Reshapes f) (width height : ℕ) :
    taskbarLayout width height (windows.map f) = taskbarLayout width height windows := by
  have hadd : ∀ layout window, addTile layout (f window) = addTile layout window := by
    intro layout window
    obtain ⟨hid, hstate, htitle⟩ := hf window
    unfold addTile isOpen
    rw [hid, hstate, htitle]
  unfold taskbarLayout
  simp only [List.foldl_map, hadd]

omit [Ui] [UiCanvas] [ShadowTables] in
/-- A tile's window, with its new place. -/
theorem tileWindow_reshaped (hf : Reshapes f) (tile : TaskbarTile) :
    tileWindow tile (windows.map f) = (tileWindow tile windows).map f := by
  have hopen : isOpen ∘ f = isOpen := by
    funext window
    simp [isOpen, (hf window).2.1]
  unfold tileWindow
  split_ifs with hslot
  · have hfind : windowById (windows.map f) tile.windowId =
        (windowById windows tile.windowId).map f := by
      unfold windowById
      rw [List.find?_map]
      congr 2
      funext window
      simp [(hf window).1]
    rw [hfind, Option.filter_map, hopen]
  · have hbetter : ∀ best window, betterWindow tile.slot (Option.map f best) (f window) =
        (betterWindow tile.slot best window).map f := by
      intro best window
      obtain ⟨hid, hstate, htitle⟩ := hf window
      unfold betterWindow isOpen isActive
      rw [hid, hstate, htitle]
      cases best with
      | none => split_ifs <;> rfl
      | some b =>
        obtain ⟨hid', hstate', -⟩ := hf b
        simp only [Option.map_some, hid', hstate']
        split_ifs <;> rfl
    have hfold : ∀ best, (windows.map f).foldl (betterWindow tile.slot) (Option.map f best) =
        (windows.foldl (betterWindow tile.slot) best).map f := by
      induction windows with
      | nil => exact fun _ => rfl
      | cons window windows ih =>
        intro best
        rw [List.map_cons, List.foldl_cons, List.foldl_cons, hbetter]
        exact ih _
    exact hfold none

omit [Ui] [UiCanvas] [ShadowTables] in
/-- A label does not depend on the window's place. -/
theorem tileLabel_reshaped (hf : Reshapes f) (tile : TaskbarTile) (window : Option WindowInfo) :
    tileLabel tile (window.map f) = tileLabel tile window := by
  cases window with
  | none => rfl
  | some w =>
    unfold tileLabel
    simp only [Option.map_some, Option.filter_some, (hf w).2.2]
    by_cases htitle : w.title = ""
    · simp [htitle]
    · simp [htitle, (hf w).2.2]

omit [ShadowTables] in
/-- The taskbar does not show where windows are. -/
theorem drawTaskbar_reshaped (windows : List WindowInfo) (hf : Reshapes f) (width height : ℕ)
    (clip : Rect) (scene : Scene) (s : PointerState) :
    drawTaskbar width height clip (scene.under s (windows.map f)) =
      drawTaskbar width height clip (scene.under s windows) := by
  have htitle : ∀ window : Option WindowInfo,
      ((window.map f).map (·.title)).getD "" = (window.map (·.title)).getD "" := by
    intro window
    cases window with
    | none => rfl
    | some w => exact (hf w).2.2
  have hactive : ∀ window : Option WindowInfo,
      ((window.map f).map isActive).getD false = (window.map isActive).getD false := by
    intro window
    cases window with
    | none => rfl
    | some w => simp [isActive, (hf w).2.1]
  unfold drawTaskbar drawTile drawTooltip taskbarTooltipRect Scene.under
  simp only [taskbarLayout_reshaped hf, tileWindow_reshaped hf, tileLabel_reshaped hf, htitle,
    hactive, Option.isSome_map]

/-- Moves a window, or resizes it. -/
def reshapeWindow (id : ℕ) (reshape : WindowInfo → WindowInfo) (window : WindowInfo) :
    WindowInfo := if window.id = id then reshape window else window

omit [Ui] [UiCanvas] [ShadowTables] in
/-- Giving one window a new place only changes places. -/
theorem reshapeWindow_reshapes (id : ℕ) {reshape : WindowInfo → WindowInfo}
    (hreshape : Reshapes reshape) : Reshapes (reshapeWindow id reshape) := by
  intro window
  unfold reshapeWindow
  split_ifs
  · exact hreshape window
  · exact ⟨rfl, rfl, rfl⟩

/-- A pixel outside a window's damage before and after is the same. -/
theorem scenePixel_reshaped [LawfulRects] [LawfulShapes] {p : ℤ × ℤ} {width height : ℕ}
    {scene : Scene} {s : PointerState} {before : WindowInfo} {reshape : WindowInfo → WindowInfo}
    (hreshape : Reshapes reshape) (hids : (windows.map (·.id)).Nodup) (hfit : AllFit windows)
    (hfit' : AllFit (windows.map (reshapeWindow before.id reshape))) (hbefore : before ∈ windows)
    (hp : ¬(windowDamageRect before).Mem p.1 p.2)
    (hp' : ¬(windowDamageRect (reshape before)).Mem p.1 p.2) :
    scenePixel width height (scene.under s windows) p =
      scenePixel width height
        (scene.under s (windows.map (reshapeWindow before.id reshape))) p := by
  have hf := reshapeWindow_reshapes before.id hreshape
  have hwindows : DrawSame p
      (windows.flatMap (drawSceneWindow (screenRect width height) (scene.under s windows)))
      ((windows.map (reshapeWindow before.id reshape)).flatMap
        (drawSceneWindow (screenRect width height)
          (scene.under s (windows.map (reshapeWindow before.id reshape))))) := by
    rw [List.flatMap_map]
    refine .flatMap fun window hmem => ?_
    by_cases hid : window.id = before.id
    · have heq : window = before := List.inj_on_of_nodup_map hids hmem hbefore hid
      have hafter : reshapeWindow before.id reshape window = reshape before := by
        rw [reshapeWindow, if_pos hid, heq]
      have hmem' : reshape before ∈ windows.map (reshapeWindow before.id reshape) :=
        hafter ▸ List.mem_map_of_mem hmem
      rw [hafter, heq]
      exact .of_misses ((drawSceneWindow_in (hfit before hbefore)).misses hp)
        ((drawSceneWindow_in (hfit' _ hmem')).misses hp')
    · rw [reshapeWindow, if_neg hid]
      exact .refl _
  have htaskbar := drawTaskbar_reshaped windows hf width height
    (screenRect width height) scene s
  refine SameAt.append (.append (.refl _) hwindows) ?_ 0
  show DrawSame p (drawTaskbar width height _ (scene.under s windows)) _
  rw [← htaskbar]
  exact .refl _

end Reshaped

/-! ## Runs -/

/-- A call changes what the kernel lists of a window beside its place and size, or its place among
the windows. -/
def Call.restacks : Call → Bool
  | .compositorFocusWindow .. | .compositorControlWindow .. => true
  | _ => false

/-- What a call that succeeds makes of the window list. -/
def applyCall (outcome : Outcome) (windows : List WindowInfo) : Call → List WindowInfo
  | .compositorMoveWindow id x y =>
    if outcome.moves then
      windows.map (reshapeWindow id fun window => { window with x := x, y := y })
    else windows
  | .compositorResizeWindow id width height =>
    if outcome.resizes then
      windows.map (reshapeWindow id fun window => { window with width := width, height := height })
    else windows
  | _ => windows

/-- The compositor and the windows it shows. -/
structure Shown where
  pointer : PointerState
  windows : List WindowInfo

/-- An event, whether the calls succeed, and the window list after it. -/
structure ShownInput where
  event : PointerEvent
  outcome : Outcome
  next : List WindowInfo

section Runs

variable (width height : ℕ)

/-- The pointer's event, over the windows that are shown. -/
def Shown.input (s : Shown) (i : ShownInput) : PointerInput :=
  ⟨i.event, s.windows, width, height, i.outcome⟩

/-- The compositor handles an event, and lists the windows again. -/
def shownStep (s : Shown) (i : ShownInput) : Shown :=
  ⟨(handlePointerEventMessage (s.input width height i) s.pointer).1, i.next⟩

/-- The next list has the windows where the calls put them; after a call that restacks them it is
any list. Ids stay unique, and windows fit their controls. -/
def ListsNext (s : Shown) (i : ShownInput) : Prop :=
  let calls := (handlePointerEventMessage (s.input width height i) s.pointer).2
  ((∃ call ∈ calls, call.restacks = true) ∨ i.next = calls.foldl (applyCall i.outcome) s.windows) ∧
    (i.next.map (·.id)).Nodup ∧ AllFit i.next

end Runs

section Step

omit [Ui] [UiCanvas] [ShadowTables] in
/-- A click that restacks windows asks for the whole scene. -/
theorem taskbarClick_restacks (outcome : Outcome) (layout : TaskbarLayout) (tile : ℕ)
    (windows : List WindowInfo) {call : Call}
    (hcall : call ∈ (taskbarClick outcome layout tile windows).1) (h : call.restacks = true) :
    (taskbarClick outcome layout tile windows).2 = true := by
  have hlaunch : ∀ slot, call ∉ (launchTaskbarSlot outcome slot).1 := by
    intro slot hmem
    unfold launchTaskbarSlot at hmem
    split at hmem
    · rw [List.mem_singleton.1 hmem] at h
      exact nomatch h
    · exact List.not_mem_nil hmem
  revert hcall
  unfold taskbarClick
  split_ifs with hcount
  · exact fun hmem => absurd hmem List.not_mem_nil
  · simp only
    split
    · split_ifs with hslot hlaunched
      · exact fun hmem => absurd hmem (hlaunch _)
      · intro hmem
        rcases List.mem_append.1 hmem with hmem | hmem
        · exact absurd hmem (hlaunch _)
        · rw [List.mem_singleton.1 hmem] at h
          exact nomatch h
      · exact fun hmem => absurd hmem List.not_mem_nil
    · split_ifs
      · exact fun _ => rfl
      · exact fun _ => rfl

omit [UiCanvas] [ShadowTables] in
/-- A press that restacks windows asks for the whole scene. -/
theorem pressLeft_restacks (i : PointerInput) (drag : DragState) {call : Call}
    (hcall : call ∈ (pressLeft i drag).2.1) (h : call.restacks = true) :
    (pressLeft i drag).2.2 = true := by
  revert hcall
  unfold pressLeft
  simp only
  split
  · exact fun hmem => taskbarClick_restacks _ _ _ _ hmem h
  · exact fun hmem => absurd hmem List.not_mem_nil
  · exact fun hmem => absurd hmem List.not_mem_nil
  · split
    · exact fun hmem => absurd hmem List.not_mem_nil
    · exact fun _ => rfl

omit [UiCanvas] [ShadowTables] in
/-- Following the drag changes the rectangle alone. -/
theorem followDrag_hover (i : PointerInput) (s : PointerState) :
    (followDrag i s).1.windowHover = s.windowHover ∧
      (followDrag i s).1.taskbarHover = s.taskbarHover ∧
      (followDrag i s).1.fullSceneDirty = s.fullSceneDirty := by
  unfold followDrag moveDragged resizeDragged
  simp only
  repeat' split
  all_goals exact ⟨rfl, rfl, rfl⟩

/-- A rectangle more to repaint. -/
def PointerState.dirtied (s : PointerState) (rect : Rect) : PointerState :=
  { s with windowDirty := s.windowDirty.unite rect }

/-- What is followed: nothing, or a window to where its damage is gathered. -/
inductive Follows (i : PointerInput) (s : PointerState) : PointerState × List Call → Prop
  | nothing (calls : List Call)
      (hcalls : calls.foldl (applyCall i.outcome) i.windows = i.windows) : Follows i s (s, calls)
  | window (before : WindowInfo) (reshape : WindowInfo → WindowInfo) (newFrame : Rect)
      (call : Call) (hbefore : before ∈ i.windows) (hreshape : Reshapes reshape)
      (hcall : applyCall i.outcome i.windows call =
        i.windows.map (reshapeWindow before.id reshape))
      (hframe : newFrame = windowDamageRect (reshape before)) :
      Follows i s (s.dirtied ((windowDamageRect before).unite newFrame), [call])

omit [ShadowTables] in
/-- Following a drag marks where the window was and where it is. -/
theorem followDrag_follows [LawfulShapes] (i : PointerInput) (s : PointerState) :
    Follows i s (followDrag i s) := by
  unfold followDrag
  split_ifs
  · unfold moveDragged
    simp only
    split
    · exact .nothing [] rfl
    · next before hbefore =>
      have hid := windowById_id hbefore
      have hmem : before ∈ i.windows := List.mem_of_find?_eq_some hbefore
      split_ifs with hmoves
      · refine .window before (fun window => { window with
            x := i.event.x - s.drag.grabOffsetX, y := i.event.y - s.drag.grabOffsetY }) _ _ hmem
          (fun _ => ⟨rfl, rfl, rfl⟩) ?_ ?_
        · rw [applyCall, if_pos hmoves, hid]
        · rw [LawfulShapes.offset_eq]
          simp only [windowDamageRect, windowFrameRect, frameWidth, frameHeight]
          congr 1 <;> omega
      · refine .nothing _ ?_
        simp [applyCall, hmoves]
  · unfold resizeDragged
    simp only
    split
    · exact .nothing [] rfl
    · next before hbefore =>
      have hid := windowById_id hbefore
      have hmem : before ∈ i.windows := List.mem_of_find?_eq_some hbefore
      split_ifs with hresizes
      · refine .window before (fun window => { window with
            width := max 64 (s.drag.startWidth + (i.event.x - s.drag.anchorX))
            height := max 48 (s.drag.startHeight + (i.event.y - s.drag.anchorY)) }) _ _ hmem
          (fun _ => ⟨rfl, rfl, rfl⟩) ?_ ?_
        · rw [applyCall, if_pos hresizes, hid]
        · simp only [windowDamageRect, windowFrameRect, frameWidth, frameHeight]
      · refine .nothing _ ?_
        simp [applyCall, hresizes]
  · exact .nothing [] rfl

omit [Ui] [UiCanvas] [ShadowTables] in
/-- Calls that follow no drag leave the windows where they are. -/
theorem applyCalls_of_not_follows (outcome : Outcome) (windows : List WindowInfo)
    {calls : List Call} (h : ∀ call ∈ calls, call.follows = false) :
    calls.foldl (applyCall outcome) windows = windows := by
  induction calls with
  | nil => rfl
  | cons call calls ih =>
    have hcall : applyCall outcome windows call = windows := by
      have hfollows := h call List.mem_cons_self
      cases call with
      | compositorMoveWindow => exact nomatch hfollows
      | compositorResizeWindow => exact nomatch hfollows
      | _ => rfl
    rw [List.foldl_cons, hcall]
    exact ih fun c hc => h c (List.mem_cons_of_mem _ hc)

omit [UiCanvas] [ShadowTables] in
/-- What a program gets changes no window. -/
theorem routed_calls (i : PointerInput) (drag : DragState) (route : PointerRoute) :
    ∀ call ∈ (routePointerToWindow i drag route).2,
      call.follows = false ∧ call.restacks = false := by
  unfold routePointerToWindow
  simp only
  split_ifs
  · exact fun call hcall => absurd hcall List.not_mem_nil
  all_goals
    split
    · exact fun call hcall => absurd hcall List.not_mem_nil
    · intro call hcall
      rw [List.mem_singleton.1 hcall]
      exact ⟨rfl, rfl⟩

omit [UiCanvas] [ShadowTables] in
/-- Following the drag restacks no window. -/
theorem followDrag_not_restacks (i : PointerInput) (s : PointerState) :
    ∀ call ∈ (followDrag i s).2, call.restacks = false := by
  unfold followDrag moveDragged resizeDragged
  simp only
  repeat' split
  all_goals simp [Call.restacks]

omit [UiCanvas] [ShadowTables] in
/-- The compositor's own part of an event: the pointer is followed, then the drag, and a press may
change the drag and restack windows. -/
theorem handlePointerEvent_eq (i : PointerInput) (s : PointerState) :
    ∃ (drag : DragState) (rest : List Call) (full : Bool), handlePointerEvent i s =
      ({ (followDrag i { updateControlHover i s with pointerButtons := i.event.buttons }).1 with
          drag := drag },
        (followDrag i { updateControlHover i s with pointerButtons := i.event.buttons }).2 ++ rest,
        full) ∧
      (∀ call ∈ rest, call.follows = false) ∧ (∀ call ∈ rest, call.restacks = true → full = true) := by
  unfold handlePointerEvent
  simp only
  split_ifs
  · exact ⟨_, _, _, rfl, pressLeft_calls i _, fun _ => pressLeft_restacks i _⟩
  · exact ⟨_, [], _, by rw [List.append_nil], by simp, by simp⟩
  · exact ⟨_, [], _, by rw [List.append_nil], by simp, by simp⟩

/-- A message: the pointer is followed, then the drag, and the other calls move no window. -/
structure Handled (i : PointerInput) (s s' : PointerState) (calls : List Call)
    (hovered : PointerState) : Prop where
  windowDirty : s'.windowDirty = (followDrag i hovered).1.windowDirty
  windowHover : s'.windowHover = (followDrag i hovered).1.windowHover
  taskbarHover : s'.taskbarHover = (followDrag i hovered).1.taskbarHover
  full : s.fullSceneDirty = true → s'.fullSceneDirty = true
  parts : ∃ posts rest, calls = posts ++ (followDrag i hovered).2 ++ rest ∧
    (∀ call ∈ posts, call.follows = false) ∧ (∀ call ∈ rest, call.follows = false)
  restacks : (∃ call ∈ calls, call.restacks = true) → s'.fullSceneDirty = true

omit [UiCanvas] [ShadowTables] in
/-- Following the pointer over the controls never asks for the whole scene. -/
theorem updateControlHover_full (i : PointerInput) (s : PointerState) :
    (updateControlHover i s).fullSceneDirty = s.fullSceneDirty := by
  have htile : (followTile i s).fullSceneDirty = s.fullSceneDirty := by
    obtain ⟨tile, heq⟩ := followTile_eq i s
    rw [heq]
    simp only
    split_ifs
    · rfl
    · rfl
  unfold updateControlHover
  simp only
  split_ifs
  · exact htile
  · exact htile

omit [UiCanvas] [ShadowTables] in
/-- Every message is handled so, from the state with the event's route and cursor. -/
theorem message_handled (i : PointerInput) (s : PointerState) : ∃ s₀ : PointerState,
    s₀.windowDirty = s.windowDirty ∧ s₀.windowHover = s.windowHover ∧
      s₀.taskbarHover = s.taskbarHover ∧
      Handled i s (handlePointerEventMessage i s).1 (handlePointerEventMessage i s).2
        { updateControlHover i s₀ with pointerButtons := i.event.buttons } := by
  set s₀ : PointerState := { s with
    route := (routePointerToWindow i s.drag s.route).1
    cursor := moveCursor i.screenWidth i.screenHeight i.event.x i.event.y } with hs₀
  refine ⟨s₀, rfl, rfl, rfl, ?_⟩
  obtain ⟨drag, rest, full, heq, hrest, hrestack⟩ := handlePointerEvent_eq i s₀
  have hposts := routed_calls i s.drag s.route
  have hkept := (followDrag_hover i
    { updateControlHover i s₀ with pointerButtons := i.event.buttons }).2.2.trans
      (updateControlHover_full i s₀)
  have hfollow := followDrag_not_restacks i
    { updateControlHover i s₀ with pointerButtons := i.event.buttons }
  set hovered : PointerState :=
    { updateControlHover i s₀ with pointerButtons := i.event.buttons } with hhovered
  -- Of the calls only those behind the drag restack the windows, and these ask for the whole scene.
  have hsplit : ∀ more : List Call, (∃ call ∈ (routePointerToWindow i s.drag s.route).2 ++
        ((followDrag i hovered).2 ++ rest) ++ more, call.restacks = true) →
      (∀ call ∈ more, call.restacks = false) → full = true := by
    rintro more ⟨call, hcall, hrestacks⟩ hmore
    rcases List.mem_append.1 hcall with hcall | hcall
    · rcases List.mem_append.1 hcall with hcall | hcall
      · exact absurd hrestacks (by simp [(hposts call hcall).2])
      · rcases List.mem_append.1 hcall with hcall | hcall
        · exact absurd hrestacks (by simp [hfollow call hcall])
        · exact hrestack call hcall hrestacks
    · exact absurd hrestacks (by simp [hmore call hcall])
  unfold handlePointerEventMessage
  simp only
  rw [← hs₀, heq]
  simp only
  split_ifs with hfull hcursor
  · refine ⟨rfl, rfl, rfl, fun _ => rfl, ⟨_, rest, (List.append_assoc _ _ _).symm,
      fun call hcall => (hposts call hcall).1, hrest⟩, fun _ => rfl⟩
  · refine ⟨rfl, rfl, rfl, fun h => hkept.trans h, ⟨_,
      rest ++ [.presentCursorMove s.cursor (followDrag i hovered).1.cursor], ?_,
      fun call hcall => (hposts call hcall).1, ?_⟩, fun h => ?_⟩
    · simp only [List.append_assoc]
    · intro call hcall
      rcases List.mem_append.1 hcall with hcall | hcall
      · exact hrest call hcall
      · rw [List.mem_singleton.1 hcall]
        rfl
    · exact absurd (hsplit _ h (by simp [Call.restacks])) hfull
  · refine ⟨rfl, rfl, rfl, fun h => hkept.trans h, ⟨_, rest, (List.append_assoc _ _ _).symm,
      fun call hcall => (hposts call hcall).1, hrest⟩, fun h => ?_⟩
    exact absurd (hsplit [] (by rwa [List.append_nil]) (by simp)) hfull

variable [LawfulRects] [LawfulShapes] {p : ℤ × ℤ} {width height : ℕ}

/-- Following the drag gathers the window's damage before and after. -/
theorem followDrag_off (width height : ℕ) (scene : Scene) {i : PointerInput} {s : PointerState}
    {next : List WindowInfo} (hids : (i.windows.map (·.id)).Nodup) (hfit : AllFit i.windows)
    (hfit' : AllFit next) (hnext : next = (followDrag i s).2.foldl (applyCall i.outcome) i.windows)
    (hp : ¬(followDrag i s).1.windowDirty.Mem p.1 p.2) :
    ¬s.windowDirty.Mem p.1 p.2 ∧
      scenePixel width height (scene.under s i.windows) p =
        scenePixel width height (scene.under s next) p := by
  have hfollows := followDrag_follows i s
  rw [hnext] at hfit' ⊢
  generalize followDrag i s = out at hfollows hp hfit' ⊢
  cases hfollows with
  | nothing calls hcalls =>
    rw [hcalls]
    exact ⟨hp, rfl⟩
  | window before reshape newFrame call hbefore hreshape hcall hframe =>
    obtain ⟨hp, hframes⟩ := not_mem_of_unite hp
    obtain ⟨hold, hnew⟩ := not_mem_of_unite hframes
    rw [hframe] at hnew
    rw [List.foldl_cons, List.foldl_nil, hcall] at hfit' ⊢
    exact ⟨hp, scenePixel_reshaped hreshape hids hfit hfit' hbefore hold hnew⟩

/-- After an event that does not ask for the whole scene, a pixel outside the rectangle was outside
it before, and is the same. -/
theorem shownStep_off {s : Shown} {i : ShownInput} (scene : Scene)
    (hids : (s.windows.map (·.id)).Nodup) (hfit : AllFit s.windows)
    (hnext : ListsNext width height s i)
    (hfull : (shownStep width height s i).pointer.fullSceneDirty = false)
    (hp : ¬(shownStep width height s i).pointer.windowDirty.Mem p.1 p.2) :
    s.pointer.fullSceneDirty = false ∧ ¬s.pointer.windowDirty.Mem p.1 p.2 ∧
      scenePixel width height (scene.under s.pointer s.windows) p =
        scenePixel width height (scene.under (shownStep width height s i).pointer i.next) p := by
  obtain ⟨hlist, -, hfit'⟩ := hnext
  unfold shownStep at hfull hp ⊢
  simp only at hfull hp ⊢
  generalize hinput : s.input width height i = input at hfull hp hlist ⊢
  have hwindows : input.windows = s.windows := by rw [← hinput, Shown.input]
  have hsize : input.screenWidth = width ∧ input.screenHeight = height := by
    rw [← hinput, Shown.input]
    exact ⟨rfl, rfl⟩
  have houtcome : input.outcome = i.outcome := by rw [← hinput, Shown.input]
  obtain ⟨s₀, hdirty₀, hcontrol₀, htile₀, handled⟩ := message_handled input s.pointer
  generalize (handlePointerEventMessage input s.pointer).1 = s' at hfull hp handled ⊢
  generalize (handlePointerEventMessage input s.pointer).2 = calls at hlist handled
  rw [← hwindows] at hids hfit hlist ⊢
  have hwas : s.pointer.fullSceneDirty = false := by
    by_contra hon
    have hon' := handled.full (by simpa using hon)
    exact Bool.false_ne_true (hfull.symm.trans hon')
  -- No call restacked windows, so the list is what following the drag made of it.
  obtain ⟨posts, rest, hcalls, hposts, hrest⟩ := handled.parts
  have hlist : i.next = (followDrag input
      { updateControlHover input s₀ with pointerButtons := input.event.buttons }).2.foldl
        (applyCall input.outcome) input.windows := by
    rcases hlist with hrestacks | hlist
    · exact absurd (hfull.symm.trans (handled.restacks hrestacks)) Bool.false_ne_true
    · rw [hlist, hcalls, List.foldl_append, List.foldl_append,
        applyCalls_of_not_follows _ _ hposts, applyCalls_of_not_follows _ _ hrest, houtcome]
  obtain ⟨hcontrol, htile, -⟩ := followDrag_hover input
    { updateControlHover input s₀ with pointerButtons := input.event.buttons }
  have hunder : scene.under s' i.next = scene.under (updateControlHover input s₀) i.next := by
    unfold Scene.under
    rw [handled.windowHover, handled.taskbarHover, hcontrol, htile]
  have hunder₀ : scene.under s.pointer input.windows = scene.under s₀ input.windows := by
    unfold Scene.under
    rw [hcontrol₀, htile₀]
  rw [handled.windowDirty] at hp
  obtain ⟨hp, hdrag⟩ := followDrag_off width height scene hids hfit hfit'
    hlist hp
  obtain ⟨hp, hkept⟩ := updateControlHover_off input s₀ hp
  rw [hsize.1, hsize.2] at hkept
  rw [hdirty₀] at hp
  refine ⟨hwas, hp, ?_⟩
  calc scenePixel width height (scene.under s.pointer input.windows) p
      = scenePixel width height (scene.under s₀ input.windows) p := by rw [hunder₀]
    _ = scenePixel width height (scene.under (updateControlHover input s₀) input.windows) p :=
        scenePixel_hover hids hkept
    _ = scenePixel width height (scene.under (updateControlHover input s₀) i.next) p := hdrag
    _ = scenePixel width height (scene.under s' i.next) p := by rw [hunder]

end Step

section Run

variable [LawfulRects] [LawfulShapes] {canvas : Canvas} {scene : Scene}

/-- The canvas shows the scene, but for a rectangle. -/
def PixelView.ShowsBut (canvas : Canvas) (scene : Scene) (dirty : Rect) : Prop :=
  ∀ x y : ℕ, canvas.Has x y → ¬dirty.Mem x y → canvas.at x y = (redrawScene canvas scene).at x y

omit [LawfulRects] [LawfulShapes] in
/-- A canvas with the scene drawn shows it. -/
theorem redrawScene_showsBut (canvas : Canvas) (scene : Scene) (dirty : Rect) :
    (redrawScene canvas scene).ShowsBut scene dirty := by
  intro x y h _
  calc (redrawScene canvas scene).at x y = scenePixel canvas.width canvas.height scene (x, y) :=
        redrawScene_at canvas scene h
    _ = (redrawScene (redrawScene canvas scene) scene).at x y :=
        (redrawScene_at (redrawScene canvas scene) scene h).symm

/-- What holds between events: unique ids, windows that fit, and a canvas that shows the scene but
for the rectangle, unless the whole scene is asked for. -/
structure Repaintable (canvas : Canvas) (scene : Scene) (s : Shown) : Prop where
  ids : (s.windows.map (·.id)).Nodup
  fit : AllFit s.windows
  shows : s.pointer.fullSceneDirty = false →
    canvas.ShowsBut (scene.under s.pointer s.windows) s.pointer.windowDirty

/-- An event keeps it. -/
theorem Repaintable.step {s : Shown} {i : ShownInput} (hs : Repaintable canvas scene s)
    (hnext : ListsNext canvas.width canvas.height s i) :
    Repaintable canvas scene (shownStep canvas.width canvas.height s i) := by
  refine ⟨hnext.2.1, hnext.2.2, fun hfull x y h hp => ?_⟩
  obtain ⟨hwas, hp, hsame⟩ := shownStep_off (p := ((x : ℤ), (y : ℤ))) scene hs.ids hs.fit hnext
    hfull hp
  calc canvas.at x y = (redrawScene canvas (scene.under s.pointer s.windows)).at x y :=
        hs.shows hwas x y h hp
    _ = scenePixel canvas.width canvas.height (scene.under s.pointer s.windows) (x, y) :=
        redrawScene_at canvas _ h
    _ = scenePixel canvas.width canvas.height (scene.under
          (shownStep canvas.width canvas.height s i).pointer i.next) (x, y) := hsame
    _ = (redrawScene canvas (scene.under
          (shownStep canvas.width canvas.height s i).pointer i.next)).at x y :=
        (redrawScene_at canvas _ h).symm

/-- After any run of pointer events that does not ask for the whole scene, drawing the scene again
in the rectangle that the events left makes the canvas what drawing all of the scene would. -/
theorem repaint_shows {s : Shown} {is : List ShownInput} (hids : (s.windows.map (·.id)).Nodup)
    (hfit : AllFit s.windows)
    (hstart : canvas.ShowsBut (scene.under s.pointer s.windows) s.pointer.windowDirty)
    (hrun : Along (shownStep canvas.width canvas.height)
      (ListsNext canvas.width canvas.height) s is)
    (hfull : (is.foldl (shownStep canvas.width canvas.height) s).pointer.fullSceneDirty = false)
    {x y : ℕ} (h : canvas.Has x y) :
    let s' := is.foldl (shownStep canvas.width canvas.height) s
    let scene' := scene.under s'.pointer s'.windows
    (redrawSceneRect canvas scene' s'.pointer.windowDirty).at x y =
      (redrawScene canvas scene').at x y := by
  intro s' scene'
  have hs' : Repaintable canvas scene s' :=
    foldl_of_invariant (Repaintable canvas scene) (fun _ _ hs hnext => hs.step hnext)
      ⟨hids, hfit, fun _ => hstart⟩ hrun
  rw [redrawSceneRect_at canvas hs'.fit _ h]
  split_ifs with hdirty
  · exact (redrawScene_at canvas scene' h).symm
  · exact hs'.shows hfull x y h hdirty

end Run

section Small

omit [Ui] [UiCanvas] [ShadowTables]

/-- The small window is being moved by its title bar. -/
def movingWindow : Shown :=
  ⟨{ pointerIdle ⟨60, 50⟩ ⟨0, 0, 0, 0⟩ with
      drag := ⟨1, true, false, 20, 20, 0, 0, 0, 0⟩, pointerButtons := 1 }, [smallWindow]⟩

/-- It is moved to the right and let go, and the pointer goes on to its close button. -/
def moveThenHover : List ShownInput :=
  [⟨⟨90, 50, 1, .other⟩, ⟨true, true, true⟩, [{ smallWindow with x := 70 }]⟩,
    ⟨⟨90, 50, 0, .button⟩, ⟨true, true, true⟩, [{ smallWindow with x := 70 }]⟩,
    ⟨⟨150, 50, 0, .other⟩, ⟨true, true, true⟩, [{ smallWindow with x := 70 }]⟩]

/-- The canvas with the small scene on it, before the window is moved. -/
def smallShown : Canvas :=
  @redrawScene plainUi plainCanvas plainShadow (smallCanvas 0)
    (@Scene.under plainCanvas smallScene movingWindow.pointer movingWindow.windows)

/-- Both repaints agree where the close button came to be hovered. -/
theorem repaint_shows_close :
    let s' := moveThenHover.foldl (@shownStep plainUi 320 240) movingWindow
    let scene' := @Scene.under plainCanvas smallScene s'.pointer s'.windows
    s'.pointer.windowHover = ⟨1, .close⟩ ∧
      (@redrawSceneRect plainUi plainCanvas plainShadow smallShown scene'
        s'.pointer.windowDirty).at 150 50 =
      (@redrawScene plainUi plainCanvas plainShadow smallShown scene').at 150 50 := by
  have hmoved : AllFit [{ smallWindow with x := 70 }] := by
    intro window hmem _
    rw [List.mem_singleton.1 hmem]
    exact ⟨by decide, by decide⟩
  have hshown := @redrawScene_showsBut plainUi plainCanvas plainShadow (smallCanvas 0)
    (@Scene.under plainCanvas smallScene movingWindow.pointer movingWindow.windows)
    movingWindow.pointer.windowDirty
  refine ⟨by decide, @repaint_shows plainUi plainCanvas plainShadow plainUi_lawful
    plainCanvas_lawful smallShown smallScene movingWindow moveThenHover (by decide)
    smallScene_fits hshown ?_ (by decide) 150 50 ⟨by decide, by decide⟩⟩
  exact ⟨⟨.inr (by decide), by decide, hmoved⟩, ⟨.inr (by decide), by decide, hmoved⟩,
    ⟨.inr (by decide), by decide, hmoved⟩, trivial⟩

end Small

end IUserApps.Compositor
