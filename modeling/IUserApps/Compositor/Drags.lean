import IUserApps.Compositor.PointerRuns
import Mathlib.Data.List.Induction

/-!
# What is dragged

`handlePointerEvent` over runs of events, with a window list that may change between any two of
them. A drag is started by a press of the left button alone, and no event comes between that press
and the end of the drag without the button down (`HeldSince`). So whatever is moved or resized is
the window that was on top at the press, and it follows the pointer by its place there
(`drag_sound`).
-/

namespace IUserApps.Compositor

variable [Ui]

/-- The step of a run of events. -/
def dragStep (s : PointerState) (i : PointerInput) : PointerState := (handlePointerEvent i s).1

/-- The calls that an event leads to. -/
def dragCalls (s : PointerState) (i : PointerInput) : List Call := (handlePointerEvent i s).2.1

/-- The calls that follow a drag. -/
def Call.follows : Call → Bool
  | .compositorMoveWindow .. | .compositorResizeWindow .. => true
  | _ => false

/-- The press was outside the taskbar, on the topmost window there, and on the part of it that
starts such a drag. A move keeps the place of the press in the window. -/
structure StartedBy (press : PointerInput) (window : WindowInfo) (drag : DragState) : Prop where
  outside : taskbarHit (taskbarLayout press.screenWidth press.screenHeight press.windows)
    press.event.x press.event.y = .none
  topmost : topWindowAt press.windows press.event.x press.event.y = some window
  windowId : drag.windowId = window.id
  moving : drag.moving = true → pointerOnTitlebar window press.event.x press.event.y = true ∧
    drag.grabOffsetX = press.event.x - window.x ∧ drag.grabOffsetY = press.event.y - window.y
  resizing : drag.resizing = true → pointerOnResizeGrip window press.event.x press.event.y = true

/-- One of the events started the drag, a press of the left button, which has been down ever
since. -/
def HeldSince (s : PointerState) (is : List PointerInput) (press : PointerInput)
    (window : WindowInfo) (drag : DragState) : Prop :=
  ∃ before after, is = before ++ press :: after ∧
    leftDown (before.foldl dragStep s).pointerButtons = false ∧
    leftDown press.event.buttons = true ∧ (∀ i ∈ after, leftDown i.event.buttons = true) ∧
    StartedBy press window drag

/-! ## One event -/

/-- Following the pointer over the controls leaves the drag and the buttons. -/
theorem updateControlHover_keeps (i : PointerInput) (s : PointerState) :
    (updateControlHover i s).drag = s.drag ∧
      (updateControlHover i s).pointerButtons = s.pointerButtons := by
  have htile : (followTile i s).drag = s.drag ∧
      (followTile i s).pointerButtons = s.pointerButtons := by
    unfold followTile
    simp only
    repeat' split
    all_goals exact ⟨rfl, rfl⟩
  unfold updateControlHover
  simp only
  split
  · exact htile
  · exact htile

/-- Moving or resizing the dragged window leaves the drag and the buttons. -/
theorem followDrag_keeps (i : PointerInput) (s : PointerState) :
    (followDrag i s).1.drag = s.drag ∧ (followDrag i s).1.pointerButtons = s.pointerButtons := by
  unfold followDrag moveDragged resizeDragged
  simp only
  repeat' split
  all_goals exact ⟨rfl, rfl⟩

/-- The drag after an event: a press may start one, a release ends it. -/
theorem dragStep_drag (s : PointerState) (i : PointerInput) :
    (dragStep s i).pointerButtons = i.event.buttons ∧
      (dragStep s i).drag =
        if !leftDown s.pointerButtons && leftDown i.event.buttons then (pressLeft i s.drag).1
        else if leftDown s.pointerButtons && !leftDown i.event.buttons then clearDrag s.drag
        else s.drag := by
  obtain ⟨hhover, hbuttons⟩ := updateControlHover_keeps i s
  obtain ⟨hdrag, hleft⟩ := followDrag_keeps i
    { updateControlHover i s with pointerButtons := i.event.buttons }
  have hdrag' := hdrag.trans hhover
  -- What is dragged follows the pointer before the press or the release is looked at.
  unfold dragStep handlePointerEvent
  simp only
  rw [hbuttons]
  split
  · refine ⟨hleft, ?_⟩
    show (pressLeft i _).1 = _
    rw [hdrag']
  · split
    · refine ⟨hleft, ?_⟩
      show clearDrag _ = _
      rw [hdrag']
    · exact ⟨hleft, hdrag'⟩

/-- A press on a window starts a drag by its title bar or by its resize grip, or none. -/
theorem pressWindow_starts (i : PointerInput) {drag : DragState} (hidle : drag.active = false)
    (window : WindowInfo) :
    (pressWindow i drag window).1.active = false ∨
      ((pressWindow i drag window).1 = beginResize drag window i.event.x i.event.y ∧
        pointerOnResizeGrip window i.event.x i.event.y = true) ∨
      ((pressWindow i drag window).1 = beginMove drag window i.event.x i.event.y ∧
        pointerOnTitlebar window i.event.x i.event.y = true) := by
  unfold pressWindow
  simp only
  split
  · exact Or.inl rfl
  · split
    · exact Or.inl rfl
    · split
      · exact Or.inl rfl
      · split
        · next hgrip => exact Or.inr (Or.inl ⟨rfl, hgrip⟩)
        · split
          · next hbar => exact Or.inr (Or.inr ⟨rfl, hbar⟩)
          · exact Or.inl hidle

/-- A press starts a drag of the topmost window, or none. -/
theorem pressLeft_starts (i : PointerInput) {drag : DragState} (hidle : drag.active = false) :
    (pressLeft i drag).1.active = false ∨
      (((pressLeft i drag).1.moving && (pressLeft i drag).1.resizing) = false ∧
        ∃ window, StartedBy i window (pressLeft i drag).1) := by
  unfold pressLeft
  simp only
  split
  · exact Or.inl rfl
  · exact Or.inl rfl
  · exact Or.inl rfl
  · next hoff =>
    split
    · exact Or.inl hidle
    · next window htop =>
      rcases pressWindow_starts i hidle window with hnone | ⟨hdrag, hgrip⟩ | ⟨hdrag, hbar⟩
      · exact Or.inl hnone
      · right
        rw [hdrag]
        exact ⟨rfl, window, hoff, htop, rfl, (fun h => nomatch h), fun _ => hgrip⟩
      · right
        rw [hdrag]
        exact ⟨rfl, window, hoff, htop, rfl, fun _ => ⟨hbar, rfl, rfl⟩, fun h => nomatch h⟩

omit [Ui] in
/-- A click on the taskbar moves and resizes nothing. -/
theorem taskbarClick_calls (outcome : Outcome) (layout : TaskbarLayout) (tile : ℕ)
    (windows : List WindowInfo) :
    ∀ call ∈ (taskbarClick outcome layout tile windows).1, call.follows = false := by
  have hlaunch : ∀ slot, ∀ call ∈ (launchTaskbarSlot outcome slot).1, call.follows = false := by
    intro slot call hmem
    unfold launchTaskbarSlot at hmem
    split at hmem
    · rw [List.mem_singleton.1 hmem]
      rfl
    · simp at hmem
  intro call hmem
  -- Each branch launches an app, activates or minimises a window, or does nothing.
  unfold taskbarClick at hmem
  split at hmem
  · simp at hmem
  · simp only at hmem
    split at hmem
    · next hnone =>
      split at hmem
      · simp only at hmem
        split at hmem
        · exact hlaunch _ call hmem
        · rcases List.mem_append.1 hmem with hmem | hmem
          · exact hlaunch _ call hmem
          · rw [List.mem_singleton.1 hmem]
            rfl
      · simp at hmem
    · split at hmem
      · rw [List.mem_singleton.1 hmem]
        rfl
      · rw [List.mem_singleton.1 hmem]
        rfl

/-- A press moves and resizes nothing. -/
theorem pressLeft_calls (i : PointerInput) (drag : DragState) :
    ∀ call ∈ (pressLeft i drag).2.1, call.follows = false := by
  have hwindow : ∀ window, ∀ call ∈ (pressWindow i drag window).2, call.follows = false := by
    intro window call hmem
    unfold pressWindow at hmem
    simp only at hmem
    repeat' split at hmem
    all_goals simp at hmem
    all_goals rw [hmem]; rfl
  intro call hmem
  unfold pressLeft at hmem
  simp only at hmem
  split at hmem
  · exact taskbarClick_calls _ _ _ _ call hmem
  · simp at hmem
  · simp at hmem
  · split at hmem
    · simp at hmem
    · next window _ =>
      rcases List.mem_cons.1 hmem with hfocus | hmem
      · rw [hfocus]
        rfl
      · exact hwindow window call hmem

/-- An event moves or resizes a window only for the drag before it, while the button is down. -/
theorem dragCalls_follow (s : PointerState) (i : PointerInput) {call : Call}
    (hmem : call ∈ dragCalls s i) (hfollows : call.follows = true) :
    leftDown i.event.buttons = true ∧
      ((s.drag.moving = true ∧ call = .compositorMoveWindow s.drag.windowId
        (i.event.x - s.drag.grabOffsetX) (i.event.y - s.drag.grabOffsetY)) ∨
      (s.drag.resizing = true ∧ ∃ width height,
        call = .compositorResizeWindow s.drag.windowId width height)) := by
  obtain ⟨hhover, -⟩ := updateControlHover_keeps i s
  have hfollow : ∀ t : PointerState, t.drag = s.drag → call ∈ (followDrag i t).2 →
      leftDown i.event.buttons = true ∧
        ((s.drag.moving = true ∧ call = .compositorMoveWindow s.drag.windowId
          (i.event.x - s.drag.grabOffsetX) (i.event.y - s.drag.grabOffsetY)) ∨
        (s.drag.resizing = true ∧ ∃ width height,
          call = .compositorResizeWindow s.drag.windowId width height)) := by
    intro t ht hmem
    unfold followDrag at hmem
    rw [ht] at hmem
    split at hmem
    · next hmove =>
      obtain ⟨hmoving, hdown⟩ := Bool.and_eq_true_iff.1 hmove
      refine ⟨hdown, Or.inl ⟨hmoving, ?_⟩⟩
      unfold moveDragged at hmem
      simp only [ht] at hmem
      repeat' split at hmem
      all_goals simp at hmem
      all_goals exact hmem
    · split at hmem
      · next hresize =>
        obtain ⟨hresizing, hdown⟩ := Bool.and_eq_true_iff.1 hresize
        refine ⟨hdown, Or.inr ⟨hresizing, ?_⟩⟩
        unfold resizeDragged at hmem
        simp only [ht] at hmem
        repeat' split at hmem
        all_goals simp at hmem
        all_goals exact ⟨_, _, hmem⟩
      · simp at hmem
  -- The follow step starts from the state after the hover, which keeps the drag.
  have hfirst := hfollow { updateControlHover i s with pointerButtons := i.event.buttons } hhover
  unfold dragCalls handlePointerEvent at hmem
  simp only at hmem
  split at hmem
  · -- The calls of a press come behind, and none of them moves or resizes.
    rcases List.mem_append.1 hmem with hmem | hmem
    · exact hfirst hmem
    · rw [pressLeft_calls i _ call hmem] at hfollows
      exact absurd hfollows (by decide)
  · split at hmem
    · exact hfirst hmem
    · exact hfirst hmem

/-! ## Runs -/

/-- What holds after a run of events: only one drag is active, and it has been held since the press
that started it. -/
structure Dragging (s : PointerState) (is : List PointerInput) (s' : PointerState) : Prop where
  single : (s'.drag.moving && s'.drag.resizing) = false
  held : s'.drag.active = true →
    leftDown s'.pointerButtons = true ∧ ∃ press window, HeldSince s is press window s'.drag

/-- A drag that is held through one more event has been held since the same press. -/
theorem HeldSince.snoc {s : PointerState} {is : List PointerInput} {press : PointerInput}
    {window : WindowInfo} {drag : DragState} (h : HeldSince s is press window drag)
    {i : PointerInput} (hdown : leftDown i.event.buttons = true) :
    HeldSince s (is ++ [i]) press window drag := by
  obtain ⟨before, after, his, hup, hpress, hafter, hstarted⟩ := h
  refine ⟨before, after ++ [i], ?_, hup, hpress, ?_, hstarted⟩
  · rw [his]
    simp
  · intro j hj
    rcases List.mem_append.1 hj with hj | hj
    · exact hafter j hj
    · rw [List.mem_singleton.1 hj]
      exact hdown

/-- Nothing to show while nothing is dragged. -/
theorem Dragging.of_idle {s s' : PointerState} (is : List PointerInput)
    (hidle : s'.drag.active = false) : Dragging s is s' where
  single := by
    unfold DragState.active at hidle
    rw [(Bool.or_eq_false_iff.1 hidle).1]
    rfl
  held := by
    intro hactive
    rw [hidle] at hactive
    exact absurd hactive Bool.false_ne_true

/-- One more event. -/
theorem Dragging.step {s s' : PointerState} {is : List PointerInput}
    (hs' : s' = is.foldl dragStep s) (h : Dragging s is s') (i : PointerInput) :
    Dragging s (is ++ [i]) (dragStep s' i) := by
  obtain ⟨hbuttons, hdrag⟩ := dragStep_drag s' i
  cases hwas : leftDown s'.pointerButtons with
  | false =>
    -- The button was up, so nothing was dragged.
    have hidle : s'.drag.active = false := by
      by_contra hactive
      rw [(h.held (eq_true_of_ne_false hactive)).1] at hwas
      exact absurd hwas (by decide)
    cases his : leftDown i.event.buttons with
    | false =>
      have hsame : (dragStep s' i).drag = s'.drag := by
        rw [hdrag, hwas, his]
        rfl
      rw [← hsame] at hidle
      exact Dragging.of_idle _ hidle
    | true =>
      -- A press: the drag that it may start has been held for no event yet.
      have hpress : (dragStep s' i).drag = (pressLeft i s'.drag).1 := by
        rw [hdrag, hwas, his]
        rfl
      rcases pressLeft_starts i hidle with hnone | ⟨hsingle, window, hstarted⟩
      · rw [← hpress] at hnone
        exact Dragging.of_idle _ hnone
      · rw [hs'] at hwas
        rw [← hpress] at hsingle hstarted
        refine ⟨hsingle, ?_⟩
        intro _
        rw [hbuttons]
        exact ⟨his, i, window, is, [], rfl, hwas, his, (fun _ hj => nomatch hj), hstarted⟩
  | true =>
    cases his : leftDown i.event.buttons with
    | false =>
      -- The release ends the drag, of whatever window.
      have hclear : (dragStep s' i).drag = clearDrag s'.drag := by
        rw [hdrag, hwas, his]
        rfl
      refine Dragging.of_idle _ ?_
      rw [hclear]
      rfl
    | true =>
      -- The button stays down, and the drag stays as it was.
      have hsame : (dragStep s' i).drag = s'.drag := by
        rw [hdrag, hwas, his]
        rfl
      refine ⟨?_, ?_⟩
      · rw [hsame]
        exact h.single
      · rw [hsame, hbuttons]
        intro hactive
        obtain ⟨-, press, window, hheld⟩ := h.held hactive
        exact ⟨his, press, window, hheld.snoc his⟩

/-- Every run from a cleared drag with no button down. -/
theorem dragging_of_run {s : PointerState} (hclear : s.drag.active = false)
    (is : List PointerInput) : Dragging s is (is.foldl dragStep s) := by
  -- One event at the end, as the press lies somewhere before it.
  induction is using List.reverseRecOn with
  | nil => exact Dragging.of_idle _ hclear
  | append_singleton is i ih =>
    rw [List.foldl_append]
    exact ih.step rfl i

/-- An event with the button down that finds a drag comes while it is held. -/
theorem Dragging.through {s s' : PointerState} {is : List PointerInput} (h : Dragging s is s')
    (hactive : s'.drag.active = true) {i : PointerInput} (hdown : leftDown i.event.buttons = true) :
    ∃ press window, HeldSince s (is ++ [i]) press window s'.drag ∧
      StartedBy press window s'.drag := by
  obtain ⟨-, press, window, hheld⟩ := h.held hactive
  obtain ⟨-, -, -, -, -, -, hstarted⟩ := hheld.snoc hdown
  exact ⟨press, window, hheld.snoc hdown, hstarted⟩

/-- After any run of events from a cleared drag, with any window lists, at most one drag is active,
only while the left button is down, of the window that the press on its title bar or its resize
grip found on top. An event moves or resizes no other window, and a move keeps the pointer's place
in the window. -/
theorem drag_sound (s : PointerState) (hclear : s.drag.active = false)
    (is : List PointerInput) :
    let s' := is.foldl dragStep s
    (s'.drag.moving && s'.drag.resizing) = false ∧
      (s'.drag.active = true → leftDown s'.pointerButtons = true ∧
        ∃ press window, HeldSince s is press window s'.drag) ∧
      ∀ i, ∀ call ∈ dragCalls s' i,
        (∀ id x y, call = .compositorMoveWindow id x y →
          ∃ press window, HeldSince s (is ++ [i]) press window s'.drag ∧ id = window.id ∧
            i.event.x - x = press.event.x - window.x ∧
            i.event.y - y = press.event.y - window.y) ∧
        ∀ id width height, call = .compositorResizeWindow id width height →
          ∃ press window, HeldSince s (is ++ [i]) press window s'.drag ∧ id = window.id := by
  intro s'
  have h : Dragging s is s' := dragging_of_run hclear is
  refine ⟨h.single, h.held, ?_⟩
  intro i call hmem
  refine ⟨?_, ?_⟩
  · rintro id x y rfl
    obtain ⟨hdown, ⟨hmoving, hcall⟩ | ⟨-, width, height, hcall⟩⟩ := dragCalls_follow s' i hmem rfl
    · have hactive : s'.drag.active = true := by
        unfold DragState.active
        rw [hmoving]
        rfl
      obtain ⟨press, window, hheld, hstarted⟩ := h.through hactive hdown
      obtain ⟨-, hx, hy⟩ := hstarted.moving hmoving
      obtain ⟨rfl, rfl, rfl⟩ := Call.compositorMoveWindow.inj hcall
      -- Both places are the grab offset away from their window.
      refine ⟨press, window, hheld, hstarted.windowId, ?_, ?_⟩
      · omega
      · omega
    · exact absurd hcall (by simp)
  · rintro id width height rfl
    obtain ⟨hdown, ⟨-, hcall⟩ | ⟨hresizing, width', height', hcall⟩⟩ :=
      dragCalls_follow s' i hmem rfl
    · exact absurd hcall (by simp)
    · have hactive : s'.drag.active = true := by
        unfold DragState.active
        rw [hresizing, Bool.or_true]
      obtain ⟨press, window, hheld, hstarted⟩ := h.through hactive hdown
      obtain ⟨rfl, -, -⟩ := Call.compositorResizeWindow.inj hcall
      exact ⟨press, window, hheld, hstarted.windowId⟩

omit [Ui] in
/-- The left button at a place over `someWindow`. -/
def leftAt (x y : ℤ) (action : PointerEventAction) : PointerInput where
  event := ⟨x, y, 1, action⟩
  windows := [someWindow]
  screenWidth := 1280
  screenHeight := 800
  outcome := ⟨true, true, true⟩

omit [Ui] in
/-- A press on the title bar and a move: the window moves with the pointer. -/
theorem drag_sound_titlebar :
    let idle := pointerIdle ⟨640, 400⟩ ⟨0, 0, 0, 0⟩
    let pressed := @dragStep plainUi idle (leftAt 150 110 .button)
    pressed.drag.active = true ∧
      @dragCalls plainUi pressed (leftAt 170 140 .other) = [.compositorMoveWindow 1 120 130] ∧
      ∃ press window, @HeldSince plainUi idle [leftAt 150 110 .button, leftAt 170 140 .other]
        press window pressed.drag ∧ 1 = window.id ∧ 170 - 120 = press.event.x - window.x ∧
          140 - 130 = press.event.y - window.y := by
  intro idle pressed
  have hcalls : @dragCalls plainUi pressed (leftAt 170 140 .other) =
      [.compositorMoveWindow 1 120 130] := by decide
  obtain ⟨-, -, h⟩ := @drag_sound plainUi idle rfl [leftAt 150 110 .button]
  have hmem : Call.compositorMoveWindow 1 120 130 ∈
      @dragCalls plainUi pressed (leftAt 170 140 .other) := by
    rw [hcalls]
    exact List.mem_singleton_self _
  exact ⟨by decide, hcalls, (h (leftAt 170 140 .other) _ hmem).1 1 120 130 rfl⟩

end IUserApps.Compositor
