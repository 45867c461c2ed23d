import IUserApps.Compositor.Pointer
import IUserApps.Runs

/-!
# Who holds the pointer

`PointerRoute` says that a press inside a window's content holds the pointer for that window until
every button is up. Over a run of pointer events that is `ReleasesPointer` at every step, that no
window holds it once no button is down, and `FollowsPress` for every press, that the window gets
the release and no other window an event before it.

Routing stands still while the compositor drags a window, and the resize grip lies inside the
content. A press on the grip is therefore routed, and holds the pointer, and also starts a resize,
and then its release is not routed. The result here is exact: the two properties hold of a run
exactly when every event without a button down comes while no window holds the pointer, or while
nothing is dragged and it is a button's event or the window is gone (`Releasable`).
-/

namespace IUserApps.Compositor

open Runs

variable [Ui]

/-- The step of a run of pointer events. -/
def pointerStep (s : PointerState) (i : PointerInput) : PointerState :=
  (handlePointerEventMessage i s).1

omit [Ui] in
/-- No window holds the pointer, nothing is dragged and no button is down. -/
def pointerIdle (cursor : CursorState) (windowDirty : Rect) : PointerState where
  route := ⟨0⟩
  drag := ⟨0, false, false, 0, 0, 0, 0, 0, 0⟩
  pointerButtons := 0
  cursor := cursor
  windowHover := ⟨0, .close⟩
  taskbarHover := none
  fullSceneDirty := false
  windowDirty := windowDirty

/-- The window that an event is posted to. -/
def postedTo (s : PointerState) (i : PointerInput) : Option ℕ :=
  match (routePointerToWindow i s.drag s.route).2 with
  | .windowPostEvent id _ :: _ => some id
  | _ => none

/-- After an event that reports no button down, no window holds the pointer. -/
def ReleasesPointer (s : PointerState) (i : PointerInput) : Prop :=
  i.event.buttons = 0 → (pointerStep s i).route.grabWindowId = 0

/-- The condition under which an event that reports no button down takes the pointer back: no
window holds it, or nothing is dragged and it is a button's event or the window is gone. -/
def Releasable (s : PointerState) (i : PointerInput) : Prop :=
  i.event.buttons = 0 → s.route.grabWindowId = 0 ∨
    s.drag.active = false ∧
      (i.event.action = .button ∨ windowById i.windows s.route.grabWindowId = none)

/-- While the window exists, no event goes to another window up to the one that reports all buttons
up, and that one goes to it. -/
def FollowsPress (w : ℕ) : PointerState → List PointerInput → Prop
  | _, [] => True
  | s, i :: is =>
    (windowById i.windows w).isSome →
      (∀ v, postedTo s i = some v → v = w) ∧
        if i.event.buttons = 0 then postedTo s i = some w else FollowsPress w (pointerStep s i) is

/-- Every press that is posted to a window while no other button is down is followed by its
release. -/
def PressesFollowed (s : PointerState) (is : List PointerInput) : Prop :=
  ∀ before i after w, is = before ++ i :: after →
    let s' := before.foldl pointerStep s
    s'.pointerButtons = 0 → i.event.action = .button → i.event.buttons ≠ 0 →
      postedTo s' i = some w → FollowsPress w (pointerStep s' i) after

/-! ## What a step does to the route -/

/-- The compositor's own part leaves the route as it is. -/
theorem pointerStep_route (s : PointerState) (i : PointerInput) :
    (pointerStep s i).route = (routePointerToWindow i s.drag s.route).1 := by
  -- No function of the compositor's own part names the route.
  have hfollow : ∀ s : PointerState, (followDrag i s).1.route = s.route := by
    intro s
    unfold followDrag moveDragged resizeDragged
    repeat' split
    all_goals rfl
  have hhover : ∀ s : PointerState, (updateControlHover i s).route = s.route := by
    intro s
    have htile : (followTile i s).route = s.route := by
      unfold followTile
      simp only
      repeat' split
      all_goals rfl
    unfold updateControlHover
    simp only
    split
    · exact htile
    · exact htile
  have hhandle : ∀ s : PointerState, (handlePointerEvent i s).1.route = s.route := by
    intro s
    have h := hfollow { updateControlHover i s with pointerButtons := i.event.buttons }
    rw [← hhover s]
    unfold handlePointerEvent
    simp only
    repeat' split
    all_goals exact h
  unfold pointerStep handlePointerEventMessage
  simp only
  repeat' split
  all_goals exact hhandle _

/-- While something is dragged, nothing is routed. -/
theorem route_of_active {s : PointerState} (h : s.drag.active = true) (i : PointerInput) :
    (pointerStep s i).route = s.route ∧ postedTo s i = none := by
  rw [pointerStep_route]
  unfold postedTo routePointerToWindow
  rw [if_pos h]
  exact ⟨rfl, rfl⟩

omit [Ui] in
/-- A window found by its id has that id. -/
theorem windowById_id {windows : List WindowInfo} {id : ℕ} {window : WindowInfo}
    (h : windowById windows id = some window) : window.id = id := by
  have := List.find?_some h
  simpa using this

/-- The window that holds the pointer gets the event, and keeps the pointer unless the event is a
button's and no button is down. -/
theorem route_of_grab {s : PointerState} {i : PointerInput} (hd : s.drag.active = false)
    (hg : s.route.grabWindowId ≠ 0) (hw : (windowById i.windows s.route.grabWindowId).isSome) :
    postedTo s i = some s.route.grabWindowId ∧
      (pointerStep s i).route.grabWindowId =
        if i.event.action = .button ∧ i.event.buttons = 0 then 0 else s.route.grabWindowId := by
  obtain ⟨window, hwindow⟩ := Option.isSome_iff_exists.1 hw
  have hid := windowById_id hwindow
  have hgrab : grabTarget s.route i.windows = some window := by
    unfold grabTarget
    rw [if_pos hg, hwindow]
  rw [pointerStep_route]
  unfold postedTo routePointerToWindow
  rw [if_neg (by simp [hd])]
  simp only [hgrab, Option.or, Option.isSome_some, if_true]
  refine ⟨by rw [hid], ?_⟩
  by_cases ha : i.event.action = .button
  · by_cases hb : i.event.buttons = 0
    · simp [ha, hb]
    · simp [ha, hid]
  · simp [ha]

/-- When no window that exists holds the pointer, a button's event gives it to the window that gets
the event, and any other event leaves it free. -/
theorem route_of_free {s : PointerState} {i : PointerInput} (hd : s.drag.active = false)
    (hg : s.route.grabWindowId = 0 ∨ windowById i.windows s.route.grabWindowId = none) :
    (pointerStep s i).route.grabWindowId =
      if i.event.action = .button ∧ i.event.buttons ≠ 0 then (postedTo s i).getD 0 else 0 := by
  have hgrab : grabTarget s.route i.windows = none := by
    unfold grabTarget
    split
    · next hne => exact hg.resolve_left hne
    · rfl
  rw [pointerStep_route]
  unfold postedTo routePointerToWindow
  rw [if_neg (by simp [hd])]
  simp only [hgrab, Option.or, Option.isSome_none]
  cases contentTarget i with
  | none => simp
  | some target =>
    by_cases ha : i.event.action = .button
    · by_cases hb : i.event.buttons = 0
      · simp [ha, hb]
      · simp [ha]
    · simp [ha]

/-- Whoever gets a press holds the pointer after it. -/
theorem grab_of_press {s : PointerState} {i : PointerInput} {w : ℕ}
    (hpost : postedTo s i = some w) (ha : i.event.action = .button) (hb : i.event.buttons ≠ 0) :
    (pointerStep s i).route.grabWindowId = w := by
  have hd : s.drag.active = false := by
    cases h : s.drag.active with
    | false => rfl
    | true =>
      rw [(route_of_active h i).2] at hpost
      exact absurd hpost (by simp)
  by_cases hw : s.route.grabWindowId ≠ 0 ∧ (windowById i.windows s.route.grabWindowId).isSome
  · obtain ⟨hp, hg⟩ := route_of_grab hd hw.1 hw.2
    rw [hg, if_neg (fun h => hb h.2)]
    rw [hp] at hpost
    exact Option.some.inj hpost
  · have hfree : s.route.grabWindowId = 0 ∨
        windowById i.windows s.route.grabWindowId = none := by
      by_cases h0 : s.route.grabWindowId = 0
      · exact Or.inl h0
      · right
        have := fun h => hw ⟨h0, h⟩
        simpa using this
    rw [route_of_free hd hfree, if_pos ⟨ha, hb⟩, hpost]
    rfl

/-- An event is posted only to a window that exists, so never to none. -/
theorem postedTo_ne_zero {s : PointerState} {i : PointerInput} {w : ℕ}
    (hpost : postedTo s i = some w) : w ≠ 0 := by
  unfold postedTo routePointerToWindow at hpost
  split at hpost
  · next id _ _ heq =>
    split at heq
    · simp at heq
    · simp only at heq
      split at heq
      · simp at heq
      · next target _ =>
        have hid : target.id = w := by
          simp only [List.cons.injEq, Call.windowPostEvent.injEq] at heq
          rw [heq.1.1]
          exact Option.some.inj hpost
        rw [← hid]
        exact target.id_ne_zero
  · simp at hpost

/-! ## Runs -/

/-- One event takes the pointer back exactly when it can. -/
theorem releasesPointer_iff (s : PointerState) (i : PointerInput) :
    ReleasesPointer s i ↔ Releasable s i := by
  unfold ReleasesPointer Releasable
  by_cases hb : i.event.buttons = 0
  · simp only [hb, true_implies]
    by_cases hg : s.route.grabWindowId = 0
    · simp only [hg, true_or, iff_true]
      cases hd : s.drag.active with
      | true => rw [(route_of_active hd i).1, hg]
      | false => rw [route_of_free hd (Or.inl hg), if_neg (by simp [hb])]
    · simp only [hg, false_or]
      cases hd : s.drag.active with
      | true =>
        rw [(route_of_active hd i).1]
        simp [hg]
      | false =>
        by_cases hw : (windowById i.windows s.route.grabWindowId).isSome
        · rw [(route_of_grab hd hg hw).2]
          have hne : windowById i.windows s.route.grabWindowId ≠ none := by
            intro h
            rw [h] at hw
            simp at hw
          by_cases ha : i.event.action = .button
          · simp [ha, hb]
          · simp [ha, hg, hne]
        · have hnone : windowById i.windows s.route.grabWindowId = none := by simpa using hw
          rw [route_of_free hd (Or.inr hnone), if_neg (by simp [hb])]
          simp [hnone]
  · exact ⟨fun _ h => absurd h hb, fun _ h => absurd h hb⟩

/-- A window that holds the pointer follows its press, when the run takes the pointer back. -/
theorem followsPress_of_releases {w : ℕ} (hw : w ≠ 0) {s : PointerState} {is : List PointerInput}
    (hg : s.route.grabWindowId = w) (h : Along pointerStep Releasable s is) :
    FollowsPress w s is := by
  induction is generalizing s with
  | nil => trivial
  | cons i is ih =>
    intro hlisted
    have hlisted' : (windowById i.windows s.route.grabWindowId).isSome := by rw [hg]; exact hlisted
    have hgne : s.route.grabWindowId ≠ 0 := by rw [hg]; exact hw
    -- All that the event can do is go to `w`, or to nobody while something is dragged.
    have honly : ∀ v, postedTo s i = some v → v = w := by
      intro v hv
      cases hd : s.drag.active with
      | true =>
        rw [(route_of_active hd i).2] at hv
        exact absurd hv (by simp)
      | false =>
        rw [(route_of_grab hd hgne hlisted').1, hg] at hv
        exact (Option.some.inj hv).symm
    refine ⟨honly, ?_⟩
    split
    · next hb =>
      rcases h.1 hb with h0 | ⟨hd, -⟩
      · exact absurd h0 hgne
      · rw [(route_of_grab hd hgne hlisted').1, hg]
    · next hb =>
      have hkeep : (pointerStep s i).route.grabWindowId = w := by
        cases hd : s.drag.active with
        | true => rw [(route_of_active hd i).1, hg]
        | false => rw [(route_of_grab hd hgne hlisted').2, if_neg (fun h => hb h.2), hg]
      exact ih hkeep h.2

/-- Over any run of pointer events, no window holds the pointer once no button is down and every
press is followed by its release exactly when every event without a button down finds no window
holding the pointer, or nothing dragged and is a button's event or comes when the window is
gone. -/
theorem pointer_released_iff (cursor : CursorState) (windowDirty : Rect)
    (is : List PointerInput) :
    (Along pointerStep ReleasesPointer (pointerIdle cursor windowDirty) is ∧
      PressesFollowed (pointerIdle cursor windowDirty) is) ↔
    Along pointerStep Releasable (pointerIdle cursor windowDirty) is := by
  have hiff : ∀ {s : PointerState} {is : List PointerInput},
      Along pointerStep ReleasesPointer s is ↔ Along pointerStep Releasable s is := by
    intro s is
    exact along_congr_of_invariant (fun _ => True)
      (fun s i _ => releasesPointer_iff s i) (fun _ _ _ _ => trivial) trivial
  rw [hiff]
  constructor
  · exact fun h => h.1
  · intro h
    refine ⟨h, ?_⟩
    rintro before i after w rfl s' - ha hb hpost
    rw [along_append] at h
    exact followsPress_of_releases (postedTo_ne_zero hpost) (grab_of_press hpost ha hb) h.2.2

omit [Ui] in
/-- A window of 200 by 100 in the middle of the screen. -/
def someWindow : WindowInfo where
  id := 1
  state := ⟨true, false, false, false⟩
  x := 100
  y := 100
  width := 200
  height := 100
  surfaceID := 7
  title := "Editor"
  id_ne_zero := Nat.one_ne_zero

omit [Ui] in
/-- The left button on the resize grip of `someWindow`: pressed, then released. -/
def gripButton (buttons : BitVec 16) : PointerInput where
  event := ⟨290, 230, buttons, .button⟩
  windows := [someWindow]
  screenWidth := 1280
  screenHeight := 800
  outcome := ⟨true, true, true⟩

omit [Ui] in
/-- A press on a window's resize grip holds the pointer, and the release neither frees the pointer
nor reaches the window. -/
theorem gripButton_stuck :
    let idle := pointerIdle ⟨640, 400⟩ ⟨0, 0, 0, 0⟩
    let pressed := @pointerStep plainUi idle (gripButton 1)
    @postedTo plainUi idle (gripButton 1) = some 1 ∧
      @postedTo plainUi pressed (gripButton 0) = none ∧
      ¬(@Along _ _ (@pointerStep plainUi) (@ReleasesPointer plainUi) idle
          [gripButton 1, gripButton 0] ∧
        @PressesFollowed plainUi idle [gripButton 1, gripButton 0]) := by
  refine ⟨by decide, by decide, ?_⟩
  rintro ⟨⟨-, hrelease, -⟩, -⟩
  have hheld : (@pointerStep plainUi
      (@pointerStep plainUi (pointerIdle ⟨640, 400⟩ ⟨0, 0, 0, 0⟩) (gripButton 1))
      (gripButton 0)).route.grabWindowId = 1 := by decide
  have hfree := hrelease rfl
  rw [hheld] at hfree
  exact absurd hfree (by decide)

end IUserApps.Compositor
