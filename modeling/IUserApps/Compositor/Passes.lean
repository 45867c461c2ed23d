import IUserApps.Compositor.DirtyRects
import IUserApps.Compositor.Pointer

/-!
# The passes of the event loop

`runOnce` of `main.cpp`: a pass takes everything that is queued and redraws what changed, the whole
scene or a rectangle of it. It polls for commits three times, the last time after it has fetched the
window list, and the list decides: when it is not the one of the pass before, the whole scene is
redrawn.

A commit may come long before a window shows its surface, and what has changed of it is forgotten in
the pass that takes the commit. Nothing is lost by that, as a window can begin to show a surface
only through a change of the list: after every pass no pixel on the screen shows a commit that was
taken since the pixel was last repainted (`DamageRun.Sound`), so what a pass that redraws a
rectangle has to repaint are its own commits.

The texts on the serial line, the replies to programs and the calls for programs' windows are left
out.
-/

namespace IUserApps.Compositor

open Runs

/-- The windows a list holds at most. -/
def kMaxWindows : ℕ := 64

/-- A window of the list, with what the compositor only compares. -/
structure ListedWindow extends WindowInfo where
  ownerPID : ℕ
  flags : ℕ
  zOrder : ℕ
deriving DecidableEq, Repr

/-- What the kernel answers when the windows are listed, and whether its calls for a window that is
new to the list succeed. -/
structure Listing where
  windows : List ListedWindow
  outcome : ℕ → Outcome
  /-- There is room for all of them. -/
  length_le : windows.length ≤ kMaxWindows
  /-- Their sides are those of an `int`. -/
  side_lt : ∀ window ∈ windows, window.width < 2^31 ∧ window.height < 2^31

/-- What a message of the compositor's queue asks for. -/
inductive Message
  | pointer (event : PointerEvent) (outcome : Outcome)
  /-- A picture for the background, and whether it could be loaded. -/
  | setBackground (loaded : Bool)
  /-- A key, a hello, or what cannot be decoded. -/
  | other
deriving DecidableEq, Repr

/-- The compositor: its windows, its scene and what is to be drawn again. -/
structure GraphicsCompositor where
  fbWidth : ℕ
  fbHeight : ℕ
  pointer : PointerState
  windowSnapshot : List ListedWindow
  windowSnapshotReady : Bool
  shownNetworkOnline : Bool
  surfaceCache : SurfaceCache

/-- What comes in during a pass, in the order in which it is asked for. A list that fails to be
fetched is `none`. -/
structure PassInput where
  polledFirst : List SurfaceInfo
  /-- The message waited for when the first poll gave nothing. -/
  received : Option Message
  drained : List Message
  networkOnline : Bool
  polledSecond : List SurfaceInfo
  listing : Option Listing
  polledThird : List SurfaceInfo
  /-- The list that a full redraw fetches. -/
  listingForFull : Option Listing

/-- All the commits that a pass takes. -/
def PassInput.polled (i : PassInput) : List SurfaceInfo :=
  i.polledFirst ++ i.polledSecond ++ i.polledThird

/-- What a pass repaints. -/
inductive Repaint
  | full
  | rect (r : Rect)
  | nothing
deriving DecidableEq, Repr

/-- The pixel is repainted. -/
def Repaint.Mem : Repaint → ℤ → ℤ → Prop
  | .full, _, _ => True
  | .rect r, x, y => r.Mem x y
  | .nothing, _, _ => False

instance (repaint : Repaint) (x y : ℤ) : Decidable (repaint.Mem x y) := by
  cases repaint <;> unfold Repaint.Mem <;> infer_instance

/-- Two windows of lists are the same in everything that is compared. -/
def sameWindow (a b : ListedWindow) : Bool :=
  decide (a.id = b.id) && decide (a.ownerPID = b.ownerPID) && decide (a.flags = b.flags) &&
    decide (a.state = b.state) && decide (a.x = b.x) && decide (a.y = b.y) &&
    decide (a.width = b.width) && decide (a.height = b.height) &&
    decide (a.surfaceID = b.surfaceID) && decide (a.zOrder = b.zOrder) &&
    decide (a.title = b.title)

/-- The window at another height. -/
def ListedWindow.atY (window : ListedWindow) (y : ℤ) : ListedWindow := { window with y := y }

/-- The window with another height of its content. -/
def ListedWindow.withHeight (window : ListedWindow) (height : ℤ) : ListedWindow :=
  { window with height := height }

/-- A new window whose frame would reach under the taskbar moves up, and shrinks if it is taller than
the work area. -/
def keepAboveTaskbar (fbHeight : ℕ) (outcome : Outcome) (window : ListedWindow) : ListedWindow :=
  let bottom := workAreaBottom fbHeight
  if window.y + frameHeight window.toWindowInfo ≤ bottom then window
  else
    let y := max 8 (bottom - frameHeight window.toWindowInfo)
    let window := if y ≠ window.y ∧ outcome.moves = true then window.atY y else window
    let room := bottom - window.y - kTitleBarHeight - kBorder
    if room < window.height ∧ 48 < room ∧ outcome.resizes = true then window.withHeight room
    else window

/-- Keeps every window that was not there before above the taskbar. -/
def logNewWindows (fbHeight : ℕ) (snapshot : List ListedWindow) (outcome : ℕ → Outcome)
    (current : List ListedWindow) : List ListedWindow :=
  current.map fun window =>
    if snapshot.any (fun old => old.id = window.id) || decide (window.x < 0) ||
        decide (window.y < 0) then window
    else keepAboveTaskbar fbHeight (outcome window.id) window

/-- The windows of a list, none when it cannot be fetched. -/
def fetchWindows (listing : Option Listing) : List ListedWindow :=
  match listing with
  | some listing => listing.windows
  | none => []

namespace GraphicsCompositor

/-- The compositor before its first list. -/
def initial (fbWidth fbHeight : ℕ) (pointer : PointerState) : GraphicsCompositor :=
  ⟨fbWidth, fbHeight, pointer, [], false, false, .empty⟩

/-- The windows of the last listing. -/
def windows (g : GraphicsCompositor) : List WindowInfo :=
  g.windowSnapshot.map ListedWindow.toWindowInfo

/-- Fetches the window list; true when it changed. -/
def updateWindowSnapshot (g : GraphicsCompositor) (listing : Option Listing) :
    GraphicsCompositor × Bool :=
  let current := fetchWindows listing
  let changed := !g.windowSnapshotReady ||
    decide (current.length ≠ g.windowSnapshot.length) ||
    (current.zip g.windowSnapshot).any fun p => !sameWindow p.1 p.2
  if changed then
    let outcome := match listing with
      | some listing => listing.outcome
      | none => fun _ => ⟨false, false, false⟩
    let current := logNewWindows g.fbHeight g.windowSnapshot outcome current
    ({ g with
      surfaceCache :=
        forgetUnshownSurfaces g.surfaceCache (current.map ListedWindow.toWindowInfo)
      windowSnapshot := current
      windowSnapshotReady := true }, true)
  else ({ g with windowSnapshot := current, windowSnapshotReady := true }, false)

variable [Ui]

/-- Takes the commits that a poll gives. -/
def pumpSurfaceUpdates (g : GraphicsCompositor) (polled : List SurfaceInfo) : GraphicsCompositor :=
  { g with surfaceCache := polled.foldl rememberSurface g.surfaceCache }

/-- What a message marks as to be drawn again. -/
def handleMessage (g : GraphicsCompositor) : Message → GraphicsCompositor
  | .pointer event outcome =>
    let input : PointerInput := ⟨event, g.windows, g.fbWidth, g.fbHeight, outcome⟩
    { g with pointer := (handlePointerEventMessage input g.pointer).1 }
  | .setBackground loaded =>
    if loaded then { g with pointer := { g.pointer with fullSceneDirty := true } } else g
  | .other => g

/-- The messages of a pass: one that is waited for when there is nothing else to do, then all that are
queued; and the network, which the taskbar shows. -/
def takeMessages (g : GraphicsCompositor) (i : PassInput) : GraphicsCompositor :=
  let g := match i.polledFirst, i.received with
    | [], some message => g.handleMessage message
    | _, _ => g
  let g := i.drained.foldl handleMessage g
  if i.networkOnline ≠ g.shownNetworkOnline then
    { g with
      shownNetworkOnline := i.networkOnline
      pointer := { g.pointer with fullSceneDirty := true } }
  else g

/-- A pass up to its window list: true when the list changed. -/
def fetched (g : GraphicsCompositor) (i : PassInput) : GraphicsCompositor × Bool :=
  let g := { g with
    pointer := { g.pointer with fullSceneDirty := false, windowDirty := ⟨0, 0, 0, 0⟩ } }
  let g := (g.pumpSurfaceUpdates i.polledFirst).takeMessages i
  (g.pumpSurfaceUpdates i.polledSecond).updateWindowSnapshot i.listing

omit [Ui] in
/-- Draws the whole scene again. -/
def redrawFullScene (g : GraphicsCompositor) (listing : Option Listing) : GraphicsCompositor :=
  let g := (g.updateWindowSnapshot listing).1
  { g with surfaceCache := clearSurfaceDirtyFlags g.surfaceCache }

/-- What is repainted of a rectangle. -/
def redrawDirtyRect (g : GraphicsCompositor) (windowDirty : Rect) : Repaint :=
  let windowDirty := clampRect windowDirty g.fbWidth g.fbHeight
  if windowDirty.empty then .nothing else .rect windowDirty

/-- One pass. -/
def runOnce (g : GraphicsCompositor) (i : PassInput) : GraphicsCompositor × Repaint :=
  let (g, changed) := g.fetched i
  let g := g.pumpSurfaceUpdates i.polledThird
  let surfaceDirty := !i.polled.isEmpty
  if g.pointer.fullSceneDirty || changed then (g.redrawFullScene i.listingForFull, .full)
  else
    let (g, windowDirty) :=
      if surfaceDirty then
        let (dirty, cache) :=
          consumeSurfaceDirtyRect g.windows g.surfaceCache g.fbWidth g.fbHeight
        ({ g with surfaceCache := cache }, g.pointer.windowDirty.unite dirty)
      else (g, g.pointer.windowDirty)
    (g, if windowDirty.empty then .nothing else g.redrawDirtyRect windowDirty)

end GraphicsCompositor

/-! ## What each part of a pass leaves -/

/-- A comparison finds two windows the same when they are. -/
theorem sameWindow_iff {a b : ListedWindow} : sameWindow a b = true ↔ a = b := by
  constructor
  · intro h
    obtain ⟨⟨id, state, x, y, width, height, surfaceID, title, hid⟩, ownerPID, flags, zOrder⟩ := a
    obtain ⟨⟨id', state', x', y', width', height', surfaceID', title', hid'⟩, ownerPID', flags',
      zOrder'⟩ := b
    unfold sameWindow at h
    simp only [Bool.and_eq_true, decide_eq_true_eq] at h
    obtain ⟨⟨⟨⟨⟨⟨⟨⟨⟨⟨rfl, rfl⟩, rfl⟩, rfl⟩, rfl⟩, rfl⟩, rfl⟩, rfl⟩, rfl⟩, rfl⟩, rfl⟩ := h
    rfl
  · rintro rfl
    simp [sameWindow]

/-- Lists of one length whose windows are the same, place by place. -/
theorem eq_of_sameWindows {current snapshot : List ListedWindow}
    (hlength : current.length = snapshot.length)
    (hsame : ((current.zip snapshot).any fun p => !sameWindow p.1 p.2) = false) :
    current = snapshot := by
  induction current generalizing snapshot with
  | nil => exact (List.length_eq_zero_iff.1 hlength.symm).symm
  | cons window current ih =>
    cases snapshot with
    | nil => cases hlength
    | cons old snapshot =>
      rw [List.zip_cons_cons, List.any_cons, Bool.or_eq_false_iff] at hsame
      have hwindow : window = old := sameWindow_iff.1 (by simpa using hsame.1)
      rw [hwindow, ih (Nat.succ.inj hlength) hsame.2]

/-- The sides of a window are those of an `int`. -/
def ListedWindow.SidesFit (window : ListedWindow) : Prop :=
  window.width < 2^31 ∧ window.height < 2^31

/-- A window that moves keeps its sides. -/
theorem ListedWindow.SidesFit.atY {window : ListedWindow} (h : window.SidesFit) (y : ℤ) :
    (window.atY y).SidesFit := h

/-- A window kept above the taskbar is no larger. -/
theorem keepAboveTaskbar_sidesFit (fbHeight : ℕ) (outcome : Outcome) {window : ListedWindow}
    (h : window.SidesFit) : (keepAboveTaskbar fbHeight outcome window).SidesFit := by
  have hshrunk : ∀ moved : ListedWindow, moved.SidesFit → ∀ room : ℤ,
      (if room < moved.height ∧ 48 < room ∧ outcome.resizes = true then moved.withHeight room
        else moved).SidesFit := by
    intro moved hmoved room
    split
    · next hlower =>
      have hheight : room < 2^31 := Int.lt_trans hlower.1 hmoved.2
      have hwidth : moved.width < 2^31 := hmoved.1
      exact ⟨hwidth, hheight⟩
    · exact hmoved
  unfold keepAboveTaskbar
  simp only
  split
  · exact h
  · refine hshrunk _ ?_ _
    split
    · exact h.atY _
    · exact h

namespace GraphicsCompositor

/-- The parts of the compositor that a redraw of a rectangle depends on are the same. -/
structure SameScene (g g' : GraphicsCompositor) : Prop where
  fbWidth : g'.fbWidth = g.fbWidth
  fbHeight : g'.fbHeight = g.fbHeight
  windowSnapshot : g'.windowSnapshot = g.windowSnapshot
  windowSnapshotReady : g'.windowSnapshotReady = g.windowSnapshotReady

/-- A compositor shows what it shows. -/
theorem SameScene.rfl {g : GraphicsCompositor} : SameScene g g :=
  ⟨Eq.refl _, Eq.refl _, Eq.refl _, Eq.refl _⟩

/-- Showing the same goes through a third. -/
theorem SameScene.trans {g g' g'' : GraphicsCompositor} (h : SameScene g g')
    (h' : SameScene g' g'') : SameScene g g'' where
  fbWidth := h'.fbWidth.trans h.fbWidth
  fbHeight := h'.fbHeight.trans h.fbHeight
  windowSnapshot := h'.windowSnapshot.trans h.windowSnapshot
  windowSnapshotReady := h'.windowSnapshotReady.trans h.windowSnapshotReady

/-- What the windows and the cache of the compositor satisfy at any time. -/
structure Ready (g : GraphicsCompositor) : Prop where
  cache : g.surfaceCache.Sound
  sidesFit : ∀ window ∈ g.windowSnapshot, window.SidesFit
  windowSnapshotReady : g.windowSnapshotReady = true

/-- The windows of a list have the sides of an `int`. -/
theorem fetchWindows_sidesFit (listing : Option Listing) :
    ∀ window ∈ fetchWindows listing, window.SidesFit := by
  cases listing with
  | none => exact fun _ h => absurd h List.not_mem_nil
  | some listing => exact listing.side_lt

/-- After a list the compositor is ready. -/
theorem updateWindowSnapshot_ready {g : GraphicsCompositor} (h : g.surfaceCache.Sound)
    (listing : Option Listing) : (g.updateWindowSnapshot listing).1.Ready := by
  have hfetched := fetchWindows_sidesFit listing
  unfold updateWindowSnapshot
  simp only
  split
  · refine ⟨forgetUnshownSurfaces_sound h _, ?_, Eq.refl _⟩
    intro window hmem
    obtain ⟨listed, hlisted, rfl⟩ := List.mem_map.1 hmem
    split
    · exact hfetched listed hlisted
    · exact keepAboveTaskbar_sidesFit _ _ (hfetched listed hlisted)
  · exact ⟨h, hfetched, Eq.refl _⟩

/-- A list that did not change leaves all as it was. -/
theorem updateWindowSnapshot_same {g : GraphicsCompositor} (h : g.Ready)
    {listing : Option Listing} (hsame : (g.updateWindowSnapshot listing).2 = false) :
    (g.updateWindowSnapshot listing).1 = g := by
  unfold updateWindowSnapshot at hsame ⊢
  simp only at hsame ⊢
  split at hsame
  · cases hsame
  · next hunchanged =>
    rw [if_neg hunchanged]
    rw [Bool.not_eq_true, Bool.or_eq_false_iff, Bool.or_eq_false_iff] at hunchanged
    obtain ⟨⟨-, hlength⟩, hany⟩ := hunchanged
    have hlist := eq_of_sameWindows (not_not.1 (of_decide_eq_false hlength)) hany
    have hready := h.windowSnapshotReady
    rw [hlist, ← hready]

variable [Ui]

/-- A message leaves the windows and the cache. -/
theorem handleMessage_same (g : GraphicsCompositor) (message : Message) :
    SameScene g (g.handleMessage message) ∧
      (g.handleMessage message).surfaceCache = g.surfaceCache := by
  cases message with
  | pointer event outcome => exact ⟨⟨Eq.refl _, Eq.refl _, Eq.refl _, Eq.refl _⟩, Eq.refl _⟩
  | setBackground loaded =>
    cases loaded with
    | true => exact ⟨⟨Eq.refl _, Eq.refl _, Eq.refl _, Eq.refl _⟩, Eq.refl _⟩
    | false => exact ⟨SameScene.rfl, Eq.refl _⟩
  | other => exact ⟨SameScene.rfl, Eq.refl _⟩

/-- Messages leave the windows and the cache. -/
theorem handleMessages_same (messages : List Message) (g : GraphicsCompositor) :
    SameScene g (messages.foldl handleMessage g) ∧
      (messages.foldl handleMessage g).surfaceCache = g.surfaceCache := by
  induction messages generalizing g with
  | nil => exact ⟨SameScene.rfl, Eq.refl _⟩
  | cons message messages ih =>
    obtain ⟨hscene, hcache⟩ := handleMessage_same g message
    obtain ⟨hscene', hcache'⟩ := ih (g.handleMessage message)
    exact ⟨hscene.trans hscene', hcache'.trans hcache⟩

/-- The messages of a pass leave the windows and the cache. -/
theorem takeMessages_same (g : GraphicsCompositor) (i : PassInput) :
    SameScene g (g.takeMessages i) ∧ (g.takeMessages i).surfaceCache = g.surfaceCache := by
  have hfirst : ∀ received : GraphicsCompositor, SameScene g received →
      received.surfaceCache = g.surfaceCache →
      SameScene g (i.drained.foldl handleMessage received) ∧
        (i.drained.foldl handleMessage received).surfaceCache = g.surfaceCache := by
    intro received hscene hcache
    obtain ⟨hscene', hcache'⟩ := handleMessages_same i.drained received
    exact ⟨hscene.trans hscene', hcache'.trans hcache⟩
  unfold takeMessages
  simp only
  generalize hreceived : (match i.polledFirst, i.received with
    | [], some message => g.handleMessage message
    | _, _ => g) = received
  have hsame : SameScene g received ∧ received.surfaceCache = g.surfaceCache := by
    split at hreceived
    · rw [← hreceived]
      exact handleMessage_same g _
    · rw [← hreceived]
      exact ⟨SameScene.rfl, Eq.refl _⟩
  obtain ⟨hscene, hcache⟩ := hfirst received hsame.1 hsame.2
  split
  · exact ⟨⟨hscene.fbWidth, hscene.fbHeight, hscene.windowSnapshot, hscene.windowSnapshotReady⟩,
      hcache⟩
  · exact ⟨hscene, hcache⟩

/-- What a pass has come to when its list is fetched: the compositor is ready, and all that came in
are commits when the list is the same. -/
theorem fetched_spec {g : GraphicsCompositor} (h : g.Ready) (i : PassInput) :
    (g.fetched i).1.Ready ∧
      ((g.fetched i).2 = false → SameScene g (g.fetched i).1 ∧
        (g.fetched i).1.surfaceCache =
          (i.polledFirst ++ i.polledSecond).foldl rememberSurface g.surfaceCache) := by
  unfold fetched
  simp only
  -- The pass first forgets what the pointer's last events dirtied.
  generalize hstart : ({ g with pointer := { g.pointer with
    fullSceneDirty := false, windowDirty := ⟨0, 0, 0, 0⟩ } } : GraphicsCompositor) = start
  have hscene : SameScene g start := by
    rw [← hstart]
    exact ⟨Eq.refl _, Eq.refl _, Eq.refl _, Eq.refl _⟩
  have hcache : start.surfaceCache = g.surfaceCache := by
    rw [← hstart]
  obtain ⟨htaken, htakenCache⟩ :=
    takeMessages_same (start.pumpSurfaceUpdates i.polledFirst) i
  set taken := (start.pumpSurfaceUpdates i.polledFirst).takeMessages i with htakenDef
  have hpumped : (taken.pumpSurfaceUpdates i.polledSecond).surfaceCache =
      (i.polledFirst ++ i.polledSecond).foldl rememberSurface g.surfaceCache := by
    show i.polledSecond.foldl rememberSurface taken.surfaceCache = _
    rw [htakenCache, List.foldl_append, ← hcache]
    rfl
  have hsound : (taken.pumpSurfaceUpdates i.polledSecond).surfaceCache.Sound := by
    rw [hpumped]
    exact foldl_rememberSurface_sound h.cache _
  have hsame : SameScene g (taken.pumpSurfaceUpdates i.polledSecond) :=
    (hscene.trans ⟨htaken.1, htaken.2, htaken.3, htaken.4⟩).trans
      ⟨Eq.refl _, Eq.refl _, Eq.refl _, Eq.refl _⟩
  refine ⟨updateWindowSnapshot_ready hsound i.listing, ?_⟩
  intro hunchanged
  -- The listing compares with the windows of before, which the messages have not changed.
  have hready : (taken.pumpSurfaceUpdates i.polledSecond).Ready := by
    refine ⟨hsound, ?_, ?_⟩
    · rw [hsame.windowSnapshot]
      exact h.sidesFit
    · rw [hsame.windowSnapshotReady]
      exact h.windowSnapshotReady
  rw [updateWindowSnapshot_same hready hunchanged]
  exact ⟨hsame, hpumped⟩

/-- What is repainted of a rectangle is not the whole scene. -/
theorem redrawDirtyRect_ne_full (g : GraphicsCompositor) (windowDirty : Rect) :
    (if windowDirty.empty then Repaint.nothing else g.redrawDirtyRect windowDirty) ≠ .full := by
  unfold redrawDirtyRect
  simp only
  split
  · exact Repaint.noConfusion
  · split <;> exact Repaint.noConfusion

/-- A pass that redraws the whole scene leaves nothing marked. -/
theorem runOnce_full {g : GraphicsCompositor} (h : g.Ready) {i : PassInput}
    (hfull : (g.runOnce i).2 = .full) :
    (g.runOnce i).1.Ready ∧ (g.runOnce i).1.surfaceCache.Undirtied := by
  have hfetched := (fetched_spec h i).1
  unfold runOnce at hfull ⊢
  simp only at hfull ⊢
  split at hfull
  · next hdirty =>
    rw [if_pos hdirty]
    have hsound : ((g.fetched i).1.pumpSurfaceUpdates i.polledThird).surfaceCache.Sound :=
      foldl_rememberSurface_sound hfetched.cache _
    have hready := updateWindowSnapshot_ready hsound i.listingForFull
    exact ⟨⟨clearSurfaceDirtyFlags_sound hready.cache, hready.sidesFit,
      hready.windowSnapshotReady⟩, clearSurfaceDirtyFlags_undirtied _⟩
  · exact absurd hfull (redrawDirtyRect_ne_full _ _)

/-- What is on the screen of a dirty rectangle is repainted. -/
theorem mem_redrawDirtyRect [LawfulRects] {g : GraphicsCompositor} {windowDirty : Rect} {x y : ℤ}
    (h : windowDirty.Mem x y) (hscreen : 0 ≤ x ∧ x < g.fbWidth ∧ 0 ≤ y ∧ y < g.fbHeight) :
    (if windowDirty.empty then Repaint.nothing else g.redrawDirtyRect windowDirty).Mem x y := by
  have hclamped : (clampRect windowDirty g.fbWidth g.fbHeight).Mem x y :=
    mem_clampRect.2 ⟨h, hscreen⟩
  rw [empty_of_mem h, if_neg Bool.false_ne_true]
  unfold redrawDirtyRect
  simp only
  rw [empty_of_mem hclamped, if_neg Bool.false_ne_true]
  exact hclamped

/-- The cache after the commits of a pass whose list did not change. -/
def pumpedCache (g : GraphicsCompositor) (i : PassInput) : SurfaceCache :=
  i.polled.foldl rememberSurface g.surfaceCache

/-- A pass that redraws a rectangle leaves the windows, forgets what has changed when there were
commits, and repaints what the windows show of it. -/
theorem runOnce_partial [LawfulRects] {g : GraphicsCompositor} (h : g.Ready) {i : PassInput}
    (hrect : (g.runOnce i).2 ≠ .full) :
    SameScene g (g.runOnce i).1 ∧ (g.fetched i).2 = false ∧
      (g.runOnce i).1.surfaceCache =
        (if i.polled.isEmpty then g.surfaceCache else clearSurfaceDirtyFlags (g.pumpedCache i)) ∧
      (i.polled ≠ [] → ∀ x y : ℤ, 0 ≤ x ∧ x < g.fbWidth ∧ 0 ≤ y ∧ y < g.fbHeight →
        (consumeSurfaceDirtyRect g.windows (g.pumpedCache i) g.fbWidth g.fbHeight).1.Mem x y →
        (g.runOnce i).2.Mem x y) := by
  have hspec := (fetched_spec h i).2
  unfold runOnce at hrect ⊢
  simp only at hrect ⊢
  split at hrect
  · exact absurd (Eq.refl _) hrect
  · next hclean =>
    rw [if_neg hclean]
    rw [Bool.not_eq_true, Bool.or_eq_false_iff] at hclean
    obtain ⟨hscene, hcache⟩ := hspec hclean.2
    have hpumped : ((g.fetched i).1.pumpSurfaceUpdates i.polledThird).surfaceCache =
        g.pumpedCache i := by
      show i.polledThird.foldl rememberSurface (g.fetched i).1.surfaceCache = _
      rw [hcache, ← List.foldl_append]
      rfl
    set pumped := (g.fetched i).1.pumpSurfaceUpdates i.polledThird with hpumpedDef
    have hscene' : SameScene g pumped := ⟨hscene.1, hscene.2, hscene.3, hscene.4⟩
    have hwindows : pumped.windows = g.windows := by
      unfold windows
      rw [hscene'.windowSnapshot]
    cases hempty : i.polled.isEmpty with
    | true =>
      -- Without commits the cache is left as it is.
      rw [Bool.not_true, if_neg Bool.false_ne_true, if_pos (Eq.refl _)]
      refine ⟨hscene', hclean.2, ?_, ?_⟩
      · rw [hpumped]
        unfold pumpedCache
        rw [List.isEmpty_iff.1 hempty]
        rfl
      · intro hne
        exact absurd (List.isEmpty_iff.1 hempty) hne
    | false =>
      rw [Bool.not_false, if_pos (Eq.refl _), if_neg Bool.false_ne_true]
      refine ⟨⟨hscene'.1, hscene'.2, hscene'.3, hscene'.4⟩, hclean.2, ?_, ?_⟩
      · rw [hpumped]
        rfl
      · intro _ x y hscreen hmem
        -- What the windows show of the commits is part of the rectangle, clipped to the screen.
        refine mem_redrawDirtyRect (mem_unite (Or.inr ?_)) ?_
        · rw [hwindows, hpumped, hscene'.fbWidth, hscene'.fbHeight]
          exact hmem
        · show 0 ≤ x ∧ x < pumped.fbWidth ∧ 0 ≤ y ∧ y < pumped.fbHeight
          rw [hscene'.fbWidth, hscene'.fbHeight]
          exact hscreen

end GraphicsCompositor

/-! ## Runs -/

/-- A run of passes: the compositor, and for a pixel of the screen the commits that each pass has taken
since the last one that repainted it. -/
structure DamageRun where
  compositor : GraphicsCompositor
  since : ℤ → ℤ → List (List SurfaceInfo)

/-- The pixel of the screen is in the content of a visible window and shows a pixel of its surface. -/
structure ShowsPixel (window : WindowInfo) (width height : ℕ) (px py : ℕ) (x y : ℤ) : Prop where
  visible : isWindowVisible window = true
  surfaceID_ne_zero : window.surfaceID ≠ 0
  px_lt : (px : ℤ) < window.width
  py_lt : (py : ℤ) < window.height
  x_eq : x = window.x + kBorder + px
  y_eq : y = window.y + kTitleBarHeight + py
  onScreen : 0 ≤ x ∧ x < width ∧ 0 ≤ y ∧ y < height

/-- Some pass took a commit of the surface that changed the pixel, which was one of the surface's when
the pass had taken all its commits. -/
def DamagedIn (batches : List (List SurfaceInfo)) (id px py : ℕ) : Prop :=
  ∃ batch ∈ batches, ∃ commit ∈ batch, commit.id = id ∧ commit.Dirties px py ∧
    ∃ info, latestOf batch id = some info ∧ info.Has px py

namespace DamageRun

variable [Ui]

/-- The compositor with its first list drawn. -/
def start (fbWidth fbHeight : ℕ) (pointer : PointerState) (listing : Option Listing) :
    DamageRun where
  compositor :=
    ((GraphicsCompositor.initial fbWidth fbHeight pointer).updateWindowSnapshot listing).1
  since := fun _ _ => []

/-- One pass of the loop, and the damage it met. -/
def step (r : DamageRun) (i : PassInput) : DamageRun where
  compositor := (r.compositor.runOnce i).1
  since := fun x y =>
    if (r.compositor.runOnce i).2.Mem x y then [] else r.since x y ++ [i.polled]

/-- Every commit of the pass finds an entry of its surface or a free one. -/
def HasRoom (r : DamageRun) (i : PassInput) : Prop :=
  Along rememberSurface (fun cache info => ¬Evicts cache info.id) r.compositor.surfaceCache
      (i.polledFirst ++ i.polledSecond) ∧
    Along rememberSurface (fun cache info => ¬Evicts cache info.id)
      (r.compositor.fetched i).1.surfaceCache i.polledThird

instance (r : DamageRun) (i : PassInput) : Decidable (r.HasRoom i) :=
  inferInstanceAs (Decidable (_ ∧ _))

/-- A pass that repaints no more than a rectangle repaints each pixel of the screen that shows what a
commit has changed since the pixel was last repainted. -/
def LosesNone (r : DamageRun) (i : PassInput) : Prop :=
  (r.compositor.runOnce i).2 ≠ .full →
    ∀ window ∈ (r.compositor.runOnce i).1.windows, ∀ (px py : ℕ) (x y : ℤ),
      ShowsPixel window r.compositor.fbWidth r.compositor.fbHeight px py x y →
      DamagedIn (r.since x y ++ [i.polled]) window.surfaceID px py →
      (r.compositor.runOnce i).2.Mem x y

/-- The invariant of the runs: nothing is marked, and no pixel that is shown has changed since it was
last repainted. -/
structure Sound (r : DamageRun) : Prop where
  ready : r.compositor.Ready
  undirtied : r.compositor.surfaceCache.Undirtied
  repainted : ∀ window ∈ r.compositor.windows, ∀ (px py : ℕ) (x y : ℤ),
    ShowsPixel window r.compositor.fbWidth r.compositor.fbHeight px py x y →
    ¬DamagedIn (r.since x y) window.surfaceID px py

omit [Ui] in
/-- With the first list drawn nothing is marked. -/
theorem start_sound (fbWidth fbHeight : ℕ) (pointer : PointerState) (listing : Option Listing) :
    (start fbWidth fbHeight pointer listing).Sound := by
  refine ⟨GraphicsCompositor.updateWindowSnapshot_ready empty_sound listing, ?_, ?_⟩
  · intro i hi
    show (((GraphicsCompositor.initial fbWidth fbHeight pointer).updateWindowSnapshot
      listing).1.surfaceCache.entries i).dirty = false
    have hcache : ((GraphicsCompositor.initial fbWidth fbHeight pointer).updateWindowSnapshot
        listing).1.surfaceCache.entries i = .cleared := by
      unfold GraphicsCompositor.updateWindowSnapshot
      simp only
      split
      · exact forgetUnshownSurfaces_lt hi
      · rfl
    rw [hcache]
    rfl
  · rintro window - px py x y - ⟨batch, hbatch, -⟩
    exact absurd hbatch List.not_mem_nil

section
variable [LawfulRects] {r : DamageRun}

/-- What the windows show of a pass's own commits is repainted. -/
theorem Sound.own_repainted (h : r.Sound) {i : PassInput} (hroom : r.HasRoom i)
    (hedges : ∀ info ∈ i.polled, info.EdgesFit) (hrect : (r.compositor.runOnce i).2 ≠ .full)
    {window : WindowInfo} (hwindow : window ∈ r.compositor.windows) {px py : ℕ} {x y : ℤ}
    (hshows : ShowsPixel window r.compositor.fbWidth r.compositor.fbHeight px py x y)
    (hdamaged : DamagedIn [i.polled] window.surfaceID px py) :
    (r.compositor.runOnce i).2.Mem x y := by
  obtain ⟨-, hunchanged, -, hrepaints⟩ := GraphicsCompositor.runOnce_partial h.ready hrect
  obtain ⟨batch, hbatch, commit, hcommit, hid, hdirties, info, hlatest, hhas⟩ := hdamaged
  obtain rfl := List.mem_singleton.1 hbatch
  -- The entry of the surface holds what the pass's commits have changed.
  have hfits : Along rememberSurface Fits r.compositor.surfaceCache i.polled := by
    have hcache := ((GraphicsCompositor.fetched_spec h.ready i).2 hunchanged).2
    have hall : Along rememberSurface (fun cache info => ¬Evicts cache info.id)
        r.compositor.surfaceCache i.polled := by
      refine (along_append _ _ _).2 ⟨hroom.1, ?_⟩
      rw [← hcache]
      exact hroom.2
    refine along_iff.2 fun before info after hsplit => ⟨along_iff.1 hall before info after hsplit, ?_⟩
    refine hedges info ?_
    rw [hsplit]
    exact List.mem_append_right before List.mem_cons_self
  have hpumped : Pumped i.polled (r.compositor.pumpedCache i) :=
    (Pumped.start h.ready.cache h.undirtied).run hfits
  have hne : commit.id ≠ 0 := by
    rw [hid]
    exact hshows.surfaceID_ne_zero
  obtain ⟨k, hof, hentry, hcovers⟩ := hpumped.covers commit hcommit hne
  have hfind := findSurfaceCache_of_isOf hpumped.sound hne hof
  rw [hid] at hfind hentry
  have hinfo : info = ((r.compositor.pumpedCache i).entries k).info :=
    Option.some.inj (hlatest.symm.trans hentry)
  obtain ⟨listed, hlisted, rfl⟩ := List.mem_map.1 hwindow
  obtain ⟨hwidth, hheight⟩ := h.ready.sidesFit listed hlisted
  refine hrepaints (List.ne_nil_of_mem hcommit) x y hshows.onScreen ?_
  refine consumeSurfaceDirtyRect_covers hwindow hshows.visible hwidth hheight hfind
    (hpumped.edgesFit k (lt_of_isOf hpumped.sound hof)) (hcovers px py hdirties) ?_ hshows.px_lt
    hshows.py_lt hshows.x_eq hshows.y_eq hshows.onScreen
  rw [← hinfo]
  exact hhas

/-- Under the invariant a pass repaints all that has to be. -/
theorem Sound.losesNone (h : r.Sound) {i : PassInput} (hroom : r.HasRoom i)
    (hedges : ∀ info ∈ i.polled, info.EdgesFit) : r.LosesNone i := by
  intro hrect window hwindow px py x y hshows hdamaged
  have hscene := (GraphicsCompositor.runOnce_partial h.ready hrect).1
  have hwindow : window ∈ r.compositor.windows := by
    unfold GraphicsCompositor.windows at hwindow ⊢
    rw [← hscene.windowSnapshot]
    exact hwindow
  obtain ⟨batch, hbatch, hchange⟩ := hdamaged
  rcases List.mem_append.1 hbatch with hbefore | hown
  · -- No pass before has left a change unshown.
    exact absurd ⟨batch, hbefore, hchange⟩ (h.repainted window hwindow px py x y hshows)
  · exact h.own_repainted hroom hedges hrect hwindow hshows ⟨batch, hown, hchange⟩

/-- Every pass keeps the invariant. -/
theorem Sound.step (h : r.Sound) {i : PassInput} (hroom : r.HasRoom i)
    (hedges : ∀ info ∈ i.polled, info.EdgesFit) : (r.step i).Sound := by
  by_cases hfull : (r.compositor.runOnce i).2 = .full
  · -- A full repaint shows every commit: nothing is owed afterwards.
    obtain ⟨hready, hundirtied⟩ := GraphicsCompositor.runOnce_full h.ready hfull
    refine ⟨hready, hundirtied, ?_⟩
    rintro window - px py x y - ⟨batch, hbatch, -⟩
    have hnil : (r.step i).since x y = [] := if_pos (by rw [hfull]; exact trivial)
    rw [hnil] at hbatch
    exact absurd hbatch List.not_mem_nil
  · -- A partial one leaves the windows as they were, and owes what it has not repainted.
    obtain ⟨hscene, -, hcache, -⟩ := GraphicsCompositor.runOnce_partial h.ready hfull
    have hsound : (r.compositor.runOnce i).1.surfaceCache.Sound ∧
        (r.compositor.runOnce i).1.surfaceCache.Undirtied := by
      rw [hcache]
      split
      · exact ⟨h.ready.cache, h.undirtied⟩
      · exact ⟨clearSurfaceDirtyFlags_sound (foldl_rememberSurface_sound h.ready.cache _),
          clearSurfaceDirtyFlags_undirtied _⟩
    refine ⟨⟨hsound.1, ?_, ?_⟩, hsound.2, ?_⟩
    · intro window hwindow
      have hwindow : window ∈ (r.compositor.runOnce i).1.windowSnapshot := hwindow
      rw [hscene.windowSnapshot] at hwindow
      exact h.ready.sidesFit window hwindow
    · exact hscene.windowSnapshotReady.trans h.ready.windowSnapshotReady
    · intro window hwindow px py x y hshows hdamaged
      have hshows : ShowsPixel window (r.compositor.runOnce i).1.fbWidth
          (r.compositor.runOnce i).1.fbHeight px py x y := hshows
      rw [hscene.fbWidth, hscene.fbHeight] at hshows
      have hdamaged : DamagedIn (if (r.compositor.runOnce i).2.Mem x y then []
          else r.since x y ++ [i.polled]) window.surfaceID px py := hdamaged
      split at hdamaged
      · obtain ⟨batch, hbatch, -⟩ := hdamaged
        exact absurd hbatch List.not_mem_nil
      · next hnot =>
        exact hnot (h.losesNone hroom hedges hfull window hwindow px py x y hshows hdamaged)

end

end DamageRun

/-- No change of a surface is lost: over any run of passes in which every commit finds room in the
cache and ends its change within an `int`, each pass that repaints no more than a rectangle repaints
every pixel of the screen that shows a change since the pixel was last repainted. -/
theorem runOnce_losesNone [Ui] [LawfulRects] (fbWidth fbHeight : ℕ) (pointer : PointerState)
    (listing : Option Listing) (is : List PassInput)
    (h : Along DamageRun.step (fun r i => r.HasRoom i ∧ ∀ info ∈ i.polled, info.EdgesFit)
      (.start fbWidth fbHeight pointer listing) is) :
    Along DamageRun.step DamageRun.LosesNone (.start fbWidth fbHeight pointer listing) is :=
  h.of_invariant DamageRun.Sound (fun _ _ hs hi => hs.step hi.1 hi.2)
    (fun _ _ hs hi => hs.losesNone hi.1 hi.2) (DamageRun.start_sound _ _ _ _)

/-- The pointer on a screen with nothing on it. -/
def pointerAtRest : PointerState where
  route := ⟨0⟩
  drag := ⟨0, false, false, 0, 0, 0, 0, 0, 0⟩
  pointerButtons := 0
  cursor := ⟨50, 50⟩
  windowHover := ⟨0, .close⟩
  taskbarHover := none
  fullSceneDirty := false
  windowDirty := ⟨0, 0, 0, 0⟩

/-- A window whose content is 10 pixels wide and high and shows surface 7. -/
def viewer : ListedWindow where
  id := 1
  state := ⟨true, false, false, false⟩
  x := 10
  y := 10
  width := 10
  height := 10
  surfaceID := 7
  title := "Viewer"
  id_ne_zero := Nat.one_ne_zero
  ownerPID := 2
  flags := 0
  zOrder := 0

/-- The list of that window. -/
def viewerListed : Listing where
  windows := [viewer]
  outcome := fun _ => ⟨true, true, true⟩
  length_le := by decide
  side_lt := by
    intro window h
    rw [List.mem_singleton.1 h]
    decide

/-- A pass that takes commits, with a list. -/
def passOf (polled : List SurfaceInfo) (listing : Listing) : PassInput :=
  ⟨polled, none, [], false, [], some listing, [], some listing⟩

/-- A surface of 10 by 10 pixels is committed before a window shows it, shown, and committed again. -/
theorem runOnce_losesNone_viewer :
    Along (@DamageRun.step plainUi) (@DamageRun.LosesNone plainUi)
      (.start 320 240 pointerAtRest none)
      [passOf [⟨7, 10, 10, 40, 4096, 0, 0, 10, 10⟩] ⟨[], fun _ => ⟨true, true, true⟩, by decide,
          fun _ h => absurd h List.not_mem_nil⟩,
        passOf [] viewerListed,
        passOf [⟨7, 10, 10, 40, 4096, 2, 3, 4, 5⟩, ⟨7, 10, 10, 40, 4096, 8, 8, 2, 2⟩]
          viewerListed] :=
  @runOnce_losesNone plainUi plainUi_lawful 320 240 pointerAtRest none _ (by decide +kernel)

/-- A commit of a row of `2^31` pixels, all of which have changed. Its bytes a row, in 32 bits, are
none. -/
def hugeCommit : SurfaceInfo := ⟨7, 2^31, 1, 0, 4096, 0, 0, 2^31, 1⟩

/-- The commit of a surface that is wider than an `int` repaints nothing of the window that shows
it. -/
theorem hugeSurface_lost :
    Along (@DamageRun.step plainUi)
        (fun r i => @DamageRun.HasRoom plainUi r i ∧ ∀ info ∈ i.polled, info.DirtyInside)
        (.start 320 240 pointerAtRest (some viewerListed)) [passOf [hugeCommit] viewerListed] ∧
      ¬Along (@DamageRun.step plainUi) (@DamageRun.LosesNone plainUi)
        (.start 320 240 pointerAtRest (some viewerListed)) [passOf [hugeCommit] viewerListed] := by
  have hnothing : (@GraphicsCompositor.runOnce plainUi
      (DamageRun.start 320 240 pointerAtRest (some viewerListed)).compositor
      (passOf [hugeCommit] viewerListed)).2 = .nothing := by
    decide +kernel
  refine ⟨by decide +kernel, ?_⟩
  rintro ⟨hloses, -⟩
  have hmem := hloses (by rw [hnothing]; exact Repaint.noConfusion) viewer.toWindowInfo
    (by decide +kernel) 0 0 11 50 ⟨by decide, by decide, by decide, by decide, by decide, by decide,
      by decide⟩ ⟨[hugeCommit], by decide, hugeCommit, by decide, by decide, by decide, hugeCommit,
      by decide, by decide⟩
  rw [hnothing] at hmem
  exact hmem

end IUserApps.Compositor
