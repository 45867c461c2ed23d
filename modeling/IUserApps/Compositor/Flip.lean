import IUserApps.Compositor.Present
import IUserApps.Runs

/-!
# The flip backend refines the software backend

The software backend of `backend.cpp` draws every present call straight to the framebuffer. The
flip backend only notes what changed; `commit` brings the one of its two buffers that is not on
screen up to date and flips to it, and when the display fails it draws the whole picture to the
framebuffer and goes on as the software backend does.

A buffer is brought up to date only every other flip. What it is then missing is covered by two
rectangles that it keeps, of what changed and of where its pointer was drawn: every other pixel of
it is the scene's (`UpToDate`). From that follows `flip_refines_software`: what is on screen after
a flip, and the framebuffer after a failure, are the software backend's framebuffer.
-/

namespace IUserApps.Compositor

open Runs

/-- The framebuffers a flip changes between. -/
def kBuffers : ℕ := 2

/-- The backend that draws into the hidden framebuffer and flips. -/
structure FlipBackend where
  target : FramebufferView
  buffers : ℕ → FramebufferView
  /-- Everything that changed since a buffer was last brought up to date. -/
  missing : ℕ → Rect
  /-- Where a buffer's pointer was drawn. -/
  cursorDrawn : ℕ → Rect
  /-- The buffer on screen; `kBuffers` for none yet. -/
  front : ℕ
  scene : Option Canvas
  cursor : CursorState
  pending : Bool
  failed : Bool

/-- A call of the event loop. A commit says whether the display takes its `Wait` and its `Flip`. -/
inductive PresentCall
  | presentFull (scene : Canvas) (cursor : CursorState)
  | presentRect (scene : Canvas) (rect : Rect) (cursor : CursorState)
  | presentCursorMove (scene : Canvas) (oldCursor newCursor : CursorState)
  | commit (idle flipped : Bool)

/-- The call presents something. -/
def PresentCall.presents : PresentCall → Bool
  | .commit _ _ => false
  | _ => true

namespace FlipBackend

/-- The rectangle of the whole screen. -/
def screen (flip : FlipBackend) : Rect := ⟨0, 0, flip.target.width, flip.target.height⟩

/-- The backend as it is set up, for a framebuffer and two buffers. -/
def initialized (target : FramebufferView) (buffers : ℕ → FramebufferView)
    (cursor : CursorState) : FlipBackend where
  target := target
  buffers := buffers
  missing := fun _ => ⟨0, 0, target.width, target.height⟩
  cursorDrawn := fun _ => ⟨0, 0, 0, 0⟩
  front := kBuffers
  scene := none
  cursor := cursor
  pending := false
  failed := false

variable [Ui]

/-- Notes that a part of the scene changed. -/
def note (flip : FlipBackend) (scene : Canvas) (changed : Rect) (cursor : CursorState) :
    FlipBackend :=
  { flip with
    scene := some scene
    cursor := cursor
    missing := fun i => if i < kBuffers then (flip.missing i).unite changed else flip.missing i
    pending := true }

variable [UiColors]

/-- Back to drawing straight into the framebuffer: first the whole current picture. -/
def fallBack (image : CursorImage) (flip : FlipBackend) : FlipBackend :=
  { flip with
    failed := true
    target := match flip.scene with
      | some scene =>
        Compositor.presentCursorMove scene (presentToFramebuffer scene flip.target) flip.cursor
          flip.cursor image
      | none => flip.target }

/-- A buffer brought up to date: what it is missing is repainted, then the pointer is drawn. -/
def bringUp (image : CursorImage) (scene : Canvas) (cursor : CursorState) (view : FramebufferView)
    (missing cursorDrawn : Rect) : FramebufferView :=
  let repaint := clampRect (missing.unite cursorDrawn) view.width view.height
  let view := if repaint.empty then view else presentRectToFramebuffer scene view repaint
  Compositor.presentCursorMove scene view cursor cursor image

/-- The backend with one of its buffers brought up to date. -/
def bringUpBack (image : CursorImage) (flip : FlipBackend) (scene : Canvas) (back : ℕ) :
    FlipBackend :=
  let view := flip.buffers back
  let pointer := clampRect (cursorRect flip.cursor image) view.width view.height
  let view := bringUp image scene flip.cursor view (flip.missing back) (flip.cursorDrawn back)
  { flip with
    buffers := Function.update flip.buffers back view
    missing := Function.update flip.missing back ⟨0, 0, 0, 0⟩
    cursorDrawn := Function.update flip.cursorDrawn back pointer }

/-- The end of one pass of the event loop. -/
def commit (image : CursorImage) (flip : FlipBackend) (idle flipped : Bool) : FlipBackend :=
  if flip.failed || !flip.pending then flip
  else
    let flip := { flip with pending := false }
    let back := if flip.front = 0 then 1 else 0
    if !idle then fallBack image flip
    else
      match flip.scene with
      | none => flip
      | some scene =>
        let flip := flip.bringUpBack image scene back
        if !flipped then fallBack image flip else { flip with front := back }

/-- One call of the event loop. -/
def call (image : CursorImage) (flip : FlipBackend) : PresentCall → FlipBackend
  | .presentFull scene cursor =>
    if flip.failed then
      let target := presentToFramebuffer scene flip.target
      { flip with target := Compositor.presentCursorMove scene target cursor cursor image }
    else flip.note scene flip.screen cursor
  | .presentRect scene rect cursor =>
    if flip.failed then
      let target := presentRectToFramebuffer scene flip.target rect
      { flip with target := Compositor.presentCursorMove scene target cursor cursor image }
    else flip.note scene rect cursor
  | .presentCursorMove scene oldCursor newCursor =>
    if flip.failed then
      let target := Compositor.presentCursorMove scene flip.target oldCursor newCursor image
      { flip with target := target }
    else flip.note scene ⟨0, 0, 0, 0⟩ newCursor
  | .commit idle flipped => flip.commit image idle flipped

end FlipBackend

section Software

variable [Ui] [UiColors]

/-- One call of the event loop, for the software backend. -/
def softwareCall (image : CursorImage) (target : FramebufferView) : PresentCall → FramebufferView
  | .presentFull scene cursor =>
    presentCursorMove scene (presentToFramebuffer scene target) cursor cursor image
  | .presentRect scene rect cursor =>
    presentCursorMove scene (presentRectToFramebuffer scene target rect) cursor cursor image
  | .presentCursorMove scene oldCursor newCursor =>
    presentCursorMove scene target oldCursor newCursor image
  | .commit _ _ => target

/-- The two backends given the same calls, and the scene and cursor of the last present call. -/
structure Backends where
  flip : FlipBackend
  software : FramebufferView
  shown : Option (Canvas × CursorState)

/-- One present call, made to both backends. -/
def Backends.call (image : CursorImage) (s : Backends) (c : PresentCall) : Backends where
  flip := s.flip.call image c
  software := softwareCall image s.software c
  shown := match c with
    | .presentFull scene cursor => some (scene, cursor)
    | .presentRect scene _ cursor => some (scene, cursor)
    | .presentCursorMove scene _ newCursor => some (scene, newCursor)
    | .commit _ _ => s.shown

end Software

/-- Two scenes of the screen's size have the same pixels outside a region. -/
def AgreeOutside (scene scene' : Canvas) (region : ℕ → ℕ → Prop) : Prop :=
  ∀ x y, x < scene.width → y < scene.height → ¬region x y → scene.at x y = scene'.at x y

/-- The call is one that the event loop makes: `presentFull` comes first, what changed in the scene
lies in the call's rectangle, and the cursor that a call starts from is the last one presented. -/
def AsEventLoop (s : Backends) : PresentCall → Prop
  | .presentFull scene _ => scene.SameSize s.software
  | .presentRect scene rect cursor =>
    scene.SameSize s.software ∧ ∃ old, s.shown = some (old, cursor) ∧
      AgreeOutside scene old (fun x y => rect.Mem x y)
  | .presentCursorMove scene oldCursor _ =>
    scene.SameSize s.software ∧ ∃ old, s.shown = some (old, oldCursor) ∧
      AgreeOutside scene old (fun _ _ => False)
  | .commit _ _ => True

/-- The commit flips. -/
def Flips (flip : FlipBackend) : PresentCall → Prop
  | .commit idle flipped =>
    flip.failed = false ∧ flip.pending = true ∧ idle = true ∧ flipped = true
  | _ => False

section Refinement

variable [Ui] [UiColors]

/-- A picture shows the scene with the pointer over it. -/
def ShowsScene (image : CursorImage) (view : FramebufferView) (scene : Canvas)
    (cursor : CursorState) : Prop :=
  ∀ x y, x < view.width → y < view.height → view.at x y = composed scene cursor image x y

/-- Two pictures have the same pixels. -/
def SamePixels (view view' : FramebufferView) : Prop :=
  ∀ x y, x < view'.width → y < view'.height → view.at x y = view'.at x y

/-- The next commit flips, to the other buffer, when the display takes `Wait` and `Flip`. -/
def FlipsNext (image : CursorImage) (flip : FlipBackend) : Prop :=
  Flips flip (.commit true true) ∧ (flip.commit image true true).failed = false ∧
    (flip.commit image true true).front < kBuffers ∧
    (flip.commit image true true).front ≠ flip.front

/-- What the call leaves: the software backend's framebuffer shows the last presented scene and
cursor, after a flip the buffer on screen has the same pixels, and after a failure the framebuffer
has. After a present call, before any failure, the next commit flips. -/
def ShowsSame (image : CursorImage) (s : Backends) (c : PresentCall) : Prop :=
  (∀ scene cursor, (s.call image c).shown = some (scene, cursor) →
    ShowsScene image (s.call image c).software scene cursor) ∧
  (Flips s.flip c →
    SamePixels ((s.call image c).flip.buffers (s.call image c).flip.front)
      (s.call image c).software) ∧
  ((s.call image c).flip.failed = true →
    SamePixels (s.call image c).flip.target (s.call image c).software) ∧
  (c.presents = true → s.flip.failed = false → FlipsNext image (s.call image c).flip)

omit [Ui] [UiColors] in
/-- A buffer has the scene's pixels outside two rectangles. -/
def UpToDate (view : FramebufferView) (missing cursorDrawn : Rect) (scene : Canvas) : Prop :=
  ∀ x y : ℕ, x < view.width → y < view.height → ¬missing.Mem x y → ¬cursorDrawn.Mem x y →
    view.at x y = scene.at x y &&& rgbMask

/-- The invariant of the two backends. -/
structure Backends.Sound (image : CursorImage) (s : Backends) : Prop where
  target_size : s.flip.target.SameSize s.software
  buffer_size : ∀ i < kBuffers, (s.flip.buffers i).SameSize s.software
  scene_size : ∀ scene cursor, s.shown = some (scene, cursor) → scene.SameSize s.software
  software : ∀ scene cursor, s.shown = some (scene, cursor) →
    ShowsScene image s.software scene cursor
  target : s.flip.failed = true → ∀ scene cursor, s.shown = some (scene, cursor) →
    ShowsScene image s.flip.target scene cursor
  /-- Before the first present call there is nothing to show. -/
  idle : s.shown = none → s.flip.failed = false ∧ s.flip.pending = false
  noted : s.flip.failed = false → s.shown = s.flip.scene.map fun scene => (scene, s.flip.cursor)
  buffers : s.flip.failed = false → ∀ scene cursor, s.shown = some (scene, cursor) →
    ∀ i < kBuffers, UpToDate (s.flip.buffers i) (s.flip.missing i) (s.flip.cursorDrawn i) scene
  /-- Before the first present call every buffer is missing the whole screen. -/
  unseen : s.shown = none → ∀ i < kBuffers, s.flip.missing i = s.flip.screen

/-! ## What one present shows -/

variable [LawfulRects] [LawfulColors]

/-- The pointer drawn where it is makes a picture of the bare scene show the scene. -/
theorem presentCursorMove_shows {image : CursorImage} {scene : Canvas} {view : FramebufferView}
    {oldCursor newCursor : CursorState}
    (h : ∀ x y : ℕ, x < view.width → y < view.height → ¬(cursorRect oldCursor image).Mem x y →
      ¬(cursorRect newCursor image).Mem x y → view.at x y = scene.at x y &&& rgbMask) :
    ShowsScene image (presentCursorMove scene view oldCursor newCursor image) scene newCursor := by
  have hd := presentCursorMove_draws scene view oldCursor newCursor image
  intro x y hx hy
  rw [hd.width] at hx
  rw [hd.height] at hy
  by_cases hin : ((cursorRect oldCursor image).unite (cursorRect newCursor image)).Mem x y
  · exact hd.inside x y hx hy hin
  · have hold : ¬(cursorRect oldCursor image).Mem x y := fun h => hin (mem_unite (Or.inl h))
    have hnew : ¬(cursorRect newCursor image).Mem x y := fun h => hin (mem_unite (Or.inr h))
    rw [hd.outside x y hx hy hin, h x y hx hy hold hnew, composed_of_not_mem scene hnew]

/-- The whole scene with the pointer. -/
theorem presentFull_shows (image : CursorImage) {scene : Canvas} {view : FramebufferView}
    (hsize : scene.SameSize view) (cursor : CursorState) :
    ShowsScene image
      (presentCursorMove scene (presentToFramebuffer scene view) cursor cursor image) scene
      cursor := by
  refine presentCursorMove_shows ?_
  intro x y hx hy _ _
  exact (presentToFramebuffer_draws hsize).inside x y hx hy trivial

/-- A part of the scene with the pointer, over a picture of the scene before. -/
theorem presentRect_shows {image : CursorImage} {scene old : Canvas} {view : FramebufferView}
    (hsize : scene.SameSize view) {rect : Rect} {cursor : CursorState}
    (h : ShowsScene image view old cursor)
    (hagree : AgreeOutside scene old (fun x y => rect.Mem x y)) :
    ShowsScene image
      (presentCursorMove scene (presentRectToFramebuffer scene view rect) cursor cursor image)
      scene cursor := by
  have hd := presentRectToFramebuffer_draws hsize rect
  refine presentCursorMove_shows ?_
  intro x y hx hy hnot _
  rw [hd.width] at hx
  rw [hd.height] at hy
  by_cases hin : rect.Mem x y
  · exact hd.inside x y hx hy hin
  · have hsame := hagree x y (by rw [hsize.1]; exact hx) (by rw [hsize.2]; exact hy) hin
    rw [hd.outside x y hx hy hin, h x y hx hy, composed_of_not_mem old hnot, hsame]

/-- A move of the pointer, over a picture of the same scene. -/
theorem presentMove_shows {image : CursorImage} {scene old : Canvas} {view : FramebufferView}
    (hsize : scene.SameSize view) {oldCursor : CursorState} (newCursor : CursorState)
    (h : ShowsScene image view old oldCursor)
    (hagree : AgreeOutside scene old (fun _ _ => False)) :
    ShowsScene image (presentCursorMove scene view oldCursor newCursor image) scene
      newCursor := by
  refine presentCursorMove_shows ?_
  intro x y hx hy hnot _
  have hsame := hagree x y (by rw [hsize.1]; exact hx) (by rw [hsize.2]; exact hy) not_false
  rw [h x y hx hy, composed_of_not_mem old hnot, hsame]

/-- A buffer brought up to date shows the scene. -/
theorem bringUp_shows {image : CursorImage} {scene : Canvas} {view : FramebufferView}
    (hsize : scene.SameSize view) (cursor : CursorState) {missing cursorDrawn : Rect}
    (h : UpToDate view missing cursorDrawn scene) :
    ShowsScene image (FlipBackend.bringUp image scene cursor view missing cursorDrawn) scene
      cursor := by
  refine presentCursorMove_shows ?_
  set repaint := clampRect (missing.unite cursorDrawn) view.width view.height with hrepaint
  have hother : ∀ {x y : ℕ}, x < view.width → y < view.height → ¬repaint.Mem x y →
      view.at x y = scene.at x y &&& rgbMask := by
    intro x y hx hy hnot
    have hout : ¬(missing.unite cursorDrawn).Mem x y := by
      intro hin
      exact hnot (mem_clampRect.2 ⟨hin, by omega, by omega, by omega, by omega⟩)
    exact h x y hx hy (fun hm => hout (mem_unite (Or.inl hm)))
      (fun hm => hout (mem_unite (Or.inr hm)))
  by_cases he : repaint.empty = true
  · rw [if_pos he]
    intro x y hx hy _ _
    exact hother hx hy (not_mem_of_empty he x y)
  · rw [if_neg he]
    have hd := presentRectToFramebuffer_draws hsize repaint
    intro x y hx hy _ _
    rw [hd.width] at hx
    rw [hd.height] at hy
    by_cases hin : repaint.Mem x y
    · exact hd.inside x y hx hy hin
    · rw [hd.outside x y hx hy hin, hother hx hy hin]

/-! ## Steps -/

omit [Ui] [LawfulRects] [LawfulColors] in
/-- Moving the pointer keeps the view's size. -/
theorem presentCursorMove_size [Ui] (scene : Canvas) (view : FramebufferView)
    (oldCursor newCursor : CursorState) (image : CursorImage) :
    (presentCursorMove scene view oldCursor newCursor image).SameSize view := by
  unfold presentCursorMove
  simp only
  split
  · exact ⟨rfl, rfl⟩
  · exact ⟨rfl, rfl⟩

omit [UiColors] [LawfulRects] [LawfulColors] in
/-- Presenting a rectangle keeps the view's size. -/
theorem presentRectToFramebuffer_size (scene : Canvas) (view : FramebufferView) (rect : Rect) :
    (presentRectToFramebuffer scene view rect).SameSize view := by
  unfold presentRectToFramebuffer
  simp only
  split
  · exact ⟨rfl, rfl⟩
  · exact ⟨rfl, rfl⟩

omit [Ui] [UiColors] [LawfulRects] [LawfulColors] in
/-- Views of one size in turn. -/
theorem PixelView.SameSize.trans {v v' v'' : PixelView} (h : v.SameSize v')
    (h' : v'.SameSize v'') : v.SameSize v'' :=
  ⟨h.1.trans h'.1, h.2.trans h'.2⟩

omit [Ui] [UiColors] [LawfulRects] [LawfulColors] in
/-- Having one size goes both ways. -/
theorem PixelView.SameSize.symm {v v' : PixelView} (h : v.SameSize v') : v'.SameSize v :=
  ⟨h.1.symm, h.2.symm⟩

omit [LawfulRects] [LawfulColors] in
/-- A present call keeps the software backend's framebuffer the size it was. -/
theorem softwareCall_size (image : CursorImage) (target : FramebufferView) (c : PresentCall) :
    (softwareCall image target c).SameSize target := by
  cases c with
  | presentFull scene cursor =>
    exact (presentCursorMove_size scene _ cursor cursor image).trans ⟨rfl, rfl⟩
  | presentRect scene rect cursor =>
    exact (presentCursorMove_size scene _ cursor cursor image).trans
      (presentRectToFramebuffer_size scene target rect)
  | presentCursorMove scene oldCursor newCursor =>
    exact presentCursorMove_size scene target oldCursor newCursor image
  | commit _ _ => exact ⟨rfl, rfl⟩

/-- A present call makes a picture show its scene and cursor, if the picture showed the last ones.
Both backends' framebuffers go by it. -/
theorem softwareCall_shows {image : CursorImage} {s : Backends}
    {view : FramebufferView} (hsize : view.SameSize s.software)
    (hview : ∀ scene cursor, s.shown = some (scene, cursor) →
      ShowsScene image view scene cursor) {c : PresentCall} (hc : AsEventLoop s c)
    {scene : Canvas} {cursor : CursorState}
    (hs : (s.call image c).shown = some (scene, cursor)) :
    ShowsScene image (softwareCall image view c) scene cursor := by
  have hsame : ∀ {scene : Canvas}, scene.SameSize s.software → scene.SameSize view :=
    fun hs => hs.trans hsize.symm
  cases c with
  | presentFull scene' cursor' =>
    obtain ⟨rfl, rfl⟩ := Prod.mk.inj (Option.some.inj hs)
    exact presentFull_shows image (hsame hc) cursor'
  | presentRect scene' rect cursor' =>
    obtain ⟨rfl, rfl⟩ := Prod.mk.inj (Option.some.inj hs)
    obtain ⟨hsc, old, hold, hagree⟩ := hc
    exact presentRect_shows (hsame hsc) (hview old cursor' hold) hagree
  | presentCursorMove scene' oldCursor newCursor =>
    obtain ⟨rfl, rfl⟩ := Prod.mk.inj (Option.some.inj hs)
    obtain ⟨hsc, old, hold, hagree⟩ := hc
    exact presentMove_shows (hsame hsc) newCursor (hview old oldCursor hold) hagree
  | commit _ _ => exact hview scene cursor hs

/-- What the software backend keeps of the invariant. -/
theorem software_sound {image : CursorImage} {s : Backends} (h : s.Sound image) {c : PresentCall}
    (hc : AsEventLoop s c) :
    (∀ scene cursor, (s.call image c).shown = some (scene, cursor) →
      scene.SameSize (s.call image c).software) ∧
    (∀ scene cursor, (s.call image c).shown = some (scene, cursor) →
      ShowsScene image (s.call image c).software scene cursor) := by
  have hsize := softwareCall_size image s.software c
  refine ⟨?_, fun scene cursor hs => softwareCall_shows ⟨rfl, rfl⟩ h.software hc hs⟩
  intro scene cursor hs
  have hscene : scene.SameSize s.software := by
    cases c with
    | presentFull scene' cursor' =>
      obtain ⟨rfl, rfl⟩ := Prod.mk.inj (Option.some.inj hs)
      exact hc
    | presentRect scene' rect cursor' =>
      obtain ⟨rfl, rfl⟩ := Prod.mk.inj (Option.some.inj hs)
      exact hc.1
    | presentCursorMove scene' oldCursor newCursor =>
      obtain ⟨rfl, rfl⟩ := Prod.mk.inj (Option.some.inj hs)
      exact hc.1
    | commit _ _ => exact h.scene_size scene cursor hs
  exact hscene.trans hsize.symm

omit [LawfulColors] in
/-- Noting a change keeps the invariant: the buffers are missing it from now on. -/
theorem note_sound {image : CursorImage} {s s' : Backends} (h : s.Sound image)
    (hf : s.flip.failed = false) {scene : Canvas} {changed : Rect} {cursor : CursorState}
    (hflip : s'.flip = s.flip.note scene changed cursor) (hshown : s'.shown = some (scene, cursor))
    (hsize : s'.software.SameSize s.software) (hscene : scene.SameSize s'.software)
    (hsoft : ShowsScene image s'.software scene cursor)
    (hold : ∀ old c, s.shown = some (old, c) →
      AgreeOutside scene old (fun x y => changed.Mem x y)) : s'.Sound image := by
  have honly : ∀ {p : Canvas × CursorState}, s'.shown = some p → p = (scene, cursor) := by
    intro p hp
    rw [hshown] at hp
    exact (Option.some.inj hp).symm
  have hfailed : s'.flip.failed = false := by rw [hflip]; exact hf
  refine ⟨?_, ?_, ?_, ?_, ?_, ?_, ?_, ?_, ?_⟩
  · rw [hflip]
    exact h.target_size.trans hsize.symm
  · intro i hi
    rw [hflip]
    exact (h.buffer_size i hi).trans hsize.symm
  · intro scene' cursor' hs
    obtain ⟨rfl, rfl⟩ := Prod.mk.inj (honly hs)
    exact hscene
  · intro scene' cursor' hs
    obtain ⟨rfl, rfl⟩ := Prod.mk.inj (honly hs)
    exact hsoft
  · intro ht
    rw [hfailed] at ht
    exact absurd ht Bool.false_ne_true
  · intro hn
    rw [hshown] at hn
    exact absurd hn (by simp)
  · intro _
    rw [hshown, hflip]
    rfl
  · intro _ scene' cursor' hs i hi
    obtain ⟨rfl, rfl⟩ := Prod.mk.inj (honly hs)
    have hb := h.buffer_size i hi
    rw [hflip]
    show UpToDate (s.flip.buffers i) (if i < kBuffers then (s.flip.missing i).unite changed
      else s.flip.missing i) (s.flip.cursorDrawn i) scene'
    rw [if_pos hi]
    intro x y hx hy hm hd
    have hm' : ¬(s.flip.missing i).Mem x y := fun h => hm (mem_unite (Or.inl h))
    have hch : ¬changed.Mem x y := fun h => hm (mem_unite (Or.inr h))
    have hss := (hscene.trans hsize)
    cases hs0 : s.shown with
    | none =>
      -- Nothing was presented yet, so the buffer is missing every pixel.
      exfalso
      apply hm'
      rw [h.unseen hs0 i hi]
      have ht := h.target_size
      unfold FlipBackend.screen Rect.Mem
      simp only
      have h1 := hb.1
      have h2 := hb.2
      have h3 := ht.1
      have h4 := ht.2
      omega
    | some p =>
      obtain ⟨old, c⟩ := p
      have hagree := hold old c hs0 x y (by rw [hss.1, ← hb.1]; exact hx)
        (by rw [hss.2, ← hb.2]; exact hy) hch
      rw [h.buffers hf old c hs0 i hi x y hx hy hm' hd, hagree]
  · intro hn
    rw [hshown] at hn
    exact absurd hn (by simp)

/-- After a failure the flip backend draws as the software backend does. -/
theorem failed_sound {image : CursorImage} {s : Backends} (h : s.Sound image)
    (hf : s.flip.failed = true) {c : PresentCall} (hc : AsEventLoop s c)
    (hflip : (s.call image c).flip =
      { s.flip with target := softwareCall image s.flip.target c }) :
    (s.call image c).Sound image := by
  obtain ⟨hscene, hsoft⟩ := software_sound h hc
  have hsize := softwareCall_size image s.software c
  have hsizeT := softwareCall_size image s.flip.target c
  have hfailed : (s.call image c).flip.failed = true := by rw [hflip]; exact hf
  -- A failed backend has presented before, so something is shown.
  have hsome : (s.call image c).shown ≠ none := by
    cases c with
    | commit _ _ =>
      intro hn
      rw [(h.idle hn).1] at hf
      exact absurd hf Bool.false_ne_true
    | _ => exact Option.some_ne_none _
  refine ⟨?_, ?_, hscene, hsoft, ?_, fun hn => absurd hn hsome, ?_, ?_, fun hn => absurd hn hsome⟩
  · rw [hflip]
    exact (hsizeT.trans h.target_size).trans hsize.symm
  · intro i hi
    rw [hflip]
    exact (h.buffer_size i hi).trans hsize.symm
  · intro _ scene cursor hs
    rw [hflip]
    exact softwareCall_shows h.target_size (h.target hf) hc hs
  · intro hn
    rw [hfailed] at hn
    exact absurd hn (by decide)
  · intro hn
    rw [hfailed] at hn
    exact absurd hn (by decide)

/-- A state whose flip backend falls back shows the whole current picture. -/
theorem fallBack_sound {image : CursorImage} {s : Backends} {scene : Canvas} {cursor : CursorState}
    (hshown : s.shown = some (scene, cursor)) (hscene : scene.SameSize s.software)
    (hsoft : ShowsScene image s.software scene cursor) (flip : FlipBackend)
    (hfs : flip.scene = some scene) (hfc : flip.cursor = cursor)
    (ht : flip.target.SameSize s.software)
    (hb : ∀ i < kBuffers, (flip.buffers i).SameSize s.software) :
    Backends.Sound image { s with flip := flip.fallBack image } := by
  have honly : ∀ {p : Canvas × CursorState}, s.shown = some p → p = (scene, cursor) := by
    intro p hp
    rw [hshown] at hp
    exact (Option.some.inj hp).symm
  have hne : s.shown ≠ none := by
    rw [hshown]
    exact Option.some_ne_none _
  have htarget : (flip.fallBack image).target = presentCursorMove scene
      (presentToFramebuffer scene flip.target) cursor cursor image := by
    unfold FlipBackend.fallBack
    rw [hfs, hfc]
  -- What is recorded of the buffers does not matter any more, as no flip will come.
  refine ⟨?_, hb, ?_, ?_, ?_, fun hn => absurd hn hne, fun hf => absurd hf (by
    show true ≠ false
    decide), fun hf => absurd hf (by
    show true ≠ false
    decide), fun hn => absurd hn hne⟩
  · show (flip.fallBack image).target.SameSize s.software
    rw [htarget]
    exact (presentCursorMove_size scene _ cursor cursor image).trans ht
  · intro scene' cursor' hs
    obtain ⟨rfl, rfl⟩ := Prod.mk.inj (honly hs)
    exact hscene
  · intro scene' cursor' hs
    obtain ⟨rfl, rfl⟩ := Prod.mk.inj (honly hs)
    exact hsoft
  · intro _ scene' cursor' hs
    obtain ⟨rfl, rfl⟩ := Prod.mk.inj (honly hs)
    show ShowsScene image (flip.fallBack image).target scene' cursor'
    rw [htarget]
    exact presentFull_shows image (hscene.trans ht.symm) cursor'

/-- The back buffer brought up to date shows the scene, and every buffer has the scene's pixels
outside what is recorded of it. -/
theorem bringUpBack_spec {image : CursorImage} (flip : FlipBackend) {software : FramebufferView}
    {scene : Canvas} {cursor : CursorState} (hfc : flip.cursor = cursor)
    (hsc : scene.SameSize software)
    (hb : ∀ i < kBuffers, (flip.buffers i).SameSize software)
    (hup : ∀ i < kBuffers, UpToDate (flip.buffers i) (flip.missing i) (flip.cursorDrawn i) scene)
    {back : ℕ} (hback : back < kBuffers) :
    (∀ i < kBuffers, ((flip.bringUpBack image scene back).buffers i).SameSize software) ∧
      ShowsScene image ((flip.bringUpBack image scene back).buffers back) scene cursor ∧
      ∀ i < kBuffers, UpToDate ((flip.bringUpBack image scene back).buffers i)
        ((flip.bringUpBack image scene back).missing i)
        ((flip.bringUpBack image scene back).cursorDrawn i) scene := by
  have hbsize := hb back hback
  unfold FlipBackend.bringUpBack
  simp only
  set view := FlipBackend.bringUp image scene flip.cursor (flip.buffers back)
    (flip.missing back) (flip.cursorDrawn back) with hview
  -- Neither repainting a part nor moving the pointer changes a size.
  have hvsize : view.SameSize software := by
    refine PixelView.SameSize.trans ?_ hbsize
    refine (presentCursorMove_size scene _ _ _ image).trans ?_
    split
    · exact ⟨rfl, rfl⟩
    · exact presentRectToFramebuffer_size _ _ _
  have hshows : ShowsScene image view scene cursor := by
    rw [hview, hfc]
    exact bringUp_shows (hsc.trans hbsize.symm) cursor (hup back hback)
  refine ⟨?_, ?_, ?_⟩
  · intro i hi
    rw [Function.update_apply]
    split
    · exact hvsize
    · exact hb i hi
  · rw [Function.update_self]
    exact hshows
  · intro i hi
    rw [Function.update_apply, Function.update_apply, Function.update_apply]
    split
    · -- The buffer is the scene with the pointer, so beside the pointer it is the scene.
      intro x y hx hy _ hnot
      rw [hshows x y hx hy]
      refine composed_of_not_mem scene ?_
      intro hin
      apply hnot
      rw [hfc]
      have h1 := hvsize.1.trans hbsize.1.symm
      have h2 := hvsize.2.trans hbsize.2.symm
      exact mem_clampRect.2 ⟨hin, by omega, by omega, by omega, by omega⟩
    · exact hup i hi

/-- A commit keeps the invariant, and one that flips puts the software backend's picture on
screen. -/
theorem commit_sound {image : CursorImage} {s : Backends} (h : s.Sound image)
    (idle flipped : Bool) :
    (s.call image (.commit idle flipped)).Sound image ∧
      (Flips s.flip (.commit idle flipped) →
        SamePixels ((s.call image (.commit idle flipped)).flip.buffers
          (s.call image (.commit idle flipped)).flip.front) s.software) := by
  have hcall : s.call image (.commit idle flipped) =
      { s with flip := s.flip.commit image idle flipped } := rfl
  rw [hcall]
  by_cases hskip : (s.flip.failed || !s.flip.pending) = true
  · have hsame : s.flip.commit image idle flipped = s.flip := by
      unfold FlipBackend.commit
      rw [if_pos hskip]
    rw [hsame]
    refine ⟨h, ?_⟩
    rintro ⟨hf, hp, -, -⟩
    rw [hf, hp] at hskip
    exact absurd hskip (by decide)
  · obtain ⟨hf, hp⟩ : s.flip.failed = false ∧ s.flip.pending = true := by simpa using hskip
    -- Something was presented, and the flip backend noted it.
    obtain ⟨⟨scene, cursor⟩, hshown⟩ : ∃ p, s.shown = some p := by
      cases hs : s.shown with
      | some p => exact ⟨p, rfl⟩
      | none =>
        rw [(h.idle hs).2] at hp
        exact absurd hp Bool.false_ne_true
    have hnoted := h.noted hf
    rw [hshown] at hnoted
    obtain ⟨scene', hfs, hpair⟩ := Option.map_eq_some_iff.1 hnoted.symm
    obtain ⟨rfl, hfc⟩ := Prod.mk.inj hpair
    have hsc := h.scene_size scene' cursor hshown
    have hsoft := h.software scene' cursor hshown
    unfold FlipBackend.commit
    rw [if_neg hskip]
    simp only
    cases idle with
    | false =>
      refine ⟨fallBack_sound hshown hsc hsoft { s.flip with pending := false } hfs hfc
        h.target_size h.buffer_size, ?_⟩
      rintro ⟨-, -, hi, -⟩
      exact absurd hi Bool.false_ne_true
    | true =>
      simp only [Bool.not_true, Bool.false_eq_true, if_false]
      set back := if s.flip.front = 0 then 1 else 0 with hback
      have hblt : back < kBuffers := by
        rw [hback]
        unfold kBuffers
        split <;> omega
      split
      · next hnone =>
        rw [hfs] at hnone
        exact absurd hnone (by simp)
      · next scene'' hsome =>
        obtain rfl : scene' = scene'' := Option.some.inj (hfs.symm.trans hsome)
        set flip' := FlipBackend.bringUpBack image { s.flip with pending := false } scene' back
          with hflip'
        obtain ⟨hsize, hshows, hup⟩ := bringUpBack_spec { s.flip with pending := false }
          hfc hsc h.buffer_size (h.buffers hf scene' cursor hshown) hblt
        cases flipped with
        | false =>
          refine ⟨fallBack_sound hshown hsc hsoft flip' hfs hfc h.target_size hsize, ?_⟩
          rintro ⟨-, -, -, hfl⟩
          exact absurd hfl Bool.false_ne_true
        | true =>
          simp only [Bool.not_true, Bool.false_eq_true, if_false]
          have hne : s.shown ≠ none := by
            rw [hshown]
            exact Option.some_ne_none _
          refine ⟨⟨h.target_size, hsize, h.scene_size, h.software, h.target,
            fun hn => absurd hn hne, fun _ => h.noted hf, ?_, fun hn => absurd hn hne⟩, ?_⟩
          · intro _ scene'' cursor'' hs i hi
            have hs' : s.shown = some (scene'', cursor'') := hs
            rw [hshown] at hs'
            obtain ⟨rfl, rfl⟩ := Prod.mk.inj (Option.some.inj hs')
            exact hup i hi
          · intro _ x y hx hy
            have hv := hsize back hblt
            rw [hsoft x y hx hy]
            exact hshows x y (by rw [hv.1]; exact hx) (by rw [hv.2]; exact hy)

/-- A call of the event loop keeps the invariant. -/
theorem call_sound {image : CursorImage} {s : Backends} (h : s.Sound image) {c : PresentCall}
    (hc : AsEventLoop s c) : (s.call image c).Sound image := by
  obtain ⟨hscene, hsoft⟩ := software_sound h hc
  have hsize := softwareCall_size image s.software c
  cases hf : s.flip.failed with
  | true =>
    refine failed_sound h hf hc ?_
    cases c with
    | commit idle flipped =>
      show s.flip.commit image idle flipped = { s.flip with target := s.flip.target }
      unfold FlipBackend.commit
      rw [if_pos (by simp [hf])]
    | _ => exact if_pos hf
  | false =>
    have hfn : ¬s.flip.failed = true := by simp [hf]
    cases c with
    | presentFull scene cursor =>
      refine note_sound h hf (if_neg hfn) rfl hsize (hscene _ _ rfl) (hsoft _ _ rfl) ?_
      intro old c hold x y hx hy hnot
      -- Every pixel lies on the screen, so none is left as it was.
      exfalso
      apply hnot
      have hss : scene.SameSize s.flip.target := PixelView.SameSize.trans hc h.target_size.symm
      have h1 := hss.1
      have h2 := hss.2
      unfold FlipBackend.screen Rect.Mem
      simp only
      omega
    | presentRect scene rect cursor =>
      obtain ⟨-, old, hold, hagree⟩ := hc
      refine note_sound h hf (if_neg hfn) rfl hsize (hscene _ _ rfl) (hsoft _ _ rfl) ?_
      intro old' c' hold'
      rw [hold] at hold'
      obtain ⟨rfl, -⟩ := Prod.mk.inj (Option.some.inj hold')
      exact hagree
    | presentCursorMove scene oldCursor newCursor =>
      obtain ⟨-, old, hold, hagree⟩ := hc
      refine note_sound h hf (if_neg hfn) rfl hsize (hscene _ _ rfl) (hsoft _ _ rfl) ?_
      intro old' c' hold' x y hx hy _
      rw [hold] at hold'
      obtain ⟨rfl, -⟩ := Prod.mk.inj (Option.some.inj hold')
      exact hagree x y hx hy not_false
    | commit idle flipped => exact (commit_sound h idle flipped).1

omit [LawfulRects] [LawfulColors] in
/-- Before any failure a present call only notes what changed. -/
theorem call_eq_note (image : CursorImage) {s : Backends} {c : PresentCall}
    (hc : c.presents = true) (hf : s.flip.failed = false) :
    ∃ scene changed cursor, (s.call image c).flip = s.flip.note scene changed cursor := by
  have hfn : ¬s.flip.failed = true := by simp [hf]
  cases c with
  | presentFull scene cursor => exact ⟨scene, _, cursor, if_neg hfn⟩
  | presentRect scene rect cursor => exact ⟨scene, rect, cursor, if_neg hfn⟩
  | presentCursorMove scene oldCursor newCursor => exact ⟨scene, _, newCursor, if_neg hfn⟩
  | commit idle flipped => exact absurd hc Bool.false_ne_true

omit [LawfulRects] [LawfulColors] in
/-- What was noted is flipped to by the next commit. -/
theorem note_flipsNext (image : CursorImage) {flip : FlipBackend} (hf : flip.failed = false)
    (scene : Canvas) (changed : Rect) (cursor : CursorState) :
    FlipsNext image (flip.note scene changed cursor) := by
  have hcommit : (flip.note scene changed cursor).commit image true true =
      { FlipBackend.bringUpBack image { flip.note scene changed cursor with pending := false }
          scene (if flip.front = 0 then 1 else 0) with
        front := if flip.front = 0 then 1 else 0 } := by
    unfold FlipBackend.commit
    rw [if_neg (by simp [FlipBackend.note, hf])]
    rfl
  refine ⟨⟨hf, rfl, rfl, rfl⟩, ?_, ?_, ?_⟩
  · rw [hcommit]
    exact hf
  · rw [hcommit]
    show (if flip.front = 0 then 1 else 0) < 2
    split_ifs <;> decide
  · rw [hcommit]
    show (if flip.front = 0 then 1 else 0) ≠ flip.front
    split_ifs <;> omega

/-- What the invariant says of a call: the two backends show the same. -/
theorem call_showsSame {image : CursorImage} {s : Backends} (h : s.Sound image) {c : PresentCall}
    (hc : AsEventLoop s c) : ShowsSame image s c := by
  have h' := call_sound h hc
  refine ⟨h'.software, ?_, ?_, ?_⟩
  · intro hflips
    cases c with
    | commit idle flipped => exact (commit_sound h idle flipped).2 hflips
    | presentFull _ _ => exact hflips.elim
    | presentRect _ _ _ => exact hflips.elim
    | presentCursorMove _ _ _ => exact hflips.elim
  · intro hf x y hx hy
    cases hs : (s.call image c).shown with
    | none =>
      rw [(h'.idle hs).1] at hf
      exact absurd hf Bool.false_ne_true
    | some p =>
      obtain ⟨scene, cursor⟩ := p
      have ht := h'.target_size
      rw [h'.software scene cursor hs x y hx hy]
      exact h'.target hf scene cursor hs x y (by rw [ht.1]; exact hx) (by rw [ht.2]; exact hy)
  · intro hpresents hf
    obtain ⟨scene, changed, cursor, heq⟩ := call_eq_note image hpresents hf
    rw [heq]
    exact note_flipsNext image hf scene changed cursor

/-! ## Runs -/

omit [Ui] [UiColors] [LawfulRects] [LawfulColors] in
/-- The two backends as they are set up, over pictures of one size. -/
def Backends.start (target software : FramebufferView) (buffers : ℕ → FramebufferView)
    (cursor : CursorState) : Backends :=
  ⟨.initialized target buffers cursor, software, none⟩

/-- Over every run of calls that the event loop makes, whatever the display answers, both backends
show the same: what a flip puts on screen, and after a failure the framebuffer, have the pixels of
the software backend's framebuffer, which are the scene with the pointer over it. A commit after a
present call flips if the display takes it. -/
theorem flip_refines_software (image : CursorImage) {target software : FramebufferView}
    {buffers : ℕ → FramebufferView} (cursor : CursorState) (htarget : target.SameSize software)
    (hbuffers : ∀ i < kBuffers, (buffers i).SameSize software) {calls : List PresentCall}
    (h : Along (Backends.call image) AsEventLoop (.start target software buffers cursor) calls) :
    Along (Backends.call image) (ShowsSame image) (.start target software buffers cursor)
      calls := by
  refine Along.of_invariant (Backends.Sound image) (fun _ _ hs hc => call_sound hs hc)
    (fun _ _ hs hc => call_showsSame hs hc) ?_ h
  refine ⟨htarget, hbuffers, ?_, ?_, ?_, fun _ => ⟨rfl, rfl⟩, fun _ => rfl, ?_, fun _ _ _ => rfl⟩
  · intro _ _ hs
    exact absurd hs (by simp [Backends.start])
  · intro _ _ hs
    exact absurd hs (by simp [Backends.start])
  · intro hf
    exact absurd hf Bool.false_ne_true
  · intro _ _ _ hs
    exact absurd hs (by simp [Backends.start])

end Refinement

/-- Colours that are their words: the alpha is the top byte, and a colour of half the alpha or more
replaces the one below it. -/
abbrev plainColors : UiColors where
  Color := BitVec 32
  fromWord w := w
  word c := c
  alpha c := (c >>> 24).toNat
  blend below above a := if 128 ≤ a then above else below

/-- A picture of two by two pixels of one word, in rows of a given length. -/
def smallPicture (word : BitVec 32) (pitch : ℕ) (h : 2 ≤ pitch ∧ pitch * 2 < 2^31) : PixelView :=
  ⟨fun _ => word, 2, 2, pitch, h.1, h.2⟩

/-- A black scene, and the same with its last pixel white. -/
def blackScene : Canvas := smallPicture 0xFF000000 2 (by decide)

/-- The black scene with its last pixel white. -/
def dottedScene : Canvas :=
  { blackScene with pixels := Function.update blackScene.pixels 3 0xFFFFFFFF }

/-- An opaque red pointer of one pixel. -/
def redPointer : @CursorImage plainColors :=
  @CursorImage.mk plainColors true 1 1 0 0 fun _ => (0xFFFF0000 : BitVec 32)

/-- The whole scene, then its last pixel; the second flip is refused. -/
def dottedCalls : List PresentCall :=
  [.presentFull blackScene ⟨0, 0⟩, .commit true true,
    .presentRect dottedScene ⟨1, 1, 1, 1⟩ ⟨0, 0⟩, .commit true false]

/-- The refinement at a run that flips once and then falls back. -/
theorem dottedCalls_refine :
    @Along _ _ (@Backends.call plainUi plainColors redPointer)
      (@ShowsSame plainUi plainColors redPointer)
      (.start (smallPicture 0 2 (by decide)) (smallPicture 0 2 (by decide))
        (fun _ => smallPicture 0 4 (by decide)) ⟨0, 0⟩) dottedCalls := by
  refine @flip_refines_software plainUi plainColors plainUi_lawful
    (@LawfulColors.mk plainColors fun _ => rfl) redPointer (smallPicture 0 2 (by decide))
    (smallPicture 0 2 (by decide)) (fun _ => smallPicture 0 4 (by decide)) ⟨0, 0⟩ ⟨rfl, rfl⟩
    (fun _ _ => ⟨rfl, rfl⟩) dottedCalls ?_
  refine ⟨⟨rfl, rfl⟩, trivial, ⟨?_, ?_⟩, trivial, trivial⟩
  · exact ⟨rfl, rfl⟩
  · refine ⟨blackScene, rfl, ?_⟩
    intro x y hx hy hnot
    have hne : y * 2 + x ≠ 3 := by
      intro h3
      apply hnot
      have hx' : x < 2 := hx
      have hy' : y < 2 := hy
      unfold Rect.Mem
      simp only
      omega
    exact Function.update_of_ne hne _ _

end IUserApps.Compositor
