import IUserApps.Compositor.Taskbar
import IUserApps.Loops

/-!
# Presenting the scene

How a finished scene gets to a framebuffer: whole (`present_to_framebuffer` of `buffers.cpp`), in
part, and with the pointer drawn over it (`presentation.cpp`). The scene and the framebuffer are
words of memory in rows that may be longer than the picture is wide.

Each of the three writes a known value to the pixels of a region and leaves the others (`Draws`).
The value under the pointer is `composed`; elsewhere it is the scene's pixel without its alpha.
Sizes are those of an `int`.
-/

namespace IUserApps.Compositor

open Loops

/-- A picture in memory. -/
structure PixelView where
  pixels : ℕ → BitVec 32
  width : ℕ
  height : ℕ
  /-- Words a row. -/
  pitch : ℕ
  width_le : width ≤ pitch
  /-- Every place of it is an `int`, as the loops compute them. -/
  words_lt : pitch * height < 2^31

/-- The scene, `ui::Canvas`. -/
abbrev Canvas := PixelView

/-- A framebuffer. -/
abbrev FramebufferView := PixelView

/-- The word of a pixel. -/
def PixelView.at (view : PixelView) (x y : ℕ) : BitVec 32 := view.pixels (y * view.pitch + x)

/-- A place of a picture without padding. -/
theorem place_lt {x y width height : ℕ} (hx : x < width) (hy : y < height) :
    y * width + x < width * height := by
  calc y * width + x < y * width + width := by omega
    _ = (y + 1) * width := (Nat.succ_mul _ _).symm
    _ ≤ height * width := Nat.mul_le_mul_right _ hy
    _ = width * height := Nat.mul_comm _ _

/-- A place has its row and its column. -/
theorem place_div_mod {width column : ℕ} (row : ℕ) (h : column < width) :
    (row * width + column) / width = row ∧ (row * width + column) % width = column := by
  have hpos : 0 < width := by omega
  rw [Nat.add_comm]
  constructor
  · rw [Nat.add_mul_div_right _ _ hpos, Nat.div_eq_of_lt h, Nat.zero_add]
  · rw [Nat.add_mul_mod_self_right, Nat.mod_eq_of_lt h]

/-- Two pixels of one place are one pixel. -/
theorem place_inj {width x y x' y' : ℕ} (hx : x < width) (hx' : x' < width)
    (heq : y * width + x = y' * width + x') : y = y' ∧ x = x' := by
  obtain ⟨hrow, hcolumn⟩ := place_div_mod y hx
  obtain ⟨hrow', hcolumn'⟩ := place_div_mod y' hx'
  rw [heq] at hrow hcolumn
  exact ⟨hrow.symm.trans hrow', hcolumn.symm.trans hcolumn'⟩

/-- Two pictures have one size. -/
def PixelView.SameSize (view view' : PixelView) : Prop :=
  view.width = view'.width ∧ view.height = view'.height

/-- The interface library's colours. -/
class UiColors where
  Color : Type
  fromWord : BitVec 32 → Color
  word : Color → BitVec 32
  alpha : Color → ℕ
  /-- `blend`: the second colour over the first, by an alpha. -/
  blend : Color → Color → ℕ → Color

open UiColors (Color fromWord word alpha blend)

/-- The bits of a word beside the alpha. -/
def rgbMask : BitVec 32 := 0x00FFFFFF

/-- The pointer image. -/
structure CursorImage [UiColors] where
  ready : Bool
  width : ℤ
  height : ℤ
  hotspotX : ℤ
  hotspotY : ℤ
  pixels : ℕ → Color

/-- `dst[dstBase + i] = src[srcBase + i] & 0x00FFFFFF`. -/
def maskWord (src : ℕ → BitVec 32) (srcBase dstBase i : ℕ) (dst : ℕ → BitVec 32) :
    ℕ → BitVec 32 :=
  Function.update dst (dstBase + i) (src (srcBase + i) &&& rgbMask)

/-- A row of scene pixels to the framebuffer, which has no alpha byte: four words at a time, then
the rest. -/
def presentTexelRow (src : ℕ → BitVec 32) (srcBase dstBase count : ℕ) (dst : ℕ → BitVec 32) :
    ℕ → BitVec 32 :=
  let quads := count / 4
  let dst := upTo 0 quads (fun q => upTo (4 * q) (4 * q + 4) (maskWord src srcBase dstBase)) dst
  upTo (4 * quads) count (maskWord src srcBase dstBase) dst

/-- The whole scene to a framebuffer. -/
def presentToFramebuffer (source : Canvas) (target : FramebufferView) : FramebufferView :=
  let copyWidth := min source.width target.width
  let copyHeight := min source.height target.height
  { target with
    pixels := upTo 0 copyHeight (fun y =>
      presentTexelRow source.pixels (y * source.pitch) (y * target.pitch) copyWidth) target.pixels }

section Presenting

variable [Ui]

/-- The part of a rectangle on the screen. -/
def clampRect (rect : Rect) (width height : ℕ) : Rect := rect.intersect ⟨0, 0, width, height⟩

/-- A part of the scene to a framebuffer. -/
def presentRectToFramebuffer (source : Canvas) (target : FramebufferView) (rect : Rect) :
    FramebufferView :=
  let clipped := clampRect rect (min source.width target.width) (min source.height target.height)
  if clipped.empty then target
  else
    { target with
      pixels := upTo 0 clipped.height.toNat (fun y =>
        let srcY := clipped.y.toNat + y
        let srcX := clipped.x.toNat
        presentTexelRow source.pixels (srcY * source.pitch + srcX) (srcY * target.pitch + srcX)
          clipped.width.toNat) target.pixels }

variable [UiColors]

omit [Ui] in
/-- Where the pointer image is. -/
def cursorRect (cursor : CursorState) (image : CursorImage) : Rect :=
  if image.ready then
    ⟨cursor.x - image.hotspotX, cursor.y - image.hotspotY, image.width, image.height⟩
  else ⟨cursor.x, cursor.y, 0, 0⟩

omit [Ui] in
/-- The framebuffer's word for a place: the scene with the pointer image over it. -/
def composed (scene : Canvas) (cursor : CursorState) (image : CursorImage) (x y : ℕ) :
    BitVec 32 :=
  let color := fromWord (scene.at x y)
  let cursorLocalX := x - (cursor.x - image.hotspotX)
  let cursorLocalY := y - (cursor.y - image.hotspotY)
  let color :=
    if image.ready = true ∧ 0 ≤ cursorLocalX ∧ 0 ≤ cursorLocalY ∧
        cursorLocalX < image.width ∧ cursorLocalY < image.height then
      let src := image.pixels (cursorLocalY * image.width + cursorLocalX).toNat
      if alpha src ≠ 0 then if alpha src = 255 then src else blend color src (alpha src)
      else color
    else color
  word color &&& rgbMask

/-- Repaints where the pointer was and where it is. -/
def presentCursorMove (scene : Canvas) (fb : FramebufferView) (oldCursor newCursor : CursorState)
    (image : CursorImage) : FramebufferView :=
  let dirty := clampRect ((cursorRect oldCursor image).unite (cursorRect newCursor image))
    fb.width fb.height
  if dirty.empty then fb
  else
    { fb with
      pixels := upTo 0 dirty.height.toNat (fun y => upTo 0 dirty.width.toNat fun x pixels =>
        let drawX := dirty.x.toNat + x
        let drawY := dirty.y.toNat + y
        Function.update pixels (drawY * fb.pitch + drawX)
          (composed scene newCursor image drawX drawY)) fb.pixels }

end Presenting

/-! ## Rectangles and colours as the library has them -/

/-- The point is in the rectangle. -/
def Rect.Mem (r : Rect) (x y : ℤ) : Prop :=
  r.x ≤ x ∧ x < r.x + r.width ∧ r.y ≤ y ∧ y < r.y + r.height

instance (r : Rect) (x y : ℤ) : Decidable (r.Mem x y) := inferInstanceAs (Decidable (_ ∧ _))

/-- What the interface library's rectangles do: an empty one has no width or no height, `unite` is
the bounding box of the rectangles that are not empty, `intersect` the points of both. -/
class LawfulRects [Ui] : Prop where
  empty_iff : ∀ r : Rect, r.empty = true ↔ r.width ≤ 0 ∨ r.height ≤ 0
  unite_of_empty : ∀ r s : Rect, r.empty = true → r.unite s = s
  unite_empty : ∀ r s : Rect, r.empty = false → s.empty = true → r.unite s = r
  unite_eq : ∀ r s : Rect, r.empty = false → s.empty = false →
    r.unite s = ⟨min r.x s.x, min r.y s.y,
      max (r.x + r.width) (s.x + s.width) - min r.x s.x,
      max (r.y + r.height) (s.y + s.height) - min r.y s.y⟩
  mem_intersect : ∀ (r s : Rect) (x y : ℤ), (r.intersect s).Mem x y ↔ r.Mem x y ∧ s.Mem x y

/-- A word's colour has the word again, beside the alpha. -/
class LawfulColors [UiColors] : Prop where
  word_fromWord : ∀ w : BitVec 32, word (fromWord w) &&& rgbMask = w &&& rgbMask

/-- The plain library's rectangles are lawful. -/
theorem plainUi_lawful : @LawfulRects plainUi := by
  refine @LawfulRects.mk plainUi ?_ ?_ ?_ ?_ ?_
  · intro r
    exact decide_eq_true_iff
  · intro r s h
    exact if_pos (of_decide_eq_true h)
  · intro r s hr hs
    have hr' := of_decide_eq_false hr
    exact (if_neg hr').trans (if_pos (of_decide_eq_true hs))
  · intro r s hr hs
    have hr' := of_decide_eq_false hr
    exact (if_neg hr').trans (if_neg (of_decide_eq_false hs))
  · intro r s x y
    show Rect.Mem ⟨max r.x s.x, max r.y s.y, min (r.x + r.width) (s.x + s.width) - max r.x s.x,
      min (r.y + r.height) (s.y + s.height) - max r.y s.y⟩ x y ↔ _
    simp only [Rect.Mem]
    omega

section Rects

variable [Ui] [LawfulRects]

/-- An empty rectangle has no point. -/
theorem not_mem_of_empty {r : Rect} (h : r.empty = true) (x y : ℤ) : ¬r.Mem x y := by
  have := (LawfulRects.empty_iff r).1 h
  unfold Rect.Mem
  omega

/-- A rectangle with a point is not empty. -/
theorem empty_of_mem {r : Rect} {x y : ℤ} (h : r.Mem x y) : r.empty = false := by
  cases he : r.empty with
  | false => rfl
  | true => exact absurd h (not_mem_of_empty he x y)

/-- The points of two rectangles are in what unites them. -/
theorem mem_unite {r s : Rect} {x y : ℤ} (h : r.Mem x y ∨ s.Mem x y) : (r.unite s).Mem x y := by
  cases hr : r.empty with
  | true =>
    rw [LawfulRects.unite_of_empty r s hr]
    exact h.resolve_left (not_mem_of_empty hr x y)
  | false =>
    cases hs : s.empty with
    | true =>
      rw [LawfulRects.unite_empty r s hr hs]
      exact h.resolve_right (not_mem_of_empty hs x y)
    | false =>
      rw [LawfulRects.unite_eq r s hr hs]
      unfold Rect.Mem at h ⊢
      simp only
      omega

/-- A point is in a clamped rectangle when it is in the rectangle and on the screen. -/
theorem mem_clampRect {r : Rect} {width height : ℕ} {x y : ℤ} :
    (clampRect r width height).Mem x y ↔
      r.Mem x y ∧ 0 ≤ x ∧ x < width ∧ 0 ≤ y ∧ y < height := by
  unfold clampRect
  rw [LawfulRects.mem_intersect]
  unfold Rect.Mem
  simp only
  omega

/-- A clamped rectangle that is not empty lies on the screen. -/
theorem clampRect_bounds (r : Rect) (width height : ℕ)
    (h : (clampRect r width height).empty = false) :
    0 < (clampRect r width height).width ∧ 0 < (clampRect r width height).height ∧
      0 ≤ (clampRect r width height).x ∧ 0 ≤ (clampRect r width height).y ∧
      (clampRect r width height).x + (clampRect r width height).width ≤ width ∧
      (clampRect r width height).y + (clampRect r width height).height ≤ height := by
  set c := clampRect r width height with hc
  have hpos : ¬(c.width ≤ 0 ∨ c.height ≤ 0) := by
    rw [← LawfulRects.empty_iff c, h]
    exact Bool.false_ne_true
  have hfirst : c.Mem c.x c.y := by
    unfold Rect.Mem
    omega
  have hlast : c.Mem (c.x + c.width - 1) (c.y + c.height - 1) := by
    unfold Rect.Mem
    omega
  have h1 := (mem_clampRect.1 hfirst).2
  have h2 := (mem_clampRect.1 hlast).2
  omega

end Rects

/-! ## What is drawn -/

/-- `fb'` is `fb` with a value drawn to each pixel of a region. -/
structure Draws (fb fb' : FramebufferView) (region : ℕ → ℕ → Prop)
    (value : ℕ → ℕ → BitVec 32) : Prop where
  width : fb'.width = fb.width
  height : fb'.height = fb.height
  inside : ∀ x y, x < fb.width → y < fb.height → region x y → fb'.at x y = value x y
  outside : ∀ x y, x < fb.width → y < fb.height → ¬region x y → fb'.at x y = fb.at x y

/-- A range of words, masked. -/
theorem maskWords {src dst : ℕ → BitVec 32} {srcBase dstBase lo hi : ℕ} (j : ℕ) :
    upTo lo hi (maskWord src srcBase dstBase) dst j =
      if dstBase + lo ≤ j ∧ j < dstBase + hi then src (srcBase + (j - dstBase)) &&& rgbMask
      else dst j := by
  refine upTo_writes (fun d : ℕ → BitVec 32 => d j) _ (fun i => j = dstBase + i) ?_ ?_
  · intro i d _ _
    unfold maskWord
    rw [Function.update_apply]
    split
    · next hj => rw [hj, Nat.add_sub_cancel_left]
    · rfl
  · constructor
    · rintro ⟨hl, hh⟩
      exact ⟨j - dstBase, by omega, by omega, by omega⟩
    · rintro ⟨i, hl, hh, rfl⟩
      omega

/-- A row is the words of its range, masked. -/
theorem presentTexelRow_apply (src dst : ℕ → BitVec 32) (srcBase dstBase count j : ℕ) :
    presentTexelRow src srcBase dstBase count dst j =
      if dstBase ≤ j ∧ j < dstBase + count then src (srcBase + (j - dstBase)) &&& rgbMask
      else dst j := by
  have hquads : ∀ j, upTo 0 (count / 4)
      (fun q => upTo (4 * q) (4 * q + 4) (maskWord src srcBase dstBase)) dst j =
      if dstBase ≤ j ∧ j < dstBase + 4 * (count / 4) then
        src (srcBase + (j - dstBase)) &&& rgbMask
      else dst j := by
    intro j
    refine upTo_writes (fun d : ℕ → BitVec 32 => d j) _
      (fun q => dstBase + 4 * q ≤ j ∧ j < dstBase + (4 * q + 4)) (fun q d _ _ => maskWords j) ?_
    constructor
    · rintro ⟨hl, hh⟩
      exact ⟨(j - dstBase) / 4, by omega, by omega, by omega⟩
    · rintro ⟨q, hl, hh, hq⟩
      omega
  unfold presentTexelRow
  rw [maskWords j, hquads j]
  by_cases hr : dstBase + 4 * (count / 4) ≤ j ∧ j < dstBase + count
  · rw [if_pos hr, if_pos (by omega)]
  · rw [if_neg hr]
    by_cases hs : dstBase ≤ j ∧ j < dstBase + 4 * (count / 4)
    · rw [if_pos hs, if_pos (by omega)]
    · rw [if_neg hs, if_neg (by omega)]

/-- The words of a stretch of a row are pixels of that row. -/
theorem mem_row_iff (y y0 : ℕ) {pitch x x0 count : ℕ} (hx : x < pitch)
    (h0 : x0 + count ≤ pitch) :
    (y0 * pitch + x0 ≤ y * pitch + x ∧ y * pitch + x < y0 * pitch + x0 + count) ↔
      y = y0 ∧ x0 ≤ x ∧ x < x0 + count := by
  rcases Nat.lt_trichotomy y y0 with h | h | h
  · have hrow : (y + 1) * pitch ≤ y0 * pitch := Nat.mul_le_mul_right pitch h
    rw [Nat.add_one_mul] at hrow
    omega
  · subst h
    omega
  · have hrow : (y0 + 1) * pitch ≤ y * pitch := Nat.mul_le_mul_right pitch h
    rw [Nat.add_one_mul] at hrow
    omega

/-- Rows copied one below the other: the pixels of the block become the scene's. -/
theorem presentRows_apply (source : Canvas) {target : FramebufferView}
    (x0 y0 rows count y : ℕ) {x : ℕ} (h0 : x0 + count ≤ target.width) (hx : x < target.width) :
    upTo 0 rows (fun r => presentTexelRow source.pixels ((y0 + r) * source.pitch + x0)
        ((y0 + r) * target.pitch + x0) count) target.pixels (y * target.pitch + x) =
      if y0 ≤ y ∧ y < y0 + rows ∧ x0 ≤ x ∧ x < x0 + count then source.at x y &&& rgbMask
      else target.at x y := by
  have hpitch := target.width_le
  refine upTo_writes (fun d : ℕ → BitVec 32 => d (y * target.pitch + x)) _
    (fun r => y = y0 + r ∧ x0 ≤ x ∧ x < x0 + count) ?_ ?_
  · intro r d _ _
    have hrow := mem_row_iff y (y0 + r) (show x < target.pitch by omega)
      (show x0 + count ≤ target.pitch by omega)
    rw [presentTexelRow_apply]
    by_cases hr : y = y0 + r ∧ x0 ≤ x ∧ x < x0 + count
    · rw [if_pos (hrow.2 hr), if_pos hr]
      obtain ⟨rfl, hl, -⟩ := hr
      unfold PixelView.at
      congr 2
      omega
    · rw [if_neg (fun h => hr (hrow.1 h)), if_neg hr]
  · constructor
    · rintro ⟨hl, hh, hcolumns⟩
      exact ⟨y - y0, by omega, by omega, by omega, hcolumns⟩
    · rintro ⟨r, hl, hh, rfl, hcolumns⟩
      exact ⟨by omega, by omega, hcolumns⟩

/-- The whole scene is drawn without alpha. -/
theorem presentToFramebuffer_draws {source : Canvas} {target : FramebufferView}
    (hsize : source.SameSize target) :
    Draws target (presentToFramebuffer source target) (fun _ _ => True)
      (fun x y => source.at x y &&& rgbMask) := by
  obtain ⟨hw, hh⟩ := hsize
  refine ⟨rfl, rfl, ?_, fun x y _ _ h => absurd trivial h⟩
  intro x y hx hy _
  have h := presentRows_apply source 0 0 (min source.height target.height)
    (min source.width target.width) y (by omega) hx
  rw [if_pos (by omega)] at h
  simp only [Nat.zero_add, Nat.add_zero] at h
  exact h

section Draws

variable [Ui] [LawfulRects]

/-- A part of the scene is drawn without alpha. -/
theorem presentRectToFramebuffer_draws {source : Canvas} {target : FramebufferView}
    (hsize : source.SameSize target) (rect : Rect) :
    Draws target (presentRectToFramebuffer source target rect) (fun x y => rect.Mem x y)
      (fun x y => source.at x y &&& rgbMask) := by
  obtain ⟨hw, hh⟩ := hsize
  unfold presentRectToFramebuffer
  rw [hw, hh, Nat.min_self, Nat.min_self]
  set c := clampRect rect target.width target.height with hc
  have hmem : ∀ {x y : ℕ}, x < target.width → y < target.height →
      (rect.Mem x y ↔ c.Mem x y) := by
    intro x y hx hy
    rw [hc, mem_clampRect]
    exact ⟨fun h => ⟨h, by omega, by omega, by omega, by omega⟩, fun h => h.1⟩
  by_cases he : c.empty = true
  · -- No pixel of the rectangle is on the screen, and nothing is drawn.
    simp only [he, if_true]
    refine ⟨rfl, rfl, ?_, fun _ _ _ _ _ => rfl⟩
    intro x y hx hy hr
    exact absurd ((hmem hx hy).1 hr) (not_mem_of_empty he x y)
  · have hb := clampRect_bounds rect target.width target.height (by simpa using he)
    rw [← hc] at hb
    rw [if_neg he]
    -- The rows of the clamped rectangle are in the target, so each is drawn whole.
    have hrows : ∀ {x y : ℕ}, x < target.width →
        (upTo 0 c.height.toNat (fun r => presentTexelRow source.pixels
          ((c.y.toNat + r) * source.pitch + c.x.toNat)
          ((c.y.toNat + r) * target.pitch + c.x.toNat) c.width.toNat) target.pixels)
          (y * target.pitch + x) =
        if c.y.toNat ≤ y ∧ y < c.y.toNat + c.height.toNat ∧ c.x.toNat ≤ x ∧
            x < c.x.toNat + c.width.toNat then source.at x y &&& rgbMask
        else target.at x y :=
      fun hx => presentRows_apply _ _ _ _ _ _ (by omega) hx
    refine ⟨rfl, rfl, ?_, ?_⟩
    · intro x y hx hy hr
      have hin := (hmem hx hy).1 hr
      unfold Rect.Mem at hin
      exact (hrows hx).trans (if_pos (by omega))
    · intro x y hx hy hr
      have hout : ¬c.Mem x y := fun h => hr ((hmem hx hy).2 h)
      unfold Rect.Mem at hout
      exact (hrows hx).trans (if_neg (by omega))

variable [UiColors]

omit [Ui] [LawfulRects] in
/-- A block of pixels that the pointer's move repaints. -/
theorem composedBlock_apply {scene : Canvas} {fb : FramebufferView} {cursor : CursorState}
    {image : CursorImage} {x0 y0 rows count x y : ℕ} (h0 : x0 + count ≤ fb.width)
    (hx : x < fb.width) :
    upTo 0 rows (fun r => upTo 0 count fun c pixels =>
        Function.update pixels ((y0 + r) * fb.pitch + (x0 + c))
          (composed scene cursor image (x0 + c) (y0 + r))) fb.pixels (y * fb.pitch + x) =
      if y0 ≤ y ∧ y < y0 + rows ∧ x0 ≤ x ∧ x < x0 + count then composed scene cursor image x y
      else fb.at x y := by
  have hpitch := fb.width_le
  -- One row of the block; the rows then write different places.
  have hrow : ∀ r (d : ℕ → BitVec 32), upTo 0 count (fun c pixels =>
      Function.update pixels ((y0 + r) * fb.pitch + (x0 + c))
        (composed scene cursor image (x0 + c) (y0 + r))) d (y * fb.pitch + x) =
      if y = y0 + r ∧ x0 ≤ x ∧ x < x0 + count then composed scene cursor image x y
      else d (y * fb.pitch + x) := by
    intro r d
    refine upTo_writes (fun d' : ℕ → BitVec 32 => d' (y * fb.pitch + x)) _
      (fun c => y = y0 + r ∧ x = x0 + c) ?_ ?_
    · intro c d' _ hc
      have hone := mem_row_iff y (y0 + r) (show x < fb.pitch by omega)
        (show x0 + c + 1 ≤ fb.pitch by omega)
      rw [Function.update_apply]
      by_cases hplace : y = y0 + r ∧ x = x0 + c
      · obtain ⟨rfl, rfl⟩ := hplace
        rw [if_pos rfl, if_pos ⟨rfl, rfl⟩]
      · rw [if_neg fun heq => hplace ?_, if_neg hplace]
        obtain ⟨hy, hl, hr⟩ := hone.1 (by omega)
        exact ⟨hy, by omega⟩
    · constructor
      · rintro ⟨hy, hl, hh⟩
        exact ⟨x - x0, by omega, by omega, hy, by omega⟩
      · rintro ⟨c, hl, hh, hy, rfl⟩
        exact ⟨hy, by omega, by omega⟩
  refine upTo_writes (fun d : ℕ → BitVec 32 => d (y * fb.pitch + x)) _
    (fun r => y = y0 + r ∧ x0 ≤ x ∧ x < x0 + count) (fun r d _ _ => hrow r d) ?_
  constructor
  · rintro ⟨hl, hh, hcolumns⟩
    exact ⟨y - y0, by omega, by omega, by omega, hcolumns⟩
  · rintro ⟨r, hl, hh, rfl, hcolumns⟩
    exact ⟨by omega, by omega, hcolumns⟩

/-- Moving the pointer draws the scene with the pointer over it where the pointer was and is. -/
theorem presentCursorMove_draws (scene : Canvas) (fb : FramebufferView)
    (oldCursor newCursor : CursorState) (image : CursorImage) :
    Draws fb (presentCursorMove scene fb oldCursor newCursor image)
      (fun x y => ((cursorRect oldCursor image).unite (cursorRect newCursor image)).Mem x y)
      (composed scene newCursor image) := by
  unfold presentCursorMove
  set rect := (cursorRect oldCursor image).unite (cursorRect newCursor image) with hrect
  set c := clampRect rect fb.width fb.height with hc
  have hmem : ∀ {x y : ℕ}, x < fb.width → y < fb.height → (rect.Mem x y ↔ c.Mem x y) := by
    intro x y hx hy
    rw [hc, mem_clampRect]
    exact ⟨fun h => ⟨h, by omega, by omega, by omega, by omega⟩, fun h => h.1⟩
  by_cases he : c.empty = true
  · simp only [he, if_true]
    refine ⟨rfl, rfl, ?_, fun _ _ _ _ _ => rfl⟩
    intro x y hx hy hr
    exact absurd ((hmem hx hy).1 hr) (not_mem_of_empty he x y)
  · have hb := clampRect_bounds rect fb.width fb.height (by simpa using he)
    rw [← hc] at hb
    rw [if_neg he]
    refine ⟨rfl, rfl, ?_, ?_⟩
    · intro x y hx hy hr
      have hin := (hmem hx hy).1 hr
      unfold Rect.Mem at hin
      exact (composedBlock_apply (by omega) hx).trans (if_pos (by omega))
    · intro x y hx hy hr
      have hout : ¬c.Mem x y := fun h => hr ((hmem hx hy).2 h)
      unfold Rect.Mem at hout
      exact (composedBlock_apply (by omega) hx).trans (if_neg (by omega))

omit [Ui] [LawfulRects]

/-- Away from the pointer the scene shows without its alpha. -/
theorem composed_of_not_mem [LawfulColors] (scene : Canvas) {cursor : CursorState}
    {image : CursorImage} {x y : ℕ} (h : ¬(cursorRect cursor image).Mem x y) :
    composed scene cursor image x y = scene.at x y &&& rgbMask := by
  unfold composed
  simp only
  rw [if_neg]
  · exact LawfulColors.word_fromWord _
  · rintro ⟨hready, h1, h2, h3, h4⟩
    apply h
    unfold cursorRect Rect.Mem
    rw [if_pos hready]
    simp only
    omega

end Draws

end IUserApps.Compositor
