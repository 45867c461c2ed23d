import IUserApps.Checked
import IUserApps.Compositor.Flip

/-!
# The wallpaper image

`scale_background_image` draws an image into the screen's storage, fitted into the screen and
centred, over a gradient. The height it has at the screen's width is narrowed to 32 bits before it
is compared with the screen's, and the index of an image pixel is an `int`: an index that overflows
reads no pixel. `scalesRight_iff` says for which sizes that does not matter.
-/

namespace IUserApps.Compositor

open Checked Loops

/-- What the interface library does to pixels, besides. -/
class UiImages extends UiColors where
  /-- The colour with this alpha. -/
  withAlpha : Color → ℕ → Color
  /-- The storage of a canvas of this width and height after `Canvas::gradient` over all of it. -/
  gradient : ℕ → ℕ → ℕ → BitVec 32

open UiColors (Color fromWord word alpha blend)
open UiImages (withAlpha gradient)

/-- An image that has been loaded. Its sizes are those of an `int`. -/
structure WallpaperImage [UiColors] where
  width : ℕ
  height : ℕ
  pixels : ℕ → Color
  width_pos : 0 < width
  height_pos : 0 < height
  width_lt : width < 2^31
  height_lt : height < 2^31

/-- The storage for the wallpaper of a screen of this size. -/
structure BackgroundStorage where
  width : ℕ
  height : ℕ
  width_pos : 0 < width
  height_pos : 0 < height
  pixels_lt : width * height < 2^31

section Drawing

variable [UiImages]

/-- Reads the image at an index that is an `int`. -/
def WallpaperImage.read (image : WallpaperImage) (i : ℕ) : Access Color :=
  if i < 2^31 ∧ i < image.width * image.height then .ok (image.pixels i) else .error (.read i)

/-- The pixels with one stored; an index past the screen is an access outside. -/
def BackgroundStorage.write (background : BackgroundStorage) (pixels : ℕ → BitVec 32) (i : ℕ)
    (value : BitVec 32) : Access (ℕ → BitVec 32) :=
  if i < background.width * background.height then .ok (Function.update pixels i value)
  else .error (.write i)

/-- `drawWidth` and `drawHeight`. -/
def drawSize (background : BackgroundStorage) (image : WallpaperImage) : ℕ × ℕ :=
  let drawWidth := background.width
  let drawHeight := u32 (image.height * background.width / image.width : ℕ)
  -- Too high at the screen's width: the screen's height decides.
  if background.height < drawHeight then
    (u32 (image.width * background.height / image.height : ℕ), background.height)
  else (drawWidth, drawHeight)

/-- The size of the picture that is drawn, if one is. -/
def drawnSize (background : BackgroundStorage) (image : WallpaperImage) : Option (ℕ × ℕ) :=
  let size := drawSize background image
  if size.1 = 0 ∨ size.2 = 0 then none else some size

/-- An image pixel over a word of the screen. -/
def overlay (dst : BitVec 32) (pixel : Color) : BitVec 32 :=
  if alpha pixel = 255 then word (withAlpha pixel 0xFF)
  else word (blend (fromWord dst) (withAlpha pixel 0xFF) (alpha pixel))

/-- The column or row of the image that is shown `i` places into a picture of so many. -/
def sampled (i imageSize drawSize : ℕ) : ℕ := i * imageSize / drawSize

/-- What is left of the screen before the picture. -/
def drawOffset (screenSize drawSize : ℕ) : ℕ := u32 ((screenSize : ℤ) - drawSize) / 2

/-- The image scaled into the screen's pixels, with the background about it. -/
def scaleBackgroundImage (background : BackgroundStorage) (image : WallpaperImage) :
    Access (ℕ → BitVec 32) :=
  let canvas := gradient background.width background.height
  match drawnSize background image with
  | none => .ok canvas
  | some (drawWidth, drawHeight) =>
    let offsetX := drawOffset background.width drawWidth
    let offsetY := drawOffset background.height drawHeight
    (List.range drawHeight).foldlM (fun pixels y =>
      let srcY := sampled y image.height drawHeight
      (List.range drawWidth).foldlM (fun pixels x => do
        let srcX := sampled x image.width drawWidth
        let pixel ← image.read (srcY * image.width + srcX)
        let place := u32 ((offsetY + y) * background.width + offsetX + x : ℕ)
        background.write pixels place (overlay (pixels place) pixel)) pixels) canvas

/-! ## The picture -/

/-- A picture of this size spans the screen one way, is as long the other way as the image's
proportions have it, rounded down, and lies in the screen. -/
def IsFitted (background : BackgroundStorage) (image : WallpaperImage) (width height : ℕ) : Prop :=
  width ≤ background.width ∧ height ≤ background.height ∧
    (width = background.width ∧ height = image.height * background.width / image.width ∨
      height = background.height ∧ width = image.width * background.height / image.height)

/-- What is left behind is what is left before, or one more. -/
def Centred (screenSize size offset : ℕ) : Prop :=
  offset + size ≤ screenSize ∧ offset ≤ screenSize - (offset + size) ∧
    screenSize - (offset + size) ≤ offset + 1

/-- The picture lies at this place of the screen, over the gradient. -/
def ShowsPicture (background : BackgroundStorage) (image : WallpaperImage) (pixels : ℕ → BitVec 32)
    (left top width height : ℕ) : Prop :=
  ∀ x < background.width, ∀ y < background.height,
    let under := gradient background.width background.height (y * background.width + x)
    pixels (y * background.width + x) =
      if left ≤ x ∧ x < left + width ∧ top ≤ y ∧ y < top + height then
        overlay under (image.pixels (sampled (y - top) image.height height * image.width +
          sampled (x - left) image.width width))
      else under

/-- No pixel outside the image is read and none outside the storage written; the picture is fitted,
centred and shown; and nothing is drawn only when the fitted picture has no pixel. -/
structure ScalesRight (background : BackgroundStorage) (image : WallpaperImage) : Prop where
  none_drawn : drawnSize background image = none →
    ∃ width height, IsFitted background image width height ∧ (width = 0 ∨ height = 0)
  some_drawn : ∀ width height, drawnSize background image = some (width, height) →
    IsFitted background image width height
  safe : ∃ pixels, scaleBackgroundImage background image = .ok pixels ∧
    (drawnSize background image = none → pixels = gradient background.width background.height) ∧
    ∀ width height, drawnSize background image = some (width, height) →
      ∃ left top, Centred background.width width left ∧ Centred background.height height top ∧
        ShowsPicture background image pixels left top width height

/-! ## Sizes -/

/-- The size of the picture without narrowing. -/
def fitted (background : BackgroundStorage) (image : WallpaperImage) : ℕ × ℕ :=
  let height := image.height * background.width / image.width
  if height ≤ background.height then (background.width, height)
  else (image.width * background.height / image.height, background.height)

variable (background : BackgroundStorage) (image : WallpaperImage)

/-- At the screen's height a picture too high at its width is narrower than the screen. -/
theorem width_lt_of_high
    (h : background.height < image.height * background.width / image.width) :
    image.width * background.height / image.height < background.width := by
  have hmul := (Nat.le_div_iff_mul_le image.width_pos).1 h
  refine Nat.div_lt_of_lt_mul ?_
  calc image.width * background.height
      = background.height * image.width := Nat.mul_comm _ _
    _ < (background.height + 1) * image.width :=
        Nat.mul_lt_mul_of_pos_right (Nat.lt_succ_self _) image.width_pos
    _ ≤ image.height * background.width := hmul

omit [UiImages] in
/-- The screen's sides are below `2^31`. -/
theorem screen_lt : background.width < 2^31 ∧ background.height < 2^31 := by
  have h := background.pixels_lt
  have hw := Nat.le_mul_of_pos_right background.width background.height_pos
  have hh := Nat.le_mul_of_pos_left background.height background.width_pos
  omega

/-- The computed size is the largest that fits the screen in the image's proportion. -/
theorem isFitted_fitted :
    IsFitted background image (fitted background image).1 (fitted background image).2 := by
  unfold fitted
  dsimp only
  split
  · next h => exact ⟨Nat.le_refl _, h, Or.inl ⟨rfl, rfl⟩⟩
  · next h =>
    have hlt := width_lt_of_high background image (Nat.lt_of_not_le h)
    exact ⟨Nat.le_of_lt hlt, Nat.le_refl _, Or.inr ⟨rfl, rfl⟩⟩

/-- The narrowed height compares with the screen's as the height itself does. -/
theorem drawSize_eq (h : image.height * background.width / image.width < 2^32 ∨
    background.height < image.height * background.width / image.width % 2^32) :
    drawSize background image = fitted background image := by
  obtain ⟨hw, hh⟩ := screen_lt background
  have hlt := width_lt_of_high background image
  unfold drawSize fitted
  dsimp only
  rw [u32_natCast, u32_natCast]
  generalize image.height * background.width / image.width = full at *
  by_cases hhigh : background.height < full
  · have hmod : image.width * background.height / image.height % 2^32 =
        image.width * background.height / image.height := Nat.mod_eq_of_lt (by
      have := hlt hhigh
      omega)
    rw [if_pos (by omega), if_neg (by omega), hmod]
  · rw [if_neg (by omega), if_pos (by omega), Nat.mod_eq_of_lt (by omega)]

/-- Otherwise the picture has the screen's width and what the narrowing leaves of its height. -/
theorem drawSize_narrowed
    (hle : image.height * background.width / image.width % 2^32 ≤ background.height) :
    drawSize background image =
      (background.width, image.height * background.width / image.width % 2^32) := by
  unfold drawSize
  dsimp only
  rw [u32_natCast, if_neg (by omega)]

/-- The sizes for which the narrowing does no harm: the height at the screen's width is not
narrowed, or narrowed to one that is too high as well, or to none where the fitted picture has no
pixel. -/
def NarrowingHarmless : Prop :=
  image.height * background.width / image.width < 2^32 ∨
    background.height < image.height * background.width / image.width % 2^32 ∨
    image.height * background.width / image.width % 2^32 = 0 ∧
      image.width * background.height / image.height = 0

/-- The picture drawn is the fitted one, exactly for these sizes. -/
theorem fitted_drawn_iff :
    (∀ width height, drawnSize background image = some (width, height) →
        IsFitted background image width height) ∧
      (drawnSize background image = none →
        ∃ width height, IsFitted background image width height ∧ (width = 0 ∨ height = 0)) ↔
    NarrowingHarmless background image := by
  obtain ⟨hw, hh⟩ := screen_lt background
  have hfitted := isFitted_fitted background image
  by_cases hsize : image.height * background.width / image.width < 2^32 ∨
      background.height < image.height * background.width / image.width % 2^32
  · refine iff_of_true ?_ (hsize.imp_right Or.inl)
    unfold drawnSize
    rw [drawSize_eq background image hsize]
    dsimp only
    split
    · next hzero => exact ⟨fun _ _ h => (nomatch h), fun _ => ⟨_, _, hfitted, hzero⟩⟩
    · refine ⟨fun width height h => ?_, fun h => (nomatch h)⟩
      obtain ⟨rfl, rfl⟩ := Prod.mk.inj (Option.some.inj h)
      exact hfitted
  · obtain ⟨hlow, hle⟩ := not_or.1 hsize
    have hhigh : background.height < image.height * background.width / image.width := by omega
    have hother := width_lt_of_high background image hhigh
    have hsize' := drawSize_narrowed background image (Nat.le_of_not_lt hle)
    have hwidth := background.width_pos
    have hheight := background.height_pos
    -- A fitted picture has the screen's height.
    have hspans : ∀ width height, IsFitted background image width height →
        height = background.height ∧ width = image.width * background.height / image.height := by
      rintro width height ⟨-, hin, ⟨-, hfull⟩ | hspan⟩
      · omega
      · exact hspan
    unfold drawnSize NarrowingHarmless
    rw [hsize']
    dsimp only
    by_cases hnone : image.height * background.width / image.width % 2^32 = 0
    · rw [if_pos (Or.inr hnone)]
      constructor
      · rintro ⟨-, h⟩
        obtain ⟨width, height, hin, hzero⟩ := h rfl
        obtain ⟨hheight', hwidth'⟩ := hspans width height hin
        exact Or.inr (Or.inr ⟨hnone, by omega⟩)
      · rintro (h | h | ⟨-, hzero⟩)
        · exact absurd h hlow
        · exact absurd h hle
        · exact ⟨fun _ _ h => (nomatch h), fun _ => ⟨_, _,
            ⟨Nat.le_of_lt hother, Nat.le_refl _, Or.inr ⟨rfl, rfl⟩⟩, Or.inl hzero⟩⟩
    · rw [if_neg (by omega)]
      refine iff_of_false (fun h => ?_) ?_
      · obtain ⟨-, hwidth'⟩ := hspans _ _ (h.1 _ _ rfl)
        omega
      · rintro (h | h | ⟨hzero, -⟩)
        · exact hlow h
        · exact hle h
        · exact hnone hzero

/-! ## The loops -/

/-- The index of the last pixel that is read for a picture of this size. -/
def lastRead (width height : ℕ) : ℕ :=
  sampled (height - 1) image.height height * image.width + sampled (width - 1) image.width width

omit [UiImages] in
/-- A sample lies in the image. -/
theorem sampled_lt {i imageSize size : ℕ} (hi : i < size) (hpos : 0 < imageSize) :
    sampled i imageSize size < imageSize := by
  unfold sampled
  exact Nat.div_lt_of_lt_mul (Nat.mul_lt_mul_of_pos_right hi hpos)

omit [UiImages] in
/-- Samples go up with the places they are of. -/
theorem sampled_mono {i j : ℕ} (h : i ≤ j) (imageSize size : ℕ) :
    sampled i imageSize size ≤ sampled j imageSize size :=
  Nat.div_le_div_right (Nat.mul_le_mul_right imageSize h)

/-- Every pixel that is read is in the image. -/
theorem read_lt {x y width height : ℕ} (hx : x < width) (hy : y < height) :
    sampled y image.height height * image.width + sampled x image.width width <
      image.width * image.height := by
  have hrow := sampled_lt hy image.height_pos
  have hcol := sampled_lt hx image.width_pos
  calc sampled y image.height height * image.width + sampled x image.width width
      < sampled y image.height height * image.width + image.width := by omega
    _ = (sampled y image.height height + 1) * image.width := (Nat.succ_mul _ _).symm
    _ ≤ image.height * image.width := Nat.mul_le_mul_right _ hrow
    _ = image.width * image.height := Nat.mul_comm _ _

/-- No read lies past the last one. -/
theorem read_le_lastRead {x y width height : ℕ} (hx : x < width) (hy : y < height) :
    sampled y image.height height * image.width + sampled x image.width width ≤
      lastRead image width height := by
  have hrow : sampled y image.height height ≤ sampled (height - 1) image.height height :=
    sampled_mono (by omega) _ _
  have hcol : sampled x image.width width ≤ sampled (width - 1) image.width width :=
    sampled_mono (by omega) _ _
  exact Nat.add_le_add (Nat.mul_le_mul_right _ hrow) hcol

omit [UiImages] in
/-- The image is drawn in the middle. -/
theorem centred_drawOffset {screenSize size : ℕ} (hsize : size ≤ screenSize)
    (hscreen : screenSize < 2^31) : Centred screenSize size (drawOffset screenSize size) := by
  unfold Centred drawOffset u32
  omega

/-- What drawing does to a place of the picture. -/
def drawAt (left top width height k : ℕ) (old : BitVec 32) : BitVec 32 :=
  overlay old (image.pixels
    (sampled (k / background.width - top) image.height height * image.width +
      sampled (k % background.width - left) image.width width))

/-- A pass of the inner loop draws one place, when its read does not overflow. -/
theorem drawPixel {left top width height x y : ℕ} (hleft : left + width ≤ background.width)
    (htop : top + height ≤ background.height) (hx : x < width) (hy : y < height)
    (hread : lastRead image width height < 2^31) (pixels : ℕ → BitVec 32) :
    ∃ pixels', (do
        let pixel ← image.read (sampled y image.height height * image.width +
          sampled x image.width width)
        let place := u32 ((top + y) * background.width + left + x : ℕ)
        background.write pixels place (overlay (pixels place) pixel)) = .ok pixels' ∧
      ∀ k, pixels' k = if k = (top + y) * background.width + (left + x) then
        drawAt background image left top width height k (pixels k) else pixels k := by
  have hlast := read_le_lastRead image hx hy
  have hin := read_lt image hx hy
  have hplace : (top + y) * background.width + (left + x) <
      background.width * background.height := place_lt (by omega) (by omega)
  have hpixels := background.pixels_lt
  -- The place on the screen does not wrap: its storage is smaller.
  have hwrap : u32 ((top + y) * background.width + left + x : ℕ) =
      (top + y) * background.width + (left + x) := by
    rw [u32_natCast, Nat.add_assoc, Nat.mod_eq_of_lt (by omega)]
  obtain ⟨hrow, hcolumn⟩ := place_div_mod (top + y)
    (by omega : left + x < background.width)
  unfold WallpaperImage.read BackgroundStorage.write
  rw [if_pos ⟨by omega, hin⟩, ok_bind]
  dsimp only
  rw [hwrap, if_pos hplace]
  refine ⟨_, rfl, fun k => ?_⟩
  rw [Function.update_apply]
  split
  · next hk =>
    unfold drawAt
    rw [hk, hrow, hcolumn, Nat.add_sub_cancel_left, Nat.add_sub_cancel_left]
  · rfl

omit [UiImages] in
/-- A place is one of a row of the picture. -/
theorem row_place_iff {left width : ℕ} (hleft : left + width ≤ background.width) (row k : ℕ) :
    (∃ x < width, k = row * background.width + (left + x)) ↔
      k / background.width = row ∧ left ≤ k % background.width ∧
        k % background.width < left + width := by
  constructor
  · rintro ⟨x, hx, rfl⟩
    obtain ⟨hrow, hcolumn⟩ := place_div_mod row
      (by omega : left + x < background.width)
    omega
  · rintro ⟨rfl, hlo, hhi⟩
    refine ⟨k % background.width - left, by omega, ?_⟩
    rw [Nat.add_sub_cancel' hlo, Nat.div_add_mod']

/-- A pass of the outer loop draws one row. -/
theorem drawRow {left top width height y : ℕ} (hleft : left + width ≤ background.width)
    (htop : top + height ≤ background.height) (hy : y < height)
    (hread : lastRead image width height < 2^31) (pixels : ℕ → BitVec 32) :
    ∃ pixels', (List.range width).foldlM (fun pixels x => do
        let pixel ← image.read (sampled y image.height height * image.width +
          sampled x image.width width)
        let place := u32 ((top + y) * background.width + left + x : ℕ)
        background.write pixels place (overlay (pixels place) pixel)) pixels = .ok pixels' ∧
      ∀ k, pixels' k = if k / background.width = top + y ∧ left ≤ k % background.width ∧
          k % background.width < left + width then
        drawAt background image left top width height k (pixels k) else pixels k := by
  -- No two columns draw one place.
  obtain ⟨pixels', hloop, hplaces⟩ := foldlM_range_once (s := pixels)
    (fun x hx t => drawPixel background image hleft htop hx hy hread t)
    (fun i j k hi hj => by omega)
  refine ⟨pixels', hloop, fun k => ?_⟩
  obtain ⟨hdrawn, hleft'⟩ := hplaces k
  rw [row_place_iff background hleft] at hdrawn hleft'
  split
  · next h => exact hdrawn h
  · next h => exact hleft' h

/-- The picture that is drawn is shown, when no read overflows. -/
theorem draws_picture {width height : ℕ} (hsize : drawnSize background image = some (width, height))
    (hwidth : width ≤ background.width) (hheight : height ≤ background.height)
    (hread : lastRead image width height < 2^31) :
    ∃ pixels, scaleBackgroundImage background image = .ok pixels ∧
      ShowsPicture background image pixels (drawOffset background.width width)
        (drawOffset background.height height) width height := by
  obtain ⟨hscreenWidth, hscreenHeight⟩ := screen_lt background
  obtain ⟨hleft, -⟩ := centred_drawOffset hwidth hscreenWidth
  obtain ⟨htop, -⟩ := centred_drawOffset hheight hscreenHeight
  unfold scaleBackgroundImage
  rw [hsize]
  dsimp only
  generalize drawOffset background.width width = left at *
  generalize drawOffset background.height height = top at *
  -- No two rows draw one place.
  obtain ⟨pixels, hloop, hplaces⟩ := foldlM_range_once
    (s := gradient background.width background.height)
    (fun y hy t => drawRow background image hleft htop hy hread t)
    (fun i j k hi hj => by omega)
  refine ⟨pixels, hloop, fun x hx y hy => ?_⟩
  obtain ⟨hrow, hcolumn⟩ := place_div_mod y hx
  obtain ⟨hdrawn, hunder⟩ := hplaces (y * background.width + x)
  unfold drawAt at hdrawn
  rw [hrow, hcolumn] at hdrawn hunder
  dsimp only
  split
  · -- A place of the picture is drawn in its row's pass.
    next h => exact hdrawn ⟨y - top, by omega, by omega, by omega, by omega⟩
  · next h =>
    refine hunder ?_
    rintro ⟨i, hi, hy', hx'⟩
    omega

/-- A picture whose last read overflows is not drawn. -/
theorem overflow_error {width height : ℕ}
    (hsize : drawnSize background image = some (width, height))
    (hread : 2^31 ≤ lastRead image width height) :
    ∃ fault, scaleBackgroundImage background image = .error fault := by
  obtain ⟨hwidth, hheight⟩ : width ≠ 0 ∧ height ≠ 0 := by
    unfold drawnSize at hsize
    dsimp only at hsize
    split at hsize
    · exact nomatch hsize
    · next h =>
      rw [Option.some.inj hsize] at h
      exact not_or.1 h
  unfold scaleBackgroundImage
  rw [hsize]
  -- The last pixel of the last row cannot be read.
  refine foldlM_error (i := height - 1) (List.mem_range.2 (by omega)) (fun pixels => ?_) _
  refine foldlM_error (i := width - 1) (List.mem_range.2 (by omega)) (fun pixels => ?_) _
  have hno : image.read (lastRead image width height) = .error (.read _) :=
    if_neg fun h => absurd h.1 (Nat.not_lt.2 hread)
  exact error_bind ⟨_, hno⟩

/-- What is drawn where the narrowing does no harm. -/
theorem drawn_of_harmless (h : NarrowingHarmless background image) :
    drawnSize background image =
      if (fitted background image).1 = 0 ∨ (fitted background image).2 = 0 then none
      else some (fitted background image) := by
  by_cases hsize : image.height * background.width / image.width < 2^32 ∨
      background.height < image.height * background.width / image.width % 2^32
  · unfold drawnSize
    rw [drawSize_eq background image hsize]
  · -- Narrowed to no row at all, where the fitted picture has no column.
    obtain ⟨hlow, hle⟩ := not_or.1 hsize
    obtain ⟨hnone, hother⟩ := (h.resolve_left hlow).resolve_left hle
    have hheight := (screen_lt background).2
    have hfitted : fitted background image =
        (image.width * background.height / image.height, background.height) := by
      unfold fitted
      exact if_neg (by omega)
    unfold drawnSize
    rw [drawSize_narrowed background image (Nat.le_of_not_lt hle), hfitted]
    dsimp only
    rw [if_pos (Or.inr hnone), if_pos (Or.inl hother)]

/-- The image is scaled right exactly when the narrowing of its height at the screen's width does no
harm and, unless the fitted picture has no pixel, the last index read is that of an `int`. -/
theorem scalesRight_iff :
    ScalesRight background image ↔
      NarrowingHarmless background image ∧
        ((fitted background image).1 = 0 ∨ (fitted background image).2 = 0 ∨
          lastRead image (fitted background image).1 (fitted background image).2 < 2^31) := by
  obtain ⟨hscreenWidth, hscreenHeight⟩ := screen_lt background
  constructor
  · intro h
    have hharmless := (fitted_drawn_iff background image).1 ⟨h.some_drawn, h.none_drawn⟩
    refine ⟨hharmless, or_assoc.1 ?_⟩
    rw [or_iff_not_imp_left]
    intro hsome
    have hdrawn := drawn_of_harmless background image hharmless
    rw [if_neg hsome] at hdrawn
    by_contra hread
    obtain ⟨fault, herror⟩ := overflow_error background image hdrawn (Nat.le_of_not_lt hread)
    obtain ⟨pixels, hok, -⟩ := h.safe
    rw [herror] at hok
    cases hok
  · rintro ⟨hharmless, hread⟩
    obtain ⟨hsome, hnone⟩ := (fitted_drawn_iff background image).2 hharmless
    have hdrawn := drawn_of_harmless background image hharmless
    refine ⟨hnone, hsome, ?_⟩
    split at hdrawn
    · unfold scaleBackgroundImage
      rw [hdrawn]
      exact ⟨_, rfl, fun _ => rfl, fun _ _ h => nomatch h⟩
    · next hpixels =>
      have hlast := (or_assoc.2 hread).resolve_left hpixels
      have hin := isFitted_fitted background image
      obtain ⟨pixels, hok, hshows⟩ := draws_picture background image hdrawn hin.1 hin.2.1 hlast
      refine ⟨pixels, hok, ?_, ?_⟩
      · intro h
        rw [hdrawn] at h
        cases h
      · intro width height h
        rw [hdrawn] at h
        obtain ⟨rfl, rfl⟩ := Prod.mk.inj (Option.some.inj h)
        exact ⟨_, _, centred_drawOffset hin.1 hscreenWidth,
          centred_drawOffset hin.2.1 hscreenHeight, hshows⟩

end Drawing

/-- Colours that are their words, over a black screen. -/
abbrev plainImages : UiImages :=
  { plainColors with
    withAlpha := fun (c : BitVec 32) a => c &&& rgbMask ||| BitVec.ofNat 32 (a * 2^24)
    gradient := fun _ _ _ => 0xFF000000 }

/-- A screen of four by four pixels. -/
def tinyScreen : BackgroundStorage := ⟨4, 4, by decide, by decide, by decide⟩

/-- A white image of one column. -/
def tallImage : @WallpaperImage plainImages.toUiColors :=
  @WallpaperImage.mk plainImages.toUiColors 1 (2^30 + 1) (fun _ => (0xFFFFFFFF : BitVec 32))
    (by decide) (by decide) (by decide) (by decide)

/-- The column is `2^32 + 4` rows at the screen's width, of which the narrowing leaves four: it is
drawn over the whole screen. -/
theorem tallImage_wrong : ¬@ScalesRight plainImages tinyScreen tallImage := by
  intro h
  have hsize : @drawSize plainImages tinyScreen tallImage = (4, 4) :=
    @drawSize_narrowed plainImages tinyScreen tallImage (by decide)
  have hdrawn : @drawnSize plainImages tinyScreen tallImage = some (4, 4) := by
    unfold drawnSize
    rw [hsize]
    rfl
  obtain ⟨-, -, ⟨-, hheight⟩ | ⟨-, hwidth⟩⟩ := @ScalesRight.some_drawn plainImages _ _ h 4 4 hdrawn
  · exact absurd hheight (by decide)
  · exact absurd hwidth (by decide)

end IUserApps.Compositor
