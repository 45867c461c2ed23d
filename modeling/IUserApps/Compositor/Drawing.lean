import IUserApps.Compositor.Present
import IUserApps.Pictures

/-!
# Canvas calls

What the compositor draws its scene with: the calls of `ui::Canvas`. The interface library is not
part of this repository, so `UiCanvas` has what each call makes of a pixel, and
`CanvasCall.stroke` says where: a call changes the pixels of its rectangle and no others, and of
these only the ones that its canvas's clip has (`drawCalls_at`). A drawing function of the source is
here the list of the calls it makes.
-/

namespace IUserApps.Compositor

open Pictures

/-- A calendar date and time of `std::Time`. -/
structure DateTime where
  year : ℕ
  month : ℕ
  day : ℕ
  hour : ℕ
  minute : ℕ
deriving DecidableEq, Repr

/-- What of the theme the compositor draws with. -/
structure Theme (Color Font : Type) where
  accent : Color
  accentText : Color
  accentLight : Color
  text : Color
  textDim : Color
  textUnfocused : Color
  border : Color
  tooltip : Color
  window : Color
  danger : Color
  faceHover : Color
  fontMedium : Font
  fontSmall : Font

/-- Where a text stands in its rectangle, from side to side; it is always in the middle from top to
bottom. -/
inductive Align
  | left
  | center
  | right
deriving DecidableEq, Repr

/-- The libraries' functions that drawing uses. -/
class UiCanvas extends UiColors where
  Font : Type
  Image : Type
  /-- `Rect::bottom`. -/
  bottom : Rect → ℤ
  /-- `Rect::inset`. -/
  inset : Rect → ℤ → Rect
  /-- `Font::valid`. -/
  fontValid : Font → Bool
  /-- `Image::valid`. -/
  imageValid : Image → Bool
  imageWidth : Image → ℤ
  imageHeight : Image → ℤ
  rgb : ℕ → Color
  rgba : ℕ → ℕ → Color
  theme : Theme Color Font
  /-- `Time::time_string`. -/
  timeString : DateTime → String
  /-- The word that `Canvas::gradient` of a rectangle from the first colour down to the second puts
  in a place. -/
  gradientAt : Rect → Color → Color → ℤ → ℤ → BitVec 32
  /-- What `Canvas::fill` makes of a word. -/
  fillWord : Color → BitVec 32 → BitVec 32
  /-- What `Canvas::fill_rounded` makes of a place's word. -/
  roundedAt : Rect → ℤ → Color → ℤ → ℤ → BitVec 32 → BitVec 32
  /-- What `Canvas::frame` makes of a place's word. -/
  frameAt : Rect → Color → ℤ → ℤ → ℤ → ℤ → BitVec 32 → BitVec 32
  /-- What `Canvas::text` makes of a place's word. -/
  textAt : Rect → String → Font → Color → Align → ℤ → ℤ → BitVec 32 → BitVec 32
  /-- What `Canvas::image` makes of a word under a column and a row of the image. -/
  imageAt : Image → ℤ → ℤ → BitVec 32 → BitVec 32
  /-- The word that `Canvas::copy` makes of a word of its source, solid or as it is. -/
  copyWord : Bool → BitVec 32 → BitVec 32
  /-- What `Canvas::blend_pixel` makes of a word. -/
  blendWord : Color → ℕ → BitVec 32 → BitVec 32

/-- The rows of a rectangle, from the top. -/
def rows (area : Rect) : List ℤ := (List.range area.height.toNat).map fun (k : ℕ) => area.y + k

/-- The rows of an area are those between its top and its bottom. -/
theorem mem_rows {area : Rect} {y : ℤ} : y ∈ rows area ↔ area.y ≤ y ∧ y < area.y + area.height := by
  simp only [rows, List.mem_map, List.mem_range]
  constructor
  · rintro ⟨k, hk, rfl⟩
    omega
  · rintro ⟨hlo, hhi⟩
    exact ⟨(y - area.y).toNat, by omega, by omega⟩

/-- No row of an area comes twice. -/
theorem rows_nodup (area : Rect) : (rows area).Nodup :=
  List.nodup_range.map fun k l h => by simpa using h

section Shapes

variable [UiCanvas]

/-- One past the last row. -/
def Rect.bottom (r : Rect) : ℤ := UiCanvas.bottom r

/-- The rectangle with each side moved in. -/
def Rect.inset (r : Rect) (by' : ℤ) : Rect := UiCanvas.inset r by'

/-- What the interface library's rectangles and rounded corners do: a rounded rectangle lies in its
rectangle, has all of the columns between its corners, and has no gap in a row. -/
class LawfulShapes [Ui] : Prop where
  right_eq : ∀ r : Rect, r.right = r.x + r.width
  bottom_eq : ∀ r : Rect, r.bottom = r.y + r.height
  offset_eq : ∀ (r : Rect) (dx dy : ℤ), r.offset dx dy = ⟨r.x + dx, r.y + dy, r.width, r.height⟩
  inset_eq : ∀ (r : Rect) (d : ℤ), r.inset d = ⟨r.x + d, r.y + d, r.width - 2 * d, r.height - 2 * d⟩
  mem_of_rounded : ∀ (r : Rect) (radius x y : ℤ), Ui.inRoundedRect r radius x y = true → r.Mem x y
  rounded_noGaps : ∀ (r : Rect) (radius y : ℤ), NoGaps fun x => Ui.inRoundedRect r radius x y
  rounded_middle : ∀ (r : Rect) (radius x y : ℤ), 0 ≤ radius → r.Mem x y → r.x + radius ≤ x →
    x < r.x + r.width - radius → Ui.inRoundedRect r radius x y = true

/-- A call of the canvas. -/
inductive CanvasCall
  | gradient (rect : Rect) (top bottom : UiColors.Color)
  | fill (rect : Rect) (color : UiColors.Color)
  | fillRounded (rect : Rect) (radius : ℤ) (color : UiColors.Color)
  | frame (rect : Rect) (color : UiColors.Color) (thickness radius : ℤ)
  | text (rect : Rect) (text : String) (font : UiCanvas.Font) (color : UiColors.Color)
      (align : Align)
  | image (icon : UiCanvas.Image) (x y : ℤ)
  /-- A part of a picture whose rows are `pitch` words long, to a place. -/
  | copy (source : ℕ → BitVec 32) (pitch : ℤ) (part : Rect) (x y : ℤ) (solid : Bool)
  | blendPixel (x y : ℤ) (color : UiColors.Color) (alpha : ℕ)

namespace CanvasCall

/-- The rectangle that a call draws in. -/
def extent : CanvasCall → Rect
  | gradient rect _ _ => rect
  | fill rect _ => rect
  | fillRounded rect _ _ => rect
  | frame rect _ _ _ => rect
  | text rect _ _ _ _ => rect
  | image icon x y => ⟨x, y, UiCanvas.imageWidth icon, UiCanvas.imageHeight icon⟩
  | copy _ _ part x y _ => ⟨x, y, part.width, part.height⟩
  | blendPixel x y _ _ => ⟨x, y, 1, 1⟩

/-- What a call makes of the word of a place in its rectangle. -/
def inside : CanvasCall → ℤ × ℤ → BitVec 32 → BitVec 32
  | gradient rect top bottom, p, _ => UiCanvas.gradientAt rect top bottom p.1 p.2
  | fill _ color, _, w => UiCanvas.fillWord color w
  | fillRounded rect radius color, p, w => UiCanvas.roundedAt rect radius color p.1 p.2 w
  | frame rect color thickness radius, p, w =>
    UiCanvas.frameAt rect color thickness radius p.1 p.2 w
  | text rect s font color align, p, w => UiCanvas.textAt rect s font color align p.1 p.2 w
  | image icon x y, p, w => UiCanvas.imageAt icon (p.1 - x) (p.2 - y) w
  | copy source pitch part x y solid, p, _ =>
    UiCanvas.copyWord solid
      (source ((part.y + (p.2 - y)) * pitch + (part.x + (p.1 - x))).toNat)
  | blendPixel _ _ color alpha, _, w => UiCanvas.blendWord color alpha w

/-- What a call makes of the word of a place. -/
def stroke (call : CanvasCall) (p : ℤ × ℤ) (w : BitVec 32) : BitVec 32 :=
  if call.extent.Mem p.1 p.2 then call.inside p w else w

end CanvasCall

/-- The column and the row of a word of a canvas. -/
def PixelView.place (canvas : Canvas) (i : ℕ) : ℤ × ℤ :=
  (((i % canvas.pitch : ℕ) : ℤ), ((i / canvas.pitch : ℕ) : ℤ))

/-- Calls on a canvas with a clip. -/
def drawCalls (canvas : Canvas) (clip : Rect) (calls : List CanvasCall) : Canvas :=
  { canvas with
    pixels := paintAll (fun call i => CanvasCall.stroke call (canvas.place i))
      (fun i => i % canvas.pitch < canvas.width ∧ i / canvas.pitch < canvas.height ∧
        clip.Mem (canvas.place i).1 (canvas.place i).2) calls canvas.pixels }

end Shapes

section Calls

variable [UiCanvas] {calls calls' : List CanvasCall} {p : ℤ × ℤ}

/-- The word that calls leave at a place. -/
abbrev wordAt (calls : List CanvasCall) (p : ℤ × ℤ) (w : BitVec 32) : BitVec 32 :=
  colorAt CanvasCall.stroke calls p w

/-- Calls in sequence colour a point with the first calls and then with the others. -/
theorem wordAt_append (w : BitVec 32) :
    wordAt (calls ++ calls') p w = wordAt calls' p (wordAt calls p w) := colorAt_append w

/-- Calls that all miss a point leave its word. -/
theorem wordAt_of_misses (h : ∀ call ∈ calls, Misses CanvasCall.stroke call p) (w : BitVec 32) :
    wordAt calls p w = w := colorAt_of_misses h w

/-- Two drawings leave a place the same word. -/
abbrev DrawSame (p : ℤ × ℤ) (calls calls' : List CanvasCall) : Prop :=
  SameAt CanvasCall.stroke p calls calls'

/-- The place, in a canvas of this size. -/
def PixelView.Has (canvas : Canvas) (x y : ℕ) : Prop := x < canvas.width ∧ y < canvas.height

/-- Calls leave each place of the clip the word of their strokes, and the others alone. -/
theorem drawCalls_at (canvas : Canvas) (clip : Rect) (calls : List CanvasCall) {x y : ℕ}
    (h : canvas.Has x y) :
    (drawCalls canvas clip calls).at x y =
      if clip.Mem x y then wordAt calls ((x : ℤ), (y : ℤ)) (canvas.at x y) else canvas.at x y := by
  obtain ⟨hx, hy⟩ := h
  have hpitch := canvas.width_le
  obtain ⟨hrow, hcolumn⟩ := place_div_mod y (show x < canvas.pitch by omega)
  have hplace : canvas.place (y * canvas.pitch + x) = ((x : ℤ), (y : ℤ)) := by
    rw [PixelView.place, hrow, hcolumn]
  show paintAll _ _ calls canvas.pixels (y * canvas.pitch + x) = _
  rw [paintAll_apply, colorAt_place, hplace, hrow, hcolumn]
  simp only [hx, hy, true_and]
  rfl

/-- A call misses what is not in its rectangle. -/
theorem misses_of_not_mem {call : CanvasCall} (h : ¬call.extent.Mem p.1 p.2) :
    Misses CanvasCall.stroke call p := fun _ => if_neg h

/-- A gradient or a copy covers its rectangle. -/
theorem covers_of_mem {call : CanvasCall} (h : call.extent.Mem p.1 p.2)
    (hcall : (∃ rect top bottom, call = .gradient rect top bottom) ∨
      ∃ source pitch part x y solid, call = .copy source pitch part x y solid) :
    Covers CanvasCall.stroke call p := by
  intro w w'
  unfold CanvasCall.stroke
  rw [if_pos h, if_pos h]
  obtain ⟨rect, top, bottom, rfl⟩ | ⟨source, pitch, part, x, y, solid, rfl⟩ := hcall
  · rfl
  · rfl

/-- The calls draw in a region. -/
def DrawIn (region : ℤ → ℤ → Prop) (calls : List CanvasCall) : Prop :=
  ∀ call ∈ calls, ∀ x y, call.extent.Mem x y → region x y

namespace DrawIn

variable {region region' : ℤ → ℤ → Prop}

/-- No calls draw anywhere. -/
theorem nil : DrawIn region [] := fun _ h => absurd h List.not_mem_nil

/-- Calls that stay in a region do so one list after the other. -/
theorem append (h : DrawIn region calls) (h' : DrawIn region calls') :
    DrawIn region (calls ++ calls') :=
  fun call hcall => (List.mem_append.1 hcall).elim (h call) (h' call)

/-- A call that stays in a region may come first. -/
theorem cons {call : CanvasCall} (h : ∀ x y, call.extent.Mem x y → region x y)
    (h' : DrawIn region calls) : DrawIn region (call :: calls) := by
  intro c hc
  rcases List.mem_cons.1 hc with rfl | hc
  · exact h
  · exact h' c hc

/-- One call that stays in a region. -/
theorem singleton {call : CanvasCall} (h : ∀ x y, call.extent.Mem x y → region x y) :
    DrawIn region [call] := cons h nil

/-- Parts that each stay in a region do so together. -/
theorem flatMap {κ : Type*} {f : κ → List CanvasCall} {parts : List κ}
    (h : ∀ k ∈ parts, DrawIn region (f k)) : DrawIn region (parts.flatMap f) := by
  intro call hcall
  obtain ⟨k, hk, hcall⟩ := List.mem_flatMap.1 hcall
  exact h k hk call hcall

/-- Calls that stay in a region stay in a larger one. -/
theorem mono (h : DrawIn region calls) (hle : ∀ x y, region x y → region' x y) :
    DrawIn region' calls :=
  fun call hcall x y hmem => hle x y (h call hcall x y hmem)

/-- Calls that draw in a region miss the places outside. -/
theorem misses (h : DrawIn region calls) (hp : ¬region p.1 p.2) :
    ∀ call ∈ calls, Misses CanvasCall.stroke call p :=
  fun call hcall => misses_of_not_mem fun hmem => hp (h call hcall _ _ hmem)

/-- Outside their region two drawings are the same. -/
theorem drawSame (h : DrawIn region calls) (h' : DrawIn region calls') (hp : ¬region p.1 p.2) :
    DrawSame p calls calls' := SameAt.of_misses (h.misses hp) (h'.misses hp)

end DrawIn

end Calls

/-! ## A plain library -/

/-- The drawing library with colours that are words: a call puts its colour in every place it draws
in, text and icons are white, and a fill with no alpha draws nothing. -/
abbrev plainCanvas : UiCanvas where
  Color := BitVec 32
  fromWord w := w
  word c := c
  alpha c := (c >>> 24).toNat
  blend below above a := if 128 ≤ a then above else below
  Font := Unit
  Image := Unit
  bottom r := r.y + r.height
  inset r d := ⟨r.x + d, r.y + d, r.width - 2 * d, r.height - 2 * d⟩
  fontValid _ := true
  imageValid _ := false
  imageWidth _ := 0
  imageHeight _ := 0
  rgb c := BitVec.ofNat 32 (0xFF000000 + c)
  rgba c a := BitVec.ofNat 32 (a * 2^24 + c)
  theme := ⟨1, 2, 3, 4, 5, 6, 7, 8, 9, 10, 11, (), ()⟩
  timeString _ := "12:00"
  gradientAt _ top _ _ _ := top
  fillWord c w := if c >>> 24 = 0 then w else c
  roundedAt r radius c x y w := if plainInRoundedRect r radius x y then c else w
  frameAt r c d _ x y w :=
    if r.x + d ≤ x ∧ x < r.x + r.width - d ∧ r.y + d ≤ y ∧ y < r.y + r.height - d then w else c
  textAt _ _ _ c _ _ _ _ := c
  imageAt _ _ _ _ := 0xFFFFFFFF
  copyWord solid w := if solid then w ||| 0xFF000000 else w
  blendWord c a w := if a = 0 then w else c

/-- A row of a plain rounded rectangle has no gap: the distance to the corner's column first falls
and then grows. -/
theorem plainInRoundedRect_noGaps (r : Rect) (radius y : ℤ) :
    NoGaps fun x => plainInRoundedRect r radius x y := by
  intro x z x' hx hx' hxz hzx'
  simp only [plainInRoundedRect, Bool.and_eq_true, decide_eq_true_eq] at hx hx' ⊢
  obtain ⟨hmem, hdist⟩ := hx
  obtain ⟨hmem', hdist'⟩ := hx'
  refine ⟨by omega, ?_⟩
  generalize (y - if y < r.y + radius then r.y + radius else min y (r.y + r.height - radius - 1)) = dy
    at hdist hdist' ⊢
  by_cases hleft : z < r.x + radius
  · -- Left of the corner's column the point before is further off.
    rw [if_pos hleft]
    rw [if_pos (by omega)] at hdist
    have hsquare := Int.mul_self_le_mul_self (show 0 ≤ -(z - (r.x + radius)) by omega)
      (show -(z - (r.x + radius)) ≤ -(x - (r.x + radius)) by omega)
    rw [neg_mul_neg, neg_mul_neg] at hsquare
    omega
  · rw [if_neg hleft]
    rw [if_neg (by omega)] at hdist'
    have hsquare := Int.mul_self_le_mul_self
      (show 0 ≤ z - min z (r.x + r.width - radius - 1) by omega)
      (show z - min z (r.x + r.width - radius - 1) ≤ x' - min x' (r.x + r.width - radius - 1) by
        omega)
    omega

/-- The plain library's shapes are lawful. -/
theorem plainCanvas_lawful : @LawfulShapes plainCanvas plainUi := by
  refine @LawfulShapes.mk plainCanvas plainUi (fun _ => rfl) (fun _ => rfl) (fun _ _ _ => rfl)
    (fun _ _ => rfl) ?_ plainInRoundedRect_noGaps ?_
  · intro r radius x y h
    have h' : plainInRoundedRect r radius x y = true := h
    simp only [plainInRoundedRect, Bool.and_eq_true, decide_eq_true_eq] at h'
    exact h'.1
  · intro r radius x y hradius hmem hx hx'
    show plainInRoundedRect r radius x y = true
    simp only [plainInRoundedRect, Bool.and_eq_true, decide_eq_true_eq]
    refine ⟨hmem, ?_⟩
    simp only [Rect.Mem] at hmem
    have hcolumn : min x (r.x + r.width - radius - 1) = x := by omega
    rw [if_neg (by omega), hcolumn, sub_self, zero_mul, zero_add]
    by_cases htop : y < r.y + radius
    · rw [if_pos htop]
      have hsquare := Int.mul_self_le_mul_self (show 0 ≤ -(y - (r.y + radius)) by omega)
        (show -(y - (r.y + radius)) ≤ radius by omega)
      rwa [neg_mul_neg] at hsquare
    · rw [if_neg htop]
      exact Int.mul_self_le_mul_self (by omega) (by omega)

end IUserApps.Compositor
