import IUserApps.Compositor.Present
import IUserApps.Pictures
import IUserApps.Terminal.Bounds
import Mathlib.Tactic.Linarith

/-!
# Painting the terminal

`TerminalWindow::on_paint`: the background of the rectangle to paint, the rows that meet it, and the
cursor. The interface library is not part of this repository; `TextCanvas` has what its calls make
of the words of the window, and a canvas draws in the rectangle it was made for only.

Whatever the rectangle, each place of it gets one and the same word, `wordOf` (`paint_word`): the
rows that are left out do not reach it. That word depends on the place's row and, in the cursor's
row, on the cursor (`wordOf_congr`).
-/

namespace IUserApps.Terminal

open Compositor (Rect)
open Pictures

/-- The colour of the cursor. -/
def kColorCursor : Color := 0xf2c14e

/-! ## Rows of cells -/

/-- The rectangle of a cell. -/
def cellRect (size : CellSize) (r c : ℕ) : Rect :=
  ⟨kPaddingX + c * size.cellW, kPaddingY + r * size.lineH, size.cellW, size.lineH⟩

/-- The first row that a rectangle meets. Division truncates, as in the source. -/
def firstRow (size : CellSize) (dirty : Rect) : ℤ :=
  if (dirty.y - kPaddingY).tdiv size.lineH < 0 then 0 else (dirty.y - kPaddingY).tdiv size.lineH

/-- The row after the last one that a rectangle meets. -/
def lastRow (size : CellSize) (dirty : Rect) : ℤ :=
  (dirty.y + dirty.height - kPaddingY + size.lineH - 1).tdiv size.lineH

/-- The rows that `on_paint` goes over, from the first. -/
def paintedRows (size : CellSize) (t : Terminal) (dirty : Rect) : List ℕ :=
  List.range' (firstRow size dirty).toNat
    (min (lastRow size dirty) t.rows - firstRow size dirty).toNat

/-- A row of places lies in a row of cells. -/
def InRow (size : CellSize) (r : ℕ) (y : ℤ) : Prop :=
  kPaddingY + r * size.lineH ≤ y ∧ y < kPaddingY + r * size.lineH + size.lineH

variable {size : CellSize}

/-- A place lies in one row of cells at most. -/
theorem InRow.unique {r r' : ℕ} {y : ℤ} (h : InRow size r y) (h' : InRow size r' y) : r = r' := by
  have hpos := size.lineH_pos
  unfold InRow at h h'
  by_contra hne
  rcases Nat.lt_or_gt_of_ne hne with hlt | hlt
  · have hnext : ((r : ℤ) + 1) * size.lineH ≤ r' * size.lineH :=
      Int.mul_le_mul_of_nonneg_right (by omega) (by omega)
    linarith [h.2, h'.1]
  · have hnext : ((r' : ℤ) + 1) * size.lineH ≤ r * size.lineH :=
      Int.mul_le_mul_of_nonneg_right (by omega) (by omega)
    linarith [h.1, h'.2]

/-- A cell's rectangle lies in its row. -/
theorem cellRect_inRow {r c : ℕ} {x y : ℤ} (h : (cellRect size r c).Mem x y) : InRow size r y := by
  unfold Rect.Mem cellRect at h
  exact ⟨h.2.2.1, h.2.2.2⟩

/-- No row is painted twice. -/
theorem paintedRows_nodup (t : Terminal) (dirty : Rect) : (paintedRows size t dirty).Nodup :=
  List.nodup_range'

/-- A row that meets the rectangle is painted. -/
theorem mem_paintedRows {t : Terminal} {dirty : Rect} {r : ℕ} {x y : ℤ}
    (hmem : dirty.Mem x y) (h : InRow size r y) : r ∈ paintedRows size t dirty ↔ r < t.rows := by
  have hpos := size.lineH_pos
  unfold Rect.Mem at hmem
  obtain ⟨hlo, hhi⟩ := h
  have hfirst : firstRow size dirty ≤ r := by
    unfold firstRow
    split
    · omega
    · next hneg =>
      by_cases hy : dirty.y - kPaddingY < 0
      · have hle := Int.tdiv_le_tdiv hpos (by omega : dirty.y - kPaddingY ≤ 0)
        rw [Int.zero_tdiv] at hle
        omega
      · have hle : (dirty.y - kPaddingY).tdiv size.lineH < r + 1 := by
          rw [Int.tdiv_eq_ediv_of_nonneg (by omega)]
          exact Int.ediv_lt_of_lt_mul hpos (by linarith)
        omega
  have hfirst0 : 0 ≤ firstRow size dirty := by
    unfold firstRow
    split <;> omega
  have hlast : (r : ℤ) < lastRow size dirty := by
    have hnum : ((r : ℤ) + 1) * size.lineH ≤
        dirty.y + dirty.height - kPaddingY + size.lineH - 1 := by linarith
    have hle : (r : ℤ) + 1 ≤ lastRow size dirty := Int.le_tdiv_of_mul_le hpos hnum
    omega
  unfold paintedRows
  rw [List.mem_range'_1]
  omega

/-! ## The calls -/

/-- What the window's canvas makes of the words of the window. -/
class TextCanvas where
  /-- The word of a colour: the colours of `ui::rgb` have no transparency. -/
  word : Color → BitVec 32
  /-- What `Canvas::frame` of a rectangle makes of a place's word. -/
  frameAt : Rect → Color → ℤ → ℤ → BitVec 32 → BitVec 32
  /-- What `Canvas::text` of a character, from a column and a baseline, makes of a place's word. -/
  glyphAt : ℤ → ℤ → Byte → Color → ℤ → ℤ → BitVec 32 → BitVec 32
  /-- `Font::ascent`. -/
  ascent : ℤ

/-- What the window paints from. -/
structure View where
  screen : Terminal
  focused : Bool
  cursorShown : Bool

section Calls

variable [TextCanvas]

/-- A call of the canvas. -/
inductive PaintCall
  | fill (rect : Rect) (color : Color)
  | frame (rect : Rect) (color : Color)
  | text (x baseline : ℤ) (ch : Byte) (color : Color)

/-- What a call makes of a place's word. -/
def PaintCall.stroke : PaintCall → ℤ × ℤ → BitVec 32 → BitVec 32
  | fill rect color, p, w => if rect.Mem p.1 p.2 then TextCanvas.word color else w
  | frame rect color, p, w =>
    if rect.Mem p.1 p.2 then TextCanvas.frameAt rect color p.1 p.2 w else w
  | text x baseline ch color, p, w => TextCanvas.glyphAt x baseline ch color p.1 p.2 w

/-- The character of a cell, in a colour; a space and a zero have none. -/
def glyphCalls (size : CellSize) (r c : ℕ) (ch : Byte) (color : Color) : List PaintCall :=
  if ch = space ∨ ch = 0 then []
  else [.text (cellRect size r c).x ((cellRect size r c).y + TextCanvas.ascent) ch color]

/-- The calls that paint a cell. -/
def cellCalls (size : CellSize) (t : Terminal) (r c : ℕ) : List PaintCall :=
  (if (t.grid r c).bg = kColorBackground then []
    else [.fill (cellRect size r c) (t.grid r c).bg]) ++
    glyphCalls size r c (t.grid r c).ch (t.grid r c).fg

/-- The calls that paint a row. -/
def rowCalls (size : CellSize) (t : Terminal) (r : ℕ) : List PaintCall :=
  (List.range t.cols).flatMap (cellCalls size t r)

/-- The cursor: a block while the window has the focus (blinking), an outline while it does not. -/
def cursorCalls (size : CellSize) (v : View) : List PaintCall :=
  let t := v.screen
  let rect := cellRect size t.cursorRow t.cursorCol
  if v.focused = false then [.frame rect kColorCursor]
  else if v.cursorShown then
    .fill rect kColorCursor ::
      if t.cursorCol < t.cols then
        glyphCalls size t.cursorRow t.cursorCol (t.grid t.cursorRow t.cursorCol).ch kColorBackground
      else []
  else []

/-- `on_paint`. -/
def paintCalls (size : CellSize) (v : View) (dirty : Rect) : List PaintCall :=
  .fill dirty kColorBackground ::
    ((paintedRows size v.screen dirty).flatMap (rowCalls size v.screen) ++ cursorCalls size v)

/-- The word that a place of the window shows: every row, and then the cursor, over the
background. -/
def wordOf (size : CellSize) (v : View) (p : ℤ × ℤ) : BitVec 32 :=
  colorAt PaintCall.stroke
    ((List.range v.screen.rows).flatMap (rowCalls size v.screen) ++ cursorCalls size v) p
    (TextCanvas.word kColorBackground)

/-- No character of the font is higher than a line. -/
class GlyphsFit (size : CellSize) : Prop where
  glyph_row : ∀ (x top : ℤ) (ch : Byte) (color : Color) (px py : ℤ) (w : BitVec 32),
    ¬(top ≤ py ∧ py < top + size.lineH) →
      TextCanvas.glyphAt x (top + TextCanvas.ascent) ch color px py w = w

/-! ## What reaches a row -/

variable {v v' : View} {p : ℤ × ℤ}

/-- A rectangle leaves the points outside it. -/
theorem fill_misses {rect : Rect} (color : Color) (h : ¬rect.Mem p.1 p.2) :
    Misses PaintCall.stroke (.fill rect color) p := fun _ => if_neg h

/-- A character misses the places of the other rows. -/
theorem glyphCalls_misses [GlyphsFit size] {r c : ℕ} (ch : Byte) (color : Color)
    (h : ¬InRow size r p.2) :
    ∀ call ∈ glyphCalls size r c ch color, Misses PaintCall.stroke call p := by
  intro call hcall
  unfold glyphCalls at hcall
  split at hcall
  · simp at hcall
  · rw [List.mem_singleton.1 hcall]
    intro w
    exact @GlyphsFit.glyph_row _ size _ _ (cellRect size r c).y ch color p.1 p.2 w h

/-- A row misses the places of the others. -/
theorem rowCalls_misses [GlyphsFit size] {t : Terminal} {r : ℕ} (h : ¬InRow size r p.2) :
    ∀ call ∈ rowCalls size t r, Misses PaintCall.stroke call p := by
  intro call hcall
  obtain ⟨c, -, hcall⟩ := List.mem_flatMap.1 hcall
  rcases List.mem_append.1 hcall with hfill | hglyph
  · split at hfill
    · simp at hfill
    · rw [List.mem_singleton.1 hfill]
      exact fill_misses _ fun hmem => h (cellRect_inRow hmem)
  · exact glyphCalls_misses _ _ h call hglyph

/-- The cursor misses the places of the rows that it is not in. -/
theorem cursorCalls_misses [GlyphsFit size] (h : ¬InRow size v.screen.cursorRow p.2) :
    ∀ call ∈ cursorCalls size v, Misses PaintCall.stroke call p := by
  have hrect : ¬(cellRect size v.screen.cursorRow v.screen.cursorCol).Mem p.1 p.2 :=
    fun hmem => h (cellRect_inRow hmem)
  intro call hcall
  unfold cursorCalls at hcall
  simp only at hcall
  split at hcall
  · rw [List.mem_singleton.1 hcall]
    exact fun w => if_neg hrect
  · split at hcall
    · rcases List.mem_cons.1 hcall with rfl | hcall
      · exact fill_misses _ hrect
      · split at hcall
        · exact glyphCalls_misses _ _ h call hcall
        · simp at hcall
    · simp at hcall

/-! ## The word of a place -/

/-- Of some rows only the place's own matters. -/
theorem rows_colorAt [GlyphsFit size] {t : Terminal} {rows : List ℕ} (hnodup : rows.Nodup) {r : ℕ}
    (h : InRow size r p.2) (w : BitVec 32) :
    colorAt PaintCall.stroke (rows.flatMap (rowCalls size t)) p w =
      if r ∈ rows then colorAt PaintCall.stroke (rowCalls size t r) p w else w :=
  colorAt_flatMap_one hnodup r (fun _ _ hne => rowCalls_misses fun hin => hne (hin.unique h)) w

/-- Above the first row there is nothing. -/
theorem rows_colorAt_top [GlyphsFit size] {t : Terminal} {rows : List ℕ}
    (h : ∀ r, ¬InRow size r p.2) (w : BitVec 32) :
    colorAt PaintCall.stroke (rows.flatMap (rowCalls size t)) p w = w := by
  refine colorAt_of_misses (fun call hcall => ?_) w
  obtain ⟨r, -, hcall⟩ := List.mem_flatMap.1 hcall
  exact rowCalls_misses (h r) call hcall

/-- Painting a rectangle gives a place of it the word of the whole window there, whatever it had. -/
theorem paint_word [GlyphsFit size] {dirty : Rect} (hmem : dirty.Mem p.1 p.2) (w : BitVec 32) :
    colorAt PaintCall.stroke (paintCalls size v dirty) p w = wordOf size v p := by
  have hfill : PaintCall.stroke (.fill dirty kColorBackground) p w
      = TextCanvas.word kColorBackground := if_pos hmem
  unfold paintCalls wordOf
  rw [colorAt_cons, hfill, colorAt_append, colorAt_append]
  congr 1
  by_cases hrow : ∃ r, InRow size r p.2
  · obtain ⟨r, hr⟩ := hrow
    rw [rows_colorAt (paintedRows_nodup _ _) hr, rows_colorAt List.nodup_range hr]
    simp only [mem_paintedRows hmem hr, List.mem_range]
  · have hnone : ∀ r, ¬InRow size r p.2 := fun r hr => hrow ⟨r, hr⟩
    rw [rows_colorAt_top hnone, rows_colorAt_top hnone]

/-- Two views show the same in a row of cells. -/
structure SameRow (v v' : View) (r : ℕ) : Prop where
  rows : v'.screen.rows = v.screen.rows
  cols : v'.screen.cols = v.screen.cols
  cells : r < v.screen.rows → ∀ c < v.screen.cols, v'.screen.grid r c = v.screen.grid r c
  away : v.screen.cursorRow ≠ r
  away' : v'.screen.cursorRow ≠ r

/-- What a place shows depends on its row of cells; the cursor is in another one. -/
theorem wordOf_congr [GlyphsFit size] (h : ∀ r, InRow size r p.2 → SameRow v v' r)
    (haway : ¬InRow size v.screen.cursorRow p.2) (haway' : ¬InRow size v'.screen.cursorRow p.2) :
    wordOf size v' p = wordOf size v p := by
  unfold wordOf
  rw [colorAt_append, colorAt_append, colorAt_of_misses (cursorCalls_misses haway),
    colorAt_of_misses (cursorCalls_misses haway')]
  by_cases hrow : ∃ r, InRow size r p.2
  · obtain ⟨r, hr⟩ := hrow
    have hsame := h r hr
    rw [rows_colorAt List.nodup_range hr, rows_colorAt List.nodup_range hr]
    simp only [List.mem_range, hsame.rows]
    by_cases hlt : r < v.screen.rows
    · have hcalls : rowCalls size v'.screen r = rowCalls size v.screen r := by
        unfold rowCalls
        rw [hsame.cols]
        refine List.flatMap_congr fun c hc => ?_
        unfold cellCalls
        rw [hsame.cells hlt c (List.mem_range.1 hc)]
      rw [hcalls]
    · rw [if_neg hlt, if_neg hlt]
  · have hnone : ∀ r, ¬InRow size r p.2 := fun r hr => hrow ⟨r, hr⟩
    rw [rows_colorAt_top hnone, rows_colorAt_top hnone]

end Calls

end IUserApps.Terminal
