import IUserApps.Loops
import IUserApps.Words

/-!
# The terminal's grid

The screen of `terminal/src/main.cpp`: a grid of cells with a storage of `kMaxRows` by `kMaxCols`,
of which `rows` by `cols` are in use, the cursor, the colours, the parser's state and the range of
changed rows. Every access to the storage goes through `Terminal.check`, which records in `stray`
that one lay outside it. Positions are `uint32_t` in the source, so sums and differences of them
are taken by `u32`.
-/

namespace IUserApps

namespace Terminal

/-- The columns of pixels beside the text. -/
def kPaddingX : ℤ := 12
/-- The rows of pixels above and below the text. -/
def kPaddingY : ℤ := 12
/-- The rows of the grid. -/
def kMaxRows : ℕ := 120
/-- The columns of the grid. -/
def kMaxCols : ℕ := 300

/-- A colour, as the 24 bits that `ui::rgb` is given. -/
abbrev Color := BitVec 24

/-- The colour behind the text. -/
def kColorBackground : Color := 0x091218
/-- The colour of the text. -/
def kColorDefaultFg : Color := 0xd7f2e6

/-- The eight ANSI colours and their bright variants. -/
def kAnsiColors : List Color :=
  [0x101010, 0xcc5555, 0x66bb66, 0xcccc66, 0x5588cc, 0xbb66bb, 0x66bbbb, 0xd7f2e6,
   0x505050, 0xef798a, 0x85d39a, 0xf2c14e, 0x3ba4d8, 0xc98ad8, 0x66cccc, 0xffffff]

/-- One character cell. -/
structure Cell where
  ch : Byte
  fg : Color
  bg : Color
deriving DecidableEq, Repr

/-- The parser's states. -/
inductive VTParser.State
  | ground
  | escape
  | csi
deriving DecidableEq, Repr

/-- The parser: its state and the parameters of the control sequence being read. -/
structure VTParser where
  state : VTParser.State
  /-- `int params[8]`. -/
  params : ℕ → ℤ
  paramCount : ℕ
  paramStarted : Bool

end Terminal

open Terminal in
/-- The screen. -/
structure Terminal where
  /-- `Cell grid[kMaxRows][kMaxCols]`. -/
  grid : ℕ → ℕ → Cell
  rows : ℕ
  cols : ℕ
  cursorRow : ℕ
  cursorCol : ℕ
  curFg : Color
  curBg : Color
  parser : VTParser
  /-- Rows in `[dirtyTop, dirtyBottom)` changed. -/
  dirtyTop : ℕ
  dirtyBottom : ℕ
  /-- An access has gone outside the storage of `grid`. -/
  stray : Bool

namespace Terminal

open Loops

/-- The character `' '`. -/
def space : Byte := 32

/-- Records whether the storage has a cell at a place. -/
def check (t : Terminal) (r c : ℕ) : Terminal :=
  { t with stray := t.stray || !(decide (r < kMaxRows) && decide (c < kMaxCols)) }

/-- `grid[r][c] = cell`. -/
def setCell (t : Terminal) (r c : ℕ) (cell : Cell) : Terminal :=
  { t.check r c with grid := fun r' c' => if r' = r ∧ c' = c then cell else t.grid r' c' }

/-- Widens the range of changed rows by `[top, bottom)`. -/
def touchRows (t : Terminal) (top bottom : ℕ) : Terminal :=
  if bottom ≤ top then t
  else if t.dirtyBottom ≤ t.dirtyTop then { t with dirtyTop := top, dirtyBottom := bottom }
  else
    { t with
      dirtyTop := if top < t.dirtyTop then top else t.dirtyTop
      dirtyBottom := if t.dirtyBottom < bottom then bottom else t.dirtyBottom }

/-- Marks every row. -/
def touchAll (t : Terminal) : Terminal := touchRows t 0 t.rows

/-- Blanks a row from a column on, in the current colours. -/
def clearRow (t : Terminal) (row fromCol : ℕ) : Terminal :=
  touchRows (upTo fromCol t.cols (fun c t => t.setCell row c ⟨space, t.curFg, t.curBg⟩) t)
    row (u32 (row + 1))

/-- Blanks every row and homes the cursor. -/
def clearAll (t : Terminal) : Terminal :=
  { upTo 0 t.rows (fun r t => clearRow t r 0) t with cursorRow := 0, cursorCol := 0 }

/-- `grid[r - 1][c] = grid[r][c]`, a pass of the inner loop of `scrollUp`. -/
def scrollCell (r c : ℕ) (t : Terminal) : Terminal :=
  (t.check r c).setCell (r - 1) c (t.grid r c)

/-- Moves every row up by one and blanks the last. -/
def scrollUp (t : Terminal) : Terminal :=
  let t := upTo 1 t.rows (fun r t => upTo 0 t.cols (scrollCell r) t) t
  touchAll (clearRow t (u32 (t.rows - 1)) 0)

/-- Goes to the beginning of the next row, scrolling behind the last. -/
def newline (t : Terminal) : Terminal :=
  if t.rows ≤ u32 (t.cursorRow + 1) then scrollUp t
  else { t with cursorRow := u32 (t.cursorRow + 1) }

/-- Writes a character at the cursor. -/
def putChar (t : Terminal) (ch : Byte) : Terminal :=
  let t := if t.cols ≤ t.cursorCol then newline { t with cursorCol := 0 } else t
  let t := t.setCell t.cursorRow t.cursorCol ⟨ch, t.curFg, t.curBg⟩
  let t := touchRows t t.cursorRow (u32 (t.cursorRow + 1))
  { t with cursorCol := u32 (t.cursorCol + 1) }

/-- The number of columns or rows that `fitGrid` takes for a computed one. -/
def clampCells (n : ℤ) (most : ℕ) : ℕ := if n < 1 then 1 else if n > most then most else n.toNat

/-- The loop of `fitGrid` that scrolls until the cursor's row is in view. Each pass takes the
cursor one row up, so `fuel` passes are enough when `cursorRow < newRows + fuel`. -/
def scrollIntoView (newRows : ℕ) : ℕ → Terminal → Terminal
  | 0, t => t
  | fuel + 1, t =>
    if newRows ≤ t.cursorRow then
      let t := scrollUp { t with rows := u32 (t.cursorRow + 1) }
      scrollIntoView newRows fuel { t with cursorRow := u32 (t.cursorRow - 1) }
    else t

/-- Rows and columns that fit a size in pixels. Division truncates, as in the source. -/
def fitGrid (t : Terminal) (width height cellW lineH : ℤ) : Terminal :=
  let newCols := clampCells ((width - kPaddingX * 2).tdiv cellW) kMaxCols
  let newRows := clampCells ((height - kPaddingY * 2).tdiv lineH) kMaxRows
  -- Cells that come into view for the first time start blank.
  let t := upTo 0 newRows (fun r t =>
    upTo (if r < t.rows then t.cols else 0) newCols
      (fun c t => t.setCell r c ⟨space, kColorDefaultFg, kColorBackground⟩) t) t
  -- Shrinking below the cursor scrolls the screen up so it stays in view.
  let t : Terminal := { t with cols := newCols }
  let t := scrollIntoView newRows (t.cursorRow + 1) t
  let t : Terminal := { t with rows := newRows }
  let t := if t.cols < t.cursorCol then { t with cursorCol := t.cols } else t
  touchAll t

end Terminal

end IUserApps
