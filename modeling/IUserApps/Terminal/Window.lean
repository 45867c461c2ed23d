import IUserApps.Terminal.Damage
import IUserApps.Terminal.Painting

/-!
# The terminal's window

`TerminalWindow`: what the shell writes is fed to the screen and the rows it changed are asked to be
painted again, with the row where the cursor was last painted; a key and the blinking touch the
cursor's row. The window's framework is not part of this repository: `Framework` has what it keeps
of the part that is to be painted, `LosesNothing` what the terminal relies on. It calls `on_paint`
for rectangles of that part, in any order and number.

`Stale` is where the window may differ from the screen: what waits to be painted, and the rows of
the range of changed rows. `Fresh` says that everything else shows the screen, cursor included, and
every event keeps it (`windowStep_fresh`). A missing row in the range, or a cursor left behind,
would break it.
-/

namespace IUserApps.Terminal

open Compositor (Rect)
open Loops Pictures Runs

/-! ## The size of the grid -/

/-- The rows and columns in use are as they were. -/
def SameSize (t t' : Terminal) : Prop := t'.rows = t.rows ∧ t'.cols = t.cols

/-- Nothing changed. -/
theorem SameSize.refl (t : Terminal) : SameSize t t := ⟨rfl, rfl⟩

/-- One change after another. -/
theorem SameSize.trans {t t' t'' : Terminal} (h : SameSize t t') (h' : SameSize t' t'') :
    SameSize t t'' := ⟨h'.1.trans h.1, h'.2.trans h.2⟩

/-- Changes of cells only leave the size. -/
theorem SameFrame.sameSize {t t' : Terminal} (h : SameFrame t t') : SameSize t t' :=
  ⟨h.rows, h.cols⟩

/-- A loop whose passes leave the size leaves it. -/
theorem upTo_sameSize {body : ℕ → Terminal → Terminal} {lo hi : ℕ} {t : Terminal}
    (h : ∀ i t', SameSize t' (body i t')) : SameSize t (upTo lo hi body t) :=
  upTo_keeps (SameSize t) (SameSize.refl t) fun i t' _ _ ht => ht.trans (h i t')

/-- `touch_rows` widens the range of changed rows only. -/
theorem touchRows_sameSize (t : Terminal) (top bottom : ℕ) :
    SameSize t (touchRows t top bottom) :=
  ⟨(touchRows_paints t top bottom).rows, (touchRows_paints t top bottom).cols⟩

/-- `clear_row` changes cells and the range. -/
theorem clearRow_sameSize (t : Terminal) (row fromCol : ℕ) :
    SameSize t (clearRow t row fromCol) :=
  (blankLoop_sameFrame t row fromCol).sameSize.trans (touchRows_sameSize _ _ _)

/-- Neither does `scroll_up` change the size, -/
theorem scrollUp_sameSize (t : Terminal) : SameSize t (scrollUp t) :=
  (scrollLoop_spec t).1.sameSize.trans ((clearRow_sameSize _ _ _).trans (touchRows_sameSize _ _ _))

/-- nor a new line, scrolling or not, -/
theorem newline_sameSize (t : Terminal) : SameSize t (newline t) := by
  unfold newline
  split
  · exact scrollUp_sameSize t
  · exact SameSize.refl t

/-- nor a character, which may wrap, -/
theorem putChar_sameSize (t : Terminal) (ch : Byte) : SameSize t (putChar t ch) := by
  have hwrap : SameSize t
      (if t.cols ≤ t.cursorCol then newline { t with cursorCol := 0 } else t) := by
    split
    · exact newline_sameSize { t with cursorCol := 0 }
    · exact SameSize.refl t
  have hput : ∀ (t : Terminal) (cell : Cell) (bottom : ℕ),
      SameSize t (touchRows (t.setCell t.cursorRow t.cursorCol cell) t.cursorRow bottom) :=
    fun t cell bottom => (setCell_sameFrame t _ _ cell).sameSize.trans (touchRows_sameSize _ _ _)
  exact hwrap.trans (hput _ _ _)

/-- nor a tab, spaces up to the next stop, -/
theorem tabTo_sameSize (next fuel : ℕ) (t : Terminal) : SameSize t (tabTo next fuel t) := by
  induction fuel generalizing t with
  | zero => exact SameSize.refl t
  | succ fuel ih =>
    unfold tabTo
    split
    · exact (putChar_sameSize t space).trans (ih _)
    · exact SameSize.refl t

/-- nor erasing in the display, -/
theorem eraseDisplay_sameSize (t : Terminal) (a : ℤ) : SameSize t (eraseDisplay t a) := by
  have hrows : ∀ lo hi (t : Terminal), SameSize t (upTo lo hi (fun r t => clearRow t r 0) t) :=
    fun lo hi t => upTo_sameSize fun r t' => clearRow_sameSize t' r 0
  unfold eraseDisplay
  split
  · exact hrows 0 t.rows t
  · split
    · exact (clearRow_sameSize t _ _).trans (hrows _ _ _)
    · split
      · exact (hrows _ _ t).trans (clearRow_sameSize _ _ _)
      · exact SameSize.refl t

/-- nor erasing in the line, -/
theorem eraseLine_sameSize (t : Terminal) (a : ℤ) : SameSize t (eraseLine t a) := by
  unfold eraseLine
  split
  · exact clearRow_sameSize t _ _
  · split
    · exact (upTo_sameSize fun c t' => (setCell_sameFrame t' _ c _).sameSize).trans
        (touchRows_sameSize _ _ _)
    · split
      · exact clearRow_sameSize t _ _
      · exact SameSize.refl t

/-- nor the colours, -/
theorem applySgr_sameSize (t : Terminal) : SameSize t (applySgr t) := by
  unfold applySgr
  split
  · exact SameSize.refl t
  · refine upTo_sameSize fun i t' => ?_
    unfold applySgrCode
    repeat' split
    all_goals exact SameSize.refl t'

/-- nor any control sequence. -/
theorem handleCsi_sameSize (t : Terminal) (final : Byte) : SameSize t (handleCsi t final) := by
  unfold handleCsi
  simp only
  split
  case h_7 => exact eraseDisplay_sameSize t _
  case h_8 => exact eraseLine_sameSize t _
  case h_9 => exact applySgr_sameSize t
  all_goals exact ⟨rfl, rfl⟩

/-- No byte changes the size of the grid. -/
theorem parserFeed_sameSize (t : Terminal) (ch : Byte) : SameSize t (parserFeed t ch) := by
  unfold parserFeed
  split
  · unfold feedGround
    split_ifs
    all_goals first
      | exact ⟨rfl, rfl⟩
      | exact newline_sameSize t
      | exact tabTo_sameSize _ _ t
      | exact putChar_sameSize t ch
  · unfold feedEscape
    split <;> exact SameSize.refl t
  · unfold feedCsi
    simp only
    split_ifs
    all_goals first
      | exact ⟨rfl, rfl⟩
      | exact handleCsi_sameSize t ch

/-- Bytes one after another leave the size. -/
theorem feedBytes_sameSize (t : Terminal) (data : List Byte) : SameSize t (feedBytes t data) := by
  induction data generalizing t with
  | nil => exact SameSize.refl t
  | cons ch data ih => exact (parserFeed_sameSize t ch).trans (ih _)

/-! ## The framework -/

/-- A place of a window of some size. -/
def InSize (width height x y : ℤ) : Prop := 0 ≤ x ∧ x < width ∧ 0 ≤ y ∧ y < height

instance (width height x y : ℤ) : Decidable (InSize width height x y) :=
  inferInstanceAs (Decidable (_ ∧ _))

/-- The places that wait to be painted. -/
abbrev Pending := ℤ → ℤ → Bool

/-- What the framework of the window makes of the places that wait and of the words that are shown,
when a window opens, has a new size, asks for a rectangle or was painted in one. -/
class Framework where
  /-- What waits in a window of a width and a height that opens. -/
  opened : ℤ → ℤ → Pending
  /-- What a window shows that opens. -/
  blank : ℤ × ℤ → BitVec 32
  /-- What waits at a new size. -/
  resized : ℤ → ℤ → Pending → Pending
  /-- What is shown at a new size. -/
  reshown : ℤ → ℤ → (ℤ × ℤ → BitVec 32) → ℤ × ℤ → BitVec 32
  /-- What waits after `invalidate`, in a window of a width and a height. -/
  invalidated : ℤ → ℤ → Pending → Rect → Pending
  /-- What waits after `on_paint` of a rectangle. -/
  painted : Pending → Rect → Pending

/-- What the terminal relies on: a window is painted whole when it opens and when its size is new
(`on_size` asks for nothing), what it asks for is painted, and a place waits until a rectangle with
it is painted. -/
class LosesNothing [Framework] : Prop where
  opened : ∀ {width height x y}, InSize width height x y → Framework.opened width height x y = true
  resized : ∀ {width height x y} (p : Pending), InSize width height x y →
    Framework.resized width height p x y = true
  invalidated : ∀ {width height x y} (p : Pending) (area : Rect), InSize width height x y →
    p x y = true ∨ area.Mem x y → Framework.invalidated width height p area x y = true
  painted : ∀ {x y} (p : Pending) (rect : Rect),
    Framework.painted p rect x y = true ↔ p x y = true ∧ ¬rect.Mem x y

/-! ## The window -/

/-- The window, with what its framework keeps for it: the size, the focus, what waits to be painted
and the words that the window shows. -/
structure TerminalWindow where
  screen : Terminal
  /-- There is a master to write keys to. -/
  master : Bool
  /-- The master is watched for the shell's output. -/
  watched : Bool
  cursorShown : Bool
  /-- Where the cursor was last painted. -/
  paintedCursorRow : ℕ
  width : ℤ
  height : ℤ
  focused : Bool
  pending : Pending
  shows : ℤ × ℤ → BitVec 32

/-- A place of the window. -/
def InClient (w : TerminalWindow) (x y : ℤ) : Prop := InSize w.width w.height x y

instance (w : TerminalWindow) (x y : ℤ) : Decidable (InClient w x y) :=
  inferInstanceAs (Decidable (InSize _ _ _ _))

/-- A place where the window may differ from the screen: it waits to be painted, or its row is in
the range of changed rows. -/
def Stale (size : CellSize) (w : TerminalWindow) (x y : ℤ) : Prop :=
  w.pending x y = true ∨ ∃ r, Dirty w.screen r ∧ InRow size r y

namespace TerminalWindow

/-- What the painting of a window depends on. -/
def view (w : TerminalWindow) : View := ⟨w.screen, w.focused, w.cursorShown⟩

/-- `invalidate`. -/
def invalidate [Framework] (w : TerminalWindow) (area : Rect) : TerminalWindow :=
  { w with pending := Framework.invalidated w.width w.height w.pending area }

/-- `touch_rows` of the cursor's row. -/
def touchCursor (t : Terminal) : Terminal := touchRows t t.cursorRow (u32 (t.cursorRow + 1))

/-- Shows the cursor and starts its blinking again. -/
def restartBlink (w : TerminalWindow) : TerminalWindow :=
  { w with cursorShown := true, screen := touchCursor w.screen }

/-- Some rows of cells, over the width of the window. -/
def rowsRect (size : CellSize) (w : TerminalWindow) (top bottom : ℕ) : Rect :=
  ⟨0, kPaddingY + top * size.lineH, w.width,
    (kPaddingY + bottom * size.lineH) - (kPaddingY + top * size.lineH)⟩

/-- `flush`: asks for the rows that changed, and the cursor's old row, to be painted. -/
def flushRows [Framework] (size : CellSize) (w : TerminalWindow) : TerminalWindow :=
  let flushed := flush w.screen w.paintedCursorRow
  flushed.2.elim { w with screen := flushed.1 } fun rows =>
    invalidate { w with screen := flushed.1 } (rowsRect size w rows.1 rows.2)

end TerminalWindow

/-- The passes of the loop of `on_readable` after the first, at most `n` of them: a read that gives
nothing ends it, and so does a poll that finds nothing to read. -/
def readMore : ℕ → List (List Byte) → List Byte
  | 0, _ => []
  | _ + 1, [] => []
  | n + 1, buf :: reads => if buf = [] then [] else buf ++ readMore n reads

/-- The first read gives nothing: the shell is gone. -/
def exited (reads : List (List Byte)) : Bool := reads.head?.elim false fun buf => buf.isEmpty

/-- What `on_readable` feeds to the screen, for the reads that it finds. -/
def readBytes (reads : List (List Byte)) : List Byte :=
  if exited reads then ascii "\r\n[shell exited]" else readMore 32 reads

/-- What happens to the window. -/
inductive WindowEvent
  | size (width height : ℤ)
  /-- A key, by the bytes it sends. -/
  | key (seq : List Byte)
  /-- The master is ready, with what the reads give. -/
  | readable (reads : List (List Byte))
  /-- The timer of the blinking. -/
  | timer
  | focus (on : Bool)
  /-- The framework paints a rectangle. -/
  | paint (dirty : Rect)

open TerminalWindow

/-- `on_readable`. -/
def onReadable [Framework] (size : CellSize) (w : TerminalWindow) (reads : List (List Byte)) :
    TerminalWindow :=
  flushRows size (restartBlink { w with
    watched := !exited reads
    screen := feedBytes w.screen (readBytes reads) })

/-- `on_create`, for a shell that started or did not. -/
def openedWindow [Framework] (size : CellSize) (width height : ℤ) (master shell focused : Bool) :
    TerminalWindow :=
  let t := shown width height size
  flushRows size {
    screen := if shell then t else feedBytes t (ascii "terminal: could not start a shell\r\n")
    master := master
    watched := shell
    cursorShown := true
    paintedCursorRow := 0
    width := width
    height := height
    focused := focused
    pending := Framework.opened width height
    shows := Framework.blank }

variable {size : CellSize} {w w' : TerminalWindow}

/-! ## Touching and flushing -/

/-- Touching rows changes no cell, and marks more. -/
theorem touchRows_marks (t : Terminal) (top bottom : ℕ) : Marks t (touchRows t top bottom) where
  grows := touchRows_grows t top bottom
  cells := by
    intro r c hv
    obtain ⟨hrows, hcols⟩ := touchRows_sameSize t top bottom
    unfold Visible at hv
    rw [hrows, hcols] at hv
    exact Or.inr ⟨hv, by rw [touchRows_grid]⟩
  rows_lt := by
    rw [(touchRows_sameSize t top bottom).1]
    exact id

/-- A row of the storage is touched by the two ends that are given for it. -/
theorem touchRow_dirty (t : Terminal) {r : ℕ} (h : r < kMaxRows) :
    Dirty (touchRows t r (u32 (r + 1))) r := by
  have hnext : u32 (r + 1) = r + 1 := by
    unfold u32 kMaxRows at *
    omega
  rw [hnext]
  exact touchRows_dirty t (le_refl r) (Nat.lt_succ_self r)

/-- Touching rows keeps the screen sound. -/
theorem Sound.touchRows {t : Terminal} (h : Sound t) (top bottom : ℕ) :
    Sound (touchRows t top bottom) where
  bounded := h.bounded.paints (touchRows_paints t top bottom)
  params := by
    rw [(touchRows_paints t top bottom).parser]
    exact h.params

/-- So does emptying the range. -/
theorem Sound.flush {t : Terminal} (h : Sound t) (paintedCursorRow : ℕ) :
    Sound (flush t paintedCursorRow).1 := by
  have hs := h.touchRows paintedCursorRow (u32 (paintedCursorRow + 1))
  exact ⟨⟨hs.bounded.rows_pos, hs.bounded.rows_le, hs.bounded.cols_pos, hs.bounded.cols_le,
    hs.bounded.cursorRow_lt, hs.bounded.cursorCol_le, hs.bounded.paramCount_le,
    hs.bounded.inside⟩, hs.params⟩

/-- The cursor's row is one of the storage. -/
theorem Sound.cursorRow_lt {t : Terminal} (h : Sound t) : t.cursorRow < kMaxRows :=
  Nat.lt_of_lt_of_le h.bounded.cursorRow_lt h.bounded.rows_le

section Flushing

variable [Framework]

/-- What `flush` leaves of the window. -/
theorem flushRows_spec (size : CellSize) (w : TerminalWindow) :
    (flushRows size w).screen = (flush w.screen w.paintedCursorRow).1 ∧
      (flushRows size w).paintedCursorRow = w.paintedCursorRow ∧
      (∀ x y, InClient (flushRows size w) x y ↔ InClient w x y) ∧
      (flushRows size w).shows = w.shows := by
  unfold flushRows
  simp only
  cases (flush w.screen w.paintedCursorRow).2 <;> exact ⟨rfl, rfl, fun _ _ => Iff.rfl, rfl⟩

variable [LosesNothing]

/-- What waits to be painted still does after a flush. -/
theorem flushRows_pending_of_pending (size : CellSize) {x y : ℤ} (hin : InClient w x y)
    (h : w.pending x y = true) : (flushRows size w).pending x y = true := by
  unfold flushRows
  simp only
  cases (flush w.screen w.paintedCursorRow).2 with
  | none => exact h
  | some rows => exact LosesNothing.invalidated _ _ hin (Or.inl h)

/-- Every row in the range, the cursor's old row with it, waits to be painted after a flush. -/
theorem flushRows_pending {r : ℕ} {x y : ℤ} (hin : InClient w x y)
    (hr : Dirty (touchRows w.screen w.paintedCursorRow (u32 (w.paintedCursorRow + 1))) r)
    (hy : InRow size r y) : (flushRows size w).pending x y = true := by
  have hpos := size.lineH_pos
  obtain ⟨hx, hw, -, -⟩ := id hin
  unfold flushRows flush
  simp only
  generalize touchRows w.screen w.paintedCursorRow (u32 (w.paintedCursorRow + 1)) = t at hr ⊢
  obtain ⟨htop, hbottom⟩ := hr
  rw [if_pos (by omega)]
  refine LosesNothing.invalidated _ _ hin (Or.inr ?_)
  have hlo : (t.dirtyTop : ℤ) * size.lineH ≤ r * size.lineH :=
    Int.mul_le_mul_of_nonneg_right (by omega) (by omega)
  have hhi : ((r : ℤ) + 1) * size.lineH ≤ t.dirtyBottom * size.lineH :=
    Int.mul_le_mul_of_nonneg_right (by omega) (by omega)
  rw [add_mul, one_mul] at hhi
  unfold InRow at hy
  unfold rowsRect Rect.Mem
  simp only
  omega

omit [LosesNothing] in
/-- A flush empties the range of changed rows. -/
theorem flushRows_dirty (size : CellSize) (w : TerminalWindow) (r : ℕ) :
    ¬Dirty (flushRows size w).screen r := by
  rw [(flushRows_spec size w).1]
  exact fun h => absurd h.2 (Nat.not_lt_zero r)

/-- What is not stale after a flush was not before, and is not in the cursor's old row. -/
theorem not_stale_of_flush {x y : ℤ} (hin : InClient w x y)
    (hpainted : w.paintedCursorRow < kMaxRows) (h : ¬Stale size (flushRows size w) x y) :
    ¬Stale size w x y ∧ ¬InRow size w.paintedCursorRow y := by
  have hpending : (flushRows size w).pending x y ≠ true := fun hp => h (Or.inl hp)
  refine ⟨?_, ?_⟩
  · rintro (hp | ⟨r, hr, hy⟩)
    · exact hpending (flushRows_pending_of_pending size hin hp)
    · exact hpending (flushRows_pending hin (touchRows_grows _ _ _ r hr) hy)
  · exact fun hy => hpending (flushRows_pending hin (touchRow_dirty w.screen hpainted) hy)

end Flushing

/-! ## Edits -/

/-- `w'` comes from `w` by a change of the screen, the focus and the blinking that is marked, with
the cursor's row touched. -/
structure Edit (w w' : TerminalWindow) : Prop where
  sound : Sound w'.screen
  marks : Marks w.screen w'.screen
  sameSize : SameSize w.screen w'.screen
  cursor : Dirty w'.screen w'.screen.cursorRow
  painted : w'.paintedCursorRow = w.paintedCursorRow
  inClient : ∀ x y, InClient w' x y ↔ InClient w x y
  pending : w'.pending = w.pending
  shows : w'.shows = w.shows

/-- A marked change of the screen, after which the cursor's row is touched. -/
theorem Edit.of_screen (w : TerminalWindow) {t : Terminal} (hs : Sound t) (hm : Marks w.screen t)
    (hsize : SameSize w.screen t) (watched cursorShown focused : Bool) :
    Edit w { w with
      screen := touchCursor t
      watched := watched
      cursorShown := cursorShown
      focused := focused } where
  sound := hs.touchRows _ _
  marks := hm.trans (touchRows_marks t _ _)
  sameSize := hsize.trans (touchRows_sameSize t _ _)
  cursor := by
    show Dirty (touchCursor t) (touchCursor t).cursorRow
    unfold touchCursor
    rw [(touchRows_paints t _ _).cursorRow]
    exact touchRow_dirty t hs.cursorRow_lt
  painted := rfl
  inClient _ _ := Iff.rfl
  pending := rfl
  shows := rfl

namespace Edit

variable {x y : ℤ}

/-- An edit only adds to what is stale. -/
theorem not_stale (h : Edit w w') (hstale : ¬Stale size w' x y) : ¬Stale size w x y := by
  rintro (hp | ⟨r, hr, hy⟩)
  · exact hstale (Or.inl (by rw [h.pending]; exact hp))
  · exact hstale (Or.inr ⟨r, h.marks.grows r hr, hy⟩)

/-- Where nothing is stale the cursor is not. -/
theorem cursor_away (h : Edit w w') (hstale : ¬Stale size w' x y) :
    ¬InRow size w'.screen.cursorRow y :=
  fun hy => hstale (Or.inr ⟨_, h.cursor, hy⟩)

end Edit

/-! ## Bytes -/

/-- Bytes whose numerals fit leave the screen sound, with what they changed marked. -/
theorem feedBytes_sound {t : Terminal} (h : Sound t) {data : List Byte}
    (hfit : Along parserFeed NumeralFits t data) :
    Sound (feedBytes t data) ∧ Marks t (feedBytes t data) := by
  refine foldl_of_invariant (fun t' => Sound t' ∧ Marks t t') ?_ ⟨h, Marks.refl t⟩ hfit
  rintro t' ch ⟨hs, hm⟩ hch
  have hlt : t'.rows < 2^32 := Nat.lt_of_le_of_lt hs.bounded.rows_le (by decide)
  exact ⟨parserFeed_sound hs hch, hm.trans (parserFeed_marks hlt ch)⟩

/-- Bytes without a digit. -/
theorem along_of_noDigit (t : Terminal) {data : List Byte} (h : ∀ ch ∈ data, isDigit ch = false) :
    Along parserFeed NumeralFits t data := by
  induction data generalizing t with
  | nil => trivial
  | cons ch data ih =>
    refine ⟨fun _ hd => ?_, ih _ fun ch' hch' => h ch' (List.mem_cons_of_mem ch hch')⟩
    rw [h ch List.mem_cons_self] at hd
    exact absurd hd Bool.false_ne_true

/-! ## Events -/

section Events

variable [TextCanvas] [Framework]

/-- `on_paint`: the place's words, and where the cursor was painted. -/
def onPaint (size : CellSize) (w : TerminalWindow) (dirty : Rect) : TerminalWindow :=
  { w with
    shows := paintAll PaintCall.stroke (fun p => dirty.Mem p.1 p.2) (paintCalls size w.view dirty)
      w.shows
    pending := Framework.painted w.pending dirty
    paintedCursorRow := w.screen.cursorRow }

/-- One event. -/
def windowStep (size : CellSize) (w : TerminalWindow) : WindowEvent → TerminalWindow
  | .size width height =>
    { w with
      width := width
      height := height
      screen := fitGrid w.screen width height size.cellW size.lineH
      pending := Framework.resized width height w.pending
      shows := Framework.reshown width height w.shows }
  | .key seq => if seq ≠ [] ∧ w.master then restartBlink w else w
  | .readable reads => if w.watched then onReadable size w reads else w
  | .timer =>
    flushRows size { w with cursorShown := !w.cursorShown, screen := touchCursor w.screen }
  | .focus on => flushRows size (restartBlink { w with focused := on })
  | .paint dirty => onPaint size w dirty

/-- The numerals in what the shell writes fit an `int`. -/
def NumeralsFit (w : TerminalWindow) : WindowEvent → Prop
  | .readable reads => Along parserFeed NumeralFits w.screen (readBytes reads)
  | _ => True

/-- Elsewhere the window shows the screen, and the cursor was last painted where it is. -/
structure Fresh (size : CellSize) (w : TerminalWindow) : Prop where
  sound : Sound w.screen
  painted_lt : w.paintedCursorRow < kMaxRows
  shows : ∀ x y, InClient w x y → ¬Stale size w x y →
    w.shows (x, y) = wordOf size w.view (x, y)
  cursor : ∀ x y, InClient w x y → ¬Stale size w x y → InRow size w.screen.cursorRow y →
    w.paintedCursorRow = w.screen.cursorRow

/-- A flush changes nothing of what a place shows, away from the cursor. -/
theorem flushRows_wordOf [GlyphsFit size] {x y : ℤ} (h : ¬InRow size w.screen.cursorRow y) :
    wordOf size (flushRows size w).view (x, y) = wordOf size w.view (x, y) := by
  have hscreen : (flushRows size w).view.screen = (flush w.screen w.paintedCursorRow).1 :=
    (flushRows_spec size w).1
  have hrow : (flushRows size w).view.screen.cursorRow = w.screen.cursorRow := by
    rw [hscreen]
    exact (touchRows_paints _ _ _).cursorRow
  refine wordOf_congr (fun r hr => ?_) h (by rw [hrow]; exact h)
  have hne : w.screen.cursorRow ≠ r := fun heq => h (by rw [heq]; exact hr)
  refine ⟨?_, ?_, fun _ c _ => ?_, hne, by rw [hrow]; exact hne⟩
  · rw [hscreen]
    exact (touchRows_paints _ _ _).rows
  · rw [hscreen]
    exact (touchRows_paints _ _ _).cols
  · rw [hscreen]
    exact congrFun (congrFun (touchRows_grid _ _ _) r) c

namespace Edit

variable {x y : ℤ}

omit [Framework] in
/-- What is not stale is shown as before, away from the cursor's old row. -/
theorem wordOf_eq [GlyphsFit size] (h : Edit w w') (hstale : ¬Stale size w' x y)
    (haway : ¬InRow size w.screen.cursorRow y) :
    wordOf size w'.view (x, y) = wordOf size w.view (x, y) := by
  refine wordOf_congr (fun r hr => ?_) haway (h.cursor_away hstale)
  refine ⟨h.sameSize.1, h.sameSize.2, fun hrow c hc => ?_, ?_, ?_⟩
  · have hvisible : Visible w'.screen r c := by
      unfold Visible
      rw [h.sameSize.1, h.sameSize.2]
      exact ⟨hrow, hc⟩
    rcases h.marks.cells r c hvisible with hdirty | ⟨-, heq⟩
    · exact absurd (Or.inr ⟨r, hdirty, hr⟩) hstale
    · exact heq
  · rintro rfl
    exact haway hr
  · rintro rfl
    exact h.cursor_away hstale hr

omit [Framework] in
/-- An edit that leaves the cursor where it is keeps what is not stale fresh. -/
theorem fresh [GlyphsFit size] (h : Edit w w') (hfresh : Fresh size w)
    (hrow : w'.screen.cursorRow = w.screen.cursorRow) : Fresh size w' where
  sound := h.sound
  painted_lt := by
    rw [h.painted]
    exact hfresh.painted_lt
  shows := by
    intro x y hin hstale
    have haway := h.cursor_away hstale
    rw [h.shows, hfresh.shows x y ((h.inClient x y).1 hin) (h.not_stale hstale),
      h.wordOf_eq hstale (by rw [← hrow]; exact haway)]
  cursor := by
    intro x y _ hstale hy
    exact absurd hy (h.cursor_away hstale)

/-- After a flush an edit may have moved the cursor. -/
theorem flush_fresh [GlyphsFit size] [LosesNothing] (h : Edit w w') (hfresh : Fresh size w) :
    Fresh size (flushRows size w') := by
  obtain ⟨hscreen, hpainted, hclient, hshows⟩ := flushRows_spec size w'
  have hlt : w'.paintedCursorRow < kMaxRows := by
    rw [h.painted]
    exact hfresh.painted_lt
  have hrow : (flushRows size w').screen.cursorRow = w'.screen.cursorRow := by
    rw [hscreen]
    exact (touchRows_paints _ _ _).cursorRow
  refine ⟨?_, by rw [hpainted]; exact hlt, ?_, ?_⟩
  · rw [hscreen]
    exact h.sound.flush _
  · intro x y hin hstale
    rw [hclient] at hin
    obtain ⟨hbefore, hold⟩ := not_stale_of_flush hin hlt hstale
    have hwas := h.not_stale hbefore
    rw [h.inClient] at hin
    -- A place of the cursor's old row is not stale only if the cursor was painted there.
    have haway : ¬InRow size w.screen.cursorRow y := by
      intro hy
      rw [h.painted, hfresh.cursor x y hin hwas hy] at hold
      exact hold hy
    calc (flushRows size w').shows (x, y) = w'.shows (x, y) := by rw [hshows]
      _ = wordOf size w.view (x, y) := by rw [h.shows, hfresh.shows x y hin hwas]
      _ = wordOf size w'.view (x, y) := (h.wordOf_eq hbefore haway).symm
      _ = wordOf size (flushRows size w').view (x, y) :=
        (flushRows_wordOf (h.cursor_away hbefore)).symm
  · intro x y hin hstale hy
    rw [hclient] at hin
    obtain ⟨hbefore, -⟩ := not_stale_of_flush hin hlt hstale
    rw [hrow] at hy
    exact absurd hy (h.cursor_away hbefore)

end Edit

/-! ## Steps and runs -/

omit [Framework] in
/-- Where everything waits to be painted nothing has to be fresh. -/
theorem Fresh.of_pending (hs : Sound w.screen) (hpainted : w.paintedCursorRow < kMaxRows)
    (h : ∀ x y, InClient w x y → w.pending x y = true) : Fresh size w where
  sound := hs
  painted_lt := hpainted
  shows x y hin hstale := absurd (Or.inl (h x y hin)) hstale
  cursor x y hin hstale _ := absurd (Or.inl (h x y hin)) hstale

/-- Painting a rectangle leaves its places showing the screen. -/
theorem onPaint_fresh [GlyphsFit size] [LosesNothing] (h : Fresh size w) (dirty : Rect) :
    Fresh size (onPaint size w dirty) where
  sound := h.sound
  painted_lt := h.sound.cursorRow_lt
  shows := by
    intro x y hin hstale
    show paintAll PaintCall.stroke (fun p => dirty.Mem p.1 p.2) (paintCalls size w.view dirty)
      w.shows (x, y) = wordOf size w.view (x, y)
    rw [paintAll_apply]
    by_cases hmem : dirty.Mem x y
    · rw [if_pos hmem, paint_word hmem]
    · rw [if_neg hmem]
      exact h.shows x y hin fun hs =>
        hstale (hs.imp (fun hp => (LosesNothing.painted _ _).2 ⟨hp, hmem⟩) id)
  cursor _ _ _ _ _ := rfl

/-- Every event keeps the window fresh, as long as the numerals fit. -/
theorem windowStep_fresh [GlyphsFit size] [LosesNothing] (w : TerminalWindow) (e : WindowEvent)
    (h : Fresh size w) (hfit : NumeralsFit w e) : Fresh size (windowStep size w e) := by
  have hrefl := Edit.of_screen w h.sound (Marks.refl _) (SameSize.refl _) w.watched
  cases e with
  | size width height =>
    have hs := step_sound w.screen (.fit width height size) h.sound trivial
    exact Fresh.of_pending hs h.painted_lt fun _ _ hin => LosesNothing.resized _ hin
  | key seq =>
    show Fresh size (if seq ≠ [] ∧ w.master then restartBlink w else w)
    split
    · refine (hrefl true w.focused).fresh h ?_
      exact (touchRows_paints _ _ _).cursorRow
    · exact h
  | readable reads =>
    show Fresh size (if w.watched then onReadable size w reads else w)
    split
    · obtain ⟨hs, hm⟩ := feedBytes_sound h.sound hfit
      exact (Edit.of_screen w hs hm (feedBytes_sameSize _ _) (!exited reads) true
        w.focused).flush_fresh h
    · exact h
  | timer => exact (hrefl (!w.cursorShown) w.focused).flush_fresh h
  | focus on => exact (hrefl true on).flush_fresh h
  | paint dirty => exact onPaint_fresh h dirty

/-- The window starts with everything to be painted. -/
theorem openedWindow_fresh [GlyphsFit size] [LosesNothing] (width height : ℤ)
    (master shell focused : Bool) :
    Fresh size (openedWindow size width height master shell focused) := by
  have hs := shown_sound width height size
  refine Fresh.of_pending ?_ ?_ ?_
  · unfold openedWindow
    rw [(flushRows_spec size _).1]
    refine Sound.flush ?_ _
    cases shell with
    | true => exact hs
    | false => exact (feedBytes_sound hs (along_of_noDigit _ (by decide))).1
  · unfold openedWindow
    rw [(flushRows_spec size _).2.1]
    show 0 < kMaxRows
    decide
  · intro x y hin
    have hsize := ((flushRows_spec size _).2.2.1 x y).1 hin
    exact flushRows_pending_of_pending size hsize (LosesNothing.opened hsize)

/-- The rectangles that the framework paints one after another. -/
def paintEach (size : CellSize) (w : TerminalWindow) (rects : List Rect) : TerminalWindow :=
  (rects.map .paint).foldl (windowStep size) w

/-- Painting changes neither the screen nor the client, and what waits after it did before and is in
no rectangle. -/
theorem paintEach_spec [LosesNothing] (size : CellSize) (rects : List Rect) (w : TerminalWindow) :
    (paintEach size w rects).screen = w.screen ∧
      (∀ x y, InClient (paintEach size w rects) x y ↔ InClient w x y) ∧
      ∀ x y, (paintEach size w rects).pending x y = true →
        w.pending x y = true ∧ ∀ rect ∈ rects, ¬rect.Mem x y := by
  induction rects generalizing w with
  | nil =>
    exact ⟨rfl, fun _ _ => Iff.rfl, fun x y h => ⟨h, fun _ hr => absurd hr List.not_mem_nil⟩⟩
  | cons rect rects ih =>
    obtain ⟨hscreen, hclient, hpending⟩ := ih (onPaint size w rect)
    refine ⟨hscreen, hclient, fun x y h => ?_⟩
    obtain ⟨hp, hrects⟩ := hpending x y h
    obtain ⟨hwait, haway⟩ := (LosesNothing.painted _ _).1 hp
    exact ⟨hwait, List.forall_mem_cons.2 ⟨haway, hrects⟩⟩

/-- Painting rectangles keeps the window fresh. -/
theorem paintEach_fresh [GlyphsFit size] [LosesNothing] (rects : List Rect) (h : Fresh size w) :
    Fresh size (paintEach size w rects) := by
  induction rects generalizing w with
  | nil => exact h
  | cons rect rects ih => exact ih (onPaint_fresh h rect)

/-- After any run of the window's events every place of it shows the screen, waits to be painted or
is in a row of the range of changed rows. Once the cursor blinks, painting what waits, in any
rectangles, leaves the whole window showing the screen. -/
theorem window_shows [GlyphsFit size] [LosesNothing] (width height : ℤ)
    (master shell focused : Bool) (es : List WindowEvent)
    (h : Along (windowStep size) NumeralsFit
      (openedWindow size width height master shell focused) es)
    (w : TerminalWindow)
    (hw : w = es.foldl (windowStep size) (openedWindow size width height master shell focused)) :
    (∀ x y, InClient w x y → ¬Stale size w x y →
      w.shows (x, y) = wordOf size w.view (x, y)) ∧
    ∀ rects : List Rect,
      (∀ x y, InClient w x y → (windowStep size w .timer).pending x y = true →
        ∃ rect ∈ rects, rect.Mem x y) →
      ∀ x y, InClient w x y →
        (paintEach size (windowStep size w .timer) rects).shows (x, y) =
          wordOf size (paintEach size (windowStep size w .timer) rects).view (x, y) := by
  have hfresh : Fresh size w := by
    rw [hw]
    exact foldl_of_invariant (Fresh size) windowStep_fresh (openedWindow_fresh _ _ _ _ _) h
  refine ⟨hfresh.shows, fun rects hrects x y hin => ?_⟩
  have htimer : Fresh size (windowStep size w .timer) := windowStep_fresh w .timer hfresh trivial
  obtain ⟨hscreen, hclient, hpending⟩ := paintEach_spec size rects (windowStep size w .timer)
  have hin' : InClient (windowStep size w .timer) x y :=
    ((flushRows_spec size _).2.2.1 x y).2 hin
  refine (paintEach_fresh rects htimer).shows x y ((hclient x y).2 hin') ?_
  rintro (hp | ⟨r, hr, -⟩)
  · obtain ⟨hwaits, hnone⟩ := hpending x y hp
    obtain ⟨rect, hrect, hmem⟩ := hrects x y hin hwaits
    exact hnone rect hrect hmem
  · rw [hscreen] at hr
    exact flushRows_dirty size _ r hr

end Events

/-- A canvas whose characters fill the twelve rows above their baseline, eight places wide. -/
abbrev plainText : TextCanvas where
  word c := c.setWidth 32
  frameAt _ c _ _ _ := c.setWidth 32
  glyphAt x baseline _ c px py w :=
    if x ≤ px ∧ px < x + 8 ∧ baseline - 12 ≤ py ∧ py < baseline then c.setWidth 32 else w
  ascent := 14

/-- A framework that has everything painted at first and at a new size. -/
abbrev plainFramework : Framework where
  opened _ _ _ _ := true
  blank _ := 0
  resized _ _ _ _ _ := true
  reshown _ _ _ _ := 0
  invalidated _ _ p area x y := p x y || decide (area.Mem x y)
  painted p rect x y := p x y && !decide (rect.Mem x y)

/-- It loses nothing. -/
theorem plainFramework_losesNothing : @LosesNothing plainFramework := by
  refine @LosesNothing.mk plainFramework (fun _ => rfl) (fun _ _ => rfl) ?_ ?_
  · intro _ _ x y p area _ h
    show (p x y || decide (area.Mem x y)) = true
    rw [Bool.or_eq_true, decide_eq_true_eq]
    exact h
  · intro x y p rect
    show (p x y && !decide (rect.Mem x y)) = true ↔ _
    rw [Bool.and_eq_true, Bool.not_eq_true', decide_eq_false_iff_not]

/-- Cells of 8 by 16 places. -/
def plainCells : CellSize := ⟨8, 16, by decide, by decide⟩

/-- Its characters stay in their cells. -/
theorem plainText_fits : @GlyphsFit plainText plainCells := by
  refine @GlyphsFit.mk plainText plainCells ?_
  intro x top ch color px py w h
  refine if_neg fun hin => h ?_
  have hbase : (plainText.ascent : ℤ) = 14 := rfl
  have hline : plainCells.lineH = 16 := rfl
  rw [hbase] at hin
  omega

/-- The shell writes two characters before the window is first painted. -/
def typedEvents : List WindowEvent := [.readable [[0x68, 0x69]], .paint ⟨0, 0, 100, 30⟩]

/-- The window after them and a tick. -/
def typedWindow : TerminalWindow :=
  @windowStep plainText plainFramework plainCells
    (typedEvents.foldl (@windowStep plainText plainFramework plainCells)
      (@openedWindow plainFramework plainCells 100 60 true true true)) .timer

/-- Painted whole, its first cell shows the screen. -/
theorem window_shows_typed :
    (@paintEach plainText plainFramework plainCells typedWindow [⟨0, 0, 100, 60⟩]).shows (13, 15) =
      @wordOf plainText plainCells
        (@paintEach plainText plainFramework plainCells typedWindow [⟨0, 0, 100, 60⟩]).view
        (13, 15) := by
  refine (@window_shows plainCells plainText plainFramework plainText_fits
    plainFramework_losesNothing 100 60 true true true typedEvents
    ⟨along_of_noDigit _ (by decide), trivial, trivial⟩ _ rfl).2 _ ?_ 13 15 (by decide)
  intro x y hin _
  have hclient : 0 ≤ x ∧ x < 100 ∧ 0 ≤ y ∧ y < 60 := hin
  refine ⟨⟨0, 0, 100, 60⟩, List.mem_singleton_self _, ?_⟩
  show 0 ≤ x ∧ x < 0 + 100 ∧ 0 ≤ y ∧ y < 0 + 60
  omega

end IUserApps.Terminal
