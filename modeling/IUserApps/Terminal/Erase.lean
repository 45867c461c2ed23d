import IUserApps.Terminal.Sequences

/-!
# Erasing

`ESC [ n J` erases the screen and `ESC [ n K` the cursor's line: from the cursor on, up to the cursor,
or all of it. `Erases` is an erasure by the book: the cells of the region become blank in the current
colours, the others stay, and so does the cursor. Three of the six differ. Erasing all of the screen
takes the cursor home, erasing up to the cursor takes the rest of the cursor's line along, and on the
line it leaves the colours. `erased_of_run` is what holds of all six, in every state that a run leads
to.
-/

namespace IUserApps.Terminal

open Loops Runs

/-- What is erased: from the cursor on (0), up to the cursor (1), or all (2). -/
inductive EraseMode
  | toEnd
  | toStart
  | all
deriving DecidableEq, Repr

namespace EraseMode

/-- The digit that asks for it. -/
def digit : EraseMode → Byte
  | toEnd => 0x30
  | toStart => 0x31
  | all => 0x32

/-- The parameter that the digit writes. -/
def number : EraseMode → ℤ
  | toEnd => 0
  | toStart => 1
  | all => 2

/-- The places at or behind the cursor, at or before it, or all. -/
def Covers (t : Terminal) (r c : ℕ) : EraseMode → Prop
  | toEnd => t.cursorRow < r ∨ (r = t.cursorRow ∧ t.cursorCol ≤ c)
  | toStart => r < t.cursorRow ∨ (r = t.cursorRow ∧ c ≤ t.cursorCol)
  | all => True

end EraseMode

/-- An erase sequence, of the screen or of the cursor's line. -/
inductive Erase
  | display (mode : EraseMode)
  | line (mode : EraseMode)
deriving DecidableEq, Repr

namespace Erase

/-- `ESC [ n J` or `ESC [ n K`. -/
def bytes : Erase → List Byte
  | display mode => [esc, bracket, mode.digit, 0x4A]
  | line mode => [esc, bracket, mode.digit, 0x4B]

/-- The cells that it is to erase. -/
def Region (t : Terminal) (r c : ℕ) : Erase → Prop
  | display mode => r < t.rows ∧ c < t.cols ∧ mode.Covers t r c
  | line mode => r = t.cursorRow ∧ c < t.cols ∧ mode.Covers t r c

end Erase

/-- An erasure by the book. -/
structure Erases (e : Erase) (t t' : Terminal) : Prop where
  blanked : ∀ r c, e.Region t r c → t'.grid r c = t.blank
  kept : ∀ r c, ¬e.Region t r c → t'.grid r c = t.grid r c
  cursorRow : t'.cursorRow = t.cursorRow
  cursorCol : t'.cursorCol = t.cursorCol

/-- What the six erasures have in common: the region is blank, in the current colours but for the
line up to the cursor, the others stay but for the rest of the cursor's line when the screen is
erased up to the cursor, and the cursor stays but for the whole screen, which takes it home. -/
structure Erased (e : Erase) (t t' : Terminal) : Prop where
  blanked : ∀ r c, e.Region t r c →
    (t'.grid r c).ch = space ∧ (e ≠ .line .toStart → t'.grid r c = t.blank)
  kept : ∀ r c, ¬e.Region t r c →
    ¬(e = .display .toStart ∧ r = t.cursorRow ∧ c < t.cols) → t'.grid r c = t.grid r c
  cursor : (t'.cursorRow, t'.cursorCol) =
    if e = .display .all then (0, 0) else (t.cursorRow, t.cursorCol)

variable {t : Terminal}

/-- What an erase sequence carries out. -/
def Erase.act (t : Terminal) : Erase → Terminal
  | .display mode => eraseDisplay t mode.number
  | .line mode => eraseLine t mode.number

instance (t : Terminal) (r c : ℕ) (mode : EraseMode) : Decidable (mode.Covers t r c) := by
  cases mode <;> unfold EraseMode.Covers <;> infer_instance

/-- The digit of an erase sequence is its parameter. -/
theorem parserFeed_digit (t : Terminal) (mode : EraseMode) :
    parserFeed { t with parser := ⟨.csi, fun _ => 0, 0, false⟩ } mode.digit =
      { t with parser := ⟨.csi, Function.update (fun _ => 0) 0 mode.number, 1, true⟩ } := by
  have hdigit : isDigit mode.digit = true := by cases mode <;> decide
  have hvalue : int32 (VTParser.digitValue ⟨.csi, fun _ => 0, 0, false⟩ mode.digit) =
      mode.number := by cases mode <;> decide
  simp only [parserFeed, feedCsi, hdigit, hvalue]
  rfl

/-- The sequence is carried out on the terminal, with some parameters in its parser. -/
theorem feedBytes_erase (hs : t.parser.state = .ground) (e : Erase) : ∃ p : VTParser,
    p.paramCount ≤ 8 ∧
      feedBytes t e.bytes = { e.act { t with parser := p } with parser.state := .ground } := by
  have hintro : ∀ mode : EraseMode, ∀ final, feedBytes t [esc, bracket, mode.digit, final] =
      parserFeed { t with
        parser := ⟨.csi, Function.update (fun _ => 0) 0 mode.number, 1, true⟩ } final := by
    intro mode final
    rw [feedBytes_cons, parserFeed_esc hs, feedBytes_cons, parserFeed_bracket rfl, feedBytes_cons,
      parserFeed_digit]
    rfl
  cases e with
  | display mode =>
    refine ⟨⟨.csi, Function.update (fun _ => 0) 0 mode.number, 1, true⟩, Nat.le_of_ble_eq_true rfl, ?_⟩
    rw [Erase.bytes, hintro, parserFeed_final rfl (by decide)]
    rfl
  | line mode =>
    refine ⟨⟨.csi, Function.update (fun _ => 0) 0 mode.number, 1, true⟩, Nat.le_of_ble_eq_true rfl, ?_⟩
    rw [Erase.bytes, hintro, parserFeed_final rfl (by decide)]
    rfl

/-! ## The cells that are erased -/

/-- From the cursor on: the rest of its line, then the lines below. -/
theorem eraseDisplay_toEnd (h : Bounded t) : Paints t (eraseDisplay t 0) ∧ ∀ r c,
    (eraseDisplay t 0).grid r c =
      if (t.cursorRow < r ∧ r < t.rows ∧ c < t.cols) ∨
        (r = t.cursorRow ∧ t.cursorCol ≤ c ∧ c < t.cols) then t.blank else t.grid r c := by
  have hrow : t.cursorRow < kMaxRows := Nat.lt_of_lt_of_le h.cursorRow_lt h.rows_le
  have hline := clearRow_paints t.cursorCol hrow h.cols_le
  set t1 := clearRow t t.cursorRow t.cursorCol with ht1
  have hrows1 : t1.rows ≤ kMaxRows := by rw [hline.rows]; exact h.rows_le
  have hcols1 : t1.cols ≤ kMaxCols := by rw [hline.cols]; exact h.cols_le
  have hnext : u32 (t1.cursorRow + 1) = t.cursorRow + 1 := by
    rw [hline.cursorRow]
    unfold kMaxRows at hrow
    unfold u32
    omega
  have herase : eraseDisplay t 0 =
      upTo (t.cursorRow + 1) t1.rows (fun r t => clearRow t r 0) t1 := by
    rw [← hnext]
    rfl
  have hblank : t1.blank = t.blank := by simp [blank, hline.curFg, hline.curBg]
  rw [herase]
  refine ⟨hline.trans (clearRows_paints _ _ hrows1 hcols1), fun r c => ?_⟩
  rw [clearRows_grid hrows1 hcols1, hblank, hline.rows, hline.cols, ht1, clearRow_grid]
  by_cases hbelow : t.cursorRow + 1 ≤ r ∧ r < t.rows ∧ c < t.cols
  · rw [if_pos hbelow, if_pos (by omega)]
  · rw [if_neg hbelow]
    by_cases hcell : r = t.cursorRow ∧ t.cursorCol ≤ c ∧ c < t.cols
    · rw [if_pos hcell, if_pos (by omega)]
    · rw [if_neg hcell, if_neg (by omega)]

/-- Up to the cursor: the lines above, then all of the cursor's line. -/
theorem eraseDisplay_toStart (h : Bounded t) : Paints t (eraseDisplay t 1) ∧ ∀ r c,
    (eraseDisplay t 1).grid r c =
      if r ≤ t.cursorRow ∧ c < t.cols then t.blank else t.grid r c := by
  have hrow : t.cursorRow < kMaxRows := Nat.lt_of_lt_of_le h.cursorRow_lt h.rows_le
  have habove := clearRows_paints (t := t) 0 t.cursorRow (Nat.le_of_lt hrow) h.cols_le
  set t1 := upTo 0 t.cursorRow (fun r t => clearRow t r 0) t with ht1
  have hcols1 : t1.cols ≤ kMaxCols := by rw [habove.cols]; exact h.cols_le
  have herase : eraseDisplay t 1 = clearRow t1 t.cursorRow 0 := by
    rw [← habove.cursorRow]
    rfl
  have hblank : t1.blank = t.blank := by simp [blank, habove.curFg, habove.curBg]
  rw [herase]
  refine ⟨habove.trans (clearRow_paints 0 hrow hcols1), fun r c => ?_⟩
  rw [clearRow_grid, hblank, habove.cols, ht1, clearRows_grid (Nat.le_of_lt hrow) h.cols_le]
  by_cases hline : r = t.cursorRow ∧ 0 ≤ c ∧ c < t.cols
  · rw [if_pos hline, if_pos (by omega)]
  · rw [if_neg hline]
    by_cases hcell : 0 ≤ r ∧ r < t.cursorRow ∧ c < t.cols
    · rw [if_pos hcell, if_pos (by omega)]
    · rw [if_neg hcell, if_neg (by omega)]

/-- All of the screen. The cursor goes home. -/
theorem eraseDisplay_all (h : Bounded t) :
    (eraseDisplay t 2).cursorRow = 0 ∧ (eraseDisplay t 2).cursorCol = 0 ∧ ∀ r c,
      (eraseDisplay t 2).grid r c = if r < t.rows ∧ c < t.cols then t.blank else t.grid r c := by
  refine ⟨rfl, rfl, fun r c => ?_⟩
  show (upTo 0 t.rows (fun r t => clearRow t r 0) t).grid r c = _
  rw [clearRows_grid h.rows_le h.cols_le]
  by_cases hcell : r < t.rows ∧ c < t.cols
  · rw [if_pos hcell, if_pos (by omega)]
  · rw [if_neg hcell, if_neg (by omega)]

/-- On the line up to the cursor only the characters are erased. -/
theorem eraseLine_toStart (t : Terminal) (r c : ℕ) : (eraseLine t 1).grid r c =
    if r = t.cursorRow ∧ c ≤ t.cursorCol ∧ c < t.cols then { t.grid r c with ch := space }
    else t.grid r c := by
  have hloop := (writeRow_spec (fun c t =>
    t.setCell t.cursorRow c { t.grid t.cursorRow c with ch := space }) t t.cursorRow
    (fun c => { t.grid t.cursorRow c with ch := space }) 0 (min (t.cursorCol + 1) t.cols) ?_).2 r c
  · have herase : (eraseLine t 1).grid = (upTo 0 (min (t.cursorCol + 1) t.cols) (fun c t =>
        t.setCell t.cursorRow c { t.grid t.cursorRow c with ch := space }) t).grid :=
      touchRows_grid _ _ _
    rw [herase, hloop]
    by_cases hcell : r = t.cursorRow ∧ c ≤ t.cursorCol ∧ c < t.cols
    · rw [if_pos hcell, if_pos (by omega), hcell.1]
    · rw [if_neg hcell, if_neg (by omega)]
  · intro i t' hframe hleft
    refine ⟨setCell_sameFrame t' _ _ _, fun r c => ?_⟩
    -- The cell that is written is still as it was.
    rw [setCell_grid, hframe.cursorRow, hleft _ _ (Or.inr (Nat.le_refl i))]

/-! ## What the erasures have in common -/

/-- Erasing the screen. -/
theorem eraseDisplay_erased (h : Bounded t) (mode : EraseMode) :
    Erased (.display mode) t (eraseDisplay t mode.number) := by
  have hrow := h.cursorRow_lt
  cases mode with
  | toEnd =>
    obtain ⟨hp, hgrid⟩ := eraseDisplay_toEnd h
    refine ⟨?_, ?_, by simp [EraseMode.number, hp.cursorRow, hp.cursorCol]⟩
    · rintro r c ⟨hr, hc, hcovers⟩
      have hcell : (eraseDisplay t 0).grid r c = t.blank := by
        rw [hgrid, if_pos]
        rcases hcovers with hbelow | ⟨hline, hcol⟩
        · exact Or.inl ⟨hbelow, hr, hc⟩
        · exact Or.inr ⟨hline, hcol, hc⟩
      exact ⟨congrArg Cell.ch hcell, fun _ => hcell⟩
    · intro r c hout _
      refine (hgrid r c).trans (if_neg ?_)
      rintro (⟨hbelow, hr, hc⟩ | ⟨rfl, hcol, hc⟩)
      · exact hout ⟨hr, hc, Or.inl hbelow⟩
      · exact hout ⟨hrow, hc, Or.inr ⟨rfl, hcol⟩⟩
  | toStart =>
    obtain ⟨hp, hgrid⟩ := eraseDisplay_toStart h
    refine ⟨?_, ?_, by simp [EraseMode.number, hp.cursorRow, hp.cursorCol]⟩
    · rintro r c ⟨hr, hc, hcovers⟩
      have hcell : (eraseDisplay t 1).grid r c = t.blank := by
        rw [hgrid, if_pos]
        rcases hcovers with habove | ⟨hline, -⟩
        · exact ⟨Nat.le_of_lt habove, hc⟩
        · exact ⟨Nat.le_of_eq hline, hc⟩
      exact ⟨congrArg Cell.ch hcell, fun _ => hcell⟩
    · intro r c hout hline
      refine (hgrid r c).trans (if_neg ?_)
      rintro ⟨hr, hc⟩
      -- On the cursor's line nothing is said of the cells behind the cursor.
      rcases Nat.lt_or_eq_of_le hr with habove | heq
      · exact hout ⟨Nat.lt_trans habove hrow, hc, Or.inl habove⟩
      · exact hline ⟨rfl, heq, hc⟩
  | all =>
    obtain ⟨hhome, hcol, hgrid⟩ := eraseDisplay_all h
    refine ⟨?_, ?_, by simp [EraseMode.number, hhome, hcol]⟩
    · rintro r c ⟨hr, hc, -⟩
      have hcell : (eraseDisplay t 2).grid r c = t.blank := by rw [hgrid, if_pos ⟨hr, hc⟩]
      exact ⟨congrArg Cell.ch hcell, fun _ => hcell⟩
    · intro r c hout _
      refine (hgrid r c).trans (if_neg ?_)
      rintro ⟨hr, hc⟩
      exact hout ⟨hr, hc, trivial⟩

/-- Erasing the cursor's line. -/
theorem eraseLine_erased (h : Bounded t) (mode : EraseMode) :
    Erased (.line mode) t (eraseLine t mode.number) := by
  have hp := eraseLine_paints h mode.number
  have hcursor : ((eraseLine t mode.number).cursorRow, (eraseLine t mode.number).cursorCol) =
      if Erase.line mode = .display .all then (0, 0) else (t.cursorRow, t.cursorCol) := by
    simp [hp.cursorRow, hp.cursorCol]
  -- Blanking the line from a column on.
  have hfrom : ∀ fromCol, (∀ r c, (Erase.line mode).Region t r c ↔
      r = t.cursorRow ∧ fromCol ≤ c ∧ c < t.cols) →
      eraseLine t mode.number = clearRow t t.cursorRow fromCol →
      Erased (.line mode) t (eraseLine t mode.number) := by
    intro fromCol hregion herase
    refine ⟨?_, ?_, hcursor⟩
    · intro r c hin
      have hcell : (eraseLine t mode.number).grid r c = t.blank := by
        rw [herase, clearRow_grid, if_pos ((hregion r c).1 hin)]
      exact ⟨congrArg Cell.ch hcell, fun _ => hcell⟩
    · intro r c hout _
      rw [herase, clearRow_grid, if_neg fun hin => hout ((hregion r c).2 hin)]
  cases mode with
  | toEnd =>
    refine hfrom t.cursorCol ?_ rfl
    intro r c
    simp only [Erase.Region, EraseMode.Covers]
    omega
  | toStart =>
    refine ⟨?_, ?_, hcursor⟩
    · rintro r c ⟨hline, hc, hcovers⟩
      refine ⟨?_, fun hne => absurd rfl hne⟩
      have hcol : c ≤ t.cursorCol := by
        rcases hcovers with habove | ⟨-, hcol⟩
        · omega
        · exact hcol
      simp [EraseMode.number, eraseLine_toStart, hline, hcol, hc]
    · intro r c hout _
      refine (eraseLine_toStart t r c).trans (if_neg ?_)
      rintro ⟨hline, hcol, hc⟩
      exact hout ⟨hline, hc, Or.inr ⟨hline, hcol⟩⟩
  | all =>
    refine hfrom 0 ?_ rfl
    intro r c
    simp [Erase.Region, EraseMode.Covers]

/-- The parser has no part in what an erase sequence does to the screen. -/
theorem Erased.withParser {e : Erase} {t t' : Terminal} {p q : VTParser}
    (h : Erased e { t with parser := p } t') : Erased e t { t' with parser := q } := by
  refine ⟨fun r c hin => ?_, fun r c hout => ?_, h.cursor⟩
  · refine h.blanked r c ?_
    cases e <;> exact hin
  · refine h.kept r c fun hin => hout ?_
    cases e <;> exact hin

/-- In every state that a run of bytes and resizes leads to, with no numeral outgrowing an `int`, each
erase sequence does what the six have in common. -/
theorem erased_of_run (width height : ℤ) (size : CellSize) (es : List Event)
    (hfits : Along step EventNumeralFits (shown width height size) es)
    (hs : (es.foldl step (shown width height size)).parser.state = .ground) (e : Erase) :
    Erased e (es.foldl step (shown width height size))
      (feedBytes (es.foldl step (shown width height size)) e.bytes) := by
  have hsound := foldl_of_invariant Sound step_sound (shown_sound width height size) hfits
  set t := es.foldl step (shown width height size)
  obtain ⟨p, hcount, hfeed⟩ := feedBytes_erase hs e
  have hbounded : Bounded { t with parser := p } := hsound.bounded.withParser hcount
  rw [hfeed]
  refine Erased.withParser (p := p) ?_
  cases e with
  | display mode => exact eraseDisplay_erased hbounded mode
  | line mode => exact eraseLine_erased hbounded mode

/-- On a fresh terminal `ESC [ 0 J` erases. -/
theorem erased_of_run_fresh : ∃ size : CellSize, Erased (.display .toEnd) (shown 40 56 size)
    (feedBytes (shown 40 56 size) (Erase.display .toEnd).bytes) :=
  ⟨⟨8, 16, by decide, by decide⟩, erased_of_run 40 56 _ [] trivial (by decide) _⟩

/-- A run that writes `ab` in red on two lines and takes the cursor to the start of the second. -/
def redText : List Event :=
  [esc, bracket, 0x33, 0x31, 0x6D, 0x61, 0x62, 0x0D, 0x0A, 0x61, 0x62, esc, bracket, 0x6D,
    esc, bracket, 0x32, 0x48].map Event.byte

/-- `ESC [ 2147483650 A ESC [ 2147483648 A`, whose numerals outgrow an `int`: the cursor comes to the
last row that a `uint32_t` can name. -/
def outgrown : List Event :=
  [esc, bracket, 0x32, 0x31, 0x34, 0x37, 0x34, 0x38, 0x33, 0x36, 0x35, 0x30, 0x41,
    esc, bracket, 0x32, 0x31, 0x34, 0x37, 0x34, 0x38, 0x33, 0x36, 0x34, 0x38, 0x41].map Event.byte

/-- Up to the cursor the screen loses the cell behind the cursor too and the line keeps its colour,
all of the screen takes the cursor home, and from a cursor on the last row of all the screen is
erased above it. -/
theorem redText_erased : ∃ size : CellSize,
    ¬Erases (.display .toStart) (redText.foldl step (shown 40 56 size))
      (feedBytes (redText.foldl step (shown 40 56 size)) (Erase.display .toStart).bytes) ∧
    ¬Erases (.line .toStart) (redText.foldl step (shown 40 56 size))
      (feedBytes (redText.foldl step (shown 40 56 size)) (Erase.line .toStart).bytes) ∧
    ¬Erases (.display .all) (redText.foldl step (shown 40 56 size))
      (feedBytes (redText.foldl step (shown 40 56 size)) (Erase.display .all).bytes) ∧
    ¬Erases (.display .toEnd) ((redText ++ outgrown).foldl step (shown 40 56 size))
      (feedBytes ((redText ++ outgrown).foldl step (shown 40 56 size))
        (Erase.display .toEnd).bytes) := by
  refine ⟨⟨8, 16, by decide, by decide⟩, ?_, ?_, ?_, ?_⟩
  · intro h
    refine absurd (h.kept 1 1 ?_) (by decide)
    rintro ⟨-, -, hcovers⟩
    exact absurd hcovers (by decide)
  · intro h
    exact absurd (h.blanked 1 0 ⟨by decide, by decide, Or.inr (by decide)⟩) (by decide)
  · intro h
    exact absurd h.cursorRow (by decide)
  · intro h
    refine absurd (h.kept 0 0 ?_) (by decide +kernel)
    rintro ⟨-, -, hcovers⟩
    exact absurd hcovers (by decide +kernel)

end IUserApps.Terminal
