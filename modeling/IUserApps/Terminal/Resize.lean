import IUserApps.Terminal.TextBuffer

/-!
# Resizing

`fitGrid` keeps the text: when the cursor's row is still in view every cell stays, and otherwise the
screen moves up until it is. A cell that was not in view starts blank. The cells to blank are
those of the new rows and columns, and they are blanked before the screen moves up: a row below the
new screen that then moves into it brings along what its storage holds in the new columns.
`keepsText_iff` says that this is all that can go wrong, over any run.
-/

namespace IUserApps.Terminal

open Loops Runs

/-- The number of rows and of columns for a size in pixels. -/
def fitRows (height : ℤ) (size : CellSize) : ℕ :=
  clampCells ((height - kPaddingY * 2).tdiv size.lineH) kMaxRows

/-- The columns that a width has room for. -/
def fitCols (width : ℤ) (size : CellSize) : ℕ :=
  clampCells ((width - kPaddingX * 2).tdiv size.cellW) kMaxCols

/-- How many rows the screen moves up to keep the cursor in view. -/
def shift (t : Terminal) (rows : ℕ) : ℕ := t.cursorRow + 1 - rows

/-- A resize keeps the text: a visible cell is the one that was `shift` rows below it if that was
visible, and blank otherwise, and the cursor stays on its row of text. -/
structure KeepsText (t t' : Terminal) : Prop where
  cells : ∀ r c, r < t'.rows → c < t'.cols → t'.grid r c =
    if r + shift t t'.rows < t.rows ∧ c < t.cols then t.grid (r + shift t t'.rows) c
    else defaultBlank
  cursorRow : t'.cursorRow = t.cursorRow - shift t t'.rows

/-- Of the rows that are below the new screen and stay in view, the cells of the new columns are
blank already. -/
def Covered (t : Terminal) (rows cols : ℕ) : Prop :=
  ∀ r c, rows ≤ r → r ≤ t.cursorRow → t.cursorRow < r + rows → t.cols ≤ c → c < cols →
    t.grid r c = defaultBlank

/-- The same of a resize in a run. -/
def EventKeepsText (t : Terminal) : Event → Prop
  | .byte _ => True
  | .fit width height size => KeepsText t (step t (.fit width height size))

/-- The new columns of a resize in a run are covered so. -/
def EventCovered (t : Terminal) : Event → Prop
  | .byte _ => True
  | .fit width height size => Covered t (fitRows height size) (fitCols width size)

/-- A pass of the loop that scrolls the cursor into view. -/
def scrollPass (t : Terminal) : Terminal :=
  let scrolled := scrollUp { t with rows := u32 (t.cursorRow + 1) }
  { scrolled with cursorRow := u32 (scrolled.cursorRow - 1) }

/-- A pass scrolls by one row as long as the cursor is below. -/
theorem scrollIntoView_succ (newRows fuel : ℕ) (t : Terminal) :
    scrollIntoView newRows (fuel + 1) t =
      if newRows ≤ t.cursorRow then scrollIntoView newRows fuel (scrollPass t) else t := rfl

/-- A pass moves the rows up to the cursor's by one, and the cursor with them. -/
theorem scrollPass_spec {t : Terminal} (hpos : 1 ≤ t.cursorRow) (hrow : t.cursorRow < kMaxRows)
    (hcols : t.cols ≤ kMaxCols) :
    (scrollPass t).cursorRow = t.cursorRow - 1 ∧ (scrollPass t).cols = t.cols ∧
      ∀ r c, r < t.cursorRow → c < t.cols → (scrollPass t).grid r c = t.grid (r + 1) c := by
  have hu : u32 (t.cursorRow + 1) = t.cursorRow + 1 := by
    unfold u32 kMaxRows at *
    omega
  unfold scrollPass
  rw [hu]
  have hp := scrollUp_paints (t := { t with rows := t.cursorRow + 1 }) (Nat.le_add_left 1 _) hrow
    hcols
  have hgrid := scrollUp_grid (t := { t with rows := t.cursorRow + 1 }) (Nat.le_add_left 1 _)
    (Nat.lt_of_le_of_lt hrow (by decide))
  refine ⟨?_, hp.cols, fun r c hr hc => ?_⟩
  · show u32 ((scrollUp { t with rows := t.cursorRow + 1 }).cursorRow - 1) = _
    rw [hp.cursorRow]
    show u32 (t.cursorRow - 1) = t.cursorRow - 1
    unfold u32 kMaxRows at *
    omega
  · have hin : r < t.cursorRow + 1 ∧ c < t.cols := ⟨Nat.lt_succ_of_lt hr, hc⟩
    exact ((hgrid r c).trans (if_pos hin)).trans (if_pos (Nat.succ_lt_succ hr))

/-- Scrolled into view, the screen has moved up by `shift` rows, with the cursor. -/
theorem scrollIntoView_grid {newRows : ℕ} (hn : 1 ≤ newRows) (fuel : ℕ) {t : Terminal}
    (hrow : t.cursorRow < kMaxRows) (hcols : t.cols ≤ kMaxCols)
    (hfuel : t.cursorRow < newRows + fuel) :
    (scrollIntoView newRows fuel t).cursorRow = t.cursorRow - shift t newRows ∧
      (scrollIntoView newRows fuel t).cols = t.cols ∧
      ∀ r c, r < newRows → c < t.cols →
        (scrollIntoView newRows fuel t).grid r c = t.grid (r + shift t newRows) c := by
  -- No pass is left to make when the cursor is in view.
  have hview : t.cursorRow < newRows → shift t newRows = 0 := by
    unfold shift
    omega
  induction fuel generalizing t with
  | zero =>
    rw [hview (by omega)]
    exact ⟨rfl, rfl, fun r c _ _ => rfl⟩
  | succ fuel ih =>
    rw [scrollIntoView_succ]
    by_cases hge : newRows ≤ t.cursorRow
    · rw [if_pos hge]
      obtain ⟨hrow', hcols', hmoved⟩ := scrollPass_spec (by omega) hrow hcols
      obtain ⟨hcursor, hsame, hgrid⟩ := ih (t := scrollPass t) (by omega) (by omega) (by omega)
        (by unfold shift; omega)
      have hshift : shift t newRows = shift (scrollPass t) newRows + 1 := by
        unfold shift
        omega
      refine ⟨by omega, hsame.trans hcols', fun r c hr hc => ?_⟩
      have hplace : r + shift (scrollPass t) newRows < t.cursorRow := by
        unfold shift
        omega
      rw [hgrid r c hr (by omega), hmoved _ c hplace hc, hshift, Nat.add_assoc]
    · rw [if_neg hge, hview (by omega)]
      exact ⟨rfl, rfl, fun r c _ _ => rfl⟩

/-- What a resize leaves: the storage with its new cells blanked, `shift` rows further up. -/
theorem fitGrid_grid {t : Terminal} (h : Bounded t) (width height : ℤ) (size : CellSize) :
    (step t (.fit width height size)).rows = fitRows height size ∧
    (step t (.fit width height size)).cols = fitCols width size ∧
    (step t (.fit width height size)).cursorRow =
      t.cursorRow - shift t (fitRows height size) ∧
    ∀ r c, r < fitRows height size → c < fitCols width size →
      (step t (.fit width height size)).grid r c =
        if r + shift t (fitRows height size) < fitRows height size ∧
          (t.rows ≤ r + shift t (fitRows height size) ∨ t.cols ≤ c) then defaultBlank
        else t.grid (r + shift t (fitRows height size)) c := by
  set newCols := fitCols width size with hcols
  set newRows := fitRows height size with hrows
  have hcM : newCols ≤ kMaxCols := clampCells_le _ (by decide)
  have hr1 : 1 ≤ newRows := clampCells_pos _ (by decide)
  obtain ⟨hframe, hblank⟩ := blankNew_grid t newCols newRows
  set t1 := upTo 0 newRows (blankNew newCols) t with ht1
  set t2 : Terminal := { t1 with cols := newCols } with ht2
  have hrow2 : t2.cursorRow = t.cursorRow := hframe.cursorRow
  have hshift : shift t2 newRows = shift t newRows := by rw [shift, shift, hrow2]
  have hrowM : t2.cursorRow < kMaxRows := by
    rw [hrow2]
    exact Nat.lt_of_lt_of_le h.cursorRow_lt h.rows_le
  obtain ⟨hcursor, hcols3, hgrid⟩ :=
    scrollIntoView_grid (t := t2) hr1 (t2.cursorRow + 1) hrowM hcM (by omega)
  set t3 := scrollIntoView newRows (t2.cursorRow + 1) t2 with ht3
  -- The cursor's column may be set back, and all of the screen is marked.
  obtain ⟨col, hfit⟩ : ∃ col, step t (.fit width height size) =
      touchAll { t3 with rows := newRows, cursorCol := col } := by
    have hstep : step t (.fit width height size) =
        touchAll (if t3.cols < t3.cursorCol then { t3 with rows := newRows, cursorCol := t3.cols }
          else { t3 with rows := newRows }) := rfl
    rw [hstep]
    split
    · exact ⟨t3.cols, rfl⟩
    · exact ⟨t3.cursorCol, rfl⟩
  have hcells : (step t (.fit width height size)).grid = t3.grid := by
    rw [hfit]
    exact touchRows_grid _ _ _
  have hp := touchRows_paints { t3 with rows := newRows, cursorCol := col } 0 newRows
  rw [hcells]
  refine ⟨?_, ?_, ?_, fun r c hr hc => ?_⟩
  · rw [hfit]
    exact hp.rows
  · rw [hfit]
    exact hp.cols.trans hcols3
  · rw [hfit]
    refine hp.cursorRow.trans ?_
    rw [← hshift, ← hrow2]
    exact hcursor
  · rw [hgrid r c hr hc, hshift]
    refine (hblank _ _).trans ?_
    by_cases hnew : r + shift t newRows < newRows ∧
        (t.rows ≤ r + shift t newRows ∨ t.cols ≤ c)
    · rw [if_pos hnew, if_pos ⟨hnew.1, hc, hnew.2⟩]
    · rw [if_neg hnew, if_neg fun h => hnew ⟨h.1, h.2.2⟩]

/-- A resize keeps the text exactly when the cells that nothing blanks are blank already. -/
theorem step_keepsText_iff {t : Terminal} (h : Bounded t) (e : Event) :
    EventKeepsText t e ↔ EventCovered t e := by
  cases e with
  | byte ch => exact Iff.rfl
  | fit width height size =>
    obtain ⟨hrows, hcols, hcursor, hgrid⟩ := fitGrid_grid h width height size
    have hrow := h.cursorRow_lt
    show KeepsText t _ ↔ Covered t _ _
    constructor
    · intro hkeeps r c hlow hhigh hstays hold hnew
      -- The place where this row is after the resize.
      have hplace : r - shift t (fitRows height size) + shift t (fitRows height size) = r := by
        unfold shift
        omega
      have hview : r - shift t (fitRows height size) < fitRows height size := by
        unfold shift
        omega
      have hcell := hkeeps.cells (r - shift t (fitRows height size)) c (by rw [hrows]; exact hview)
        (by rw [hcols]; exact hnew)
      rw [hgrid _ c hview hnew, hrows, hplace, if_neg (by omega), if_neg (by omega)] at hcell
      exact hcell
    · intro hcovered
      refine ⟨fun r c hr hc => ?_, by rw [hcursor, hrows]⟩
      rw [hrows] at hr ⊢
      rw [hcols] at hc
      rw [hgrid r c hr hc]
      by_cases hold : r + shift t (fitRows height size) < t.rows ∧ c < t.cols
      · rw [if_pos hold, if_neg (by omega)]
      · rw [if_neg hold]
        by_cases hblanked : r + shift t (fitRows height size) < fitRows height size
        · rw [if_pos ⟨hblanked, by omega⟩]
        · -- The row comes from below the new screen.
          rw [if_neg fun hand => hblanked hand.1]
          have hplace : r + shift t (fitRows height size) ≤ t.cursorRow ∧
              t.cursorRow < r + shift t (fitRows height size) + fitRows height size := by
            unfold shift at hblanked ⊢
            omega
          exact hcovered _ c (by omega) hplace.1 hplace.2 (by omega) hc

/-- Over any run in which no numeral outgrows an `int`, every resize keeps the text exactly when each
of them finds blank the cells of the new columns in the rows that come from below the new screen. -/
theorem keepsText_iff (width height : ℤ) (size : CellSize) (es : List Event) :
    Along step (fun t e => EventNumeralFits t e ∧ EventKeepsText t e) (shown width height size) es ↔
      Along step (fun t e => EventNumeralFits t e ∧ EventCovered t e) (shown width height size)
        es := by
  refine along_congr_of_invariant Sound ?_ ?_ (shown_sound width height size)
  · intro t e ht
    exact and_congr_right fun _ => step_keepsText_iff ht.bounded e
  · intro t e ht hand
    exact step_sound t e ht hand.1

/-- Three lines of three columns, `abc` to `ghi`, made narrower by a column. -/
def narrowed (size : CellSize) : List Event :=
  [0x61, 0x62, 0x63, 0x64, 0x65, 0x66, 0x67, 0x68, 0x69].map Event.byte ++ [.fit 40 72 size]

/-- Made wider again and one row high, the terminal shows the `i` that had been hidden; without the
hiding it shows a cell that was never written. -/
theorem narrowed_stale : ∃ size : CellSize,
    ¬Along step EventKeepsText (shown 48 72 size) (narrowed size ++ [.fit 48 40 size]) ∧
    (step ((narrowed size).foldl step (shown 48 72 size)) (.fit 48 40 size)).grid 0 2 =
      ⟨0x69, kColorDefaultFg, kColorBackground⟩ ∧
    (step ([.byte 10, .byte 10].foldl step (shown 40 72 size)) (.fit 48 40 size)).grid 0 2 =
      ⟨0, 0, 0⟩ := by
  refine ⟨⟨8, 16, by decide, by decide⟩, ?_, by decide, by decide⟩
  intro h
  have hkeeps : KeepsText _ _ := h.at
  exact absurd (hkeeps.cells 0 2 (by decide) (by decide)) (by decide)

end IUserApps.Terminal
