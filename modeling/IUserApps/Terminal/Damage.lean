import IUserApps.Terminal.Cells

/-!
# The range of changed rows

The window repaints the rows in `[dirtyTop, dirtyBottom)` and nothing else, so every function that
writes cells has to widen the range over them. `Marks` says that one did: the range has only grown,
and every cell in view outside it is one that was in view and is as it was. It composes, so a run of
bytes and resizes marks all that it changes (`run_marksChanges`), whatever rows the range covered
before.
-/

namespace IUserApps.Terminal

open Loops Runs

/-- A row in the range of changed rows. -/
def Dirty (t : Terminal) (r : ℕ) : Prop := t.dirtyTop ≤ r ∧ r < t.dirtyBottom

/-- A cell in view. -/
def Visible (t : Terminal) (r c : ℕ) : Prop := r < t.rows ∧ c < t.cols

instance (t : Terminal) (r : ℕ) : Decidable (Dirty t r) := inferInstanceAs (Decidable (_ ∧ _))

instance (t : Terminal) (r c : ℕ) : Decidable (Visible t r c) := inferInstanceAs (Decidable (_ ∧ _))

/-- The range of changed rows has only grown. -/
def Grows (t t' : Terminal) : Prop := ∀ r, Dirty t r → Dirty t' r

/-- What is marked stays marked through both. -/
theorem Grows.trans {t t' t'' : Terminal} (h : Grows t t') (h' : Grows t' t'') : Grows t t'' :=
  fun r hr => h' r (h r hr)

/-- A range that is left alone. -/
theorem Grows.of_eq {t t' : Terminal} (htop : t'.dirtyTop = t.dirtyTop)
    (hbottom : t'.dirtyBottom = t.dirtyBottom) : Grows t t' := by
  intro r hr
  unfold Dirty at *
  rw [htop, hbottom]
  exact hr

/-- With the same frame nothing is unmarked. -/
theorem SameFrame.grows {t t' : Terminal} (h : SameFrame t t') : Grows t t' :=
  Grows.of_eq h.dirtyTop h.dirtyBottom

/-- Touching rows widens the range. -/
theorem touchRows_grows (t : Terminal) (top bottom : ℕ) : Grows t (touchRows t top bottom) := by
  intro r ⟨htop, hbottom⟩
  unfold touchRows
  split
  · exact ⟨htop, hbottom⟩
  · split
    · -- An empty range has no row.
      omega
    · unfold Dirty
      simp only
      constructor
      · split <;> omega
      · split <;> omega

/-- The rows touched are in the range. -/
theorem touchRows_dirty (t : Terminal) {top bottom r : ℕ} (htop : top ≤ r) (hbottom : r < bottom) :
    Dirty (touchRows t top bottom) r := by
  unfold touchRows
  rw [if_neg (by omega)]
  split
  · exact ⟨htop, hbottom⟩
  · unfold Dirty
    simp only
    constructor
    · split <;> omega
    · split <;> omega

/-- `t'` comes from `t` with every change in view marked. -/
structure Marks (t t' : Terminal) : Prop where
  grows : Grows t t'
  cells : ∀ r c, Visible t' r c → Dirty t' r ∨ (Visible t r c ∧ t'.grid r c = t.grid r c)
  rows_lt : t.rows < 2^32 → t'.rows < 2^32

/-- What was marked stays marked. -/
theorem Marks.trans {t t' t'' : Terminal} (h : Marks t t') (h' : Marks t' t'') : Marks t t'' where
  grows := h.grows.trans h'.grows
  cells := by
    intro r c hv
    rcases h'.cells r c hv with hd | ⟨hv', heq'⟩
    · exact Or.inl hd
    · rcases h.cells r c hv' with hd | ⟨hv0, heq⟩
      · exact Or.inl (h'.grows r hd)
      · exact Or.inr ⟨hv0, heq'.trans heq⟩
  rows_lt := fun hlt => h'.rows_lt (h.rows_lt hlt)

/-- Nothing changes in view when the cells, the size and the range are left alone. -/
theorem Marks.of_eq {t t' : Terminal} (hgrid : t'.grid = t.grid) (hrows : t'.rows = t.rows)
    (hcols : t'.cols = t.cols) (htop : t'.dirtyTop = t.dirtyTop)
    (hbottom : t'.dirtyBottom = t.dirtyBottom) : Marks t t' where
  grows := Grows.of_eq htop hbottom
  cells := by
    rintro r c ⟨hr, hc⟩
    rw [hrows] at hr
    rw [hcols] at hc
    exact Or.inr ⟨⟨hr, hc⟩, by rw [hgrid]⟩
  rows_lt := by
    rw [hrows]
    exact id

/-- What has not changed needs no mark. -/
theorem Marks.refl (t : Terminal) : Marks t t := Marks.of_eq rfl rfl rfl rfl rfl

/-- Moving the cursor changes no cell. -/
theorem moveCursor_marks (t : Terminal) (r c : ℕ) :
    Marks t { t with cursorRow := r, cursorCol := c } := Marks.of_eq rfl rfl rfl rfl rfl

/-- A loop marks its changes when every pass does. -/
theorem upTo_marks {body : ℕ → Terminal → Terminal} {lo hi : ℕ} {t : Terminal}
    (hlt : t.rows < 2^32) (h : ∀ i t', t'.rows < 2^32 → Marks t' (body i t')) :
    Marks t (upTo lo hi body t) :=
  upTo_keeps (Marks t) (Marks.refl t) fun i t' _ _ ht => ht.trans (h i t' (ht.rows_lt hlt))

/-- Writing cells of one row and touching the row. -/
theorem Marks.of_row {t t' : Terminal} {row : ℕ} (hlt : t.rows < 2^32) (hframe : SameFrame t t')
    (hgrid : ∀ r c, r ≠ row → t'.grid r c = t.grid r c) :
    Marks t (touchRows t' row (u32 (row + 1))) where
  grows := hframe.grows.trans (touchRows_grows _ _ _)
  cells := by
    rintro r c ⟨hr, hc⟩
    have hp := touchRows_paints t' row (u32 (row + 1))
    rw [hp.rows, hframe.rows] at hr
    rw [hp.cols, hframe.cols] at hc
    by_cases hrow : r = row
    · -- A row in view is not the last `uint32_t`.
      have hnext : u32 (row + 1) = row + 1 := by
        unfold u32
        omega
      exact Or.inl (touchRows_dirty _ (by omega) (by omega))
    · rw [touchRows_grid]
      exact Or.inr ⟨⟨hr, hc⟩, hgrid r c hrow⟩
  rows_lt := by
    rw [(touchRows_paints _ _ _).rows, hframe.rows]
    exact id

/-- Touching every row marks any change. -/
theorem Marks.of_touchAll {t t' : Terminal} (hgrows : Grows t t') (hlt : t'.rows < 2^32) :
    Marks t (touchAll t') where
  grows := hgrows.trans (touchRows_grows _ _ _)
  cells := by
    rintro r c ⟨hr, -⟩
    unfold touchAll at *
    rw [(touchRows_paints _ _ _).rows] at hr
    exact Or.inl (touchRows_dirty _ (Nat.zero_le r) hr)
  rows_lt := by
    intro _
    unfold touchAll
    rw [(touchRows_paints _ _ _).rows]
    exact hlt

/-! ## The functions of the screen -/

/-- Blanking a row marks it. -/
theorem clearRow_marks {t : Terminal} (hlt : t.rows < 2^32) (row fromCol : ℕ) :
    Marks t (clearRow t row fromCol) := by
  refine Marks.of_row hlt (blankLoop_sameFrame t row fromCol) ?_
  intro r c hr
  rw [blankLoop_grid, if_neg (fun h => hr h.1)]

/-- Blanking some rows. -/
theorem clearRows_marks {t : Terminal} (hlt : t.rows < 2^32) (lo hi : ℕ) :
    Marks t (upTo lo hi (fun r t => clearRow t r 0) t) :=
  upTo_marks hlt fun r _ hlt' => clearRow_marks hlt' r 0

/-- What the loops of `scrollUp` leave for its last `touchAll`. -/
theorem scrollUp_eq_touchAll (t : Terminal) :
    ∃ t', scrollUp t = touchAll t' ∧ Grows t t' ∧ t'.rows = t.rows := by
  obtain ⟨hframe, -⟩ := scrollLoop_spec t
  set t1 := upTo 1 t.rows (fun r t => upTo 0 t.cols (scrollCell r) t) t with ht1
  have hblank := blankLoop_sameFrame t1 (u32 (t1.rows - 1)) 0
  refine ⟨clearRow t1 (u32 (t1.rows - 1)) 0, rfl, ?_, ?_⟩
  · exact hframe.grows.trans (hblank.grows.trans (touchRows_grows _ _ _))
  · unfold clearRow
    rw [(touchRows_paints _ _ _).rows, hblank.rows, hframe.rows]

/-- Scrolling unmarks nothing. -/
theorem scrollUp_grows (t : Terminal) : Grows t (scrollUp t) := by
  obtain ⟨t', heq, hgrows, -⟩ := scrollUp_eq_touchAll t
  rw [heq]
  exact hgrows.trans (touchRows_grows _ _ _)

/-- Scrolling marks every row. -/
theorem scrollUp_marks {t : Terminal} (hlt : t.rows < 2^32) : Marks t (scrollUp t) := by
  obtain ⟨t', heq, hgrows, hrows⟩ := scrollUp_eq_touchAll t
  rw [heq]
  exact Marks.of_touchAll hgrows (by rw [hrows]; exact hlt)

/-- A new line marks what it scrolls. -/
theorem newline_marks {t : Terminal} (hlt : t.rows < 2^32) : Marks t (newline t) := by
  unfold newline
  split
  · exact scrollUp_marks hlt
  · exact moveCursor_marks t _ t.cursorCol

/-- A character marks its row, after the wrap. -/
theorem putChar_marks {t : Terminal} (hlt : t.rows < 2^32) (ch : Byte) :
    Marks t (putChar t ch) := by
  -- The cell goes to the row where the cursor is after a newline at the right edge.
  obtain ⟨t1, ht1, hwrap⟩ : ∃ t1 : Terminal,
      t1 = (if t.cols ≤ t.cursorCol then newline { t with cursorCol := 0 } else t) ∧
        Marks t t1 := by
    refine ⟨_, rfl, ?_⟩
    split
    · have h0 := moveCursor_marks t t.cursorRow 0
      exact h0.trans (newline_marks (h0.rows_lt hlt))
    · exact Marks.refl t
  have hrow := Marks.of_row (hwrap.rows_lt hlt)
    (setCell_sameFrame t1 t1.cursorRow t1.cursorCol ⟨ch, t1.curFg, t1.curBg⟩)
    (fun r c hr => by rw [setCell_grid, if_neg (fun h => hr h.1)])
  unfold putChar
  simp only [← ht1]
  exact hwrap.trans (hrow.trans (moveCursor_marks _ _ _))

/-- The spaces of a tab mark their rows. -/
theorem tabTo_marks (next fuel : ℕ) {t : Terminal} (hlt : t.rows < 2^32) :
    Marks t (tabTo next fuel t) := by
  induction fuel generalizing t with
  | zero => exact Marks.refl t
  | succ fuel ih =>
    unfold tabTo
    split
    · have hput := putChar_marks hlt space
      exact hput.trans (ih (hput.rows_lt hlt))
    · exact Marks.refl t

/-! ## Control sequences -/

/-- `Select graphic rendition` changes no cell. -/
theorem applySgr_marks {t : Terminal} (hlt : t.rows < 2^32) : Marks t (applySgr t) := by
  have hcolors : ∀ (t : Terminal) (fg bg : Color), Marks t { t with curFg := fg, curBg := bg } :=
    fun t fg bg => Marks.of_eq rfl rfl rfl rfl rfl
  unfold applySgr
  split
  · exact hcolors t _ _
  · refine upTo_marks hlt ?_
    intro i t' _
    unfold applySgrCode
    repeat' split
    all_goals first | exact Marks.refl t' | exact hcolors t' _ _

/-- `Erase display` marks the rows it blanks. -/
theorem eraseDisplay_marks {t : Terminal} (hlt : t.rows < 2^32) (a : ℤ) :
    Marks t (eraseDisplay t a) := by
  unfold eraseDisplay
  split
  · exact (clearRows_marks hlt 0 t.rows).trans (moveCursor_marks _ 0 0)
  · split
    · have hrow := clearRow_marks hlt t.cursorRow t.cursorCol
      exact hrow.trans (clearRows_marks (hrow.rows_lt hlt) _ _)
    · split
      · have hrows := clearRows_marks hlt 0 t.cursorRow
        exact hrows.trans (clearRow_marks (hrows.rows_lt hlt) _ _)
      · exact Marks.refl t

/-- `Erase line` marks the cursor's row. -/
theorem eraseLine_marks {t : Terminal} (hlt : t.rows < 2^32) (a : ℤ) :
    Marks t (eraseLine t a) := by
  unfold eraseLine
  split
  · exact clearRow_marks hlt _ _
  · split
    · -- The start of the line is blanked cell by cell, without `clearRow`.
      set t1 := upTo 0 (min (t.cursorCol + 1) t.cols) (fun c t =>
        t.setCell t.cursorRow c { t.grid t.cursorRow c with ch := space }) t with ht1
      obtain ⟨hframe, hgrid⟩ : SameFrame t t1 ∧ ∀ r c, t1.grid r c =
          if r = t.cursorRow ∧ 0 ≤ c ∧ c < min (t.cursorCol + 1) t.cols then
            { t.grid t.cursorRow c with ch := space } else t.grid r c := by
        refine writeRow_spec _ t _ (fun c => { t.grid t.cursorRow c with ch := space }) _ _ ?_
        intro i t' hframe hgrid
        refine ⟨setCell_sameFrame t' _ _ _, fun r c => ?_⟩
        rw [setCell_grid, hframe.cursorRow, hgrid _ _ (Or.inr (Nat.le_refl i))]
      simp only
      rw [hframe.cursorRow]
      refine Marks.of_row hlt hframe fun r c hr => ?_
      rw [hgrid, if_neg (fun h => hr h.1)]
    · split
      · exact clearRow_marks hlt _ _
      · exact Marks.refl t

/-- A control sequence marks what it changes. -/
theorem handleCsi_marks {t : Terminal} (hlt : t.rows < 2^32) (final : Byte) :
    Marks t (handleCsi t final) := by
  unfold handleCsi
  simp only
  split
  · exact moveCursor_marks t _ t.cursorCol
  · exact moveCursor_marks t _ t.cursorCol
  · exact moveCursor_marks t t.cursorRow _
  · exact moveCursor_marks t t.cursorRow _
  · exact moveCursor_marks t _ _
  · exact moveCursor_marks t _ _
  · exact eraseDisplay_marks hlt _
  · exact eraseLine_marks hlt _
  · exact applySgr_marks hlt
  · exact Marks.refl t

/-! ## One byte, one resize, a run -/

/-- Reading a control sequence changes no cell. -/
theorem withParser_marks (t : Terminal) (p : VTParser) : Marks t { t with parser := p } :=
  Marks.of_eq rfl rfl rfl rfl rfl

/-- A byte outside a sequence marks what it changes. -/
theorem feedGround_marks {t : Terminal} (hlt : t.rows < 2^32) (ch : Byte) :
    Marks t (feedGround t ch) := by
  unfold feedGround
  split
  · exact withParser_marks t _
  · split
    · exact newline_marks hlt
    · split
      · exact moveCursor_marks t t.cursorRow 0
      · split
        · split
          · exact moveCursor_marks t t.cursorRow _
          · exact Marks.refl t
        · split
          · exact tabTo_marks _ _ hlt
          · split
            · exact Marks.refl t
            · split
              · exact putChar_marks hlt ch
              · exact Marks.refl t

/-- A byte of a sequence marks what it changes. -/
theorem feedCsi_marks {t : Terminal} (hlt : t.rows < 2^32) (ch : Byte) :
    Marks t (feedCsi t ch) := by
  unfold feedCsi
  simp only
  split
  · exact withParser_marks t _
  · split
    · exact withParser_marks t _
    · split
      · exact Marks.refl t
      · split
        · exact (handleCsi_marks hlt ch).trans (withParser_marks _ _)
        · exact withParser_marks t _

/-- A byte marks what it changes. -/
theorem parserFeed_marks {t : Terminal} (hlt : t.rows < 2^32) (ch : Byte) :
    Marks t (parserFeed t ch) := by
  unfold parserFeed
  split
  · exact feedGround_marks hlt ch
  · unfold feedEscape
    split
    · exact withParser_marks t _
    · exact withParser_marks t _
  · exact feedCsi_marks hlt ch

/-- The cursor and the size do not belong to the range. -/
theorem resized_grows (t : Terminal) (rows cols cursorRow cursorCol : ℕ) :
    Grows t { t with rows := rows, cols := cols, cursorRow := cursorRow, cursorCol := cursorCol } :=
  Grows.of_eq rfl rfl

/-- Scrolling the cursor into view unmarks nothing. -/
theorem scrollIntoView_grows (newRows fuel : ℕ) (t : Terminal) :
    Grows t (scrollIntoView newRows fuel t) := by
  induction fuel generalizing t with
  | zero => exact Grows.of_eq rfl rfl
  | succ fuel ih =>
    unfold scrollIntoView
    split
    · simp only
      have hrows := resized_grows t (u32 (t.cursorRow + 1)) t.cols t.cursorRow t.cursorCol
      set t1 : Terminal := { t with rows := u32 (t.cursorRow + 1) }
      have hscroll := scrollUp_grows t1
      generalize scrollUp t1 = t2 at hscroll ⊢
      have hup := resized_grows t2 t2.rows t2.cols (u32 (t2.cursorRow - 1)) t2.cursorCol
      exact hrows.trans (hscroll.trans (hup.trans (ih _)))
    · exact Grows.of_eq rfl rfl

/-- A resize marks every row. -/
theorem fitGrid_marks (t : Terminal) (width height cellW lineH : ℤ) :
    Marks t (fitGrid t width height cellW lineH) := by
  have hmost : clampCells ((height - kPaddingY * 2).tdiv lineH) kMaxRows ≤ kMaxRows :=
    clampCells_le _ (by decide)
  unfold fitGrid
  simp only
  generalize clampCells ((width - kPaddingX * 2).tdiv cellW) kMaxCols = newCols
  generalize clampCells ((height - kPaddingY * 2).tdiv lineH) kMaxRows = newRows at hmost ⊢
  have hlt : newRows < 2^32 := Nat.lt_of_le_of_lt hmost (by decide)
  -- Cells are filled and rows scrolled without marking; the range must only not shrink meanwhile.
  have hfill : Grows t (upTo 0 newRows (fun r t => upTo (if r < t.rows then t.cols else 0) newCols
      (fun c t => t.setCell r c ⟨space, kColorDefaultFg, kColorBackground⟩) t) t) :=
    (upTo_sameFrame fun r _ => upTo_sameFrame fun c t' => setCell_sameFrame t' r c _).grows
  generalize upTo 0 newRows (fun r t => upTo (if r < t.rows then t.cols else 0) newCols
    (fun c t => t.setCell r c ⟨space, kColorDefaultFg, kColorBackground⟩) t) t = t1 at hfill ⊢
  have hcols := resized_grows t1 t1.rows newCols t1.cursorRow t1.cursorCol
  have hscroll := scrollIntoView_grows newRows (t1.cursorRow + 1) { t1 with cols := newCols }
  generalize scrollIntoView newRows (t1.cursorRow + 1) { t1 with cols := newCols } = t2
    at hscroll ⊢
  have hview := hfill.trans (hcols.trans hscroll)
  split
  · exact Marks.of_touchAll (hview.trans (resized_grows t2 newRows t2.cols t2.cursorRow t2.cols)) hlt
  · exact Marks.of_touchAll
      (hview.trans (resized_grows t2 newRows t2.cols t2.cursorRow t2.cursorCol)) hlt

/-- An event marks what it changes. -/
theorem step_marks {t : Terminal} (hlt : t.rows < 2^32) (e : Event) : Marks t (step t e) := by
  cases e with
  | byte ch => exact parserFeed_marks hlt ch
  | fit width height size => exact fitGrid_marks t width height size.cellW size.lineH

/-- A run marks all that it changes. -/
theorem run_marks {t : Terminal} (hlt : t.rows < 2^32) (es : List Event) :
    Marks t (es.foldl step t) := by
  induction es generalizing t with
  | nil => exact Marks.refl t
  | cons e es ih =>
    have hstep := step_marks hlt e
    exact hstep.trans (ih (hstep.rows_lt hlt))

/-! ## Repainting -/

/-- `flush`: the rows to repaint, if any, after which none counts as changed. -/
def flush (t : Terminal) (paintedCursorRow : ℕ) : Terminal × Option (ℕ × ℕ) :=
  let t := touchRows t paintedCursorRow (u32 (paintedCursorRow + 1))
  ({ t with dirtyTop := 0, dirtyBottom := 0 },
    if t.dirtyTop < t.dirtyBottom then some (t.dirtyTop, t.dirtyBottom) else none)

/-- The cells that the window shows once some rows have been painted again. -/
def repaint (shows : ℕ → ℕ → Cell) (t : Terminal) : Option (ℕ × ℕ) → ℕ → ℕ → Cell
  | none => shows
  | some (top, bottom) => fun r c => if top ≤ r ∧ r < bottom then t.grid r c else shows r c

/-- Every changed row is repainted. -/
theorem repaint_of_dirty {t : Terminal} {r : ℕ} (hd : Dirty t r) (paintedCursorRow : ℕ)
    (shows : ℕ → ℕ → Cell) (c : ℕ) :
    repaint shows t (flush t paintedCursorRow).2 r c = t.grid r c := by
  obtain ⟨htop, hbottom⟩ := touchRows_grows t paintedCursorRow (u32 (paintedCursorRow + 1)) r hd
  unfold flush
  simp only
  rw [if_pos (by omega)]
  unfold repaint
  simp only
  rw [if_pos ⟨htop, hbottom⟩]

/-- A row that is not repainted stays as it was shown. -/
theorem repaint_of_eq {t : Terminal} {shows : ℕ → ℕ → Cell} {r c : ℕ}
    (h : shows r c = t.grid r c) (rows : Option (ℕ × ℕ)) :
    repaint shows t rows r c = t.grid r c := by
  unfold repaint
  split
  · exact h
  · split
    · rfl
    · exact h

/-- After any run of bytes and resizes, a cell in view that differs from what it was, or was not in
view, lies in a row of the range, and a window that showed the cells in view before the run shows
them again once the range is repainted. -/
theorem run_marksChanges {t : Terminal} (hlt : t.rows < 2^32) (es : List Event) :
    (∀ r c, Visible (es.foldl step t) r c →
      (¬ Visible t r c ∨ (es.foldl step t).grid r c ≠ t.grid r c) → Dirty (es.foldl step t) r) ∧
    ∀ (shows : ℕ → ℕ → Cell) (paintedCursorRow : ℕ),
      (∀ r c, Visible t r c → shows r c = t.grid r c) →
      ∀ r c, Visible (es.foldl step t) r c →
        repaint shows (es.foldl step t) (flush (es.foldl step t) paintedCursorRow).2 r c =
          (es.foldl step t).grid r c := by
  have hmarks := run_marks hlt es
  refine ⟨?_, ?_⟩
  · intro r c hv hchanged
    rcases hmarks.cells r c hv with hd | ⟨hv0, heq⟩
    · exact hd
    · rcases hchanged with hnew | hne
      · exact absurd hv0 hnew
      · exact absurd heq hne
  · intro shows paintedCursorRow hshows r c hv
    rcases hmarks.cells r c hv with hd | ⟨hv0, heq⟩
    · exact repaint_of_dirty hd paintedCursorRow shows c
    · exact repaint_of_eq ((hshows r c hv0).trans heq.symm) _

/-- A character and a resize of the terminal as it is created. -/
theorem run_marksChanges_created : ∃ size : CellSize,
    Dirty ([Event.fit 40 56 size, .byte 0x61].foldl step created) 1 :=
  ⟨⟨8, 16, by decide, by decide⟩, (run_marksChanges (t := created) (by decide)
    [.fit 40 56 ⟨8, 16, by decide, by decide⟩, .byte 0x61]).1 1 0 (by decide) (Or.inl (by decide))⟩

end IUserApps.Terminal
