import IUserApps.Terminal.Bounds

/-!
# What the functions of the screen do to its cells

The loops of `clearRow` and `scrollUp` as the cells they leave, and what they leave alone. The range
of changed rows plays no part in a cell, nor the cells in that range.
-/

namespace IUserApps.Terminal

open Loops

/-- A blank cell in the current colours. -/
def blank (t : Terminal) : Cell := ⟨space, t.curFg, t.curBg⟩

/-- A cell that is set is the only one that changes. -/
theorem setCell_grid (t : Terminal) (r c : ℕ) (cell : Cell) (r' c' : ℕ) :
    (t.setCell r c cell).grid r' c' = if r' = r ∧ c' = c then cell else t.grid r' c' := rfl

/-- Widening the range of changed rows leaves the cells. -/
theorem touchRows_grid (t : Terminal) (top bottom : ℕ) :
    (touchRows t top bottom).grid = t.grid := by
  unfold touchRows
  split
  · rfl
  · split <;> rfl

/-- Two terminals differ in their cells only, and in whether there were stray accesses. -/
structure SameFrame (t t' : Terminal) : Prop where
  rows : t'.rows = t.rows
  cols : t'.cols = t.cols
  cursorRow : t'.cursorRow = t.cursorRow
  cursorCol : t'.cursorCol = t.cursorCol
  curFg : t'.curFg = t.curFg
  curBg : t'.curBg = t.curBg
  parser : t'.parser = t.parser
  dirtyTop : t'.dirtyTop = t.dirtyTop
  dirtyBottom : t'.dirtyBottom = t.dirtyBottom

/-- A terminal has its own frame. -/
theorem SameFrame.refl (t : Terminal) : SameFrame t t := ⟨rfl, rfl, rfl, rfl, rfl, rfl, rfl, rfl, rfl⟩

/-- Having the same frame goes through a third. -/
theorem SameFrame.trans {t t' t'' : Terminal} (h : SameFrame t t') (h' : SameFrame t' t'') :
    SameFrame t t'' where
  rows := h'.rows.trans h.rows
  cols := h'.cols.trans h.cols
  cursorRow := h'.cursorRow.trans h.cursorRow
  cursorCol := h'.cursorCol.trans h.cursorCol
  curFg := h'.curFg.trans h.curFg
  curBg := h'.curBg.trans h.curBg
  parser := h'.parser.trans h.parser
  dirtyTop := h'.dirtyTop.trans h.dirtyTop
  dirtyBottom := h'.dirtyBottom.trans h.dirtyBottom

/-- Setting a cell leaves the frame. -/
theorem setCell_sameFrame (t : Terminal) (r c : ℕ) (cell : Cell) :
    SameFrame t (t.setCell r c cell) := ⟨rfl, rfl, rfl, rfl, rfl, rfl, rfl, rfl, rfl⟩

/-- Moving a cell up leaves the frame. -/
theorem scrollCell_sameFrame (row c : ℕ) (t : Terminal) : SameFrame t (scrollCell row c t) := by
  unfold scrollCell
  exact ⟨rfl, rfl, rfl, rfl, rfl, rfl, rfl, rfl, rfl⟩

/-- A loop of passes that write cells only. -/
theorem upTo_sameFrame {body : ℕ → Terminal → Terminal} {lo hi : ℕ} {t : Terminal}
    (h : ∀ i t', SameFrame t' (body i t')) : SameFrame t (upTo lo hi body t) :=
  upTo_keeps (SameFrame t) (SameFrame.refl t) fun i t' _ _ ht => ht.trans (h i t')

/-- Blanking a row leaves the frame. -/
theorem blankLoop_sameFrame (t : Terminal) (row fromCol : ℕ) :
    SameFrame t (upTo fromCol t.cols (fun c t => t.setCell row c ⟨space, t.curFg, t.curBg⟩) t) :=
  upTo_sameFrame fun c t' => setCell_sameFrame t' row c _

/-- A loop whose passes write one cell after another along a row: what they write may depend on the
cells that are still to be written and on those of other rows. -/
theorem writeRow_spec (body : ℕ → Terminal → Terminal) (t : Terminal) (row : ℕ) (new : ℕ → Cell)
    (lo hi : ℕ) (hbody : ∀ i t', SameFrame t t' →
      (∀ r c, r ≠ row ∨ i ≤ c → t'.grid r c = t.grid r c) → SameFrame t' (body i t') ∧
        ∀ r c, (body i t').grid r c = if r = row ∧ c = i then new i else t'.grid r c) :
    SameFrame t (upTo lo hi body t) ∧ ∀ r c, (upTo lo hi body t).grid r c =
      if r = row ∧ lo ≤ c ∧ c < hi then new c else t.grid r c := by
  rcases Nat.le_total lo hi with hle | hle
  · -- Before a pass the cells of the row up to its own are written, and no others.
    refine upTo_rule (fun i t' => SameFrame t t' ∧ ∀ r c, t'.grid r c =
      if r = row ∧ lo ≤ c ∧ c < i then new c else t.grid r c) hle ?_ ?_
    · refine ⟨SameFrame.refl t, fun r c => ?_⟩
      rw [if_neg (by omega)]
    · rintro i t' hl - ⟨hframe, hgrid⟩
      obtain ⟨hsame, hcell⟩ := hbody i t' hframe fun r c h => by rw [hgrid, if_neg (by omega)]
      refine ⟨hframe.trans hsame, fun r c => ?_⟩
      rw [hcell, hgrid]
      by_cases hnow : r = row ∧ c = i
      · rw [if_pos hnow, if_pos (by omega), hnow.2]
      · rw [if_neg hnow]
        by_cases hdone : r = row ∧ lo ≤ c ∧ c < i
        · rw [if_pos hdone, if_pos (by omega)]
        · rw [if_neg hdone, if_neg (by omega)]
  · rw [upTo_of_le hle]
    refine ⟨SameFrame.refl t, fun r c => ?_⟩
    rw [if_neg (by omega)]

/-- The loop of `clearRow` blanks the row's cells from a column on. -/
theorem blankLoop_grid (t : Terminal) (row fromCol r c : ℕ) :
    (upTo fromCol t.cols (fun c t => t.setCell row c ⟨space, t.curFg, t.curBg⟩) t).grid r c =
      if r = row ∧ fromCol ≤ c ∧ c < t.cols then t.blank else t.grid r c := by
  refine (writeRow_spec _ t row (fun _ => t.blank) fromCol t.cols ?_).2 r c
  intro i t' hframe _
  refine ⟨setCell_sameFrame t' _ _ _, fun r c => ?_⟩
  rw [setCell_grid, hframe.curFg, hframe.curBg]
  rfl

/-- `clearRow` blanks a row's cells from a column on. -/
theorem clearRow_grid (t : Terminal) (row fromCol r c : ℕ) :
    (clearRow t row fromCol).grid r c =
      if r = row ∧ fromCol ≤ c ∧ c < t.cols then t.blank else t.grid r c := by
  unfold clearRow
  rw [touchRows_grid]
  exact blankLoop_grid t row fromCol r c

/-- A loop of `clearRow` blanks the rows that it passes. -/
theorem clearRows_grid {t : Terminal} {lo hi : ℕ} (hhi : hi ≤ kMaxRows) (hcols : t.cols ≤ kMaxCols)
    (r c : ℕ) : (upTo lo hi (fun r t => clearRow t r 0) t).grid r c =
      if lo ≤ r ∧ r < hi ∧ c < t.cols then t.blank else t.grid r c := by
  rcases Nat.le_total lo hi with hle | hle
  · refine (upTo_rule (fun i t' => Paints t t' ∧ ∀ r c, t'.grid r c =
      if lo ≤ r ∧ r < i ∧ c < t.cols then t.blank else t.grid r c) hle ?_ ?_).2 r c
    · refine ⟨Paints.refl t, fun r c => ?_⟩
      rw [if_neg (by omega)]
    · rintro i t' hl hh ⟨hp, hgrid⟩
      have hcols' : t'.cols ≤ kMaxCols := by rw [hp.cols]; exact hcols
      refine ⟨hp.trans (clearRow_paints 0 (by omega) hcols'), fun r c => ?_⟩
      -- The colours have not changed, so this row is blanked like those before it.
      have hblank : t'.blank = t.blank := by simp [blank, hp.curFg, hp.curBg]
      rw [clearRow_grid, hblank, hp.cols, hgrid]
      by_cases hrow : r = i ∧ c < t.cols
      · rw [if_pos (by omega), if_pos (by omega)]
      · rw [if_neg (by omega)]
        by_cases hdone : lo ≤ r ∧ r < i ∧ c < t.cols
        · rw [if_pos hdone, if_pos (by omega)]
        · rw [if_neg hdone, if_neg (by omega)]
  · rw [upTo_of_le hle, if_neg (by omega)]

/-- A row of the loop of `scrollUp`: the cells above become those of the row. -/
theorem scrollRow_grid (t : Terminal) {row : ℕ} (hrow : 1 ≤ row) (r c : ℕ) :
    (upTo 0 t.cols (scrollCell row) t).grid r c =
      if r + 1 = row ∧ c < t.cols then t.grid row c else t.grid r c := by
  have hspec := (writeRow_spec (scrollCell row) t (row - 1) (t.grid row) 0 t.cols ?_).2 r c
  · rw [hspec]
    by_cases hcell : r + 1 = row ∧ c < t.cols
    · rw [if_pos hcell, if_pos (by omega)]
    · rw [if_neg hcell, if_neg (by omega)]
  · intro i t' _ hgrid
    refine ⟨scrollCell_sameFrame row i t', fun r c => ?_⟩
    -- The row that moves is not the one that the loop writes.
    have hsource : t'.grid row i = t.grid row i := hgrid row i (Or.inl (by omega))
    rw [← hsource]
    rfl

/-- The loop of `scrollUp` moves every row in use up by one. -/
theorem scrollLoop_spec (t : Terminal) :
    SameFrame t (upTo 1 t.rows (fun r t => upTo 0 t.cols (scrollCell r) t) t) ∧
      ∀ r c, (upTo 1 t.rows (fun r t => upTo 0 t.cols (scrollCell r) t) t).grid r c =
        if r + 1 < t.rows ∧ c < t.cols then t.grid (r + 1) c else t.grid r c := by
  rcases Nat.le_total 1 t.rows with hle | hle
  · refine upTo_rule (fun i t' => SameFrame t t' ∧ ∀ r c, t'.grid r c =
      if r + 1 < i ∧ c < t.cols then t.grid (r + 1) c else t.grid r c) hle ?_ ?_
    · refine ⟨SameFrame.refl t, fun r c => ?_⟩
      rw [if_neg (by omega)]
    · rintro i t' hl hh ⟨hframe, hgrid⟩
      refine ⟨hframe.trans (upTo_sameFrame (scrollCell_sameFrame i)), fun r c => ?_⟩
      have hsource : t'.grid i c = t.grid i c := by
        rw [hgrid, if_neg (by omega)]
      rw [scrollRow_grid t' hl, hsource, hgrid r c, hframe.cols]
      by_cases hrow : r + 1 = i ∧ c < t.cols
      · rw [if_pos hrow, if_pos (by omega), hrow.1]
      · rw [if_neg hrow]
        by_cases hdone : r + 1 < i ∧ c < t.cols
        · rw [if_pos hdone, if_pos (by omega)]
        · rw [if_neg hdone, if_neg (by omega)]
  · rw [upTo_of_le hle]
    refine ⟨SameFrame.refl t, fun r c => ?_⟩
    rw [if_neg (by omega)]

/-- `scrollUp` moves every row in use up by one and blanks the last. -/
theorem scrollUp_grid {t : Terminal} (hpos : 1 ≤ t.rows) (hlt : t.rows < 2^32) (r c : ℕ) :
    (scrollUp t).grid r c =
      if r < t.rows ∧ c < t.cols then
        if r + 1 < t.rows then t.grid (r + 1) c else t.blank
      else t.grid r c := by
  obtain ⟨hframe, hgrid⟩ := scrollLoop_spec t
  have hlast : u32 (t.rows - 1) = t.rows - 1 := by
    unfold u32
    omega
  unfold scrollUp touchAll
  simp only
  rw [touchRows_grid, clearRow_grid, hframe.rows, hframe.cols, hlast, hgrid]
  have hblank : (upTo 1 t.rows (fun r t => upTo 0 t.cols (scrollCell r) t) t).blank = t.blank := by
    unfold blank
    rw [hframe.curFg, hframe.curBg]
  rw [hblank]
  by_cases hin : r < t.rows ∧ c < t.cols
  · rw [if_pos hin]
    by_cases hmoves : r + 1 < t.rows
    · rw [if_neg (by omega), if_pos (by omega), if_pos hmoves]
    · rw [if_pos (by omega), if_neg hmoves]
  · rw [if_neg hin, if_neg (by omega), if_neg (by omega)]

end IUserApps.Terminal
