import IUserApps.Runs
import IUserApps.Terminal.Parser

/-!
# The terminal stays in bounds

`Bounded` is what every function of the terminal relies on: the rows and columns in use lie within
the storage, the cursor lies in view (one column past the last is the pending wrap), and no access
has gone outside the storage. The drawing functions only paint (`Paints`): they change cells and
the range of changed rows, and nothing else. A movement by a parameter keeps the cursor in view
when the parameter is not negative, which holds as long as no parameter outgrows an `int`.

The main result is `bounded_iff_numeralFits`: over any run of bytes and resizes, the bounds hold
and no computation of a parameter overflows exactly when no digit takes a parameter past the
largest `int`. A program that writes a longer numeral takes the cursor out of the grid.
-/

namespace IUserApps.Terminal

open Loops Runs

/-- The bounds of the terminal. -/
structure Bounded (t : Terminal) : Prop where
  rows_pos : 1 ≤ t.rows
  rows_le : t.rows ≤ kMaxRows
  cols_pos : 1 ≤ t.cols
  cols_le : t.cols ≤ kMaxCols
  cursorRow_lt : t.cursorRow < t.rows
  cursorCol_le : t.cursorCol ≤ t.cols
  paramCount_le : t.parser.paramCount ≤ 8
  inside : t.stray = false

/-! ## Painting -/

/-- `t'` differs from `t` only in its cells and in the range of changed rows. -/
structure Paints (t t' : Terminal) : Prop where
  rows : t'.rows = t.rows
  cols : t'.cols = t.cols
  cursorRow : t'.cursorRow = t.cursorRow
  cursorCol : t'.cursorCol = t.cursorCol
  curFg : t'.curFg = t.curFg
  curBg : t'.curBg = t.curBg
  parser : t'.parser = t.parser
  stray : t'.stray = t.stray

/-- A terminal paints into itself. -/
theorem Paints.refl (t : Terminal) : Paints t t := ⟨rfl, rfl, rfl, rfl, rfl, rfl, rfl, rfl⟩

/-- Painting twice is painting. -/
theorem Paints.trans {t t' t'' : Terminal} (h : Paints t t') (h' : Paints t' t'') :
    Paints t t'' where
  rows := h'.rows.trans h.rows
  cols := h'.cols.trans h.cols
  cursorRow := h'.cursorRow.trans h.cursorRow
  cursorCol := h'.cursorCol.trans h.cursorCol
  curFg := h'.curFg.trans h.curFg
  curBg := h'.curBg.trans h.curBg
  parser := h'.parser.trans h.parser
  stray := h'.stray.trans h.stray

/-- Painting keeps the bounds. -/
theorem Bounded.paints {t t' : Terminal} (h : Bounded t) (hp : Paints t t') : Bounded t' where
  rows_pos := by rw [hp.rows]; exact h.rows_pos
  rows_le := by rw [hp.rows]; exact h.rows_le
  cols_pos := by rw [hp.cols]; exact h.cols_pos
  cols_le := by rw [hp.cols]; exact h.cols_le
  cursorRow_lt := by rw [hp.rows, hp.cursorRow]; exact h.cursorRow_lt
  cursorCol_le := by rw [hp.cols, hp.cursorCol]; exact h.cursorCol_le
  paramCount_le := by rw [hp.parser]; exact h.paramCount_le
  inside := by rw [hp.stray]; exact h.inside

/-- A loop paints when every pass does, from any state that only painting leads to. -/
theorem upTo_paints (body : ℕ → Terminal → Terminal) (lo hi : ℕ) (t : Terminal)
    (h : ∀ i t', lo ≤ i → i < hi → Paints t t' → Paints t' (body i t')) :
    Paints t (upTo lo hi body t) := by
  refine upTo_keeps (Paints t) (Paints.refl t) ?_
  intro i t' hl hh ht
  exact ht.trans (h i t' hl hh ht)

/-- An access inside the storage leaves no trace. -/
theorem check_paints (t : Terminal) {r c : ℕ} (hr : r < kMaxRows) (hc : c < kMaxCols) :
    Paints t (t.check r c) := by
  have hs : (t.check r c).stray = t.stray := by simp [check, hr, hc]
  exact ⟨rfl, rfl, rfl, rfl, rfl, rfl, rfl, hs⟩

/-- Writing a cell of the storage paints. -/
theorem setCell_paints (t : Terminal) {r c : ℕ} (cell : Cell) (hr : r < kMaxRows)
    (hc : c < kMaxCols) : Paints t (t.setCell r c cell) := by
  have h := check_paints t hr hc
  exact ⟨h.rows, h.cols, h.cursorRow, h.cursorCol, h.curFg, h.curBg, h.parser, h.stray⟩

/-- Marking rows writes no cell. -/
theorem touchRows_paints (t : Terminal) (top bottom : ℕ) : Paints t (touchRows t top bottom) := by
  unfold touchRows
  split
  · exact Paints.refl t
  · split
    · exact ⟨rfl, rfl, rfl, rfl, rfl, rfl, rfl, rfl⟩
    · exact ⟨rfl, rfl, rfl, rfl, rfl, rfl, rfl, rfl⟩

/-- Blanking a row of the storage paints. -/
theorem clearRow_paints {t : Terminal} {row : ℕ} (fromCol : ℕ) (hr : row < kMaxRows)
    (hc : t.cols ≤ kMaxCols) : Paints t (clearRow t row fromCol) := by
  have hloop := upTo_paints (fun c t => t.setCell row c ⟨space, t.curFg, t.curBg⟩) fromCol
    t.cols t
    (fun c t' _ hlt _ => setCell_paints t' _ hr (by omega))
  exact hloop.trans (touchRows_paints _ _ _)

/-- Blanking some rows of the storage paints. -/
theorem clearRows_paints {t : Terminal} (lo hi : ℕ) (hr : hi ≤ kMaxRows)
    (hc : t.cols ≤ kMaxCols) : Paints t (upTo lo hi (fun r t => clearRow t r 0) t) := by
  refine upTo_paints _ _ _ t ?_
  intro r t' _ hlt ht
  have hc' : t'.cols ≤ kMaxCols := by rw [ht.cols]; exact hc
  exact clearRow_paints 0 (by omega) hc'

/-- Scrolling paints, when the rows and columns in use lie within the storage. -/
theorem scrollUp_paints {t : Terminal} (h1 : 1 ≤ t.rows) (hr : t.rows ≤ kMaxRows)
    (hc : t.cols ≤ kMaxCols) : Paints t (scrollUp t) := by
  have hcell : ∀ r c (t' : Terminal), r < kMaxRows → c < kMaxCols →
      Paints t' (scrollCell r c t') := by
    intro r c t' hr' hc'
    have h := check_paints t' hr' hc'
    exact h.trans (setCell_paints _ _ (by omega) hc')
  have hloop : Paints t (upTo 1 t.rows (fun r t => upTo 0 t.cols (scrollCell r) t) t) := by
    refine upTo_paints _ _ _ t ?_
    intro r t' _ hlt ht
    refine upTo_paints _ _ _ t' ?_
    intro c t'' _ hclt _
    rw [ht.cols] at hclt
    exact hcell r c t'' (by omega) (by omega)
  unfold scrollUp
  set t' := upTo 1 t.rows (fun r t => upTo 0 t.cols (scrollCell r) t) t
  have hlast : u32 (t'.rows - 1) < kMaxRows := by
    have := hloop.rows
    unfold u32 kMaxRows at *
    omega
  have hc' : t'.cols ≤ kMaxCols := by rw [hloop.cols]; exact hc
  exact hloop.trans ((clearRow_paints 0 hlast hc').trans (touchRows_paints _ _ _))

/-! ## The functions of the screen -/

/-- A new line keeps the bounds, and moves the cursor neither sideways nor out of the parser. -/
theorem newline_bounded {t : Terminal} (h : Bounded t) :
    Bounded (newline t) ∧ (newline t).parser = t.parser ∧
      (newline t).cursorCol = t.cursorCol := by
  have hlt := h.cursorRow_lt
  have hle := h.rows_le
  unfold newline
  split
  · have hp := scrollUp_paints h.rows_pos h.rows_le h.cols_le
    exact ⟨h.paints hp, hp.parser, hp.cursorCol⟩
  · next hn =>
    refine ⟨⟨h.rows_pos, h.rows_le, h.cols_pos, h.cols_le, ?_, h.cursorCol_le, h.paramCount_le,
      h.inside⟩, rfl, rfl⟩
    show u32 (t.cursorRow + 1) < t.rows
    omega

/-- A character keeps the bounds: it wraps to a new line first when the row is full. -/
theorem putChar_bounded {t : Terminal} (h : Bounded t) (ch : Byte) :
    Bounded (putChar t ch) ∧ (putChar t ch).parser = t.parser := by
  -- After the wrap there is a column for the character.
  obtain ⟨t1, ht1, hb1, hp1, hcol⟩ : ∃ t1 : Terminal,
      t1 = (if t.cols ≤ t.cursorCol then newline { t with cursorCol := 0 } else t) ∧
        Bounded t1 ∧ t1.parser = t.parser ∧ t1.cursorCol < t1.cols := by
    refine ⟨_, rfl, ?_⟩
    split
    · have h0 : Bounded { t with cursorCol := 0 } :=
        ⟨h.rows_pos, h.rows_le, h.cols_pos, h.cols_le, h.cursorRow_lt, Nat.zero_le _,
          h.paramCount_le, h.inside⟩
      obtain ⟨hb, hp, hc⟩ := newline_bounded h0
      have hpos := hb.cols_pos
      exact ⟨hb, hp, by rw [hc]; exact hpos⟩
    · next hn => exact ⟨h, rfl, by omega⟩
  have hput : putChar t ch = { touchRows (t1.setCell t1.cursorRow t1.cursorCol
      ⟨ch, t1.curFg, t1.curBg⟩) t1.cursorRow (u32 (t1.cursorRow + 1)) with
        cursorCol := u32 (t1.cursorCol + 1) } := by
    rw [ht1]
    unfold putChar
    simp only [(touchRows_paints _ _ _).cursorCol, setCell, check]
  have hrow : t1.cursorRow < kMaxRows := by
    have h1 := hb1.cursorRow_lt
    have h2 := hb1.rows_le
    omega
  have hcol' : t1.cursorCol < kMaxCols := by
    have h2 := hb1.cols_le
    omega
  have hp := (setCell_paints t1 ⟨ch, t1.curFg, t1.curBg⟩ hrow hcol').trans
    (touchRows_paints _ t1.cursorRow (u32 (t1.cursorRow + 1)))
  have hb := hb1.paints hp
  rw [hput]
  refine ⟨⟨hb.rows_pos, hb.rows_le, hb.cols_pos, hb.cols_le, hb.cursorRow_lt, ?_,
    hb.paramCount_le, hb.inside⟩, hp.parser.trans hp1⟩
  show u32 (t1.cursorCol + 1) ≤ _
  rw [hp.cols]
  unfold u32 kMaxCols at *
  omega

/-- A tab keeps the bounds. -/
theorem tabTo_bounded (next fuel : ℕ) {t : Terminal} (h : Bounded t) :
    Bounded (tabTo next fuel t) ∧ (tabTo next fuel t).parser = t.parser := by
  induction fuel generalizing t with
  | zero => exact ⟨h, rfl⟩
  | succ fuel ih =>
    unfold tabTo
    split
    · obtain ⟨hb, hp⟩ := putChar_bounded h space
      obtain ⟨hb', hp'⟩ := ih hb
      exact ⟨hb', hp'.trans hp⟩
    · exact ⟨h, rfl⟩

/-! ## Control sequences -/

/-- A movement back never moves on, when its parameter is a non-negative `int` and the position is
one. -/
theorem moveBack_le {pos : ℕ} {a : ℤ} (h0 : 0 ≤ a) (ha : a < 2^31) (hp : pos < 2^31) :
    moveBack pos a ≤ pos := by
  have hpos : int32 pos = pos := int32_of_fits ⟨by omega, by omega⟩
  have hby : 0 ≤ moveBy a ∧ moveBy a < 2^31 := by
    unfold moveBy
    split <;> omega
  have hu : (u32 (moveBy a) : ℤ) = moveBy a := u32_of_lt hby.1 (by omega)
  unfold moveBack
  rw [hpos]
  split
  · next hle =>
    have hr := u32_of_lt (z := (pos : ℤ) - (u32 (moveBy a) : ℕ)) (by omega) (by omega)
    omega
  · simp [u32]

/-- A movement on stays before the end, whatever its parameter. -/
theorem moveOn_lt (pos : ℕ) {count : ℕ} (a : ℤ) (h1 : 1 ≤ count) (hc : count < 2^32) :
    moveOn pos count a < count := by
  have hlast := u32_of_lt (z := (count : ℤ) - 1) (by omega) (by omega)
  unfold moveOn
  split <;> omega

/-- A position given by a parameter is before the end, whatever the parameter. -/
theorem moveTo_lt {count : ℕ} (a : ℤ) (h1 : 1 ≤ count) (hc : count < 2^32) :
    moveTo count a < count := by
  have hlast := u32_of_lt (z := (count : ℤ) - 1) (by omega) (by omega)
  unfold moveTo
  simp only
  split <;> split at * <;> omega

/-- Moving the cursor within view keeps the bounds. -/
theorem Bounded.moveCursor {t : Terminal} (h : Bounded t) {r c : ℕ} (hr : r < t.rows)
    (hc : c ≤ t.cols) : Bounded { t with cursorRow := r, cursorCol := c } :=
  ⟨h.rows_pos, h.rows_le, h.cols_pos, h.cols_le, hr, hc, h.paramCount_le, h.inside⟩

/-- `Select graphic rendition` changes colours only. -/
theorem applySgr_bounded {t : Terminal} (h : Bounded t) :
    Bounded (applySgr t) ∧ (applySgr t).parser = t.parser := by
  have hcolors : ∀ {t : Terminal} (fg bg : Color), Bounded t →
      Bounded { t with curFg := fg, curBg := bg } := by
    intro t fg bg ht
    exact ⟨ht.rows_pos, ht.rows_le, ht.cols_pos, ht.cols_le, ht.cursorRow_lt, ht.cursorCol_le,
      ht.paramCount_le, ht.inside⟩
  have hcode : ∀ (t : Terminal) (code : ℤ),
      ∃ fg bg, applySgrCode t code = { t with curFg := fg, curBg := bg } := by
    intro t code
    unfold applySgrCode
    repeat' split
    all_goals exact ⟨_, _, rfl⟩
  unfold applySgr
  split
  · exact ⟨hcolors _ _ h, rfl⟩
  · refine upTo_keeps (fun t' => Bounded t' ∧ t'.parser = t.parser) ⟨h, rfl⟩ ?_
    intro i t' _ _ ⟨hb, hp⟩
    obtain ⟨fg, bg, hrun⟩ := hcode t' (t'.parser.params i)
    rw [hrun]
    exact ⟨hcolors fg bg hb, hp⟩

/-- `Erase display` keeps the bounds. -/
theorem eraseDisplay_bounded {t : Terminal} (h : Bounded t) (a : ℤ) :
    Bounded (eraseDisplay t a) ∧ (eraseDisplay t a).parser = t.parser := by
  have hrow : t.cursorRow < kMaxRows := Nat.lt_of_lt_of_le h.cursorRow_lt h.rows_le
  unfold eraseDisplay
  split
  · have hp := clearRows_paints (t := t) 0 t.rows h.rows_le h.cols_le
    have hb := h.paints hp
    exact ⟨hb.moveCursor hb.rows_pos (Nat.zero_le _), hp.parser⟩
  · split
    · have h1 := clearRow_paints t.cursorCol hrow h.cols_le
      have hb := h.paints h1
      have h2 := clearRows_paints (u32 ((clearRow t t.cursorRow t.cursorCol).cursorRow + 1))
        _ hb.rows_le hb.cols_le
      have hp := h1.trans h2
      exact ⟨h.paints hp, hp.parser⟩
    · split
      · have h1 := clearRows_paints (t := t) 0 t.cursorRow (by omega) h.cols_le
        have hb := h.paints h1
        have h2 := clearRow_paints 0 (Nat.lt_of_lt_of_le hb.cursorRow_lt hb.rows_le) hb.cols_le
        have hp := h1.trans h2
        exact ⟨h.paints hp, hp.parser⟩
      · exact ⟨h, rfl⟩

/-- `Erase line` paints the cursor's row. -/
theorem eraseLine_paints {t : Terminal} (h : Bounded t) (a : ℤ) : Paints t (eraseLine t a) := by
  have hrow : t.cursorRow < kMaxRows := Nat.lt_of_lt_of_le h.cursorRow_lt h.rows_le
  have hcols := h.cols_le
  unfold eraseLine
  split
  · exact clearRow_paints _ hrow h.cols_le
  · split
    · have hloop := upTo_paints
        (fun c t => t.setCell t.cursorRow c { t.grid t.cursorRow c with ch := space }) 0
        (min (t.cursorCol + 1) t.cols) t
        (fun c t' _ hlt ht => setCell_paints t' _ (by rw [ht.cursorRow]; exact hrow) (by omega))
      exact hloop.trans (touchRows_paints _ _ _)
    · split
      · exact clearRow_paints _ hrow h.cols_le
      · exact Paints.refl t

/-- Every parameter of the control sequence being read is a non-negative `int`. -/
def ParamsFit (p : VTParser) : Prop := ∀ i, 0 ≤ p.params i ∧ p.params i < 2^31

/-- A control sequence keeps the bounds when its parameters are non-negative. -/
theorem handleCsi_bounded {t : Terminal} (h : Bounded t) (hfit : ParamsFit t.parser)
    (final : Byte) : Bounded (handleCsi t final) ∧ (handleCsi t final).parser = t.parser := by
  have hrows : t.rows < 2^32 := Nat.lt_of_le_of_lt h.rows_le (by decide)
  have hcols : t.cols < 2^32 := Nat.lt_of_le_of_lt h.cols_le (by decide)
  have hrow := h.cursorRow_lt
  have hcol := h.cursorCol_le
  have hrowI : t.cursorRow < 2^31 := by
    have := h.rows_le
    unfold kMaxRows at this
    omega
  have hcolI : t.cursorCol < 2^31 := by
    have := h.cols_le
    unfold kMaxCols at this
    omega
  unfold handleCsi
  simp only
  -- A parameter that is missing is 0; the others are not negative.
  set a : ℤ := if 0 < t.parser.paramCount then t.parser.params 0 else 0 with ha
  set b : ℤ := if 1 < t.parser.paramCount then t.parser.params 1 else 0
  obtain ⟨ha0, ha1⟩ : 0 ≤ a ∧ a < 2^31 := by
    rw [ha]
    split
    · exact hfit 0
    · decide
  split
  · have hup := moveBack_le ha0 ha1 hrowI
    exact ⟨h.moveCursor (by omega) hcol, rfl⟩
  · exact ⟨h.moveCursor (moveOn_lt _ a h.rows_pos hrows) hcol, rfl⟩
  · have hon := moveOn_lt t.cursorCol a h.cols_pos hcols
    exact ⟨h.moveCursor hrow (by omega), rfl⟩
  · have hback := moveBack_le ha0 ha1 hcolI
    exact ⟨h.moveCursor hrow (by omega), rfl⟩
  · have hto := moveTo_lt b h.cols_pos hcols
    exact ⟨h.moveCursor (moveTo_lt a h.rows_pos hrows) (by omega), rfl⟩
  · have hto := moveTo_lt b h.cols_pos hcols
    exact ⟨h.moveCursor (moveTo_lt a h.rows_pos hrows) (by omega), rfl⟩
  · exact eraseDisplay_bounded h a
  · have hp := eraseLine_paints h a
    exact ⟨h.paints hp, hp.parser⟩
  · exact applySgr_bounded h
  · exact ⟨h, rfl⟩

/-! ## One byte -/

/-- The computations that the byte makes with parameters stay in the range of an `int`: a digit's
multiplication and addition, and the subtractions of a cursor position. -/
def ParamsInRange (t : Terminal) (ch : Byte) : Prop :=
  t.parser.state = .csi →
    (isDigit ch = true →
      FitsInt (t.parser.params (t.parser.countAtDigit - 1) * 10) ∧
        FitsInt (t.parser.digitValue ch)) ∧
    ((ch.toNat = 'H'.toNat ∨ ch.toNat = 'f'.toNat) →
      ∀ i < 2, 0 < t.parser.params i → FitsInt (t.parser.params i - 1))

/-- A digit of a parameter that the largest `int`, 2147483647, has room for: the number read so far
is below 214748364, or it is that number and the digit is at most seven. -/
def NumeralFits (t : Terminal) (ch : Byte) : Prop :=
  t.parser.state = .csi → isDigit ch = true →
    t.parser.params (t.parser.countAtDigit - 1) < 214748364 ∨
      t.parser.params (t.parser.countAtDigit - 1) = 214748364 ∧ ch.toNat ≤ '7'.toNat

/-- The terminal's invariant while every numeral fits. -/
structure Sound (t : Terminal) : Prop where
  bounded : Bounded t
  params : ParamsFit t.parser

/-- With the parameters in range so far, a byte's computations are in range exactly when its
numeral fits. -/
theorem paramsInRange_iff {t : Terminal} (h : ParamsFit t.parser) (ch : Byte) :
    ParamsInRange t ch ↔ NumeralFits t ch := by
  obtain ⟨h0, h1⟩ := h (t.parser.countAtDigit - 1)
  unfold ParamsInRange NumeralFits FitsInt
  constructor
  · intro hr hs hd
    obtain ⟨-, hv⟩ := (hr hs).1 hd
    unfold VTParser.digitValue isDigit at *
    simp only [Char.reduceToNat, Bool.and_eq_true, decide_eq_true_eq] at *
    omega
  · intro hn hs
    refine ⟨?_, ?_⟩
    · intro hd
      have hroom := hn hs hd
      unfold VTParser.digitValue isDigit at *
      simp only [Char.reduceToNat, Bool.and_eq_true, decide_eq_true_eq] at *
      omega
    · intro _ i _ hpos
      have hi := h i
      omega

/-- A digit whose numeral fits leaves the parameters non-negative `int`s. -/
theorem digit_paramsFit {p : VTParser} (h : ParamsFit p) {ch : Byte} (hd : isDigit ch = true)
    (hv : FitsInt (p.digitValue ch)) :
    ParamsFit { p with
      paramCount := p.countAtDigit
      params := Function.update p.params (p.countAtDigit - 1) (int32 (p.digitValue ch))
      paramStarted := true } := by
  intro i
  by_cases hi : i = p.countAtDigit - 1
  · subst hi
    have h0 := (h (p.countAtDigit - 1)).1
    have hnn : 0 ≤ p.digitValue ch := by
      unfold VTParser.digitValue isDigit at *
      simp only [Char.reduceToNat, Bool.and_eq_true, decide_eq_true_eq] at *
      omega
    rw [int32_of_fits hv]
    simpa using ⟨hnn, hv.2⟩
  · simpa [hi] using h i

/-- `;` starts a parameter with zero. -/
theorem next_paramsFit {p : VTParser} (h : ParamsFit p) (count : ℕ) :
    ParamsFit { p with
      paramCount := count
      params := if 0 < count ∧ count ≤ 8 then Function.update p.params (count - 1) 0
        else p.params } := by
  intro i
  have hi := h i
  show 0 ≤ (if _ then _ else _ : ℕ → ℤ) i ∧ (if _ then _ else _ : ℕ → ℤ) i < 2^31
  split
  · by_cases hc : i = count - 1
    · subst hc
      simp
    · simpa [hc] using hi
  · exact hi

/-- Changing the parser keeps the bounds, when it counts at most eight parameters. -/
theorem Bounded.withParser {t : Terminal} (h : Bounded t) {p : VTParser} (hp : p.paramCount ≤ 8) :
    Bounded { t with parser := p } :=
  ⟨h.rows_pos, h.rows_le, h.cols_pos, h.cols_le, h.cursorRow_lt, h.cursorCol_le, hp, h.inside⟩

/-- A byte outside a control sequence keeps the bounds and the parameters. -/
theorem feedGround_bounded {t : Terminal} (h : Bounded t) (ch : Byte) :
    Bounded (feedGround t ch) ∧ (feedGround t ch).parser.params = t.parser.params := by
  have hcol := h.cursorCol_le
  unfold feedGround
  split
  · exact ⟨h.withParser h.paramCount_le, rfl⟩
  · split
    · obtain ⟨hb, hp, -⟩ := newline_bounded h
      exact ⟨hb, by rw [hp]⟩
    · split
      · exact ⟨h.moveCursor h.cursorRow_lt (Nat.zero_le _), rfl⟩
      · split
        · split
          · exact ⟨h.moveCursor h.cursorRow_lt (by omega), rfl⟩
          · exact ⟨h, rfl⟩
        · split
          · obtain ⟨hb, hp⟩ := tabTo_bounded (u32 ((t.cursorCol + 8) / 8 * 8)) 8 h
            exact ⟨hb, by rw [hp]⟩
          · split
            · exact ⟨h, rfl⟩
            · split
              · obtain ⟨hb, hp⟩ := putChar_bounded h ch
                exact ⟨hb, by rw [hp]⟩
              · exact ⟨h, rfl⟩

/-- A byte of a control sequence keeps the invariant when its numeral fits. -/
theorem feedCsi_sound {t : Terminal} (h : Sound t) {ch : Byte} (hs : t.parser.state = .csi)
    (hfit : NumeralFits t ch) : Sound (feedCsi t ch) := by
  have hcount := h.bounded.paramCount_le
  have hrange := (paramsInRange_iff h.params ch).2 hfit hs
  unfold feedCsi
  simp only
  split
  · next hd =>
    have hdigit := digit_paramsFit h.params hd (hrange.1 hd).2
    refine ⟨h.bounded.withParser ?_, hdigit⟩
    show t.parser.countAtDigit ≤ 8
    unfold VTParser.countAtDigit
    split <;> omega
  · split
    · have hnext : (if t.parser.paramCount < 8 then t.parser.paramCount + 1
          else t.parser.paramCount) ≤ 8 := by
        split <;> omega
      exact ⟨h.bounded.withParser hnext, next_paramsFit h.params _⟩
    · split
      · exact h
      · split
        · obtain ⟨hb, hp⟩ := handleCsi_bounded h.bounded h.params ch
          refine ⟨hb.withParser hb.paramCount_le, ?_⟩
          intro i
          show 0 ≤ (handleCsi t ch).parser.params i ∧ (handleCsi t ch).parser.params i < 2^31
          rw [hp]
          exact h.params i
        · exact ⟨h.bounded.withParser h.bounded.paramCount_le, h.params⟩

/-- One byte keeps the invariant when its numeral fits. -/
theorem parserFeed_sound {t : Terminal} (h : Sound t) {ch : Byte} (hfit : NumeralFits t ch) :
    Sound (parserFeed t ch) := by
  unfold parserFeed
  split
  · obtain ⟨hb, hp⟩ := feedGround_bounded h.bounded ch
    refine ⟨hb, ?_⟩
    intro i
    rw [hp]
    exact h.params i
  · unfold feedEscape
    split
    · refine ⟨h.bounded.withParser (Nat.zero_le _), ?_⟩
      intro i
      show (0 : ℤ) ≤ 0 ∧ (0 : ℤ) < 2^31
      decide
    · exact ⟨h.bounded.withParser h.bounded.paramCount_le, h.params⟩
  · next hs => exact feedCsi_sound h hs hfit

/-! ## Resizing -/

/-- There is at least one row and one column. -/
theorem clampCells_pos (n : ℤ) {most : ℕ} (hm : 1 ≤ most) : 1 ≤ clampCells n most := by
  unfold clampCells
  split_ifs <;> omega

/-- There are no more rows and columns than the grid has. -/
theorem clampCells_le (n : ℤ) {most : ℕ} (hm : 1 ≤ most) : clampCells n most ≤ most := by
  unfold clampCells
  split_ifs <;> omega

/-- What `scrollIntoView` needs of the terminal: `fitGrid` runs it before the rows are set. -/
structure Scrollable (t : Terminal) : Prop where
  cursorRow_lt : t.cursorRow < kMaxRows
  cols_pos : 1 ≤ t.cols
  cols_le : t.cols ≤ kMaxCols
  inside : t.stray = false

/-- With enough fuel, scrolling brings the cursor into view and paints otherwise. -/
theorem scrollIntoView_spec (newRows fuel : ℕ) {t : Terminal} (hn : 1 ≤ newRows)
    (h : Scrollable t) (hfuel : t.cursorRow < newRows + fuel) :
    Scrollable (scrollIntoView newRows fuel t) ∧
      (scrollIntoView newRows fuel t).cursorRow < newRows ∧
      (scrollIntoView newRows fuel t).cols = t.cols ∧
      (scrollIntoView newRows fuel t).parser = t.parser := by
  induction fuel generalizing t with
  | zero => exact ⟨h, by simpa [scrollIntoView] using hfuel, rfl, rfl⟩
  | succ fuel ih =>
    unfold scrollIntoView
    split
    · next hge =>
      simp only
      have hrow := h.cursorRow_lt
      have hu : u32 (t.cursorRow + 1) = t.cursorRow + 1 := by
        unfold u32 kMaxRows at *
        omega
      -- While it is scrolled the screen ends with the cursor's row, whatever rows it had.
      set t1 : Terminal := { t with rows := u32 (t.cursorRow + 1) } with ht1
      have hrows : t1.rows = t.cursorRow + 1 := hu
      have hp : Paints t1 (scrollUp t1) :=
        scrollUp_paints (by omega) (by omega) h.cols_le
      have hcur : u32 ((scrollUp t1).cursorRow - 1) = t.cursorRow - 1 := by
        rw [hp.cursorRow]
        show u32 (t.cursorRow - 1) = t.cursorRow - 1
        unfold u32 kMaxRows at *
        omega
      set t2 : Terminal :=
        { scrollUp t1 with cursorRow := u32 ((scrollUp t1).cursorRow - 1) } with ht2
      have hrow2 : t2.cursorRow = t.cursorRow - 1 := hcur
      have hs2 : Scrollable t2 := by
        refine ⟨by omega, ?_, ?_, ?_⟩
        · show 1 ≤ (scrollUp t1).cols
          rw [hp.cols]
          exact h.cols_pos
        · show (scrollUp t1).cols ≤ kMaxCols
          rw [hp.cols]
          exact h.cols_le
        · show (scrollUp t1).stray = false
          rw [hp.stray]
          exact h.inside
      obtain ⟨hs, hlt, hc, hq⟩ := ih hs2 (by omega)
      exact ⟨hs, hlt, hc.trans hp.cols, hq.trans hp.parser⟩
    · exact ⟨h, by omega, rfl, rfl⟩

/-- A resize establishes the bounds, from any terminal whose cursor is in the storage: the rows and
columns it had do not matter. -/
theorem fitGrid_bounded {t : Terminal} (hrow : t.cursorRow < kMaxRows)
    (hcount : t.parser.paramCount ≤ 8) (hin : t.stray = false) (width height cellW lineH : ℤ) :
    Bounded (fitGrid t width height cellW lineH) ∧
      (fitGrid t width height cellW lineH).parser = t.parser := by
  set newCols := clampCells ((width - kPaddingX * 2).tdiv cellW) kMaxCols with hcols
  set newRows := clampCells ((height - kPaddingY * 2).tdiv lineH) kMaxRows with hrows
  have hc1 : 1 ≤ newCols := clampCells_pos _ (by decide)
  have hcM : newCols ≤ kMaxCols := clampCells_le _ (by decide)
  have hr1 : 1 ≤ newRows := clampCells_pos _ (by decide)
  have hrM : newRows ≤ kMaxRows := clampCells_le _ (by decide)
  unfold fitGrid
  simp only [← hcols, ← hrows]
  set t1 := upTo 0 newRows (fun r t =>
    upTo (if r < t.rows then t.cols else 0) newCols
      (fun c t => t.setCell r c ⟨space, kColorDefaultFg, kColorBackground⟩) t) t
  have h1 : Paints t t1 := by
    refine upTo_paints _ _ _ t ?_
    intro r t' _ hlt _
    refine upTo_paints _ _ _ t' ?_
    intro c t'' _ hclt _
    exact setCell_paints t'' _ (by omega) (by omega)
  set t2 : Terminal := { t1 with cols := newCols } with ht2
  have hs2 : Scrollable t2 := by
    refine ⟨?_, hc1, hcM, ?_⟩
    · show t1.cursorRow < kMaxRows
      rw [h1.cursorRow]
      exact hrow
    · show t1.stray = false
      rw [h1.stray]
      exact hin
  obtain ⟨hs3, hlt, hc3, hp3⟩ := scrollIntoView_spec newRows (t2.cursorRow + 1) hr1
    hs2 (by omega)
  have hparser : (scrollIntoView newRows (t2.cursorRow + 1) t2).parser = t.parser :=
    hp3.trans h1.parser
  set t3 := scrollIntoView newRows (t2.cursorRow + 1) t2
  set t4 : Terminal := { t3 with rows := newRows } with ht4
  -- Only the cursor's column can still be outside, until it is set back to the last one.
  have h4 : ∀ c, c ≤ t4.cols → Bounded { t4 with cursorCol := c } := by
    intro c hc
    exact ⟨hr1, hrM, hs3.cols_pos, hs3.cols_le, hlt, hc, by
      show t3.parser.paramCount ≤ 8
      rw [hparser]
      exact hcount, hs3.inside⟩
  split
  · have hp := touchRows_paints { t4 with cursorCol := t4.cols } 0 t4.rows
    exact ⟨(h4 _ (Nat.le_refl _)).paints hp, hp.parser.trans hparser⟩
  · next hn =>
    have hp := touchRows_paints t4 0 t4.rows
    exact ⟨(h4 t4.cursorCol (Nat.le_of_not_lt hn)).paints hp, hp.parser.trans hparser⟩

/-! ## Runs -/

/-- The size of a character cell, which the font gives. -/
structure CellSize where
  cellW : ℤ
  lineH : ℤ
  cellW_pos : 0 < cellW
  lineH_pos : 0 < lineH

/-- What happens to the terminal after its first resize. -/
inductive Event
  | byte (ch : Byte)
  | fit (width height : ℤ) (size : CellSize)

/-- An event: a byte of the shell, or a new size. -/
def step (t : Terminal) : Event → Terminal
  | .byte ch => parserFeed t ch
  | .fit width height size => fitGrid t width height size.cellW size.lineH

/-- The terminal that `on_create` resizes first: zeroed storage in the default colours. -/
def created : Terminal where
  grid := fun _ _ => ⟨0, 0, 0⟩
  rows := 0
  cols := 0
  cursorRow := 0
  cursorCol := 0
  curFg := kColorDefaultFg
  curBg := kColorBackground
  parser := ⟨.ground, fun _ => 0, 0, false⟩
  dirtyTop := 0
  dirtyBottom := 0
  stray := false

/-- The terminal after its first resize. -/
def shown (width height : ℤ) (size : CellSize) : Terminal :=
  fitGrid created width height size.cellW size.lineH

/-- The parameters that an event computes are in range. -/
def EventInRange (t : Terminal) : Event → Prop
  | .byte ch => ParamsInRange t ch
  | .fit _ _ _ => True

/-- The numeral that an event extends fits. -/
def EventNumeralFits (t : Terminal) : Event → Prop
  | .byte ch => NumeralFits t ch
  | .fit _ _ _ => True

/-- A step whose numeral fits keeps the invariant. -/
theorem step_sound (t : Terminal) (e : Event) (h : Sound t) (hfit : EventNumeralFits t e) :
    Sound (step t e) := by
  cases e with
  | byte ch => exact parserFeed_sound h hfit
  | fit width height size =>
    have hrow := Nat.lt_of_lt_of_le h.bounded.cursorRow_lt h.bounded.rows_le
    obtain ⟨hb, hp⟩ := fitGrid_bounded hrow h.bounded.paramCount_le h.bounded.inside width height
      size.cellW size.lineH
    refine ⟨hb, ?_⟩
    show ParamsFit (fitGrid t width height size.cellW size.lineH).parser
    rw [hp]
    exact h.params

/-- The first resize establishes the invariant. -/
theorem shown_sound (width height : ℤ) (size : CellSize) : Sound (shown width height size) := by
  obtain ⟨hb, hp⟩ := fitGrid_bounded (t := created) (by decide) (by decide) rfl width height
    size.cellW size.lineH
  refine ⟨hb, ?_⟩
  show ParamsFit (fitGrid created width height size.cellW size.lineH).parser
  rw [hp]
  intro i
  show (0 : ℤ) ≤ 0 ∧ (0 : ℤ) < 2^31
  decide

/-- Over any run of bytes and resizes after the first resize, the bounds hold after every step and
no parameter's computation leaves the range of an `int` exactly when every numeral fits. -/
theorem bounded_iff_numeralFits (width height : ℤ) (size : CellSize) (es : List Event) :
    (Bounded (shown width height size) ∧
      Along step (fun t e => EventInRange t e ∧ Bounded (step t e)) (shown width height size) es) ↔
    Along step EventNumeralFits (shown width height size) es := by
  have hs := shown_sound width height size
  have hiff : ∀ t e, Sound t →
      (EventNumeralFits t e ↔ EventInRange t e ∧ Bounded (step t e)) := by
    intro t e h
    have hrange : EventInRange t e ↔ EventNumeralFits t e := by
      cases e with
      | byte ch => exact paramsInRange_iff h.params ch
      | fit _ _ _ => exact Iff.rfl
    constructor
    · intro hfit
      exact ⟨hrange.2 hfit, (step_sound t e h hfit).bounded⟩
    · intro hr
      exact hrange.1 hr.1
  rw [along_congr_of_invariant _ hiff step_sound hs]
  exact ⟨fun h => h.2, fun h => ⟨hs.bounded, h⟩⟩

/-- `ESC [ 4294966296 A`. The numeral wraps to -1000, and the cursor moves a thousand rows down. -/
def longNumeral : List Event :=
  [0x1B, 0x5B, 0x34, 0x32, 0x39, 0x34, 0x39, 0x36, 0x36, 0x32, 0x39, 0x36, 0x41].map Event.byte

/-- On a terminal of two rows the sequence overflows its parameter and takes the cursor out of the
grid, where the next character is written. -/
theorem longNumeral_leaves : ∃ size : CellSize,
    ¬(Bounded (shown 40 56 size) ∧
      Along step (fun t e => EventInRange t e ∧ Bounded (step t e)) (shown 40 56 size)
        longNumeral) ∧
    (longNumeral.foldl step (shown 40 56 size)).cursorRow = 1000 ∧
    (step (longNumeral.foldl step (shown 40 56 size)) (.byte 0x78)).stray = true := by
  refine ⟨⟨8, 16, by decide, by decide⟩, ?_, by decide, by decide⟩
  rintro ⟨hb, h⟩
  have hlast := foldl_of_invariant Bounded (fun _ _ _ h => h.2) hb h
  have hrow := hlast.cursorRow_lt
  have hle := hlast.rows_le
  have h1000 : (longNumeral.foldl step (shown 40 56 ⟨8, 16, by decide, by decide⟩)).cursorRow
      = 1000 := by decide
  unfold kMaxRows at hle
  omega

end IUserApps.Terminal
