import IUserApps.Terminal.Cells

/-!
# The screen as a window on a text

What a program that only writes text expects of a terminal: its output is a list of lines, a line
longer than the screen is wide goes on in the row below, and the screen shows the end of it. `lines`,
`cut` and `pieces` say this without a terminal. A terminal that is fed printable bytes and CR LF
shows the last pieces (`shown_showsText`), whatever the length of the text.

The terminal wraps a full row only when one more character comes, which is what makes a line of
exactly two rows two pieces and not three. The state in between, the cursor past the last column, is
the one in which the last piece has `cols` bytes.
-/

namespace IUserApps.Terminal

open Loops

/-! ## Text -/

/-- A text is made of printable bytes and line ends. -/
inductive Token
  | printable (ch : Byte) (h : 32 ≤ ch.toNat)
  | crlf

/-- The bytes that stand for a token. -/
def Token.bytes : Token → List Byte
  | .printable ch _ => [ch]
  | .crlf => [13, 10]

/-- The lines of a text that goes on after the bytes `cur` of a line. -/
def linesFrom : List Byte → List Token → List (List Byte)
  | cur, [] => [cur]
  | cur, .printable ch _ :: ts => linesFrom (cur ++ [ch]) ts
  | cur, .crlf :: ts => cur :: linesFrom [] ts

/-- The lines of a text: it is cut at each CR LF. -/
def lines (ts : List Token) : List (List Byte) := linesFrom [] ts

/-- A line in pieces of `cols` bytes, of which the last may be shorter. -/
def cut (cols : ℕ) (line : List Byte) : List (List Byte) :=
  if _h : line.length ≤ cols ∨ cols = 0 then [line]
  else line.take cols :: cut cols (line.drop cols)
termination_by line.length
decreasing_by
  rw [List.length_drop]
  omega

/-- The rows that a text takes. -/
def pieces (cols : ℕ) (ts : List Token) : List (List Byte) := (lines ts).flatMap (cut cols)

/-- The pieces that a screen of `rows` rows has room for: the last ones. -/
def visible (rows : ℕ) (ps : List (List Byte)) : List (List Byte) := ps.drop (ps.length - rows)

/-- A cell of a row that shows a piece, blank past its end. -/
def textCell (piece : List Byte) (c : ℕ) : Cell :=
  ⟨piece.getD c space, kColorDefaultFg, kColorBackground⟩

/-- A terminal of `rows` by `cols` cells shows pieces of text: the last of them from the top row
down, with the cursor at the end of the last one. -/
structure ShowsText (rows cols : ℕ) (ps : List (List Byte)) (t : Terminal) : Prop where
  rows_eq : t.rows = rows
  cols_eq : t.cols = cols
  cursorRow : t.cursorRow + 1 = min ps.length rows
  cursorCol : t.cursorCol = (ps.getLastD []).length
  cells : ∀ r c, r < rows → c < cols → t.grid r c = textCell ((visible rows ps).getD r []) c

/-! ## Pieces -/

/-- One more byte goes on the last piece of a line, or on a new one when that is full. -/
theorem cut_append {cols : ℕ} (hpos : 1 ≤ cols) (line : List Byte) :
    ∃ init last, cut cols line = init ++ [last] ∧ last.length ≤ cols ∧
      ∀ ch, cut cols (line ++ [ch]) =
        if last.length < cols then init ++ [last ++ [ch]] else init ++ [last] ++ [[ch]] := by
  induction line using cut.induct cols with
  | case1 line h =>
    -- The line is its own last piece.
    have hle : line.length ≤ cols := by omega
    refine ⟨[], line, by rw [cut, dif_pos h]; rfl, hle, fun ch => ?_⟩
    have hlen : (line ++ [ch]).length = line.length + 1 := List.length_append
    by_cases hroom : line.length < cols
    · rw [if_pos hroom, cut, dif_pos (by omega)]
      rfl
    · have hfull : cols = line.length := by omega
      have hone : cut cols [ch] = [[ch]] := by
        rw [cut, dif_pos (by simpa using Or.inl hpos)]
      rw [if_neg hroom, cut, dif_neg (by omega), hfull, List.take_left, List.drop_left, ← hfull,
        hone]
      rfl
  | case2 line h ih =>
    -- The first piece is full, and one more byte goes behind the pieces after it.
    obtain ⟨init, last, hcut, hle, hmore⟩ := ih
    have hlong : cols ≤ line.length := by omega
    have hcut' : cut cols line = line.take cols :: init ++ [last] := by
      rw [cut, dif_neg h, hcut]
      rfl
    refine ⟨line.take cols :: init, last, hcut', hle, fun ch => ?_⟩
    have hlen : (line ++ [ch]).length = line.length + 1 := List.length_append
    rw [cut, dif_neg (by omega), List.take_append_of_le_length hlong,
      List.drop_append_of_le_length hlong, hmore ch]
    split
    · rfl
    · rfl

/-- A row of the screen, by the place of its piece in the text. -/
theorem visible_getD (rows : ℕ) (ps : List (List Byte)) (r : ℕ) :
    (visible rows ps).getD r [] = ps.getD (ps.length - rows + r) [] := by
  unfold visible
  rw [List.getD_eq_getElem?_getD, List.getElem?_drop, ← List.getD_eq_getElem?_getD]

/-- A row of the screen once the last piece has grown. -/
theorem visible_replaceLast {rows : ℕ} (init : List (List Byte)) (last last' : List Byte) {r : ℕ}
    (hr : r < rows) : (visible rows (init ++ [last'])).getD r [] =
      if r + 1 = min (init ++ [last]).length rows then last'
      else (visible rows (init ++ [last])).getD r [] := by
  rw [visible_getD, visible_getD]
  simp only [List.length_append, List.length_singleton]
  by_cases hlast : r + 1 = min (init.length + 1) rows
  · have hidx : init.length + 1 - rows + r = init.length := by omega
    rw [if_pos hlast, hidx]
    simp
  · rw [if_neg hlast]
    simp only [List.getD_eq_getElem?_getD, List.getElem?_append]
    split
    · rfl
    · -- Past the last piece.
      have hpast : 1 ≤ init.length + 1 - rows + r - init.length := by omega
      rw [List.getElem?_eq_none (by simpa using hpast), List.getElem?_eq_none (by simpa using hpast)]

/-- A row of the screen once an empty piece has been added: the rows move up when there were as many
pieces as rows. -/
theorem visible_newPiece {rows : ℕ} (ps : List (List Byte)) {r : ℕ} (hr : r < rows) :
    (visible rows (ps ++ [[]])).getD r [] =
      if ps.length < rows then (visible rows ps).getD r []
      else if r + 1 < rows then (visible rows ps).getD (r + 1) [] else [] := by
  have hgrow : ∀ i, (ps ++ [[]]).getD i [] = ps.getD i [] := by
    intro i
    simp only [List.getD_eq_getElem?_getD, List.getElem?_append]
    split
    · rfl
    · next h =>
      rw [List.getElem?_eq_none (Nat.le_of_not_lt h)]
      rcases Nat.eq_zero_or_pos (i - ps.length) with hi | hi
      · rw [hi]
        rfl
      · rw [List.getElem?_eq_none (by simpa using Nat.succ_le_of_lt hi)]
  simp only [visible_getD, hgrow, List.length_append, List.length_singleton]
  split
  · have hidx : ps.length + 1 - rows + r = ps.length - rows + r := by omega
    rw [hidx]
  · split
    · have hidx : ps.length + 1 - rows + r = ps.length - rows + (r + 1) := by omega
      rw [hidx]
    · rw [List.getD_eq_getElem?_getD, List.getElem?_eq_none (by omega)]
      rfl

/-! ## The terminal as a window on the text -/

/-- The terminal shows pieces of text and is ready for more. -/
structure Shows (rows cols : ℕ) (ps : List (List Byte)) (t : Terminal) : Prop
    extends ShowsText rows cols ps t where
  bounded : Bounded t
  ground : t.parser.state = .ground
  curFg : t.curFg = kColorDefaultFg
  curBg : t.curBg = kColorBackground

variable {rows cols : ℕ} {ps : List (List Byte)} {t : Terminal}

/-- A printable byte goes on the grid. -/
theorem parserFeed_printable (hs : t.parser.state = .ground) {ch : Byte} (h : 32 ≤ ch.toNat) :
    parserFeed t ch = putChar t ch := by
  have hne : ∀ b : Byte, b.toNat < 32 → ch ≠ b := by
    intro b hb heq
    rw [heq] at h
    omega
  unfold parserFeed feedGround
  rw [hs]
  simp only
  rw [if_neg (hne _ (by decide)), if_neg (hne _ (by decide)), if_neg (hne _ (by decide)),
    if_neg (hne _ (by decide)), if_neg (hne _ (by decide)), if_neg (hne _ (by decide)), if_pos h]

/-- CR LF moves the cursor to the start of a new line. -/
theorem feedBytes_crlf (hs : t.parser.state = .ground) :
    feedBytes t [13, 10] = newline { t with cursorCol := 0 } := by
  have hcr : parserFeed t 13 = { t with cursorCol := 0 } := by
    unfold parserFeed feedGround
    rw [hs]
    rfl
  have hlf : parserFeed { t with cursorCol := 0 } 10 = newline { t with cursorCol := 0 } := by
    unfold parserFeed feedGround
    rw [hs]
    rfl
  show parserFeed (parserFeed t 13) 10 = _
  rw [hcr, hlf]

/-- A new line adds an empty piece. -/
theorem newline_shows (h : Shows rows cols ps t) :
    Shows rows cols (ps ++ [[]]) (newline { t with cursorCol := 0 }) := by
  have hrows := h.rows_eq
  have hcols := h.cols_eq
  have hcursor := h.cursorRow
  have hpos := h.bounded.rows_pos
  have hmost := h.bounded.rows_le
  -- `newline` is called with the cursor back in the first column.
  set t0 : Terminal := { t with cursorCol := 0 } with ht0
  have hb0 : Bounded t0 := h.bounded.moveCursor h.bounded.cursorRow_lt (Nat.zero_le _)
  obtain ⟨hb, hparser, hcol⟩ := newline_bounded hb0
  have hlen : (ps ++ [[]]).length = ps.length + 1 := List.length_append
  have hlast : (ps ++ [[]]).getLastD [] = [] := List.getLastD_concat
  have hnext : u32 (t.cursorRow + 1) = t.cursorRow + 1 := by
    have hlt := h.bounded.cursorRow_lt
    unfold u32 kMaxRows at *
    omega
  have hblank : t0.blank = textCell [] 0 := by
    show (⟨space, t.curFg, t.curBg⟩ : Cell) = _
    rw [h.curFg, h.curBg]
    rfl
  have hground : (newline t0).parser.state = .ground := by
    rw [hparser]
    exact h.ground
  by_cases hroom : ps.length < rows
  · -- The pieces do not fill the screen yet: the cursor goes one row down, and no cell changes.
    have hnew : newline t0 = { t0 with cursorRow := t.cursorRow + 1 } := by
      unfold newline
      rw [if_neg (by show ¬ t.rows ≤ u32 (t.cursorRow + 1); omega)]
      show { t0 with cursorRow := u32 (t.cursorRow + 1) } = _
      rw [hnext]
    refine ⟨⟨?_, ?_, ?_, ?_, ?_⟩, hb, hground, ?_, ?_⟩
    · rw [hnew]
      exact hrows
    · rw [hnew]
      exact hcols
    · rw [hnew, hlen]
      show t.cursorRow + 1 + 1 = _
      omega
    · rw [hcol, hlast]
      rfl
    · intro r c hr hc
      rw [visible_newPiece ps hr, if_pos hroom, hnew]
      exact h.cells r c hr hc
    · rw [hnew]
      exact h.curFg
    · rw [hnew]
      exact h.curBg
  · -- They fill it: the rows move up, the piece at the top leaves, and the last row becomes blank.
    have hnew : newline t0 = scrollUp t0 := by
      unfold newline
      rw [if_pos (by show t.rows ≤ u32 (t.cursorRow + 1); omega)]
    have hp : Paints t0 (scrollUp t0) := scrollUp_paints hb0.rows_pos hb0.rows_le hb0.cols_le
    refine ⟨⟨?_, ?_, ?_, ?_, ?_⟩, hb, hground, ?_, ?_⟩
    · rw [hnew, hp.rows]
      exact hrows
    · rw [hnew, hp.cols]
      exact hcols
    · rw [hnew, hp.cursorRow, hlen]
      show t.cursorRow + 1 = _
      omega
    · rw [hcol, hlast]
      rfl
    · intro r c hr hc
      have hlt : t0.rows < 2^32 := Nat.lt_of_le_of_lt hb0.rows_le (by decide)
      have hin : r < t0.rows ∧ c < t0.cols := ⟨by rw [← hrows] at hr; exact hr,
        by rw [← hcols] at hc; exact hc⟩
      rw [visible_newPiece ps hr, if_neg hroom, hnew, scrollUp_grid hb0.rows_pos hlt, if_pos hin]
      have hsame : t0.rows = rows := hrows
      rw [hsame]
      -- A row that moved shows the piece of the row below it, the last one the empty piece.
      split
      · next hmoves => exact h.cells (r + 1) c hmoves hc
      · rw [hblank]
        rfl
    · rw [hnew, hp.curFg]
      exact h.curFg
    · rw [hnew, hp.curBg]
      exact h.curBg

/-- A character that has room is written at the cursor. -/
theorem putChar_grid (hroom : t.cursorCol < t.cols) (ch : Byte) (r c : ℕ) :
    (putChar t ch).grid r c =
      if r = t.cursorRow ∧ c = t.cursorCol then ⟨ch, t.curFg, t.curBg⟩ else t.grid r c := by
  unfold putChar
  rw [if_neg (by omega)]
  show (touchRows (t.setCell t.cursorRow t.cursorCol ⟨ch, t.curFg, t.curBg⟩) t.cursorRow
    (u32 (t.cursorRow + 1))).grid r c = _
  rw [touchRows_grid]
  rfl

/-- A character that has room moves the cursor one column on. -/
theorem putChar_frame (hb : Bounded t) (hroom : t.cursorCol < t.cols) (ch : Byte) :
    Paints { t with cursorCol := t.cursorCol + 1 } (putChar t ch) := by
  have hrow : t.cursorRow < kMaxRows := Nat.lt_of_lt_of_le hb.cursorRow_lt hb.rows_le
  have hcol : t.cursorCol < kMaxCols := Nat.lt_of_lt_of_le hroom hb.cols_le
  have hp := (setCell_paints t ⟨ch, t.curFg, t.curBg⟩ hrow hcol).trans
    (touchRows_paints _ t.cursorRow (u32 (t.cursorRow + 1)))
  have hnext : u32 (t.cursorCol + 1) = t.cursorCol + 1 := by
    unfold u32 kMaxCols at *
    omega
  have hput : putChar t ch = { touchRows (t.setCell t.cursorRow t.cursorCol
      ⟨ch, t.curFg, t.curBg⟩) t.cursorRow (u32 (t.cursorRow + 1)) with
        cursorCol := u32 (t.cursorCol + 1) } := by
    unfold putChar
    rw [if_neg (by omega)]
    simp only [(touchRows_paints _ _ _).cursorCol, setCell, check]
  rw [hput, hnext]
  exact ⟨hp.rows, hp.cols, hp.cursorRow, rfl, hp.curFg, hp.curBg, hp.parser, hp.stray⟩

/-- A character that has room goes at the end of the last piece. -/
theorem putChar_shows {init : List (List Byte)} {last : List Byte}
    (h : Shows rows cols (init ++ [last]) t) (hroom : last.length < cols) (ch : Byte) :
    Shows rows cols (init ++ [last ++ [ch]]) (putChar t ch) := by
  have hcursor := h.cursorRow
  have hcol : t.cursorCol = last.length := by
    rw [h.cursorCol, List.getLastD_concat]
  have hin : t.cursorCol < t.cols := by
    rw [hcol, h.cols_eq]
    exact hroom
  obtain ⟨hb, hparser⟩ := putChar_bounded h.bounded ch
  have hp := putChar_frame h.bounded hin ch
  have hlen : (init ++ [last ++ [ch]]).length = (init ++ [last]).length := by
    simp only [List.length_append, List.length_singleton]
  refine ⟨⟨?_, ?_, ?_, ?_, ?_⟩, hb, ?_, ?_, ?_⟩
  · rw [hp.rows]
    exact h.rows_eq
  · rw [hp.cols]
    exact h.cols_eq
  · rw [hp.cursorRow, hlen]
    exact h.cursorRow
  · -- The cursor moves with the end of the piece.
    rw [hp.cursorCol, List.getLastD_concat, List.length_append]
    show t.cursorCol + 1 = last.length + 1
    omega
  · intro r c hr hc
    have hold := h.cells r c hr hc
    rw [putChar_grid hin, visible_replaceLast init last (last ++ [ch]) hr, ← hcursor,
      hcol, h.curFg, h.curBg]
    by_cases hrow : r = t.cursorRow
    · -- The cursor's row is the one of the last piece.
      rw [if_pos (congrArg (· + 1) hrow)]
      have hpiece : (visible rows (init ++ [last])).getD r [] = last := by
        have hself := visible_replaceLast init last last hr
        rw [if_pos (by omega)] at hself
        exact hself
      rw [hold, hpiece]
      -- The new cell, or one whose character was there before.
      by_cases hc' : c = last.length
      · rw [if_pos ⟨hrow, hc'⟩, hc']
        simp [textCell]
      · rw [if_neg (fun hand => hc' hand.2)]
        unfold textCell
        simp only [List.getD_eq_getElem?_getD, List.getElem?_append]
        split
        · rfl
        · have hpast : 1 ≤ c - last.length := by omega
          rw [List.getElem?_eq_none (by omega), List.getElem?_eq_none (by simpa using hpast)]
    · rw [if_neg (fun hand => hrow hand.1), if_neg (by omega)]
      exact hold
  · rw [hparser]
    exact h.ground
  · rw [hp.curFg]
    exact h.curFg
  · rw [hp.curBg]
    exact h.curBg

/-- A character for which the row is full goes on a new line. -/
theorem putChar_wrap (hfull : t.cols ≤ t.cursorCol)
    (hroom : (newline { t with cursorCol := 0 }).cursorCol <
      (newline { t with cursorCol := 0 }).cols) (ch : Byte) :
    putChar t ch = putChar (newline { t with cursorCol := 0 }) ch := by
  unfold putChar
  rw [if_pos hfull, if_neg (Nat.not_le_of_lt hroom)]

/-- A printable byte extends the line that the text ends in. -/
theorem printable_shows {done : List (List Byte)} {cur : List Byte}
    (h : Shows rows cols (done ++ cut cols cur) t) {ch : Byte} (hch : 32 ≤ ch.toNat) :
    Shows rows cols (done ++ cut cols (cur ++ [ch])) (parserFeed t ch) := by
  have hpos : 1 ≤ cols := by
    rw [← h.cols_eq]
    exact h.bounded.cols_pos
  obtain ⟨init, last, hcut, hle, hmore⟩ := cut_append hpos cur
  rw [hcut, ← List.append_assoc] at h
  rw [parserFeed_printable h.ground hch, hmore ch]
  split
  · next hroom =>
    rw [← List.append_assoc]
    exact putChar_shows h hroom ch
  · next hfull =>
    -- The row is full: a new piece is started, and the character is its first.
    have hlast : last.length = cols := by omega
    have hnew := newline_shows h
    have hcol : t.cols ≤ t.cursorCol := by
      rw [h.cursorCol, List.getLastD_concat, h.cols_eq]
      exact Nat.le_of_eq hlast.symm
    have hroom : (newline { t with cursorCol := 0 }).cursorCol <
        (newline { t with cursorCol := 0 }).cols := by
      rw [hnew.cursorCol, hnew.cols_eq, List.getLastD_concat]
      exact hpos
    rw [putChar_wrap hcol hroom, ← List.append_assoc, ← List.append_assoc]
    exact putChar_shows hnew hpos ch

/-- CR LF starts a line. -/
theorem crlf_shows {done : List (List Byte)} {cur : List Byte}
    (h : Shows rows cols (done ++ cut cols cur) t) :
    Shows rows cols (done ++ cut cols cur ++ cut cols []) (feedBytes t [13, 10]) := by
  have hempty : cut cols [] = [[]] := by
    rw [cut, dif_pos (by simp)]
  rw [feedBytes_crlf h.ground, hempty]
  exact newline_shows h

/-- Text that goes on after the bytes `cur` of a line is shown after what was there. -/
theorem feedBytes_shows (ts : List Token) (done : List (List Byte)) {cur : List Byte}
    {t : Terminal} (h : Shows rows cols (done ++ cut cols cur) t) :
    Shows rows cols (done ++ (linesFrom cur ts).flatMap (cut cols))
      (feedBytes t (ts.flatMap Token.bytes)) := by
  induction ts generalizing done cur t with
  | nil =>
    show Shows rows cols (done ++ [cur].flatMap (cut cols)) t
    rw [List.flatMap_singleton]
    exact h
  | cons token ts ih =>
    have hsplit : feedBytes t ((token :: ts).flatMap Token.bytes) =
        feedBytes (feedBytes t token.bytes) (ts.flatMap Token.bytes) := by
      unfold feedBytes
      rw [List.flatMap_cons, List.foldl_append]
    rw [hsplit]
    cases token with
    | printable ch hch => exact ih done (printable_shows h hch)
    | crlf =>
      have hnext := ih _ (crlf_shows h)
      rw [List.append_assoc] at hnext
      exact hnext

/-! ## The first resize -/

/-- The pass of `fitGrid` that blanks the cells of a row that come into view. -/
def blankNew (newCols r : ℕ) (t : Terminal) : Terminal :=
  upTo (if r < t.rows then t.cols else 0) newCols
    (fun c t => t.setCell r c ⟨space, kColorDefaultFg, kColorBackground⟩) t

/-- Blanking new columns leaves the frame. -/
theorem blankNew_sameFrame (newCols r : ℕ) (t : Terminal) : SameFrame t (blankNew newCols r t) := by
  unfold blankNew
  exact upTo_sameFrame fun c t' => setCell_sameFrame t' r c _

/-- A cell as it comes into view. -/
def defaultBlank : Cell := ⟨space, kColorDefaultFg, kColorBackground⟩

/-- A resize blanks the cells of the new rows and columns that were not in view. -/
theorem blankNew_grid (t : Terminal) (newCols newRows : ℕ) :
    SameFrame t (upTo 0 newRows (blankNew newCols) t) ∧
      ∀ r c, (upTo 0 newRows (blankNew newCols) t).grid r c =
        if r < newRows ∧ c < newCols ∧ (t.rows ≤ r ∨ t.cols ≤ c) then defaultBlank
        else t.grid r c := by
  refine upTo_rule (fun i t' => SameFrame t t' ∧ ∀ r c, t'.grid r c =
    if r < i ∧ c < newCols ∧ (t.rows ≤ r ∨ t.cols ≤ c) then defaultBlank else t.grid r c)
    (Nat.zero_le _) ?_ ?_
  · refine ⟨SameFrame.refl t, fun r c => ?_⟩
    rw [if_neg (by omega)]
  · rintro i t' - - ⟨hframe, hgrid⟩
    refine ⟨hframe.trans (blankNew_sameFrame newCols i t'), fun r c => ?_⟩
    have hblank := (writeRow_spec _ t' i (fun _ => defaultBlank)
      (if i < t'.rows then t'.cols else 0) newCols
      fun c t'' _ _ => ⟨setCell_sameFrame t'' i c _, fun _ _ => rfl⟩).2 r c
    rw [hframe.rows, hframe.cols] at hblank
    -- The row starts where the columns in view end, or is new as a whole.
    have hstart : (r = i ∧ (if i < t.rows then t.cols else 0) ≤ c ∧ c < newCols) ↔
        (r = i ∧ c < newCols ∧ (t.rows ≤ r ∨ t.cols ≤ c)) := by
      split <;> omega
    unfold blankNew
    rw [hframe.rows, hframe.cols]
    refine hblank.trans ?_
    rw [hgrid]
    by_cases hrow : r = i ∧ c < newCols ∧ (t.rows ≤ r ∨ t.cols ≤ c)
    · rw [if_pos (hstart.2 hrow), if_pos (by omega)]
    · rw [if_neg (mt hstart.1 hrow)]
      by_cases hdone : r < i ∧ c < newCols ∧ (t.rows ≤ r ∨ t.cols ≤ c)
      · rw [if_pos hdone, if_pos (by omega)]
      · rw [if_neg hdone, if_neg (by omega)]

/-- The terminal after its first resize shows the empty text. -/
theorem shown_shows (width height : ℤ) (size : CellSize) :
    Shows (shown width height size).rows (shown width height size).cols [[]]
      (shown width height size) := by
  have hb := (shown_sound width height size).bounded
  set newCols := clampCells ((width - kPaddingX * 2).tdiv size.cellW) kMaxCols with hcols
  set newRows := clampCells ((height - kPaddingY * 2).tdiv size.lineH) kMaxRows with hrows
  have hr1 : 1 ≤ newRows := clampCells_pos _ (by decide)
  obtain ⟨hframe, hgrid⟩ := blankNew_grid created newCols newRows
  set t1 := upTo 0 newRows (blankNew newCols) created with ht1
  have hrow : t1.cursorRow = 0 := hframe.cursorRow
  have hcol : t1.cursorCol = 0 := hframe.cursorCol
  -- The cursor is in the first row, so nothing is scrolled.
  have hscroll : scrollIntoView newRows (t1.cursorRow + 1) { t1 with cols := newCols } =
      { t1 with cols := newCols } := by
    unfold scrollIntoView
    rw [if_neg (by show ¬ newRows ≤ t1.cursorRow; omega)]
  have hshown : shown width height size =
      touchAll { t1 with cols := newCols, rows := newRows } := by
    unfold shown fitGrid
    simp only [← hcols, ← hrows]
    show touchAll (if (scrollIntoView newRows (t1.cursorRow + 1) { t1 with cols := newCols }).cols <
      (scrollIntoView newRows (t1.cursorRow + 1) { t1 with cols := newCols }).cursorCol then _
      else _) = _
    rw [if_neg (by rw [hscroll]; show ¬ newCols < t1.cursorCol; omega)]
    show touchAll { scrollIntoView newRows (t1.cursorRow + 1) { t1 with cols := newCols } with
      rows := newRows } = _
    rw [hscroll]
  have hp : Paints { t1 with cols := newCols, rows := newRows } (shown width height size) := by
    rw [hshown]
    exact touchRows_paints _ _ _
  have hcells : (shown width height size).grid = t1.grid := by
    rw [hshown]
    exact touchRows_grid _ _ _
  refine ⟨⟨rfl, rfl, ?_, ?_, ?_⟩, hb, ?_, ?_, ?_⟩
  · rw [hp.cursorRow]
    show t1.cursorRow + 1 = min 1 (shown width height size).rows
    have hpos := hb.rows_pos
    omega
  · rw [hp.cursorCol]
    exact hcol
  · intro r c hr hc
    rw [hp.rows] at hr
    rw [hp.cols] at hc
    have hempty : (visible (shown width height size).rows [[]]).getD r [] = [] := by
      rw [visible_getD]
      generalize [[]].length - _ + r = i
      cases i <;> rfl
    -- Before its first resize the terminal has no rows, so every cell comes into view.
    rw [hcells, hgrid, if_pos ⟨hr, hc, Or.inl (Nat.zero_le r)⟩, hempty]
    rfl
  · rw [hp.parser]
    show t1.parser.state = .ground
    rw [hframe.parser]
    rfl
  · rw [hp.curFg]
    exact hframe.curFg
  · rw [hp.curBg]
    exact hframe.curBg

/-- A terminal that is fed a text of printable bytes and line ends after its first resize, in
blocks of any size, shows the last pieces of the text. -/
theorem shown_showsText (width height : ℤ) (size : CellSize) (ts : List Token)
    (blocks : List (List Byte)) (h : blocks.flatten = ts.flatMap Token.bytes) :
    ShowsText (shown width height size).rows (shown width height size).cols
      (pieces (shown width height size).cols ts)
      (blocks.foldl feedBytes (shown width height size)) := by
  have hstart := shown_shows width height size
  have hempty : cut (shown width height size).cols [] = [[]] := by
    rw [cut, dif_pos (by simp)]
  rw [← hempty] at hstart
  have hrun := feedBytes_shows ts [] hstart
  have hblocks : blocks.foldl feedBytes (shown width height size) =
      feedBytes (shown width height size) (ts.flatMap Token.bytes) := by
    rw [← h]
    exact List.foldl_flatten.symm
  rw [hblocks]
  exact hrun.toShowsText

/-- Two rows of two columns, fed `abcd`, CR LF and `e` in two blocks, show `cd` and `e`. -/
theorem shown_showsText_scrolled : ∃ size : CellSize,
    ShowsText (shown 40 56 size).rows (shown 40 56 size).cols
      (pieces (shown 40 56 size).cols [.printable 0x61 (by decide), .printable 0x62 (by decide),
        .printable 0x63 (by decide), .printable 0x64 (by decide), .crlf,
        .printable 0x65 (by decide)])
      ([[0x61, 0x62, 0x63], [0x64, 13, 10, 0x65]].foldl feedBytes (shown 40 56 size)) :=
  ⟨⟨8, 16, by decide, by decide⟩, shown_showsText _ _ _ _ _ rfl⟩

end IUserApps.Terminal
